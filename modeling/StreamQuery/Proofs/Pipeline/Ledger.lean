import StreamQuery.Proofs.Pipeline.Transactions

/-!
# Ledgers

A ledger tells how the results that a pipeline has sent came about, transaction by transaction. Each
transaction commits the same number of windows over consecutive matches, all read at one version;
the next transaction begins with the arrival in whose matches the last window ends.
-/

namespace StreamQuery

namespace Pipeline

/-- After a number of matches from a start on, the next transaction begins with the arrival in whose
matches they end, or after the arrivals with these matches. -/
def NextStart (pipeline : Pipeline) (arrived : List Tuple) (snapshot : Snapshot)
    (count start next : Nat) : Prop :=
  ∃ front origin back, arrived.drop start = front ++ origin :: back ∧
    (front.flatMap (pipeline.sends snapshot)).length ≤ count ∧
    count < ((front ++ [origin]).flatMap (pipeline.sends snapshot)).length ∧
    next = start + front.length

theorem NextStart.append {pipeline : Pipeline} {arrived : List Tuple} {snapshot : Snapshot}
    {count start next : Nat} (next_start : pipeline.NextStart arrived snapshot count start next)
    (later : List Tuple) : pipeline.NextStart (arrived ++ later) snapshot count start next := by
  obtain ⟨front, origin, back, arrivals, reached, passed, next_eq⟩ := next_start
  refine ⟨front, origin, back ++ later.drop (start - arrived.length), ?_, reached, passed, next_eq⟩
  rw [List.drop_append, arrivals, List.append_assoc, List.cons_append]

/-- In order, all that arrives before the next transaction is data, and the data from its start on
begins with the input in whose matches the transaction ends. -/
theorem NextStart.exists_data {pipeline : Pipeline} {arrived : List Tuple} {snapshot : Snapshot}
    {count start next : Nat} (next_start : pipeline.NextStart arrived snapshot count start next)
    (ordered : arrived.Pairwise Tuple.ComesBefore) :
    ∃ front, dataOf (arrived.take next) = dataOf (arrived.take start) ++ front ∧
      (front.flatMap (pipeline.matchesOf snapshot)).length ≤ count ∧
      ∀ origin rest, dataOf (arrived.drop next) = origin :: rest →
        count < ((front ++ [origin]).flatMap (pipeline.matchesOf snapshot)).length := by
  obtain ⟨front, last, back, arrivals, reached, passed, rfl⟩ := next_start
  have later_ordered : (front ++ last :: back).Pairwise Tuple.ComesBefore := by
    rw [← arrivals]
    exact ordered.sublist (List.drop_sublist _ _)
  obtain ⟨_, back_ordered, before_last⟩ := List.pairwise_append.mp later_ordered
  have is_data (tuple : Tuple) (member : tuple ∈ front) : tuple.isEndOfStream = false :=
    (before_last tuple member last List.mem_cons_self).1
  have front_data : dataOf front = front :=
    List.filter_eq_self.mpr fun tuple member => by simp [is_data tuple member]
  have sends_eq : front.flatMap (pipeline.sends snapshot) =
      front.flatMap (pipeline.matchesOf snapshot) :=
    List.flatMap_congr fun tuple member => sends_of_data (is_data tuple member)
  refine ⟨front, ?_, sends_eq ▸ reached, fun origin rest origin_eq => ?_⟩
  · rw [List.take_add, arrivals, List.take_left, dataOf_append, front_data]
  · rw [← List.drop_drop, arrivals, List.drop_left] at origin_eq
    cases is_marker : last.isEndOfStream with
    | true =>
        -- Nothing arrives after a marker.
        have nothing_later : dataOf back = [] := by
          refine List.filter_eq_nil_iff.mpr fun other member => ?_
          have contradiction := ((List.pairwise_cons.mp back_ordered).1 other member).1
          rw [is_marker] at contradiction
          cases contradiction
        rw [dataOf_cons_of_marker is_marker, nothing_later] at origin_eq
        cases origin_eq
    | false =>
        rw [dataOf_cons_of_data is_marker] at origin_eq
        obtain ⟨rfl, _⟩ := List.cons.inj origin_eq
        rwa [List.flatMap_append, sends_eq, List.flatMap_singleton, sends_of_data is_marker,
          ← List.flatMap_singleton (pipeline.matchesOf snapshot) last, ← List.flatMap_append]
          at passed

/-- The results of a pipeline after some arrivals, with the start, the commits and the version of
the current transaction. -/
inductive Ledger (pipeline : Pipeline) (shown : Snapshot → Prop) (joint : Nat)
    (arrived : List Tuple) : List Tuple → Nat → Nat → Snapshot → Prop
  /-- At first there is no result. -/
  | opening {snapshot : Snapshot} (is_shown : shown snapshot) :
      Ledger pipeline shown joint arrived [] 0 0 snapshot
  /-- A window is committed. -/
  | commit {results : List Tuple} {start commits : Nat} {snapshot : Snapshot} {result : Tuple}
      (earlier : Ledger pipeline shown joint arrived results start commits snapshot)
      (unfinished : commits < joint)
      (full : (pipeline.block snapshot (dataOf (arrived.drop start))
        (commits * pipeline.window.width)).length = pipeline.window.width)
      (computed : pipeline.meanOf (pipeline.block snapshot (dataOf (arrived.drop start))
        (commits * pipeline.window.width)) = .ok result) :
      Ledger pipeline shown joint arrived (results ++ [result]) start (commits + 1) snapshot
  /-- A transaction ends, and the next one may read another version. -/
  | next {results : List Tuple} {start next : Nat} {snapshot following : Snapshot}
      (earlier : Ledger pipeline shown joint arrived results start joint snapshot)
      (next_start : pipeline.NextStart arrived snapshot (joint * pipeline.window.width) start next)
      (is_shown : shown following) :
      Ledger pipeline shown joint arrived results next 0 following

namespace Ledger

variable {pipeline : Pipeline} {shown : Snapshot → Prop} {joint : Nat}
  {arrived results : List Tuple} {start commits : Nat} {snapshot : Snapshot}

theorem is_shown
    (ledger : pipeline.Ledger shown joint arrived results start commits snapshot) :
    shown snapshot := by
  induction ledger with
  | opening is_shown => exact is_shown
  | commit _ _ _ _ induction => exact induction
  | next _ _ is_shown => exact is_shown

theorem commits_le
    (ledger : pipeline.Ledger shown joint arrived results start commits snapshot) :
    commits ≤ joint := by
  cases ledger with
  | opening => exact Nat.zero_le _
  | commit _ unfinished => exact unfinished
  | next => exact Nat.zero_le _

/-- Before its first commit a transaction may read any version. -/
theorem choose (ledger : pipeline.Ledger shown joint arrived results start 0 snapshot)
    {chosen : Snapshot} (is_shown : shown chosen) :
    pipeline.Ledger shown joint arrived results start 0 chosen := by
  cases ledger with
  | opening => exact .opening is_shown
  | next earlier next_start => exact .next earlier next_start is_shown

/-- Later arrivals do not change what the results are. -/
theorem append (ledger : pipeline.Ledger shown joint arrived results start commits snapshot)
    (later : List Tuple) :
    pipeline.Ledger shown joint (arrived ++ later) results start commits snapshot := by
  induction ledger with
  | opening is_shown => exact .opening is_shown
  | @commit results start commits snapshot result _ unfinished full computed induction =>
      have same := block_append full (dataOf (later.drop (start - arrived.length)))
      rw [← dataOf_append, ← List.drop_append] at same
      rw [← same] at full computed
      exact .commit induction unfinished full computed
  | next _ next_start is_shown induction =>
      exact .next induction (next_start.append later) is_shown

end Ledger

/-- How results came about: where the transactions start, which versions they read, and of which
matches the results are the means. -/
structure Entries (pipeline : Pipeline) (shown : Snapshot → Prop) (joint : Nat)
    (arrived results : List Tuple) (ended : Nat) (starts : Nat → Nat) (read : Nat → Snapshot) :
    Prop where
  /-- The first transaction starts with the first arrival. -/
  starts_zero : starts 0 = 0
  /-- Each transaction reads a version that is shown. -/
  is_shown : ∀ transaction, shown (read transaction)
  /-- Where the transactions after those that have ended start. -/
  next_start : ∀ transaction < ended, pipeline.NextStart arrived (read transaction)
    (joint * pipeline.window.width) (starts transaction) (starts (transaction + 1))
  /-- No result is later than the current transaction. -/
  begun : ∀ number < results.length, number / joint ≤ ended
  /-- Each transaction computes its results from one block of matches after the other. -/
  computed : ∀ number result, results[number]? = some result →
    (pipeline.block (read (number / joint)) (dataOf (arrived.drop (starts (number / joint))))
      (number % joint * pipeline.window.width)).length = pipeline.window.width ∧
    pipeline.meanOf
      (pipeline.block (read (number / joint)) (dataOf (arrived.drop (starts (number / joint))))
        (number % joint * pipeline.window.width)) = .ok result

namespace Entries

variable {pipeline : Pipeline} {shown : Snapshot → Prop} {arrived results : List Tuple}
  {joint ended : Nat} {starts : Nat → Nat} {read : Nat → Snapshot}

theorem opening {snapshot : Snapshot} (is_shown : shown snapshot) :
    pipeline.Entries shown joint arrived [] 0 (fun _ => 0) fun _ => snapshot :=
  ⟨rfl, fun _ => is_shown, nofun, nofun, nofun⟩

/-- A result is added to those of the current transaction. -/
theorem commit (entries : pipeline.Entries shown joint arrived results ended starts read)
    (joint_pos : 0 < joint) {commits : Nat} (length_eq : results.length = ended * joint + commits)
    (unfinished : commits < joint) {result : Tuple}
    (full : (pipeline.block (read ended) (dataOf (arrived.drop (starts ended)))
      (commits * pipeline.window.width)).length = pipeline.window.width)
    (computed : pipeline.meanOf (pipeline.block (read ended) (dataOf (arrived.drop (starts ended)))
      (commits * pipeline.window.width)) = .ok result) :
    pipeline.Entries shown joint arrived (results ++ [result]) ended starts read := by
  have current : results.length / joint = ended := by
    rw [length_eq, Nat.mul_comm, Nat.mul_add_div joint_pos, Nat.div_eq_of_lt unfinished,
      Nat.add_zero]
  have position : results.length % joint = commits := by
    rw [length_eq, Nat.mul_comm, Nat.mul_add_mod, Nat.mod_eq_of_lt unfinished]
  refine ⟨entries.starts_zero, entries.is_shown, entries.next_start, fun number inside => ?_, ?_⟩
  · rw [List.length_append, List.length_singleton] at inside
    rw [← current]
    exact Nat.div_le_div_right (Nat.le_of_lt_succ inside)
  · refine forall_getElem?_append_singleton entries.computed ?_
    rw [current, position]
    exact ⟨full, computed⟩

/-- The next transaction starts. -/
theorem next (entries : pipeline.Entries shown joint arrived results ended starts read)
    {start : Nat} {following : Snapshot}
    (next_start : pipeline.NextStart arrived (read ended) (joint * pipeline.window.width)
      (starts ended) start)
    (is_shown : shown following) :
    pipeline.Entries shown joint arrived results (ended + 1)
      (Function.update starts (ended + 1) start)
      (Function.update read (ended + 1) following) := by
  have starts_eq {transaction : Nat} (earlier : transaction ≤ ended) :
      Function.update starts (ended + 1) start transaction = starts transaction :=
    Function.update_of_ne (by omega) _ _
  have read_eq {transaction : Nat} (earlier : transaction ≤ ended) :
      Function.update read (ended + 1) following transaction = read transaction :=
    Function.update_of_ne (by omega) _ _
  refine ⟨?_, ?_, ?_, ?_, ?_⟩
  · rw [starts_eq (Nat.zero_le _)]
    exact entries.starts_zero
  · intro transaction
    by_cases current : transaction = ended + 1
    · subst current
      rwa [Function.update_self]
    · rw [Function.update_of_ne current]
      exact entries.is_shown transaction
  · intro transaction inside
    rw [read_eq (Nat.le_of_lt_succ inside), starts_eq (Nat.le_of_lt_succ inside)]
    by_cases last : transaction = ended
    · subst last
      rwa [Function.update_self]
    · rw [starts_eq (by omega)]
      exact entries.next_start transaction (by omega)
  · exact fun number inside => (entries.begun number inside).trans (Nat.le_succ _)
  · intro number result found
    have earlier := entries.begun number (List.getElem?_eq_some_iff.mp found).1
    rw [read_eq earlier, starts_eq earlier]
    exact entries.computed number result found

end Entries

/-- A ledger tells how the results came about. -/
theorem Ledger.exists_entries {pipeline : Pipeline} {shown : Snapshot → Prop} {joint : Nat}
    {arrived results : List Tuple} {start commits : Nat} {snapshot : Snapshot}
    (joint_pos : 0 < joint)
    (ledger : pipeline.Ledger shown joint arrived results start commits snapshot) :
    ∃ ended starts read, pipeline.Entries shown joint arrived results ended starts read ∧
      starts ended = start ∧ read ended = snapshot ∧
      results.length = ended * joint + commits := by
  induction ledger with
  | opening is_shown => exact ⟨0, _, _, .opening is_shown, rfl, rfl, by simp⟩
  | @commit results start commits snapshot result _ unfinished full computed induction =>
      obtain ⟨ended, starts, read, entries, rfl, rfl, length_eq⟩ := induction
      refine ⟨ended, starts, read,
        entries.commit joint_pos length_eq unfinished full computed, rfl, rfl, ?_⟩
      rw [List.length_append, length_eq, List.length_singleton, Nat.add_assoc]
  | @next results start next snapshot following _ next_start is_shown induction =>
      obtain ⟨ended, starts, read, entries, rfl, rfl, length_eq⟩ := induction
      refine ⟨ended + 1, _, _, entries.next next_start is_shown, Function.update_self ..,
        Function.update_self .., ?_⟩
      rw [length_eq, Nat.add_one_mul, Nat.add_zero]

end Pipeline

end StreamQuery
