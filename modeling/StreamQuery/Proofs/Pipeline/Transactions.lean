import StreamQuery.Proofs.Pipeline.Sends
import StreamQuery.Proofs.Window.Tumbling

/-!
# Transactions of pipelines

A pipeline under control that prevents conflicts works in transactions. From its first arrival on,
the arrivals have been matched with one version of the relation, or wait for the match, or wait for
the stream; what the match has sent on was taken by the mean or waits for it. A transaction that
ends is followed by one that begins with the arrival from which the waiting tuple comes.
-/

namespace StreamQuery

/-- A tuple of data that is older than another tuple. -/
def Tuple.ComesBefore (earlier later : Tuple) : Prop :=
  earlier.isEndOfStream = false ∧ earlier.lowWater < later.lowWater

instance (earlier later : Tuple) : Decidable (earlier.ComesBefore later) :=
  inferInstanceAs (Decidable (_ ∧ _))

namespace Pipeline

/-- A transaction of a pipeline. -/
structure Transaction where
  /-- The version of the relation that it reads. -/
  snapshot : Snapshot
  /-- The number of arrivals before its first one. -/
  start : Nat
  /-- The number of windows that it has committed. -/
  commits : Nat := 0
  /-- Whether the last commit is open. -/
  isOpen : Bool := false
  /-- The arrivals that have been matched. -/
  seen : List Tuple := []
  /-- What the mean has taken. -/
  taken : List Tuple := []
  /-- The beginning of the next window. -/
  fresh : List Tuple := []

/-- Tuples that arrive at the stream: data, after which the stream may end. -/
structure Streams (pipeline : Pipeline) (arrived : List Tuple) : Prop where
  /-- The data is as the stream expects it. -/
  feeds : pipeline.Feeds (dataOf arrived)
  /-- Nothing arrives after a marker, and each tuple is later than the one before. -/
  ordered : arrived.Pairwise Tuple.ComesBefore

theorem Streams.of_append {pipeline : Pipeline} {first second : List Tuple}
    (streams : pipeline.Streams (first ++ second)) : pipeline.Streams first := by
  have feeds := streams.feeds
  rw [dataOf_append] at feeds
  exact ⟨feeds.of_append, (List.pairwise_append.mp streams.ordered).1⟩

namespace Line

/-- A line in the middle of a transaction. -/
structure Follows (pipeline : Pipeline) (arrived : List Tuple) (transaction : Transaction)
    (line : Line) : Prop where
  /-- The stream is backed up. -/
  isProtected : line.passed.isProtected = true
  /-- The transaction begins within the arrivals. -/
  start_le : transaction.start ≤ arrived.length
  /-- The backup begins with the transaction. -/
  backup : line.passed.backup ++ line.arrivals = arrived.drop transaction.start
  /-- The arrivals of the transaction have been matched or wait. -/
  arrivals : transaction.seen ++ line.passed.queue ++ line.arrivals =
    arrived.drop transaction.start
  /-- What was sent on was taken or waits. -/
  sent : transaction.seen.flatMap (pipeline.sends transaction.snapshot) =
    transaction.taken ++ line.matched
  /-- The data that was taken after the last window waits for the next one. -/
  gathers : line.buffer.Gathers pipeline.window transaction.fresh
  /-- What was taken before filled the windows that were committed. -/
  committed : ∃ done, dataOf transaction.taken = done ++ transaction.fresh ∧
    done.length = transaction.commits * pipeline.window.width
  /-- An open commit is not followed by anything. -/
  settled : transaction.isOpen = true → transaction.fresh = []

/-- A line in the middle of a transaction, in which a tuple that the mean takes completes the next
window. -/
structure Completes (pipeline : Pipeline) (arrived : List Tuple) (transaction : Transaction)
    (line : Line) (tuple : Tuple) (rest : List Tuple) : Prop where
  /-- The window is reported. -/
  reported : (line.buffer.enqueue tuple).2 = [(line.buffer.enqueue tuple).1.contents]
  /-- It holds the next matches of the transaction. -/
  tuples_eq : (line.buffer.enqueue tuple).1.tuples =
    pipeline.block transaction.snapshot (dataOf (arrived.drop transaction.start))
      (transaction.commits * pipeline.window.width)
  /-- It is full. -/
  filled : (line.buffer.enqueue tuple).1.tuples.length = pipeline.window.width
  /-- Its commit is open. -/
  follows : Follows pipeline arrived
    { transaction with
      commits := transaction.commits + 1
      isOpen := true
      taken := transaction.taken ++ [tuple]
      fresh := [] }
    { line with matched := rest, buffer := (line.buffer.enqueue tuple).1 }

variable {pipeline : Pipeline} {arrived : List Tuple} {transaction : Transaction} {line : Line}

namespace Follows

theorem start (tumbling : pipeline.window.stride = pipeline.window.width) (snapshot : Snapshot) :
    Follows pipeline [] { snapshot, start := 0 }
      { arrivals := []
        passed := { isProtected := true }
        matched := []
        buffer := .ofWindow pipeline.window
        results := [] } where
  isProtected := rfl
  start_le := le_rfl
  backup := rfl
  arrivals := rfl
  sent := rfl
  gathers := RowBuffer.gathers_ofWindow tumbling
  committed := ⟨[], rfl, by simp⟩
  settled _ := rfl

theorem collect (follows : line.Follows pipeline arrived transaction) (results : List Tuple) :
    Follows pipeline arrived transaction { line with results } :=
  { follows with }

theorem arrive (follows : line.Follows pipeline arrived transaction) (tuple : Tuple) :
    Follows pipeline (arrived ++ [tuple]) transaction
      { line with arrivals := line.arrivals ++ [tuple] } :=
  have extended : (arrived ++ [tuple]).drop transaction.start =
      arrived.drop transaction.start ++ [tuple] :=
    List.drop_append_of_le_length follows.start_le
  { follows with
    start_le := follows.start_le.trans (by simp)
    backup := by rw [extended, ← follows.backup, List.append_assoc]
    arrivals := by
      rw [extended, ← follows.arrivals]
      simp only [List.append_assoc] }

/-- A transaction that has read nothing has committed nothing. -/
theorem commits_of_unread (follows : line.Follows pipeline arrived transaction)
    (unread : dataOf transaction.seen = []) : transaction.commits = 0 := by
  have sent := congrArg dataOf follows.sent
  rw [dataOf_flatMap_sends, unread, List.flatMap_nil, dataOf_append] at sent
  have none_taken := (List.append_eq_nil_iff.mp sent.symm).1
  obtain ⟨done, data_eq, length_eq⟩ := follows.committed
  rw [none_taken] at data_eq
  rw [(List.append_eq_nil_iff.mp data_eq.symm).1, List.length_nil] at length_eq
  exact (Nat.mul_eq_zero.mp length_eq.symm).resolve_right pipeline.window.width_pos.ne'

/-- Before the first read, it is open which version the transaction reads. -/
theorem choose (follows : line.Follows pipeline arrived transaction)
    (unread : dataOf transaction.seen = []) (snapshot : Snapshot) :
    Follows pipeline arrived { transaction with snapshot } line :=
  { follows with
    sent := by
      rw [← follows.sent]
      refine List.flatMap_congr fun tuple member => ?_
      have is_marker : tuple.isEndOfStream = true := by
        simpa using List.filter_eq_nil_iff.mp unread tuple member
      rw [sends_of_marker is_marker, sends_of_marker is_marker] }

/-! ### The stream and the match -/

theorem pass (follows : line.Follows pipeline arrived transaction) {tuple : Tuple}
    {rest : List Tuple} (arrivals_eq : line.arrivals = tuple :: rest) :
    Follows pipeline arrived transaction
      { line with arrivals := rest, passed := line.passed.enqueue tuple } where
  isProtected := follows.isProtected
  start_le := follows.start_le
  backup := by
    simp only [Channel.enqueue, follows.isProtected, if_true]
    rw [← follows.backup, arrivals_eq, List.append_assoc, List.singleton_append]
  arrivals := by
    rw [← follows.arrivals, arrivals_eq]
    simp [Channel.enqueue]
  sent := follows.sent
  gathers := follows.gathers
  committed := follows.committed
  settled := follows.settled

/-- The match takes a tuple and sends on what it makes of it. -/
theorem «match» (follows : line.Follows pipeline arrived transaction) {tuple : Tuple}
    {rest : List Tuple} (queue_eq : line.passed.queue = tuple :: rest) :
    Follows pipeline arrived { transaction with seen := transaction.seen ++ [tuple] }
      { line with
        passed := { line.passed with queue := rest }
        matched := line.matched ++ pipeline.sends transaction.snapshot tuple } :=
  { follows with
    arrivals := by
      rw [← follows.arrivals, queue_eq]
      simp
    sent := by
      rw [List.flatMap_append, follows.sent, List.flatMap_singleton, List.append_assoc] }

/-- What waits for the match has arrived. -/
theorem mem_arrived (follows : line.Follows pipeline arrived transaction) {tuple : Tuple}
    (waits : tuple ∈ line.passed.queue) : tuple ∈ arrived := by
  apply List.mem_of_mem_drop (i := transaction.start)
  rw [← follows.arrivals]
  exact List.mem_append_left _ (List.mem_append_right _ waits)

/-! ### The mean -/

theorem skip_marker (follows : line.Follows pipeline arrived transaction) {tuple : Tuple}
    {rest : List Tuple} (matched_eq : line.matched = tuple :: rest)
    (is_marker : tuple.isEndOfStream = true) :
    Follows pipeline arrived { transaction with taken := transaction.taken ++ [tuple] }
      { line with matched := rest } :=
  { follows with
    sent := by
      rw [follows.sent, matched_eq, List.append_assoc, List.singleton_append]
    committed := by
      rw [dataOf_append_of_marker _ is_marker]
      exact follows.committed }

/-- What was sent on is the beginning of all matches of the transaction. -/
theorem exists_later (follows : line.Follows pipeline arrived transaction) :
    ∃ later, (dataOf (arrived.drop transaction.start)).flatMap
        (pipeline.matchesOf transaction.snapshot) =
      dataOf transaction.taken ++ dataOf line.matched ++ later := by
  refine ⟨dataOf ((line.passed.queue ++ line.arrivals).flatMap
    (pipeline.sends transaction.snapshot)), ?_⟩
  rw [← dataOf_flatMap_sends, ← follows.arrivals, List.append_assoc, List.flatMap_append,
    follows.sent, dataOf_append, dataOf_append]

/-- Data that the mean accepts waits for the next window, or it completes the window. -/
theorem accept (follows : line.Follows pipeline arrived transaction)
    (closed : transaction.isOpen = false) {tuple : Tuple} {rest : List Tuple}
    (matched_eq : line.matched = tuple :: rest) (is_data : tuple.isEndOfStream = false) :
    ((line.buffer.enqueue tuple).2 = [] ∧
        Follows pipeline arrived
          { transaction with
            taken := transaction.taken ++ [tuple]
            fresh := transaction.fresh ++ [tuple] }
          { line with matched := rest, buffer := (line.buffer.enqueue tuple).1 }) ∨
      line.Completes pipeline arrived transaction tuple rest := by
  obtain ⟨done, data_eq, done_length⟩ := follows.committed
  have sent : transaction.seen.flatMap (pipeline.sends transaction.snapshot) =
      transaction.taken ++ [tuple] ++ rest := by
    rw [follows.sent, matched_eq, List.append_assoc, List.singleton_append]
  have taken_data : dataOf (transaction.taken ++ [tuple]) =
      done ++ (transaction.fresh ++ [tuple]) := by
    rw [dataOf_append, data_eq, dataOf_cons_of_data is_data, dataOf_nil, List.append_assoc]
  rcases follows.gathers.enqueue tuple with
    ⟨none_reported, gathers⟩ | ⟨reported, tuples_eq, filled, gathers⟩
  · left
    refine ⟨none_reported, { follows with sent, gathers, committed := ?_, settled := ?_ }⟩
    · exact ⟨done, taken_data, done_length⟩
    · simp [closed]
  · right
    refine ⟨reported, ?_, tuples_eq ▸ filled,
      { follows with sent, gathers, committed := ?_, settled := fun _ => rfl }⟩
    · obtain ⟨later, all_eq⟩ := follows.exists_later
      rw [matched_eq, dataOf_cons_of_data is_data, data_eq] at all_eq
      have arranged : done ++ transaction.fresh ++ tuple :: dataOf rest ++ later =
          done ++ ((transaction.fresh ++ [tuple]) ++ (dataOf rest ++ later)) := by
        simp
      rw [block, all_eq, arranged, ← done_length, List.drop_left, ← filled, List.take_left,
        tuples_eq]
    · refine ⟨done ++ (transaction.fresh ++ [tuple]), by rw [taken_data, List.append_nil], ?_⟩
      rw [List.length_append, done_length, filled, Nat.add_one_mul]

theorem close (follows : line.Follows pipeline arrived transaction) :
    Follows pipeline arrived { transaction with isOpen := false } line :=
  { follows with settled := fun impossible => by cases impossible }

/-! ### The end of a transaction -/

/-- The waiting tuple comes from an arrival that was matched last before it. All that the mean has
taken before is data. -/
theorem exists_boundary (follows : line.Follows pipeline arrived transaction)
    (streams : pipeline.Streams arrived) {waiting : Tuple} {rest : List Tuple}
    (matched_eq : line.matched = waiting :: rest) :
    ∃ front origin back, transaction.seen = front ++ origin :: back ∧
      waiting.lowWater = origin.lowWater ∧
      (front.flatMap (pipeline.sends transaction.snapshot)).length ≤ transaction.taken.length ∧
      transaction.taken.length <
        ((front ++ [origin]).flatMap (pipeline.sends transaction.snapshot)).length ∧
      dataOf transaction.taken = transaction.taken := by
  have sent := follows.sent
  rw [matched_eq] at sent
  obtain ⟨front, origin, back, part, others, seen_eq, taken_eq, origin_eq, _⟩ :=
    exists_split_of_flatMap_eq sent
  have sent_on : waiting ∈ pipeline.sends transaction.snapshot origin := by
    rw [origin_eq]
    exact List.mem_append_right _ List.mem_cons_self
  refine ⟨front, origin, back, seen_eq, lowWater_of_mem_sends sent_on, by simp [taken_eq],
    by simp [taken_eq, origin_eq], ?_⟩
  have earlier_data (tuple : Tuple) (member : tuple ∈ front) : tuple.isEndOfStream = false := by
    have ordered : (transaction.seen ++ (line.passed.queue ++ line.arrivals)).Pairwise
        Tuple.ComesBefore := by
      rw [← List.append_assoc, follows.arrivals]
      exact streams.ordered.sublist (List.drop_sublist _ _)
    have seen_ordered := (List.pairwise_append.mp ordered).1
    rw [seen_eq] at seen_ordered
    exact ((List.pairwise_append.mp seen_ordered).2.2 tuple member origin List.mem_cons_self).1
  have part_data : dataOf part = part := by
    cases is_marker : origin.isEndOfStream with
    | true =>
        rw [sends_of_marker is_marker] at origin_eq
        have length_eq := congrArg List.length origin_eq
        simp only [List.length_append, List.length_cons, List.length_nil] at length_eq
        rw [List.length_eq_zero_iff.mp (show part.length = 0 by omega), dataOf_nil]
    | false =>
        refine List.filter_eq_self.mpr fun tuple member => ?_
        have sent : tuple ∈ pipeline.matchesOf transaction.snapshot origin := by
          rw [← sends_of_data is_marker, origin_eq]
          exact List.mem_append_left _ member
        simp [isEndOfStream_of_mem_matchesOf sent]
  have front_data : dataOf front = front :=
    List.filter_eq_self.mpr fun tuple member => by simp [earlier_data tuple member]
  have sends_eq : front.flatMap (pipeline.sends transaction.snapshot) =
      front.flatMap (pipeline.matchesOf transaction.snapshot) :=
    List.flatMap_congr fun tuple member => sends_of_data (earlier_data tuple member)
  rw [taken_eq, dataOf_append, dataOf_flatMap_sends, part_data, front_data, sends_eq]

/-- The next transaction begins with the arrival from which the waiting tuple comes. -/
theorem rewind (follows : line.Follows pipeline arrived transaction)
    (streams : pipeline.Streams arrived) {front back : List Tuple} {origin : Tuple}
    (seen_eq : transaction.seen = front ++ origin :: back) (snapshot : Snapshot) :
    Follows pipeline arrived { snapshot, start := transaction.start + front.length }
      { line with
        passed := line.passed.evictAndRewind origin.lowWater
        matched := []
        buffer := line.buffer.reset } := by
  have arrivals := follows.arrivals
  rw [seen_eq] at arrivals
  have backup_eq : line.passed.backup = front ++ (origin :: back ++ line.passed.queue) := by
    refine List.append_cancel_right (follows.backup.trans ?_)
    rw [← arrivals]
    simp
  have ordered : (front ++ (origin :: back ++ line.passed.queue ++ line.arrivals)).Pairwise
      Tuple.ComesBefore := by
    have same : front ++ (origin :: back ++ line.passed.queue ++ line.arrivals) =
        arrived.drop transaction.start := by
      rw [← arrivals]
      simp
    rw [same]
    exact streams.ordered.sublist (List.drop_sublist _ _)
  have kept_eq : line.passed.backup.filter (fun tuple => origin.lowWater ≤ tuple.lowWater) =
      origin :: back ++ line.passed.queue := by
    obtain ⟨_, back_ordered, before⟩ := List.pairwise_append.mp ordered
    rw [backup_eq]
    refine filter_of_mark
      (fun tuple member => (before tuple member origin List.mem_cons_self).2) fun tuple member => ?_
    rcases List.mem_cons.mp member with rfl | later
    · exact Int.le_refl _
    · have after := (List.pairwise_cons.mp back_ordered).1 tuple (List.mem_append_left _ later)
      exact Int.le_of_lt after.2
  have remaining : origin :: back ++ line.passed.queue ++ line.arrivals =
      arrived.drop (transaction.start + front.length) := by
    rw [← List.drop_drop, ← arrivals]
    simp
  refine ⟨follows.isProtected, ?_, ?_, ?_, rfl, follows.gathers.reset, ⟨[], rfl, by simp⟩,
    fun _ => rfl⟩
  · have length_eq := congrArg List.length arrivals
    have start_le := follows.start_le
    simp only [List.length_append, List.length_cons, List.length_drop] at length_eq
    simp only
    omega
  · simp only [Channel.evictAndRewind, Channel.recover, Channel.evictBefore]
    rw [kept_eq, remaining]
  · simp only [Channel.evictAndRewind, Channel.recover, Channel.evictBefore, List.nil_append]
    rw [kept_eq, remaining]

end Follows

end Line

end Pipeline

end StreamQuery
