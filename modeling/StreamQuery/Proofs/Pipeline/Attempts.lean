import StreamQuery.Proofs.OptimisticCounters
import StreamQuery.Proofs.SlidingMeans
import StreamQuery.Proofs.TransactionMeans
import StreamQuery.Proofs.Window.Attempts

/-!
# Attempts of pipelines

Under optimistic control the mean over windows of time starts over whenever one of them has mixed
versions. The inputs of the attempt that goes on then are those in the backup of the stream. Each
evaluation and each response keeps account of the attempts that have ended, of the inputs of the
current one and of the windows that were committed.
-/

namespace StreamQuery

namespace Pipeline

/-! ## Stages -/

/-- What has become of the inputs of the current attempt. -/
structure Stage where
  /-- The inputs whose matches the mean has taken. -/
  seen : List Tuple := []
  /-- Their matches. -/
  taken : List Tuple := []
  /-- The inputs whose matches wait for the mean. -/
  called : List Tuple := []
  /-- What waits for the mean. -/
  waiting : List Tuple := []
  /-- What waits for the match. -/
  passed : List Tuple := []
  /-- The backup of the stream. -/
  kept : List Tuple := []
  /-- What the stream has not passed on. -/
  arriving : List Tuple := []

namespace Stage

/-- The inputs that the stream has passed on. -/
def passedOn (stage : Stage) : List Tuple :=
  stage.seen ++ stage.called ++ dataOf stage.passed

/-- The inputs of the current attempt. -/
def inputs (stage : Stage) : List Tuple :=
  stage.passedOn ++ dataOf stage.arriving

/-- The mean takes the match of the next input. -/
def take (stage : Stage) (input result : Tuple) : Stage :=
  { stage with
    seen := stage.seen ++ [input]
    taken := stage.taken ++ [result]
    called := stage.called.tail
    waiting := stage.waiting.tail }

/-- A commit, if there is one, evicts the backup. -/
def commit (stage : Stage) (mark? : Option Int) : Stage :=
  { stage with kept := Window.leftAfter mark? stage.kept }

/-- The next attempt begins with the backup. -/
def redo (stage : Stage) : Stage where
  passed := stage.kept
  kept := stage.kept
  arriving := stage.arriving

/-- What the scheduler makes of a stage in response to a step. -/
def respond (stage : Stage) : Step → Stage
  | .commit mark => stage.commit (some mark)
  | .lostConsistency mark? => (stage.commit mark?).redo
  | _ => stage

theorem respond_of_quiet (stage : Stage) {step : Step} (quiet : step.isSignal = false) :
    stage.respond step = stage := by
  cases step with
  | commit mark => cases quiet
  | lostConsistency mark? => cases quiet
  | _ => rfl

end Stage

variable {pipeline : Pipeline} {shown : Snapshot → Prop} {world : World} {stage after : Stage}
  {arrived results : List Tuple} {ended : List Attempt}

/-- A world in which the tuples of the current attempt are where a stage says. -/
structure IsAt (pipeline : Pipeline) (world : World) (stage : Stage) : Prop where
  /-- The stream has what is arriving. -/
  source : ∃ arrivals, world.memory? pipeline.source.id = some (.source arrivals) ∧
    arrivals.queue = stage.arriving
  /-- The match takes what has been passed on, which is backed up. -/
  passed : world.output pipeline.source.id =
    { queue := stage.passed, backup := stage.kept, isProtected := true }
  /-- The match remembers nothing. -/
  stateless : world.memory? pipeline.combine.id = some .stateless
  /-- The mean takes what has been matched. -/
  waiting : (world.output pipeline.combine.id).queue = stage.waiting
  /-- The mean remembers what it has taken, and has no open commit. -/
  mean : ∃ aggregation, world.memory? pipeline.mean.id = some (.aggregate aggregation) ∧
    aggregation.synopsis = (SynopsisLog.ofTuples pipeline.window stage.taken).synopsis ∧
      aggregation.pendingCommit = false

/-- What has become of the inputs and of the windows, in the current attempt and before. -/
structure Retries (pipeline : Pipeline) (shown : Snapshot → Prop) (arrived results : List Tuple)
    (ended : List Attempt) (stage : Stage) : Prop where
  /-- The mean has taken a match of each input. -/
  taken : List.Forall₂ (pipeline.Matches shown) stage.seen stage.taken
  /-- A match of each of the next inputs waits for it. -/
  waiting : List.Forall₂ (pipeline.Matches shown) stage.called (dataOf stage.waiting)
  /-- All windows that are complete were committed. -/
  keeps : pipeline.window.Keeps stage.passedOn (pipeline.window.contentsOf stage.seen)
    (dataOf stage.kept)
  /-- The other attempts have ended. -/
  retries : pipeline.window.Retries arrived ended stage.inputs
  /-- The results are the means over the windows that were committed. -/
  means : List.Forall₂ (fun window result => pipeline.IsMeanOf shown window.tuples result)
    (ended.flatMap Attempt.windows ++ pipeline.window.contentsOf stage.seen) results

/-! ## Evaluations that complete no window -/

/-- What an evaluation makes of a stage if the mean does not take a match. -/
inductive Moves (pipeline : Pipeline) (shown : Snapshot → Prop) (stage : Stage) : Stage → Prop
  /-- Nothing happens. -/
  | rests : Moves pipeline shown stage stage
  /-- The stream passes a tuple on. -/
  | passes {tuple : Tuple} {rest : List Tuple} (waits : stage.arriving = tuple :: rest) :
      Moves pipeline shown stage
        { stage with
          passed := stage.passed ++ [tuple]
          kept := stage.kept ++ [tuple]
          arriving := rest }
  /-- The match sends a marker on. -/
  | relays {tuple : Tuple} {rest : List Tuple} (waits : stage.passed = tuple :: rest)
      (marks : tuple.isEndOfStream = true) :
      Moves pipeline shown stage
        { stage with passed := rest, waiting := stage.waiting ++ [tuple] }
  /-- The match sends on what it makes of an input. -/
  | calls {input result : Tuple} {rest : List Tuple} (waits : stage.passed = input :: rest)
      (is_data : input.isEndOfStream = false) (matched : pipeline.Matches shown input result) :
      Moves pipeline shown stage
        { stage with
          called := stage.called ++ [input]
          waiting := stage.waiting ++ [result]
          passed := rest }
  /-- The mean sends a marker on. -/
  | skips {tuple : Tuple} {rest : List Tuple} (waits : stage.waiting = tuple :: rest)
      (marks : tuple.isEndOfStream = true) :
      Moves pipeline shown stage { stage with waiting := rest }

theorem Matches.isEndOfStream_eq_false {input result : Tuple}
    (matched : pipeline.Matches shown input result) : result.isEndOfStream = false := by
  obtain ⟨_, _, found⟩ := matched
  obtain ⟨_, _, _, rfl⟩ := Matches.exists_row found
  rfl

/-- A match arrives when its input does. -/
theorem Matches.arrival_eq {input result : Tuple}
    (matched : pipeline.Matches shown input result) : input.arrival = result.arrival := by
  obtain ⟨_, _, found⟩ := matched
  obtain ⟨_, _, _, rfl⟩ := Matches.exists_row found
  rfl

namespace Retries

theorem move (retries : pipeline.Retries shown arrived results ended stage)
    (moves : pipeline.Moves shown stage after) :
    pipeline.Retries shown arrived results ended after := by
  obtain ⟨taken, waiting, keeps, attempts, means⟩ := retries
  cases moves with
  | rests => exact ⟨taken, waiting, keeps, attempts, means⟩
  | @passes tuple rest waits =>
      refine ⟨taken, waiting, ?_, ?_, means⟩
      · have extended := keeps.append (dataOf [tuple])
        rw [← dataOf_append] at extended
        simpa [Stage.passedOn] using extended
      · have moved : dataOf stage.arriving = dataOf [tuple] ++ dataOf rest := by
          rw [waits, ← dataOf_append]
          rfl
        simpa [Stage.inputs, Stage.passedOn, moved] using attempts
  | @relays tuple rest waits marks =>
      have dropped : dataOf stage.passed = dataOf rest := by
        rw [waits, dataOf_cons_of_marker marks]
      refine ⟨taken, ?_, ?_, ?_, means⟩
      · rw [dataOf_append_of_marker _ marks]
        exact waiting
      · simpa only [Stage.passedOn, dropped] using keeps
      · simpa only [Stage.inputs, Stage.passedOn, dropped] using attempts
  | @calls input result rest waits is_data matched =>
      have moved : dataOf stage.passed = input :: dataOf rest := by
        rw [waits, dataOf_cons_of_data is_data]
      refine ⟨taken, ?_, ?_, ?_, means⟩
      · rw [dataOf_append, dataOf_cons_of_data matched.isEndOfStream_eq_false]
        exact List.rel_append waiting (.cons matched .nil)
      · simpa [Stage.passedOn, moved] using keeps
      · simpa [Stage.inputs, Stage.passedOn, moved] using attempts
  | @skips tuple rest waits marks =>
      refine ⟨taken, ?_, keeps, attempts, means⟩
      rw [waits, dataOf_cons_of_marker marks] at waiting
      exact waiting

theorem arrive (retries : pipeline.Retries shown arrived results ended stage) (tuple : Tuple) :
    pipeline.Retries shown (arrived ++ dataOf [tuple]) results
      (ended.map (Attempt.extend (dataOf [tuple])))
      { stage with arriving := stage.arriving ++ [tuple] } where
  taken := retries.taken
  waiting := retries.waiting
  keeps := retries.keeps
  retries := by
    simpa [Stage.inputs, Stage.passedOn] using retries.retries.append (dataOf [tuple])
  means := by
    rw [Attempt.flatMap_windows_extend]
    exact retries.means

end Retries

/-! ## Evaluations that take a match -/

namespace Retries

variable {relation : Relation} {input result : Tuple} {others rest sent : List Tuple}
  {committed left done remaining : List Contents}

theorem inputs_sublist (retries : pipeline.Retries shown arrived results ended stage) :
    stage.inputs.Sublist arrived :=
  retries.retries.sublist

/-- The windows that a match completes are those that its input completes. -/
theorem exists_windows (retries : pipeline.Retries shown arrived results ended stage)
    (spans : pipeline.window.kind = .time) (matched : pipeline.Matches shown input result)
    (windows_eq : ((SynopsisLog.ofTuples pipeline.window stage.taken).synopsis.enqueue result).2 =
      committed ++ left) :
    ∃ done remaining,
      pipeline.window.contentsOf (stage.seen ++ [input]) =
          pipeline.window.contentsOf stage.seen ++ (done ++ remaining) ∧
        List.Forall₂ (Contents.Corresponds (pipeline.Matches shown)) done committed ∧
        List.Forall₂ (Contents.Corresponds (pipeline.Matches shown)) remaining left := by
  have corresponds {inputs matches' : List Tuple}
      (all : List.Forall₂ (pipeline.Matches shown) inputs matches') :=
    Window.contentsOf_forall₂ spans (fun _ _ => Matches.arrival_eq) all
  have before := corresponds retries.taken
  have both := corresponds (List.rel_append retries.taken (.cons matched .nil))
  change List.Forall₂ _ (pipeline.window.contentsOf (stage.seen ++ [input]))
    (pipeline.window.contentsOf (stage.taken ++ [result])) at both
  rw [Window.contentsOf_append_singleton, Window.contentsOf_append_singleton, windows_eq] at both
  have newest := List.forall₂_drop_append _ _ _ both
  rw [← before.length_eq, List.drop_left] at newest
  refine ⟨_, _, ?_, List.forall₂_take_append _ _ _ newest, List.forall₂_drop_append _ _ _ newest⟩
  rw [List.take_append_drop, Window.contentsOf_append_singleton]

/-- The tuples of a window are matches of inputs. -/
theorem members_of_corresponds (retries : pipeline.Retries shown arrived results ended stage)
    (spans : pipeline.window.kind = .time) (called_eq : stage.called = input :: others)
    {window contents : Contents}
    (completed : window ∈ pipeline.window.contentsOf (stage.seen ++ [input]))
    (corresponds : window.Corresponds (pipeline.Matches shown) contents) :
    contents.tuples ≠ [] ∧
      List.Forall₂
        (fun input result => (input ∈ arrived ∧ result ∈ contents.tuples) ∧
          pipeline.Matches shown input result) window.tuples contents.tuples := by
  obtain ⟨filled, accepted⟩ := Window.tuples_of_mem_contentsOf spans completed
  have length_eq := corresponds.tuples.length_eq
  refine ⟨fun empty => filled (List.eq_nil_of_length_eq_zero (by rw [length_eq, empty]; rfl)),
    (forall₂_and_mem corresponds.tuples).imp fun member _ ⟨⟨inside, is_result⟩, matched⟩ =>
      ⟨⟨retries.inputs_sublist.subset ?_, is_result⟩, matched⟩⟩
  have passed_on := accepted member inside
  simp only [List.mem_append, List.mem_singleton] at passed_on
  simp only [Stage.inputs, Stage.passedOn, called_eq, List.mem_append, List.mem_cons]
  tauto

/-- The mean over a window can be computed. -/
theorem exists_mean (retries : pipeline.Retries shown arrived results ended stage)
    (setting : pipeline.Setting shown arrived relation) (spans : pipeline.window.kind = .time)
    (called_eq : stage.called = input :: others) {window contents : Contents}
    (completed : window ∈ pipeline.window.contentsOf (stage.seen ++ [input]))
    (corresponds : window.Corresponds (pipeline.Matches shown) contents) :
    ∃ mean, (AggregateFunction.mean pipeline.index).apply pipeline.mean.schema contents =
      .ok mean := by
  obtain ⟨_, members⟩ := retries.members_of_corresponds spans called_eq completed corresponds
  refine AggregateFunction.exists_mean (fun tuple inside => ?_) _
  obtain ⟨input, _, ⟨input_mem, _⟩, matched⟩ := exists_of_forall₂ members inside
  exact matched.hasNumber setting input_mem

/-- What is sent for consistent windows are their means. -/
theorem means_of_corresponds (retries : pipeline.Retries shown arrived results ended stage)
    (setting : pipeline.Setting shown arrived relation) (spans : pipeline.window.kind = .time)
    (called_eq : stage.called = input :: others)
    (corresponds : List.Forall₂ (Contents.Corresponds (pipeline.Matches shown)) done committed)
    (completed : ∀ window ∈ done, window ∈ pipeline.window.contentsOf (stage.seen ++ [input]))
    (consistent : ∀ contents ∈ committed, contents.isConsistent = true)
    (computed : List.Forall₂
      (fun contents result => (AggregateFunction.mean pipeline.index).apply pipeline.mean.schema
        contents = .ok result) committed sent) :
    List.Forall₂ (fun window result => pipeline.IsMeanOf shown window.tuples result) done sent := by
  induction corresponds generalizing sent with
  | nil =>
      cases computed
      exact .nil
  | @cons window contents done committed first _ induction =>
      cases computed with
      | cons first_computed others_computed =>
          obtain ⟨window_completed, others_completed⟩ := List.forall_mem_cons.mp completed
          obtain ⟨first_consistent, others_consistent⟩ := List.forall_mem_cons.mp consistent
          obtain ⟨filled, members⟩ :=
            retries.members_of_corresponds spans called_eq window_completed first
          exact .cons
            (isMeanOf_of_isConsistent setting members filled first_consistent first_computed)
            (induction others_completed others_consistent others_computed)

/-- All windows that an input completes are committed. -/
theorem settle (retries : pipeline.Retries shown arrived results ended stage)
    (spans : pipeline.window.kind = .time) (called_eq : stage.called = input :: others)
    (waits : stage.waiting = result :: rest) (matched : pipeline.Matches shown input result)
    (completed : pipeline.window.contentsOf (stage.seen ++ [input]) =
      pipeline.window.contentsOf stage.seen ++ done)
    (means : List.Forall₂ (fun window result => pipeline.IsMeanOf shown window.tuples result)
      done sent) :
    pipeline.Retries shown arrived (results ++ sent) ended
      ((stage.take input result).commit (done.getLast?.map Contents.mark)) := by
  have passed_on : (stage.take input result).passedOn = stage.passedOn := by
    simp [Stage.take, Stage.passedOn, called_eq]
  have is_prefix : pipeline.window.contentsOf stage.seen ++ done <+:
      pipeline.window.contentsOf stage.passedOn := by
    rw [← completed, ← passed_on, Stage.passedOn, List.append_assoc]
    exact pipeline.window.contentsOf_prefix _ _
  refine {
    taken := List.rel_append retries.taken (.cons matched .nil)
    waiting := ?_
    keeps := ?_
    retries := ?_
    means := ?_ }
  · have waiting := retries.waiting
    rw [called_eq, waits, dataOf_cons_of_data matched.isEndOfStream_eq_false] at waiting
    cases waiting with
    | cons _ waiting => simpa [Stage.take, Stage.commit, called_eq, waits] using waiting
  · change pipeline.window.Keeps (stage.take input result).passedOn
      (pipeline.window.contentsOf (stage.seen ++ [input])) (dataOf (Window.leftAfter _ stage.kept))
    rw [passed_on, completed, Window.dataOf_leftAfter]
    exact retries.keeps.commitAll spans is_prefix
  · change pipeline.window.Retries arrived ended
      ((stage.take input result).passedOn ++ dataOf stage.arriving)
    rw [passed_on]
    exact retries.retries
  · change List.Forall₂ _ (_ ++ pipeline.window.contentsOf (stage.seen ++ [input])) _
    rw [completed, ← List.append_assoc]
    exact List.rel_append retries.means means

/-- A window that an input completes has mixed versions, so that the attempt ends. -/
theorem giveUp (retries : pipeline.Retries shown arrived results ended stage)
    (spans : pipeline.window.kind = .time) (called_eq : stage.called = input :: others)
    (completed : pipeline.window.contentsOf (stage.seen ++ [input]) =
      pipeline.window.contentsOf stage.seen ++ (done ++ remaining)) (mixed : remaining ≠ [])
    (means : List.Forall₂ (fun window result => pipeline.IsMeanOf shown window.tuples result)
      done sent) :
    ∃ attempt, pipeline.Retries shown arrived (results ++ sent) (ended ++ [attempt])
      ((stage.take input result).commit (done.getLast?.map Contents.mark)).redo := by
  let attempt : Attempt :=
    { inputs := stage.inputs
      windows := pipeline.window.contentsOf stage.seen ++ done
      left := dataOf (Window.leftAfter (done.getLast?.map Contents.mark) stage.kept) ++
        dataOf stage.arriving }
  have all_windows : pipeline.window.contentsOf stage.seen ++ (done ++ remaining) <+:
      pipeline.window.contentsOf stage.passedOn := by
    have split : stage.passedOn = stage.seen ++ [input] ++ (others ++ dataOf stage.passed) := by
      simp [Stage.passedOn, called_eq]
    rw [← completed, split]
    exact pipeline.window.contentsOf_prefix _ _
  have committed : pipeline.window.contentsOf stage.seen ++ done <+:
      pipeline.window.contentsOf stage.passedOn := by
    rw [← List.append_assoc] at all_windows
    exact (List.prefix_append _ _).trans all_windows
  have keeps : pipeline.window.Keeps attempt.inputs attempt.windows attempt.left := by
    refine Window.Keeps.append ?_ _
    rw [Window.dataOf_leftAfter]
    exact retries.keeps.commitAll spans committed
  refine ⟨attempt, .nil, .nil, ?_, ?_, ?_⟩
  · exact .all
  · refine .again retries.retries keeps ?_
    have bounded := all_windows.length_le.trans
      (pipeline.window.contentsOf_prefix stage.passedOn (dataOf stage.arriving)).length_le
    have positive := List.length_pos_of_ne_nil mixed
    simp only [List.length_append] at bounded
    change (pipeline.window.contentsOf stage.seen ++ done).length <
      (pipeline.window.contentsOf (stage.passedOn ++ dataOf stage.arriving)).length
    rw [List.length_append]
    omega
  · rw [List.flatMap_append, List.flatMap_singleton, ← List.append_assoc]
    change List.Forall₂ _ (_ ++ _ ++ _ ++ []) _
    rw [List.append_nil]
    exact List.rel_append retries.means means

theorem marks_eq_of_corresponds
    (corresponds : List.Forall₂ (Contents.Corresponds (pipeline.Matches shown)) done committed) :
    done.getLast?.map Contents.mark = committed.getLast?.map Contents.mark := by
  have marks_eq : done.map Contents.mark = committed.map Contents.mark := by
    rw [← List.forall₂_eq_eq_eq, List.forall₂_map_left_iff, List.forall₂_map_right_iff]
    exact corresponds.imp fun _ _ pair => pair.mark_eq
  rw [← List.getLast?_map, ← List.getLast?_map, marks_eq]

/-- The mean checks the windows that a match completes, and the scheduler responds to what it
reports. -/
theorem check (retries : pipeline.Retries shown arrived results ended stage)
    (setting : pipeline.Setting shown arrived relation) (spans : pipeline.window.kind = .time)
    (called_eq : stage.called = input :: others) (waits : stage.waiting = result :: rest)
    (matched : pipeline.Matches shown input result) {before later : Aggregation}
    (synopsis_eq : before.synopsis = (SynopsisLog.ofTuples pipeline.window stage.taken).synopsis)
    {outcome : Except OperatorError Step}
    (checks : Aggregation.Checks
      ((AggregateFunction.mean pipeline.index).apply pipeline.mean.schema) result before later
      committed left sent outcome) :
    ∃ step ended', outcome = .ok step ∧
      ended'.length = ended.length + step.losesConsistency.toNat ∧
      pipeline.Retries shown arrived (results ++ sent) ended'
        ((stage.take input result).respond step) := by
  obtain ⟨done, remaining, completed, corresponds, left_corresponds⟩ :=
    retries.exists_windows spans matched (synopsis_eq ▸ checks.windows_eq)
  have means := retries.means_of_corresponds setting spans called_eq corresponds
    (fun window member => by rw [completed]; simp [member]) checks.consistent checks.results
  have marks_eq := marks_eq_of_corresponds corresponds
  have all_committed (none_left : remaining = []) :
      pipeline.Retries shown arrived (results ++ sent) ended
        ((stage.take input result).commit (committed.getLast?.map Contents.mark)) := by
    rw [none_left, List.append_nil] at completed
    rw [← marks_eq]
    exact retries.settle spans called_eq waits matched completed means
  cases checks.reports with
  | nothing =>
      cases left_corresponds
      exact ⟨_, ended, rfl, rfl, all_committed rfl⟩
  | commits earlier last =>
      cases left_corresponds
      rw [List.getLast?_concat] at all_committed
      exact ⟨_, ended, rfl, rfl, all_committed rfl⟩
  | mixed _ behind =>
      cases left_corresponds with
      | cons first others =>
          obtain ⟨attempt, given_up⟩ :=
            retries.giveUp spans called_eq completed (List.cons_ne_nil _ _) means
          rw [marks_eq] at given_up
          exact ⟨_, _, rfl, List.length_append, given_up⟩
  | fails _ behind failed =>
      cases left_corresponds with
      | cons first others =>
          obtain ⟨mean, computed⟩ := retries.exists_mean setting spans called_eq
            (by rw [completed]; simp) first
          cases failed.symm.trans computed

end Retries

/-! ## Evaluations in a world -/

namespace IsAt

variable {role : CommitRole}

/-- The stream passes a tuple on, if there is one. -/
theorem evaluate_stream (is_at : pipeline.IsAt world stage) (places : pipeline.HasPlaces)
    (role : CommitRole) :
    ∃ step after, (world.evaluate role pipeline.stream).2 = .ok step ∧ step.isSignal = false ∧
      pipeline.Moves shown stage after ∧
      pipeline.IsAt (world.evaluate role pipeline.stream).1 after := by
  obtain ⟨arrivals, remembered, arriving⟩ := is_at.source
  cases waits : arrivals.queue with
  | nil =>
      have idle : world.evaluate role pipeline.stream = (world, .ok .idle) :=
        World.evaluate_source_of_nil role remembered waits
      rw [idle]
      exact ⟨_, stage, rfl, rfl, .rests, is_at⟩
  | cons tuple rest =>
      obtain ⟨sends, evaluated⟩ := World.evaluate_source_of_cons role remembered waits
      change World.Sends _ _ _ _ world (world.evaluate role pipeline.stream).1 at sends
      refine ⟨_, _, evaluated, rfl, .passes (arriving.symm.trans waits),
        { source := ⟨_, sends.memory, rfl⟩
          passed := ?_
          stateless := ?_
          waiting := ?_
          mean := ?_ }⟩
      · rw [sends.self, is_at.passed]
        rfl
      · rw [sends.memories _ places.source_ne_combine.symm, is_at.stateless]
      · rw [sends.others _ places.source_ne_combine.symm List.not_mem_nil, is_at.waiting]
      · rw [sends.memories _ places.source_ne_mean.symm]
        exact is_at.mean

/-- The match takes a tuple and sends on what it makes of it. -/
theorem of_match (is_at : pipeline.IsAt world stage) (places : pipeline.HasPlaces)
    {tuple : Tuple} {rest results : List Tuple} (waits : stage.passed = tuple :: rest)
    {after : World}
    (sends : World.Sends pipeline.combine.id [pipeline.source.id] results .stateless world after)
    (called : List Tuple) :
    pipeline.IsAt after
      { stage with called, waiting := stage.waiting ++ results, passed := rest } where
  source := by
    rw [sends.memories _ places.source_ne_combine]
    exact is_at.source
  passed := by
    rw [sends.inputs _ (List.mem_singleton_self _), is_at.passed, waits]
    rfl
  stateless := sends.memory
  waiting := by rw [sends.self, Channel.enqueueAll_queue, is_at.waiting]
  mean := by
    rw [sends.memories _ places.combine_ne_mean.symm]
    exact is_at.mean

/-- The match takes a tuple, if there is one, and finds one row for it if it carries data. -/
theorem evaluate_matching (is_at : pipeline.IsAt world stage) (places : pipeline.HasPlaces)
    (role : CommitRole) {relation : Relation}
    (found : world.relation? pipeline.reference.place = some relation)
    (access : world.catalog.access.mode = .optimistic)
    (setting : pipeline.Setting shown arrived relation)
    (arrives : ∀ input ∈ dataOf stage.passed, input ∈ arrived) :
    ∃ step after, (world.evaluate role pipeline.matching).2 = .ok step ∧ step.isSignal = false ∧
      pipeline.Moves shown stage after ∧
      pipeline.IsAt (world.evaluate role pipeline.matching).1 after := by
  have different : pipeline.stream.id ≠ pipeline.combine.id := places.source_ne_combine
  have settled : world.hasPendingCommit pipeline.combine.id = false := by
    rw [World.hasPendingCommit_eq, is_at.stateless]
    rfl
  have queue_eq : (world.output pipeline.stream.id).queue = stage.passed :=
    congrArg Channel.queue is_at.passed
  cases waits : stage.passed with
  | nil =>
      have idle : world.evaluate role pipeline.matching = (world, .ok .idle) :=
        World.evaluate_single_of_nil role _ (queue_eq.trans waits)
      rw [idle]
      exact ⟨_, stage, rfl, rfl, .rests, is_at⟩
  | cons tuple rest =>
      cases is_marker : tuple.isEndOfStream with
      | true =>
          obtain ⟨sends, evaluated, _⟩ := World.evaluate_single_of_marker role
            (.combine pipeline.reference pipeline.condition) is_at.stateless settled different
            (queue_eq.trans waits) is_marker
          exact ⟨_, _, evaluated, rfl, .relays waits is_marker,
            is_at.of_match places waits sends stage.called⟩
      | false =>
          have input_mem : tuple ∈ arrived :=
            arrives tuple (by rw [waits, dataOf_cons_of_data is_marker]; exact List.mem_cons_self)
          obtain ⟨result, matched⟩ :
              ∃ result, matchSnapshot pipeline.condition pipeline.combine.schema
                pipeline.reference.place relation.snapshot tuple = .ok [result] :=
            matchSnapshot_of_matchesOnce (setting.serves.once tuple input_mem)
          have read : world.catalog.readRelation pipeline.reference.place relation =
              (relation.snapshot, world.catalog) := by
            rw [Catalog.readRelation]
            simp only [access]
          obtain ⟨sends, ⟨step, evaluated, quiet⟩, _⟩ := World.evaluate_combine role
            is_at.stateless settled different (queue_eq.trans waits) is_marker found read
            (setting.id_eq ▸ matched)
          exact ⟨step, _, evaluated, quiet,
            .calls waits is_marker ⟨_, setting.shown_now, matched⟩,
            is_at.of_match places waits sends _⟩

/-- The mean takes a tuple. -/
theorem of_mean (is_at : pipeline.IsAt world stage) (places : pipeline.HasPlaces)
    {tuple : Tuple} {rest results : List Tuple} (waits : stage.waiting = tuple :: rest)
    {aggregation : Aggregation} {after : World}
    (sends : World.Sends pipeline.mean.id [pipeline.combine.id] results (.aggregate aggregation)
      world after) {next : Stage} (arriving_eq : next.arriving = stage.arriving)
    (passed_eq : next.passed = stage.passed) (kept_eq : next.kept = stage.kept)
    (waiting_eq : next.waiting = rest)
    (synopsis_eq : aggregation.synopsis =
      (SynopsisLog.ofTuples pipeline.window next.taken).synopsis)
    (settled : aggregation.pendingCommit = false) : pipeline.IsAt after next where
  source := by
    rw [sends.memories _ places.source_ne_mean, arriving_eq]
    exact is_at.source
  passed := by
    rw [sends.others _ places.source_ne_mean (by simpa using places.source_ne_combine),
      is_at.passed, passed_eq, kept_eq]
  stateless := by rw [sends.memories _ places.combine_ne_mean, is_at.stateless]
  waiting := by
    rw [sends.inputs _ (List.mem_singleton_self _), waiting_eq]
    simp [is_at.waiting, waits]
  mean := ⟨aggregation, sends.memory, synopsis_eq, settled⟩

end IsAt

/-- An evaluation and the response to its step keep account of the attempts. -/
def GoesOn (pipeline : Pipeline) (shown : Snapshot → Prop) (arrived results : List Tuple)
    (ended : List Attempt) (after : World) (step : Step) : Prop :=
  ∃ next ended', pipeline.IsAt after next ∧
    ended'.length = ended.length + step.losesConsistency.toNat ∧
    pipeline.Retries shown arrived results ended' (next.respond step)

theorem losesConsistency_of_quiet {step : Step} (quiet : step.isSignal = false) :
    step.losesConsistency = false := by
  cases step with
  | lostConsistency mark? => cases quiet
  | _ => rfl

namespace Retries

variable {role : CommitRole} {relation : Relation}

theorem goesOn_of_quiet (retries : pipeline.Retries shown arrived results ended stage)
    (moves : pipeline.Moves shown stage after) {step : Step} (quiet : step.isSignal = false)
    (is_at : pipeline.IsAt world after) :
    pipeline.GoesOn shown arrived results ended world step := by
  refine ⟨after, ended, is_at, ?_, ?_⟩
  · rw [losesConsistency_of_quiet quiet]
    rfl
  · rw [Stage.respond_of_quiet after quiet]
    exact retries.move moves

/-- What waits before the mean has a call that it stands for. -/
theorem exists_called (retries : pipeline.Retries shown arrived results ended stage)
    {tuple : Tuple} {rest : List Tuple} (waits : stage.waiting = tuple :: rest)
    (is_data : tuple.isEndOfStream = false) :
    ∃ input others, stage.called = input :: others ∧ pipeline.Matches shown input tuple := by
  have waiting := retries.waiting
  rw [waits, dataOf_cons_of_data is_data] at waiting
  cases called_eq : stage.called with
  | nil =>
      rw [called_eq] at waiting
      cases waiting
  | cons input others =>
      rw [called_eq] at waiting
      exact ⟨input, others, rfl, (List.forall₂_cons.mp waiting).1⟩

theorem output_of_sends {sent : List Tuple} {memory : Memory} {after : World}
    (sends : World.Sends pipeline.mean.id [pipeline.combine.id] sent memory world after) :
    (after.output pipeline.mean.id).queue = (world.output pipeline.mean.id).queue ++ sent := by
  rw [sends.self, Channel.enqueueAll_queue]

/-- The mean takes a tuple and checks the windows that it completes. -/
theorem evaluate_tree_of_data (retries : pipeline.Retries shown arrived results ended stage)
    (is_at : pipeline.IsAt world stage) (places : pipeline.HasPlaces)
    (role_eq : role = .of .optimistic true) (setting : pipeline.Setting shown arrived relation)
    (spans : pipeline.window.kind = .time) {tuple : Tuple} {rest : List Tuple}
    (waits : stage.waiting = tuple :: rest) (is_data : tuple.isEndOfStream = false) :
    ∃ step sent, (world.evaluate role pipeline.tree).2 = .ok step ∧
      ((world.evaluate role pipeline.tree).1.output pipeline.mean.id).queue =
        (world.output pipeline.mean.id).queue ++ sent ∧
      pipeline.GoesOn shown arrived (results ++ dataOf sent) ended
        (world.evaluate role pipeline.tree).1 step := by
  obtain ⟨aggregation, remembered, synopsis_eq, settled⟩ := is_at.mean
  have different : pipeline.matching.id ≠ pipeline.mean.id := places.combine_ne_mean
  obtain ⟨sends, evaluated, _⟩ := World.evaluate_aggregate role pipeline.window
    (.mean pipeline.index) remembered settled different (is_at.waiting.trans waits) is_data
  obtain ⟨committed, left, checks⟩ := aggregation.exists_checks (.mean pipeline.index)
    pipeline.mean.schema tuple role_eq
  obtain ⟨input, others, called_eq, matched⟩ := retries.exists_called waits is_data
  obtain ⟨step, ended', outcome, counted, checked⟩ :=
    retries.check setting spans called_eq waits matched synopsis_eq checks
  have taken_eq : (aggregation.accept (.mean pipeline.index) pipeline.mean.schema role
      tuple).1.synopsis =
        (SynopsisLog.ofTuples pipeline.window (stage.taken ++ [tuple])).synopsis := by
    rw [SynopsisLog.ofTuples_append_singleton, checks.synopsis_eq, synopsis_eq]
    rfl
  refine ⟨step, _, evaluated.trans outcome, output_of_sends sends, stage.take input tuple, ended',
    ?_, counted, ?_⟩
  · exact is_at.of_mean places waits sends rfl rfl rfl (by simp [Stage.take, waits]) taken_eq
      (checks.pending_eq.trans settled)
  · rw [dataOf_of_data checks.isEndOfStream_eq_false]
    exact checked

/-- The mean takes a tuple, if there is one, and checks the windows that it completes. -/
theorem evaluate_tree (retries : pipeline.Retries shown arrived results ended stage)
    (is_at : pipeline.IsAt world stage) (places : pipeline.HasPlaces)
    (role_eq : role = .of .optimistic true) (setting : pipeline.Setting shown arrived relation)
    (spans : pipeline.window.kind = .time) :
    ∃ step sent, (world.evaluate role pipeline.tree).2 = .ok step ∧
      ((world.evaluate role pipeline.tree).1.output pipeline.mean.id).queue =
        (world.output pipeline.mean.id).queue ++ sent ∧
      pipeline.GoesOn shown arrived (results ++ dataOf sent) ended
        (world.evaluate role pipeline.tree).1 step := by
  obtain ⟨aggregation, remembered, synopsis_eq, settled⟩ := is_at.mean
  have different : pipeline.matching.id ≠ pipeline.mean.id := places.combine_ne_mean
  cases waits : stage.waiting with
  | nil =>
      have idle : world.evaluate role pipeline.tree = (world, .ok .idle) :=
        World.evaluate_single_of_nil role _ (is_at.waiting.trans waits)
      rw [idle]
      refine ⟨_, [], rfl, (List.append_nil _).symm, ?_⟩
      rw [dataOf_nil, List.append_nil]
      exact retries.goesOn_of_quiet .rests rfl is_at
  | cons tuple rest =>
      cases is_marker : tuple.isEndOfStream with
      | true =>
          obtain ⟨sends, evaluated, _⟩ := World.evaluate_single_of_marker role
            (.aggregate pipeline.window (.mean pipeline.index)) remembered
            ((World.hasPendingCommit_of_memory? remembered).trans settled) different
            (is_at.waiting.trans waits) is_marker
          refine ⟨_, [tuple], evaluated, output_of_sends sends, ?_⟩
          rw [dataOf_cons_of_marker is_marker, dataOf_nil, List.append_nil]
          exact retries.goesOn_of_quiet (.skips waits is_marker) rfl
            (is_at.of_mean places waits sends rfl rfl rfl rfl synopsis_eq settled)
      | false =>
          exact retries.evaluate_tree_of_data is_at places role_eq setting spans waits is_marker

end Retries

/-! ## Responses -/

namespace IsAt

variable {deployment : Deployment} {execution : Execution}

theorem commitBefore (is_at : pipeline.IsAt execution.world stage)
    (redone : pipeline.IsRedoneBy deployment.schedule) (mark : Int) :
    pipeline.IsAt (deployment.schedule.commitBefore execution mark).world
      (stage.commit (some mark)) where
  source := by
    rw [Schedule.memory?_commitBefore]
    exact is_at.source
  passed := by
    rw [Schedule.output_commitBefore, if_pos redone.source_mem_streams, is_at.passed]
    rfl
  stateless := by rw [Schedule.memory?_commitBefore, is_at.stateless]
  waiting := by
    rw [Schedule.output_commitBefore, if_neg redone.combine_not_mem_streams]
    exact is_at.waiting
  mean := by
    rw [Schedule.memory?_commitBefore]
    exact is_at.mean

theorem redoArea (is_at : pipeline.IsAt execution.world stage)
    (redone : pipeline.IsRedoneBy deployment.schedule) :
    pipeline.IsAt (deployment.schedule.redoArea execution).world stage.redo where
  source := by
    rw [Schedule.memory?_redoArea, if_neg redone.source_not_mem]
    exact is_at.source
  passed := by
    rw [Schedule.output_redoArea, if_pos redone.source_mem_streams,
      if_neg fun member => redone.source_not_mem member.1, is_at.passed]
    rfl
  stateless := by
    rw [Schedule.memory?_redoArea, if_pos redone.combine_mem, is_at.stateless]
    rfl
  waiting := by
    rw [Schedule.output_redoArea, if_neg redone.combine_not_mem_streams,
      if_pos ⟨redone.combine_mem, redone.combine_ne_commit⟩]
    rfl
  mean := by
    obtain ⟨aggregation, remembered, synopsis_eq, _⟩ := is_at.mean
    refine ⟨aggregation.reset, ?_, ?_, rfl⟩
    · rw [Schedule.memory?_redoArea, if_pos redone.mean_mem, remembered]
      rfl
    · refine (congrArg Synopsis.reset synopsis_eq).trans ?_
      change ((Synopsis.ofWindow pipeline.window).enqueueAll stage.taken).reset = _
      rw [Synopsis.reset_enqueueAll, Synopsis.reset_ofWindow]
      rfl

/-- The scheduler responds to a step. -/
theorem respond (is_at : pipeline.IsAt execution.world stage)
    (redone : pipeline.IsRedoneBy deployment.schedule) (step : Step) :
    pipeline.IsAt (deployment.schedule.reactOptimistically execution step).world
      (stage.respond step) := by
  cases step with
  | commit mark => exact is_at.commitBefore redone mark
  | lostConsistency mark? =>
      cases mark? with
      | none => exact is_at.redoArea redone
      | some mark => exact (is_at.commitBefore redone mark).redoArea redone
  | _ => exact is_at

end IsAt

end Pipeline

end StreamQuery
