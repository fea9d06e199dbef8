import Mathlib.Data.List.Induction
import StreamQuery.Proofs.Engine.Cells
import StreamQuery.Proofs.Engine.Ends
import StreamQuery.Proofs.Engine.Responses
import StreamQuery.Proofs.Engine.Updates
import StreamQuery.Proofs.Plan.Reach

/-!
# The end of the results

When nothing follows the end of any source, nothing follows the end of the results, whatever is
evaluated again: the operators whose inputs have ended are those that have nothing more to take, and
the commit operator, which starts everything over, is not among them. A join that starts over keeps
the ends that it has noted, so this holds as long as none has.
-/

namespace StreamQuery

namespace Schedule

/-- No join that starts over with the redo area has noted an end. -/
def IsOpen (schedule : Schedule) (world : World) : Prop :=
  ∀ header logic left right, .join header logic left right ∈ schedule.order →
    header.id ∈ schedule.redo.operators →
    ∀ state, world.memory? header.id = some (.join state) →
      state.left.hasEnded = false ∧ state.right.hasEnded = false

theorem length_react (schedule : Schedule) (execution : Execution) (step : Step) :
    (schedule.react execution step).world.cells.length = execution.world.cells.length := by
  refine schedule.react_preserves (·.cells.length = execution.world.cells.length)
    (fun world change _ same => ?_) (fun world same => ?_) (fun world same => same) step rfl
  · rwa [World.length_modifyOutputs]
  · rwa [World.length_restart]

end Schedule

/-- Where ends of streams are in a run. The trees that have ended are given. -/
structure EndsInOrder (deployment : Deployment) (fed : Nat → List Tuple) (ended : QueryTree → Prop)
    (log : List Firing) (world : World) : Prop where
  /-- Every operator has a cell. -/
  places : ∀ operator ∈ deployment.tree.postOrder, operator.id < world.cells.length
  /-- What waits at a source arrived last. -/
  arrivals : ∀ header, .source header ∈ deployment.tree.postOrder → ∀ arrivals,
    world.memory? header.id = some (.source arrivals) → arrivals.queue <:+ fed header.id
  /-- A marker that waits is the last tuple of its tree. -/
  queues : ∀ operator ∈ deployment.tree.postOrder,
    EndsOnce (world.output operator.id).queue ∧
      (HasEnd (world.output operator.id).queue → ended operator)
  /-- A marker in a backup is the last tuple of its tree. -/
  backups : ∀ operator ∈ deployment.tree.postOrder,
    EndsOnce (world.output operator.id).backup ∧
      (HasEnd (world.output operator.id).backup → ended operator)
  /-- Only outputs that are delivered again are backed up. -/
  unprotected : ∀ operator ∈ deployment.tree.postOrder,
    operator.id ∉ deployment.schedule.redo.streams →
      (world.output operator.id).isProtected = false ∧ (world.output operator.id).backup = []
  /-- Joins have noted ends rightly. -/
  notes : ∀ header logic left right, .join header logic left right ∈ deployment.tree.postOrder →
    ∀ state, world.memory? header.id = some (.join state) →
      world.NotesEnds ended left right state
  /-- Only the commit operator has open commits. -/
  commits : ∀ operator ∈ deployment.tree.postOrder,
    world.hasPendingCommit operator.id = true → deployment.schedule.commit? = some operator.id
  /-- A marker among the results is the last of them. -/
  results : EndsOnce (Firing.sentBy deployment.tree.id log) ∧
    (HasEnd (Firing.sentBy deployment.tree.id log) → ended deployment.tree)

/-- The trees that have ended are those that are spent. -/
abbrev EndHistory (deployment : Deployment) (fed : Nat → List Tuple) (log : List Firing)
    (world : World) : Prop :=
  EndsInOrder deployment fed (world.IsSpent fed) log world

namespace EndsInOrder

variable {deployment : Deployment} {fed : Nat → List Tuple} {log : List Firing} {world : World}
  {operator : QueryTree}

theorem exists_cell {ended : QueryTree → Prop}
    (history : EndsInOrder deployment fed ended log world)
    (member : operator ∈ deployment.tree.postOrder) :
    ∃ cell, world.cells[operator.id]? = some cell :=
  ⟨_, List.getElem?_eq_getElem (history.places operator member)⟩

theorem exists_advances (history : EndHistory deployment fed log world)
    (fed_once : ∀ header, .source header ∈ deployment.tree.postOrder → EndsOnce (fed header.id))
    (member : operator ∈ deployment.tree.postOrder) (role : CommitRole) :
    ∃ results, world.Advances fed role operator results (world.evaluate role operator) := by
  obtain ⟨cell, found⟩ := history.exists_cell member
  have different := deployment.input_id_ne member
  cases operator with
  | source header =>
      exact World.advances_source found (history.arrivals header member) (fed_once header member)
  | single header logic input =>
      have queue := history.queues input
        (QueryTree.input_mem_postOrder member (by simp [QueryTree.inputs]))
      exact World.advances_single found (different input (by simp [QueryTree.inputs])) queue.1
        queue.2
  | join header logic left right =>
      have left_queue := history.queues left
        (QueryTree.input_mem_postOrder member (by simp [QueryTree.inputs]))
      have right_queue := history.queues right
        (QueryTree.input_mem_postOrder member (by simp [QueryTree.inputs]))
      have apart := deployment.forest.left_id_ne_right_id
        (deployment.forest.mem_of_mem_postOrder deployment.tree_mem member).1
      exact World.advances_join found (different left (by simp [QueryTree.inputs]))
        (different right (by simp [QueryTree.inputs])) apart left_queue.1 right_queue.1
        left_queue.2 right_queue.2 (history.notes header logic left right member)

/-- A tree without the operator that was evaluated is spent if it was before. -/
theorem isSpent_of_moves {results : List Tuple} {after : World} {tree : QueryTree}
    (moves : world.Moves operator.id results after)
    (member : operator ∈ deployment.tree.postOrder) (tree_mem : tree ∈ deployment.tree.postOrder)
    (outside : operator ∉ tree.postOrder) (spent : world.IsSpent fed tree) :
    after.IsSpent fed tree := by
  intro other inside
  have apart {part : QueryTree} (part_mem : part ∈ tree.postOrder) : part.id ≠ operator.id := by
    intro same
    rw [deployment.eq_of_id_eq (QueryTree.postOrder_trans _ part_mem tree_mem) member same]
      at part_mem
    exact outside part_mem
  exact (spent other inside).mono
    (fun input is_input empty =>
      moves.queue_eq_nil (apart (QueryTree.input_mem_postOrder inside is_input)) empty)
    (moves.remembers _ (apart inside))

/-- An operator that is not starved is evaluated. -/
structure Activates (deployment : Deployment) (fed : Nat → List Tuple) (log : List Firing)
    (world : World) (operator : QueryTree) (results : List Tuple)
    (outcome : World × Except OperatorError Step) : Prop where
  history : EndHistory deployment fed log world
  member : operator ∈ deployment.tree.postOrder
  active : ¬world.IsStarved fed operator
  advances : world.Advances fed (deployment.schedule.role operator.id) operator results outcome

namespace Activates

variable {results : List Tuple} {outcome : World × Except OperatorError Step} {tree : QueryTree}

/-- Trees that have ended do not contain the operator. -/
theorem outside (activates : Activates deployment fed log world operator results outcome)
    (spent : world.IsSpent fed tree) : operator ∉ tree.postOrder :=
  fun inside => activates.active (spent operator inside)

theorem apart (activates : Activates deployment fed log world operator results outcome)
    (tree_mem : tree ∈ deployment.tree.postOrder) (different : tree ≠ operator) :
    tree.id ≠ operator.id :=
  fun same => different (deployment.eq_of_id_eq tree_mem activates.member same)

/-- Trees that have ended stay so. -/
theorem keeps (activates : Activates deployment fed log world operator results outcome)
    (tree_mem : tree ∈ deployment.tree.postOrder) (spent : world.IsSpent fed tree) :
    outcome.1.IsSpent fed tree ∧ (operator ∈ tree.postOrder → HasEnd results) :=
  ⟨isSpent_of_moves activates.advances.moves activates.member tree_mem (activates.outside spent)
    spent, fun inside => absurd inside (activates.outside spent)⟩

/-- Where the operator is inside of what has ended, nothing has ended yet. -/
theorem not_hasEnd (activates : Activates deployment fed log world operator results outcome)
    {tuples : List Tuple} (ended : HasEnd tuples → world.IsSpent fed tree)
    (inside : operator ∈ tree.postOrder) : ¬HasEnd tuples :=
  fun ends => activates.outside (ended ends) inside

/-- The operator has ended when it has sent a marker. -/
theorem self_ended (activates : Activates deployment fed log world operator results outcome)
    (ends : HasEnd results) :
    outcome.1.IsSpent fed operator ∧ (operator ∈ operator.postOrder → HasEnd results) := by
  obtain ⟨starved, spent⟩ := activates.advances.starves ends
  refine ⟨.of_inputs starved fun input is_input => ?_, fun _ => ends⟩
  exact (activates.keeps (QueryTree.input_mem_postOrder activates.member is_input)
    (spent input is_input)).1

/-- What was open before the results were sent ends at most with them. -/
theorem endsOnce_append (activates : Activates deployment fed log world operator results outcome)
    {tuples : List Tuple} (still_open : ¬HasEnd tuples) :
    EndsOnce (tuples ++ results) ∧ (HasEnd (tuples ++ results) →
      outcome.1.IsSpent fed operator ∧ (operator ∈ operator.postOrder → HasEnd results)) := by
  rw [hasEnd_append]
  exact ⟨activates.advances.endsOnce.append still_open,
    fun ends => activates.self_ended (ends.resolve_left still_open)⟩

theorem arrivals (activates : Activates deployment fed log world operator results outcome)
    (header : OperatorHeader) (header_mem : .source header ∈ deployment.tree.postOrder)
    (arrivals : Channel) (remembered : outcome.1.memory? header.id = some (.source arrivals)) :
    arrivals.queue <:+ fed header.id := by
  by_cases same : .source header = operator
  · exact activates.advances.arrivals header same.symm arrivals remembered
  · exact activates.history.arrivals header header_mem arrivals
      (activates.advances.moves.remembers _ (activates.apart header_mem same) ▸ remembered)

theorem queues (activates : Activates deployment fed log world operator results outcome)
    (tree_mem : tree ∈ deployment.tree.postOrder) :
    EndsOnce (outcome.1.output tree.id).queue ∧ (HasEnd (outcome.1.output tree.id).queue →
      outcome.1.IsSpent fed tree ∧ (operator ∈ tree.postOrder → HasEnd results)) := by
  obtain ⟨once, ended⟩ := activates.history.queues tree tree_mem
  by_cases same : tree = operator
  · subst same
    rw [activates.advances.moves.sends, Channel.enqueueAll_queue]
    exact activates.endsOnce_append (activates.not_hasEnd ended (QueryTree.self_mem_postOrder _))
  · obtain ⟨queue, is_suffix, output_eq⟩ :=
      activates.advances.moves.keeps tree.id (activates.apart tree_mem same)
    rw [output_eq]
    exact ⟨once.sublist is_suffix.sublist,
      fun ends => activates.keeps tree_mem (ended (ends.mono is_suffix.subset))⟩

theorem backups (activates : Activates deployment fed log world operator results outcome)
    (tree_mem : tree ∈ deployment.tree.postOrder) :
    EndsOnce (outcome.1.output tree.id).backup ∧ (HasEnd (outcome.1.output tree.id).backup →
      outcome.1.IsSpent fed tree ∧ (operator ∈ tree.postOrder → HasEnd results)) := by
  obtain ⟨once, ended⟩ := activates.history.backups tree tree_mem
  by_cases same : tree = operator
  · subst same
    have still_open := activates.not_hasEnd ended (QueryTree.self_mem_postOrder _)
    rw [activates.advances.moves.sends, Channel.enqueueAll_backup]
    split
    · exact activates.endsOnce_append still_open
    · exact ⟨once, fun ends => absurd ends still_open⟩
  · obtain ⟨queue, _, output_eq⟩ :=
      activates.advances.moves.keeps tree.id (activates.apart tree_mem same)
    rw [output_eq]
    exact ⟨once, fun ends => activates.keeps tree_mem (ended ends)⟩

theorem unprotected (activates : Activates deployment fed log world operator results outcome)
    (tree_mem : tree ∈ deployment.tree.postOrder)
    (unwatched : tree.id ∉ deployment.schedule.redo.streams) :
    (outcome.1.output tree.id).isProtected = false ∧ (outcome.1.output tree.id).backup = [] := by
  obtain ⟨bare, empty⟩ := activates.history.unprotected tree tree_mem unwatched
  by_cases same : tree = operator
  · subst same
    rw [activates.advances.moves.sends, Channel.enqueueAll_isProtected, Channel.enqueueAll_backup,
      bare]
    exact ⟨rfl, empty⟩
  · obtain ⟨queue, _, output_eq⟩ :=
      activates.advances.moves.keeps tree.id (activates.apart tree_mem same)
    rw [output_eq]
    exact ⟨bare, empty⟩

/-- An input that has ended and has nothing left stays so, also if it is not the operator that is
evaluated. -/
theorem keeps_empty (activates : Activates deployment fed log world operator results outcome)
    (tree_mem : tree ∈ deployment.tree.postOrder) (spent : world.IsSpent fed tree)
    (empty : (world.output tree.id).queue = []) :
    (outcome.1.IsSpent fed tree ∧ (operator ∈ tree.postOrder → HasEnd results)) ∧
      (outcome.1.output tree.id).queue = [] := by
  refine ⟨activates.keeps tree_mem spent,
    activates.advances.moves.queue_eq_nil (activates.apart tree_mem ?_) empty⟩
  rintro rfl
  exact activates.outside spent (QueryTree.self_mem_postOrder _)

theorem notes (activates : Activates deployment fed log world operator results outcome)
    (header : OperatorHeader) (logic : JoinLogic) (left right : QueryTree)
    (join_mem : .join header logic left right ∈ deployment.tree.postOrder) (state : WindowJoin)
    (remembered : outcome.1.memory? header.id = some (.join state)) :
    outcome.1.NotesEnds
      (fun tree => outcome.1.IsSpent fed tree ∧ (operator ∈ tree.postOrder → HasEnd results))
      left right state := by
  have left_mem : left ∈ deployment.tree.postOrder :=
    QueryTree.input_mem_postOrder join_mem (by simp [QueryTree.inputs])
  have right_mem : right ∈ deployment.tree.postOrder :=
    QueryTree.input_mem_postOrder join_mem (by simp [QueryTree.inputs])
  by_cases same : .join header logic left right = operator
  · exact (activates.advances.sides header logic left right same.symm state remembered).mono
      (fun spent empty => ⟨activates.keeps left_mem spent, empty⟩)
      fun spent empty => ⟨activates.keeps right_mem spent, empty⟩
  · exact (activates.history.notes header logic left right join_mem state
      (activates.advances.moves.remembers _ (activates.apart join_mem same) ▸ remembered)).mono
      (activates.keeps_empty left_mem) (activates.keeps_empty right_mem)

theorem commits (activates : Activates deployment fed log world operator results outcome)
    (tree_mem : tree ∈ deployment.tree.postOrder)
    (opened : outcome.1.hasPendingCommit tree.id = true) :
    deployment.schedule.commit? = some tree.id := by
  by_cases same : tree = operator
  · subst same
    rcases activates.advances.pending opened with before | defers
    · exact activates.history.commits tree tree_mem before
    · simpa [Schedule.role, CommitRole.of] using (Bool.and_eq_true_iff.mp defers).1
  · rw [World.hasPendingCommit_eq,
      activates.advances.moves.remembers _ (activates.apart tree_mem same),
      ← World.hasPendingCommit_eq] at opened
    exact activates.history.commits tree tree_mem opened

theorem results_end (activates : Activates deployment fed log world operator results outcome)
    {firing : Firing} (operator_eq : firing.operator = operator) (sent_eq : firing.sent = results) :
    EndsOnce (Firing.sentBy deployment.tree.id (log ++ [firing])) ∧
      (HasEnd (Firing.sentBy deployment.tree.id (log ++ [firing])) →
        outcome.1.IsSpent fed deployment.tree ∧
          (operator ∈ deployment.tree.postOrder → HasEnd results)) := by
  have still_open := activates.not_hasEnd activates.history.results.2 activates.member
  by_cases same : operator = deployment.tree
  · subst same
    rw [show deployment.tree.id = firing.operator.id by rw [operator_eq],
      Firing.sentBy_append_self, sent_eq, operator_eq]
    exact activates.endsOnce_append still_open
  · rw [Firing.sentBy_append_of_ne]
    · exact ⟨endsOnce_of_not_hasEnd still_open, fun ends => absurd ends still_open⟩
    · rw [operator_eq]
      exact fun same_id => same (deployment.eq_of_id_eq activates.member
        (QueryTree.self_mem_postOrder _) same_id)

end Activates

/-- When an operator that is not starved is evaluated, it and those that get its tuples have ended
only if it sends a marker. -/
theorem evaluate (history : EndHistory deployment fed log world)
    (member : operator ∈ deployment.tree.postOrder) (active : ¬world.IsStarved fed operator)
    {results : List Tuple}
    (advances : world.Advances fed (deployment.schedule.role operator.id) operator results
      (world.evaluate (deployment.schedule.role operator.id) operator)) :
    EndsInOrder deployment fed
      (fun tree =>
        (world.evaluate (deployment.schedule.role operator.id) operator).1.IsSpent fed tree ∧
          (operator ∈ tree.postOrder → HasEnd results))
      (log ++ [deployment.schedule.fire operator world])
      (world.evaluate (deployment.schedule.role operator.id) operator).1 := by
  have activates : Activates deployment fed log world operator results
      (world.evaluate (deployment.schedule.role operator.id) operator) :=
    ⟨history, member, active, advances⟩
  exact {
    places := fun other other_mem => by
      rw [world.length_evaluate]
      exact history.places other other_mem
    arrivals := activates.arrivals
    queues := fun _ => activates.queues
    backups := fun _ => activates.backups
    unprotected := fun _ => activates.unprotected
    notes := activates.notes
    commits := fun _ => activates.commits
    results := activates.results_end rfl advances.moves.sent }

/-- Nothing gets out of order where tuples are lost. -/
theorem of_sublists (history : EndHistory deployment fed log world) {after : World}
    (length_eq : after.cells.length = world.cells.length)
    (queue : ∀ id, (after.output id).queue.Sublist (world.output id).queue)
    (backup : ∀ id, (after.output id).backup.Sublist (world.output id).backup)
    (isProtected : ∀ id, (after.output id).isProtected = (world.output id).isProtected)
    (memory : ∀ id, after.memory? id = world.memory? id) :
    EndHistory deployment fed log after := by
  have empties {id : Nat} (empty : (world.output id).queue = []) : (after.output id).queue = [] :=
    List.sublist_nil.mp (empty ▸ queue id)
  have keeps {tree : QueryTree} (spent : world.IsSpent fed tree) : after.IsSpent fed tree :=
    fun other inside => (spent other inside).mono (fun _ _ => empties) (memory _)
  refine ⟨fun other other_mem => ?_, fun header header_mem arrivals remembered => ?_,
    fun other other_mem => ?_, fun other other_mem => ?_, fun other other_mem unwatched => ?_,
    fun header logic left right join_mem state remembered => ?_, fun other other_mem opened => ?_,
    ?_⟩
  · rw [length_eq]
    exact history.places other other_mem
  · exact history.arrivals header header_mem arrivals (memory _ ▸ remembered)
  · obtain ⟨once, ended⟩ := history.queues other other_mem
    exact ⟨once.sublist (queue _), fun ends => keeps (ended (ends.mono (queue _).subset))⟩
  · obtain ⟨once, ended⟩ := history.backups other other_mem
    exact ⟨once.sublist (backup _), fun ends => keeps (ended (ends.mono (backup _).subset))⟩
  · obtain ⟨bare, empty⟩ := history.unprotected other other_mem unwatched
    exact ⟨(isProtected _).trans bare, List.sublist_nil.mp (empty ▸ backup _)⟩
  · exact (history.notes header logic left right join_mem state (memory _ ▸ remembered)).mono
      (fun spent empty => ⟨keeps spent, empties empty⟩)
      fun spent empty => ⟨keeps spent, empties empty⟩
  · rw [World.hasPendingCommit_eq, memory, ← World.hasPendingCommit_eq] at opened
    exact history.commits other other_mem opened
  · exact ⟨history.results.1, fun ends => keeps (history.results.2 ends)⟩

/-- The redo area starts over, where no tree that gets tuples of the commit operator has ended. -/
structure Repeats (deployment : Deployment) (fed : Nat → List Tuple) (log : List Firing)
    (header : OperatorHeader) (window : Window) (index : Nat) (input : QueryTree)
    (world after : World) : Prop where
  commit : deployment.HasCommit header window index input
  controlled : deployment.config.mode ≠ .uncontrolled
  history : EndsInOrder deployment fed
    (fun tree => world.IsSpent fed tree ∧ .mean header window index input ∉ tree.postOrder) log
    world
  /-- What is left of outputs and memories. -/
  restarts : ∀ id, deployment.schedule.Restarts world after id

namespace Repeats

variable {header : OperatorHeader} {window : Window} {index : Nat} {input tree : QueryTree}
  {after : World}

/-- Trees without reads are not in the redo area. -/
theorem outside (deployment : Deployment) (tree_mem : tree ∈ deployment.tree.postOrder)
    (unread : tree.reads = 0) : tree.id ∉ deployment.schedule.redo.operators :=
  fun member => (deployment.reads_of_mem_operators tree_mem member).ne' unread

theorem remembers (anew : Repeats deployment fed log header window index input world after)
    (tree_mem : tree ∈ deployment.tree.postOrder) (unread : tree.reads = 0) :
    after.memory? tree.id = world.memory? tree.id := by
  rw [(anew.restarts tree.id).memory, if_neg (outside deployment tree_mem unread)]

/-- Where nothing waits for a tree without reads, nothing does afterwards. -/
theorem empties (anew : Repeats deployment fed log header window index input world after)
    (tree_mem : tree ∈ deployment.tree.postOrder) (unread : tree.reads = 0) {source : QueryTree}
    (is_input : source ∈ tree.inputs) (empty : (world.output source.id).queue = []) :
    (after.output source.id).queue = [] := by
  rw [(anew.restarts source.id).queue fun delivered => outside deployment tree_mem unread
    (deployment.mem_operators_of_input_mem_streams tree_mem is_input delivered), empty, ite_self]

/-- Trees without reads that have ended stay so. -/
theorem keeps (anew : Repeats deployment fed log header window index input world after)
    (tree_mem : tree ∈ deployment.tree.postOrder) (unread : tree.reads = 0)
    (spent : world.IsSpent fed tree) : after.IsSpent fed tree := by
  intro other inside
  have other_mem := QueryTree.postOrder_trans _ inside tree_mem
  have other_unread : other.reads = 0 :=
    Nat.le_zero.mp (unread ▸ QueryTree.reads_le_of_mem_postOrder inside)
  exact (spent other inside).mono (fun _ => anew.empties other_mem other_unread)
    (anew.remembers other_mem other_unread)

theorem commit?_ne (anew : Repeats deployment fed log header window index input world after)
    (tree_mem : tree ∈ deployment.tree.postOrder)
    (apart : .mean header window index input ∉ tree.postOrder) :
    deployment.schedule.commit? ≠ some tree.id := by
  rw [anew.commit.commit?_eq]
  intro same
  have commit_eq := deployment.eq_of_id_eq anew.commit.mem_postOrder tree_mem (Option.some.inj same)
  exact apart (commit_eq ▸ QueryTree.self_mem_postOrder _)

/-- A tree with reads that has ended is in the redo area. -/
theorem mem_operators (anew : Repeats deployment fed log header window index input world after)
    (tree_mem : tree ∈ deployment.tree.postOrder) (reads : 0 < tree.reads)
    (apart : .mean header window index input ∉ tree.postOrder) :
    tree.id ∈ deployment.schedule.redo.operators ∧ deployment.schedule.commit? ≠ some tree.id :=
  ⟨(anew.commit.mem_operators_or_downstream anew.controlled tree_mem reads).resolve_right apart,
    anew.commit?_ne tree_mem apart⟩

theorem queues (anew : Repeats deployment fed log header window index input world after)
    (tree_mem : tree ∈ deployment.tree.postOrder) :
    EndsOnce (after.output tree.id).queue ∧
      (HasEnd (after.output tree.id).queue → after.IsSpent fed tree) := by
  obtain ⟨once, ended⟩ := anew.history.queues tree tree_mem
  obtain ⟨backup_once, backup_ended⟩ := anew.history.backups tree tree_mem
  have restart := anew.restarts tree.id
  rcases Nat.eq_zero_or_pos tree.reads with unread | reads
  · by_cases delivered : tree.id ∈ deployment.schedule.redo.streams
    · have sublist := (restart.delivered delivered).trans restart.backup
      exact ⟨backup_once.sublist sublist, fun ends =>
        anew.keeps tree_mem unread (backup_ended (ends.mono sublist.subset)).1⟩
    · rw [restart.queue delivered,
        if_neg fun restarted => outside deployment tree_mem unread restarted.1]
      exact ⟨once, fun ends => anew.keeps tree_mem unread (ended ends).1⟩
  · have inside : tree.id ∉ deployment.schedule.redo.streams := fun delivered =>
      reads.ne' (anew.commit.reads_eq_zero_of_mem_streams anew.controlled tree_mem delivered)
    rw [restart.queue inside]
    split
    · exact ⟨endsOnce_of_not_hasEnd not_hasEnd_nil, fun ends => absurd ends not_hasEnd_nil⟩
    · rename_i kept
      exact ⟨once, fun ends => absurd (anew.mem_operators tree_mem reads (ended ends).2) kept⟩

/-- A backup that has a marker is one of a tree without reads. -/
theorem backups (anew : Repeats deployment fed log header window index input world after)
    (tree_mem : tree ∈ deployment.tree.postOrder) :
    EndsOnce (after.output tree.id).backup ∧
      (HasEnd (after.output tree.id).backup → after.IsSpent fed tree) := by
  obtain ⟨once, ended⟩ := anew.history.backups tree tree_mem
  have sublist := (anew.restarts tree.id).backup
  refine ⟨once.sublist sublist, fun ends => ?_⟩
  have before_ends := ends.mono sublist.subset
  refine anew.keeps tree_mem ?_ (ended before_ends).1
  by_contra reads
  have empty := (anew.history.unprotected tree tree_mem fun delivered =>
    reads (anew.commit.reads_eq_zero_of_mem_streams anew.controlled tree_mem delivered)).2
  rw [empty] at before_ends
  exact not_hasEnd_nil before_ends

/-- A join that starts over has noted no end; the others get no tuples of the redo area. -/
theorem notes (anew : Repeats deployment fed log header window index input world after)
    (is_open : deployment.schedule.IsOpen world) (joinHeader : OperatorHeader) (logic : JoinLogic)
    (left right : QueryTree)
    (join_mem : .join joinHeader logic left right ∈ deployment.tree.postOrder) (state : WindowJoin)
    (remembered : after.memory? joinHeader.id = some (.join state)) :
    after.NotesEnds (after.IsSpent fed) left right state := by
  by_cases restarted : joinHeader.id ∈ deployment.schedule.redo.operators
  · rw [(anew.restarts _).memory, if_pos restarted] at remembered
    obtain ⟨memory, memory_eq, reset_eq⟩ := Option.map_eq_some_iff.mp remembered
    cases memory with
    | join old =>
        obtain rfl : old.reset = state := by simpa [Memory.reset] using reset_eq
        obtain ⟨left_open, right_open⟩ := is_open joinHeader logic left right
          (deployment.order_eq ▸ join_mem) restarted old memory_eq
        exact ⟨fun ends => absurd (left_open.symm.trans ends) (by decide),
          fun ends => absurd (right_open.symm.trans ends) (by decide)⟩
    | _ => cases reset_eq
  · have unread : (QueryTree.join joinHeader logic left right).reads = 0 := by
      by_contra reads
      refine restarted ?_
      rw [anew.commit.redo_eq anew.controlled]
      exact RedoArea.mem_ofTree_operators_of_isWindowOperator join_mem rfl
        (QueryTree.self_mem_postOrder _) (Nat.pos_of_ne_zero reads)
    have unchanged {side : QueryTree}
        (is_input : side ∈ (QueryTree.join joinHeader logic left right).inputs)
        (ended : world.IsSpent fed side ∧ .mean header window index input ∉ side.postOrder)
        (empty : (world.output side.id).queue = []) :
        after.IsSpent fed side ∧ (after.output side.id).queue = [] := by
      have side_unread : side.reads = 0 :=
        Nat.le_zero.mp (unread ▸ QueryTree.reads_input_le is_input)
      exact ⟨anew.keeps (QueryTree.input_mem_postOrder join_mem is_input) side_unread ended.1,
        anew.empties join_mem unread is_input empty⟩
    exact (anew.history.notes joinHeader logic left right join_mem state
      (anew.remembers join_mem unread ▸ remembered)).mono
      (unchanged (by simp [QueryTree.inputs])) (unchanged (by simp [QueryTree.inputs]))

/-- No commit is opened. -/
theorem commits (anew : Repeats deployment fed log header window index input world after)
    (tree_mem : tree ∈ deployment.tree.postOrder) (opened : after.hasPendingCommit tree.id = true) :
    deployment.schedule.commit? = some tree.id := by
  refine anew.history.commits tree tree_mem ?_
  rw [World.hasPendingCommit_eq, (anew.restarts _).memory] at opened
  rw [World.hasPendingCommit_eq]
  split at opened
  · cases found : world.memory? tree.id with
    | none => simp [found] at opened
    | some memory =>
        cases memory <;>
          simp [found, Memory.reset, Memory.aggregation?, Aggregation.reset] at opened
  · exact opened

end Repeats

/-- When the redo area starts over, no tree that gets tuples of the commit operator has ended, so
only trees without reads have, and they stay as they are. -/
theorem startOver {header : OperatorHeader} {window : Window} {index : Nat} {input : QueryTree}
    (commit : deployment.HasCommit header window index input)
    (controlled : deployment.config.mode ≠ .uncontrolled)
    (history : EndsInOrder deployment fed
      (fun tree => world.IsSpent fed tree ∧ .mean header window index input ∉ tree.postOrder)
      log world)
    (is_open : deployment.schedule.IsOpen world) {after : World}
    (length_eq : after.cells.length = world.cells.length)
    (restarts : ∀ id, deployment.schedule.Restarts world after id) :
    EndHistory deployment fed log after := by
  have anew : Repeats deployment fed log header window index input world after :=
    ⟨commit, controlled, history, restarts⟩
  exact {
    places := fun other other_mem => length_eq ▸ history.places other other_mem
    arrivals := fun source source_mem arrivals remembered =>
      history.arrivals source source_mem arrivals (anew.remembers source_mem rfl ▸ remembered)
    queues := fun _ => anew.queues
    backups := fun _ => anew.backups
    unprotected := fun other other_mem unwatched => by
      obtain ⟨bare, empty⟩ := history.unprotected other other_mem unwatched
      exact ⟨(restarts other.id).isProtected.trans bare,
        List.sublist_nil.mp (empty ▸ (restarts other.id).backup)⟩
    notes := anew.notes is_open
    commits := fun _ => anew.commits
    results := ⟨history.results.1,
      fun ends => absurd commit.mem_postOrder (history.results.2 ends).2⟩ }

/-! ## Turns -/

theorem mono {ended other : QueryTree → Prop} (history : EndsInOrder deployment fed ended log world)
    (weaker : ∀ tree, ended tree → other tree) : EndsInOrder deployment fed other log world where
  places := history.places
  arrivals := history.arrivals
  queues operator member := (history.queues operator member).imp_right (weaker _ ∘ ·)
  backups operator member := (history.backups operator member).imp_right (weaker _ ∘ ·)
  unprotected := history.unprotected
  notes header logic left right member state remembered :=
    (history.notes header logic left right member state remembered).mono
      (fun ended empty => ⟨weaker left ended, empty⟩) fun ended empty => ⟨weaker right ended, empty⟩
  commits := history.commits
  results := history.results.imp_right (weaker _ ∘ ·)

/-- An evaluation after which the redo area starts over is one of the commit operator, to which more
was sent, and it sends no marker. -/
theorem fire (history : EndHistory deployment fed log world)
    (fed_once : ∀ header, .source header ∈ deployment.tree.postOrder → EndsOnce (fed header.id))
    (member : operator ∈ deployment.tree.postOrder) :
    EndHistory deployment fed (log ++ [deployment.schedule.fire operator world])
      (world.evaluate (deployment.schedule.role operator.id) operator).1 ∧
      ∀ execution step,
        (world.evaluate (deployment.schedule.role operator.id) operator).2 = .ok step →
        deployment.schedule.StartsOver execution step →
        deployment.schedule.commit? = some operator.id ∧
          EndsInOrder deployment fed
            (fun tree =>
              (world.evaluate (deployment.schedule.role operator.id) operator).1.IsSpent fed tree ∧
                operator ∉ tree.postOrder)
            (log ++ [deployment.schedule.fire operator world])
            (world.evaluate (deployment.schedule.role operator.id) operator).1 := by
  obtain ⟨cell, found⟩ := history.exists_cell member
  by_cases starved : world.IsStarved fed operator
  · obtain ⟨same, idle⟩ :=
      World.evaluate_of_isStarved found starved (deployment.schedule.role operator.id)
    have sent_eq : Firing.sentBy deployment.tree.id
        (log ++ [deployment.schedule.fire operator world]) =
          Firing.sentBy deployment.tree.id log := by
      have nothing : (deployment.schedule.fire operator world).sent = [] := by
        rw [Firing.sent, Schedule.fire, same, List.drop_length]
      rw [Firing.sentBy, List.flatMap_append, List.flatMap_singleton, nothing, ite_self,
        List.append_nil]
      rfl
    rw [same]
    refine ⟨{ history with results := sent_eq ▸ history.results },
      fun execution step stepped starts => ?_⟩
    rw [idle step stepped] at starts
    exact starts.elim
  · obtain ⟨results, advances⟩ :=
      history.exists_advances fed_once member (deployment.schedule.role operator.id)
    have evaluated := history.evaluate member starved advances
    refine ⟨evaluated.mono fun tree ended => ended.1, fun execution step stepped starts => ?_⟩
    have open_commit : deployment.schedule.commit? = some operator.id ∧ ¬HasEnd results := by
      cases step with
      | lostConsistency committed? =>
          refine (advances.gives_up committed? stepped).imp_left fun checks => ?_
          simpa [Schedule.role, CommitRole.of] using (Bool.and_eq_true_iff.mp checks).1
      | pendingAbort waiting =>
          exact (advances.settles waiting stepped).imp_left (history.commits operator member)
      | _ => exact starts.elim
    exact ⟨open_commit.1, evaluated.mono fun tree ended =>
      ⟨ended.1, fun inside => open_commit.2 (ended.2 inside)⟩⟩

theorem batch
    (fed_once : ∀ header, .source header ∈ deployment.tree.postOrder → EndsOnce (fed header.id))
    (member : operator ∈ deployment.tree.postOrder) (count : Nat) {execution : Execution}
    (history : EndHistory deployment fed log execution.world) :
    EndHistory deployment fed (log ++ deployment.schedule.batchFirings operator count execution)
      (deployment.schedule.evaluateBatch operator count execution).1.world ∧
      ∀ step, (deployment.schedule.evaluateBatch operator count execution).2 = .ok step →
        deployment.schedule.StartsOver
          (deployment.schedule.evaluateBatch operator count execution).1 step →
        deployment.schedule.commit? = some operator.id ∧
          EndsInOrder deployment fed
            (fun tree =>
              (deployment.schedule.evaluateBatch operator count execution).1.world.IsSpent fed
                tree ∧ operator ∉ tree.postOrder)
            (log ++ deployment.schedule.batchFirings operator count execution)
            (deployment.schedule.evaluateBatch operator count execution).1.world := by
  induction count generalizing log execution with
  | zero =>
      refine ⟨by simpa [Schedule.batchFirings, Schedule.evaluateBatch] using history, ?_⟩
      rintro step ⟨⟩ starts
      exact starts.elim
  | succ count induction =>
      have fired := history.fire fed_once member
      rw [Schedule.batchFirings, Schedule.evaluateBatch]
      rcases evaluated : execution.world.evaluate (deployment.schedule.role operator.id)
        operator with ⟨after, error | step⟩
      · rw [evaluated] at fired
        exact ⟨fired.1, by rintro step ⟨⟩⟩
      · rw [evaluated] at fired
        by_cases last : step = .idle ∨ step.isSignal = true
        · simp only [Bool.or_eq_true, decide_eq_true_eq, last, if_true]
          refine ⟨fired.1, ?_⟩
          rintro other ⟨⟩ starts
          exact fired.2 _ step rfl starts
        · simp only [Bool.or_eq_true, decide_eq_true_eq, last, if_false]
          rw [← List.singleton_append, ← List.append_assoc]
          exact induction fired.1

/-- The response to a step keeps ends in order, if no join that starts over has noted an end. -/
theorem react {execution : Execution} {step : Step}
    (history : EndHistory deployment fed log execution.world)
    (member : operator ∈ deployment.tree.postOrder)
    (starts_over : deployment.schedule.StartsOver execution step →
      deployment.schedule.commit? = some operator.id ∧
        EndsInOrder deployment fed
          (fun tree => execution.world.IsSpent fed tree ∧ operator ∉ tree.postOrder) log
          execution.world)
    (is_open : deployment.schedule.StartsOver execution step →
      deployment.schedule.IsOpen execution.world) :
    EndHistory deployment fed log (deployment.schedule.react execution step).world := by
  have length_eq := deployment.schedule.length_react execution step
  by_cases starts : deployment.schedule.StartsOver execution step
  · obtain ⟨commits, opened⟩ := starts_over starts
    obtain ⟨header, window, index, input, rfl, commit⟩ :=
      deployment.hasCommit_of_commit? member commits
    have controlled : deployment.config.mode ≠ .uncontrolled := by
      intro uncontrolled
      rw [← deployment.mode_eq] at uncontrolled
      cases step with
      | lostConsistency committed? => cases uncontrolled.symm.trans starts
      | pendingAbort waiting =>
          have pessimistic := starts.1
          rw [uncontrolled] at pessimistic
          cases pessimistic
      | _ => exact starts.elim
    exact opened.startOver commit controlled (is_open starts) length_eq
      (deployment.schedule.restarts_react starts)
  · have evicts := deployment.schedule.evicts_react starts
    exact history.of_sublists length_eq (fun id => (evicts id).queue ▸ .refl _)
      (fun id => (evicts id).backup) (fun id => (evicts id).isProtected)
      fun id => (evicts id).memory

/-- A turn keeps ends in order, if no join that starts over has noted an end. -/
theorem wakeUp
    (fed_once : ∀ header, .source header ∈ deployment.tree.postOrder → EndsOnce (fed header.id))
    {execution : Execution} (history : EndHistory deployment fed log execution.world)
    (is_open : ∀ operator after step,
      deployment.schedule.order[execution.cursor]? = some operator →
      deployment.schedule.evaluateBatch operator execution.batchCount
        (deployment.schedule.advanceCursor execution) = (after, .ok step) →
      deployment.schedule.StartsOver after step → deployment.schedule.IsOpen after.world) :
    EndHistory deployment fed (log ++ deployment.schedule.firings execution)
      (deployment.schedule.wakeUp execution).1.world := by
  rw [Schedule.firings, Schedule.wakeUp]
  cases next : deployment.schedule.order[execution.cursor]? with
  | none => simpa using history
  | some operator =>
      have member : operator ∈ deployment.tree.postOrder :=
        deployment.order_eq ▸ List.mem_of_getElem? next
      have started : EndHistory deployment fed log
          (deployment.schedule.advanceCursor execution).world := history
      have batch := EndsInOrder.batch fed_once member execution.batchCount started
      rcases outcome : deployment.schedule.evaluateBatch operator execution.batchCount
        (deployment.schedule.advanceCursor execution) with ⟨after, error | step⟩
      · rw [outcome] at batch
        simpa [outcome] using batch.1
      · rw [outcome] at batch
        simpa [outcome] using batch.1.react member (batch.2 step rfl)
          (is_open operator after step next outcome)

/-! ## Other actions -/

/-- Nothing gets out of order where no cell changes. -/
theorem of_cells_eq (history : EndHistory deployment fed log world) {after : World}
    (cells_eq : after.cells = world.cells) : EndHistory deployment fed log after := by
  have output_eq (id : Nat) : after.output id = world.output id := by
    rw [World.output, World.output, cells_eq]
  have memory_eq (id : Nat) : after.memory? id = world.memory? id := by
    rw [World.memory?, World.memory?, cells_eq]
  exact history.of_sublists (congrArg List.length cells_eq) (fun id => output_eq id ▸ .refl _)
    (fun id => output_eq id ▸ .refl _) (fun id => congrArg Channel.isProtected (output_eq id))
    memory_eq

/-- Results of any operator may be taken away. -/
theorem collect (history : EndHistory deployment fed log world) (id : Nat) :
    EndHistory deployment fed log (world.modifyOutput id Channel.clear) := by
  have output_eq (other : Nat) : (world.modifyOutput id Channel.clear).output other =
      if other ∈ [id] then (world.output other).clear else world.output other :=
    World.output_modifyOutputs [id] rfl fun _ => rfl
  refine history.of_sublists (world.length_modifyOutput id _) (fun other => ?_) (fun other => ?_)
    (fun other => ?_) fun other => World.memory?_modifyOutput world id other _
  · rw [output_eq]
    split
    · exact List.nil_sublist _
    · exact .refl _
  · rw [output_eq]
    split <;> exact .refl _
  · rw [output_eq]
    split <;> rfl

/-- What other operators than sources remember is not changed by an arrival. -/
theorem memory?_of_modifyArrivals {source id : Nat} {change : Channel → Channel} {memory : Memory}
    (remembered : (world.modifyArrivals source change).memory? id = some memory)
    (not_source : ∀ arrivals, memory ≠ .source arrivals) : world.memory? id = some memory := by
  rcases world.memory?_modifyArrivals source change id with ⟨same, _⟩ | ⟨_, _, _, changed⟩
  · exact same ▸ remembered
  · exact absurd (Option.some.inj (remembered.symm.trans changed)) (not_source _)

/-- A tuple arrives at a source. -/
structure Adds (deployment : Deployment) (source : Nat) (tuple : Tuple)
    (fed later : Nat → List Tuple) : Prop where
  later_eq : ∀ id, later id = fed id ++ if id = source then [tuple] else []
  /-- The source had not ended. -/
  once : ∀ header, .source header ∈ deployment.tree.postOrder → EndsOnce (later header.id)

namespace Adds

variable {source : Nat} {tuple : Tuple} {later : Nat → List Tuple} {tree : QueryTree}

/-- A source that has ended is not the one at which the tuple arrives. -/
theorem ne_of_hasEnd (adds : Adds deployment source tuple fed later) {header : OperatorHeader}
    (member : .source header ∈ deployment.tree.postOrder) (ends : HasEnd (fed header.id)) :
    header.id ≠ source := by
  intro same
  have once := adds.once header member
  rw [adds.later_eq, if_pos same] at once
  obtain ⟨marker, marker_mem, marks⟩ := ends
  have data := (List.pairwise_append.mp once).2.2 marker marker_mem tuple
    (List.mem_singleton_self _)
  rw [data] at marks
  cases marks

/-- Trees that have ended stay so. -/
theorem keeps (adds : Adds deployment source tuple fed later)
    (tree_mem : tree ∈ deployment.tree.postOrder) (spent : world.IsSpent fed tree) :
    (world.modifyArrivals source (·.enqueue tuple)).IsSpent later tree := by
  intro other inside
  refine ⟨fun input is_input => ?_, ?_⟩
  · rw [World.output_modifyArrivals, (spent other inside).inputs input is_input]
  rintro header rfl
  obtain ⟨ends, passed⟩ := (spent _ inside).arrivals header rfl
  have different := adds.ne_of_hasEnd (QueryTree.postOrder_trans _ inside tree_mem) ends
  rw [adds.later_eq, if_neg different, List.append_nil]
  refine ⟨ends, fun arrivals remembered => passed arrivals ?_⟩
  rcases world.memory?_modifyArrivals source (·.enqueue tuple) header.id with
    ⟨same, _⟩ | ⟨same, _⟩
  · exact same ▸ remembered
  · exact absurd same different

/-- What waits at a source arrived last. -/
theorem arrivals (adds : Adds deployment source tuple fed later) {id : Nat}
    (waits : ∀ arrivals, world.memory? id = some (.source arrivals) →
      arrivals.queue <:+ fed id) {arrivals : Channel}
    (remembered : (world.modifyArrivals source (·.enqueue tuple)).memory? id =
      some (.source arrivals)) : arrivals.queue <:+ later id := by
  rcases world.memory?_modifyArrivals source (·.enqueue tuple) id with
    ⟨same, no_source⟩ | ⟨same, earlier, earlier_eq, changed⟩
  · rw [same] at remembered
    rw [adds.later_eq, if_neg fun is_source => no_source is_source arrivals remembered,
      List.append_nil]
    exact waits arrivals remembered
  · obtain rfl : earlier.enqueue tuple = arrivals := by simpa [remembered] using changed.symm
    obtain ⟨passed, passed_eq⟩ := waits earlier earlier_eq
    rw [adds.later_eq, if_pos same, ← passed_eq]
    exact ⟨passed, (List.append_assoc _ _ _).symm⟩

/-- An arrival opens no commit. -/
theorem hasPendingCommit {id : Nat}
    (opened : (world.modifyArrivals source (·.enqueue tuple)).hasPendingCommit id = true) :
    world.hasPendingCommit id = true := by
  rw [World.hasPendingCommit_eq] at opened ⊢
  rcases world.memory?_modifyArrivals source (·.enqueue tuple) id with
    ⟨same, _⟩ | ⟨_, arrivals, _, changed⟩
  · rwa [same] at opened
  · rw [changed] at opened
    cases opened

end Adds

/-- A tuple may arrive at a source that has not ended. -/
theorem arrive {source : Nat} {tuple : Tuple} {later : Nat → List Tuple}
    (history : EndHistory deployment fed log world)
    (adds : Adds deployment source tuple fed later) :
    EndHistory deployment later log (world.modifyArrivals source (·.enqueue tuple)) where
  places := fun other other_mem => by
    rw [World.modifyArrivals, World.length_modifyCell]
    exact history.places other other_mem
  arrivals := fun header header_mem _ => adds.arrivals (history.arrivals header header_mem)
  queues := fun other other_mem => by
    rw [World.output_modifyArrivals]
    exact (history.queues other other_mem).imp_right (adds.keeps other_mem ∘ ·)
  backups := fun other other_mem => by
    rw [World.output_modifyArrivals]
    exact (history.backups other other_mem).imp_right (adds.keeps other_mem ∘ ·)
  unprotected := fun other other_mem unwatched => by
    rw [World.output_modifyArrivals]
    exact history.unprotected other other_mem unwatched
  notes := fun header logic left right join_mem state remembered => by
    have left_mem : left ∈ deployment.tree.postOrder :=
      QueryTree.input_mem_postOrder join_mem (by simp [QueryTree.inputs])
    have right_mem : right ∈ deployment.tree.postOrder :=
      QueryTree.input_mem_postOrder join_mem (by simp [QueryTree.inputs])
    have noted := history.notes header logic left right join_mem state
      (memory?_of_modifyArrivals remembered (by simp))
    exact noted.mono (fun spent empty =>
        ⟨adds.keeps left_mem spent, World.output_modifyArrivals world _ _ _ ▸ empty⟩)
      fun spent empty =>
        ⟨adds.keeps right_mem spent, World.output_modifyArrivals world _ _ _ ▸ empty⟩
  commits := fun other other_mem opened =>
    history.commits other other_mem (Adds.hasPendingCommit opened)
  results := history.results.imp_right (adds.keeps (QueryTree.self_mem_postOrder _) ∘ ·)

/-! ## Runs -/

theorem memory?_start (member : operator ∈ deployment.tree.postOrder) :
    deployment.start.world.memory? operator.id = some (.initial operator) :=
  World.memory?_of_getElem? (deployment.getElem?_start member)

theorem start (deployment : Deployment) :
    EndHistory deployment (fun _ => []) [] deployment.start.world where
  places := fun operator member =>
    (List.getElem?_eq_some_iff.mp (deployment.getElem?_start member)).1
  arrivals := fun header member arrivals remembered => by
    cases (memory?_start member).symm.trans remembered
    exact List.suffix_refl []
  queues := fun operator member => by
    rw [World.output_of_getElem? (deployment.getElem?_start member)]
    exact ⟨List.Pairwise.nil, fun ends => absurd ends not_hasEnd_nil⟩
  backups := fun operator member => by
    rw [World.output_of_getElem? (deployment.getElem?_start member)]
    exact ⟨List.Pairwise.nil, fun ends => absurd ends not_hasEnd_nil⟩
  unprotected := fun operator member unwatched => by
    rw [World.output_of_getElem? (deployment.getElem?_start member)]
    exact ⟨by simp [unwatched], rfl⟩
  notes := fun header logic left right member state remembered => by
    cases (memory?_start member).symm.trans remembered
    exact ⟨by simp, by simp⟩
  commits := fun operator member opened => by
    rw [World.hasPendingCommit_eq, memory?_start member] at opened
    cases operator with
    | single header logic input =>
        cases logic <;> simp [Memory.initial, Memory.aggregation?] at opened
    | _ => simp [Memory.initial, Memory.aggregation?] at opened
  results := ⟨List.Pairwise.nil, fun ends => absurd ends not_hasEnd_nil⟩

end EndsInOrder

/-- Whenever the redo area starts over during some actions, no join in it has noted an end. -/
def Deployment.RestartsOpen (deployment : Deployment) (actions : List Action) : Prop :=
  ∀ earlier, earlier ++ [.wakeUp] <+: actions → ∀ operator after step,
    deployment.schedule.order[(deployment.run earlier).cursor]? = some operator →
    deployment.schedule.evaluateBatch operator (deployment.run earlier).batchCount
      (deployment.schedule.advanceCursor (deployment.run earlier)) = (after, .ok step) →
    deployment.schedule.StartsOver after step → deployment.schedule.IsOpen after.world

variable {deployment : Deployment} {actions : List Action}

theorem EndsInOrder.Adds.arrive {source : Nat} {tuple : Tuple}
    (fed_once : ∀ header, .source header ∈ deployment.tree.postOrder →
      EndsOnce (arrivalsAt header.id (actions ++ [.arrive source tuple]))) :
    Adds deployment source tuple (arrivalsAt · actions)
      (arrivalsAt · (actions ++ [.arrive source tuple])) where
  later_eq := fun id => by
    rw [arrivalsAt_append]
    by_cases same : id = source
    · subst same
      rw [arrivalsAt_arrive, if_pos rfl]
    · have elsewhere : (Action.arrive source tuple).arrival? id = none := if_neg (Ne.symm same)
      rw [arrivalsAt_of_no_arrival elsewhere, if_neg same]
  once := fed_once

/-- Ends are in order throughout a run in which nothing arrives at a source after its end, if no
join starts over that has noted an end. -/
theorem EndsInOrder.of_run
    (fed_once : ∀ header, .source header ∈ deployment.tree.postOrder →
      EndsOnce (arrivalsAt header.id actions))
    (restarts : deployment.RestartsOpen actions) :
    EndHistory deployment (arrivalsAt · actions) (deployment.trace actions)
      (deployment.run actions).world := by
  induction actions using List.reverseRecOn with
  | nil => exact start deployment
  | append_singleton earlier action induction =>
      have earlier_once (header : OperatorHeader)
          (member : .source header ∈ deployment.tree.postOrder) :
          EndsOnce (arrivalsAt header.id earlier) :=
        (fed_once header member).sublist (arrivalsAt_append _ _ _ ▸ List.sublist_append_left _ _)
      have history := induction earlier_once fun part is_part =>
        restarts part (is_part.trans (List.prefix_append _ _))
      have quiet (no_arrival : ∀ source, action.arrival? source = none) :
          (arrivalsAt · (earlier ++ [action])) = (arrivalsAt · earlier) := by
        funext id
        rw [arrivalsAt_append, arrivalsAt_of_no_arrival (no_arrival id), List.append_nil]
      rw [Deployment.trace_append_singleton, Deployment.run_append_singleton]
      cases action with
      | wakeUp =>
          rw [quiet fun _ => rfl]
          exact history.wakeUp earlier_once (restarts earlier (List.prefix_refl _))
      | arrive source tuple =>
          rw [Schedule.actionFirings_of_external _ _ id, List.append_nil]
          exact history.arrive (.arrive fed_once)
      | collect operator =>
          rw [quiet fun _ => rfl, Schedule.actionFirings_of_external _ _ id, List.append_nil]
          exact history.collect operator
      | _ =>
          rw [quiet fun _ => rfl, Schedule.actionFirings_of_external _ _ id, List.append_nil]
          exact history.of_cells_eq rfl

/-- When nothing arrives at a source after its end, the results of every plan under every protocol
hold at most one end-of-stream marker and nothing after it, however evaluations, arrivals, updates
and repetitions interleave, if no join that has noted an end starts over with the redo area. -/
theorem results_end_once (deployment : Deployment) {actions : List Action}
    (fed_once : ∀ header, .source header ∈ deployment.tree.postOrder →
      EndsOnce (arrivalsAt header.id actions))
    (restarts : deployment.RestartsOpen actions) :
    EndsOnce (deployment.sentBy deployment.tree.id actions) :=
  (EndsInOrder.of_run fed_once restarts).results.1

/-- Nothing is noted by a join that starts over if no join has reads. -/
theorem Deployment.restartsOpen_of_unread
    (unread : ∀ operator ∈ deployment.tree.postOrder, 1 < operator.inputs.length →
      operator.reads = 0) : deployment.RestartsOpen actions := by
  intro earlier _ operator after step _ _ _ header logic left right member restarted
  rw [deployment.order_eq] at member
  exact absurd (unread _ member Nat.one_lt_two)
    (deployment.reads_of_mem_operators member restarted).ne'

/-! ## Offers of goods -/

/-- Offers that sales are combined with. -/
def offerSchema : Schema :=
  ⟨[{ name := "offer", type := .int }]⟩

/-- Means over the prices of sales that were joined with offers. -/
def offeredOptimistic : Deployment :=
  (Deployment.ofDeclarations?
    [.relation { name := "prices", schema := priceSchema },
      .operator "sales" (.stream goodsSchema),
      .operator "offers" (.stream offerSchema),
      .operator "offered" (.join "sales" (.rows 1 1) "offers" (.rows 1 1) .always),
      .operator "priced" (.combine "offered" "prices" (.attributes "goods" .equal "id")),
      .operator "mean" (.mean "priced" "price" (.rows 2 2))]
    "mean" (.ofMode .optimistic)).get (by decide)

/-- The price is updated when one of two sales has met it, and both sources end. -/
def offeredActions : List Action :=
  [.load 0 (.ofInts priceSchema [1, 10] 0), .arrive 0 (.ofInts goodsSchema [1] 0),
      .arrive 1 (.ofInts offerSchema [7] 1)] ++
    List.replicate 4 .wakeUp ++
    [.update 0 id, .arrive 0 (.ofInts goodsSchema [1] 2), .arrive 0 (.endOfStream goodsSchema 3),
      .arrive 1 (.endOfStream offerSchema 4), .setBatchCount 10] ++
    List.replicate 20 .wakeUp

set_option maxRecDepth 10000 in
/-- The means are redone once, and their end is sent once. -/
theorem offeredOptimistic_results_end_once :
    ((∀ header, .source header ∈ offeredOptimistic.tree.postOrder →
        EndsOnce (arrivalsAt header.id offeredActions)) ∧
      offeredOptimistic.RestartsOpen offeredActions ∧
      (offeredOptimistic.run offeredActions).metrics.redoCount = 1 ∧
      (offeredOptimistic.sentBy offeredOptimistic.tree.id offeredActions).map
        Tuple.isEndOfStream = [false, true]) ∧
      EndsOnce (offeredOptimistic.sentBy offeredOptimistic.tree.id offeredActions) := by
  have each : ∀ operator ∈ offeredOptimistic.tree.postOrder,
      EndsOnce (arrivalsAt operator.id offeredActions) := by
    decide
  have fed_once (header : OperatorHeader)
      (member : .source header ∈ offeredOptimistic.tree.postOrder) :
      EndsOnce (arrivalsAt header.id offeredActions) := each (.source header) member
  have restarts : offeredOptimistic.RestartsOpen offeredActions :=
    Deployment.restartsOpen_of_unread (by decide)
  exact ⟨⟨fed_once, restarts, by decide +kernel, by decide +kernel⟩,
    results_end_once offeredOptimistic fed_once restarts⟩

/-- Means over the prices of sales that are joined with offers after they met their price. -/
def pricedOffers : Deployment :=
  (Deployment.ofDeclarations?
    [.relation { name := "prices", schema := priceSchema },
      .operator "sales" (.stream goodsSchema),
      .operator "offers" (.stream offerSchema),
      .operator "priced" (.combine "sales" "prices" (.attributes "goods" .equal "id")),
      .operator "offered" (.join "priced" (.rows 1 1) "offers" (.rows 1 1) .always),
      .operator "mean" (.mean "offered" "price" (.rows 2 2))]
    "mean" (.ofMode .optimistic)).get (by decide)

/-- The sales have ended when the means are redone. -/
def pricedOffersActions : List Action :=
  [.load 0 (.ofInts priceSchema [1, 10] 0), .arrive 0 (.ofInts goodsSchema [1] 0)] ++
    List.replicate 2 .wakeUp ++
    [.update 0 id, .arrive 0 (.ofInts goodsSchema [1] 1), .arrive 0 (.endOfStream goodsSchema 2),
      .arrive 1 (.ofInts offerSchema [7] 3), .arrive 1 (.endOfStream offerSchema 4),
      .setBatchCount 10] ++
    List.replicate 28 .wakeUp

set_option maxRecDepth 10000 in
/-- Both sources carry data and then one marker, but a join that has noted both ends starts over and
sends a marker for each that is delivered again, one of them before the joined data. -/
theorem results_end_twice :
    (∀ operator ∈ pricedOffers.tree.postOrder, operator.inputs.length = 0 →
      EndsOnce (arrivalsAt operator.id pricedOffersActions) ∧
        HasEnd (arrivalsAt operator.id pricedOffersActions)) ∧
      (pricedOffers.sentBy pricedOffers.tree.id pricedOffersActions).map Tuple.isEndOfStream =
        [true, false, true] ∧
      ¬EndsOnce (pricedOffers.sentBy pricedOffers.tree.id pricedOffersActions) := by
  refine ⟨by decide, by decide +kernel, by decide +kernel⟩

end StreamQuery
