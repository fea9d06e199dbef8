import StreamQuery.Proofs.Pipeline.Boundaries
import StreamQuery.Proofs.Pipeline.LedgerRuns

/-!
# Meetings of inputs and rows

An input may match any number of rows. As long as the rows stay what they are, the meetings of the
inputs with the rows, in the order of the inputs and then of the rows, do not depend on the version
at which the relation is read; only the stamps do.
-/

namespace StreamQuery

/-- An action that leaves the rows of relations as they are. -/
def Action.LeavesRows : Action → Prop
  | .load _ _ => False
  | .update _ change => ∀ rows, change rows = rows
  | _ => True

namespace Schedule

variable {execution : Execution} {place : Nat} {relation : Relation}

theorem perform_rows
    (found : execution.world.relation? place = some relation) (schedule : Schedule)
    {action : Action} (leaves : action.LeavesRows) :
    ∃ later, (schedule.perform execution action).world.relation? place = some later ∧
      later.rows = relation.rows := by
  cases action with
  | load changed row => exact leaves.elim
  | update changed change =>
      rcases World.changeRelation_relation? found changed _ with kept | ⟨_, updated⟩
      · exact ⟨relation, kept, rfl⟩
      · exact ⟨_, updated, leaves relation.rows⟩
  | wakeUp =>
      obtain ⟨later, later_found, same⟩ := (schedule.wakeUp_agrees execution).exists_relation found
      exact ⟨later, later_found, congrArg Snapshot.rows (Relation.snapshot_eq same)⟩
  | _ => exact ⟨relation, found, rfl⟩

theorem performAll_rows (found : execution.world.relation? place = some relation)
    (schedule : Schedule) {actions : List Action}
    (leaves : ∀ action ∈ actions, action.LeavesRows) :
    ∃ later, (schedule.performAll execution actions).world.relation? place = some later ∧
      later.rows = relation.rows := by
  induction actions generalizing execution relation with
  | nil => exact ⟨relation, found, rfl⟩
  | cons action actions induction =>
      obtain ⟨next, next_found, next_rows⟩ :=
        perform_rows found schedule (leaves action List.mem_cons_self)
      obtain ⟨later, later_found, later_rows⟩ :=
        induction next_found fun other member => leaves other (List.mem_cons_of_mem _ member)
      exact ⟨later, later_found, later_rows.trans next_rows⟩

end Schedule

/-- An input that meets a row at a position of a relation. -/
structure Meeting where
  /-- The input. -/
  input : Tuple
  /-- The row. -/
  row : Tuple
  /-- Its position. -/
  position : Nat

namespace Pipeline

/-- The tuple that a meeting yields at a version of the relation. -/
def joined (pipeline : Pipeline) (version : Nat) (meeting : Meeting) : Tuple :=
  matchTuple pipeline.combine.schema pipeline.reference.place version meeting.input meeting.row
    meeting.position

/-- The meetings of an input with those of some rows that it matches. -/
def meetingsOf (pipeline : Pipeline) (rows : List Tuple) (input : Tuple) : List Meeting :=
  rows.zipIdx.filterMap fun (row, position) =>
    match pipeline.condition.checkPair input row with
    | .ok true => some { input, row, position }
    | _ => none

/-- The meetings of some inputs with some rows. -/
def meetings (pipeline : Pipeline) (rows inputs : List Tuple) : List Meeting :=
  inputs.flatMap (pipeline.meetingsOf rows)

/-- The numbers of meetings of some inputs. -/
def meetingCounts (pipeline : Pipeline) (rows inputs : List Tuple) : List Nat :=
  inputs.map fun input => (pipeline.meetingsOf rows input).length

/-- After each transaction of a number of windows, an input begins. -/
def IsAligned (pipeline : Pipeline) (rows inputs : List Tuple) (joint : Nat) : Prop :=
  ∀ transaction, transaction * (joint * pipeline.window.width) ≤
      (pipeline.meetings rows inputs).length →
    IsBoundary (pipeline.meetingCounts rows inputs)
      (transaction * (joint * pipeline.window.width))

/-- As many meetings as a window holds, from a position on. -/
def meetingBlock (pipeline : Pipeline) (rows inputs : List Tuple) (position : Nat) :
    List Meeting :=
  ((pipeline.meetings rows inputs).drop position).take pipeline.window.width

/-- The result of the meetings in a window that begins at a position, which were all joined at one
version. -/
structure IsMeanFrom (pipeline : Pipeline) (rows inputs : List Tuple) (version position : Nat)
    (result : Tuple) : Prop where
  /-- The window is full. -/
  full : (pipeline.meetingBlock rows inputs position).length = pipeline.window.width
  /-- The mean over it is the result. -/
  computed : pipeline.meanOf
    ((pipeline.meetingBlock rows inputs position).map (pipeline.joined version)) = .ok result

variable {pipeline : Pipeline} {rows inputs : List Tuple} {snapshot : Snapshot} {input : Tuple}

/-- A relation keeps some rows if each version that it shows has them. -/
structure KeepsRows (pipeline : Pipeline) (deployment : Deployment) (loading actions : List Action)
    (rows : List Tuple) : Prop where
  /-- The rows are there in each version. -/
  rows_eq : ∀ snapshot, pipeline.Shown deployment loading actions snapshot → snapshot.rows = rows
  /-- They have the attributes of the relation. -/
  fits : ∀ relation,
    (deployment.run loading).world.relation? pipeline.reference.place = some relation →
      ∀ row ∈ rows, relation.schema.check row.values = .ok ()
  /-- The condition can be evaluated for each of them. -/
  checks : ∀ input ∈ pipeline.inputs actions, ∀ row ∈ rows, ∃ passes,
    pipeline.condition.checkPair input row = .ok passes

theorem meetings_append (first second : List Tuple) :
    pipeline.meetings rows (first ++ second) =
      pipeline.meetings rows first ++ pipeline.meetings rows second :=
  List.flatMap_append

theorem meetingCounts_append (first second : List Tuple) :
    pipeline.meetingCounts rows (first ++ second) =
      pipeline.meetingCounts rows first ++ pipeline.meetingCounts rows second :=
  List.map_append

theorem meetings_length (inputs : List Tuple) :
    (pipeline.meetings rows inputs).length = (pipeline.meetingCounts rows inputs).sum :=
  List.length_flatMap

/-- If each input has the same number of meetings, and the windows of a transaction hold a multiple
of it, an input begins after each transaction. -/
theorem isAligned_of_dvd {count joint : Nat}
    (equal : ∀ input ∈ inputs, (pipeline.meetingsOf rows input).length = count)
    (divides : count ∣ joint * pipeline.window.width) : pipeline.IsAligned rows inputs joint := by
  intro transaction within
  rw [meetings_length] at within
  exact isBoundary_of_dvd (List.forall_mem_map.mpr equal)
    (Nat.dvd_mul_left_of_dvd divides transaction) within

/-- Where the condition can be evaluated, the matches of an input are what its meetings yield. -/
theorem matchSnapshot_eq_meetingsOf
    (checks : ∀ row ∈ snapshot.rows, ∃ passes,
      pipeline.condition.checkPair input row = .ok passes) :
    matchSnapshot pipeline.condition pipeline.combine.schema pipeline.reference.place snapshot
      input =
      .ok ((pipeline.meetingsOf snapshot.rows input).map (pipeline.joined snapshot.version)) := by
  have all (entries : List (Tuple × Nat))
      (checks : ∀ entry ∈ entries, ∃ passes,
        pipeline.condition.checkPair input entry.1 = .ok passes) :
      matchRows pipeline.condition pipeline.combine.schema pipeline.reference.place
        snapshot.version input entries =
        .ok ((entries.filterMap fun (row, position) =>
          match pipeline.condition.checkPair input row with
          | .ok true => some { input, row, position : Meeting }
          | _ => none).map (pipeline.joined snapshot.version)) := by
    induction entries with
    | nil => rfl
    | cons entry entries induction =>
        obtain ⟨row, position⟩ := entry
        obtain ⟨passes, check_eq⟩ := checks (row, position) List.mem_cons_self
        rw [matchRows, induction fun later member => checks later (List.mem_cons_of_mem _ member)]
        cases passes <;> simp [check_eq, bind, Except.bind, pure, Except.pure, joined]
  exact all _ fun entry member => checks entry.1 (List.fst_mem_of_mem_zipIdx member)

theorem flatMap_matchesOf_eq_meetings
    (checks : ∀ input ∈ inputs, ∀ row ∈ snapshot.rows, ∃ passes,
      pipeline.condition.checkPair input row = .ok passes) :
    inputs.flatMap (pipeline.matchesOf snapshot) =
      (pipeline.meetings snapshot.rows inputs).map (pipeline.joined snapshot.version) := by
  rw [meetings, List.map_flatMap]
  exact List.flatMap_congr fun input member =>
    matchesOf_eq (matchSnapshot_eq_meetingsOf (checks input member))

/-! ## Runs -/

namespace KeepsRows

variable {deployment : Deployment} {loading actions : List Action}

theorem flatMap_matchesOf (keeps : pipeline.KeepsRows deployment loading actions rows)
    (is_shown : pipeline.Shown deployment loading actions snapshot)
    (part : inputs ⊆ pipeline.inputs actions) :
    inputs.flatMap (pipeline.matchesOf snapshot) =
      (pipeline.meetings rows inputs).map (pipeline.joined snapshot.version) := by
  obtain rfl := keeps.rows_eq snapshot is_shown
  exact flatMap_matchesOf_eq_meetings fun input member => keeps.checks input (part member)

theorem matches_length (keeps : pipeline.KeepsRows deployment loading actions rows)
    (is_shown : pipeline.Shown deployment loading actions snapshot)
    (part : inputs ⊆ pipeline.inputs actions) :
    (inputs.flatMap (pipeline.matchesOf snapshot)).length =
      (pipeline.meetingCounts rows inputs).sum := by
  rw [keeps.flatMap_matchesOf is_shown part, List.length_map, meetings_length]

theorem answers (keeps : pipeline.KeepsRows deployment loading actions rows)
    (planned : pipeline.PlannedIn deployment) (feeds : pipeline.Feeds (pipeline.inputs actions))
    (is_shown : pipeline.Shown deployment loading actions snapshot) :
    ∀ input ∈ pipeline.inputs actions, pipeline.Answers snapshot input := by
  obtain ⟨declared, declared_eq, _⟩ := deployment.isTyped planned.isPlan.mem_postOrder.1
  obtain ⟨loaded, loaded_found, _, loaded_schema⟩ :=
    Deployment.run_relation? declared_eq loading
  have rows_eq := keeps.rows_eq snapshot is_shown
  obtain ⟨earlier, is_earlier, snapshot_eq⟩ := is_shown
  obtain ⟨relation, found, rfl⟩ := Option.map_eq_some_iff.mp snapshot_eq
  obtain ⟨same, same_found, _, relation_schema⟩ :=
    Deployment.run_relation? declared_eq (loading ++ earlier)
  obtain rfl := Option.some.inj (same_found.symm.trans found)
  obtain rfl : same.rows = rows := rows_eq
  intro input member
  refine answers_of_fits planned.isPlan found ?_ (feeds.spec member).1
    (matchSnapshot_eq_meetingsOf (keeps.checks input member))
  rw [relation_schema, ← loaded_schema]
  exact keeps.fits loaded loaded_found

/-- Where updates leave the rows as they are, a relation keeps the rows that were loaded. -/
theorem of_leavesRows (leaves : ∀ action ∈ actions, action.LeavesRows) {relation : Relation}
    (found : (deployment.run loading).world.relation? pipeline.reference.place = some relation)
    (loaded : relation.rows = rows)
    (fits : ∀ row ∈ rows, relation.schema.check row.values = .ok ())
    (checks : ∀ input ∈ pipeline.inputs actions, ∀ row ∈ rows, ∃ passes,
      pipeline.condition.checkPair input row = .ok passes) :
    pipeline.KeepsRows deployment loading actions rows where
  rows_eq := by
    rintro snapshot ⟨earlier, is_earlier, snapshot_eq⟩
    obtain ⟨later, later_found, rows_eq⟩ := Schedule.performAll_rows found deployment.schedule
      fun action member => leaves action (is_earlier.subset member)
    rw [Deployment.snapshotAfter, Deployment.run, Schedule.performAll_append,
      ← Deployment.run, later_found] at snapshot_eq
    obtain rfl := Option.some.inj snapshot_eq
    exact rows_eq.trans loaded
  fits other other_found := by
    obtain rfl := Option.some.inj (found.symm.trans other_found)
    exact fits
  checks := checks

end KeepsRows

end Pipeline

end StreamQuery
