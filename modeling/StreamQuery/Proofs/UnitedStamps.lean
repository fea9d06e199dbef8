import StreamQuery.Proofs.Engine.Checked
import StreamQuery.Proofs.Tuple.Built
import StreamQuery.Proofs.Tuple.Data

/-!
# Stamps of committed windows

Under optimistic control the commit operator compares all stamps of a window. What passes is exactly
a window whose tuples agree in pairs, and the stamps of its result are all stamps of its tuples:
that the first version of a relation stays when stamps are united loses nothing. A window that does
not pass has no result, and neither has any window after it.
-/

namespace StreamQuery

/-! ## Results -/

/-- The result of a consistent window, with the stamps of all its tuples. -/
structure Tuple.Unites (result : Tuple) (window : Contents) : Prop where
  /-- It is the result of this window. -/
  lineage_eq : result.lineage = .window (window.tuples.map Tuple.lineage)
  /-- The window passed the check. -/
  consistent : window.isConsistent = true
  /-- Its stamps are those of the tuples. -/
  united : ∀ entry, entry ∈ result.stamps.entries ↔
    ∃ tuple ∈ window.tuples, entry ∈ tuple.stamps.entries
  /-- A relation is stamped if it is in some tuple, with the version that all such tuples carry. -/
  version?_iff : ∀ relation version, result.stamps.version? relation = some version ↔
    (∃ tuple ∈ window.tuples, (tuple.stamps.version? relation).isSome = true) ∧
      ∀ tuple ∈ window.tuples, ∀ told, tuple.stamps.version? relation = some told → told = version

theorem unites_of_apply {function : AggregateFunction} {schema : Schema} {window : Contents}
    {result : Tuple} (computed : function.apply schema window = .ok result)
    (consistent : window.isConsistent = true) (built : ∀ tuple ∈ window.tuples, tuple.IsBuilt) :
    result.Unites window := by
  obtain ⟨_, stamps_eq, lineage_eq⟩ := AggregateFunction.apply_eq_ok computed
  have agree := (Contents.isConsistent_iff_versionsAgree built).mp consistent
  have told_iff {tuple : Tuple} (member : tuple ∈ window.tuples) {relation : RelationId}
      {version : Nat} : (relation, version) ∈ tuple.stamps.entries ↔
        tuple.stamps.version? relation = some version := (built tuple member).isFunctional.mem_iff
  have united (entry : RelationId × Nat) : entry ∈ result.stamps.entries ↔
      ∃ tuple ∈ window.tuples, entry ∈ tuple.stamps.entries := by
    rw [stamps_eq, Stamps.mem_unions_iff]
    · simp
    · simp only [List.forall_mem_map]
      intro left left_mem right right_mem relation first second left_stamped right_stamped
      exact agree left left_mem right right_mem relation first second
        ((told_iff left_mem).mp left_stamped) ((told_iff right_mem).mp right_stamped)
  refine ⟨lineage_eq, consistent, united, fun relation version => ?_⟩
  rw [← (Tuple.IsBuilt.aggregated built computed).isFunctional.mem_iff, united]
  constructor
  · rintro ⟨tuple, tuple_mem, stamped⟩
    have told := (told_iff tuple_mem).mp stamped
    exact ⟨⟨tuple, tuple_mem, Option.isSome_of_eq_some told⟩, fun other other_mem version' told' =>
      agree other other_mem tuple tuple_mem relation version' version told' told⟩
  · rintro ⟨⟨tuple, tuple_mem, is_told⟩, all_eq⟩
    obtain ⟨told, told_eq⟩ := Option.isSome_iff_exists.mp is_told
    obtain rfl := all_eq tuple tuple_mem told told_eq
    exact ⟨tuple, tuple_mem, (told_iff tuple_mem).mpr told_eq⟩

/-! ## Evaluations of the commit operator -/

/-- Every result of an evaluation unites the stamps of a window: the windows that were completed
have their results in order, up to the first that does not pass the check. -/
structure Firing.SendsUnited (firing : Firing) (role : CommitRole) : Prop where
  /-- Only tuples that can be built are in the windows. -/
  built : ∀ window ∈ firing.windows, ∀ tuple ∈ window.tuples, tuple.IsBuilt
  /-- A marker is sent on alone, and completes no window. -/
  alone : (∃ marker ∈ firing.sent, marker.isEndOfStream = true) →
    firing.windows = [] ∧ firing.sent.length = 1
  /-- The data that is sent are the results of the first windows. Unless a result fails, they are
  all windows up to one that does not pass. -/
  results : ∃ committed left, firing.windows = committed ++ left ∧
    List.Forall₂ (fun window (result : Tuple) => result.Unites window) committed
      (dataOf firing.sent) ∧
    ∀ step, (firing.before.evaluate role firing.operator).2 = .ok step →
      ∀ window ∈ left.head?, window.isConsistent = false

/-- What is sent in one evaluation of the commit operator unites the stamps of windows. -/
theorem Aggregation.Turns.unites {function : AggregateFunction} {schema : Schema}
    {aggregation later : Aggregation} {windows : List Contents} {sent : List Tuple}
    {step : Except OperatorError Step}
    (turn : Turns (function.apply schema) aggregation later windows sent step)
    (built : ∀ window ∈ windows, ∀ tuple ∈ window.tuples, tuple.IsBuilt) :
    ((∃ marker ∈ sent, marker.isEndOfStream = true) → windows = [] ∧ sent.length = 1) ∧
      ∃ committed left, windows = committed ++ left ∧
        List.Forall₂ (fun window (result : Tuple) => result.Unites window) committed
          (dataOf sent) ∧
        ∀ reported, step = .ok reported → ∀ window ∈ left.head?, window.isConsistent = false := by
  cases turn with
  | waits => exact ⟨by simp, [], [], rfl, .nil, by simp⟩
  | closes => exact ⟨by simp, [], [], rfl, .nil, by simp⟩
  | ends marks =>
      refine ⟨fun _ => ⟨rfl, rfl⟩, [], [], rfl, ?_, by simp⟩
      rw [dataOf_cons_of_marker marks, dataOf_nil]
      exact .nil
  | @checks _ _ committed left _ _ _ _ checks =>
      have is_data := checks.isEndOfStream_eq_false
      rw [dataOf_of_data is_data]
      refine ⟨?_, committed, left, rfl, ?_, fun reported succeeds => ?_⟩
      · rintro ⟨marker, marker_mem, marks⟩
        cases marks.symm.trans (is_data marker marker_mem)
      · have passed : ∀ window ∈ committed,
            window.isConsistent = true ∧ ∀ tuple ∈ window.tuples, tuple.IsBuilt :=
          fun window window_mem => ⟨checks.consistent window window_mem,
            built window (List.mem_append_left _ window_mem)⟩
        have from_consistent := (List.forall₂_and_left committed sent).mpr ⟨passed, checks.results⟩
        refine from_consistent.imp fun window result unites => ?_
        obtain ⟨⟨consistent, can_be_built⟩, computed⟩ := unites
        exact unites_of_apply computed consistent can_be_built
      · cases checks.reports with
        | nothing => simp
        | commits => simp
        | mixed _ _ inconsistent => simpa using inconsistent
        | fails => cases succeeds

/-- Under optimistic control each evaluation of the commit operator unites stamps. -/
theorem sendsUnited_fire {schedule : Schedule} {tree : QueryTree} {world : World}
    {header : OperatorHeader} {window : Window} {function : AggregateFunction} {input : QueryTree}
    (role_eq : schedule.role header.id = .of .optimistic true) (shaped : world.IsShaped tree)
    (carries : world.Carries buildingFlow tree)
    (member : .single header (.aggregate window function) input ∈ tree.postOrder)
    (different : input.id ≠ header.id) :
    (schedule.fire (.single header (.aggregate window function) input) world).SendsUnited
      (schedule.role header.id) := by
  obtain ⟨aggregation, remembered⟩ := shaped.exists_aggregation member
  obtain ⟨later, sent, _, rfl, turn⟩ :=
    World.exists_turn window function role_eq remembered different
  have built : ∀ contents ∈ world.completedWindows
      (.single header (.aggregate window function) input),
      ∀ tuple ∈ contents.tuples, tuple.IsBuilt :=
    fun contents completed tuple inside =>
      World.holds_of_mem_completedWindows carries member completed inside
  obtain ⟨alone, results⟩ := turn.unites built
  exact ⟨built, alone, results⟩

/-! ## Runs -/

/-- Tuples carry one stamp for each relation at most, and a window of such tuples passes the check
exactly if any two of them that are stamped with the same relation carry the same version. Under
optimistic control the commit operator sends results of windows that pass only, each with the union
of the stamps of its window. -/
theorem checked_windows_unite_stamps (deployment : Deployment)
    (mode : deployment.config.mode = .optimistic) {commit : QueryTree}
    (found : deployment.tree.commitOperator? = some commit) {actions : List Action}
    (brings : ∀ action ∈ actions, action.Brings Tuple.IsBuilt) :
    (∀ tuple : Tuple, tuple.IsBuilt → tuple.stamps.IsFunctional) ∧
      (∀ contents : Contents, (∀ tuple ∈ contents.tuples, tuple.IsBuilt) →
        (contents.isConsistent = true ↔ contents.VersionsAgree)) ∧
      ∀ firing ∈ deployment.trace actions, firing.operator = commit →
        firing.SendsUnited (deployment.schedule.role commit.id) := by
  refine ⟨fun tuple built => built.isFunctional,
    fun contents built => Contents.isConsistent_iff_versionsAgree built,
    fun firing firing_mem operator_eq => ?_⟩
  obtain ⟨header, window, index, input, rfl, has_commit⟩ :=
    deployment.hasCommit_of_commitOperator? found
  have role_eq : deployment.schedule.role header.id = .of .optimistic true := by
    rw [Schedule.role, has_commit.commit?_eq, deployment.mode_eq, mode, decide_eq_true rfl]
  have start : FlowHistory deployment buildingFlow [] deployment.start.world ∧
      deployment.start.world.IsShaped deployment.tree :=
    ⟨.start deployment buildingFlow_isClosed, deployment.start_isShaped⟩
  have records := ((FlowHistory.preserves deployment buildingFlow_isClosed).and
    (deployment.preserves_isShaped _)).records.run brings ⟨start, by simp⟩
  obtain ⟨_, firing_eq, earlier, history, shaped⟩ := records.2 firing firing_mem
  rw [firing_eq, operator_eq]
  exact sendsUnited_fire role_eq shaped history.carries has_commit.mem_postOrder
    (deployment.input_id_ne has_commit.mem_postOrder input List.mem_cons_self)

theorem repricedActions_bring_built : ∀ action ∈ repricedActions, action.Brings Tuple.IsBuilt := by
  have sale (time : Int) : (Tuple.ofInts goodsSchema [1] time).IsBuilt := .ofInts rfl time
  simp [repricedActions, Action.Brings, sale, or_imp, forall_and]

set_option maxRecDepth 10000 in
/-- The first window has mixed versions and no result. -/
theorem pricedOptimistic_unites_stamps :
    (pricedOptimistic.config.mode = .optimistic ∧
      pricedOptimistic.tree.commitOperator? = some pricedOptimistic.tree ∧
      (∀ action ∈ repricedActions, action.Brings Tuple.IsBuilt) ∧
      ((pricedOptimistic.trace repricedActions).filter (·.operator.id = pricedOptimistic.tree.id)
        |>.map fun firing => (firing.windows.map Contents.isConsistent,
          firing.sent.map fun result => result.stamps.entries)) =
        [([], []), ([false], []), ([], []), ([true], [[(0, 1)]]), ([], [])]) ∧
      ∀ firing ∈ pricedOptimistic.trace repricedActions,
        firing.operator = pricedOptimistic.tree →
        firing.SendsUnited (pricedOptimistic.schedule.role pricedOptimistic.tree.id) :=
  ⟨⟨rfl, rfl, repricedActions_bring_built, by decide +kernel⟩,
    (checked_windows_unite_stamps pricedOptimistic rfl rfl repricedActions_bring_built).2.2⟩

end StreamQuery
