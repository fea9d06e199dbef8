import StreamQuery.Engine.Deployment
import StreamQuery.Proofs.Engine.Flow
import StreamQuery.Proofs.Engine.Run
import StreamQuery.Proofs.Plan.CommitOperator

/-!
# Deployed queries

What acceptance guarantees of a deployment: its operators form a forest, its schedule is made for
its tree, and at the start no tuple is anywhere.
-/

namespace StreamQuery

/-- The tree of an operator that computes means. -/
abbrev QueryTree.mean (header : OperatorHeader) (window : Window) (index : Nat)
    (input : QueryTree) : QueryTree :=
  .single header (.aggregate window (.mean index)) input

namespace Deployment

theorem forest (deployment : Deployment) : IsForest deployment.query.trees :=
  .of_isLinked (Query.isLinked_of_declarations deployment.built).2

theorem tree_mem (deployment : Deployment) : deployment.tree ∈ deployment.query.trees := by
  have planned := deployment.planned
  rw [Query.plan] at planned
  split at planned
  · rename_i tree found
    cases planned
    exact List.mem_of_find?_eq_some found
  · cases planned

theorem ids_nodup (deployment : Deployment) :
    (deployment.tree.postOrder.map QueryTree.id).Nodup :=
  deployment.forest.postOrder_ids_nodup deployment.tree_mem

theorem getElem?_id (deployment : Deployment) {operator : QueryTree}
    (member : operator ∈ deployment.tree.postOrder) :
    deployment.query.trees[operator.id]? = some operator :=
  deployment.forest.getElem?_id
    (deployment.forest.mem_of_mem_postOrder deployment.tree_mem member).1

theorem eq_of_id_eq (deployment : Deployment) {first second : QueryTree}
    (first_mem : first ∈ deployment.tree.postOrder)
    (second_mem : second ∈ deployment.tree.postOrder) (same : first.id = second.id) :
    first = second :=
  List.inj_on_of_nodup_map deployment.ids_nodup first_mem second_mem same

theorem input_id_ne (deployment : Deployment) {operator : QueryTree}
    (member : operator ∈ deployment.tree.postOrder) :
    ∀ input ∈ operator.inputs, input.id ≠ operator.id := by
  intro input is_input
  have operator_mem := (deployment.forest.mem_of_mem_postOrder deployment.tree_mem member).1
  exact (deployment.forest.input_mem operator operator_mem input is_input).2.ne

/-! ## The schedule -/

theorem schedule_spec (deployment : Deployment) :
    ∃ accepted, deployment.tree.validatedCommitOperator = .ok accepted ∧
      deployment.schedule =
        { tree := deployment.tree
          mode := deployment.config.mode
          policy := deployment.config.policy
          jointCount := deployment.config.jointCount
          commit? := accepted.map QueryTree.id
          overlaps := deployment.tree.commitOverlapsRead
          redo :=
            if accepted.isSome && deployment.config.mode ≠ .uncontrolled then
              .ofTree deployment.tree
            else
              {} } := by
  obtain ⟨accepted, validated, scheduled⟩ := bind_eq_ok.mp deployment.scheduled
  exact ⟨accepted, validated, (pure_eq_ok.mp scheduled).symm⟩

@[simp] theorem order_eq (deployment : Deployment) :
    deployment.schedule.order = deployment.tree.postOrder := by
  obtain ⟨accepted, _, schedule_eq⟩ := deployment.schedule_spec
  simp [schedule_eq, Schedule.order]

@[simp] theorem mode_eq (deployment : Deployment) :
    deployment.schedule.mode = deployment.config.mode := by
  obtain ⟨accepted, _, schedule_eq⟩ := deployment.schedule_spec
  simp [schedule_eq]

@[simp] theorem jointCount_eq (deployment : Deployment) :
    deployment.schedule.jointCount = deployment.config.jointCount := by
  obtain ⟨accepted, _, schedule_eq⟩ := deployment.schedule_spec
  simp [schedule_eq]

@[simp] theorem overlaps_eq (deployment : Deployment) :
    deployment.schedule.overlaps = deployment.tree.commitOverlapsRead := by
  obtain ⟨accepted, _, schedule_eq⟩ := deployment.schedule_spec
  simp [schedule_eq]

/-- Without control nothing is evaluated again. -/
theorem redo_of_uncontrolled (deployment : Deployment)
    (uncontrolled : deployment.config.mode = .uncontrolled) : deployment.schedule.redo = {} := by
  obtain ⟨accepted, _, schedule_eq⟩ := deployment.schedule_spec
  simp [schedule_eq, uncontrolled]

/-- The commit operator of a deployment. -/
structure HasCommit (deployment : Deployment) (header : OperatorHeader) (window : Window)
    (index : Nat) (input : QueryTree) : Prop where
  /-- It is where transactions end. -/
  found : deployment.tree.commitOperator? = some (.mean header window index input)
  /-- Relations are read below it. -/
  reads : 0 < input.reads
  /-- The schedule knows its place. -/
  commit?_eq : deployment.schedule.commit? = some header.id
  /-- What is evaluated again is determined by the tree. -/
  redo_eq : deployment.config.mode ≠ .uncontrolled →
    deployment.schedule.redo = .ofTree deployment.tree

theorem hasCommit_of_commitOperator? (deployment : Deployment) {commit : QueryTree}
    (found : deployment.tree.commitOperator? = some commit) :
    ∃ header window index input,
      commit = .mean header window index input ∧
        deployment.HasCommit header window index input := by
  obtain ⟨accepted, validated, schedule_eq⟩ := deployment.schedule_spec
  obtain ⟨rfl, header, window, index, input, rfl, reads⟩ :=
    QueryTree.validatedCommitOperator_spec validated found
  refine ⟨header, window, index, input, rfl, found, reads, ?_, fun controlled => ?_⟩
  · rw [schedule_eq]
    rfl
  · rw [schedule_eq]
    simp [controlled]

/-- The schedule knows the place of the commit operator, if there is one. -/
theorem commit?_eq (deployment : Deployment) :
    deployment.schedule.commit? = deployment.tree.commitOperator?.map QueryTree.id := by
  cases found : deployment.tree.commitOperator? with
  | none =>
      obtain ⟨accepted, validated, schedule_eq⟩ := deployment.schedule_spec
      rw [QueryTree.validatedCommitOperator, found] at validated
      cases validated
      rw [schedule_eq]
  | some commit =>
      obtain ⟨header, window, index, input, rfl, has_commit⟩ :=
        deployment.hasCommit_of_commitOperator? found
      exact has_commit.commit?_eq

/-- The operator that the schedule takes for the commit operator is the commit operator. -/
theorem hasCommit_of_commit? (deployment : Deployment) {operator : QueryTree}
    (member : operator ∈ deployment.tree.postOrder)
    (commits : deployment.schedule.commit? = some operator.id) :
    ∃ header window index input,
      operator = .mean header window index input ∧
        deployment.HasCommit header window index input := by
  rw [commit?_eq] at commits
  obtain ⟨commit, found, same⟩ := Option.map_eq_some_iff.mp commits
  obtain ⟨header, window, index, input, rfl, has_commit⟩ :=
    deployment.hasCommit_of_commitOperator? found
  exact ⟨header, window, index, input, deployment.eq_of_id_eq member
    (QueryTree.commitOperator?_mem_postOrder found) same.symm, has_commit⟩

namespace HasCommit

variable {deployment : Deployment} {header : OperatorHeader} {window : Window} {index : Nat}
  {input : QueryTree}

theorem mem_postOrder (commit : deployment.HasCommit header window index input) :
    .mean header window index input ∈ deployment.tree.postOrder :=
  QueryTree.commitOperator?_mem_postOrder commit.found

theorem mem_trees (commit : deployment.HasCommit header window index input) :
    .mean header window index input ∈ deployment.query.trees :=
  (deployment.forest.mem_of_mem_postOrder deployment.tree_mem commit.mem_postOrder).1

theorem root_reads (commit : deployment.HasCommit header window index input) :
    0 < (QueryTree.mean header window index input).reads :=
  commit.reads.trans_le (Nat.le_add_right _ _)

/-- The outputs that are delivered again hold no reads. -/
theorem reads_eq_zero_of_mem_streams (commit : deployment.HasCommit header window index input)
    (controlled : deployment.config.mode ≠ .uncontrolled) {operator : QueryTree}
    (member : operator ∈ deployment.tree.postOrder)
    (delivered : operator.id ∈ deployment.schedule.redo.streams) : operator.reads = 0 := by
  rw [commit.redo_eq controlled] at delivered
  obtain ⟨other, other_mem, id_eq, unread⟩ := RedoArea.reads_eq_zero_of_mem_streams delivered
  rwa [deployment.eq_of_id_eq member other_mem id_eq.symm]

end HasCommit

/-! ## The start -/

theorem start_catalog (deployment : Deployment) :
    deployment.start.world.catalog =
      (World.initial deployment.query deployment.schedule.mode).catalog := by
  rw [start, Schedule.start]
  simp only
  split
  · rw [World.modifyOutputs_catalog]
  · rfl

/-- At the start an operator has no tuples, and its output is backed up if it can be delivered
again. -/
theorem getElem?_start (deployment : Deployment) {operator : QueryTree}
    (member : operator ∈ deployment.tree.postOrder) :
    deployment.start.world.cells[operator.id]? = some
      { memory := .initial operator
        output :=
          { isProtected := deployment.schedule.replaysArea &&
              decide (operator.id ∈ deployment.schedule.redo.streams) } } := by
  have initial : (World.initial deployment.query deployment.schedule.mode).cells[operator.id]? =
      some (.initial operator) := by
    simp [World.initial, deployment.getElem?_id member]
  rw [start, Schedule.start]
  cases replays : deployment.schedule.replaysArea with
  | false => exact initial
  | true =>
      refine (World.getElem?_modifyOutputs _ _ _ (·.setProtected true) fun _ => rfl).trans ?_
      rw [initial]
      by_cases delivered : operator.id ∈ deployment.schedule.redo.streams <;>
        simp [delivered, Cell.initial, Channel.setProtected]

/-- At the start every invariant is carried that allows for a backup wherever tuples are delivered
again. -/
theorem start_carries (deployment : Deployment) {flow : FlowInvariant}
    (keeps : ∀ operator ∈ deployment.tree.postOrder,
      operator.id ∈ deployment.schedule.redo.streams → flow.keeps operator) :
    deployment.start.world.Carries flow deployment.tree := by
  intro operator member cell found
  obtain rfl := Option.some.inj ((deployment.getElem?_start member).symm.trans found)
  refine ⟨nofun, nofun, fun kept => keeps operator member ?_, Memory.carries_initial operator⟩
  have guarded := kept.resolve_right (by simp)
  exact of_decide_eq_true (Bool.and_eq_true_iff.mp guarded).2

end Deployment

/-! ## Goods and prices -/

/-- A data tuple of whole numbers that arrives at a time. -/
def Tuple.ofInts (schema : Schema) (values : List Int64) (time : Int) : Tuple where
  kind := .data
  schema
  values := values.map .int
  arrival := time
  lowWater := time
  stamps := {}
  lineage := .arrival time

/-- A price list. -/
def priceSchema : Schema :=
  ⟨[{ name := "id", type := .int }, { name := "price", type := .int }]⟩

/-- Goods that are sold. -/
def goodsSchema : Schema :=
  ⟨[{ name := "goods", type := .int }]⟩

/-- Goods are given their prices, of which the mean is computed. -/
def pricedDeclarations (window : Window) : List Declaration :=
  [.relation { name := "prices", schema := priceSchema },
    .operator "sales" (.stream goodsSchema),
    .operator "priced" (.combine "sales" "prices" (.attributes "goods" .equal "id")),
    .operator "mean" (.mean "priced" "price" window)]

end StreamQuery
