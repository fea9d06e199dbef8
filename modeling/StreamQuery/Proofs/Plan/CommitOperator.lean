import StreamQuery.Control.CommitOperator
import StreamQuery.Control.RedoArea
import StreamQuery.Proofs.Plan.Forest

/-!
# Where transactions end

The commit operator lies in the tree, and if it is accepted it is a mean over reads of relations.
The redo area consists of the operators with reads that lie below a window, and of the outputs
without reads that they consume. So every operator with reads that the commit operator gets its
input from starts over, while what is delivered again holds no reads.
-/

namespace StreamQuery

namespace QueryTree

theorem reads_le_of_mem_postOrder {operator tree : QueryTree} (member : operator ∈ tree.postOrder) :
    operator.reads ≤ tree.reads := by
  induction tree with
  | source header =>
      obtain rfl : operator = source header := by simpa [postOrder] using member
      exact le_rfl
  | single header logic input induction =>
      rcases List.mem_append.mp member with inside | is_root
      · exact (induction inside).trans (Nat.le_add_right _ _)
      · rw [List.mem_singleton.mp is_root]
  | join header logic left right left_induction right_induction =>
      rcases List.mem_append.mp member with inside | is_root
      · rcases List.mem_append.mp inside with in_left | in_right
        · exact (left_induction in_left).trans (Nat.le_add_right _ _)
        · exact (right_induction in_right).trans (Nat.le_add_left _ _)
      · rw [List.mem_singleton.mp is_root]

theorem reads_single_of_isAggregation (header : OperatorHeader) {logic : SingleLogic}
    (input : QueryTree) (aggregates : logic.isAggregation = true) :
    (single header logic input).reads = input.reads := by
  cases logic with
  | aggregate window function => rfl
  | _ => cases aggregates

theorem reads_input_le {input operator : QueryTree} (is_input : input ∈ operator.inputs) :
    input.reads ≤ operator.reads :=
  reads_le_of_mem_postOrder (mem_postOrder_of_input is_input input.self_mem_postOrder)

end QueryTree

/-! ## The commit operator -/

namespace CommitSearch

/-- A candidate is an operator of the tree, and an aggregation only if it encloses reads. -/
private def IsCandidate (tree candidate : QueryTree) : Prop :=
  candidate ∈ tree.postOrder ∧ (candidate.isAggregation = true → 0 < candidate.reads)

private theorem isCandidate_consider {search : CommitSearch} {tree operator candidate : QueryTree}
    (found : (search.consider operator).candidate? = some candidate)
    (old : search.candidate? = some candidate → IsCandidate tree candidate)
    (new : IsCandidate tree operator) : IsCandidate tree candidate := by
  rw [consider] at found
  split at found
  · obtain rfl := Option.some.inj found
    exact new
  · exact old found

private theorem isCandidate_visit {search : CommitSearch} {whole tree candidate : QueryTree}
    (inside : ∀ operator ∈ tree.postOrder, operator ∈ whole.postOrder)
    (found : (search.visit tree).candidate? = some candidate)
    (old : search.candidate? = some candidate → IsCandidate whole candidate) :
    IsCandidate whole candidate := by
  induction tree generalizing search with
  | source header => exact old found
  | single header logic input induction =>
      have below := fun (found : (search.visit input).candidate? = some candidate) =>
        induction (fun operator member => inside operator (List.mem_append_left _ member)) found old
      simp only [visit] at found
      split at found
      · rename_i encloses
        refine isCandidate_consider found below
          ⟨inside _ (QueryTree.self_mem_postOrder _), fun _ => ?_⟩
        simp only [Bool.and_eq_true, decide_eq_true_eq] at encloses
        exact encloses.2.trans_le (Nat.le_add_right _ _)
      · exact below found
  | join header logic left right left_induction right_induction =>
      have in_left (found : (search.visit left).candidate? = some candidate) :=
        left_induction (fun operator member =>
          inside operator (List.mem_append_left _ (List.mem_append_left _ member))) found old
      have below := fun (found : ((search.visit left).visit right).candidate? = some candidate) =>
        right_induction (fun operator member =>
          inside operator (List.mem_append_left _ (List.mem_append_right _ member))) found in_left
      simp only [visit] at found
      split at found
      · exact isCandidate_consider found below
          ⟨inside _ (QueryTree.self_mem_postOrder _), fun is_aggregation => by cases is_aggregation⟩
      · exact below found

end CommitSearch

namespace QueryTree

theorem commitOperator?_mem_postOrder {tree commit : QueryTree}
    (found : tree.commitOperator? = some commit) : commit ∈ tree.postOrder :=
  (CommitSearch.isCandidate_visit (fun _ member => member) found (by simp)).1

/-- An accepted commit operator is a mean over reads of relations. -/
theorem validatedCommitOperator_spec {tree commit : QueryTree} {accepted : Option QueryTree}
    (validated : tree.validatedCommitOperator = .ok accepted)
    (found : tree.commitOperator? = some commit) :
    accepted = some commit ∧ ∃ header window index input,
      commit = .single header (.aggregate window (.mean index)) input ∧ 0 < input.reads := by
  rw [validatedCommitOperator] at validated
  rw [found] at validated
  simp only at validated
  split at validated
  · rename_i is_mean
    cases validated
    refine ⟨rfl, ?_⟩
    simp only [isMean] at is_mean
    split at is_mean
    · rename_i header window index input
      have encloses := (CommitSearch.isCandidate_visit (fun _ member => member) found (by simp)).2
        (by simp [isAggregation, window?, SingleLogic.window?])
      exact ⟨header, window, index, input, rfl, by
        simpa [reads, SingleLogic.readsRelation, SingleLogic.relation?] using encloses⟩
    · cases is_mean
  · cases validated

end QueryTree

/-! ## Below windows -/

namespace QueryTree

variable {tree operator : QueryTree} {belowWindow : Bool}

/-- A windowed operator of the tree is the operator or gets input from it. -/
def IsUnderWindow (tree operator : QueryTree) : Prop :=
  ∃ windowed ∈ tree.postOrder, windowed.isWindowOperator = true ∧ operator ∈ windowed.postOrder

theorem IsUnderWindow.mem_postOrder (under : tree.IsUnderWindow operator) :
    operator ∈ tree.postOrder := by
  obtain ⟨windowed, windowed_mem, _, inside⟩ := under
  exact postOrder_trans tree inside windowed_mem

theorem isUnderWindow_iff :
    tree.IsUnderWindow operator ↔
      tree.isWindowOperator = true ∧ operator ∈ tree.postOrder ∨
        ∃ input ∈ tree.inputs, input.IsUnderWindow operator := by
  constructor
  · rintro ⟨windowed, windowed_mem, buffers, inside⟩
    obtain rfl | ⟨input, is_input, below⟩ := mem_postOrder_iff.mp windowed_mem
    · exact .inl ⟨buffers, inside⟩
    · exact .inr ⟨input, is_input, windowed, below, buffers, inside⟩
  · rintro (⟨buffers, inside⟩ | ⟨input, is_input, windowed, below, buffers, inside⟩)
    · exact ⟨tree, tree.self_mem_postOrder, buffers, inside⟩
    · exact ⟨windowed, mem_postOrder_of_input is_input below, buffers, inside⟩

/-- An operator of a tree lies below a window, which may be one outside of the tree. -/
def IsBelowWindow (belowWindow : Bool) (tree operator : QueryTree) : Prop :=
  operator ∈ tree.postOrder ∧ (belowWindow = true ∨ tree.IsUnderWindow operator)

theorem isBelowWindow_of_mem (windowed : (belowWindow || tree.isWindowOperator) = true)
    (member : operator ∈ tree.postOrder) : tree.IsBelowWindow belowWindow operator :=
  ⟨member, (Bool.or_eq_true_iff.mp windowed).imp_right fun buffers =>
    isUnderWindow_iff.mpr (.inl ⟨buffers, member⟩)⟩

theorem IsBelowWindow.input {input : QueryTree} (below : tree.IsBelowWindow belowWindow operator)
    (is_input : input ∈ operator.inputs) : tree.IsBelowWindow belowWindow input := by
  refine ⟨input_mem_postOrder below.1 is_input, below.2.imp_right ?_⟩
  rintro ⟨windowed, windowed_mem, buffers, inside⟩
  exact ⟨windowed, windowed_mem, buffers, input_mem_postOrder inside is_input⟩

/-- Below a window lies what lies below one in an input, and the root if it does. -/
theorem isBelowWindow_iff :
    tree.IsBelowWindow belowWindow operator ↔
      (∃ input ∈ tree.inputs,
        input.IsBelowWindow (belowWindow || tree.isWindowOperator) operator) ∨
        (belowWindow || tree.isWindowOperator) = true ∧ operator = tree := by
  constructor
  · rintro ⟨member, covered⟩
    have windowed_or_under : (belowWindow || tree.isWindowOperator) = true ∨
        ∃ input ∈ tree.inputs, input.IsUnderWindow operator := by
      rcases covered with outside | under
      · exact .inl (Bool.or_eq_true_iff.mpr (.inl outside))
      · exact (isUnderWindow_iff.mp under).imp_left fun own =>
          Bool.or_eq_true_iff.mpr (.inr own.1)
    rcases windowed_or_under with windowed | ⟨input, is_input, under⟩
    · obtain rfl | ⟨input, is_input, inside⟩ := mem_postOrder_iff.mp member
      · exact .inr ⟨windowed, rfl⟩
      · exact .inl ⟨input, is_input, inside, .inl windowed⟩
    · exact .inl ⟨input, is_input, under.mem_postOrder, .inr under⟩
  · rintro (⟨input, is_input, inside, windowed | under⟩ | ⟨windowed, rfl⟩)
    · exact isBelowWindow_of_mem windowed (mem_postOrder_of_input is_input inside)
    · exact ⟨mem_postOrder_of_input is_input inside,
        .inr (isUnderWindow_iff.mpr (.inr ⟨input, is_input, under⟩))⟩
    · exact isBelowWindow_of_mem windowed operator.self_mem_postOrder

/-- What is collected from the operators below windows, one by one. -/
theorem mem_collected_iff {collected : Bool → QueryTree → List Nat} {own : QueryTree → Nat → Prop}
    (step : ∀ belowWindow tree id, id ∈ collected belowWindow tree ↔
      (∃ input ∈ tree.inputs, id ∈ collected (belowWindow || tree.isWindowOperator) input) ∨
        (belowWindow || tree.isWindowOperator) = true ∧ own tree id)
    {belowWindow : Bool} {tree : QueryTree} {id : Nat} :
    id ∈ collected belowWindow tree ↔
      ∃ operator, tree.IsBelowWindow belowWindow operator ∧ own operator id := by
  induction tree using inputs_induction generalizing belowWindow with
  | step tree induction =>
      rw [step]
      constructor
      · rintro (⟨input, is_input, inside⟩ | ⟨windowed, found⟩)
        · obtain ⟨operator, below, found⟩ := (induction input is_input).mp inside
          exact ⟨operator, isBelowWindow_iff.mpr (.inl ⟨input, is_input, below⟩), found⟩
        · exact ⟨tree, isBelowWindow_iff.mpr (.inr ⟨windowed, rfl⟩), found⟩
      · rintro ⟨operator, below, found⟩
        rcases isBelowWindow_iff.mp below with ⟨input, is_input, below⟩ | ⟨windowed, rfl⟩
        · exact .inl ⟨input, is_input, (induction input is_input).mpr ⟨operator, below, found⟩⟩
        · exact .inr ⟨windowed, found⟩

end QueryTree

/-! ## The redo area -/

namespace RedoArea

@[simp] theorem append_operators (first second : RedoArea) :
    (first ++ second).operators = first.operators ++ second.operators :=
  rfl

@[simp] theorem append_streams (first second : RedoArea) :
    (first ++ second).streams = first.streams ++ second.streams :=
  rfl

/-- Below a window, the area holds reads exactly if the tree does. -/
theorem visit_true_snd (tree : QueryTree) : (visit true tree).2 = decide (0 < tree.reads) := by
  induction tree with
  | source header => rfl
  | single header logic input induction =>
      simp only [visit, Bool.true_or, induction, QueryTree.reads]
      by_cases reads_relation : logic.readsRelation = true <;> simp [reads_relation]
  | join header logic left right left_induction right_induction =>
      simp only [visit, left_induction, right_induction, QueryTree.reads]
      simp only [← Bool.decide_or, Nat.add_pos_iff_pos_or_pos]

/-- The same is true of a tree with a windowed root, wherever it lies. -/
theorem visit_snd {belowWindow : Bool} {tree : QueryTree}
    (windowed : (belowWindow || tree.isWindowOperator) = true) :
    (visit belowWindow tree).2 = decide (0 < tree.reads) := by
  cases belowWindow with
  | true => exact visit_true_snd tree
  | false =>
      cases tree with
      | source header => cases windowed
      | single header logic input =>
          have aggregates : logic.isAggregation = true := windowed
          have encloses := QueryTree.reads_single_of_isAggregation header input aggregates
          simp [visit, aggregates, encloses, visit_true_snd]
      | join header logic left right => exact visit_true_snd (.join header logic left right)

theorem mem_visit_operators_step (belowWindow : Bool) (tree : QueryTree) (id : Nat) :
    id ∈ (visit belowWindow tree).1.operators ↔
      (∃ input ∈ tree.inputs,
        id ∈ (visit (belowWindow || tree.isWindowOperator) input).1.operators) ∨
        (belowWindow || tree.isWindowOperator) = true ∧ 0 < tree.reads ∧ tree.id = id := by
  cases tree with
  | source header => simp [visit, QueryTree.inputs, QueryTree.reads]
  | single header logic input =>
      have operators_eq : (visit belowWindow (.single header logic input)).1.operators =
          (visit (belowWindow || logic.isAggregation) input).1.operators ++
            if (visit belowWindow (.single header logic input)).2 &&
              (belowWindow || logic.isAggregation) then [header.id] else [] := rfl
      rw [operators_eq]
      by_cases windowed : (belowWindow || logic.isAggregation) = true
      · rw [visit_snd windowed]
        simp [QueryTree.inputs, windowed, QueryTree.isWindowOperator, QueryTree.id,
          QueryTree.header, eq_comm]
      · simp [QueryTree.inputs, windowed, QueryTree.isWindowOperator]
  | join header logic left right =>
      have operators_eq : (visit belowWindow (.join header logic left right)).1.operators =
          (visit true left).1.operators ++ (visit true right).1.operators ++
            if (visit belowWindow (.join header logic left right)).2 then [header.id] else [] := rfl
      rw [operators_eq, visit_snd (Bool.or_true _)]
      simp [QueryTree.inputs, QueryTree.isWindowOperator, QueryTree.id, QueryTree.header, eq_comm,
        or_assoc]

theorem mem_visit_streams_step (belowWindow : Bool) (tree : QueryTree) (id : Nat) :
    id ∈ (visit belowWindow tree).1.streams ↔
      (∃ input ∈ tree.inputs,
        id ∈ (visit (belowWindow || tree.isWindowOperator) input).1.streams) ∨
        (belowWindow || tree.isWindowOperator) = true ∧ 0 < tree.reads ∧
          ∃ input ∈ tree.inputs, input.reads = 0 ∧ input.id = id := by
  cases tree with
  | source header => simp [visit, QueryTree.inputs, QueryTree.reads]
  | single header logic input =>
      cases belowWindow with
      | true =>
          by_cases unread : input.reads = 0
          · by_cases reads_relation : logic.readsRelation = true <;>
              simp [visit, visit_true_snd, QueryTree.inputs, QueryTree.reads, unread,
                reads_relation, eq_comm (a := id)]
          · simp [visit, visit_true_snd, QueryTree.inputs, unread, Nat.pos_of_ne_zero unread]
      | false =>
          -- An aggregation reads no relation, so that its input is not without reads.
          have encloses (aggregates : logic.isAggregation = true) :=
            QueryTree.reads_single_of_isAggregation header input aggregates
          simp +contextual [visit, QueryTree.inputs, QueryTree.isWindowOperator, encloses,
            Nat.pos_iff_ne_zero]
  | join header logic left right =>
      by_cases left_unread : left.reads = 0 <;> by_cases right_unread : right.reads = 0 <;>
        simp [visit, visit_true_snd, QueryTree.inputs, QueryTree.isWindowOperator,
          QueryTree.reads, left_unread, right_unread, or_assoc, eq_comm (a := id),
          Nat.pos_iff_ne_zero]

/-- The operators with reads below a window start over. -/
theorem mem_visit_operators_iff {belowWindow : Bool} {tree : QueryTree} {id : Nat} :
    id ∈ (visit belowWindow tree).1.operators ↔
      ∃ operator, tree.IsBelowWindow belowWindow operator ∧ 0 < operator.reads ∧
        operator.id = id :=
  QueryTree.mem_collected_iff mem_visit_operators_step

/-- The outputs without reads that such operators consume are delivered again. -/
theorem mem_visit_streams_iff {belowWindow : Bool} {tree : QueryTree} {id : Nat} :
    id ∈ (visit belowWindow tree).1.streams ↔
      ∃ operator, tree.IsBelowWindow belowWindow operator ∧ 0 < operator.reads ∧
        ∃ input ∈ operator.inputs, input.reads = 0 ∧ input.id = id :=
  QueryTree.mem_collected_iff mem_visit_streams_step

/-- Every operator with reads at or below a windowed operator belongs to the area. -/
theorem mem_ofTree_operators_of_isWindowOperator {tree windowed operator : QueryTree}
    (windowed_mem : windowed ∈ tree.postOrder) (buffers : windowed.isWindowOperator = true)
    (member : operator ∈ windowed.postOrder) (reads : 0 < operator.reads) :
    operator.id ∈ (ofTree tree).operators := by
  have under : tree.IsUnderWindow operator := ⟨windowed, windowed_mem, buffers, member⟩
  exact mem_visit_operators_iff.mpr ⟨operator, ⟨under.mem_postOrder, .inr under⟩, reads, rfl⟩

/-- Every operator with reads that an aggregation gets its input from belongs to the area, and so
does the aggregation itself. -/
theorem mem_ofTree_operators {tree operator : QueryTree} {header : OperatorHeader}
    {window : Window} {function : AggregateFunction} {input : QueryTree}
    (commit_mem : .single header (.aggregate window function) input ∈ tree.postOrder)
    (member : operator ∈ (QueryTree.single header (.aggregate window function) input).postOrder)
    (reads : 0 < operator.reads) : operator.id ∈ (ofTree tree).operators :=
  mem_ofTree_operators_of_isWindowOperator commit_mem rfl member reads

/-- The operators with reads that belong to the area are those at or below a windowed operator. -/
theorem mem_ofTree_operators_iff {tree operator : QueryTree}
    (ids_nodup : (tree.postOrder.map QueryTree.id).Nodup) (member : operator ∈ tree.postOrder)
    (reads : 0 < operator.reads) :
    operator.id ∈ (ofTree tree).operators ↔ tree.IsUnderWindow operator := by
  constructor
  · intro restarted
    obtain ⟨other, ⟨other_mem, outside | under⟩, _, id_eq⟩ := mem_visit_operators_iff.mp restarted
    · cases outside
    · rwa [List.inj_on_of_nodup_map ids_nodup member other_mem id_eq.symm]
  · rintro ⟨windowed, windowed_mem, buffers, below⟩
    exact mem_ofTree_operators_of_isWindowOperator windowed_mem buffers below reads

/-- Only operators with reads forget what they have buffered. -/
theorem reads_of_mem_operators {tree : QueryTree} {id : Nat}
    (member : id ∈ (ofTree tree).operators) :
    ∃ operator ∈ tree.postOrder, operator.id = id ∧ 0 < operator.reads := by
  obtain ⟨operator, ⟨operator_mem, _⟩, reads, id_eq⟩ := mem_visit_operators_iff.mp member
  exact ⟨operator, operator_mem, id_eq, reads⟩

/-- An output without reads is delivered again, to an operator that starts over. -/
theorem exists_consumer_of_mem_streams {tree : QueryTree} {id : Nat}
    (member : id ∈ (ofTree tree).streams) :
    ∃ consumer ∈ tree.postOrder, consumer.id ∈ (ofTree tree).operators ∧
      ∃ input ∈ consumer.inputs, input.reads = 0 ∧ input.id = id := by
  obtain ⟨consumer, below, reads, delivered⟩ := mem_visit_streams_iff.mp member
  exact ⟨consumer, below.1, mem_visit_operators_iff.mpr ⟨consumer, below, reads, rfl⟩, delivered⟩

/-- The outputs that are delivered again hold no reads. -/
theorem reads_eq_zero_of_mem_streams {tree : QueryTree} {id : Nat}
    (member : id ∈ (ofTree tree).streams) :
    ∃ operator ∈ tree.postOrder, operator.id = id ∧ operator.reads = 0 := by
  obtain ⟨consumer, consumer_mem, _, input, is_input, unread, id_eq⟩ :=
    exists_consumer_of_mem_streams member
  exact ⟨input, QueryTree.input_mem_postOrder consumer_mem is_input, id_eq, unread⟩

end RedoArea

end StreamQuery
