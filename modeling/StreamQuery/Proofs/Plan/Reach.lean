import StreamQuery.Proofs.Engine.Deployment

/-!
# What starts over

Two operators with reads of which neither gets input from the other meet in a join that encloses
more reads than either; so every operator with reads lies on the way to the commit operator or
behind it. When the redo area starts over, nothing changes at operators without reads or at their
inputs.
-/

namespace StreamQuery

namespace QueryTree

/-- Of two operators of a tree one gets input from the other, or a join gets input from both. -/
theorem comparable_or_join {tree first second : QueryTree} (first_mem : first ∈ tree.postOrder)
    (second_mem : second ∈ tree.postOrder) :
    first ∈ second.postOrder ∨ second ∈ first.postOrder ∨
      ∃ header logic left right, join header logic left right ∈ tree.postOrder ∧
        (first ∈ left.postOrder ∧ second ∈ right.postOrder ∨
          first ∈ right.postOrder ∧ second ∈ left.postOrder) := by
  induction tree with
  | source header =>
      obtain rfl := List.mem_singleton.mp first_mem
      exact .inr (.inl second_mem)
  | single header logic input induction =>
      rcases List.mem_append.mp first_mem with first_inside | is_root
      · rcases List.mem_append.mp second_mem with second_inside | is_root
        · refine (induction first_inside second_inside).imp_right fun other => other.imp_right ?_
          rintro ⟨root, logic, left, right, member, apart⟩
          exact ⟨root, logic, left, right, List.mem_append_left _ member, apart⟩
        · exact .inl (List.mem_singleton.mp is_root ▸ first_mem)
      · exact .inr (.inl (List.mem_singleton.mp is_root ▸ second_mem))
  | join header logic left right left_induction right_induction =>
      rcases List.mem_append.mp first_mem with first_inside | is_root
      · rcases List.mem_append.mp second_mem with second_inside | is_root
        · have meets := self_mem_postOrder (join header logic left right)
          rcases List.mem_append.mp first_inside with first_left | first_right
          · rcases List.mem_append.mp second_inside with second_left | second_right
            · refine (left_induction first_left second_left).imp_right fun other =>
                other.imp_right ?_
              rintro ⟨root, inner, leftInner, rightInner, member, apart⟩
              exact ⟨root, inner, leftInner, rightInner,
                List.mem_append_left _ (List.mem_append_left _ member), apart⟩
            · exact .inr (.inr ⟨_, _, _, _, meets, .inl ⟨first_left, second_right⟩⟩)
          · rcases List.mem_append.mp second_inside with second_left | second_right
            · exact .inr (.inr ⟨_, _, _, _, meets, .inr ⟨first_right, second_left⟩⟩)
            · refine (right_induction first_right second_right).imp_right fun other =>
                other.imp_right ?_
              rintro ⟨root, inner, leftInner, rightInner, member, apart⟩
              exact ⟨root, inner, leftInner, rightInner,
                List.mem_append_left _ (List.mem_append_right _ member), apart⟩
        · exact .inl (List.mem_singleton.mp is_root ▸ first_mem)
      · exact .inr (.inl (List.mem_singleton.mp is_root ▸ second_mem))

end QueryTree

/-! ## The commit operator -/

namespace CommitSearch

variable {search : CommitSearch} {tree : QueryTree}

/-- The candidate encloses as many reads as noted. -/
def IsSound (search : CommitSearch) : Prop :=
  ∀ candidate, search.candidate? = some candidate → candidate.reads = search.best

theorem IsSound.consider (sound : search.IsSound) (tree : QueryTree) :
    (search.consider tree).IsSound := by
  rw [CommitSearch.consider]
  split
  · rintro candidate ⟨⟩
    rfl
  · exact sound

theorem best_le_consider (search : CommitSearch) (tree : QueryTree) :
    search.best ≤ (search.consider tree).best ∧ tree.reads ≤ (search.consider tree).best := by
  rw [consider, isImprovedBy]
  split <;> rename_i improved
  · simp only [Bool.or_eq_true, Bool.and_eq_true, decide_eq_true_eq] at improved
    have improves : search.best ≤ tree.reads := by omega
    exact ⟨improves, le_rfl⟩
  · simp only [Bool.or_eq_true, decide_eq_true_eq, not_or] at improved
    exact ⟨le_rfl, by omega⟩

theorem IsSound.visit (sound : search.IsSound) (tree : QueryTree) :
    (search.visit tree).IsSound := by
  induction tree generalizing search with
  | source header => exact sound
  | single header logic input induction =>
      simp only [CommitSearch.visit]
      split
      · exact (induction sound).consider _
      · exact induction sound
  | join header logic left right left_induction right_induction =>
      simp only [CommitSearch.visit]
      split
      · exact (right_induction (left_induction sound)).consider _
      · exact right_induction (left_induction sound)

theorem best_le_visit (search : CommitSearch) (tree : QueryTree) :
    search.best ≤ (search.visit tree).best := by
  induction tree generalizing search with
  | source header => exact le_rfl
  | single header logic input induction =>
      simp only [visit]
      split
      · exact (induction search).trans (best_le_consider _ _).1
      · exact induction search
  | join header logic left right left_induction right_induction =>
      have below := (left_induction search).trans (right_induction (search.visit left))
      simp only [visit]
      split
      · exact below.trans (best_le_consider _ _).1
      · exact below

/-- The candidate encloses at least as many reads as any join of two trees with reads. -/
theorem reads_le_visit (search : CommitSearch) {header : OperatorHeader} {logic : JoinLogic}
    {left right : QueryTree}
    (member : .join header logic left right ∈ tree.postOrder) (left_reads : 0 < left.reads)
    (right_reads : 0 < right.reads) :
    (QueryTree.join header logic left right).reads ≤ (search.visit tree).best := by
  induction tree generalizing search with
  | source root => cases List.mem_singleton.mp member
  | single root inner input induction =>
      rcases List.mem_append.mp member with inside | is_root
      · simp only [visit]
        split
        · exact (induction _ inside).trans (best_le_consider _ _).1
        · exact induction _ inside
      · cases List.mem_singleton.mp is_root
  | join root inner first second first_induction second_induction =>
      rcases List.mem_append.mp member with inside | is_root
      · have below : (QueryTree.join header logic left right).reads ≤
            ((search.visit first).visit second).best := by
          rcases List.mem_append.mp inside with in_first | in_second
          · exact (first_induction _ in_first).trans (best_le_visit _ _)
          · exact second_induction _ in_second
        simp only [visit]
        split
        · exact below.trans (best_le_consider _ _).1
        · exact below
      · cases List.mem_singleton.mp is_root
        simp only [visit, left_reads, right_reads, decide_true, Bool.and_self, if_true]
        exact (best_le_consider _ _).2

end CommitSearch

/-- Every operator with reads lies on the way to the commit operator or behind it. -/
theorem QueryTree.comparable_commitOperator? {tree commit operator : QueryTree}
    (found : tree.commitOperator? = some commit) (commit_reads : 0 < commit.reads)
    (member : operator ∈ tree.postOrder) (reads : 0 < operator.reads) :
    operator ∈ commit.postOrder ∨ commit ∈ operator.postOrder := by
  have nothing : CommitSearch.IsSound {} := nofun
  have sound := nothing.visit tree commit found
  rcases comparable_or_join member (commitOperator?_mem_postOrder found) with
    below | behind | ⟨header, logic, left, right, join_mem, apart⟩
  · exact .inl below
  · exact .inr behind
  · -- The join would have been preferred, since it encloses the reads of both.
    have sides : operator.reads ≤ left.reads ∧ commit.reads ≤ right.reads ∨
        operator.reads ≤ right.reads ∧ commit.reads ≤ left.reads :=
      apart.imp (fun both => ⟨reads_le_of_mem_postOrder both.1, reads_le_of_mem_postOrder both.2⟩)
        fun both => ⟨reads_le_of_mem_postOrder both.1, reads_le_of_mem_postOrder both.2⟩
    have best := CommitSearch.reads_le_visit {} join_mem (by omega) (by omega)
    rw [← sound, QueryTree.reads] at best
    omega

/-! ## Deployments -/

namespace Deployment

variable {deployment : Deployment} {operator : QueryTree}

/-- Nothing is evaluated again, or the redo area of the tree is. -/
theorem redo_eq (deployment : Deployment) :
    deployment.schedule.redo = {} ∨ deployment.schedule.redo = .ofTree deployment.tree := by
  obtain ⟨accepted, _, schedule_eq⟩ := deployment.schedule_spec
  rw [schedule_eq]
  simp only
  split
  · exact .inr rfl
  · exact .inl rfl

/-- Only operators with reads start over. -/
theorem reads_of_mem_operators (member : operator ∈ deployment.tree.postOrder)
    (restarts : operator.id ∈ deployment.schedule.redo.operators) : 0 < operator.reads := by
  rcases deployment.redo_eq with nothing | area
  · rw [nothing] at restarts
    cases restarts
  · rw [area] at restarts
    obtain ⟨other, other_mem, id_eq, reads⟩ := RedoArea.reads_of_mem_operators restarts
    rwa [deployment.eq_of_id_eq member other_mem id_eq.symm]

/-- Outputs are delivered again only to operators that start over. -/
theorem mem_operators_of_input_mem_streams (member : operator ∈ deployment.tree.postOrder)
    {input : QueryTree} (is_input : input ∈ operator.inputs)
    (delivered : input.id ∈ deployment.schedule.redo.streams) :
    operator.id ∈ deployment.schedule.redo.operators := by
  rcases deployment.redo_eq with nothing | area
  · rw [nothing] at delivered
    cases delivered
  · rw [area] at delivered ⊢
    obtain ⟨consumer, consumer_mem, restarts, other, is_other, _, id_eq⟩ :=
      RedoArea.exists_consumer_of_mem_streams delivered
    obtain rfl := deployment.eq_of_id_eq (QueryTree.input_mem_postOrder member is_input)
      (QueryTree.input_mem_postOrder consumer_mem is_other) id_eq.symm
    rwa [deployment.forest.consumer_unique
      (deployment.forest.mem_of_mem_postOrder deployment.tree_mem member).1
      (deployment.forest.mem_of_mem_postOrder deployment.tree_mem consumer_mem).1 is_input is_other]

/-- When there is something that starts over, an operator with reads starts over with it or gets
results of the commit operator. -/
theorem HasCommit.mem_operators_or_downstream {header : OperatorHeader} {window : Window}
    {index : Nat} {input : QueryTree} (commit : deployment.HasCommit header window index input)
    (controlled : deployment.config.mode ≠ .uncontrolled)
    (member : operator ∈ deployment.tree.postOrder) (reads : 0 < operator.reads) :
    operator.id ∈ deployment.schedule.redo.operators ∨
      .mean header window index input ∈ operator.postOrder := by
  rcases QueryTree.comparable_commitOperator? commit.found commit.root_reads member reads with
    below | downstream
  · left
    rw [commit.redo_eq controlled]
    exact RedoArea.mem_ofTree_operators commit.mem_postOrder below reads
  · exact .inr downstream

end Deployment

end StreamQuery
