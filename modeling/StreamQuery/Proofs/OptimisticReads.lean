import StreamQuery.Proofs.Engine.History

/-!
# Reads under optimistic control

Optimistic control compares stamps. The stamps of a tuple tell, for each relation that it has read,
one of the versions that it has read. So a result that is sent has read one version of a relation
exactly if each tuple of its window has. Where the parts of a query that read a relation can meet
before the window of the commit operator, a tuple may well have read two.
-/

namespace StreamQuery

namespace Lineage

/-- All reads of a relation saw the same version. -/
def SawOneVersion (lineage : Lineage) (relation : RelationId) : Prop :=
  ∀ version version', (relation, version) ∈ lineage.reads → (relation, version') ∈ lineage.reads →
    version = version'

end Lineage

/-! ## What stamps tell -/

/-- The stamps of a tuple tell one of its reads for each relation that it has read. -/
structure Tuple.TellsReads (tuple : Tuple) : Prop where
  /-- A stamp is one of the reads. -/
  truthful : ∀ entry ∈ tuple.stamps.entries, entry ∈ tuple.lineage.reads
  /-- No relation is left out. -/
  covers : ∀ read ∈ tuple.lineage.reads, tuple.stamps.Covers read.1

theorem Tuple.IsFresh.tellsReads {tuple : Tuple} (fresh : tuple.IsFresh) : tuple.TellsReads := by
  obtain ⟨time, lineage_eq⟩ := fresh.lineage_eq
  exact ⟨by simp [fresh.stamps_eq], by simp [lineage_eq, Lineage.reads]⟩

/-- The invariant that stamps tell reads. -/
def tellingFlow : FlowInvariant where
  holds _ tuple := tuple.TellsReads
  keeps _ := True

theorem tellsReads_apply {function : AggregateFunction} {schema : Schema} {contents : Contents}
    {result : Tuple} (computed : function.apply schema contents = .ok result)
    (tells : ∀ tuple ∈ contents.tuples, tuple.TellsReads) : result.TellsReads := by
  obtain ⟨_, stamps_eq, lineage_eq⟩ := AggregateFunction.apply_eq_ok computed
  constructor
  · intro entry stamped
    rw [stamps_eq] at stamped
    obtain ⟨_, stamps_mem, entry_mem⟩ := Stamps.mem_unions_entries stamped
    obtain ⟨tuple, tuple_mem, rfl⟩ := List.mem_map.mp stamps_mem
    rw [lineage_eq, Lineage.mem_reads_window]
    exact ⟨tuple.lineage, List.mem_map_of_mem tuple_mem,
      (tells tuple tuple_mem).truthful entry entry_mem⟩
  · intro read member
    rw [lineage_eq, Lineage.mem_reads_window] at member
    obtain ⟨_, lineage_mem, read_mem⟩ := member
    obtain ⟨tuple, tuple_mem, rfl⟩ := List.mem_map.mp lineage_mem
    rw [stamps_eq]
    exact Stamps.covers_unions (List.mem_map_of_mem tuple_mem)
      ((tells tuple tuple_mem).covers read read_mem)

theorem tellsReads_pair {schema : Schema} {lowWater : Int} {left right : Tuple}
    (left_tells : left.TellsReads) (right_tells : right.TellsReads) :
    (WindowJoin.pair schema lowWater left right).TellsReads := by
  constructor
  · intro entry stamped
    rw [WindowJoin.pair, Lineage.reads, List.mem_append]
    exact (Stamps.mem_union_entries stamped).imp (left_tells.truthful entry)
      (right_tells.truthful entry)
  · intro read member
    rw [WindowJoin.pair, Lineage.reads, List.mem_append] at member
    exact Stamps.covers_union (member.imp (left_tells.covers read) (right_tells.covers read))

theorem tellsReads_match {schema : Schema} {relation : RelationId} {version position : Nat}
    {tuple row : Tuple} (tells : tuple.TellsReads) :
    (matchTuple schema relation version tuple row position).TellsReads := by
  constructor
  · intro entry stamped
    rw [matchTuple, Lineage.reads]
    rcases Stamps.mem_set_entries stamped with rfl | earlier
    · exact List.mem_cons_self
    · exact List.mem_cons_of_mem _ (tells.truthful entry earlier)
  · intro read member
    rw [matchTuple, Lineage.reads] at member
    rcases List.mem_cons.mp member with rfl | earlier
    · exact Stamps.covers_set_self _ _ _
    · exact (tells.covers read earlier).set _ _

theorem tellingFlow_isClosed : tellingFlow.IsClosed Tuple.IsFresh where
  fresh _ _ fresh := fresh.tellsReads
  yields before after role operator tuple _ yields := by
    cases yields with
    | arrived tells => exact tells
    | passed tells _ => exact tells
    | projected tells projected =>
        obtain ⟨_, stamps_eq, lineage_eq⟩ := projectTuple_eq_ok projected
        exact ⟨stamps_eq ▸ lineage_eq ▸ tells.truthful, stamps_eq ▸ lineage_eq ▸ tells.covers⟩
    | matched tells _ _ => exact tellsReads_match tells
    | aggregated tells _ computed => exact tellsReads_apply computed tells
    | paired left_tells right_tells => exact tellsReads_pair left_tells right_tells
    | ended _ tells _ => exact tells
  keeps _ := trivial

/-! ## Windows of the commit operator -/

/-- In a consistent window all stamps for a relation agree. -/
theorem Contents.version_eq_of_isConsistent {contents : Contents}
    (consistent : contents.isConsistent = true) {relation : RelationId} {version version' : Nat}
    (first : (relation, version) ∈ contents.stampEntries)
    (second : (relation, version') ∈ contents.stampEntries) : version = version' := by
  rw [isConsistent, List.all_eq_true] at consistent
  have first_found := of_decide_eq_true (consistent _ first)
  have second_found := of_decide_eq_true (consistent _ second)
  exact Option.some.inj (first_found.symm.trans second_found)

/-- A result of a consistent window has read one version of a relation exactly if each tuple of the
window has. -/
theorem sawOneVersion_iff {function : AggregateFunction} {schema : Schema} {contents : Contents}
    {result : Tuple} (computed : function.apply schema contents = .ok result)
    (tells : ∀ tuple ∈ contents.tuples, tuple.TellsReads)
    (consistent : contents.isConsistent = true) (relation : RelationId) :
    result.lineage.SawOneVersion relation ↔
      ∀ tuple ∈ contents.tuples, tuple.lineage.SawOneVersion relation := by
  obtain ⟨_, _, lineage_eq⟩ := AggregateFunction.apply_eq_ok computed
  have mem_reads {read : RelationId × Nat} : read ∈ result.lineage.reads ↔
      ∃ tuple ∈ contents.tuples, read ∈ tuple.lineage.reads := by
    rw [lineage_eq, Lineage.mem_reads_window]
    simp
  constructor
  · intro agrees tuple tuple_mem version version' first second
    exact agrees version version' (mem_reads.mpr ⟨tuple, tuple_mem, first⟩)
      (mem_reads.mpr ⟨tuple, tuple_mem, second⟩)
  · intro members_agree version version' first second
    -- Each of the two tuples bears a stamp that tells its only version of the relation.
    have stamped {version : Nat} (read : (relation, version) ∈ result.lineage.reads) :
        (relation, version) ∈ contents.stampEntries := by
      obtain ⟨tuple, tuple_mem, read_mem⟩ := mem_reads.mp read
      obtain ⟨told, told_mem⟩ := (tells tuple tuple_mem).covers _ read_mem
      have told_read := (tells tuple tuple_mem).truthful _ told_mem
      rw [members_agree tuple tuple_mem version told read_mem told_read]
      exact List.mem_flatMap.mpr ⟨tuple, tuple_mem, told_mem⟩
    exact Contents.version_eq_of_isConsistent consistent (stamped first) (stamped second)

/-! ## Plans that keep reads apart -/

namespace QueryTree

/-- The places of the relations that are read in a tree. -/
def relationPlaces : QueryTree → List Nat
  | source _ => []
  | single _ logic input =>
    (logic.relation?.map RelationReference.place).toList ++ input.relationPlaces
  | join _ _ left right => left.relationPlaces ++ right.relationPlaces

/-- Whether a tuple reaches the root with one read of each relation at most: no relation is read
again by a tuple that has read it, and no window unites reads. -/
def keepsReadsApart : QueryTree → Bool
  | source _ => true
  | single _ (.combine reference _) input =>
    input.keepsReadsApart && reference.place ∉ input.relationPlaces
  | single _ (.aggregate _ _) input => input.reads = 0
  | single _ (.select _) input => input.keepsReadsApart
  | single _ (.project _) input => input.keepsReadsApart
  | join _ _ left right =>
    left.keepsReadsApart && right.keepsReadsApart &&
      left.relationPlaces.all fun place => place ∉ right.relationPlaces

theorem relationPlaces_eq_nil {tree : QueryTree} (unread : tree.reads = 0) :
    tree.relationPlaces = [] := by
  induction tree with
  | source header => rfl
  | single header logic input induction =>
      rw [reads, Nat.add_eq_zero_iff] at unread
      have no_relation : logic.relation? = none := by
        by_contra present
        simp [SingleLogic.readsRelation, Option.isSome_iff_ne_none, present] at unread
      simp [relationPlaces, no_relation, induction unread.1]
  | join header logic left right left_induction right_induction =>
      rw [reads, Nat.add_eq_zero_iff] at unread
      rw [relationPlaces, left_induction unread.1, right_induction unread.2, List.append_nil]

theorem keepsReadsApart_of_reads_eq_zero {tree : QueryTree} (unread : tree.reads = 0) :
    tree.keepsReadsApart = true := by
  induction tree with
  | source header => rfl
  | single header logic input induction =>
      rw [reads, Nat.add_eq_zero_iff] at unread
      cases logic with
      | combine reference condition =>
          simp [SingleLogic.readsRelation, SingleLogic.relation?] at unread
      | aggregate window function => simpa [keepsReadsApart] using unread.1
      | select condition => exact induction unread.1
      | project indices => exact induction unread.1
  | join header logic left right left_induction right_induction =>
      rw [reads, Nat.add_eq_zero_iff] at unread
      simp [keepsReadsApart, left_induction unread.1, right_induction unread.2,
        relationPlaces_eq_nil unread.1]

/-- What reaches an input is kept apart, too, and was read below the operator. -/
theorem keepsReadsApart_input {operator input : QueryTree} (is_input : input ∈ operator.inputs)
    (apart : operator.keepsReadsApart = true) :
    input.keepsReadsApart = true ∧ input.relationPlaces ⊆ operator.relationPlaces := by
  cases operator with
  | source header => cases is_input
  | single header logic below =>
      obtain rfl := List.mem_singleton.mp is_input
      refine ⟨?_, List.subset_append_right _ _⟩
      cases logic with
      | select condition => exact apart
      | project indices => exact apart
      | combine reference condition => exact (Bool.and_eq_true_iff.mp apart).1
      | aggregate window function =>
          exact keepsReadsApart_of_reads_eq_zero (of_decide_eq_true apart)
  | join header logic left right =>
      rw [keepsReadsApart, Bool.and_eq_true_iff, Bool.and_eq_true_iff] at apart
      rcases List.mem_cons.mp is_input with rfl | is_right
      · exact ⟨apart.1.1, List.subset_append_left _ _⟩
      · obtain rfl := List.mem_singleton.mp is_right
        exact ⟨apart.1.2, List.subset_append_right _ _⟩

end QueryTree

/-- A tuple that has read relations at certain places only, each at one version. -/
structure Tuple.ReadsOnce (tuple : Tuple) (places : List Nat) : Prop where
  /-- Only these relations were read. -/
  mem_places : ∀ read ∈ tuple.lineage.reads, read.1 ∈ places
  /-- Each was read at one version. -/
  sawOneVersion : ∀ relation, tuple.lineage.SawOneVersion relation

/-- The invariant that tuples read each relation once, wherever the plan keeps reads apart. -/
def readingOnceFlow : FlowInvariant where
  holds operator tuple :=
    operator.keepsReadsApart = true → tuple.ReadsOnce operator.relationPlaces
  keeps _ := True

namespace Tuple.ReadsOnce

theorem of_isFresh {tuple : Tuple} (fresh : tuple.IsFresh) (places : List Nat) :
    tuple.ReadsOnce places := by
  obtain ⟨time, lineage_eq⟩ := fresh.lineage_eq
  constructor
  · simp [lineage_eq, Lineage.reads]
  · intro relation version version' first
    simp [lineage_eq, Lineage.reads] at first

theorem mono {tuple : Tuple} {places places' : List Nat} (once : tuple.ReadsOnce places)
    (subset : places ⊆ places') : tuple.ReadsOnce places' where
  mem_places read member := subset (once.mem_places read member)
  sawOneVersion := once.sawOneVersion

theorem matchTuple {tuple row : Tuple} {places : List Nat} (once : tuple.ReadsOnce places)
    {schema : Schema} {relation : RelationId} {version position : Nat}
    (unread : relation ∉ places) :
    (matchTuple schema relation version tuple row position).ReadsOnce (relation :: places) := by
  have earlier_ne {read : RelationId × Nat} (member : read ∈ tuple.lineage.reads) :
      read.1 ≠ relation := fun same => unread (same ▸ once.mem_places read member)
  constructor
  · intro read member
    rcases List.mem_cons.mp member with rfl | earlier
    · exact List.mem_cons_self
    · exact List.mem_cons_of_mem _ (once.mem_places read earlier)
  · intro other first second first_mem second_mem
    rcases List.mem_cons.mp first_mem with first_eq | first_earlier
    · rcases List.mem_cons.mp second_mem with second_eq | second_earlier
      · exact (Prod.mk.inj first_eq).2.trans (Prod.mk.inj second_eq).2.symm
      · exact absurd (Prod.mk.inj first_eq).1 (earlier_ne second_earlier)
    · rcases List.mem_cons.mp second_mem with second_eq | second_earlier
      · exact absurd (Prod.mk.inj second_eq).1 (earlier_ne first_earlier)
      · exact once.sawOneVersion other first second first_earlier second_earlier

theorem pair {left right : Tuple} {left_places right_places : List Nat}
    (left_once : left.ReadsOnce left_places) (right_once : right.ReadsOnce right_places)
    (disjoint : ∀ place ∈ left_places, place ∉ right_places) {schema : Schema} {lowWater : Int} :
    (WindowJoin.pair schema lowWater left right).ReadsOnce (left_places ++ right_places) := by
  constructor
  · intro read member
    rw [List.mem_append]
    exact (List.mem_append.mp member).imp (left_once.mem_places read)
      (right_once.mem_places read)
  · intro relation first second first_mem second_mem
    rcases List.mem_append.mp first_mem with first_left | first_right
    · rcases List.mem_append.mp second_mem with second_left | second_right
      · exact left_once.sawOneVersion relation first second first_left second_left
      · exact absurd (right_once.mem_places _ second_right)
          (disjoint relation (left_once.mem_places _ first_left))
    · rcases List.mem_append.mp second_mem with second_left | second_right
      · exact absurd (right_once.mem_places _ first_right)
          (disjoint relation (left_once.mem_places _ second_left))
      · exact right_once.sawOneVersion relation first second first_right second_right

theorem apply {function : AggregateFunction} {schema : Schema} {contents : Contents}
    {result : Tuple} (computed : function.apply schema contents = .ok result)
    (unread : ∀ tuple ∈ contents.tuples, tuple.ReadsOnce []) : result.ReadsOnce [] := by
  obtain ⟨_, _, lineage_eq⟩ := AggregateFunction.apply_eq_ok computed
  have no_reads : ∀ read, read ∉ result.lineage.reads := by
    intro read member
    rw [lineage_eq, Lineage.mem_reads_window] at member
    obtain ⟨_, lineage_mem, read_mem⟩ := member
    obtain ⟨tuple, tuple_mem, rfl⟩ := List.mem_map.mp lineage_mem
    exact absurd ((unread tuple tuple_mem).mem_places read read_mem) List.not_mem_nil
  exact ⟨fun read member => absurd member (no_reads read),
    fun relation version version' first => absurd first (no_reads _)⟩

end Tuple.ReadsOnce

theorem readingOnceFlow_isClosed : readingOnceFlow.IsClosed Tuple.IsFresh where
  fresh _ _ fresh _ := .of_isFresh fresh _
  yields before after role operator tuple ids yields apart := by
    have given {input : QueryTree} {tuple : Tuple} (is_input : input ∈ operator.inputs)
        (once : readingOnceFlow.holds input tuple) : tuple.ReadsOnce operator.relationPlaces := by
      obtain ⟨input_apart, subset⟩ := QueryTree.keepsReadsApart_input is_input apart
      exact (once input_apart).mono subset
    cases yields with
    | arrived once => exact once apart
    | passed once _ => exact given List.mem_cons_self once
    | projected once projected =>
        obtain ⟨_, _, lineage_eq⟩ := projectTuple_eq_ok projected
        have input_once := given List.mem_cons_self once
        exact ⟨lineage_eq ▸ input_once.mem_places, lineage_eq ▸ input_once.sawOneVersion⟩
    | matched once found _ =>
        obtain ⟨input_apart, unread⟩ := Bool.and_eq_true_iff.mp apart
        rw [ids _ _ found]
        exact (once input_apart).matchTuple (of_decide_eq_true unread)
    | @aggregated header window function input contents _ once _ computed =>
        have unread : input.reads = 0 := of_decide_eq_true apart
        have no_places := QueryTree.relationPlaces_eq_nil unread
        have result_once := Tuple.ReadsOnce.apply computed fun tuple member => by
          rw [← no_places]
          exact once tuple member (QueryTree.keepsReadsApart_of_reads_eq_zero unread)
        exact result_once.mono (List.nil_subset _)
    | paired left_once right_once =>
        rw [QueryTree.keepsReadsApart, Bool.and_eq_true_iff, Bool.and_eq_true_iff] at apart
        obtain ⟨⟨left_apart, right_apart⟩, disjoint⟩ := apart
        refine (left_once left_apart).pair (right_once right_apart) fun place member => ?_
        exact of_decide_eq_true (List.all_eq_true.mp disjoint place member)
    | ended is_input once _ => exact given is_input once
  keeps _ := trivial

/-! ## Runs -/

/-- A data result of the commit operator comes from a consistent window whose tuples satisfy
whatever operators hand on. -/
theorem Deployment.HasCommit.exists_window {deployment : Deployment} {header : OperatorHeader}
    {window : Window} {index : Nat} {input : QueryTree}
    (commit : deployment.HasCommit header window index input)
    (mode : deployment.config.mode = .optimistic) {flow : FlowInvariant}
    (closed : flow.IsClosed Tuple.IsFresh) {actions : List Action}
    (fresh : ∀ action ∈ actions, action.IsFresh) {result : Tuple}
    (sent : result ∈ deployment.sentBy header.id actions) (is_data : result.isEndOfStream = false) :
    ∃ contents, (∀ tuple ∈ contents.tuples, flow.holds input tuple) ∧
      contents.isConsistent = true ∧
      (AggregateFunction.mean index).apply header.schema contents = .ok result := by
  obtain ⟨firing, firing_mem, id_eq, result_mem⟩ := Firing.mem_sentBy.mp sent
  obtain ⟨operator_mem, yielded⟩ :=
    (FlowHistory.of_run deployment closed fun action member => (fresh action member).brings).sent
      firing firing_mem
  have operator_eq := deployment.eq_of_id_eq operator_mem commit.mem_postOrder id_eq
  obtain ⟨before, after, yields⟩ := yielded result result_mem
  rw [operator_eq] at yields
  cases yields with
  | passed _ passes =>
      rcases passes with is_marker | ⟨condition, selects⟩
      · rw [is_data] at is_marker
        cases is_marker
      · cases selects
  | @aggregated _ _ _ _ contents _ holds consistent computed =>
      refine ⟨contents, holds, consistent ?_, computed⟩
      simp [Schedule.role, CommitRole.of, commit.commit?_eq, mode, QueryTree.id, QueryTree.header]

/-- Under optimistic control, a data result of the commit operator has read one version of a
relation exactly if each tuple of its window has; and so it has if the plan keeps reads apart below
the window of the commit operator. -/
theorem optimistic_result_reads (deployment : Deployment)
    (mode : deployment.config.mode = .optimistic) {commit : QueryTree}
    (found : deployment.tree.commitOperator? = some commit) {actions : List Action}
    (fresh : ∀ action ∈ actions, action.IsFresh) :
    ∀ result ∈ deployment.sentBy commit.id actions, result.isEndOfStream = false →
      ∃ members, result.lineage = .window members ∧
        ∀ relation,
          (result.lineage.SawOneVersion relation ↔
            ∀ member ∈ members, member.SawOneVersion relation) ∧
          ((∀ input ∈ commit.inputs, input.keepsReadsApart = true) →
            result.lineage.SawOneVersion relation) := by
  intro result sent is_data
  obtain ⟨header, window, index, input, rfl, has_commit⟩ :=
    deployment.hasCommit_of_commitOperator? found
  obtain ⟨contents, tells, consistent, computed⟩ :=
    has_commit.exists_window mode tellingFlow_isClosed fresh sent is_data
  obtain ⟨_, _, lineage_eq⟩ := AggregateFunction.apply_eq_ok computed
  refine ⟨contents.tuples.map Tuple.lineage, lineage_eq, fun relation => ?_⟩
  have exact_condition : result.lineage.SawOneVersion relation ↔
      ∀ member ∈ contents.tuples.map Tuple.lineage, member.SawOneVersion relation := by
    rw [sawOneVersion_iff computed tells consistent, List.forall_mem_map]
  refine ⟨exact_condition, fun apart => exact_condition.mpr fun member inside => ?_⟩
  obtain ⟨contents', once, _, computed'⟩ :=
    has_commit.exists_window mode readingOnceFlow_isClosed fresh sent is_data
  obtain ⟨_, _, lineage_eq'⟩ := AggregateFunction.apply_eq_ok computed'
  have same_members : contents.tuples.map Tuple.lineage = contents'.tuples.map Tuple.lineage :=
    Lineage.window.inj (lineage_eq.symm.trans lineage_eq')
  rw [same_members] at inside
  obtain ⟨tuple, tuple_mem, rfl⟩ := List.mem_map.mp inside
  exact (once tuple tuple_mem (apart input List.mem_cons_self)).sawOneVersion relation

/-- Means over two sales at a time are redone when the price changes between them. -/
def pricedOptimistic : Deployment :=
  (Deployment.ofDeclarations? (pricedDeclarations (.rows 2 2)) "mean" (.ofMode .optimistic)).get
    (by decide)

/-- The price changes between two sales. -/
def repricedActions : List Action :=
  [.load 0 (.ofInts priceSchema [1, 10] 0), .arrive 0 (.ofInts goodsSchema [1] 0)] ++
    List.replicate 3 .wakeUp ++
    [.update 0 fun _ => [.ofInts priceSchema [1, 20] 0],
      .arrive 0 (.ofInts goodsSchema [1] 1)] ++
    List.replicate 12 .wakeUp

set_option maxRecDepth 10000 in
theorem pricedOptimistic_result_reads :
    (pricedOptimistic.config.mode = .optimistic ∧
      pricedOptimistic.tree.commitOperator? = some pricedOptimistic.tree ∧
      (∀ action ∈ repricedActions, action.IsFresh) ∧
      (pricedOptimistic.sentBy pricedOptimistic.tree.id repricedActions).map
        (·.lineage.reads) = [[(0, 1), (0, 1)]]) ∧
      ∀ result ∈ pricedOptimistic.sentBy pricedOptimistic.tree.id repricedActions,
        result.isEndOfStream = false →
        ∃ members, result.lineage = .window members ∧
          ∀ relation,
            (result.lineage.SawOneVersion relation ↔
              ∀ member ∈ members, member.SawOneVersion relation) ∧
            ((∀ input ∈ pricedOptimistic.tree.inputs, input.keepsReadsApart = true) →
              result.lineage.SawOneVersion relation) :=
  ⟨⟨rfl, rfl, by decide, by decide +kernel⟩,
    optimistic_result_reads pricedOptimistic rfl rfl (by decide)⟩

/-! ## Plans that do not keep reads apart -/

/-- A data result of a run under optimistic control has read two versions of one relation. -/
def Deployment.MixesVersions (deployment : Deployment) (actions : List Action) : Prop :=
  deployment.config.mode = .optimistic ∧
    (∀ action ∈ actions, action.IsFresh) ∧
    ∃ commit, deployment.tree.commitOperator? = some commit ∧
      ∃ result ∈ deployment.sentBy commit.id actions, result.isEndOfStream = false ∧
        ∃ relation, ¬result.lineage.SawOneVersion relation

/-- A sale is priced twice, and the second price hides the version of the first. -/
def stackedReads : Deployment :=
  (Deployment.ofDeclarations?
    [.relation { name := "prices", schema := priceSchema },
      .operator "sales" (.stream goodsSchema),
      .operator "priced" (.combine "sales" "prices" (.attributes "goods" .equal "id")),
      .operator "repriced" (.combine "priced" "prices" (.attributes "goods" .equal "id")),
      .operator "mean" (.mean "repriced" "price" (.rows 1 1))]
    "mean" (.ofMode .optimistic)).get (by decide)

/-- Sales are joined with returns, both priced, and the version of the sale hides that of the
return. -/
def facingReads : Deployment :=
  (Deployment.ofDeclarations?
    [.relation { name := "prices", schema := priceSchema },
      .operator "sales" (.stream goodsSchema),
      .operator "returns" (.stream goodsSchema),
      .operator "sold" (.combine "sales" "prices" (.attributes "goods" .equal "id")),
      .operator "returned" (.combine "returns" "prices" (.attributes "goods" .equal "id")),
      .operator "both" (.join "sold" (.rows 1 1) "returned" (.rows 1 1) .always),
      .operator "mean" (.mean "both" "price" (.rows 1 1))]
    "mean" (.ofMode .optimistic)).get (by decide)

/-- A mean of two prices hides the version of the second one before another relation is read. -/
def nestedReads : Deployment :=
  (Deployment.ofDeclarations?
    [.relation { name := "prices", schema := priceSchema },
      .relation { name := "rates", schema := goodsSchema },
      .operator "sales" (.stream goodsSchema),
      .operator "priced" (.combine "sales" "prices" (.attributes "goods" .equal "id")),
      .operator "pairs" (.mean "priced" "price" (.rows 2 2)),
      .operator "rated" (.combine "pairs" "rates" .always),
      .operator "mean" (.mean "rated" "price" (.rows 1 1))]
    "mean" (.ofMode .optimistic)).get (by decide)

/-- The price changes once the first tuple has met it, and another tuple arrives. -/
def changingActions (first second : Nat) : List Action :=
  [.load 0 (.ofInts priceSchema [1, 10] 0), .load 1 (.ofInts goodsSchema [1] 0),
      .arrive first (.ofInts goodsSchema [1] 0)] ++
    List.replicate 2 .wakeUp ++
    [.update 0 fun _ => [.ofInts priceSchema [1, 20] 0],
      .arrive second (.ofInts goodsSchema [1] 1)] ++
    List.replicate 8 .wakeUp

private theorem mixesVersions_of_any {deployment : Deployment} {actions : List Action}
    (mode : deployment.config.mode = .optimistic)
    (fresh : ∀ action ∈ actions, action.IsFresh)
    (found : deployment.tree.commitOperator? = some deployment.tree)
    (mixed : (deployment.sentBy deployment.tree.id actions).any (fun result =>
      !result.isEndOfStream && decide ((0, 0) ∈ result.lineage.reads) &&
        decide ((0, 1) ∈ result.lineage.reads)) = true) :
    deployment.MixesVersions actions := by
  obtain ⟨result, sent, mixes⟩ := List.any_eq_true.mp mixed
  simp only [Bool.and_eq_true, Bool.not_eq_true', decide_eq_true_eq] at mixes
  obtain ⟨⟨is_data, old⟩, new⟩ := mixes
  refine ⟨mode, fresh, _, found, result, sent, is_data, 0, fun agrees => ?_⟩
  exact absurd (agrees 0 1 old new) (by decide)

set_option maxRecDepth 10000 in
/-- Each of the three ways in which a plan can fail to keep reads apart lets results mix versions.
-/
theorem unkept_reads_mix_versions :
    stackedReads.MixesVersions (changingActions 0 0) ∧
      facingReads.MixesVersions (changingActions 0 1) ∧
      nestedReads.MixesVersions (changingActions 0 0) :=
  ⟨mixesVersions_of_any rfl (by decide) rfl (by decide +kernel),
    mixesVersions_of_any rfl (by decide) rfl (by decide +kernel),
    mixesVersions_of_any rfl (by decide) rfl (by decide +kernel)⟩

end StreamQuery
