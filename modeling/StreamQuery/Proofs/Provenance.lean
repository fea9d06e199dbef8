import StreamQuery.Engine.Action
import StreamQuery.Proofs.Operator.Yields
import StreamQuery.Proofs.Plan.CommitOperator
import StreamQuery.Proofs.Relation.Catalog
import StreamQuery.Proofs.Tuple.Stamps

/-!
# Provenance of tuples

A tuple has observed certain versions if its lineage holds no read of another version, and no stamp
says otherwise. Operators hand this on: what they compute has observed the versions that its parts
have observed, and the version that is read on the way.
-/

namespace StreamQuery

/-! ## Results of windows -/

namespace Lineage

theorem mem_reads_window {members : List Lineage} {read : RelationId × Nat} :
    read ∈ (window members).reads ↔ ∃ member ∈ members, read ∈ member.reads := by
  rw [reads, readsOfAll_eq_flatMap, List.mem_flatMap]

end Lineage

theorem AggregateFunction.apply_eq_ok {function : AggregateFunction} {schema : Schema}
    {contents : Contents} {result : Tuple}
    (computed : function.apply schema contents = .ok result) :
    result.kind = .data ∧ result.stamps = .unions (contents.tuples.map Tuple.stamps) ∧
      result.lineage = .window (contents.tuples.map Tuple.lineage) := by
  obtain ⟨values, _, computed⟩ := bind_eq_ok.mp computed
  obtain rfl := pure_eq_ok.mp computed
  exact ⟨rfl, rfl, rfl⟩

theorem projectTuple_eq_ok {indices : List Nat} {schema : Schema} {tuple result : Tuple}
    (projected : projectTuple indices schema tuple = .ok result) :
    result.kind = .data ∧ result.stamps = tuple.stamps ∧ result.lineage = tuple.lineage := by
  obtain ⟨values, _, projected⟩ := bind_eq_ok.mp projected
  obtain rfl := pure_eq_ok.mp projected
  exact ⟨rfl, rfl, rfl⟩

/-! ## Observed versions -/

namespace Tuple

/-- A tuple that has read every relation at one version at most. -/
structure Observed (versions : RelationId → Option Nat) (tuple : Tuple) : Prop where
  /-- The reads in its lineage saw these versions. -/
  reads : ∀ read ∈ tuple.lineage.reads, versions read.1 = some read.2
  /-- Its stamps tell these versions. -/
  stamps : ∀ entry ∈ tuple.stamps.entries, versions entry.1 = some entry.2

/-- A tuple that has not read anything. -/
structure IsFresh (tuple : Tuple) : Prop where
  /-- It bears no stamps. -/
  stamps_eq : tuple.stamps = {}
  /-- It came from outside. -/
  lineage_eq : ∃ time, tuple.lineage = .arrival time

namespace Observed

variable {versions : RelationId → Option Nat} {tuple : Tuple} {schema : Schema}

theorem mono (observed : tuple.Observed versions) {versions' : RelationId → Option Nat}
    (extended : ∀ relation version, versions relation = some version →
      versions' relation = some version) : tuple.Observed versions' where
  reads read member := extended _ _ (observed.reads read member)
  stamps entry member := extended _ _ (observed.stamps entry member)

theorem matchTuple (observed : tuple.Observed versions) {relation : RelationId} {version : Nat}
    (version_eq : versions relation = some version) (row : Tuple) (position : Nat) :
    (matchTuple schema relation version tuple row position).Observed versions := by
  constructor
  · intro read member
    rcases List.mem_cons.mp member with rfl | earlier
    · exact version_eq
    · exact observed.reads read earlier
  · intro entry member
    rcases Stamps.mem_set_entries member with rfl | earlier
    · exact version_eq
    · exact observed.stamps entry earlier

theorem apply {function : AggregateFunction} {contents : Contents} {result : Tuple}
    (observed : ∀ tuple ∈ contents.tuples, tuple.Observed versions)
    (computed : function.apply schema contents = .ok result) : result.Observed versions := by
  obtain ⟨_, stamps_eq, lineage_eq⟩ := AggregateFunction.apply_eq_ok computed
  constructor
  · intro read member
    rw [lineage_eq, Lineage.mem_reads_window] at member
    obtain ⟨_, lineage_mem, read_mem⟩ := member
    obtain ⟨tuple, tuple_mem, rfl⟩ := List.mem_map.mp lineage_mem
    exact (observed tuple tuple_mem).reads read read_mem
  · intro entry member
    rw [stamps_eq] at member
    obtain ⟨_, stamps_mem, entry_mem⟩ := Stamps.mem_unions_entries member
    obtain ⟨tuple, tuple_mem, rfl⟩ := List.mem_map.mp stamps_mem
    exact (observed tuple tuple_mem).stamps entry entry_mem

theorem pair {left right : Tuple} (left_observed : left.Observed versions)
    (right_observed : right.Observed versions) (lowWater : Int) :
    (WindowJoin.pair schema lowWater left right).Observed versions := by
  constructor
  · intro read member
    rcases List.mem_append.mp member with in_left | in_right
    · exact left_observed.reads read in_left
    · exact right_observed.reads read in_right
  · intro entry member
    rcases Stamps.mem_union_entries member with in_left | in_right
    · exact left_observed.stamps entry in_left
    · exact right_observed.stamps entry in_right

end Observed

theorem IsFresh.observed {tuple : Tuple} (fresh : tuple.IsFresh)
    (versions : RelationId → Option Nat) : tuple.Observed versions := by
  obtain ⟨time, lineage_eq⟩ := fresh.lineage_eq
  exact ⟨by simp [lineage_eq, Lineage.reads], by simp [fresh.stamps_eq]⟩

theorem isFresh_iff (tuple : Tuple) : tuple.IsFresh ↔
    tuple.stamps = {} ∧ (match tuple.lineage with | .arrival _ => true | _ => false) = true := by
  refine ⟨fun fresh => ?_, fun ⟨stamps_eq, from_outside⟩ => ⟨stamps_eq, ?_⟩⟩
  · obtain ⟨time, lineage_eq⟩ := fresh.lineage_eq
    exact ⟨fresh.stamps_eq, by rw [lineage_eq]⟩
  · split at from_outside
    · rename_i time lineage_eq
      exact ⟨time, lineage_eq⟩
    · cases from_outside

instance (tuple : Tuple) : Decidable tuple.IsFresh :=
  decidable_of_iff' _ tuple.isFresh_iff

end Tuple

/-- Actions from outside bring only tuples that have not read anything. -/
def Action.IsFresh : Action → Prop
  | .arrive _ tuple => tuple.IsFresh
  | _ => True

instance : DecidablePred Action.IsFresh
  | .arrive _ tuple => inferInstanceAs (Decidable tuple.IsFresh)
  | .load _ _ | .update _ _ | .collect _ | .setBatchCount _ | .wakeUp =>
    inferInstanceAs (Decidable True)

variable {before after : Catalog} {role : CommitRole}

/-- The versions that the results of an operator may have observed: those of the relations that
are read below it. -/
def QueryTree.view (operator : QueryTree) (versions : RelationId → Option Nat) :
    RelationId → Option Nat :=
  if 0 < operator.reads then versions else fun _ => none

theorem QueryTree.view_of_reads {operator : QueryTree} {versions : RelationId → Option Nat}
    (reads : 0 < operator.reads) : operator.view versions = versions :=
  if_pos reads

theorem QueryTree.view_mono {input operator : QueryTree} (reads_le : input.reads ≤ operator.reads)
    {versions : RelationId → Option Nat} {relation : RelationId} {version : Nat}
    (seen : input.view versions relation = some version) :
    operator.view versions relation = some version := by
  rw [view] at *
  split at seen
  · rw [if_pos (by omega)]
    exact seen
  · cases seen

/-- What an operator computes has observed what its parts have observed. -/
theorem Yields.observed {versions : RelationId → Option Nat} {holds : QueryTree → Tuple → Prop}
    {operator : QueryTree} {result : Tuple}
    (yields : Yields before after role holds operator result)
    (arrivals : ∀ header tuple, operator = .source header → holds (.source header) tuple →
      tuple.Observed ((QueryTree.source header).view versions))
    (inputs : ∀ input ∈ operator.inputs, ∀ tuple, holds input tuple →
      tuple.Observed (input.view versions))
    (shown : ∀ place relation snapshot, before.relations[place]? = some relation →
      before.readRelation place relation = (snapshot, after) →
      versions relation.id = some snapshot.version) :
    result.Observed (operator.view versions) := by
  have given {input : QueryTree} {tuple : Tuple} (is_input : input ∈ operator.inputs)
      (holds_tuple : holds input tuple) : tuple.Observed (operator.view versions) :=
    (inputs input is_input tuple holds_tuple).mono fun _ _ =>
      QueryTree.view_mono (QueryTree.reads_input_le is_input)
  cases yields with
  | arrived holds_tuple => exact arrivals _ _ rfl holds_tuple
  | passed holds_tuple _ => exact given (by simp [QueryTree.inputs]) holds_tuple
  | projected holds_tuple projected =>
      obtain ⟨_, stamps_eq, lineage_eq⟩ := projectTuple_eq_ok projected
      have observed := given (by simp [QueryTree.inputs]) holds_tuple
      exact ⟨lineage_eq ▸ observed.reads, stamps_eq ▸ observed.stamps⟩
  | @matched header reference condition input tuple row relation snapshot position holds_tuple found
      read =>
      have observed := given (by simp [QueryTree.inputs]) holds_tuple
      have reads_here :
          0 < (QueryTree.single header (.combine reference condition) input).reads := by
        simp [QueryTree.reads, SingleLogic.readsRelation, SingleLogic.relation?]
      rw [QueryTree.view_of_reads reads_here] at observed ⊢
      exact observed.matchTuple (shown _ _ _ found read) row position
  | aggregated holds_all _ computed =>
      exact .apply (fun tuple member => given (by simp [QueryTree.inputs]) (holds_all tuple member))
        computed
  | paired left_holds right_holds =>
      exact (given (by simp [QueryTree.inputs]) left_holds).pair
        (given (by simp [QueryTree.inputs]) right_holds) _
  | ended is_input holds_tuple _ =>
      exact given (by simpa [QueryTree.inputs] using is_input) holds_tuple

end StreamQuery
