import StreamQuery.Operator.WindowJoin
import StreamQuery.Proofs.OptimisticReads

/-!
# Tuples that can be built

Every tuple of a query comes from outside, or was computed by an operator from tuples that could be
built. Whatever is done on the way, no relation is stamped twice, so the stamps of a tuple are a
function, and stamps that agree are united without loss.
-/

namespace StreamQuery

/-! ## Functional stamps -/

namespace Stamps

/-- No relation is stamped twice. -/
def IsFunctional (stamps : Stamps) : Prop :=
  (stamps.entries.map Prod.fst).Nodup

theorem isFunctional_empty : IsFunctional {} :=
  List.nodup_nil

theorem version?_eq_none_iff {stamps : Stamps} {relation : RelationId} :
    stamps.version? relation = none ↔ relation ∉ stamps.entries.map Prod.fst := by
  rw [version?, List.lookup_eq_none_iff, List.mem_map]
  constructor
  · rintro absent ⟨entry, member, rfl⟩
    simpa using absent entry member
  · exact fun absent entry member => by simpa using fun same => absent ⟨entry, member, same.symm⟩

namespace IsFunctional

variable {stamps : Stamps} {relation : RelationId} {version : Nat}

/-- The version of a relation is the one that it is stamped with. -/
theorem mem_iff (functional : stamps.IsFunctional) :
    (relation, version) ∈ stamps.entries ↔ stamps.version? relation = some version := by
  obtain ⟨entries⟩ := stamps
  simp only [IsFunctional, version?] at functional ⊢
  induction entries with
  | nil => simp
  | cons first entries induction =>
      obtain ⟨told, other⟩ := first
      obtain ⟨fresh, rest⟩ := List.nodup_cons.mp functional
      rw [List.lookup_cons, List.mem_cons, induction rest]
      by_cases same : relation = told
      · subst same
        have absent : (Stamps.mk entries).version? relation = none :=
          version?_eq_none_iff.mpr fresh
        rw [version?] at absent
        simp [absent, eq_comm]
      · simp [same, beq_eq_false_iff_ne.mpr same]

theorem set (functional : stamps.IsFunctional) (relation : RelationId) (version : Nat) :
    (stamps.set relation version).IsFunctional := by
  have keys (entries : List (RelationId × Nat)) {other : RelationId}
      (member : other ∈ (setEntry relation version entries).map Prod.fst) :
      other = relation ∨ other ∈ entries.map Prod.fst := by
    obtain ⟨entry, entry_mem, rfl⟩ := List.mem_map.mp member
    rcases mem_setEntry entry_mem with rfl | earlier
    · exact .inl rfl
    · exact .inr (List.mem_map_of_mem earlier)
  obtain ⟨entries⟩ := stamps
  simp only [IsFunctional, Stamps.set] at functional ⊢
  induction entries with
  | nil => simp [setEntry]
  | cons first entries induction =>
      obtain ⟨fresh, rest⟩ := List.nodup_cons.mp functional
      rw [setEntry]
      split
      · rename_i same
        exact List.nodup_cons.mpr ⟨same ▸ fresh, rest⟩
      · rename_i different
        refine List.nodup_cons.mpr ⟨fun member => ?_, induction rest⟩
        rcases keys entries member with same | earlier
        · exact different same
        · exact fresh earlier

theorem adopt (functional : stamps.IsFunctional) (entry : RelationId × Nat) :
    (stamps.adopt entry).IsFunctional := by
  rw [Stamps.adopt]
  split
  · exact functional
  · rename_i absent
    have fresh : entry.1 ∉ stamps.entries.map Prod.fst :=
      version?_eq_none_iff.mp (by simpa using absent)
    rw [IsFunctional, List.map_append, List.map_singleton]
    exact List.nodup_append.mpr ⟨functional, List.nodup_singleton _, fun relation member other
      is_new same => fresh (List.mem_singleton.mp is_new ▸ same ▸ member)⟩

theorem union (functional : stamps.IsFunctional) (other : Stamps) :
    (stamps.union other).IsFunctional := by
  rw [Stamps.union]
  induction other.entries generalizing stamps with
  | nil => exact functional
  | cons entry entries induction => exact induction (functional.adopt entry)

end IsFunctional

theorem isFunctional_unions (all : List Stamps) : (unions all).IsFunctional := by
  have fold (start : Stamps) (functional : start.IsFunctional) :
      (all.foldl Stamps.union start).IsFunctional := by
    induction all generalizing start with
    | nil => exact functional
    | cons first all induction => exact induction _ (functional.union first)
  exact fold {} isFunctional_empty

/-- Stamps that do not contradict each other are united without loss. -/
theorem mem_unions_iff {all : List Stamps}
    (agree : ∀ left ∈ all, ∀ right ∈ all, ∀ relation first second,
      (relation, first) ∈ left.entries → (relation, second) ∈ right.entries → first = second)
    {entry : RelationId × Nat} :
    entry ∈ (unions all).entries ↔ ∃ stamps ∈ all, entry ∈ stamps.entries := by
  refine ⟨mem_unions_entries, fun ⟨stamps, stamps_mem, stamped⟩ => ?_⟩
  obtain ⟨relation, version⟩ := entry
  obtain ⟨kept, kept_mem⟩ := covers_unions stamps_mem ⟨version, stamped⟩
  obtain ⟨other, other_mem, kept_stamped⟩ := mem_unions_entries kept_mem
  rwa [agree stamps stamps_mem other other_mem relation version kept stamped kept_stamped]

end Stamps

/-! ## Tuples -/

/-- The tuples that can be built: those from outside, with or without stamps, and what operators
compute from such tuples. -/
inductive Tuple.IsBuilt : Tuple → Prop
  /-- Data that arrives. -/
  | arrived {schema : Schema} {values : List Value} {time : Int} {tuple : Tuple} :
      Tuple.arriving schema values time = .ok tuple → IsBuilt tuple
  /-- The end of a stream. -/
  | ended (schema : Schema) (time : Int) : IsBuilt (.endOfStream schema time)
  /-- A version that is recorded. -/
  | stamped {tuple : Tuple} (relation : RelationId) (version : Nat) :
      IsBuilt tuple → IsBuilt (tuple.stamped relation version)
  | projected {indices : List Nat} {schema : Schema} {tuple result : Tuple} :
      IsBuilt tuple → projectTuple indices schema tuple = .ok result → IsBuilt result
  /-- A tuple that met a row of a relation. -/
  | matched {tuple : Tuple} (schema : Schema) (relation : RelationId) (version : Nat) (row : Tuple)
      (position : Nat) :
      IsBuilt tuple → IsBuilt (matchTuple schema relation version tuple row position)
  | paired {left right : Tuple} (schema : Schema) (lowWater : Int) :
      IsBuilt left → IsBuilt right → IsBuilt (WindowJoin.pair schema lowWater left right)
  /-- The result of a window. -/
  | aggregated {function : AggregateFunction} {schema : Schema} {contents : Contents}
      {result : Tuple} :
      (∀ tuple ∈ contents.tuples, IsBuilt tuple) →
      function.apply schema contents = .ok result → IsBuilt result

namespace Tuple.IsBuilt

/-- A tuple carries one stamp for each relation at most. -/
theorem isFunctional {tuple : Tuple} (built : tuple.IsBuilt) : tuple.stamps.IsFunctional := by
  induction built with
  | arrived arriving =>
      obtain ⟨_, _, arriving⟩ := bind_eq_ok.mp arriving
      obtain rfl := pure_eq_ok.mp arriving
      exact Stamps.isFunctional_empty
  | ended schema time => exact Stamps.isFunctional_empty
  | stamped relation version _ induction => exact induction.set relation version
  | projected _ projected induction =>
      obtain ⟨_, stamps_eq, _⟩ := projectTuple_eq_ok projected
      exact stamps_eq ▸ induction
  | matched schema relation version row position _ induction => exact induction.set relation version
  | paired schema lowWater _ _ left_induction right_induction => exact left_induction.union _
  | aggregated _ computed _ =>
      obtain ⟨_, stamps_eq, _⟩ := AggregateFunction.apply_eq_ok computed
      exact stamps_eq ▸ Stamps.isFunctional_unions _

theorem ofInts {schema : Schema} {values : List Int64}
    (fits : schema.check (values.map Value.int) = .ok ()) (time : Int) :
    (Tuple.ofInts schema values time).IsBuilt := by
  have arrives : Tuple.arriving schema (values.map .int) time =
      .ok (Tuple.ofInts schema values time) := by
    rw [arriving, fits]
    rfl
  exact .arrived arrives

end Tuple.IsBuilt

/-- The invariant that tuples can be built. -/
def buildingFlow : FlowInvariant where
  holds _ tuple := tuple.IsBuilt
  keeps _ := True

theorem buildingFlow_isClosed : buildingFlow.IsClosed Tuple.IsBuilt where
  fresh _ _ built := built
  yields before after role operator tuple _ yields := by
    cases yields with
    | arrived built => exact built
    | passed built _ => exact built
    | projected built projected => exact .projected built projected
    | matched built _ _ => exact .matched _ _ _ _ _ built
    | aggregated built _ computed => exact .aggregated built computed
    | paired left_built right_built => exact .paired _ _ left_built right_built
    | ended _ built _ => exact built
  keeps _ := trivial

/-! ## Windows -/

namespace Contents

/-- Any two tuples that are stamped with the same relation carry the same version of it. -/
def VersionsAgree (contents : Contents) : Prop :=
  ∀ left ∈ contents.tuples, ∀ right ∈ contents.tuples, ∀ relation first second,
    left.stamps.version? relation = some first → right.stamps.version? relation = some second →
      first = second

variable {contents : Contents}

theorem mem_stampEntries {entry : RelationId × Nat} :
    entry ∈ contents.stampEntries ↔ ∃ tuple ∈ contents.tuples, entry ∈ tuple.stamps.entries :=
  List.mem_flatMap

/-- The check that scans all stamps tells whether the tuples agree in pairs. -/
theorem isConsistent_iff_versionsAgree (built : ∀ tuple ∈ contents.tuples, tuple.IsBuilt) :
    contents.isConsistent = true ↔ contents.VersionsAgree := by
  constructor
  · intro consistent left left_mem right right_mem relation first second left_told right_told
    have left_stamped := (built left left_mem).isFunctional.mem_iff.mpr left_told
    have right_stamped := (built right right_mem).isFunctional.mem_iff.mpr right_told
    exact version_eq_of_isConsistent consistent
      (mem_stampEntries.mpr ⟨left, left_mem, left_stamped⟩)
      (mem_stampEntries.mpr ⟨right, right_mem, right_stamped⟩)
  · intro agree
    refine isConsistent_of_versions (fun relation => contents.stampEntries.lookup relation)
      fun entry member => ?_
    obtain ⟨tuple, tuple_mem, stamped⟩ := mem_stampEntries.mp member
    obtain ⟨version, found⟩ : ∃ version,
        contents.stampEntries.lookup entry.1 = some version := by
      refine Option.ne_none_iff_exists'.mp fun absent => ?_
      simpa using List.lookup_eq_none_iff.mp absent entry member
    obtain ⟨earlier, later, split, _⟩ := List.lookup_eq_some_iff.mp found
    obtain ⟨other, other_mem, other_stamped⟩ := mem_stampEntries.mp
      (show (entry.1, version) ∈ contents.stampEntries by simp [split])
    rw [found, agree other other_mem tuple tuple_mem entry.1 version entry.2
      ((built other other_mem).isFunctional.mem_iff.mp other_stamped)
      ((built tuple tuple_mem).isFunctional.mem_iff.mp stamped)]

end Contents

end StreamQuery
