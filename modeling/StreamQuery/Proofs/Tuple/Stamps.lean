import StreamQuery.Tuple.Stamps

/-!
# Entries of version stamps

Recording a version and uniting stamps bring in no entry from elsewhere, and no relation loses its
entry.
-/

namespace StreamQuery

namespace Stamps

theorem mem_setEntry {relation : RelationId} {version : Nat} {entries : List (RelationId × Nat)}
    {entry : RelationId × Nat} (member : entry ∈ setEntry relation version entries) :
    entry = (relation, version) ∨ entry ∈ entries := by
  induction entries with
  | nil => exact .inl (List.mem_singleton.mp member)
  | cons first entries induction =>
      rw [setEntry] at member
      split at member
      · rcases List.mem_cons.mp member with is_new | later
        · exact .inl is_new
        · exact .inr (List.mem_cons_of_mem first later)
      · rcases List.mem_cons.mp member with rfl | later
        · exact .inr List.mem_cons_self
        · exact (induction later).imp_right (List.mem_cons_of_mem first)

theorem mem_set_entries {stamps : Stamps} {relation : RelationId} {version : Nat}
    {entry : RelationId × Nat} (member : entry ∈ (stamps.set relation version).entries) :
    entry = (relation, version) ∨ entry ∈ stamps.entries :=
  mem_setEntry member

theorem mem_adopt_entries {stamps : Stamps} {adopted entry : RelationId × Nat}
    (member : entry ∈ (stamps.adopt adopted).entries) :
    entry ∈ stamps.entries ∨ entry = adopted := by
  rw [adopt] at member
  split at member
  · exact .inl member
  · simpa using member

theorem mem_union_entries {left right : Stamps} {entry : RelationId × Nat}
    (member : entry ∈ (left.union right).entries) :
    entry ∈ left.entries ∨ entry ∈ right.entries := by
  have fold (entries : List (RelationId × Nat)) :
      ∀ stamps : Stamps, entry ∈ (entries.foldl adopt stamps).entries →
        entry ∈ stamps.entries ∨ entry ∈ entries := by
    induction entries with
    | nil => exact fun stamps member => .inl member
    | cons first entries induction =>
        intro stamps member
        rcases induction _ member with old | later
        · rcases mem_adopt_entries old with older | rfl
          · exact .inl older
          · exact .inr List.mem_cons_self
        · exact .inr (List.mem_cons_of_mem first later)
  exact fold right.entries left member

theorem mem_unions_entries {all : List Stamps} {entry : RelationId × Nat}
    (member : entry ∈ (unions all).entries) : ∃ stamps ∈ all, entry ∈ stamps.entries := by
  have fold (all : List Stamps) : ∀ start : Stamps, entry ∈ (all.foldl union start).entries →
      entry ∈ start.entries ∨ ∃ stamps ∈ all, entry ∈ stamps.entries := by
    induction all with
    | nil => exact fun start member => .inl member
    | cons first all induction =>
        intro start member
        rcases induction _ member with old | ⟨stamps, stamps_mem, later⟩
        · rcases mem_union_entries old with older | added
          · exact .inl older
          · exact .inr ⟨first, List.mem_cons_self, added⟩
        · exact .inr ⟨stamps, List.mem_cons_of_mem first stamps_mem, later⟩
  rcases fold all {} member with none | found
  · cases none
  · exact found

/-- Whether stamps tell a version of a relation. -/
def Covers (stamps : Stamps) (relation : RelationId) : Prop :=
  ∃ version, (relation, version) ∈ stamps.entries

theorem covers_set_self (stamps : Stamps) (relation : RelationId) (version : Nat) :
    (stamps.set relation version).Covers relation := by
  refine ⟨version, ?_⟩
  rw [set]
  induction stamps.entries with
  | nil => exact List.mem_singleton.mpr rfl
  | cons first entries induction =>
      rw [setEntry]
      split
      · exact List.mem_cons_self
      · exact List.mem_cons_of_mem first induction

theorem mem_setEntry_of_ne {relation other : RelationId} (different : relation ≠ other)
    {kept version : Nat} {entries : List (RelationId × Nat)} (member : (relation, kept) ∈ entries) :
    (relation, kept) ∈ setEntry other version entries := by
  induction entries with
  | nil => cases member
  | cons first entries induction =>
      rw [setEntry]
      rcases List.mem_cons.mp member with rfl | later
      · rw [if_neg different]
        exact List.mem_cons_self
      · split
        · exact List.mem_cons_of_mem _ later
        · exact List.mem_cons_of_mem _ (induction later)

theorem Covers.set {stamps : Stamps} {relation : RelationId} (covers : stamps.Covers relation)
    (other : RelationId) (version : Nat) : (stamps.set other version).Covers relation := by
  by_cases same : relation = other
  · exact same ▸ stamps.covers_set_self relation version
  · obtain ⟨kept, member⟩ := covers
    exact ⟨kept, mem_setEntry_of_ne same member⟩

theorem Covers.adopt {stamps : Stamps} {relation : RelationId} (covers : stamps.Covers relation)
    (entry : RelationId × Nat) : (stamps.adopt entry).Covers relation := by
  rw [Stamps.adopt]
  split
  · exact covers
  · obtain ⟨version, member⟩ := covers
    exact ⟨version, List.mem_append_left _ member⟩

theorem covers_adopt_self (stamps : Stamps) (entry : RelationId × Nat) :
    (stamps.adopt entry).Covers entry.1 := by
  rw [Stamps.adopt]
  split
  · rename_i present
    obtain ⟨found, found_mem, same⟩ := List.lookup_isSome_iff.mp present
    have relation_eq : entry.1 = found.1 := by simpa using same
    exact ⟨found.2, relation_eq ▸ found_mem⟩
  · exact ⟨entry.2, List.mem_append_right _ (List.mem_singleton.mpr rfl)⟩

/-- United stamps cover what either side covers. -/
theorem covers_union {left right : Stamps} {relation : RelationId}
    (covers : left.Covers relation ∨ right.Covers relation) :
    (left.union right).Covers relation := by
  have fold (entries : List (RelationId × Nat)) : ∀ stamps : Stamps,
      stamps.Covers relation ∨ (∃ version, (relation, version) ∈ entries) →
        (entries.foldl Stamps.adopt stamps).Covers relation := by
    induction entries with
    | nil =>
        rintro stamps (covers | ⟨version, member⟩)
        · exact covers
        · cases member
    | cons first entries induction =>
        rintro stamps (covers | ⟨version, member⟩)
        · exact induction _ (.inl (covers.adopt first))
        · rcases List.mem_cons.mp member with rfl | later
          · exact induction _ (.inl (stamps.covers_adopt_self _))
          · exact induction _ (.inr ⟨version, later⟩)
  exact fold right.entries left covers

theorem covers_unions {all : List Stamps} {stamps : Stamps} {relation : RelationId}
    (member : stamps ∈ all) (covers : stamps.Covers relation) :
    (unions all).Covers relation := by
  have fold (all : List Stamps) : ∀ start : Stamps,
      start.Covers relation ∨ stamps ∈ all → (all.foldl union start).Covers relation := by
    induction all with
    | nil => exact fun start either => either.resolve_right (by simp)
    | cons first all induction =>
        rintro start (covered | member)
        · exact induction _ (.inl (covers_union (.inl covered)))
        · rcases List.mem_cons.mp member with rfl | later
          · exact induction _ (.inl (covers_union (.inr covers)))
          · exact induction _ (.inr later)
  exact fold all {} (.inr member)

end Stamps

end StreamQuery
