import Mathlib.Data.List.Pairwise
import StreamQuery.Proofs.Confluence
import StreamQuery.Proofs.Tuple.Data

/-!
# Lanes

A lane is the way of the tuples of one stream to a window join, with what has become of them since
the join started over. Whatever is on the way bears the time of a tuple that the stream has passed
on, and times increase.
-/

namespace StreamQuery

/-- Where the tuples of a stream are. -/
structure Lane where
  /-- The tuples that the stream has not passed on. -/
  arriving : List Tuple := []
  /-- All tuples that it has passed on. -/
  passed : List Tuple := []
  /-- Those of them that can be delivered again. -/
  backup : List Tuple := []
  /-- The tuples that wait on the way to the join. -/
  waiting : List Tuple := []
  /-- The beginning of the next window of the join. -/
  fresh : List Tuple := []
  /-- The tuples of the windows that were completed since the join started over. -/
  closed : List Tuple := []

/-- Tuples that arrived from outside, each later than the one before. -/
structure IsTimed (tuples : List Tuple) : Prop where
  increasing : (tuples.map Tuple.lowWater).Pairwise (· < ·)
  told : ∀ tuple ∈ tuples, tuple.lineage.arrivals = [tuple.lowWater]

theorem IsTimed.sublist {tuples part : List Tuple} (timed : IsTimed tuples)
    (is_part : part.Sublist tuples) : IsTimed part where
  increasing := timed.increasing.sublist (is_part.map _)
  told tuple member := timed.told tuple (is_part.subset member)

namespace Lane

/-- What has been on the way to the join since it started over. -/
def line (lane : Lane) : List Tuple :=
  lane.closed ++ lane.fresh ++ lane.waiting

/-- The lane after a commit, which drops what comes before a mark. -/
def evict (lane : Lane) (mark : Int) : Lane :=
  { lane with backup := lane.backup.filter fun tuple => mark ≤ tuple.lowWater }

/-- The lane when the join starts over, and the backup is delivered again. -/
def rewind (lane : Lane) : Lane :=
  { lane with waiting := lane.backup, fresh := [], closed := [] }

/-- A lane whose tuples are in order. -/
structure IsOrdered (lane : Lane) : Prop where
  /-- The stream is in order. -/
  timed : IsTimed (lane.passed ++ lane.arriving)
  /-- The backup holds tuples of the stream. -/
  backup : lane.backup.Sublist lane.passed
  /-- What is on the way stems from the stream. -/
  line : (lane.line.map Tuple.lowWater).Sublist (lane.passed.map Tuple.lowWater)
  /-- It tells when it arrived. -/
  told : ∀ tuple ∈ lane.line, tuple.lineage.arrivals = [tuple.lowWater]

/-- Nothing from before a mark can be delivered again. -/
structure IsCleared (lane : Lane) (mark : Int) : Prop where
  backup : ∀ tuple ∈ lane.backup, mark ≤ tuple.lowWater
  /-- The mark lies within what has been passed on. -/
  reached : ∃ tuple ∈ lane.passed, mark ≤ tuple.lowWater + 1

/-- Nothing from before a mark has been on the way since the join started over. -/
def IsPast (lane : Lane) (mark : Int) : Prop :=
  ∀ tuple ∈ lane.line, mark ≤ tuple.lowWater

/-- What a lane keeps when tuples move on. -/
structure Leads (before after : Lane) : Prop where
  ordered : after.IsOrdered
  cleared : ∀ mark, before.IsCleared mark → after.IsCleared mark
  past : ∀ mark, before.IsCleared mark → before.IsPast mark → after.IsPast mark
  closed : before.closed ⊆ after.closed
  /-- The stream is the same. -/
  stream : after.passed ++ after.arriving = before.passed ++ before.arriving

variable {lane before after : Lane} {mark : Int} {tuple : Tuple} {rest : List Tuple}

theorem Leads.refl (ordered : lane.IsOrdered) : lane.Leads lane where
  ordered := ordered
  cleared _ cleared := cleared
  past _ _ past := past
  closed := List.Subset.refl _
  stream := rfl

namespace IsOrdered

theorem passed_increasing (ordered : lane.IsOrdered) :
    (lane.passed.map Tuple.lowWater).Pairwise (· < ·) := by
  have increasing := ordered.timed.increasing
  rw [List.map_append] at increasing
  exact (List.pairwise_append.mp increasing).1

/-- What is on the way is in order. -/
theorem line_increasing (ordered : lane.IsOrdered) :
    (lane.line.map Tuple.lowWater).Pairwise (· < ·) :=
  ordered.passed_increasing.sublist ordered.line

/-- What is on the way has been passed on. -/
theorem exists_passed (ordered : lane.IsOrdered) (member : tuple ∈ lane.line) :
    ∃ input ∈ lane.passed, input.lowWater = tuple.lowWater :=
  List.mem_map.mp (ordered.line.subset (List.mem_map_of_mem member))

/-- What arrives has not been passed on. -/
theorem arrive (ordered : lane.IsOrdered) {arriving : List Tuple}
    (timed : IsTimed (lane.passed ++ arriving)) : ({ lane with arriving } : Lane).IsOrdered :=
  ⟨timed, ordered.backup, ordered.line, ordered.told⟩

/-- The stream passes a tuple on. -/
theorem pass (ordered : lane.IsOrdered) (arriving_eq : lane.arriving = tuple :: rest) :
    lane.Leads
      { lane with
        arriving := rest
        passed := lane.passed ++ [tuple]
        backup := lane.backup ++ [tuple]
        waiting := lane.waiting ++ [tuple] } := by
  have timed := ordered.timed
  rw [arriving_eq] at timed
  have earlier (input : Tuple) (member : input ∈ lane.passed) :
      input.lowWater < tuple.lowWater := by
    have increasing := timed.increasing
    rw [List.map_append] at increasing
    exact (List.pairwise_append.mp increasing).2.2 _ (List.mem_map_of_mem member) _
      List.mem_cons_self
  have beyond {mark : Int} (cleared : lane.IsCleared mark) : mark ≤ tuple.lowWater := by
    obtain ⟨input, member, reached⟩ := cleared.reached
    have before := earlier input member
    omega
  have line_eq : Lane.line
      { lane with
        arriving := rest
        passed := lane.passed ++ [tuple]
        backup := lane.backup ++ [tuple]
        waiting := lane.waiting ++ [tuple] } = lane.line ++ [tuple] := by
    simp [Lane.line]
  refine ⟨⟨by simpa using timed, ordered.backup.append (.refl _), ?_, ?_⟩, fun mark cleared => ?_,
    fun mark cleared past => ?_, List.Subset.refl _, by simp [arriving_eq]⟩
  · rw [line_eq, List.map_append, List.map_append]
    exact ordered.line.append (.refl _)
  · rw [line_eq, List.forall_mem_append]
    exact ⟨ordered.told, fun other member =>
      timed.told other (List.mem_append_right _ (List.mem_cons.mpr
        (.inl (List.mem_singleton.mp member))))⟩
  · refine ⟨List.forall_mem_append.mpr ⟨cleared.backup, by simpa using beyond cleared⟩, ?_⟩
    obtain ⟨input, member, reached⟩ := cleared.reached
    exact ⟨input, List.mem_append_left _ member, reached⟩
  · rw [IsPast, line_eq, List.forall_mem_append]
    exact ⟨past, by simpa using beyond cleared⟩

/-- On the way to the join, tuples can be lost or change, as long as they keep their times. -/
theorem leads_of_line (ordered : lane.IsOrdered) {after : Lane}
    (arriving_eq : after.arriving = lane.arriving) (passed_eq : after.passed = lane.passed)
    (backup_eq : after.backup = lane.backup)
    (times : (after.line.map Tuple.lowWater).Sublist (lane.line.map Tuple.lowWater))
    (told : ∀ tuple ∈ after.line, tuple.lineage.arrivals = [tuple.lowWater])
    (closed : lane.closed ⊆ after.closed) : lane.Leads after where
  ordered :=
    { timed := by rw [passed_eq, arriving_eq]; exact ordered.timed
      backup := by rw [passed_eq, backup_eq]; exact ordered.backup
      line := by rw [passed_eq]; exact times.trans ordered.line
      told := told }
  cleared mark cleared :=
    { backup := by rw [backup_eq]; exact cleared.backup
      reached := by rw [passed_eq]; exact cleared.reached }
  past mark _ past tuple member := by
    obtain ⟨other, other_mem, same⟩ :=
      List.mem_map.mp (times.subset (List.mem_map_of_mem member))
    exact same ▸ past other other_mem
  closed := closed
  stream := by rw [passed_eq, arriving_eq]

/-- A waiting tuple gives way to at most one tuple of the same time. -/
theorem replace (ordered : lane.IsOrdered) {front sent : List Tuple}
    (waiting_eq : lane.waiting = front ++ tuple :: rest)
    (times : (sent.map Tuple.lowWater).Sublist [tuple.lowWater])
    (told : ∀ result ∈ sent, result.lineage.arrivals = tuple.lineage.arrivals) :
    lane.Leads { lane with waiting := front ++ sent ++ rest } := by
  have line_eq : lane.line = lane.closed ++ lane.fresh ++ front ++ [tuple] ++ rest := by
    simp [Lane.line, waiting_eq]
  have after_eq : Lane.line { lane with waiting := front ++ sent ++ rest } =
      lane.closed ++ lane.fresh ++ front ++ sent ++ rest := by
    simp [Lane.line]
  have was_told := ordered.told
  rw [line_eq] at was_told
  refine ordered.leads_of_line rfl rfl rfl ?_ ?_ (List.Subset.refl _)
  · rw [line_eq, after_eq]
    simp only [List.map_append, List.map_cons, List.map_nil]
    exact ((List.Sublist.refl _).append times).append (.refl _)
  · rw [after_eq]
    simp only [List.forall_mem_append, List.forall_mem_singleton] at was_told ⊢
    refine ⟨⟨was_told.1.1, fun result member => ?_⟩, was_told.2⟩
    have same_time : result.lowWater = tuple.lowWater :=
      List.mem_singleton.mp (times.subset (List.mem_map_of_mem member))
    rw [told result member, was_told.1.2, same_time]

/-- A marker is taken from those that wait, and goes into no window. -/
theorem skip (ordered : lane.IsOrdered) (waiting_eq : lane.waiting = tuple :: rest) :
    lane.Leads { lane with waiting := rest } := by
  have part : (Lane.line { lane with waiting := rest }).Sublist lane.line := by
    rw [Lane.line, Lane.line, waiting_eq]
    exact (List.Sublist.refl _).append (List.sublist_cons_self _ _)
  exact ordered.leads_of_line rfl rfl rfl (part.map _)
    (fun other member => ordered.told other (part.subset member)) (List.Subset.refl _)

/-- A tuple is taken from those that wait, and belongs to the beginning of the next window. -/
theorem gather (ordered : lane.IsOrdered) (waiting_eq : lane.waiting = tuple :: rest) :
    lane.Leads { lane with waiting := rest, fresh := lane.fresh ++ [tuple] } := by
  have line_eq : Lane.line { lane with waiting := rest, fresh := lane.fresh ++ [tuple] } =
      lane.line := by
    simp [Lane.line, waiting_eq]
  exact ordered.leads_of_line rfl rfl rfl (by rw [line_eq]) (by rw [line_eq]; exact ordered.told)
    (List.Subset.refl _)

/-- A tuple is taken from those that wait, and completes a window. -/
theorem close (ordered : lane.IsOrdered) (waiting_eq : lane.waiting = tuple :: rest) :
    lane.Leads
      { lane with
        waiting := rest
        fresh := []
        closed := lane.closed ++ (lane.fresh ++ [tuple]) } := by
  have line_eq : Lane.line
      { lane with
        waiting := rest
        fresh := []
        closed := lane.closed ++ (lane.fresh ++ [tuple]) } = lane.line := by
    simp [Lane.line, waiting_eq]
  exact ordered.leads_of_line rfl rfl rfl (by rw [line_eq]) (by rw [line_eq]; exact ordered.told)
    (List.subset_append_left _ _)

theorem evict (ordered : lane.IsOrdered) (mark : Int) : lane.Leads (lane.evict mark) where
  ordered :=
    { timed := ordered.timed
      backup := List.filter_sublist.trans ordered.backup
      line := ordered.line
      told := ordered.told }
  cleared _ cleared :=
    { backup := fun tuple member => cleared.backup tuple (List.mem_of_mem_filter member)
      reached := cleared.reached }
  past _ _ past := past
  closed := List.Subset.refl _
  stream := rfl

theorem rewind (ordered : lane.IsOrdered) : lane.rewind.IsOrdered where
  timed := ordered.timed
  backup := ordered.backup
  line := ordered.backup.map _
  told tuple member :=
    ordered.timed.told tuple (List.mem_append_left _ (ordered.backup.subset member))

end IsOrdered

/-- After a commit nothing from before its mark can be delivered again. -/
theorem isCleared_evict (reached : ∃ tuple ∈ lane.passed, mark ≤ tuple.lowWater + 1) :
    (lane.evict mark).IsCleared mark where
  backup _ member := of_decide_eq_true (List.mem_filter.mp member).2
  reached := reached

/-- Where nothing from before a mark can be delivered again, nothing is. -/
theorem IsCleared.rewind (cleared : lane.IsCleared mark) :
    lane.rewind.IsCleared mark ∧ lane.rewind.IsPast mark :=
  ⟨⟨cleared.backup, cleared.reached⟩, cleared.backup⟩

end Lane

end StreamQuery
