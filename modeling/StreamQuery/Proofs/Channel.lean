import StreamQuery.Channel

/-!
# Tuples in channels

What each operation on a channel does to the waiting tuples and to the backup. No operation but
`Channel.enqueue` brings a tuple into a channel.
-/

namespace StreamQuery

namespace Channel

@[simp] theorem enqueueAll_queue (channel : Channel) (tuples : List Tuple) :
    (channel.enqueueAll tuples).queue = channel.queue ++ tuples := by
  induction tuples generalizing channel with
  | nil => simp [enqueueAll]
  | cons tuple tuples induction =>
      have step := induction (channel.enqueue tuple)
      simpa [enqueueAll, enqueue] using step

@[simp] theorem enqueueAll_isProtected (channel : Channel) (tuples : List Tuple) :
    (channel.enqueueAll tuples).isProtected = channel.isProtected := by
  induction tuples generalizing channel with
  | nil => rfl
  | cons tuple tuples induction => exact induction (channel.enqueue tuple)

theorem enqueueAll_backup (channel : Channel) (tuples : List Tuple) :
    (channel.enqueueAll tuples).backup =
      if channel.isProtected then channel.backup ++ tuples else channel.backup := by
  induction tuples generalizing channel with
  | nil => simp [enqueueAll]
  | cons tuple tuples induction =>
      have step := induction (channel.enqueue tuple)
      by_cases guarded : channel.isProtected = true <;>
        simpa [enqueueAll, enqueue, guarded] using step

theorem dequeue?_eq_some {channel rest : Channel} {tuple : Tuple}
    (taken : channel.dequeue? = some (tuple, rest)) :
    channel.queue = tuple :: rest.queue ∧ rest = { channel with queue := rest.queue } := by
  rw [dequeue?] at taken
  split at taken
  · cases taken
  · rename_i head queue split
    cases taken
    exact ⟨split, rfl⟩

theorem dequeue?_eq_none {channel : Channel} (empty : channel.dequeue? = none) :
    channel.queue = [] := by
  rw [dequeue?] at empty
  split at empty
  · assumption
  · cases empty

/-- A channel that holds no tuple that another one does not hold, waiting or in the backup. -/
structure Shrinks (before after : Channel) : Prop where
  /-- A tuple waits only if it waited before or was in the backup. -/
  queue : ∀ tuple ∈ after.queue, tuple ∈ before.queue ∨ tuple ∈ before.backup
  /-- The backup gains nothing. -/
  backup : ∀ tuple ∈ after.backup, tuple ∈ before.backup
  /-- A channel without protection stays without. -/
  isProtected : before.isProtected = false → after.isProtected = false

namespace Shrinks

theorem refl (channel : Channel) : channel.Shrinks channel where
  queue _ member := .inl member
  backup _ member := member
  isProtected unprotected := unprotected

theorem trans {first second third : Channel} (earlier : first.Shrinks second)
    (later : second.Shrinks third) : first.Shrinks third where
  queue tuple member := by
    rcases later.queue tuple member with waits | backed_up
    · exact earlier.queue tuple waits
    · exact .inr (earlier.backup tuple backed_up)
  backup tuple member := earlier.backup tuple (later.backup tuple member)
  isProtected unprotected := later.isProtected (earlier.isProtected unprotected)

end Shrinks

theorem shrinks_clear (channel : Channel) : channel.Shrinks channel.clear where
  queue := by simp [clear]
  backup _ member := member
  isProtected unprotected := unprotected

theorem shrinks_recover (channel : Channel) : channel.Shrinks channel.recover where
  queue _ member := .inr member
  backup _ member := member
  isProtected unprotected := unprotected

theorem shrinks_evictBefore (channel : Channel) (mark : Int) :
    channel.Shrinks (channel.evictBefore mark) where
  queue _ member := .inl member
  backup _ member := (List.mem_filter.mp member).1
  isProtected unprotected := unprotected

theorem shrinks_evictAndRewind (channel : Channel) (mark : Int) :
    channel.Shrinks (channel.evictAndRewind mark) where
  queue _ member := .inr ((List.mem_filter.mp member).1)
  backup _ member := (List.mem_filter.mp member).1
  isProtected unprotected := unprotected

end Channel

end StreamQuery
