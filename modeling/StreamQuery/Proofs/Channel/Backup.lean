import Mathlib.Data.List.Induction
import StreamQuery.Proofs.Channel
import StreamQuery.Proofs.Window.SpanReports

/-!
# Backups of channels

A channel is told, in any order, to receive tuples, to hand them out, to forget those that wait, to
deliver the backup again and to evict it. What the backup holds depends only on the tuples received
and the marks evicted since it was turned on: each of these tuples is judged by the marks that were
evicted after it was received, and by nothing else.
-/

namespace StreamQuery

/-- What a channel is told to do. -/
inductive ChannelCall where
  | enqueue (tuple : Tuple)
  | dequeue
  | peek
  | clear
  | recover
  | evictBefore (mark : Int)
  | evictAndRewind (mark : Int)
  | setProtected (isProtected : Bool)

namespace ChannelCall

/-- The mark before which a call evicts. -/
def mark? : ChannelCall → Option Int
  | evictBefore mark => some mark
  | evictAndRewind mark => some mark
  | _ => none

/-- The tuple that a call brings. -/
def tuple? : ChannelCall → Option Tuple
  | enqueue tuple => some tuple
  | _ => none

/-- Whether a call turns the backup off. -/
def turnsOff : ChannelCall → Bool
  | setProtected isProtected => !isProtected
  | _ => false

/-- No mark that some calls evict lies after the low-water mark of a tuple. -/
def Spare (calls : List ChannelCall) (tuple : Tuple) : Prop :=
  ∀ mark ∈ calls.filterMap mark?, mark ≤ tuple.lowWater

instance (calls : List ChannelCall) : DecidablePred (Spare calls) := fun tuple =>
  inferInstanceAs (Decidable (∀ mark ∈ calls.filterMap mark?, mark ≤ tuple.lowWater))

/-- The tuples received in some calls that no later one of these calls evicts, oldest first. -/
def survivors : List ChannelCall → List Tuple
  | [] => []
  | call :: later => (call.tuple?.toList.filter fun tuple => Spare later tuple) ++ survivors later

end ChannelCall

namespace Channel

/-- What a call makes of a channel. -/
def perform (channel : Channel) : ChannelCall → Channel
  | .enqueue tuple => channel.enqueue tuple
  | .dequeue => (channel.dequeue?.map Prod.snd).getD channel
  | .peek => channel
  | .clear => channel.clear
  | .recover => channel.recover
  | .evictBefore mark => channel.evictBefore mark
  | .evictAndRewind mark => channel.evictAndRewind mark
  | .setProtected isProtected => channel.setProtected isProtected

/-- What several calls make of a channel. -/
def performAll (channel : Channel) (calls : List ChannelCall) : Channel :=
  calls.foldl perform channel

/-- Takes tuples out of the queue until none waits. -/
def drain (channel : Channel) : List Tuple × Channel :=
  match _taken : channel.dequeue? with
  | none => ([], channel)
  | some (tuple, rest) =>
    let (tuples, last) := rest.drain
    (tuple :: tuples, last)
termination_by channel.queue.length
decreasing_by
  rw [(dequeue?_eq_some _taken).1]
  exact Nat.lt_add_one _

variable {channel : Channel} {calls : List ChannelCall} {call : ChannelCall}

theorem performAll_append (channel : Channel) (earlier later : List ChannelCall) :
    channel.performAll (earlier ++ later) = (channel.performAll earlier).performAll later :=
  List.foldl_append

/-! ## Draining -/

/-- Draining yields what waits, in order, and leaves the backup alone. -/
theorem drain_eq (channel : Channel) : channel.drain = (channel.queue, channel.clear) := by
  induction waiting : channel.queue generalizing channel with
  | nil =>
      have empty : channel.dequeue? = none := by simp [dequeue?, waiting]
      rw [drain]
      split
      · rw [clear, ← waiting]
      · simp_all
  | cons tuple queue induction =>
      have taken : channel.dequeue? = some (tuple, { channel with queue }) := by
        simp [dequeue?, waiting]
      rw [drain]
      split
      · simp_all
      · rename_i head rest taken_eq
        obtain ⟨rfl, rfl⟩ : tuple = head ∧ { channel with queue } = rest := by
          simpa [taken] using taken_eq
        rw [induction { channel with queue } rfl]
        rfl

/-! ## The backup after some calls -/

/-- What is taken out of the queue stays in the backup. -/
theorem perform_dequeue (channel : Channel) :
    (channel.perform .dequeue).backup = channel.backup ∧
      (channel.perform .dequeue).isProtected = channel.isProtected := by
  cases taken : channel.dequeue? with
  | none => simp [perform, taken]
  | some found =>
      rw [perform, taken, Option.map_some, Option.getD_some, (dequeue?_eq_some taken).2]
      exact ⟨rfl, rfl⟩

/-- A protected channel stays so unless the backup is turned off. -/
theorem perform_isProtected (guarded : channel.isProtected = true) (on : call.turnsOff = false) :
    (channel.perform call).isProtected = true := by
  cases call with
  | dequeue => rw [channel.perform_dequeue.2, guarded]
  | setProtected isProtected =>
      obtain rfl : isProtected = true := by simpa [ChannelCall.turnsOff] using on
      rfl
  | _ => exact guarded

/-- One call evicts before its mark, if it has one, and adds the tuple that it brings. -/
theorem perform_backup (guarded : channel.isProtected = true) (on : call.turnsOff = false) :
    (channel.perform call).backup =
      (channel.backup.filter fun tuple => ChannelCall.Spare [call] tuple) ++
        call.tuple?.toList := by
  have kept {call : ChannelCall} (unmarked : call.mark? = none) :
      (channel.backup.filter fun tuple => ChannelCall.Spare [call] tuple) = channel.backup :=
    List.filter_eq_self.mpr fun tuple _ => by simp [ChannelCall.Spare, unmarked]
  cases call with
  | enqueue tuple =>
      rw [kept rfl, perform, enqueue, if_pos guarded]
      rfl
  | dequeue =>
      rw [kept rfl, channel.perform_dequeue.1]
      exact (List.append_nil _).symm
  | setProtected isProtected =>
      obtain rfl : isProtected = true := by simpa [ChannelCall.turnsOff] using on
      rw [kept rfl]
      exact (List.append_nil _).symm
  | evictBefore mark => simp [perform, evictBefore, ChannelCall.Spare, ChannelCall.mark?,
      ChannelCall.tuple?]
  | evictAndRewind mark => simp [perform, evictAndRewind, recover, evictBefore, ChannelCall.Spare,
      ChannelCall.mark?, ChannelCall.tuple?]
  | _ =>
      rw [kept rfl]
      exact (List.append_nil _).symm

/-- Of what a protected channel has in its backup, all that no call evicts stays there, before what
the calls bring. -/
theorem performAll_backup (guarded : channel.isProtected = true)
    (on : ∀ call ∈ calls, call.turnsOff = false) :
    (channel.performAll calls).backup =
      (channel.backup.filter fun tuple => ChannelCall.Spare calls tuple) ++
        ChannelCall.survivors calls := by
  induction calls generalizing channel with
  | nil =>
      rw [List.filter_eq_self.mpr fun tuple _ => by simp [ChannelCall.Spare]]
      exact (List.append_nil _).symm
  | cons call later induction =>
      have call_on := on call List.mem_cons_self
      have later_backup := induction (perform_isProtected guarded call_on)
        fun other member => on other (List.mem_cons_of_mem _ member)
      rw [perform_backup guarded call_on, List.filter_append, List.filter_filter] at later_backup
      have spare_cons (tuple : Tuple) : ChannelCall.Spare (call :: later) tuple ↔
          ChannelCall.Spare later tuple ∧ ChannelCall.Spare [call] tuple := by
        rw [ChannelCall.Spare, ← List.singleton_append, List.filterMap_append]
        simp only [ChannelCall.Spare, List.mem_append, or_imp, forall_and, and_comm]
      simp only [ChannelCall.survivors, spare_cons, Bool.decide_and, ← List.append_assoc]
      exact later_backup

/-- A channel without protection has no backup. -/
theorem perform_backup_eq_nil (empty : channel.isProtected = false → channel.backup = [])
    (unguarded : (channel.perform call).isProtected = false) :
    (channel.perform call).backup = [] := by
  cases call with
  | enqueue tuple =>
      have off : channel.isProtected = false := unguarded
      rw [perform, enqueue, if_neg (by simp [off])]
      exact empty off
  | dequeue =>
      rw [channel.perform_dequeue.2] at unguarded
      rw [channel.perform_dequeue.1, empty unguarded]
  | setProtected isProtected =>
      obtain rfl : isProtected = false := unguarded
      rfl
  | evictBefore mark => simp [perform, evictBefore, empty unguarded]
  | evictAndRewind mark => simp [perform, evictAndRewind, recover, evictBefore, empty unguarded]
  | _ => exact empty unguarded

theorem performAll_backup_eq_nil (calls : List ChannelCall)
    (unguarded : (performAll {} calls).isProtected = false) :
    (performAll {} calls).backup = [] := by
  induction calls using List.reverseRecOn with
  | nil => rfl
  | append_singleton calls call induction =>
      rw [performAll_append] at unguarded ⊢
      exact perform_backup_eq_nil induction unguarded

/-- What is in the backup of a channel, and what becomes of it. -/
structure KeepsBackup (channel : Channel) (tuples : List Tuple) : Prop where
  /-- The tuples that can be delivered again, in the order in which they were received. -/
  backup_eq : channel.backup = tuples
  /-- They stay, whatever happens to those that wait. -/
  stays : ∀ call ∈ [ChannelCall.dequeue, .peek, .clear, .recover],
    (channel.perform call).backup = tuples
  /-- They are delivered again, all of them and nothing else. -/
  recovers : channel.recover.drain.1 = tuples ∧ channel.recover.drain.2.backup = tuples
  /-- They are delivered from a mark on. -/
  rewinds : ∀ mark,
    (channel.evictAndRewind mark).backup = tuples.filter (fun tuple => mark ≤ tuple.lowWater) ∧
      (channel.evictAndRewind mark).drain.1 = (channel.evictAndRewind mark).backup
  /-- Of two evictions, the one before the later mark counts. -/
  evicts : ∀ first second,
    (channel.evictBefore first).evictBefore second = channel.evictBefore (max first second)
  /-- Eviction and recovery can be done at once. -/
  evictAndRewind_eq : ∀ mark, channel.evictAndRewind mark = (channel.evictBefore mark).recover

theorem keepsBackup (channel : Channel) : channel.KeepsBackup channel.backup where
  backup_eq := rfl
  stays := by
    simp only [List.forall_mem_cons, channel.perform_dequeue.1]
    exact ⟨trivial, rfl, rfl, rfl, nofun⟩
  recovers := by
    rw [drain_eq]
    exact ⟨rfl, rfl⟩
  rewinds mark := by
    rw [drain_eq]
    exact ⟨rfl, rfl⟩
  evicts _ _ := by
    simp only [evictBefore, List.filter_filter, max_le_iff, Bool.decide_and, Bool.and_comm]
  evictAndRewind_eq _ := rfl

end Channel

/-- Once its backup is turned on, a channel can deliver again exactly those tuples received since
then that no later eviction concerns, whatever else it is told to do. If the backup was on already,
what it held before is evicted in the same way. -/
theorem protected_channel_keeps_survivors (earlier later : List ChannelCall)
    (on : ∀ call ∈ later, call.turnsOff = false) :
    ((Channel.performAll {} earlier).isProtected = false →
        (Channel.performAll {} (earlier ++ .setProtected true :: later)).KeepsBackup
          (ChannelCall.survivors later)) ∧
      ((Channel.performAll {} earlier).isProtected = true →
        (Channel.performAll {} (earlier ++ .setProtected true :: later)).KeepsBackup
          (((Channel.performAll {} earlier).backup.filter fun tuple =>
            ChannelCall.Spare later tuple) ++ ChannelCall.survivors later)) := by
  have backup_eq : (Channel.performAll {} (earlier ++ .setProtected true :: later)).backup =
      ((Channel.performAll {} earlier).backup.filter fun tuple =>
        ChannelCall.Spare later tuple) ++ ChannelCall.survivors later := by
    have guarded : ((Channel.performAll {} earlier).setProtected true).isProtected = true := rfl
    rw [Channel.performAll_append]
    exact @Channel.performAll_backup _ later guarded on
  refine ⟨fun off => ?_, fun _ => backup_eq ▸ Channel.keepsBackup _⟩
  rw [Channel.performAll_backup_eq_nil earlier off, List.filter_nil, List.nil_append] at backup_eq
  exact backup_eq ▸ Channel.keepsBackup _

/-- A channel is evicted before 4 when it has received tuples from 3, 5 and 4. A tuple from 1 that
it receives afterwards stays, although the queue has lost it. -/
def lateCalls : List ChannelCall :=
  [.enqueue (.blankAt 3), .enqueue (.blankAt 5), .dequeue, .enqueue (.blankAt 4), .evictBefore 4,
    .enqueue (.blankAt 1), .peek, .clear, .evictAndRewind 0, .dequeue, .recover, .dequeue]

theorem lateCalls_keep_survivors :
    ((∀ call ∈ lateCalls, call.turnsOff = false) ∧
      (Channel.performAll {} [.enqueue (.blankAt 9)]).isProtected = false ∧
      (ChannelCall.survivors lateCalls).map Tuple.lowWater = [5, 4, 1]) ∧
      (Channel.performAll {}
        ([.enqueue (.blankAt 9)] ++ .setProtected true :: lateCalls)).KeepsBackup
          (ChannelCall.survivors lateCalls) :=
  ⟨⟨by decide, by decide, by decide⟩,
    (protected_channel_keeps_survivors [.enqueue (.blankAt 9)] lateCalls (by decide)).1 rfl⟩

end StreamQuery
