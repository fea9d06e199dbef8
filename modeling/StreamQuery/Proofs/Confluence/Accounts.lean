import StreamQuery.Proofs.Confluence.Courses
import StreamQuery.Proofs.Engine.Firing

/-!
# Accounts of logs

What the course of a confluence has to do with the evaluations so far. The joined tuples of a window
that was committed are among those that the mean is done with, unless it has started over since
then; if it has, nothing from before the mark of the commit is on the way.
-/

namespace StreamQuery

namespace Firing

/-- A firing that commits a window: it completes no other, and the result is sent. -/
structure Commits (firing : Firing) (window : Contents) : Prop where
  windows_eq : firing.windows = [window]
  sent_ne : firing.sent ≠ []

/-- A firing that completes a window with mixed versions. -/
def Mixes (firing : Firing) : Prop :=
  ∃ window ∈ firing.windows, window.isConsistent = false

end Firing

/-- After a commit, a pair of times that went into the committed window goes into another one only
if it is not older than the mark, and if a window with mixed versions was completed in between. -/
def RepeatsByRedo (log : List Firing) : Prop :=
  ∀ (i j : Nat) (first second : Firing) (window other : Contents), i < j →
    log[i]? = some first → log[j]? = some second → first.Commits window →
    other ∈ second.windows → ∀ earlier ∈ window.tuples, ∀ later ∈ other.tuples,
      earlier.lineage.arrivals = later.lineage.arrivals →
        (∀ time ∈ later.lineage.arrivals, window.mark ≤ time) ∧
          ∃ (k : Nat) (mixed : Firing), i < k ∧ k < j ∧ log[k]? = some mixed ∧ mixed.Mixes

/-- After a firing, a window with mixed versions was completed. -/
def MixesAfter (log : List Firing) (i : Nat) : Prop :=
  ∃ (j : Nat) (mixed : Firing), i < j ∧ log[j]? = some mixed ∧ mixed.Mixes

variable {log : List Firing} {firing other : Firing}

theorem getElem?_concat_eq_some {i : Nat} (found : (log ++ [firing])[i]? = some other) :
    log[i]? = some other ∨ i = log.length ∧ firing = other := by
  by_cases inside : i < log.length
  · exact .inl (List.getElem?_append_left inside ▸ found)
  · rw [List.getElem?_append_right (Nat.le_of_not_lt inside)] at found
    obtain ⟨last, rfl⟩ := List.getElem?_eq_some_iff.mp found
    rw [List.length_singleton] at last
    exact .inr ⟨by omega, by simp⟩

theorem getElem?_concat {i : Nat} (found : log[i]? = some other) :
    (log ++ [firing])[i]? = some other := by
  rw [List.getElem?_append_left (List.getElem?_eq_some_iff.mp found).1, found]

theorem MixesAfter.append {i : Nat} (mixed : MixesAfter log i) :
    MixesAfter (log ++ [firing]) i := by
  obtain ⟨j, other, after, found, mixes⟩ := mixed
  exact ⟨j, other, after, getElem?_concat found, mixes⟩

namespace Course

/-- What a course has to do with the evaluations so far. -/
structure Accounts (course : Course) (log : List Firing) : Prop where
  sound : course.IsSound
  /-- Nothing from before the mark of a commit can be delivered again. -/
  cleared : ∀ firing ∈ log, ∀ window : Contents, firing.Commits window →
    course.IsCleared window.mark
  /-- The mean is done with a committed window, or it has started over since then. -/
  remembered : ∀ (i : Nat) (firing : Firing) (window : Contents), log[i]? = some firing →
    firing.Commits window →
      window.tuples ⊆ course.done ∨ course.IsPast window.mark ∧ MixesAfter log i
  repeats : RepeatsByRedo log

variable {course next : Course} {window : Contents}

namespace Accounts

/-- Before anything is evaluated there is nothing to account for. -/
theorem start (sound : course.IsSound) : course.Accounts [] where
  sound := sound
  cleared _ member := (nomatch member)
  remembered _ _ _ found := by cases found
  repeats _ _ _ _ _ _ _ found := by cases found

theorem lead (accounts : course.Accounts log) (leads : course.Leads next) : next.Accounts log where
  sound := leads.sound
  cleared firing member window commits :=
    leads.isCleared (accounts.cleared firing member window commits)
  remembered i firing window found commits := by
    have cleared := accounts.cleared firing (List.mem_of_getElem? found) window commits
    rcases accounts.remembered i firing window found commits with done | ⟨past, mixed⟩
    · exact .inl (List.Subset.trans done leads.done)
    · exact .inr ⟨leads.isPast cleared past, mixed⟩
  repeats := accounts.repeats

/-- What arrives has not been passed on. -/
theorem arrive (accounts : course.Accounts log) {left right : List Tuple}
    (left_timed : IsTimed (course.left.passed ++ left))
    (right_timed : IsTimed (course.right.passed ++ right)) :
    Course.Accounts
      { course with
        left := { course.left with arriving := left }
        right := { course.right with arriving := right } } log where
  sound :=
    { left := accounts.sound.left.arrive left_timed
      right := accounts.sound.right.arrive right_timed
      distinct := accounts.sound.distinct
      joins := accounts.sound.joins }
  cleared firing member window commits := by
    obtain ⟨⟨left_backup, left_reached⟩, right_backup, right_reached⟩ :=
      accounts.cleared firing member window commits
    exact ⟨⟨left_backup, left_reached⟩, right_backup, right_reached⟩
  remembered i firing window found commits :=
    (accounts.remembered i firing window found commits).imp_right fun since =>
      ⟨⟨since.1.left, since.1.right⟩, since.2⟩
  repeats := accounts.repeats

/-- What goes into a window was not in a committed one, unless the mean has started over since then.
-/
theorem repeats_append (accounts : course.Accounts log)
    (taken : ∀ window ∈ firing.windows, window.tuples ⊆ course.begun ++ course.joined) :
    RepeatsByRedo (log ++ [firing]) := by
  intro i j first second window other before first_found second_found commits completed earlier
    earlier_mem later later_mem same
  rcases getElem?_concat_eq_some first_found with was_first | ⟨rfl, rfl⟩
  · rcases getElem?_concat_eq_some second_found with was_second | ⟨rfl, rfl⟩
    · obtain ⟨times, k, mixed, after, until_then, mixed_found, mixes⟩ := accounts.repeats i j first
        second window other before was_first was_second commits completed earlier earlier_mem later
        later_mem same
      exact ⟨times, k, mixed, after, until_then, getElem?_concat mixed_found, mixes⟩
    · have later_taken := taken other completed later_mem
      rcases accounts.remembered i first window was_first commits with
        done | ⟨past, k, mixed, after, mixed_found, mixes⟩
      · exact absurd same (accounts.sound.not_repeated (done earlier_mem) later_taken)
      · have emitted : later ∈ course.emitted := by
          rw [emitted, List.append_assoc]
          exact List.mem_append_right _ later_taken
        exact ⟨past.le_of_mem accounts.sound emitted, k, mixed, after,
          (List.getElem?_eq_some_iff.mp mixed_found).1, getElem?_concat mixed_found, mixes⟩
  · have inside := (List.getElem?_eq_some_iff.mp second_found).1
    rw [List.length_append, List.length_singleton] at inside
    omega

/-- An evaluation that commits nothing. -/
theorem pass (accounts : course.Accounts log) (leads : course.Leads next)
    (taken : ∀ window ∈ firing.windows, window.tuples ⊆ course.begun ++ course.joined)
    (uncommitted : ∀ window, ¬firing.Commits window) : next.Accounts (log ++ [firing]) where
  sound := leads.sound
  cleared other member window commits := by
    rcases List.mem_append.mp member with earlier | last
    · exact (accounts.lead leads).cleared other earlier window commits
    · exact absurd (List.mem_singleton.mp last ▸ commits) (uncommitted window)
  remembered i other window found commits := by
    rcases getElem?_concat_eq_some found with earlier | ⟨_, rfl⟩
    · exact ((accounts.lead leads).remembered i other window earlier commits).imp_right fun since =>
        ⟨since.1, since.2.append⟩
    · exact absurd commits (uncommitted window)
  repeats := accounts.repeats_append taken

/-- A window with mixed versions, after which the mean starts over. -/
theorem redo (accounts : course.Accounts log) (leads : course.Leads next)
    (taken : ∀ window ∈ firing.windows, window.tuples ⊆ course.begun ++ course.joined)
    (uncommitted : ∀ window, ¬firing.Commits window) (mixes : firing.Mixes) :
    next.rewind.Accounts (log ++ [firing]) where
  sound := leads.sound.rewind
  cleared other member window commits :=
    ((accounts.pass leads taken uncommitted).cleared other member window commits).rewind.1
  remembered i other window found commits := by
    have cleared := (accounts.pass leads taken uncommitted).cleared other
      (List.mem_of_getElem? found) window commits
    rcases getElem?_concat_eq_some found with earlier | ⟨_, rfl⟩
    · exact .inr ⟨cleared.rewind.2, log.length, firing, (List.getElem?_eq_some_iff.mp earlier).1,
        List.getElem?_concat_length, mixes⟩
    · exact absurd commits (uncommitted window)
  repeats := accounts.repeats_append taken

/-- A commit, after which both backups lose what comes before its mark. -/
theorem commit (accounts : course.Accounts log) (leads : course.Leads next)
    (windows_eq : firing.windows = [window])
    (taken : window.tuples ⊆ course.begun ++ course.joined) (done : window.tuples ⊆ next.done)
    (reached : ∃ tuple ∈ window.tuples, window.mark ≤ tuple.lowWater + 1) :
    (next.evict window.mark).Accounts (log ++ [firing]) := by
  have evicts := accounts.lead leads |>.lead (leads.sound.evict window.mark)
  have only {other : Contents} (commits : firing.Commits other) : other = window :=
    (List.singleton_injective (windows_eq.symm.trans commits.windows_eq)).symm
  refine ⟨evicts.sound, fun other member committed commits => ?_,
    fun i other committed found commits => ?_, accounts.repeats_append fun other member => ?_⟩
  · rcases List.mem_append.mp member with earlier | last
    · exact evicts.cleared other earlier committed commits
    · obtain rfl := List.mem_singleton.mp last
      obtain rfl := only commits
      obtain ⟨tuple, member, mark_le⟩ := reached
      exact leads.sound.isCleared_evict
        (List.mem_append_left _ (List.mem_append_left _ (done member))) mark_le
  · rcases getElem?_concat_eq_some found with earlier | ⟨_, rfl⟩
    · exact (evicts.remembered i other committed earlier commits).imp_right fun since =>
        ⟨since.1, since.2.append⟩
    · obtain rfl := only commits
      exact .inl done
  · rw [windows_eq] at member
    exact List.mem_singleton.mp member ▸ taken

end Accounts

end Course

end StreamQuery
