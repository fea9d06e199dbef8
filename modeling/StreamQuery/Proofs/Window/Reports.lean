import StreamQuery.Proofs.Window.Held

/-!
# Reports of windows

What several tuples make of a synopsis, one after the other, and the windows that each of them
completes.
-/

namespace StreamQuery

namespace Synopsis

/-- The synopsis after several tuples. -/
def enqueueAll (synopsis : Synopsis) (tuples : List Tuple) : Synopsis :=
  tuples.foldl (fun current tuple => (current.enqueue tuple).1) synopsis

/-- The windows that each of several tuples completes. -/
def reports : Synopsis → List Tuple → List (List Contents)
  | _, [] => []
  | synopsis, tuple :: tuples =>
    (synopsis.enqueue tuple).2 :: reports (synopsis.enqueue tuple).1 tuples

variable {synopsis : Synopsis}

theorem enqueueAll_append (synopsis : Synopsis) (first second : List Tuple) :
    synopsis.enqueueAll (first ++ second) = (synopsis.enqueueAll first).enqueueAll second :=
  List.foldl_append

theorem reports_append (synopsis : Synopsis) (first second : List Tuple) :
    synopsis.reports (first ++ second) =
      synopsis.reports first ++ (synopsis.enqueueAll first).reports second := by
  induction first generalizing synopsis with
  | nil => rfl
  | cons tuple first induction =>
      rw [List.cons_append, reports, reports, induction]
      rfl

/-! ## Starting over -/

@[simp] theorem reset_ofWindow (window : Window) : (ofWindow window).reset = ofWindow window := by
  rw [ofWindow]
  cases window.kind <;> rfl

theorem reset_enqueue (synopsis : Synopsis) (tuple : Tuple) :
    (synopsis.enqueue tuple).1.reset = synopsis.reset := by
  cases synopsis with
  | rows buffer =>
      simp only [enqueue, Prod.map, reset, RowBuffer.enqueue]
      split
      · rfl
      · split <;> rfl
  | time buffer => rfl

/-- Whatever a synopsis has accepted, it forgets everything when it starts over. -/
theorem reset_enqueueAll (synopsis : Synopsis) (tuples : List Tuple) :
    (synopsis.enqueueAll tuples).reset = synopsis.reset := by
  induction tuples generalizing synopsis with
  | nil => rfl
  | cons tuple tuples induction => exact (induction _).trans (synopsis.reset_enqueue tuple)

/-! ## Members of windows -/

theorem mem_held_enqueueAll {tuples : List Tuple} {other : Tuple}
    (member : other ∈ (synopsis.enqueueAll tuples).held) :
    other ∈ synopsis.held ∨ other ∈ tuples := by
  induction tuples generalizing synopsis with
  | nil => exact .inl member
  | cons tuple tuples induction =>
      rcases induction member with held | later
      · refine (mem_enqueue_held held).imp_right fun same => ?_
        rw [same]
        exact List.mem_cons_self
      · exact .inr (List.mem_cons_of_mem _ later)

/-- The tuples of a window that is completed after a synopsis was empty have been accepted. -/
theorem mem_of_mem_enqueue {window : Window} {tuples : List Tuple} {tuple other : Tuple}
    {contents : Contents}
    (reported : contents ∈ (((ofWindow window).enqueueAll tuples).enqueue tuple).2)
    (inside : other ∈ contents.tuples) : other ∈ tuples ++ [tuple] := by
  rw [List.mem_append, List.mem_singleton]
  refine (mem_enqueue_window reported inside).imp_left fun held => ?_
  refine (mem_held_enqueueAll held).resolve_left ?_
  rw [held_ofWindow]
  exact List.not_mem_nil

end Synopsis

end StreamQuery
