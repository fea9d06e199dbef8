import StreamQuery.Proofs.Engine.Ends
import StreamQuery.Proofs.Operator.Failures

/-!
# Evaluations that fail

How many tuples an operator has counted as sent, and what it has sent when its evaluation fails: the
marker that closes a join is sent before the join looks at a tuple that arrives on its other side.
-/

namespace StreamQuery

/-- The marker that ends the second input of a join, if the first one has ended before and yet
delivers a tuple together with it. -/
def WindowJoin.closingMarkers (state : WindowJoin) : Option Tuple → Option Tuple → List Tuple
  | some left, some right =>
    if left.isEndOfStream && !right.isEndOfStream && state.right.hasEnded then
      [left]
    else if right.isEndOfStream && !left.isEndOfStream && state.left.hasEnded then
      [right]
    else
      []
  | _, _ => []

/-- A join that completes a window sends no other markers. -/
theorem WindowJoin.Turn.markers_of_completed {state : WindowJoin} {left? right? : Option Tuple}
    (completed : (ofArrivals state left? right?).completed = true) :
    (ofArrivals state left? right?).markers = state.closingMarkers left? right? := by
  rcases left? with _ | left <;> rcases right? with _ | right
  · rfl
  · cases right_end : right.isEndOfStream <;>
      simp_all [ofArrivals, receive_of_end, receive_of_data, closingMarkers]
  · cases left_end : left.isEndOfStream <;>
      simp_all [ofArrivals, receive_of_end, receive_of_data, closingMarkers]
  · cases left_end : left.isEndOfStream <;> cases right_end : right.isEndOfStream <;>
      simp_all [ofArrivals, receive_of_end, receive_of_data, closingMarkers, hasEnded]

namespace World

/-- What a failing operator has sent: the marker that closes a join. -/
def closingMarkers (world : World) : QueryTree → List Tuple
  | .join header _ left right =>
    match (world.memory? header.id).bind Memory.join? with
    | some state =>
      state.closingMarkers (world.output left.id).peek? (world.output right.id).peek?
    | none => []
  | _ => []

theorem closingMarkers_eq_nil (world : World) {operator : QueryTree}
    (few : operator.inputs.length ≤ 1) : world.closingMarkers operator = [] := by
  cases operator with
  | join header logic left right => exact absurd few (by simp [QueryTree.inputs])
  | _ => rfl

/-! ## Counts -/

/-- The number of tuples that an operator has counted as sent. -/
def emitted? (world : World) (id : Nat) : Option Nat :=
  world.cells[id]?.map Cell.emitted

section

variable {world : World} {id other : Nat} {change : Cell → Cell}

theorem emitted?_modifyCell_of_ne (different : other ≠ id) :
    (world.modifyCell id change).emitted? other = world.emitted? other := by
  rw [emitted?, emitted?, getElem?_modifyCell_of_ne _ _ different]

/-- A change that does not count changes no count. -/
theorem emitted?_modifyCell (world : World) (id : Nat) (change : Cell → Cell)
    (keeps : ∀ cell : Cell, (change cell).emitted = cell.emitted) (other : Nat) :
    (world.modifyCell id change).emitted? other = world.emitted? other := by
  by_cases same : other = id
  · subst same
    rw [emitted?, emitted?, getElem?_modifyCell_self, Option.map_map]
    exact congrArg (Option.map · _) (funext keeps)
  · exact emitted?_modifyCell_of_ne same

@[simp] theorem emitted?_modifyOutputs (world : World) (ids : List Nat)
    (change : Channel → Channel) (id : Nat) :
    (world.modifyOutputs ids change).emitted? id = world.emitted? id := by
  induction ids generalizing world with
  | nil => rfl
  | cons first ids induction =>
      exact (induction (world.modifyOutput first change)).trans
        (emitted?_modifyCell world first (fun cell => { cell with output := change cell.output })
          (fun _ => rfl) id)

@[simp] theorem emitted?_restart (world : World) (spared? : Option Nat) (ids : List Nat)
    (id : Nat) : (world.restart spared? ids).emitted? id = world.emitted? id := by
  induction ids generalizing world with
  | nil => rfl
  | cons first ids induction =>
      exact (induction (world.modifyCell first (·.restart (spared? = some first)))).trans
        (emitted?_modifyCell world first (·.restart (spared? = some first)) (fun _ => rfl) id)

theorem emitted?_modifyArrivals (world : World) (source : Nat) (change : Channel → Channel)
    (id : Nat) : (world.modifyArrivals source change).emitted? id = world.emitted? id := by
  refine emitted?_modifyCell world source _ (fun cell => ?_) id
  split <;> rfl

theorem emitted?_take (world : World) (id other : Nat) :
    (world.take id).2.emitted? other = world.emitted? other := by
  rw [take]
  split
  · rename_i rest _
    exact emitted?_modifyCell world id (fun cell => { cell with output := rest }) (fun _ => rfl)
      other
  · rfl

theorem getElem?_take_of_ne (world : World) (different : other ≠ id) :
    (world.take id).2.cells[other]? = world.cells[other]? := by
  rw [take]
  split
  · exact getElem?_modifyCell_of_ne _ _ different
  · rfl

end

/-! ## Evaluations -/

/-- An operator that has taken tuples, but has not sent or counted any. -/
structure Prepares (own : Nat) (before rest : World) : Prop where
  /-- The operator remembers what it did. -/
  self : ∀ cell, before.cells[own]? = some cell → ∃ current, rest.cells[own]? = some current ∧
    cell.output = current.output ∧ cell.emitted = current.emitted ∧ cell.memory = current.memory
  /-- Nothing is counted. -/
  emitted?_eq : ∀ id, rest.emitted? id = before.emitted? id

/-- What an operator sends is counted unless its evaluation fails. If it fails, only what is given
is left behind. -/
structure CountsSent (own : Nat) (left : List Tuple) (before : World)
    (outcome : World × Except OperatorError Step) : Prop where
  /-- The operator sends and counts. -/
  self : ∀ cell, before.cells[own]? = some cell → ∃ after, outcome.1.cells[own]? = some after ∧
    cell.CountsSent left (after, outcome.2)
  /-- The others count nothing. -/
  others : ∀ id, id ≠ own → outcome.1.emitted? id = before.emitted? id

namespace CountsSent

variable {own : Nat} {left : List Tuple} {before : World}
  {outcome : World × Except OperatorError Step} {count : Nat}

theorem of_ok (counts : CountsSent own left before outcome)
    (counted : before.emitted? own = some count) {step : Step} (succeeds : outcome.2 = .ok step) :
    ∃ results, outcome.1.output own = (before.output own).enqueueAll results ∧
      outcome.1.emitted? own = some (count + results.length) := by
  obtain ⟨cell, found, rfl⟩ := Option.map_eq_some_iff.mp counted
  obtain ⟨after, after_found, sends⟩ := counts.self cell found
  obtain ⟨results, output_eq, emitted_eq⟩ := sends.of_ok step succeeds
  refine ⟨results, ?_, ?_⟩
  · rw [output_of_getElem? after_found, output_of_getElem? found, output_eq]
  · rw [emitted?, after_found, Option.map_some, emitted_eq]

theorem of_error (counts : CountsSent own left before outcome)
    (counted : before.emitted? own = some count) {error : OperatorError}
    (failed : outcome.2 = .error error) :
    outcome.1.output own = (before.output own).enqueueAll left ∧
      outcome.1.emitted? own = some count := by
  obtain ⟨cell, found, rfl⟩ := Option.map_eq_some_iff.mp counted
  obtain ⟨after, after_found, sends⟩ := counts.self cell found
  obtain ⟨output_eq, emitted_eq⟩ := sends.of_error error failed
  refine ⟨?_, ?_⟩
  · rw [output_of_getElem? after_found, output_of_getElem? found, output_eq]
  · rw [emitted?, after_found, Option.map_some, emitted_eq]

end CountsSent

namespace Prepares

variable {own : Nat} {before rest : World} {left : List Tuple}

theorem refl (own : Nat) (world : World) : Prepares own world world where
  self cell found := ⟨cell, found, rfl, rfl, rfl⟩
  emitted?_eq _ := rfl

theorem take (prepares : Prepares own before rest) {id : Nat} (different : id ≠ own) :
    Prepares own before (rest.take id).2 where
  self cell found := by
    rw [rest.getElem?_take_of_ne different.symm]
    exact prepares.self cell found
  emitted?_eq other := (rest.emitted?_take id other).trans (prepares.emitted?_eq other)

theorem consume (prepares : Prepares own before rest) (count : Nat) :
    Prepares own before (rest.modifyCell own (·.consume count)) where
  self cell found := by
    obtain ⟨current, current_found, kept⟩ := prepares.self cell found
    refine ⟨current.consume count, ?_, kept⟩
    rw [getElem?_modifyCell_self, current_found]
    rfl
  emitted?_eq id :=
    (emitted?_modifyCell rest own (·.consume count) (fun _ => rfl) id).trans
      (prepares.emitted?_eq id)

theorem of_cells_eq (prepares : Prepares own before rest) {after : World}
    (cells_eq : after.cells = rest.cells) : Prepares own before after where
  self := cells_eq ▸ prepares.self
  emitted?_eq id := by
    rw [emitted?, cells_eq]
    exact prepares.emitted?_eq id

/-- Nothing else happens, and nothing fails. -/
theorem quiet (prepares : Prepares own before rest) (left : List Tuple) (step : Step) :
    CountsSent own left before (rest, .ok step) where
  self cell found := by
    obtain ⟨current, current_found, output_eq, emitted_eq, _⟩ := prepares.self cell found
    exact ⟨current, current_found, .succeeds [] output_eq.symm emitted_eq.symm⟩
  others id _ := prepares.emitted?_eq id

/-- Nothing else happens because something is missing. -/
theorem fails (prepares : Prepares own before rest) (error : OperatorError) :
    CountsSent own [] before (rest, .error error) where
  self cell found := by
    obtain ⟨current, current_found, output_eq, emitted_eq, _⟩ := prepares.self cell found
    exact ⟨current, current_found, .of_eq output_eq.symm emitted_eq.symm⟩
  others id _ := prepares.emitted?_eq id

/-- The operator acts on its own cell. -/
theorem act {header : OperatorHeader} (prepares : Prepares header.id before rest)
    {action : Cell → Cell × Except OperatorError Step}
    (counts : ∀ cell current : Cell, before.cells[header.id]? = some cell →
      cell.memory = current.memory → current.CountsSent left (action current)) :
    CountsSent header.id left before (rest.act header action) where
  self cell found := by
    obtain ⟨current, current_found, output_eq, emitted_eq, memory_eq⟩ := prepares.self cell found
    rw [act_of_getElem? current_found]
    refine ⟨(action current).1, by rw [getElem?_modifyCell_self, current_found]; rfl, ?_⟩
    exact (counts cell current found memory_eq).congr output_eq.symm emitted_eq.symm
  others id different := by
    rw [← prepares.emitted?_eq id, World.act]
    split
    · exact emitted?_modifyCell_of_ne different
    · rfl

end Prepares

variable {world : World} {role : CommitRole} {header : OperatorHeader}

theorem process_countsSent {before : World} (prepares : Prepares header.id before world)
    (role : CommitRole) (logic : SingleLogic) (tuple : Tuple) :
    CountsSent header.id [] before (world.process role header logic tuple) := by
  cases logic with
  | select condition => exact prepares.act fun _ current _ _ => current.countsSent_select _ _ _
  | project indices => exact prepares.act fun _ current _ _ => current.countsSent_deliver _
  | combine reference condition =>
      rw [process]
      split
      · exact prepares.fails _
      · rename_i relation _
        rcases world.catalog.readRelation reference.place relation with ⟨snapshot, catalog⟩
        have reading : Prepares header.id before { world with catalog } := prepares.of_cells_eq rfl
        exact reading.act fun _ current _ _ => current.countsSent_deliver _
  | aggregate window function =>
      exact prepares.act fun _ current _ _ => current.countsSent_aggregate _ _ _ _

theorem evaluateSingle_countsSent (logic : SingleLogic) {input : Nat}
    (different : input ≠ header.id) :
    CountsSent header.id [] world (world.evaluateSingle role header logic input) := by
  rw [evaluateSingle]
  split
  · split
    · refine ⟨fun cell found => ⟨cell.closeCommit, ?_, ?_⟩,
        fun id apart => emitted?_modifyCell_of_ne apart⟩
      · rw [getElem?_modifyCell_self, found]
        rfl
      · have kept : cell.closeCommit.output = cell.output ∧
            cell.closeCommit.emitted = cell.emitted := by
          rw [Cell.closeCommit]
          split <;> exact ⟨rfl, rfl⟩
        exact .of_eq kept.1 kept.2
    · exact (Prepares.refl header.id world).quiet [] _
  · have taken := (Prepares.refl header.id world).take different
    rcases taken_eq : world.take input with ⟨_ | tuple, rest⟩ <;> rw [taken_eq] at taken
    · exact (Prepares.refl header.id world).quiet [] _
    · simp only
      split
      · exact (taken.consume 1).act fun _ current _ _ => current.countsSent_deliver _
      · exact process_countsSent (taken.consume 1) role logic tuple

theorem evaluateJoin_countsSent (logic : JoinLogic) {left right : QueryTree}
    (left_ne : left.id ≠ header.id) (right_ne : right.id ≠ header.id)
    (apart : left.id ≠ right.id) :
    CountsSent header.id (world.closingMarkers (.join header logic left right)) world
      (world.evaluateJoin header logic left.id right.id) := by
  have right_fst := (world.take left.id).2.take_fst right.id
  rw [output_take_of_ne _ apart.symm] at right_fst
  simp only [evaluateJoin, world.take_fst left.id, right_fst]
  split
  · exact (Prepares.refl header.id world).quiet _ _
  · refine (((Prepares.refl header.id world).take left_ne).take right_ne).act
      fun cell current found memory_eq => ?_
    rw [closingMarkers, memory?_of_getElem? found, memory_eq]
    cases current_eq : current.memory with
    | join state =>
        exact Cell.countsSent_joinArrivals current_eq header logic.condition rfl
          WindowJoin.Turn.markers_of_completed
    | _ =>
        simp only [Cell.joinArrivals, current_eq]
        exact .of_eq rfl rfl

/-- An operator of a forest counts what it sends unless it fails, and leaves nothing behind but the
marker that closes it. -/
theorem evaluate_countsSent {trees : List QueryTree} (forest : IsForest trees) (world : World)
    (role : CommitRole) {operator : QueryTree} (member : operator ∈ trees) :
    CountsSent operator.id (world.closingMarkers operator) world
      (world.evaluate role operator) := by
  have apart (input : QueryTree) (is_input : input ∈ operator.inputs) : input.id ≠ operator.id :=
    (forest.input_mem operator member input is_input).2.ne
  cases operator with
  | source header =>
      exact (Prepares.refl header.id world).act fun _ current _ _ => current.countsSent_passOn _
  | single header logic input =>
      exact evaluateSingle_countsSent logic (apart input List.mem_cons_self)
  | join header logic left right =>
      exact evaluateJoin_countsSent logic (apart left List.mem_cons_self)
        (apart right (List.mem_cons_of_mem _ List.mem_cons_self))
        (forest.left_id_ne_right_id member)

end World

end StreamQuery
