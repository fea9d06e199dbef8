import StreamQuery.Proofs.Chain.Steps

/-!
# Relays

Where the operators of a chain are at some moment: each has sent what it computes from the tuples
that it has taken, and the tuples that were sent to it but not taken yet wait for it. So whatever
was evaluated so far, the results are a prefix of those of the arrivals, and all of them once no
tuple waits.
-/

namespace StreamQuery

/-- What an operator of a chain has done with the tuples that arrived at the source. -/
def Relays (relations : List Relation) (arrived : List Tuple) (log : List Firing) (world : World) :
    QueryTree → Prop
  | .source header =>
    ∃ arrivals, world.memory? header.id = some (.source arrivals) ∧
      Firing.sentBy header.id log ++ arrivals.queue = arrived
  | .single header logic input =>
    ∃ taken memory, world.memory? header.id = some memory ∧ Remembers taken logic memory ∧
      taken ++ (world.output input.id).queue = Firing.sentBy input.id log ∧
      Firing.sentBy header.id log = logic.transform relations header.schema taken
  | .join _ _ _ _ => False

/-- All operators of a chain relay what arrived, and nothing controls them. -/
structure RelaysAll (tree : QueryTree) (relations : List Relation) (arrived : List Tuple)
    (log : List Firing) (world : World) : Prop where
  /-- Reads are not controlled. -/
  uncontrolled : world.catalog.access.mode = .uncontrolled
  /-- The relations are as given. -/
  relations_eq : world.catalog.relations = relations
  /-- Each operator relays. -/
  each : ∀ operator ∈ tree.postOrder, Relays relations arrived log world operator

namespace World

/-- Nothing waits for any operator of a tree, neither at the source nor between operators. -/
structure IsDrained (world : World) (tree : QueryTree) : Prop where
  /-- The source has passed everything on. -/
  arrivals : ∀ arrivals ∈ world.arrivals? tree.sourceId, arrivals.queue = []
  /-- Whatever an operator has sent was taken by its consumer. -/
  inputs : ∀ operator ∈ tree.postOrder, ∀ input ∈ operator.inputs,
    (world.output input.id).queue = []

instance (world : World) (tree : QueryTree) : Decidable (world.IsDrained tree) :=
  decidable_of_iff
    ((∀ arrivals ∈ world.arrivals? tree.sourceId, arrivals.queue = []) ∧
      ∀ operator ∈ tree.postOrder, ∀ input ∈ operator.inputs, (world.output input.id).queue = [])
    ⟨fun ⟨arrivals, inputs⟩ => ⟨arrivals, inputs⟩,
      fun drained => ⟨drained.arrivals, drained.inputs⟩⟩

end World

variable {relations : List Relation} {arrived : List Tuple} {log : List Firing} {world : World}

/-! ## Results -/

section

variable {tree : QueryTree}

/-- The results so far are a prefix of the reference results. -/
theorem prefix_of_relays
    (relays : ∀ operator ∈ tree.postOrder, Relays relations arrived log world operator) :
    Firing.sentBy tree.id log <+: tree.reference relations arrived := by
  induction tree with
  | source header =>
      obtain ⟨arrivals, _, arrived_eq⟩ := relays _ (QueryTree.self_mem_postOrder _)
      exact ⟨arrivals.queue, arrived_eq⟩
  | single header logic input induction =>
      obtain ⟨taken, _, _, _, input_eq, sent_eq⟩ := relays _ (QueryTree.self_mem_postOrder _)
      have input_prefix := induction fun operator inside =>
        relays operator (QueryTree.mem_postOrder_of_input (by simp [QueryTree.inputs]) inside)
      -- What was taken is the front of what the input has sent.
      have taken_prefix : taken <+: input.reference relations arrived :=
        List.IsPrefix.trans ⟨_, input_eq⟩ input_prefix
      exact sent_eq ▸ logic.transform_prefix relations header.schema taken_prefix
  | join header logic left right =>
      exact (relays _ (QueryTree.self_mem_postOrder _)).elim

/-- Once nothing waits, the results are the reference results. -/
theorem eq_of_relays
    (relays : ∀ operator ∈ tree.postOrder, Relays relations arrived log world operator)
    (drained : world.IsDrained tree) :
    Firing.sentBy tree.id log = tree.reference relations arrived := by
  induction tree with
  | source header =>
      obtain ⟨arrivals, remembered, arrived_eq⟩ := relays _ (QueryTree.self_mem_postOrder _)
      obtain ⟨cell, found, memory_eq⟩ := Option.map_eq_some_iff.mp remembered
      have waiting : world.arrivals? header.id = some arrivals := by
        simp [World.arrivals?, found, memory_eq, Memory.arrivals?]
      rw [drained.arrivals arrivals waiting, List.append_nil] at arrived_eq
      exact arrived_eq
  | single header logic input induction =>
      obtain ⟨taken, _, _, _, input_eq, sent_eq⟩ := relays _ (QueryTree.self_mem_postOrder _)
      have is_input : input ∈ (QueryTree.single header logic input).inputs := by
        simp [QueryTree.inputs]
      have below {operator : QueryTree} (inside : operator ∈ input.postOrder) :=
        QueryTree.mem_postOrder_of_input is_input inside
      have input_drained : world.IsDrained input :=
        ⟨drained.arrivals, fun operator inside => drained.inputs operator (below inside)⟩
      have all_sent := induction (fun operator inside => relays operator (below inside))
        input_drained
      -- As nothing waits, all that the input has sent was taken.
      rw [drained.inputs _ (QueryTree.self_mem_postOrder _) input is_input, List.append_nil,
        all_sent] at input_eq
      rw [QueryTree.reference, ← input_eq]
      exact sent_eq
  | join header logic left right =>
      exact (relays _ (QueryTree.self_mem_postOrder _)).elim

end

namespace Relays

variable {operator : QueryTree}

/-! ## Frames -/

/-- Nothing changes for an operator unless more is sent to it. -/
theorem frame (relays : Relays relations arrived log world operator) {later : List Firing}
    {after : World} (memory_eq : after.memory? operator.id = world.memory? operator.id)
    (sent_eq : Firing.sentBy operator.id later = Firing.sentBy operator.id log)
    (fed : ∀ input ∈ operator.inputs, ∃ results,
      (after.output input.id).queue = (world.output input.id).queue ++ results ∧
        Firing.sentBy input.id later = Firing.sentBy input.id log ++ results) :
    Relays relations arrived later after operator := by
  cases operator with
  | source header =>
      obtain ⟨arrivals, remembered, arrived_eq⟩ := relays
      exact ⟨arrivals, memory_eq.trans remembered, sent_eq ▸ arrived_eq⟩
  | single header logic input =>
      obtain ⟨taken, memory, remembered, remembers, input_eq, transform_eq⟩ := relays
      obtain ⟨results, queue_eq, input_sent_eq⟩ := fed input (by simp [QueryTree.inputs])
      refine ⟨taken, memory, memory_eq.trans remembered, remembers, ?_,
        sent_eq.trans transform_eq⟩
      rw [queue_eq, input_sent_eq, ← List.append_assoc, input_eq]
  | join header logic left right => exact relays

/-- Nothing changes for an operator as long as nothing is sent. -/
theorem of_eq (relays : Relays relations arrived log world operator) {after : World}
    (memory_eq : after.memory? operator.id = world.memory? operator.id)
    (output_eq : ∀ input ∈ operator.inputs, after.output input.id = world.output input.id) :
    Relays relations arrived log after operator :=
  relays.frame memory_eq rfl fun input is_input =>
    ⟨[], by rw [output_eq input is_input, List.append_nil], (List.append_nil _).symm⟩

/-! ## Evaluations -/

variable {schedule : Schedule}

/-- What one evaluation of an operator does: nothing is lost, and only its output, its memory and
the outputs that it takes from change. -/
structure Fires (relations : List Relation) (arrived : List Tuple) (log : List Firing)
    (operator : QueryTree) (firing : Firing) : Prop where
  /-- The operator relays. -/
  relays : Relays relations arrived (log ++ [firing]) firing.after operator
  /-- No relation changes. -/
  catalog_eq : firing.after.catalog = firing.before.catalog
  /-- It sends results. -/
  sends : ∃ taken ⊆ operator.inputs.map QueryTree.id, ∃ memory,
    World.Sends operator.id taken firing.sent memory firing.before firing.after

theorem sentBy_fire (operator : QueryTree) (log : List Firing) {taken : List Nat}
    {results : List Tuple} {memory : Memory}
    (sends : World.Sends operator.id taken results memory world
      (schedule.fire operator world).after) :
    (schedule.fire operator world).sent = results ∧
      Firing.sentBy operator.id (log ++ [schedule.fire operator world]) =
        Firing.sentBy operator.id log ++ results := by
  have sent_eq : (schedule.fire operator world).sent = results := sends.sent
  exact ⟨sent_eq, sent_eq ▸ Firing.sentBy_append_self log (schedule.fire operator world)⟩

/-- An operator that finds no tuple does nothing. -/
theorem fires_of_idle (relays : Relays relations arrived log world operator)
    (idle : (schedule.fire operator world).after = world) {memory : Memory}
    (remembered : world.memory? operator.id = some memory) :
    Fires relations arrived log operator (schedule.fire operator world) := by
  have sends : World.Sends operator.id [] [] memory world (schedule.fire operator world).after :=
    idle.symm ▸ .refl remembered
  have nothing : (schedule.fire operator world).sent = [] := sends.sent
  have sentBy_eq (id : Nat) :
      Firing.sentBy id (log ++ [schedule.fire operator world]) = Firing.sentBy id log := by
    simp [Firing.sentBy, nothing]
  refine ⟨?_, congrArg World.catalog idle, [], List.nil_subset _, memory, nothing ▸ sends⟩
  rw [idle]
  exact relays.frame rfl (sentBy_eq _) fun input _ =>
    ⟨[], (List.append_nil _).symm, (sentBy_eq _).trans (List.append_nil _).symm⟩

/-- A source sends its oldest arrival on. -/
theorem fires_source {header : OperatorHeader}
    (relays : Relays relations arrived log world (.source header))
    (role_eq : schedule.role header.id = .none) :
    Fires relations arrived log (.source header) (schedule.fire (.source header) world) := by
  have after_eq : (schedule.fire (.source header) world).after =
      (world.evaluate .none (.source header)).1 := role_eq ▸ rfl
  obtain ⟨arrivals, remembered, arrived_eq⟩ := relays
  cases waits : arrivals.queue with
  | nil =>
      refine fires_of_idle ⟨arrivals, remembered, arrived_eq⟩ ?_ remembered
      rw [after_eq, World.evaluate_source_of_nil .none remembered waits]
  | cons tuple rest =>
      have sends := (World.evaluate_source_of_cons .none remembered waits).1
      rw [← after_eq] at sends
      obtain ⟨sent_eq, sentBy_eq⟩ := sentBy_fire (.source header) log sends
      have arrived_later :
          Firing.sentBy header.id (log ++ [schedule.fire (.source header) world]) ++ rest =
            arrived := by
        rw [← arrived_eq, waits]
        exact (congrArg (· ++ rest) sentBy_eq).trans (List.append_assoc _ _ _)
      exact ⟨⟨_, sends.memory, arrived_later⟩, after_eq ▸ World.act_catalog _ _ _, [],
        List.nil_subset _, _, sent_eq ▸ sends⟩

/-- Another operator takes a tuple and sends the response. -/
theorem fires_single {header : OperatorHeader} {logic : SingleLogic} {input : QueryTree}
    (relays : Relays relations arrived log world (.single header logic input))
    (role_eq : schedule.role header.id = .none) (different : input.id ≠ header.id)
    (uncontrolled : world.catalog.access.mode = .uncontrolled)
    (relations_eq : world.catalog.relations = relations) :
    Fires relations arrived log (.single header logic input)
      (schedule.fire (.single header logic input) world) := by
  have after_eq : (schedule.fire (.single header logic input) world).after =
      (world.evaluate .none (.single header logic input)).1 := role_eq ▸ rfl
  obtain ⟨taken, memory, remembered, remembers, input_eq, transform_eq⟩ := relays
  cases waits : (world.output input.id).queue with
  | nil =>
      refine fires_of_idle ⟨taken, memory, remembered, remembers, input_eq, transform_eq⟩ ?_
        remembered
      rw [after_eq, World.evaluate_single_of_nil .none logic waits]
  | cons tuple rest =>
      obtain ⟨later, remembers_later, sends, catalog_eq⟩ :=
        World.responds_evaluate remembers remembered different uncontrolled waits
      rw [← after_eq, relations_eq] at sends
      obtain ⟨sent_eq, sentBy_eq⟩ := sentBy_fire (.single header logic input) log sends
      have input_sent : Firing.sentBy input.id
          (log ++ [schedule.fire (.single header logic input) world]) =
            Firing.sentBy input.id log := Firing.sentBy_append_of_ne log different.symm
      refine ⟨⟨taken ++ [tuple], later, sends.memory, remembers_later, ?_, ?_⟩,
        after_eq ▸ catalog_eq, [input.id], by simp [QueryTree.inputs], later, sent_eq ▸ sends⟩
      · rw [sends.inputs input.id List.mem_cons_self, input_sent, ← input_eq, waits]
        exact List.append_assoc _ _ _
      · rw [logic.transform_append_singleton, ← transform_eq]
        exact sentBy_eq

/-- An operator relays when it is evaluated. -/
theorem fires (relays : Relays relations arrived log world operator)
    (role_eq : schedule.role operator.id = .none)
    (different : ∀ input ∈ operator.inputs, input.id ≠ operator.id)
    (uncontrolled : world.catalog.access.mode = .uncontrolled)
    (relations_eq : world.catalog.relations = relations) :
    Fires relations arrived log operator (schedule.fire operator world) := by
  cases operator with
  | source header => exact relays.fires_source role_eq
  | single header logic input =>
      exact relays.fires_single role_eq (different input (by simp [QueryTree.inputs]))
        uncontrolled relations_eq
  | join header logic left right => exact relays.elim

end Relays

end StreamQuery
