import StreamQuery.Proofs.Engine.Sends
import StreamQuery.Proofs.Tuple.Joined

/-!
# Conditions on matches

A match asks its condition about pairs of a tuple and a row, a selection asks about single tuples.
Where the names of a condition mean the same in both places, a match with the condition can be split
into a match with every row and a selection: the selection sends what the match would have sent, and
fails where it would have failed.
-/

namespace StreamQuery

/-- What a selection sends for several tuples. -/
def selectTuples (condition : Condition) (tuples : List Tuple) :
    Except OperatorError (List Tuple) :=
  (tuples.mapM (selectTuple condition)).map List.flatten

theorem selectTuples_cons (condition : Condition) (tuple : Tuple) (tuples : List Tuple) :
    selectTuples condition (tuple :: tuples) = (do
      let first ← selectTuple condition tuple
      let later ← selectTuples condition tuples
      return first ++ later) := by
  rw [selectTuples, selectTuples, List.mapM_cons]
  cases selectTuple condition tuple with
  | error error => rfl
  | ok first =>
      cases tuples.mapM (selectTuple condition) with
      | error error => rfl
      | ok later => rfl

/-! ## Scans of relations -/

section

variable {condition : Condition} {left_schema right_schema : Schema} {tuple : Tuple}

/-- A match with every row never fails. -/
theorem matchRows_always (schema : Schema) (relation : RelationId) (version : Nat) (tuple : Tuple)
    (rows : List (Tuple × Nat)) :
    matchRows .always schema relation version tuple rows =
      .ok (rows.map fun (row, position) =>
        matchTuple schema relation version tuple row position) := by
  induction rows with
  | nil => rfl
  | cons entry rows induction =>
      rw [matchRows, induction]
      rfl

theorem matchTuple_joins (fits : tuple.Fits left_schema) {row : Tuple}
    (row_fits : row.Fits right_schema) (relation : RelationId) (version position : Nat) :
    (matchTuple (left_schema ++ right_schema) relation version tuple row position).Concatenates
      tuple row where
  schema_eq := by rw [fits.schema_eq, row_fits.schema_eq]; rfl
  values_eq := rfl

/-- A selection asks about matches what a match asks about rows. -/
theorem matchRows_eq_selectTuples
    (resolved : condition.unresolvedInPair? left_schema right_schema = none)
    (apart : ∀ name ∈ condition.rightNames, left_schema.indexOf? name = none)
    (fits : tuple.Fits left_schema) (relation : RelationId) (version : Nat)
    {rows : List (Tuple × Nat)} (rows_fit : ∀ entry ∈ rows, entry.1.Fits right_schema) :
    matchRows condition (left_schema ++ right_schema) relation version tuple rows =
      selectTuples condition (rows.map fun (row, position) =>
        matchTuple (left_schema ++ right_schema) relation version tuple row position) := by
  induction rows with
  | nil => rfl
  | cons entry rows induction =>
      obtain ⟨row, position⟩ := entry
      have row_fits : row.Fits right_schema := rows_fit (row, position) List.mem_cons_self
      have agree := condition.checkPair_eq_check resolved apart fits
        (matchTuple_joins fits row_fits relation version position)
      rw [matchRows, List.map_cons, selectTuples_cons, selectTuple, agree,
        induction fun entry member => rows_fit entry (List.mem_cons_of_mem _ member)]
      generalize selectTuples condition _ = later
      rcases condition.check _ with error | _ | _
      · rfl
      · cases later <;> rfl
      · cases later <;> rfl

/-- A match is one with every row, followed by a selection. -/
theorem matchSnapshot_eq_selectTuples
    (resolved : condition.unresolvedInPair? left_schema right_schema = none)
    (apart : ∀ name ∈ condition.rightNames, left_schema.indexOf? name = none)
    (fits : tuple.Fits left_schema) (relation : RelationId) {snapshot : Snapshot}
    (rows_fit : ∀ row ∈ snapshot.rows, row.Fits right_schema) :
    matchSnapshot condition (left_schema ++ right_schema) relation snapshot tuple =
      matchSnapshot .always (left_schema ++ right_schema) relation snapshot tuple >>=
        selectTuples condition := by
  rw [matchSnapshot, matchSnapshot, matchRows_always]
  refine matchRows_eq_selectTuples resolved apart fits relation snapshot.version
    fun entry member => rows_fit entry.1 ?_
  exact List.fst_mem_of_mem_zipIdx member

end

/-! ## Evaluations -/

namespace World

/-- An operator is evaluated some number of times and never fails. -/
inductive Evaluates (role : CommitRole) (operator : QueryTree) : Nat → World → World → Prop
  | refl (world : World) : Evaluates role operator 0 world world
  | step {count : Nat} {world middle after : World} {step : Step} :
      world.evaluate role operator = (middle, .ok step) →
      Evaluates role operator count middle after →
      Evaluates role operator (count + 1) world after

/-- A selection that does not fail sends its results. -/
theorem evaluate_select {world : World} (role : CommitRole) {header : OperatorHeader}
    {condition : Condition} {input : QueryTree} {seen passed : Nat} {tuple : Tuple}
    {rest results : List Tuple} (remembered : world.memory? header.id = some (.select seen passed))
    (different : input.id ≠ header.id) (waits : (world.output input.id).queue = tuple :: rest)
    (data : tuple.isEndOfStream = false) (selected : selectTuple condition tuple = .ok results) :
    ∃ after step, world.evaluate role (.single header (.select condition) input) =
        (after, .ok step) ∧
      Sends header.id [input.id] results (.select (seen + 1) (passed + results.length)) world
        after := by
  have settled : world.hasPendingCommit header.id = false := by
    rw [hasPendingCommit_eq, remembered]
    rfl
  obtain ⟨taken, takes, _, evaluated⟩ :=
    exists_taken role (.select condition) remembered settled different waits
  obtain ⟨step, delivers, quiet⟩ := Cell.deliver_spec (.ok results)
  have selects (cell : Cell) (memory_eq : cell.memory = .select seen passed) :
      (cell.select header.name condition tuple).1.output = cell.output.enqueueAll results ∧
        (cell.select header.name condition tuple).1.memory =
          .select (seen + 1) (passed + results.length) ∧
        (cell.select header.name condition tuple).2 = step := by
    simp only [Cell.select, memory_eq, selected]
    exact delivers _
  obtain ⟨sends, step_eq⟩ := takes.act (by simpa using different.symm) _ selects
  obtain ⟨reported, reported_eq, _⟩ := quiet results rfl
  rw [evaluated, if_neg (by simp [data]), process]
  exact ⟨_, reported, Prod.ext rfl (step_eq.trans reported_eq), sends⟩

/-- A selection that is evaluated once for each of the oldest tuples sends what it selects. -/
theorem evaluates_select (role : CommitRole) {header : OperatorHeader} {condition : Condition}
    {input : QueryTree} (different : input.id ≠ header.id) {waiting rest results : List Tuple}
    (data : ∀ tuple ∈ waiting, tuple.isEndOfStream = false)
    (selected : selectTuples condition waiting = .ok results) {world : World} {seen passed : Nat}
    (remembered : world.memory? header.id = some (.select seen passed))
    (waits : (world.output input.id).queue = waiting ++ rest) :
    ∃ after, Evaluates role (.single header (.select condition) input) waiting.length world after ∧
      after.output header.id = (world.output header.id).enqueueAll results ∧
      (after.output input.id).queue = rest := by
  induction waiting generalizing world seen passed results with
  | nil =>
      obtain rfl : [] = results := Except.ok.inj selected
      exact ⟨world, .refl world, rfl, waits⟩
  | cons tuple waiting induction =>
      rw [selectTuples_cons] at selected
      obtain ⟨first, first_eq, selected⟩ := bind_eq_ok.mp selected
      obtain ⟨later, later_eq, selected⟩ := bind_eq_ok.mp selected
      obtain rfl : first ++ later = results := Except.ok.inj selected
      obtain ⟨middle, step, evaluated, sends⟩ := evaluate_select role remembered different waits
        (data tuple List.mem_cons_self) first_eq
      obtain ⟨after, evaluates, output_eq, queue_eq⟩ := induction
        (fun other member => data other (List.mem_cons_of_mem _ member)) later_eq sends.memory
        (by rw [sends.inputs input.id List.mem_cons_self, waits]; rfl)
      refine ⟨after, .step evaluated evaluates, ?_, queue_eq⟩
      rw [output_eq, sends.self]
      exact List.foldl_append.symm

/-- The oldest tuple that waits at a match is data of the left schema, and the rows that it is going
to be asked about are of the right schema. -/
structure AwaitsMatch (world : World) (header : OperatorHeader) (reference : RelationReference)
    (input : QueryTree) (left_schema right_schema : Schema) : Prop where
  /-- The match has a place in the world. -/
  remembered : world.memory? header.id = some .stateless
  /-- It does not read what it sends. -/
  different : input.id ≠ header.id
  /-- Its results have the attributes of both schemas. -/
  schema_eq : header.schema = left_schema ++ right_schema
  /-- A tuple waits. -/
  waits : ∃ tuple rest, (world.output input.id).queue = tuple :: rest ∧
    tuple.isEndOfStream = false ∧ tuple.Fits left_schema
  /-- The relation can be read, whatever the mode shows of it. -/
  reads : ∃ relation, world.catalog.relations[reference.place]? = some relation ∧
    ∀ row ∈ (world.catalog.readRelation reference.place relation).1.rows, row.Fits right_schema

/-- A match that does not fail sends all that matches. -/
theorem AwaitsMatch.exists_results {world : World} {header : OperatorHeader}
    {reference : RelationReference} {input : QueryTree} {left_schema right_schema : Schema}
    (awaits : world.AwaitsMatch header reference input left_schema right_schema) :
    ∃ (relation : RelationId) (snapshot : Snapshot) (catalog : Catalog) (tuple : Tuple),
      tuple.Fits left_schema ∧ (∀ row ∈ snapshot.rows, row.Fits right_schema) ∧
      ∀ (role : CommitRole) (condition : Condition),
        (∀ results, matchSnapshot condition header.schema relation snapshot tuple = .ok results →
          ∃ after step, world.evaluate role (.single header (.combine reference condition) input) =
              (after, .ok step) ∧
            after.catalog = catalog ∧
            after.output header.id = (world.output header.id).enqueueAll results) ∧
        ∀ error, matchSnapshot condition header.schema relation snapshot tuple = .error error →
          (world.evaluate role (.single header (.combine reference condition) input)).2 =
            .error error := by
  obtain ⟨tuple, rest, waits, data, fits⟩ := awaits.waits
  obtain ⟨relation, found, rows_fit⟩ := awaits.reads
  have settled : world.hasPendingCommit header.id = false := by
    rw [hasPendingCommit_eq, awaits.remembered]
    rfl
  refine ⟨relation.id, _, (world.catalog.readRelation reference.place relation).2, tuple, fits,
    rows_fit, fun role condition => ⟨fun results matched => ?_, fun error failed => ?_⟩⟩
  · obtain ⟨sends, ⟨step, step_eq, _⟩, catalog_eq⟩ := evaluate_combine role awaits.remembered
      settled awaits.different waits data found rfl matched
    exact ⟨_, step, Prod.ext rfl step_eq, catalog_eq, sends.self⟩
  · obtain ⟨taken, takes, catalog_eq, evaluated⟩ := exists_taken role
      (.combine reference condition) awaits.remembered settled awaits.different waits
    have reading : Sends header.id [input.id] [] .stateless world
        { taken with catalog := (world.catalog.readRelation reference.place relation).2 } :=
      takes.of_cells_eq rfl
    obtain ⟨cell, cell_found, _⟩ := reading.exists_cell
    rw [evaluated, if_neg (by simp [data]), process]
    simp only [catalog_eq, found, failed]
    rw [act_of_getElem? cell_found]
    rfl

/-- Wherever some tuples wait at a selection, it can be evaluated once for each of them without a
failure, and sends the results. -/
def SelectsTo (condition : Condition) (waiting results : List Tuple) : Prop :=
  ∀ (world : World) (role : CommitRole) (header : OperatorHeader) (input : QueryTree)
    (seen passed : Nat) (rest : List Tuple), input.id ≠ header.id →
    world.memory? header.id = some (.select seen passed) →
    (world.output input.id).queue = waiting ++ rest →
    ∃ after, Evaluates role (.single header (.select condition) input) waiting.length world after ∧
      after.output header.id = (world.output header.id).enqueueAll results ∧
      (after.output input.id).queue = rest

end World

/-- A condition on pairs, all names of which are known, can be asked about joined tuples if no name
that it looks up on the right occurs on the left: it holds, fails to hold or cannot be evaluated
for both alike. So it does not matter whether a scan of a relation evaluates it for every row or a
selection evaluates it for every match. -/
theorem match_eq_match_then_select (condition : Condition) (left_schema right_schema : Schema)
    (resolved : condition.unresolvedInPair? left_schema right_schema = none)
    (apart : ∀ name ∈ condition.rightNames, left_schema.indexOf? name = none) :
    (∀ left right joined : Tuple, left.Fits left_schema → right.Fits right_schema →
      joined.Concatenates left right → condition.checkPair left right = condition.check joined) ∧
    (∀ (relation : RelationId) (snapshot : Snapshot) (tuple : Tuple), tuple.Fits left_schema →
      (∀ row ∈ snapshot.rows, row.Fits right_schema) →
      matchSnapshot condition (left_schema ++ right_schema) relation snapshot tuple =
        matchSnapshot .always (left_schema ++ right_schema) relation snapshot tuple >>=
          selectTuples condition) ∧
    ∀ (world : World) (role : CommitRole) (header : OperatorHeader)
      (reference : RelationReference) (input : QueryTree) (after : World) (step : Step),
      world.AwaitsMatch header reference input left_schema right_schema →
      world.evaluate role (.single header (.combine reference condition) input) =
        (after, .ok step) →
      ∃ (all results : List Tuple) (free : World) (free_step : Step),
        world.evaluate role (.single header (.combine reference .always) input) =
          (free, .ok free_step) ∧
        free.catalog = after.catalog ∧
        free.output header.id = (world.output header.id).enqueueAll all ∧
        after.output header.id = (world.output header.id).enqueueAll results ∧
        World.SelectsTo condition all results := by
  refine ⟨fun left right joined fits _ joins =>
      condition.checkPair_eq_check resolved apart fits joins,
    fun relation snapshot tuple fits rows_fit =>
      matchSnapshot_eq_selectTuples resolved apart fits relation rows_fit,
    fun world role header reference input after step awaits evaluated => ?_⟩
  obtain ⟨relation, snapshot, catalog, tuple, fits, rows_fit, evaluates⟩ := awaits.exists_results
  have split := matchSnapshot_eq_selectTuples resolved apart fits relation rows_fit
  cases matched : matchSnapshot condition header.schema relation snapshot tuple with
  | error error =>
      have failed := (evaluates role condition).2 error matched
      rw [evaluated] at failed
      cases failed
  | ok results =>
      have all_eq := matchRows_always header.schema relation snapshot.version tuple
        snapshot.rows.zipIdx
      obtain ⟨free, free_step, free_evaluated, free_catalog, free_output⟩ :=
        (evaluates role .always).1 _ all_eq
      obtain ⟨same, same_step, same_evaluated, same_catalog, same_output⟩ :=
        (evaluates role condition).1 results matched
      obtain ⟨rfl, -⟩ := Prod.mk.inj (evaluated.symm.trans same_evaluated)
      refine ⟨_, results, free, free_step, free_evaluated, free_catalog.trans same_catalog.symm,
        free_output, same_output, ?_⟩
      intro selecting selecting_role selection source seen passed rest different remembered waits
      refine World.evaluates_select selecting_role different (fun made member => ?_) ?_ remembered
        waits
      · obtain ⟨entry, _, rfl⟩ := List.mem_map.mp member
        rfl
      · rw [awaits.schema_eq] at matched all_eq ⊢
        rw [← matched, split, matchSnapshot, all_eq]
        rfl

/-- Goods that are quoted at a price. Price lists have an attribute of this name, too. -/
def quoteSchema : Schema :=
  ⟨[{ name := "goods", type := .int }, { name := "price", type := .int }]⟩

/-- The quoted price is above 5, and the list has a price for the goods. -/
def listedAboveFive : Condition :=
  .and (.constant "price" .greater (.int 5)) (.attributes "goods" .equal "id")

/-- Quotes together with listed prices. -/
def listedHeader : OperatorHeader where
  id := 1
  name := "listed"
  schema := quoteSchema ++ priceSchema

/-- The source of quotes. -/
def quotes : QueryTree :=
  .source { id := 0, name := "quotes", schema := quoteSchema }

/-- A quote waits for a price list with two prices for its goods. -/
def quoteWorld : World where
  cells :=
    [{ output := { queue := [.ofInts quoteSchema [1, 7] 0] }, memory := .source {} },
      { memory := .stateless }]
  catalog :=
    { relations :=
        [{ id := 0
           name := "prices"
           schema := priceSchema
           rows := [[1, 10], [2, 3], [1, 4]].map (Tuple.ofInts priceSchema · 0) }]
      access := { mode := .snapshot } }

theorem quoteWorld_awaitsMatch :
    quoteWorld.AwaitsMatch listedHeader ⟨0, "prices"⟩ quotes quoteSchema priceSchema where
  remembered := rfl
  different := by decide
  schema_eq := rfl
  waits := ⟨_, [], rfl, rfl, rfl, rfl⟩
  reads := by
    refine ⟨_, rfl, fun row member => ?_⟩
    obtain ⟨values, listed, rfl⟩ := List.mem_map.mp member
    simp only [List.mem_cons, List.not_mem_nil, or_false] at listed
    obtain rfl | rfl | rfl := listed <;> exact ⟨rfl, rfl⟩

/-- Of the three rows two have a price for the goods. -/
theorem quote_matched_then_selected :
    (listedAboveFive.unresolvedInPair? quoteSchema priceSchema = none ∧
      (∀ name ∈ listedAboveFive.rightNames, quoteSchema.indexOf? name = none) ∧
      quoteWorld.AwaitsMatch listedHeader ⟨0, "prices"⟩ quotes quoteSchema priceSchema ∧
      (quoteWorld.evaluate (.of .snapshot false)
        (.single listedHeader (.combine ⟨0, "prices"⟩ listedAboveFive) quotes)).2 =
          .ok (.emitted 2)) ∧
    ∃ (all results : List Tuple) (free : World) (free_step : Step),
      quoteWorld.evaluate (.of .snapshot false)
          (.single listedHeader (.combine ⟨0, "prices"⟩ .always) quotes) = (free, .ok free_step) ∧
        free.catalog = (quoteWorld.evaluate (.of .snapshot false)
          (.single listedHeader (.combine ⟨0, "prices"⟩ listedAboveFive) quotes)).1.catalog ∧
        free.output listedHeader.id = (quoteWorld.output listedHeader.id).enqueueAll all ∧
        (quoteWorld.evaluate (.of .snapshot false)
          (.single listedHeader (.combine ⟨0, "prices"⟩ listedAboveFive) quotes)).1.output
            listedHeader.id = (quoteWorld.output listedHeader.id).enqueueAll results ∧
        World.SelectsTo listedAboveFive all results :=
  have resolved : listedAboveFive.unresolvedInPair? quoteSchema priceSchema = none := by decide
  have apart : ∀ name ∈ listedAboveFive.rightNames, quoteSchema.indexOf? name = none := by decide
  have evaluated : (quoteWorld.evaluate (.of .snapshot false)
      (.single listedHeader (.combine ⟨0, "prices"⟩ listedAboveFive) quotes)).2 =
        .ok (.emitted 2) := rfl
  ⟨⟨resolved, apart, quoteWorld_awaitsMatch, evaluated⟩,
    (match_eq_match_then_select listedAboveFive quoteSchema priceSchema resolved apart).2.2
      quoteWorld (.of .snapshot false) listedHeader ⟨0, "prices"⟩ quotes _ _
      quoteWorld_awaitsMatch (Prod.ext rfl evaluated)⟩

end StreamQuery
