import StreamQuery.Proofs.Operator.Totality
import StreamQuery.Proofs.OptimisticReads
import StreamQuery.Proofs.Pipeline.Progress

/-!
# Results of pipelines

What the result of a window is, and that the mean over a consistent window is this result: its
inputs were all matched with a single version of the relation.
-/

namespace StreamQuery

/-! ## Stamps and matches -/

theorem Stamps.unions_eq_of_forall_eq {all : List Stamps} {entry : RelationId × Nat}
    (nonempty : all ≠ []) (same : ∀ stamps ∈ all, stamps = { entries := [entry] }) :
    unions all = { entries := [entry] } := by
  have adopted (start : Stamps) (first : start = {} ∨ start = { entries := [entry] }) :
      start.union { entries := [entry] } = { entries := [entry] } := by
    rcases first with rfl | rfl <;> simp [union, adopt, version?]
  have fold (all : List Stamps) (same : ∀ stamps ∈ all, stamps = { entries := [entry] }) :
      all.foldl union { entries := [entry] } = { entries := [entry] } := by
    induction all with
    | nil => rfl
    | cons first all induction =>
        rw [List.foldl_cons, same first List.mem_cons_self, adopted _ (.inr rfl)]
        exact induction fun stamps member => same stamps (List.mem_cons_of_mem _ member)
  cases all with
  | nil => exact absurd rfl nonempty
  | cons first all =>
      rw [unions, List.foldl_cons, same first List.mem_cons_self, adopted _ (.inl rfl)]
      exact fold all fun stamps member => same stamps (List.mem_cons_of_mem _ member)

theorem Tuple.arriving_eq_ok {schema : Schema} {values : List Value} {time : Int} {tuple : Tuple}
    (arrives : arriving schema values time = .ok tuple) :
    schema.check values = .ok () ∧ tuple.kind = .data ∧ tuple.values = values ∧
      tuple.lowWater = time ∧ tuple.stamps = {} := by
  obtain ⟨_, checked, made⟩ := bind_eq_ok.mp arrives
  obtain rfl := pure_eq_ok.mp made
  exact ⟨checked, rfl, rfl, rfl, rfl⟩

namespace Pipeline

variable {pipeline : Pipeline} {shown : Snapshot → Prop} {inputs : List Tuple}

/-! ## Results -/

/-- What holds of a list of results and of the next one holds of the longer list. -/
theorem forall_getElem?_append_singleton {results : List Tuple} {result : Tuple}
    {property : Nat → Tuple → Prop}
    (earlier : ∀ number other, results[number]? = some other → property number other)
    (newest : property results.length result) :
    ∀ number other, (results ++ [result])[number]? = some other → property number other := by
  intro number other found
  rcases Nat.lt_trichotomy number results.length with before | rfl | after
  · rw [List.getElem?_append_left before] at found
    exact earlier number other found
  · rw [List.getElem?_concat_length] at found
    obtain rfl := Option.some.inj found
    exact newest
  · have too_long : (results ++ [result]).length ≤ number := by
      rw [List.length_append, List.length_singleton]
      omega
    rw [List.getElem?_eq_none too_long] at found
    cases found

/-- The mean over some inputs that are all matched with one version of the relation. -/
def resultOf (pipeline : Pipeline) (snapshot : Snapshot) (inputs : List Tuple) :
    Except OperatorError Tuple := do
  let matched ← inputs.mapM
    (matchSnapshot pipeline.condition pipeline.combine.schema pipeline.reference.place snapshot)
  (AggregateFunction.mean pipeline.index).apply pipeline.mean.schema
    { tuples := matched.flatten, mark := Time.earliest }

/-- The inputs of the window with a number. -/
def windowOf (pipeline : Pipeline) (inputs : List Tuple) (number : Nat) : List Tuple :=
  (inputs.drop (number * pipeline.window.stride)).take pipeline.window.width

/-- The result of the window with a number, computed from a version that the relation has shown. -/
structure IsResult (pipeline : Pipeline) (shown : Snapshot → Prop) (inputs : List Tuple)
    (number : Nat) (result : Tuple) : Prop where
  /-- The window is full. -/
  full : (pipeline.windowOf inputs number).length = pipeline.window.width
  /-- All inputs of the window were matched with the rows of one version, which is the stamp. -/
  computed : ∃ snapshot, shown snapshot ∧
    pipeline.resultOf snapshot (pipeline.windowOf inputs number) = .ok result ∧
    result.stamps.entries = [(pipeline.reference.place, snapshot.version)]

/-- A result stays what it is when more inputs arrive and the relation changes. -/
theorem IsResult.mono {number : Nat} {result : Tuple}
    (is_result : pipeline.IsResult shown inputs number result) {shown' : Snapshot → Prop}
    (still_shown : ∀ snapshot, shown snapshot → shown' snapshot) (later : List Tuple) :
    pipeline.IsResult shown' (inputs ++ later) number result := by
  have full := is_result.full
  have width_pos := pipeline.window.width_pos
  have same : pipeline.windowOf (inputs ++ later) number = pipeline.windowOf inputs number := by
    rw [windowOf, List.length_take, List.length_drop] at full
    rw [windowOf, List.drop_append_of_le_length (by omega), List.take_append_of_le_length]
    · rfl
    · rw [List.length_drop]
      omega
  obtain ⟨snapshot, is_shown, result_eq, stamped⟩ := is_result.computed
  exact ⟨same ▸ full, snapshot, still_shown snapshot is_shown, same ▸ result_eq, stamped⟩

/-! ## What is fixed during a turn -/

/-- Tuples of data that arrive at the stream, one after the other. -/
structure Feeds (pipeline : Pipeline) (inputs : List Tuple) : Prop where
  /-- They fit the stream and bear no stamps. -/
  fits : ∀ input ∈ inputs, ∃ values,
    Tuple.arriving pipeline.source.schema values input.arrival = .ok input
  /-- Each arrives later than the one before. -/
  increasing : (inputs.map Tuple.arrival).Pairwise (· < ·)
  /-- Their times can be represented. -/
  representable : ∀ input ∈ inputs, input.arrival ≤ Time.latest

/-- A relation whose rows fit its schema, one of them for each input. -/
structure Serves (pipeline : Pipeline) (inputs : List Tuple) (relation : Relation) : Prop where
  /-- The rows have the attributes of the relation. -/
  fits : ∀ row ∈ relation.rows, relation.schema.check row.values = .ok ()
  /-- Each input has one match. -/
  once : ∀ input ∈ inputs, pipeline.condition.MatchesOnce input relation.rows

instance (pipeline : Pipeline) (inputs : List Tuple) (relation : Relation) :
    Decidable (pipeline.Serves inputs relation) :=
  decidable_of_iff
    ((∀ row ∈ relation.rows, relation.schema.check row.values = .ok ()) ∧
      ∀ input ∈ inputs, pipeline.condition.MatchesOnce input relation.rows)
    ⟨fun ⟨fits, once⟩ => ⟨fits, once⟩, fun serves => ⟨serves.fits, serves.once⟩⟩

/-- What is known of a pipeline while the relation does not change. -/
structure Setting (pipeline : Pipeline) (shown : Snapshot → Prop) (inputs : List Tuple)
    (relation : Relation) : Prop where
  id_eq : relation.id = pipeline.reference.place
  schema_eq : pipeline.combine.schema = pipeline.source.schema ++ relation.schema
  /-- Means are taken of numbers. -/
  numeric : ∃ column, pipeline.combine.schema.attribute? pipeline.index = some column ∧
    column.type.isNumeric = true
  feeds : pipeline.Feeds inputs
  serves : pipeline.Serves inputs relation
  /-- The current version is one that was shown. -/
  shown_now : shown relation.snapshot
  /-- All versions have rows of the relation. -/
  fits : ∀ snapshot, shown snapshot → ∀ row ∈ snapshot.rows,
    relation.schema.check row.values = .ok ()
  /-- A version has one content. -/
  unique : ∀ first second, shown first → shown second → first.version = second.version →
    first = second

/-- An input that was matched with a version of the relation has this result. -/
def Matches (pipeline : Pipeline) (shown : Snapshot → Prop) (input result : Tuple) : Prop :=
  ∃ snapshot, shown snapshot ∧
    matchSnapshot pipeline.condition pipeline.combine.schema pipeline.reference.place snapshot
      input = .ok [result]

theorem Feeds.spec (feeds : pipeline.Feeds inputs) {input : Tuple} (member : input ∈ inputs) :
    pipeline.source.schema.check input.values = .ok () ∧ input.lowWater = input.arrival ∧
      input.stamps = {} := by
  obtain ⟨values, arrives⟩ := feeds.fits input member
  obtain ⟨checked, _, values_eq, time_eq, stamps_eq⟩ := Tuple.arriving_eq_ok arrives
  exact ⟨values_eq ▸ checked, time_eq, stamps_eq⟩

theorem Feeds.of_append {first second : List Tuple} (feeds : pipeline.Feeds (first ++ second)) :
    pipeline.Feeds first where
  fits input member := feeds.fits input (List.mem_append_left _ member)
  increasing := (List.pairwise_append.mp (List.map_append ▸ feeds.increasing)).1
  representable input member := feeds.representable input (List.mem_append_left _ member)

theorem Feeds.lowWater_increasing (feeds : pipeline.Feeds inputs) :
    (inputs.map Tuple.lowWater).Pairwise (· < ·) := by
  have times_eq : inputs.map Tuple.lowWater = inputs.map Tuple.arrival :=
    List.map_congr_left fun _ member => (feeds.spec member).2.1
  rw [times_eq]
  exact feeds.increasing

theorem Feeds.lowWater_lt {first second : List Tuple} (feeds : pipeline.Feeds (first ++ second))
    {earlier later : Tuple} (is_first : earlier ∈ first) (is_second : later ∈ second) :
    earlier.lowWater < later.lowWater := by
  have increasing := feeds.lowWater_increasing
  rw [List.map_append, List.pairwise_append] at increasing
  exact increasing.2.2 _ (List.mem_map_of_mem is_first) _ (List.mem_map_of_mem is_second)

theorem Feeds.lowWater_le (feeds : pipeline.Feeds inputs) {input : Tuple}
    (member : input ∈ inputs) : input.lowWater ≤ Time.latest := by
  rw [(feeds.spec member).2.1]
  exact feeds.representable input member

/-- Where the inputs and the rows fit their schemas, a match has a number to take means of. -/
theorem hasNumber_of_mem_matchSnapshot {schema : Schema} {snapshot : Snapshot} {input : Tuple}
    (schema_eq : pipeline.combine.schema = pipeline.source.schema ++ schema)
    (numeric : ∃ column, pipeline.combine.schema.attribute? pipeline.index = some column ∧
      column.type.isNumeric = true)
    (input_fits : pipeline.source.schema.check input.values = .ok ())
    (rows_fit : ∀ row ∈ snapshot.rows, schema.check row.values = .ok ())
    {results : List Tuple}
    (found : matchSnapshot pipeline.condition pipeline.combine.schema pipeline.reference.place
      snapshot input = .ok results) {result : Tuple} (member : result ∈ results) :
    result.HasNumber pipeline.index := by
  obtain ⟨row, row_mem, position, rfl⟩ := mem_matchSnapshot found member
  obtain ⟨column, column_eq, is_number⟩ := numeric
  rw [schema_eq] at column_eq
  obtain ⟨value, value_eq, type_eq⟩ :=
    Schema.exists_value_of_append input_fits (rows_fit row row_mem) column_eq
  exact ⟨value, value_eq, type_eq ▸ is_number⟩

namespace Matches

/-- A match is an input with a row. -/
theorem exists_row {snapshot : Snapshot} {input result : Tuple}
    (found : matchSnapshot pipeline.condition pipeline.combine.schema pipeline.reference.place
      snapshot input = .ok [result]) :
    ∃ row ∈ snapshot.rows, ∃ position,
      result = matchTuple pipeline.combine.schema pipeline.reference.place snapshot.version input
        row position :=
  mem_matchSnapshot found (List.mem_singleton.mpr rfl)

theorem lowWater_eq {input result : Tuple} (matched : pipeline.Matches shown input result) :
    input.lowWater = result.lowWater := by
  obtain ⟨snapshot, _, found⟩ := matched
  obtain ⟨row, _, position, rfl⟩ := exists_row found
  rfl

/-- The match of an input bears the version as its only stamp. -/
theorem stamps_eq (feeds : pipeline.Feeds inputs) {snapshot : Snapshot} {input result : Tuple}
    (member : input ∈ inputs)
    (found : matchSnapshot pipeline.condition pipeline.combine.schema pipeline.reference.place
      snapshot input = .ok [result]) :
    result.stamps = { entries := [(pipeline.reference.place, snapshot.version)] } := by
  obtain ⟨row, _, position, rfl⟩ := exists_row found
  rw [matchTuple, (feeds.spec member).2.2]
  rfl

theorem hasNumber {relation : Relation} (setting : pipeline.Setting shown inputs relation)
    {input result : Tuple} (member : input ∈ inputs)
    (matched : pipeline.Matches shown input result) : result.HasNumber pipeline.index := by
  obtain ⟨snapshot, is_shown, found⟩ := matched
  exact hasNumber_of_mem_matchSnapshot setting.schema_eq setting.numeric
    (setting.feeds.spec member).1 (setting.fits snapshot is_shown) found
    (List.mem_singleton.mpr rfl)

end Matches

/-! ## Windows -/

section

variable {ε α β : Type}

theorem exists_of_forall₂ {related : α → β → Prop} {members : List α} {results : List β}
    (all : List.Forall₂ related members results) {result : β} (inside : result ∈ results) :
    ∃ member ∈ members, related member result := by
  induction all with
  | nil => cases inside
  | @cons member _ members _ first _ induction =>
      rcases List.mem_cons.mp inside with rfl | later
      · exact ⟨member, List.mem_cons_self, first⟩
      · obtain ⟨found, found_mem, is_related⟩ := induction later
        exact ⟨found, List.mem_cons_of_mem _ found_mem, is_related⟩

theorem forall₂_and_mem {related : α → β → Prop} {members : List α} {results : List β}
    (all : List.Forall₂ related members results) :
    List.Forall₂
      (fun member result => (member ∈ members ∧ result ∈ results) ∧ related member result)
      members results := by
  rw [List.forall₂_iff_zip] at all ⊢
  exact ⟨all.1, fun paired => ⟨List.of_mem_zip paired, all.2 paired⟩⟩

theorem mapM_eq_of_forall₂ {compute : α → Except ε (List β)} {members : List α}
    {results : List β}
    (found : List.Forall₂ (fun member result => compute member = .ok [result]) members results) :
    members.mapM compute = .ok (results.map ([·])) := by
  induction found with
  | nil => rfl
  | cons first _ induction =>
      rw [List.mapM_cons, first, induction]
      rfl

end

variable {relation : Relation} {line : Line} {count : Nat} {rest : List Tuple} {buffer : RowBuffer}

/-- The inputs of a window and their matches. -/
theorem members_of_fills
    (fills : line.Fills pipeline.window (pipeline.Matches shown) inputs count rest buffer) :
    List.Forall₂
      (fun input result => (input ∈ inputs ∧ result ∈ buffer.tuples) ∧
        pipeline.Matches shown input result)
      (pipeline.windowOf inputs count) buffer.tuples :=
  (forall₂_and_mem fills.members).imp fun _ _ paired =>
    ⟨⟨List.mem_of_mem_drop (List.mem_of_mem_take paired.1.1), paired.1.2⟩, paired.2⟩

/-- The mean over a window exists. -/
theorem exists_mean_of_fills (setting : pipeline.Setting shown inputs relation)
    (fills : line.Fills pipeline.window (pipeline.Matches shown) inputs count rest buffer) :
    ∃ result, (AggregateFunction.mean pipeline.index).apply pipeline.mean.schema buffer.contents =
      .ok result := by
  refine AggregateFunction.exists_mean (fun tuple inside => ?_) pipeline.mean.schema
  obtain ⟨input, _, ⟨input_mem, _⟩, matched⟩ :=
    exists_of_forall₂ (members_of_fills fills) inside
  exact matched.hasNumber setting input_mem

/-- The members of a consistent window were matched with one version. -/
theorem exists_snapshot_of_isConsistent (setting : pipeline.Setting shown inputs relation)
    {window : List Tuple} {contents : Contents}
    (members : List.Forall₂
      (fun input result => (input ∈ inputs ∧ result ∈ contents.tuples) ∧
        pipeline.Matches shown input result) window contents.tuples)
    (filled : contents.tuples ≠ []) (consistent : contents.isConsistent = true) :
    ∃ snapshot, shown snapshot ∧
      (∀ tuple ∈ contents.tuples,
        tuple.stamps = { entries := [(pipeline.reference.place, snapshot.version)] }) ∧
      List.Forall₂
        (fun input result => matchSnapshot pipeline.condition pipeline.combine.schema
          pipeline.reference.place snapshot input = .ok [result])
        window contents.tuples := by
  have stamped {snapshot : Snapshot} {tuple : Tuple} (inside : tuple ∈ contents.tuples)
      (stamps_eq : tuple.stamps =
        { entries := [(pipeline.reference.place, snapshot.version)] }) :
      (pipeline.reference.place, snapshot.version) ∈ contents.stampEntries :=
    List.mem_flatMap.mpr ⟨tuple, inside, by simp [stamps_eq]⟩
  obtain ⟨first, first_mem⟩ := List.exists_mem_of_ne_nil _ filled
  obtain ⟨_, _, ⟨input_mem, _⟩, snapshot, is_shown, found⟩ := exists_of_forall₂ members first_mem
  have first_stamped := stamped first_mem (Matches.stamps_eq setting.feeds input_mem found)
  -- Whatever another member was matched with has the version that the first one was matched with.
  have same {input result : Tuple} (input_mem : input ∈ inputs) (inside : result ∈ contents.tuples)
      (matched : pipeline.Matches shown input result) :
      matchSnapshot pipeline.condition pipeline.combine.schema pipeline.reference.place snapshot
        input = .ok [result] := by
    obtain ⟨other, other_shown, other_found⟩ := matched
    have other_stamped := stamped inside (Matches.stamps_eq setting.feeds input_mem other_found)
    have version_eq := Contents.version_eq_of_isConsistent consistent first_stamped other_stamped
    rwa [setting.unique snapshot other is_shown other_shown version_eq]
  refine ⟨snapshot, is_shown, fun tuple inside => ?_, ?_⟩
  · obtain ⟨_, _, ⟨input_mem, _⟩, matched⟩ := exists_of_forall₂ members inside
    exact Matches.stamps_eq setting.feeds input_mem (same input_mem inside matched)
  · exact members.imp fun _ _ ⟨⟨input_mem, inside⟩, matched⟩ => same input_mem inside matched

/-- The mean of some inputs, computed from a version that the relation has shown, which is its
stamp. -/
def IsMeanOf (pipeline : Pipeline) (shown : Snapshot → Prop) (inputs : List Tuple)
    (result : Tuple) : Prop :=
  ∃ snapshot, shown snapshot ∧ pipeline.resultOf snapshot inputs = .ok result ∧
    result.stamps.entries = [(pipeline.reference.place, snapshot.version)]

/-- What is computed from a consistent window is the mean of its inputs. -/
theorem isMeanOf_of_isConsistent (setting : pipeline.Setting shown inputs relation)
    {window : List Tuple} {contents : Contents}
    (members : List.Forall₂
      (fun input result => (input ∈ inputs ∧ result ∈ contents.tuples) ∧
        pipeline.Matches shown input result) window contents.tuples)
    (filled : contents.tuples ≠ []) (consistent : contents.isConsistent = true) {result : Tuple}
    (computed : (AggregateFunction.mean pipeline.index).apply pipeline.mean.schema contents =
      .ok result) : pipeline.IsMeanOf shown window result := by
  obtain ⟨snapshot, is_shown, stamped, matched⟩ :=
    exists_snapshot_of_isConsistent setting members filled consistent
  refine ⟨snapshot, is_shown, ?_, ?_⟩
  · have flat : (contents.tuples.map ([·])).flatten = contents.tuples := by
      rw [← List.flatMap_def, List.flatMap_singleton']
    rw [resultOf, mapM_eq_of_forall₂ matched]
    simp only [bind, Except.bind, flat]
    exact computed
  · obtain ⟨_, stamps_eq, _⟩ := AggregateFunction.apply_eq_ok computed
    rw [stamps_eq, Stamps.unions_eq_of_forall_eq (by simpa using filled)]
    exact List.forall_mem_map.mpr stamped

/-- What is computed from a consistent window is the result of its inputs. -/
theorem isResult_of_fills (setting : pipeline.Setting shown inputs relation)
    (fills : line.Fills pipeline.window (pipeline.Matches shown) inputs count rest buffer)
    (consistent : buffer.contents.isConsistent = true) {result : Tuple}
    (computed : (AggregateFunction.mean pipeline.index).apply pipeline.mean.schema
      buffer.contents = .ok result) :
    pipeline.IsResult shown inputs count result := by
  have members := members_of_fills fills
  have filled : 0 < buffer.tuples.length := fills.filled ▸ pipeline.window.width_pos
  exact ⟨members.length_eq.trans fills.filled,
    isMeanOf_of_isConsistent setting members (List.ne_nil_of_length_pos filled) consistent computed⟩

end Pipeline

end StreamQuery
