import StreamQuery.Proofs.Pipeline.Results

/-!
# What a match sends on

A match sends markers on as they are, and for a tuple of data what it is joined to in a version of
the relation. Nothing that it sends on is older than the tuple.
-/

namespace StreamQuery

/-- Where a member of a list that was expanded comes from. -/
theorem exists_split_of_flatMap_eq {α β : Type} {expand : α → List β} {members : List α}
    {front rest : List β} {head : β}
    (expanded : members.flatMap expand = front ++ head :: rest) :
    ∃ before member after part others, members = before ++ member :: after ∧
      front = before.flatMap expand ++ part ∧ expand member = part ++ head :: others ∧
      rest = others ++ after.flatMap expand := by
  induction members generalizing front with
  | nil => simp at expanded
  | cons first members induction =>
      rw [List.flatMap_cons, List.append_eq_append_iff] at expanded
      rcases expanded with ⟨later, rfl, expanded⟩ | ⟨part, first_eq, rest_eq⟩
      · obtain ⟨before, member, after, part, others, rfl, rfl, member_eq, others_eq⟩ :=
          induction expanded
        exact ⟨first :: before, member, after, part, others, rfl, by simp, member_eq, others_eq⟩
      · cases part with
        | nil =>
            obtain ⟨before, member, after, part, others, rfl, nil_eq, member_eq, others_eq⟩ :=
              @induction [] rest_eq.symm
            refine ⟨first :: before, member, after, part, others, rfl, ?_, member_eq, others_eq⟩
            rw [List.flatMap_cons, List.append_assoc, ← nil_eq, first_eq, List.append_nil,
              List.append_nil]
        | cons next others =>
            obtain ⟨rfl, others_eq⟩ := List.cons.inj rest_eq
            exact ⟨[], first, members, front, others, rfl, rfl, first_eq, others_eq⟩

namespace Pipeline

/-- What a tuple of data is joined to in a version of the relation. -/
def matchesOf (pipeline : Pipeline) (snapshot : Snapshot) (tuple : Tuple) : List Tuple :=
  match matchSnapshot pipeline.condition pipeline.combine.schema pipeline.reference.place snapshot
    tuple with
  | .ok results => results
  | .error _ => []

/-- What the match sends on for a tuple. -/
def sends (pipeline : Pipeline) (snapshot : Snapshot) (tuple : Tuple) : List Tuple :=
  if tuple.isEndOfStream then [tuple] else pipeline.matchesOf snapshot tuple

/-- A tuple that can be joined with a version of the relation, such that means can be taken. -/
structure Answers (pipeline : Pipeline) (snapshot : Snapshot) (tuple : Tuple) : Prop where
  /-- The match does not fail. -/
  matched : matchSnapshot pipeline.condition pipeline.combine.schema pipeline.reference.place
    snapshot tuple = .ok (pipeline.matchesOf snapshot tuple)
  /-- What it sends on has numbers. -/
  numeric : ∀ result ∈ pipeline.matchesOf snapshot tuple, result.HasNumber pipeline.index

/-- As many matches of some inputs as a window holds, from a position on. -/
def block (pipeline : Pipeline) (snapshot : Snapshot) (inputs : List Tuple) (position : Nat) :
    List Tuple :=
  ((inputs.flatMap (pipeline.matchesOf snapshot)).drop position).take pipeline.window.width

/-- The mean of some matches. -/
def meanOf (pipeline : Pipeline) (tuples : List Tuple) : Except OperatorError Tuple :=
  (AggregateFunction.mean pipeline.index).apply pipeline.mean.schema
    { tuples, mark := Time.earliest }

variable {pipeline : Pipeline} {snapshot : Snapshot} {tuple result : Tuple}

theorem matchesOf_eq {results : List Tuple}
    (matched : matchSnapshot pipeline.condition pipeline.combine.schema pipeline.reference.place
      snapshot tuple = .ok results) : pipeline.matchesOf snapshot tuple = results := by
  rw [matchesOf, matched]

theorem sends_of_marker (is_marker : tuple.isEndOfStream = true) :
    pipeline.sends snapshot tuple = [tuple] :=
  if_pos is_marker

theorem sends_of_data (is_data : tuple.isEndOfStream = false) :
    pipeline.sends snapshot tuple = pipeline.matchesOf snapshot tuple :=
  if_neg (by simp [is_data])

/-- What a tuple is joined to is the tuple with a row. -/
theorem exists_row_of_mem_matchesOf (member : result ∈ pipeline.matchesOf snapshot tuple) :
    ∃ row ∈ snapshot.rows, ∃ position, result = matchTuple pipeline.combine.schema
      pipeline.reference.place snapshot.version tuple row position := by
  rw [matchesOf] at member
  split at member
  · rename_i matched
    exact mem_matchSnapshot matched member
  · cases member

theorem isEndOfStream_of_mem_matchesOf (member : result ∈ pipeline.matchesOf snapshot tuple) :
    result.isEndOfStream = false := by
  obtain ⟨row, _, position, rfl⟩ := exists_row_of_mem_matchesOf member
  rfl

theorem lowWater_of_mem_sends (member : result ∈ pipeline.sends snapshot tuple) :
    result.lowWater = tuple.lowWater := by
  rw [sends] at member
  split at member
  · rw [List.mem_singleton.mp member]
  · obtain ⟨row, _, position, rfl⟩ := exists_row_of_mem_matchesOf member
    rfl

/-- What is sent on carries data exactly for tuples of data. -/
theorem dataOf_flatMap_sends (tuples : List Tuple) :
    dataOf (tuples.flatMap (pipeline.sends snapshot)) =
      (dataOf tuples).flatMap (pipeline.matchesOf snapshot) := by
  induction tuples with
  | nil => rfl
  | cons tuple tuples induction =>
      rw [List.flatMap_cons, dataOf_append, induction]
      cases is_marker : tuple.isEndOfStream with
      | true =>
          rw [sends_of_marker is_marker, dataOf_cons_of_marker is_marker,
            dataOf_cons_of_marker is_marker, dataOf_nil, List.nil_append]
      | false =>
          have all_data : dataOf (pipeline.matchesOf snapshot tuple) =
              pipeline.matchesOf snapshot tuple :=
            List.filter_eq_self.mpr fun result member => by
              simp [isEndOfStream_of_mem_matchesOf member]
          rw [sends_of_data is_marker, dataOf_cons_of_data is_marker, List.flatMap_cons, all_data]

/-- The mean of a block exists. -/
theorem exists_meanOf_block {inputs : List Tuple}
    (answers : ∀ input ∈ inputs, pipeline.Answers snapshot input) (position : Nat) :
    ∃ result, pipeline.meanOf (pipeline.block snapshot inputs position) = .ok result := by
  refine AggregateFunction.exists_mean (fun tuple member => ?_) pipeline.mean.schema
  obtain ⟨input, input_mem, matched⟩ :=
    List.mem_flatMap.mp (List.mem_of_mem_drop (List.mem_of_mem_take member))
  exact (answers input input_mem).numeric tuple matched

/-- A full block stays what it is when more inputs arrive. -/
theorem block_append {inputs : List Tuple} {position : Nat}
    (full : (pipeline.block snapshot inputs position).length = pipeline.window.width)
    (later : List Tuple) :
    pipeline.block snapshot (inputs ++ later) position =
      pipeline.block snapshot inputs position := by
  have width_pos := pipeline.window.width_pos
  rw [block, List.length_take, List.length_drop] at full
  rw [block, List.flatMap_append, List.drop_append_of_le_length (by omega),
    List.take_append_of_le_length]
  · rfl
  · rw [List.length_drop]
    omega

end Pipeline

end StreamQuery
