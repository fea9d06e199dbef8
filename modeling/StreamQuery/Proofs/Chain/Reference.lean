import StreamQuery.Operator.Matching
import StreamQuery.Plan.Tree
import StreamQuery.Proofs.Tuple.Data
import StreamQuery.Proofs.Window.Completed

/-!
# Reference results of chains

A query without joins is a chain of operators behind one source. Each operator turns a stream into a
stream: a selection filters it, a projection maps it, a match expands each tuple, and an aggregation
computes one tuple from each window that is completed. Markers stay where they are. The composition
of these functions is what the chain computes from the arrivals at its source, whatever the order in
which its operators are evaluated.

An operator sends nothing for a tuple that it fails on. An aggregation that fails on a window has
sent the results of the windows before it.
-/

namespace StreamQuery

/-! ## Operators as functions of streams -/

/-- Whether a selection sends a tuple on. -/
def Condition.passes (condition : Condition) (tuple : Tuple) : Bool :=
  tuple.isEndOfStream || (condition.check tuple).toOption = some true

/-- What a projection sends for a tuple. -/
def projection? (indices : List Nat) (schema : Schema) (tuple : Tuple) : Option Tuple :=
  if tuple.isEndOfStream then some tuple else (projectTuple indices schema tuple).toOption

/-- What a match with one of some relations sends for a tuple. -/
def expansion (relations : List Relation) (reference : RelationReference) (condition : Condition)
    (schema : Schema) (tuple : Tuple) : List Tuple :=
  if tuple.isEndOfStream then
    [tuple]
  else
    match relations[reference.place]? with
    | none => []
    | some relation =>
      (matchSnapshot condition schema relation.id relation.snapshot tuple).toOption.getD []

namespace AggregateFunction

/-- What is computed from the tuples of a window. -/
def ofTuples (function : AggregateFunction) (schema : Schema) (tuples : List Tuple) :
    Except OperatorError Tuple :=
  function.apply schema { tuples, mark := 0 }

/-- The results of windows, up to the first that fails. -/
def resultsOf (function : AggregateFunction) (schema : Schema) : List (List Tuple) → List Tuple
  | [] => []
  | tuples :: windows =>
    match function.ofTuples schema tuples with
    | .error _ => []
    | .ok result => result :: function.resultsOf schema windows

/-- What an aggregation sends for a tuple that comes after others. -/
def response (function : AggregateFunction) (window : Window) (schema : Schema)
    (earlier : List Tuple) (tuple : Tuple) : List Tuple :=
  if tuple.isEndOfStream then
    [tuple]
  else
    function.resultsOf schema (window.completed (tuple :: (dataOf earlier).reverse))

/-- What an aggregation makes of a stream that comes after other tuples. -/
def aggregateAfter (function : AggregateFunction) (window : Window) (schema : Schema) :
    List Tuple → List Tuple → List Tuple
  | _, [] => []
  | earlier, tuple :: tuples =>
    function.response window schema earlier tuple ++
      function.aggregateAfter window schema (earlier ++ [tuple]) tuples

end AggregateFunction

namespace SingleLogic

/-- What an operator makes of a stream. -/
def transform (relations : List Relation) (schema : Schema) :
    SingleLogic → List Tuple → List Tuple
  | select condition => List.filter condition.passes
  | project indices => List.filterMap (projection? indices schema)
  | combine reference condition => List.flatMap (expansion relations reference condition schema)
  | aggregate window function => function.aggregateAfter window schema []

/-- What an operator sends for a tuple that comes after others. -/
def respond (relations : List Relation) (schema : Schema) (logic : SingleLogic)
    (earlier : List Tuple) (tuple : Tuple) : List Tuple :=
  match logic with
  | select condition => if condition.passes tuple then [tuple] else []
  | project indices => (projection? indices schema tuple).toList
  | combine reference condition => expansion relations reference condition schema tuple
  | aggregate window function =>
    function.response window schema earlier tuple

end SingleLogic

namespace QueryTree

/-- Whether a query has no joins. -/
def isChain : QueryTree → Bool
  | source _ => true
  | single _ _ input => input.isChain
  | join _ _ _ _ => false

/-- The source of a chain. -/
def sourceId : QueryTree → Nat
  | source header => header.id
  | single _ _ input => input.sourceId
  | join _ _ left _ => left.sourceId

/-- What a chain computes from the arrivals at its source. -/
def reference (relations : List Relation) : QueryTree → List Tuple → List Tuple
  | source _, arrived => arrived
  | single header logic input, arrived =>
    logic.transform relations header.schema (input.reference relations arrived)
  | join _ _ _ _, _ => []

end QueryTree

namespace QueryTree

/-- A chain has no joins. -/
theorem join_notMem_postOrder {tree : QueryTree} (chain : tree.isChain = true)
    {header : OperatorHeader} {logic : JoinLogic} {left right : QueryTree} :
    .join header logic left right ∉ tree.postOrder := by
  induction tree with
  | source header => simp [postOrder]
  | single header logic input induction => simpa [postOrder] using induction chain
  | join header logic left right => cases chain

/-- A chain has one source. -/
theorem id_eq_sourceId {tree : QueryTree} (chain : tree.isChain = true) {header : OperatorHeader}
    (member : .source header ∈ tree.postOrder) : header.id = tree.sourceId := by
  induction tree with
  | source other =>
      obtain rfl : header = other := by simpa [postOrder] using member
      rfl
  | single other logic input induction =>
      exact induction chain (by simpa [postOrder] using member)
  | join other logic left right => cases chain

end QueryTree

/-! ## Windows -/

namespace AggregateFunction

variable (function : AggregateFunction) (window : Window) (schema : Schema)

/-- What is computed from a window does not depend on its mark. -/
theorem apply_eq_ofTuples (contents : Contents) :
    function.apply schema contents = function.ofTuples schema contents.tuples := by
  cases function <;> rfl

/-- Windows that are not checked are evaluated up to the first that fails. -/
theorem results_ofWindows (windows : List Contents) :
    (Evaluation.ofWindows (function.apply schema) false windows).results =
      function.resultsOf schema (windows.map Contents.tuples) := by
  induction windows with
  | nil => rfl
  | cons contents windows induction =>
      rw [Evaluation.ofWindows, List.map_cons, resultsOf, apply_eq_ofTuples]
      cases function.ofTuples schema contents.tuples with
      | error error => rfl
      | ok result => exact congrArg (result :: ·) induction

theorem aggregateAfter_append (earlier first second : List Tuple) :
    function.aggregateAfter window schema earlier (first ++ second) =
      function.aggregateAfter window schema earlier first ++
        function.aggregateAfter window schema (earlier ++ first) second := by
  induction first generalizing earlier with
  | nil => rw [List.append_nil]; rfl
  | cons tuple tuples induction =>
      rw [List.cons_append, aggregateAfter, aggregateAfter, induction, List.append_assoc,
        List.append_assoc, List.singleton_append]

end AggregateFunction

/-! ## Prefixes -/

namespace SingleLogic

variable (relations : List Relation) (schema : Schema) (logic : SingleLogic)

@[simp] theorem transform_nil : logic.transform relations schema [] = [] := by
  cases logic <;> rfl

/-- What follows in a stream adds to the results. -/
theorem transform_append (earlier later : List Tuple) :
    ∃ added, logic.transform relations schema (earlier ++ later) =
      logic.transform relations schema earlier ++ added := by
  cases logic with
  | select condition => exact ⟨_, List.filter_append _ _⟩
  | project indices => exact ⟨_, List.filterMap_append⟩
  | combine reference condition => exact ⟨_, List.flatMap_append⟩
  | aggregate window function => exact ⟨_, function.aggregateAfter_append window schema _ _ _⟩

theorem transform_prefix {earlier stream : List Tuple} (before : earlier <+: stream) :
    logic.transform relations schema earlier <+: logic.transform relations schema stream := by
  obtain ⟨later, rfl⟩ := before
  obtain ⟨added, transform_eq⟩ := logic.transform_append relations schema earlier later
  exact ⟨added, transform_eq.symm⟩

/-- One more tuple adds the response to it. -/
theorem transform_append_singleton (earlier : List Tuple) (tuple : Tuple) :
    logic.transform relations schema (earlier ++ [tuple]) =
      logic.transform relations schema earlier ++
        logic.respond relations schema earlier tuple := by
  cases logic with
  | select condition =>
      rw [transform, List.filter_append, List.filter_cons, List.filter_nil]
      rfl
  | project indices =>
      rw [transform, List.filterMap_append, List.filterMap_cons, List.filterMap_nil, respond]
      cases projection? indices schema tuple <;> rfl
  | combine reference condition =>
      rw [transform, List.flatMap_append, List.flatMap_singleton]
      rfl
  | aggregate window function =>
      rw [transform, AggregateFunction.aggregateAfter_append, AggregateFunction.aggregateAfter,
        AggregateFunction.aggregateAfter, List.append_nil]
      rfl

variable (earlier : List Tuple) {tuple : Tuple}

/-- Every operator sends a marker on. -/
theorem respond_of_marker (marks : tuple.isEndOfStream = true) :
    logic.respond relations schema earlier tuple = [tuple] := by
  cases logic <;>
    simp [respond, Condition.passes, projection?, expansion, AggregateFunction.response, marks]

theorem respond_select (condition : Condition) (data : tuple.isEndOfStream = false) :
    (select condition).respond relations schema earlier tuple =
      (selectTuple condition tuple).toOption.getD [] := by
  rw [respond, Condition.passes, data, Bool.false_or, selectTuple]
  rcases condition.check tuple with error | _ | _ <;> rfl

theorem respond_project (indices : List Nat) (data : tuple.isEndOfStream = false) :
    (project indices).respond relations schema earlier tuple =
      ((projectTuple indices schema tuple).map ([·])).toOption.getD [] := by
  rw [respond, projection?, if_neg (by simp [data])]
  rcases projectTuple indices schema tuple with error | result <;> rfl

end SingleLogic

end StreamQuery
