import StreamQuery.Proofs.Engine.Deployment
import StreamQuery.Proofs.Schema

/-!
# Types of results

Linking an operator looks up every attribute that it mentions and computes the attributes of its
results. Hence a match has the attributes of its input and of its relation, and a mean is taken over
an attribute that bears numbers.
-/

namespace StreamQuery

/-- A match has the attributes of its input and of its relation, and a mean is taken over numbers.
-/
def QueryTree.IsTyped (relations : List RelationDeclaration) : QueryTree → Prop
  | single header (.combine reference _) input =>
    ∃ declared, relations[reference.place]? = some declared ∧
      header.schema = input.schema ++ declared.schema
  | single _ (.aggregate _ (.mean index)) input =>
    ∃ column, input.schema.attribute? index = some column ∧ column.type.isNumeric = true
  | _ => True

/-- All names and positions of an operator are found in its inputs, and its schema is that of what
it computes. -/
def QueryTree.IsResolved (relations : List RelationDeclaration) : QueryTree → Prop
  | source _ => True
  | single header (.select condition) input =>
    condition.unresolvedIn? input.schema = none ∧ header.schema = input.schema
  | single header (.project indices) input =>
    (∀ index ∈ indices, index < input.schema.length) ∧
      header.schema = input.schema.project indices
  | single header (.combine reference condition) input =>
    ∃ declared, relations[reference.place]? = some declared ∧
      condition.unresolvedInPair? input.schema declared.schema = none ∧
      header.schema = input.schema ++ declared.schema
  | single header (.aggregate _ (.mean index)) input =>
    (∃ column, input.schema.attribute? index = some column ∧ column.type.isNumeric = true) ∧
      header.schema.attributes.map Attribute.type = [.float]
  | single header (.aggregate _ .election) input => header.schema = input.schema
  | join header logic left right =>
    logic.condition.unresolvedInPair? left.schema right.schema = none ∧
      header.schema = left.schema ++ right.schema

namespace OperatorDeclaration

variable {relations : List RelationDeclaration} {trees : List QueryTree} {operator name : String}
  {declaration : OperatorDeclaration}

theorem relation_eq_ok {reference : RelationReference} {declared : RelationDeclaration}
    (found : relation relations name = .ok (reference, declared)) :
    relations[reference.place]? = some declared := by
  rw [relation] at found
  split at found
  · cases found
  · rename_i candidate place search
    cases found
    exact List.mk_mem_zipIdx_iff_getElem?.mp (List.mem_of_find?_eq_some search)

theorem eq_none_of_ensureResolved {missing? : Option String} {result : Unit}
    (ensured : ensureResolved operator missing? = .ok result) : missing? = none := by
  cases missing? with
  | none => rfl
  | some name => cases ensured

theorem position_lt {schema : Schema} {index : Nat}
    (found : position operator schema name = .ok index) : index < schema.length := by
  rw [position] at found
  split at found
  · cases found
    exact Schema.lt_length_of_indexOf? ‹_›
  · cases found

theorem positions_lt {schema : Schema} {names : List String} {indices : List Nat}
    (found : names.mapM (position operator schema) = .ok indices) :
    ∀ index ∈ indices, index < schema.length := by
  induction names generalizing indices with
  | nil =>
      cases pure_eq_ok.mp found
      simp
  | cons name names induction =>
      rw [List.mapM_cons] at found
      obtain ⟨first, first_found, found⟩ := bind_eq_ok.mp found
      obtain ⟨later, later_found, found⟩ := bind_eq_ok.mp found
      obtain rfl := pure_eq_ok.mp found
      intro index member
      rcases List.mem_cons.mp member with rfl | is_later
      · exact position_lt first_found
      · exact induction later_found index is_later

/-- A linked operator finds everything that it mentions. -/
theorem link_isResolved {tree : QueryTree}
    (linked : declaration.link relations trees name = .ok tree) :
    tree.IsResolved relations := by
  cases declaration with
  | stream schema =>
      cases pure_eq_ok.mp linked
      trivial
  | select inputName condition =>
      obtain ⟨input, _, linked⟩ := bind_eq_ok.mp linked
      obtain ⟨_, ensured, linked⟩ := bind_eq_ok.mp linked
      cases pure_eq_ok.mp linked
      exact ⟨eq_none_of_ensureResolved ensured, rfl⟩
  | project inputName names =>
      obtain ⟨input, _, linked⟩ := bind_eq_ok.mp linked
      obtain ⟨indices, found, linked⟩ := bind_eq_ok.mp linked
      cases pure_eq_ok.mp linked
      exact ⟨positions_lt found, rfl⟩
  | combine inputName relationName condition =>
      obtain ⟨input, _, linked⟩ := bind_eq_ok.mp linked
      obtain ⟨⟨reference, declared⟩, found, linked⟩ := bind_eq_ok.mp linked
      obtain ⟨_, ensured, linked⟩ := bind_eq_ok.mp linked
      cases pure_eq_ok.mp linked
      exact ⟨declared, relation_eq_ok found, eq_none_of_ensureResolved ensured, rfl⟩
  | join left leftWindow right rightWindow condition =>
      obtain ⟨leftTree, _, linked⟩ := bind_eq_ok.mp linked
      obtain ⟨rightTree, _, linked⟩ := bind_eq_ok.mp linked
      obtain ⟨_, ensured, linked⟩ := bind_eq_ok.mp linked
      cases pure_eq_ok.mp linked
      exact ⟨eq_none_of_ensureResolved ensured, rfl⟩
  | mean inputName attributeName window =>
      obtain ⟨input, _, linked⟩ := bind_eq_ok.mp linked
      obtain ⟨index, _, linked⟩ := bind_eq_ok.mp linked
      split at linked
      · rename_i numeric
        cases pure_eq_ok.mp linked
        exact ⟨(Option.any_eq_true _ _).mp numeric, rfl⟩
      · cases linked
  | elect inputName window =>
      obtain ⟨input, _, linked⟩ := bind_eq_ok.mp linked
      cases pure_eq_ok.mp linked
      rfl

end OperatorDeclaration

theorem Deployment.isResolved (deployment : Deployment) {operator : QueryTree}
    (member : operator ∈ deployment.tree.postOrder) :
    operator.IsResolved deployment.query.relations := by
  have linked := (Query.isLinked_of_declarations deployment.built).2
  obtain ⟨name, declaration, link⟩ := linked operator.id operator (deployment.getElem?_id member)
  exact OperatorDeclaration.link_isResolved link

/-- What an operator mentions is there, so it has the attributes that it needs. -/
theorem QueryTree.IsResolved.isTyped {relations : List RelationDeclaration} {operator : QueryTree}
    (resolved : operator.IsResolved relations) : operator.IsTyped relations := by
  rcases operator with header | ⟨header, _ | _ | _ | ⟨window, _ | _⟩, input⟩ | _
  case single.combine =>
    obtain ⟨declared, found, _, schema_eq⟩ := resolved
    exact ⟨declared, found, schema_eq⟩
  case single.aggregate.mean => exact resolved.1
  all_goals trivial

theorem Deployment.isTyped (deployment : Deployment) {operator : QueryTree}
    (member : operator ∈ deployment.tree.postOrder) :
    operator.IsTyped deployment.query.relations :=
  (deployment.isResolved member).isTyped

end StreamQuery
