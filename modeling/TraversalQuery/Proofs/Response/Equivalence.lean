import TraversalQuery.Proofs.Response.Depths
import TraversalQuery.Proofs.Response.Nesting
import TraversalQuery.Schema.Compile

/-!
# Walking an expansion

A walk over selections and a walk over their expansion make the same calls and find the same values.
At every object the two collect alike groups, so they ask about the same fields in the same order,
and below a field what one of them walks is again the expansion of what the other walks, up to
selections that repeat earlier ones.
-/

namespace TraversalQuery

namespace QueryScope

variable {σ ε : Type} {scope : QueryScope} {resolve : Resolver σ ε}

/-- Groups with the same keys and the same values of each group have the same members. -/
theorem groupValues_congr {value otherValue : String → List SelectedField → Walk σ ε Json}
    {groups others : FieldGroups}
    (agree : List.Forall₂ (fun group other => group.1 = other.1 ∧
      value group.1 group.2 = otherValue other.1 other.2) groups others) :
    ∀ members, groupValues value groups members = groupValues otherValue others members := by
  induction agree with
  | nil => exact fun members => rfl
  | @cons group other rest otherRest fit agree ih =>
    obtain ⟨key, fields⟩ := group
    obtain ⟨otherKey, otherFields⟩ := other
    obtain ⟨rfl, same⟩ : key = otherKey ∧ value key fields = otherValue otherKey otherFields := fit
    intro members
    rw [groupValues, groupValues, same]
    simp only [ih]

/-- The value of a group depends on its first field and on the selections inside all of them. -/
theorem fieldValue_congr {inner otherInner : WalkObject σ ε} {fields others : List SelectedField}
    (first : fields.head?.map (·.field) = others.head?.map (·.field))
    (inside : fields ≠ [] → ∀ object path parent?,
      inner object (fields.flatMap (·.selections)) path parent? =
        otherInner object (others.flatMap (·.selections)) path parent?)
    (object : SchemaType) (path : ResponsePath) (parent? : Option ParentField) (key : String) :
    scope.fieldValue resolve inner object path parent? key fields =
      scope.fieldValue resolve otherInner object path parent? key others := by
  cases fields with
  | nil =>
    cases others with
    | nil => rfl
    | cons => contradiction
  | cons selected rest =>
    cases others with
    | nil => contradiction
    | cons other otherRest =>
      have sameField : selected.field = other.field := by simpa using first
      have answered (visit : FieldVisit) (answer : Answer) :
          scope.answered inner visit (selected :: rest) answer =
            scope.answered otherInner visit (other :: otherRest) answer := by
        cases answer with
        | null => rfl
        | leaf value => rfl
        | object =>
          unfold QueryScope.answered
          simp only [inside (List.cons_ne_nil _ _)]
      simp only [fieldValue, List.head?_cons, sameField, answered]

/-- Alike groups have the same values, if the selections inside them do. -/
theorem groupValues_alike {same : SelectedField → SelectedField → Prop}
    {inner otherInner : WalkObject σ ε} {groups others : FieldGroups}
    (alike : FieldGroups.Alike same groups others)
    (sameField : ∀ selected other, same selected other → selected.field = other.field)
    (inside : ∀ fields otherFields, Repeats same fields otherFields → ∀ object path parent?,
      inner object (fields.flatMap (·.selections)) path parent? =
        otherInner object (otherFields.flatMap (·.selections)) path parent?)
    (object : SchemaType) (path : ResponsePath) (parent? : Option ParentField) (members : Members) :
    groupValues (scope.fieldValue resolve inner object path parent?) groups members =
      groupValues (scope.fieldValue resolve otherInner object path parent?) others members := by
  apply groupValues_congr
  apply alike.imp
  rintro ⟨key, fields⟩ ⟨otherKey, otherFields⟩ ⟨sameKey, repeats⟩
  refine ⟨sameKey, ?_⟩
  cases sameKey
  apply fieldValue_congr
  · rcases repeats.head with ⟨rfl, rfl⟩ | ⟨item, rest, other, otherRest, rfl, rfl, belong⟩
    · rfl
    · simp [sameField _ _ belong]
  · exact fun _ => inside fields otherFields repeats

/-- Selections that repeat earlier ones change nothing. -/
theorem walkObject_repeats (depth : Nat) : ∀ {selections others : List Selection},
    Repeats Eq selections others → ∀ object path parent?,
      scope.withoutFragments.walkObject resolve depth object selections path parent? =
        scope.withoutFragments.walkObject resolve depth object others path parent? := by
  induction depth with
  | zero => exact fun _ _ _ _ => rfl
  | succ depth ih =>
    intro selections others repeats object path parent?
    have fields := repeats.flatMap (scope.fieldsOfOne object)
    rw [← fieldsOf_eq_flatMap, ← fieldsOf_eq_flatMap] at fields
    rw [walkObject, walkObject, collect_withoutFragments, collect_withoutFragments]
    refine groupValues_alike (FieldGroups.alike_ofFields ?_ fields) ?_ ?_ object path parent? []
    · rintro selected _ rfl
      rfl
    · rintro selected _ rfl
      rfl
    · exact fun fields otherFields repeats => ih (repeats.flatMap _)

/-- The selections inside the fields that an expansion asks for are an expansion of those inside the
corresponding fields, up to repeats. -/
theorem exists_expands_of_repeats {fields others : List SelectedField}
    (repeats : Repeats scope.Corresponds fields others) :
    ∃ expanded, scope.Expands (fields.flatMap (·.selections)) expanded ∧
      Repeats Eq expanded (others.flatMap (·.selections)) := by
  induction repeats with
  | nil => exact ⟨[], .nil, .nil⟩
  | @new fields others selected other before corresponds ih =>
    obtain ⟨expanded, expands, repeats⟩ := ih
    refine ⟨expanded ++ other.selections, ?_, ?_⟩
    · rw [List.flatMap_append, List.flatMap_singleton]
      exact expands.append corresponds.2
    · rw [List.flatMap_append, List.flatMap_singleton]
      exact repeats.append (.refl _)
  | @again fields others other before known ih =>
    obtain ⟨expanded, expands, repeats⟩ := ih
    refine ⟨expanded, expands, ?_⟩
    rw [List.flatMap_append, List.flatMap_singleton]
    exact repeats.append_known fun selection member =>
      List.mem_flatMap.mpr ⟨other, known, member⟩

/-- To any depth, selections are walked like their expansion. -/
theorem walkObject_expands (depth : Nat) : ∀ {selections expanded : List Selection},
    scope.Expands selections expanded → ∀ object path parent?,
      scope.walkObject resolve depth object selections path parent? =
        scope.withoutFragments.walkObject resolve depth object expanded path parent? := by
  induction depth with
  | zero => exact fun _ _ _ _ => rfl
  | succ depth ih =>
    intro selections expanded expands object path parent?
    refine groupValues_alike (alike_collect expands) (fun _ _ => And.left) ?_ object path parent? []
    intro fields others repeats object path parent?
    -- The fields of the expansion repeat, so below them stands an expansion only up to repeats.
    obtain ⟨between, expandsInside, repeatsInside⟩ := exists_expands_of_repeats repeats
    rw [ih expandsInside, walkObject_repeats depth repeatsInside]

/-- A walk that may go deeper than the fields are inside one another goes on as if there was no
limit. -/
theorem walkObject_of_depth_lt (depth : Nat) : ∀ {other : Nat} {selections : List Selection},
    Selection.depthOf selections < depth → Selection.depthOf selections < other →
      ∀ object path parent?,
        scope.withoutFragments.walkObject resolve depth object selections path parent? =
          scope.withoutFragments.walkObject resolve other object selections path parent? := by
  induction depth with
  | zero => exact fun below => absurd below (Nat.not_lt_zero _)
  | succ depth ih =>
    intro other selections below belowOther object path parent?
    obtain ⟨other, rfl⟩ := Nat.exists_eq_succ_of_ne_zero (Nat.ne_zero_of_lt belowOther)
    apply groupValues_congr
    rw [List.forall₂_same]
    intro group member
    refine ⟨rfl, fieldValue_congr rfl ?_ _ _ _ _⟩
    intro nonempty
    have inside := depth_lt_of_mem_collect member nonempty
    exact ih (by omega) (by omega)

/-- Where no fragment leads to itself, a query is responded to like its expansion. -/
theorem respond_expands (acyclic : Fragment.Acyclic scope.fragments)
    {selections expanded : List Selection} (expands : scope.Expands selections expanded)
    (root : SchemaType) :
    scope.respond resolve root selections =
      scope.withoutFragments.respond resolve root expanded := by
  obtain ⟨same, expandsSame, bounded⟩ := exists_expands_of_acyclic acyclic selections
  obtain rfl := expands.unique expandsSame
  have limit : Selection.depthOf same < scope.withoutFragments.depthLimit same :=
    Nat.lt_succ_self _
  unfold respond
  rw [walkObject_expands _ expands, walkObject_of_depth_lt _ bounded limit]

end QueryScope

namespace Schema

variable {σ ε : Type} {schema : Schema}

/-- No fragment leads to itself in a request that is ready to be walked. -/
theorem acyclic_of_prepareRequest {request : Request} {prepared : PreparedRequest}
    (ready : schema.prepareRequest request =
      (.ok prepared : Except (RequestError ε) PreparedRequest)) :
    Fragment.Acyclic prepared.scope.fragments := by
  obtain ⟨document, parsed, prepare⟩ := Except.of_bind_eq_ok ready
  have made := Except.of_mapError_eq_ok prepare
  rw [(prepares_of_prepare made).fragments]
  exact Document.acyclic_of_problems (of_prepare_eq_ok made).1

/-- The response to a request that is ready is what its operation is responded to with. -/
theorem execute_of_ready {resolve : Resolver σ ε} {request : Request} {prepared : PreparedRequest}
    (ready : schema.prepareRequest request =
      (.ok prepared : Except (RequestError ε) PreparedRequest)) :
    schema.execute resolve request = ExceptT.adapt requestError
      (prepared.scope.respond resolve prepared.root prepared.operation.selections) := by
  unfold execute
  rw [ready]
  rfl

/-- The calls for a request that is ready are those of the walk over its operation. -/
theorem calls_of_ready {resolve : Resolver σ ε} {request : Request} {prepared : PreparedRequest}
    (ready : schema.prepareRequest request =
      (.ok prepared : Except (RequestError ε) PreparedRequest)) (state : σ) :
    schema.calls resolve request state =
      ((prepared.scope.respond resolve.logged prepared.root prepared.operation.selections).on
        (state, [])).2.2 := by
  unfold calls
  rw [execute_of_ready ready, ExceptT.on_adapt]

/-- A walk that ends does not leave a request without end. -/
theorem ne_endless {α : Type} {walk : Walk σ ε α} (ends : QueryScope.Ends walk) (state : σ) :
    ((ExceptT.adapt requestError walk : ExceptT (RequestError ε) (StateM σ) α).on state).1 ≠
      .error .endless := by
  rw [ExceptT.on_adapt]
  rcases came : (walk.on state).1 with (error | _ | _) | value
  · exact nofun
  · exact absurd came (ends state)
  · exact nofun
  · exact nofun

/-- A request with calls is ready to be walked. -/
theorem ready_of_calls {resolve : Resolver σ ε} {request : Request} {state : σ}
    (called : schema.calls resolve request state ≠ []) :
    ∃ prepared, schema.prepareRequest request =
      (.ok prepared : Except (RequestError ε) PreparedRequest) := by
  obtain ⟨forest, made, isNil | ⟨prepared, ready, _⟩, _⟩ := schema.calls_asked resolve request state
  · rw [made, isNil] at called
    contradiction
  · exact ⟨prepared, ready⟩

/-- **Fragments and exclusions are syntax.** The operation of a request that is ready to be walked
has one expansion, in which nothing is spread. Executing the request never goes round in fragments,
and is walking the expansion in a query without them: the response is the same or the reason why
there is none, be it an error of the resolver or a default that leads back to itself; the resolver
ends in the same state, and it is asked the same, call by call. The expansion asks for the fields of
a fragment wherever it is spread, so nothing depends on entering it only once for an object. -/
theorem execute_expansion (schema : Schema) (resolve : Resolver σ ε) (request : Request)
    {prepared : PreparedRequest} (ready : schema.prepareRequest request =
      (.ok prepared : Except (RequestError ε) PreparedRequest)) :
    ∃ expanded, prepared.scope.Expands prepared.operation.selections expanded ∧
      (∀ other, prepared.scope.Expands prepared.operation.selections other → other = expanded) ∧
      Selection.spreadsOf expanded = [] ∧
      ∀ state, ((schema.execute resolve request).on state).1 ≠ .error .endless ∧
        (schema.execute resolve request).on state =
          (ExceptT.adapt requestError (prepared.scope.withoutFragments.respond resolve
            prepared.root expanded)).on state ∧
        schema.calls resolve request state =
          ((prepared.scope.withoutFragments.respond resolve.logged prepared.root expanded).on
            (state, [])).2.2 := by
  have acyclic := acyclic_of_prepareRequest ready
  obtain ⟨expanded, expands, _⟩ :=
    QueryScope.exists_expands_of_acyclic acyclic prepared.operation.selections
  refine ⟨expanded, expands, fun _ => expands.unique, expands.spreadsOf_eq_nil, fun state => ?_⟩
  -- Once for the resolver itself, and once for the one that writes down its calls.
  rw [execute_of_ready ready, calls_of_ready ready, QueryScope.respond_expands acyclic expands,
    QueryScope.respond_expands acyclic expands]
  exact ⟨ne_endless (QueryScope.ends_respond _ _) state, rfl, rfl⟩

/-- A schema of people and their friends. -/
def friendsSource : String :=
  "type Query \x7b me: Person \x7d
   type Person implements Named \x7b name: String friends: [Person] \x7d
   interface Named \x7b name: String \x7d"

/-- A request that spreads one fragment inside another, both of them twice for one object, and that
includes one selection and skips another. -/
def friendsRequest : Request where
  query := "query ($all: Boolean!) \x7b me \x7b
      ...P friends @include(if: $all) \x7b ...P \x7d ...P \x7d \x7d
    fragment P on Person \x7b ...N friends @skip(if: $all) \x7b me: name \x7d ...N \x7d
    fragment N on Named \x7b name \x7d"
  operation? := none
  variableValues := [("all", .bool true)]

/-- Every name is the same text, and everything else is an object. -/
def friendsResolver : Resolver Unit Unit := fun visit =>
  return if visit.definition.name = "name" then .leaf (.string "Ada") else .object

/-- What is asked twice of a person and of the friends is called for once. -/
theorem execute_expansion_friends : ∃ (schema : Schema) (prepared : PreparedRequest),
    compile [friendsSource] = .ok schema ∧
      schema.prepareRequest friendsRequest =
        (.ok prepared : Except (RequestError Unit) PreparedRequest) ∧
      (schema.calls friendsResolver friendsRequest ()).map (·.visit.path.text) =
        ["/me", "/me/name", "/me/friends[0]", "/me/friends[0]/name"] ∧
      ∃ expanded, prepared.scope.Expands prepared.operation.selections expanded ∧
        (∀ other, prepared.scope.Expands prepared.operation.selections other →
          other = expanded) ∧
        Selection.spreadsOf expanded = [] ∧
        ∀ state, ((schema.execute friendsResolver friendsRequest).on state).1 ≠
            .error .endless ∧
          (schema.execute friendsResolver friendsRequest).on state =
            (ExceptT.adapt requestError (prepared.scope.withoutFragments.respond friendsResolver
              prepared.root expanded)).on state ∧
          schema.calls friendsResolver friendsRequest state =
            ((prepared.scope.withoutFragments.respond friendsResolver.logged prepared.root
              expanded).on (state, [])).2.2 := by
  have ran : (compile [friendsSource]).toOption.map (fun schema =>
      (schema.calls friendsResolver friendsRequest ()).map (·.visit.path.text)) =
      some ["/me", "/me/name", "/me/friends[0]", "/me/friends[0]/name"] := by decide +kernel
  obtain ⟨schema, isCompiled, paths⟩ := Option.map_eq_some_iff.mp ran
  have compiled := Except.of_toOption_eq_some isCompiled
  have called : schema.calls friendsResolver friendsRequest () ≠ [] := by
    intro none
    simp [none] at paths
  obtain ⟨prepared, ready⟩ := ready_of_calls called
  exact ⟨schema, prepared, compiled, ready, paths,
    execute_expansion schema friendsResolver friendsRequest ready⟩

end Schema

end TraversalQuery
