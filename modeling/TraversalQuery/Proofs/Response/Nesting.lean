import TraversalQuery.Proofs.Response.Calls
import TraversalQuery.Proofs.Response.Groups
import TraversalQuery.Proofs.Response.Paths

/-!
# How the calls of a walk are nested

Every call is for a root field or for a field inside an object that an earlier call was answered
with. It is for a field that the type around it has, and no other call is for the same place in the
response.
-/

namespace TraversalQuery

namespace FieldVisit

/-- A visit of a field whose type has fields of its own. -/
def IsComposite (visit : FieldVisit) : Prop :=
  ∃ type, visit.output? = some type ∧ type.kind.isComposite = true

instance (visit : FieldVisit) : Decidable visit.IsComposite :=
  decidable_of_iff (visit.output?.any (·.kind.isComposite) = true)
    (Option.any_eq_true _ _)

end FieldVisit

namespace ResolverCall

variable {σ ε : Type}

/-- A call that was answered with an object, and one for a field inside it. -/
structure Holds (above call : ResolverCall σ ε) : Prop where
  answered : above.answer = .ok .object
  composite : above.visit.IsComposite
  inside : call.visit.parent? = some ⟨above.visit.definition, above.visit.path⟩

/-- Calls after others, each for a root field or inside an earlier one. -/
def ParentsFirst : List (ResolverCall σ ε) → List (ResolverCall σ ε) → Prop
  | _, [] => True
  | past, call :: rest =>
    (call.visit.parent? = none ∨ ∃ above ∈ past, above.Holds call) ∧
      ParentsFirst (past ++ [call]) rest

/-- Calls after calls come after those around them if both do. -/
theorem ParentsFirst.append {past calls more : List (ResolverCall σ ε)}
    (first : ParentsFirst past calls) (second : ParentsFirst (past ++ calls) more) :
    ParentsFirst past (calls ++ more) := by
  induction calls generalizing past with
  | nil => simpa using second
  | cons call rest ih =>
    refine ⟨first.1, ih first.2 ?_⟩
    simpa using second

/-- Calls in a forest, those below a call for fields inside the one it is for. -/
def Nested : Option ParentField → Forest (ResolverCall σ ε) → Prop
  | _, .nil => True
  | parent?, .node call below rest =>
    call.visit.parent? = parent? ∧ (below = .nil ∨ call.visit.IsComposite) ∧
      Nested (some ⟨call.visit.definition, call.visit.path⟩) below ∧ Nested parent? rest

end ResolverCall

namespace FieldVisit

/-- A visit of a field that its type has in a schema. -/
structure Known (schema : Schema) (visit : FieldVisit) : Prop where
  type : visit.parentType ∈ schema.types
  field : visit.definition ∈ visit.parentType.fields
  output : visit.output? = schema.get? visit.definition.type.namedType

/-- The place of a visit does not count steps into lists. -/
theorem fieldPath_visit (scope : QueryScope) (object : SchemaType) (definition : OutputField)
    (key : String) (field : Field) (path : ResponsePath) (parent? : Option ParentField) :
    (scope.visit object definition key field path parent?).path.fieldPath =
      path.fieldPath.child key := by
  unfold QueryScope.visit
  dsimp only
  split <;> simp

end FieldVisit

namespace SchemaType

/-- The field of a name is one of the type. -/
theorem mem_fields_of_field? {type : SchemaType} {name : String} {field : OutputField}
    (found : type.field? name = some field) : field ∈ type.fields :=
  List.mem_of_find?_eq_some found

/-- Only objects and interfaces have fields. -/
theorem isComposite_of_mem_fields {type : SchemaType} {field : OutputField}
    (member : field ∈ type.fields) : type.kind.isComposite = true := by
  unfold fields at member
  unfold kind
  cases body : type.body <;> rw [body] at member <;> first | rfl | contradiction

end SchemaType

namespace Schema

/-- The type of an object is one of the schema. -/
theorem runtimeType_mem {schema : Schema} {declared : SchemaType}
    (member : declared ∈ schema.types) : schema.runtimeType declared ∈ schema.types := by
  unfold runtimeType
  split
  · cases first : (schema.implementations declared.name).head? with
    | none => exact member
    | some type => exact (List.mem_filter.mp (List.mem_of_head? first)).1
  · exact member

/-- A type whose objects have fields where it is declared is itself one with fields. -/
theorem isComposite_of_runtimeType {schema : Schema} {declared : SchemaType} {field : OutputField}
    (member : field ∈ (schema.runtimeType declared).fields) :
    declared.kind.isComposite = true := by
  unfold runtimeType at member
  split at member
  · rename_i isInterface
    rw [isInterface]
    rfl
  · exact SchemaType.isComposite_of_mem_fields member

end Schema

namespace QueryScope

open ResolverCall (Nested ParentsFirst)

variable {σ ε : Type} {scope : QueryScope} {object : SchemaType} {path : ResponsePath}
  {parent? : Option ParentField} {groups : FieldGroups} {whole : Bool}
  {forest : Forest (ResolverCall σ ε)}

/-- Every call comes after the one for the field around it. -/
theorem Asked.parentsFirst (asked : scope.Asked object path parent? groups whole forest)
    {past : List (ResolverCall σ ε)}
    (around : parent? = none ∨ ∃ above ∈ past, above.answer = .ok .object ∧
      (∃ type, above.visit.output? = some type ∧ object = scope.schema.runtimeType type) ∧
      parent? = some ⟨above.visit.definition, above.visit.path⟩) :
    ParentsFirst past forest.preorder := by
  -- What is known of the object is enough for every call for one of its fields.
  have first {object : SchemaType} {path : ResponsePath} {parent? : Option ParentField}
      {key : String} {selected : SelectedField} {definition : OutputField}
      {call : ResolverCall σ ε} {past : List (ResolverCall σ ε)}
      (defined : object.field? selected.field.name = some definition)
      (visited : call.visit = scope.visit object definition key selected.field path parent?)
      (around : parent? = none ∨ ∃ above ∈ past, above.answer = .ok .object ∧
        (∃ type, above.visit.output? = some type ∧ object = scope.schema.runtimeType type) ∧
        parent? = some ⟨above.visit.definition, above.visit.path⟩) :
      call.visit.parent? = none ∨ ∃ above ∈ past, above.Holds call := by
    rw [visited]
    refine around.imp id fun ⟨above, member, answered, ⟨type, declared, isObject⟩, inside⟩ => ?_
    refine ⟨above, member, answered, ⟨type, declared, ?_⟩, by rw [visited]; exact inside⟩
    subst isObject
    exact Schema.isComposite_of_runtimeType (SchemaType.mem_fields_of_field? defined)
  induction asked generalizing past with
  | stop => trivial
  | done => trivial
  | silent _ _ ih => exact ih around
  | value proper defined visited plain later ih =>
    exact ⟨first defined visited around, ih <| around.imp id fun ⟨above, member, rest⟩ =>
      ⟨above, List.mem_append_left _ member, rest⟩⟩
  | @object _ type _ _ _ _ _ _ _ call _ _ _ _ proper defined visited answered declared inner
      through later ihInner ihLater =>
    refine ⟨first defined visited around, .append (ihInner (.inr ?_)) (ihLater ?_)⟩
    · exact ⟨call, List.mem_append_right _ (List.mem_singleton_self _), answered,
        ⟨type, declared, rfl⟩, by rw [visited]; rfl⟩
    · exact around.imp id fun ⟨above, member, rest⟩ =>
        ⟨above, List.mem_append_left _ (List.mem_append_left _ member), rest⟩

/-- Only fields of an object are asked for. -/
theorem Asked.eq_nil_or_field (asked : scope.Asked object path parent? groups whole forest) :
    forest = .nil ∨ ∃ field, field ∈ object.fields := by
  induction asked with
  | stop => exact .inl rfl
  | done => exact .inl rfl
  | silent _ _ ih => exact ih
  | value proper defined => exact .inr ⟨_, SchemaType.mem_fields_of_field? defined⟩
  | object proper defined => exact .inr ⟨_, SchemaType.mem_fields_of_field? defined⟩

/-- Calls are below the one for the field that they are inside of. -/
theorem Asked.nested (asked : scope.Asked object path parent? groups whole forest) :
    Nested parent? forest := by
  induction asked with
  | stop => trivial
  | done => trivial
  | silent _ _ ih => exact ih
  | value proper defined visited plain later ih =>
    rw [Nested, visited]
    exact ⟨rfl, .inl rfl, trivial, ih⟩
  | object proper defined visited answered declared inner through later ihInner ihLater =>
    refine ⟨by rw [visited]; rfl, ?_, ?_, ihLater⟩
    · exact inner.eq_nil_or_field.imp id fun ⟨_, member⟩ =>
        ⟨_, declared, Schema.isComposite_of_runtimeType member⟩
    · rw [visited] at ihInner ⊢
      exact ihInner

/-- Every call is for a field that its type has. -/
theorem Asked.known (asked : scope.Asked object path parent? groups whole forest)
    (isType : object ∈ scope.schema.types) :
    ∀ call ∈ forest.preorder, call.visit.Known scope.schema := by
  induction asked with
  | stop => exact List.forall_mem_nil _
  | done => exact List.forall_mem_nil _
  | silent _ _ ih => exact ih isType
  | value proper defined visited plain later ih =>
    refine List.forall_mem_cons.mpr ⟨?_, ih isType⟩
    rw [visited]
    exact ⟨isType, SchemaType.mem_fields_of_field? defined, rfl⟩
  | object proper defined visited answered declared inner through later ihInner ihLater =>
    refine List.forall_mem_cons.mpr ⟨?_, List.forall_mem_append.mpr ⟨ihInner ?_, ihLater isType⟩⟩
    · rw [visited]
      exact ⟨isType, SchemaType.mem_fields_of_field? defined, rfl⟩
    · rw [visited] at declared
      exact Schema.runtimeType_mem (Schema.mem_of_get? declared)

/-- Every call is for a place below one of the groups. -/
theorem Asked.under (asked : scope.Asked object path parent? groups whole forest) :
    ∀ call ∈ forest.preorder, ∃ key ∈ groups.keys,
      (path.fieldPath.child key).segments <+: call.visit.path.fieldPath.segments := by
  induction asked with
  | stop => exact List.forall_mem_nil _
  | done => exact List.forall_mem_nil _
  | silent _ _ ih =>
    intro call member
    obtain ⟨key, isKey, inside⟩ := ih call member
    exact ⟨key, List.mem_cons_of_mem _ isKey, inside⟩
  | value proper defined visited plain later ih =>
    refine List.forall_mem_cons.mpr ⟨⟨_, List.mem_cons_self, ?_⟩, fun call member => ?_⟩
    · simp [visited, FieldVisit.fieldPath_visit]
    · obtain ⟨key, isKey, inside⟩ := ih call member
      exact ⟨key, List.mem_cons_of_mem _ isKey, inside⟩
  | object proper defined visited answered declared inner through later ihInner ihLater =>
    refine List.forall_mem_cons.mpr ⟨⟨_, List.mem_cons_self, ?_⟩,
      List.forall_mem_append.mpr ⟨fun call member => ⟨_, List.mem_cons_self, ?_⟩,
        fun call member => ?_⟩⟩
    · simp [visited, FieldVisit.fieldPath_visit]
    · obtain ⟨key, _, inside⟩ := ihInner call member
      rw [visited, FieldVisit.fieldPath_visit] at inside
      exact (List.prefix_append _ _).trans inside
    · obtain ⟨key, isKey, inside⟩ := ihLater call member
      exact ⟨key, List.mem_cons_of_mem _ isKey, inside⟩

/-- Different fields of an object have nothing below them in common. -/
theorem key_of_shared {path : ResponsePath} {key other : String} {segments : List PathSegment}
    (under : (path.child key).segments <+: segments)
    (under' : (path.child other).segments <+: segments) : key = other := by
  have sizes : (path.child key).segments.length = (path.child other).segments.length := by
    simp [ResponsePath.child]
  have isPrefix := List.prefix_of_prefix_length_le under under' (Nat.le_of_eq sizes)
  have same := isPrefix.eq_of_length sizes
  simpa [ResponsePath.child] using same

/-- No two calls are for the same place in the response. -/
theorem Asked.nodup (asked : scope.Asked object path parent? groups whole forest)
    (named : ∀ fragment ∈ scope.fragments, Selection.AllNamed fragment.selections)
    (sound : groups.Sound) :
    (forest.preorder.map (·.visit.path.fieldPath.segments)).Nodup := by
  induction asked with
  | stop => exact List.nodup_nil
  | done => exact List.nodup_nil
  | silent _ _ ih => exact ih sound.tail
  | value proper defined visited plain later ih =>
    refine List.nodup_cons.mpr ⟨fun member => ?_, ih sound.tail⟩
    obtain ⟨other, isOther, same⟩ := List.mem_map.mp member
    obtain ⟨key', isKey, inside⟩ := later.under other isOther
    dsimp only at same
    rw [same, visited, FieldVisit.fieldPath_visit] at inside
    obtain rfl := key_of_shared inside List.prefix_rfl
    exact (List.nodup_cons.mp sound.nodup).1 isKey
  | @object _ type path _ key first others _ _ call _ _ below rest proper defined visited answered
      declared inner through later ihInner ihLater =>
    have here : call.visit.path.fieldPath = path.fieldPath.child key := by
      rw [visited, FieldVisit.fieldPath_visit]
    have inside : ∀ other ∈ below.preorder,
        (path.fieldPath.child key).segments <+: other.visit.path.fieldPath.segments ∧
          (path.fieldPath.child key).segments ≠ other.visit.path.fieldPath.segments := by
      intro other isOther
      obtain ⟨key', _, deeper⟩ := inner.under other isOther
      rw [here] at deeper
      refine ⟨(List.prefix_append _ _).trans deeper, fun same => ?_⟩
      have sizes := deeper.length_le
      rw [← same] at sizes
      simp [ResponsePath.child] at sizes
    have beside : ∀ other ∈ rest.preorder,
        ¬(path.fieldPath.child key).segments <+: other.visit.path.fieldPath.segments := by
      intro other isOther under
      obtain ⟨key', isKey, under'⟩ := later.under other isOther
      obtain rfl := key_of_shared under under'
      exact (List.nodup_cons.mp sound.nodup).1 isKey
    have within : FieldGroups.Sound (scope.collect (scope.schema.runtimeType type)
        ((first :: others).flatMap (·.selections))) :=
      sound_collect named (Selection.allNamed_flatMap (sound.inside _ List.mem_cons_self))
    rw [Forest.preorder, List.map_cons, List.map_append, here]
    refine List.nodup_cons.mpr ⟨fun member => ?_, List.nodup_append.mpr
      ⟨ihInner within, ihLater sound.tail, ?_⟩⟩
    · rcases List.mem_append.mp member with member | member
      · obtain ⟨other, isOther, same⟩ := List.mem_map.mp member
        exact (inside other isOther).2 same.symm
      · obtain ⟨other, isOther, same⟩ := List.mem_map.mp member
        exact beside other isOther (same ▸ List.prefix_rfl)
    · intro segments member segments' member' same
      obtain ⟨other, isOther, rfl⟩ := List.mem_map.mp member
      obtain ⟨other', isOther', rfl⟩ := List.mem_map.mp member'
      exact beside other' isOther' (same ▸ (inside other isOther).1)

/-- The places that calls are for have names all the way, and none of them is the root. -/
theorem Asked.named (asked : scope.Asked object path parent? groups whole forest)
    (named : ∀ fragment ∈ scope.fragments, Selection.AllNamed fragment.selections)
    (sound : groups.Sound) (around : path.fieldPath.Named) :
    ∀ call ∈ forest.preorder, call.visit.path.fieldPath.Named ∧
      call.visit.path.fieldPath ≠ .root := by
  have first {path : ResponsePath} {key : String} (around : path.fieldPath.Named)
      (name : IsName key) : (path.fieldPath.child key).Named ∧ path.fieldPath.child key ≠ .root :=
    ⟨around.child name, by simp [ResponsePath.child, ResponsePath.root]⟩
  induction asked with
  | stop => exact List.forall_mem_nil _
  | done => exact List.forall_mem_nil _
  | silent _ _ ih => exact ih sound.tail around
  | value proper defined visited plain later ih =>
    refine List.forall_mem_cons.mpr ⟨?_, ih sound.tail around⟩
    rw [visited, FieldVisit.fieldPath_visit]
    exact first around (sound.named _ List.mem_cons_self)
  | object proper defined visited answered declared inner through later ihInner ihLater =>
    have here := first around (sound.named _ List.mem_cons_self)
    rw [← FieldVisit.fieldPath_visit, ← visited] at here
    exact List.forall_mem_cons.mpr ⟨here, List.forall_mem_append.mpr
      ⟨ihInner (sound_collect named
        (Selection.allNamed_flatMap (sound.inside _ List.mem_cons_self))) here.1,
        ihLater sound.tail around⟩⟩

end QueryScope

namespace Document

/-- The keys inside the operations of a document are names. -/
theorem allNamed_operation {document : Document} {operation : Operation}
    (named : ∀ part ∈ document.definitions, part.Named) (member : operation ∈ document.operations) :
    Selection.AllNamed operation.selections := by
  obtain ⟨part, isPart, same⟩ := List.mem_filterMap.mp member
  cases part <;> simp at same
  subst same
  exact named _ isPart

/-- The keys inside the fragments of a document are names. -/
theorem allNamed_fragment {document : Document} {fragment : Fragment}
    (named : ∀ part ∈ document.definitions, part.Named) (member : fragment ∈ document.fragments) :
    Selection.AllNamed fragment.selections := by
  obtain ⟨part, isPart, same⟩ := List.mem_filterMap.mp member
  cases part <;> simp at same
  subst same
  exact named _ isPart

/-- The operation that is selected is one of the document. -/
theorem mem_of_selectOperation {document : Document} {operation? : Option String}
    {operation : Operation} (selected : document.selectOperation operation? = .ok operation) :
    operation ∈ document.operations := by
  unfold selectOperation at selected
  split at selected
  · split at selected
    · contradiction
    · rename_i found
      cases selected
      exact List.mem_of_find?_eq_some found
  · split at selected
    · contradiction
    · rename_i only
      cases selected
      rw [only]
      exact List.mem_singleton_self _
    · contradiction

end Document

namespace Schema

variable {σ ε : Type} {schema : Schema} {request : Request}

/-- All that a document has to be for a request to be ready to be walked. -/
theorem of_prepare_eq_ok {document : Document} {operation? : Option String}
    {provided : Members} {prepared : PreparedRequest}
    (ready : schema.prepare document operation? provided = .ok prepared) :
    document.problems schema operation? = [] ∧
      document.selectOperation operation? = .ok prepared.operation ∧
      schema.rootType? prepared.operation.kind = some prepared.root ∧
      ∃ values, Input.operationValues schema prepared.operation.variableDefinitions provided =
        .ok values ∧ prepared.scope = ⟨schema, document.fragments, values⟩ := by
  unfold prepare at ready
  dsimp only at ready
  split at ready
  · rename_i valid
    obtain ⟨operation, selects, ready⟩ := Except.of_bind_eq_ok ready
    split at ready
    · obtain ⟨values, given, ready⟩ := Except.of_bind_eq_ok ready
      split at ready
      · contradiction
      · rename_i root found
        cases ready
        exact ⟨by simpa using valid, Except.of_mapError_eq_ok selects, found, values,
          Except.of_mapError_eq_ok given, rfl⟩
    · contradiction
  · contradiction

/-- What a request that is ready to be walked has in common with its document and schema. -/
structure Prepares (schema : Schema) (document : Document) (prepared : PreparedRequest) :
    Prop where
  sameSchema : prepared.scope.schema = schema
  fragments : prepared.scope.fragments = document.fragments
  selected : prepared.operation ∈ document.operations
  isType : prepared.root ∈ schema.types

/-- A request is prepared from its document and schema. -/
theorem prepares_of_prepare {document : Document} {operation? : Option String}
    {provided : Members} {prepared : PreparedRequest}
    (ready : schema.prepare document operation? provided = .ok prepared) :
    schema.Prepares document prepared := by
  obtain ⟨_, selects, found, values, _, scope⟩ := of_prepare_eq_ok ready
  obtain ⟨name, _, isRoot⟩ := Option.bind_eq_some_iff.mp found
  exact ⟨by rw [scope], by rw [scope], Document.mem_of_selectOperation selects,
    mem_of_get? isRoot⟩

/-- A request that is ready was read and then prepared. -/
theorem prepares_of_prepareRequest {prepared : PreparedRequest}
    (ready : schema.prepareRequest request =
      (.ok prepared : Except (RequestError ε) PreparedRequest)) :
    ∃ document, Document.parse request.query = .ok document ∧
      schema.Prepares document prepared := by
  obtain ⟨document, parsed, ready⟩ := Except.of_bind_eq_ok ready
  exact ⟨document, Except.of_mapError_eq_ok parsed,
    prepares_of_prepare (Except.of_mapError_eq_ok ready)⟩

/-- How the calls for a request are arranged. -/
structure Arranges (schema : Schema) (forest : Forest (ResolverCall σ ε)) : Prop where
  nested : ResolverCall.Nested none forest
  parentsFirst : ResolverCall.ParentsFirst [] forest.preorder
  known : ∀ call ∈ forest.preorder, call.visit.Known schema
  named : ∀ call ∈ forest.preorder, call.visit.path.fieldPath.Named
  inside : ∀ call ∈ forest.preorder, call.visit.path.fieldPath ≠ .root
  nodup : (forest.preorder.map (·.visit.path.fieldPath.segments)).Nodup

/-- What places in the response are looked up by tells the calls apart. -/
theorem Arranges.keyed {forest : Forest (ResolverCall σ ε)} (arranges : schema.Arranges forest) :
    (forest.preorder.map (·.visit.path.positionKey)).Nodup := by
  refine List.pairwise_map.mpr ((List.pairwise_map.mp arranges.nodup).imp_of_mem ?_)
  intro call other member member' different same
  exact different (congrArg _ (ResponsePath.positionKey_injective (arranges.named _ member)
    (arranges.named _ member') same))

/-- **The arrangement of the calls for a request.** They are a forest, made in preorder, each for a
field of its type at a place of its own. -/
theorem calls_arranged (schema : Schema) (resolve : Resolver σ ε) (request : Request) (state : σ) :
    ∃ forest : Forest (ResolverCall σ ε),
      schema.calls resolve request state = forest.preorder ∧ schema.Arranges forest ∧
      resolve.Transcript state forest.preorder
        (refusal? ((schema.execute resolve request).on state).1)
        ((schema.execute resolve request).on state).2 := by
  obtain ⟨forest, made, asked, script⟩ := schema.calls_asked resolve request state
  refine ⟨forest, made, ?_, script⟩
  rcases asked with rfl | ⟨prepared, ready, asked⟩
  · exact ⟨trivial, trivial, List.forall_mem_nil _, List.forall_mem_nil _, List.forall_mem_nil _,
      List.nodup_nil⟩
  · obtain ⟨document, parsed, prepares⟩ := prepares_of_prepareRequest ready
    have named := Document.named_of_parse parsed
    have fragments : ∀ fragment ∈ prepared.scope.fragments,
        Selection.AllNamed fragment.selections := by
      rw [prepares.fragments]
      exact fun fragment => Document.allNamed_fragment named
    have sound : FieldGroups.Sound
        (prepared.scope.collect prepared.root prepared.operation.selections) :=
      QueryScope.sound_collect fragments (Document.allNamed_operation named prepares.selected)
    have placed := asked.named fragments sound ResponsePath.named_root
    refine ⟨asked.nested, asked.parentsFirst (.inl rfl), ?_, fun call member =>
      (placed call member).1, fun call member => (placed call member).2,
      asked.nodup fragments sound⟩
    rw [← prepares.sameSchema]
    exact asked.known (prepares.sameSchema ▸ prepares.isType)

end Schema

end TraversalQuery
