import TraversalQuery.Proofs.Response.Nesting
import TraversalQuery.Proofs.Response.Paths
import TraversalQuery.Proofs.Typing.Aliases

/-!
# Walks under other aliases

Under other aliases a walk groups the same fields, since an injective renaming keeps apart what has
different response keys. So it asks a resolver about the same fields in the same order; only the
response keys in what the resolver learns are different. A resolver to which that makes no
difference answers the same, and the walks end alike.
-/

namespace TraversalQuery

variable {rename : String → String}

/-! ### Paths -/

/-- A step under other aliases. -/
def PathSegment.renamed (rename : String → String) : PathSegment → PathSegment
  | .field key => .field (rename key)
  | .index number => .index number

/-- Other aliases keep steps apart. -/
theorem PathSegment.renamed_injective (injective : Function.Injective rename) :
    Function.Injective (renamed rename) := by
  intro segment other same
  cases segment with
  | field key =>
    cases other with
    | field key' => exact congrArg _ (injective (PathSegment.field.inj same))
    | index number => contradiction
  | index number =>
    cases other with
    | field key => contradiction
    | index number' => exact same

namespace ResponsePath

/-- A path under other aliases. -/
def renamed (rename : String → String) (path : ResponsePath) : ResponsePath :=
  ⟨path.segments.map (PathSegment.renamed rename)⟩

@[simp] theorem renamed_root : root.renamed rename = root := rfl

@[simp] theorem renamed_child (path : ResponsePath) (key : String) :
    (path.child key).renamed rename = (path.renamed rename).child (rename key) := by
  simp [renamed, child, PathSegment.renamed]

@[simp] theorem renamed_item (path : ResponsePath) (index : Nat) :
    (path.item index).renamed rename = (path.renamed rename).item index := by
  simp [renamed, item, PathSegment.renamed]

/-- Other aliases leave out the same items of a path. -/
theorem fieldPath_renamed (path : ResponsePath) :
    (path.renamed rename).fieldPath = path.fieldPath.renamed rename := by
  have sameKind : PathSegment.isField ∘ PathSegment.renamed rename = PathSegment.isField := by
    funext segment
    cases segment <;> rfl
  rw [fieldPath, renamed, List.filter_map, sameKind]
  rfl

/-- Other aliases keep paths apart. -/
theorem renamed_injective (injective : Function.Injective rename) :
    Function.Injective (renamed rename) := by
  intro path other same
  have segments := congrArg segments same
  exact congrArg mk (List.map_injective_iff.mpr (PathSegment.renamed_injective injective) segments)

/-- A path of names is one under aliases that are names. -/
theorem Named.renamed (isName : ∀ name, IsName name → IsName (rename name)) {path : ResponsePath}
    (named : path.Named) : (path.renamed rename).Named := by
  obtain ⟨keys, same, each⟩ := named
  refine ⟨keys.map rename, by simp [ResponsePath.renamed, same, PathSegment.renamed], ?_⟩
  intro key member
  obtain ⟨name, isKey, rfl⟩ := List.mem_map.mp member
  exact isName name (each name isKey)

/-- Under other aliases paths are known to be different as before. -/
theorem positionKey_renamed_iff (isName : ∀ name, IsName name → IsName (rename name))
    (injective : Function.Injective rename) {path other : ResponsePath}
    (named : path.fieldPath.Named) (named' : other.fieldPath.Named) :
    (path.renamed rename).positionKey = (other.renamed rename).positionKey ↔
      path.positionKey = other.positionKey := by
  constructor
  · intro same
    have places := positionKey_injective (fieldPath_renamed path ▸ named.renamed isName)
      (fieldPath_renamed other ▸ named'.renamed isName) same
    rw [fieldPath_renamed, fieldPath_renamed] at places
    exact congrArg text (renamed_injective injective places)
  · intro same
    rw [positionKey, positionKey, fieldPath_renamed, fieldPath_renamed,
      positionKey_injective named named' same]

end ResponsePath

/-- The field around a field under other aliases. -/
def ParentField.renamed (rename : String → String) (parent : ParentField) : ParentField :=
  { parent with path := parent.path.renamed rename }

namespace FieldVisit

/-- What a resolver learns about a field under other aliases. -/
def renamed (rename : String → String) (visit : FieldVisit) : FieldVisit :=
  { visit with
    responseKey := rename visit.responseKey
    path := visit.path.renamed rename
    parent? := visit.parent?.map (ParentField.renamed rename) }

@[simp] theorem definition_renamed (visit : FieldVisit) :
    (visit.renamed rename).definition = visit.definition := rfl

@[simp] theorem output?_renamed (visit : FieldVisit) :
    (visit.renamed rename).output? = visit.output? := rfl

@[simp] theorem arguments_renamed (visit : FieldVisit) :
    (visit.renamed rename).arguments = visit.arguments := rfl

@[simp] theorem parent?_renamed (visit : FieldVisit) :
    (visit.renamed rename).parent? = visit.parent?.map (ParentField.renamed rename) := rfl

/-- The path around a field is the same under its other aliases. -/
theorem parentPath_renamed (visit : FieldVisit) :
    (visit.renamed rename).parentPath = visit.parentPath.renamed rename := by
  rw [parentPath, parentPath, parent?_renamed]
  cases visit.parent? <;> rfl

/-- A visit at a place that is known by names. -/
structure Placed (visit : FieldVisit) : Prop where
  path : visit.path.fieldPath.Named
  parentPath : visit.parentPath.fieldPath.Named

end FieldVisit

/-! ### Groups of fields -/

/-- A selected field under other aliases. -/
def SelectedField.keyed (rename : String → String) (selected : SelectedField) : SelectedField :=
  ⟨selected.field.keyed rename, selected.selections.map (Selection.keyed rename)⟩

@[simp] theorem SelectedField.field_keyed (selected : SelectedField) :
    (selected.keyed rename).field = selected.field.keyed rename := rfl

/-- Groups of fields under other aliases. -/
def FieldGroups.keyed (rename : String → String) (groups : FieldGroups) : FieldGroups :=
  groups.map fun (key, fields) => (rename key, fields.map (SelectedField.keyed rename))

/-- A field is added to the same group under other aliases. -/
theorem FieldGroups.add_keyed (injective : Function.Injective rename) (key : String)
    (selected : SelectedField) (groups : FieldGroups) :
    (groups.keyed rename).add (rename key) (selected.keyed rename) =
      (groups.add key selected).keyed rename := by
  induction groups with
  | nil => rfl
  | cons group rest ih =>
    obtain ⟨other, fields⟩ := group
    change add (rename key) _ ((rename other, fields.map (SelectedField.keyed rename)) ::
      FieldGroups.keyed rename rest) = _
    by_cases same : other = key
    · simp [add, keyed, same]
    · rw [add, if_neg fun equal => same (injective equal), ih, add, if_neg same]
      rfl

/-- The fields collected so far, under other aliases. -/
def Collected.keyed (rename : String → String) (collected : Collected) : Collected :=
  ⟨collected.groups.keyed rename, collected.visited⟩

namespace QueryScope

/-- What a walk over the query under other aliases looks things up in. -/
def keyed (rename : String → String) (scope : QueryScope) : QueryScope :=
  ⟨scope.schema, scope.fragments.map (Fragment.keyed rename), scope.variableValues⟩

variable {scope : QueryScope} {object : SchemaType}

@[simp] theorem schema_keyed : (scope.keyed rename).schema = scope.schema := rfl

/-- A fragment is found by its name under other aliases. -/
theorem find?_fragments_keyed (name : String) :
    Fragment.find? (scope.keyed rename).fragments name =
      (Fragment.find? scope.fragments name).map (Fragment.keyed rename) :=
  Fragment.find?_keyed rename scope.fragments name

/-- Aliases do not matter for whether something is included. -/
theorem includes_keyed (directives : List Directive) :
    (scope.keyed rename).includes (directives.map Directive.bare) =
      scope.includes directives := by
  have condition (name : String) :
      (scope.keyed rename).condition? (directives.map Directive.bare) name =
        scope.condition? directives name := by
    unfold condition?
    simp only [findDirective?_bare, Option.bind_map, Function.comp_def, Directive.argument?_bare]
    rfl
  rw [includes, includes, condition, condition]

/-- Ways to collect the selections of fragments, with other aliases and without. -/
def CollectFragment.Alike (rename : String → String) (enter entering : CollectFragment) : Prop :=
  ∀ fragment collected,
    entering (fragment.keyed rename) (collected.keyed rename) =
      (enter fragment collected).keyed rename

/-- Selections are collected alike under other aliases if each of them is. -/
theorem collectSelections_keyed {enter entering : CollectFragment} {selections : List Selection}
    (each : ∀ selection ∈ selections, ∀ collected,
      collectSelection (scope.keyed rename) entering object (collected.keyed rename)
        (selection.keyed rename) =
      (collectSelection scope enter object collected selection).keyed rename) :
    ∀ collected,
      collectSelections (scope.keyed rename) entering object (collected.keyed rename)
        (selections.map (Selection.keyed rename)) =
      (collectSelections scope enter object collected selections).keyed rename := by
  induction selections with
  | nil => exact fun _ => rfl
  | cons selection rest ih =>
    intro collected
    obtain ⟨first, later⟩ := List.forall_mem_cons.mp each
    rw [List.map_cons, collectSelections, first, ih later, collectSelections]

/-- A selection is collected alike under other aliases. -/
theorem collectSelection_keyed (injective : Function.Injective rename)
    {enter entering : CollectFragment} (alike : CollectFragment.Alike rename enter entering)
    (selection : Selection) : ∀ collected,
      collectSelection (scope.keyed rename) entering object (collected.keyed rename)
        (selection.keyed rename) =
      (collectSelection scope enter object collected selection).keyed rename := by
  induction selection using Selection.deepInduction with
  | field selected selections braces? ih =>
    intro collected
    rw [Selection.keyed_field, collectSelection, collectSelection, Field.directives_keyed,
      includes_keyed]
    split
    · exact congrArg (Collected.mk · collected.visited)
        (FieldGroups.add_keyed injective selected.responseKey ⟨selected, selections⟩ _)
    · rfl
  | spread name directives span =>
    intro collected
    rw [Selection.keyed_spread, collectSelection, collectSelection, includes_keyed]
    change (if scope.includes directives && !collected.visited.contains name then _ else _) = _
    split
    · dsimp only
      rw [find?_fragments_keyed]
      cases Fragment.find? scope.fragments name with
      | none => rfl
      | some fragment =>
        dsimp only [Option.map_some]
        rw [Fragment.condition_keyed]
        split
        · exact alike fragment ⟨collected.groups, name :: collected.visited⟩
        · rfl
    · rfl
  | inline condition? directives selections braces span ih =>
    intro collected
    rw [Selection.keyed_inline, collectSelection, collectSelection, includes_keyed]
    split
    · exact collectSelections_keyed ih collected
    · rfl

/-- Fragments are collected alike under other aliases. -/
theorem alike_collectFragment (injective : Function.Injective rename) (rounds : Nat) :
    CollectFragment.Alike rename (collectFragment scope object rounds)
      (collectFragment (scope.keyed rename) object rounds) := by
  induction rounds with
  | zero => exact fun _ _ => rfl
  | succ rounds ih =>
    intro fragment collected
    rw [collectFragment, collectFragment, Fragment.selections_keyed]
    exact collectSelections_keyed (fun selection _ => collectSelection_keyed injective ih selection)
      collected

/-- **Under other aliases the same fields are grouped.** -/
theorem collect_keyed (injective : Function.Injective rename) (selections : List Selection) :
    (scope.keyed rename).collect object (selections.map (Selection.keyed rename)) =
      (scope.collect object selections).keyed rename := by
  have rounds : (scope.keyed rename).fragments.length = scope.fragments.length :=
    List.length_map _
  rw [collect, collect, rounds]
  exact congrArg Collected.groups (collectSelections_keyed (fun selection _ =>
    collectSelection_keyed injective (alike_collectFragment injective scope.fragments.length)
      selection) ⟨[], []⟩)

end QueryScope

/-! ### Walks -/

namespace Selection

/-- Selections are as deep under other aliases if each of them is. -/
theorem depthOf_keyed {selections : List Selection}
    (each : ∀ selection ∈ selections, (selection.keyed rename).depth = selection.depth) :
    depthOf (selections.map (keyed rename)) = depthOf selections := by
  induction selections with
  | nil => rfl
  | cons selection rest ih =>
    obtain ⟨first, later⟩ := List.forall_mem_cons.mp each
    rw [List.map_cons, depthOf, depthOf, first, ih later]

/-- Under other aliases fields are as deep inside one another. -/
theorem depth_keyed (selection : Selection) :
    (selection.keyed rename).depth = selection.depth := by
  induction selection using deepInduction with
  | field selected selections braces? ih => rw [keyed_field, depth, depthOf_keyed ih, depth]
  | spread name directives span => rw [keyed_spread, depth, depth]
  | inline condition? directives selections braces span ih =>
    rw [keyed_inline, depth, depthOf_keyed ih, depth]

end Selection

/-- Walks that end early for reasons that are related. -/
inductive WalkStop.Alike {ε : Type} (errors : ε → ε → Prop) : WalkStop ε → WalkStop ε → Prop
  | refused {error other : ε} (same : errors error other) :
      Alike errors (.refused error) (.refused other)
  | endless : Alike errors .endless .endless
  | unsettled : Alike errors .unsettled .unsettled

/-- A resolver to which other aliases make no difference. -/
def Resolver.Indifferent {σ ε : Type} (rename : String → String) (states : σ → σ → Prop)
    (errors : ε → ε → Prop) (resolve : Resolver σ ε) : Prop :=
  ∀ visit : FieldVisit, visit.Placed →
    ExceptT.Agrees states errors Eq (resolve visit) (resolve (visit.renamed rename))

namespace QueryScope

open ExceptT

variable {σ ε : Type} {scope : QueryScope} {states : σ → σ → Prop} {errors : ε → ε → Prop}
  {resolve : Resolver σ ε}

/-- A field is visited alike under other aliases. -/
theorem visit_keyed (object : SchemaType) (definition : OutputField) (key : String)
    (field : Field) (path : ResponsePath) (parent? : Option ParentField) :
    (scope.keyed rename).visit object definition (rename key) (field.keyed rename)
        (path.renamed rename) (parent?.map (ParentField.renamed rename)) =
      (scope.visit object definition key field path parent?).renamed rename := by
  simp only [visit, FieldVisit.renamed, Input.arguments, Field.argument?_keyed, schema_keyed]
  split
  · rw [ResponsePath.renamed_item, ResponsePath.renamed_child]
    rfl
  · rw [ResponsePath.renamed_child]
    rfl

/-- Under other aliases the arguments of a field take the same defaults. -/
theorem settles_keyed (definition : OutputField) (field : Field) :
    (scope.keyed rename).settles definition (field.keyed rename) =
      scope.settles definition field := by
  simp only [settles, Input.lackingArguments, Field.argument?_keyed, schema_keyed]
  rfl

/-- Ways to walk the selections on objects, with other aliases and without. -/
def WalkObject.Agrees (rename : String → String) (states : σ → σ → Prop) (errors : ε → ε → Prop)
    (inner other : WalkObject σ ε) : Prop :=
  ∀ object selections path parent?, Selection.AllNamed selections → path.fieldPath.Named →
    (∀ parent ∈ parent?, parent.path.fieldPath.Named) →
      ExceptT.Agrees states (WalkStop.Alike errors) (fun _ _ => True)
        (inner object selections path parent?)
        (other object (selections.map (Selection.keyed rename)) (path.renamed rename)
          (parent?.map (ParentField.renamed rename)))

/-- What is walked inside a field agrees under other aliases. -/
theorem agrees_answered {inner other : WalkObject σ ε}
    (agrees : WalkObject.Agrees rename states errors inner other) {visit : FieldVisit}
    (placed : visit.path.fieldPath.Named) {fields : List SelectedField}
    (named : ∀ selected ∈ fields, Selection.AllNamed selected.selections) (answer : Answer) :
    ExceptT.Agrees states (WalkStop.Alike errors) (fun _ _ => True)
      (scope.answered inner visit fields answer)
      ((scope.keyed rename).answered other (visit.renamed rename)
        (fields.map (SelectedField.keyed rename)) answer) := by
  have sameSelections : (fields.map (SelectedField.keyed rename)).flatMap (·.selections) =
      (fields.flatMap (·.selections)).map (Selection.keyed rename) := by
    rw [List.flatMap_map, List.map_flatMap]
    rfl
  cases answer with
  | null => exact agrees_pure trivial
  | leaf value => exact agrees_pure trivial
  | object =>
    unfold answered
    rw [sameSelections, FieldVisit.output?_renamed]
    cases visit.output? with
    | none => exact agrees_pure trivial
    | some declared =>
      refine Agrees.bind (agrees _ _ _ _ (Selection.allNamed_flatMap named) placed ?_)
        fun _ _ _ => agrees_pure trivial
      intro parent isParent
      rw [← Option.some.inj isParent]
      exact placed

/-- The walk over a field agrees under other aliases. -/
theorem agrees_fieldValue {inner other : WalkObject σ ε}
    (agrees : WalkObject.Agrees rename states errors inner other)
    (indifferent : resolve.Indifferent rename states errors) (object : SchemaType)
    {path : ResponsePath} {parent? : Option ParentField} (around : path.fieldPath.Named)
    (above : ∀ parent ∈ parent?, parent.path.fieldPath.Named) {key : String}
    {fields : List SelectedField} (isName : IsName key)
    (named : ∀ selected ∈ fields, Selection.AllNamed selected.selections) :
    ExceptT.Agrees states (WalkStop.Alike errors) (fun _ _ => True)
      (scope.fieldValue resolve inner object path parent? key fields)
      ((scope.keyed rename).fieldValue resolve other object (path.renamed rename)
        (parent?.map (ParentField.renamed rename)) (rename key)
        (fields.map (SelectedField.keyed rename))) := by
  unfold fieldValue
  rw [List.head?_map]
  cases fields.head? with
  | none => exact agrees_pure trivial
  | some first =>
    dsimp only [Option.map_some]
    rw [SelectedField.field_keyed, Field.name_keyed]
    split
    · exact agrees_pure trivial
    · cases object.field? first.field.name with
      | none => exact agrees_pure trivial
      | some definition =>
        have place :
            (scope.visit object definition key first.field path parent?).path.fieldPath.Named :=
          FieldVisit.fieldPath_visit .. ▸ around.child isName
        dsimp only
        rw [settles_keyed, visit_keyed]
        split
        · refine Agrees.bind (Agrees.adapt (indifferent _ ⟨place, ?_⟩) fun _ _ => .refused) ?_
          · cases parent? with
            | none => exact ResponsePath.named_root
            | some parent => exact above parent rfl
          · rintro answer _ rfl
            refine Agrees.bind (agrees_answered agrees place named answer) fun value value' _ => ?_
            cases value <;> cases value' <;> exact agrees_pure trivial
        · exact agrees_throw .unsettled

/-- The walk over groups of fields agrees under other aliases if it does over each of them. -/
theorem agrees_groupValues {value value' : String → List SelectedField → Walk σ ε Json}
    {groups : FieldGroups} (sound : groups.Sound)
    (each : ∀ key fields, IsName key →
      (∀ selected ∈ fields, Selection.AllNamed selected.selections) →
        ExceptT.Agrees states (WalkStop.Alike errors) (fun _ _ => True)
          (value key fields) (value' (rename key) (fields.map (SelectedField.keyed rename)))) :
    ∀ members members' : Members,
      ExceptT.Agrees states (WalkStop.Alike errors) (fun _ _ => True)
        (groupValues value groups members) (groupValues value' (groups.keyed rename) members') := by
  induction groups with
  | nil => exact fun _ _ => agrees_pure trivial
  | cons group rest ih =>
    obtain ⟨key, fields⟩ := group
    intro members members'
    exact Agrees.bind (each key fields (sound.named _ List.mem_cons_self)
      (sound.inside _ List.mem_cons_self)) fun _ _ _ => ih sound.tail _ _

/-- Walks of objects run alike, however deep they may go. -/
theorem agrees_walkObject (injective : Function.Injective rename)
    (indifferent : resolve.Indifferent rename states errors)
    (named : ∀ fragment ∈ scope.fragments, Selection.AllNamed fragment.selections) (depth : Nat) :
    WalkObject.Agrees rename states errors (scope.walkObject resolve depth)
      ((scope.keyed rename).walkObject resolve depth) := by
  induction depth with
  | zero => exact fun _ _ _ _ _ _ _ => agrees_throw .endless
  | succ depth ih =>
    intro object selections path parent? allNamed around above
    rw [walkObject, walkObject, collect_keyed injective]
    exact agrees_groupValues (sound_collect named allNamed) (fun key fields isName inside =>
      agrees_fieldValue ih indifferent object around above isName inside) _ _

/-- The limit of a walk is the same under other aliases. -/
theorem depthLimit_keyed (selections : List Selection) :
    (scope.keyed rename).depthLimit (selections.map (Selection.keyed rename)) =
      scope.depthLimit selections := by
  have depths (selections : List Selection) :
      Selection.depthOf (selections.map (Selection.keyed rename)) =
        Selection.depthOf selections :=
    Selection.depthOf_keyed fun selection _ => selection.depth_keyed
  rw [depthLimit, depthLimit, depths]
  simp only [keyed, List.foldr_map, Fragment.selections_keyed, depths]

/-- **A walk runs alike under other aliases** if they make no difference to its resolver. -/
theorem agrees_respond (injective : Function.Injective rename)
    (indifferent : resolve.Indifferent rename states errors)
    (named : ∀ fragment ∈ scope.fragments, Selection.AllNamed fragment.selections)
    (root : SchemaType) {selections : List Selection} (allNamed : Selection.AllNamed selections) :
    ExceptT.Agrees states (WalkStop.Alike errors) (fun _ _ => True)
      (scope.respond resolve root selections)
      ((scope.keyed rename).respond resolve root (selections.map (Selection.keyed rename))) := by
  rw [respond, respond, depthLimit_keyed]
  exact Agrees.bind (agrees_walkObject injective indifferent named _ root selections .root none
    allNamed ResponsePath.named_root (by simp)) fun _ _ _ => agrees_pure trivial

end QueryScope

/-! ### Requests -/

/-- The places of variables do not matter for their values. -/
theorem Input.operationValues_bare (schema : Schema) (definitions : List VariableDefinition)
    (provided : Members) :
    operationValues schema (definitions.map VariableDefinition.bare) provided =
      operationValues schema definitions provided := by
  have values : ∀ members,
      variableValues schema provided (definitions.map VariableDefinition.bare) members =
        variableValues schema provided definitions members := by
    induction definitions with
    | nil => exact fun _ => rfl
    | cons definition rest ih =>
      intro members
      have value : variableValue schema provided definition.bare =
          variableValue schema provided definition := rfl
      simp only [List.map_cons, variableValues, value, ih]
      rfl
  rw [operationValues, operationValues, values]

/-- The places of variables do not matter for whether they can be read. -/
theorem Input.variablesSettle_bare (schema : Schema) (definitions : List VariableDefinition)
    (provided : Members) :
    variablesSettle schema (definitions.map VariableDefinition.bare) provided =
      variablesSettle schema definitions provided := by
  rw [variablesSettle, variablesSettle, List.all_map]
  rfl

/-- The causes of the problems for which a document is not ready. -/
def Unready.causes? : Unready → Option (List ProblemCause)
  | .problems found => some (Problem.causes found)
  | .unsettled => none

/-- A request ready to be walked, under other aliases. -/
def PreparedRequest.keyed (rename : String → String) (prepared : PreparedRequest) :
    PreparedRequest :=
  ⟨prepared.operation.keyed rename, prepared.root, prepared.scope.keyed rename⟩

namespace Document.Keys

variable {document keyed : Document}

/-- Under other aliases a request is ready when it was, and has the same problems when it was
not. -/
theorem prepare (keys : document.Keys rename keyed) (schema : Schema)
    (operation? : Option String) (provided : Members) :
    (schema.prepare keyed operation? provided).mapError Unready.causes? =
      ((schema.prepare document operation? provided).map (PreparedRequest.keyed rename)).mapError
        Unready.causes? := by
  have found := keys.causes_problems schema operation?
  have sameEmpty : (keyed.problems schema operation?).isEmpty =
      (document.problems schema operation?).isEmpty := by
    simpa [Problem.causes] using congrArg List.isEmpty found
  unfold Schema.prepare
  dsimp only
  rw [sameEmpty]
  cases (document.problems schema operation?).isEmpty with
  | false => exact congrArg (Except.error ∘ Option.some) found
  | true =>
    rw [if_pos rfl, if_pos rfl, keys.selectOperation]
    cases document.selectOperation operation? with
    | error problem => rfl
    | ok operation =>
      change (Except.ok (operation.keyed rename) >>= _).mapError _ =
        ((Except.ok operation >>= _).map _).mapError _
      rw [Except.ok_bind, Except.ok_bind, Operation.variableDefinitions_keyed,
        Operation.kind_keyed, Input.operationValues_bare, Input.variablesSettle_bare]
      cases Input.variablesSettle schema operation.variableDefinitions provided with
      | false => rfl
      | true =>
        rw [if_pos rfl, if_pos rfl]
        cases Input.operationValues schema operation.variableDefinitions provided with
        | error problems => rfl
        | ok values =>
          cases schema.rootType? operation.kind with
          | none => rfl
          | some root =>
            rw [keys.fragments]
            rfl

/-- Of a renaming it counts only what it makes of names. -/
theorem congr {other : String → String} (keys : document.Keys rename keyed)
    (agree : ∀ name, IsName name → rename name = other name)
    (named : ∀ part ∈ document.definitions, part.Named) : document.Keys other keyed where
  operations := keys.operations.trans <| List.map_congr_left fun _ member =>
    Operation.keyed_congr agree (allNamed_operation named member)
  fragments := keys.fragments.trans <| List.map_congr_left fun _ member =>
    Fragment.keyed_congr agree (allNamed_fragment named member)

end Document.Keys

/-- Requests that have no response for reasons that are related. -/
inductive RequestError.Alike {ε : Type} (errors : ε → ε → Prop) :
    RequestError ε → RequestError ε → Prop
  | invalid {problems others : List Problem}
      (same : Problem.causes others = Problem.causes problems) :
      Alike errors (.invalid problems) (.invalid others)
  | refused {error other : ε} (same : errors error other) :
      Alike errors (.refused error) (.refused other)
  | endless : Alike errors .endless .endless
  | unsettled : Alike errors .unsettled .unsettled

namespace Schema

open ExceptT

variable {σ ε : Type} {states : σ → σ → Prop} {errors : ε → ε → Prop} {resolve : Resolver σ ε}
  {document keyed : Document}

/-- The response to a document. -/
def answer (schema : Schema) (resolve : Resolver σ ε) (document : Document)
    (operation? : Option String) (provided : Members) :
    ExceptT (RequestError ε) (StateM σ) Json := do
  let prepared ← ExceptT.mk
    (pure ((schema.prepare document operation? provided).mapError unreadyError))
  ExceptT.adapt requestError
    (prepared.scope.respond resolve prepared.root prepared.operation.selections)

/-- Walks that end for related reasons leave requests without a response for related reasons. -/
theorem alike_requestError {stop other : WalkStop ε} (alike : stop.Alike errors other) :
    RequestError.Alike errors (requestError stop) (requestError other) := by
  cases alike with
  | refused same => exact .refused same
  | endless => exact .endless
  | unsettled => exact .unsettled

/-- Documents that are not ready for the same causes have no response for the same reasons. -/
theorem alike_unreadyError {reason other : Unready} (same : reason.causes? = other.causes?) :
    RequestError.Alike errors (unreadyError reason) (unreadyError other) := by
  cases reason <;> cases other
  · exact .invalid (Option.some.inj same).symm
  · cases same
  · cases same
  · exact .unsettled

/-- The response to a request is that to the document that it writes. -/
theorem execute_of_parse (schema : Schema) (resolve : Resolver σ ε) {request : Request}
    (parsed : Document.parse request.query = .ok document) :
    schema.execute resolve request =
      schema.answer resolve document request.operation? request.variableValues := by
  rw [execute, prepareRequest, parsed]
  rfl

/-- **The response to a query is found alike under other aliases** if they make no difference to
the resolver. -/
theorem agrees_answer (schema : Schema) (keys : document.Keys rename keyed)
    (injective : Function.Injective rename)
    (indifferent : resolve.Indifferent rename states errors)
    (named : ∀ part ∈ document.definitions, part.Named) (operation? : Option String)
    (provided : Members) :
    ExceptT.Agrees states (RequestError.Alike errors) (fun _ _ => True)
      (schema.answer resolve document operation? provided)
      (schema.answer resolve keyed operation? provided) := by
  have prepare := keys.prepare schema operation? provided
  unfold answer
  cases ready : schema.prepare document operation? provided with
  | error reason =>
    rw [ready] at prepare
    obtain ⟨other, fails, same⟩ := Except.of_mapError_eq_error prepare
    rw [fails]
    exact agrees_throw (alike_unreadyError same)
  | ok prepared =>
    rw [ready] at prepare
    rw [Except.of_mapError_eq_ok prepare]
    have prepares := prepares_of_prepare ready
    have walked := QueryScope.agrees_respond injective indifferent (fun fragment member =>
      Document.allNamed_fragment named (prepares.fragments ▸ member)) prepared.root
      (Document.allNamed_operation named prepares.selected)
    rw [← Operation.selections_keyed] at walked
    exact Agrees.adapt walked fun _ _ => alike_requestError

end Schema

end TraversalQuery
