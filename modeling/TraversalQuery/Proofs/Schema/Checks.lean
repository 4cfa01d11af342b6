import TraversalQuery.Proofs.Runs
import TraversalQuery.Schema.Compile

/-!
# What the check of a schema decides

A schema is checked type by type, and the check ends at the first fault. It finds none exactly if
the schema is closed: whatever it names is there and fits where it is named, and no type has two
fields of one name. The names of arguments, of the fields of input types and of the values of enums
are not looked at.
-/

namespace TraversalQuery

namespace Schema

/-- A name of a type of a kind. -/
def HasKind (schema : Schema) (name : String) (kind : TypeKind) : Prop :=
  ∃ type, schema.get? name = some type ∧ type.kind = kind

/-- A type that a field can have. -/
def IsOutput (schema : Schema) (type : TypeRef) : Prop :=
  ∃ output, schema.get? type.namedType = some output ∧
    (output.kind.isComposite = true ∨ output.kind.isLeaf = true)

/-- A type that arguments and the fields of input types can have. -/
def IsInput (schema : Schema) (type : TypeRef) : Prop :=
  ∃ input, schema.get? type.namedType = some input ∧ input.kind.isInput = true

/-- A type that names nothing but what is there and fits. -/
structure ClosedAt (schema : Schema) (type : SchemaType) : Prop where
  interfaces : ∀ name ∈ type.interfaces, schema.HasKind name .interface
  distinct : (type.fields.map (·.name)).Nodup
  outputs : ∀ field ∈ type.fields, schema.IsOutput field.type
  arguments : ∀ field ∈ type.fields, ∀ input ∈ field.arguments, schema.IsInput input.type
  inputs : ∀ input ∈ type.inputFields, schema.IsInput input.type

/-- A schema with a query root in which all roots are objects and all types are closed. -/
structure Closed (schema : Schema) : Prop where
  query : ∃ root, schema.rootType? .query = some root
  roots : ∀ name ∈ schema.roots.names, schema.HasKind name .object
  types : ∀ type ∈ schema.types, schema.ClosedAt type

variable {schema : Schema}

/-- A type is resolved to a kind exactly if its name is that of a type of the kind. -/
theorem resolve_eq_ok_iff {site : String} {type : TypeRef} {kind : TypeKind} :
    schema.resolve site type = .ok kind ↔ schema.HasKind type.namedType kind := by
  unfold resolve kindOf? HasKind
  cases schema.get? type.namedType <;> simp

/-- Fields can yield every kind of type but inputs. -/
theorem isOutput_iff {type : TypeRef} :
    schema.IsOutput type ↔ ∃ kind, schema.HasKind type.namedType kind ∧ kind ≠ .input := by
  have output (kind : TypeKind) :
      (kind.isComposite = true ∨ kind.isLeaf = true) ↔ kind ≠ .input := by
    cases kind <;> simp [TypeKind.isComposite, TypeKind.isLeaf]
  constructor
  · rintro ⟨found, isType, fits⟩
    exact ⟨found.kind, ⟨found, isType, rfl⟩, (output _).mp fits⟩
  · rintro ⟨_, ⟨found, isType, rfl⟩, fits⟩
    exact ⟨found, isType, (output _).mpr fits⟩

/-- Inputs can be of every kind of type that is one for inputs. -/
theorem isInput_iff {type : TypeRef} :
    schema.IsInput type ↔ ∃ kind, schema.HasKind type.namedType kind ∧ kind.isInput = true := by
  constructor
  · rintro ⟨found, isType, fits⟩
    exact ⟨found.kind, ⟨found, isType, rfl⟩, fits⟩
  · rintro ⟨_, ⟨found, isType, rfl⟩, fits⟩
    exact ⟨found, isType, fits⟩

/-- The check of inputs passes exactly if all their types can be given. -/
theorem checkInputs_eq_ok_iff {site : String → String} {inputs : List InputValue} :
    schema.checkInputs site inputs = .ok () ↔ ∀ input ∈ inputs, schema.IsInput input.type := by
  induction inputs with
  | nil => simp [checkInputs]
  | cons input rest ih =>
    rw [List.forall_mem_cons, ← ih, isInput_iff, checkInputs, Except.bind_eq_ok_iff]
    simp only [resolve_eq_ok_iff]
    constructor
    · rintro ⟨kind, named, checked⟩
      split at checked
      · rename_i fits
        exact ⟨⟨kind, named, fits⟩, checked⟩
      · contradiction
    · rintro ⟨⟨kind, named, fits⟩, checked⟩
      exact ⟨kind, named, by rw [if_pos fits, checked]⟩

/-- The names of the fields before are seen, so none of the others repeats one of them. -/
theorem checkFields_eq_ok_iff {type : String} {fields : List OutputField} : ∀ {seen : List String},
    schema.checkFields type seen fields = .ok () ↔
      (∀ field ∈ fields, field.name ∉ seen) ∧ (fields.map (·.name)).Nodup ∧
        ∀ field ∈ fields, schema.IsOutput field.type ∧
          ∀ input ∈ field.arguments, schema.IsInput input.type := by
  induction fields with
  | nil => simp [checkFields]
  | cons field rest ih =>
    intro seen
    have later : (∀ other ∈ rest, other.name ∉ field.name :: seen) ↔
        field.name ∉ rest.map (·.name) ∧ ∀ other ∈ rest, other.name ∉ seen := by
      simp only [List.mem_cons, not_or, List.mem_map, not_exists, not_and, ← forall_and]
    rw [List.forall_mem_cons, List.forall_mem_cons, List.map_cons, List.nodup_cons]
    unfold checkFields
    dsimp only
    by_cases known : field.name ∈ seen
    · rw [if_pos (List.contains_iff_mem.mpr known)]
      exact iff_of_false nofun fun holds => holds.1.1 known
    · rw [if_neg (mt List.contains_iff_mem.mp known)]
      rw [isOutput_iff]
      constructor
      · intro checked
        obtain ⟨kind, resolved, checked⟩ := Except.of_bind_eq_ok checked
        split at checked
        · contradiction
        · rename_i fits
          obtain ⟨_, arguments, checked⟩ := Except.of_bind_eq_ok checked
          obtain ⟨fresh, distinct, others⟩ := ih.mp checked
          obtain ⟨unlike, unseen⟩ := later.mp fresh
          exact ⟨⟨known, unseen⟩, ⟨unlike, distinct⟩,
            ⟨⟨kind, resolve_eq_ok_iff.mp resolved, fits⟩, checkInputs_eq_ok_iff.mp arguments⟩,
            others⟩
      · rintro ⟨⟨-, unseen⟩, ⟨unlike, distinct⟩, ⟨⟨kind, named, fits⟩, arguments⟩, others⟩
        rw [resolve_eq_ok_iff.mpr named]
        dsimp only [Except.ok_bind]
        rw [if_neg fits, checkInputs_eq_ok_iff.mpr arguments]
        exact ih.mpr ⟨later.mpr ⟨unlike, unseen⟩, distinct, others⟩

/-- The check of interfaces passes exactly if all their names are those of interfaces. -/
theorem checkInterfaces_eq_ok_iff {type : String} {interfaces : List String} :
    schema.checkInterfaces type interfaces = .ok () ↔
      ∀ name ∈ interfaces, schema.HasKind name .interface := by
  induction interfaces with
  | nil => simp [checkInterfaces]
  | cons name rest ih =>
    rw [List.forall_mem_cons, ← ih, checkInterfaces]
    unfold HasKind
    cases schema.get? name with
    | none => simp
    | some found => by_cases kind : found.kind = .interface <;> simp [kind]

/-- The check of a type passes exactly if it names nothing but what is there and fits. -/
theorem checkType_eq_ok_iff {type : SchemaType} :
    schema.checkType type = .ok () ↔ schema.ClosedAt type := by
  rw [checkType, Except.check_bind_eq_ok_iff, Except.check_bind_eq_ok_iff,
    checkInterfaces_eq_ok_iff, checkFields_eq_ok_iff, checkInputs_eq_ok_iff]
  constructor
  · rintro ⟨interfaces, ⟨-, distinct, fields⟩, inputs⟩
    exact ⟨interfaces, distinct, fun field member => (fields field member).1,
      fun field member => (fields field member).2, inputs⟩
  · rintro ⟨interfaces, distinct, outputs, arguments, inputs⟩
    exact ⟨interfaces, ⟨fun _ _ => List.not_mem_nil, distinct,
      fun field member => ⟨outputs field member, arguments field member⟩⟩, inputs⟩

/-- The check of types passes exactly if each of them is closed. -/
theorem checkTypes_eq_ok_iff {types : List SchemaType} :
    schema.checkTypes types = .ok () ↔ ∀ type ∈ types, schema.ClosedAt type := by
  induction types with
  | nil => simp [checkTypes]
  | cons type rest ih =>
    rw [List.forall_mem_cons, ← ih, ← checkType_eq_ok_iff, checkTypes,
      Except.check_bind_eq_ok_iff]

/-- The check of roots passes exactly if all of them are objects. -/
theorem checkRoots_eq_ok_iff {roots : List String} :
    schema.checkRoots roots = .ok () ↔ ∀ name ∈ roots, schema.HasKind name .object := by
  induction roots with
  | nil => simp [checkRoots]
  | cons root rest ih =>
    rw [List.forall_mem_cons, ← ih, checkRoots]
    unfold HasKind
    cases schema.get? root with
    | none => simp
    | some found => by_cases kind : found.kind = .object <;> simp [kind]

/-- **The check accepts closed schemas and no others.** -/
theorem check_eq_ok_iff : schema.check = .ok () ↔ schema.Closed := by
  unfold check
  dsimp only
  cases query : schema.rootType? .query with
  | none => exact iff_of_false nofun fun closed => nomatch query.symm.trans closed.query.choose_spec
  | some root =>
    rw [if_neg (by simp), Except.check_bind_eq_ok_iff, checkRoots_eq_ok_iff, checkTypes_eq_ok_iff]
    exact ⟨fun ⟨roots, types⟩ => ⟨⟨root, query⟩, roots, types⟩,
      fun ⟨_, roots, types⟩ => ⟨roots, types⟩⟩

end Schema

end TraversalQuery
