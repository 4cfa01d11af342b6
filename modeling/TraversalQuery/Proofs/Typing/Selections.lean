import TraversalQuery.Proofs.Document.Writing
import TraversalQuery.Proofs.Typing.Checks

/-!
# What the checks of a query find out

If the checks find no problem then every field that an operation selects is one of the type it is
selected on, with arguments that are declared there. That holds inside fragments too, and all that
are spread anywhere are among those that may be looked into.
-/

namespace TraversalQuery

namespace Selection

mutual

/-- A selection that is well typed on a type, whatever is inside the fragments that it spreads. -/
def Typed (scope : Typing.Scope) (parent : SchemaType) : Selection → Prop
  | .field selected selections _ =>
    (selected.name = "__typename" ∧ selections = []) ∨
      ∃ declared type, parent.field? selected.name = some declared ∧
        (∃ path, Typing.argumentProblems scope declared.arguments path selected.arguments = []) ∧
        scope.schema.get? declared.type.namedType = some type ∧ AllTyped scope type selections
  | .spread .. => True
  | .inline condition? _ selections _ _ =>
    ∃ type, condition?.elim (type = parent) (fun name => scope.schema.get? name = some type) ∧
      AllTyped scope type selections

/-- Selections that are well typed on a type. -/
def AllTyped (scope : Typing.Scope) (parent : SchemaType) : List Selection → Prop
  | [] => True
  | selection :: rest => Typed scope parent selection ∧ AllTyped scope parent rest

end

end Selection

/-- A fragment whose selections are well typed on the type of its condition. -/
def Fragment.Typed (scope : Typing.Scope) (fragment : Fragment) : Prop :=
  ∃ type, scope.schema.get? fragment.condition = some type ∧
    Selection.AllTyped scope type fragment.selections

namespace Typing

variable {scope : Scope}

/-- A fragment that may be looked into: it is well typed and spreads only such fragments. -/
def Scope.Entered (scope : Scope) (looked : List String) (name : String) : Prop :=
  ∃ fragment, Fragment.find? scope.fragments name = some fragment ∧ fragment.Typed scope ∧
    fragment.spreads ⊆ looked

/-- Selections that are typed one by one, together with what they spread. -/
theorem typed_of_forall {parent : SchemaType} {selections : List Selection}
    (each : ∀ selection ∈ selections, selection.Typed scope parent ∧
      ∀ name ∈ selection.spreads, scope.Opens name) :
    Selection.AllTyped scope parent selections ∧
      ∀ name ∈ Selection.spreadsOf selections, scope.Opens name := by
  induction selections with
  | nil => exact ⟨trivial, List.forall_mem_nil _⟩
  | cons selection rest ih =>
    obtain ⟨⟨typed, opens⟩, others⟩ := List.forall_mem_cons.mp each
    obtain ⟨allTyped, opens'⟩ := ih others
    exact ⟨⟨typed, allTyped⟩, List.forall_mem_append.mpr ⟨opens, opens'⟩⟩

/-- A field without braces selects nothing. -/
theorem empty_of_isProper {field : Field} {selections : List Selection}
    (proper : (Selection.field field selections none).isProper = true) : selections = [] := by
  simp only [Selection.isProper, Bool.and_eq_true] at proper
  simpa using proper.1.2

/-- What is well typed by the rules is so whatever is inside fragments, and these may be looked
into. -/
theorem typed_of_wellTyped (compiled : scope.schema.Compiled) {parent : SchemaType}
    {selection : Selection} (wellTyped : selection.WellTyped scope parent) :
    parent ∈ scope.schema.types → selection.isProper = true →
      selection.Typed scope parent ∧ ∀ name ∈ selection.spreads, scope.Opens name := by
  induction wellTyped with
  | typename named directives =>
    intro _ proper
    obtain rfl := empty_of_isProper proper
    exact ⟨.inl ⟨named, rfl⟩, List.forall_mem_nil _⟩
  | leaf _ directives isField arguments isType isLeaf =>
    intro isParent proper
    obtain rfl := empty_of_isProper proper
    exact ⟨.inr ⟨_, _, isField,
      ⟨"", (argumentProblems_field_eq_nil_iff compiled isParent isField).mpr arguments⟩,
      isType, trivial⟩, List.forall_mem_nil _⟩
  | inside _ directives isField arguments isType isComposite each ih =>
    intro isParent proper
    simp only [Selection.isProper, Bool.and_eq_true] at proper
    obtain ⟨typed, opens⟩ := typed_of_forall fun selection member => ih selection member
      (Schema.mem_of_get? isType) (Selection.areProper_iff.mp proper.2 selection member)
    exact ⟨.inr ⟨_, _, isField,
      ⟨"", (argumentProblems_field_eq_nil_iff compiled isParent isField).mpr arguments⟩,
      isType, typed⟩, opens⟩
  | spread conditions isFragment condition each ih =>
    intro _ _
    exact ⟨trivial, List.forall_mem_singleton.mpr ⟨_, _, isFragment, condition, each⟩⟩
  | inline conditions each ih =>
    intro isParent proper
    obtain ⟨typed, opens⟩ := typed_of_forall fun selection member => ih selection member isParent
      (Selection.areProper_iff.mp (Bool.and_eq_true_iff.mp proper).2 selection member)
    exact ⟨⟨_, rfl, typed⟩, opens⟩
  | narrowed conditions condition each ih =>
    intro _ proper
    obtain ⟨typed, opens⟩ := typed_of_forall fun selection member => ih selection member
      (Schema.mem_of_get? condition.1)
      (Selection.areProper_iff.mp (Bool.and_eq_true_iff.mp proper).2 selection member)
    exact ⟨⟨_, condition.1, typed⟩, opens⟩

/-- Selections that are well typed have the types that are expected of them throughout. -/
theorem allTyped_of_wellTyped (compiled : scope.schema.Compiled) {parent : SchemaType}
    (isType : parent ∈ scope.schema.types) {selections : List Selection}
    (each : ∀ selection ∈ selections, selection.WellTyped scope parent)
    (proper : Selection.areProper selections = true) :
    Selection.AllTyped scope parent selections ∧
      ∀ name ∈ Selection.spreadsOf selections, scope.Opens name :=
  typed_of_forall fun selection member => typed_of_wellTyped compiled (each selection member) isType
    (Selection.areProper_iff.mp proper selection member)

/-- **Operations without problems are well typed**, and so are all fragments that they come to. -/
theorem typed_of_operationProblems {schema : Schema} (compiled : schema.Compiled)
    {fragments : List Fragment} (acyclic : Fragment.Acyclic fragments) {operation : Operation}
    (valid : operationProblems schema fragments operation = [])
    (proper : Selection.areProper operation.selections = true)
    (properFragments : ∀ fragment ∈ fragments, Selection.areProper fragment.selections = true) :
    ∃ root looked, schema.rootType? operation.kind = some root ∧
      Selection.AllTyped ⟨schema, operation.variableDefinitions, fragments⟩ root
        operation.selections ∧
      Selection.spreadsOf operation.selections ⊆ looked ∧
      ∀ name ∈ looked,
        Scope.Entered ⟨schema, operation.variableDefinitions, fragments⟩ looked name := by
  classical
  obtain ⟨root, isRoot, each⟩ :=
    ((operationProblems_eq_nil_iff compiled acyclic).mp valid).selections
  obtain ⟨_, _, found⟩ := Option.bind_eq_some_iff.mp isRoot
  obtain ⟨typed, opens⟩ := allTyped_of_wellTyped compiled (Schema.mem_of_get? found) each proper
  let scope : Scope := ⟨schema, operation.variableDefinitions, fragments⟩
  have listed {name : String} (opens : scope.Opens name) :
      name ∈ (fragments.map (·.name)).filter fun name => decide (scope.Opens name) := by
    obtain ⟨fragment, _, isFragment, _⟩ := id opens
    refine List.mem_filter.mpr ⟨?_, decide_eq_true opens⟩
    exact List.mem_map.mpr
      ⟨fragment, Fragment.mem_of_find? isFragment, Fragment.name_of_find? isFragment⟩
  refine ⟨root, _, isRoot, typed, fun name spread => listed (opens name spread),
    fun name isOpen => ?_⟩
  obtain ⟨fragment, type, isFragment, condition, each⟩ :=
    of_decide_eq_true (List.mem_filter.mp isOpen).2
  obtain ⟨typed, opens⟩ := allTyped_of_wellTyped compiled (Schema.mem_of_get? condition.1) each
    (properFragments fragment (Fragment.mem_of_find? isFragment))
  exact ⟨fragment, isFragment, ⟨type, condition.1, typed⟩,
    fun other spread => listed (opens other spread)⟩

end Typing

end TraversalQuery
