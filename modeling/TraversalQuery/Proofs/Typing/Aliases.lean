import TraversalQuery.Proofs.Document.Aliases
import TraversalQuery.Proofs.Typing.Literals
import TraversalQuery.Typing.Query

/-!
# Problems under other aliases

A query has the same problems under other aliases, for the same causes and in the same order. Only
the paths to them are different, as these lead along response keys.
-/

namespace TraversalQuery

/-- What is wrong, wherever it is. -/
def Problem.causes (problems : List Problem) : List ProblemCause :=
  problems.map (·.cause)

namespace Problem

@[simp] theorem causes_nil : causes [] = [] := rfl

@[simp] theorem causes_cons (problem : Problem) (problems : List Problem) :
    causes (problem :: problems) = problem.cause :: causes problems := rfl

@[simp] theorem causes_append (problems others : List Problem) :
    causes (problems ++ others) = causes problems ++ causes others :=
  List.map_append

end Problem

open Problem (causes)

namespace Typing

/-- What the query under other aliases is checked against. -/
def Scope.keyed (rename : String → String) (scope : Scope) : Scope :=
  ⟨scope.schema, scope.variableDefinitions.map VariableDefinition.bare,
    scope.fragments.map (Fragment.keyed rename)⟩

variable {rename : String → String} {scope : Scope}

@[simp] theorem Scope.schema_keyed : (scope.keyed rename).schema = scope.schema := rfl

/-- A fragment is found by its name under other aliases. -/
@[simp] theorem Scope.find?_fragments_keyed (name : String) :
    Fragment.find? (scope.keyed rename).fragments name =
      (Fragment.find? scope.fragments name).map (Fragment.keyed rename) :=
  Fragment.find?_keyed rename scope.fragments name

/-! ### Literals -/

/-- The same is wrong with a literal for a type without fields, wherever it is. -/
theorem causes_wholeProblems (name path other : String) (literal : Literal) :
    causes (wholeProblems (scope.keyed rename) name other literal) =
      causes (wholeProblems scope name path literal) := by
  simp only [wholeProblems, Scope.schema_keyed]
  cases scope.schema.get? name with
  | none => rfl
  | some type => dsimp only; split <;> rfl

/-- The same is wrong with a variable, wherever it is. -/
theorem causes_variableProblems (name : String) (type : TypeRef) (path other : String) :
    causes (variableProblems (scope.keyed rename) name type other) =
      causes (variableProblems scope name type path) := by
  have found : (scope.keyed rename).variableDefinitions.find? (·.name == name) =
      (scope.variableDefinitions.find? (·.name == name)).map VariableDefinition.bare :=
    List.find?_map
  unfold variableProblems
  rw [found]
  cases scope.variableDefinitions.find? (·.name == name) with
  | none => rfl
  | some definition =>
    dsimp only [Option.map_some, VariableDefinition.bare]
    split <;> rfl

/-- The same fields are missing, wherever that is. -/
theorem causes_missingFields (type : String) (declared : List InputValue) (given : List String)
    (path other : String) :
    causes (missingFields type declared given other) =
      causes (missingFields type declared given path) := by
  simp only [causes, missingFields, List.map_map, Function.comp_def]

/-- The same is wrong with the items of a list, wherever they are. -/
theorem causes_itemProblems {items : List Literal} (each : ∀ item ∈ items, ∀ type path other,
      causes (literalProblems (scope.keyed rename) type other item) =
        causes (literalProblems scope type path item)) (type : TypeRef) (path other : String) :
    ∀ index, causes (itemProblems (scope.keyed rename) type other index items) =
      causes (itemProblems scope type path index items) := by
  induction items with
  | nil => exact fun _ => rfl
  | cons item rest ih =>
    intro index
    obtain ⟨first, later⟩ := List.forall_mem_cons.mp each
    rw [itemProblems, itemProblems, Problem.causes_append, Problem.causes_append,
      first type _ _, ih later]

/-- The same is wrong with the fields of an object, wherever they are. -/
theorem causes_fieldProblems {fields : List (String × Literal)}
    (each : ∀ field ∈ fields, ∀ type path other,
      causes (literalProblems (scope.keyed rename) type other field.2) =
        causes (literalProblems scope type path field.2))
    (name : String) (declared : List InputValue) (path other : String) :
    ∀ seen, causes (fieldProblems (scope.keyed rename) name declared other seen fields) =
      causes (fieldProblems scope name declared path seen fields) := by
  induction fields with
  | nil => exact fun _ => rfl
  | cons field rest ih =>
    intro seen
    obtain ⟨first, later⟩ := List.forall_mem_cons.mp each
    rw [fieldProblems, fieldProblems]
    split
    · rw [Problem.causes_cons, Problem.causes_cons, ih later]
    · rw [Problem.causes_append, Problem.causes_append, ih later]
      congr 1
      cases declared.find? (·.name == field.1) with
      | none => rfl
      | some input => exact first _ _ _

/-- A literal has the same problems, whatever the path to it is. -/
theorem causes_literalProblems (literal : Literal) : ∀ type path other,
    causes (literalProblems (scope.keyed rename) type other literal) =
      causes (literalProblems scope type path literal) := by
  induction literal using Literal.deepInduction with
  | reference name => exact causes_variableProblems name
  | null =>
    intro type path other
    rw [literalProblems, literalProblems]
    split <;> rfl
  | list items ih =>
    intro type path other
    rw [literalProblems, literalProblems]
    split
    · exact causes_itemProblems ih _ _ _ _
    · exact causes_wholeProblems _ _ _ _
  | object fields ih =>
    intro type path other
    simp only [literalProblems, Scope.schema_keyed]
    cases scope.schema.get? type.namedType with
    | none => exact causes_wholeProblems _ _ _ _
    | some found =>
      obtain ⟨name, body, _⟩ := found
      cases body with
      | input declared =>
        dsimp only
        rw [Problem.causes_append, Problem.causes_append,
          causes_fieldProblems ih name declared path, causes_missingFields name declared _ path]
      | _ => exact causes_wholeProblems _ _ _ _
  | _ => exact fun type path other => causes_wholeProblems _ _ _ _

/-- The same is wrong with the arguments that are given, wherever they are. -/
theorem causes_givenProblems (declared : List InputValue) (path other : String)
    (arguments : List Argument) : ∀ seen,
      causes (givenProblems (scope.keyed rename) declared other seen
        (arguments.map Argument.bare)) =
      causes (givenProblems scope declared path seen arguments) := by
  induction arguments with
  | nil => exact fun _ => rfl
  | cons argument rest ih =>
    intro seen
    rw [List.map_cons, givenProblems, givenProblems, Argument.name_bare]
    by_cases known : seen.contains argument.name = true
    · rw [if_pos known, if_pos known, Problem.causes_cons, Problem.causes_cons, ih]
    · rw [if_neg known, if_neg known, Problem.causes_append, Problem.causes_append]
      refine congr (congrArg _ ?_) (ih _)
      rw [Argument.value_bare]
      cases declared.find? (·.name == argument.name) with
      | none => rfl
      | some input => exact causes_literalProblems _ _ _ _

/-- The same is wrong with the arguments of a field, wherever it is. -/
theorem causes_argumentProblems (declared : List InputValue) (path other : String)
    (arguments : List Argument) :
    causes (argumentProblems (scope.keyed rename) declared other
        (arguments.map Argument.bare)) =
      causes (argumentProblems scope declared path arguments) := by
  have names : (arguments.map Argument.bare).map (·.name) = arguments.map (·.name) := by
    rw [List.map_map]
    rfl
  unfold argumentProblems
  dsimp only
  rw [Problem.causes_append, Problem.causes_append, causes_givenProblems declared path, names]
  simp only [causes, List.map_map, Function.comp_def]

/-- The same is wrong with directives, wherever they are. -/
theorem causes_directiveProblems (path other : String) (directives : List Directive) :
    causes (directiveProblems (scope.keyed rename) other (directives.map Directive.bare)) =
      causes (directiveProblems scope path directives) := by
  simp only [directiveProblems, List.filter_map, List.flatMap_map, causes, List.map_flatMap]
  exact List.flatMap_congr fun directive _ => causes_argumentProblems _ _ _ directive.arguments

/-! ### Selections -/

/-- Checks that look into the same fragments and find the same problems, wherever they are. -/
def Checking.Alike (check other : Checking) : Prop :=
  ∀ seen, causes (check.run seen).1 = causes (other.run seen).1 ∧
    (check.run seen).2 = (other.run seen).2

theorem alike_return {problems others : List Problem} (same : causes problems = causes others) :
    Checking.Alike (return problems) (return others) :=
  fun _ => ⟨same, rfl⟩

/-- Checks one after the other are alike if both are. -/
theorem Checking.Alike.append {first second first' second' : Checking} (alike : first.Alike first')
    (alike' : second.Alike second') :
    Checking.Alike (do return (← first) ++ (← second)) (do return (← first') ++ (← second')) := by
  intro seen
  obtain ⟨found, between⟩ := alike seen
  obtain ⟨found', after⟩ := alike' (first.run seen).2
  change causes ((first.run seen).1 ++ (second.run (first.run seen).2).1) =
      causes ((first'.run seen).1 ++ (second'.run (first'.run seen).2).1) ∧
    (second.run (first.run seen).2).2 = (second'.run (first'.run seen).2).2
  rw [Problem.causes_append, Problem.causes_append, found, found', after, between]
  exact ⟨rfl, rfl⟩

/-- Checks stay alike after the same problems. -/
theorem Checking.Alike.after {check other : Checking} (alike : check.Alike other)
    {problems others : List Problem} (same : causes problems = causes others) :
    Checking.Alike (do return problems ++ (← check)) (do return others ++ (← other)) :=
  (alike_return same).append alike

/-- Checks that are skipped if a name was met, and make a note of the name otherwise. -/
theorem Checking.Alike.once {check other : Checking} (alike : check.Alike other)
    {problems others : List Problem} (same : causes problems = causes others) (name : String) :
    Checking.Alike
      (do
        if (← get).contains name then return problems
        modify (name :: ·)
        check)
      (do
        if (← get).contains name then return others
        modify (name :: ·)
        other) := by
  intro seen
  rw [StateT.run_bind, StateT.run_get, StateT.run_bind, StateT.run_get]
  change causes ((if seen.contains name = true then _ else _ : Checking).run seen).1 =
      causes ((if seen.contains name = true then _ else _ : Checking).run seen).1 ∧
    ((if seen.contains name = true then _ else _ : Checking).run seen).2 =
      ((if seen.contains name = true then _ else _ : Checking).run seen).2
  split
  · exact ⟨same, rfl⟩
  · exact alike (name :: seen)

/-- The type that a fragment asks for is the same under other aliases. -/
theorem conditionType_keyed (name path other : String) :
    conditionType (scope.keyed rename) name other =
      (conditionType scope name path).mapError fun problem => ⟨problem.cause, other⟩ := by
  simp only [conditionType, Scope.schema_keyed]
  cases scope.schema.get? name with
  | none => rfl
  | some type => dsimp only; split <;> rfl

/-- The type of an inline fragment is the same under other aliases. -/
theorem inlineType_keyed (parent : SchemaType) (path other : String) (condition? : Option String) :
    inlineType (scope.keyed rename) parent other condition? =
      (inlineType scope parent path condition?).mapError fun problem => ⟨problem.cause, other⟩ := by
  cases condition? with
  | none => rfl
  | some name => exact conditionType_keyed name path other

/-- Ways to check the selections of fragments, with other aliases and without. -/
def EnterFragment.Alike (rename : String → String) (enter entering : EnterFragment) : Prop :=
  ∀ fragment type path other,
    (entering (fragment.keyed rename) type other).Alike (enter fragment type path)

/-- Selections are checked alike under other aliases if each of them is. -/
theorem alike_selectionsProblems {enter entering : EnterFragment} {selections : List Selection}
    (each : ∀ selection ∈ selections, ∀ parent path other,
      (selectionProblems (scope.keyed rename) entering parent other
        (selection.keyed rename)).Alike (selectionProblems scope enter parent path selection))
    (parent : SchemaType) (path other : String) :
    (selectionsProblems (scope.keyed rename) entering parent other
      (selections.map (Selection.keyed rename))).Alike
        (selectionsProblems scope enter parent path selections) := by
  induction selections with
  | nil => exact alike_return rfl
  | cons selection rest ih =>
    obtain ⟨first, later⟩ := List.forall_mem_cons.mp each
    rw [List.map_cons, selectionsProblems, selectionsProblems]
    exact (first parent path other).append (ih later)

/-- A selection has the same problems under another alias. -/
theorem alike_selectionProblems {enter entering : EnterFragment}
    (alike : EnterFragment.Alike rename enter entering) (selection : Selection) :
    ∀ parent path other, (selectionProblems (scope.keyed rename) entering parent other
      (selection.keyed rename)).Alike (selectionProblems scope enter parent path selection) := by
  induction selection using Selection.deepInduction with
  | field selected selections braces? ih =>
    intro parent path other
    rw [Selection.keyed_field]
    unfold selectionProblems
    extract_lets otherPath otherDirectives fieldsPath onDirectives
    have directives : causes otherDirectives = causes onDirectives :=
      causes_directiveProblems fieldsPath otherPath selected.directives
    rw [Field.name_keyed]
    by_cases isTypename : selected.name = "__typename"
    · rw [if_pos isTypename, if_pos isTypename, Option.isSome_map]
      refine alike_return ?_
      rw [Problem.causes_append, Problem.causes_append, directives]
      split <;> rfl
    · rw [if_neg isTypename, if_neg isTypename]
      cases parent.field? selected.name with
      | none => exact alike_return (by simp [directives])
      | some declared =>
        have before : causes (otherDirectives ++ argumentProblems (scope.keyed rename)
              declared.arguments otherPath (selected.keyed rename).arguments) =
            causes (onDirectives ++
              argumentProblems scope declared.arguments fieldsPath selected.arguments) := by
          rw [Problem.causes_append, Problem.causes_append, directives, Field.arguments_keyed,
            causes_argumentProblems declared.arguments fieldsPath otherPath]
        dsimp only
        rw [Scope.schema_keyed]
        cases scope.schema.get? declared.type.namedType with
        | none => exact alike_return before
        | some type =>
          dsimp only
          cases braces? with
          | none => cases type.kind.isLeaf <;> exact (alike_return (by rfl)).after before
          | some braces =>
            cases type.kind.isLeaf with
            | true => exact (alike_return (by rfl)).after before
            | false => exact (alike_selectionsProblems ih type fieldsPath otherPath).after before
  | spread name directives span =>
    intro parent path other
    rw [Selection.keyed_spread]
    unfold selectionProblems
    extract_lets otherDirectives onDirectives
    have same : causes otherDirectives = causes onDirectives :=
      causes_directiveProblems path other directives
    rw [Scope.find?_fragments_keyed]
    cases Fragment.find? scope.fragments name with
    | none => exact alike_return (by simp [same])
    | some fragment =>
      refine Checking.Alike.once ?_ same fragment.name
      rw [Fragment.condition_keyed, conditionType_keyed fragment.condition path other]
      cases conditionType scope fragment.condition path with
      | error problem => exact alike_return (by simp [same])
      | ok type => exact (alike fragment type path other).after same
  | inline condition? directives selections braces span ih =>
    intro parent path other
    rw [Selection.keyed_inline]
    unfold selectionProblems
    extract_lets otherDirectives onDirectives
    have same : causes otherDirectives = causes onDirectives :=
      causes_directiveProblems path other directives
    rw [inlineType_keyed parent path other]
    cases inlineType scope parent path condition? with
    | error problem => exact alike_return (by simp [same])
    | ok type => exact (alike_selectionsProblems ih type path other).after same

/-- Fragments are checked alike under other aliases. -/
theorem alike_fragmentProblems (rounds : Nat) : EnterFragment.Alike rename
    (fragmentProblems scope rounds) (fragmentProblems (scope.keyed rename) rounds) := by
  induction rounds with
  | zero => exact fun _ _ _ _ => alike_return rfl
  | succ rounds ih =>
    intro fragment type path other
    rw [fragmentProblems, fragmentProblems, Fragment.selections_keyed]
    exact alike_selectionsProblems (fun selection _ => alike_selectionProblems ih selection) _ _ _

/-- The same is wrong with selections under other aliases when nothing was seen before. -/
theorem causes_unseen (rounds : Nat) (root : SchemaType) (path : String)
    (selections : List Selection) :
    causes (selectionsProblems (scope.keyed rename) (fragmentProblems (scope.keyed rename) rounds)
        root path (selections.map (Selection.keyed rename))).unseen =
      causes (selectionsProblems scope (fragmentProblems scope rounds) root path
        selections).unseen :=
  (alike_selectionsProblems (fun selection _ =>
    alike_selectionProblems (alike_fragmentProblems rounds) selection) root path path []).1

/-! ### Documents -/

/-- The same is wrong with variables under other aliases. -/
theorem causes_variableDefinitionProblems (definitions : List VariableDefinition) : ∀ seen,
    causes (variableDefinitionProblems (scope.keyed rename) seen
        (definitions.map VariableDefinition.bare)) =
      causes (variableDefinitionProblems scope seen definitions) := by
  induction definitions with
  | nil => exact fun _ => rfl
  | cons definition rest ih =>
    intro seen
    rw [List.map_cons, variableDefinitionProblems, variableDefinitionProblems]
    simp only [Problem.causes_append, ih]
    congr 2
    rw [Scope.schema_keyed, VariableDefinition.type_bare, VariableDefinition.default?_bare]
    cases scope.schema.kindOf? definition.type with
    | none => rfl
    | some kind =>
      dsimp only
      split
      · cases definition.default? with
        | none => rfl
        | some literal => exact causes_literalProblems literal _ _ _
      · rfl

/-- The same is wrong with an operation under other aliases. -/
theorem causes_operationProblems (schema : Schema) (fragments : List Fragment)
    (operation : Operation) :
    causes (operationProblems schema (fragments.map (Fragment.keyed rename))
        (operation.keyed rename)) =
      causes (operationProblems schema fragments operation) := by
  unfold operationProblems
  extract_lets otherScope scope
  have keyed : otherScope = scope.keyed rename := rfl
  rw [Operation.kind_keyed, keyed]
  cases schema.rootType? operation.kind with
  | none => rfl
  | some root =>
    simp only [Problem.causes_append, Operation.selections_keyed, List.length_map, causes_unseen,
      Operation.variableDefinitions_keyed, Operation.directives_keyed,
      causes_variableDefinitionProblems, causes_directiveProblems ""]

/-- The same fragments are declared twice under other aliases. -/
theorem duplicateProblems_keyed (fragments : List Fragment) : ∀ seen,
    duplicateProblems seen (fragments.map (Fragment.keyed rename)) =
      duplicateProblems seen fragments := by
  induction fragments with
  | nil => exact fun _ => rfl
  | cons fragment rest ih =>
    intro seen
    rw [List.map_cons, duplicateProblems, duplicateProblems, ih, ih, Fragment.name_keyed]

/-- The same fragments lead back to themselves under other aliases. -/
theorem cycleProblems_keyed (fragments : List Fragment) :
    cycleProblems (fragments.map (Fragment.keyed rename)) = cycleProblems fragments := by
  have names : (fragments.map (Fragment.keyed rename)).map (·.name) = fragments.map (·.name) := by
    rw [List.map_map]
    rfl
  rw [cycleProblems, cycleProblems, names]
  refine List.filterMap_congr fun name _ => ?_
  rw [Fragment.find?_keyed]
  cases Fragment.find? fragments name with
  | none => rfl
  | some fragment =>
    dsimp only [Option.map_some]
    rw [Fragment.spreadsItself_keyed]

end Typing

namespace Document

variable {rename : String → String} {document keyed : Document}

/-- The same operation is selected under other aliases. -/
theorem Keys.selectOperation (keys : document.Keys rename keyed) (operation? : Option String) :
    keyed.selectOperation operation? =
      (document.selectOperation operation?).map (Operation.keyed rename) := by
  cases operation? with
  | some name =>
    have found : (document.operations.map (Operation.keyed rename)).find? (·.name? == some name) =
        (document.operations.find? (·.name? == some name)).map (Operation.keyed rename) :=
      List.find?_map
    rw [Document.selectOperation, Document.selectOperation, keys.operations, found]
    cases document.operations.find? (·.name? == some name) <;> rfl
  | none =>
    rw [Document.selectOperation, Document.selectOperation, keys.operations]
    rcases document.operations with _ | ⟨first, _ | ⟨second, others⟩⟩ <;> rfl

/-- **A query has the same problems under other aliases,** up to the paths to them. -/
theorem Keys.causes_problems (keys : document.Keys rename keyed) (schema : Schema)
    (operation? : Option String) :
    causes (keyed.problems schema operation?) = causes (document.problems schema operation?) := by
  unfold problems
  rw [keys.fragments, Typing.duplicateProblems_keyed, Typing.cycleProblems_keyed,
    keys.selectOperation]
  simp only [Problem.causes_append]
  congr 1
  cases document.selectOperation operation? with
  | error problem => rfl
  | ok operation => exact Typing.causes_operationProblems schema document.fragments operation

end Document

end TraversalQuery
