import Mathlib.Data.List.Basic
import TraversalQuery.Proofs.Document.Names
import TraversalQuery.Proofs.Document.Writing
import TraversalQuery.Typing.Spread

/-!
# Other aliases

A query can give its fields other aliases. Under a renaming every field has as its alias what the
renaming makes of the name that the field has in the response. Nothing else of the query changes:
which fragments there are, what they are on, what they spread, and what is asked for where.

A query is also written without regard to places. So the queries that are compared are keyed: their
places are erased, and every field has its response key as its alias.
-/

namespace TraversalQuery

/-- An injective map on names. -/
structure Renaming (rename : String → String) : Prop where
  isName : ∀ name, IsName name → IsName (rename name)
  injective : ∀ name other, IsName name → IsName other → rename name = rename other → name = other

/-- Every name can be made longer at its front. -/
theorem renaming_prefixed {front : String} (isName : IsName front) : Renaming (front ++ ·) where
  isName name isName' := by
    obtain ⟨c, front', same, starts, goesOn⟩ := isName
    obtain ⟨d, rest, same', starts', goesOn'⟩ := isName'
    refine ⟨c, front' ++ d :: rest, by simp [String.toList_append, same, same'], starts, ?_⟩
    have continues : Lexer.continuesName d = true := by
      rw [Lexer.startsName] at starts'
      rw [Lexer.continuesName, starts', Bool.true_or]
    exact List.forall_mem_append.mpr ⟨goesOn, List.forall_mem_cons.mpr ⟨continues, goesOn'⟩⟩
  injective name other _ _ same := by
    have texts := congrArg String.toList same
    rw [String.toList_append, String.toList_append] at texts
    exact String.toList_injective (List.append_cancel_left texts)

/-- A renaming of names is one of all texts, for it can leave other texts as they are. -/
theorem Renaming.exists_injective {rename : String → String} (renames : Renaming rename) :
    ∃ extended : String → String, Function.Injective extended ∧
      (∀ name, IsName name → IsName (extended name)) ∧
      ∀ name, IsName name → extended name = rename name := by
  classical
  refine ⟨fun text => if IsName text then rename text else text, fun text other same => ?_,
    fun name isName => ?_, fun name isName => if_pos isName⟩
  · dsimp only at same
    split at same
    · rename_i isName
      split at same
      · exact renames.injective _ _ isName ‹_› same
      · exact absurd (same ▸ renames.isName _ isName) ‹_›
    · split at same
      · exact absurd (same ▸ renames.isName _ ‹_›) ‹_›
      · exact same
  · dsimp only
    rw [if_pos isName]
    exact renames.isName _ isName

/-! ### Queries under other aliases -/

/-- A field under the alias that a renaming makes of its response key. -/
def Field.aliased (rename : String → String) (field : Field) : Field :=
  { field with alias? := some (rename field.responseKey) }

namespace Selection

mutual

/-- A selection with all fields under the aliases of a renaming. -/
def aliased (rename : String → String) : Selection → Selection
  | .field selected selections braces? =>
    .field (selected.aliased rename) (aliasedAll rename selections) braces?
  | .spread name directives span => .spread name directives span
  | .inline condition? directives selections braces span =>
    .inline condition? directives (aliasedAll rename selections) braces span

/-- Selections with all fields under the aliases of a renaming. -/
def aliasedAll (rename : String → String) : List Selection → List Selection
  | [] => []
  | selection :: rest => selection.aliased rename :: aliasedAll rename rest

end

/-- Selections get other aliases one by one. -/
theorem aliasedAll_eq (rename : String → String) (selections : List Selection) :
    aliasedAll rename selections = selections.map (aliased rename) := by
  induction selections with
  | nil => rfl
  | cons selection rest ih => rw [aliasedAll, ih, List.map_cons]

end Selection

/-- An operation with all fields under the aliases of a renaming. -/
def Operation.aliased (rename : String → String) (operation : Operation) : Operation :=
  { operation with selections := Selection.aliasedAll rename operation.selections }

/-- A fragment with all fields under the aliases of a renaming. -/
def Fragment.aliased (rename : String → String) (fragment : Fragment) : Fragment :=
  { fragment with selections := Selection.aliasedAll rename fragment.selections }

/-- A definition with all selected fields under the aliases of a renaming. -/
def Definition.aliased (rename : String → String) : Definition → Definition
  | .operation part => .operation (part.aliased rename)
  | .fragment part => .fragment (part.aliased rename)
  | other => other

/-- A document with all selected fields under the aliases of a renaming. -/
def Document.aliased (rename : String → String) (document : Document) : Document :=
  ⟨document.definitions.map (·.aliased rename)⟩

/-! ### Keyed queries -/

/-- A field without its place, under the alias of a renaming. -/
def Field.keyed (rename : String → String) (field : Field) : Field :=
  (field.aliased rename).bare

namespace Field

variable (rename : String → String) (field : Field)

@[simp] theorem name_keyed : (field.keyed rename).name = field.name := rfl

@[simp] theorem responseKey_keyed :
    (field.keyed rename).responseKey = rename field.responseKey := rfl

@[simp] theorem arguments_keyed :
    (field.keyed rename).arguments = field.arguments.map Argument.bare := rfl

@[simp] theorem directives_keyed :
    (field.keyed rename).directives = field.directives.map Directive.bare := rfl

@[simp] theorem argument?_keyed (name : String) :
    (field.keyed rename).argument? name = field.argument? name := by
  rw [argument?, argument?, arguments_keyed, List.find?_map, Option.map_map]
  rfl

end Field

@[simp] theorem Directive.argument?_bare (directive : Directive) (name : String) :
    directive.bare.argument? name = directive.argument? name := by
  rw [argument?, argument?, bare, List.find?_map, Option.map_map]
  rfl

@[simp] theorem Argument.name_bare (argument : Argument) : argument.bare.name = argument.name := rfl

@[simp] theorem Argument.value_bare (argument : Argument) :
    argument.bare.value = argument.value := rfl

theorem Argument.map_bare_bare (arguments : List Argument) :
    (arguments.map bare).map bare = arguments.map bare := by
  rw [List.map_map]
  rfl

namespace VariableDefinition

variable (definition : VariableDefinition)

@[simp] theorem name_bare : definition.bare.name = definition.name := rfl

@[simp] theorem type_bare : definition.bare.type = definition.type := rfl

@[simp] theorem default?_bare : definition.bare.default? = definition.default? := rfl

end VariableDefinition

theorem VariableDefinition.map_bare_bare (definitions : List VariableDefinition) :
    (definitions.map bare).map bare = definitions.map bare := by
  rw [List.map_map]
  rfl

theorem Directive.map_bare_bare (directives : List Directive) :
    (directives.map bare).map bare = directives.map bare := by
  rw [List.map_map]
  refine List.map_congr_left fun directive _ => ?_
  rw [Function.comp_apply, bare, bare, Argument.map_bare_bare]

/-- The places of a field do not matter for its other aliases. -/
theorem Field.keyed_bare (rename : String → String) (field : Field) :
    field.bare.keyed rename = field.keyed rename := by
  simp only [keyed, aliased, bare, Argument.map_bare_bare, Directive.map_bare_bare]
  rfl

/-- A directive is found by its name with or without places. -/
theorem findDirective?_bare (directives : List Directive) (name : String) :
    findDirective? (directives.map Directive.bare) name =
      (findDirective? directives name).map Directive.bare := by
  rw [findDirective?, List.find?_map]
  rfl

/-- A selection without its places, with all fields under the aliases of a renaming. -/
def Selection.keyed (rename : String → String) (selection : Selection) : Selection :=
  (selection.aliased rename).bare

namespace Selection

/-- Giving other aliases and taking places away is done one by one. -/
theorem bareAll_aliasedAll (rename : String → String) (selections : List Selection) :
    bareAll (aliasedAll rename selections) = selections.map (keyed rename) := by
  rw [aliasedAll_eq, bareAll_eq, List.map_map]
  rfl

@[simp] theorem keyed_field (rename : String → String) (selected : Field)
    (selections : List Selection) (braces? : Option Span) :
    (field selected selections braces?).keyed rename =
      field (selected.keyed rename) (selections.map (keyed rename))
        (braces?.map fun _ => .zero) := by
  rw [← bareAll_aliasedAll, keyed, aliased, bare, Field.keyed]

@[simp] theorem keyed_spread (rename : String → String) (name : String)
    (directives : List Directive) (span : Span) :
    (spread name directives span).keyed rename =
      spread name (directives.map Directive.bare) .zero := by
  rw [keyed, aliased, bare]

@[simp] theorem keyed_inline (rename : String → String) (condition? : Option String)
    (directives : List Directive) (selections : List Selection) (braces span : Span) :
    (inline condition? directives selections braces span).keyed rename =
      inline condition? (directives.map Directive.bare) (selections.map (keyed rename)) .zero
        .zero := by
  rw [← bareAll_aliasedAll, keyed, aliased, bare]

/-- Induction on a selection, over the selections inside it. -/
@[elab_as_elim]
theorem deepInduction {motive : Selection → Prop}
    (field : ∀ selected selections braces?, (∀ selection ∈ selections, motive selection) →
      motive (.field selected selections braces?))
    (spread : ∀ name directives span, motive (.spread name directives span))
    (inline : ∀ condition? directives selections braces span,
      (∀ selection ∈ selections, motive selection) →
        motive (.inline condition? directives selections braces span)) :
    ∀ selection, motive selection
  | .field selected selections braces? =>
    field selected selections braces? fun selection _ =>
      deepInduction field spread inline selection
  | .spread name directives span => spread name directives span
  | .inline condition? directives selections braces span =>
    inline condition? directives selections braces span fun selection _ =>
      deepInduction field spread inline selection

/-- The keys inside selections are those of each of them. -/
theorem keysOf_eq (selections : List Selection) : keysOf selections = selections.flatMap keys := by
  induction selections with
  | nil => rfl
  | cons selection rest ih => rw [keysOf, ih, List.flatMap_cons]

/-- The fragments that selections spread are those that each of them does. -/
theorem spreadsOf_eq (selections : List Selection) :
    spreadsOf selections = selections.flatMap spreads := by
  induction selections with
  | nil => rfl
  | cons selection rest ih => rw [spreadsOf, ih, List.flatMap_cons]

/-- Other aliases matter only for the keys that there are. -/
theorem map_keyed_congr {rename other : String → String} {selections : List Selection}
    (each : ∀ selection ∈ selections, (∀ key ∈ selection.keys, rename key = other key) →
      selection.keyed rename = selection.keyed other)
    (agree : ∀ key ∈ keysOf selections, rename key = other key) :
    selections.map (keyed rename) = selections.map (keyed other) :=
  List.map_congr_left fun selection member => each selection member fun key isKey =>
    agree key (keysOf_eq selections ▸ List.mem_flatMap.mpr ⟨selection, member, isKey⟩)

/-- Renamings that agree on the response keys of a selection give it the same aliases. -/
theorem keyed_congr {rename other : String → String} (selection : Selection) :
    (∀ key ∈ selection.keys, rename key = other key) →
      selection.keyed rename = selection.keyed other := by
  induction selection using deepInduction with
  | field selected selections braces? ih =>
    intro agree
    obtain ⟨own, inside⟩ := List.forall_mem_cons.mp agree
    have sameField : selected.keyed rename = selected.keyed other := by
      unfold Field.keyed Field.aliased
      rw [own]
    rw [keyed_field, keyed_field, sameField, map_keyed_congr ih inside]
  | spread name directives span => exact fun _ => by rw [keyed_spread, keyed_spread]
  | inline condition? directives selections braces span ih =>
    exact fun agree => by rw [keyed_inline, keyed_inline, map_keyed_congr ih agree]

/-- Selections spread the same fragments under other aliases if each of them does. -/
theorem spreadsOf_keyed {rename : String → String} {selections : List Selection}
    (each : ∀ selection ∈ selections, (selection.keyed rename).spreads = selection.spreads) :
    spreadsOf (selections.map (keyed rename)) = spreadsOf selections := by
  rw [spreadsOf_eq, spreadsOf_eq, List.flatMap_map]
  exact List.flatMap_congr each

/-- Under other aliases a selection spreads the same fragments. -/
theorem spreads_keyed (rename : String → String) (selection : Selection) :
    (selection.keyed rename).spreads = selection.spreads := by
  induction selection using deepInduction with
  | field selected selections braces? ih => rw [keyed_field, spreads, spreadsOf_keyed ih, spreads]
  | spread name directives span => rw [keyed_spread, spreads, spreads]
  | inline condition? directives selections braces span ih =>
    rw [keyed_inline, spreads, spreadsOf_keyed ih, spreads]

theorem map_keyed_bareAll {rename : String → String} {selections : List Selection}
    (each : ∀ selection ∈ selections, selection.bare.keyed rename = selection.keyed rename) :
    (bareAll selections).map (keyed rename) = selections.map (keyed rename) := by
  rw [bareAll_eq, List.map_map]
  exact List.map_congr_left each

/-- The places of a selection do not matter for its other aliases. -/
theorem keyed_bare (rename : String → String) (selection : Selection) :
    selection.bare.keyed rename = selection.keyed rename := by
  induction selection using deepInduction with
  | field selected selections braces? ih =>
    rw [bare, keyed_field, keyed_field, map_keyed_bareAll ih, Field.keyed_bare, Option.map_map]
    rfl
  | spread name directives span =>
    rw [bare, keyed_spread, keyed_spread, Directive.map_bare_bare]
  | inline condition? directives selections braces span ih =>
    rw [bare, keyed_inline, keyed_inline, map_keyed_bareAll ih, Directive.map_bare_bare]

theorem map_keyed_aliasedAll {rename other : String → String} {selections : List Selection}
    (each : ∀ selection ∈ selections,
      (selection.aliased rename).keyed other = selection.keyed (other ∘ rename)) :
    (aliasedAll rename selections).map (keyed other) =
      selections.map (keyed (other ∘ rename)) := by
  rw [aliasedAll_eq, List.map_map]
  exact List.map_congr_left each

/-- Of aliases that are given one after another the last count. -/
theorem keyed_aliased (rename other : String → String) (selection : Selection) :
    (selection.aliased rename).keyed other = selection.keyed (other ∘ rename) := by
  induction selection using deepInduction with
  | field selected selections braces? ih =>
    rw [aliased, keyed_field, keyed_field, map_keyed_aliasedAll ih]
    rfl
  | spread name directives span => rw [aliased, keyed_spread, keyed_spread]
  | inline condition? directives selections braces span ih =>
    rw [aliased, keyed_inline, keyed_inline, map_keyed_aliasedAll ih]

end Selection

/-- An operation without its places, with all fields under the aliases of a renaming. -/
def Operation.keyed (rename : String → String) (operation : Operation) : Operation :=
  (operation.aliased rename).bare

/-- A fragment without its places, with all fields under the aliases of a renaming. -/
def Fragment.keyed (rename : String → String) (fragment : Fragment) : Fragment :=
  (fragment.aliased rename).bare

namespace Operation

variable (rename other : String → String) (operation : Operation)

@[simp] theorem selections_keyed : (operation.keyed rename).selections =
    operation.selections.map (Selection.keyed rename) :=
  Selection.bareAll_aliasedAll rename _

@[simp] theorem variableDefinitions_keyed : (operation.keyed rename).variableDefinitions =
    operation.variableDefinitions.map VariableDefinition.bare := rfl

@[simp] theorem directives_keyed : (operation.keyed rename).directives =
    operation.directives.map Directive.bare := rfl

@[simp] theorem kind_keyed : (operation.keyed rename).kind = operation.kind := rfl

@[simp] theorem name?_keyed : (operation.keyed rename).name? = operation.name? := rfl

theorem keyed_eq : operation.keyed rename =
    { operation.bare with selections := operation.selections.map (Selection.keyed rename) } := by
  rw [← Selection.bareAll_aliasedAll]
  rfl

theorem keyed_bare : operation.bare.keyed rename = operation.keyed rename := by
  rw [keyed_eq, keyed_eq]
  simp only [bare, VariableDefinition.map_bare_bare, Directive.map_bare_bare,
    Selection.map_keyed_bareAll fun selection _ => selection.keyed_bare rename]

theorem keyed_aliased :
    (operation.aliased rename).keyed other = operation.keyed (other ∘ rename) := by
  rw [keyed_eq, keyed_eq]
  simp only [aliased, bare,
    Selection.map_keyed_aliasedAll fun selection _ => selection.keyed_aliased rename other]

theorem keyed_keyed :
    (operation.keyed rename).keyed other = operation.keyed (other ∘ rename) :=
  (keyed_bare other (operation.aliased rename)).trans (keyed_aliased rename other operation)

/-- Renamings that agree on names give an operation the same aliases. -/
theorem keyed_congr {rename other : String → String} {operation : Operation}
    (agree : ∀ name, IsName name → rename name = other name)
    (named : Selection.AllNamed operation.selections) :
    operation.keyed rename = operation.keyed other := by
  rw [keyed_eq, keyed_eq, Selection.map_keyed_congr (fun selection _ => selection.keyed_congr)
    fun key isKey => agree key (named key isKey)]

end Operation

namespace Fragment

variable (rename other : String → String) (fragment : Fragment)

@[simp] theorem selections_keyed : (fragment.keyed rename).selections =
    fragment.selections.map (Selection.keyed rename) :=
  Selection.bareAll_aliasedAll rename _

@[simp] theorem name_keyed : (fragment.keyed rename).name = fragment.name := rfl

@[simp] theorem condition_keyed : (fragment.keyed rename).condition = fragment.condition := rfl

theorem keyed_eq : fragment.keyed rename =
    { fragment.bare with selections := fragment.selections.map (Selection.keyed rename) } := by
  rw [← Selection.bareAll_aliasedAll]
  rfl

theorem keyed_bare : fragment.bare.keyed rename = fragment.keyed rename := by
  rw [keyed_eq, keyed_eq]
  simp only [bare, Directive.map_bare_bare,
    Selection.map_keyed_bareAll fun selection _ => selection.keyed_bare rename]

theorem keyed_aliased :
    (fragment.aliased rename).keyed other = fragment.keyed (other ∘ rename) := by
  rw [keyed_eq, keyed_eq]
  simp only [aliased, bare,
    Selection.map_keyed_aliasedAll fun selection _ => selection.keyed_aliased rename other]

theorem keyed_keyed :
    (fragment.keyed rename).keyed other = fragment.keyed (other ∘ rename) :=
  (keyed_bare other (fragment.aliased rename)).trans (keyed_aliased rename other fragment)

/-- Renamings that agree on names give a fragment the same aliases. -/
theorem keyed_congr {rename other : String → String} {fragment : Fragment}
    (agree : ∀ name, IsName name → rename name = other name)
    (named : Selection.AllNamed fragment.selections) :
    fragment.keyed rename = fragment.keyed other := by
  rw [keyed_eq, keyed_eq, Selection.map_keyed_congr (fun selection _ => selection.keyed_congr)
    fun key isKey => agree key (named key isKey)]

@[simp] theorem spreads_keyed : (fragment.keyed rename).spreads = fragment.spreads := by
  rw [spreads, selections_keyed, spreads]
  exact Selection.spreadsOf_keyed fun selection _ => selection.spreads_keyed rename

/-- A fragment is found by its name under other aliases. -/
theorem find?_keyed (fragments : List Fragment) (name : String) :
    find? (fragments.map (keyed rename)) name = (find? fragments name).map (keyed rename) := by
  rw [find?, ← List.map_reverse, List.find?_map]
  rfl

/-- A fragment spreads the same others under other aliases. -/
theorem spreadsNamed_keyed (fragments : List Fragment) (name : String) :
    spreadsNamed (fragments.map (keyed rename)) name = spreadsNamed fragments name := by
  rw [spreadsNamed, spreadsNamed, find?_keyed]
  cases find? fragments name with
  | none => rfl
  | some fragment => exact spreads_keyed rename fragment

/-- A search that looks into a name goes on with what was seen inside. -/
theorem search_cons_of_not_mem {fragments : List Fragment} {target name : String}
    {rest seen : List String} (different : name ≠ target) (fresh : name ∉ seen)
    {inside : Search (name :: seen)}
    (isInside : search fragments target (spreadsNamed fragments name) (name :: seen) = inside) :
    search fragments target (name :: rest) seen =
      if inside.found then ⟨true, inside.seen, List.subset_of_cons_subset inside.grown⟩
      else (search fragments target rest inside.seen).since
        (List.subset_of_cons_subset inside.grown) := by
  subst isInside
  rw [search, if_neg different, dif_pos fresh]

/-- Under other aliases a search goes the same way. -/
theorem search_keyed (fragments : List Fragment) (target : String) (names seen : List String) :
    search (fragments.map (keyed rename)) target names seen =
      search fragments target names seen := by
  fun_induction search fragments target names seen with
  | case1 seen => rw [search]
  | case2 rest seen => rw [search, if_pos rfl]
  | case3 name rest seen different fresh inside grown found ih =>
    have isInside : search (fragments.map (keyed rename)) target
        (spreadsNamed (fragments.map (keyed rename)) name) (name :: seen) = inside := by
      rw [spreadsNamed_keyed, ih]
    rw [search_cons_of_not_mem different fresh isInside, if_pos found]
  | case4 name rest seen different fresh inside grown missed ihInside ihRest =>
    have isInside : search (fragments.map (keyed rename)) target
        (spreadsNamed (fragments.map (keyed rename)) name) (name :: seen) = inside := by
      rw [spreadsNamed_keyed, ihInside]
    rw [search_cons_of_not_mem different fresh isInside, if_neg missed, ihRest]
  | case5 name rest seen different known ih => rw [search, if_neg different, dif_neg known, ih]

/-- A fragment leads back to itself under other aliases exactly if it does so anyway. -/
theorem spreadsItself_keyed (fragments : List Fragment) :
    spreadsItself (fragments.map (keyed rename)) (fragment.keyed rename) =
      spreadsItself fragments fragment := by
  rw [spreadsItself, spreadsItself, spreads_keyed, search_keyed, name_keyed]

end Fragment

namespace Document

/-- A document that has the operations and fragments of another one without their places, with all
fields under the aliases of a renaming. -/
structure Keys (rename : String → String) (document keyed : Document) : Prop where
  operations : keyed.operations = document.operations.map (Operation.keyed rename)
  fragments : keyed.fragments = document.fragments.map (Fragment.keyed rename)

variable {rename : String → String} {document other : Document}

/-- The operations of a document without places are its operations without places. -/
theorem operations_bare : document.bare.operations = document.operations.map Operation.bare := by
  rw [operations, operations, bare, List.filterMap_map, List.map_filterMap]
  refine List.filterMap_congr fun part _ => ?_
  cases part <;> rfl

/-- The fragments of a document without places are its fragments without places. -/
theorem fragments_bare : document.bare.fragments = document.fragments.map Fragment.bare := by
  rw [fragments, fragments, bare, List.filterMap_map, List.map_filterMap]
  refine List.filterMap_congr fun part _ => ?_
  cases part <;> rfl

/-- The operations of a document under other aliases are its operations under them. -/
theorem operations_aliased :
    (document.aliased rename).operations = document.operations.map (Operation.aliased rename) := by
  rw [operations, operations, aliased, List.filterMap_map, List.map_filterMap]
  refine List.filterMap_congr fun part _ => ?_
  cases part <;> rfl

/-- The fragments of a document under other aliases are its fragments under them. -/
theorem fragments_aliased :
    (document.aliased rename).fragments = document.fragments.map (Fragment.aliased rename) := by
  rw [fragments, fragments, aliased, List.filterMap_map, List.map_filterMap]
  refine List.filterMap_congr fun part _ => ?_
  cases part <;> rfl

/-- A document under other aliases differs from it in keys and places only. -/
theorem keys_aliased (rename : String → String) (document : Document) :
    document.Keys rename (document.aliased rename).bare where
  operations := by
    rw [operations_bare, operations_aliased, List.map_map]
    rfl
  fragments := by
    rw [fragments_bare, fragments_aliased, List.map_map]
    rfl

/-- A query that is written like another one under other aliases has these as its response keys. -/
theorem keys_of_bare_eq (same : other.bare = (document.aliased rename).bare) :
    other.Keys id (document.aliased rename).bare where
  operations := by
    calc (document.aliased rename).bare.operations
        = (document.operations.map (Operation.keyed rename)).map (Operation.keyed id) := by
          simp only [(keys_aliased rename document).operations, List.map_map, Function.comp_def,
            Operation.keyed_keyed, id]
      _ = other.bare.operations.map (Operation.keyed id) := by
          rw [same, (keys_aliased rename document).operations]
      _ = other.operations.map (Operation.keyed id) := by
          simp only [operations_bare, List.map_map, Function.comp_def, Operation.keyed_bare]
  fragments := by
    calc (document.aliased rename).bare.fragments
        = (document.fragments.map (Fragment.keyed rename)).map (Fragment.keyed id) := by
          simp only [(keys_aliased rename document).fragments, List.map_map, Function.comp_def,
            Fragment.keyed_keyed, id]
      _ = other.bare.fragments.map (Fragment.keyed id) := by
          rw [same, (keys_aliased rename document).fragments]
      _ = other.fragments.map (Fragment.keyed id) := by
          simp only [fragments_bare, List.map_map, Function.comp_def, Fragment.keyed_bare]

end Document

end TraversalQuery
