import Mathlib.Data.List.Nodup
import TraversalQuery.Proofs.Document.Aliases
import TraversalQuery.Proofs.Document.Spreads

/-!
# Which fragments are reported

A fragment mentions the fragments that are spread in it, however deep inside its fields and inline
fragments. Where names are distinct, the fragments that are reported are those from which a chain of
mentions leads back to themselves. Each is reported once, and they are reported in the order of
their names.
-/

namespace TraversalQuery

namespace Selection

/-- A selection in which a fragment of the name is spread: it is a spread itself, or it is around
one. -/
inductive Mentions (name : String) : Selection → Prop
  | spread {directives : List Directive} {span : Span} :
      Mentions name (.spread name directives span)
  | field {field : Field} {selections : List Selection} {braces? : Option Span}
      {selection : Selection} (member : selection ∈ selections)
      (inside : Mentions name selection) : Mentions name (.field field selections braces?)
  | inline {condition? : Option String} {directives : List Directive}
      {selections : List Selection} {braces span : Span} {selection : Selection}
      (member : selection ∈ selections) (inside : Mentions name selection) :
      Mentions name (.inline condition? directives selections braces span)

/-- Selections spread what one of them does. -/
theorem mem_spreadsOf {name : String} {selections : List Selection} :
    name ∈ spreadsOf selections ↔ ∃ selection ∈ selections, name ∈ selection.spreads := by
  rw [spreadsOf_eq, List.mem_flatMap]

/-- What is collected from a selection are the names that it mentions. -/
theorem mem_spreads_iff {name : String} (selection : Selection) :
    name ∈ selection.spreads ↔ Mentions name selection := by
  induction selection using deepInduction with
  | field selected selections braces? ih =>
    rw [spreads, mem_spreadsOf]
    constructor
    · rintro ⟨inner, member, spread⟩
      exact .field member ((ih inner member).mp spread)
    · intro mentions
      cases mentions with
      | field member inside => exact ⟨_, member, (ih _ member).mpr inside⟩
  | spread other directives span =>
    rw [spreads, List.mem_singleton]
    constructor
    · rintro rfl
      exact .spread
    · intro mentions
      cases mentions
      rfl
  | inline condition? directives selections braces span ih =>
    rw [spreads, mem_spreadsOf]
    constructor
    · rintro ⟨inner, member, spread⟩
      exact .inline member ((ih inner member).mp spread)
    · intro mentions
      cases mentions with
      | inline member inside => exact ⟨_, member, (ih _ member).mpr inside⟩

end Selection

namespace Fragment

variable {fragments : List Fragment}

/-- There is a fragment of the one name that mentions the other name. -/
def Mentions (fragments : List Fragment) (name other : String) : Prop :=
  ∃ fragment ∈ fragments, fragment.name = name ∧
    ∃ selection ∈ fragment.selections, selection.Mentions other

/-- A fragment spreads what one of its selections mentions. -/
theorem mem_spreads_iff {fragment : Fragment} {name : String} : name ∈ fragment.spreads ↔
    ∃ selection ∈ fragment.selections, selection.Mentions name := by
  rw [spreads, Selection.mem_spreadsOf]
  exact exists_congr fun selection => and_congr_right' (Selection.mem_spreads_iff selection)

/-- Where names are distinct, a fragment is the one of its name. -/
theorem find?_eq_some_iff (distinct : (fragments.map (·.name)).Nodup) {name : String}
    {fragment : Fragment} :
    find? fragments name = some fragment ↔ fragment ∈ fragments ∧ fragment.name = name := by
  constructor
  · exact fun found => ⟨mem_of_find? found, name_of_find? found⟩
  · rintro ⟨member, rfl⟩
    obtain ⟨other, found⟩ : ∃ other, find? fragments fragment.name = some other :=
      Option.isSome_iff_exists.mp (List.find?_isSome.mpr
        ⟨fragment, List.mem_reverse.mpr member, beq_self_eq_true _⟩)
    rw [found, List.inj_on_of_nodup_map distinct (mem_of_find? found) member (name_of_find? found)]

/-- Among fragments with distinct names, one leads to those that it mentions. -/
theorem leads_iff_mentions (distinct : (fragments.map (·.name)).Nodup) {name other : String} :
    Leads fragments name other ↔ Mentions fragments name other := by
  simp only [Leads, Mentions, find?_eq_some_iff distinct, mem_spreads_iff, and_assoc]

end Fragment

namespace Typing

/-- A name put into its place leaves the names in ascending order, each once. -/
theorem ascending_insertName (name : String) {names : List String}
    (ascending : names.Pairwise (· < ·)) : (insertName name names).Pairwise (· < ·) := by
  induction names with
  | nil => exact List.pairwise_singleton _ _
  | cons first rest ih =>
    obtain ⟨least, later⟩ := List.pairwise_cons.mp ascending
    unfold insertName
    split
    · rename_i before
      refine List.pairwise_cons.mpr ⟨List.forall_mem_cons.mpr ⟨before, fun other member => ?_⟩,
        ascending⟩
      exact Std.lt_trans before (least other member)
    · split
      · exact ascending
      · rename_i notBefore different
        refine List.pairwise_cons.mpr ⟨fun other member => ?_, ih later⟩
        rcases mem_insertName.mp member with rfl | member
        · exact Std.lt_of_le_of_ne (Std.not_lt.mp notBefore) (Ne.symm different)
        · exact least other member

/-- Sorted names ascend. -/
theorem ascending_sortedNames (names : List String) : (sortedNames names).Pairwise (· < ·) := by
  induction names with
  | nil => exact List.Pairwise.nil
  | cons name rest ih => exact ascending_insertName name ih

/-- The names of the fragments that are reported. -/
def cyclicNames (fragments : List Fragment) : List String :=
  (sortedNames (fragments.map (·.name))).filter fun name =>
    (Fragment.find? fragments name).any (Fragment.spreadsItself fragments)

/-- There is one problem for each fragment that leads back to itself. -/
theorem cycleProblems_eq_map (fragments : List Fragment) : cycleProblems fragments =
    (cyclicNames fragments).map fun name => .overall (.fragmentSpreadsItself name) := by
  unfold cycleProblems cyclicNames
  induction sortedNames (fragments.map (·.name)) with
  | nil => rfl
  | cons name rest ih =>
    rw [List.filterMap_cons, List.filter_cons, ih]
    cases Fragment.find? fragments name with
    | none => rfl
    | some fragment => cases spread : fragment.spreadsItself fragments <;> simp [spread]

/-- The fragments that are reported are those that lead back to themselves. -/
theorem mem_cyclicNames {fragments : List Fragment} (distinct : (fragments.map (·.name)).Nodup)
    {name : String} : name ∈ cyclicNames fragments ↔
      Relation.TransGen (Fragment.Mentions fragments) name name := by
  have same : Fragment.Leads fragments = Fragment.Mentions fragments :=
    funext fun name => funext fun other => propext (Fragment.leads_iff_mentions distinct)
  rw [cyclicNames, List.mem_filter, mem_sortedNames, Option.any_eq_true, ← same]
  constructor
  · rintro ⟨_, fragment, found, spreads⟩
    exact (Fragment.spreadsItself_iff found).mp spreads
  · intro chain
    obtain ⟨_, ⟨fragment, found, _⟩, _⟩ := Relation.TransGen.head'_iff.mp chain
    refine ⟨?_, fragment, found, (Fragment.spreadsItself_iff found).mpr chain⟩
    rw [← Fragment.name_of_find? found]
    exact List.mem_map_of_mem (Fragment.mem_of_find? found)

/-- **The fragments that are reported are exactly those on a cycle.** Of fragments with distinct
names, those are reported from which a chain of mentions, one at least, leads back to the fragment
itself. Each of them is reported once, in the order of the names. A name that no fragment has
mentions nothing. -/
theorem cycles_reported {fragments : List Fragment}
    (distinct : (fragments.map (·.name)).Nodup) :
    ∃ names : List String,
      cycleProblems fragments = names.map (fun name => .overall (.fragmentSpreadsItself name)) ∧
      names.Pairwise (· < ·) ∧
      ∀ name, name ∈ names ↔ Relation.TransGen (Fragment.Mentions fragments) name name :=
  ⟨cyclicNames fragments, cycleProblems_eq_map fragments,
    (ascending_sortedNames _).sublist List.filter_sublist,
    fun _ => mem_cyclicNames distinct⟩

/-- A fragment of the name that spreads fragments inside a field and an inline fragment. -/
def nestingFragment (name : String) (spreads : List String) : Fragment :=
  ⟨name, "T", [],
    [.field ⟨none, "f", [], [], .zero⟩
      [.inline none [] (spreads.map fun other => .spread other [] .zero) .zero .zero] none],
    .zero, .zero⟩

/-- Two fragments on a cycle, one that spreads itself, one that leads to the cycle, and one that
spreads a fragment that is not there. -/
def tangledFragments : List Fragment :=
  [nestingFragment "C" ["B"], nestingFragment "A" ["D", "C", "B"], nestingFragment "B" ["E", "C"],
    nestingFragment "Self" ["E", "Self"], nestingFragment "D" ["Missing"]]

/-- Of the tangled fragments, those on cycles are reported. -/
theorem cycles_reported_tangled :
    (tangledFragments.map (·.name)).Nodup ∧
      cycleProblems tangledFragments =
        ["B", "C", "Self"].map (fun name => .overall (.fragmentSpreadsItself name)) ∧
      ∀ name, name ∈ ["B", "C", "Self"] ↔
        Relation.TransGen (Fragment.Mentions tangledFragments) name name := by
  have distinct : (tangledFragments.map (·.name)).Nodup := by decide
  obtain ⟨names, reported, _, cyclic⟩ := cycles_reported distinct
  have ran : cycleProblems tangledFragments =
      ["B", "C", "Self"].map (fun name => .overall (.fragmentSpreadsItself name)) := by
    decide +kernel
  have listed : names = ["B", "C", "Self"] := by
    refine List.map_injective_iff.mpr ?_ (reported.symm.trans ran)
    intro name other same
    injection same with same
    injection same
  exact ⟨distinct, listed ▸ reported, listed ▸ cyclic⟩

end Typing

end TraversalQuery
