import TraversalQuery.Proofs.Document.Spreads
import TraversalQuery.Response.Walk

/-!
# Expansions

Selections are expanded by writing out what is spread and leaving out what is skipped or not
included. Where no fragment leads to itself all selections have an expansion, and it is no deeper
than a walk over the selections may go.
-/

namespace TraversalQuery

namespace Selection

/-- The directives of a selection. -/
def directives : Selection → List Directive
  | .field selected _ _ => selected.directives
  | .spread _ directives _ => directives
  | .inline _ directives _ _ _ => directives

@[simp] theorem depthOf_nil : depthOf [] = 0 :=
  rfl

@[simp] theorem depthOf_cons (selection : Selection) (rest : List Selection) :
    depthOf (selection :: rest) = max selection.depth (depthOf rest) := by
  rw [depthOf]
  split <;> omega

/-- Selections are as deep as the deeper of their parts. -/
theorem depthOf_append (selections more : List Selection) :
    depthOf (selections ++ more) = max (depthOf selections) (depthOf more) := by
  induction selections with
  | nil => simp
  | cons selection rest ih =>
    rw [List.cons_append, depthOf_cons, depthOf_cons, ih]
    omega

end Selection

namespace QueryScope

/-- Selections without spreads and exclusions. A selection that its directives exclude is left out.
A spread becomes an inline fragment with the directives of the spread, and the type condition and
the expanded selections of the fragment. There is nothing to write out for a fragment that the
document does not have. -/
inductive Expands (scope : QueryScope) : List Selection → List Selection → Prop
  | nil : Expands scope [] []
  | excluded {selection : Selection} {rest expandedRest : List Selection}
      (out : scope.includes selection.directives = false)
      (later : Expands scope rest expandedRest) :
      Expands scope (selection :: rest) expandedRest
  | field {field : Field} {braces? : Option Span}
      {selections expanded rest expandedRest : List Selection}
      (included : scope.includes field.directives = true)
      (inside : Expands scope selections expanded) (later : Expands scope rest expandedRest) :
      Expands scope (.field field selections braces? :: rest)
        (.field field expanded braces? :: expandedRest)
  | inline {condition? : Option String} {directives : List Directive} {braces span : Span}
      {selections expanded rest expandedRest : List Selection}
      (included : scope.includes directives = true)
      (inside : Expands scope selections expanded) (later : Expands scope rest expandedRest) :
      Expands scope (.inline condition? directives selections braces span :: rest)
        (.inline condition? directives expanded braces span :: expandedRest)
  | spread {name : String} {directives : List Directive} {span : Span} {fragment : Fragment}
      {expanded rest expandedRest : List Selection}
      (included : scope.includes directives = true)
      (found : Fragment.find? scope.fragments name = some fragment)
      (inside : Expands scope fragment.selections expanded)
      (later : Expands scope rest expandedRest) :
      Expands scope (.spread name directives span :: rest)
        (.inline (some fragment.condition) directives expanded fragment.braces span ::
          expandedRest)
  | unknown {name : String} {directives : List Directive} {span : Span}
      {rest expandedRest : List Selection} (included : scope.includes directives = true)
      (missing : Fragment.find? scope.fragments name = none)
      (later : Expands scope rest expandedRest) :
      Expands scope (.spread name directives span :: rest) expandedRest

namespace Expands

variable {scope : QueryScope} {selections expanded : List Selection}

/-- Selections have one expansion. -/
theorem unique (first : scope.Expands selections expanded) :
    ∀ {other : List Selection}, scope.Expands selections other → other = expanded := by
  induction first with
  | nil =>
    intro other second
    cases second
    rfl
  | excluded out later ih =>
    intro other second
    cases second with
    | excluded _ later => exact ih later
    | field included => simp [Selection.directives, included] at out
    | inline included => simp [Selection.directives, included] at out
    | spread included => simp [Selection.directives, included] at out
    | unknown included => simp [Selection.directives, included] at out
  | field included inside later ihInside ihLater =>
    intro other second
    cases second with
    | excluded out => simp [Selection.directives, included] at out
    | field _ inside later => rw [ihInside inside, ihLater later]
  | inline included inside later ihInside ihLater =>
    intro other second
    cases second with
    | excluded out => simp [Selection.directives, included] at out
    | inline _ inside later => rw [ihInside inside, ihLater later]
  | spread included found inside later ihInside ihLater =>
    intro other second
    cases second with
    | excluded out => simp [Selection.directives, included] at out
    | spread _ foundSame inside later =>
      rw [found] at foundSame
      cases foundSame
      rw [ihInside inside, ihLater later]
    | unknown _ missing => simp [found] at missing
  | unknown included missing later ih =>
    intro other second
    cases second with
    | excluded out => simp [Selection.directives, included] at out
    | spread _ found => simp [missing] at found
    | unknown _ _ later => exact ih later

/-- Nothing is spread in an expansion. -/
theorem spreadsOf_eq_nil (expands : scope.Expands selections expanded) :
    Selection.spreadsOf expanded = [] := by
  induction expands with
  | nil => rfl
  | excluded _ _ ih => exact ih
  | field _ _ _ ihInside ihLater =>
    simp [Selection.spreadsOf, Selection.spreads, ihInside, ihLater]
  | inline _ _ _ ihInside ihLater =>
    simp [Selection.spreadsOf, Selection.spreads, ihInside, ihLater]
  | spread _ _ _ _ ihInside ihLater =>
    simp [Selection.spreadsOf, Selection.spreads, ihInside, ihLater]
  | unknown _ _ _ ih => exact ih

/-- Selections one after another expand one after another. -/
theorem append {more expandedMore : List Selection} (first : scope.Expands selections expanded)
    (second : scope.Expands more expandedMore) :
    scope.Expands (selections ++ more) (expanded ++ expandedMore) := by
  induction first with
  | nil => exact second
  | excluded out _ ih => exact .excluded out ih
  | field included inside _ _ ih => exact .field included inside ih
  | inline included inside _ _ ih => exact .inline included inside ih
  | spread included found inside _ _ ih => exact .spread included found inside ih
  | unknown included missing _ ih => exact .unknown included missing ih

end Expands

variable {scope : QueryScope}

/-- What is spread can be written out, to selections of a depth of at most `limit`. -/
def Expandable (scope : QueryScope) (limit : Nat) (names : List String) : Prop :=
  ∀ name ∈ names, ∀ fragment, Fragment.find? scope.fragments name = some fragment →
    ∃ expanded, scope.Expands fragment.selections expanded ∧ Selection.depthOf expanded ≤ limit

mutual

/-- A selection that is included can be expanded if what it spreads can. -/
theorem exists_expands_one {limit : Nat} : ∀ selection : Selection,
    scope.includes selection.directives = true → scope.Expandable limit selection.spreads →
      ∃ expanded, scope.Expands [selection] expanded ∧
        Selection.depthOf expanded ≤ selection.depth + limit
  | .field field selections braces?, included, expandable => by
    obtain ⟨expanded, inside, bounded⟩ := exists_expands selections expandable
    refine ⟨_, .field included inside .nil, ?_⟩
    simp only [Selection.depthOf_cons, Selection.depthOf_nil, Selection.depth]
    omega
  | .spread name directives span, included, expandable => by
    cases found : Fragment.find? scope.fragments name with
    | none => exact ⟨[], .unknown included found .nil, Nat.zero_le _⟩
    | some fragment =>
      obtain ⟨expanded, inside, bounded⟩ := expandable name (by simp [Selection.spreads]) _ found
      refine ⟨_, .spread included found inside .nil, ?_⟩
      simp only [Selection.depthOf_cons, Selection.depthOf_nil, Selection.depth]
      omega
  | .inline condition? directives selections braces span, included, expandable => by
    obtain ⟨expanded, inside, bounded⟩ := exists_expands selections expandable
    refine ⟨_, .inline included inside .nil, ?_⟩
    simp only [Selection.depthOf_cons, Selection.depthOf_nil, Selection.depth]
    omega

/-- Selections can be expanded if what they spread can. -/
theorem exists_expands {limit : Nat} : ∀ selections : List Selection,
    scope.Expandable limit (Selection.spreadsOf selections) → ∃ expanded,
      scope.Expands selections expanded ∧
        Selection.depthOf expanded ≤ Selection.depthOf selections + limit
  | [], _ => ⟨[], .nil, Nat.zero_le _⟩
  | selection :: rest, expandable => by
    obtain ⟨others, expandsOthers, othersBounded⟩ := exists_expands rest
      fun name member => expandable name (List.mem_append_right _ member)
    rw [Selection.depthOf_cons]
    cases included : scope.includes selection.directives with
    | false =>
      refine ⟨others, .excluded included expandsOthers, ?_⟩
      omega
    | true =>
      obtain ⟨first, expandsFirst, firstBounded⟩ := exists_expands_one selection included
        fun name member => expandable name (List.mem_append_left _ member)
      refine ⟨first ++ others, expandsFirst.append expandsOthers, ?_⟩
      rw [Selection.depthOf_append]
      omega

end

/-- How deep fields are inside one another in a fragment, without entering spreads. -/
def depthIn (fragment : Fragment) : Nat :=
  Selection.depthOf fragment.selections

/-- Selections that the fragments on the way lead to have an expansion. None of these fragments is
spread again, so the depth of the expansion counts each of the others at most once. -/
theorem exists_expands_after (acyclic : Fragment.Acyclic scope.fragments) (way : List String)
    (selections : List Selection)
    (leads : ∀ name ∈ way, ∀ other ∈ Selection.spreadsOf selections,
      Relation.TransGen (Fragment.Leads scope.fragments) name other) :
    ∃ expanded, scope.Expands selections expanded ∧ Selection.depthOf expanded ≤
      Selection.depthOf selections + Fragment.unseenWeight depthIn way scope.fragments := by
  -- By induction on the fragments that are not on the way: a fragment that is spread joins them.
  apply exists_expands
  intro name spread fragment found
  have named : fragment.name = name := Fragment.name_of_find? found
  have member : fragment ∈ scope.fragments := Fragment.mem_of_find? found
  have fresh : fragment.name ∉ way := by
    intro onWay
    have chain := leads _ onWay name spread
    rw [named] at chain
    exact acyclic name chain
  obtain ⟨expanded, expands, bounded⟩ := exists_expands_after acyclic (fragment.name :: way)
    fragment.selections <| by
      intro earlier onWay other spreadInside
      have next : Fragment.Leads scope.fragments name other := ⟨fragment, found, spreadInside⟩
      rcases List.mem_cons.mp onWay with rfl | before
      · rw [named]
        exact .single next
      · exact .tail (leads earlier before name spread) next
  have total := Fragment.weight_add_unseenWeight_le depthIn fresh member
  exact ⟨expanded, expands, Nat.le_trans bounded total⟩
termination_by Fragment.unseenWeight (fun _ => 1) way scope.fragments
decreasing_by
  have fewer := Fragment.weight_add_unseenWeight_le (fun _ => 1) fresh member
  omega

/-- Where no fragment leads to itself, selections have an expansion, and its depth is within the
limit of a walk over them. -/
theorem exists_expands_of_acyclic (acyclic : Fragment.Acyclic scope.fragments)
    (selections : List Selection) : ∃ expanded, scope.Expands selections expanded ∧
      Selection.depthOf expanded < scope.depthLimit selections := by
  obtain ⟨expanded, expands, bounded⟩ := exists_expands_after acyclic [] selections (by simp)
  rw [Fragment.unseenWeight_nil] at bounded
  exact ⟨expanded, expands, Nat.lt_succ_of_le bounded⟩

end QueryScope

end TraversalQuery
