import TraversalQuery.Proofs.Response.Expansion
import TraversalQuery.Proofs.Response.Repeats

/-!
# Collecting selections and their expansions

An expansion asks for fields one after another, and those of a fragment at every place where it is
spread. Collecting enters a fragment only at the first place. Further places only repeat the fields
that were found there: a fragment that was visited is either gathered, so that all its fields are
among those found before, or still being entered, and then it is not spread in what it contains.
-/

namespace TraversalQuery

namespace QueryScope

mutual

/-- The fields that a selection without spreads asks of an object, one after another. -/
def fieldsOfOne (scope : QueryScope) (object : SchemaType) : Selection → List SelectedField
  | .field field selections _ =>
    if scope.includes field.directives then [⟨field, selections⟩] else []
  | .spread .. => []
  | .inline condition? directives selections _ _ =>
    if scope.includes directives && admits object condition? then
      scope.fieldsOf object selections
    else []

/-- The fields that selections without spreads ask of an object, one after another. -/
def fieldsOf (scope : QueryScope) (object : SchemaType) : List Selection → List SelectedField
  | [] => []
  | selection :: rest => scope.fieldsOfOne object selection ++ scope.fieldsOf object rest

end

/-- A query without fragments. -/
def withoutFragments (scope : QueryScope) : QueryScope :=
  { scope with fragments := [] }

variable {scope : QueryScope} {object : SchemaType}

/-- The fields that selections ask of an object are those of each of them. -/
theorem fieldsOf_eq_flatMap (selections : List Selection) :
    scope.fieldsOf object selections = selections.flatMap (scope.fieldsOfOne object) := by
  induction selections with
  | nil => rfl
  | cons selection rest ih => rw [fieldsOf, List.flatMap_cons, ih]

mutual

/-- Without fragments a selection is collected field by field. -/
theorem collectSelection_withoutFragments (enter : CollectFragment) :
    ∀ (selection : Selection) (collected : Collected),
      (scope.withoutFragments.collectSelection enter object collected selection).groups =
        (scope.fieldsOfOne object selection).foldl
          (fun groups selected => groups.add selected.field.responseKey selected)
          collected.groups
  | .field field selections braces?, collected => by
    unfold collectSelection fieldsOfOne
    change (if scope.includes field.directives then _ else _ : Collected).groups = _
    split <;> rfl
  | .spread name directives span, collected => by
    unfold collectSelection fieldsOfOne
    split <;> rfl
  | .inline condition? directives selections braces span, collected => by
    unfold collectSelection fieldsOfOne
    change (if scope.includes directives && _ then _ else _ : Collected).groups = _
    split
    · exact collectSelections_withoutFragments enter selections collected
    · rfl

/-- Without fragments selections are collected field by field. -/
theorem collectSelections_withoutFragments (enter : CollectFragment) :
    ∀ (selections : List Selection) (collected : Collected),
      (scope.withoutFragments.collectSelections enter object collected selections).groups =
        (scope.fieldsOf object selections).foldl
          (fun groups selected => groups.add selected.field.responseKey selected)
          collected.groups
  | [], collected => rfl
  | selection :: rest, collected => by
    rw [collectSelections, fieldsOf, List.foldl_append,
      collectSelections_withoutFragments enter rest,
      collectSelection_withoutFragments enter selection]

end

/-- Without fragments, all fields that selections ask for are collected. -/
theorem collect_withoutFragments (selections : List Selection) :
    scope.withoutFragments.collect object selections =
      FieldGroups.ofFields (scope.fieldsOf object selections) :=
  collectSelections_withoutFragments _ selections _

/-- The same field, with selections inside it and with their expansion. -/
def Corresponds (scope : QueryScope) (selected expanded : SelectedField) : Prop :=
  selected.field = expanded.field ∧ scope.Expands selected.selections expanded.selections

/-- Groups of fields that an expansion asks for as well, perhaps repeatedly. -/
def Matches (scope : QueryScope) (groups : FieldGroups) (found : List SelectedField) : Prop :=
  ∃ fields, groups = FieldGroups.ofFields fields ∧ Repeats scope.Corresponds fields found

/-- All fields that the expansion of a fragment asks of an object are among the fields found. -/
def Gathered (scope : QueryScope) (object : SchemaType) (found : List SelectedField)
    (name : String) : Prop :=
  ∀ fragment expanded, Fragment.find? scope.fragments name = some fragment →
    scope.Expands fragment.selections expanded → object.satisfies fragment.condition = true →
      ∀ selected ∈ scope.fieldsOf object expanded, selected ∈ found

/-- The expansion of a fragment has at least a certain size. -/
def AtLeast (scope : QueryScope) (size : Nat) (name : String) : Prop :=
  ∀ fragment expanded, Fragment.find? scope.fragments name = some fragment →
    scope.Expands fragment.selections expanded → size ≤ sizeOf expanded

/-- What collecting brings about where an expansion asks for more fields: they are matched, and the
fragments that were newly visited are gathered. -/
structure Gathers (scope : QueryScope) (object : SchemaType) (before after : Collected)
    (found more : List SelectedField) : Prop where
  fields : scope.Matches after.groups (found ++ more)
  kept : before.visited ⊆ after.visited
  settled : ∀ name ∈ after.visited,
    name ∈ before.visited ∨ scope.Gathered object (found ++ more) name

/-- A fragment stays gathered when more fields are found. -/
theorem Gathered.append {found : List SelectedField} {name : String}
    (gathered : scope.Gathered object found name) (more : List SelectedField) :
    scope.Gathered object (found ++ more) name :=
  fun fragment expanded present expands satisfied selected member =>
    List.mem_append_left _ (gathered fragment expanded present expands satisfied selected member)

namespace Gathers

variable {before between after : Collected} {found more others : List SelectedField}

theorem refl (fields : scope.Matches before.groups found) :
    scope.Gathers object before before found [] where
  fields := by rwa [List.append_nil]
  kept := fun _ member => member
  settled := fun _ member => .inl member

/-- Collecting goes on from where it was. -/
theorem trans (first : scope.Gathers object before between found more)
    (second : scope.Gathers object between after (found ++ more) others) :
    scope.Gathers object before after found (more ++ others) where
  fields := by
    rw [← List.append_assoc]
    exact second.fields
  kept := fun _ member => second.kept (first.kept member)
  settled := by
    intro name member
    rw [← List.append_assoc]
    rcases second.settled name member with visited | gathered
    · exact (first.settled name visited).imp id fun gathered => gathered.append others
    · exact .inr gathered

end Gathers

/-- Collecting may go on: the fields found so far are matched, the rounds suffice for the fragments
that are left, and those visited are gathered or too large to be spread further on. -/
structure Ready (scope : QueryScope) (object : SchemaType) (size rounds : Nat)
    (collected : Collected) (found : List SelectedField) : Prop where
  enough : Fragment.unseenWeight (fun _ => 1) collected.visited scope.fragments ≤ rounds
  fields : scope.Matches collected.groups found
  settled : ∀ name ∈ collected.visited,
    scope.Gathered object found name ∨ scope.AtLeast size name

/-- Collecting may go on after it has brought something about. -/
theorem Ready.after {size rounds : Nat} {before after : Collected}
    {found more : List SelectedField} (ready : scope.Ready object size rounds before found)
    (gathers : scope.Gathers object before after found more) :
    scope.Ready object size rounds after (found ++ more) where
  enough := Nat.le_trans (Fragment.unseenWeight_le_of_subset _ gathers.kept _) ready.enough
  fields := gathers.fields
  settled := by
    intro name member
    rcases gathers.settled name member with visited | gathered
    · exact (ready.settled name visited).imp (fun gathered => gathered.append more) id
    · exact .inl gathered

/-- Selections are collected as their expansion asks. -/
def CollectsAs (scope : QueryScope) (object : SchemaType) (selections expanded : List Selection) :
    Prop :=
  ∀ size rounds collected found, sizeOf expanded ≤ size →
    scope.Ready object size rounds collected found →
      scope.Gathers object collected
        (scope.collectSelections (scope.collectFragment object rounds) object collected selections)
        found (scope.fieldsOf object expanded)

/-- Selections are as large as their parts. -/
theorem sizeOf_append (selections more : List Selection) :
    sizeOf (selections ++ more) + 1 = sizeOf selections + sizeOf more := by
  induction selections with
  | nil => simp [Nat.add_comm]
  | cons selection rest ih =>
    simp only [List.cons_append, List.cons.sizeOf_spec]
    omega

/-- No selections are without size. -/
theorem one_le_sizeOf (selections : List Selection) : 1 ≤ sizeOf selections := by
  cases selections <;> simp [Nat.add_assoc]

/-- Selections are collected as asked if the first is, and so are the others. -/
theorem CollectsAs.cons {selection : Selection} {rest expanded expandedRest : List Selection}
    (first : scope.CollectsAs object [selection] expanded)
    (later : scope.CollectsAs object rest expandedRest) :
    scope.CollectsAs object (selection :: rest) (expanded ++ expandedRest) := by
  intro size rounds collected found small ready
  have total := sizeOf_append expanded expandedRest
  have firstSize := one_le_sizeOf expanded
  have restSize := one_le_sizeOf expandedRest
  have gathers := first size rounds collected found (by omega) ready
  rw [fieldsOf_eq_flatMap, List.flatMap_append, ← fieldsOf_eq_flatMap, ← fieldsOf_eq_flatMap]
  exact gathers.trans (later size rounds _ _ (by omega) (ready.after gathers))

theorem collectsAs_nil : scope.CollectsAs object [] [] :=
  fun _ _ _ _ _ ready => .refl ready.fields

/-- What is excluded is collected as nothing. -/
theorem collectsAs_excluded {selection : Selection}
    (out : scope.includes selection.directives = false) :
    scope.CollectsAs object [selection] [] := by
  intro size rounds collected found small ready
  have unchanged : scope.collectSelection (scope.collectFragment object rounds) object collected
      selection = collected := by
    cases selection <;> simp only [Selection.directives] at out <;> simp [collectSelection, out]
  rw [collectSelections, collectSelections, unchanged]
  exact .refl ready.fields

/-- A field is collected with what the selections inside it expand to. -/
theorem collectsAs_field {field : Field} {braces? : Option Span}
    {selections expanded : List Selection} (included : scope.includes field.directives = true)
    (inside : scope.Expands selections expanded) :
    scope.CollectsAs object [.field field selections braces?] [.field field expanded braces?] := by
  intro size rounds collected found small ready
  obtain ⟨fields, same, repeats⟩ := ready.fields
  simp only [collectSelections, collectSelection, fieldsOf, fieldsOfOne, if_pos included,
    List.append_nil]
  refine ⟨⟨fields ++ [⟨field, selections⟩], ?_, ?_⟩, fun _ => id, fun _ => .inl⟩
  · rw [FieldGroups.ofFields_append, same]
  · exact repeats.new ⟨rfl, inside⟩

/-- An inline fragment is collected as its selections are. -/
theorem collectsAs_inline {condition? : Option String} {directives : List Directive}
    {braces span : Span} {selections expanded : List Selection}
    (included : scope.includes directives = true)
    (inside : scope.CollectsAs object selections expanded) :
    scope.CollectsAs object [.inline condition? directives selections braces span]
      [.inline condition? directives expanded braces span] := by
  intro size rounds collected found small ready
  simp only [collectSelections, collectSelection, fieldsOf, fieldsOfOne, included, Bool.true_and,
    List.append_nil]
  simp only [List.cons.sizeOf_spec, Selection.inline.sizeOf_spec] at small
  split
  · exact inside size rounds collected found (by omega) ready
  · exact .refl ready.fields

/-- A spread of an unknown fragment is collected as nothing. -/
theorem collectsAs_unknown {name : String} {directives : List Directive} {span : Span}
    (included : scope.includes directives = true)
    (missing : Fragment.find? scope.fragments name = none) :
    scope.CollectsAs object [.spread name directives span] [] := by
  intro size rounds collected found small ready
  simp only [collectSelections, collectSelection, included, missing, Bool.true_and, fieldsOf]
  split
  · refine ⟨by simpa using ready.fields, fun _ => List.mem_cons_of_mem _, fun other member => ?_⟩
    rcases List.mem_cons.mp member with rfl | visited
    · exact .inr fun fragment _ present => by simp [missing] at present
    · exact .inl visited
  · exact .refl ready.fields

/-- Fields that were found before change nothing. -/
theorem Matches.append_known {groups : FieldGroups} {found more : List SelectedField}
    (fields : scope.Matches groups found) (known : ∀ selected ∈ more, selected ∈ found) :
    scope.Matches groups (found ++ more) := by
  obtain ⟨fields, same, repeats⟩ := fields
  exact ⟨fields, same, repeats.append_known known⟩

section

variable {size rounds : Nat} {collected : Collected} {found : List SelectedField} {name : String}
  {fragment : Fragment} {expanded : List Selection}

/-- A visited fragment that is spread again has nothing to add. It is not still being entered, as
it would be spread inside itself. -/
theorem gathers_again (ready : scope.Ready object size rounds collected found)
    (visited : name ∈ collected.visited)
    (present : Fragment.find? scope.fragments name = some fragment)
    (expands : scope.Expands fragment.selections expanded) (small : sizeOf expanded < size)
    (satisfied : object.satisfies fragment.condition = true) :
    scope.Gathers object collected collected found (scope.fieldsOf object expanded) := by
  rcases ready.settled name visited with gathered | atLeast
  · have known := gathered fragment expanded present expands satisfied
    exact ⟨ready.fields.append_known known, fun _ => id, fun _ => .inl⟩
  · have large := atLeast fragment expanded present expands
    omega

/-- While a fragment is entered, all that is spread inside it is smaller than its expansion. -/
theorem Ready.enter {left : Nat} (ready : scope.Ready object size rounds collected found)
    (enough : Fragment.unseenWeight (fun _ => 1) (name :: collected.visited) scope.fragments ≤ left)
    (present : Fragment.find? scope.fragments name = some fragment)
    (expands : scope.Expands fragment.selections expanded) (small : sizeOf expanded < size) :
    scope.Ready object (sizeOf expanded) left
      { collected with visited := name :: collected.visited } found where
  enough := enough
  fields := ready.fields
  settled := by
    intro other member
    rcases List.mem_cons.mp member with rfl | visited
    · right
      intro same sameExpanded presentSame expandsSame
      rw [present] at presentSame
      cases presentSame
      rw [expands.unique expandsSame]
    · apply (ready.settled other visited).imp id
      intro atLeast another anotherExpanded presentAnother expandsAnother
      have large := atLeast another anotherExpanded presentAnother expandsAnother
      omega

/-- A fragment is gathered once it has been entered. -/
theorem Gathers.entered {after : Collected}
    (present : Fragment.find? scope.fragments name = some fragment)
    (expands : scope.Expands fragment.selections expanded)
    (gathers : scope.Gathers object { collected with visited := name :: collected.visited } after
      found (scope.fieldsOf object expanded)) :
    scope.Gathers object collected after found (scope.fieldsOf object expanded) where
  fields := gathers.fields
  kept := fun _ member => gathers.kept (List.mem_cons_of_mem _ member)
  settled := by
    intro other member
    rcases gathers.settled other member with marked | gathered
    · rcases List.mem_cons.mp marked with rfl | visited
      · right
        intro same sameExpanded presentSame expandsSame _ selected isField
        rw [present] at presentSame
        cases presentSame
        rw [expands.unique expandsSame] at isField
        exact List.mem_append_right _ isField
      · exact .inl visited
    · exact .inr gathered

/-- A fragment that does not admit the object is only marked as visited. -/
theorem gathers_unsatisfied (fields : scope.Matches collected.groups found)
    (present : Fragment.find? scope.fragments name = some fragment)
    (unsatisfied : object.satisfies fragment.condition = false) :
    scope.Gathers object collected { collected with visited := name :: collected.visited }
      found [] where
  fields := by rwa [List.append_nil]
  kept := fun _ => List.mem_cons_of_mem _
  settled := by
    intro other member
    rcases List.mem_cons.mp member with rfl | visited
    · right
      intro same _ presentSame _ satisfied
      rw [present] at presentSame
      cases presentSame
      simp [unsatisfied] at satisfied
    · exact .inl visited

end

/-- A spread is collected as the selections of its fragment expand. -/
theorem collectsAs_spread {name : String} {directives : List Directive} {span : Span}
    {fragment : Fragment} {expanded : List Selection}
    (included : scope.includes directives = true)
    (present : Fragment.find? scope.fragments name = some fragment)
    (expands : scope.Expands fragment.selections expanded)
    (inside : scope.CollectsAs object fragment.selections expanded) :
    scope.CollectsAs object [.spread name directives span]
      [.inline (some fragment.condition) directives expanded fragment.braces span] := by
  intro size rounds collected found small ready
  -- The expansion of the fragment is inside that of the spread. A fragment that is still being
  -- entered has an expansion around both, which is how it is told from one that is gathered.
  have smaller : sizeOf expanded < size := by
    simp only [List.cons.sizeOf_spec, Selection.inline.sizeOf_spec] at small
    omega
  simp only [collectSelections, collectSelection, fieldsOf, fieldsOfOne, included, present, admits,
    Bool.true_and, List.append_nil]
  by_cases visited : name ∈ collected.visited
  · rw [if_neg (by simpa using visited)]
    split
    · rename_i satisfied
      exact gathers_again ready visited present expands smaller satisfied
    · exact .refl ready.fields
  · rw [if_pos (by simpa using visited)]
    split
    · obtain ⟨left, rfl, enough⟩ := Fragment.exists_round ready.enough visited present
      apply Gathers.entered present expands
      exact inside _ left _ found (Nat.le_refl _) (ready.enter enough present expands smaller)
    · rename_i unsatisfied
      exact gathers_unsatisfied ready.fields present (by simpa using unsatisfied)

/-- Selections are collected as their expansion asks: each of the ways in which a selection is
expanded agrees with what collecting it does. -/
theorem collectsAs_of_expands {selections expanded : List Selection}
    (expands : scope.Expands selections expanded) :
    scope.CollectsAs object selections expanded := by
  induction expands with
  | nil => exact collectsAs_nil
  | excluded out _ ih => exact (collectsAs_excluded out).cons ih
  | field included inside _ _ ih => exact (collectsAs_field included inside).cons ih
  | inline included _ _ ihInside ih => exact (collectsAs_inline included ihInside).cons ih
  | spread included found inside _ ihInside ih =>
    exact (collectsAs_spread included found inside ihInside).cons ih
  | unknown included missing _ ih => exact (collectsAs_unknown included missing).cons ih

/-- **Collecting a query and its expansion.** The groups have the same keys in the same order, the
first fields of each are the same, and the fields that the expansion has beyond those of the query
are among them already. -/
theorem alike_collect {selections expanded : List Selection}
    (expands : scope.Expands selections expanded) :
    FieldGroups.Alike scope.Corresponds (scope.collect object selections)
      (scope.withoutFragments.collect object expanded) := by
  have ready : scope.Ready object (sizeOf expanded) scope.fragments.length ⟨[], []⟩ [] :=
    ⟨Nat.le_of_eq (Fragment.unseenWeight_one_nil _), ⟨[], rfl, .nil⟩, List.forall_mem_nil _⟩
  obtain ⟨fields, same, repeats⟩ :=
    (collectsAs_of_expands expands _ _ _ _ (Nat.le_refl _) ready).fields
  rw [collect_withoutFragments]
  change FieldGroups.Alike _ (Collected.groups _) _
  rw [same]
  exact FieldGroups.alike_ofFields (fun _ _ corresponds => by rw [corresponds.1]) repeats

end QueryScope

end TraversalQuery
