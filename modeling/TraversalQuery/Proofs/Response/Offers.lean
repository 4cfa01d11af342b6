import Mathlib.Data.List.Nodup
import TraversalQuery.Response.Collect

/-!
# What selections offer an object

Selections offer a field to an object if they ask for it themselves, inside an inline fragment or
inside a fragment that they spread, and neither a condition nor a directive leaves it out. What is
collected for an object is offered to it, in groups with keys of their own.
-/

namespace TraversalQuery

namespace FieldGroups

/-- Groups with keys of their own, of good fields that have the key of their group. -/
structure Each (good : SelectedField → Prop) (groups : FieldGroups) : Prop where
  nodup : groups.keys.Nodup
  keyed : ∀ group ∈ groups, ∀ selected ∈ group.2, selected.field.responseKey = group.1
  good : ∀ group ∈ groups, ∀ selected ∈ group.2, good selected

variable {good : SelectedField → Prop}

theorem each_nil : Each good [] :=
  ⟨List.nodup_nil, List.forall_mem_nil _, List.forall_mem_nil _⟩

/-- What holds of all grouped fields and of a new one holds after it is added. -/
theorem forall_mem_add (good : String → SelectedField → Prop) {key : String}
    {selected : SelectedField} {groups : FieldGroups}
    (each : ∀ group ∈ groups, ∀ other ∈ group.2, good group.1 other) (new : good key selected) :
    ∀ group ∈ groups.add key selected, ∀ other ∈ group.2, good group.1 other := by
  induction groups with
  | nil => simpa [add] using new
  | cons group rest ih =>
    obtain ⟨other, fields⟩ := group
    obtain ⟨first, later⟩ := List.forall_mem_cons.mp each
    unfold add
    split
    · rename_i same
      subst same
      refine List.forall_mem_cons.mpr ⟨List.forall_mem_append.mpr ⟨first, ?_⟩, later⟩
      exact List.forall_mem_singleton.mpr new
    · exact List.forall_mem_cons.mpr ⟨first, ih later⟩

/-- Groups stay good when a good field is added. -/
theorem Each.add {groups : FieldGroups} (each : groups.Each good) {selected : SelectedField}
    (new : good selected) : (groups.add selected.field.responseKey selected).Each good where
  nodup := nodup_keys_add each.nodup
  keyed := forall_mem_add (fun key other => other.field.responseKey = key) each.keyed rfl
  good := forall_mem_add (fun _ => good) each.good new

/-- A group of a key is the only one of the key. -/
theorem Each.eq_of_key {groups : FieldGroups} (each : groups.Each good) {key : String}
    {fields others : List SelectedField} (member : (key, fields) ∈ groups)
    (member' : (key, others) ∈ groups) : fields = others :=
  congrArg Prod.snd (List.inj_on_of_nodup_map each.nodup member member' rfl)

end FieldGroups

namespace Selection

mutual

/-- A selected field and those inside it, at any depth but not inside spreads. -/
def fields : Selection → List Field
  | .field selected selections _ => selected :: fieldsOf selections
  | .spread .. => []
  | .inline _ _ selections _ _ => fieldsOf selections

/-- All fields in selections, at any depth but not inside spreads. -/
def fieldsOf : List Selection → List Field
  | [] => []
  | selection :: rest => selection.fields ++ fieldsOf rest

end

/-- The fields of a selection are among those of all selections. -/
theorem fields_subset_fieldsOf {selections : List Selection} {selection : Selection}
    (member : selection ∈ selections) : selection.fields ⊆ fieldsOf selections := by
  induction selections with
  | nil => cases member
  | cons first rest ih =>
    rcases List.mem_cons.mp member with rfl | later
    · exact List.subset_append_left _ _
    · exact List.Subset.trans (ih later) (List.subset_append_right _ _)

/-- The fields of selections one after another are those of both. -/
theorem fieldsOf_append (selections more : List Selection) :
    fieldsOf (selections ++ more) = fieldsOf selections ++ fieldsOf more := by
  induction selections with
  | nil => rfl
  | cons selection rest ih => rw [List.cons_append, fieldsOf, fieldsOf, ih, List.append_assoc]

/-- The fields inside merged fields are within what they are inside of. -/
theorem fieldsOf_flatMap_subset {fields : List Field} {parts : List SelectedField}
    (within : ∀ part ∈ parts, fieldsOf part.selections ⊆ fields) :
    fieldsOf (parts.flatMap (·.selections)) ⊆ fields := by
  induction parts with
  | nil => exact List.nil_subset _
  | cons part rest ih =>
    obtain ⟨first, later⟩ := List.forall_mem_cons.mp within
    rw [List.flatMap_cons, fieldsOf_append]
    exact List.append_subset.mpr ⟨first, ih later⟩

end Selection

namespace QueryScope

/-- A field that selections ask of an object. -/
inductive Offers (scope : QueryScope) (object : SchemaType) :
    List Selection → SelectedField → Prop
  | field {selections inside : List Selection} {field : Field} {braces? : Option Span}
      (member : .field field inside braces? ∈ selections)
      (included : scope.includes field.directives = true) :
      Offers scope object selections ⟨field, inside⟩
  | inline {selections inside : List Selection} {condition? : Option String}
      {directives : List Directive} {braces span : Span} {selected : SelectedField}
      (member : .inline condition? directives inside braces span ∈ selections)
      (included : scope.includes directives = true)
      (admitted : admits object condition? = true)
      (inner : Offers scope object inside selected) : Offers scope object selections selected
  | spread {selections : List Selection} {name : String} {directives : List Directive}
      {span : Span} {fragment : Fragment} {selected : SelectedField}
      (member : .spread name directives span ∈ selections)
      (included : scope.includes directives = true)
      (found : Fragment.find? scope.fragments name = some fragment)
      (admitted : object.satisfies fragment.condition = true)
      (inner : Offers scope object fragment.selections selected) :
      Offers scope object selections selected

variable {scope : QueryScope} {object : SchemaType}

/-- More selections offer more. -/
theorem Offers.mono {selections more : List Selection} {selected : SelectedField}
    (offers : scope.Offers object selections selected) (subset : selections ⊆ more) :
    scope.Offers object more selected := by
  cases offers with
  | field member included => exact .field (subset member) included
  | inline member included admitted inner => exact .inline (subset member) included admitted inner
  | spread member included found admitted inner =>
    exact .spread (subset member) included found admitted inner

/-- What selections offer, one of them offers. -/
theorem Offers.one {selections : List Selection} {selected : SelectedField}
    (offers : scope.Offers object selections selected) :
    ∃ selection ∈ selections, scope.Offers object [selection] selected := by
  cases offers with
  | field member included => exact ⟨_, member, .field List.mem_cons_self included⟩
  | inline member included admitted inner =>
    exact ⟨_, member, .inline List.mem_cons_self included admitted inner⟩
  | spread member included found admitted inner =>
    exact ⟨_, member, .spread List.mem_cons_self included found admitted inner⟩

/-- What merged selections offer, one of them does. -/
theorem Offers.of_flatMap {α : Type} {parts : List α} {inside : α → List Selection}
    {selected : SelectedField} (offers : scope.Offers object (parts.flatMap inside) selected) :
    ∃ part ∈ parts, scope.Offers object (inside part) selected := by
  obtain ⟨selection, member, offers⟩ := offers.one
  obtain ⟨part, isPart, inPart⟩ := List.mem_flatMap.mp member
  exact ⟨part, isPart, offers.mono (List.cons_subset.mpr ⟨inPart, List.nil_subset _⟩)⟩

/-- All fields in selections and in the fragments of the query. -/
def allFields (scope : QueryScope) (selections : List Selection) : List Field :=
  Selection.fieldsOf selections ++
    scope.fragments.flatMap fun fragment => Selection.fieldsOf fragment.selections

/-- The fields of fragments are among all fields of a query. -/
theorem fieldsOf_subset_allFields (scope : QueryScope) (selections : List Selection) :
    ∀ fragment ∈ scope.fragments,
      Selection.fieldsOf fragment.selections ⊆ scope.allFields selections :=
  fun fragment member _ inside =>
    List.mem_append_right _ (List.mem_flatMap.mpr ⟨fragment, member, inside⟩)

/-- Only fields of the query are offered, and only such are inside them. -/
theorem Offers.subset {fields : List Field} (inFragments : ∀ fragment ∈ scope.fragments,
      Selection.fieldsOf fragment.selections ⊆ fields)
    {selections : List Selection} {selected : SelectedField}
    (offers : scope.Offers object selections selected)
    (within : Selection.fieldsOf selections ⊆ fields) :
    selected.field ∈ fields ∧ Selection.fieldsOf selected.selections ⊆ fields := by
  induction offers with
  | field member included =>
    exact List.cons_subset.mp (List.Subset.trans (Selection.fields_subset_fieldsOf member) within)
  | inline member included admitted inner ih =>
    exact ih (List.Subset.trans (Selection.fields_subset_fieldsOf member) within)
  | spread member included found admitted inner ih =>
    exact ih (inFragments _ (Fragment.mem_of_find? found))

/-- A way to collect the selections of fragments that adds only good fields if the fragment offers
no others. -/
def KeepsEach (scope : QueryScope) (object : SchemaType) (enter : CollectFragment) : Prop :=
  ∀ (good : SelectedField → Prop) (fragment : Fragment) (collected : Collected),
    collected.groups.Each good →
      (∀ selected, scope.Offers object fragment.selections selected → good selected) →
        (enter fragment collected).groups.Each good

section

variable {good : SelectedField → Prop}

mutual

/-- Collecting a selection adds only fields that it offers. -/
theorem each_collectSelection {enter : CollectFragment} (entering : scope.KeepsEach object enter) :
    ∀ (selection : Selection) (collected : Collected), collected.groups.Each good →
      (∀ selected, scope.Offers object [selection] selected → good selected) →
        (collectSelection scope enter object collected selection).groups.Each good
  | .field field selections braces?, collected, each, offered => by
    unfold collectSelection
    split
    · rename_i included
      exact each.add (offered _ (.field List.mem_cons_self included))
    · exact each
  | .spread name directives span, collected, each, offered => by
    unfold collectSelection
    split
    · rename_i included
      dsimp only
      split
      · exact each
      · rename_i fragment found
        split
        · rename_i admitted
          refine entering good fragment _ each fun selected inner => offered selected ?_
          exact .spread List.mem_cons_self (Bool.and_eq_true_iff.mp included).1 found admitted inner
        · exact each
    · exact each
  | .inline condition? directives selections braces span, collected, each, offered => by
    unfold collectSelection
    split
    · rename_i both
      obtain ⟨included, admitted⟩ := Bool.and_eq_true_iff.mp both
      exact each_collectSelections entering selections collected each fun selected inner =>
        offered selected (.inline List.mem_cons_self included admitted inner)
    · exact each

/-- Collecting selections adds only fields that they offer. -/
theorem each_collectSelections {enter : CollectFragment}
    (entering : scope.KeepsEach object enter) :
    ∀ (selections : List Selection) (collected : Collected), collected.groups.Each good →
      (∀ selected, scope.Offers object selections selected → good selected) →
        (collectSelections scope enter object collected selections).groups.Each good
  | [], collected, each, offered => each
  | selection :: rest, collected, each, offered => by
    refine each_collectSelections entering rest _ ?_ fun selected later =>
      offered selected (later.mono (List.subset_cons_self _ _))
    exact each_collectSelection entering selection collected each fun selected first =>
      offered selected (first.mono (List.cons_subset.mpr ⟨List.mem_cons_self, List.nil_subset _⟩))

end

/-- Collecting a fragment adds only fields that it offers. -/
theorem keepsEach_collectFragment (rounds : Nat) :
    scope.KeepsEach object (collectFragment scope object rounds) := by
  induction rounds with
  | zero => exact fun _ _ _ each _ => each
  | succ rounds ih =>
    exact fun good fragment collected each offered =>
      each_collectSelections ih fragment.selections collected each offered

end

/-- **What is collected is offered**, each field in the group of its key. -/
theorem each_collect (scope : QueryScope) (object : SchemaType) (selections : List Selection) :
    (scope.collect object selections).Each (scope.Offers object selections) :=
  each_collectSelections (keepsEach_collectFragment _) selections _ FieldGroups.each_nil
    fun _ => id

end QueryScope

end TraversalQuery
