import TraversalQuery.Document.Basic

/-!
# Spreads

Which fragments a fragment spreads, directly and through others. A fragment that reaches itself
would never end, so a query must have none.
-/

namespace TraversalQuery

namespace Selection

mutual

/-- The names that a selection spreads, in order, at any depth. -/
def spreads : Selection → List String
  | .field _ selections _ => spreadsOf selections
  | .spread name _ _ => [name]
  | .inline _ _ selections _ _ => spreadsOf selections

/-- The names that selections spread, in order, at any depth. -/
def spreadsOf : List Selection → List String
  | [] => []
  | selection :: rest => selection.spreads ++ spreadsOf rest

end

end Selection

namespace Fragment

/-- The names that a fragment spreads. -/
def spreads (fragment : Fragment) : List String :=
  Selection.spreadsOf fragment.selections

/-- The fragment of a name; of several the last counts. -/
def find? (fragments : List Fragment) (name : String) : Option Fragment :=
  fragments.reverse.find? (·.name == name)

/-- The fragment of a name has the name. -/
theorem name_of_find? {fragments : List Fragment} {name : String} {fragment : Fragment}
    (found : find? fragments name = some fragment) : fragment.name = name := by
  have := List.find?_some found
  simpa using this

/-- The fragment of a name is one of the document. -/
theorem mem_of_find? {fragments : List Fragment} {name : String} {fragment : Fragment}
    (found : find? fragments name = some fragment) : fragment ∈ fragments := by
  have := List.mem_of_find?_eq_some found
  simpa using this

/-- The weights of the fragments with a name that was not seen, added up. -/
def unseenWeight (weight : Fragment → Nat) (seen : List String) : List Fragment → Nat
  | [] => 0
  | fragment :: rest =>
    if fragment.name ∈ seen then unseenWeight weight seen rest
    else weight fragment + unseenWeight weight seen rest

/-- The more is seen, the less is left unseen. -/
theorem unseenWeight_le_of_subset (weight : Fragment → Nat) {seen more : List String}
    (subset : seen ⊆ more) (fragments : List Fragment) :
    unseenWeight weight more fragments ≤ unseenWeight weight seen fragments := by
  induction fragments with
  | nil => exact Nat.le_refl _
  | cons fragment rest ih =>
    by_cases known : fragment.name ∈ seen
    · simpa [unseenWeight, known, subset known] using ih
    · rw [unseenWeight, unseenWeight, if_neg known]
      split <;> omega

/-- A fragment that was not seen counts until it is. -/
theorem weight_add_unseenWeight_le (weight : Fragment → Nat) {seen : List String}
    {fragment : Fragment} (fresh : fragment.name ∉ seen) :
    ∀ {fragments : List Fragment}, fragment ∈ fragments →
      weight fragment + unseenWeight weight (fragment.name :: seen) fragments ≤
        unseenWeight weight seen fragments
  | first :: rest, member => by
    have fewer := unseenWeight_le_of_subset weight (List.subset_cons_self fragment.name seen) rest
    rcases List.mem_cons.1 member with rfl | later
    · rw [unseenWeight, unseenWeight, if_pos List.mem_cons_self, if_neg fresh]
      omega
    · have counted := weight_add_unseenWeight_le weight fresh later
      rw [unseenWeight, unseenWeight]
      by_cases known : first.name ∈ seen
      · rw [if_pos known, if_pos (List.mem_cons_of_mem _ known)]
        exact counted
      · rw [if_neg known]
        split <;> omega

/-- What the fragment of a name spreads; a name that no fragment has leads nowhere. -/
def spreadsNamed (fragments : List Fragment) (name : String) : List String :=
  match find? fragments name with
  | none => []
  | some fragment => fragment.spreads

/-- Looking into a name that was not seen costs less than it saves. -/
theorem length_spreadsNamed_add_lt {fragments : List Fragment} {name : String}
    {seen : List String} (fresh : name ∉ seen) (rest : List String) :
    unseenWeight (fun fragment => fragment.spreads.length + 1) (name :: seen) fragments +
        (spreadsNamed fragments name).length <
      unseenWeight (fun fragment => fragment.spreads.length + 1) seen fragments +
        (name :: rest).length := by
  have fewer := unseenWeight_le_of_subset (fun fragment => fragment.spreads.length + 1)
    (List.subset_cons_self name seen) fragments
  rw [List.length_cons]
  cases found : find? fragments name with
  | none =>
    have nowhere : spreadsNamed fragments name = [] := by rw [spreadsNamed, found]
    rw [nowhere, List.length_nil]
    omega
  | some fragment =>
    have spreads : spreadsNamed fragments name = fragment.spreads := by rw [spreadsNamed, found]
    have named := name_of_find? found
    rw [← named] at fresh
    have counted := weight_add_unseenWeight_le (fun fragment => fragment.spreads.length + 1) fresh
      (mem_of_find? found)
    rw [named] at counted
    rw [spreads]
    omega

/-- How a search ends: whether it came upon the name that it is for, and the names it has seen. It
forgets none that were seen before it. -/
structure Search (before : List String) where
  found : Bool
  seen : List String
  grown : before ⊆ seen

/-- A search is also one that began when less was seen. -/
def Search.since {before earlier : List String} (search : Search before)
    (grown : earlier ⊆ before) : Search earlier :=
  ⟨search.found, search.seen, List.Subset.trans grown search.grown⟩

/-- The search for a name among names and what they spread, one name after another and each as deep
as it leads. It ends at the name, and it looks once into every other one. -/
def search (fragments : List Fragment) (target : String) :
    List String → (seen : List String) → Search seen
  | [], seen => ⟨false, seen, List.Subset.refl _⟩
  | name :: rest, seen =>
    if name = target then ⟨true, seen, List.Subset.refl _⟩
    else if _fresh : name ∉ seen then
      let inside := search fragments target (spreadsNamed fragments name) (name :: seen)
      have grown := List.subset_of_cons_subset inside.grown
      if inside.found then ⟨true, inside.seen, grown⟩
      else (search fragments target rest inside.seen).since grown
    else search fragments target rest seen
termination_by names seen =>
  unseenWeight (fun fragment => fragment.spreads.length + 1) seen fragments + names.length
decreasing_by
  · exact length_spreadsNamed_add_lt _fresh rest
  · exact Nat.add_lt_add_of_le_of_lt (unseenWeight_le_of_subset _ grown fragments)
      (Nat.lt_succ_self _)
  · exact Nat.add_lt_add_left (Nat.lt_succ_self _) _

/-- Whether a fragment spreads itself, directly or through others. -/
def spreadsItself (fragments : List Fragment) (fragment : Fragment) : Bool :=
  (search fragments fragment.name fragment.spreads []).found

end Fragment

end TraversalQuery
