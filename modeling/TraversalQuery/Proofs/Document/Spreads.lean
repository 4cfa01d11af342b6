import Mathlib.Logic.Relation
import TraversalQuery.Typing.Query

/-!
# Chains of spreads

A fragment leads to the fragments that it spreads. A search for a name looks into a name once, also
where several ways lead to it, and still comes upon all that is led to over any number of fragments:
when it ends without its name, what it has seen is closed. So a document without problems has no
fragment that is led to by itself.
-/

namespace TraversalQuery

namespace Fragment

variable {fragments : List Fragment}

/-- The fragment of one name spreads the other name. -/
def Leads (fragments : List Fragment) (name other : String) : Prop :=
  ∃ fragment, find? fragments name = some fragment ∧ other ∈ fragment.spreads

/-- A document in which no fragment leads to itself. -/
def Acyclic (fragments : List Fragment) : Prop :=
  ∀ name, ¬ Relation.TransGen (Leads fragments) name name

/-- Where nothing is seen, everything is left unseen. -/
theorem unseenWeight_nil (weight : Fragment → Nat) (fragments : List Fragment) :
    unseenWeight weight [] fragments =
      fragments.foldr (fun fragment total => weight fragment + total) 0 := by
  induction fragments with
  | nil => rfl
  | cons fragment rest ih => simp [unseenWeight, ih]

/-- Where nothing is seen, as many fragments are left as there are. -/
theorem unseenWeight_one_nil (fragments : List Fragment) :
    unseenWeight (fun _ => 1) [] fragments = fragments.length := by
  induction fragments with
  | nil => rfl
  | cons fragment rest ih => simp [unseenWeight, ih, Nat.add_comm]

/-- Where every fragment that was not seen has a round of its own, there is a round left for one of
them. -/
theorem exists_round {seen : List String} {rounds : Nat} {name : String} {fragment : Fragment}
    (enough : unseenWeight (fun _ => 1) seen fragments ≤ rounds) (fresh : name ∉ seen)
    (present : find? fragments name = some fragment) :
    ∃ left, rounds = left + 1 ∧ unseenWeight (fun _ => 1) (name :: seen) fragments ≤ left := by
  have named : fragment.name = name := name_of_find? present
  rw [← named] at fresh ⊢
  have fewer := weight_add_unseenWeight_le (fun _ => 1) fresh (mem_of_find? present)
  exact ⟨rounds - 1, by omega, by omega⟩

/-- A fragment leads to those that it spreads. -/
theorem leads_iff {name other : String} :
    Leads fragments name other ↔ other ∈ spreadsNamed fragments name := by
  unfold Leads spreadsNamed
  cases find? fragments name with
  | none => simp
  | some fragment => simp

/-- A search comes upon nothing but what the names that it was given lead to. -/
theorem reflTransGen_of_found (target : String) (names seen : List String)
    (found : (search fragments target names seen).found = true) :
    ∃ first ∈ names, Relation.ReflTransGen (Leads fragments) first target := by
  fun_induction search fragments target names seen with
  | case1 seen => contradiction
  | case2 rest seen => exact ⟨target, List.mem_cons_self, .refl⟩
  | case3 name rest seen different fresh inside grown foundInside ihInside =>
    obtain ⟨first, spread, chain⟩ := ihInside foundInside
    exact ⟨name, List.mem_cons_self, .head (leads_iff.mpr spread) chain⟩
  | case4 name rest seen different fresh inside grown missed ihInside ihRest =>
    obtain ⟨first, later, chain⟩ := ihRest found
    exact ⟨first, List.mem_cons_of_mem _ later, chain⟩
  | case5 name rest seen different known ih =>
    obtain ⟨first, later, chain⟩ := ih found
    exact ⟨first, List.mem_cons_of_mem _ later, chain⟩

/-- What a search has seen that did not come upon its name: all names that it was given, with every
name that it looked into all that it leads to, and the name itself only if it was seen before. -/
structure Exhausted (fragments : List Fragment) (target : String)
    (names before seen : List String) : Prop where
  covered : names ⊆ seen
  closed : ∀ name ∈ seen, name ∉ before → ∀ other, Leads fragments name other → other ∈ seen
  avoided : target ∈ seen → target ∈ before

/-- A search that finds nothing has looked at all that can be reached. -/
theorem exhausted_of_not_found (target : String) (names before : List String)
    (missed : (search fragments target names before).found = false) :
    Exhausted fragments target names before (search fragments target names before).seen := by
  fun_induction search fragments target names before with
  | case1 before =>
    exact ⟨List.nil_subset _, fun name member absent => absurd member absent, id⟩
  | case2 rest before => contradiction
  | case3 name rest before different fresh inside grown foundInside ihInside => contradiction
  | case4 name rest before different fresh inside grown missedInside ihInside ihRest =>
    have inner := ihInside (Bool.eq_false_iff.mpr missedInside)
    have outer := ihRest missed
    have later := (search fragments target rest inside.seen).grown
    refine ⟨List.cons_subset.mpr ⟨later (inside.grown List.mem_cons_self), outer.covered⟩, ?_, ?_⟩
    · intro other member absent next leads
      -- What was seen inside is closed when the search inside ends, whatever comes after it.
      by_cases isInside : other ∈ inside.seen
      · by_cases isName : other = name
        · rw [isName, leads_iff] at leads
          exact later (inner.covered leads)
        · exact later (inner.closed other isInside (by simp [isName, absent]) next leads)
      · exact outer.closed other member isInside next leads
    · intro member
      rcases List.mem_cons.mp (inner.avoided (outer.avoided member)) with same | known
      · exact absurd same.symm different
      · exact known
  | case5 name rest before different known ih =>
    have later := ih missed
    have seen := (search fragments target rest before).grown (Decidable.not_not.mp known)
    exact ⟨List.cons_subset.mpr ⟨seen, later.covered⟩, later.closed, later.avoided⟩

/-- A search that began with nothing seen has seen all that its names lead to. -/
theorem Exhausted.mem_of_reflTransGen {target first name : String} {names seen : List String}
    (exhausted : Exhausted fragments target names [] seen) (given : first ∈ names)
    (chain : Relation.ReflTransGen (Leads fragments) first name) : name ∈ seen := by
  induction chain with
  | refl => exact exhausted.covered given
  | tail _ leads ih => exact exhausted.closed _ ih List.not_mem_nil _ leads

/-- **A search is exact.** It comes upon the name that it is for exactly if one of the names that it
was given leads to it. -/
theorem search_found_iff {target : String} {names : List String} :
    (search fragments target names []).found = true ↔
      ∃ first ∈ names, Relation.ReflTransGen (Leads fragments) first target := by
  refine ⟨reflTransGen_of_found target names [], fun ⟨first, given, chain⟩ => ?_⟩
  refine eq_true_of_ne_false fun missed => ?_
  have exhausted := exhausted_of_not_found target names [] missed
  exact List.not_mem_nil (exhausted.avoided (exhausted.mem_of_reflTransGen given chain))

/-- A fragment spreads itself exactly if it leads to itself. -/
theorem spreadsItself_iff {fragment : Fragment} {name : String}
    (found : find? fragments name = some fragment) :
    fragment.spreadsItself fragments = true ↔ Relation.TransGen (Leads fragments) name name := by
  rw [spreadsItself, search_found_iff, name_of_find? found, Relation.TransGen.head'_iff]
  simp only [Leads, found, Option.some.injEq, exists_eq_left']

end Fragment

namespace Typing

/-- Inserting a name adds it and no other. -/
theorem mem_insertName {name other : String} : ∀ {names : List String},
    name ∈ insertName other names ↔ name = other ∨ name ∈ names
  | [] => by simp [insertName]
  | first :: rest => by
    unfold insertName
    split
    · simp
    · split
      · rename_i isFirst
        simp [isFirst]
      · simp [mem_insertName, or_left_comm]

/-- Sorting names keeps them. -/
theorem mem_sortedNames {name : String} {names : List String} :
    name ∈ sortedNames names ↔ name ∈ names := by
  induction names with
  | nil => simp [sortedNames]
  | cons first rest ih =>
    change name ∈ insertName first (sortedNames rest) ↔ _
    rw [mem_insertName, ih, List.mem_cons]

/-- No cycle is reported exactly if no fragment leads to itself. -/
theorem cycleProblems_eq_nil_iff {fragments : List Fragment} :
    cycleProblems fragments = [] ↔ Fragment.Acyclic fragments := by
  unfold cycleProblems Fragment.Acyclic
  rw [List.filterMap_eq_nil_iff]
  constructor
  · intro none name chain
    obtain ⟨fragment, found, _⟩ := (Relation.TransGen.head'_iff.mp chain).choose_spec.1
    have listed : name ∈ sortedNames (fragments.map (·.name)) := by
      rw [mem_sortedNames, ← Fragment.name_of_find? found]
      exact List.mem_map_of_mem (Fragment.mem_of_find? found)
    have clean := none name listed
    simp [found, (Fragment.spreadsItself_iff found).mpr chain] at clean
  · intro acyclic name _
    cases found : Fragment.find? fragments name with
    | none => rfl
    | some fragment =>
      simpa [found, Fragment.spreadsItself_iff found] using acyclic name

end Typing

namespace Document

/-- A document with no problems has no fragment that leads to itself. -/
theorem acyclic_of_problems {schema : Schema} {document : Document} {operation? : Option String}
    (none : document.problems schema operation? = []) : Fragment.Acyclic document.fragments := by
  unfold problems at none
  obtain ⟨first, _⟩ := List.append_eq_nil_iff.mp none
  exact Typing.cycleProblems_eq_nil_iff.mp (List.append_eq_nil_iff.mp first).2

end Document

end TraversalQuery
