import TraversalQuery.Proofs.Plan.Preservation
import TraversalQuery.Proofs.Planning.Sketch

/-!
# Plans and their sketches

A plan matches a sketch if it has a node for every entry, in the same order, and above each node the
one at the place above the entry. Edits of a plan match what is added to the sketch.
-/

namespace TraversalQuery

namespace Plan

variable {plan : Plan} {sketch : Sketch}

/-- A plan and a sketch with the same nodes in the same order, each below the same place. -/
structure Matches (plan : Plan) (sketch : Sketch) : Prop where
  sizes : plan.size = sketch.length
  nodes : ∀ {id : NodeId} {entry}, sketch[id]? = some entry →
    ∃ node, plan.node? id = some node ∧ node.bare = entry.node
  parents : ∀ {id : NodeId} {entry}, sketch[id]? = some entry →
    (plan.parent? id).bind (sketch.places[·]?) = entry.above?

namespace Matches

/-- The place of a number is that of its entry. -/
theorem places_getElem? {id : NodeId} {place : Place} (isPlace : sketch.places[id]? = some place) :
    ∃ entry, sketch[id]? = some entry ∧ entry.place = place := by
  rw [Sketch.places, List.getElem?_map] at isPlace
  exact Option.map_eq_some_iff.mp isPlace

theorem places_of_entry {id : NodeId} {entry : Entry} (found : sketch[id]? = some entry) :
    sketch.places[id]? = some entry.place := by
  rw [Sketch.places, List.getElem?_map, found, Option.map_some]

/-- No place has two nodes. -/
theorem unique (tidy : sketch.Tidy) {id other : NodeId} {place : Place}
    (first : sketch.places[id]? = some place) (second : sketch.places[other]? = some place) :
    id = other := by
  obtain ⟨inside, _⟩ := List.getElem?_eq_some_iff.mp first
  exact (List.getElem?_inj inside tidy.nodup).mp (first.trans second.symm)

/-- Places have their nodes in a plan that matches. -/
theorem lt_size (matched : plan.Matches sketch) {id : NodeId} {place : Place}
    (isPlace : sketch.places[id]? = some place) : id < plan.size := by
  rw [matched.sizes, ← Sketch.length_places]
  exact (List.getElem?_eq_some_iff.mp isPlace).1

/-- The node above is the one at the place above. -/
theorem parent? (matched : plan.Matches sketch) {id : NodeId} {entry : Entry}
    (found : sketch[id]? = some entry) {above : Place} (isAbove : entry.above? = some above) :
    ∃ parent, plan.parent? id = some parent ∧ sketch.places[parent]? = some above :=
  Option.bind_eq_some_iff.mp ((matched.parents found).trans isAbove)

/-- In a plan that matches, a node is below the one at the place above it. -/
theorem parent?_eq (matched : plan.Matches sketch) (tidy : sketch.Tidy) {id here : NodeId}
    {entry : Entry} (found : sketch[id]? = some entry) {above : Place}
    (isAbove : entry.above? = some above) (isPlace : sketch.places[here]? = some above) :
    plan.parent? id = some here := by
  obtain ⟨parent, link, at'⟩ := matched.parent? found isAbove
  rw [link, unique tidy at' isPlace]

/-- The parent of a node is at the place above it. -/
theorem above?_eq (matched : plan.Matches sketch) {id parent : NodeId} {entry : Entry}
    (found : sketch[id]? = some entry) (link : plan.parent? id = some parent) :
    entry.above? = sketch.places[parent]? := by
  rw [← matched.parents found, link, Option.bind_some]

/-- The node of a plan is a leaf exactly if its entry is one. -/
theorem isLeaf (matched : plan.Matches sketch) {id : NodeId} {entry : Entry} {node : Node}
    (found : sketch[id]? = some entry) (present : plan.node? id = some node) :
    node.isLeaf = entry.node.isLeaf := by
  obtain ⟨_, same, bare⟩ := matched.nodes found
  obtain rfl := Option.some.inj (present.symm.trans same)
  rw [← bare, Node.isLeaf_bare]

/-- Parents that stay are at the same places in a longer sketch. -/
theorem parents_append (matched : plan.Matches sketch) (formed : plan.WellFormed) {later : Sketch}
    (kept : ∃ more, later.places = sketch.places ++ more) {id : NodeId} {entry : Entry}
    (found : sketch[id]? = some entry) :
    (plan.parent? id).bind (later.places[·]?) = entry.above? := by
  rw [← matched.parents found]
  cases link : plan.parent? id with
  | none => rfl
  | some parent =>
    obtain ⟨more, same⟩ := kept
    have inside := formed.parent_lt_size link
    rw [matched.sizes, ← Sketch.length_places] at inside
    rw [Option.bind_some, Option.bind_some, same, List.getElem?_append_left inside]

/-- A plan still matches when a node is attached and its entry added. -/
theorem attach (matched : plan.Matches sketch) (formed : plan.WellFormed) {here : NodeId}
    {above : Place} (isPlace : sketch.places[here]? = some above) {node : Node}
    (unlinked : node.bare = node) {link : NodeId → Node → Node}
    (marks : ∀ id held, (link id held).bare = held.bare) (place : Place) :
    (plan.attach node here link).Matches (sketch ++ [⟨place, node, some above⟩]) where
  sizes := by rw [size_attach, List.length_append, List.length_singleton, matched.sizes]
  nodes := by
    intro id entry found
    rw [node?_attach _ _ _ (matched.lt_size isPlace)]
    have inside := (List.getElem?_eq_some_iff.mp found).1
    rw [List.length_append, List.length_singleton] at inside
    rcases Nat.lt_succ_iff_lt_or_eq.mp inside with old | rfl
    · rw [List.getElem?_append_left old] at found
      obtain ⟨held, present, same⟩ := matched.nodes found
      rw [if_neg (matched.sizes ▸ Nat.ne_of_lt old)]
      split
      · exact ⟨_, by rw [present, Option.map_some], (marks _ _).trans same⟩
      · exact ⟨held, present, same⟩
    · rw [List.getElem?_concat_length] at found
      obtain rfl := Option.some.inj found
      exact ⟨node, if_pos matched.sizes.symm, unlinked⟩
  parents := by
    intro id entry found
    rw [parent?_attach]
    have kept := Sketch.places_append sketch [⟨place, node, some above⟩]
    have inside := (List.getElem?_eq_some_iff.mp found).1
    rw [List.length_append, List.length_singleton] at inside
    rcases Nat.lt_succ_iff_lt_or_eq.mp inside with old | rfl
    · rw [List.getElem?_append_left old] at found
      rw [if_neg (matched.sizes ▸ Nat.ne_of_lt old)]
      exact matched.parents_append formed ⟨_, kept⟩ found
    · rw [List.getElem?_concat_length] at found
      obtain rfl := Option.some.inj found
      rw [if_pos matched.sizes.symm, Option.bind_some, kept, List.getElem?_append_left, isPlace]
      exact (List.getElem?_eq_some_iff.mp isPlace).1

/-- What a node that is no fan leads on to in the plan is what stands below its place in the sketch
and is no leaf. -/
theorem successor?_iff (matched : plan.Matches sketch) (formed : plan.WellFormed)
    (tidy : sketch.Tidy) {here : NodeId} {place : Place} {node : Node}
    (isPlace : sketch.places[here]? = some place) (noFan : ∀ key, place ≠ .fan key)
    (present : plan.node? here = some node) {id : NodeId} {entry : Entry}
    (found : sketch[id]? = some entry) :
    node.successor? = some id ↔ entry.above? = some place ∧ entry.node.isLeaf = false := by
  constructor
  · intro leads
    obtain ⟨link, below, isBelow, inner⟩ := formed.successor present leads
    exact ⟨(matched.above?_eq found link).trans isPlace, matched.isLeaf found isBelow ▸ inner⟩
  · rintro ⟨isAbove, inner⟩
    have link := matched.parent?_eq tidy found isAbove isPlace
    obtain ⟨below, isBelow, _⟩ := matched.nodes found
    have linear : node.isQuantifier = false := by
      obtain ⟨at', foundAt, rfl⟩ := places_getElem? isPlace
      obtain ⟨held, isHeld, same⟩ := matched.nodes foundAt
      obtain rfl := Option.some.inj (present.symm.trans isHeld)
      have fitting := tidy.fits at' (List.mem_of_getElem? foundAt)
      rw [← same] at fitting
      cases node with
      | quantifier =>
        cases fits : at'.place with
        | fan key => exact absurd fits (noFan key)
        | _ => rw [fits] at fitting; exact fitting.elim
      | _ => rfl
    have led := formed.leadsOn present linear link isBelow (matched.isLeaf found isBelow ▸ inner)
    obtain ⟨target, leads⟩ := Option.isSome_iff_exists.mp led
    -- Such a node leads on to one node only, so the child is that one.
    obtain ⟨link', below', isBelow', inner'⟩ := formed.successor present leads
    have inside := matched.sizes ▸ lt_size_of_node? isBelow'
    obtain ⟨other, foundOther⟩ : ∃ other, sketch[target]? = some other :=
      ⟨_, List.getElem?_eq_getElem inside⟩
    have isAbove' := (matched.above?_eq foundOther link').trans isPlace
    have same := (tidy.linear entry (List.mem_of_getElem? found) other
      (List.mem_of_getElem? foundOther) inner (matched.isLeaf foundOther isBelow' ▸ inner')
      (isAbove.trans isAbove'.symm)).resolve_right fun ⟨_, fan⟩ =>
        noFan _ (Option.some.inj (isAbove.symm.trans fan))
    rw [leads, unique tidy (places_of_entry foundOther) (same ▸ places_of_entry found)]

/-- Fanning out moves below the fan what the object led on to. -/
theorem splice (matched : plan.Matches sketch) (formed : plan.WellFormed) (tidy : sketch.Tidy)
    {here : NodeId} {key : String} (isPlace : sketch.places[here]? = some (.object key)) :
    (plan.splice .every here ((plan.node? here).bind Node.successor?)).Matches
      (sketch.spread key) := by
  obtain ⟨node, present⟩ := exists_node? (matched.lt_size isPlace)
  have leads {id : NodeId} {entry : Entry} (found : sketch[id]? = some entry) :=
    matched.successor?_iff formed tidy isPlace (fun _ => Place.noConfusion) present found
  rw [present, Option.bind_some]
  have sizes : (sketch.map (Sketch.rehome key)).length = sketch.length := List.length_map _
  have places := Sketch.places_spread sketch key
  have herePlace : (sketch.spread key).places[here]? = some (.object key) := by
    rw [places, List.getElem?_append_left (List.getElem?_eq_some_iff.mp isPlace).1, isPlace]
  have fanPlace : (sketch.spread key).places[plan.size]? = some (.fan key) := by
    rw [places, matched.sizes, ← Sketch.length_places, List.getElem?_concat_length]
  -- The parent of a node: the fan for what the object led on to, and the object for the fan.
  have parents (id : NodeId) : (plan.splice .every here node.successor?).parent? id =
      if node.successor? = some id then some plan.size
      else if id = plan.size then some here else plan.parent? id := by
    cases successor : node.successor? with
    | none => rw [parent?_splice_none, if_neg (Option.some_ne_none id).symm]
    | some moved =>
      rw [parent?_splice_some _ _ (formed.successor_lt_size present successor)]
      simp only [Option.some.injEq, eq_comm (a := id)]
  have noLink : node.successor? ≠ some plan.size := fun successor =>
    Nat.lt_irrefl _ (formed.successor_lt_size present successor)
  have cases' {id : NodeId} {entry : Entry} (found : (sketch.spread key)[id]? = some entry) :
      id = plan.size ∧ entry = Sketch.fanEntry key ∨
        id ≠ plan.size ∧ ∃ before, sketch[id]? = some before ∧
          entry = Sketch.rehome key before := by
    have inside := (List.getElem?_eq_some_iff.mp found).1
    rw [Sketch.spread, List.length_append, List.length_singleton, sizes] at inside
    rw [Sketch.spread] at found
    rcases Nat.lt_succ_iff_lt_or_eq.mp inside with old | rfl
    · rw [List.getElem?_append_left (sizes ▸ old), List.getElem?_map] at found
      obtain ⟨before, isBefore, rfl⟩ := Option.map_eq_some_iff.mp found
      exact .inr ⟨matched.sizes ▸ Nat.ne_of_lt old, before, isBefore, rfl⟩
    · rw [← sizes, List.getElem?_concat_length] at found
      exact .inl ⟨matched.sizes.symm, (Option.some.inj found).symm⟩
  constructor
  case sizes =>
    rw [size_splice, Sketch.spread, List.length_append, List.length_singleton, sizes,
      matched.sizes]
  case nodes =>
    intro id entry found
    rw [node?_splice _ _ (matched.lt_size isPlace)]
    rcases cases' found with ⟨rfl, rfl⟩ | ⟨old, before, isBefore, rfl⟩
    · exact ⟨_, if_pos rfl, rfl⟩
    · obtain ⟨held, isHeld, same⟩ := matched.nodes isBefore
      rw [if_neg old, Sketch.node_rehome]
      split
      · exact ⟨_, by rw [isHeld, Option.map_some], (Node.bare_followedBy _ _).trans same⟩
      · exact ⟨held, isHeld, same⟩
  case parents =>
    intro id entry found
    rw [parents]
    rcases cases' found with ⟨rfl, rfl⟩ | ⟨old, before, isBefore, rfl⟩
    · rw [if_neg noLink, if_pos rfl, Option.bind_some, herePlace]
      rfl
    · by_cases moves : node.successor? = some id
      · rw [if_pos moves, Option.bind_some, fanPlace, Sketch.rehome,
          if_pos ((leads isBefore).mp moves)]
      · rw [if_neg moves, if_neg old, Sketch.rehome,
          if_neg fun led => moves ((leads isBefore).mpr led)]
        exact matched.parents_append formed ⟨_, places⟩ isBefore

/-- A plan still matches when a group is attached and its entries added. -/
theorem attachGroup (matched : plan.Matches sketch) (formed : plan.WellFormed) {here : NodeId}
    {above : Place} (isPlace : sketch.places[here]? = some above) (key : String)
    (filter : PlannedFilter) :
    (plan.attachGroup filter.kind filter.fields here).Matches
      (sketch ++ Sketch.groupEntries key filter above) := by
  have inside := matched.lt_size isPlace
  have kept := Sketch.places_append sketch (Sketch.groupEntries key filter above)
  have groupPlace : (Sketch.places (sketch ++ Sketch.groupEntries key filter above))[plan.size]? =
      some (.group key) := by
    rw [kept, matched.sizes, ← Sketch.length_places,
      List.getElem?_append_right (Nat.le_refl _), Nat.sub_self]
    rfl
  -- An entry is one of before, the group, or one of its members.
  have cases' {id : NodeId} {entry : Entry}
      (found : (sketch ++ Sketch.groupEntries key filter above)[id]? = some entry) :
      id < plan.size ∧ sketch[id]? = some entry ∨
        id = plan.size ∧ entry = ⟨.group key, .group filter.kind [], some above⟩ ∨
          ∃ index field, id = plan.size + 1 + index ∧ filter.fields[index]? = some field ∧
            entry = ⟨.member key index, memberNode field, some (.group key)⟩ := by
    rcases Nat.lt_or_ge id sketch.length with old | new
    · rw [List.getElem?_append_left old] at found
      exact .inl ⟨matched.sizes ▸ old, found⟩
    · obtain ⟨offset, rfl⟩ := Nat.exists_eq_add_of_le new
      rw [List.getElem?_append_right new, Nat.add_sub_cancel_left, Sketch.groupEntries] at found
      cases offset with
      | zero => exact .inr (.inl ⟨matched.sizes.symm, (Option.some.inj found).symm⟩)
      | succ index =>
        rw [List.getElem?_cons_succ, Sketch.getElem?_memberEntries] at found
        obtain ⟨field, isField, rfl⟩ := Option.map_eq_some_iff.mp found
        refine .inr (.inr ⟨index, field, ?_, isField, by rw [Nat.zero_add]⟩)
        rw [matched.sizes, Nat.add_assoc, Nat.add_comm 1 index]
  constructor
  case sizes =>
    rw [size_attachGroup, List.length_append, Sketch.groupEntries, List.length_cons,
      Sketch.length_memberEntries, matched.sizes, Nat.add_assoc, Nat.add_comm 1]
  case nodes =>
    intro id entry found
    rcases cases' found with ⟨old, isEntry⟩ | ⟨rfl, rfl⟩ | ⟨index, field, rfl, isField, rfl⟩
    · obtain ⟨held, present, same⟩ := matched.nodes isEntry
      rw [node?_attachGroup_of_lt _ _ _ old]
      split
      · exact ⟨_, by rw [present, Option.map_some], (Node.bare_holding _ _).trans same⟩
      · exact ⟨held, present, same⟩
    · exact ⟨_, node?_attachGroup_self _ _ _ inside, rfl⟩
    · exact ⟨_, node?_attachGroup_member _ _ _ inside isField, rfl⟩
  case parents =>
    intro id entry found
    rcases cases' found with ⟨old, isEntry⟩ | ⟨rfl, rfl⟩ | ⟨index, field, rfl, isField, rfl⟩
    · rw [parent?_attachGroup_of_lt _ _ _ old]
      exact matched.parents_append formed ⟨_, kept⟩ isEntry
    · rw [parent?_attachGroup_self, Option.bind_some, kept, List.getElem?_append_left, isPlace]
      exact (List.getElem?_eq_some_iff.mp isPlace).1
    · rw [parent?_attachGroup_member _ _ _ isField, Option.bind_some, groupPlace]

end Matches

end Plan

end TraversalQuery
