import TraversalQuery.Proofs.Plan.Edits
import TraversalQuery.Proofs.Planning.Parts

/-!
# Sketches of plans

A sketch is a plan whose nodes are known by their places instead of by numbers. Fields are added to
it one by one as a planner adds them to a plan, but all a field needs to know is its own key in the
response and the key of the object around it.
-/

namespace TraversalQuery

/-- Where a node of a plan comes from: the object of a key or the field of a key. -/
inductive Place where
  | object (key : String)
  | fan (key : String)
  | relation (key : String)
  | property (key : String)
  | group (key : String)
  | member (key : String) (index : Nat)
deriving DecidableEq, Inhabited, Repr

namespace Place

/-- The key of the object or field that a place is about. -/
def key : Place → String
  | .object key => key
  | .fan key => key
  | .relation key => key
  | .property key => key
  | .group key => key
  | .member key _ => key

/-- The nodes that there are at a place. -/
def Fits : Place → Node → Prop
  | .object _, .start _ => True
  | .object _, .entity .. => True
  | .fan _, .quantifier .. => True
  | .relation _, .relation .. => True
  | .property _, .property _ => True
  | .group _, .group .. => True
  | .member .., .property _ => True
  | _, _ => False

/-- Whether the nodes at a place are leaves. -/
def isLeaf : Place → Bool
  | .property _ => true
  | .group _ => true
  | .member .. => true
  | _ => false

/-- The place of a node tells whether it is a leaf. -/
theorem isLeaf_of_fits {place : Place} {node : Node} (fits : place.Fits node) :
    node.isLeaf = place.isLeaf := by
  cases place <;> cases node <;> first | rfl | exact fits.elim

/-- Whether the nodes at a place are quantifiers. -/
def isFan : Place → Bool
  | .fan _ => true
  | _ => false

/-- The place of a node tells whether it is a quantifier. -/
theorem isQuantifier_of_fits {place : Place} {node : Node} (fits : place.Fits node) :
    node.isQuantifier = place.isFan := by
  cases place <;> cases node <;> first | rfl | exact fits.elim

end Place

/-- A node without its links, its place, and the place above it. -/
structure Entry where
  place : Place
  node : Node
  above? : Option Place
deriving DecidableEq, Inhabited, Repr

/-- A field as it is added to a sketch: its key, the key of the object around it, and what it is. -/
structure Mark where
  key : String
  around : String
  part : Part
deriving DecidableEq, Inhabited, Repr

/-- A plan whose nodes are known by their places. -/
abbrev Sketch := List Entry

namespace Sketch

/-- The key of the root of a response. -/
def rootKey : String := ResponsePath.root.positionKey

/-- The sketch of a plan that has nothing but its root. -/
def start : Sketch := [⟨.object rootKey, .start none, none⟩]

/-- The places of a sketch. -/
def places (sketch : Sketch) : List Place :=
  sketch.map Entry.place

/-- Where an object of a key fans out. -/
def fanEntry (key : String) : Entry :=
  ⟨.fan key, .quantifier .every [], some (.object key)⟩

/-- An entry after the object of a key fans out: what the object led on to comes below the fan. -/
def rehome (key : String) (entry : Entry) : Entry :=
  if entry.above? = some (.object key) ∧ entry.node.isLeaf = false then
    { entry with above? := some (.fan key) }
  else entry

/-- The sketch after the object of a key fans out. -/
def spread (sketch : Sketch) (key : String) : Sketch :=
  sketch.map (rehome key) ++ [fanEntry key]

/-- Whether the object of a key leads on to something. -/
def Leads (sketch : Sketch) (key : String) : Prop :=
  ∃ entry ∈ sketch, entry.above? = some (.object key) ∧ entry.node.isLeaf = false

instance (sketch : Sketch) (key : String) : Decidable (sketch.Leads key) :=
  inferInstanceAs (Decidable (∃ entry ∈ sketch, _))

/-- The sketch in which the fields of an object can fan out. The root waits for its second step. -/
def fanned (sketch : Sketch) (key : String) : Sketch :=
  if .fan key ∈ sketch.places ∨ key = rootKey ∧ ¬sketch.Leads rootKey then sketch
  else sketch.spread key

/-- Where the fields of an object go. -/
def anchor (sketch : Sketch) (key : String) : Place :=
  if .fan key ∈ sketch.places then .fan key else .object key

/-- The nodes of a field itself: the property it shows, or the steps to its object. -/
def ownEntries (key : String) (above : Place) : Part → Sketch
  | .shown property => [⟨.property key, .property property, some above⟩]
  | .entered none entity _ => [⟨.object key, .entity entity none, some above⟩]
  | .entered (some relation) entity _ =>
    [⟨.relation key, .relation relation none, some above⟩,
      ⟨.object key, .entity entity none, some (.relation key)⟩]

/-- The tested properties of a field from one on. -/
def memberEntries (key : String) : Nat → List (String × Option Constraint) → Sketch
  | _, [] => []
  | index, field :: rest =>
    ⟨.member key index, Plan.memberNode field, some (.group key)⟩ ::
      memberEntries key (index + 1) rest

/-- The filter of a field. -/
def groupEntries (key : String) (filter : PlannedFilter) (above : Place) : Sketch :=
  ⟨.group key, .group filter.kind [], some above⟩ :: memberEntries key 0 filter.fields

/-- The sketch with the filter of a field: below the place where the field was put if fields fan out
there, else below a fan of its own object. -/
def filtered (sketch : Sketch) (key : String) (filter : PlannedFilter) : Place → Sketch
  | .fan around => sketch ++ groupEntries key filter (.fan around)
  | _ => sketch.spread key ++ groupEntries key filter (.fan key)

/-- The sketch with one more field. -/
def add (sketch : Sketch) (mark : Mark) : Sketch :=
  let ready := sketch.fanned mark.around
  let above := ready.anchor mark.around
  let entered := ready ++ ownEntries mark.key above mark.part
  match mark.part.filter? with
  | none => entered
  | some filter => entered.filtered mark.key filter above

/-- The members of a group stand right after it, in their order. -/
def Grouped (places : List Place) : Prop :=
  ∀ ⦃place : Nat⦄ ⦃key index⦄, places[place]? = some (.group key) →
    .member key index ∈ places → places[place + 1 + index]? = some (.member key index)

/-- What is so in every sketch of a plan: each place has one node, which fits it, and is below
another place of the sketch; a node that is no fan leads on to at most one; and the members of a
group stand right after it. -/
structure Tidy (sketch : Sketch) : Prop where
  top : sketch.places[0]? = some (.object rootKey)
  nodup : sketch.places.Nodup
  fits : ∀ entry ∈ sketch, entry.place.Fits entry.node
  below : ∀ entry ∈ sketch, ∀ above, entry.above? = some above → above ∈ sketch.places
  linear : ∀ entry ∈ sketch, ∀ other ∈ sketch, entry.node.isLeaf = false →
    other.node.isLeaf = false → entry.above? = other.above? →
      entry.place = other.place ∨ ∃ key, entry.above? = some (.fan key)
  grouped : Grouped sketch.places

@[simp] theorem places_append (sketch more : Sketch) :
    Sketch.places (sketch ++ more) = sketch.places ++ more.places :=
  List.map_append

@[simp] theorem places_singleton (entry : Entry) : places [entry] = [entry.place] := rfl

@[simp] theorem length_places (sketch : Sketch) : sketch.places.length = sketch.length :=
  List.length_map _

theorem places_concat (sketch : Sketch) (entry : Entry) :
    (Sketch.places (sketch ++ [entry]))[sketch.length]? = some entry.place := by
  rw [places_append, ← length_places]
  exact List.getElem?_concat_length

/-- A place of a sketch is that of one of its entries. -/
theorem mem_places {sketch : Sketch} {place : Place} :
    place ∈ sketch.places ↔ ∃ entry ∈ sketch, entry.place = place :=
  List.mem_map

@[simp] theorem place_rehome (key : String) (entry : Entry) :
    (rehome key entry).place = entry.place := by
  unfold rehome
  split <;> rfl

@[simp] theorem node_rehome (key : String) (entry : Entry) :
    (rehome key entry).node = entry.node := by
  unfold rehome
  split <;> rfl

@[simp] theorem places_spread (sketch : Sketch) (key : String) :
    (sketch.spread key).places = sketch.places ++ [.fan key] := by
  have kept : places (sketch.map (rehome key)) = sketch.places := by
    rw [places, List.map_map]
    exact List.map_congr_left fun entry _ => place_rehome key entry
  rw [spread, places_append, places_singleton, kept, fanEntry]

/-- Where an object leads on to nothing, nothing is moved when it fans out. -/
theorem map_rehome {sketch : Sketch} {key : String} (idle : ¬sketch.Leads key) :
    sketch.map (rehome key) = sketch := by
  have still : ∀ entry ∈ sketch, rehome key entry = entry := fun entry member =>
    if_neg fun leads => idle ⟨entry, member, leads⟩
  rw [List.map_congr_left still, List.map_id'']
  exact fun _ => rfl

/-- An object that leads on to nothing fans out by one more entry. -/
theorem spread_eq_append {sketch : Sketch} {key : String} (idle : ¬sketch.Leads key) :
    sketch.spread key = sketch ++ [fanEntry key] := by
  rw [spread, map_rehome idle]

/-- The sketch that has nothing but its root is tidy. -/
theorem tidy_start : start.Tidy where
  top := rfl
  nodup := List.nodup_singleton _
  fits := List.forall_mem_singleton.mpr trivial
  below := List.forall_mem_singleton.mpr nofun
  linear := fun _ member _ member' _ _ _ => .inl (by
    rw [List.mem_singleton.mp member, List.mem_singleton.mp member'])
  grouped := fun _ _ _ isGroup _ =>
    absurd (List.mem_singleton.mp (List.mem_of_getElem? isGroup)) nofun

/-- Members still stand right after their groups with one more place. -/
theorem Grouped.push {places : List Place} (grouped : Grouped places) {place : Place}
    (group : ∀ {key}, place = .group key → ∀ index, .member key index ∉ places)
    (member : ∀ {key index}, place = .member key index → ∀ {before : Nat},
      places[before]? = some (.group key) → before + 1 + index = places.length) :
    Grouped (places ++ [place]) := by
  intro at' key index isGroup isMember
  have ends : (places ++ [place])[places.length]? = some place := List.getElem?_concat_length
  have inside := (List.getElem?_eq_some_iff.mp isGroup).1
  rw [List.length_append, List.length_singleton] at inside
  rcases Nat.lt_succ_iff_lt_or_eq.mp inside with old | rfl
  · rw [List.getElem?_append_left old] at isGroup
    rcases List.mem_append.mp isMember with present | new
    · have found := grouped isGroup present
      rwa [List.getElem?_append_left (List.getElem?_eq_some_iff.mp found).1]
    · have isNew : place = .member key index := (List.mem_singleton.mp new).symm
      rw [member isNew isGroup, ends, isNew]
  · have isNew := Option.some.inj (ends.symm.trans isGroup)
    rcases List.mem_append.mp isMember with present | new
    · exact absurd present (group isNew index)
    · rw [isNew] at new
      exact Place.noConfusion (List.mem_singleton.mp new)

/-- The root stays first when places are added. -/
theorem Tidy.top_append {sketch : Sketch} (tidy : sketch.Tidy) (more : List Place) :
    (sketch.places ++ more)[0]? = some (.object rootKey) := by
  rw [List.getElem?_append_left (List.getElem?_eq_some_iff.mp tidy.top).1, tidy.top]

/-- One more entry at a place of its own. -/
theorem Tidy.push {sketch : Sketch} (tidy : sketch.Tidy) (entry : Entry)
    (absent : entry.place ∉ sketch.places) (fits : entry.place.Fits entry.node)
    (below : ∀ above, entry.above? = some above → above ∈ sketch.places)
    (linear : entry.node.isLeaf = false → (∃ key, entry.above? = some (.fan key)) ∨
      ∀ other ∈ sketch, other.above? = entry.above? → other.node.isLeaf = true)
    (group : ∀ {key}, entry.place = .group key → ∀ index, .member key index ∉ sketch.places)
    (member : ∀ {key index}, entry.place = .member key index → ∀ {place},
      sketch.places[place]? = some (.group key) → place + 1 + index = sketch.length) :
    Tidy (sketch ++ [entry]) where
  top := by rw [places_append]; exact tidy.top_append _
  nodup := by
    rw [places_append]
    refine List.nodup_append.mpr ⟨tidy.nodup, List.nodup_singleton _, ?_⟩
    intro place present other isEntry same
    exact absent (List.mem_singleton.mp isEntry ▸ same ▸ present)
  fits := List.forall_mem_append.mpr ⟨tidy.fits, List.forall_mem_singleton.mpr fits⟩
  below := by
    rw [places_append]
    exact List.forall_mem_append.mpr
      ⟨fun other present above same => List.mem_append_left _ (tidy.below other present above same),
        List.forall_mem_singleton.mpr fun above same => List.mem_append_left _ (below above same)⟩
  linear := by
    have fresh (other : Entry) (present : other ∈ sketch) (inner : entry.node.isLeaf = false)
        (inner' : other.node.isLeaf = false) (same : other.above? = entry.above?) :
        ∃ key, entry.above? = some (.fan key) := by
      apply (linear inner).resolve_right
      intro leaves
      rw [leaves other present same] at inner'
      contradiction
    intro first isFirst second isSecond inner inner' same
    rcases List.mem_append.mp isFirst with old | new <;>
      rcases List.mem_append.mp isSecond with old' | new'
    · exact tidy.linear first old second old' inner inner' same
    · rw [List.mem_singleton.mp new'] at inner' same
      exact .inr (same ▸ fresh first old inner' inner same)
    · rw [List.mem_singleton.mp new] at inner same ⊢
      exact .inr (fresh second old' inner inner' same.symm)
    · rw [List.mem_singleton.mp new, List.mem_singleton.mp new']
      exact .inl rfl
  grouped := by
    rw [places_append]
    exact tidy.grouped.push group fun isMember _ isGroup => by
      rw [length_places]
      exact member isMember isGroup

/-- An object can fan out once. -/
theorem Tidy.spread {sketch : Sketch} (tidy : sketch.Tidy) {key : String}
    (present : .object key ∈ sketch.places) (absent : .fan key ∉ sketch.places) :
    (sketch.spread key).Tidy where
  top := by rw [places_spread]; exact tidy.top_append _
  nodup := by
    rw [places_spread]
    refine List.nodup_append.mpr ⟨tidy.nodup, List.nodup_singleton _, ?_⟩
    intro place old other isFan same
    exact absent (List.mem_singleton.mp isFan ▸ same ▸ old)
  fits := by
    refine List.forall_mem_append.mpr ⟨fun entry member => ?_,
      List.forall_mem_singleton.mpr trivial⟩
    obtain ⟨before, old, rfl⟩ := List.mem_map.mp member
    rw [place_rehome, node_rehome]
    exact tidy.fits before old
  below := by
    rw [places_spread]
    refine List.forall_mem_append.mpr ⟨fun entry member above same => ?_,
      List.forall_mem_singleton.mpr fun above same => ?_⟩
    · obtain ⟨before, old, rfl⟩ := List.mem_map.mp member
      unfold rehome at same
      split at same
      · rw [← Option.some.inj same]
        exact List.mem_append_right _ (List.mem_singleton_self _)
      · exact List.mem_append_left _ (tidy.below before old above same)
    · rw [← Option.some.inj same]
      exact List.mem_append_left _ present
  linear := by
    -- A node below the object is either a leaf or was moved below the fan.
    have still (entry : Entry) (old : entry ∈ sketch) (inner : entry.node.isLeaf = false) :
        (rehome key entry).above? ≠ some (.object key) ∧
          (rehome key entry = entry ∨ (rehome key entry).above? = some (.fan key)) := by
      unfold rehome
      split
      · exact ⟨fun same => Place.noConfusion (Option.some.inj same), .inr rfl⟩
      · rename_i stays
        exact ⟨fun same => stays ⟨same, inner⟩, .inl rfl⟩
    intro first isFirst second isSecond inner inner' same
    rcases List.mem_append.mp isFirst with old | new <;>
      rcases List.mem_append.mp isSecond with old' | new'
    · obtain ⟨before, isBefore, rfl⟩ := List.mem_map.mp old
      obtain ⟨before', isBefore', rfl⟩ := List.mem_map.mp old'
      rw [node_rehome] at inner inner'
      rcases (still before isBefore inner).2 with unmoved | moved
      · rcases (still before' isBefore' inner').2 with unmoved' | moved'
        · rw [unmoved, unmoved'] at same ⊢
          exact tidy.linear before isBefore before' isBefore' inner inner' same
        · exact .inr ⟨key, same.trans moved'⟩
      · exact .inr ⟨key, moved⟩
    · obtain ⟨before, isBefore, rfl⟩ := List.mem_map.mp old
      rw [node_rehome] at inner
      rw [List.mem_singleton.mp new'] at same
      exact absurd same (still before isBefore inner).1
    · obtain ⟨before, isBefore, rfl⟩ := List.mem_map.mp old'
      rw [node_rehome] at inner'
      rw [List.mem_singleton.mp new] at same
      exact absurd same.symm (still before isBefore inner').1
    · rw [List.mem_singleton.mp new, List.mem_singleton.mp new']
      exact .inl rfl
  grouped := by
    rw [places_spread]
    exact tidy.grouped.push nofun nofun

/-- Tested properties stand in their order. -/
theorem getElem?_memberEntries (key : String) (fields : List (String × Option Constraint)) :
    ∀ (start index : Nat), (memberEntries key start fields)[index]? =
      fields[index]?.map fun field =>
        ⟨.member key (start + index), Plan.memberNode field, some (.group key)⟩ := by
  induction fields with
  | nil => intro start index; rfl
  | cons field rest ih =>
    intro start index
    cases index with
    | zero => rfl
    | succ index =>
      rw [memberEntries, List.getElem?_cons_succ, List.getElem?_cons_succ, ih, Nat.add_assoc,
        Nat.add_comm 1 index]

@[simp] theorem length_memberEntries (key : String) (start : Nat)
    (fields : List (String × Option Constraint)) :
    (memberEntries key start fields).length = fields.length := by
  induction fields generalizing start with
  | nil => rfl
  | cons field rest ih => rw [memberEntries, List.length_cons, List.length_cons, ih]

/-- Nothing in the sketch is about the key. -/
def Fresh (sketch : Sketch) (key : String) : Prop :=
  ∀ place ∈ sketch.places, place.key ≠ key

/-- No place is about a fresh key. -/
theorem Fresh.absent {sketch : Sketch} (place : Place) (fresh : sketch.Fresh place.key) :
    place ∉ sketch.places :=
  fun present => fresh place present rfl

/-- The own nodes of a field are a property, or steps to a relation and an object. -/
theorem mem_places_own {key : String} {above : Place} {part : Part} {place : Place}
    (member : place ∈ (ownEntries key above part).places) :
    place = .property key ∨ place = .relation key ∨ place = .object key := by
  rcases part with property | ⟨_ | relation, entity, filter?⟩
  · exact .inl (List.mem_singleton.mp member)
  · exact .inr (.inr (List.mem_singleton.mp member))
  · exact .inr (List.mem_pair.mp member)

/-- No fan is among the nodes of a field itself. -/
theorem fan_not_mem_own {key other : String} {above : Place} {part : Part} :
    .fan other ∉ (ownEntries key above part).places :=
  fun member => by rcases mem_places_own member with same | same | same <;> contradiction

/-- The own nodes of a field are the object of no other key. -/
theorem object_not_mem_own {key other : String} (different : other ≠ key) {above : Place}
    {part : Part} : .object other ∉ (ownEntries key above part).places := by
  intro member
  rcases mem_places_own member with same | same | same
  · contradiction
  · contradiction
  · exact different (Place.object.inj same)

/-- The own nodes of a new field are at no place of a group, a member or a fan. -/
theorem Fresh.not_mem_own {sketch : Sketch} {key : String} (fresh : sketch.Fresh key)
    (place : Place) {above : Place} {part : Part} (ofKey : place.key = key)
    (notProperty : place ≠ .property key)
    (notRelation : place ≠ .relation key) (notObject : place ≠ .object key) :
    place ∉ Sketch.places (sketch ++ ownEntries key above part) := by
  rw [places_append]
  intro member
  rcases List.mem_append.mp member with old | new
  · exact fresh place old ofKey
  · rcases mem_places_own new with same | same | same
    · exact notProperty same
    · exact notRelation same
    · exact notObject same

/-- The object of a field does not fan out at first. -/
theorem anchor_own {sketch : Sketch} {key : String} (fresh : sketch.Fresh key) (above : Place)
    (part : Part) : anchor (sketch ++ ownEntries key above part) key = .object key :=
  if_neg (fresh.not_mem_own (.fan key) rfl nofun nofun nofun)

theorem mem_places_members {key : String} {fields : List (String × Option Constraint)}
    {start : Nat} {place : Place} (member : place ∈ (memberEntries key start fields).places) :
    ∃ index, place = .member key index := by
  obtain ⟨entry, isEntry, rfl⟩ := mem_places.mp member
  obtain ⟨index, found⟩ := List.getElem?_of_mem isEntry
  rw [getElem?_memberEntries] at found
  obtain ⟨_, _, rfl⟩ := Option.map_eq_some_iff.mp found
  exact ⟨start + index, rfl⟩

/-- The nodes of a filter are a group and its members. -/
theorem mem_places_group {key : String} {filter : PlannedFilter} {above place : Place}
    (member : place ∈ (groupEntries key filter above).places) :
    place = .group key ∨ ∃ index, place = .member key index :=
  (List.mem_cons.mp member).imp id mem_places_members

/-- Where the fields of an object go: below a fan, or right below the root until it leads on. -/
theorem fanned_cases (sketch : Sketch) (key : String) :
    (sketch.fanned key).anchor key = .fan key ∧ .fan key ∈ (sketch.fanned key).places ∨
      (sketch.fanned key).anchor key = .object key ∧ sketch.fanned key = sketch ∧
        key = rootKey ∧ ¬sketch.Leads key := by
  unfold fanned
  split
  · rename_i settled
    by_cases fans : .fan key ∈ sketch.places
    · exact .inl ⟨if_pos fans, fans⟩
    · obtain ⟨rfl, idle⟩ := settled.resolve_left fans
      exact .inr ⟨if_neg fans, rfl, rfl, idle⟩
  · have fans : .fan key ∈ (sketch.spread key).places := by
      rw [places_spread]
      exact List.mem_append_right _ (List.mem_singleton_self _)
    exact .inl ⟨if_pos fans, fans⟩

/-- Fanning out adds no place but the fan. -/
theorem mem_places_fanned {sketch : Sketch} {key : String} {place : Place}
    (member : place ∈ (sketch.fanned key).places) : place ∈ sketch.places ∨ place = .fan key := by
  unfold fanned at member
  split at member
  · exact .inl member
  · rw [places_spread] at member
    exact (List.mem_append.mp member).imp id List.mem_singleton.mp

/-- Fanning out keeps all places. -/
theorem places_subset_fanned (sketch : Sketch) (key : String) :
    sketch.places ⊆ (sketch.fanned key).places := by
  unfold fanned
  split
  · exact List.Subset.refl _
  · rw [places_spread]
    exact List.subset_append_left _ _

/-- A key stays fresh when the object of another one fans out. -/
theorem Fresh.fanned {sketch : Sketch} {key other : String} (fresh : sketch.Fresh key)
    (different : other ≠ key) : (sketch.fanned other).Fresh key := by
  intro place member
  rcases mem_places_fanned member with old | rfl
  · exact fresh place old
  · exact different

/-- A filter adds only places of its key. -/
theorem mem_places_filtered {sketch : Sketch} {key : String} {filter : PlannedFilter}
    {above place : Place} (member : place ∈ (sketch.filtered key filter above).places) :
    place ∈ sketch.places ∨ place.key = key := by
  have grouped {above : Place} (member : place ∈ (groupEntries key filter above).places) :
      place.key = key := by
    rcases mem_places_group member with rfl | ⟨_, rfl⟩ <;> rfl
  unfold filtered at member
  split at member
  · rw [places_append] at member
    exact (List.mem_append.mp member).imp id grouped
  · rw [places_append, places_spread] at member
    rcases List.mem_append.mp member with member | new
    · exact (List.mem_append.mp member).imp id fun fan => by rw [List.mem_singleton.mp fan]; rfl
    · exact .inr (grouped new)

/-- A field adds nodes of its own, and a fan to the object around it. -/
theorem mem_places_add {sketch : Sketch} {mark : Mark} {place : Place}
    (member : place ∈ (sketch.add mark).places) :
    place ∈ sketch.places ∨ place.key = mark.key ∨ place = .fan mark.around := by
  have entered (member : place ∈ Sketch.places (sketch.fanned mark.around ++ ownEntries mark.key
      ((sketch.fanned mark.around).anchor mark.around) mark.part)) :
      place ∈ sketch.places ∨ place.key = mark.key ∨ place = .fan mark.around := by
    rw [places_append] at member
    rcases List.mem_append.mp member with old | new
    · exact (mem_places_fanned old).imp id .inr
    · rcases mem_places_own new with rfl | rfl | rfl <;> exact .inr (.inl rfl)
  unfold add at member
  dsimp only at member
  split at member
  · exact entered member
  · exact (mem_places_filtered member).elim entered fun isKey => .inr (.inl isKey)

/-- Adding a field adds its own nodes after its object has fanned out. -/
theorem places_subset_add (sketch : Sketch) (mark : Mark) :
    (sketch.fanned mark.around ++ ownEntries mark.key ((sketch.fanned mark.around).anchor
      mark.around) mark.part : Sketch).places ⊆ (sketch.add mark).places := by
  unfold add
  dsimp only
  split
  · exact List.Subset.refl _
  · unfold filtered
    split
    · rw [places_append _ (groupEntries ..)]
      exact List.subset_append_left _ _
    · rw [places_append _ (groupEntries ..), places_spread]
      exact List.Subset.trans (List.subset_append_left _ _) (List.subset_append_left _ _)

/-- The fields of an object go to a place of the sketch. -/
theorem anchor_mem {sketch : Sketch} {key : String} (present : .object key ∈ sketch.places) :
    sketch.anchor key ∈ sketch.places := by
  unfold anchor
  split
  · assumption
  · exact present

namespace Tidy

variable {sketch : Sketch}

/-- A step or a property, below a fan or a place that leads on to nothing yet. -/
theorem step (tidy : sketch.Tidy) {place above : Place} (node : Node)
    (absent : place ∉ sketch.places) (fits : place.Fits node) (present : above ∈ sketch.places)
    (room : (∃ around, above = .fan around) ∨
      ∀ other ∈ sketch, other.above? = some above → other.node.isLeaf = true)
    (noGroup : ∀ {key}, place ≠ .group key) (noMember : ∀ {key index}, place ≠ .member key index) :
    Tidy (sketch ++ [⟨place, node, some above⟩]) :=
  tidy.push _ absent fits (fun _ same => Option.some.inj same ▸ present)
    (fun _ => room.imp (fun ⟨around, same⟩ => ⟨around, congrArg some same⟩) id)
    (fun same => absurd same noGroup) (fun same => absurd same noMember)

/-- The object of a field, after a step to its relation. -/
theorem stepOver (tidy : sketch.Tidy) {key : String} (fresh : sketch.Fresh key) {above : Place}
    (present : above ∈ sketch.places) (relation : RelationStep) (entity : EntityStep)
    (stepped : Tidy (sketch ++ [⟨.relation key, .relation relation none, some above⟩])) :
    Tidy (sketch ++ [⟨.relation key, .relation relation none, some above⟩] ++
      [⟨.object key, .entity entity none, some (.relation key)⟩]) := by
  refine stepped.step _ ?_ trivial ?_ (.inr fun other member same => ?_) nofun nofun
  · rw [places_append]
    exact fun member => (List.mem_append.mp member).elim
      (Fresh.absent (.object key) fresh) fun new =>
        Place.noConfusion (List.mem_singleton.mp new)
  · rw [places_append]
    exact List.mem_append_right _ (List.mem_singleton_self _)
  · rcases List.mem_append.mp member with old | new
    · exact absurd (tidy.below other old _ same) (Fresh.absent (.relation key) fresh)
    · rw [List.mem_singleton.mp new] at same
      rw [Option.some.inj same] at present
      exact absurd present (Fresh.absent (.relation key) fresh)

/-- Members one after another, of a group that stands right before them. -/
theorem members (fields : List (String × Option Constraint)) :
    ∀ {sketch : Sketch} {key : String} {index : Nat}, sketch.Tidy →
      .group key ∈ sketch.places →
      (∀ {group : Nat}, sketch.places[group]? = some (.group key) →
        group + 1 + index = sketch.length) →
      (∀ later, index ≤ later → .member key later ∉ sketch.places) →
      Tidy (sketch ++ memberEntries key index fields) := by
  induction fields with
  | nil =>
    intro sketch key index tidy _ _ _
    rw [memberEntries, List.append_nil]
    exact tidy
  | cons field rest ih =>
    intro sketch key index tidy present last absent
    have one := tidy.push
      ⟨.member key index, Plan.memberNode field, some (.group key)⟩
      (absent index (Nat.le_refl _)) trivial (fun _ same => Option.some.inj same ▸ present) nofun
      nofun ?_
    · rw [memberEntries, List.append_cons]
      refine ih one ?_ ?_ ?_
      · rw [places_append]
        exact List.mem_append_left _ present
      · intro group isGroup
        rw [places_append] at isGroup
        have inside := (List.getElem?_eq_some_iff.mp isGroup).1
        rw [List.length_append, places_singleton, List.length_singleton] at inside
        rcases Nat.lt_succ_iff_lt_or_eq.mp inside with old | rfl
        · rw [List.getElem?_append_left old] at isGroup
          rw [List.length_append, List.length_singleton, ← last isGroup, Nat.add_assoc _ index 1]
        · rw [places_singleton, List.getElem?_concat_length] at isGroup
          exact Place.noConfusion (Option.some.inj isGroup)
      · intro later beyond
        rw [places_append]
        refine fun member => (List.mem_append.mp member).elim
          (absent later (Nat.le_of_succ_le beyond)) fun new => ?_
        have same := (Place.member.inj (List.mem_singleton.mp new)).2
        exact absurd beyond (same ▸ Nat.not_succ_le_self later)
    · intro key' index' same place isGroup
      obtain ⟨rfl, rfl⟩ := Place.member.inj same
      exact last isGroup

/-- A group with its members, where nothing is yet about the filter of the field. -/
theorem groups (tidy : sketch.Tidy) {key : String} (filter : PlannedFilter) {above : Place}
    (present : above ∈ sketch.places) (noGroup : .group key ∉ sketch.places)
    (noMember : ∀ index, .member key index ∉ sketch.places) :
    Tidy (sketch ++ groupEntries key filter above) := by
  have one := tidy.push (⟨.group key, .group filter.kind [], some above⟩) noGroup trivial
    (fun _ same => Option.some.inj same ▸ present) nofun
    (fun same index => Place.group.inj same ▸ noMember index) nofun
  rw [groupEntries, List.append_cons]
  refine members filter.fields one ?_ ?_ ?_
  · rw [places_append]
    exact List.mem_append_right _ (List.mem_singleton_self _)
  · intro group isGroup
    have here : Sketch.places (sketch ++ [⟨.group key, .group filter.kind [], some above⟩])
        = sketch.places ++ [.group key] := places_append _ _
    rw [here] at isGroup
    have inside := (List.getElem?_eq_some_iff.mp isGroup).1
    rw [List.length_append, List.length_singleton] at inside
    rcases Nat.lt_succ_iff_lt_or_eq.mp inside with old | rfl
    · rw [List.getElem?_append_left old] at isGroup
      exact absurd (List.mem_of_getElem? isGroup) noGroup
    · rw [length_places, List.length_append, List.length_singleton]
  · intro later _
    rw [places_append]
    exact fun member => (List.mem_append.mp member).elim (noMember later) fun new =>
      Place.noConfusion (List.mem_singleton.mp new)

end Tidy

end Sketch

end TraversalQuery
