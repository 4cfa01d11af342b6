import TraversalQuery.Proofs.Planning.Legality
import TraversalQuery.Proofs.Planning.Matches

/-!
# Planners follow sketches

Along a walk a planner adds to its plan what the fields add to a sketch, in the same order. It is
invisible in the sketch in which order that happens otherwise: the numbers of nodes, the cursor and
the notes of the planner all follow from it.
-/

namespace TraversalQuery

namespace Planner

open Builder (capacity)

variable {planner after : Planner} {sketch later : Sketch}

/-- A planner whose plan matches a sketch. -/
structure Draws (planner : Planner) (sketch : Sketch) : Prop where
  running : planner.builder.Running
  tidy : sketch.Tidy
  matched : planner.builder.plan.Matches sketch

/-- What a planner has noted for a path is where the fields of the object of its key go. -/
def NotesAt (planner : Planner) (sketch : Sketch) (path : ResponsePath) : Prop :=
  ∀ id, planner.position? path = some id ↔
    sketch.places[id]? = some (sketch.anchor path.positionKey)

/-- A planner with a sketch: its plan matches, and its notes are right. -/
structure Follows (planner : Planner) (sketch : Sketch) : Prop extends Draws planner sketch where
  notes : ∀ path, planner.NotesAt sketch path

/-- Notes stay right when nothing is added at their path. -/
theorem NotesAt.append {path : ResponsePath} (notes : planner.NotesAt sketch path)
    {more : List Place} (places : later.places = sketch.places ++ more)
    (noObject : .object path.positionKey ∉ more) (noFan : .fan path.positionKey ∉ more) :
    planner.NotesAt later path := by
  have anchors : later.anchor path.positionKey = sketch.anchor path.positionKey := by
    unfold Sketch.anchor
    rw [places]
    simp only [List.mem_append, noFan, or_false]
  have absent : sketch.anchor path.positionKey ∉ more := by
    unfold Sketch.anchor
    split
    · exact noFan
    · exact noObject
  intro id
  rw [notes id, anchors, places]
  rcases Nat.lt_or_ge id sketch.places.length with old | new
  · rw [List.getElem?_append_left old]
  · rw [List.getElem?_append_right new, List.getElem?_eq_none new]
    exact ⟨nofun, fun found => absurd (List.mem_of_getElem? found) absent⟩

/-- Notes stay right when one is made of a new place, and nothing new concerns the others. -/
theorem notesAt_record (notes : ∀ path, planner.NotesAt sketch path) {more : List Place}
    (places : later.places = sketch.places ++ more) (nodup : later.places.Nodup)
    (path : ResponsePath) {id : NodeId}
    (isPlace : later.places[id]? = some (later.anchor path.positionKey))
    (others : ∀ key, key ≠ path.positionKey → .object key ∉ more ∧ .fan key ∉ more) :
    ∀ other, NotesAt { planner with positions := planner.positions.set path id } later other := by
  intro other
  by_cases same : other.positionKey = path.positionKey
  · intro found
    rw [position?_record, if_pos same, same]
    constructor
    · intro isId
      rw [← Option.some.inj isId]
      exact isPlace
    · intro at'
      have inside := (List.getElem?_eq_some_iff.mp isPlace).1
      rw [(List.getElem?_inj inside nodup).mp (isPlace.trans at'.symm)]
  · have kept := (notes other).append places (others _ same).1 (others _ same).2
    intro found
    rw [position?_record, if_neg same]
    exact kept found

/-- Notes stay right as long as they are kept. -/
theorem NotesAt.of_positions {path : ResponsePath} (notes : planner.NotesAt sketch path)
    (kept : after.positions = planner.positions) : after.NotesAt sketch path := by
  intro id
  rw [← notes id, position?, position?, kept]

/-- A planner that notes a new place. -/
theorem Draws.recorded (draws : planner.Draws later) (notes : ∀ path, planner.NotesAt sketch path)
    {more : List Place} (places : later.places = sketch.places ++ more) {path : ResponsePath}
    {id : NodeId} (isPlace : later.places[id]? = some (later.anchor path.positionKey))
    (others : ∀ key, key ≠ path.positionKey → .object key ∉ more ∧ .fan key ∉ more)
    (ran : (record path id).on planner = (.ok (), after)) : after.Follows later := by
  cases ran
  exact ⟨⟨draws.running, draws.tidy, draws.matched⟩,
    notesAt_record notes places draws.tidy.nodup path isPlace others⟩

/-- An operation of the builder that succeeds changes only the builder. -/
theorem of_on_building {α : Type} {operation : Build α} {value : α}
    (ran : (building operation).on planner = (.ok value, after)) :
    ∃ builder, operation.on planner.builder = (.ok value, builder) ∧
      after = { planner with builder := builder } := by
  rw [on_building] at ran
  rcases came : operation.on planner.builder with ⟨error | value', builder⟩
  · rw [came] at ran
    cases ran
  · rw [came] at ran
    obtain ⟨same, rfl⟩ := Prod.mk.inj ran
    obtain rfl := Except.ok.inj same
    exact ⟨builder, rfl, rfl⟩

/-- Moving changes nothing but the cursor. -/
theorem of_on_moveTo {id : NodeId}
    (ran : (building (Builder.moveTo id)).on planner = (.ok (), after)) :
    after = { planner with builder := { planner.builder with cursor? := some id } } := by
  obtain ⟨builder, came, rfl⟩ := of_on_building ran
  rw [Builder.on_moveTo] at came
  split at came
  · cases came
  · split at came
    · cases came
    · rw [← (Prod.mk.inj came).2]

/-- Moving the cursor leaves the plan. -/
theorem Draws.moved (draws : planner.Draws sketch) {id : NodeId} {place : Place}
    (isPlace : sketch.places[id]? = some place) :
    Draws { planner with builder := { planner.builder with cursor? := some id } } sketch where
  running := ⟨draws.running.formed, id, rfl, draws.matched.lt_size isPlace⟩
  tidy := draws.tidy
  matched := draws.matched

/-- An entry of a place, with its node in the plan. -/
theorem Draws.node (draws : planner.Draws sketch) {id : NodeId} {place : Place}
    (isPlace : sketch.places[id]? = some place) :
    ∃ entry node, sketch[id]? = some entry ∧ entry.place = place ∧
      planner.builder.plan.node? id = some node ∧ node.bare = entry.node ∧
        place.Fits node := by
  obtain ⟨entry, found, rfl⟩ := Plan.Matches.places_getElem? isPlace
  obtain ⟨node, present, same⟩ := draws.matched.nodes found
  refine ⟨entry, node, found, rfl, present, same, ?_⟩
  have fits := draws.tidy.fits entry (List.mem_of_getElem? found)
  rw [← same] at fits
  cases place : entry.place <;> rw [place] at fits <;> cases node <;> exact fits

/-- Something can be put below an object, a fan or a relation. -/
theorem Draws.opened (draws : planner.Draws sketch) {id : NodeId} {place : Place}
    (isPlace : sketch.places[id]? = some place) (inner : place.isLeaf = false) :
    planner.builder.plan.Open id := by
  obtain ⟨_, node, _, _, present, _, fits⟩ := draws.node isPlace
  exact ⟨node, present, (Place.isLeaf_of_fits fits).trans inner⟩

/-- Where a quantifier is put, the object fans out. -/
theorem Draws.spread (draws : planner.Draws sketch) {here : NodeId} {key : String}
    (placed : planner.builder.cursor? = some here)
    (isPlace : sketch.places[here]? = some (.object key)) (absent : .fan key ∉ sketch.places)
    {id : NodeId} (ran : (building (Builder.addQuantifier .every)).on planner = (.ok id, after)) :
    after.Draws (sketch.spread key) ∧ after.positions = planner.positions ∧
      (sketch.spread key).places[id]? = some (.fan key) := by
  have isOpen := draws.opened isPlace rfl
  obtain ⟨builder, came, rfl⟩ := of_on_building ran
  obtain ⟨running, _, _⟩ :=
    (Builder.legal_addQuantifier draws.running placed isOpen .every).of_ok came
  rw [Builder.on_addQuantifier, Builder.target_of_open _ _ placed isOpen] at came
  dsimp only at came
  split at came
  · obtain ⟨isId, isBuilder⟩ := Prod.mk.inj came
    obtain rfl := Except.ok.inj isId
    refine ⟨⟨running, draws.tidy.spread (List.mem_of_getElem? isPlace) absent, ?_⟩, rfl, ?_⟩
    · rw [← isBuilder]
      exact draws.matched.splice draws.running.formed draws.tidy isPlace
    · rw [Sketch.places_spread, draws.matched.sizes, ← Sketch.length_places,
        List.getElem?_concat_length]
  · cases came

/-- An object leads on to nothing as long as its node does. -/
theorem Draws.leads_iff (draws : planner.Draws sketch) {here : NodeId} {key : String} {node : Node}
    (isPlace : sketch.places[here]? = some (.object key))
    (present : planner.builder.plan.node? here = some node) :
    sketch.Leads key ↔ node.next.isEmpty = false := by
  obtain ⟨_, node', _, _, present', _, fits⟩ := draws.node isPlace
  obtain rfl := Option.some.inj (present'.symm.trans present)
  have nexts : node'.next.isEmpty = false ↔ ∃ id, node'.successor? = some id := by
    cases node' with
    | start next? => cases next? <;> simp [Node.next, Node.successor?]
    | entity step next? => cases next? <;> simp [Node.next, Node.successor?]
    | _ => exact fits.elim
  rw [nexts]
  constructor
  · rintro ⟨entry, member, leads⟩
    obtain ⟨id, found⟩ := List.getElem?_of_mem member
    exact ⟨id, (draws.matched.successor?_iff draws.running.formed draws.tidy isPlace
      (fun _ => Place.noConfusion) present found).mpr leads⟩
  · rintro ⟨id, leads⟩
    obtain ⟨_, below, isBelow, _⟩ := draws.running.formed.successor present leads
    have inside := draws.matched.sizes ▸ Plan.lt_size_of_node? isBelow
    have found := List.getElem?_eq_getElem inside
    exact ⟨_, List.getElem_mem inside, (draws.matched.successor?_iff draws.running.formed draws.tidy
      isPlace (fun _ => Place.noConfusion) present found).mp leads⟩

/-- What a planner has noted is where the fields of an object go. -/
theorem Follows.position? (follows : planner.Follows sketch) {path : ResponsePath}
    (present : .object path.positionKey ∈ sketch.places) :
    ∃ here, planner.position? path = some here ∧
      sketch.places[here]? = some (sketch.anchor path.positionKey) := by
  obtain ⟨here, isPlace⟩ := List.getElem?_of_mem (Sketch.anchor_mem present)
  exact ⟨here, (follows.notes path here).mpr isPlace, isPlace⟩

/-- A planner that fans out follows the sketch that does. -/
theorem follows_fanOut (follows : planner.Follows sketch) {path : ResponsePath} {atRoot : Bool}
    (present : .object path.positionKey ∈ sketch.places)
    (root : atRoot = true ↔ path.positionKey = Sketch.rootKey)
    (ran : (fanOut path atRoot).on planner = (.ok (), after)) :
    after.Follows (sketch.fanned path.positionKey) := by
  obtain ⟨here, isHere, isPlace⟩ := follows.position? present
  obtain ⟨entry, node, found, isEntry, isNode, same, fits⟩ := follows.node isPlace
  obtain ⟨_, _, looked, ran⟩ := ExceptT.of_on_bind ran
  cases looked
  rw [isHere] at ran
  dsimp only at ran
  rw [isNode] at ran
  dsimp only at ran
  by_cases fans : .fan path.positionKey ∈ sketch.places
  · -- The object fans out already, and the note leads to its fan.
    have isAnchor : sketch.anchor path.positionKey = .fan path.positionKey := if_pos fans
    rw [isAnchor] at fits
    have isFan : node.isQuantifier = true := Place.isQuantifier_of_fits fits
    rw [isFan, Bool.true_or, if_pos rfl] at ran
    cases ran
    rwa [Sketch.fanned, if_pos (.inl fans)]
  · have isAnchor : sketch.anchor path.positionKey = .object path.positionKey := if_neg fans
    rw [isAnchor] at fits isPlace
    have noFan : node.isQuantifier = false := Place.isQuantifier_of_fits fits
    have leads := follows.leads_iff isPlace isNode
    rw [noFan, Bool.false_or] at ran
    split at ran
    · rename_i waits
      obtain ⟨isRoot, idle⟩ := Bool.and_eq_true_iff.mp waits
      have idle' : ¬sketch.Leads Sketch.rootKey := by
        rw [← root.mp isRoot, leads, idle]
        exact Bool.noConfusion
      cases ran
      rwa [Sketch.fanned, if_pos (.inr ⟨root.mp isRoot, idle'⟩)]
    · rename_i goesOn
      obtain ⟨_, moved, ranMove, ran⟩ := ExceptT.of_on_bind ran
      obtain rfl := of_on_moveTo ranMove
      obtain ⟨id, between, ranAdd, ran⟩ := ExceptT.of_on_bind ran
      obtain ⟨draws, kept, isNew⟩ := (follows.moved isPlace).spread rfl isPlace fans ranAdd
      rw [Sketch.fanned, if_neg]
      · refine draws.recorded (fun path => (follows.notes path).of_positions kept)
          (Sketch.places_spread _ _) ?_ (fun key other => ⟨?_, ?_⟩) ran
        · rw [isNew, Sketch.anchor, if_pos (List.mem_of_getElem? isNew)]
        · exact fun member => Place.noConfusion (List.mem_singleton.mp member)
        · exact fun member => other (Place.fan.inj (List.mem_singleton.mp member))
      · rintro (fans' | ⟨isRoot, idle⟩)
        · exact fans fans'
        · rw [← isRoot, leads, Bool.not_eq_false] at idle
          exact goesOn (by rw [root.mpr isRoot, idle]; rfl)

/-- A step is put below the cursor. -/
theorem Draws.entered (draws : planner.Draws sketch) {here : NodeId} {above : Place}
    (placed : planner.builder.cursor? = some here) (isPlace : sketch.places[here]? = some above)
    (inner : above.isLeaf = false) {call : BuilderCall} {place : Place} {node : Node}
    (unlinked : node.bare = node) (inner' : node.isLeaf = false) (notStart : node.isStart = false)
    (tidy : Sketch.Tidy (sketch ++ [⟨place, node, some above⟩])) {id : NodeId}
    (ran : (building (Builder.enter call node)).on planner = (.ok id, after)) :
    after.Draws (sketch ++ [⟨place, node, some above⟩]) ∧
      after.positions = planner.positions ∧ after.builder.cursor? = some id ∧
        id = sketch.length := by
  have isOpen := draws.opened isPlace inner
  obtain ⟨builder, came, rfl⟩ := of_on_building ran
  obtain ⟨running, _, _⟩ := (Builder.legal_enter draws.running call placed isOpen unlinked inner'
    notStart).of_ok came
  rw [Builder.on_enter, Builder.target_of_open _ _ placed isOpen] at came
  dsimp only at came
  split at came
  · obtain ⟨isId, isBuilder⟩ := Prod.mk.inj came
    obtain rfl := Except.ok.inj isId
    refine ⟨⟨running, tidy, ?_⟩, rfl, by rw [← isBuilder], draws.matched.sizes⟩
    rw [← isBuilder]
    exact draws.matched.attach draws.running.formed isPlace unlinked Node.bare_followedBy place
  · cases came

/-- A property is put below the cursor. -/
theorem Draws.shown (draws : planner.Draws sketch) {here : NodeId} {above : Place}
    (placed : planner.builder.cursor? = some here) (isPlace : sketch.places[here]? = some above)
    (inner : above.isLeaf = false) {place : Place} {property : Property}
    (tidy : Sketch.Tidy (sketch ++ [⟨place, .property property, some above⟩])) {id : NodeId}
    (ran : (building (Builder.addProperty property)).on planner = (.ok id, after)) :
    after.Draws (sketch ++ [⟨place, .property property, some above⟩]) ∧
      after.positions = planner.positions := by
  have isOpen := draws.opened isPlace inner
  obtain ⟨builder, came, rfl⟩ := of_on_building ran
  obtain ⟨running, _, _⟩ := (Builder.legal_addProperty draws.running placed isOpen property).of_ok
    came
  rw [Builder.on_addProperty, Builder.target_of_open _ _ placed isOpen] at came
  dsimp only at came
  split at came
  · obtain ⟨_, isBuilder⟩ := Prod.mk.inj came
    refine ⟨⟨running, tidy, ?_⟩, rfl⟩
    rw [← isBuilder]
    exact draws.matched.attach draws.running.formed isPlace rfl Node.bare_holding place
  · cases came

/-- A group is put below the cursor. -/
theorem Draws.grouped (draws : planner.Draws sketch) {here : NodeId} {above : Place}
    (placed : planner.builder.cursor? = some here) (isPlace : sketch.places[here]? = some above)
    (inner : above.isLeaf = false) {key : String} {filter : PlannedFilter}
    (tidy : Sketch.Tidy (sketch ++ Sketch.groupEntries key filter above)) {id : NodeId}
    (ran : (building (Builder.addGroup filter.fields filter.kind)).on planner = (.ok id, after)) :
    after.Draws (sketch ++ Sketch.groupEntries key filter above) ∧
      after.positions = planner.positions := by
  have isOpen := draws.opened isPlace inner
  obtain ⟨builder, came, rfl⟩ := of_on_building ran
  obtain ⟨running, _, _⟩ := (Builder.legal_addGroup draws.running placed isOpen filter.fields
    filter.kind).of_ok came
  rw [Builder.on_addGroup, Builder.target_of_open _ _ placed isOpen] at came
  dsimp only at came
  split at came
  · obtain ⟨_, isBuilder⟩ := Prod.mk.inj came
    refine ⟨⟨running, tidy, ?_⟩, rfl⟩
    rw [← isBuilder]
    exact draws.matched.attachGroup draws.running.formed isPlace key filter
  · split at came <;> cases came

end Planner

end TraversalQuery
