import TraversalQuery.Proofs.Planning.Follows

/-!
# What a field adds to a plan

A planner that is asked about a field adds to its plan what the field adds to the sketch that the
planner follows. Of the sketch this needs only that the field is new and the object around it is
there; of the field, that its type is one with fields or one with values.
-/

namespace TraversalQuery

namespace Planner

variable {planner after : Planner} {sketch : Sketch}

/-- Entering a relationship enters the step that the field is planned with, if there is one. -/
theorem enterRelation_eq (ontology : Ontology) (visit : FieldVisit) :
    enterRelation ontology visit =
      match visit.relationStep? ontology with
      | none => return ()
      | some relation => do
        let _ ← building (Builder.enter .enterRelation (.relation relation none))
        return () := by
  unfold enterRelation FieldVisit.relationStep?
  dsimp only
  cases visit.parent? with
  | none => rfl
  | some parent => cases ontology.relation? visit.definition.name <;> rfl

/-- Entering an entity enters the step that the field is planned with. -/
theorem enterEntity_eq (entity : EntityType) (visit : FieldVisit) :
    ∃ call, enterEntity entity visit.definition.name visit.arguments =
      Builder.enter call (.entity (visit.entityStep entity) none) := by
  unfold enterEntity FieldVisit.entityStep
  cases entity.concreteId? visit.arguments with
  | none => exact ⟨.enterEntity, rfl⟩
  | some id => exact ⟨.enterConcrete, rfl⟩

/-- The steps to the object of a field, and the note of its place. -/
theorem follows_steps (follows : planner.Follows sketch) {here : NodeId} {above : Place}
    (placed : planner.builder.cursor? = some here) (isPlace : sketch.places[here]? = some above)
    (inner : above.isLeaf = false) (room : (∃ around, above = .fan around) ∨
      ∀ other ∈ sketch, other.above? = some above → other.node.isLeaf = true)
    {ontology : Ontology} {visit : FieldVisit} {entity : EntityType}
    (fresh : sketch.Fresh visit.path.positionKey) (filter? : Option PlannedFilter)
    {crossed reached : Planner} {entered : NodeId}
    (ranRelation : (enterRelation ontology visit).on planner = (.ok (), crossed))
    (ranEntity : (building (enterEntity entity visit.definition.name visit.arguments)).on crossed =
      (.ok entered, reached))
    (ranRecord : (record visit.path entered).on reached = (.ok (), after)) :
    let part := Part.entered (visit.relationStep? ontology) (visit.entityStep entity) filter?
    after.Follows (sketch ++ Sketch.ownEntries visit.path.positionKey above part) ∧
      (Sketch.places (sketch ++ Sketch.ownEntries visit.path.positionKey above part))[entered]? =
        some (.object visit.path.positionKey) := by
  intro part
  have present := List.mem_of_getElem? isPlace
  have noted {planner : Planner} (kept : reached.positions = planner.positions)
      (notes : ∀ path, planner.NotesAt sketch path)
      (draws : reached.Draws (sketch ++ Sketch.ownEntries visit.path.positionKey above part))
      (isNew : (Sketch.places (sketch ++ Sketch.ownEntries visit.path.positionKey above
        part))[entered]? = some (.object visit.path.positionKey)) :
      after.Follows (sketch ++ Sketch.ownEntries visit.path.positionKey above part) :=
    draws.recorded (fun path => (notes path).of_positions kept) (Sketch.places_append _ _)
      (isNew.trans (congrArg some (Sketch.anchor_own fresh above part).symm))
      (fun key other => ⟨Sketch.object_not_mem_own other, Sketch.fan_not_mem_own⟩) ranRecord
  obtain ⟨call, isEnter⟩ := enterEntity_eq entity visit
  rw [isEnter] at ranEntity
  rw [enterRelation_eq] at ranRelation
  cases crossed : visit.relationStep? ontology with
  | none =>
    have isPart : part = .entered none (visit.entityStep entity) filter? := by rw [← crossed]
    rw [isPart] at noted ⊢
    rw [crossed] at ranRelation
    cases ranRelation
    have tidy := follows.tidy.step (.entity (visit.entityStep entity) none)
      (Sketch.Fresh.absent (.object _) fresh) trivial present room nofun nofun
    obtain ⟨draws, kept, _, rfl⟩ := follows.entered placed isPlace inner (by rfl) (by rfl) (by rfl)
      tidy ranEntity
    have isNew := Sketch.places_concat sketch
      ⟨.object visit.path.positionKey, .entity (visit.entityStep entity) none, some above⟩
    exact ⟨noted kept follows.notes draws isNew, isNew⟩
  | some relation =>
    have isPart : part = .entered (some relation) (visit.entityStep entity) filter? := by
      rw [← crossed]
    rw [isPart] at noted ⊢
    rw [crossed] at ranRelation
    obtain ⟨_, between, ranEnter, ran⟩ := ExceptT.of_on_bind ranRelation
    cases ran
    have stepped := follows.tidy.step (.relation relation none)
      (Sketch.Fresh.absent (.relation _) fresh) trivial present room nofun nofun
    obtain ⟨draws, kept, placed', rfl⟩ := follows.entered placed isPlace inner (by rfl) (by rfl)
      (by rfl) stepped ranEnter
    have tidy := follows.tidy.stepOver fresh present relation (visit.entityStep entity) stepped
    obtain ⟨draws, kept', _, rfl⟩ := draws.entered placed' (Sketch.places_concat _ _) rfl (by rfl)
      (by rfl) (by rfl) tidy ranEntity
    have isNew := Sketch.places_concat
      (sketch ++ [⟨.relation visit.path.positionKey, .relation relation none, some above⟩])
      ⟨.object visit.path.positionKey, .entity (visit.entityStep entity) none,
        some (.relation visit.path.positionKey)⟩
    rw [List.append_assoc] at draws isNew
    exact ⟨noted (kept'.trans kept) follows.notes draws isNew, isNew⟩

/-- A node at a place of a key that is new to a sketch is one of the own nodes of its field. -/
theorem Draws.own {key : String} {above : Place} {part : Part}
    (draws : planner.Draws (sketch ++ Sketch.ownEntries key above part))
    (fresh : sketch.Fresh key) {id : NodeId} {place : Place} (ofKey : place.key = key)
    (isPlace : (Sketch.places (sketch ++ Sketch.ownEntries key above part))[id]? = some place) :
    ∃ entry ∈ Sketch.ownEntries key above part, entry.place = place ∧
      (sketch ++ Sketch.ownEntries key above part)[id]? = some entry ∧
      ∃ node, planner.builder.plan.node? id = some node ∧ place.Fits node := by
  obtain ⟨entry, node, found, isEntry, isNode, _, fits⟩ := draws.node isPlace
  refine ⟨entry, ?_, isEntry, found, node, isNode, fits⟩
  apply (List.mem_append.mp (List.mem_of_getElem? found)).resolve_left
  intro old
  exact fresh entry.place (Sketch.mem_places.mpr ⟨entry, old, rfl⟩) (isEntry ▸ ofKey)

/-- On the way from an object to the place that its field was put below there is no quantifier. -/
theorem Draws.path_own {key : String} {above : Place} {part : Part}
    (draws : planner.Draws (sketch ++ Sketch.ownEntries key above part))
    (fresh : sketch.Fresh key) {entered : NodeId}
    (isPlace : (Sketch.places (sketch ++ Sketch.ownEntries key above part))[entered]? =
      some (.object key)) :
    ∃ passed anchor, (Sketch.places (sketch ++ Sketch.ownEntries key above part))[anchor]? =
        some above ∧
      (∀ id ∈ passed, ∃ node, planner.builder.plan.node? id = some node ∧
        node.isQuantifier = false) ∧
      ∀ path, planner.builder.plan.Ascends anchor path →
        planner.builder.plan.Ascends entered (passed ++ path) := by
  obtain ⟨entry, member, isEntry, found, node, isNode, fits⟩ := draws.own fresh rfl isPlace
  have plain : node.isQuantifier = false := Place.isQuantifier_of_fits fits
  rcases part with property | ⟨_ | relation, step, filter?⟩
  · rw [List.mem_singleton.mp member] at isEntry
    contradiction
  · rw [List.mem_singleton.mp member] at found
    obtain ⟨anchor, link, isAnchor⟩ := draws.matched.parent? found rfl
    exact ⟨[entered], anchor, isAnchor, List.forall_mem_singleton.mpr ⟨node, isNode, plain⟩,
      fun path ascent => .above link ascent⟩
  · rcases List.mem_pair.mp member with rfl | rfl
    · contradiction
    · obtain ⟨crossed, link, isCrossed⟩ := draws.matched.parent? found rfl
      obtain ⟨entry', member', isEntry', found', node', isNode', fits'⟩ :=
        draws.own fresh rfl isCrossed
      have plain' : node'.isQuantifier = false := Place.isQuantifier_of_fits fits'
      rcases List.mem_pair.mp member' with rfl | rfl
      · obtain ⟨anchor, link', isAnchor⟩ := draws.matched.parent? found' rfl
        refine ⟨[entered, crossed], anchor, isAnchor, ?_, fun path ascent =>
          .above link (.above link' ascent)⟩
        exact List.forall_mem_cons.mpr ⟨⟨node, isNode, plain⟩,
          List.forall_mem_singleton.mpr ⟨node', isNode', plain'⟩⟩
      · contradiction

/-- A climb from the object of a field to a quantifier goes past the own nodes of the field. -/
theorem Follows.climb_own {key : String} {above : Place} {part : Part}
    (follows : planner.Follows (sketch ++ Sketch.ownEntries key above part))
    (fresh : sketch.Fresh key) {entered : NodeId}
    (isPlace : (Sketch.places (sketch ++ Sketch.ownEntries key above part))[entered]? =
      some (.object key)) :
    ∃ anchor rest, (Sketch.places (sketch ++ Sketch.ownEntries key above part))[anchor]? =
        some above ∧
      planner.builder.plan.Ascends anchor rest ∧
      (planner.builder.plan.climb (fun _ node => node.isQuantifier)
        (planner.builder.plan.size + 1) entered).found? =
          rest.find? fun id =>
            (planner.builder.plan.node? id).any fun node => node.isQuantifier := by
  obtain ⟨passed, anchor, isAnchor, plain, ascends⟩ := follows.path_own fresh isPlace
  obtain ⟨rest, ascent⟩ := follows.running.formed.rooted (follows.matched.lt_size isAnchor)
  have whole := ascends rest ascent
  have passes : passed.find? (fun id =>
      (planner.builder.plan.node? id).any fun node => node.isQuantifier) = none := by
    refine List.find?_eq_none.mpr fun id member => ?_
    obtain ⟨node, isNode, notFan⟩ := plain id member
    simp [isNode, notFan]
  refine ⟨anchor, rest, isAnchor, ascent, ?_⟩
  rw [Plan.found?_climb _ whole (Nat.le_succ_of_le whole.length_le_size), List.find?_append, passes,
    Option.none_or]

/-- A climb that comes to a fan ends there. -/
theorem Follows.find?_of_fan (follows : planner.Follows sketch) {anchor : NodeId}
    {around : String} (isAnchor : sketch.places[anchor]? = some (.fan around))
    {rest : List NodeId} (ascent : planner.builder.plan.Ascends anchor rest) :
    (rest.find? fun id => (planner.builder.plan.node? id).any fun node => node.isQuantifier) =
      some anchor := by
  obtain ⟨_, node, _, _, isNode, _, fits⟩ := follows.node isAnchor
  have isFan : node.isQuantifier = true := Place.isQuantifier_of_fits fits
  cases ascent <;> simp [isNode, isFan]

/-- A climb that comes to the root finds no fan. -/
theorem Follows.find?_of_root (follows : planner.Follows sketch) {anchor : NodeId}
    (isAnchor : sketch.places[anchor]? = some (.object Sketch.rootKey))
    {rest : List NodeId} (ascent : planner.builder.plan.Ascends anchor rest) :
    (rest.find? fun id => (planner.builder.plan.node? id).any fun node => node.isQuantifier) =
      none := by
  obtain rfl : anchor = Plan.root := Plan.Matches.unique follows.tidy isAnchor follows.tidy.top
  obtain ⟨next?, isStart⟩ := follows.running.formed.startsAtRoot
  cases ascent with
  | root => simp [isStart, Node.isQuantifier]
  | above link => rw [follows.running.formed.rootOnTop] at link; contradiction

/-- The place of a filter: where the field was put if fields fan out there, else where the object of
the field fans out. -/
theorem follows_filterScope {key : String} {above : Place} {part : Part}
    (follows : planner.Follows (sketch ++ Sketch.ownEntries key above part))
    (fresh : sketch.Fresh key) {path : ResponsePath} (isKey : path.positionKey = key)
    (anchored : (∃ around, above = .fan around) ∨ above = .object Sketch.rootKey)
    {entered scope : NodeId}
    (isPlace : (Sketch.places (sketch ++ Sketch.ownEntries key above part))[entered]? =
      some (.object key))
    (ran : (filterScope path entered).on planner = (.ok scope, after)) (filter : PlannedFilter) :
    ∃ later around, Sketch.filtered (sketch ++ Sketch.ownEntries key above part) key filter above =
        later ++ Sketch.groupEntries key filter (.fan around) ∧
      after.Follows later ∧ later.places[scope]? = some (.fan around) ∧
      .group key ∉ later.places ∧ ∀ index, .member key index ∉ later.places := by
  obtain ⟨_, moved, ranMove, ran⟩ := ExceptT.of_on_bind ran
  obtain rfl := of_on_moveTo ranMove
  obtain ⟨ascent, climbed, ranClimb, ran⟩ := ExceptT.of_on_bind ran
  obtain ⟨builder, came, rfl⟩ := of_on_building ranClimb
  rw [Builder.on_ascend] at came
  obtain ⟨isAscent, rfl⟩ := Prod.mk.inj came
  obtain rfl := Except.ok.inj isAscent
  obtain ⟨anchor, rest, isAnchor, ascent, found⟩ := follows.climb_own fresh isPlace
  have noGroup : .group key ∉ Sketch.places (sketch ++ Sketch.ownEntries key above part) :=
    fresh.not_mem_own _ rfl nofun nofun nofun
  have noMember (index : Nat) :
      .member key index ∉ Sketch.places (sketch ++ Sketch.ownEntries key above part) :=
    fresh.not_mem_own _ rfl nofun nofun nofun
  have noFan : .fan key ∉ Sketch.places (sketch ++ Sketch.ownEntries key above part) :=
    fresh.not_mem_own _ rfl nofun nofun nofun
  dsimp only at ran
  rcases anchored with ⟨around, rfl⟩ | rfl
  · -- The climb ends at the fan that the field was put below.
    rw [found, follows.find?_of_fan isAnchor ascent] at ran
    cases ran
    exact ⟨_, around, rfl, ⟨follows.moved isPlace, follows.notes⟩, isAnchor, noGroup, noMember⟩
  · -- The climb comes to the root without a fan on the way.
    rw [found, follows.find?_of_root isAnchor ascent] at ran
    obtain ⟨_, moved, ranMove, ran⟩ := ExceptT.of_on_bind ran
    obtain rfl := of_on_moveTo ranMove
    obtain ⟨id, between, ranAdd, ran⟩ := ExceptT.of_on_bind ran
    obtain ⟨_, recorded, ranRecord, ran⟩ := ExceptT.of_on_bind ran
    cases ran
    obtain ⟨draws, kept, isNew⟩ := (follows.moved isPlace).spread rfl isPlace noFan ranAdd
    have places := Sketch.places_spread
      (sketch ++ Sketch.ownEntries key (.object Sketch.rootKey) part) key
    have isAnchor' : (Sketch.spread (sketch ++ Sketch.ownEntries key (.object Sketch.rootKey) part)
        key).anchor key = .fan key := if_pos (List.mem_of_getElem? isNew)
    refine ⟨_, key, rfl, draws.recorded (fun path => (follows.notes path).of_positions kept)
      places ?_ (fun other different => ⟨nofun, fun member => different ?_⟩) ranRecord, isNew,
      ?_, fun index => ?_⟩
    · rw [isKey, isAnchor', isNew]
    · rw [isKey, Place.fan.inj (List.mem_singleton.mp member)]
    · rw [places]
      exact fun member => (List.mem_append.mp member).elim noGroup nofun
    · rw [places]
      exact fun member => (List.mem_append.mp member).elim (noMember index) nofun

/-- The filter of a field is put below the place that it goes to. -/
theorem follows_filter {above : Place} {part : Part} {ontology : Ontology} {visit : FieldVisit}
    {entity : EntityType} {value : Json}
    (follows : planner.Follows (sketch ++ Sketch.ownEntries visit.path.positionKey above part))
    (fresh : sketch.Fresh visit.path.positionKey)
    (anchored : (∃ around, above = .fan around) ∨ above = .object Sketch.rootKey)
    {entered : NodeId}
    (isPlace : (Sketch.places (sketch ++ Sketch.ownEntries visit.path.positionKey above
      part))[entered]? = some (.object visit.path.positionKey))
    (ran : (filter ontology visit entity entered value).on planner = (.ok (), after)) :
    ∃ filter, visit.plannedFilter? ontology value = some filter ∧
      after.Follows (Sketch.filtered (sketch ++ Sketch.ownEntries visit.path.positionKey above part)
        visit.path.positionKey filter above) := by
  obtain ⟨clause, between, ranDecode, ran⟩ := ExceptT.of_on_bind ran
  rw [ExceptT.on_mk_pure] at ranDecode
  obtain ⟨decoded, rfl⟩ := Prod.mk.inj ranDecode
  refine ⟨_, by rw [FieldVisit.plannedFilter?, decoded], ?_⟩
  dsimp only at ran
  split at ran
  · obtain ⟨scope, found, ranScope, ran⟩ := ExceptT.of_on_bind ran
    obtain ⟨_, moved, ranMove, ran⟩ := ExceptT.of_on_bind ran
    obtain rfl := of_on_moveTo ranMove
    obtain ⟨id, grouped, ranAdd, ran⟩ := ExceptT.of_on_bind ran
    cases ran
    obtain ⟨later, around, isFiltered, follows, isScope, noGroup, noMember⟩ :=
      follows_filterScope follows fresh rfl anchored isPlace ranScope
        ⟨clause.quantifier, clause.constraints.map (typedConstraint ontology)⟩
    have tidy := follows.tidy.groups
      ⟨clause.quantifier, clause.constraints.map (typedConstraint ontology)⟩
      (List.mem_of_getElem? isScope) noGroup noMember
    obtain ⟨draws, kept⟩ := (follows.moved isScope).grouped rfl isScope rfl tidy ranAdd
    rw [isFiltered]
    refine ⟨draws, fun path => ?_⟩
    refine ((follows.notes path).of_positions kept).append (Sketch.places_append _ _) ?_ ?_
    · exact fun member => by rcases Sketch.mem_places_group member with same | ⟨_, same⟩ <;>
        contradiction
    · exact fun member => by rcases Sketch.mem_places_group member with same | ⟨_, same⟩ <;>
        contradiction
  · cases ran

/-- A field with an object that is put below the cursor. -/
theorem follows_enter (follows : planner.Follows sketch) {here : NodeId} {above : Place}
    (placed : planner.builder.cursor? = some here) (isPlace : sketch.places[here]? = some above)
    (anchored : (∃ around, above = .fan around) ∨ above = .object Sketch.rootKey)
    (room : (∃ around, above = .fan around) ∨
      ∀ other ∈ sketch, other.above? = some above → other.node.isLeaf = true)
    {ontology : Ontology} {visit : FieldVisit} {target : SchemaType}
    (fresh : sketch.Fresh visit.path.positionKey) {answer : Answer}
    (ran : (enter ontology visit target).on planner = (.ok answer, after)) :
    ∃ part, (ontology.entity? target.name).bind (visit.enteredPart? ontology) = some part ∧
      after.Follows (match part.filter? with
        | none => sketch ++ Sketch.ownEntries visit.path.positionKey above part
        | some filter => Sketch.filtered
            (sketch ++ Sketch.ownEntries visit.path.positionKey above part)
            visit.path.positionKey filter above) := by
  have inner : above.isLeaf = false := by
    rcases anchored with ⟨around, rfl⟩ | rfl <;> rfl
  unfold enter at ran
  cases isEntity : ontology.entity? target.name with
  | none => rw [isEntity] at ran; cases ran
  | some entity =>
    rw [isEntity] at ran
    obtain ⟨_, crossed, ranRelation, ran⟩ := ExceptT.of_on_bind ran
    obtain ⟨entered, reached, ranEntity, ran⟩ := ExceptT.of_on_bind ran
    obtain ⟨_, noted, ranRecord, ran⟩ := ExceptT.of_on_bind ran
    have steps (filter? : Option PlannedFilter) :=
      follows_steps follows placed isPlace inner room fresh filter? ranRelation ranEntity ranRecord
    rw [Option.bind_some, FieldVisit.enteredPart?]
    cases isValue : filterValue? visit.arguments with
    | none =>
      rw [isValue] at ran
      cases ran
      exact ⟨_, rfl, (steps none).1⟩
    | some value =>
      rw [isValue] at ran
      obtain ⟨_, filtered, ranFilter, ran⟩ := ExceptT.of_on_bind ran
      cases ran
      -- What a field has as its filter does not matter to the steps to its object.
      obtain ⟨filter, isFilter, _⟩ := follows_filter (steps none).1 fresh anchored (steps none).2
        ranFilter
      obtain ⟨filter', isFilter', follows'⟩ := follows_filter (steps (some filter)).1 fresh anchored
        (steps (some filter)).2 ranFilter
      obtain rfl := Option.some.inj (isFilter.symm.trans isFilter')
      exact ⟨.entered (visit.relationStep? ontology) (visit.entityStep entity) (some filter),
        by dsimp only; rw [isFilter, Option.map_some], follows'⟩

/-- A field with a value that is put below the cursor. -/
theorem follows_project (follows : planner.Follows sketch) {here : NodeId} {above : Place}
    (placed : planner.builder.cursor? = some here) (isPlace : sketch.places[here]? = some above)
    (anchored : (∃ around, above = .fan around) ∨ above = .object Sketch.rootKey)
    (room : (∃ around, above = .fan around) ∨
      ∀ other ∈ sketch, other.above? = some above → other.node.isLeaf = true)
    {ontology : Ontology} {visit : FieldVisit} {output : SchemaType}
    (fresh : sketch.Fresh visit.path.positionKey) {answer : Answer}
    (ran : (project ontology visit output).on planner = (.ok answer, after)) :
    ∃ property, ontology.property? visit.definition.name = some property ∧
      after.Follows (sketch ++ Sketch.ownEntries visit.path.positionKey above
        (.shown ⟨.entity, property.pType, .shown⟩)) := by
  have inner : above.isLeaf = false := by
    rcases anchored with ⟨around, rfl⟩ | rfl <;> rfl
  unfold project at ran
  cases isProperty : ontology.property? visit.definition.name with
  | none => dsimp only at ran; rw [isProperty] at ran; cases ran
  | some property =>
    dsimp only at ran
    rw [isProperty] at ran
    obtain ⟨id, added, ranAdd, ran⟩ := ExceptT.of_on_bind ran
    cases ran
    have tidy := follows.tidy.step (.property ⟨.entity, property.pType, .shown⟩)
      (Sketch.Fresh.absent (.property _) fresh) trivial (List.mem_of_getElem? isPlace) room
      nofun nofun
    obtain ⟨draws, kept⟩ := follows.shown placed isPlace inner tidy ranAdd
    refine ⟨property, rfl, draws, fun path => ?_⟩
    refine ((follows.notes path).of_positions kept).append (Sketch.places_append _ _) ?_ ?_
    · exact fun member => Place.noConfusion (List.mem_singleton.mp member)
    · exact fun member => Place.noConfusion (List.mem_singleton.mp member)

/-- **A planner that follows a sketch goes on to follow it.** It adds a field to its plan as the
field is added to the sketch. -/
theorem follows_resolve (follows : planner.Follows sketch) {ontology : Ontology}
    {visit : FieldVisit} {output : SchemaType} (isOutput : visit.output? = some output)
    (shaped : output.kind.isComposite = true ∨ output.kind.isLeaf = true)
    (present : .object visit.parentPath.positionKey ∈ sketch.places)
    (root : visit.parent?.isNone = true ↔ visit.parentPath.positionKey = Sketch.rootKey)
    (fresh : sketch.Fresh visit.path.positionKey) {answer : Answer}
    (ran : (resolve ontology visit).on planner = (.ok answer, after)) :
    ∃ part, visit.part? ontology = some part ∧
      after.Follows
        (sketch.add ⟨visit.path.positionKey, visit.parentPath.positionKey, part⟩) := by
  unfold resolve at ran
  rw [isOutput] at ran
  obtain ⟨_, fanned, ranFan, ran⟩ := ExceptT.of_on_bind ran
  have follows := follows_fanOut follows present root ranFan
  have different : visit.parentPath.positionKey ≠ visit.path.positionKey := fresh _ present
  have fresh := fresh.fanned different
  obtain ⟨here, isHere, isPlace⟩ :=
    follows.position? (Sketch.places_subset_fanned _ _ present)
  obtain ⟨_, _, looked, ran⟩ := ExceptT.of_on_bind ran
  cases looked
  rw [isHere] at ran
  obtain ⟨_, moved, ranMove, ran⟩ := ExceptT.of_on_bind ran
  obtain rfl := of_on_moveTo ranMove
  have ready : Follows { fanned with builder := { fanned.builder with cursor? := some here } }
      (sketch.fanned visit.parentPath.positionKey) := ⟨follows.moved isPlace, follows.notes⟩
  have anchored : (∃ around, (sketch.fanned visit.parentPath.positionKey).anchor
      visit.parentPath.positionKey = .fan around) ∨
        (sketch.fanned visit.parentPath.positionKey).anchor visit.parentPath.positionKey =
          .object Sketch.rootKey := by
    rcases Sketch.fanned_cases sketch visit.parentPath.positionKey with fans | waits
    · exact .inl ⟨_, fans.1⟩
    · exact .inr (waits.1.trans (congrArg Place.object waits.2.2.1))
  have room : (∃ around, (sketch.fanned visit.parentPath.positionKey).anchor
      visit.parentPath.positionKey = .fan around) ∨
        ∀ other ∈ sketch.fanned visit.parentPath.positionKey,
          other.above? = some ((sketch.fanned visit.parentPath.positionKey).anchor
            visit.parentPath.positionKey) → other.node.isLeaf = true := by
    rcases Sketch.fanned_cases sketch visit.parentPath.positionKey with fans | waits
    · exact .inl ⟨_, fans.1⟩
    · obtain ⟨isAnchor, same, _, idle⟩ := waits
      rw [isAnchor, same]
      refine .inr fun other member isAbove => (Bool.not_eq_false _).mp fun inner => ?_
      exact idle ⟨other, member, isAbove, inner⟩
  simp only [FieldVisit.part?, isOutput]
  by_cases composite : output.kind.isComposite = true
  · rw [if_pos composite] at ran ⊢
    exact follows_enter ready rfl isPlace anchored room fresh ran
  · have leaf := shaped.resolve_left composite
    rw [if_neg composite, if_pos leaf] at ran ⊢
    obtain ⟨property, isProperty, follows⟩ :=
      follows_project ready rfl isPlace anchored room fresh ran
    exact ⟨.shown ⟨.entity, property.pType, .shown⟩, by rw [isProperty, Option.map_some], follows⟩

end Planner

end TraversalQuery
