import TraversalQuery.Proofs.Planning.Hanging

/-!
# How sketches grow into trees

Fields that are in a forest are added to a sketch one after another, in preorder. Those inside an
object come to trees below its fan, whatever the sketch had before, as each field has a key of its
own. At the root, what was added first moves below a fan when a second step comes.
-/

namespace TraversalQuery

namespace Sketch

/-- Nothing in the sketch is about a key, or below something that is. -/
def Untouched (sketch : Sketch) (key : String) : Prop :=
  ∀ entry ∈ sketch, entry.place.key ≠ key ∧
    ∀ above, entry.above? = some above → above.key ≠ key

/-- A key is untouched in sketches side by side if it is in each. -/
theorem Untouched.append {sketch more : Sketch} {key : String} (untouched : sketch.Untouched key)
    (untouched' : more.Untouched key) : Untouched (sketch ++ more) key :=
  List.forall_mem_append.mpr ⟨untouched, untouched'⟩

/-- Entries within some keys leave all others untouched. -/
theorem untouched_of_within {sketch : Sketch} {above : Place} {keys : List String} {key : String}
    (within : ∀ entry ∈ sketch, entry.Within above keys) (other : key ∉ keys)
    (other' : above.key ≠ key) : sketch.Untouched key := by
  intro entry member
  obtain ⟨isKey, place, isAbove, place'⟩ := within entry member
  refine ⟨fun same => other (same ▸ isKey), fun here isHere same => ?_⟩
  obtain rfl := Option.some.inj (isAbove.symm.trans isHere)
  rcases place' with rfl | isKey'
  · exact other' same
  · exact other (same ▸ isKey')

/-- No place is about an untouched key. -/
theorem Untouched.not_mem {sketch : Sketch} (place : Place)
    (untouched : sketch.Untouched place.key) : place ∉ sketch.places := by
  intro member
  obtain ⟨entry, isEntry, same⟩ := mem_places.mp member
  exact (untouched entry isEntry).1 (congrArg Place.key same)

/-- The object of an untouched key leads on to nothing. -/
theorem Untouched.not_leads {sketch : Sketch} {key : String} (untouched : sketch.Untouched key) :
    ¬sketch.Leads key :=
  fun ⟨entry, member, isAbove, _⟩ => (untouched entry member).2 _ isAbove rfl

/-- An object leads on to nothing in sketches side by side if it does so in neither. -/
theorem not_leads_append {sketch more : Sketch} {key : String} (idle : ¬sketch.Leads key)
    (idle' : ¬more.Leads key) : ¬Leads (sketch ++ more) key :=
  fun ⟨entry, member, leads⟩ => (List.mem_append.mp member).elim
    (fun old => idle ⟨entry, old, leads⟩) fun new => idle' ⟨entry, new, leads⟩

/-- The own nodes of a field are what no other object leads on to. -/
theorem not_leads_own {key other : String} {above : Place} (different : above ≠ .object other)
    {part : Part} : ¬Leads (ownEntries key above part) other := by
  rintro ⟨entry, member, isAbove, _⟩
  rcases (above?_own entry member).2 with here | here
  · exact different (Option.some.inj (here.symm.trans isAbove))
  · exact Place.noConfusion (Option.some.inj (here.symm.trans isAbove))

/-- A filter lets no object lead on but the one that it is below. -/
theorem not_leads_groupTree {key other : String} {above : Place} (different : above ≠ .object other)
    {part : Part} : ¬Leads (groupTree key part above).preorder other := by
  rintro ⟨entry, member, isAbove, _⟩
  rcases (above?_groupTree entry member).2 with here | here
  · exact different (Option.some.inj (here.symm.trans isAbove))
  · exact Place.noConfusion (Option.some.inj (here.symm.trans isAbove))

/-- A sketch that fields inside an object can be added to: they are in a forest, each with a key of
its own, which the sketch says nothing about. -/
structure Awaits (sketch : Sketch) (key : String) (marks : Forest Mark) : Prop where
  hung : Hung key marks
  nodup : (marks.preorder.map Mark.key).Nodup
  inner : ∀ mark ∈ marks.preorder, mark.key ≠ key ∧ mark.key ≠ rootKey
  untouched : ∀ mark ∈ marks.preorder, sketch.Untouched mark.key

section Awaits

variable {sketch more : Sketch} {key : String} {mark : Mark} {below rest : Forest Mark}

/-- The first field that is awaited has a key of its own, which is untouched. -/
theorem Awaits.first (awaits : sketch.Awaits key (.node mark below rest)) :
    mark.key ≠ key ∧ mark.key ≠ rootKey ∧ sketch.Untouched mark.key :=
  ⟨(awaits.inner mark List.mem_cons_self).1, (awaits.inner mark List.mem_cons_self).2,
    awaits.untouched mark List.mem_cons_self⟩

/-- The fields that are awaited have distinct keys. -/
theorem Awaits.keys (awaits : sketch.Awaits key (.node mark below rest)) :
    mark.key ∉ below.preorder.map Mark.key ∧ mark.key ∉ rest.preorder.map Mark.key ∧
      (below.preorder.map Mark.key).Nodup ∧ (rest.preorder.map Mark.key).Nodup ∧
      ∀ other ∈ rest.preorder, other.key ∉ mark.key :: below.preorder.map Mark.key := by
  have nodup := awaits.nodup
  rw [Forest.preorder, List.map_cons, List.map_append, List.nodup_cons, List.mem_append,
    not_or] at nodup
  obtain ⟨⟨notBelow, notRest⟩, nodup⟩ := nodup
  obtain ⟨inside, beside, apart⟩ := List.nodup_append.mp nodup
  refine ⟨notBelow, notRest, inside, beside, fun other member isKey => ?_⟩
  have isRest : other.key ∈ rest.preorder.map Mark.key := List.mem_map_of_mem member
  rcases List.mem_cons.mp isKey with same | isBelow
  · exact notRest (same ▸ isRest)
  · exact apart _ isBelow _ isRest rfl

/-- The fields inside the first field, after what it adds itself. -/
theorem Awaits.inside (awaits : sketch.Awaits key (.node mark below rest)) (above : Place)
    (isKey : above.key = key) (within : ∀ entry ∈ more, entry.Within above [mark.key]) :
    Awaits (sketch ++ more) mark.key below where
  hung := awaits.hung.2.2.1
  nodup := awaits.keys.2.2.1
  inner := fun other member =>
    ⟨fun same => awaits.keys.1 (same ▸ List.mem_map_of_mem member),
      (awaits.inner other (List.mem_cons_of_mem _ (List.mem_append_left _ member))).2⟩
  untouched := fun other member => by
    have isOther := List.mem_cons_of_mem mark (List.mem_append_left rest.preorder member)
    refine (awaits.untouched other isOther).append (untouched_of_within within ?_ ?_)
    · rw [List.mem_singleton]
      exact fun same => awaits.keys.1 (same ▸ List.mem_map_of_mem member)
    · rw [isKey]
      exact (awaits.inner other isOther).1.symm

/-- The fields beside the first one, after all that it adds. -/
theorem Awaits.beside (awaits : sketch.Awaits key (.node mark below rest)) (above : Place)
    (isKey : above.key = key)
    (within : ∀ entry ∈ more, entry.Within above (mark.key :: below.preorder.map Mark.key)) :
    Awaits (sketch ++ more) key rest where
  hung := awaits.hung.2.2.2
  nodup := awaits.keys.2.2.2.1
  inner := fun other member =>
    awaits.inner other (List.mem_cons_of_mem _ (List.mem_append_right _ member))
  untouched := fun other member => by
    have isOther := List.mem_cons_of_mem mark (List.mem_append_right below.preorder member)
    refine (awaits.untouched other isOther).append
      (untouched_of_within within (awaits.keys.2.2.2.2 other member) ?_)
    rw [isKey]
    exact (awaits.inner other isOther).1.symm

/-- The same fields are awaited after their object has fanned out. -/
theorem Awaits.fanned {marks : Forest Mark} (awaits : sketch.Awaits key marks) :
    Awaits (sketch ++ [fanEntry key]) key marks where
  hung := awaits.hung
  nodup := awaits.nodup
  inner := awaits.inner
  untouched := fun other member => (awaits.untouched other member).append <|
    List.forall_mem_singleton.mpr ⟨(awaits.inner other member).1.symm,
      fun _ isAbove => Option.some.inj isAbove ▸ (awaits.inner other member).1.symm⟩

end Awaits

/-- Below a fan a field adds its own nodes and its filter. -/
theorem add_of_fan {sketch : Sketch} {mark : Mark} (fans : .fan mark.around ∈ sketch.places) :
    sketch.add mark = sketch ++ (ownEntries mark.key (.fan mark.around) mark.part ++
      (groupTree mark.key mark.part (.fan mark.around)).preorder) := by
  have settled : sketch.fanned mark.around = sketch := if_pos (.inl fans)
  have anchored : sketch.anchor mark.around = .fan mark.around := if_pos fans
  unfold add
  dsimp only
  rw [settled, anchored, preorder_groupTree]
  cases mark.part.filter? with
  | none => dsimp only; rw [List.append_nil]
  | some filter => dsimp only; rw [filtered, List.append_assoc]

/-- It makes no difference if the object fans out before a field is added. -/
theorem add_spread {sketch : Sketch} {mark : Mark} (noFan : .fan mark.around ∉ sketch.places)
    (leads : mark.around = rootKey → sketch.Leads rootKey) :
    sketch.add mark = (sketch.spread mark.around).add mark := by
  have fans : .fan mark.around ∈ (sketch.spread mark.around).places := by
    rw [places_spread]
    exact List.mem_append_right _ (List.mem_singleton_self _)
  have spreads : sketch.fanned mark.around = sketch.spread mark.around :=
    if_neg (not_or.mpr ⟨noFan, fun ⟨isRoot, idle⟩ => idle (leads isRoot)⟩)
  have settled : (sketch.spread mark.around).fanned mark.around = sketch.spread mark.around :=
    if_pos (.inl fans)
  rw [add, add, spreads, settled]

/-- A fan with something below it is gone through from its quantifier. -/
theorem preorder_fanTree {key : String} {forest : Forest Entry} (inner : forest ≠ .nil) :
    (fanTree key forest).preorder = fanEntry key :: forest.preorder := by
  cases forest with
  | nil => contradiction
  | node label below rest =>
    rw [fanTree, Forest.preorder_tree]
    simp

theorem hanging_ne_nil {key : String} {mark : Mark} {below rest : Forest Mark} :
    hanging key (.node mark below rest) ≠ .nil := by
  obtain ⟨key', around, property | ⟨_ | relation, entity, filter?⟩⟩ := mark <;> exact nofun

/-- What adding fields below a fan comes to. -/
def Grows (marks : Forest Mark) : Prop :=
  ∀ ⦃sketch : Sketch⦄ ⦃key : String⦄, .fan key ∈ sketch.places → sketch.Awaits key marks →
    ∃ more : Sketch, marks.preorder.foldl add sketch = sketch ++ more ∧
      more.Alike (hanging key marks).preorder

/-- Fields inside an object that does not fan out yet. -/
theorem Grows.inside {marks : Forest Mark} (grows : Grows marks) {sketch : Sketch} {key : String}
    (awaits : sketch.Awaits key marks) (inner : key ≠ rootKey) (noFan : .fan key ∉ sketch.places)
    (idle : ¬sketch.Leads key) :
    ∃ more : Sketch, marks.preorder.foldl add sketch = sketch ++ more ∧
      more.Alike (fanTree key (hanging key marks)).preorder := by
  cases marks with
  | nil => exact ⟨[], (List.append_nil _).symm, .refl _⟩
  | node mark below rest =>
    obtain rfl := awaits.hung.1
    have fans : .fan mark.around ∈ Sketch.places (sketch ++ [fanEntry mark.around]) := by
      rw [places_append]
      exact List.mem_append_right _ (List.mem_singleton_self _)
    obtain ⟨more, added, alike⟩ := grows fans awaits.fanned
    refine ⟨fanEntry mark.around :: more, ?_, ?_⟩
    · rw [Forest.preorder, List.foldl_cons, List.append_assoc, List.singleton_append] at added
      rw [Forest.preorder, List.foldl_cons, add_spread noFan fun isRoot => absurd isRoot inner,
        spread_eq_append idle, added]
    · rw [preorder_fanTree hanging_ne_nil]
      exact Alike.append (.refl [_]) alike

/-- What is added inside an object is below the object. -/
theorem within_of_alike {key : String} {marks : Forest Mark} {more : Sketch}
    (alike : more.Alike (fanTree key (hanging key marks)).preorder) :
    ∀ entry ∈ more, entry.Within (.object key) (key :: marks.preorder.map Mark.key) :=
  fun entry member =>
    within_fanTree (within_hanging marks key) entry (alike.perm.mem_iff.mp member)

/-- A filter is not below what the fields inside its object are below. -/
theorem Awaits.group_apart {sketch : Sketch} {mark : Mark} {below rest : Forest Mark}
    (awaits : sketch.Awaits mark.around (.node mark below rest)) :
    ∀ entry ∈ (groupTree mark.key mark.part (.fan mark.around)).preorder,
      ∀ other ∈ (fanTree mark.key (hanging mark.key below)).preorder,
        entry.above? ≠ other.above? := by
  intro entry member other member' same
  have isAbove := (above?_groupTree entry member).2
  rw [same] at isAbove
  rcases mem_fanTree member' with rfl | hangs
  · rcases isAbove with here | here <;> exact Place.noConfusion (Option.some.inj here)
  · obtain ⟨_, place, here', placed⟩ := within_hanging below mark.key other hangs
    rw [here'] at isAbove
    rcases isAbove with here | here <;> obtain rfl := Option.some.inj here
    · rcases placed with same | isKey
      · exact awaits.first.1 (Place.fan.inj same).symm
      · obtain ⟨inside, isInside, same⟩ := List.mem_map.mp isKey
        exact (awaits.inner inside
          (List.mem_cons_of_mem _ (List.mem_append_left _ isInside))).1 same
    · rcases placed with same | isKey
      · exact Place.noConfusion same
      · exact awaits.keys.1 isKey

/-- **Fields of an object are added as trees below its fan.** -/
theorem grows (marks : Forest Mark) : Grows marks := by
  induction marks with
  | nil => exact fun sketch key _ _ => ⟨[], (List.append_nil _).symm, .refl _⟩
  | node mark below rest ihBelow ihRest =>
    intro sketch key fans awaits
    obtain rfl := awaits.hung.1
    obtain ⟨_, inner, untouched⟩ := awaits.first
    generalize isOwn : ownEntries mark.key (.fan mark.around) mark.part = own
    generalize isGroup : (groupTree mark.key mark.part (.fan mark.around)).preorder = group
    have first : sketch.add mark = sketch ++ (own ++ group) := by
      rw [add_of_fan fans, isOwn, isGroup]
    have within : ∀ entry ∈ own ++ group, entry.Within (.fan mark.around) [mark.key] := by
      rw [← isOwn, ← isGroup]
      exact List.forall_mem_append.mpr ⟨within_own, within_groupTree⟩
    have noFan : .fan mark.key ∉ Sketch.places (sketch ++ (own ++ group)) := by
      rw [places_append, places_append, ← isOwn, ← isGroup]
      intro member
      rcases List.mem_append.mp member with old | new
      · exact untouched.not_mem (.fan mark.key) old
      · exact (List.mem_append.mp new).elim fan_not_mem_own fan_not_mem_groupTree
    have idle : ¬Leads (sketch ++ (own ++ group)) mark.key := by
      rw [← isOwn, ← isGroup]
      exact not_leads_append untouched.not_leads
        (not_leads_append (not_leads_own fun here => Place.noConfusion here)
          (not_leads_groupTree fun here => Place.noConfusion here))
    obtain ⟨inside, added, alike⟩ := ihBelow.inside (awaits.inside _ rfl within) inner noFan idle
    have within' : ∀ entry ∈ own ++ group ++ inside,
        entry.Within (.fan mark.around) (mark.key :: below.preorder.map Mark.key) :=
      List.forall_mem_append.mpr
        ⟨fun entry member => (within entry member).mono (by simp) (.inl rfl),
          fun entry member => (within_of_alike alike entry member).mono (List.Subset.refl _)
            (.inr List.mem_cons_self)⟩
    have fans' : .fan mark.around ∈ Sketch.places (sketch ++ (own ++ group ++ inside)) := by
      rw [places_append]
      exact List.mem_append_left _ fans
    obtain ⟨beside, added', alike'⟩ := ihRest fans' (awaits.beside _ rfl within')
    refine ⟨own ++ group ++ inside ++ beside, ?_, ?_⟩
    · rw [Forest.preorder, List.foldl_cons, List.foldl_append, first, added,
        List.append_assoc sketch, added', List.append_assoc sketch]
    · have apart := awaits.group_apart
      rw [isGroup] at apart
      rw [hanging, Forest.preorder_append, Forest.preorder_append, Forest.preorder_chain, isOwn,
        isGroup]
      refine .append ?_ alike'
      rw [List.append_assoc, List.append_assoc]
      -- The filter was added before the fields inside the object, and stands after them.
      exact .append (.refl own) ((Alike.append (.refl group) alike).trans (.swap apart))

/-- An object fans out above the objects of the fields inside it. -/
theorem map_rehome_own {key around : String} {relation? : Option RelationStep}
    {entity : EntityStep} {filter? : Option PlannedFilter} :
    (ownEntries key (.object around) (.entered relation? entity filter?)).map (rehome around) =
      ownEntries key (.fan around) (.entered relation? entity filter?) := by
  cases relation? <;> simp [ownEntries, rehome, Node.isLeaf]

/-- Fanning out from the root moves the first object below the fan. -/
theorem spread_root {sketch more : Sketch} (key : String) (relation? : Option RelationStep)
    (entity : EntityStep) (filter? : Option PlannedFilter) (idle : ¬sketch.Leads rootKey)
    (idle' : ¬more.Leads rootKey) :
    Sketch.spread (sketch ++ ownEntries key (.object rootKey) (.entered relation? entity filter?) ++
        more) rootKey =
      sketch ++ ownEntries key (.fan rootKey) (.entered relation? entity filter?) ++ more ++
        [fanEntry rootKey] := by
  rw [spread, List.map_append, List.map_append, map_rehome_own, map_rehome idle, map_rehome idle']

/-- What is inside the first object at the root is within it. -/
theorem within_trunk {key : String} {part : Part} {below : Forest Mark} :
    ∀ entry ∈ (fanTree key (groupTree key part (.fan key) ++ hanging key below)).preorder,
      entry.Within (.object key) (key :: below.preorder.map Mark.key) := by
  intro entry member
  rcases mem_fanTree member with rfl | inside
  · exact ⟨List.mem_cons_self, .object key, rfl, .inl rfl⟩
  · rw [Forest.preorder_append] at inside
    rcases List.mem_append.mp inside with grouped | hangs
    · exact (within_groupTree entry grouped).mono (by simp) (.inr List.mem_cons_self)
    · exact (within_hanging below key entry hangs).mono (List.subset_cons_self _ _)
        (.inr List.mem_cons_self)

/-- Right below the root an object adds its own nodes, and its filter below its own fan. -/
theorem add_of_root {sketch : Sketch} {key : String} {part : Part} (idle : ¬sketch.Leads rootKey)
    (noFan : .fan rootKey ∉ sketch.places) :
    sketch.add ⟨key, rootKey, part⟩ =
      match part.filter? with
      | none => sketch ++ ownEntries key (.object rootKey) part
      | some filter => Sketch.spread (sketch ++ ownEntries key (.object rootKey) part) key ++
          groupEntries key filter (.fan key) := by
  have settled : sketch.fanned rootKey = sketch := if_pos (.inr ⟨rfl, idle⟩)
  have anchored : sketch.anchor rootKey = .object rootKey := if_neg noFan
  unfold add
  dsimp only
  rw [settled, anchored]
  rfl

/-- **The first object at the root is added as a tree below the root.** -/
theorem grows_trunk {sketch : Sketch} {mark : Mark} {below rest : Forest Mark}
    (idle : ¬sketch.Leads rootKey) (noFan : .fan rootKey ∉ sketch.places)
    (awaits : sketch.Awaits rootKey (.node mark below rest)) :
    ∃ more : Sketch, below.preorder.foldl add (sketch.add mark) =
        sketch ++ (ownEntries mark.key (.object rootKey) mark.part ++ more) ∧
      more.Alike (fanTree mark.key
        (groupTree mark.key mark.part (.fan mark.key) ++ hanging mark.key below)).preorder := by
  obtain ⟨other, inner, untouched⟩ := awaits.first
  obtain ⟨key, around, part⟩ := mark
  obtain rfl : around = rootKey := awaits.hung.1
  dsimp only at other inner untouched ⊢
  have noFan' : .fan key ∉ Sketch.places (sketch ++ ownEntries key (.object rootKey) part) := by
    rw [places_append]
    exact fun member => (List.mem_append.mp member).elim
      (untouched.not_mem (.fan key)) fan_not_mem_own
  have idle' : ¬Leads (sketch ++ ownEntries key (.object rootKey) part) key :=
    not_leads_append untouched.not_leads
      (not_leads_own fun same => other (Place.object.inj same).symm)
  rw [add_of_root idle noFan]
  cases isFilter : part.filter? with
  | none =>
    obtain ⟨more, added, alike⟩ := (grows below).inside
      (awaits.inside (.object rootKey) rfl within_own) inner noFan' idle'
    refine ⟨more, added.trans (List.append_assoc _ _ _), ?_⟩
    rw [groupTree, isFilter]
    exact alike
  | some filter =>
    have group : (groupTree key part (.fan key)).preorder = groupEntries key filter (.fan key) := by
      rw [preorder_groupTree, isFilter]
    have within : ∀ entry ∈ ownEntries key (.object rootKey) part ++
        (fanEntry key :: groupEntries key filter (.fan key)),
        entry.Within (.object rootKey) [key] := by
      have isKey : key ∈ [key] := List.mem_singleton_self _
      refine List.forall_mem_append.mpr ⟨within_own, List.forall_mem_cons.mpr
        ⟨⟨isKey, .object key, rfl, .inr isKey⟩, fun entry member => ?_⟩⟩
      rw [← group] at member
      exact (within_groupTree entry member).mono (List.Subset.refl _) (.inr isKey)
    have fans : .fan key ∈ Sketch.places (sketch ++ (ownEntries key (.object rootKey) part ++
        (fanEntry key :: groupEntries key filter (.fan key)))) := by
      rw [places_append, places_append]
      exact List.mem_append_right _ (List.mem_append_right _ List.mem_cons_self)
    obtain ⟨more, added, alike⟩ := grows below fans (awaits.inside _ rfl within)
    refine ⟨fanEntry key :: groupEntries key filter (.fan key) ++ more, ?_, ?_⟩
    · dsimp only
      rw [spread_eq_append idle']
      simpa only [List.append_assoc, List.cons_append, List.nil_append] using added
    · have inner' : groupTree key part (.fan key) ++ hanging key below ≠ .nil := by
        rw [groupTree, isFilter]
        exact nofun
      rw [preorder_fanTree inner', Forest.preorder_append, group]
      exact Alike.append (.refl (_ :: _)) alike

section SecondField

variable {sketch more : Sketch} {key : String} {relation? : Option RelationStep}
  {entity : EntityStep} {filter? : Option PlannedFilter} {part : Part} {mark : Mark}
  {below below' rest : Forest Mark}

/-- No field that is awaited has the key of the root. -/
theorem Awaits.root_not_mem
    (awaits : sketch.Awaits rootKey (.node ⟨key, rootKey, part⟩ below rest)) :
    rootKey ∉ key :: below.preorder.map Mark.key := by
  intro isKey
  rcases List.mem_cons.mp isKey with same | isBelow
  · exact awaits.first.2.1 same.symm
  · obtain ⟨inside, member, same⟩ := List.mem_map.mp isBelow
    exact (awaits.inner inside (List.mem_cons_of_mem _ (List.mem_append_left _ member))).2 same

/-- An object and what is inside it make no fan at the root. -/
theorem fan_not_mem_trunk (noFan : .fan rootKey ∉ sketch.places)
    (untouched : more.Untouched rootKey) :
    .fan rootKey ∉ Sketch.places (sketch ++ (ownEntries key (.object rootKey) part ++ more)) := by
  rw [places_append, places_append]
  intro member
  rcases List.mem_append.mp member with old | new
  · exact noFan old
  · rcases List.mem_append.mp new with own | inside
    · exact fan_not_mem_own own
    · exact untouched.not_mem (.fan rootKey) inside

/-- The root leads on to its first object. -/
theorem leads_trunk : Leads (sketch ++
    (ownEntries key (.object rootKey) (.entered relation? entity filter?) ++ more)) rootKey := by
  cases relation? <;> exact ⟨_, List.mem_append_right _ List.mem_cons_self, rfl, rfl⟩

/-- Once it is below the fan of the root, an object with what is inside it is what the fan leads
on to. -/
theorem within_moved (within : ∀ entry ∈ more,
      entry.Within (.object key) (key :: below.preorder.map Mark.key)) :
    ∀ entry ∈ ownEntries key (.fan rootKey) part ++ more,
      entry.Within (.fan rootKey) (key :: below.preorder.map Mark.key) := by
  refine List.forall_mem_append.mpr ⟨fun entry member => ?_, fun entry member => ?_⟩
  · exact (within_own entry member).mono (by simp) (.inl rfl)
  · exact (within entry member).mono (List.Subset.refl _) (.inr List.mem_cons_self)

theorem trunkTree_ne_nil {above : Place} {forest : Forest Entry} :
    trunkTree key (.entered relation? entity filter?) above below ++ forest ≠ .nil := by
  cases relation? <;> exact nofun

/-- The trees of an object and of the fields after it stand below the fan of the root. -/
theorem preorder_rootHanging {around : String} :
    (rootHanging (.node ⟨key, around, .entered relation? entity filter?⟩ below
      (.node mark below' rest))).preorder =
        [fanEntry rootKey] ++
          (trunkTree key (.entered relation? entity filter?) (.fan rootKey) below).preorder ++
          (hanging rootKey (.node mark below' rest)).preorder := by
  rw [rootHanging, preorder_fanTree trunkTree_ne_nil, Forest.preorder_append, List.append_assoc,
    List.singleton_append]
  simp

/-- **The root fans out when a second field comes.** The object that is there already moves below
the fan, and the fields that come are added below it as in any other object. -/
theorem grows_beyond (idle : ¬sketch.Leads rootKey) (noFan : .fan rootKey ∉ sketch.places)
    (awaits : sketch.Awaits rootKey
      (.node ⟨key, rootKey, .entered relation? entity filter?⟩ below (.node mark below' rest)))
    (alike : more.Alike (fanTree key
      (groupTree key (.entered relation? entity filter?) (.fan key) ++
        hanging key below)).preorder) :
    ∃ added : Sketch, (Forest.node mark below' rest).preorder.foldl add (sketch ++
        (ownEntries key (.object rootKey) (.entered relation? entity filter?) ++ more)) =
          sketch ++ added ∧
      added.Alike (rootHanging (.node ⟨key, rootKey, .entered relation? entity filter?⟩ below
        (.node mark below' rest))).preorder := by
  have within : ∀ entry ∈ more,
      entry.Within (.object key) (key :: below.preorder.map Mark.key) :=
    fun entry member => within_trunk entry (alike.perm.mem_iff.mp member)
  have untouched : more.Untouched rootKey :=
    untouched_of_within within awaits.root_not_mem awaits.first.2.1
  have moved : ∀ entry ∈ ownEntries key (.fan rootKey) (.entered relation? entity filter?) ++ more,
      entry.Within (.fan rootKey) (key :: below.preorder.map Mark.key) := within_moved within
  have isRoot : mark.around = rootKey := awaits.hung.2.2.2.1
  have spreads := spread_root key relation? entity filter? idle untouched.not_leads
  have fans : .fan rootKey ∈ Sketch.places (sketch ++
      (ownEntries key (.fan rootKey) (.entered relation? entity filter?) ++ more) ++
        [fanEntry rootKey]) := by
    rw [places_append]
    exact List.mem_append_right _ (List.mem_singleton_self _)
  obtain ⟨beside, added, alike'⟩ := grows (.node mark below' rest) fans
    (awaits.beside _ rfl moved).fanned
  rw [List.append_assoc, List.append_assoc sketch] at spreads
  rw [Forest.preorder, List.foldl_cons] at added ⊢
  have noFan' : .fan mark.around ∉ Sketch.places (sketch ++
      (ownEntries key (.object rootKey) (.entered relation? entity filter?) ++ more)) := by
    rw [isRoot]
    exact fan_not_mem_trunk noFan untouched
  rw [add_spread noFan' fun _ => leads_trunk, isRoot, spreads, added]
  refine ⟨ownEntries key (.fan rootKey) (.entered relation? entity filter?) ++ more ++
    [fanEntry rootKey] ++ beside, by simp only [List.append_assoc], ?_⟩
  rw [preorder_rootHanging]
  refine .append ?_ alike'
  have grown : Alike (ownEntries key (.fan rootKey) (.entered relation? entity filter?) ++ more)
      (trunkTree key (.entered relation? entity filter?) (.fan rootKey) below).preorder := by
    rw [trunkTree, Forest.preorder_chain]
    exact .append (.refl _) alike
  -- The fan was added last, and stands before all that it leads on to.
  refine .trans (.append grown (.refl _)) (.swap fun entry member => ?_)
  refine List.forall_mem_singleton.mpr fun same => ?_
  obtain ⟨_, place, isAbove, placed⟩ := moved entry (grown.perm.mem_iff.mpr member)
  obtain rfl := Option.some.inj (isAbove.symm.trans same)
  rcases placed with isFan | isKey
  · contradiction
  · exact awaits.root_not_mem isKey

end SecondField

/-- **Root fields are added as trees below the root.** -/
theorem grows_root (marks : Forest Mark) : ∀ {sketch : Sketch}, ¬sketch.Leads rootKey →
    .fan rootKey ∉ sketch.places → sketch.Awaits rootKey marks →
    ∃ more : Sketch, marks.preorder.foldl add sketch = sketch ++ more ∧
      more.Alike (rootHanging marks).preorder := by
  induction marks with
  | nil => exact fun _ _ _ => ⟨[], (List.append_nil _).symm, .refl _⟩
  | node mark below rest _ ih =>
    intro sketch idle noFan awaits
    obtain ⟨key, around, part⟩ := mark
    obtain rfl : around = rootKey := awaits.hung.1
    rcases part with property | ⟨relation?, entity, filter?⟩
    · -- A property leaves the root as it is.
      have alone : below = .nil := awaits.hung.2.1.resolve_right nofun
      subst alone
      have idle' :
          ¬Leads (sketch ++ ownEntries key (.object rootKey) (.shown property)) rootKey := by
        refine not_leads_append idle ?_
        rintro ⟨entry, member, _, inner⟩
        rw [List.mem_singleton.mp member] at inner
        contradiction
      have noFan' : .fan rootKey ∉
          Sketch.places (sketch ++ ownEntries key (.object rootKey) (.shown property)) := by
        rw [places_append]
        exact fun member => (List.mem_append.mp member).elim noFan fan_not_mem_own
      obtain ⟨more, added, alike⟩ := ih idle' noFan' (awaits.beside (.object rootKey) rfl
        fun entry member => (within_own entry member).mono (by simp) (.inl rfl))
      refine ⟨⟨.property key, .property property, some (.object rootKey)⟩ :: more, ?_, ?_⟩
      · rw [Forest.preorder, List.foldl_cons, add_of_root idle noFan]
        exact added.trans (List.append_assoc _ _ _)
      · rw [rootHanging, Forest.preorder]
        exact Alike.append (.refl [_]) alike
    · obtain ⟨more, added, alike⟩ := grows_trunk idle noFan awaits
      dsimp only at added alike
      rw [Forest.preorder, List.foldl_cons, List.foldl_append, added]
      cases rest with
      | nil =>
        refine ⟨_, rfl, ?_⟩
        rw [rootHanging, trunkTree, Forest.preorder_chain]
        exact Alike.append (.refl _) alike
      | node mark' below' rest' => exact grows_beyond idle noFan awaits alike

end Sketch

end TraversalQuery
