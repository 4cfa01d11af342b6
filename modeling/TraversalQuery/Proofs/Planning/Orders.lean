import TraversalQuery.Proofs.Planning.Growth

/-!
# Sketches in any order

Where all root fields have objects without filters, it does not matter to a sketch in which order
its fields are added: which entries it has follows from which fields there are, and not from when
they came.
-/

namespace TraversalQuery

/-- A field that at the root has an object and no filter. -/
def Mark.Plain (mark : Mark) : Prop :=
  mark.around = Sketch.rootKey → ∃ relation? entity, mark.part = .entered relation? entity none

namespace Sketch

/-- Where the fields of an object go if certain objects fan out. -/
def Home (fans : String → Prop) (key : String) (place : Place) : Prop :=
  place = .fan key ∧ fans key ∨ place = .object key ∧ ¬fans key

/-- The entries of a sketch in which certain objects fan out. -/
inductive Drawn (fans : String → Prop) (marks : List Mark) : Entry → Prop
  | start : Drawn fans marks ⟨.object rootKey, .start none, none⟩
  | own {mark : Mark} {above : Place} {entry : Entry} (isMark : mark ∈ marks)
      (home : Home fans mark.around above)
      (member : entry ∈ ownEntries mark.key above mark.part) : Drawn fans marks entry
  | group {mark : Mark} {filter : PlannedFilter} {entry : Entry} (isMark : mark ∈ marks)
      (isFilter : mark.part.filter? = some filter)
      (member : entry ∈ groupEntries mark.key filter (.fan mark.around)) : Drawn fans marks entry
  | fan {key : String} (spreads : fans key) : Drawn fans marks (fanEntry key)

/-- A sketch that has exactly these entries. -/
def ConsistsOf (sketch : Sketch) (fans : String → Prop) (marks : List Mark) : Prop :=
  ∀ entry, entry ∈ sketch ↔ Drawn fans marks entry

/-- An object fans out if there is a field inside it; the root only if there are two. -/
def Fans (marks : List Mark) (key : String) : Prop :=
  ∃ mark ∈ marks, mark.around = key ∧
    (key = rootKey → ∃ other ∈ marks, other.around = key ∧ other.key ≠ mark.key)

/-- Where fields go depends only on whether their object fans out. -/
theorem Home.congr {fans fans' : String → Prop} {key : String} {place : Place}
    (home : Home fans key place) (same : fans key ↔ fans' key) : Home fans' key place := by
  rwa [Home, ← same]

/-- Which entries there are depends only on which fields there are and which objects fan out. -/
theorem Drawn.congr {fans fans' : String → Prop} {marks marks' : List Mark} {entry : Entry}
    (drawn : Drawn fans marks entry) (same : ∀ key, fans key ↔ fans' key)
    (more : ∀ mark ∈ marks, mark ∈ marks') : Drawn fans' marks' entry := by
  cases drawn with
  | start => exact .start
  | own isMark home member => exact .own (more _ isMark) (home.congr (same _)) member
  | group isMark isFilter member => exact .group (more _ isMark) isFilter member
  | fan spreads => exact .fan ((same _).mp spreads)

/-- Whether an object fans out does not depend on the order of fields. -/
theorem fans_congr {marks marks' : List Mark} (same : ∀ mark, mark ∈ marks ↔ mark ∈ marks')
    (key : String) : Fans marks key ↔ Fans marks' key := by
  simp only [Fans, same]

variable {sketch : Sketch} {fans : String → Prop} {marks : List Mark}

/-- There is a fan for each object that fans out, and for no other. -/
theorem ConsistsOf.fan_iff (consists : sketch.ConsistsOf fans marks) (key : String) :
    .fan key ∈ sketch.places ↔ fans key := by
  rw [mem_places]
  constructor
  · rintro ⟨entry, member, isFan⟩
    cases (consists entry).mp member with
    | start => contradiction
    | own isMark home own =>
      exact absurd (mem_places.mpr ⟨entry, own, isFan⟩) fan_not_mem_own
    | group isMark isFilter group =>
      rcases mem_places_group (mem_places.mpr ⟨entry, group, isFan⟩) with same | ⟨_, same⟩ <;>
        contradiction
    | fan spreads =>
      rw [← Place.fan.inj isFan]
      exact spreads
  · exact fun spreads => ⟨fanEntry key, (consists _).mpr (.fan spreads), rfl⟩

/-- An object that does not fan out leads on to the fields inside it. -/
theorem ConsistsOf.exists_of_leads (consists : sketch.ConsistsOf fans marks) {key : String}
    (whole : ¬fans key)
    (leads : sketch.Leads key) : ∃ mark ∈ marks, mark.around = key := by
  obtain ⟨entry, member, isAbove, inner⟩ := leads
  cases (consists entry).mp member with
  | start => contradiction
  | @own mark above _ isMark home own =>
    refine ⟨mark, isMark, ?_⟩
    rcases (above?_own entry own).2 with here | here
    · rcases home with ⟨rfl, _⟩ | ⟨rfl, _⟩
      · exact Place.noConfusion (Option.some.inj (here.symm.trans isAbove))
      · exact Place.object.inj (Option.some.inj (here.symm.trans isAbove))
    · exact Place.noConfusion (Option.some.inj (here.symm.trans isAbove))
  | @group mark filter _ isMark isFilter group =>
    rcases List.mem_cons.mp group with rfl | group
    · exact Place.noConfusion (Option.some.inj isAbove)
    · have here := (above?_members entry group).2
      exact Place.noConfusion (Option.some.inj (here.symm.trans isAbove))
  | fan spreads =>
    rw [Place.object.inj (Option.some.inj isAbove)] at spreads
    exact absurd spreads whole

/-- An object that does not fan out leads on to the object inside it. -/
theorem ConsistsOf.leads (consists : sketch.ConsistsOf fans marks) {mark : Mark}
    (isMark : mark ∈ marks)
    (whole : ¬fans mark.around) (entered : ∃ relation? entity filter?,
      mark.part = .entered relation? entity filter?) : sketch.Leads mark.around := by
  have home : Home fans mark.around (.object mark.around) := .inr ⟨rfl, whole⟩
  have own {entry : Entry} (member : entry ∈ ownEntries mark.key (.object mark.around) mark.part) :
      entry ∈ sketch := (consists entry).mpr (.own isMark home member)
  obtain ⟨relation?, entity, filter?, isPart⟩ := entered
  rw [isPart] at own
  cases relation? with
  | none => exact ⟨_, own (List.mem_singleton_self _), rfl, rfl⟩
  | some relation => exact ⟨_, own List.mem_cons_self, rfl, rfl⟩

/-- Only the members of a group are below it. -/
theorem ConsistsOf.held (consists : sketch.ConsistsOf fans marks) {entry : Entry}
    (member : entry ∈ sketch) {key : String} (isAbove : entry.above? = some (.group key)) :
    ∃ index, entry.place = .member key index := by
  cases (consists entry).mp member with
  | start => contradiction
  | own isMark home own =>
    rcases (above?_own entry own).2 with here | here
    · rcases home with ⟨rfl, _⟩ | ⟨rfl, _⟩ <;>
        exact Place.noConfusion (Option.some.inj (here.symm.trans isAbove))
    · exact Place.noConfusion (Option.some.inj (here.symm.trans isAbove))
  | group isMark isFilter group =>
    rcases List.mem_cons.mp group with rfl | held
    · exact Place.noConfusion (Option.some.inj isAbove)
    · obtain ⟨index, isPlace⟩ := mem_places_members (mem_places.mpr ⟨entry, held, rfl⟩)
      have here := (above?_members entry held).2
      have isGroup := Place.group.inj (Option.some.inj (here.symm.trans isAbove))
      exact ⟨index, isPlace.trans (by rw [isGroup])⟩
  | fan => exact Place.noConfusion (Option.some.inj isAbove)

/-- The fields of an object go to one place. -/
theorem Home.unique {key : String} {place other : Place} (home : Home fans key place)
    (home' : Home fans key other) : place = other := by
  rcases home with ⟨rfl, spreads⟩ | ⟨rfl, whole⟩ <;>
    rcases home' with ⟨rfl, spreads'⟩ | ⟨rfl, whole'⟩
  · rfl
  · exact absurd spreads whole'
  · exact absurd spreads' whole
  · rfl

/-- When an object fans out, the objects of the fields inside it move, and no other nodes of
fields do. -/
theorem rehomed_own {key : String} (whole : ¬fans key) {mark : Mark}
    (entered : mark.around = key →
      ∃ relation? entity filter?, mark.part = .entered relation? entity filter?) :
    ∃ above above', Home fans mark.around above ∧
      Home (fun other => fans other ∨ other = key) mark.around above' ∧
      (ownEntries mark.key above mark.part).map (rehome key) =
        ownEntries mark.key above' mark.part := by
  by_cases same : mark.around = key
  · obtain ⟨relation?, entity, filter?, isPart⟩ := entered same
    refine ⟨.object key, .fan key, .inr ⟨by rw [same], same ▸ whole⟩,
      .inl ⟨by rw [same], .inr same⟩, ?_⟩
    rw [isPart]
    exact map_rehome_own
  · by_cases spreads : fans mark.around
    · exact ⟨.fan mark.around, .fan mark.around, .inl ⟨rfl, spreads⟩, .inl ⟨rfl, .inl spreads⟩,
        map_rehome (not_leads_own fun here => Place.noConfusion here)⟩
    · exact ⟨.object mark.around, .object mark.around, .inr ⟨rfl, spreads⟩,
        .inr ⟨rfl, fun either => either.elim spreads same⟩,
        map_rehome (not_leads_own fun here => same (Place.object.inj here))⟩

/-- A filter below a fan is not moved when an object fans out. -/
theorem rehome_group {key other around : String} {filter : PlannedFilter} {entry : Entry}
    (member : entry ∈ groupEntries key filter (.fan around)) : rehome other entry = entry := by
  refine if_neg fun ⟨isAbove, _⟩ => ?_
  rcases List.mem_cons.mp member with rfl | held
  · exact Place.noConfusion (Option.some.inj isAbove)
  · rw [(above?_members entry held).2] at isAbove
    exact Place.noConfusion (Option.some.inj isAbove)

/-- The fan of another object is not moved when an object fans out. -/
theorem rehome_fanEntry {key other : String} (different : key ≠ other) :
    rehome other (fanEntry key) = fanEntry key :=
  if_neg fun here => different (Place.object.inj (Option.some.inj here.1))

/-- After an object fans out, the sketch has the entries that it should have then. -/
theorem ConsistsOf.spread (consists : sketch.ConsistsOf fans marks) {key : String}
    (whole : ¬fans key) (entered : ∀ mark ∈ marks, mark.around = key →
      ∃ relation? entity filter?, mark.part = .entered relation? entity filter?) :
    (sketch.spread key).ConsistsOf (fun other => fans other ∨ other = key) marks := by
  intro entry
  rw [Sketch.spread, List.mem_append, List.mem_map, List.mem_singleton]
  constructor
  · rintro (⟨old, member, rfl⟩ | rfl)
    · cases (consists old).mp member with
      | start => exact .start
      | own isMark home own =>
        obtain ⟨above, above', was, is', moved⟩ := rehomed_own whole (entered _ isMark)
        obtain rfl := was.unique home
        exact .own isMark is' (moved ▸ List.mem_map_of_mem own)
      | group isMark isFilter group =>
        rw [rehome_group group]
        exact .group isMark isFilter group
      | @fan other spreads =>
        have different : other ≠ key := fun same => whole (same ▸ spreads)
        rw [rehome_fanEntry different]
        exact .fan (.inl spreads)
    · exact .fan (.inr rfl)
  · intro drawn
    cases drawn with
    | start => exact .inl ⟨_, (consists _).mpr .start, rfl⟩
    | own isMark home own =>
      obtain ⟨above, above', was, is', moved⟩ := rehomed_own whole (entered _ isMark)
      obtain rfl := is'.unique home
      rw [← moved] at own
      obtain ⟨old, member, rfl⟩ := List.mem_map.mp own
      exact .inl ⟨old, (consists _).mpr (.own isMark was member), rfl⟩
    | group isMark isFilter group =>
      exact .inl ⟨entry, (consists _).mpr (.group isMark isFilter group), rehome_group group⟩
    | @fan other spreads =>
      by_cases same : other = key
      · exact .inr (same ▸ rfl)
      · exact .inl ⟨_, (consists _).mpr (.fan (spreads.resolve_right same)), rehome_fanEntry same⟩

/-- A field adds its own entries and those of its filter. -/
theorem ConsistsOf.append (consists : sketch.ConsistsOf fans marks) (mark : Mark) {above : Place}
    (home : Home fans mark.around above) :
    ConsistsOf (sketch ++ (ownEntries mark.key above mark.part ++
      (groupTree mark.key mark.part (.fan mark.around)).preorder)) fans (marks ++ [mark]) := by
  have isNew : mark ∈ marks ++ [mark] := List.mem_append_right _ (List.mem_singleton_self _)
  intro entry
  rw [List.mem_append, List.mem_append, preorder_groupTree]
  constructor
  · rintro (old | own | group)
    · exact ((consists entry).mp old).congr (fun _ => Iff.rfl) fun _ => List.mem_append_left _
    · exact .own isNew home own
    · split at group
      · contradiction
      · rename_i filter isFilter
        exact .group isNew isFilter group
  · intro drawn
    cases drawn with
    | start => exact .inl ((consists _).mpr .start)
    | own isMark home' own =>
      rcases List.mem_append.mp isMark with old | new
      · exact .inl ((consists _).mpr (.own old home' own))
      · obtain rfl := List.mem_singleton.mp new
        exact .inr (.inl (home'.unique home ▸ own))
    | group isMark isFilter group =>
      rcases List.mem_append.mp isMark with old | new
      · exact .inl ((consists _).mpr (.group old isFilter group))
      · obtain rfl := List.mem_singleton.mp new
        rw [isFilter]
        exact .inr (.inr group)
    | fan spreads => exact .inl ((consists _).mpr (.fan spreads))

/-- What fans out after one more field. -/
theorem fans_concat {mark : Mark} (new : ∀ other ∈ marks, other.key ≠ mark.key) (key : String) :
    Fans (marks ++ [mark]) key ↔ Fans marks key ∨
      key = mark.around ∧ (key = rootKey → ∃ other ∈ marks, other.around = key) := by
  have isNew : mark ∈ marks ++ [mark] := List.mem_append_right _ (List.mem_singleton_self _)
  constructor
  · rintro ⟨first, isFirst, rfl, two⟩
    rcases List.mem_append.mp isFirst with old | isMark
    · by_cases top : first.around = rootKey
      · obtain ⟨second, isSecond, same, different⟩ := two top
        rcases List.mem_append.mp isSecond with old' | isMark
        · exact .inl ⟨first, old, rfl, fun _ => ⟨second, old', same, different⟩⟩
        · obtain rfl := List.mem_singleton.mp isMark
          exact .inr ⟨same.symm, fun _ => ⟨first, old, rfl⟩⟩
      · exact .inl ⟨first, old, rfl, fun top' => absurd top' top⟩
    · obtain rfl := List.mem_singleton.mp isMark
      refine .inr ⟨rfl, fun top => ?_⟩
      obtain ⟨second, isSecond, same, different⟩ := two top
      refine ⟨second, (List.mem_append.mp isSecond).resolve_right fun again => ?_, same⟩
      exact different (congrArg Mark.key (List.mem_singleton.mp again))
  · rintro (⟨first, isFirst, same, two⟩ | ⟨rfl, two⟩)
    · refine ⟨first, List.mem_append_left _ isFirst, same, fun top => ?_⟩
      obtain ⟨second, isSecond, rest⟩ := two top
      exact ⟨second, List.mem_append_left _ isSecond, rest⟩
    · refine ⟨mark, isNew, rfl, fun top => ?_⟩
      obtain ⟨other, isOther, same⟩ := two top
      exact ⟨other, List.mem_append_left _ isOther, same, new other isOther⟩

/-- **A field added to a sketch adds what it should.** -/
theorem ConsistsOf.add (consists : sketch.ConsistsOf (Fans marks) marks) {mark : Mark}
    (new : ∀ other ∈ marks, other.key ≠ mark.key) (plain : ∀ other ∈ marks, other.Plain)
    (plain' : mark.Plain) :
    (sketch.add mark).ConsistsOf (Fans (marks ++ [mark])) (marks ++ [mark]) := by
  have change {fans : String → Prop} {later : Sketch}
      (consists : later.ConsistsOf fans (marks ++ [mark]))
      (same : ∀ key, fans key ↔ Fans (marks ++ [mark]) key) :
      later.ConsistsOf (Fans (marks ++ [mark])) (marks ++ [mark]) := fun entry =>
    (consists entry).trans ⟨fun drawn => drawn.congr same fun _ => id,
      fun drawn => drawn.congr (fun key => (same key).symm) fun _ => id⟩
  by_cases spreads : Fans marks mark.around
  · -- The object around the field fans out already.
    rw [add_of_fan ((consists.fan_iff _).mpr spreads)]
    apply change (consists.append mark (.inl ⟨rfl, spreads⟩))
    intro key
    rw [fans_concat new]
    exact ⟨.inl, fun either => either.elim id fun here => here.1 ▸ spreads⟩
  · have noFan : .fan mark.around ∉ sketch.places :=
      fun fan => spreads ((consists.fan_iff _).mp fan)
    by_cases first : mark.around = rootKey ∧ ∀ other ∈ marks, other.around ≠ rootKey
    · -- The first field at the root waits for the second.
      obtain ⟨key, around, part⟩ := mark
      obtain ⟨rfl, alone⟩ := first
      have idle : ¬sketch.Leads rootKey := fun leads => by
        obtain ⟨other, isOther, same⟩ := consists.exists_of_leads spreads leads
        exact alone other isOther same
      obtain ⟨relation?, entity, rfl⟩ := plain' rfl
      rw [add_of_root idle noFan]
      have appended := consists.append ⟨key, rootKey, .entered relation? entity none⟩
        (.inr ⟨rfl, spreads⟩)
      rw [preorder_groupTree] at appended
      simp only [Part.filter?, List.append_nil] at appended ⊢
      apply change appended
      intro other
      rw [fans_concat new]
      refine ⟨.inl, fun either => either.resolve_right fun ⟨same, two⟩ => ?_⟩
      obtain ⟨second, isSecond, top⟩ := two same
      exact alone second isSecond (top.trans same)
    · -- The object around the field fans out now.
      have two : mark.around = rootKey → ∃ other ∈ marks, other.around = mark.around := by
        intro top
        by_contra alone
        exact first ⟨top, fun other isOther same => alone ⟨other, isOther, same.trans top.symm⟩⟩
      have entered : ∀ other ∈ marks, other.around = mark.around →
          ∃ relation? entity filter?, other.part = .entered relation? entity filter? := by
        intro other isOther same
        by_cases top : mark.around = rootKey
        · obtain ⟨relation?, entity, isPart⟩ := plain other isOther (same.trans top)
          exact ⟨relation?, entity, _, isPart⟩
        · exact absurd ⟨other, isOther, same, fun top' => absurd top' top⟩ spreads
      have leads : mark.around = rootKey → sketch.Leads rootKey := by
        intro top
        obtain ⟨other, isOther, same⟩ := two top
        have led := consists.leads isOther (same ▸ spreads) (entered other isOther same)
        rwa [same, top] at led
      have spread := consists.spread spreads entered
      rw [add_spread noFan leads, add_of_fan ((spread.fan_iff _).mpr (.inr rfl))]
      apply change (spread.append mark (.inl ⟨rfl, .inr rfl⟩))
      intro key
      rw [fans_concat new]
      exact or_congr Iff.rfl ⟨fun same => ⟨same, fun top => same ▸ two (same ▸ top)⟩, And.left⟩

/-- **The order of fields does not matter to a sketch.** -/
theorem consistsOf_foldl (later : List Mark) : ∀ {sketch : Sketch} {marks : List Mark},
    sketch.ConsistsOf (Fans marks) marks → ((marks ++ later).map Mark.key).Nodup →
    (∀ mark ∈ marks ++ later, mark.Plain) →
    (later.foldl add sketch).ConsistsOf (Fans (marks ++ later)) (marks ++ later) := by
  induction later with
  | nil =>
    intro sketch marks consists _ _
    rwa [List.append_nil]
  | cons mark rest ih =>
    intro sketch marks consists nodup plain
    have new : ∀ other ∈ marks, other.key ≠ mark.key := by
      rw [List.map_append, List.map_cons] at nodup
      exact fun other isOther => (List.nodup_append.mp nodup).2.2 _ (List.mem_map_of_mem isOther) _
        List.mem_cons_self
    rw [List.append_cons] at nodup plain ⊢
    exact ih (consists.add new
      (fun other isOther => plain other (by simp [isOther]))
      (plain mark (by simp))) nodup plain

/-- At first there is only the root. -/
theorem consistsOf_start : start.ConsistsOf (Fans []) [] := by
  intro entry
  constructor
  · intro member
    rw [List.mem_singleton.mp member]
    exact .start
  · intro drawn
    cases drawn with
    | start => exact List.mem_singleton_self _
    | own isMark => contradiction
    | group isMark => contradiction
    | fan spreads =>
      obtain ⟨_, isMark, _⟩ := spreads
      contradiction

end Sketch

end TraversalQuery
