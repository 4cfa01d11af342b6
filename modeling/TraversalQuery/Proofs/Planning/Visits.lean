import TraversalQuery.Proofs.Planning.Fields
import TraversalQuery.Proofs.Schema.Compiled

/-!
# Fields one after another

A planner that starts from nothing and is asked about fields one after another has in the end what
the fields, added one after another, have in their sketch. The order matters only in so far as an
object comes before the fields inside it.
-/

namespace TraversalQuery

namespace FieldVisit

variable {ontology : Ontology}

/-- A field as it is added to sketches, when it is something in plans. -/
def mark? (ontology : Ontology) (visit : FieldVisit) : Option Mark :=
  (visit.part? ontology).map (⟨visit.path.positionKey, visit.parentPath.positionKey, ·⟩)

/-- Visits after others, each of a root field or of one inside a field visited before. -/
def ParentsFirst : List FieldVisit → List FieldVisit → Prop
  | _, [] => True
  | past, visit :: rest =>
    (visit.parent? = none ∨
      ∃ above ∈ past, visit.parent?.map ParentField.path = some above.path) ∧
      ParentsFirst (past ++ [visit]) rest

instance decidableParentsFirst : (past visits : List FieldVisit) →
    Decidable (ParentsFirst past visits)
  | _, [] => inferInstanceAs (Decidable True)
  | past, visit :: rest =>
    have := decidableParentsFirst (past ++ [visit]) rest
    inferInstanceAs (Decidable (_ ∧ _))

/-- What is so of the visits of a walk in whatever order: each is of a field with fields or with a
value, at a place of its own that is not the root, and is a root field or inside one with fields. -/
structure Arranged (visits : List FieldVisit) : Prop where
  shaped : ∀ visit ∈ visits, ∃ output, visit.output? = some output ∧
    (output.kind.isComposite = true ∨ output.kind.isLeaf = true)
  keyed : (visits.map (·.path.positionKey)).Nodup
  inside : ∀ visit ∈ visits, visit.path.positionKey ≠ Sketch.rootKey
  nested : ∀ visit ∈ visits, visit.parent? = none ∨
    ∃ above ∈ visits, above.IsComposite ∧ visit.parent? = some ⟨above.definition, above.path⟩

/-- Whether visits are arranged does not depend on their order. -/
theorem Arranged.perm {visits others : List FieldVisit} (arranged : Arranged visits)
    (same : visits.Perm others) : Arranged others where
  shaped := fun visit member => arranged.shaped visit (same.mem_iff.mpr member)
  keyed := (same.map _).nodup_iff.mp arranged.keyed
  inside := fun visit member => arranged.inside visit (same.mem_iff.mpr member)
  nested := fun visit member => (arranged.nested visit (same.mem_iff.mpr member)).imp id
    fun ⟨above, isAbove, rest⟩ => ⟨above, same.mem_iff.mp isAbove, rest⟩

/-- What is around a visit is known by its place. -/
theorem Arranged.eq_of_path {visits : List FieldVisit} (arranged : Arranged visits)
    {visit other : FieldVisit} (member : visit ∈ visits) (member' : other ∈ visits)
    (same : visit.path = other.path) : visit = other :=
  List.inj_on_of_nodup_map arranged.keyed member member' (congrArg _ same)

/-- The path around a field is that of the field around it, or the root. -/
theorem parentPath_eq (visit : FieldVisit) :
    visit.parentPath = (visit.parent?.map ParentField.path).getD .root := by
  unfold parentPath
  cases visit.parent? <;> rfl

theorem parentPath_of_none {visit : FieldVisit} (top : visit.parent? = none) :
    visit.parentPath = .root := by
  rw [parentPath, top]

theorem parentPath_of_some {visit : FieldVisit} {parent : ParentField}
    (inside : visit.parent? = some parent) : visit.parentPath = parent.path := by
  rw [parentPath, inside]

/-- A field with fields comes to steps to its object. -/
theorem entered_of_isComposite {ontology : Ontology} {visit : FieldVisit} {part : Part}
    (composite : visit.IsComposite) (isPart : visit.part? ontology = some part) :
    ∃ relation? entity filter?, part = .entered relation? entity filter? := by
  obtain ⟨type, isOutput, shape⟩ := composite
  simp only [part?, isOutput, if_pos shape] at isPart
  obtain ⟨entity, _, isPart⟩ := Option.bind_eq_some_iff.mp isPart
  unfold enteredPart? at isPart
  split at isPart
  · exact ⟨_, _, _, (Option.some.inj isPart).symm⟩
  · obtain ⟨filter, _, rfl⟩ := Option.map_eq_some_iff.mp isPart
    exact ⟨_, _, _, rfl⟩

/-- The keys of marks are those of the paths that are visited. -/
theorem keys_of_marks {visits : List FieldVisit} {marks : List Mark}
    (same : visits.map (mark? ontology) = marks.map some) :
    marks.map Mark.key = visits.map (·.path.positionKey) := by
  induction visits generalizing marks with
  | nil => rw [List.map_eq_nil_iff.mp same.symm]; rfl
  | cons visit rest ih =>
    obtain ⟨mark, later, rfl, isMark, sameRest⟩ := List.map_eq_cons_iff.mp same.symm
    obtain ⟨part, _, rfl⟩ := Option.map_eq_some_iff.mp isMark.symm
    rw [List.map_cons, List.map_cons, ih sameRest.symm]

/-- A field is something in plans exactly if it has a part. -/
theorem map_part_mark? (visit : FieldVisit) :
    (visit.mark? ontology).map Mark.part = visit.part? ontology := by
  rw [mark?, Option.map_map]
  exact Option.map_id'

end FieldVisit

namespace ResolverCall

variable {σ ε : Type}

/-- Visits come after those around them if the calls do. -/
theorem ParentsFirst.visits {past calls : List (ResolverCall σ ε)}
    (parentsFirst : ParentsFirst past calls) :
    FieldVisit.ParentsFirst (past.map visit) (calls.map visit) := by
  induction calls generalizing past with
  | nil => trivial
  | cons call rest ih =>
    refine ⟨parentsFirst.1.imp id fun ⟨above, member, holds⟩ =>
      ⟨above.visit, List.mem_map_of_mem member, by rw [holds.inside]; rfl⟩, ?_⟩
    have later := ih parentsFirst.2
    rwa [List.map_append, List.map_singleton] at later

/-- Every call is for a root field or comes with one that holds it. -/
theorem ParentsFirst.nested {past calls : List (ResolverCall σ ε)}
    (parentsFirst : ParentsFirst past calls) : ∀ call ∈ calls, call.visit.parent? = none ∨
      ∃ above ∈ past ++ calls, above.Holds call := by
  induction calls generalizing past with
  | nil => exact List.forall_mem_nil _
  | cons call rest ih =>
    refine List.forall_mem_cons.mpr ⟨parentsFirst.1.imp id fun ⟨above, member, holds⟩ =>
      ⟨above, List.mem_append_left _ member, holds⟩, ?_⟩
    have later := ih parentsFirst.2
    rwa [List.append_assoc, List.singleton_append] at later

end ResolverCall

/-- The visits of a walk over a compiled schema are arranged, in whatever order. -/
theorem Schema.Arranges.visits {σ ε : Type} {schema : Schema} (compiled : schema.Compiled)
    {forest : Forest (ResolverCall σ ε)} (arranges : schema.Arranges forest) :
    FieldVisit.Arranged (forest.preorder.map (·.visit)) where
  shaped := by
    refine List.forall_mem_map.mpr fun call member => ?_
    have known := arranges.known call member
    obtain ⟨output, isOutput, shape⟩ :=
      compiled.isOutput _ known.type _ known.field
    exact ⟨output, known.output.trans isOutput, shape⟩
  keyed := by
    rw [List.map_map]
    exact arranges.keyed
  inside := by
    refine List.forall_mem_map.mpr fun call member same => ?_
    have top : ResponsePath.root.fieldPath.Named := ResponsePath.named_root
    exact arranges.inside call member
      (ResponsePath.positionKey_injective (arranges.named call member) top same)
  nested := by
    refine List.forall_mem_map.mpr fun call member => ?_
    refine (arranges.parentsFirst.nested call member).imp id fun ⟨above, isAbove, holds⟩ => ?_
    exact ⟨above.visit, List.mem_map_of_mem isAbove, holds.composite, holds.inside⟩

namespace Planner

open FieldVisit (Arranged ParentsFirst)

variable {planner later : Planner} {sketch : Sketch} {ontology : Ontology}

/-- What has been visited is in the sketch, and nothing else is. -/
structure Shows (sketch : Sketch) (past : List FieldVisit) : Prop where
  objects : ∀ visit ∈ past, visit.IsComposite → .object visit.path.positionKey ∈ sketch.places
  visited : ∀ place ∈ sketch.places, place.key = Sketch.rootKey ∨
    ∃ visit ∈ past, visit.path.positionKey = place.key

/-- Asks a planner about fields one after another. -/
def deliver (ontology : Ontology) : List FieldVisit → Planning Unit
  | [] => return ()
  | visit :: rest => do
    let _ ← resolve ontology visit
    deliver ontology rest

/-- Delivered visits are a transcript of calls of the planner. -/
theorem transcript_of_deliver {visits : List FieldVisit} :
    ∀ {planner : Planner}, (deliver ontology visits).on planner = (.ok (), later) →
      ∃ calls : List (ResolverCall Planner PlanError), calls.map (·.visit) = visits ∧
        Resolver.Transcript (resolve ontology) planner calls none later := by
  induction visits with
  | nil =>
    intro planner ran
    cases ran
    exact ⟨[], rfl, .done _⟩
  | cons visit rest ih =>
    intro planner ran
    obtain ⟨answer, between, answers, ran⟩ := ExceptT.of_on_bind ran
    obtain ⟨calls, same, script⟩ := ih ran
    exact ⟨⟨visit, planner, .ok answer⟩ :: calls, by rw [List.map_cons, same],
      .step answers script⟩

/-- A planner that is asked about fields only adds to its plan. -/
theorem extends_of_transcript {calls : List (ResolverCall Planner PlanError)}
    {failure? : Option PlanError}
    (script : Resolver.Transcript (resolve ontology) planner calls failure? later)
    (success : failure? = none) (ready : planner.Ready) :
    planner.builder.plan.Extends later.builder.plan := by
  induction script with
  | done => exact .refl _
  | failed => contradiction
  | @step _ _ _ visit _ _ _ answers _ ih =>
    have legal := legal_resolve ready ontology visit
    rw [Legal, answers] at legal
    exact legal.2.1.grown.trans (ih success legal.1)

/-- A planner follows the empty sketch when it begins. -/
theorem follows_fresh (name? ontology? : Option String) :
    (fresh name? ontology?).Follows Sketch.start where
  running := Builder.running_started name? ontology?
  tidy := Sketch.tidy_start
  matched := {
    sizes := rfl
    nodes := fun {id entry} found => by
      cases id with
      | zero => exact ⟨_, rfl, congrArg Entry.node (Option.some.inj found)⟩
      | succ id => contradiction
    parents := fun {id entry} found => by
      cases id with
      | zero => exact congrArg Entry.above? (Option.some.inj found)
      | succ id => contradiction }
  notes := by
    intro path id
    have anchors : Sketch.start.anchor path.positionKey = .object path.positionKey :=
      if_neg fun fans => Place.noConfusion (List.mem_singleton.mp fans)
    have known : (fresh name? ontology?).position? path =
        if path.positionKey = Sketch.rootKey then some Plan.root else none :=
      position?_record ⟨.started name? ontology?, .empty⟩ .root path Plan.root
    rw [known, anchors]
    split
    · rename_i same
      rw [same]
      cases id with
      | zero => exact ⟨fun _ => rfl, fun _ => rfl⟩
      | succ id => exact ⟨fun found => Nat.noConfusion (Option.some.inj found), nofun⟩
    · rename_i other
      refine ⟨nofun, fun found => absurd ?_ other⟩
      exact Place.object.inj (List.mem_singleton.mp (List.mem_of_getElem? found))

/-- The empty sketch shows nothing. -/
theorem shows_start : Shows Sketch.start [] where
  objects := List.forall_mem_nil _
  visited := fun place member => .inl (by rw [List.mem_singleton.mp member]; rfl)

/-- The object around a visited field. -/
theorem Shows.around {past : List FieldVisit} (shows : Shows sketch past) (tidy : sketch.Tidy)
    {visit : FieldVisit} (inside : visit.parent? = none ∨ ∃ above ∈ past,
      above.IsComposite ∧ visit.parent? = some ⟨above.definition, above.path⟩) :
    .object visit.parentPath.positionKey ∈ sketch.places := by
  rcases inside with top | ⟨above, member, composite, inside⟩
  · rw [FieldVisit.parentPath_of_none top]
    exact List.mem_of_getElem? tidy.top
  · rw [FieldVisit.parentPath_of_some inside]
    exact shows.objects above member composite

/-- A sketch shows one more field when it is added. -/
theorem Shows.add {past : List FieldVisit} (shows : Shows sketch past) {visit : FieldVisit}
    (present : .object visit.parentPath.positionKey ∈ sketch.places) {part : Part}
    (isPart : visit.part? ontology = some part) :
    Shows (sketch.add ⟨visit.path.positionKey, visit.parentPath.positionKey, part⟩)
      (past ++ [visit]) where
  objects := by
    refine List.forall_mem_append.mpr ⟨fun other member composite => ?_,
      List.forall_mem_singleton.mpr fun composite => ?_⟩
    · refine Sketch.places_subset_add _ _ ?_
      rw [Sketch.places_append]
      exact List.mem_append_left _
        (Sketch.places_subset_fanned _ _ (shows.objects other member composite))
    · refine Sketch.places_subset_add _ _ ?_
      rw [Sketch.places_append]
      refine List.mem_append_right _ ?_
      obtain ⟨_ | relation, entity, filter?, rfl⟩ :=
        FieldVisit.entered_of_isComposite composite isPart
      · exact List.mem_singleton_self _
      · exact List.mem_cons_of_mem _ (List.mem_singleton_self _)
  visited := by
    have old {place : Place} (member : place ∈ sketch.places) : place.key = Sketch.rootKey ∨
        ∃ other ∈ past ++ [visit], other.path.positionKey = place.key :=
      (shows.visited place member).imp id fun ⟨other, isOther, same⟩ =>
        ⟨other, List.mem_append_left _ isOther, same⟩
    intro place member
    rcases Sketch.mem_places_add member with member | isKey | rfl
    · exact old member
    · exact .inr ⟨visit, List.mem_append_right _ (List.mem_singleton_self _), isKey.symm⟩
    · have around := old present
      exact around

/-- **Planners follow the sketches of what they are asked about.** If no call fails, every field
comes to something in the plan, and the planner follows the sketch that all of them are added to. -/
theorem follows_transcript {calls : List (ResolverCall Planner PlanError)}
    {failure? : Option PlanError}
    (script : Resolver.Transcript (resolve ontology) planner calls failure? later)
    (success : failure? = none) {past : List FieldVisit} (follows : planner.Follows sketch)
    (shows : Shows sketch past) (arranged : Arranged (past ++ calls.map (·.visit)))
    (parentsFirst : ParentsFirst past (calls.map (·.visit))) :
    ∃ marks : List Mark, calls.map (·.visit.mark? ontology) = marks.map some ∧
      later.Follows (marks.foldl Sketch.add sketch) := by
  induction script generalizing past sketch with
  | done => exact ⟨[], rfl, follows⟩
  | failed => contradiction
  | @step planner between after visit answer rest failure? answers script ih =>
    rw [List.map_cons] at arranged parentsFirst
    have member : visit ∈ past ++ visit :: rest.map (·.visit) :=
      List.mem_append_right _ List.mem_cons_self
    obtain ⟨output, isOutput, shaped⟩ := arranged.shaped visit member
    -- The field around the visit has been visited, and it is the one with fields.
    have inside : visit.parent? = none ∨ ∃ above ∈ past, above.IsComposite ∧
        visit.parent? = some ⟨above.definition, above.path⟩ := by
      refine parentsFirst.1.imp id fun ⟨above, isAbove, isParent⟩ => ?_
      rcases arranged.nested visit member with top | ⟨other, isOther, composite, isParent'⟩
      · rw [top] at isParent
        contradiction
      · rw [isParent'] at isParent
        obtain rfl := arranged.eq_of_path isOther (List.mem_append_left _ isAbove)
          (Option.some.inj isParent)
        exact ⟨other, isAbove, composite, isParent'⟩
    have present := shows.around follows.tidy inside
    have root : visit.parent?.isNone = true ↔ visit.parentPath.positionKey = Sketch.rootKey := by
      rcases inside with top | ⟨above, isAbove, _, isParent⟩
      · rw [FieldVisit.parentPath_of_none top, top]
        exact ⟨fun _ => rfl, fun _ => rfl⟩
      · rw [FieldVisit.parentPath_of_some isParent, isParent]
        refine ⟨nofun, fun top => absurd top ?_⟩
        exact arranged.inside above (List.mem_append_left _ isAbove)
    have keyed := arranged.keyed
    rw [List.map_append, List.map_cons] at keyed
    have fresh : sketch.Fresh visit.path.positionKey := by
      intro place isPlace same
      rcases shows.visited place isPlace with top | ⟨other, isOther, isKey⟩
      · exact arranged.inside visit member (same.symm.trans top)
      · exact (List.nodup_append.mp keyed).2.2 _ (List.mem_map_of_mem isOther) _
          List.mem_cons_self (isKey.trans same)
    obtain ⟨part, isPart, follows⟩ :=
      follows_resolve follows isOutput shaped present root fresh answers
    rw [← List.singleton_append, ← List.append_assoc] at arranged
    obtain ⟨marks, same, follows⟩ :=
      ih success follows (shows.add present isPart) arranged parentsFirst.2
    refine ⟨⟨visit.path.positionKey, visit.parentPath.positionKey, part⟩ :: marks, ?_, follows⟩
    rw [List.map_cons, List.map_cons, same, FieldVisit.mark?, isPart, Option.map_some]

end Planner

end TraversalQuery
