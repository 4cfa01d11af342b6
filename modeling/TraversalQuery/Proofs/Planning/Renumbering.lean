import TraversalQuery.Proofs.Planning.Orders
import TraversalQuery.Proofs.Planning.Visits

/-!
# Plans with their nodes numbered differently

In which order the fields of a request come to a planner shows in the numbers of the nodes of the
plan and in the order in which a quantifier lists what it leads on to, and nowhere else, as long as
the root fields have objects and no filters.
-/

namespace TraversalQuery

namespace Node

/-- A node whose links are those of another, numbered differently. Quantifiers may list what they
lead on to in different orders. -/
def Renumbered (renumber : NodeId → NodeId) : Node → Node → Prop
  | .start next?, .start next?' => next?' = next?.map renumber
  | .entity step next?, .entity step' next?' => step' = step ∧ next?' = next?.map renumber
  | .relation step next?, .relation step' next?' => step' = step ∧ next?' = next?.map renumber
  | .property held, .property held' => held' = held
  | .group kind members, .group kind' members' =>
    kind' = kind ∧ members' = members.map renumber
  | .quantifier kind next, .quantifier kind' next' =>
    kind' = kind ∧ next'.Perm (next.map renumber)
  | _, _ => False

end Node

namespace Plan

/-- A plan that is another with its nodes numbered differently. -/
structure Renumbers (renumber : NodeId → NodeId) (plan other : Plan) : Prop where
  name : other.name? = plan.name?
  ontology : other.ontology? = plan.ontology?
  size : other.size = plan.size
  injective : ∀ {id id'}, id < plan.size → id' < plan.size → renumber id = renumber id' → id = id'
  root : renumber root = root
  nodes : ∀ {id node}, plan.node? id = some node →
    ∃ node', other.node? (renumber id) = some node' ∧ node.Renumbered renumber node'
  parents : ∀ {id}, id < plan.size → other.parent? (renumber id) = (plan.parent? id).map renumber

end Plan

namespace Sketch

/-- The number that the place of a number has in another sketch. -/
def renumber (sketch other : Sketch) (id : NodeId) : NodeId :=
  match sketch.places[id]? with
  | none => id
  | some place => other.places.idxOf place

variable {sketch other : Sketch}

/-- An entry has its new number in the other sketch. -/
theorem renumber_spec (tidy : other.Tidy) (same : ∀ entry, entry ∈ sketch ↔ entry ∈ other)
    {id : NodeId} {entry : Entry} (found : sketch[id]? = some entry) :
    other[sketch.renumber other id]? = some entry := by
  obtain ⟨at', found'⟩ := List.getElem?_of_mem ((same entry).mp (List.mem_of_getElem? found))
  have isPlace := Plan.Matches.places_of_entry found'
  have isNumber : other.places[sketch.renumber other id]? = some entry.place := by
    rw [renumber, Plan.Matches.places_of_entry found]
    exact List.getElem?_idxOf (List.mem_of_getElem? isPlace)
  rw [Plan.Matches.unique tidy isNumber isPlace, found']

/-- A place has its new number in the other sketch. -/
theorem renumber_place (tidy : other.Tidy) (same : ∀ entry, entry ∈ sketch ↔ entry ∈ other)
    {id : NodeId} {place : Place} (isPlace : sketch.places[id]? = some place) :
    other.places[sketch.renumber other id]? = some place := by
  obtain ⟨entry, found, rfl⟩ := Plan.Matches.places_getElem? isPlace
  exact Plan.Matches.places_of_entry (renumber_spec tidy same found)

/-- Tidy sketches with the same entries are equally long. -/
theorem length_eq_of_same (tidy : sketch.Tidy) (tidy' : other.Tidy)
    (same : ∀ entry, entry ∈ sketch ↔ entry ∈ other) : other.length = sketch.length :=
  ((List.perm_ext_iff_of_nodup (.of_map _ tidy'.nodup) (.of_map _ tidy.nodup)).mpr
    fun entry => (same entry).symm).length_eq

end Sketch

namespace Plan

/-- Plans that match sketches with the same entries, in whatever order. -/
structure Likened (plan other : Plan) (sketch sketch' : Sketch) : Prop where
  formed : plan.WellFormed
  formed' : other.WellFormed
  tidy : sketch.Tidy
  tidy' : sketch'.Tidy
  matched : plan.Matches sketch
  matched' : other.Matches sketch'
  same : ∀ entry, entry ∈ sketch ↔ entry ∈ sketch'
  held : ∀ entry ∈ sketch, ∀ key, entry.above? = some (.group key) →
    ∃ index, entry.place = .member key index

namespace Likened

variable {plan other : Plan} {sketch sketch' : Sketch}

/-- Plans for sketches with the same entries have as many nodes. -/
theorem size (likened : Likened plan other sketch sketch') : other.size = plan.size := by
  rw [likened.matched.sizes, likened.matched'.sizes,
    Sketch.length_eq_of_same likened.tidy likened.tidy' likened.same]

/-- Every node of the one plan is a node of the other under its new number. -/
theorem entry (likened : Likened plan other sketch sketch') {id : NodeId}
    (inside : id < plan.size) :
    ∃ entry, sketch[id]? = some entry ∧ sketch'[sketch.renumber sketch' id]? = some entry := by
  have found := List.getElem?_eq_getElem (likened.matched.sizes ▸ inside)
  exact ⟨_, found, Sketch.renumber_spec likened.tidy' likened.same found⟩

/-- A node stands at a place that it fits. -/
theorem fits (likened : Likened plan other sketch sketch') {id : NodeId} {node : Node}
    {entry : Entry} (present : plan.node? id = some node) (found : sketch[id]? = some entry) :
    entry.place.Fits node.bare := by
  obtain ⟨held, isHeld, bare⟩ := likened.matched.nodes found
  obtain rfl := Option.some.inj (present.symm.trans isHeld)
  rw [bare]
  exact likened.tidy.fits entry (List.mem_of_getElem? found)

/-- No two nodes get the same number. -/
theorem injective (likened : Likened plan other sketch sketch') {id id' : NodeId}
    (inside : id < plan.size) (inside' : id' < plan.size)
    (equal : sketch.renumber sketch' id = sketch.renumber sketch' id') : id = id' := by
  obtain ⟨entry, found, there⟩ := likened.entry inside
  obtain ⟨entry', found', there'⟩ := likened.entry inside'
  rw [equal] at there
  obtain rfl := Option.some.inj (there.symm.trans there')
  exact Matches.unique likened.tidy (Matches.places_of_entry found) (Matches.places_of_entry found')

/-- Every node of the other plan has a number in the plan. -/
theorem surjective (likened : Likened plan other sketch sketch') {id' : NodeId}
    (inside : id' < other.size) :
    ∃ id, id < plan.size ∧ sketch.renumber sketch' id = id' := by
  have found' := List.getElem?_eq_getElem (likened.matched'.sizes ▸ inside)
  obtain ⟨id, found⟩ :=
    List.getElem?_of_mem ((likened.same _).mpr (List.mem_of_getElem? found'))
  refine ⟨id, ?_, ?_⟩
  · rw [likened.matched.sizes]
    exact (List.getElem?_eq_some_iff.mp found).1
  · have there := Sketch.renumber_spec likened.tidy' likened.same found
    exact Matches.unique likened.tidy' (Matches.places_of_entry there)
      (Matches.places_of_entry found')

/-- A node and its parent are numbered anew together. -/
theorem parents (likened : Likened plan other sketch sketch') {id : NodeId}
    (inside : id < plan.size) : other.parent? (sketch.renumber sketch' id) =
      (plan.parent? id).map (sketch.renumber sketch') := by
  obtain ⟨entry, found, there⟩ := likened.entry inside
  cases link : plan.parent? id with
  | none =>
    have top := likened.matched.parents found
    rw [link] at top
    cases link' : other.parent? (sketch.renumber sketch' id) with
    | none => rfl
    | some parent =>
      have isPlace := likened.matched'.above?_eq there link'
      have within := likened.formed'.parent_lt_size link'
      rw [likened.matched'.sizes, ← Sketch.length_places] at within
      rw [← top, List.getElem?_eq_getElem within] at isPlace
      contradiction
  | some parent =>
    have isAbove := likened.matched.above?_eq found link
    have within := likened.formed.parent_lt_size link
    rw [likened.matched.sizes, ← Sketch.length_places] at within
    rw [List.getElem?_eq_getElem within] at isAbove
    have isPlace := Sketch.renumber_place likened.tidy' likened.same
      (List.getElem?_eq_getElem within)
    exact likened.matched'.parent?_eq likened.tidy' there isAbove isPlace

/-- A node is the parent of another exactly if it is so under new numbers. -/
theorem parent?_iff (likened : Likened plan other sketch sketch') {id child : NodeId}
    (inside : id < plan.size) (inside' : child < plan.size) :
    other.parent? (sketch.renumber sketch' child) = some (sketch.renumber sketch' id) ↔
      plan.parent? child = some id := by
  rw [likened.parents inside', Option.map_eq_some_iff]
  constructor
  · rintro ⟨parent, link, equal⟩
    rw [link, likened.injective (likened.formed.parent_lt_size link) inside equal]
  · exact fun link => ⟨id, link, rfl⟩

/-- What stands below a node stands below it in the other plan. -/
theorem children (likened : Likened plan other sketch sketch') {id : NodeId}
    (inside : id < plan.size) : (other.children (sketch.renumber sketch' id)).Perm
      ((plan.children id).map (sketch.renumber sketch')) := by
  have within {child : NodeId} (member : child ∈ plan.children id) : child < plan.size :=
    lt_size_of_mem_children member
  have nodup : ((plan.children id).map (sketch.renumber sketch')).Nodup :=
    List.Nodup.map_on (fun _ isFirst _ isSecond =>
      likened.injective (within isFirst) (within isSecond)) (plan.nodup_children id)
  refine (List.perm_ext_iff_of_nodup (other.nodup_children _) nodup).mpr fun child' => ?_
  rw [mem_children, List.mem_map]
  constructor
  · intro link
    obtain ⟨child, inside', rfl⟩ := likened.surjective (lt_size_of_parent? link)
    exact ⟨child, mem_children.mpr ((likened.parent?_iff inside inside').mp link), rfl⟩
  · rintro ⟨child, member, rfl⟩
    exact (likened.parent?_iff inside (within member)).mpr (mem_children.mp member)

/-- A node that is no fan leads on to the same in the other plan. -/
theorem successor? (likened : Likened plan other sketch sketch') {id : NodeId} {node node' : Node}
    (present : plan.node? id = some node)
    (present' : other.node? (sketch.renumber sketch' id) = some node')
    (linear : node.isQuantifier = false) :
    node'.successor? = node.successor?.map (sketch.renumber sketch') := by
  obtain ⟨entry, found, there⟩ := likened.entry (lt_size_of_node? present)
  have isPlace := Matches.places_of_entry found
  have isPlace' := Matches.places_of_entry there
  have noFan : ∀ key, entry.place ≠ .fan key := by
    intro key isFan
    have quantifies := Place.isQuantifier_of_fits (likened.fits present found)
    rw [isFan, Node.isQuantifier_bare, linear] at quantifies
    exact Bool.noConfusion quantifies
  apply Option.ext
  intro target'
  rw [Option.map_eq_some_iff]
  constructor
  · intro leads
    obtain ⟨target, inside, rfl⟩ :=
      likened.surjective (likened.formed'.successor_lt_size present' leads)
    obtain ⟨below, isBelow, isBelow'⟩ := likened.entry inside
    exact ⟨target, (likened.matched.successor?_iff likened.formed likened.tidy isPlace noFan present
      isBelow).mpr ((likened.matched'.successor?_iff likened.formed' likened.tidy' isPlace' noFan
        present' isBelow').mp leads), rfl⟩
  · rintro ⟨target, leads, rfl⟩
    obtain ⟨below, isBelow, isBelow'⟩ :=
      likened.entry (likened.formed.successor_lt_size present leads)
    exact (likened.matched'.successor?_iff likened.formed' likened.tidy' isPlace' noFan present'
      isBelow').mpr ((likened.matched.successor?_iff likened.formed likened.tidy isPlace noFan
        present isBelow).mp leads)

/-- The members of a group have the same order in the other plan. -/
theorem members (likened : Likened plan other sketch sketch') {id : NodeId}
    {kind kind' : Quantifier}
    {members members' : List NodeId} (present : plan.node? id = some (.group kind members))
    (present' : other.node? (sketch.renumber sketch' id) = some (.group kind' members')) :
    members' = members.map (sketch.renumber sketch') := by
  have inside := lt_size_of_node? present
  have lengths : members'.length = members.length := by
    rw [likened.formed.group present, likened.formed'.group present',
      (likened.children inside).length_eq, List.length_map]
  obtain ⟨entry, found, there⟩ := likened.entry inside
  have isPlace := Matches.places_of_entry found
  obtain ⟨key, isGroup⟩ : ∃ key, entry.place = .group key := by
    have fits := likened.fits present found
    cases is : entry.place with
    | group key => exact ⟨key, rfl⟩
    | _ => rw [is] at fits; exact fits.elim
  rw [isGroup] at isPlace
  -- The member of an index stands right at that distance after the group, in both sketches.
  have numbered {index : Nat} (short : index < members.length) :
      sketch.renumber sketch' (id + 1 + index) = sketch.renumber sketch' id + 1 + index := by
    have isMember : id + 1 + index ∈ members := by
      rw [likened.formed.memberPlaces present]
      exact List.mem_range'.mpr ⟨index, short, by rw [Nat.one_mul]⟩
    rw [likened.formed.group present] at isMember
    have link := mem_children.mp isMember
    obtain ⟨below, isBelow, _⟩ := likened.entry (lt_size_of_parent? link)
    have isAbove := (likened.matched.above?_eq isBelow link).trans isPlace
    obtain ⟨index', isPlace'⟩ :=
      likened.held below (List.mem_of_getElem? isBelow) key isAbove
    have atBelow := Matches.places_of_entry isBelow
    rw [isPlace'] at atBelow
    have grouped := likened.tidy.grouped isPlace (List.mem_of_getElem? atBelow)
    have sameIndex : index = index' :=
      Nat.add_left_cancel (Matches.unique likened.tidy atBelow grouped)
    subst sameIndex
    have atBelow' := Sketch.renumber_place likened.tidy' likened.same atBelow
    exact Matches.unique likened.tidy' atBelow' (likened.tidy'.grouped
      (Sketch.renumber_place likened.tidy' likened.same isPlace) (List.mem_of_getElem? atBelow'))
  rw [likened.formed'.memberPlaces present', lengths]
  conv_rhs => rw [likened.formed.memberPlaces present]
  apply List.ext_getElem (by simp)
  intro index short _
  rw [List.length_range'] at short
  rw [List.getElem_map, List.getElem_range', List.getElem_range', Nat.one_mul, numbered short]

/-- **Plans that match sketches with the same entries differ only in their numbers.** -/
theorem renumbers (likened : Likened plan other sketch sketch') (name : other.name? = plan.name?)
    (ontology : other.ontology? = plan.ontology?) :
    Renumbers (sketch.renumber sketch') plan other where
  name := name
  ontology := ontology
  size := likened.size
  injective := likened.injective
  root := Matches.unique likened.tidy'
    (Sketch.renumber_place likened.tidy' likened.same likened.tidy.top) likened.tidy'.top
  nodes := by
    intro id node present
    obtain ⟨entry, found, there⟩ := likened.entry (lt_size_of_node? present)
    obtain ⟨held, isHeld, bare⟩ := likened.matched.nodes found
    obtain rfl := Option.some.inj (present.symm.trans isHeld)
    obtain ⟨node', present', bare'⟩ := likened.matched'.nodes there
    refine ⟨node', present', ?_⟩
    have equal : node'.bare = node.bare := bare'.trans bare.symm
    cases node with
    | start next? =>
      cases node' <;> try contradiction
      exact likened.successor? present present' rfl
    | entity step next? =>
      cases node' <;> try contradiction
      exact ⟨(Node.entity.inj equal).1, likened.successor? present present' rfl⟩
    | relation step next? =>
      cases node' <;> try contradiction
      exact ⟨(Node.relation.inj equal).1, likened.successor? present present' rfl⟩
    | property property =>
      cases node' <;> try contradiction
      exact Node.property.inj equal
    | group kind members =>
      cases node' <;> try contradiction
      exact ⟨(Node.group.inj equal).1, likened.members present present'⟩
    | quantifier kind next =>
      cases node' <;> try contradiction
      refine ⟨(Node.quantifier.inj equal).1, ?_⟩
      rw [likened.formed.fan present, likened.formed'.fan present']
      exact likened.children (lt_size_of_node? present)
  parents := likened.parents

end Likened

end Plan

namespace FieldVisit

variable {ontology : Ontology}

/-- Root fields with objects and without filters are that in plans, too. -/
theorem plain_of_mark? {visits : List FieldVisit} (arranged : Arranged visits)
    (plain : ∀ visit ∈ visits, visit.parent? = none →
      visit.IsComposite ∧ Planner.filterValue? visit.arguments = none)
    {visit : FieldVisit} (member : visit ∈ visits) {mark : Mark}
    (isMark : visit.mark? ontology = some mark) : mark.Plain := by
  obtain ⟨part, isPart, rfl⟩ := Option.map_eq_some_iff.mp isMark
  intro top
  have isRoot : visit.parent? = none := by
    refine (arranged.nested visit member).resolve_right fun ⟨above, isAbove, _, inside⟩ => ?_
    refine arranged.inside above isAbove ?_
    rw [← top]
    exact congrArg ResponsePath.positionKey (parentPath_of_some inside).symm
  obtain ⟨⟨type, isOutput, shape⟩, noFilter⟩ := plain visit member isRoot
  simp only [part?, isOutput, if_pos shape] at isPart
  obtain ⟨entity, _, isPart⟩ := Option.bind_eq_some_iff.mp isPart
  rw [enteredPart?, noFilter] at isPart
  exact ⟨_, _, (Option.some.inj isPart).symm⟩

end FieldVisit

namespace Planner

open FieldVisit (Arranged ParentsFirst)

variable {ontology : Ontology}

/-- A planner that starts from nothing follows a sketch whose entries do not depend on the order of
the fields. -/
theorem consists_of_deliver {visits : List FieldVisit} (arranged : Arranged visits)
    (parentsFirst : ParentsFirst [] visits)
    (plain : ∀ visit ∈ visits, visit.parent? = none →
      visit.IsComposite ∧ filterValue? visit.arguments = none)
    {name? ontology? : Option String} {later : Planner}
    (ran : (deliver ontology visits).on (fresh name? ontology?) = (.ok (), later)) :
    ∃ (marks : List Mark) (sketch : Sketch),
      visits.map (FieldVisit.mark? ontology) = marks.map some ∧ later.Follows sketch ∧
      sketch.ConsistsOf (Sketch.Fans marks) marks ∧
      later.builder.plan.name? = name? ∧ later.builder.plan.ontology? = ontology? := by
  obtain ⟨calls, rfl, script⟩ := transcript_of_deliver ran
  obtain ⟨marks, isMarks, follows⟩ := follows_transcript script rfl (follows_fresh _ _) shows_start
    arranged parentsFirst
  have same : (calls.map (·.visit)).map (FieldVisit.mark? ontology) = marks.map some := by
    rw [List.map_map]
    exact isMarks
  have grown := extends_of_transcript script rfl (ready_fresh name? ontology?)
  have started := Builder.started_eq name? ontology?
  refine ⟨marks, _, same, follows, ?_, ?_, ?_⟩
  · refine Sketch.consistsOf_foldl marks Sketch.consistsOf_start ?_ fun mark member => ?_
    · rw [List.nil_append, FieldVisit.keys_of_marks same]
      exact arranged.keyed
    · have isMark : some mark ∈ marks.map some := List.mem_map_of_mem member
      rw [← same] at isMark
      obtain ⟨visit, isVisit, isMark⟩ := List.mem_map.mp isMark
      exact FieldVisit.plain_of_mark? arranged plain isVisit isMark
  · exact grown.name.trans (congrArg (·.plan.name?) started)
  · exact grown.ontology.trans (congrArg (·.plan.ontology?) started)

/-- **The order of fields does not matter to a plan.** Take the visits of any walk over a compiled
schema whose root fields have objects and no filters. In whatever two orders they come to a planner,
each object before the fields inside it, the plans differ only in the numbers of their nodes and in
the order in which quantifiers list what they lead on to. -/
theorem renumbers_of_deliver {schema : Schema} (compiled : schema.Compiled) {σ ε : Type}
    {resolver : Resolver σ ε} {request : Request} {state : σ} {visits others : List FieldVisit}
    (made : visits.Perm ((schema.calls resolver request state).map (·.visit)))
    (made' : others.Perm ((schema.calls resolver request state).map (·.visit)))
    (parentsFirst : ParentsFirst [] visits) (parentsFirst' : ParentsFirst [] others)
    (plain : ∀ visit ∈ visits, visit.parent? = none →
      visit.IsComposite ∧ filterValue? visit.arguments = none)
    {name? ontology? : Option String} {planner after after' : Planner}
    (begins : ofBuilder (.empty name? ontology?) = .ok planner)
    (ran : (deliver ontology visits).on planner = (.ok (), after))
    (ran' : (deliver ontology others).on planner = (.ok (), after')) :
    ∃ renumber, Plan.Renumbers renumber after.builder.plan after'.builder.plan := by
  rw [ofBuilder_empty] at begins
  obtain rfl := Except.ok.inj begins
  obtain ⟨forest, isForest, arranges, _⟩ := schema.calls_arranged resolver request state
  have walked := arranges.visits compiled
  rw [← isForest] at walked
  have arranged := walked.perm made.symm
  have arranged' := walked.perm made'.symm
  have swapped : visits.Perm others := made.trans made'.symm
  have plain' : ∀ visit ∈ others, visit.parent? = none →
      visit.IsComposite ∧ filterValue? visit.arguments = none :=
    fun visit member => plain visit (swapped.mem_iff.mpr member)
  obtain ⟨marks, sketch, isMarks, follows, consists, name, ontology⟩ :=
    consists_of_deliver arranged parentsFirst plain ran
  obtain ⟨marks', sketch', isMarks', follows', consists', name', ontology'⟩ :=
    consists_of_deliver arranged' parentsFirst' plain' ran'
  have sameMarks : ∀ mark, mark ∈ marks ↔ mark ∈ marks' := by
    have both (mark : Mark) (marks : List Mark) : some mark ∈ marks.map some ↔ mark ∈ marks :=
      List.mem_map_of_injective (Option.some_injective _)
    intro mark
    rw [← both mark marks, ← both mark marks', ← isMarks, ← isMarks']
    exact (swapped.map _).mem_iff
  have same : ∀ entry, entry ∈ sketch ↔ entry ∈ sketch' := by
    intro entry
    rw [consists entry, consists' entry]
    exact ⟨fun drawn => drawn.congr (Sketch.fans_congr sameMarks) fun mark => (sameMarks mark).mp,
      fun drawn => drawn.congr (fun key => (Sketch.fans_congr sameMarks key).symm)
        fun mark => (sameMarks mark).mpr⟩
  have likened : Plan.Likened after.builder.plan after'.builder.plan sketch sketch' :=
    ⟨follows.running.formed, follows'.running.formed, follows.tidy, follows'.tidy, follows.matched,
      follows'.matched, same, fun _ member _ => consists.held member⟩
  exact ⟨_, likened.renumbers (name'.trans name.symm) (ontology'.trans ontology.symm)⟩

/-- Two root fields and what is inside them, in their order and the second first, come to different
plans of which one is the other with its nodes numbered differently. -/
theorem renumbers_of_deliver_people :
    ∃ (model : QueryModel) (visits others : List FieldVisit) (planner after after' : Planner),
      Schema.compileWithFilters [QueryModel.peopleSource] = .ok model.schema ∧
      visits.Perm ((model.calls QueryModel.peopleRequest).map (·.visit)) ∧
      others.Perm ((model.calls QueryModel.peopleRequest).map (·.visit)) ∧
      ParentsFirst [] visits ∧ ParentsFirst [] others ∧
      (∀ visit ∈ visits, visit.parent? = none →
        visit.IsComposite ∧ filterValue? visit.arguments = none) ∧
      ofBuilder (.empty none none) = .ok planner ∧
      (deliver model.ontology visits).on planner = (.ok (), after) ∧
      (deliver model.ontology others).on planner = (.ok (), after') ∧
      after.builder.plan ≠ after'.builder.plan ∧
      ∃ renumber, Plan.Renumbers renumber after.builder.plan after'.builder.plan := by
  have ran : (QueryModel.derive [QueryModel.peopleSource] "people").toOption.any (fun model =>
      let visits := (model.calls QueryModel.peopleRequest).map (·.visit)
      let others := visits.drop 4 ++ visits.take 4
      decide (ParentsFirst [] visits ∧ ParentsFirst [] others ∧
        (∀ visit ∈ visits, visit.parent? = none →
          visit.IsComposite ∧ filterValue? visit.arguments = none) ∧
        ((deliver model.ontology visits).on (fresh none none)).1.toOption = some () ∧
        ((deliver model.ontology others).on (fresh none none)).1.toOption = some () ∧
        ((deliver model.ontology visits).on (fresh none none)).2.builder.plan ≠
          ((deliver model.ontology others).on (fresh none none)).2.builder.plan)) = true := by
    decide +kernel
  obtain ⟨model, derived, holds⟩ := (Option.any_eq_true _ _).mp ran
  have compiled := QueryModel.compiled_of_derive (Except.of_toOption_eq_some derived)
  generalize isVisits : (model.calls QueryModel.peopleRequest).map (·.visit) = visits at holds
  obtain ⟨parentsFirst, parentsFirst', plain, succeeds, succeeds', different⟩ :=
    of_decide_eq_true holds
  have made : visits.Perm ((model.calls QueryModel.peopleRequest).map (·.visit)) := by
    rw [isVisits]
  have swapped : (visits.drop 4 ++ visits.take 4).Perm visits := by
    refine List.perm_append_comm.trans ?_
    rw [List.take_append_drop]
  have begins := ofBuilder_empty none none
  have ran := ExceptT.on_eq_of_toOption succeeds
  have ran' := ExceptT.on_eq_of_toOption succeeds'
  exact ⟨model, visits, _, _, _, _, compiled, made, swapped.trans made, parentsFirst,
    parentsFirst', plain, begins, ran, ran', different,
    renumbers_of_deliver ⟨_, .inr compiled⟩ made (swapped.trans made) parentsFirst parentsFirst'
      plain begins ran ran'⟩

end Planner

end TraversalQuery
