import TraversalQuery.Proofs.Response.Offers
import TraversalQuery.Proofs.Response.Order

/-!
# The objects that a walk reaches

A walk reaches the root, and every object that a call was answered with. For each of these objects
it knows the selections on it: those of the operation on the root, and else those inside the fields
that were merged for the call. Every call is for the first field of a group that is collected for an
object the walk reaches, and the calls for the fields of that object follow the groups.
-/

namespace TraversalQuery

namespace Forest

variable {α : Type}

/-- A label with the forest below it, somewhere in a forest. -/
inductive Hangs (label : α) (below : Forest α) : Forest α → Prop
  | here {rest : Forest α} : Hangs label below (.node label below rest)
  | inside {other : α} {inner rest : Forest α} (deeper : Hangs label below inner) :
      Hangs label below (.node other inner rest)
  | beside {other : α} {inner rest : Forest α} (later : Hangs label below rest) :
      Hangs label below (.node other inner rest)

variable {label : α} {below forest : Forest α}

/-- What hangs below something that hangs in a forest hangs there as well. -/
theorem Hangs.trans_inner (hangs : Hangs label below forest) {other : α} {inner : Forest α}
    (deeper : Hangs other inner below) : Hangs other inner forest := by
  induction hangs with
  | here => exact .inside deeper
  | inside _ ih => exact .inside ih
  | beside _ ih => exact .beside ih

/-- What hangs in a forest is one of its labels. -/
theorem Hangs.mem (hangs : Hangs label below forest) : label ∈ forest.preorder := by
  induction hangs with
  | here => exact List.mem_cons_self
  | inside _ ih => exact List.mem_cons_of_mem _ (List.mem_append_left _ ih)
  | beside _ ih => exact List.mem_cons_of_mem _ (List.mem_append_right _ ih)

end Forest

namespace QueryScope

variable {σ ε : Type} {scope : QueryScope}

/-- The path around a field that is visited is that of the field around it, or the root. -/
theorem parentPath_visit (scope : QueryScope) (object : SchemaType) (definition : OutputField)
    (key : String) (field : Field) (path : ResponsePath) (parent? : Option ParentField) :
    (scope.visit object definition key field path parent?).parentPath =
      parent?.elim .root (·.path) := by
  cases parent? <;> rfl

/-- A call is for a field around which is the path of the object. -/
theorem parentPath_of_visited {call : ResolverCall σ ε} {object : SchemaType}
    {definition : OutputField} {key : String} {field : Field} {path : ResponsePath}
    {parent? : Option ParentField}
    (visited : call.visit = scope.visit object definition key field path parent?)
    (around : path = parent?.elim .root (·.path)) : call.visit.parentPath = path := by
  rw [visited, parentPath_visit, ← around]

/-- The objects that calls lead to, each with its path, the field around it and what is selected on
it. -/
inductive Reached (scope : QueryScope) (root : SchemaType) (selections : List Selection)
    (calls : List (ResolverCall σ ε)) :
    SchemaType → ResponsePath → Option ParentField → List Selection → Prop
  | root : Reached scope root selections calls root .root none selections
  | inside {object type : SchemaType} {path : ResponsePath} {parent? : Option ParentField}
      {around : List Selection} {key : String} {first : SelectedField}
      {others : List SelectedField} {definition : OutputField} {call : ResolverCall σ ε}
      (outer : Reached scope root selections calls object path parent? around)
      (group : (key, first :: others) ∈ scope.collect object around)
      (defined : object.field? first.field.name = some definition)
      (member : call ∈ calls)
      (asked : call.visit = scope.visit object definition key first.field path parent?)
      (answered : call.answer = .ok .object) (declared : call.visit.output? = some type) :
      Reached scope root selections calls (scope.schema.runtimeType type) call.visit.path
        (some ⟨call.visit.definition, call.visit.path⟩)
        ((first :: others).flatMap (·.selections))

/-- Only fields of the query are selected on the objects that a walk reaches. -/
theorem Reached.fieldsOf_subset {root object : SchemaType} {path : ResponsePath}
    {parent? : Option ParentField} {selections around : List Selection}
    {calls : List (ResolverCall σ ε)}
    (reached : scope.Reached root selections calls object path parent? around) :
    Selection.fieldsOf around ⊆ scope.allFields selections := by
  induction reached with
  | root => exact List.subset_append_left _ _
  | inside outer group defined member visited answered declared ih =>
    refine Selection.fieldsOf_flatMap_subset fun part isPart => ?_
    have offers := (each_collect _ _ _).good _ group part isPart
    exact (offers.subset (scope.fieldsOf_subset_allFields selections) ih).2

/-- A call for the first field of a group of an object that the walk reaches. -/
def Prompted (scope : QueryScope) (root : SchemaType) (selections : List Selection)
    (calls : List (ResolverCall σ ε)) (call : ResolverCall σ ε) : Prop :=
  ∃ object path parent? around key first others definition,
    scope.Reached root selections calls object path parent? around ∧
      (key, first :: others) ∈ scope.collect object around ∧
      first.field.name ≠ "__typename" ∧
      object.field? first.field.name = some definition ∧
      call.visit = scope.visit object definition key first.field path parent?

section

variable {root object : SchemaType} {path : ResponsePath} {parent? : Option ParentField}
  {selections around : List Selection} {calls : List (ResolverCall σ ε)} {groups : FieldGroups}
  {whole : Bool} {forest : Forest (ResolverCall σ ε)}

/-- Every call is prompted by a field that is selected on an object that the walk reaches. -/
theorem Asked.prompted (asked : scope.Asked object path parent? groups whole forest) :
    ∀ {around : List Selection}, scope.Reached root selections calls object path parent? around →
      groups ⊆ scope.collect object around → forest.preorder ⊆ calls →
        ∀ call ∈ forest.preorder, scope.Prompted root selections calls call := by
  induction asked with
  | stop => exact fun _ _ _ => List.forall_mem_nil _
  | done => exact fun _ _ _ => List.forall_mem_nil _
  | silent _ _ ih =>
    intro around reached within made
    exact ih reached (List.subset_of_cons_subset within) made
  | value proper defined visited plain later ih =>
    intro around reached within made
    obtain ⟨group, within⟩ := List.cons_subset.mp within
    refine List.forall_mem_cons.mpr ⟨?_, ih reached within (List.subset_of_cons_subset made)⟩
    exact ⟨_, _, _, _, _, _, _, _, reached, group, proper, defined, visited⟩
  | object proper defined visited answered declared inner through later ihInner ihLater =>
    intro around reached within made
    obtain ⟨group, within⟩ := List.cons_subset.mp within
    obtain ⟨member, made⟩ := List.cons_subset.mp made
    obtain ⟨below, beside⟩ := List.append_subset.mp made
    refine List.forall_mem_cons.mpr ⟨?_, List.forall_mem_append.mpr
      ⟨ihInner ?_ (List.Subset.refl _) below, ihLater reached within beside⟩⟩
    · exact ⟨_, _, _, _, _, _, _, _, reached, group, proper, defined, visited⟩
    · have here := Reached.inside reached group defined member visited answered declared
      rw [visited] at here ⊢
      exact here

/-- The calls for the fields of the object at a path. -/
def callsAt (calls : List (ResolverCall σ ε)) (path : ResponsePath) : List (ResolverCall σ ε) :=
  calls.filter fun call => call.visit.parentPath = path

/-- The calls at a path are found in calls one after another. -/
theorem callsAt_append (calls more : List (ResolverCall σ ε)) (path : ResponsePath) :
    callsAt (calls ++ more) path = callsAt calls path ++ callsAt more path :=
  List.filter_append _ _

/-- There are no calls at a path if all are elsewhere. -/
theorem callsAt_eq_nil {path : ResponsePath} {calls : List (ResolverCall σ ε)}
    (elsewhere : ∀ call ∈ calls, call.visit.parentPath ≠ path) : callsAt calls path = [] :=
  List.filter_eq_nil_iff.mpr fun call member => by simpa using elsewhere call member

theorem callsAt_cons_of_eq {call : ResolverCall σ ε} {path : ResponsePath}
    (here : call.visit.parentPath = path) (calls : List (ResolverCall σ ε)) :
    callsAt (call :: calls) path = call :: callsAt calls path :=
  List.filter_cons_of_pos (by simpa using here)

theorem callsAt_cons_of_ne {call : ResolverCall σ ε} {path : ResponsePath}
    (elsewhere : call.visit.parentPath ≠ path) (calls : List (ResolverCall σ ε)) :
    callsAt (call :: calls) path = callsAt calls path :=
  List.filter_cons_of_neg (by simpa using elsewhere)

/-- Every call is for a field of the object or of one further inside. -/
theorem Asked.beyond (asked : scope.Asked object path parent? groups whole forest)
    (around : path = parent?.elim .root (·.path)) : ∀ call ∈ forest.preorder,
      path.fieldPath.segments <+: call.visit.parentPath.fieldPath.segments := by
  induction asked with
  | stop => exact List.forall_mem_nil _
  | done => exact List.forall_mem_nil _
  | silent _ _ ih => exact ih around
  | value proper defined visited plain later ih =>
    have here := parentPath_of_visited visited around
    exact List.forall_mem_cons.mpr ⟨here ▸ List.prefix_rfl, ih around⟩
  | object proper defined visited answered declared inner through later ihInner ihLater =>
    have here := parentPath_of_visited visited around
    refine List.forall_mem_cons.mpr ⟨here ▸ List.prefix_rfl, List.forall_mem_append.mpr
      ⟨fun below member => ?_, ihLater around⟩⟩
    have inside := ihInner rfl below member
    rw [visited, FieldVisit.fieldPath_visit] at inside
    exact (List.prefix_append _ _).trans inside

/-- Nothing inside a field is a field of the object around it. -/
theorem Asked.elsewhere {key : String} {inside : ResponsePath}
    (asked : scope.Asked object inside parent? groups whole forest)
    (around : inside = parent?.elim .root (·.path)) (path : ResponsePath)
    (deeper : inside.fieldPath = path.fieldPath.child key) :
    ∀ call ∈ forest.preorder, call.visit.parentPath ≠ path := by
  intro call member same
  have sizes := (asked.beyond around call member).length_le
  rw [deeper, same, ResponsePath.child, List.length_append] at sizes
  exact absurd sizes (Nat.not_succ_le_self _)

/-- The calls for the fields of an object are those on top. -/
theorem Asked.callsAt_self (asked : scope.Asked object path parent? groups whole forest)
    (around : path = parent?.elim .root (·.path)) :
    callsAt forest.preorder path = forest.roots := by
  induction asked with
  | stop => rfl
  | done => rfl
  | silent _ _ ih => exact ih around
  | value proper defined visited plain later ih =>
    have here := parentPath_of_visited visited around
    rw [Forest.preorder, callsAt_cons_of_eq here, Forest.preorder, List.nil_append, ih around,
      Forest.roots]
  | @object _ _ path _ _ _ _ _ _ _ _ _ _ _ proper defined visited answered declared inner through
      later ihInner ihLater =>
    have here := parentPath_of_visited visited around
    have deeper := inner.elsewhere rfl path (by rw [visited, FieldVisit.fieldPath_visit])
    rw [Forest.preorder, callsAt_cons_of_eq here, callsAt_append, callsAt_eq_nil deeper,
      List.nil_append, ihLater around, Forest.roots]

/-- A path is none of those inside it. -/
theorem ne_of_deeper {path inside : ResponsePath} {key : String}
    (deeper : (path.fieldPath.child key).segments <+: inside.fieldPath.segments) :
    path ≠ inside := by
  rintro rfl
  have sizes := deeper.length_le
  rw [ResponsePath.child, List.length_append] at sizes
  exact absurd sizes (Nat.not_succ_le_self _)

/-- Nothing inside the fields of some groups is a field of an object inside another one. -/
theorem Asked.apart (asked : scope.Asked object path parent? groups whole forest)
    (around : path = parent?.elim .root (·.path)) {key : String} (fresh : key ∉ groups.keys)
    {inside : ResponsePath}
    (deeper : (path.fieldPath.child key).segments <+: inside.fieldPath.segments) :
    ∀ call ∈ forest.preorder, call.visit.parentPath ≠ inside := by
  rintro call member rfl
  obtain ⟨other, isKey, under⟩ := asked.under call member
  have longer := deeper.trans (asked.extends around call member).under
  exact fresh (key_of_shared longer under ▸ isKey)

/-- The calls at a place under one of two groups do not meet those under the other. -/
theorem Asked.callsAt_node (later : scope.Asked object path parent? groups whole forest)
    (around : path = parent?.elim .root (·.path)) {key : String} (fresh : key ∉ groups.keys)
    {top : ResolverCall σ ε} (outside : top.visit.parentPath = path)
    (here : top.visit.path.fieldPath = path.fieldPath.child key)
    {inner : Forest (ResolverCall σ ε)}
    (self : callsAt inner.preorder top.visit.path = inner.roots)
    (beyond : ∀ call ∈ inner.preorder, call.visit.Extends ∧
      top.visit.path.fieldPath.segments <+: call.visit.parentPath.fieldPath.segments)
    (deeper : ∀ {call below}, Forest.Hangs call below inner →
      callsAt inner.preorder call.visit.path = below.roots)
    (beside : ∀ {call below}, Forest.Hangs call below forest →
      callsAt forest.preorder call.visit.path = below.roots)
    {call : ResolverCall σ ε} {below : Forest (ResolverCall σ ε)}
    (hangs : Forest.Hangs call below (.node top inner forest)) :
    callsAt (Forest.node top inner forest).preorder call.visit.path = below.roots := by
  have split {inside : ResponsePath} {other : String}
      (under : (path.fieldPath.child other).segments <+: inside.fieldPath.segments) :
      callsAt (Forest.node top inner forest).preorder inside =
        callsAt inner.preorder inside ++ callsAt forest.preorder inside := by
    rw [Forest.preorder, callsAt_cons_of_ne (outside ▸ ne_of_deeper under), callsAt_append]
  cases hangs with
  | here =>
    have under : (path.fieldPath.child key).segments <+: top.visit.path.fieldPath.segments :=
      here ▸ List.prefix_rfl
    rw [split under, self, callsAt_eq_nil (later.apart around fresh under), List.append_nil]
  | inside hangs =>
    obtain ⟨extended, under⟩ := beyond call hangs.mem
    rw [here] at under
    have under := under.trans extended.under
    rw [split under, deeper hangs, callsAt_eq_nil (later.apart around fresh under),
      List.append_nil]
  | beside hangs =>
    obtain ⟨other, isKey, under⟩ := later.under call hangs.mem
    rw [split under, beside hangs, callsAt_eq_nil, List.nil_append]
    rintro between member same
    have under' := (beyond between member).2
    rw [here, same] at under'
    exact fresh (key_of_shared under' under ▸ isKey)

/-- The calls for the fields of the object that a call was answered with are on top of what is below
the call. -/
theorem Asked.callsAt_hangs (asked : scope.Asked object path parent? groups whole forest)
    (around : path = parent?.elim .root (·.path)) (nodup : groups.keys.Nodup)
    {call : ResolverCall σ ε} {below : Forest (ResolverCall σ ε)}
    (hangs : Forest.Hangs call below forest) :
    callsAt forest.preorder call.visit.path = below.roots := by
  induction asked generalizing call below with
  | stop => cases hangs
  | done => cases hangs
  | silent _ _ ih => exact ih around (List.nodup_cons.mp nodup).2 hangs
  | value proper defined visited plain later ih =>
    obtain ⟨fresh, nodup⟩ := List.nodup_cons.mp nodup
    refine later.callsAt_node around fresh ?_ ?_ rfl (List.forall_mem_nil _)
      (fun none => by cases none) (ih around nodup) hangs
    · exact parentPath_of_visited visited around
    · rw [visited, FieldVisit.fieldPath_visit]
  | object proper defined visited answered declared inner through later ihInner ihLater =>
    obtain ⟨fresh, nodup⟩ := List.nodup_cons.mp nodup
    refine later.callsAt_node around fresh ?_ ?_ (inner.callsAt_self rfl) (fun call member =>
      ⟨inner.extends rfl call member, inner.beyond rfl call member⟩)
      (ihInner rfl (each_collect _ _ _).nodup) (ihLater around nodup) hangs
    · exact parentPath_of_visited visited around
    · rw [visited, FieldVisit.fieldPath_visit]

/-- What the calls on top are for. -/
theorem Asked.visited {groups : FieldGroups} {whole : Bool} {forest : Forest (ResolverCall σ ε)}
    (asked : scope.Asked object path parent? groups whole forest) {call : ResolverCall σ ε}
    (member : call ∈ forest.roots) : ∃ key first others definition,
      (key, first :: others) ∈ groups ∧ first.field.name ≠ "__typename" ∧
      object.field? first.field.name = some definition ∧
      call.visit = scope.visit object definition key first.field path parent? := by
  induction asked with
  | stop => cases member
  | done => cases member
  | silent _ _ ih =>
    obtain ⟨key, first, others, definition, group, rest⟩ := ih member
    exact ⟨key, first, others, definition, List.mem_cons_of_mem _ group, rest⟩
  | value proper defined visited plain later ih =>
    rcases List.mem_cons.mp member with rfl | member
    · exact ⟨_, _, _, _, List.mem_cons_self, proper, defined, visited⟩
    · obtain ⟨key, first, others, definition, group, rest⟩ := ih member
      exact ⟨key, first, others, definition, List.mem_cons_of_mem _ group, rest⟩
  | object proper defined visited answered declared inner through later ihInner ihLater =>
    rcases List.mem_cons.mp member with rfl | member
    · exact ⟨_, _, _, _, List.mem_cons_self, proper, defined, visited⟩
    · obtain ⟨key, first, others, definition, group, rest⟩ := ihLater member
      exact ⟨key, first, others, definition, List.mem_cons_of_mem _ group, rest⟩

/-- What was asked below a call on top that was answered with an object. -/
theorem Asked.inner (asked : scope.Asked object path parent? groups whole forest)
    {call : ResolverCall σ ε} {type : SchemaType} (member : call ∈ forest.roots)
    (answered : call.answer = .ok .object) (declared : call.visit.output? = some type) :
    ∃ key first others definition inside below, (key, first :: others) ∈ groups ∧
      call.visit = scope.visit object definition key first.field path parent? ∧
      scope.Asked (scope.schema.runtimeType type) call.visit.path
        (some ⟨definition, call.visit.path⟩)
        (scope.collect (scope.schema.runtimeType type)
          ((first :: others).flatMap (·.selections))) inside below ∧
      (whole = true → inside = true) ∧ Forest.Hangs call below forest := by
  induction asked with
  | stop => cases member
  | done => cases member
  | silent _ _ ih =>
    obtain ⟨key, first, others, definition, inside, below, group, rest⟩ := ih member
    exact ⟨key, first, others, definition, inside, below, List.mem_cons_of_mem _ group, rest⟩
  | value proper defined visited plain later ih =>
    rcases List.mem_cons.mp member with rfl | member
    · rw [plain answered] at declared
      contradiction
    · obtain ⟨key, first, others, definition, inside, below, group, same, rest, through, hangs⟩ :=
        ih member
      exact ⟨key, first, others, definition, inside, below, List.mem_cons_of_mem _ group, same,
        rest, through, .beside hangs⟩
  | object proper defined visited answered' declared' inner through later ihInner ihLater =>
    rcases List.mem_cons.mp member with rfl | member
    · obtain rfl := Option.some.inj (declared'.symm.trans declared)
      exact ⟨_, _, _, _, _, _, List.mem_cons_self, visited, inner, through, .here⟩
    · obtain ⟨key, first, others, definition, inside, below, group, same, rest, through, hangs⟩ :=
        ihLater member
      exact ⟨key, first, others, definition, inside, below, List.mem_cons_of_mem _ group, same,
        rest, through, .beside hangs⟩

/-- **What a walk asks of the objects it reaches**: the fields in the groups that are collected for
the object, by calls that no others are made between for the same object. -/
theorem Reached.asked
    (walked : scope.Asked root .root none (scope.collect root selections) whole forest)
    (reached : scope.Reached root selections forest.preorder object path parent? around) :
    ∃ inside below, scope.Asked object path parent? (scope.collect object around) inside below ∧
      path = parent?.elim .root (·.path) ∧ (whole = true → inside = true) ∧
      callsAt forest.preorder path = below.roots ∧
      ∀ {call inner}, Forest.Hangs call inner below → Forest.Hangs call inner forest := by
  induction reached with
  | root => exact ⟨whole, forest, walked, rfl, id, walked.callsAt_self rfl, id⟩
  | @inside object type path parent? around key first others definition call outer group defined
      member visited answered declared ih =>
    obtain ⟨reachedWhole, outerForest, outerAsked, located, through, calls, within⟩ := ih
    have isTop : call ∈ outerForest.roots := by
      rw [← calls]
      exact List.mem_filter.mpr ⟨member, decide_eq_true (parentPath_of_visited visited located)⟩
    obtain ⟨key', first', others', definition', inside, below, group', same, inner, through',
      hangs⟩ := outerAsked.inner isTop answered declared
    -- A call tells which group it is for.
    have both := visited.symm.trans same
    obtain rfl : key = key' := congrArg FieldVisit.responseKey both
    obtain rfl : definition = definition' := congrArg FieldVisit.definition both
    obtain ⟨rfl, rfl⟩ := List.cons.inj ((each_collect _ _ _).eq_of_key group group')
    have isDefinition : call.visit.definition = definition := by rw [visited]; rfl
    rw [isDefinition]
    exact ⟨inside, below, inner, rfl, through' ∘ through,
      walked.callsAt_hangs rfl (each_collect _ _ _).nodup (within hangs),
      fun deeper => within (hangs.trans_inner deeper)⟩

end

end QueryScope

end TraversalQuery
