import TraversalQuery.Proofs.Response.Gathering
import TraversalQuery.Proofs.Runs

/-!
# Depths of walks

What is selected inside a field is less deep than the selections that ask for the field. A walk over
selections without fragments that may go deeper than they do therefore never stops for its depth.
And where all defaults settle, no walk stops for arguments that are never read.
-/

namespace TraversalQuery

namespace QueryScope

variable {σ ε α β : Type} {scope : QueryScope} {object : SchemaType}

mutual

/-- What is inside a field is less deep than the selection that offers it. -/
theorem depth_lt_of_mem_fieldsOfOne {selected : SelectedField} : ∀ selection : Selection,
    selected ∈ scope.fieldsOfOne object selection →
      Selection.depthOf selected.selections < selection.depth
  | .field field selections braces?, member => by
    unfold fieldsOfOne at member
    split at member
    · obtain rfl := List.mem_singleton.mp member
      exact Nat.lt_succ_self _
    · cases member
  | .spread name directives span, member => by cases member
  | .inline condition? directives selections braces span, member => by
    unfold fieldsOfOne at member
    split at member
    · exact depth_lt_of_mem_fieldsOf selections member
    · cases member

/-- What is inside a field is less deep than what asks for the field. -/
theorem depth_lt_of_mem_fieldsOf {selected : SelectedField} : ∀ selections : List Selection,
    selected ∈ scope.fieldsOf object selections →
      Selection.depthOf selected.selections < Selection.depthOf selections
  | selection :: rest, member => by
    rw [Selection.depthOf_cons]
    rcases List.mem_append.mp member with first | later
    · have shallow := depth_lt_of_mem_fieldsOfOne selection first
      omega
    · have shallow := depth_lt_of_mem_fieldsOf rest later
      omega

end

/-- Merged selections are as deep as the deepest of them. -/
theorem depthOf_flatMap_lt {depth : Nat} {fields : List SelectedField} (nonempty : fields ≠ [])
    (shallow : ∀ selected ∈ fields, Selection.depthOf selected.selections < depth) :
    Selection.depthOf (fields.flatMap (·.selections)) < depth := by
  induction fields with
  | nil => contradiction
  | cons selected rest ih =>
    obtain ⟨first, others⟩ := List.forall_mem_cons.mp shallow
    rw [List.flatMap_cons, Selection.depthOf_append]
    cases rest with
    | nil => simpa using first
    | cons other rest => exact Nat.max_lt.mpr ⟨first, ih (List.cons_ne_nil _ _) others⟩

/-- What is walked below a group of fields is less deep than what asks for the group. -/
theorem depth_lt_of_mem_collect {selections : List Selection}
    {group : String × List SelectedField}
    (member : group ∈ scope.withoutFragments.collect object selections)
    (nonempty : group.2 ≠ []) :
    Selection.depthOf (group.2.flatMap (·.selections)) < Selection.depthOf selections := by
  rw [collect_withoutFragments] at member
  apply depthOf_flatMap_lt nonempty
  intro selected inGroup
  exact depth_lt_of_mem_fieldsOf selections (FieldGroups.mem_of_mem_ofFields member inGroup)

/-- A part of a walk that does not come to a certain stop. -/
def Avoids (stop : WalkStop ε) (walk : Walk σ ε α) : Prop :=
  ∀ state, (walk.on state).1 ≠ .error stop

section

variable {stop : WalkStop ε}

theorem avoids_pure (value : α) : Avoids stop (pure value : Walk σ ε α) :=
  fun _ => nofun

theorem avoids_throw {other : WalkStop ε} (apart : other ≠ stop) :
    Avoids stop (throw other : Walk σ ε α) :=
  fun _ same => apart (Except.error.inj same)

/-- What a resolver does is no stop but a refusal. -/
theorem avoids_adapt (own : ∀ error, stop ≠ .refused error) (action : ExceptT ε (StateM σ) α) :
    Avoids stop (ExceptT.adapt WalkStop.refused action : Walk σ ε α) := by
  intro state
  rw [ExceptT.on_adapt]
  cases (action.on state).1 with
  | error error => exact fun same => own error (Except.error.inj same).symm
  | ok value => exact nofun

/-- A sequence avoids what all its parts avoid. -/
theorem Avoids.bind {walk : Walk σ ε α} {next : α → Walk σ ε β} (first : Avoids stop walk)
    (second : ∀ value, Avoids stop (next value)) : Avoids stop (walk >>= next) := by
  intro state
  have avoided := first state
  rw [ExceptT.on_bind]
  rcases came : walk.on state with ⟨error | value, after⟩
  · rw [came] at avoided
    intro stopped
    cases Except.error.inj stopped
    exact avoided rfl
  · exact second value after

/-- The walk inside a field avoids what the walk over the object does. -/
theorem avoids_answered {inner : WalkObject σ ε} {fields : List SelectedField}
    (inside : ∀ object path parent?,
      Avoids stop (inner object (fields.flatMap (·.selections)) path parent?))
    (visit : FieldVisit) (answer : Answer) :
    Avoids stop (scope.answered inner visit fields answer) := by
  cases answer with
  | null => exact avoids_pure _
  | leaf value => exact avoids_pure _
  | object =>
    unfold answered
    dsimp only
    split
    · exact avoids_pure _
    · exact (inside _ _ _).bind fun _ => avoids_pure _

/-- The value of a group has a stop of its own where the arguments of its first field are never
read. -/
theorem avoids_fieldValue {resolve : Resolver σ ε} {inner : WalkObject σ ε}
    {fields : List SelectedField} (own : ∀ error, stop ≠ .refused error)
    (settled : stop = .unsettled → ∀ definition field, scope.settles definition field = true)
    (inside : fields ≠ [] → ∀ object path parent?,
      Avoids stop (inner object (fields.flatMap (·.selections)) path parent?))
    (path : ResponsePath) (parent? : Option ParentField) (key : String) :
    Avoids stop (scope.fieldValue resolve inner object path parent? key fields) := by
  unfold fieldValue
  cases fields with
  | nil => exact avoids_pure _
  | cons first rest =>
    simp only [List.head?_cons]
    by_cases typename : first.field.name = "__typename"
    · rw [if_pos typename]
      exact avoids_pure _
    · rw [if_neg typename]
      cases object.field? first.field.name with
      | none => exact avoids_pure _
      | some definition =>
        dsimp only
        split
        · apply (avoids_adapt own _).bind
          intro answer
          apply (avoids_answered (inside (List.cons_ne_nil _ _)) _ answer).bind
          intro found
          cases found <;> exact avoids_pure _
        · rename_i unsettled
          exact avoids_throw fun same => unsettled (settled same.symm definition first.field)

/-- The walk over groups avoids what it avoids over each of them. -/
theorem avoids_groupValues {value : String → List SelectedField → Walk σ ε Json}
    {groups : FieldGroups} (each : ∀ group ∈ groups, Avoids stop (value group.1 group.2)) :
    ∀ members, Avoids stop (groupValues value groups members) := by
  induction groups with
  | nil => exact avoids_pure
  | cons group rest ih =>
    obtain ⟨first, others⟩ := List.forall_mem_cons.mp each
    exact fun members => first.bind fun found => ih others _

end

/-- A part of a walk that does not stop for going too deep. -/
abbrev Ends (walk : Walk σ ε α) : Prop :=
  Avoids .endless walk

/-- A walk that may go deeper than the selections ends. -/
theorem ends_walkObject {resolve : Resolver σ ε} (depth : Nat) : ∀ {selections : List Selection},
    Selection.depthOf selections < depth → ∀ object path parent?,
      Ends (scope.withoutFragments.walkObject resolve depth object selections path parent?) := by
  induction depth with
  | zero => exact fun below => absurd below (Nat.not_lt_zero _)
  | succ depth ih =>
    intro selections below object path parent?
    apply avoids_groupValues
    intro group member
    refine avoids_fieldValue nofun (fun same => by cases same) ?_ _ _ _
    intro nonempty
    have inside := depth_lt_of_mem_collect member nonempty
    exact ih (by omega)

/-- Without fragments every walk ends. -/
theorem ends_respond {resolve : Resolver σ ε} (root : SchemaType) (selections : List Selection) :
    Ends (scope.withoutFragments.respond resolve root selections) :=
  (ends_walkObject _ (Nat.lt_succ_self _) root .root none).bind fun _ => avoids_pure _

/-- Where all defaults settle, a walk to any depth reads all arguments that it comes to. -/
theorem settled_walkObject {resolve : Resolver σ ε}
    (settled : ∀ definition field, scope.settles definition field = true) (depth : Nat) :
    ∀ object selections path parent?, Avoids .unsettled
      (scope.walkObject resolve depth object selections path parent?) := by
  induction depth with
  | zero => exact fun _ _ _ _ => avoids_throw nofun
  | succ depth ih =>
    intro object selections path parent?
    refine avoids_groupValues (fun group _ => ?_) _
    exact avoids_fieldValue nofun (fun _ => settled) (fun _ object => ih object _) _ _ _

/-- Where all arguments settle, a walk does not stop for one that cannot be read. -/
theorem settled_respond {resolve : Resolver σ ε}
    (settled : ∀ definition field, scope.settles definition field = true) (root : SchemaType)
    (selections : List Selection) : Avoids .unsettled (scope.respond resolve root selections) :=
  (settled_walkObject settled _ root selections .root none).bind fun _ => avoids_pure _

end QueryScope

end TraversalQuery
