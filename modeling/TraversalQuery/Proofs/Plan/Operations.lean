import TraversalQuery.Proofs.Plan.Preservation
import TraversalQuery.Plan.Step
import TraversalQuery.Proofs.Runs

/-!
# What the operations of a builder do

Each operation of a builder either fails and says why, or makes one edit of the plan and says where
the cursor is. Here every operation is written out as a function of the builder that it is performed
on.
-/

namespace TraversalQuery

namespace Builder

variable (builder : Builder)

/-- A node is allocated as long as there are free ids. -/
theorem on_allocate (node : Node) (above? : Option NodeId) :
    (allocate node above?).on builder =
      if builder.plan.size < capacity then
        (.ok builder.plan.size, { builder with plan := builder.plan.push node above? })
      else (.error .exhausted, builder) := by
  rw [allocate, ExceptT.on_bind, ExceptT.on_get]
  dsimp only
  split <;> rfl

theorem on_cursor (call : BuilderCall) :
    (cursor call).on builder =
      match builder.cursor? with
      | none => (.error (.notStarted call), builder)
      | some here => (.ok here, builder) := by
  rw [cursor, ExceptT.on_bind, ExceptT.on_get]
  dsimp only
  cases builder.cursor? <;> rfl

/-- The node that an operation inserts below, or why it cannot. -/
def target (call : BuilderCall) : Except BuilderError NodeId :=
  match builder.cursor? with
  | none => .error (.notStarted call)
  | some here =>
    if (builder.plan.node? here).any Node.isLeaf then .error (.leafCursor call here) else .ok here

/-- The insertion point changes nothing. -/
theorem on_insertionPoint (call : BuilderCall) :
    (insertionPoint call).on builder = (builder.target call, builder) := by
  rw [insertionPoint, ExceptT.on_bind, on_cursor, target]
  cases builder.cursor? with
  | none => rfl
  | some here =>
    dsimp only
    rw [ExceptT.on_bind, ExceptT.on_get]
    dsimp only
    split <;> rfl

/-- Only a cursor that is missing or on a leaf keeps an operation from inserting. -/
theorem target_cases (call : BuilderCall) :
    (∃ error, builder.target call = .error error ∧ error ≠ .exhausted ∧
      ¬∃ here, builder.cursor? = some here ∧ builder.plan.Open here) ∨
    ∃ here, builder.target call = .ok here ∧ builder.cursor? = some here ∧
      (here < builder.plan.size → builder.plan.Open here) := by
  unfold target
  cases builder.cursor? with
  | none => exact .inl ⟨_, rfl, by simp, by simp⟩
  | some here =>
    dsimp only
    cases found : builder.plan.node? here with
    | none =>
      refine .inr ⟨here, by simp, rfl, fun inside => ?_⟩
      obtain ⟨node, present⟩ := Plan.exists_node? inside
      rw [found] at present
      contradiction
    | some node =>
      cases leaf : node.isLeaf with
      | true =>
        refine .inl ⟨.leafCursor call here, by simp [leaf], by simp, ?_⟩
        rintro ⟨_, same, held, heldAt, inner⟩
        obtain rfl := Option.some.inj same
        rw [found] at heldAt
        rw [← Option.some.inj heldAt, leaf] at inner
        contradiction
      | false => exact .inr ⟨here, by simp [leaf], rfl, fun _ => ⟨node, found, leaf⟩⟩

/-- A cursor on an open node is where the next node goes. -/
theorem target_of_open {here : NodeId} (call : BuilderCall) (at' : builder.cursor? = some here)
    (isOpen : builder.plan.Open here) : builder.target call = .ok here := by
  obtain ⟨held, found, inner⟩ := isOpen
  simp [target, at', found, inner]

/-- What entering does: a node is attached at the target and takes the cursor. -/
theorem on_enter (call : BuilderCall) (node : Node) :
    (enter call node).on builder =
      match builder.target call with
      | .error error => (.error error, builder)
      | .ok here =>
        if builder.plan.size < capacity then
          (.ok builder.plan.size,
            ⟨builder.plan.attach node here Node.followedBy, some builder.plan.size⟩)
        else (.error .exhausted, builder) := by
  rw [enter, ExceptT.on_bind, on_insertionPoint]
  cases builder.target call with
  | error => rfl
  | ok here =>
    dsimp only
    rw [ExceptT.on_bind, on_allocate]
    by_cases room : builder.plan.size < capacity
    · rw [if_pos room, if_pos room]
      rfl
    · rw [if_neg room, if_neg room]

/-- What adding a property does: it is attached at the target. -/
theorem on_addProperty (property : Property) :
    (addProperty property).on builder =
      match builder.target (propertyCall property.scope) with
      | .error error => (.error error, builder)
      | .ok here =>
        if builder.plan.size < capacity then
          (.ok builder.plan.size,
            { builder with plan := builder.plan.attach (.property property) here Node.holding })
        else (.error .exhausted, builder) := by
  rw [addProperty, ExceptT.on_bind, on_insertionPoint]
  cases builder.target (propertyCall property.scope) with
  | error => rfl
  | ok here =>
    dsimp only
    rw [ExceptT.on_bind, on_allocate]
    by_cases room : builder.plan.size < capacity
    · rw [if_pos room, if_pos room]
      rfl
    · rw [if_neg room, if_neg room]

/-- What adding a quantifier does: it is spliced in at the target and takes the cursor. -/
theorem on_addQuantifier (kind : Quantifier) :
    (addQuantifier kind).on builder =
      match builder.target .addQuantifier with
      | .error error => (.error error, builder)
      | .ok here =>
        if builder.plan.size < capacity then
          (.ok builder.plan.size,
            ⟨builder.plan.splice kind here ((builder.plan.node? here).bind Node.successor?),
              some builder.plan.size⟩)
        else (.error .exhausted, builder) := by
  rw [addQuantifier, ExceptT.on_bind, on_insertionPoint]
  cases builder.target .addQuantifier with
  | error => rfl
  | ok here =>
    dsimp only
    rw [ExceptT.on_bind, ExceptT.on_get]
    dsimp only
    rw [ExceptT.on_bind, on_allocate, funext displaced?_eq_successor?]
    by_cases room : builder.plan.size < capacity
    · rw [if_pos room, if_pos room]
      cases (builder.plan.node? here).bind Node.successor? <;> rfl
    · rw [if_neg room, if_neg room]

/-- Members are all added, or as many as there are free ids. -/
theorem on_addMembers (group : NodeId) (fields : List (String × Option Constraint)) :
    ∀ builder : Builder, (addMembers group fields).on builder =
      if builder.plan.size + fields.length ≤ capacity ∨ fields = [] then
        (.ok (List.range' builder.plan.size fields.length),
          { builder with plan := builder.plan.pushMembers group fields })
      else
        (.error .exhausted,
          { builder with
            plan := builder.plan.pushMembers group
              (fields.take (capacity - builder.plan.size)) }) := by
  induction fields with
  | nil =>
    intro builder
    rw [if_pos (.inr rfl)]
    rfl
  | cons field rest ih =>
    intro builder
    obtain ⟨propertyType, constraint?⟩ := field
    rw [addMembers, ExceptT.on_bind, on_allocate]
    by_cases room : builder.plan.size < capacity
    · rw [if_pos room]
      dsimp only
      rw [ExceptT.on_bind, ih, Plan.size_push]
      have fits : (builder.plan.size + 1 + rest.length ≤ capacity ∨ rest = []) ↔
          (builder.plan.size + (rest.length + 1) ≤ capacity ∨
            (propertyType, constraint?) :: rest = []) := by
        cases rest <;> simp <;> omega
      simp only [List.length_cons, fits]
      by_cases enough : builder.plan.size + (rest.length + 1) ≤ capacity ∨
          (propertyType, constraint?) :: rest = []
      · rw [if_pos enough, if_pos enough]
        rfl
      · rw [if_neg enough, if_neg enough]
        obtain ⟨more, split⟩ := Nat.exists_eq_add_of_lt room
        have left : capacity - builder.plan.size = more + 1 := by omega
        have left' : capacity - (builder.plan.size + 1) = more := by omega
        rw [left, left', List.take_succ_cons]
        rfl
    · have full : capacity - builder.plan.size = 0 := by omega
      have tooMany : ¬(builder.plan.size + ((propertyType, constraint?) :: rest).length ≤
          capacity ∨ (propertyType, constraint?) :: rest = []) := by simp; omega
      rw [if_neg room, if_neg tooMany, full]
      rfl

/-- What adding a group does: it is attached with its members, or cut off where the ids run out. -/
theorem on_addGroup (fields : List (String × Option Constraint)) (kind : Quantifier) :
    (addGroup fields kind).on builder =
      match builder.target .addGroup with
      | .error error => (.error error, builder)
      | .ok here =>
        if builder.plan.size + 1 + fields.length ≤ capacity then
          (.ok builder.plan.size,
            { builder with plan := builder.plan.attachGroup kind fields here })
        else if builder.plan.size < capacity then
          (.error .exhausted,
            { builder with
              plan := (builder.plan.push (.group kind []) (some here)).pushMembers
                builder.plan.size (fields.take (capacity - (builder.plan.size + 1))) })
        else (.error .exhausted, builder) := by
  rw [addGroup, ExceptT.on_bind, on_insertionPoint]
  cases builder.target .addGroup with
  | error => rfl
  | ok here =>
    dsimp only
    rw [ExceptT.on_bind, on_allocate]
    by_cases room : builder.plan.size < capacity
    · rw [if_pos room]
      dsimp only
      rw [ExceptT.on_bind, on_addMembers, Plan.size_push]
      have fits : (builder.plan.size + 1 + fields.length ≤ capacity ∨ fields = []) ↔
          builder.plan.size + 1 + fields.length ≤ capacity := by
        cases fields <;> simp
        omega
      simp only [fits]
      by_cases enough : builder.plan.size + 1 + fields.length ≤ capacity
      · rw [if_pos enough, if_pos enough]
        rfl
      · rw [if_neg enough, if_neg enough, if_pos room]
    · have tooMany : ¬builder.plan.size + 1 + fields.length ≤ capacity := by omega
      rw [if_neg room, if_neg tooMany, if_neg room]

/-- What moving does: the cursor goes to any node of the plan. -/
theorem on_moveTo (id : NodeId) :
    (moveTo id).on builder =
      if builder.cursor? = none then (.error (.notStarted .moveTo), builder)
      else if builder.plan.size ≤ id then (.error (.unknownNode id), builder)
      else (.ok ⟨⟩, { builder with cursor? := some id }) := by
  rw [moveTo, ExceptT.on_bind, on_cursor]
  cases builder.cursor? with
  | none => rfl
  | some here =>
    dsimp only
    rw [if_neg (Option.some_ne_none here), ExceptT.on_bind, ExceptT.on_get]
    dsimp only
    by_cases outside : builder.plan.size ≤ id
    · rw [Plan.node?_eq_none_iff.mpr outside, if_pos outside]
      rfl
    · obtain ⟨node, found⟩ := Plan.exists_node? (Nat.lt_of_not_le outside)
      rw [found, if_neg outside]
      rfl

/-- What ascending does: the cursor goes to the first node above that is accepted, if there is
one. -/
theorem on_ascend (accepts : NodeId → Node → Bool) :
    (ascend accepts).on builder =
      match builder.cursor? with
      | none => (.error (.notStarted .ascend), builder)
      | some here => (.ok (builder.plan.climb accepts (builder.plan.size + 1) here), builder) := by
  rw [ascend, ExceptT.on_bind, on_cursor]
  cases builder.cursor? <;> rfl

/-- What starting does: the first node is a start and takes the cursor. -/
theorem on_start (idle : builder.cursor? = none) :
    start.on builder =
      if builder.plan.size < capacity then
        (.ok builder.plan.size,
          ⟨builder.plan.push (.start none) none, some builder.plan.size⟩)
      else (.error .exhausted, builder) := by
  rw [start, ExceptT.on_bind, ExceptT.on_get]
  simp only [isStarted, idle, Option.isSome_none, Bool.false_eq_true, ↓reduceIte]
  rw [ExceptT.on_bind, on_allocate]
  by_cases room : builder.plan.size < capacity
  · rw [if_pos room, if_pos room]
    rfl
  · rw [if_neg room, if_neg room]

/-- A builder is started once. -/
theorem on_start_again {here : NodeId} (running : builder.cursor? = some here) :
    start.on builder = (.error .alreadyStarted, builder) := by
  rw [start, ExceptT.on_bind, ExceptT.on_get]
  simp only [isStarted, running, Option.isSome_some, ↓reduceIte]
  rfl

end Builder

namespace Build

/-- An operation that inserts a node at the cursor: it makes one edit of the builder, or there is no
place or no number for the node and it changes nothing. -/
def Inserts (operation : Build NodeId) (call : BuilderCall) (edit : Builder → NodeId → Builder) :
    Prop :=
  ∀ builder : Builder, (∃ error, operation.on builder = (.error error, builder)) ∨
    ∃ here, builder.target call = .ok here ∧ builder.plan.size < Builder.capacity ∧
      operation.on builder = (.ok builder.plan.size, edit builder here)

theorem inserts_of_on {operation : Build NodeId} {call : BuilderCall}
    {edit : Builder → NodeId → Builder}
    (ran : ∀ builder, operation.on builder =
      match builder.target call with
      | .error error => (.error error, builder)
      | .ok here =>
        if builder.plan.size < Builder.capacity then (.ok builder.plan.size, edit builder here)
        else (.error .exhausted, builder)) :
    operation.Inserts call edit := by
  intro builder
  rw [ran]
  cases builder.target call with
  | error error => exact .inl ⟨error, rfl⟩
  | ok here =>
    dsimp only
    split
    · rename_i room
      exact .inr ⟨here, rfl, room, rfl⟩
    · exact .inl ⟨_, rfl⟩

end Build

namespace Builder

/-- Entering inserts a node. -/
theorem inserts_enter (call : BuilderCall) (node : Node) :
    (enter call node).Inserts call fun builder here =>
      ⟨builder.plan.attach node here Node.followedBy, some builder.plan.size⟩ :=
  Build.inserts_of_on fun builder => on_enter builder call node

/-- Adding a property inserts a node. -/
theorem inserts_addProperty (property : Property) :
    (addProperty property).Inserts (propertyCall property.scope) fun builder here =>
      { builder with plan := builder.plan.attach (.property property) here Node.holding } :=
  Build.inserts_of_on fun builder => on_addProperty builder property

/-- Adding a quantifier inserts a node. -/
theorem inserts_addQuantifier (kind : Quantifier) :
    (addQuantifier kind).Inserts .addQuantifier fun builder here =>
      ⟨builder.plan.splice kind here ((builder.plan.node? here).bind Node.successor?),
        some builder.plan.size⟩ :=
  Build.inserts_of_on fun builder => on_addQuantifier builder kind

end Builder

/-- What holds of the operations of a builder, whatever their answers are made into, holds of every
step. -/
theorem BuilderStep.perform_cases {motive : {α : Type} → Build α → Prop}
    (map : ∀ {α β : Type} {operation : Build α} (change : α → β),
      motive operation → motive (change <$> operation))
    (start : motive Builder.start)
    (enter : ∀ call (node : Node), node.bare = node → node.isLeaf = false →
      node.isStart = false → motive (Builder.enter call node))
    (addProperty : ∀ property, motive (Builder.addProperty property))
    (addGroup : ∀ fields kind, motive (Builder.addGroup fields kind))
    (addQuantifier : ∀ kind, motive (Builder.addQuantifier kind))
    (moveTo : ∀ id, motive (Builder.moveTo id))
    (ascend : ∀ accepts, motive (Builder.ascend accepts)) (step : BuilderStep) :
    motive step.perform := by
  cases step with
  | start => exact map _ start
  | enterEntity => exact map _ (enter _ _ rfl rfl rfl)
  | enterConcrete => exact map _ (enter _ _ rfl rfl rfl)
  | enterRelation => exact map _ (enter _ _ rfl rfl rfl)
  | addProperty property => exact map _ (addProperty property)
  | addGroup fields kind => exact map _ (addGroup fields kind)
  | addQuantifier kind => exact map _ (addQuantifier kind)
  | moveTo id =>
    have asMap : (BuilderStep.moveTo id).perform =
        (fun _ => StepAnswer.moved) <$> Builder.moveTo id := (map_eq_pure_bind _ _).symm
    rw [asMap]
    exact map _ (moveTo id)
  | ascend accepts => exact map _ (ascend accepts)

end TraversalQuery
