import TraversalQuery.Proofs.Plan.Extends
import TraversalQuery.Proofs.Plan.Linking

/-!
# Operations that fail

An operation on a builder looks for its place and takes a number before it changes anything else, so
that nothing is changed when it fails. A group is the exception. Its members take their numbers
after it, and where the numbers end among them, the group and the members so far stay behind.
-/

namespace TraversalQuery

namespace Plan

/-- A new node leaves the slots that there were. -/
theorem slots_push (plan : Plan) (node : Node) (parent? : Option NodeId) :
    plan.slots <+: (plan.push node parent?).slots :=
  List.prefix_append _ _

/-- New members leave the slots that there were. -/
theorem slots_pushMembers (group : NodeId) (fields : List (String × Option Constraint)) :
    ∀ plan : Plan, plan.slots <+: (plan.pushMembers group fields).slots := by
  induction fields with
  | nil => exact fun plan => List.prefix_rfl
  | cons field rest ih => exact fun plan => (slots_push plan _ _).trans (ih _)

/-- A group that is cut off stands behind all that was there. -/
theorem slots_cutGroup (plan : Plan) (kind : Quantifier)
    (fields : List (String × Option Constraint)) (here : NodeId) :
    plan.slots <+: (plan.cutGroup kind fields here).slots :=
  (slots_push plan _ _).trans (slots_pushMembers _ fields _)

/-- A group that is cut off leaves the names of the plan. -/
theorem names_cutGroup (plan : Plan) (kind : Quantifier)
    (fields : List (String × Option Constraint)) (here : NodeId) :
    (plan.cutGroup kind fields here).name? = plan.name? ∧
      (plan.cutGroup kind fields here).ontology? = plan.ontology? :=
  Extends.names_pushMembers _ fields _

/-- A group that is cut off behind its first member does not list that member. -/
theorem violations_cutGroup_ne_nil (plan : Plan) (kind : Quantifier) {here : NodeId}
    {fields : List (String × Option Constraint)} (numbered : fields ≠ []) :
    (plan.cutGroup kind fields here).violations ≠ [] := by
  intro clean
  obtain ⟨field, rest, rfl⟩ := List.exists_cons_of_ne_nil numbered
  have first : (field :: rest)[0]? = some field := rfl
  have link := (member_pushMembers plan.size (field :: rest)
    (plan.push (.group kind []) (some here)) first).2
  have listed := (coherent_of_violations_eq_nil clean).listed link
    (node?_cutGroup_self plan kind (field :: rest))
  exact List.not_mem_nil listed

end Plan

namespace Build

variable {α β : Type}

/-- An operation that changes nothing when it fails. -/
def Careful (operation : Build α) : Prop :=
  ∀ (builder : Builder) (error : BuilderError),
    (operation.on builder).1 = .error error → (operation.on builder).2 = builder

theorem Careful.map {operation : Build α} (careful : operation.Careful) (change : α → β) :
    (change <$> operation).Careful := by
  intro builder error failed
  rw [ExceptT.on_map] at failed ⊢
  dsimp only at failed ⊢
  cases answer : (operation.on builder).1 with
  | ok =>
    rw [answer] at failed
    contradiction
  | error reason => exact careful builder reason answer

/-- An operation that inserts a node changes nothing when it fails. -/
theorem Inserts.careful {operation : Build NodeId} {call : BuilderCall}
    {edit : Builder → NodeId → Builder} (inserts : operation.Inserts call edit) :
    operation.Careful := by
  intro builder error failed
  rcases inserts builder with ⟨_, ran⟩ | ⟨here, _, _, ran⟩
  · rw [ran]
  · rw [ran] at failed
    contradiction

end Build

namespace Builder

/-- Starting changes nothing when it fails. -/
theorem careful_start : start.Careful := by
  intro builder error failed
  cases begun : builder.cursor? with
  | some here => rw [on_start_again builder begun]
  | none =>
    by_cases room : builder.plan.size < capacity
    · rw [on_start builder begun, if_pos room] at failed
      contradiction
    · rw [on_start builder begun, if_neg room]

/-- Moving the cursor changes nothing when it fails. -/
theorem careful_moveTo (id : NodeId) : (moveTo id).Careful := by
  intro builder error failed
  by_cases unstarted : builder.cursor? = none
  · rw [on_moveTo, if_pos unstarted]
  · by_cases unknown : builder.plan.size ≤ id
    · rw [on_moveTo, if_neg unstarted, if_pos unknown]
    · rw [on_moveTo, if_neg unstarted, if_neg unknown] at failed
      contradiction

/-- Ascending changes nothing when it fails. -/
theorem careful_ascend (accepts : NodeId → Node → Bool) : (ascend accepts).Careful := by
  intro builder error failed
  rw [on_ascend]
  cases builder.cursor? <;> rfl

/-- With a number for one member at least, the plan is not left as the check wants it. -/
theorem violations_step_addGroup_of_few {builder : Builder}
    {fields : List (String × Option Constraint)} {here : NodeId}
    (found : builder.target .addGroup = .ok here) (room : builder.plan.size + 1 < capacity)
    (few : capacity < builder.plan.size + 1 + fields.length) (kind : Quantifier) :
    (builder.step (.addGroup fields kind)).2.plan.violations ≠ [] := by
  rw [step_addGroup_of_few found (Nat.lt_of_succ_lt room) few]
  refine Plan.violations_cutGroup_ne_nil _ kind (List.ne_nil_of_length_pos ?_)
  rw [numbered, List.length_take]
  omega

/-- **An operation that fails changes nothing, but for a group that is cut off.** Whatever the
builder and the operation, an error leaves the cursor, the names and all slots as they were. Slots
come in only when a group takes a number and there are not enough numbers behind it for its members:
then the group, without members, and the properties that found numbers are added, and all numbers
are used up. -/
theorem unchanged_or_cut_of_failed {builder : Builder} {step : BuilderStep} {error : BuilderError}
    (failed : (builder.step step).1 = .error error) :
    (builder.step step).2 = builder ∨
      error = .exhausted ∧ ∃ fields kind here, step = .addGroup fields kind ∧
        builder.cursor? = some here ∧ builder.plan.size < capacity ∧
        capacity < builder.plan.size + 1 + fields.length ∧
        (builder.step step).2 =
          { builder with plan := builder.plan.cutGroup kind (builder.numbered fields) here } ∧
        (builder.step step).2.plan.size = capacity ∧
        builder.plan.slots <+: (builder.step step).2.plan.slots ∧
        (builder.step step).2.plan.name? = builder.plan.name? ∧
        (builder.step step).2.plan.ontology? = builder.plan.ontology? := by
  cases step with
  | start => exact .inl (careful_start.map _ builder error failed)
  | enterEntity => exact .inl ((inserts_enter _ _).careful.map _ builder error failed)
  | enterConcrete => exact .inl ((inserts_enter _ _).careful.map _ builder error failed)
  | enterRelation => exact .inl ((inserts_enter _ _).careful.map _ builder error failed)
  | addProperty property =>
    exact .inl ((inserts_addProperty property).careful.map _ builder error failed)
  | addQuantifier kind =>
    exact .inl ((inserts_addQuantifier kind).careful.map _ builder error failed)
  | moveTo id =>
    have asMap : builder.step (.moveTo id) =
        ((fun _ => StepAnswer.moved) <$> moveTo id : Build StepAnswer).on builder := rfl
    rw [asMap] at failed ⊢
    exact .inl ((careful_moveTo id).map _ builder error failed)
  | ascend accepts => exact .inl ((careful_ascend accepts).map _ builder error failed)
  | addGroup fields kind =>
    rw [step_addGroup] at failed ⊢
    rcases builder.addGroup_cases fields kind with
      ⟨_, ran⟩ | ⟨here, found, room, ran | ⟨few, ran⟩⟩
    · rw [ran]
      exact .inl rfl
    · rw [ran] at failed
      contradiction
    · rw [ran] at failed ⊢
      refine .inr ⟨(Except.error.inj failed).symm, fields, kind, here, rfl, cursor_of_target found,
        room, few, rfl, size_cutGroup_numbered room few kind here, ?_⟩
      exact ⟨Plan.slots_cutGroup .., Plan.names_cutGroup ..⟩

/-- A quantifier cannot be added at a property, and nothing changes. -/
theorem unchanged_or_cut_of_failed_leaf :
    (((started none none).after [.addProperty ⟨.entity, "title", .shown⟩, .moveTo 1]).step
        (.addQuantifier .every)).1 = .error (.leafCursor .addQuantifier 1) ∧
      (((started none none).after [.addProperty ⟨.entity, "title", .shown⟩, .moveTo 1]).step
          (.addQuantifier .every)).2 =
        (started none none).after [.addProperty ⟨.entity, "title", .shown⟩, .moveTo 1] := by
  have failed :
      (((started none none).after [.addProperty ⟨.entity, "title", .shown⟩, .moveTo 1]).step
        (.addQuantifier .every)).1 = .error (.leafCursor .addQuantifier 1) := by decide +kernel
  refine ⟨failed, (unchanged_or_cut_of_failed failed).resolve_right ?_⟩
  rintro ⟨exhausted, _⟩
  contradiction

/-- A group of more fields than there are numbers is refused and yet stays behind, and its members
with it, of which it does not know. -/
theorem refused_group_stays_behind :
    (started none none).plan.violations = [] ∧
      ((started none none).step
          (.addGroup (List.replicate capacity ("name", none)) .every)).1 = .error .exhausted ∧
      ((started none none).step
          (.addGroup (List.replicate capacity ("name", none)) .every)).2 ≠ started none none ∧
      ((started none none).step
          (.addGroup (List.replicate capacity ("name", none)) .every)).2.plan.violations ≠ [] := by
  have clean := (running_started none none).formed.violations_eq_nil
  have one : (started none none).plan.size = 1 := by rw [started_eq]; rfl
  have more : 2 < capacity := Nat.pow_lt_pow_right Nat.one_lt_two (by decide : 1 < 32)
  have room : (started none none).plan.size + 1 < capacity := one ▸ more
  have found : (started none none).target .addGroup = .ok Plan.root := by rw [started_eq]; rfl
  have few (field : String × Option Constraint) :
      capacity < (started none none).plan.size + 1 + (List.replicate capacity field).length := by
    rw [List.length_replicate]
    omega
  have dirty := violations_step_addGroup_of_few found room (few ("name", none)) .every
  refine ⟨clean, ?_, fun same => ?_, dirty⟩
  · rw [step_addGroup_of_few found (Nat.lt_of_succ_lt room) (few _)]
  · rw [same] at dirty
    exact dirty clean

end Builder

end TraversalQuery
