import TraversalQuery.Proofs.Plan.Checking
import TraversalQuery.Proofs.Plan.Operations

/-!
# Numbers for nodes

The number of a node is its place among the slots, and numbers are 32 bits wide. A builder gives out
no more numbers than there are, so its plan is always an arena. Of arenas the check of a plan is
exact.
-/

namespace TraversalQuery

namespace Build

variable {α β : Type}

/-- An operation that gives out no more numbers than there are. -/
def Bounded (operation : Build α) : Prop :=
  ∀ builder : Builder, builder.plan.size ≤ Builder.capacity →
    (operation.on builder).2.plan.size ≤ Builder.capacity

theorem Bounded.map {operation : Build α} (bounded : operation.Bounded) (change : α → β) :
    (change <$> operation).Bounded := by
  intro builder fits
  rw [ExceptT.on_map]
  exact bounded builder fits

/-- An operation that inserts one node asks for one number. -/
theorem Inserts.bounded {operation : Build NodeId} {call : BuilderCall}
    {edit : Builder → NodeId → Builder} (inserts : operation.Inserts call edit)
    (one : ∀ builder here, (edit builder here).plan.size = builder.plan.size + 1) :
    operation.Bounded := by
  intro builder fits
  rcases inserts builder with ⟨_, ran⟩ | ⟨here, _, room, ran⟩
  · rw [ran]
    exact fits
  · rw [ran, one]
    exact room

end Build

namespace Builder

/-- Starting takes no id beyond the capacity. -/
theorem bounded_start : start.Bounded := by
  intro builder fits
  cases begun : builder.cursor? with
  | some here =>
    rw [on_start_again builder begun]
    exact fits
  | none =>
    rw [on_start builder begun]
    split
    · rename_i room
      rw [Plan.size_push]
      exact room
    · exact fits

/-- A group asks for a number for itself and for each of its members, as long as there are any. -/
theorem bounded_addGroup (fields : List (String × Option Constraint)) (kind : Quantifier) :
    (addGroup fields kind).Bounded := by
  intro builder fits
  rw [on_addGroup]
  cases builder.target .addGroup with
  | error => exact fits
  | ok here =>
    dsimp only
    split
    · rename_i room
      rw [Plan.size_attachGroup, Nat.add_assoc]
      omega
    · split
      · rename_i room
        rw [Plan.size_pushMembers, Plan.size_push, List.length_take]
        omega
      · exact fits

theorem bounded_moveTo (id : NodeId) : (moveTo id).Bounded := by
  intro builder fits
  rw [on_moveTo]
  split
  · exact fits
  · split <;> exact fits

theorem bounded_ascend (accepts : NodeId → Node → Bool) : (ascend accepts).Bounded := by
  intro builder fits
  rw [on_ascend]
  cases builder.cursor? <;> exact fits

/-- No step gives out more numbers than there are. -/
theorem bounded_perform (step : BuilderStep) : step.perform.Bounded :=
  step.perform_cases (motive := Build.Bounded) (fun change bounded => bounded.map change)
    bounded_start
    (fun call node _ _ _ => (inserts_enter call node).bounded fun _ _ => Plan.size_attach ..)
    (fun property => (inserts_addProperty property).bounded fun _ _ => Plan.size_attach ..)
    bounded_addGroup
    (fun kind => (inserts_addQuantifier kind).bounded fun _ _ => Plan.size_splice ..)
    bounded_moveTo bounded_ascend

/-- The plan of a builder never has more nodes than there are numbers. -/
theorem size_after_le (steps : List BuilderStep) : ∀ {builder : Builder},
    builder.plan.size ≤ capacity → (builder.after steps).plan.size ≤ capacity := by
  induction steps with
  | nil => exact id
  | cons step rest ih => exact fun fits => ih (bounded_perform step _ fits)

end Builder

/-- In an arena no place is cut where it is narrowed to the 32 bits of a number. -/
theorem Arena.map_narrow_ids (arena : Arena) :
    arena.ids.map (fun place => place % Nat.pow 2 32) = arena.ids := by
  have narrowed : ∀ place ∈ arena.ids, place % Nat.pow 2 32 = place := fun place member =>
    Nat.mod_eq_of_lt (Nat.lt_of_lt_of_le (List.mem_range.mp member) arena.numbered)
  exact (List.map_congr_left narrowed).trans (List.map_id _)

namespace Plan

/-- **The check of a plan is exact.** Whatever the slots of an arena hold, circles, numbers without
a node or nothing at all, the check finds nothing exactly if the plan is coherent. Every plan that
comes of a history of a builder, whether its operations succeed or fail, is such an arena. -/
theorem violations_eq_nil_iff_coherent :
    (∀ arena : Arena, arena.violations = [] ↔ arena.Coherent) ∧
      ∀ (name? ontology? : Option String) (steps : List BuilderStep), ∃ arena : Arena,
        arena.toPlan = ((Builder.empty name? ontology?).after steps).plan :=
  ⟨fun _ => ⟨coherent_of_violations_eq_nil, Coherent.violations_eq_nil⟩,
    fun _ _ steps => ⟨⟨_, Builder.size_after_le steps (Nat.zero_le _)⟩, rfl⟩⟩

end Plan

end TraversalQuery
