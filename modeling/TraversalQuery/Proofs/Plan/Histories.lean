import TraversalQuery.Proofs.Plan.Operations
import TraversalQuery.Proofs.Plan.Validity

/-!
# Histories of builders

A builder that runs has a well-formed plan and its cursor on one of the nodes. No operation changes
that, be it legal where it is performed or not, as long as there are numbers left for nodes. So
nothing is ever wrong with the plan of a builder that was started, wherever its history stops.
-/

namespace TraversalQuery

namespace Builder

/-- A builder at work: its plan is well formed, and its cursor is on a node. -/
structure Running (builder : Builder) : Prop where
  formed : builder.plan.WellFormed
  placed : ∃ here, builder.cursor? = some here ∧ here < builder.plan.size

end Builder

namespace Build

variable {α β : Type}

/-- An operation that keeps builders at work, unless it runs out of numbers for nodes. -/
def Safe (operation : Build α) : Prop :=
  ∀ builder : Builder, builder.Running → (operation.on builder).1 ≠ .error .exhausted →
    (operation.on builder).2.Running

theorem Safe.map {operation : Build α} (safe : operation.Safe) (change : α → β) :
    (change <$> operation).Safe := by
  intro builder running room
  rw [ExceptT.on_map] at room ⊢
  refine safe builder running fun exhausted => room ?_
  rw [exhausted]
  rfl

end Build

namespace Builder

variable {builder : Builder}

/-- What comes of an insertion when an operation has a node to insert below. -/
theorem Running.insertion (running : builder.Running) {call : BuilderCall} {here : NodeId}
    (found : builder.target call = .ok here) :
    builder.cursor? = some here ∧ builder.plan.Open here := by
  obtain ⟨at', present, inside⟩ := running.placed
  rcases builder.target_cases call with ⟨_, failed, _⟩ | ⟨_, target, placed, opens⟩
  · rw [failed] at found
    contradiction
  · obtain rfl := Except.ok.inj (target.symm.trans found)
    obtain rfl := Option.some.inj (present.symm.trans placed)
    exact ⟨placed, opens inside⟩

/-- Entering a node is safe. -/
theorem safe_enter (call : BuilderCall) {node : Node} (unlinked : node.bare = node)
    (inner : node.isLeaf = false) (notStart : node.isStart = false) :
    (enter call node).Safe := by
  intro builder running room
  rw [on_enter] at room ⊢
  cases found : builder.target call with
  | error => exact running
  | ok here =>
    rw [found] at room
    dsimp only at room ⊢
    split
    · have grown := running.formed.attach (running.insertion found).2 node unlinked notStart
      rw [Node.linkTo_of_inner inner] at grown
      exact ⟨grown, _, rfl, by simp⟩
    · exact running

/-- Adding a property is safe. -/
theorem safe_addProperty (property : Property) : (addProperty property).Safe := by
  intro builder running room
  rw [on_addProperty] at room ⊢
  cases found : builder.target (propertyCall property.scope) with
  | error => exact running
  | ok here =>
    rw [found] at room
    dsimp only at room ⊢
    split
    · obtain ⟨placed, isOpen⟩ := running.insertion found
      have grown := running.formed.attach isOpen (.property property) rfl rfl
      rw [Node.linkTo_of_isLeaf rfl] at grown
      exact ⟨grown, here, placed, by
        rw [Plan.size_attach]; exact Nat.lt_succ_of_lt isOpen.lt_size⟩
    · exact running

/-- Adding a group is safe. -/
theorem safe_addGroup (fields : List (String × Option Constraint)) (kind : Quantifier) :
    (addGroup fields kind).Safe := by
  intro builder running room
  rw [on_addGroup] at room ⊢
  cases found : builder.target .addGroup with
  | error => exact running
  | ok here =>
    rw [found] at room
    dsimp only at room ⊢
    by_cases enough : builder.plan.size + 1 + fields.length ≤ capacity
    · rw [if_pos enough]
      obtain ⟨placed, isOpen⟩ := running.insertion found
      refine ⟨running.formed.attachGroup isOpen kind fields, here, placed, ?_⟩
      rw [Plan.size_attachGroup, Nat.add_assoc]
      exact Nat.lt_add_right _ isOpen.lt_size
    · rw [if_neg enough] at room
      split at room <;> exact absurd rfl room

/-- Adding a quantifier is safe. -/
theorem safe_addQuantifier (kind : Quantifier) : (addQuantifier kind).Safe := by
  intro builder running room
  rw [on_addQuantifier] at room ⊢
  cases found : builder.target .addQuantifier with
  | error => exact running
  | ok here =>
    rw [found] at room
    dsimp only at room ⊢
    split
    · obtain ⟨_, held, atHere, inner⟩ := running.insertion found
      rw [atHere, Option.bind_some]
      exact ⟨running.formed.splice kind atHere inner, _, rfl, by simp⟩
    · exact running

/-- Moving the cursor is safe. -/
theorem safe_moveTo (id : NodeId) : (moveTo id).Safe := by
  intro builder running room
  rw [on_moveTo]
  split
  · exact running
  · split
    · exact running
    · rename_i present
      exact ⟨running.formed, id, rfl, Nat.lt_of_not_le present⟩

/-- Ascending is safe. -/
theorem safe_ascend (accepts : NodeId → Node → Bool) : (ascend accepts).Safe := by
  intro builder running room
  rw [on_ascend]
  cases builder.cursor? <;> exact running

/-- Starting is safe. -/
theorem safe_start : start.Safe := by
  intro builder running room
  obtain ⟨here, placed, _⟩ := running.placed
  rw [on_start_again builder placed]
  exact running

/-- Every step keeps a builder at work. -/
theorem safe_perform (step : BuilderStep) : step.perform.Safe :=
  step.perform_cases (motive := Build.Safe) (fun change safe => safe.map change) safe_start
    (fun call _ => safe_enter call) safe_addProperty safe_addGroup safe_addQuantifier safe_moveTo
    safe_ascend

/-- A builder right after its start. -/
def started (name? ontology? : Option String) : Builder :=
  ((empty name? ontology?).step .start).2

/-- A started builder holds a start, with the cursor on it. -/
theorem started_eq (name? ontology? : Option String) :
    started name? ontology? = ⟨⟨name?, ontology?, [⟨.start none, none⟩]⟩, some Plan.root⟩ := by
  change ((.inserted <$> start : Build StepAnswer).on (empty name? ontology?)).2 = _
  have room : (empty name? ontology?).plan.size < capacity := Nat.two_pow_pos 32
  rw [ExceptT.on_map, on_start _ rfl, if_pos room]
  rfl

theorem running_started (name? ontology? : Option String) : (started name? ontology?).Running := by
  rw [started_eq]
  exact ⟨Plan.wellFormed_start name? ontology?, _, rfl, Nat.zero_lt_one⟩

/-- No step of a history runs out of numbers for nodes; any other failure is allowed. -/
def NeverExhausted (builder : Builder) : List BuilderStep → Prop
  | [] => True
  | step :: rest =>
    (builder.step step).1 ≠ .error .exhausted ∧ NeverExhausted (builder.step step).2 rest

instance decidableExhausted {α : Type} (answer : Except BuilderError α) :
    Decidable (answer = .error .exhausted) :=
  match answer with
  | .ok _ => isFalse (by simp)
  | .error error => decidable_of_iff (error = .exhausted) (by rw [Except.error.injEq])

instance decidableNeverExhausted : (steps : List BuilderStep) → (builder : Builder) →
    Decidable (builder.NeverExhausted steps)
  | [], _ => isTrue trivial
  | step :: rest, builder =>
    have := decidableNeverExhausted rest (builder.step step).2
    inferInstanceAs (Decidable (_ ∧ _))

/-- A running builder keeps running through every history that never exhausts its ids. -/
theorem Running.after (steps : List BuilderStep) : ∀ {builder : Builder}, builder.Running →
    builder.NeverExhausted steps → (builder.after steps).Running := by
  induction steps with
  | nil => intro builder running _; exact running
  | cons step rest ih =>
    intro builder running ⟨room, later⟩
    exact ih (safe_perform step builder running room) later

/-- A history that never exhausts the ids does not do so up to any of its steps. -/
theorem NeverExhausted.of_prefix {past steps : List BuilderStep} (stops : past <+: steps) :
    ∀ {builder : Builder}, builder.NeverExhausted steps → builder.NeverExhausted past := by
  induction past generalizing steps with
  | nil => intro builder _; trivial
  | cons step rest ih =>
    intro builder room
    obtain ⟨later, rfl⟩ := stops
    exact ⟨room.1, ih (List.prefix_append rest later) room.2⟩

/-- **Plans under construction are always well formed.** After any history of operations on a
builder that was started, with any arguments, legal or not, nothing is wrong with the plan; the same
holds at every earlier point of the history. -/
theorem violations_after_eq_nil {name? ontology? : Option String} {steps : List BuilderStep}
    (room : (started name? ontology?).NeverExhausted steps) {past : List BuilderStep}
    (stops : past <+: steps) :
    ((started name? ontology?).after past).plan.WellFormed ∧
      ((started name? ontology?).after past).plan.violations = [] := by
  have formed := ((running_started name? ontology?).after past (room.of_prefix stops)).formed
  exact ⟨formed, formed.violations_eq_nil⟩

/-- A history with a second root step, a step to a number without a node, an insertion below a leaf
and a quantifier spliced in above an older node. -/
def tangledHistory : List BuilderStep :=
  [.enterEntity "book" "Book", .addProperty ⟨.entity, "title", .shown⟩, .moveTo 0,
    .enterRelation "has_Author" .forward "author", .moveTo 9, .addQuantifier .every, .moveTo 2,
    .addQuantifier .any, .moveTo 0, .addQuantifier .any, .addGroup [("name", none)] .any,
    .ascend fun id _ => id = 1]

/-- A history with errors, a spliced quantifier and a group makes a plan without violations. -/
theorem violations_after_tangledHistory :
    (started none none).NeverExhausted tangledHistory ∧ tangledHistory <+: tangledHistory ∧
      ((started none none).after tangledHistory).plan.WellFormed ∧
        ((started none none).after tangledHistory).plan.violations = [] := by
  have room : (started none none).NeverExhausted tangledHistory := by decide +kernel
  exact ⟨room, List.prefix_rfl, violations_after_eq_nil room List.prefix_rfl⟩

end Builder

end TraversalQuery
