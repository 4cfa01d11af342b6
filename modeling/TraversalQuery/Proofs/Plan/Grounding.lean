import TraversalQuery.Proofs.Plan.Climbs
import TraversalQuery.Proofs.Plan.Linking

/-!
# Climbing from the cursor

A quantifier that is spliced in has a greater number than the node below it, so numbers do not tell
how far it is to the root. But whatever is done with a builder, whether it succeeds or fails,
parents lead from every node to the root, and the cursor is on a node. So a climb from the cursor
comes to an end.
-/

namespace TraversalQuery

namespace Plan

variable {plan : Plan}

/-- A group that is cut off hangs on its node, and its members hang on it. -/
theorem rooted_cutGroup (rooted : ∀ {id}, id < plan.size → plan.Rooted id) (kind : Quantifier)
    (fields : List (String × Option Constraint)) {here : NodeId} (inside : here < plan.size)
    {id : NodeId} (present : id < (plan.cutGroup kind fields here).size) :
    (plan.cutGroup kind fields here).Rooted id := by
  have kept {id : NodeId} (old : id < plan.size) : (plan.cutGroup kind fields here).Rooted id :=
    (rooted old).of_parents (by rw [size_cutGroup]; omega) fun _ old =>
      parent?_cutGroup_of_lt plan kind fields old
  have group : (plan.cutGroup kind fields here).Rooted plan.size := by
    obtain ⟨path, ascent⟩ := kept inside
    have newer : plan.size < (plan.push (.group kind []) (some here)).size := by simp
    refine ⟨_, .above ?_ ascent⟩
    rw [cutGroup, parent?_pushMembers_of_lt _ fields newer, parent?_push, if_pos rfl]
  rcases Nat.lt_trichotomy id plan.size with old | rfl | new
  · exact kept old
  · exact group
  · obtain ⟨index, rfl⟩ := Nat.exists_eq_add_of_le (Nat.succ_le_of_lt new)
    rw [size_cutGroup] at present
    have within : index < fields.length := Nat.lt_of_add_lt_add_left present
    have link := (member_pushMembers plan.size fields (plan.push (.group kind []) (some here))
      (List.getElem?_eq_getElem within)).2
    rw [size_push] at link
    obtain ⟨path, ascent⟩ := group
    exact ⟨_, .above link ascent⟩

end Plan

namespace Builder

/-- A builder from all of whose nodes parents lead to the root. Its cursor is on one of them. -/
structure Grounded (builder : Builder) : Prop where
  rooted : ∀ {id}, id < builder.plan.size → builder.plan.Rooted id
  placed : ∀ {here}, builder.cursor? = some here → here < builder.plan.size

/-- Running builders are grounded. -/
theorem Running.grounded {builder : Builder} (running : builder.Running) : builder.Grounded := by
  refine ⟨running.formed.rooted, fun {here} placed => ?_⟩
  obtain ⟨_, same, inside⟩ := running.placed
  obtain rfl := Option.some.inj (same.symm.trans placed)
  exact inside

/-- Every step keeps a builder on the ground. -/
theorem Grounded.step {builder : Builder} (grounded : builder.Grounded)
    (settled : builder.Settled) (step : BuilderStep) : (builder.step step).2.Grounded := by
  have becomes := settled.becomes step
  generalize (builder.step step).2 = later at becomes ⊢
  cases becomes with
  | same => exact grounded
  | working running => exact running.grounded
  | moved _ present =>
    refine ⟨grounded.rooted, fun {here} placed => ?_⟩
    exact Option.some.inj placed ▸ present
  | cut kind fields running _ inside _ =>
    refine ⟨Plan.rooted_cutGroup grounded.rooted kind fields inside, fun placed => ?_⟩
    rw [Plan.size_cutGroup, Nat.add_assoc]
    exact Nat.lt_add_right _ (grounded.placed placed)

/-- Every history leaves a grounded builder grounded. -/
theorem Grounded.after (steps : List BuilderStep) : ∀ {builder : Builder}, builder.Settled →
    builder.Grounded → (builder.after steps).Grounded := by
  induction steps with
  | nil => exact fun _ grounded => grounded
  | cons step rest ih =>
    exact fun settled grounded => ih (settled.step step) (grounded.step settled step)

theorem grounded_empty (name? ontology? : Option String) : (empty name? ontology?).Grounded :=
  ⟨fun present => absurd present (Nat.not_lt_zero _), fun placed => nomatch placed⟩

/-- **A climb from the cursor always ends.** In every state that a builder comes to after it was
started, by operations that succeed or fail, the path from the cursor leads to the root. A climb,
which nothing limits, has exactly one course: it asks about the nodes of the path in order and each
once, up to the first that is accepted, and ends there; it ends at no node exactly if none on the
whole path is accepted. The operation answers with that climb and changes nothing. -/
theorem ascend_along_path (name? ontology? : Option String) (steps : List BuilderStep)
    (accepts : NodeId → Node → Bool) {here : NodeId}
    (placed : ((empty name? ontology?).after steps).cursor? = some here) :
    let builder := (empty name? ontology?).after steps
    let path := builder.plan.pathToRoot here
    let accepted := builder.plan.isAccepted accepts
    ∃ ascent : Ascent, builder.plan.Ascends here path ∧ path.Nodup ∧
      (∀ course, builder.plan.Climbs accepts here course ↔ course = ascent) ∧
      builder.step (.ascend accepts) = (.ok (.climbed ascent), builder) ∧
      ascent.asked = path.takeWhile (fun id => !accepted id) ++ ascent.found?.toList ∧
      ascent.found? = path.find? accepted ∧
      (ascent.found? = none ↔ ∀ id ∈ path, accepted id = false) := by
  intro builder path accepted
  have fresh : (empty name? ontology?).Settled := .idle rfl rfl
  have grounded : builder.Grounded := (grounded_empty name? ontology?).after steps fresh
  obtain ⟨found, ascent⟩ := grounded.rooted (grounded.placed placed)
  obtain rfl : path = found := ascent.pathToRoot_eq
  have climbs : builder.plan.Climbs accepts here (builder.plan.ascentAlong accepts path) :=
    ascent.climbs
  refine ⟨builder.plan.ascentAlong accepts path, ascent, ascent.nodup, fun course => ?_, ?_, rfl,
    rfl, ?_⟩
  · exact ⟨fun other => climbs.unique other, fun same => same ▸ climbs⟩
  · have room : path.length ≤ builder.plan.size + 1 := Nat.le_succ_of_le ascent.length_le_size
    change (StepAnswer.climbed <$> ascend accepts : Build StepAnswer).on builder = _
    rw [ExceptT.on_map, on_ascend, placed]
    dsimp only
    rw [ascent.climb_eq room]
    rfl
  · rw [show (builder.plan.ascentAlong accepts path).found? = path.find? accepted from rfl,
      List.find?_eq_none]
    simp only [Bool.not_eq_true]

/-- From below a quantifier that was spliced in above an older node. -/
theorem ascend_along_path_tangled :
    ((empty none none).after (.start :: tangledHistory ++ [.moveTo 4])).cursor? = some 4 ∧
      ∃ ascent : Ascent,
        ((empty none none).after (.start :: tangledHistory ++ [.moveTo 4])).step
            (.ascend fun id _ => id = 5) =
          (.ok (.climbed ascent),
            (empty none none).after (.start :: tangledHistory ++ [.moveTo 4])) ∧
        ascent.asked = [4, 3, 5] ∧ ascent.found? = some 5 := by
  have placed :
      ((empty none none).after (.start :: tangledHistory ++ [.moveTo 4])).cursor? = some 4 := by
    decide +kernel
  obtain ⟨ascent, _, _, _, ran, asked, found, _⟩ :=
    ascend_along_path none none _ (fun id _ => id = 5) placed
  have reached : ascent.found? = some 5 := by
    rw [found]
    decide +kernel
  refine ⟨placed, ascent, ran, ?_, reached⟩
  rw [asked, reached]
  decide +kernel

end Builder

end TraversalQuery
