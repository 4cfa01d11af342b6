import TraversalQuery.Proofs.Plan.Linking

/-!
# Splicing in a quantifier

A quantifier comes between a node and what the node led on to, which moves below it with all that
stands under it. Seen from any node of before, the way up to the root is the same but for the
quantifier, and it passes the quantifier exactly if it passes the node that moved. What else stands
below the node keeps its place.
-/

namespace TraversalQuery

namespace Node

/-- A node that does not fan out leads on to its successor and to nothing else. -/
theorem next_eq_toList {node : Node} (linear : node.isQuantifier = false) :
    node.next = node.successor?.toList := by
  cases node with
  | quantifier => contradiction
  | _ => rfl

/-- Nodes other than quantifiers lead to their next node only. -/
theorem mem_next_iff {node : Node} {target : NodeId} :
    node.isQuantifier = false ∧ target ∈ node.next ↔ node.successor? = some target := by
  constructor
  · rintro ⟨linear, leads⟩
    rw [next_eq_toList linear] at leads
    exact Option.mem_toList.mp leads
  · intro leads
    have linear := isQuantifier_of_successor? leads
    rw [next_eq_toList linear, leads]
    exact ⟨linear, List.mem_singleton_self target⟩

/-- A quantifier leads on to one more node after all others, another node to that node alone. -/
theorem next_followedBy {node : Node} (id : NodeId) (inner : node.isLeaf = false) :
    (node.followedBy id).next = if node.isQuantifier then node.next ++ [id] else [id] := by
  cases node with
  | property => contradiction
  | group => contradiction
  | _ => rfl

end Node

namespace Plan

variable {plan later : Plan} {kind : Quantifier} {here quantifier : NodeId} {held : Node}

/-- A later plan has a quantifier after a node, and below it what the node led on to unless that
was a quantifier itself. Whatever else there was is as it was. -/
structure SplicedIn (plan later : Plan) (kind : Quantifier) (here quantifier : NodeId)
    (held : Node) : Prop where
  fresh : plan.node? quantifier = none
  sizes : later.size = plan.size + 1
  inserted : later.node? quantifier =
    some (.quantifier kind (if held.isQuantifier then [] else held.next))
  above : later.parent? quantifier = some here
  below : ∀ {moved}, held.isQuantifier = false → moved ∈ held.next →
    later.parent? moved = some quantifier
  links : (later.node? here).map Node.next =
    some (if held.isQuantifier then held.next ++ [quantifier] else [quantifier])
  nodes : ∀ {id}, id ≠ here → id ≠ quantifier → later.node? id = plan.node? id
  parents : ∀ {id}, id ≠ quantifier → ¬(held.isQuantifier = false ∧ id ∈ held.next) →
    later.parent? id = plan.parent? id
  ascends : ∀ {id}, id < plan.size →
    plan.Ascends id (plan.pathToRoot id) ∧ later.Ascends id (later.pathToRoot id)
  paths : ∀ {id}, id < plan.size →
    (later.pathToRoot id).filter (fun passed => passed ≠ quantifier) = plan.pathToRoot id
  passes : ∀ {id}, id < plan.size →
    (quantifier ∈ later.pathToRoot id ↔
      held.isQuantifier = false ∧ ∃ moved ∈ held.next, moved ∈ plan.pathToRoot id)

section Splice

variable (formed : plan.WellFormed) (atHere : plan.node? here = some held)
include formed atHere

/-- What the path of a node becomes. -/
theorem Ascends.exists_splice {id : NodeId} {path : List NodeId} (ascent : plan.Ascends id path) :
    ∃ path', (plan.splice kind here held.successor?).Ascends id path' ∧
      path'.filter (fun passed => passed ≠ plan.size) = path ∧
        (plan.size ∈ path' ↔ ∃ moved, held.successor? = some moved ∧ moved ∈ path) := by
  have fresh : plan.size ∉ path := fun member =>
    Nat.lt_irrefl _ (ascent.lt_size_of_mem member)
  cases leads : held.successor? with
  | none =>
    refine ⟨path, ascent.of_parents (by simp) fun id old => ?_, ?_, ?_⟩
    · rw [parent?_splice_none, if_neg (Nat.ne_of_lt old)]
    · refine List.filter_eq_self.mpr fun passed member => decide_eq_true ?_
      rintro rfl
      exact fresh member
    · exact ⟨fun member => absurd member fresh, nofun⟩
  | some moved =>
    have link := (formed.successor atHere leads).1
    refine ⟨_, ascent.detour link, filter_detour fresh, (mem_detour_iff fresh).trans ?_⟩
    exact ⟨fun passes => ⟨moved, rfl, passes⟩,
      fun ⟨_, same, passes⟩ => Option.some.inj same ▸ passes⟩

/-- Splicing a quantifier in leaves the parents of all nodes but the next one. -/
theorem parent?_splice_of_not_moved {id : NodeId} (old : id ≠ plan.size)
    (stays : held.successor? ≠ some id) :
    (plan.splice kind here held.successor?).parent? id = plan.parent? id := by
  cases leads : held.successor? with
  | none => rw [parent?_splice_none, if_neg old]
  | some moved =>
    have other : id ≠ moved := by
      rintro rfl
      exact stays leads
    rw [parent?_splice_some plan kind (formed.successor_lt_size atHere leads), if_neg other,
      if_neg old]

theorem parent?_splice_size :
    (plan.splice kind here held.successor?).parent? plan.size = some here := by
  cases leads : held.successor? with
  | none => rw [parent?_splice_none, if_pos rfl]
  | some moved => exact parent?_splice_self (formed.successor atHere leads).1

/-- In a well-formed plan a quantifier is spliced in above what was next. -/
theorem WellFormed.splicedIn (kind : Quantifier) (inner : held.isLeaf = false) :
    plan.SplicedIn (plan.splice kind here held.successor?) kind here plan.size held := by
  have inside := lt_size_of_node? atHere
  have gains : plan.Gains (plan.splice kind here held.successor?) _ here _ :=
    ⟨size_splice .., inside, node?_splice plan kind inside held.successor?⟩
  have path {id : NodeId} (old : id < plan.size) :
      plan.Ascends id (plan.pathToRoot id) ∧
        ∃ path', (plan.splice kind here held.successor?).Ascends id path' ∧
          path'.filter (fun passed => passed ≠ plan.size) = plan.pathToRoot id ∧
            (plan.size ∈ path' ↔
              ∃ moved, held.successor? = some moved ∧ moved ∈ plan.pathToRoot id) := by
    obtain ⟨path, ascent⟩ := formed.rooted old
    rw [ascent.pathToRoot_eq]
    exact ⟨ascent, ascent.exists_splice formed atHere⟩
  constructor
  case fresh => exact node?_eq_none_iff.mpr (Nat.le_refl _)
  case sizes => exact gains.sizes
  case inserted =>
    rw [gains.fresh]
    cases fans : held.isQuantifier with
    | true =>
      have none : held.successor? = none := by
        cases held with
        | quantifier => rfl
        | _ => contradiction
      rw [none, if_pos rfl, Option.toList_none]
    | false => rw [if_neg Bool.false_ne_true, Node.next_eq_toList fans]
  case above => exact parent?_splice_size formed atHere
  case below =>
    intro moved linear leads
    have leads := Node.mem_next_iff.mp ⟨linear, leads⟩
    rw [leads]
    exact parent?_splice_moved (formed.successor atHere leads).1
  case links => rw [gains.linked atHere, Option.map_some, Node.next_followedBy _ inner]
  case nodes => exact fun other old => gains.kept old other
  case parents =>
    intro id old stays
    exact parent?_splice_of_not_moved formed atHere old (mt Node.mem_next_iff.mpr stays)
  case ascends =>
    intro id old
    obtain ⟨ascent, path', ascent', _⟩ := path old
    rw [ascent'.pathToRoot_eq]
    exact ⟨ascent, ascent'⟩
  case paths =>
    intro id old
    obtain ⟨_, path', ascent', without, _⟩ := path old
    rw [ascent'.pathToRoot_eq, without]
  case passes =>
    intro id old
    obtain ⟨_, path', ascent', _, passes⟩ := path old
    rw [ascent'.pathToRoot_eq, passes]
    simp only [← Node.mem_next_iff, and_assoc, exists_and_left]

end Splice

end Plan

namespace Builder

/-- **Splicing keeps ancestry.** In every state of a builder, a quantifier that is added comes after
the node at the cursor: the paths of all nodes of before are as they were without it, and those
through what a linear node led on to pass it; that node alone has another parent; and the node at
the cursor alone leads elsewhere. -/
theorem splicedIn_of_addQuantifier (name? ontology? : Option String) (steps : List BuilderStep)
    (kind : Quantifier) {quantifier : NodeId}
    (added : (((empty name? ontology?).after steps).step (.addQuantifier kind)).1 =
      .ok (.inserted quantifier)) :
    let builder := (empty name? ontology?).after steps
    let later := (builder.step (.addQuantifier kind)).2
    ∃ here held, builder.cursor? = some here ∧ builder.plan.node? here = some held ∧
      later.cursor? = some quantifier ∧
        builder.plan.SplicedIn later.plan kind here quantifier held := by
  intro builder later
  have fresh : (empty name? ontology?).Settled := .idle rfl rfl
  have settled : builder.Settled := fresh.after steps
  have performed : builder.step (.addQuantifier kind) =
      (((addQuantifier kind).on builder).1.map .inserted, ((addQuantifier kind).on builder).2) :=
    ExceptT.on_map ..
  rw [performed] at added
  rcases inserts_addQuantifier kind builder with ⟨error, ran⟩ | ⟨here, found, room, ran⟩
  · rw [ran] at added
    contradiction
  · have running := settled.running (started_of_target found) room
    obtain ⟨placed, held, atHere, inner⟩ := running.insertion found
    rw [ran] at performed added
    obtain rfl : builder.plan.size = quantifier := StepAnswer.inserted.inj (Except.ok.inj added)
    have spliced : later = ⟨builder.plan.splice kind here
        ((builder.plan.node? here).bind Node.successor?), some builder.plan.size⟩ :=
      congrArg Prod.snd performed
    rw [atHere, Option.bind_some] at spliced
    rw [spliced]
    exact ⟨here, held, placed, atHere, rfl, running.formed.splicedIn atHere kind inner⟩

/-- At the start of a plan where a step stands below it that it no longer leads on to. -/
theorem splicedIn_of_addQuantifier_tangled :
    (((empty none none).after (.start :: tangledHistory ++ [.moveTo 0])).step
        (.addQuantifier .every)).1 = .ok (.inserted 8) ∧
      ∃ here held,
        ((empty none none).after (.start :: tangledHistory ++ [.moveTo 0])).cursor? = some here ∧
        ((empty none none).after (.start :: tangledHistory ++ [.moveTo 0])).plan.node? here =
          some held ∧
        (((empty none none).after (.start :: tangledHistory ++ [.moveTo 0])).step
          (.addQuantifier .every)).2.cursor? = some 8 ∧
        ((empty none none).after (.start :: tangledHistory ++ [.moveTo 0])).plan.SplicedIn
          (((empty none none).after (.start :: tangledHistory ++ [.moveTo 0])).step
            (.addQuantifier .every)).2.plan .every here 8 held := by
  have added : (((empty none none).after (.start :: tangledHistory ++ [.moveTo 0])).step
      (.addQuantifier .every)).1 = .ok (.inserted 8) := by decide +kernel
  exact ⟨added, splicedIn_of_addQuantifier none none _ .every added⟩

example :
    let plan := ((empty none none).after
      (.start :: tangledHistory ++ [.moveTo 0, .addQuantifier .every])).plan
    plan.pathToRoot 4 = [4, 3, 5, 8, 0] ∧ plan.pathToRoot 1 = [1, 0] := by
  decide +kernel

end Builder

end TraversalQuery
