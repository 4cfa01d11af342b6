import TraversalQuery.Proofs.Plan.Histories

/-!
# What the nodes of a builder lead on to

Whatever is done with a builder, the links of its nodes agree with their parents. A quantifier leads
on to all nodes below it, in the order in which they were inserted, and another node to nothing or
to one step or quantifier below it. Only where the numbers for nodes end is there an exception: a
group whose members found no numbers stays without them, and the quantifier above does not lead on
to it.
-/

namespace TraversalQuery

namespace Plan

variable {plan : Plan}

/-- A group that holds nothing, in a plan that has as many nodes as there are numbers. -/
def CutOff (plan : Plan) (group : NodeId) : Prop :=
  plan.size = Builder.capacity ∧ ∃ kind, plan.node? group = some (.group kind [])

/-- A plan in which quantifiers lead on to all nodes below them, up to a group that was cut off, and
other nodes to one step or quantifier below them or to nothing. -/
structure Linked (plan : Plan) : Prop where
  fan : ∀ {id kind next}, plan.node? id = some (.quantifier kind next) →
    next = plan.children id ∨
      ∃ group, plan.CutOff group ∧ plan.children id = next ++ [group]
  single : ∀ {id node}, plan.node? id = some node → (node.isStart || node.isStep) = true →
    node.next = [] ∨ ∃ child reached, node.next = [child] ∧ plan.parent? child = some id ∧
      plan.node? child = some reached ∧ (reached.isStep || reached.isQuantifier) = true

/-- Children stand in the order of their numbers, each once. -/
theorem children_ascending (plan : Plan) (id : NodeId) :
    (plan.children id).Pairwise (· < ·) := by
  rw [children_eq_filter]
  exact List.pairwise_lt_range.filter _

/-- Quantifiers lead to their children in the order of ids. -/
theorem Linked.ascending (linked : plan.Linked) {id : NodeId} {kind : Quantifier}
    {next : List NodeId} (found : plan.node? id = some (.quantifier kind next)) :
    next.Pairwise (· < ·) := by
  have ordered := plan.children_ascending id
  rcases linked.fan found with same | ⟨group, _, more⟩
  · rwa [same]
  · rw [more] at ordered
    exact (List.pairwise_append.mp ordered).1

/-- A plan without nodes is linked. -/
theorem linked_of_slots_eq_nil (none : plan.slots = []) : plan.Linked := by
  have absent (id : NodeId) : plan.node? id = Option.none := by
    rw [node?, none]
    rfl
  exact ⟨fun found => by simp [absent] at found, fun found => by simp [absent] at found⟩

namespace WellFormed

variable (formed : plan.WellFormed)
include formed

/-- No node but the root is a start, and nothing stands above the root. -/
theorem isStart_of_parent? {id parent : NodeId} {node : Node}
    (link : plan.parent? id = some parent) (found : plan.node? id = some node) :
    node.isStart = false := by
  cases node with
  | start next? =>
    rw [formed.oneStart found, formed.rootOnTop] at link
    contradiction
  | _ => rfl

/-- A start or a step leads to one child at most, which is a step or a quantifier. -/
theorem single {id : NodeId} {node : Node} (found : plan.node? id = some node)
    (linear : (node.isStart || node.isStep) = true) :
    node.next = [] ∨ ∃ child reached, node.next = [child] ∧ plan.parent? child = some id ∧
      plan.node? child = some reached ∧ (reached.isStep || reached.isQuantifier) = true := by
  have same : node.next = node.successor?.toList := by cases node <;> first | rfl | contradiction
  cases leads : node.successor? with
  | none => exact .inl (by rw [same, leads]; rfl)
  | some child =>
    obtain ⟨link, reached, isReached, inner⟩ := formed.successor found leads
    refine .inr ⟨child, reached, by rw [same, leads]; rfl, link, isReached, ?_⟩
    have below := formed.isStart_of_parent? link isReached
    cases reached <;> first | rfl | contradiction

/-- Well-formed plans are linked. -/
theorem linked : plan.Linked where
  fan found := .inl (formed.fan found)
  single := formed.single

end WellFormed

section Cut

variable (plan) (kind : Quantifier) (fields : List (String × Option Constraint)) {here : NodeId}

/-- A group below a node that has not learned of it, with the members that found numbers. -/
def cutGroup (plan : Plan) (kind : Quantifier) (fields : List (String × Option Constraint))
    (here : NodeId) : Plan :=
  (plan.push (.group kind []) (some here)).pushMembers plan.size fields

@[simp] theorem size_cutGroup : (plan.cutGroup kind fields here).size =
    plan.size + 1 + fields.length := by
  simp [cutGroup]

/-- A group that is cut off leaves the nodes that there were. -/
theorem node?_cutGroup_of_lt {id : NodeId} (old : id < plan.size) :
    (plan.cutGroup kind fields here).node? id = plan.node? id := by
  have newer : id < (plan.push (.group kind []) (some here)).size := by
    rw [size_push]
    exact Nat.lt_succ_of_lt old
  rw [cutGroup, node?_pushMembers_of_lt _ fields newer, node?_push, if_neg (Nat.ne_of_lt old)]

/-- A group that is cut off has no members. -/
theorem node?_cutGroup_self :
    (plan.cutGroup kind fields here).node? plan.size = some (.group kind []) := by
  have newer : plan.size < (plan.push (.group kind []) (some here)).size := by simp
  rw [cutGroup, node?_pushMembers_of_lt _ fields newer, node?_push, if_pos rfl]

/-- A group that is cut off leaves the parents that there were. -/
theorem parent?_cutGroup_of_lt {id : NodeId} (old : id < plan.size) :
    (plan.cutGroup kind fields here).parent? id = plan.parent? id := by
  have newer : id < (plan.push (.group kind []) (some here)).size := by
    rw [size_push]
    exact Nat.lt_succ_of_lt old
  rw [cutGroup, parent?_pushMembers_of_lt _ fields newer, parent?_push, if_neg (Nat.ne_of_lt old)]

/-- A group that is cut off is a child all the same. -/
theorem children_cutGroup {id : NodeId} (old : id < plan.size) :
    (plan.cutGroup kind fields here).children id =
      plan.children id ++ if here = id then [plan.size] else [] := by
  rw [cutGroup, children_pushMembers, children_push, if_neg (Nat.ne_of_lt old), List.append_nil]
  simp only [Option.some.injEq]

/-- What comes in with a group that is cut off are the group and properties. -/
theorem isLeaf_cutGroup {id : NodeId} {node : Node} (new : plan.size ≤ id)
    (found : (plan.cutGroup kind fields here).node? id = some node) : node.isLeaf = true := by
  rcases Nat.eq_or_lt_of_le new with rfl | later
  · rw [node?_cutGroup_self] at found
    obtain rfl := Option.some.inj found
    rfl
  · have inside := lt_size_of_node? found
    rw [size_cutGroup] at inside
    obtain ⟨index, rfl⟩ := Nat.exists_eq_add_of_le later
    have within : index < fields.length := Nat.lt_of_add_lt_add_left inside
    have member := (member_pushMembers plan.size fields (plan.push (.group kind []) (some here))
      (List.getElem?_eq_getElem within)).1
    rw [size_push] at member
    obtain rfl := Option.some.inj (member.symm.trans found)
    rfl

variable {plan}

/-- A group that is cut off is all that is missing from the links. -/
theorem WellFormed.linked_cutGroup (formed : plan.WellFormed)
    (full : (plan.cutGroup kind fields here).size = Builder.capacity) :
    (plan.cutGroup kind fields here).Linked := by
  have before {id : NodeId} {node : Node}
      (found : (plan.cutGroup kind fields here).node? id = some node)
      (inner : node.isLeaf = false) : id < plan.size ∧ plan.node? id = some node := by
    have old : id < plan.size := by
      refine Nat.lt_of_not_le fun new => ?_
      rw [isLeaf_cutGroup plan kind fields new found] at inner
      contradiction
    exact ⟨old, node?_cutGroup_of_lt plan kind fields old ▸ found⟩
  constructor
  case fan =>
    intro id _ next found
    obtain ⟨old, was⟩ := before found rfl
    rw [children_cutGroup plan kind fields old, formed.fan was]
    split
    · exact .inr ⟨plan.size, ⟨full, kind, node?_cutGroup_self plan kind fields⟩, rfl⟩
    · exact .inl (List.append_nil _).symm
  case single =>
    intro id node found linear
    obtain ⟨_, was⟩ := before found (by cases node <;> first | rfl | contradiction)
    rcases formed.single was linear with none | ⟨child, reached, only, link, isReached, fits⟩
    · exact .inl none
    · have older := lt_size_of_parent? link
      refine .inr ⟨child, reached, only, ?_, ?_, fits⟩
      · rwa [parent?_cutGroup_of_lt plan kind fields older]
      · rwa [node?_cutGroup_of_lt plan kind fields older]

end Cut

end Plan

namespace Builder

/-- The states that a builder can come to: it was not started, or it is at work, or it has run out
of numbers for nodes. -/
inductive Settled (builder : Builder) : Prop
  | idle (unstarted : builder.cursor? = none) (nothing : builder.plan.slots = [])
  | working (running : builder.Running)
  | full (started : builder.cursor? ≠ none) (noRoom : builder.plan.size = capacity)
      (linked : builder.plan.Linked)

/-- The plan of a settled builder is linked. -/
theorem Settled.linked {builder : Builder} (settled : builder.Settled) : builder.plan.Linked := by
  cases settled with
  | idle _ nothing => exact Plan.linked_of_slots_eq_nil nothing
  | working running => exact running.formed.linked
  | full _ _ linked => exact linked

/-- A builder that was started and has room is at work. -/
theorem Settled.running {builder : Builder} (settled : builder.Settled)
    (started : builder.cursor? ≠ none) (room : builder.plan.size < capacity) :
    builder.Running := by
  cases settled with
  | idle unstarted => exact absurd unstarted started
  | working running => exact running
  | full _ noRoom => exact absurd noRoom (Nat.ne_of_lt room)

end Builder

namespace Build

variable {α β : Type}

/-- An operation that changes nothing, or a builder that was started and has room, where it does not
run out of numbers. -/
def Sparing (operation : Build α) : Prop :=
  ∀ builder : Builder, (operation.on builder).2 = builder ∨
    builder.cursor? ≠ none ∧ builder.plan.size < Builder.capacity ∧
      (operation.on builder).1 ≠ .error .exhausted

end Build

namespace Builder

/-- What is inserted goes to the cursor. -/
theorem cursor_of_target {builder : Builder} {call : BuilderCall} {here : NodeId}
    (found : builder.target call = .ok here) : builder.cursor? = some here := by
  rcases builder.target_cases call with ⟨_, none, _⟩ | ⟨_, target, placed, _⟩
  · rw [found] at none
    contradiction
  · obtain rfl := Except.ok.inj (found.symm.trans target)
    exact placed

/-- Nothing is inserted by a builder that was not started. -/
theorem started_of_target {builder : Builder} {call : BuilderCall} {here : NodeId}
    (found : builder.target call = .ok here) : builder.cursor? ≠ none :=
  Option.ne_none_iff_exists'.mpr ⟨here, cursor_of_target found⟩

end Builder

/-- Operations that insert a node keep within the capacity. -/
theorem Build.Inserts.sparing {operation : Build NodeId} {call : BuilderCall}
    {edit : Builder → NodeId → Builder} (inserts : operation.Inserts call edit) :
    operation.Sparing := by
  intro builder
  rcases inserts builder with ⟨error, ran⟩ | ⟨here, found, room, ran⟩
  · rw [ran]
    exact .inl rfl
  · rw [ran]
    exact .inr ⟨Builder.started_of_target found, room, nofun⟩

namespace Builder

theorem sparing_ascend (accepts : NodeId → Node → Bool) : (ascend accepts).Sparing := by
  intro builder
  rw [on_ascend]
  cases builder.cursor? <;> exact .inl rfl

/-- The fields of a group that comes next whose members find numbers. -/
def numbered (builder : Builder) (fields : List (String × Option Constraint)) :
    List (String × Option Constraint) :=
  fields.take (capacity - (builder.plan.size + 1))

/-- A group that is cut off has used up all numbers. -/
theorem size_cutGroup_numbered {builder : Builder} {fields : List (String × Option Constraint)}
    (room : builder.plan.size < capacity)
    (few : capacity < builder.plan.size + 1 + fields.length) (kind : Quantifier) (here : NodeId) :
    (builder.plan.cutGroup kind (builder.numbered fields) here).size = capacity := by
  rw [Plan.size_cutGroup, numbered, List.length_take]
  omega

/-- The one operation that can run out of numbers halfway: it changes nothing, adds a whole group,
or leaves a group that is cut off. -/
theorem addGroup_cases (builder : Builder) (fields : List (String × Option Constraint))
    (kind : Quantifier) :
    (∃ error, (addGroup fields kind).on builder = (.error error, builder)) ∨
      ∃ here, builder.target .addGroup = .ok here ∧ builder.plan.size < capacity ∧
        ((addGroup fields kind).on builder =
            (.ok builder.plan.size,
              { builder with plan := builder.plan.attachGroup kind fields here }) ∨
          capacity < builder.plan.size + 1 + fields.length ∧
            (addGroup fields kind).on builder =
              (.error .exhausted,
                { builder with
                  plan := builder.plan.cutGroup kind (builder.numbered fields) here })) := by
  rw [on_addGroup]
  cases builder.target .addGroup with
  | error error => exact .inl ⟨error, rfl⟩
  | ok here =>
    dsimp only
    by_cases enough : builder.plan.size + 1 + fields.length ≤ capacity
    · have room : builder.plan.size < capacity := by omega
      exact .inr ⟨here, rfl, room, .inl (if_pos enough)⟩
    · rw [if_neg enough]
      by_cases room : builder.plan.size < capacity
      · exact .inr ⟨here, rfl, room, .inr ⟨Nat.lt_of_not_le enough, if_pos room⟩⟩
      · exact .inl ⟨_, if_neg room⟩

/-- What a step makes of a builder. It changes nothing, or the builder is at work after it, or only
the cursor moves, or a group that is cut off stays behind. -/
inductive Becomes (builder : Builder) : Builder → Prop
  | same : builder.Becomes builder
  | working {later : Builder} (running : later.Running) : builder.Becomes later
  | moved {id : NodeId} (started : builder.cursor? ≠ none) (present : id < builder.plan.size) :
      builder.Becomes { builder with cursor? := some id }
  | cut {here : NodeId} (kind : Quantifier) (fields : List (String × Option Constraint))
      (running : builder.Running) (placed : builder.cursor? = some here)
      (inside : here < builder.plan.size)
      (noRoom : (builder.plan.cutGroup kind fields here).size = capacity) :
      builder.Becomes { builder with plan := builder.plan.cutGroup kind fields here }

end Builder

namespace Build

variable {α β : Type}

/-- An operation that makes of a builder what steps make of builders. -/
def Steps (operation : Build α) : Prop :=
  ∀ builder : Builder, builder.Settled → builder.Becomes (operation.on builder).2

theorem Steps.map {operation : Build α} (steps : operation.Steps) (change : α → β) :
    (change <$> operation).Steps := by
  intro builder settled
  rw [ExceptT.on_map]
  exact steps builder settled

/-- Operations that are safe and keep within the capacity leave builders settled. -/
theorem Sparing.steps {operation : Build α} (sparing : operation.Sparing)
    (safe : operation.Safe) : operation.Steps := by
  intro builder settled
  rcases sparing builder with same | ⟨started, room, enough⟩
  · rw [same]
    exact .same
  · exact .working (safe builder (settled.running started room) enough)

end Build

namespace Builder

theorem step_addGroup (builder : Builder) (fields : List (String × Option Constraint))
    (kind : Quantifier) :
    builder.step (.addGroup fields kind) =
      (((addGroup fields kind).on builder).1.map .inserted,
        ((addGroup fields kind).on builder).2) :=
  ExceptT.on_map ..

/-- A group that finds a number while its members do not is cut off. -/
theorem step_addGroup_of_few {builder : Builder} {fields : List (String × Option Constraint)}
    {here : NodeId} (found : builder.target .addGroup = .ok here)
    (room : builder.plan.size < capacity)
    (few : capacity < builder.plan.size + 1 + fields.length) (kind : Quantifier) :
    builder.step (.addGroup fields kind) =
      (.error .exhausted,
        { builder with plan := builder.plan.cutGroup kind (builder.numbered fields) here }) := by
  rw [step_addGroup, on_addGroup, found]
  dsimp only
  rw [if_neg (Nat.not_le_of_lt few), if_pos room]
  rfl

/-- Adding a group leaves builders settled, even where the ids run out. -/
theorem steps_addGroup (fields : List (String × Option Constraint)) (kind : Quantifier) :
    (addGroup fields kind).Steps := by
  intro builder settled
  rcases builder.addGroup_cases fields kind with
    ⟨error, ran⟩ | ⟨here, found, room, ran | ⟨few, ran⟩⟩
  · rw [ran]
    exact .same
  · have running := settled.running (started_of_target found) room
    exact .working (safe_addGroup fields kind builder running (by rw [ran]; nofun))
  · have running := settled.running (started_of_target found) room
    obtain ⟨placed, isOpen⟩ := running.insertion found
    rw [ran]
    exact .cut kind _ running placed isOpen.lt_size (size_cutGroup_numbered room few kind here)

/-- Moving the cursor leaves builders settled. -/
theorem steps_moveTo (id : NodeId) : (moveTo id).Steps := by
  intro builder _
  by_cases started : builder.cursor? = none
  · rw [on_moveTo, if_pos started]
    exact .same
  · by_cases unknown : builder.plan.size ≤ id
    · rw [on_moveTo, if_neg started, if_pos unknown]
      exact .same
    · rw [on_moveTo, if_neg started, if_neg unknown]
      exact .moved started (Nat.lt_of_not_le unknown)

/-- Starting leaves builders settled. -/
theorem steps_start : start.Steps := by
  intro builder settled
  cases begun : builder.cursor? with
  | some here =>
    rw [on_start_again builder begun]
    exact .same
  | none =>
    cases settled with
    | working running =>
      obtain ⟨here, placed, _⟩ := running.placed
      rw [begun] at placed
      contradiction
    | full started => exact absurd begun started
    | idle _ nothing =>
      have unused : builder.plan.size = 0 := by rw [Plan.size, nothing, List.length_nil]
      have room : builder.plan.size < capacity := unused ▸ Nat.two_pow_pos 32
      rw [on_start builder begun, if_pos room]
      have pushed : builder.plan.push (.start none) none =
          ⟨builder.plan.name?, builder.plan.ontology?, [⟨.start none, none⟩]⟩ := by
        rw [Plan.push, nothing, List.nil_append]
      rw [pushed, unused]
      exact .working ⟨Plan.wellFormed_start _ _, _, rfl, Nat.zero_lt_one⟩

/-- What every step makes of a builder, whether it succeeds or fails. -/
theorem Settled.becomes {builder : Builder} (settled : builder.Settled) (step : BuilderStep) :
    builder.Becomes (builder.step step).2 :=
  step.perform_cases (motive := Build.Steps) (fun change steps => steps.map change)
    steps_start
    (fun call _ unlinked inner notStart =>
      (inserts_enter call _).sparing.steps (safe_enter call unlinked inner notStart))
    (fun property => (inserts_addProperty property).sparing.steps (safe_addProperty property))
    steps_addGroup
    (fun kind => (inserts_addQuantifier kind).sparing.steps (safe_addQuantifier kind))
    steps_moveTo (fun accepts => (sparing_ascend accepts).steps (safe_ascend accepts))
    builder settled

/-- Every step leaves a builder in one of its states. -/
theorem Settled.step {builder : Builder} (settled : builder.Settled) (step : BuilderStep) :
    (builder.step step).2.Settled := by
  have becomes := settled.becomes step
  generalize (builder.step step).2 = later at becomes ⊢
  cases becomes with
  | same => exact settled
  | working running => exact .working running
  | cut kind fields running placed _ noRoom =>
    refine .full ?_ noRoom (running.formed.linked_cutGroup kind fields noRoom)
    exact Option.ne_none_iff_exists'.mpr ⟨_, placed⟩
  | moved started present =>
    cases settled with
    | idle unstarted => exact absurd unstarted started
    | working running => exact .working ⟨running.formed, _, rfl, present⟩
    | full _ noRoom linked => exact .full (Option.some_ne_none _) noRoom linked

/-- A builder that was started stays so. -/
theorem Becomes.started {builder later : Builder} (becomes : builder.Becomes later)
    (started : builder.cursor? ≠ none) : later.cursor? ≠ none := by
  cases becomes with
  | same => exact started
  | working running =>
    obtain ⟨here, placed, _⟩ := running.placed
    exact Option.ne_none_iff_exists'.mpr ⟨here, placed⟩
  | moved => exact Option.some_ne_none _
  | cut => exact started

/-- Every history leaves a settled builder settled. -/
theorem Settled.after (steps : List BuilderStep) : ∀ {builder : Builder}, builder.Settled →
    (builder.after steps).Settled := by
  induction steps with
  | nil => exact fun settled => settled
  | cons step rest ih => exact fun settled => ih (settled.step step)

/-- After its start a builder has its cursor on some node, whatever is done with it. -/
theorem Settled.started_after (steps : List BuilderStep) : ∀ {builder : Builder}, builder.Settled →
    builder.cursor? ≠ none → (builder.after steps).cursor? ≠ none := by
  induction steps with
  | nil => exact fun _ started => started
  | cons step rest ih =>
    exact fun settled started => ih (settled.step step) ((settled.becomes step).started started)

/-- **Links agree with parents in every state of a builder.** After any history of operations, with
any arguments and whether they succeed or fail, a quantifier leads on to the nodes below it, each
once and in the order of their numbers, and any other node that leads on does so to one step or
quantifier below it. Only a plan that has used up all numbers can lack one link: that to a group
which was cut off. -/
theorem linked_after (name? ontology? : Option String) (steps : List BuilderStep) :
    let plan := ((empty name? ontology?).after steps).plan
    (∀ id kind next, plan.node? id = some (.quantifier kind next) →
      next.Pairwise (· < ·) ∧
        (next = plan.children id ∨
          ∃ group, plan.CutOff group ∧ plan.children id = next ++ [group])) ∧
      ∀ id node, plan.node? id = some node → (node.isStart || node.isStep) = true →
        node.next = [] ∨ ∃ child reached, node.next = [child] ∧ plan.parent? child = some id ∧
          plan.node? child = some reached ∧ (reached.isStep || reached.isQuantifier) = true := by
  have fresh : (empty name? ontology?).Settled := .idle rfl rfl
  have linked := (fresh.after steps).linked
  exact ⟨fun id kind next found => ⟨linked.ascending found, linked.fan found⟩,
    fun id node => linked.single⟩

/-- A group of more fields than there are numbers is below the quantifier at which it was cut off,
and the quantifier does not lead on to it. -/
theorem quantifier_lacks_cut_off_group :
    let plan := ((empty none none).after [.start, .addQuantifier .every,
      .addGroup (List.replicate capacity ("name", none)) .every]).plan
    plan.node? 1 = some (.quantifier .every []) ∧ plan.children 1 = [2] := by
  have ran : ((empty none none).after [.start, .addQuantifier .every]).target .addGroup = .ok 1 ∧
      ((empty none none).after [.start, .addQuantifier .every]).plan.size = 2 ∧
      ((empty none none).after [.start, .addQuantifier .every]).plan.node? 1 =
        some (.quantifier .every []) ∧
      ((empty none none).after [.start, .addQuantifier .every]).plan.children 1 = [] := by
    decide +kernel
  have split (last : BuilderStep) : (empty none none).after [.start, .addQuantifier .every, last] =
      (((empty none none).after [.start, .addQuantifier .every]).step last).2 := rfl
  rw [split]
  generalize (empty none none).after [.start, .addQuantifier .every] = builder at ran
  obtain ⟨found, two, isQuantifier, childless⟩ := ran
  have more : 2 < capacity := Nat.pow_lt_pow_right Nat.one_lt_two (by decide : 1 < 32)
  have old : 1 < builder.plan.size := two ▸ Nat.one_lt_two
  have few (field : String × Option Constraint) :
      capacity < builder.plan.size + 1 + (List.replicate capacity field).length := by
    rw [List.length_replicate]
    omega
  rw [step_addGroup_of_few found (two ▸ more) (few _)]
  refine ⟨(Plan.node?_cutGroup_of_lt _ _ _ old).trans isQuantifier, ?_⟩
  rw [Plan.children_cutGroup _ _ _ old, childless, two]
  rfl

end Builder

end TraversalQuery
