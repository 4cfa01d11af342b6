import TraversalQuery.Proofs.Plan.Gains

/-!
# Edits keep plans well formed

A node can be put below any node that is no leaf, whatever the order in which a builder goes about
the plan. The one edit that changes a parent is a splice: what a node led on to goes below the new
quantifier, and the quantifier below the node, so every path to the root still ends there.
-/

namespace TraversalQuery

namespace Plan

variable {plan : Plan}

namespace Gains

variable {later : Plan} {node : Node} {here : NodeId} {link : NodeId → Node → Node}
  (marks : ∀ id held, (link id held).bare = held.bare)
  (gains : plan.Gains later node here link) (formed : plan.WellFormed)
include marks gains formed

/-- The start is still at the root. -/
theorem startsAtRoot : ∃ next?, later.node? root = some (.start next?) := by
  obtain ⟨next?, found⟩ := formed.startsAtRoot
  obtain ⟨now, nowAt, same⟩ := gains.after marks found
  obtain ⟨next?, rfl⟩ := Node.start_of_bare same
  exact ⟨next?, nowAt⟩

/-- There is still no other start. -/
theorem oneStart (notStart : node.isStart = false) {id : NodeId} {next? : Option NodeId}
    (found : later.node? id = some (.start next?)) : id = root := by
  rcases gains.start marks found with ⟨_, rfl⟩ | ⟨_, before⟩
  · exact absurd notStart Bool.noConfusion
  · exact formed.oneStart before

variable (isOpen : plan.Open here)
  (idle : node.isLeaf = true → node.bare = node ∧ later.children plan.size = [])
  (below : ∀ {id}, id ≠ here → id ≠ plan.size → later.children id = plan.children id)
include isOpen idle below

/-- There is still nothing below a property. -/
theorem noneBelowProperty {id parent : NodeId} {held : Property}
    (up : later.parent? id = some parent) : later.node? parent ≠ some (.property held) := by
  intro found
  have isBelow := mem_children.mpr up
  rcases gains.property marks found with ⟨rfl, rfl⟩ | before
  · rw [(idle rfl).2] at isBelow
    exact List.not_mem_nil isBelow
  · have apart : parent ≠ here := by
      rintro rfl
      obtain ⟨held, atHere, inner⟩ := isOpen
      obtain rfl := Option.some.inj (before.symm.trans atHere)
      exact absurd inner Bool.noConfusion
    rw [below apart (Nat.ne_of_lt (lt_size_of_node? before))] at isBelow
    exact formed.noneBelowProperty (mem_children.mp isBelow) before

/-- Groups hold what they held, and a new one holds nothing yet. -/
theorem holds {id : NodeId} {kind : Quantifier} {members : List NodeId}
    (found : later.node? id = some (.group kind members)) :
    members = later.children id ∧ members = List.range' (id + 1) members.length ∧
      ∀ member ∈ members, ∃ held, later.node? member = some (.property held) := by
  rcases gains.group marks isOpen found with ⟨rfl, rfl⟩ | ⟨apart, old, before⟩
  · obtain ⟨unlinked, none⟩ := idle rfl
    rw [none, ← (Node.group.inj unlinked).2]
    exact ⟨rfl, rfl, List.forall_mem_nil _⟩
  · refine ⟨by rw [below apart old, formed.group before], formed.memberPlaces before, ?_⟩
    intro member listed
    obtain ⟨held, heldAt⟩ := formed.memberProperty before listed
    obtain ⟨now, nowAt, same⟩ := gains.after marks heldAt
    rw [Node.property_of_bare same] at nowAt
    exact ⟨held, nowAt⟩

end Gains

section Attach

variable {here : NodeId} (node : Node)

/-- A plan gains the node that is attached. -/
theorem gains_attach (isOpen : plan.Open here) :
    plan.Gains (plan.attach node here node.linkTo) node here node.linkTo :=
  ⟨size_attach .., isOpen.lt_size, node?_attach plan node node.linkTo isOpen.lt_size⟩

variable {node} {link : NodeId → Node → Node}

theorem parent?_attach_of_lt {id : NodeId} (old : id < plan.size) :
    (plan.attach node here link).parent? id = plan.parent? id := by
  rw [parent?_attach, if_neg (Nat.ne_of_lt old)]

theorem parent?_attach_self : (plan.attach node here link).parent? plan.size = some here := by
  rw [parent?_attach, if_pos rfl]

theorem children_attach_of_ne {id : NodeId} (apart : id ≠ here) :
    (plan.attach node here link).children id = plan.children id := by
  rw [children_attach, if_neg apart, List.append_nil]

/-- Nodes that a path leads up from to the root still have one when a node is attached. -/
theorem Rooted.attach {id : NodeId} (rooted : plan.Rooted id) :
    (plan.attach node here link).Rooted id :=
  rooted.of_parents (by simp) fun _ old => parent?_attach_of_lt old

/-- A node leads on to the new one, or it leads where it led before. -/
theorem successor_attach (formed : plan.WellFormed) (isOpen : plan.Open here)
    (unlinked : node.bare = node) {id target : NodeId} {now : Node}
    (found : (plan.attach node here node.linkTo).node? id = some now)
    (leads : now.successor? = some target) :
    (plan.attach node here node.linkTo).parent? target = some id ∧
      ∃ reached, (plan.attach node here node.linkTo).node? target = some reached ∧
        reached.isLeaf = false := by
  have gains := gains_attach node isOpen
  by_cases new : id = plan.size
  · rw [new, gains.fresh] at found
    obtain rfl := Option.some.inj found
    rw [← unlinked, Node.successor?_bare] at leads
    contradiction
  · obtain ⟨was, wasAt, same, rfl⟩ := gains.before node.bare_linkTo new found
    have led : id = here ∧ node.isLeaf = false ∧ target = plan.size ∨
        was.successor? = some target := by
      by_cases at' : id = here
      · rw [if_pos at'] at leads
        obtain ⟨held, atHere, inner⟩ := isOpen
        obtain rfl := Option.some.inj ((at' ▸ wasAt).symm.trans atHere)
        rcases Node.successor?_linkTo inner leads with ⟨step, same⟩ | ⟨_, led⟩
        · exact .inl ⟨at', step, same⟩
        · exact .inr led
      · rw [if_neg at'] at leads
        exact .inr leads
    rcases led with ⟨rfl, step, rfl⟩ | led
    · exact ⟨parent?_attach_self, node, gains.fresh, step⟩
    · obtain ⟨up, reached, reachedAt, opens⟩ := formed.successor wasAt led
      obtain ⟨reached', reachedAt', still⟩ := gains.after node.bare_linkTo reachedAt
      refine ⟨(parent?_attach_of_lt (lt_size_of_parent? up)).trans up, reached', reachedAt', ?_⟩
      rw [Node.isLeaf_of_bare still, opens]

/-- A child that is no leaf was there before, unless it is the new node. -/
theorem leadsOn_attach (formed : plan.WellFormed) (isOpen : plan.Open here) {id child : NodeId}
    {now reached : Node} (found : (plan.attach node here node.linkTo).node? id = some now)
    (linear : now.isQuantifier = false)
    (up : (plan.attach node here node.linkTo).parent? child = some id)
    (reachedAt : (plan.attach node here node.linkTo).node? child = some reached)
    (opens : reached.isLeaf = false) : now.successor?.isSome := by
  have gains := gains_attach node isOpen
  have old : id ≠ plan.size := by
    rintro rfl
    have isBelow := mem_children.mpr up
    rw [children_attach_of_ne (Nat.ne_of_gt isOpen.lt_size), formed.children_size] at isBelow
    exact List.not_mem_nil isBelow
  obtain ⟨was, wasAt, same, rfl⟩ := gains.before node.bare_linkTo old found
  rw [← Node.isQuantifier_of_bare same] at linear
  have led : id = here ∧ node.isLeaf = false ∨ was.successor?.isSome := by
    by_cases newChild : child = plan.size
    · rw [newChild, gains.fresh] at reachedAt
      rw [newChild, parent?_attach_self] at up
      exact .inl ⟨(Option.some.inj up).symm, Option.some.inj reachedAt ▸ opens⟩
    · obtain ⟨before, beforeAt, still, _⟩ := gains.before node.bare_linkTo newChild reachedAt
      rw [← Node.isLeaf_of_bare still] at opens
      rw [parent?_attach, if_neg newChild] at up
      exact .inr (formed.leadsOn wasAt linear up beforeAt opens)
  by_cases at' : id = here
  · rw [if_pos at']
    obtain ⟨held, atHere, inner⟩ := isOpen
    obtain rfl := Option.some.inj ((at' ▸ wasAt).symm.trans atHere)
    exact Node.isSome_successor?_linkTo inner linear (led.imp_left And.right)
  · rw [if_neg at']
    exact led.resolve_left fun both => at' both.1

end Attach

/-- A node that leads nowhere yet can be put below any node that is no leaf. -/
theorem WellFormed.attach (formed : plan.WellFormed) {here : NodeId} (isOpen : plan.Open here)
    (node : Node) (unlinked : node.bare = node) (notStart : node.isStart = false) :
    (plan.attach node here node.linkTo).WellFormed := by
  have gains := gains_attach node isOpen
  have noneBelow : (plan.attach node here node.linkTo).children plan.size = [] := by
    rw [children_attach_of_ne (Nat.ne_of_gt isOpen.lt_size), formed.children_size]
  have idle : node.isLeaf = true →
      node.bare = node ∧ (plan.attach node here node.linkTo).children plan.size = [] :=
    fun _ => ⟨unlinked, noneBelow⟩
  have oldBelow {id : NodeId} (apart : id ≠ here) (_ : id ≠ plan.size) :
      (plan.attach node here node.linkTo).children id = plan.children id :=
    children_attach_of_ne apart
  constructor
  case startsAtRoot => exact gains.startsAtRoot node.bare_linkTo formed
  case rootOnTop => rw [parent?_attach_of_lt formed.root_lt_size, formed.rootOnTop]
  case oneStart => exact gains.oneStart node.bare_linkTo formed notStart
  case rooted =>
    intro id present
    by_cases new : id = plan.size
    · obtain ⟨path, ascent⟩ : (plan.attach node here node.linkTo).Rooted here :=
        (formed.rooted gains.inside).attach
      exact ⟨id :: path, .above (new ▸ parent?_attach_self) ascent⟩
    · rw [size_attach] at present
      exact (formed.rooted (Nat.lt_of_le_of_ne (Nat.lt_succ_iff.mp present) new)).attach
  case noneBelowProperty =>
    exact gains.noneBelowProperty node.bare_linkTo formed isOpen idle oldBelow
  case successor => exact successor_attach formed isOpen unlinked
  case leadsOn => exact leadsOn_attach formed isOpen
  case fan =>
    intro id kind next found
    rcases gains.quantifier node.bare_linkTo (fun id kind next => Node.linkTo_quantifier ..) found
      with ⟨rfl, rfl⟩ | ⟨_, before, beforeAt, rfl⟩
    · rw [noneBelow]
      exact (Node.quantifier.inj unlinked).2.symm
    · rw [children_attach, formed.fan beforeAt]
  case group =>
    exact fun found => (gains.holds node.bare_linkTo formed isOpen idle oldBelow found).1
  case memberPlaces =>
    exact fun found => (gains.holds node.bare_linkTo formed isOpen idle oldBelow found).2.1
  case memberProperty =>
    intro id kind members member found listed
    exact (gains.holds node.bare_linkTo formed isOpen idle oldBelow found).2.2 member listed

/-- A path with a stop behind one of its nodes. -/
def detour (moved stop : NodeId) (path : List NodeId) : List NodeId :=
  path.flatMap fun passed => if passed = moved then [passed, stop] else [passed]

section Detour

variable {moved stop : NodeId}

/-- The detour is taken where a path passes the node that was moved. -/
theorem detour_cons_self (path : List NodeId) :
    detour moved stop (moved :: path) = moved :: stop :: detour moved stop path := by
  simp [detour]

/-- Where a path passes other nodes it goes on as before. -/
theorem detour_cons_of_ne {passed : NodeId} (other : passed ≠ moved) (path : List NodeId) :
    detour moved stop (passed :: path) = passed :: detour moved stop path := by
  simp [detour, other]

/-- Without the stop the path is as it was. -/
theorem filter_detour {path : List NodeId} (fresh : stop ∉ path) :
    (detour moved stop path).filter (fun passed => passed ≠ stop) = path := by
  induction path with
  | nil => rfl
  | cons first rest ih =>
    have apart := List.ne_of_not_mem_cons fresh
    have fresh := List.not_mem_of_not_mem_cons fresh
    by_cases same : first = moved
    · subst same
      rw [detour_cons_self, List.filter_cons_of_pos (by simpa using apart.symm),
        List.filter_cons_of_neg (by simp), ih fresh]
    · rw [detour_cons_of_ne same, List.filter_cons_of_pos (by simpa using apart.symm), ih fresh]

/-- A path takes the detour exactly if it passes the node that was moved. -/
theorem mem_detour_iff {path : List NodeId} (fresh : stop ∉ path) :
    stop ∈ detour moved stop path ↔ moved ∈ path := by
  induction path with
  | nil => simp [detour]
  | cons first rest ih =>
    have apart := List.ne_of_not_mem_cons fresh
    have fresh := List.not_mem_of_not_mem_cons fresh
    by_cases same : first = moved
    · subst same
      simp [detour_cons_self]
    · simp [detour_cons_of_ne same, apart, ih fresh, Ne.symm same]

end Detour

section SpliceSome

variable {kind : Quantifier} {here moved : NodeId} {held : Node}

/-- A plan gains the quantifier that is spliced in. -/
theorem gains_splice_some (inside : here < plan.size) :
    plan.Gains (plan.splice kind here (some moved)) (.quantifier kind [moved]) here
      Node.followedBy :=
  ⟨size_splice .., inside, node?_splice plan kind inside (some moved)⟩

section Parents

variable (link : plan.parent? moved = some here)
include link

theorem parent?_splice_self :
    (plan.splice kind here (some moved)).parent? plan.size = some here := by
  have moves := lt_size_of_parent? link
  rw [parent?_splice_some plan kind moves, if_neg (Nat.ne_of_gt moves), if_pos rfl]

theorem parent?_splice_moved :
    (plan.splice kind here (some moved)).parent? moved = some plan.size := by
  rw [parent?_splice_some plan kind (lt_size_of_parent? link), if_pos rfl]

theorem parent?_splice_of_ne {id : NodeId} (old : id < plan.size) (other : id ≠ moved) :
    (plan.splice kind here (some moved)).parent? id = plan.parent? id := by
  rw [parent?_splice_some plan kind (lt_size_of_parent? link), if_neg other,
    if_neg (Nat.ne_of_lt old)]

/-- A path that went through the moved node now goes through the quantifier as well. -/
theorem Ascends.detour {id : NodeId} {path : List NodeId} (ascent : plan.Ascends id path) :
    (plan.splice kind here (some moved)).Ascends id (detour moved plan.size path) := by
  induction ascent with
  | root present top =>
    have other : Plan.root ≠ moved := by
      rintro rfl
      rw [top] at link
      contradiction
    rw [detour_cons_of_ne other]
    refine .root (by rw [size_splice]; exact Nat.lt_succ_of_lt present) ?_
    rw [parent?_splice_of_ne link present other, top]
  | @above id parent path up rest ih =>
    by_cases same : id = moved
    · subst same
      obtain rfl := Option.some.inj (up.symm.trans link)
      rw [detour_cons_self]
      exact .above (parent?_splice_moved link) (.above (parent?_splice_self link) ih)
    · rw [detour_cons_of_ne same]
      exact .above ((parent?_splice_of_ne link (lt_size_of_parent? up) same).trans up) ih

end Parents

variable (formed : plan.WellFormed) (atHere : plan.node? here = some held)
  (inner : held.isLeaf = false) (leads : held.successor? = some moved)
include formed atHere inner leads

/-- The node leads on to the quantifier, and every other node where it led before. -/
theorem successor_splice_some {id target : NodeId} {now : Node}
    (found : (plan.splice kind here (some moved)).node? id = some now)
    (leads' : now.successor? = some target) :
    (plan.splice kind here (some moved)).parent? target = some id ∧
      ∃ reached, (plan.splice kind here (some moved)).node? target = some reached ∧
        reached.isLeaf = false := by
  have gains : plan.Gains (plan.splice kind here (some moved)) _ here _ :=
    gains_splice_some (lt_size_of_node? atHere)
  have link := (formed.successor atHere leads).1
  by_cases new : id = plan.size
  · rw [new, gains.fresh] at found
    obtain rfl := Option.some.inj found
    contradiction
  · by_cases same : id = here
    · rw [same, gains.linked atHere] at found
      obtain rfl := Option.some.inj found
      rw [Node.successor?_followedBy _ inner (Node.isQuantifier_of_successor? leads)] at leads'
      obtain rfl := Option.some.inj leads'
      exact ⟨by rw [same, parent?_splice_self link], _, gains.fresh, rfl⟩
    · rw [gains.kept new same] at found
      obtain ⟨up, reached, reachedAt, opens⟩ := formed.successor found leads'
      obtain ⟨reached', reachedAt', still⟩ := gains.after Node.bare_followedBy reachedAt
      have other : target ≠ moved := by
        rintro rfl
        exact same (Option.some.inj (up.symm.trans link))
      refine ⟨?_, reached', reachedAt', ?_⟩
      · rw [parent?_splice_of_ne link (lt_size_of_parent? up) other, up]
      · rw [Node.isLeaf_of_bare still, opens]

/-- Nodes other than quantifiers still lead on to their children when a quantifier is spliced in. -/
theorem leadsOn_splice_some {id child : NodeId} {now reached : Node}
    (found : (plan.splice kind here (some moved)).node? id = some now)
    (linear : now.isQuantifier = false)
    (up : (plan.splice kind here (some moved)).parent? child = some id)
    (reachedAt : (plan.splice kind here (some moved)).node? child = some reached)
    (opens : reached.isLeaf = false) : now.successor?.isSome := by
  have gains : plan.Gains (plan.splice kind here (some moved)) _ here _ :=
    gains_splice_some (lt_size_of_node? atHere)
  have link := (formed.successor atHere leads).1
  by_cases same : id = here
  · rw [same, gains.linked atHere] at found
    obtain rfl := Option.some.inj found
    rw [Node.successor?_followedBy _ inner (Node.isQuantifier_of_successor? leads)]
    rfl
  · by_cases new : id = plan.size
    · rw [new, gains.fresh] at found
      obtain rfl := Option.some.inj found
      exact absurd linear Bool.noConfusion
    · have isBelow := mem_children.mpr up
      rw [children_splice_some_of_ne plan kind link same new, mem_children] at isBelow
      have newChild := Nat.ne_of_lt (lt_size_of_parent? isBelow)
      obtain ⟨before, beforeAt, still, _⟩ := gains.before Node.bare_followedBy newChild reachedAt
      rw [← Node.isLeaf_of_bare still] at opens
      rw [gains.kept new same] at found
      exact formed.leadsOn found linear isBelow beforeAt opens

end SpliceSome

namespace WellFormed

/-- What a node led on to can be moved below a new quantifier after it. -/
theorem splice_some (formed : plan.WellFormed) (kind : Quantifier) {here moved : NodeId}
    {held : Node} (atHere : plan.node? here = some held) (inner : held.isLeaf = false)
    (leads : held.successor? = some moved) :
    (plan.splice kind here (some moved)).WellFormed := by
  have inside := lt_size_of_node? atHere
  have gains : plan.Gains (plan.splice kind here (some moved)) _ here _ := gains_splice_some inside
  have link := (formed.successor atHere leads).1
  have isOpen : plan.Open here := ⟨held, atHere, inner⟩
  have idle : (Node.quantifier kind [moved]).isLeaf = true →
      (Node.quantifier kind [moved]).bare = .quantifier kind [moved] ∧
        (plan.splice kind here (some moved)).children plan.size = [] := Bool.noConfusion
  have oldBelow {id : NodeId} (apart : id ≠ here) (old : id ≠ plan.size) :
      (plan.splice kind here (some moved)).children id = plan.children id :=
    children_splice_some_of_ne plan kind link apart old
  constructor
  case startsAtRoot => exact gains.startsAtRoot Node.bare_followedBy formed
  case rootOnTop =>
    rw [parent?_splice_of_ne link formed.root_lt_size, formed.rootOnTop]
    rintro rfl
    rw [formed.rootOnTop] at link
    contradiction
  case oneStart => exact gains.oneStart Node.bare_followedBy formed rfl
  case rooted =>
    intro id present
    by_cases new : id = plan.size
    · obtain ⟨path, ascent⟩ := formed.rooted inside
      exact ⟨_, .above (new ▸ parent?_splice_self link) (ascent.detour link)⟩
    · rw [size_splice] at present
      obtain ⟨path, ascent⟩ :=
        formed.rooted (Nat.lt_of_le_of_ne (Nat.lt_succ_iff.mp present) new)
      exact ⟨_, ascent.detour link⟩
  case noneBelowProperty =>
    exact gains.noneBelowProperty Node.bare_followedBy formed isOpen idle oldBelow
  case successor => exact successor_splice_some formed atHere inner leads
  case leadsOn => exact leadsOn_splice_some formed atHere inner leads
  case fan =>
    intro id kind' next found
    rcases gains.quantifier Node.bare_followedBy (fun _ _ _ => rfl) found with
      ⟨rfl, same⟩ | ⟨old, was, wasAt, rfl⟩
    · rw [children_splice_some_self plan kind link formed.children_size inside,
        (Node.quantifier.inj same).2]
    · have apart : id ≠ here := by
        rintro rfl
        obtain rfl := Option.some.inj (wasAt.symm.trans atHere)
        exact absurd (Node.isQuantifier_of_successor? leads) Bool.noConfusion
      rw [if_neg apart, List.append_nil, oldBelow apart old, formed.fan wasAt]
  case group =>
    exact fun found => (gains.holds Node.bare_followedBy formed isOpen idle oldBelow found).1
  case memberPlaces =>
    exact fun found => (gains.holds Node.bare_followedBy formed isOpen idle oldBelow found).2.1
  case memberProperty =>
    intro id kind' members member found listed
    exact (gains.holds Node.bare_followedBy formed isOpen idle oldBelow found).2.2 member listed

/-- A quantifier can be spliced in after any node that is no leaf. -/
theorem splice (formed : plan.WellFormed) (kind : Quantifier) {here : NodeId} {held : Node}
    (atHere : plan.node? here = some held) (inner : held.isLeaf = false) :
    (plan.splice kind here held.successor?).WellFormed := by
  cases leads : held.successor? with
  | none =>
    rw [splice_none]
    exact formed.attach ⟨held, atHere, inner⟩ _ rfl rfl
  | some moved => exact formed.splice_some kind atHere inner leads

end WellFormed

/-- The last node of a plan, an empty group, given its members. -/
def fillGroup (plan : Plan) (group : NodeId) (kind : Quantifier)
    (fields : List (String × Option Constraint)) : Plan :=
  (plan.pushMembers group fields).mapNode group fun _ =>
    .group kind (List.range' (group + 1) fields.length)

/-- A node can be changed before another one is added or after. -/
theorem push_mapNode (plan : Plan) (node : Node) (above? : Option NodeId) {id : NodeId}
    (change : Node → Node) (old : id < plan.size) :
    (plan.mapNode id change).push node above? = (plan.push node above?).mapNode id change := by
  unfold size at old
  simp only [mapNode, push]
  congr 1
  apply List.ext_getElem?
  intro place
  rw [List.getElem?_modify, List.getElem?_append, List.getElem?_append, List.length_modify,
    List.getElem?_modify]
  rcases Nat.lt_or_ge place plan.slots.length with before | beyond
  · rw [if_pos before, if_pos before]
  · have apart : id ≠ place := Nat.ne_of_lt (Nat.lt_of_lt_of_le old beyond)
    rw [if_neg (Nat.not_lt_of_le beyond), if_neg (Nat.not_lt_of_le beyond)]
    simp [apart]

/-- A node can be changed before members are added or after. -/
theorem pushMembers_mapNode (group : NodeId) {id : NodeId} (change : Node → Node)
    (fields : List (String × Option Constraint)) : ∀ {plan : Plan}, id < plan.size →
      (plan.mapNode id change).pushMembers group fields =
        (plan.pushMembers group fields).mapNode id change := by
  induction fields with
  | nil => intro plan _; rfl
  | cons field rest ih =>
    intro plan old
    rw [pushMembers, push_mapNode plan _ _ change old,
      ih (by rw [size_push]; exact Nat.lt_succ_of_lt old), pushMembers]

/-- Changes of two nodes can be made in either order. -/
theorem mapNode_comm (plan : Plan) {id other : NodeId} (change change' : Node → Node)
    (apart : id ≠ other) :
    (plan.mapNode id change).mapNode other change' =
      (plan.mapNode other change').mapNode id change := by
  simp only [mapNode]
  congr 1
  apply List.ext_getElem?
  intro place
  simp only [List.getElem?_modify]
  by_cases first : id = place
  · have second : other ≠ place := fun same => apart (first.trans same.symm)
    simp [first, second]
  · simp [first]

/-- A group with members is an empty group that is filled. -/
theorem attachGroup_eq (plan : Plan) (kind : Quantifier)
    (fields : List (String × Option Constraint)) {here : NodeId} (inside : here < plan.size) :
    plan.attachGroup kind fields here =
      (plan.attach (.group kind []) here Node.holding).fillGroup plan.size kind fields := by
  have newer : here < (plan.push (.group kind []) (some here)).size := by
    rw [size_push]
    exact Nat.lt_succ_of_lt inside
  have apart : (plan.size : NodeId) ≠ here := Nat.ne_of_gt inside
  rw [fillGroup, attach, pushMembers_mapNode _ _ _ newer, mapNode_comm _ _ _ apart.symm]
  rfl

section FillGroup

variable {group : NodeId} {kind : Quantifier} (fields : List (String × Option Constraint))

@[simp] theorem size_fillGroup :
    (plan.fillGroup group kind fields).size = plan.size + fields.length := by
  simp [fillGroup]

theorem node?_fillGroup_of_ne {id : NodeId} (old : id < plan.size) (other : id ≠ group) :
    (plan.fillGroup group kind fields).node? id = plan.node? id := by
  rw [fillGroup, node?_mapNode, if_neg other.symm, node?_pushMembers_of_lt _ _ old]

theorem node?_fillGroup_self (present : group < plan.size) :
    (plan.fillGroup group kind fields).node? group =
      some (.group kind (List.range' (group + 1) fields.length)) := by
  obtain ⟨node, found⟩ := exists_node? present
  rw [fillGroup, node?_mapNode, if_pos rfl, node?_pushMembers_of_lt _ _ present, found]
  rfl

theorem parent?_fillGroup_of_lt {id : NodeId} (old : id < plan.size) :
    (plan.fillGroup group kind fields).parent? id = plan.parent? id := by
  rw [fillGroup, parent?_mapNode, parent?_pushMembers_of_lt _ _ old]

/-- Behind the nodes of before stand the members. -/
theorem member_fillGroup (last : group < plan.size) {id : NodeId}
    (present : id < (plan.fillGroup group kind fields).size) (new : plan.size ≤ id) :
    (∃ held, (plan.fillGroup group kind fields).node? id = some (.property held)) ∧
      (plan.fillGroup group kind fields).parent? id = some group := by
  obtain ⟨index, rfl⟩ := Nat.exists_eq_add_of_le new
  rw [size_fillGroup] at present
  have within : index < fields.length := Nat.add_lt_add_iff_left.mp present
  have found : fields[index]? = some fields[index] := List.getElem?_eq_getElem within
  obtain ⟨nodeAt, parentAt⟩ := member_pushMembers group fields plan found
  have apart : group ≠ plan.size + index := by grind
  rw [fillGroup, node?_mapNode, if_neg apart, parent?_mapNode, nodeAt, parentAt]
  exact ⟨⟨_, rfl⟩, rfl⟩

/-- The members that fill a group are its last children. -/
theorem children_fillGroup (id : NodeId) :
    (plan.fillGroup group kind fields).children id =
      plan.children id ++ if id = group then List.range' plan.size fields.length else [] := by
  rw [fillGroup, children_mapNode, children_pushMembers]

/-- A node is a member, the group itself, or as it was. -/
theorem cases_fillGroup (last : group < plan.size) {id : NodeId} {now : Node}
    (found : (plan.fillGroup group kind fields).node? id = some now) :
    (plan.size ≤ id ∧ ∃ held, now = .property held) ∨
      (id = group ∧ now = .group kind (List.range' (group + 1) fields.length)) ∨
      (id ≠ group ∧ plan.node? id = some now) := by
  by_cases old : id < plan.size
  · by_cases same : id = group
    · rw [same, node?_fillGroup_self fields last] at found
      exact .inr (.inl ⟨same, (Option.some.inj found).symm⟩)
    · rw [node?_fillGroup_of_ne fields old same] at found
      exact .inr (.inr ⟨same, found⟩)
  · have new := Nat.le_of_not_lt old
    obtain ⟨held, heldAt⟩ := (member_fillGroup fields last (lt_size_of_node? found) new).1
    exact .inl ⟨new, held, Option.some.inj (found.symm.trans heldAt)⟩

variable (empty : plan.node? group = some (.group kind []))
include empty

/-- All nodes but the group stay as they are. -/
theorem kept_fillGroup {id : NodeId} {node : Node} (found : plan.node? id = some node)
    (different : node ≠ .group kind []) :
    (plan.fillGroup group kind fields).node? id = some node := by
  rw [node?_fillGroup_of_ne fields (lt_size_of_node? found), found]
  rintro rfl
  exact different (Option.some.inj (found.symm.trans empty))

/-- Filling a group leaves nothing below a property. -/
theorem noneBelowProperty_fillGroup (formed : plan.WellFormed) {id parent : NodeId}
    {held : Property} (up : (plan.fillGroup group kind fields).parent? id = some parent) :
    (plan.fillGroup group kind fields).node? parent ≠ some (.property held) := by
  have present := lt_size_of_node? empty
  intro found
  by_cases old : id < plan.size
  · rw [parent?_fillGroup_of_lt fields old] at up
    rcases cases_fillGroup fields present found with ⟨new, _⟩ | ⟨_, impossible⟩ | ⟨_, before⟩
    · exact Nat.not_le_of_lt (formed.parent_lt_size up) new
    · contradiction
    · exact formed.noneBelowProperty up before
  · have link := (member_fillGroup fields present (lt_size_of_parent? up)
      (Nat.le_of_not_lt old)).2
    obtain rfl := Option.some.inj (link.symm.trans up)
    rw [node?_fillGroup_self fields present] at found
    exact Node.noConfusion (Option.some.inj found)

/-- Nodes other than quantifiers still lead on to their children when a group is filled. -/
theorem leadsOn_fillGroup (formed : plan.WellFormed) {id child : NodeId} {now reached : Node}
    (found : (plan.fillGroup group kind fields).node? id = some now)
    (linear : now.isQuantifier = false)
    (up : (plan.fillGroup group kind fields).parent? child = some id)
    (reachedAt : (plan.fillGroup group kind fields).node? child = some reached)
    (opens : reached.isLeaf = false) : now.successor?.isSome := by
  have present := lt_size_of_node? empty
  rcases cases_fillGroup fields present reachedAt with ⟨_, _, rfl⟩ | ⟨_, rfl⟩ | ⟨_, reachedBefore⟩
  · exact absurd opens Bool.noConfusion
  · exact absurd opens Bool.noConfusion
  · rw [parent?_fillGroup_of_lt fields (lt_size_of_node? reachedBefore)] at up
    rcases cases_fillGroup fields present found with ⟨new, _⟩ | ⟨rfl, _⟩ | ⟨_, before⟩
    · exact absurd (formed.parent_lt_size up) (Nat.not_lt_of_le new)
    · have member := mem_children.mpr up
      rw [← formed.group empty] at member
      exact absurd member List.not_mem_nil
    · exact formed.leadsOn before linear up reachedBefore opens

end FillGroup

namespace WellFormed

/-- A well-formed plan stays so when its last node, an empty group, is filled. -/
theorem fillGroup (formed : plan.WellFormed) {group : NodeId} {kind : Quantifier}
    (empty : plan.node? group = some (.group kind [])) (last : plan.size = group + 1)
    (fields : List (String × Option Constraint)) :
    (plan.fillGroup group kind fields).WellFormed := by
  have present := lt_size_of_node? empty
  have below (id : NodeId) : (plan.fillGroup group kind fields).children id = _ :=
    children_fillGroup fields id
  have members : (plan.fillGroup group kind fields).children group =
      List.range' (group + 1) fields.length := by
    rw [below, ← formed.group empty, if_pos rfl, List.nil_append, last]
  have cases {id : NodeId} {now : Node}
      (found : (plan.fillGroup group kind fields).node? id = some now) :=
    cases_fillGroup fields present found
  have stillRooted {id : NodeId} (rooted : plan.Rooted id) :
      (plan.fillGroup group kind fields).Rooted id :=
    rooted.of_parents (by simp) fun _ old => parent?_fillGroup_of_lt fields old
  constructor
  case startsAtRoot =>
    obtain ⟨next?, found⟩ := formed.startsAtRoot
    exact ⟨next?, kept_fillGroup fields empty found (by simp)⟩
  case rootOnTop => rw [parent?_fillGroup_of_lt fields formed.root_lt_size, formed.rootOnTop]
  case oneStart =>
    intro id next? found
    rcases cases found with ⟨_, _, impossible⟩ | ⟨_, impossible⟩ | ⟨_, before⟩
    · contradiction
    · contradiction
    · exact formed.oneStart before
  case rooted =>
    intro id inside
    by_cases old : id < plan.size
    · exact stillRooted (formed.rooted old)
    · obtain ⟨path, ascent⟩ := stillRooted (formed.rooted present)
      exact ⟨_, .above (member_fillGroup fields present inside (Nat.le_of_not_lt old)).2 ascent⟩
  case noneBelowProperty => exact noneBelowProperty_fillGroup fields empty formed
  case successor =>
    intro id now target found leads
    rcases cases found with ⟨_, _, rfl⟩ | ⟨_, rfl⟩ | ⟨_, before⟩
    · contradiction
    · contradiction
    · obtain ⟨up, reached, reachedAt, opens⟩ := formed.successor before leads
      have still := kept_fillGroup fields empty reachedAt
        (by rintro rfl; exact absurd opens Bool.noConfusion)
      exact ⟨(parent?_fillGroup_of_lt fields (lt_size_of_parent? up)).trans up, reached, still,
        opens⟩
  case leadsOn => exact leadsOn_fillGroup fields empty formed
  case fan =>
    intro id kind' next found
    rcases cases found with ⟨_, _, impossible⟩ | ⟨_, impossible⟩ | ⟨other, before⟩
    · contradiction
    · contradiction
    · rw [below, if_neg other, List.append_nil, formed.fan before]
  case group =>
    intro id kind' listed found
    rcases cases found with ⟨_, _, impossible⟩ | ⟨rfl, same⟩ | ⟨other, before⟩
    · contradiction
    · rw [members, (Node.group.inj same).2]
    · rw [below, if_neg other, List.append_nil, formed.group before]
  case memberPlaces =>
    intro id kind' listed found
    rcases cases found with ⟨_, _, impossible⟩ | ⟨rfl, same⟩ | ⟨_, before⟩
    · contradiction
    · rw [(Node.group.inj same).2, List.length_range']
    · exact formed.memberPlaces before
  case memberProperty =>
    intro id kind' listed member found isMember
    rcases cases found with ⟨_, _, impossible⟩ | ⟨rfl, same⟩ | ⟨_, before⟩
    · contradiction
    · rw [(Node.group.inj same).2, List.mem_range'_1] at isMember
      have inside : member < (plan.fillGroup id kind fields).size := by
        rw [size_fillGroup, last]
        exact isMember.2
      exact (member_fillGroup fields present inside (last ▸ isMember.1)).1
    · obtain ⟨held, heldAt⟩ := formed.memberProperty before isMember
      exact ⟨held, kept_fillGroup fields empty heldAt (by simp)⟩

/-- A group with members can be put below any node that is no leaf. -/
theorem attachGroup (formed : plan.WellFormed) {here : NodeId} (isOpen : plan.Open here)
    (kind : Quantifier) (fields : List (String × Option Constraint)) :
    (plan.attachGroup kind fields here).WellFormed := by
  rw [attachGroup_eq plan kind fields isOpen.lt_size]
  refine (formed.attach isOpen (.group kind []) rfl rfl).fillGroup ?_ (size_attach ..) fields
  rw [node?_attach plan _ _ isOpen.lt_size, if_pos rfl]

end WellFormed

end Plan

end TraversalQuery
