import Mathlib.Data.List.Nodup

/-!
# Forests

A forest is a row of trees: the label of the first, the forest below it and the trees beside it. The
calls that a walk makes are a forest, and so is what a plan draws.
-/

namespace TraversalQuery

/-- A row of trees with labels. -/
inductive Forest (α : Type) where
  | nil
  | node (label : α) (below rest : Forest α)
deriving DecidableEq, Inhabited, Repr

namespace Forest

variable {α β : Type}

/-- A row of trees followed by another. -/
def append : Forest α → Forest α → Forest α
  | nil, others => others
  | node label below rest, others => node label below (rest.append others)

instance : Append (Forest α) := ⟨append⟩

@[simp] theorem nil_append (others : Forest α) : nil ++ others = others := rfl

@[simp] theorem node_append (label : α) (below rest others : Forest α) :
    node label below rest ++ others = node label below (rest ++ others) := rfl

@[simp] theorem append_nil (forest : Forest α) : forest ++ nil = forest := by
  induction forest with
  | nil => rfl
  | node label below rest _ ih => rw [node_append, ih]

/-- A tree by itself. -/
def tree (label : α) (below : Forest α) : Forest α :=
  node label below nil

/-- All labels, each before those below it and those before the ones beside it. -/
def preorder : Forest α → List α
  | nil => []
  | node label below rest => label :: (below.preorder ++ rest.preorder)

/-- Two forests side by side are gone through one after the other. -/
@[simp] theorem preorder_append (forest others : Forest α) :
    (forest ++ others).preorder = forest.preorder ++ others.preorder := by
  induction forest with
  | nil => rfl
  | node label below rest _ ih => simp [preorder, ih]

/-- The labels on top. -/
def roots : Forest α → List α
  | nil => []
  | node label _ rest => label :: rest.roots

/-- The forest with every label changed. -/
def map (change : α → β) : Forest α → Forest β
  | nil => nil
  | node label below rest => node (change label) (below.map change) (rest.map change)

/-- Relabeling goes tree by tree. -/
@[simp] theorem map_append (change : α → β) (forest others : Forest α) :
    (forest ++ others).map change = forest.map change ++ others.map change := by
  induction forest with
  | nil => rfl
  | node label below rest _ ih => simp [map, ih]

@[simp] theorem map_tree (change : α → β) (label : α) (below : Forest α) :
    (tree label below).map change = tree (change label) (below.map change) := rfl

@[simp] theorem preorder_tree (label : α) (below : Forest α) :
    (tree label below).preorder = label :: below.preorder := by
  simp [tree, preorder]

theorem map_map {γ : Type} (change : α → β) (next : β → γ) (forest : Forest α) :
    (forest.map change).map next = forest.map (next ∘ change) := by
  induction forest with
  | nil => rfl
  | node label below rest ihBelow ihRest => simp [map, ihBelow, ihRest]

/-- Where every label has a result, the results form a forest of the same shape. -/
theorem exists_map_eq {change : α → Option β} {forest : Forest α} :
    ∀ {results : List β}, forest.preorder.map change = results.map some →
      ∃ others : Forest β, forest.map change = others.map some ∧ others.preorder = results := by
  induction forest with
  | nil => exact fun same => ⟨nil, rfl, (List.map_eq_nil_iff.mp same.symm).symm⟩
  | node label below rest ihBelow ihRest =>
    intro results same
    rw [preorder, List.map_cons, List.map_append] at same
    obtain ⟨result, later, rfl, isResult, same⟩ := List.map_eq_cons_iff.mp same.symm
    obtain ⟨inner, outer, rfl, isInner, isOuter⟩ := List.map_eq_append_iff.mp same
    obtain ⟨below', mapBelow, rfl⟩ := ihBelow isInner.symm
    obtain ⟨rest', mapRest, rfl⟩ := ihRest isOuter.symm
    exact ⟨node result below' rest', by rw [map, map, isResult, mapBelow, mapRest], rfl⟩

/-- Forests of one shape whose labels are related, each to the one in its place. -/
inductive Related (relation : α → β → Prop) : Forest α → Forest β → Prop
  | nil : Related relation nil nil
  | node {label : α} {other : β} {below rest : Forest α} {below' rest' : Forest β}
      (here : relation label other) (inside : Related relation below below')
      (beside : Related relation rest rest') :
      Related relation (node label below rest) (node other below' rest')

/-- Labels are related to their results if results are what they are related to. -/
theorem related_iff {change : α → Option β} {relation : α → β → Prop}
    (results : ∀ label result, change label = some result ↔ relation label result)
    {forest : Forest α} : ∀ {others : Forest β},
      forest.map change = others.map some ↔ forest.Related relation others := by
  induction forest with
  | nil =>
    intro others
    cases others with
    | nil => exact iff_of_true rfl .nil
    | node => exact ⟨nofun, nofun⟩
  | node label below rest ihBelow ihRest =>
    intro others
    cases others with
    | nil => exact ⟨nofun, nofun⟩
    | node other below' rest' =>
      rw [map, map, node.injEq, results, ihBelow, ihRest]
      constructor
      · exact fun ⟨here, inside, beside⟩ => .node here inside beside
      · intro related
        cases related with
        | node here inside beside => exact ⟨here, inside, beside⟩

/-- Labels that are related to one each are so in one forest. -/
theorem Related.unique {relation : α → β → Prop}
    (single : ∀ label one other, relation label one → relation label other → one = other)
    {forest : Forest α} {others : Forest β} (related : forest.Related relation others) :
    ∀ {more : Forest β}, forest.Related relation more → more = others := by
  induction related with
  | nil =>
    intro more second
    cases second
    rfl
  | node here _ _ ihInside ihBeside =>
    intro more second
    cases second with
    | node here' inside' beside' =>
      rw [single _ _ _ here' here, ihInside inside', ihBeside beside']

/-- Labels one below the other, and a forest below the last. -/
def chain : List α → Forest α → Forest α
  | [], below => below
  | label :: rest, below => tree label (chain rest below)

/-- A chain is gone through from its top, and what is below it comes last. -/
@[simp] theorem preorder_chain (labels : List α) (below : Forest α) :
    (chain labels below).preorder = labels ++ below.preorder := by
  induction labels with
  | nil => rfl
  | cons label rest ih => simp [chain, ih]

@[simp] theorem map_chain (change : α → β) (labels : List α) (below : Forest α) :
    (chain labels below).map change = chain (labels.map change) (below.map change) := by
  induction labels with
  | nil => rfl
  | cons label rest ih => simp [chain, ih]

/-- A row of trees that have nothing below them. -/
def leaves : List α → Forest α
  | [] => nil
  | label :: rest => node label nil (leaves rest)

@[simp] theorem preorder_leaves (labels : List α) : (leaves labels).preorder = labels := by
  induction labels with
  | nil => rfl
  | cons label rest ih => simp [leaves, preorder, ih]

@[simp] theorem map_leaves (change : α → β) (labels : List α) :
    (leaves labels).map change = leaves (labels.map change) := by
  induction labels with
  | nil => rfl
  | cons label rest ih => simp [leaves, map, ih]

end Forest

end TraversalQuery
