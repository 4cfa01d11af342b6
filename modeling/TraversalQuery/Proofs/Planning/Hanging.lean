import TraversalQuery.Proofs.Planning.Drawing
import TraversalQuery.Proofs.Planning.Sketch

/-!
# Sketches as trees

A walk adds the fields of a query to a sketch in preorder, each object before the fields inside it.
What comes of it is, up to the order of entries that are not below the same place, the tree of the
query with each of its nodes at its place.
-/

namespace TraversalQuery

/-- An entry of some keys that is below a given place or below one of those keys. -/
def Entry.Within (above : Place) (keys : List String) (entry : Entry) : Prop :=
  entry.place.key ∈ keys ∧
    ∃ place, entry.above? = some place ∧ (place = above ∨ place.key ∈ keys)

/-- An entry stays within when there are more keys, and its place above is the same or one of
theirs. -/
theorem Entry.Within.mono {above above' : Place} {keys keys' : List String} {entry : Entry}
    (within : entry.Within above keys) (more : keys ⊆ keys')
    (covered : above = above' ∨ above.key ∈ keys') : entry.Within above' keys' := by
  obtain ⟨isKey, place, isAbove, place'⟩ := within
  refine ⟨more isKey, place, isAbove, ?_⟩
  rcases place' with rfl | isKey'
  · exact covered
  · exact .inr (more isKey')

namespace Sketch

/-- Sketches with the same entries below every place, in the same order. -/
def Alike (sketch other : Sketch) : Prop :=
  ∀ above? : Option Place, sketch.filter (·.above? = above?) = other.filter (·.above? = above?)

namespace Alike

variable {first second first' second' : Sketch}

theorem refl (sketch : Sketch) : sketch.Alike sketch :=
  fun _ => rfl

theorem trans (alike : first.Alike second) (alike' : second.Alike first') : first.Alike first' :=
  fun above? => (alike above?).trans (alike' above?)

/-- Sketches side by side are alike if each is like its counterpart. -/
theorem append (alike : first.Alike first') (alike' : second.Alike second') :
    Alike (first ++ second) (first' ++ second') := by
  intro above?
  rw [List.filter_append, List.filter_append, alike above?, alike' above?]

/-- Entries that are below different places can be put in any order. -/
theorem swap (apart : ∀ entry ∈ first, ∀ other ∈ second, entry.above? ≠ other.above?) :
    Alike (first ++ second) (second ++ first) := by
  intro above?
  rw [List.filter_append, List.filter_append]
  by_cases here : ∃ entry ∈ first, entry.above? = above?
  · obtain ⟨entry, member, rfl⟩ := here
    have none : second.filter (·.above? = entry.above?) = [] :=
      List.filter_eq_nil_iff.mpr fun other member' => by
        simpa using (apart entry member other member').symm
    rw [none, List.append_nil, List.nil_append]
  · have none : first.filter (·.above? = above?) = [] :=
      List.filter_eq_nil_iff.mpr fun entry member => by
        simpa using fun same => here ⟨entry, member, same⟩
    rw [none, List.append_nil, List.nil_append]

/-- Sketches that are alike have the same entries. -/
theorem perm (alike : first.Alike second) : first.Perm second := by
  apply List.perm_iff_count.mpr
  intro entry
  have kept (sketch : Sketch) :
      (sketch.filter (·.above? = entry.above?)).count entry = sketch.count entry :=
    List.count_filter (by simp)
  rw [← kept first, ← kept second, alike]

end Alike

/-- A forest of entries in which each is below the place of the one above it. -/
def Linked : Option Place → Forest Entry → Prop
  | _, .nil => True
  | above?, .node entry below rest =>
    entry.above? = above? ∧ Linked (some entry.place) below ∧ Linked above? rest

/-- Linked trees stay so beside each other. -/
theorem Linked.append {above? : Option Place} {forest others : Forest Entry}
    (linked : Linked above? forest) (linked' : Linked above? others) :
    Linked above? (forest ++ others) := by
  induction forest with
  | nil => exact linked'
  | node entry below rest _ ih => exact ⟨linked.1, linked.2.1, ih linked.2.2⟩

/-- Leaves are linked if each is below the place above. -/
theorem linked_leaves {above? : Option Place} {entries : List Entry}
    (each : ∀ entry ∈ entries, entry.above? = above?) : Linked above? (.leaves entries) := by
  induction entries with
  | nil => trivial
  | cons entry rest ih =>
    obtain ⟨first, later⟩ := List.forall_mem_cons.mp each
    exact ⟨first, trivial, ih later⟩

/-- A fan of the object of a key above trees, if there are any. -/
def fanTree (key : String) : Forest Entry → Forest Entry
  | .nil => .nil
  | trees => .tree (fanEntry key) trees

/-- The filter of a field as a tree. -/
def groupTree (key : String) (part : Part) (above : Place) : Forest Entry :=
  match part.filter? with
  | none => .nil
  | some filter =>
    .tree ⟨.group key, .group filter.kind [], some above⟩
      (.leaves (memberEntries key 0 filter.fields))

/-- Fields as trees below the fan of an object. -/
def hanging (key : String) : Forest Mark → Forest Entry
  | .nil => .nil
  | .node mark below rest =>
    .chain (ownEntries mark.key (.fan key) mark.part) (fanTree mark.key (hanging mark.key below)) ++
      groupTree mark.key mark.part (.fan key) ++ hanging key rest

/-- The first object at the root as a tree. -/
def trunkTree (key : String) (part : Part) (above : Place) (below : Forest Mark) : Forest Entry :=
  .chain (ownEntries key above part)
    (fanTree key (groupTree key part (.fan key) ++ hanging key below))

/-- Root fields as trees. -/
def rootHanging : Forest Mark → Forest Entry
  | .nil => .nil
  | .node ⟨key, _, .shown property⟩ _ rest =>
    .node ⟨.property key, .property property, some (.object rootKey)⟩ .nil (rootHanging rest)
  | .node ⟨key, _, .entered relation? entity filter?⟩ below .nil =>
    trunkTree key (.entered relation? entity filter?) (.object rootKey) below
  | .node ⟨key, _, .entered relation? entity filter?⟩ below rest =>
    fanTree rootKey (trunkTree key (.entered relation? entity filter?) (.fan rootKey) below ++
      hanging rootKey rest)

/-- The tree of a query with each node at its place. -/
def rootTree (marks : Forest Mark) : Forest Entry :=
  .tree ⟨.object rootKey, .start none, none⟩ (rootHanging marks)

section Erasure

/-- The nodes of a field are those of its part. -/
theorem map_node_own (key : String) (above : Place) (part : Part) :
    (ownEntries key above part).map Entry.node = part.nodes := by
  rcases part with property | ⟨_ | relation, entity, filter?⟩ <;> rfl

/-- The nodes of tested properties are those of the tests, in order. -/
theorem map_node_members (key : String) (fields : List (String × Option Constraint)) :
    ∀ start, (memberEntries key start fields).map Entry.node = fields.map Part.member := by
  induction fields with
  | nil => exact fun _ => rfl
  | cons field rest ih =>
    intro start
    have same : Plan.memberNode field = Part.member field := by
      rcases field with ⟨_, _ | _⟩ <;> rfl
    rw [memberEntries, List.map_cons, List.map_cons, ih, same]

/-- The nodes of a fan are a quantifier above what is below it. -/
theorem map_node_fanTree (key : String) (forest : Forest Entry) :
    (fanTree key forest).map Entry.node = Drawing.fanOut (forest.map Entry.node) := by
  cases forest <;> rfl

/-- The nodes of a filter are those of the group of its part. -/
theorem map_node_groupTree (key : String) (part : Part) (above : Place) :
    (groupTree key part above).map Entry.node = part.group := by
  unfold groupTree Part.group
  cases part.filter? with
  | none => rfl
  | some filter => simp [map_node_members]

/-- The nodes of fields below a fan are the branches of their parts. -/
theorem map_node_hanging (marks : Forest Mark) :
    ∀ key, (hanging key marks).map Entry.node = Drawing.branches (marks.map Mark.part) := by
  induction marks with
  | nil => exact fun _ => rfl
  | node mark below rest ihBelow ihRest =>
    intro key
    simp [hanging, Forest.map, Drawing.branches, map_node_own, map_node_fanTree,
      map_node_groupTree, ihBelow, ihRest]

/-- The nodes of the first object at the root are the trunk of its part. -/
theorem map_node_trunkTree (key : String) (part : Part) (above : Place) (below : Forest Mark) :
    (trunkTree key part above below).map Entry.node = Drawing.trunk part (below.map Mark.part) := by
  simp [trunkTree, Drawing.trunk, map_node_own, map_node_fanTree, map_node_groupTree,
    map_node_hanging]

/-- The nodes of root fields are the branches at the root. -/
theorem map_node_rootHanging (marks : Forest Mark) :
    (rootHanging marks).map Entry.node = Drawing.rootBranches (marks.map Mark.part) := by
  induction marks with
  | nil => rfl
  | node mark below rest _ ih =>
    obtain ⟨key, around, property | ⟨relation?, entity, filter?⟩⟩ := mark
    · simp [rootHanging, Forest.map, Drawing.rootBranches, ih]
    · cases rest with
      | nil => exact map_node_trunkTree _ _ _ _
      | node mark' below' rest' =>
        rw [rootHanging, map_node_fanTree, Forest.map_append, map_node_trunkTree, map_node_hanging]
        · rfl
        · simp

/-- Without places the tree is the drawing of the query. -/
theorem map_node_rootTree (marks : Forest Mark) :
    (rootTree marks).map Entry.node = Drawing.ofParts (marks.map Mark.part) := by
  rw [rootTree, Forest.map_tree, map_node_rootHanging, Drawing.ofParts]

end Erasure

section Within

theorem within_of_above? {key : String} {above : Place} {entry : Entry}
    (about : entry.place.key = key ∧ (entry.above? = some above ∨
      ∃ place, entry.above? = some place ∧ place.key = key)) : entry.Within above [key] := by
  refine ⟨List.mem_singleton.mpr about.1, ?_⟩
  rcases about.2 with here | ⟨place, here, isKey⟩
  · exact ⟨above, here, .inl rfl⟩
  · exact ⟨place, here, .inr (List.mem_singleton.mpr isKey)⟩

/-- The own nodes of a field are below the given place or below its relation. -/
theorem above?_own {key : String} {above : Place} {part : Part} :
    ∀ entry ∈ ownEntries key above part, entry.place.key = key ∧
      (entry.above? = some above ∨ entry.above? = some (.relation key)) := by
  rcases part with property | ⟨_ | relation, entity, filter?⟩
  · exact List.forall_mem_singleton.mpr ⟨rfl, .inl rfl⟩
  · exact List.forall_mem_singleton.mpr ⟨rfl, .inl rfl⟩
  · exact List.forall_mem_cons.mpr ⟨⟨rfl, .inl rfl⟩, List.forall_mem_singleton.mpr ⟨rfl, .inr rfl⟩⟩

/-- The nodes of a field are below the place where it goes. -/
theorem within_own {key : String} {above : Place} {part : Part} :
    ∀ entry ∈ ownEntries key above part, entry.Within above [key] :=
  fun entry member => within_of_above? ((above?_own entry member).imp id
    (Or.imp id fun here => ⟨_, here, rfl⟩))

/-- A filter is gone through as a group and then its members. -/
theorem preorder_groupTree (key : String) (part : Part) (above : Place) :
    (groupTree key part above).preorder =
      match part.filter? with
      | none => []
      | some filter => groupEntries key filter above := by
  unfold groupTree
  cases part.filter? with
  | none => rfl
  | some filter => rw [Forest.preorder_tree, Forest.preorder_leaves]; rfl

/-- Tested properties are below the group of their key. -/
theorem above?_members {key : String} {fields : List (String × Option Constraint)} :
    ∀ {start : Nat}, ∀ entry ∈ memberEntries key start fields,
      entry.place.key = key ∧ entry.above? = some (.group key) := by
  induction fields with
  | nil => exact List.forall_mem_nil _
  | cons field rest ih => exact List.forall_mem_cons.mpr ⟨⟨rfl, rfl⟩, ih⟩

/-- The group of a filter is below the given place, and its members are below the group. -/
theorem above?_groupTree {key : String} {part : Part} {above : Place} :
    ∀ entry ∈ (groupTree key part above).preorder, entry.place.key = key ∧
      (entry.above? = some above ∨ entry.above? = some (.group key)) := by
  rw [preorder_groupTree]
  split
  · exact List.forall_mem_nil _
  · exact List.forall_mem_cons.mpr ⟨⟨rfl, .inl rfl⟩,
      fun entry member => (above?_members entry member).imp id .inr⟩

/-- The nodes of a filter are below the place where it goes. -/
theorem within_groupTree {key : String} {part : Part} {above : Place} :
    ∀ entry ∈ (groupTree key part above).preorder, entry.Within above [key] :=
  fun entry member => within_of_above? ((above?_groupTree entry member).imp id
    (Or.imp id fun here => ⟨_, here, rfl⟩))

/-- No fan is among the nodes of a filter. -/
theorem fan_not_mem_groupTree {key other : String} {part : Part} {above : Place} :
    .fan other ∉ Sketch.places (groupTree key part above).preorder := by
  rw [preorder_groupTree]
  split
  · exact List.not_mem_nil
  · exact fun member => by rcases mem_places_group member with same | ⟨_, same⟩ <;> contradiction

/-- The entries of a fan are its quantifier and what is below it. -/
theorem mem_fanTree {key : String} {forest : Forest Entry} {entry : Entry}
    (member : entry ∈ (fanTree key forest).preorder) :
    entry = fanEntry key ∨ entry ∈ forest.preorder := by
  cases forest with
  | nil => contradiction
  | node label below rest =>
    rw [fanTree, Forest.preorder_tree] at member
    · exact List.mem_cons.mp member
    · exact nofun

/-- A fan and what is below it are within its object. -/
theorem within_fanTree {key : String} {keys : List String} {forest : Forest Entry}
    (within : ∀ entry ∈ forest.preorder, entry.Within (.fan key) keys) :
    ∀ entry ∈ (fanTree key forest).preorder, entry.Within (.object key) (key :: keys) := by
  intro entry member
  rcases mem_fanTree member with rfl | inside
  · exact ⟨List.mem_cons_self, .object key, rfl, .inl rfl⟩
  · exact (within entry inside).mono (List.subset_cons_self _ _) (.inr List.mem_cons_self)

/-- Fields below a fan are within it. -/
theorem within_hanging (marks : Forest Mark) :
    ∀ key, ∀ entry ∈ (hanging key marks).preorder,
      entry.Within (.fan key) (marks.preorder.map Mark.key) := by
  induction marks with
  | nil => exact fun _ => List.forall_mem_nil _
  | node mark below rest ihBelow ihRest =>
    intro key entry member
    have first : [mark.key] ⊆ (Forest.node mark below rest).preorder.map Mark.key := by
      simp [Forest.preorder]
    have inside : mark.key :: below.preorder.map Mark.key ⊆
        (Forest.node mark below rest).preorder.map Mark.key := by
      simp [Forest.preorder]
    have later : rest.preorder.map Mark.key ⊆
        (Forest.node mark below rest).preorder.map Mark.key := by
      simp [Forest.preorder]
    simp only [hanging, Forest.preorder_append, Forest.preorder_chain, List.mem_append] at member
    rcases member with ((own | fanned) | grouped) | beside
    · exact (within_own entry own).mono first (.inl rfl)
    · exact (within_fanTree (ihBelow mark.key) entry fanned).mono inside
        (.inr (first (List.mem_singleton_self _)))
    · exact (within_groupTree entry grouped).mono first (.inl rfl)
    · exact (ihRest key entry beside).mono later (.inl rfl)

end Within

/-- Fields in a forest, each inside the object of the one above it. -/
def Hung : String → Forest Mark → Prop
  | _, .nil => True
  | around, .node mark below rest =>
    mark.around = around ∧
      (below = .nil ∨ ∃ relation? entity filter?, mark.part = .entered relation? entity filter?) ∧
      Hung mark.key below ∧ Hung around rest

section Linked

/-- The nodes of a field are linked with what is inside its object. -/
theorem linked_own {key : String} {above : Place} {part : Part} {forest : Forest Entry}
    (linked : Linked (some (.object key)) forest)
    (inner : forest = .nil ∨ ∃ relation? entity filter?, part = .entered relation? entity filter?) :
    Linked (some above) (.chain (ownEntries key above part) forest) := by
  rcases part with property | ⟨_ | relation, entity, filter?⟩
  · obtain rfl := inner.resolve_right nofun
    exact ⟨rfl, trivial, trivial⟩
  · exact ⟨rfl, linked, trivial⟩
  · exact ⟨rfl, ⟨rfl, linked, trivial⟩, trivial⟩

/-- The nodes of a filter are linked. -/
theorem linked_groupTree {key : String} {part : Part} {above : Place} :
    Linked (some above) (groupTree key part above) := by
  unfold groupTree
  split
  · trivial
  · exact ⟨rfl, linked_leaves fun entry member => (above?_members entry member).2, trivial⟩

/-- A fan is linked with what is below it. -/
theorem linked_fanTree {key : String} {forest : Forest Entry}
    (linked : Linked (some (.fan key)) forest) :
    Linked (some (.object key)) (fanTree key forest) := by
  cases forest with
  | nil => trivial
  | node entry below rest => exact ⟨rfl, linked, trivial⟩

/-- Fields below a fan are linked. -/
theorem linked_hanging (marks : Forest Mark) :
    ∀ {key}, Hung key marks → Linked (some (.fan key)) (hanging key marks) := by
  induction marks with
  | nil => exact fun _ => trivial
  | node mark below rest ihBelow ihRest =>
    rintro key ⟨_, inner, inside, beside⟩
    refine .append (.append (linked_own (linked_fanTree (ihBelow inside)) ?_) linked_groupTree)
      (ihRest beside)
    exact inner.imp (fun none => by rw [none]; rfl) id

/-- The first object at the root is linked with what is inside it. -/
theorem linked_trunkTree {key : String} {relation? : Option RelationStep} {entity : EntityStep}
    {filter? : Option PlannedFilter} {above : Place} {below : Forest Mark}
    (inside : Hung key below) :
    Linked (some above) (trunkTree key (.entered relation? entity filter?) above below) :=
  linked_own (linked_fanTree (.append linked_groupTree (linked_hanging below inside)))
    (.inr ⟨_, _, _, rfl⟩)

/-- Root fields are linked. -/
theorem linked_rootHanging (marks : Forest Mark) (hung : Hung rootKey marks) :
    Linked (some (.object rootKey)) (rootHanging marks) := by
  induction marks with
  | nil => trivial
  | node mark below rest _ ih =>
    obtain ⟨_, inner, inside, beside⟩ := hung
    obtain ⟨key, around, property | ⟨relation?, entity, filter?⟩⟩ := mark
    · exact ⟨rfl, trivial, ih beside⟩
    · cases rest with
      | nil => exact linked_trunkTree inside
      | node mark' below' rest' =>
        exact linked_fanTree (.append (linked_trunkTree inside) (linked_hanging _ beside))

/-- In the tree of a query each node is below the one above it. -/
theorem linked_rootTree {marks : Forest Mark} (hung : Hung rootKey marks) :
    Linked none (rootTree marks) :=
  ⟨rfl, linked_rootHanging marks hung, trivial⟩

end Linked

end Sketch

end TraversalQuery
