import Mathlib.Data.List.Forall2
import TraversalQuery.Proofs.Outline.Labels

/-!
# Outlines as they are written

An outline is written with one node on each line, and the lines drawn before a node tell how deep it
stands. So the lines of an outline are read back as its rows, and from its rows the same tree grows
again.
-/

namespace TraversalQuery

namespace Outline

section Rows

/-- What holds of no outlines, and of outlines beside one another when it holds of those below the
first and of those after it, holds of all lists of outlines. -/
@[elab_as_elim]
theorem forest_induction {motive : List Outline → Prop} (nil : motive [])
    (cons : ∀ id label children rest, motive children → motive rest →
      motive (.node id label children :: rest)) : ∀ outlines, motive outlines
  | [] => nil
  | .node id label children :: rest =>
    cons id label children rest (forest_induction nil cons children)
      (forest_induction nil cons rest)

mutual

/-- The nodes of an outline whose top stands `depth` deep, each with how deep it stands, from the
top down. -/
def rowsFrom (depth : Nat) : Outline → List Row
  | .node id label children => ⟨depth, id, label⟩ :: rowsOf (depth + 1) children

/-- The nodes of outlines beside one another whose tops stand `depth` deep. -/
def rowsOf (depth : Nat) : List Outline → List Row
  | [] => []
  | outline :: rest => rowsFrom depth outline ++ rowsOf depth rest

end

/-- The nodes of an outline with how deep they stand. -/
def rows (outline : Outline) : List Row :=
  rowsFrom 0 outline

/-- Whether rows follow one another in an outline: none stands more than one deeper than the row
before it, and only the first stands at the top. -/
def Nests : Nat → List Row → Prop
  | _, [] => True
  | limit, row :: rest =>
    (row.depth = 0 → limit = 0) ∧ row.depth ≤ limit ∧ Nests (row.depth + 1) rest

/-- Rows of an outline below the top may be followed by any rows that stand no deeper. -/
theorem nests_rowsOf {outlines : List Outline} {depth : Nat} (below : depth ≠ 0) :
    ∀ {limit : Nat} {more : List Row}, depth ≤ limit →
      (∀ limit, depth ≤ limit → Nests limit more) →
        Nests limit (rowsOf depth outlines ++ more) := by
  induction outlines using forest_induction generalizing depth with
  | nil => exact fun within later => later _ within
  | cons id label children rest ihBelow ihBeside =>
    intro limit more within later
    rw [rowsOf, List.append_assoc]
    refine ⟨fun top => absurd top below, within, ?_⟩
    refine ihBelow (Nat.succ_ne_zero _) (Nat.le_refl _) fun limit deep => ?_
    exact ihBeside below (Nat.le_of_succ_le deep) later

/-- The rows of an outline are nested. -/
theorem nests_rows (outline : Outline) : Nests 0 outline.rows := by
  obtain ⟨id, label, children⟩ := outline
  have below : Nests 1 (rowsOf 1 children ++ []) :=
    nests_rowsOf (Nat.succ_ne_zero 0) (Nat.le_refl 1) fun _ _ => trivial
  rw [List.append_nil] at below
  exact ⟨fun _ => rfl, Nat.le_refl _, below⟩

/-- A row is planted above what is deeper and beside the rest. -/
theorem plant_append (row : Row) {below : List Outline} {beside : List (Nat × Outline)}
    (outer : ∀ entry ∈ beside.head?, entry.1 ≤ row.depth) :
    plant row (below.map (row.depth + 1, ·) ++ beside) =
      (row.depth, .node row.id row.label below) :: beside := by
  have deep : ∀ entry ∈ below.map (row.depth + 1, ·), decide (row.depth < entry.1) = true := by
    intro entry member
    obtain ⟨outline, _, rfl⟩ := List.mem_map.mp member
    exact decide_eq_true (Nat.lt_succ_self _)
  have shallow : beside.takeWhile (fun entry => row.depth < entry.1) = [] ∧
      beside.dropWhile (fun entry => row.depth < entry.1) = beside := by
    cases beside with
    | nil => exact ⟨rfl, rfl⟩
    | cons entry rest =>
      have outer : ¬row.depth < entry.1 := Nat.not_lt.mpr (outer entry rfl)
      exact ⟨List.takeWhile_cons_of_neg (by simpa using outer),
        List.dropWhile_cons_of_neg (by simpa using outer)⟩
  rw [plant, List.takeWhile_append_of_pos deep, List.dropWhile_append_of_pos deep, shallow.1,
    shallow.2, List.append_nil, List.map_map]
  exact congrArg (fun below => (row.depth, .node row.id row.label below) :: beside)
    (List.map_id below)

/-- The rows of outlines grow into those outlines, beside what has grown from later rows that stand
no deeper. -/
theorem foldr_plant_rowsOf {outlines : List Outline} {depth : Nat} :
    ∀ {grown : List (Nat × Outline)}, (∀ entry ∈ grown.head?, entry.1 ≤ depth) →
      (rowsOf depth outlines).foldr plant grown = outlines.map (depth, ·) ++ grown := by
  induction outlines using forest_induction generalizing depth with
  | nil => exact fun _ => rfl
  | cons id label children rest ihBelow ihBeside =>
    intro grown outer
    have beside : ∀ entry ∈ (rest.map (depth, ·) ++ grown).head?, entry.1 ≤ depth := by
      cases rest with
      | nil => exact outer
      | cons next rest =>
        intro entry same
        obtain rfl := Option.some.inj same
        exact Nat.le_refl depth
    rw [rowsOf, rowsFrom, List.foldr_append, ihBeside outer, List.foldr_cons,
      ihBelow fun entry first => Nat.le_succ_of_le (beside entry first)]
    exact plant_append ⟨depth, id, label⟩ beside

/-- The rows of an outline grow to the outline. -/
theorem grow_rows (outline : Outline) : grow outline.rows = [(0, outline)] := by
  obtain ⟨id, label, children⟩ := outline
  have below : (rowsOf 1 children).foldr plant [] = children.map (1, ·) ++ [] :=
    foldr_plant_rowsOf fun _ none => absurd none (Option.not_mem_none _)
  rw [grow, rows, rowsFrom, List.foldr_cons, below]
  exact plant_append ⟨0, id, label⟩ fun _ none => absurd none (Option.not_mem_none _)

end Rows

section Written

/-- Whether a row can be read back from the line of its node. -/
def Row.Readable (row : Row) : Prop :=
  row.label.Printable ∧ row.id < 2 ^ 32 ∧ ∀ id ∈ row.label.ids, id < 2 ^ 32

/-- Whether `lead` is what is drawn before nodes that stand below a node `depth` deep. -/
structure Leads (depth : Nat) (lead : List Char) : Prop where
  feedless : '\n' ∉ lead
  cut : ∀ rest, cutIndent (lead ++ rest) = ((cutIndent rest).1 + depth, (cutIndent rest).2)

theorem Leads.top : Leads 0 [] :=
  ⟨List.not_mem_nil, fun _ => rfl⟩

/-- A lead goes on with a column for each level. -/
theorem Leads.deeper {depth : Nat} {lead : List Char} (leads : Leads depth lead) (isLast : Bool) :
    Leads (depth + 1) (lead ++ (if isLast then "    " else "│   ").toList) := by
  constructor
  · cases isLast <;> simp [leads.feedless]
  · intro rest
    have step : cutIndent ((if isLast then "    " else "│   ").toList ++ rest) =
        Outline.deeper (cutIndent rest) := by
      cases isLast <;> rfl
    rw [List.append_assoc, leads.cut, step]
    simp only [Outline.deeper, Nat.add_assoc, Nat.add_comm 1]

/-- Whether a line shows the node of a row where the row says. -/
structure Shows (line : List Char) (row : Row) : Prop where
  feedless : '\n' ∉ line
  bare : Text.endsBlank line = false
  filled : Text.allBlank line = false
  depth : (cutIndent line).1 = row.depth
  read : ∀ number, Label.read number (cutIndent line).2 = .ok (row.id, row.label)

/-- The branch before a row is one level of indentation. -/
theorem cutIndent_branch (isLast : Bool) (rest : List Char) :
    cutIndent ((if isLast then "└── " else "├── ").toList ++ rest) = (1, Text.trimEnd rest) := by
  cases isLast <;> rfl

/-- A row that begins with a letter is not indented. -/
theorem cutIndent_letter {text : List Char} {first : Char} {rest : List Char}
    (whole : text = first :: rest) (letter : first.isAlpha = true) :
    cutIndent text = (0, Text.trim text) := by
  have other {mark : Char} {more : List Char} (drawn : mark.isAlpha = false) :
      mark :: more ≠ first :: rest := by
    rintro same
    obtain ⟨rfl, _⟩ := List.cons.inj same
    rw [drawn] at letter
    contradiction
  fun_cases cutIndent text with
  | case1 => exact absurd whole (other rfl)
  | case2 => exact absurd whole (other rfl)
  | case3 => exact absurd whole (other rfl)
  | case4 => exact absurd whole (other rfl)
  | case5 => rfl

/-- A node's text after a lead that its depth is read from shows the node. -/
theorem shows_of_cut (lead : List Char) (row : Row) (readable : row.Readable) (free : '\n' ∉ lead)
    (cut : cutIndent (lead ++ (row.label.text row.id).toList) =
      (row.depth, (row.label.text row.id).toList)) :
    Shows (lead ++ (row.label.text row.id).toList) row := by
  obtain ⟨printable, fits, fit⟩ := readable
  obtain ⟨before, mark, after, whole, bareMark, bare⟩ := row.label.text_eq_append_cons row.id
  refine ⟨?_, ?_, ?_, by rw [cut], fun number => ?_⟩
  · exact fun member => (List.mem_append.mp member).elim free (Label.feedless_text printable _)
  · rw [whole, ← List.append_assoc]
    exact Text.endsBlank_append_cons _ bareMark (bare printable.1)
  · rw [whole, ← List.append_assoc]
    exact Text.allBlank_append_cons _ _ bareMark
  · rw [cut]
    exact Label.read_text number printable.1 fits fit

/-- The line of a node below the top shows it. -/
theorem Leads.shows {depth : Nat} {lead : List Char} (leads : Leads depth lead) (isLast : Bool)
    {id : NodeId} {label : Label} (readable : Row.Readable ⟨depth + 1, id, label⟩) :
    Shows (lead ++ (if isLast then "└── " else "├── ").toList ++ (label.text id).toList)
      ⟨depth + 1, id, label⟩ := by
  refine shows_of_cut _ ⟨depth + 1, id, label⟩ readable (fun member => ?_) ?_
  · rcases List.mem_append.mp member with drawn | branch
    · exact leads.feedless drawn
    · cases isLast <;> exact absurd branch (by decide)
  · rw [List.append_assoc, leads.cut, cutIndent_branch,
      Text.trimEnd_eq_self (Label.endsBlank_text readable.1.1 id), Nat.add_comm]

/-- The line of the node at the top shows it. -/
theorem shows_top {id : NodeId} {label : Label} (readable : Row.Readable ⟨0, id, label⟩) :
    Shows (label.text id).toList ⟨0, id, label⟩ := by
  refine shows_of_cut [] ⟨0, id, label⟩ readable List.not_mem_nil ?_
  obtain ⟨first, rest, whole, letter⟩ := label.text_eq_cons id
  have bare : Text.isBlank first = false := Text.isBlank_of_isAlpha letter
  have started : Text.trimStart (label.text id).toList = (label.text id).toList := by
    rw [Text.trimStart, whole, List.dropWhile_cons_of_neg (by rw [bare]; decide)]
  have trimmed : Text.trim (label.text id).toList = (label.text id).toList := by
    rw [Text.trim, started, Text.trimEnd_eq_self (Label.endsBlank_text readable.1.1 id)]
  rw [List.nil_append, cutIndent_letter whole letter, trimmed]

/-- The lines of outlines side by side show their rows. -/
theorem shows_linesOf {outlines : List Outline} :
    ∀ {lead : String} {depth : Nat}, Leads depth lead.toList →
      (∀ row ∈ rowsOf (depth + 1) outlines, row.Readable) →
      List.Forall₂ Shows ((linesOf lead outlines).map String.toList)
        (rowsOf (depth + 1) outlines) := by
  induction outlines using forest_induction with
  | nil =>
    intro lead depth _ _
    rw [linesOf]
    exact .nil
  | cons id label children rest ihBelow ihBeside =>
    intro lead depth leads readable
    obtain ⟨inner, beside⟩ := List.forall_mem_append.mp readable
    obtain ⟨first, inner⟩ := List.forall_mem_cons.mp inner
    rw [linesOf, List.cons_append, List.map_cons, List.map_append]
    refine .cons ?_ (List.rel_append (ihBelow ?_ inner) (ihBeside leads beside))
    · have shows := leads.shows rest.isEmpty first
      rwa [← String.toList_append, ← String.toList_append] at shows
    · have deeper := leads.deeper rest.isEmpty
      rwa [← String.toList_append] at deeper

/-- The lines of an outline show its rows. -/
theorem shows_lines {outline : Outline} (readable : ∀ row ∈ outline.rows, row.Readable) :
    List.Forall₂ Shows (outline.lines.map String.toList) outline.rows := by
  obtain ⟨id, label, children⟩ := outline
  obtain ⟨first, below⟩ := List.forall_mem_cons.mp readable
  exact .cons (shows_top first) (shows_linesOf .top below)

/-- Lines that show rows which follow one another in an outline are read as these rows. -/
theorem readRows_of_shows {lines : List (List Char)} {rows : List Row}
    (shown : List.Forall₂ Shows lines rows) :
    ∀ {limit start : Nat}, Nests limit rows → readRows limit (lines.zipIdx start) = .ok rows := by
  induction shown with
  | nil => exact fun _ => rfl
  | @cons line row lines rows shows _ ih =>
    rintro limit start ⟨top, within, nests⟩
    have first : ¬(row.depth = 0 ∧ limit ≠ 0) := fun ⟨isTop, later⟩ => later (top isTop)
    rw [List.zipIdx_cons, readRows, if_neg (by rw [shows.filled]; decide)]
    simp only [shows.depth, if_neg first, if_neg (Nat.not_lt.mpr within), shows.read,
      Except.ok_bind, ih nests]
    rfl

/-- The lines of an outline are the lines of the text that it is written as. -/
theorem lines_text {outline : Outline} (readable : ∀ row ∈ outline.rows, row.Readable) :
    Text.lines outline.text.toList = outline.lines.map String.toList := by
  have whole : outline.text.toList = (outline.lines.map String.toList).flatMap (· ++ ['\n']) := by
    simp [text, String.toList_join, List.flatMap_map]
  have alone : ∀ line ∈ outline.lines.map String.toList,
      '\n' ∉ line ∧ Text.endsBlank line = false :=
    ((List.forall₂_and_left _ _).mp
      ((shows_lines readable).imp fun _ _ shows => ⟨⟨shows.feedless, shows.bare⟩, shows⟩)).1
  rw [whole, Text.lines_flatMap fun line member => (alone line member).1]
  intro line member last
  have bare := (alone line member).2
  rw [Text.endsBlank, last] at bare
  contradiction

/-- An outline is read back from the text that it is written as. -/
theorem read_written {outline : Outline} (readable : ∀ row ∈ outline.rows, row.Readable) :
    read outline.text = .ok outline := by
  rw [read, lines_text readable, readRows_of_shows (shows_lines readable) (nests_rows outline)]
  simp only [Except.ok_bind, grow_rows]
  rfl

end Written

section Read

/-- What is left of a line is a part of it that does not end in blanks. -/
theorem of_cutIndent (line : List Char) :
    (∀ c ∈ (cutIndent line).2, c ∈ line) ∧ Text.endsBlank (cutIndent line).2 = false := by
  have inside (lead : List Char) {rest text : List Char} (within : ∀ c ∈ text, c ∈ rest) :
      ∀ c ∈ text, c ∈ lead ++ rest :=
    fun c member => List.mem_append_right _ (within c member)
  fun_induction cutIndent line with
  | case1 rest ih => exact ⟨inside "│   ".toList ih.1, ih.2⟩
  | case2 rest ih => exact ⟨inside "    ".toList ih.1, ih.2⟩
  | case3 rest =>
    exact ⟨inside "├── ".toList fun _ => Text.mem_of_mem_trimEnd, Text.endsBlank_trimEnd _⟩
  | case4 rest =>
    exact ⟨inside "└── ".toList fun _ => Text.mem_of_mem_trimEnd, Text.endsBlank_trimEnd _⟩
  | case5 line =>
    refine ⟨fun c member => ?_, Text.endsBlank_trimEnd _⟩
    exact (List.dropWhile_sublist _).mem (Text.mem_of_mem_trimEnd member)

/-- Rows that are read can be written again. -/
theorem readable_of_readRows {lines : List (List Char × Nat)} :
    ∀ {limit : Nat} {rows : List Row}, (∀ line ∈ lines, '\n' ∉ line.1) →
      readRows limit lines = .ok rows → ∀ row ∈ rows, row.Readable := by
  intro limit rows feedless came
  fun_induction readRows limit lines generalizing rows with
  | case1 =>
    obtain rfl := Except.ok.inj came
    exact nofun
  | case2 limit text index rest blank ih => exact ih (List.forall_mem_cons.mp feedless).2 came
  | case3 => contradiction
  | case4 => contradiction
  | case5 limit text index rest filled line depth shown cut top within =>
    rename_i ih
    obtain ⟨first, later⟩ := List.forall_mem_cons.mp feedless
    obtain ⟨⟨id, label⟩, read, others⟩ := Except.of_bind_eq_ok came
    obtain ⟨others, readOthers, same⟩ := Except.of_bind_eq_ok others
    obtain rfl := Except.ok.inj same
    obtain ⟨part, bare⟩ := of_cutIndent text
    rw [cut] at part bare
    have readable := Label.of_read read (fun member => first (part _ member)) bare
    exact List.forall_mem_cons.mpr ⟨readable, ih later readOthers⟩

/-- The rows of outlines side by side can be written if those of each of them can. -/
theorem readable_rowsOf {depth : Nat} {outlines : List Outline}
    (readable : ∀ outline ∈ outlines, ∀ row ∈ rowsFrom depth outline, row.Readable) :
    ∀ row ∈ rowsOf depth outlines, row.Readable := by
  induction outlines with
  | nil => exact nofun
  | cons outline rest ih =>
    obtain ⟨first, later⟩ := List.forall_mem_cons.mp readable
    exact List.forall_mem_append.mpr ⟨first, ih later⟩

/-- What grows from rows has no other nodes than the rows. -/
theorem readable_grow {rows : List Row} (readable : ∀ row ∈ rows, row.Readable) :
    ∀ entry ∈ grow rows, ∀ depth, ∀ row ∈ rowsFrom depth entry.2, row.Readable := by
  induction rows with
  | nil => exact nofun
  | cons row rows ih =>
    obtain ⟨first, later⟩ := List.forall_mem_cons.mp readable
    have grown := ih later
    rw [grow, List.foldr_cons, ← grow, plant]
    refine List.forall_mem_cons.mpr ⟨fun depth => ?_, fun entry member => ?_⟩
    · refine List.forall_mem_cons.mpr ⟨first, readable_rowsOf fun below member => ?_⟩
      obtain ⟨entry, isEntry, rfl⟩ := List.mem_map.mp member
      exact grown entry ((List.takeWhile_sublist _).mem isEntry) _
    · exact grown entry ((List.dropWhile_sublist _).mem member)

/-- The rows of an outline that is read can be written again. -/
theorem readable_of_read {text : String} {outline : Outline} (came : read text = .ok outline) :
    ∀ row ∈ outline.rows, row.Readable := by
  obtain ⟨rows, read, grown⟩ := Except.of_bind_eq_ok came
  split at grown
  · contradiction
  · rename_i depth found rest planted
    obtain rfl := Except.ok.inj grown
    have readable : ∀ row ∈ rows, row.Readable := by
      refine readable_of_readRows (fun line member => ?_) read
      exact Text.feedless_of_mem_lines _ (List.fst_mem_of_mem_zipIdx member)
    exact readable_grow readable _ (planted ▸ List.mem_cons_self) 0

end Read

/-- Whether every label in an outline can be read back from its line. -/
def Printable (outline : Outline) : Prop :=
  ∀ row ∈ outline.rows, row.label.Printable

/-- Whether all numbers of nodes in an outline are 32 bits wide. -/
def Numbered (outline : Outline) : Prop :=
  ∀ row ∈ outline.rows, row.id < 2 ^ 32 ∧ ∀ id ∈ row.label.ids, id < 2 ^ 32

instance (outline : Outline) : Decidable outline.Printable :=
  inferInstanceAs (Decidable (∀ row ∈ outline.rows, row.label.Printable))

instance (outline : Outline) : Decidable outline.Numbered :=
  inferInstanceAs (Decidable (∀ row ∈ outline.rows, _ ∧ _))

/-- The rows of an outline can be written exactly if it can be printed and its ids fit. -/
theorem readable_iff {outline : Outline} :
    (∀ row ∈ outline.rows, row.Readable) ↔ outline.Printable ∧ outline.Numbered :=
  forall₂_and

/-- Writing and reading outlines undo one another. Every outline with numbers of 32 bits that is
printable is read back from its text; every outline that is read from any text is printable and has
numbers of 32 bits; so what was read from any text is read again from its own text. -/
theorem reading_inverts_writing :
    (∀ outline : Outline, outline.Printable → outline.Numbered →
      read outline.text = .ok outline) ∧
    (∀ (text : String) (outline : Outline), read text = .ok outline →
      outline.Printable ∧ outline.Numbered) ∧
    ∀ (text : String) (outline : Outline), read text = .ok outline →
      read outline.text = .ok outline := by
  refine ⟨?_, ?_, ?_⟩
  · exact fun outline printable numbered => read_written (readable_iff.mpr ⟨printable, numbered⟩)
  · exact fun text outline came => readable_iff.mp (readable_of_read came)
  · exact fun text outline came => read_written (readable_of_read came)

/-- Labels whose texts hold the marks of other labels, in a tree with branches that end at different
depths. -/
def knotted : Outline :=
  .node 7 .start
    [.node 1 (.entity ⟨"a#b(c)[d]", "Book, \x7bfirst\x7d", none⟩)
      [.node 4294967295 (.relation ⟨"wrote(R)#in[1]", .either, "(by) <who>"⟩) [],
        .node 3 (.quantifier .any [4, 40])
          [.node 4 (.property ⟨.entity, "pages>,]", .tested ⟨.eq, some "x>,[y]#\x7bz\x7d, "⟩⟩) [],
            .node 40 (.property ⟨.relation, "", .tested ⟨.empty, none⟩⟩) []]],
      .node 1 (.entity ⟨" tag # ", "", some ⟨"(id)", some "one | (two)"⟩⟩)
        [.node 0 (.group .every []) []]]

/-- An outline with knots in its texts is read back, and a text with blanks and marks in odd places
is read and written again. -/
theorem reading_inverts_writing_knotted :
    (knotted.Printable ∧ knotted.Numbered ∧ read knotted.text = .ok knotted) ∧
      ∃ outline, read " Start[+5]: any \r\n\n├── Prop[5]:x<like , a> \n" = .ok outline ∧
        outline.Printable ∧ outline.Numbered ∧ read outline.text = .ok outline := by
  obtain ⟨back, readable, again⟩ := reading_inverts_writing
  have printable : knotted.Printable := by decide
  have numbered : knotted.Numbered := by decide
  refine ⟨⟨printable, numbered, back _ printable numbered⟩, ?_⟩
  have came : read " Start[+5]: any \r\n\n├── Prop[5]:x<like , a> \n" =
      .ok (.node 5 .start [.node 5 (.property ⟨.entity, "x", .tested ⟨.like, some " a"⟩⟩) []]) := by
    rfl
  obtain ⟨isPrintable, isNumbered⟩ := readable _ _ came
  exact ⟨_, came, isPrintable, isNumbered, again _ _ came⟩

end Outline

end TraversalQuery
