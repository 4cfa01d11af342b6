import TraversalQuery.Proofs.Outline.Labels
import TraversalQuery.Proofs.Text.Slices

/-!
# Where reading an outline breaks off

The kind of a node stands before the first opening bracket of its line, its number between that and
the first closing bracket, and the rest after that one. The two brackets are looked for apart, so
the closing one may come first, and then there is no slice from one to the other. Such a line, when
all before it are read, is where reading breaks off; every other text is read or blamed on a line.
-/

namespace TraversalQuery

namespace Label

/-- The slice of a text between two places. Reading breaks off where there is none. -/
def sliced (start stop : Nat) (text : List Char) : Except OutlineError (List Char) :=
  match Text.slice? start stop text with
  | some part => .ok part
  | none => .error .crossedBrackets

/-- The place of the first `mark`, which has to be there. -/
def marked (line : Nat) (mark : Char) (text : List Char) : Except OutlineError Nat :=
  match Text.placeOf? mark text with
  | some place => .ok place
  | none => .error (.malformed line (.missing mark (String.ofList text)))

/-- The node on a line, with its number, read from the slices between the places of the first
brackets. -/
def readSlices (line : Nat) (text : List Char) : Except OutlineError (NodeId × Label) := do
  let opening ← marked line '[' text
  let closing ← marked line ']' text
  let kind ← sliced 0 opening text
  let digits ← sliced (opening + 1) closing text
  let id ← (readId digits digits).mapError (.malformed line)
  let after ← sliced (closing + 1) (Text.byteLength text) text
  let label ← (readDetail (String.ofList kind) (bodyOf after)).mapError (.malformed line)
  return (id, label)

/-- Whether a text with an opening and a closing bracket lacks one of the slices that its first
brackets bound. -/
def MisSliced (text : List Char) : Prop :=
  ∃ opening closing, Text.placeOf? '[' text = some opening ∧ Text.placeOf? ']' text = some closing ∧
    (Text.slice? 0 opening text = none ∨ Text.slice? (opening + 1) closing text = none ∨
      Text.slice? (closing + 1) (Text.byteLength text) text = none)

/-- How brackets can stand in a text: one of them is missing, the first opening one comes first, or
the first closing one does. -/
inductive Brackets : List Char → Prop
  | unopened {text : List Char} (free : '[' ∉ text) : Brackets text
  | unclosed {text : List Char} (opened : '[' ∈ text) (free : ']' ∉ text) : Brackets text
  | ordered {kind digits after : List Char} (free : '[' ∉ kind) (freeClosing : ']' ∉ kind)
      (closes : ']' ∉ digits) : Brackets (kind ++ '[' :: (digits ++ ']' :: after))
  | crossed {before between after : List Char} (free : ']' ∉ before) (freeOpening : '[' ∉ before)
      (opens : '[' ∉ between) : Brackets (before ++ ']' :: (between ++ '[' :: after))

/-- Every text has its brackets in order or crossed, or lacks one of them. -/
theorem brackets (text : List Char) : Brackets text := by
  by_cases opened : '[' ∈ text
  · by_cases closed : ']' ∈ text
    · obtain ⟨kind, rest, whole, free⟩ := List.eq_append_cons_of_mem opened
      by_cases crossed : ']' ∈ kind
      · obtain ⟨before, between, rfl, free'⟩ := List.eq_append_cons_of_mem crossed
        rw [List.mem_append, List.mem_cons, not_or, not_or] at free
        rw [whole, List.append_assoc, List.cons_append]
        exact .crossed free' free.1 free.2.2
      · have later : ']' ∈ rest := by simpa [whole, crossed] using closed
        obtain ⟨digits, after, rfl, free'⟩ := List.eq_append_cons_of_mem later
        rw [whole]
        exact .ordered free crossed free'
    · exact .unclosed opened closed
  · exact .unopened opened

section Ordered

variable {kind digits after : List Char}

/-- When the brackets stand in order, every slice is there. -/
theorem slices_of_ordered (kind digits after : List Char) :
    let text := kind ++ '[' :: (digits ++ ']' :: after)
    let opening := Text.byteLength kind
    let closing := opening + 1 + Text.byteLength digits
    Text.slice? 0 opening text = some kind ∧
      Text.slice? (opening + 1) closing text = some digits ∧
      Text.slice? (closing + 1) (Text.byteLength text) text = some after := by
  intro text opening closing
  have narrow : '['.utf8Size = 1 ∧ ']'.utf8Size = 1 := ⟨rfl, rfl⟩
  refine ⟨?_, ?_, ?_⟩
  · have whole : text = [] ++ kind ++ '[' :: (digits ++ ']' :: after) := rfl
    rw [whole]
    exact Text.slice?_append _ rfl (Nat.zero_add _).symm
  · have whole : text = kind ++ ['['] ++ digits ++ ']' :: after := by simp [text]
    rw [whole]
    apply Text.slice?_append
    · simp [opening, narrow]
    · simp [closing, opening, narrow]
  · have whole : text = kind ++ '[' :: (digits ++ [']']) ++ after ++ [] := by simp [text]
    rw [whole]
    apply Text.slice?_append
    · simp only [closing, opening, Text.byteLength_append, Text.byteLength_cons,
        Text.byteLength_nil, narrow]
      omega
    · simp only [Text.byteLength_append, Text.byteLength_cons, Text.byteLength_nil]
      omega

variable (free : '[' ∉ kind) (freeClosing : ']' ∉ kind) (closes : ']' ∉ digits)
include free freeClosing closes

/-- A line with its brackets in order is read part by part. -/
theorem read_of_ordered (line : Nat) :
    read line (kind ++ '[' :: (digits ++ ']' :: after)) = do
      let id ← (readId digits digits).mapError (.malformed line)
      let label ← (readDetail (String.ofList kind) (bodyOf after)).mapError (.malformed line)
      return (id, label) := by
  rw [read, cut_append _ free]
  change (if ']' ∈ kind then _ else _) = _
  rw [if_neg freeClosing]
  simp only [Text.cutFirst?_append after closes]

/-- A line with its brackets in order is read by slices as it is part by part. -/
theorem readSlices_of_ordered (line : Nat) :
    readSlices line (kind ++ '[' :: (digits ++ ']' :: after)) =
      read line (kind ++ '[' :: (digits ++ ']' :: after)) := by
  obtain ⟨isKind, isDigits, isAfter⟩ := slices_of_ordered kind digits after
  have opening := Text.placeOf?_append (digits ++ ']' :: after) free
  have closing := Text.placeOf?_behind after freeClosing (by decide : ']' ≠ '[') closes
  rw [show '['.utf8Size = 1 from rfl] at closing
  rw [readSlices, marked, marked, opening, closing, read_of_ordered free freeClosing closes]
  simp only [Except.ok_bind, sliced, isKind, isDigits, isAfter]

end Ordered

/-- A text whose first closing bracket comes before its first opening one. -/
def Crossed (text : List Char) : Prop :=
  ∃ opening closing, Text.placeOf? '[' text = some opening ∧ Text.placeOf? ']' text = some closing ∧
    closing < opening

section Crossed

variable {before between : List Char} (after : List Char) (freeOpening : '[' ∉ before)
  (opens : '[' ∉ between)
include freeOpening opens

/-- A closing bracket before the first opening one makes brackets crossed. -/
theorem crossed_of_brackets (free : ']' ∉ before) :
    Crossed (before ++ ']' :: (between ++ '[' :: after)) := by
  refine ⟨_, _, Text.placeOf?_behind after freeOpening (by decide) opens,
    Text.placeOf?_append _ free, ?_⟩
  rw [show ']'.utf8Size = 1 from rfl]
  omega

/-- A line with crossed brackets cannot be read. -/
theorem read_of_crossed (line : Nat) :
    read line (before ++ ']' :: (between ++ '[' :: after)) = .error .crossedBrackets := by
  have free : '[' ∉ before ++ ']' :: between := by simp [freeOpening, opens]
  have cuts := cut_append after free
  rw [List.append_assoc, List.cons_append] at cuts
  rw [read, cuts]
  change (if ']' ∈ before ++ ']' :: between then _ else _) = _
  rw [if_pos (by simp)]
  rfl

end Crossed

/-- A line without an opening bracket is malformed. -/
theorem read_of_unopened {text : List Char} (free : '[' ∉ text) (line : Nat) :
    read line text = .error (.malformed line (.missing '[' (String.ofList text))) := by
  rw [read, cut, Text.cutFirst?_of_free free]
  rfl

/-- A line without a closing bracket is malformed. -/
theorem read_of_unclosed {text : List Char} (opened : '[' ∈ text) (free : ']' ∉ text)
    (line : Nat) :
    read line text = .error (.malformed line (.missing ']' (String.ofList text))) := by
  obtain ⟨kind, rest, rfl, freeOpening⟩ := List.eq_append_cons_of_mem opened
  have freeRest : ']' ∉ rest := fun member => free (by simp [member])
  have freeKind : ']' ∉ kind := fun member => free (List.mem_append_left _ member)
  rw [read, cut_append _ freeOpening]
  change (if ']' ∈ kind then _ else _) = _
  rw [if_neg freeKind]
  simp only [Text.cutFirst?_of_free freeRest]
  rfl

/-- There is no slice from the opening bracket to a closing one before it. -/
theorem readSlices_of_crossed {text : List Char} (crossed : Crossed text) (line : Nat) :
    readSlices line text = .error .crossedBrackets := by
  obtain ⟨opening, closing, isOpening, isClosing, turned⟩ := crossed
  have none : Text.slice? (opening + 1) closing text = .none := if_neg (by omega)
  rw [readSlices, marked, marked, isOpening, isClosing]
  simp only [Except.ok_bind, sliced, none]
  cases Text.slice? 0 opening text <;> rfl

/-- Reading a node by looking for the two brackets apart and taking the slices between them is
reading it by one cut after the other. -/
theorem readSlices_eq_read (line : Nat) (text : List Char) :
    readSlices line text = read line text := by
  cases brackets text with
  | unopened free =>
    rw [read_of_unopened free, readSlices, marked, Text.placeOf?_of_free free]
    rfl
  | unclosed opened free =>
    rw [read_of_unclosed opened free]
    obtain ⟨kind, rest, rfl, freeOpening⟩ := List.eq_append_cons_of_mem opened
    rw [readSlices, marked, marked, Text.placeOf?_append _ freeOpening,
      Text.placeOf?_of_free free]
    rfl
  | ordered free freeClosing closes => exact readSlices_of_ordered free freeClosing closes line
  | crossed free freeOpening opens =>
    rw [read_of_crossed _ freeOpening opens,
      readSlices_of_crossed (crossed_of_brackets _ freeOpening opens free)]

/-- A slice is missing exactly when the brackets are the wrong way round. -/
theorem misSliced_iff {text : List Char} : MisSliced text ↔ Crossed text := by
  constructor
  · rintro ⟨opening, closing, isOpening, isClosing, missing⟩
    cases brackets text with
    | unopened free =>
      rw [Text.placeOf?_of_free free] at isOpening
      contradiction
    | unclosed _ free =>
      rw [Text.placeOf?_of_free free] at isClosing
      contradiction
    | ordered free freeClosing closes =>
      obtain ⟨isKind, isDigits, isAfter⟩ := slices_of_ordered _ _ _
      rw [Text.placeOf?_append _ free] at isOpening
      rw [Text.placeOf?_behind _ freeClosing (by decide) closes] at isClosing
      obtain rfl := Option.some.inj isOpening
      obtain rfl := Option.some.inj isClosing
      rw [show '['.utf8Size = 1 from rfl, isKind, isDigits, isAfter] at missing
      simp at missing
    | crossed free freeOpening opens => exact crossed_of_brackets _ freeOpening opens free
  · rintro ⟨opening, closing, isOpening, isClosing, turned⟩
    exact ⟨opening, closing, isOpening, isClosing, .inr (.inl (if_neg (by omega)))⟩

/-- Reading a node breaks off exactly at a missing slice. -/
theorem read_eq_crossedBrackets_iff {line : Nat} {text : List Char} :
    read line text = .error .crossedBrackets ↔ MisSliced text := by
  rw [misSliced_iff]
  refine ⟨fun breaks => ?_, fun crossed => ?_⟩
  · cases brackets text with
    | unopened free =>
      rw [read_of_unopened free] at breaks
      cases breaks
    | unclosed opened free =>
      rw [read_of_unclosed opened free] at breaks
      cases breaks
    | ordered free freeClosing closes =>
      rw [read_of_ordered free freeClosing closes] at breaks
      rcases Except.of_bind_eq_error breaks with bad | ⟨id, _, breaks⟩
      · obtain ⟨_, _, same⟩ := Except.of_mapError_eq_error bad
        contradiction
      · rcases Except.of_bind_eq_error breaks with bad | ⟨label, _, breaks⟩
        · obtain ⟨_, _, same⟩ := Except.of_mapError_eq_error bad
          contradiction
        · contradiction
    | crossed free freeOpening opens => exact crossed_of_brackets _ freeOpening opens free
  · rw [← readSlices_eq_read, readSlices_of_crossed crossed]

end Label

namespace Outline

/-- How deep a node may stand that comes after rows; `start` when there are none. -/
def depthLimit (start : Nat) (rows : List Row) : Nat :=
  match rows.getLast? with
  | none => start
  | some row => row.depth + 1

theorem depthLimit_cons (start : Nat) (row : Row) (rows : List Row) :
    depthLimit start (row :: rows) = depthLimit (row.depth + 1) rows := by
  cases rows with
  | nil => rfl
  | cons next rest => rw [depthLimit, depthLimit, List.getLast?_cons_cons]; rfl

/-- Whether a node may stand that deep. Only the first one stands at the top. -/
def Fits (limit depth : Nat) : Prop :=
  (depth = 0 → limit = 0) ∧ depth ≤ limit

section Rows

variable {limit index : Nat} {line : List Char} {rest : List (List Char × Nat)}

/-- Blank lines are skipped. -/
theorem readRows_of_blank (blank : Text.allBlank line = true) :
    readRows limit ((line, index) :: rest) = readRows limit rest := by
  rw [readRows, if_pos blank]

/-- A line that is no deeper than it may be is read before the others. -/
theorem readRows_of_fits (filled : Text.allBlank line = false)
    (fits : Fits limit (cutIndent line).1) :
    readRows limit ((line, index) :: rest) = do
      let (id, label) ← Label.read (index + 1) (cutIndent line).2
      let others ← readRows ((cutIndent line).1 + 1) rest
      return ⟨(cutIndent line).1, id, label⟩ :: others := by
  have first : ¬((cutIndent line).1 = 0 ∧ limit ≠ 0) := fun ⟨top, later⟩ => later (fits.1 top)
  rw [readRows, filled, if_neg Bool.false_ne_true]
  dsimp only
  rw [if_neg first, if_neg (Nat.not_lt.mpr fits.2)]

/-- A line that is deeper than it may be is malformed. -/
theorem readRows_of_not_fits (filled : Text.allBlank line = false)
    (misfits : ¬Fits limit (cutIndent line).1) :
    ∃ fault, readRows limit ((line, index) :: rest) = .error (.malformed (index + 1) fault) := by
  rw [readRows, filled, if_neg Bool.false_ne_true]
  dsimp only
  by_cases again : (cutIndent line).1 = 0 ∧ limit ≠ 0
  · exact ⟨_, if_pos again⟩
  · by_cases deep : limit < (cutIndent line).1
    · exact ⟨_, by rw [if_neg again, if_pos deep]⟩
    · refine absurd ⟨fun top => ?_, Nat.le_of_not_lt deep⟩ misfits
      exact Classical.not_not.mp fun later => again ⟨top, later⟩

/-- Lines are read one after another: those after lines that are read follow on these. -/
theorem readRows_append {before : List (List Char × Nat)} (more : List (List Char × Nat)) :
    ∀ {limit : Nat} {rows : List Row}, readRows limit before = .ok rows →
      readRows limit (before ++ more) =
        (readRows (depthLimit limit rows) more).map (rows ++ ·) := by
  induction before with
  | nil =>
    intro limit rows came
    cases came
    rw [List.nil_append, depthLimit, List.getLast?_nil]
    cases readRows limit more <;> rfl
  | cons numbered before ih =>
    obtain ⟨line, index⟩ := numbered
    intro limit rows came
    cases blank : Text.allBlank line with
    | true =>
      rw [readRows_of_blank blank] at came
      rw [List.cons_append, readRows_of_blank blank, ih came]
    | false =>
      by_cases fits : Fits limit (cutIndent line).1
      · rw [readRows_of_fits blank fits] at came
        obtain ⟨⟨id, label⟩, read, came⟩ := Except.of_bind_eq_ok came
        obtain ⟨others, later, same⟩ := Except.of_bind_eq_ok came
        cases same
        rw [List.cons_append, readRows_of_fits blank fits, read, Except.ok_bind]
        dsimp only
        rw [ih later, depthLimit_cons]
        cases readRows (depthLimit ((cutIndent line).1 + 1) others) more <;> rfl
      · obtain ⟨fault, bad⟩ : ∃ fault, readRows limit ((line, index) :: before) =
            .error (.malformed (index + 1) fault) := readRows_of_not_fits blank fits
        rw [bad] at came
        contradiction

/-- Where reading rows breaks off: all lines before are read, the node of the line may stand there,
and a slice of the line is missing. -/
theorem exists_of_readRows_eq_crossedBrackets {lines : List (List Char × Nat)} : ∀ {limit : Nat},
    readRows limit lines = .error .crossedBrackets →
      ∃ before line index later rows, lines = before ++ (line, index) :: later ∧
        readRows limit before = .ok rows ∧ Text.allBlank line = false ∧
        Fits (depthLimit limit rows) (cutIndent line).1 ∧ Label.MisSliced (cutIndent line).2 := by
  induction lines with
  | nil => exact fun breaks => nomatch breaks
  | cons numbered rest ih =>
    obtain ⟨line, index⟩ := numbered
    intro limit breaks
    cases blank : Text.allBlank line with
    | true =>
      rw [readRows_of_blank blank] at breaks
      obtain ⟨before, line', index', later, rows, rfl, came, found⟩ := ih breaks
      exact ⟨(line, index) :: before, line', index', later, rows, rfl,
        (readRows_of_blank blank).trans came, found⟩
    | false =>
      by_cases fits : Fits limit (cutIndent line).1
      · rw [readRows_of_fits blank fits] at breaks
        rcases Except.of_bind_eq_error breaks with here | ⟨⟨id, label⟩, read, breaks⟩
        · exact ⟨[], line, index, rest, [], rfl, rfl, blank, fits,
            Label.read_eq_crossedBrackets_iff.mp here⟩
        · rcases Except.of_bind_eq_error breaks with breaks | ⟨_, _, done⟩
          · obtain ⟨before, line', index', later, rows, rfl, came, filled, fits', missing⟩ :=
              ih breaks
            refine ⟨(line, index) :: before, line', index', later,
              ⟨(cutIndent line).1, id, label⟩ :: rows, rfl, ?_, filled, ?_, missing⟩
            · rw [readRows_of_fits blank fits, read, Except.ok_bind]
              dsimp only
              rw [came]
              rfl
            · rwa [depthLimit_cons]
          · contradiction
      · obtain ⟨fault, bad⟩ : ∃ fault, readRows limit ((line, index) :: rest) =
            .error (.malformed (index + 1) fault) := readRows_of_not_fits blank fits
        rw [bad] at breaks
        cases breaks

end Rows

/-- **Where reading an outline breaks off.** Reading a text breaks off exactly when it comes, with
all lines before it read and at a depth where a node may stand, to a line that lacks one of the
slices which its first brackets bound; any other text gives an outline, or a fault and the line that
is blamed. Reading the node on a line by cuts is the same as reading it by these slices, of which
one is missing exactly if the first closing bracket comes before the first opening one. -/
theorem read_breaks_off_iff (text : String) :
    (read text = .error .crossedBrackets ↔
      ∃ before line index later rows,
        (Text.lines text.toList).zipIdx = before ++ (line, index) :: later ∧
          readRows 0 before = .ok rows ∧ Text.allBlank line = false ∧
          Fits (depthLimit 0 rows) (cutIndent line).1 ∧ Label.MisSliced (cutIndent line).2) ∧
      (∀ number label, Label.readSlices number label = Label.read number label) ∧
      ∀ label, Label.MisSliced label ↔ Label.Crossed label := by
  refine ⟨⟨fun breaks => ?_, ?_⟩, Label.readSlices_eq_read, fun _ => Label.misSliced_iff⟩
  · rcases Except.of_bind_eq_error breaks with breaks | ⟨rows, _, breaks⟩
    · exact exists_of_readRows_eq_crossedBrackets breaks
    · cases grown : grow rows with
      | nil =>
        rw [grown] at breaks
        cases breaks
      | cons first rest =>
        rw [grown] at breaks
        contradiction
  · rintro ⟨before, line, index, later, rows, whole, came, filled, fits, missing⟩
    rw [read, whole, readRows_append _ came, readRows_of_fits filled fits,
      Label.read_eq_crossedBrackets_iff.mpr missing]
    rfl

/-- A text of two brackets, the closing one first, is neither read nor blamed on its line: the slice
from the one to the other is missing. -/
theorem turned_brackets_break_off :
    Text.slice? 2 0 "][".toList = none ∧ read "][" = .error .crossedBrackets ∧
      ¬((∃ outline, read "][" = .ok outline) ∨
        ∃ line fault, read "][" = .error (.malformed line fault)) := by
  have breaks : read "][" = .error .crossedBrackets := rfl
  refine ⟨rfl, breaks, ?_⟩
  rw [breaks]
  rintro (⟨outline, came⟩ | ⟨line, fault, blamed⟩)
  · cases came
  · cases blamed

end Outline

end TraversalQuery
