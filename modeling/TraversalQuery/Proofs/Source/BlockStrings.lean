import Mathlib.Data.List.DropRight
import Mathlib.Data.List.Flatten
import Mathlib.Data.List.Infix
import TraversalQuery.Proofs.Source.Scanning
import TraversalQuery.Proofs.Text.Slices
import TraversalQuery.Proofs.Text.Split

/-!
# What block strings keep

The content of a text is what it holds besides blanks. A block string keeps the content of its first
line. The other lines are cut by the bytes of the indentation that they share, and a line in which
no character begins at that place is left out as a whole. So content is lost as soon as the
indentation of a line holds a blank of several bytes across that place, and only then.
-/

namespace TraversalQuery

namespace BlockString

open Text (allBlank byteLength isBlank joined lines)

/-- The characters of a text that are not blanks. -/
def content (text : List Char) : List Char :=
  text.filter fun c => !isBlank c

/-- Whether some of the blanks that a line begins with take exactly that many bytes together. -/
def indentedBy (bytes : Nat) (line : List Char) : Bool :=
  (line.takeWhile isBlank).inits.any fun blanks => byteLength blanks == bytes

/-- The lines that a block string keeps: the first, and those of the others in whose indentation the
indentation that they share ends between two characters. -/
def keptLines : List (List Char) → List (List Char)
  | [] => []
  | first :: rest => first :: rest.filter (indentedBy (commonIndent rest))

section Content

variable {text : List Char}

/-- The content of texts one after another is that of each. -/
theorem content_append (first second : List Char) :
    content (first ++ second) = content first ++ content second :=
  List.filter_append ..

/-- A text has no content exactly if it is blank. -/
theorem content_eq_nil_iff : content text = [] ↔ allBlank text = true := by
  simp [content, allBlank, List.filter_eq_nil_iff]

theorem content_cons_of_blank {c : Char} (blank : isBlank c = true) (rest : List Char) :
    content (c :: rest) = content rest := by
  simp [content, blank]

/-- The ends of lines are blanks. -/
theorem flatMap_lines (text : List Char) : (lines text).flatMap content = content text := by
  fun_induction lines text with
  | case1 => rfl
  | case2 rest ih => exact ih.trans (content_cons_of_blank (by decide) _).symm
  | case3 rest ih =>
    rw [content_cons_of_blank (by decide), content_cons_of_blank (by decide)]
    exact ih
  | case4 c rest _ _ last ih =>
    rw [last] at ih
    rw [List.flatMap_singleton, ← List.singleton_append (l := rest), content_append, ← ih]
    exact (List.append_nil _).symm
  | case5 c rest _ _ line others found ih =>
    rw [found, List.flatMap_cons] at ih
    rw [List.flatMap_cons, ← List.singleton_append, content_append, List.append_assoc, ih,
      ← content_append, List.singleton_append]

/-- Line feeds are no content. -/
theorem content_joined (texts : List (List Char)) :
    content (joined ['\n'] texts) = texts.flatMap content := by
  fun_induction joined ['\n'] texts with
  | case1 => rfl
  | case2 piece => simp
  | case3 piece next others ih =>
    have feed : content ['\n'] = [] := by decide
    rw [content_append, content_append, feed, List.append_nil, ih, ← List.flatMap_cons]

/-- Dropping blank lines in front loses no content. -/
theorem flatMap_dropWhile (texts : List (List Char)) :
    (texts.dropWhile allBlank).flatMap content = texts.flatMap content := by
  induction texts with
  | nil => rfl
  | cons first rest ih =>
    cases blank : allBlank first with
    | true =>
      rw [List.dropWhile_cons_of_pos blank, ih, List.flatMap_cons, content_eq_nil_iff.mpr blank,
        List.nil_append]
    | false => rw [List.dropWhile_cons_of_neg (by simp [blank])]

/-- Dropping blank lines at the end loses no content. -/
theorem flatMap_rdropWhile (texts : List (List Char)) :
    (texts.rdropWhile allBlank).flatMap content = texts.flatMap content := by
  induction texts using List.reverseRecOn with
  | nil => rfl
  | append_singleton before last ih =>
    cases blank : allBlank last with
    | true =>
      rw [List.rdropWhile_concat_pos _ _ _ blank, ih, List.flatMap_append, List.flatMap_singleton,
        content_eq_nil_iff.mpr blank, List.append_nil]
    | false => rw [List.rdropWhile_concat_neg _ _ _ (by simp [blank])]

/-- Dropping blank lines on both ends loses no content. -/
theorem flatMap_trimLines (texts : List (List Char)) :
    (trimLines texts).flatMap content = texts.flatMap content :=
  (flatMap_rdropWhile _).trans (flatMap_dropWhile texts)

theorem flatMap_ite (keeps : List Char → Bool) (texts : List (List Char)) :
    (texts.flatMap fun line => if keeps line then content line else []) =
      (texts.filter keeps).flatMap content := by
  induction texts with
  | nil => rfl
  | cons line rest ih =>
    rw [List.flatMap_cons, ih]
    cases keep : keeps line with
    | true => rw [List.filter_cons_of_pos keep, List.flatMap_cons, if_pos rfl]
    | false => rw [List.filter_cons_of_neg (by simp [keep]), if_neg (by simp), List.nil_append]

/-- Lines can be left out without losing content just when they are blank. -/
theorem flatMap_filter_eq_iff {keeps : List Char → Bool} {texts : List (List Char)} :
    (texts.filter keeps).flatMap content = texts.flatMap content ↔
      ∀ line ∈ texts, allBlank line = false → keeps line = true := by
  induction texts with
  | nil => simp
  | cons first rest ih =>
    rw [List.forall_mem_cons, List.flatMap_cons]
    cases keep : keeps first with
    | true =>
      rw [List.filter_cons_of_pos keep, List.flatMap_cons, List.append_right_inj, ih]
      simp
    | false =>
      rw [List.filter_cons_of_neg (by simp [keep])]
      have fewer := ((List.filter_sublist (p := keeps) (l := rest)).flatMap content).length_le
      constructor
      · intro same
        have total := congrArg List.length same
        rw [List.length_append] at total
        have blank : content first = [] := List.length_eq_zero_iff.mp (by omega)
        rw [blank, List.nil_append, ih] at same
        exact ⟨fun filled => by simp [content_eq_nil_iff.mp blank] at filled, same⟩
      · rintro ⟨filled, others⟩
        have blank : allBlank first = true := by simpa using filled
        rw [content_eq_nil_iff.mpr blank, List.nil_append, ih.mpr others]

end Content

section Indents

variable {bytes : Nat} {line : List Char}

/-- The indentation of a line is the bytes of its first blanks. -/
theorem indentOf_eq (line : List Char) : indentOf line = byteLength (line.takeWhile isBlank) := by
  have whole := congrArg byteLength (List.takeWhile_append_dropWhile (p := isBlank) (l := line))
  rw [Text.byteLength_append] at whole
  unfold indentOf Text.trimStart
  omega

/-- A text of one byte for each character has as many bytes as characters. -/
theorem byteLength_of_narrow {text : List Char} (narrow : ∀ c ∈ text, c.utf8Size = 1) :
    byteLength text = text.length := by
  induction text with
  | nil => rfl
  | cons c rest ih =>
    obtain ⟨first, others⟩ := List.forall_mem_cons.mp narrow
    rw [Text.byteLength_cons, first, ih others, List.length_cons, Nat.add_comm]

theorem least_le {numbers : List Nat} {number : Nat} (member : number ∈ numbers) :
    least numbers ≤ number := by
  fun_induction least numbers with
  | case1 => exact absurd member List.not_mem_nil
  | case2 only => exact (List.mem_singleton.mp member).ge
  | case3 first second rest others _ ih =>
    rcases List.mem_cons.mp member with rfl | member
    · exact Nat.le_refl _
    · have := ih member
      omega
  | case4 first second rest others _ ih =>
    rcases List.mem_cons.mp member with rfl | member
    · omega
    · exact ih member

/-- The common indentation is at most that of any line that is not blank. -/
theorem commonIndent_le {texts : List (List Char)} (member : line ∈ texts)
    (filled : allBlank line = false) : commonIndent texts ≤ indentOf line :=
  least_le (List.mem_map_of_mem (List.mem_filter.mpr ⟨member, by simp [filled]⟩))

/-- A line is indented by some bytes exactly if blanks in front of it make them up. -/
theorem indentedBy_iff : indentedBy bytes line = true ↔
    ∃ blanks, blanks <+: line.takeWhile isBlank ∧ byteLength blanks = bytes := by
  simp [indentedBy, List.any_eq_true]

/-- Of two beginnings of a text, the one with fewer bytes is the beginning of the other. -/
theorem prefix_of_byteLength_le {first second : List Char} (begins : first <+: line)
    (begins' : second <+: line) (fewer : byteLength first ≤ byteLength second) :
    first <+: second := by
  rcases List.prefix_or_prefix_of_prefix begins begins' with shorter | ⟨more, rfl⟩
  · exact shorter
  · cases more with
    | nil => rw [List.append_nil]
    | cons c rest =>
      have positive := c.utf8Size_pos
      rw [Text.byteLength_append, Text.byteLength_cons] at fewer
      omega

theorem content_dropBytes?_of_allBlank (blank : allBlank line = true) :
    content ((dropBytes? bytes line).getD []) = [] := by
  cases dropped : dropBytes? bytes line with
  | none => rfl
  | some after =>
    obtain ⟨before, rfl, -⟩ := Text.of_dropBytes? dropped
    rw [← content_eq_nil_iff, content_append, List.append_eq_nil_iff] at blank
    exact blank.2

/-- A cut in the indentation of a line keeps the content of the line if it is between two
characters, and leaves nothing of the line if it is not. -/
theorem content_dropBytes? (within : allBlank line = false → bytes ≤ indentOf line) :
    content ((dropBytes? bytes line).getD []) =
      if indentedBy bytes line then content line else [] := by
  cases blank : allBlank line with
  | true => rw [content_dropBytes?_of_allBlank blank, content_eq_nil_iff.mpr blank, ite_self]
  | false =>
    have begins := List.takeWhile_prefix (l := line) isBlank
    by_cases indented : indentedBy bytes line = true
    · obtain ⟨blanks, among, rfl⟩ := indentedBy_iff.mp indented
      have empty : content blanks = [] := by
        rw [content_eq_nil_iff, allBlank, List.all_eq_true]
        exact fun c member => List.mem_takeWhile_imp (among.subset member)
      obtain ⟨after, rfl⟩ := among.trans begins
      rw [if_pos indented, Text.dropBytes?_append, content_append, empty]
      rfl
    · rw [if_neg indented]
      cases dropped : dropBytes? bytes line with
      | none => rfl
      | some after =>
        obtain ⟨before, whole, rfl⟩ := Text.of_dropBytes? dropped
        have among := prefix_of_byteLength_le ⟨after, whole.symm⟩ begins
          (indentOf_eq line ▸ within blank)
        exact absurd (indentedBy_iff.mpr ⟨before, among, rfl⟩) indented

end Indents

/-- What is left after the shared indentation is removed is the content of the kept lines. -/
theorem flatMap_dedent (texts : List (List Char)) :
    (dedent texts).flatMap content = (keptLines texts).flatMap content := by
  cases texts with
  | nil => rfl
  | cons first rest =>
    rw [dedent, keptLines, List.flatMap_cons, List.flatMap_cons, List.flatMap_map]
    congr 1
    have kept : ∀ line ∈ rest, content ((dropBytes? (commonIndent rest) line).getD []) =
        if indentedBy (commonIndent rest) line then content line else [] :=
      fun line member => content_dropBytes? fun filled => commonIndent_le member filled
    rw [List.flatMap_congr kept, flatMap_ite]

/-- The content of a block string is that of the lines which are kept. -/
theorem content_value (body : List Char) :
    content (value body) = (keptLines (lines body)).flatMap content := by
  rw [value, content_joined, flatMap_trimLines, flatMap_dedent]

/-- A block string keeps its content just when the shared indentation ends between two characters in
every line after the first that is not blank. -/
theorem content_value_eq_iff (body : List Char) :
    content (value body) = content body ↔
      ∀ line ∈ (lines body).tail, allBlank line = false →
        indentedBy (commonIndent (lines body).tail) line = true := by
  rw [content_value, ← flatMap_lines body]
  cases lines body with
  | nil => simp [keptLines]
  | cons first rest =>
    rw [keptLines, List.flatMap_cons, List.flatMap_cons, List.append_right_inj,
      flatMap_filter_eq_iff, List.tail_cons]

/-- Where all indentation is by blanks of one byte, such as spaces and tabs, no content is lost. -/
theorem content_value_of_narrow {body : List Char}
    (narrow : ∀ line ∈ (lines body).tail, ∀ c ∈ line.takeWhile isBlank, c.utf8Size = 1) :
    content (value body) = content body := by
  rw [content_value_eq_iff]
  intro line member filled
  have within := commonIndent_le member filled
  rw [indentOf_eq, byteLength_of_narrow (narrow line member)] at within
  refine indentedBy_iff.mpr ⟨_, List.take_prefix (commonIndent (lines body).tail) _, ?_⟩
  rw [byteLength_of_narrow fun c taken => narrow line member c (List.mem_of_mem_take taken),
    List.length_take, Nat.min_eq_left within]

end BlockString

namespace Lexer

open BlockString (commonIndent content indentedBy keptLines)
open Text (allBlank byteLength isBlank lines)

/-- A block string with a text between its quotes stands in a source, and these are the bytes it
takes there. -/
def BlockAt (source : String) (span : Span) (body : List Char) : Prop :=
  ∃ before after, source.toList = before ++ (blockQuotes ++ body ++ blockQuotes) ++ after ∧
    span = .ofRange (byteLength before) (byteLength before +
      byteLength (blockQuotes ++ body ++ blockQuotes))

/-- A block string takes its quotes and the text between them. -/
theorem of_lexeme_blockString {c : Char} {rest : List Char} {text : String}
    (formed : (lexeme c rest).kind? = some (.blockString text)) :
    ∃ body after, c :: rest = blockQuotes ++ body ++ blockQuotes ++ after ∧
      (lexeme c rest).taken = blockQuotes ++ body ++ blockQuotes ∧
      text = String.ofList (BlockString.value body) := by
  cases forms_lexeme formed with
  | @blockString _ inner quotes read block =>
    unfold blockLexeme at block read
    split at block
    · rename_i body after closed
      cases block
      rw [closed] at read
      refine ⟨body, after, ?_, by rw [read], rfl⟩
      rw [quotes, ← (blockBody_closed closed).1, List.append_assoc, List.append_assoc,
        List.append_assoc]
    · contradiction

/-- **What a block string keeps of its text.** A token of a block string stands for a text between
quotes in the source. Of that text it holds, besides blanks, what is in the first line and in those
of the others in whose indentation the shared indentation ends between two characters. So it holds
all that is not a blank just when that is so for every later line that is not blank, and always when
the lines are indented by blanks of one byte. -/
theorem blockString_content {source : String} {found : List Token} {text : String} {span : Span}
    (read : tokens source = .ok found) (member : ⟨.blockString text, span⟩ ∈ found) :
    ∃ body, BlockAt source span body ∧
      content text.toList = (keptLines (lines body)).flatMap content ∧
      (content text.toList = content body ↔
        ∀ line ∈ (lines body).tail, allBlank line = false →
          indentedBy (commonIndent (lines body).tail) line = true) ∧
      ((∀ line ∈ (lines body).tail, ∀ c ∈ line.takeWhile isBlank, c.utf8Size = 1) →
        content text.toList = content body) := by
  obtain ⟨before, c, rest, whole, formed, place⟩ := (tokens_eq_ok_iff.mp read).exists_lexeme member
  obtain ⟨body, after, literal, taken, rfl⟩ := of_lexeme_blockString formed
  have stands : BlockAt source span body := by
    refine ⟨before, after, ?_, ?_⟩
    · rw [whole, literal, ← List.append_assoc]
    · rw [taken, Nat.zero_add] at place
      exact place
  rw [String.toList_ofList]
  exact ⟨body, stands, BlockString.content_value body, BlockString.content_value_eq_iff body,
    BlockString.content_value_of_narrow⟩

/-- A block string of two lines, the second indented further. -/
theorem blockString_content_indented :
    let source := "\"\"\"\n a\n  b\"\"\""
    tokens source = .ok [⟨.blockString "a\n b", ⟨0, 13⟩⟩] ∧
      ∃ body, BlockAt source ⟨0, 13⟩ body ∧
        content "a\n b".toList = (keptLines (lines body)).flatMap content := by
  intro source
  have read : tokens source = .ok [⟨.blockString "a\n b", ⟨0, 13⟩⟩] := by decide +kernel
  obtain ⟨body, stands, kept, -, -⟩ := blockString_content read (List.mem_singleton.mpr rfl)
  exact ⟨read, body, stands, kept⟩

/-- A line that is indented by a blank of three bytes is lost next to a line that is indented by a
blank of one byte. -/
theorem wide_indentation_loses_line :
    let source := "\"\"\"\n a\n\u3000b\"\"\""
    let body := "\n a\n\u3000b".toList
    tokens source = .ok [⟨.blockString "a", ⟨0, 14⟩⟩] ∧ BlockAt source ⟨0, 14⟩ body ∧
      content "a".toList ≠ content body := by
  intro source body
  have read : tokens source = .ok [⟨.blockString "a", ⟨0, 14⟩⟩] := by decide +kernel
  have stands : BlockAt source ⟨0, 14⟩ body := ⟨[], [], by decide +kernel, rfl⟩
  exact ⟨read, stands, by decide⟩

end Lexer

end TraversalQuery
