import Mathlib.Data.List.Basic
import TraversalQuery.Document.Cursor
import TraversalQuery.Proofs.Document.Writing
import TraversalQuery.Proofs.Runs

/-!
# What readings make of written phrases

A reading of a phrase takes the tokens that the phrase is written with and no others, provided that
what comes after them cannot be taken for more of the phrase. If some of these tokens begin phrases
that lie too deep, it stops at the first of them.
-/

namespace TraversalQuery

namespace Reading

variable {α β γ : Type} {spelling more : Spelling} {meant : α → Prop} {fine : β → Prop}
  {follow follow' : Option TokenKind → Prop}

/-- Whether a phrase that begins with the token nests too deep. -/
def isTooDeep (placed : Token × Nat) : Bool :=
  maxNesting < placed.2

/-- Whether tokens with levels are what a phrase is written with. -/
def Spells (placed : List (Token × Nat)) (spelling : Spelling) : Prop :=
  placed.map (fun (token, level) => ⟨token.kind, level⟩) = spelling

/-- What a reading does with the tokens of a phrase: it takes them and what it makes of them is
meant, or it stops at the first of them where something lies too deep. The kind of the token after
the phrase has to be one that may follow. -/
def Reads (reading : Reading α) (spelling : Spelling) (meant : α → Prop)
    (follow : Option TokenKind → Prop) : Prop :=
  ∀ (placed : List (Token × Nat)) (rest : List Token) (cursor : Cursor), Spells placed spelling →
    cursor.rest = placed.map Prod.fst ++ rest → follow (rest.head?.map (·.kind)) →
    match placed.find? isTooDeep with
    | none => ∃ value after, reading.run cursor = .ok (value, after) ∧ meant value ∧
        after.rest = rest
    | some (token, _) => reading.run cursor = .error ⟨.nestsTooDeep, token.span⟩

/-- Any token may follow, or none. -/
def anything (_ : Option TokenKind) : Prop :=
  True

/-- None of the marks may follow. -/
def noneOf (marks : List Punctuator) (ahead : Option TokenKind) : Prop :=
  ∀ mark ∈ marks, ahead ≠ some (.mark mark)

/-- No name may follow. -/
def noName (ahead : Option TokenKind) : Prop :=
  ∀ text, ahead ≠ some (.name text)

/-- What is none of some marks is none of fewer. -/
theorem noneOf.mono {marks others : List Punctuator} {ahead : Option TokenKind}
    (none : noneOf others ahead) (within : marks ⊆ others) : noneOf marks ahead :=
  fun mark member => none mark (within member)

theorem noneOf_name (marks : List Punctuator) (text : String) : noneOf marks (some (.name text)) :=
  fun _ _ => nofun

theorem noneOf_mark {marks : List Punctuator} {mark : Punctuator} (other : mark ∉ marks) :
    noneOf marks (some (.mark mark)) :=
  fun _ member same => other (TokenKind.mark.inj (Option.some.inj same) ▸ member)

theorem noneOf_listed {ι : Type} {written : ι → Spelling} {parts : List ι}
    {marks : List Punctuator} {ahead : Option TokenKind} (none : noneOf marks ahead)
    (other : .leftParen ∉ marks) :
    noneOf marks (Spelling.lead (Spelling.listed written parts) ahead) := by
  cases parts with
  | nil => exact none
  | cons => exact noneOf_mark other

/-- Tokens that spell one phrase after another are those of the first, then those of the second. -/
theorem Spells.of_append {placed : List (Token × Nat)} (spells : Spells placed (spelling ++ more)) :
    ∃ first second, placed = first ++ second ∧ Spells first spelling ∧ Spells second more :=
  List.map_eq_append_iff.mp spells

/-- Tokens that spell a phrase begin with its first token, or what comes after if it has none. -/
theorem Spells.lead {placed : List (Token × Nat)} {rest : List Token}
    (spells : Spells placed spelling) :
    (placed.map Prod.fst ++ rest).head?.map (·.kind) =
      Spelling.lead spelling (rest.head?.map (·.kind)) := by
  subst spells
  cases placed with
  | nil => rfl
  | cons => rfl

/-- Nothing is read to give an answer. -/
theorem Reads.pure {value : α} (holds : meant value) :
    Reads (Pure.pure value) [] meant follow := by
  intro placed rest cursor spells ahead _
  obtain rfl := List.map_eq_nil_iff.mp spells
  exact ⟨value, cursor, rfl, holds, ahead⟩

/-- One phrase after another. What follows the first is the second. -/
theorem Reads.bind {reading : Reading α} {next : α → Reading β}
    (first : reading.Reads spelling meant follow)
    (second : ∀ value, meant value → (next value).Reads more fine follow')
    (meets : ∀ ahead, follow' ahead → follow (Spelling.lead more ahead)) :
    (reading >>= next).Reads (spelling ++ more) fine follow' := by
  intro placed rest cursor spells ahead follows
  obtain ⟨before, behind, rfl, spellsFirst, spellsSecond⟩ := spells.of_append
  rw [List.map_append, List.append_assoc] at ahead
  have met : follow ((behind.map Prod.fst ++ rest).head?.map (·.kind)) := by
    rw [spellsSecond.lead]
    exact meets _ follows
  have read := first before _ cursor spellsFirst ahead met
  rw [List.find?_append]
  change match (before.find? isTooDeep).or (behind.find? isTooDeep) with
    | none => ∃ value after, (reading.run cursor >>= fun (value, after) => (next value).run after) =
        .ok (value, after) ∧ fine value ∧ after.rest = rest
    | some (token, _) => (reading.run cursor >>= fun (value, after) => (next value).run after) =
        .error ⟨.nestsTooDeep, token.span⟩
  cases deep : before.find? isTooDeep with
  | some found =>
    rw [deep] at read
    dsimp only [Option.some_or] at read ⊢
    rw [read, Except.error_bind]
  | none =>
    rw [deep] at read
    obtain ⟨value, after, ran, holds, left⟩ := read
    rw [Option.none_or, ran]
    exact second value holds behind rest after spellsSecond left follows

/-- A look ahead before a phrase. -/
theorem Reads.peek {reading : Reading α} {next : α → Reading β}
    (first : reading.Reads [] meant follow)
    (second : ∀ value, meant value → (next value).Reads more fine follow')
    (meets : ∀ ahead, follow' ahead → follow (Spelling.lead more ahead)) :
    (reading >>= next).Reads more fine follow' :=
  first.bind second meets

/-- One token before the rest of a phrase. -/
theorem Reads.token {glyph : Glyph} {reading : Reading α} {next : α → Reading β}
    (first : reading.Reads [glyph] meant anything)
    (second : ∀ value, meant value → (next value).Reads more fine follow') :
    (reading >>= next).Reads (glyph :: more) fine follow' :=
  first.bind second fun _ _ => trivial

/-- Nothing but a look back after a phrase. -/
theorem Reads.finish {reading : Reading α} {next : α → Reading β}
    (first : reading.Reads spelling meant follow)
    (second : ∀ value, meant value → (next value).Reads [] fine follow) :
    (reading >>= next).Reads spelling fine follow := by
  have both := first.bind second fun _ follows => follows
  rwa [List.append_nil] at both

/-- Changing an answer does not change what is read. -/
theorem Reads.map {reading : Reading α} (change : α → β)
    (reads : reading.Reads spelling meant follow) :
    (change <$> reading).Reads spelling (fun result => ∃ value, meant value ∧ change value = result)
      follow := by
  rw [map_eq_pure_bind]
  exact reads.finish fun value holds => .pure ⟨value, holds, rfl⟩

/-- A reading whose result is wrapped up, where what is erased in it stays the same. -/
theorem Reads.wrap {δ : Type} {reading : Reading α} {erase : α → γ} {erase' : β → δ} {target : γ}
    (change : α → β) (change' : γ → δ) (reads : reading.Reads spelling (erase · = target) follow)
    (commutes : ∀ value, erase' (change value) = change' (erase value)) :
    (change <$> reading).Reads spelling (erase' · = change' target) follow := by
  rw [map_eq_pure_bind]
  exact reads.finish fun value same => .pure (by rw [commutes, same])

/-- What a reading means can be weakened, and what may follow narrowed. -/
theorem Reads.mono {reading : Reading α} {meant' : α → Prop}
    (reads : reading.Reads spelling meant follow) (means : ∀ value, meant value → meant' value)
    (meets : ∀ ahead, follow' ahead → follow ahead) : reading.Reads spelling meant' follow' := by
  intro placed rest cursor spells ahead follows
  have read := reads placed rest cursor spells ahead (meets _ follows)
  split at read
  · obtain ⟨value, after, ran, holds, left⟩ := read
    exact ⟨value, after, ran, means value holds, left⟩
  · exact read

/-- What can be read whatever follows can be read before something. -/
theorem Reads.always {reading : Reading α} (reads : reading.Reads spelling meant anything) :
    reading.Reads spelling meant follow :=
  reads.mono (fun _ => id) fun _ _ => trivial

/-- A reading that only looks at the cursor, and finds out no more than the kind of the next
token tells. -/
theorem reads_look {look : Cursor → α}
    (shown : ∀ cursor : Cursor, follow cursor.kind? → meant (look cursor)) :
    Reads (do return look (← get)) [] meant follow := by
  intro placed rest cursor spells ahead follows
  obtain rfl := List.map_eq_nil_iff.mp spells
  refine ⟨_, cursor, rfl, shown cursor ?_, ahead⟩
  rw [Cursor.kind?, ahead]
  exact follows

theorem reads_kind? (follow : Option TokenKind → Prop) : kind?.Reads [] follow follow :=
  reads_look fun _ => id

theorem reads_kind (kind : TokenKind) : kind?.Reads [] (· = some kind) (· = some kind) :=
  reads_kind? _

theorem reads_span : span.Reads [] (fun _ => True) anything :=
  reads_look fun _ _ => trivial

theorem reads_spanFrom (start : Span) : (spanFrom start).Reads [] (fun _ => True) anything :=
  reads_look fun _ _ => trivial

theorem reads_sees (mark : Punctuator) :
    (sees mark).Reads [] (· = true) (· = some (.mark mark)) := by
  refine reads_look fun cursor next => ?_
  rw [Cursor.sees, next]
  exact beq_self_eq_true _

theorem reads_misses (mark : Punctuator) :
    (sees mark).Reads [] (· = false) (noneOf [mark]) := by
  refine reads_look fun cursor other => ?_
  exact beq_eq_false_iff_ne.mpr (other mark (List.mem_singleton_self _))

theorem reads_seesWord (word : String) :
    (seesWord word).Reads [] (· = true) (· = some (.name word)) := by
  refine reads_look fun cursor next => ?_
  rw [Cursor.seesWord, next]
  exact beq_self_eq_true _

theorem reads_missesWord (word : String) :
    (seesWord word).Reads [] (· = false) (· ≠ some (.name word)) :=
  reads_look fun _ other => beq_eq_false_iff_ne.mpr other

theorem reads_atEnd : atEnd.Reads [] (· = true) (· = none) := by
  refine reads_look fun cursor next => ?_
  simpa [Cursor.kind?] using next

theorem reads_beforeEnd : atEnd.Reads [] (· = false) (· ≠ none) := by
  refine reads_look fun cursor next => ?_
  simpa [Cursor.kind?] using next

section Tokens

variable {kind : TokenKind} {level : Nat}

/-- A token is read by moving over it, within the levels. -/
theorem reads_advance (within : level ≤ maxNesting) :
    advance.Reads [⟨kind, level⟩] (fun _ => True) follow := by
  intro placed rest cursor spells ahead _
  obtain ⟨⟨token, level'⟩, rfl, same⟩ := List.map_eq_singleton_iff.mp spells
  obtain ⟨_, rfl⟩ := Glyph.mk.inj same
  have fits : isTooDeep (token, level') = false := decide_eq_false (Nat.not_lt.mpr within)
  obtain ⟨_, last, ending⟩ := cursor
  obtain rfl := ahead
  rw [List.find?_cons_of_neg (by rw [fits]; decide), List.find?_nil]
  exact ⟨(), _, rfl, trivial, rfl⟩

/-- A mark that is ahead is accepted. -/
theorem reads_accept (mark : Punctuator) (within : level ≤ maxNesting) :
    (accept mark).Reads [⟨.mark mark, level⟩] (· = true) follow := by
  refine (reads_sees mark).peek ?_ fun _ _ => rfl
  rintro _ rfl
  exact (reads_advance within).finish fun _ _ => .pure rfl

/-- A mark that is not ahead is refused, and nothing is read. -/
theorem reads_refuse (mark : Punctuator) :
    (accept mark).Reads [] (· = false) (noneOf [mark]) := by
  refine (reads_misses mark).peek ?_ fun _ => id
  rintro _ rfl
  exact .pure rfl

theorem reads_expect (mark : Punctuator) (within : level ≤ maxNesting) :
    (expect mark).Reads [⟨.mark mark, level⟩] (fun _ => True) follow := by
  refine (reads_sees mark).peek ?_ fun _ _ => rfl
  rintro _ rfl
  refine reads_span.peek (fun place _ => ?_) fun _ _ => trivial
  exact (reads_advance within).finish fun _ _ => .pure trivial

/-- A name that is ahead is read. -/
theorem reads_name (text : String) (within : level ≤ maxNesting) :
    name.Reads [⟨.name text, level⟩] (· = text) follow := by
  refine (reads_kind (.name text)).peek ?_ fun _ _ => rfl
  rintro _ rfl
  exact (reads_advance within).finish fun _ _ => .pure rfl

theorem reads_expectWord (word : String) :
    (expectWord word).Reads [.name word] (fun _ => True) follow := by
  refine (reads_seesWord word).peek ?_ fun _ _ => rfl
  rintro _ rfl
  refine reads_span.peek (fun place _ => ?_) fun _ _ => trivial
  exact (reads_advance (Nat.zero_le _)).finish fun _ _ => .pure trivial

/-- A reading that gives up at a phrase that lies too deep. -/
theorem reads_tooDeep {reading : Reading α} (deep : maxNesting < level)
    (stops : reading = do fail .nestsTooDeep (← span)) :
    reading.Reads (⟨kind, level⟩ :: more) meant follow := by
  intro placed rest cursor spells ahead _
  obtain ⟨⟨token, level'⟩, later, rfl, same, _⟩ := List.map_eq_cons_iff.mp spells
  obtain ⟨_, rfl⟩ := Glyph.mk.inj same
  have found : isTooDeep (token, level') = true := decide_eq_true deep
  rw [List.find?_cons_of_pos found, stops]
  obtain ⟨_, last, ending⟩ := cursor
  obtain rfl := ahead
  rfl

end Tokens

section Loops

variable {ι : Type} {item : Reading α} {parts : List ι} {written : ι → Spelling}
  {erase : α → γ} {target : ι → γ}

/-- What follows one of several phrases is the first token of the next, or what follows them all. -/
theorem lead_flatMap {ahead : Option TokenKind}
    (opens : ∀ part ∈ parts, ∃ glyph others, written part = glyph :: others ∧
      follow (some glyph.kind)) (ends : follow ahead) :
    follow (Spelling.lead (parts.flatMap written) ahead) := by
  cases parts with
  | nil => exact ends
  | cons part parts =>
    obtain ⟨⟨glyph, others, begins, may⟩, _⟩ := List.forall_mem_cons.mp opens
    rw [List.flatMap_cons, begins]
    exact may

/-- There are no more parts than tokens if each part has one. -/
theorem length_le_flatMap (opens : ∀ part ∈ parts, ∃ glyph others, written part = glyph :: others) :
    parts.length ≤ (parts.flatMap written).length := by
  induction parts with
  | nil => exact Nat.zero_le _
  | cons part parts ih =>
    obtain ⟨⟨glyph, others, begins⟩, opens⟩ := List.forall_mem_cons.mp opens
    have shorter := ih opens
    rw [List.flatMap_cons, begins, List.length_append, List.length_cons, List.length_cons]
    omega

/-- A loop with as many rounds as there are tokens has enough of them. -/
theorem reads_rounds {loop : Nat → Reading β} {count : Nat} (short : count ≤ spelling.length)
    (reads : ∀ rounds, count ≤ rounds → (loop rounds).Reads spelling fine follow) :
    Reads (do loop (← get).rest.length) spelling fine follow := by
  intro placed rest cursor spells ahead follows
  refine reads cursor.rest.length ?_ placed rest cursor spells ahead follows
  rw [ahead, List.length_append, List.length_map]
  have same : placed.length = spelling.length := by
    rw [← spells, List.length_map]
  omega

/-- Items up to a closing mark, when none of them begins with that mark. -/
theorem reads_manyUntil {close : Punctuator}
    (each : ∀ part ∈ parts, item.Reads (written part) (erase · = target part) follow)
    (opens : ∀ part ∈ parts, ∃ glyph others, written part = glyph :: others ∧
      glyph.kind ≠ .mark close ∧ follow (some glyph.kind))
    (closes : follow (some (.mark close))) {rounds : Nat} (enough : parts.length ≤ rounds) :
    (manyUntil close item rounds).Reads (parts.flatMap written ++ [.mark close])
      (fun values => values.map erase = parts.map target) follow' := by
  induction parts generalizing rounds with
  | nil =>
    cases rounds with
    | zero =>
      refine (reads_accept close (Nat.zero_le _)).finish ?_
      rintro _ rfl
      exact .pure rfl
    | succ rounds =>
      refine (reads_accept close (Nat.zero_le _)).finish ?_
      rintro _ rfl
      exact .pure rfl
  | cons part parts ih =>
    obtain ⟨rounds, rfl⟩ := Nat.exists_eq_add_of_lt enough
    obtain ⟨first, each⟩ := List.forall_mem_cons.mp each
    obtain ⟨⟨glyph, others, begins, other, _⟩, opens⟩ := List.forall_mem_cons.mp opens
    rw [List.flatMap_cons, List.append_assoc]
    refine (reads_refuse close).peek ?_ fun ahead _ => ?_
    · rintro _ rfl
      refine first.bind (fun value made => ?_) fun ahead _ => ?_
      · refine (ih each opens (Nat.le_of_succ_le_succ enough)).finish fun values makes => .pure ?_
        rw [List.map_cons, List.map_cons, made, makes]
      · rw [Spelling.lead_append]
        refine lead_flatMap (fun part member => ?_) closes
        obtain ⟨glyph, others, begins, _, may⟩ := opens part member
        exact ⟨glyph, others, begins, may⟩
    · rw [begins]
      refine List.forall_mem_singleton.mpr fun same => other (Option.some.inj same)

/-- Items up to a closing mark are read back if each of them is. -/
theorem reads_itemsUntil {close : Punctuator}
    (each : ∀ part ∈ parts, item.Reads (written part) (erase · = target part) follow)
    (opens : ∀ part ∈ parts, ∃ glyph others, written part = glyph :: others ∧
      glyph.kind ≠ .mark close ∧ follow (some glyph.kind))
    (closes : follow (some (.mark close))) :
    (itemsUntil close item).Reads (parts.flatMap written ++ [.mark close])
      (fun values => values.map erase = parts.map target) follow' := by
  refine reads_rounds ?_ fun _ => reads_manyUntil each opens closes
  have short : parts.length ≤ (parts.flatMap written).length := by
    refine length_le_flatMap fun part member => ?_
    obtain ⟨glyph, others, begins, _⟩ := opens part member
    exact ⟨glyph, others, begins⟩
  rw [List.length_append]
  omega

/-- A list in parentheses that is left out when it is empty. -/
theorem reads_listed
    (each : ∀ part ∈ parts, item.Reads (written part) (erase · = target part) follow)
    (opens : ∀ part ∈ parts, ∃ glyph others, written part = glyph :: others ∧
      glyph.kind ≠ .mark .rightParen ∧ follow (some glyph.kind))
    (closes : follow (some (.mark .rightParen))) :
    (do if ← accept .leftParen then itemsUntil .rightParen item else return []).Reads
      (Spelling.listed written parts) (fun values => values.map erase = parts.map target)
      (noneOf [.leftParen]) := by
  cases parts with
  | nil =>
    refine (reads_refuse .leftParen).peek ?_ fun _ => id
    rintro _ rfl
    exact .pure rfl
  | cons first others =>
    refine (reads_accept .leftParen (Nat.zero_le _)).token ?_
    rintro _ rfl
    exact reads_itemsUntil each opens closes

/-- A list in braces that are there even when it is empty. -/
theorem reads_body
    (each : ∀ part ∈ parts, item.Reads (written part) (erase · = target part) follow)
    (opens : ∀ part ∈ parts, ∃ glyph others, written part = glyph :: others ∧
      glyph.kind ≠ .mark .rightBrace ∧ follow (some glyph.kind))
    (closes : follow (some (.mark .rightBrace))) :
    (do if ← accept .leftBrace then itemsUntil .rightBrace item else return []).Reads
      (Spelling.braced 0 (parts.flatMap written))
      (fun values => values.map erase = parts.map target) follow' := by
  refine (reads_accept .leftBrace (Nat.zero_le _)).token ?_
  rintro _ rfl
  exact reads_itemsUntil each opens closes

/-- Items that each begin with the mark. -/
theorem reads_manyWhile {mark : Punctuator}
    (each : ∀ part ∈ parts, item.Reads (written part) (erase · = target part) follow)
    (opens : ∀ part ∈ parts, ∃ others, written part = .mark mark :: others)
    (goesOn : follow (some (.mark mark))) {rounds : Nat} (enough : parts.length ≤ rounds)
    (meets : ∀ ahead, follow' ahead → follow ahead ∧ noneOf [mark] ahead) :
    (manyWhile mark item rounds).Reads (parts.flatMap written)
      (fun values => values.map erase = parts.map target) follow' := by
  induction parts generalizing rounds with
  | nil =>
    cases rounds with
    | zero => exact .pure rfl
    | succ rounds =>
      refine (reads_misses mark).peek ?_ fun ahead follows => (meets ahead follows).2
      rintro _ rfl
      exact .pure rfl
  | cons part parts ih =>
    obtain ⟨rounds, rfl⟩ := Nat.exists_eq_add_of_lt enough
    obtain ⟨first, each⟩ := List.forall_mem_cons.mp each
    obtain ⟨⟨others, begins⟩, opens⟩ := List.forall_mem_cons.mp opens
    rw [List.flatMap_cons]
    refine (reads_sees mark).peek ?_ fun ahead _ => by rw [begins]; rfl
    rintro _ rfl
    refine first.bind (fun value made => ?_) fun ahead follows => ?_
    · refine (ih each opens (Nat.le_of_succ_le_succ enough)).finish fun values makes => .pure ?_
      rw [List.map_cons, List.map_cons, made, makes]
    · refine lead_flatMap (fun part member => ?_) (meets ahead follows).1
      obtain ⟨others, begins⟩ := opens part member
      exact ⟨_, others, begins, goesOn⟩

/-- Items after marks are read back if each of them is. -/
theorem reads_itemsWhile {mark : Punctuator}
    (each : ∀ part ∈ parts, item.Reads (written part) (erase · = target part) follow)
    (opens : ∀ part ∈ parts, ∃ others, written part = .mark mark :: others)
    (goesOn : follow (some (.mark mark)))
    (meets : ∀ ahead, follow' ahead → follow ahead ∧ noneOf [mark] ahead) :
    (itemsWhile mark item).Reads (parts.flatMap written)
      (fun values => values.map erase = parts.map target) follow' :=
  reads_rounds (length_le_flatMap fun part member => ⟨_, opens part member⟩)
    fun _ enough => reads_manyWhile each opens goesOn enough meets

/-- Items up to the end of the tokens. -/
theorem reads_manyToEnd
    (each : ∀ part ∈ parts, item.Reads (written part) (erase · = target part) follow)
    (opens : ∀ part ∈ parts, ∃ glyph others, written part = glyph :: others ∧
      follow (some glyph.kind))
    (ends : follow none) {rounds : Nat} (enough : parts.length ≤ rounds) :
    (manyToEnd item rounds).Reads (parts.flatMap written)
      (fun values => values.map erase = parts.map target) (· = none) := by
  induction parts generalizing rounds with
  | nil =>
    cases rounds with
    | zero => exact .pure rfl
    | succ rounds =>
      refine reads_atEnd.peek ?_ fun _ => id
      rintro _ rfl
      exact .pure rfl
  | cons part parts ih =>
    obtain ⟨rounds, rfl⟩ := Nat.exists_eq_add_of_lt enough
    obtain ⟨first, each⟩ := List.forall_mem_cons.mp each
    obtain ⟨⟨glyph, others, begins, _⟩, opens⟩ := List.forall_mem_cons.mp opens
    rw [List.flatMap_cons]
    refine reads_beforeEnd.peek ?_ fun ahead _ => by rw [begins]; exact Option.some_ne_none _
    rintro _ rfl
    refine first.bind (fun value made => ?_) fun ahead follows => ?_
    · refine (ih each opens (Nat.le_of_succ_le_succ enough)).finish fun values makes => .pure ?_
      rw [List.map_cons, List.map_cons, made, makes]
    · exact lead_flatMap opens (follows ▸ ends)

/-- Items up to the end are read back if each of them is. -/
theorem reads_itemsToEnd
    (each : ∀ part ∈ parts, item.Reads (written part) (erase · = target part) follow)
    (opens : ∀ part ∈ parts, ∃ glyph others, written part = glyph :: others ∧
      follow (some glyph.kind))
    (ends : follow none) :
    (itemsToEnd item).Reads (parts.flatMap written)
      (fun values => values.map erase = parts.map target) (· = none) := by
  refine reads_rounds (length_le_flatMap fun part member => ?_)
    fun _ => reads_manyToEnd each opens ends
  obtain ⟨glyph, others, begins, _⟩ := opens part member
  exact ⟨glyph, others, begins⟩

end Loops

end Reading

end TraversalQuery
