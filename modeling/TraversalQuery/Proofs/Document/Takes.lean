import TraversalQuery.Proofs.Document.Loops
import TraversalQuery.Proofs.Document.Pieces
import TraversalQuery.Proofs.Document.Wording
import TraversalQuery.Proofs.Source.Located

/-!
# What readings take

A reading takes tokens that are a wording of what it makes of them, or it fails at a place that lies
among the tokens. Rules for the steps of a reading put the wording of a phrase together from those
of its parts, in the order in which they are read, and measure the span of what was read.
-/

namespace TraversalQuery

namespace Cursor

/-- One cursor is another after some tokens are taken. -/
structure Moves (cursor : Cursor) (taken : List Token) (after : Cursor) : Prop where
  rest : cursor.rest = taken ++ after.rest
  last : after.last = (taken.getLast?.map (·.span)).getD cursor.last
  ending : after.ending = cursor.ending

theorem Moves.refl (cursor : Cursor) : cursor.Moves [] cursor :=
  ⟨rfl, rfl, rfl⟩

/-- A cursor that moves on over more tokens has moved over all of them. -/
theorem Moves.trans {cursor middle after : Cursor} {taken others : List Token}
    (first : cursor.Moves taken middle) (second : middle.Moves others after) :
    cursor.Moves (taken ++ others) after := by
  refine ⟨by rw [first.rest, second.rest, List.append_assoc], ?_,
    second.ending.trans first.ending⟩
  rw [second.last, first.last, List.getLast?_append]
  cases others.getLast? <;> simp

/-- A cursor moves over the token that is ahead. -/
theorem moves_next {cursor : Cursor} {token : Token} {rest : List Token}
    (ahead : cursor.rest = token :: rest) : cursor.Moves [token] cursor.next := by
  obtain ⟨_, last, ending⟩ := cursor
  obtain rfl := ahead
  exact ⟨rfl, rfl, rfl⟩

end Cursor

/-- A set of places with every place from one of them to another. -/
structure Region where
  holds : Span → Prop
  merge : ∀ {first second}, holds first → holds second → holds (first.merge second)

namespace Region

/-- Any place at all. -/
def anywhere : Region :=
  ⟨fun _ => True, fun _ _ => trivial⟩

/-- A cursor after some tokens, and all that it knows of places lies in a region. -/
structure Stands (region : Region) (read : List Token) (cursor : Cursor) : Prop where
  inOrder : InOrder (read ++ cursor.rest)
  within : ∀ token ∈ read ++ cursor.rest, region.holds token.span
  last : region.holds cursor.last
  ending : region.holds cursor.ending
  recent : ∀ token ∈ read.getLast?, cursor.last = token.span

variable {region : Region} {read taken : List Token} {cursor after : Cursor}

namespace Stands

/-- Where a cursor stands, it has read the tokens that it moved over. -/
theorem moves (stands : region.Stands read cursor) (moves : cursor.Moves taken after) :
    region.Stands (read ++ taken) after := by
  have whole : read ++ taken ++ after.rest = read ++ cursor.rest := by
    rw [moves.rest, List.append_assoc]
  have last : region.holds ((taken.getLast?.map (·.span)).getD cursor.last) := by
    cases isLast : taken.getLast? with
    | none => exact stands.last
    | some token =>
      refine stands.within token (List.mem_append_right _ ?_)
      rw [moves.rest]
      exact List.mem_append_left _ (List.mem_of_getLast? isLast)
  refine ⟨whole ▸ stands.inOrder, whole ▸ stands.within, moves.last ▸ last,
    moves.ending ▸ stands.ending, fun token isLast => ?_⟩
  rw [moves.last]
  rw [Option.mem_def, List.getLast?_append] at isLast
  cases given : taken.getLast? with
  | none =>
    rw [given, Option.none_or] at isLast
    exact stands.recent token isLast
  | some other =>
    rw [given, Option.some_or] at isLast
    rw [← Option.some.inj isLast]
    rfl

/-- A phrase begins anywhere. -/
theorem fresh (stands : region.Stands read cursor) : region.Stands [] cursor where
  inOrder := stands.inOrder.sublist (List.sublist_append_right _ _)
  within token member := stands.within token (List.mem_append_right _ member)
  last := stands.last
  ending := stands.ending
  recent := nofun

/-- The next token or the end. -/
theorem span (stands : region.Stands read cursor) : region.holds cursor.span := by
  obtain ⟨_ | ⟨token, rest⟩, last, ending⟩ := cursor
  · exact stands.ending
  · exact stands.within token (List.mem_append_right _ List.mem_cons_self)

end Stands

end Region

namespace Wording

variable {phrase other : Language Token} {tokens : List Token}

@[simp] theorem nil_mem_mul_iff : [] ∈ phrase * other ↔ [] ∈ phrase ∧ [] ∈ other := by
  rw [Language.mem_mul]
  constructor
  · rintro ⟨first, isFirst, second, isSecond, none⟩
    obtain ⟨rfl, rfl⟩ := List.append_eq_nil_iff.mp none
    exact ⟨isFirst, isSecond⟩
  · rintro ⟨isFirst, isSecond⟩
    exact ⟨[], isFirst, [], isSecond, rfl⟩

@[simp] theorem nil_notMem_token (kind : TokenKind) : [] ∉ token kind := by
  rintro ⟨place, same⟩
  contradiction

@[simp] theorem nil_notMem_mark (wanted : Punctuator) : [] ∉ mark wanted :=
  nil_notMem_token _

@[simp] theorem nil_notMem_word (text : String) : [] ∉ word text :=
  nil_notMem_token _

theorem nothing_of {condition : Prop} (holds : condition) : nothing condition = 1 :=
  Set.ext fun _ => and_iff_right holds

theorem nothing_of_not {condition : Prop} (fails : ¬condition) : nothing condition = 0 :=
  Set.ext fun _ => iff_of_false (fun holds => fails holds.1) id

@[simp] theorem nil_notMem_covering (place : Span) : [] ∉ covering place phrase := by
  rintro ⟨_, first, isFirst, _⟩
  contradiction

/-- A phrase covers a place where a narrower one does. -/
theorem covering_mono {place : Span} (within : phrase ≤ other) :
    covering place phrase ≤ covering place other :=
  fun _ ⟨isPhrase, covers⟩ => ⟨within isPhrase, covers⟩

/-- There are no fewer tokens than parts, where every part has some. -/
theorem length_le_of_mem_prod {α : Type} {write : α → Language Token}
    (some : ∀ value, [] ∉ write value) (values : List α) : ∀ {tokens : List Token},
      tokens ∈ (values.map write).prod → values.length ≤ tokens.length := by
  induction values with
  | nil => exact fun _ => Nat.zero_le _
  | cons value values ih =>
    rintro _ ⟨first, isFirst, others, isRest, rfl⟩
    have shorter := ih isRest
    have begun : first ≠ [] := fun none => some value (none ▸ isFirst)
    have positive := List.length_pos_iff.mpr begun
    rw [List.length_cons, List.length_append]
    omega

/-- The tokens that are in a wording if the first of them stands at a place. -/
def given (start : Span) (phrase : Language Token) : Language Token :=
  {tokens | (∀ first ∈ tokens.head?, first.span = start) → tokens ∈ phrase}

/-- A phrase may be given from where it starts. -/
theorem le_given (start : Span) : phrase ≤ given start phrase :=
  fun _ isPhrase _ => isPhrase

theorem le_listed (opening closing : Punctuator) (parts : List (Language Token)) :
    mark opening * (parts.prod * mark closing) ≤ listed opening closing parts :=
  le_add_self

theorem one_le_listed (opening closing : Punctuator) : 1 ≤ listed opening closing [] := by
  rw [listed, nothing_of rfl]
  exact le_self_add

@[simp] theorem nil_notMem_described (some : [] ∉ phrase) : [] ∉ described phrase :=
  fun isNil => some (nil_mem_mul_iff.mp isNil).2

end Wording

namespace Reading

open Wording

variable {region : Region} {sofar phrase : Language Token} {kind : TokenKind} {start : Span}
  {α β : Type} {write : α → Language Token} {write' : β → Language Token}

/-- What comes of a reading after some tokens are read: with the tokens that it takes they are a
wording of what it makes, or it fails at a place in the region. -/
def Outcome (region : Region) (read : List Token) (cursor : Cursor) (write : α → Language Token) :
    Except SyntaxError (α × Cursor) → Prop
  | .ok (value, after) => ∃ taken, cursor.Moves taken after ∧ read ++ taken ∈ write value
  | .error error => region.holds error.span

/-- An outcome for some words is one for wider ones. -/
theorem Outcome.mono {read read' : List Token} {cursor : Cursor} {other : α → Language Token}
    {result : Except SyntaxError (α × Cursor)} (outcome : Outcome region read cursor write result)
    (written : ∀ taken value after, cursor.Moves taken after → read ++ taken ∈ write value →
      read' ++ taken ∈ other value) : Outcome region read' cursor other result := by
  rcases result with error | ⟨value, after⟩
  · exact outcome
  · obtain ⟨taken, moves, isPhrase⟩ := outcome
    exact ⟨taken, moves, written taken value after moves isPhrase⟩

/-- After tokens of the wording `sofar`, a reading takes the rest of a wording of what it makes. -/
def Takes (region : Region) (sofar : Language Token) (reading : Reading α)
    (write : α → Language Token) : Prop :=
  ∀ read ∈ sofar, ∀ cursor, region.Stands read cursor →
    Outcome region read cursor write (reading.run cursor)

/-- The same where the kind of the next token is known. -/
def TakesNext (region : Region) (kind : TokenKind) (sofar : Language Token) (reading : Reading α)
    (write : α → Language Token) : Prop :=
  ∀ read ∈ sofar, ∀ cursor, region.Stands read cursor → cursor.kind? = some kind →
    Outcome region read cursor write (reading.run cursor)

theorem Takes.next {reading : Reading α} (takes : Takes region sofar reading write) :
    TakesNext region kind sofar reading write :=
  fun read isRead cursor stands _ => takes read isRead cursor stands

/-- An answer takes no words. -/
theorem takes_pure {value : α} (written : sofar ≤ write value) :
    Takes region sofar (pure value) write := by
  intro read isRead cursor stands
  exact ⟨[], .refl cursor, by rw [List.append_nil]; exact written isRead⟩

theorem takes_fail {fault : SyntaxFault} {place : Span} (within : region.holds place) :
    Takes region sofar (fail fault place : Reading α) write :=
  fun _ _ _ _ => within

/-- Readings one after the other take words one after the other. -/
theorem Takes.bind {reading : Reading α} {next : α → Reading β}
    (first : Takes region sofar reading write)
    (second : ∀ value, Takes region (write value) (next value) write') :
    Takes region sofar (reading >>= next) write' := by
  intro read isRead cursor stands
  have outcome := first read isRead cursor stands
  change Outcome _ _ _ _ (reading.run cursor >>= fun found => (next found.1).run found.2)
  rcases ran : reading.run cursor with error | ⟨value, middle⟩
  · rw [ran] at outcome
    exact outcome
  · rw [ran] at outcome
    obtain ⟨taken, moves, written⟩ := outcome
    have outcome' := second value _ written middle (stands.moves moves)
    rw [Except.ok_bind]
    dsimp only
    rcases ran' : (next value).run middle with error | ⟨result, after⟩
    · rw [ran'] at outcome'
      exact outcome'
    · rw [ran'] at outcome'
      obtain ⟨others, moves', written'⟩ := outcome'
      exact ⟨taken ++ others, moves.trans moves', by rwa [← List.append_assoc]⟩

/-- What may be read at the start of a phrase may be read after others. -/
theorem Takes.after {reading : Reading α} {other : α → Language Token}
    (takes : Takes region 1 reading write) (written : ∀ value, sofar * write value ≤ other value) :
    Takes region sofar reading other := by
  intro read isRead cursor stands
  refine (takes [] rfl cursor stands.fresh).mono fun taken value _ _ isPhrase => ?_
  exact written value (Language.append_mem_mul isRead isPhrase)

/-- A reading that takes some words takes wider ones. -/
theorem Takes.mono {reading : Reading α} {other : α → Language Token}
    (takes : Takes region sofar reading write) (written : ∀ value, write value ≤ other value) :
    Takes region sofar reading other := by
  intro read isRead cursor stands
  exact (takes read isRead cursor stands).mono fun taken value _ _ isPhrase =>
    written value isPhrase

/-- One phrase after others. -/
theorem Takes.then {reading : Reading α} {next : α → Reading β}
    (first : Takes region 1 reading write)
    (second : ∀ value, Takes region (sofar * write value) (next value) write') :
    Takes region sofar (reading >>= next) write' :=
  (first.after fun _ => le_rfl).bind second

/-- Changing an answer takes no words. -/
theorem Takes.map {reading : Reading α} {change : α → β}
    (takes : Takes region sofar reading write)
    (written : ∀ value, write value ≤ write' (change value)) :
    Takes region sofar (change <$> reading) write' := by
  rw [map_eq_pure_bind]
  exact takes.bind fun value => takes_pure (written value)

/-- A look at the tokens tells nothing of what is taken. -/
theorem takes_look (look : Cursor → α) :
    Takes region sofar (do return look (← get)) fun _ => sofar := by
  intro read isRead cursor stands
  exact ⟨[], .refl cursor, by rwa [List.append_nil]⟩

/-- Looking ahead takes no words. -/
theorem Takes.look {look : Cursor → α} {next : α → Reading β}
    (later : ∀ seen, Takes region sofar (next seen) write') :
    Takes region sofar ((do return look (← get)) >>= next) write' :=
  (takes_look look).bind later

/-- A look at the place of the next token, which may be blamed. -/
theorem Takes.glance {next : Span → Reading α}
    (later : ∀ place, region.holds place → Takes region sofar (next place) write) :
    Takes region sofar (span >>= next) write := by
  intro read isRead cursor stands
  exact later cursor.span stands.span read isRead cursor stands

/-- What is unexpected is blamed on the token that is ahead. -/
theorem takes_unexpected (expected : Expected) :
    Takes region sofar (unexpected expected : Reading α) write :=
  .look fun _ => .glance fun _ within => takes_fail within

/-- Nothing is read after a fault. -/
theorem Takes.stop {reading : Reading α} {next : α → Reading β}
    (fails : Takes region sofar reading fun _ => 0) :
    Takes region sofar (reading >>= next) write' :=
  fails.bind fun _ _ isRead => absurd isRead (Language.notMem_zero _)

/-- The kind of the next token decides what is read. -/
theorem Takes.peek {next : Option TokenKind → Reading α}
    (later : ∀ kind, TakesNext region kind sofar (next (some kind)) write)
    (ends : Takes region sofar (next none) write) :
    Takes region sofar (kind? >>= next) write := by
  intro read isRead cursor stands
  change Outcome _ _ _ _ ((next cursor.kind?).run cursor)
  cases seen : cursor.kind? with
  | none => exact ends read isRead cursor stands
  | some kind => exact later kind read isRead cursor stands seen

theorem TakesNext.glance {next : Span → Reading α}
    (later : ∀ place, region.holds place → TakesNext region kind sofar (next place) write) :
    TakesNext region kind sofar (span >>= next) write := by
  intro read isRead cursor stands
  exact later cursor.span stands.span read isRead cursor stands

/-- Moving past a token whose kind is known. -/
theorem TakesNext.past {next : Reading α}
    (later : Takes region (sofar * token kind) next write) :
    TakesNext region kind sofar (advance >>= fun _ => next) write := by
  intro read isRead cursor stands seen
  obtain ⟨⟨_, place⟩, rest, ahead, rfl⟩ := Cursor.exists_ahead seen
  have moves := Cursor.moves_next ahead
  have outcome := later _ (Language.append_mem_mul isRead ⟨place, rfl⟩) cursor.next
    (stands.moves moves)
  change Outcome _ _ _ _ (next.run cursor.next)
  rcases ran : next.run cursor.next with error | ⟨value, after⟩
  · rw [ran] at outcome
    exact outcome
  · rw [ran] at outcome
    obtain ⟨taken, moves', written⟩ := outcome
    exact ⟨_, moves.trans moves', by rwa [← List.append_assoc]⟩

theorem TakesNext.first {next : Reading α} (later : Takes region (token kind) next write) :
    TakesNext region kind 1 (advance >>= fun _ => next) write :=
  .past (by rwa [one_mul])

theorem TakesNext.map {reading : Reading α} {change : α → β}
    (takes : TakesNext region kind sofar reading write)
    (written : ∀ value, write value ≤ write' (change value)) :
    TakesNext region kind sofar (change <$> reading) write' := by
  intro read isRead cursor stands seen
  have outcome := takes read isRead cursor stands seen
  rw [map_eq_pure_bind]
  change Outcome _ _ _ _ (reading.run cursor >>= fun found => .ok (change found.1, found.2))
  rcases ran : reading.run cursor with error | ⟨value, after⟩
  · rw [ran] at outcome
    exact outcome
  · rw [ran] at outcome
    obtain ⟨taken, moves, isPhrase⟩ := outcome
    exact ⟨taken, moves, written value isPhrase⟩

/-- Where something of the next token is seen that tells its kind. -/
theorem Takes.seen {look : Cursor → Bool} {yes no : Reading α}
    (shows : ∀ cursor, look cursor = true → cursor.kind? = some kind)
    (found : TakesNext region kind sofar yes write) (missing : Takes region sofar no write) :
    Takes region sofar
      ((do return look (← get)) >>= fun seen => if seen = true then yes else no) write := by
  intro read isRead cursor stands
  change Outcome _ _ _ _ ((if look cursor = true then yes else no : Reading α).run cursor)
  split
  · rename_i seen
    exact found read isRead cursor stands (shows cursor seen)
  · exact missing read isRead cursor stands

theorem shows_mark (mark : Punctuator) (cursor : Cursor) (seen : cursor.sees mark = true) :
    cursor.kind? = some (.mark mark) :=
  beq_iff_eq.mp seen

theorem shows_word (text : String) (cursor : Cursor) (seen : cursor.seesWord text = true) :
    cursor.kind? = some (.name text) :=
  beq_iff_eq.mp seen

/-- A mark is read where it is ahead. -/
theorem takes_accept (wanted : Punctuator) :
    Takes region 1 (accept wanted) fun found => if found then mark wanted else 1 :=
  .seen (shows_mark wanted) (.first (takes_pure le_rfl)) (takes_pure le_rfl)

/-- A mark that is expected is read. -/
theorem takes_expect (wanted : Punctuator) :
    Takes region 1 (expect wanted) fun _ => mark wanted :=
  .seen (shows_mark wanted) (.glance fun _ _ => .first (takes_pure le_rfl))
    (takes_unexpected _)

theorem takes_expectWord (text : String) :
    Takes region 1 (expectWord text) fun _ => word text :=
  .seen (shows_word text) (.glance fun _ _ => .first (takes_pure le_rfl))
    (takes_unexpected _)

/-- A name is read. -/
theorem takes_name : Takes region 1 name word := by
  refine .peek (fun kind => ?_) (takes_unexpected _)
  cases kind with
  | name text => exact .first (takes_pure le_rfl)
  | _ => exact (takes_unexpected _).next

/-! ### Spans -/

/-- The tokens that are taken begin where the cursor stands. -/
theorem Outcome.begins {cursor : Cursor} {result : Except SyntaxError (α × Cursor)}
    (outcome : Outcome region [] cursor (fun value => given cursor.span (write value)) result) :
    Outcome region [] cursor write result := by
  refine outcome.mono fun taken value after moves written => written fun first isFirst => ?_
  obtain ⟨rest, rfl⟩ := List.head?_eq_some_iff.mp isFirst
  rw [Cursor.span, moves.rest]
  rfl

/-- A phrase from the place of its first token on. -/
theorem Takes.measured {next : Span → Reading α}
    (later : ∀ start, region.holds start →
      Takes region 1 (next start) fun value => given start (write value)) :
    Takes region 1 (span >>= next) write := by
  rintro _ rfl cursor stands
  exact (later cursor.span stands.span [] rfl cursor stands).begins

theorem TakesNext.measured {next : Span → Reading α}
    (later : ∀ start, region.holds start →
      TakesNext region kind 1 (next start) fun value => given start (write value)) :
    TakesNext region kind 1 (span >>= next) write := by
  rintro _ rfl cursor stands seen
  exact (later cursor.span stands.span [] rfl cursor stands seen).begins

/-- The reading gives the place where it begins. -/
def Places (reading : Reading Span) : Prop :=
  ∀ cursor place after, reading.run cursor = .ok (place, after) → place = cursor.span

theorem places_expected {look : Cursor → Bool} {expected : Expected} : Places (do
    if ← (do return look (← get)) then
      let place ← span
      advance
      return place
    else unexpected expected) := by
  intro cursor place after ran
  change (if look cursor = true then _ else _ : Reading Span).run cursor = _ at ran
  split at ran
  · cases ran
    rfl
  · exact absurd ran (fails_unexpected _ _ _ _)

theorem Places.bind_eq {reading : Reading Span} (places : Places reading)
    (next : Span → Reading α) :
    reading >>= next = span >>= fun start => reading >>= fun _ => next start := by
  funext cursor
  change (reading.run cursor >>= fun found => (next found.1).run found.2) =
    (reading.run cursor >>= fun found => (next cursor.span).run found.2)
  rcases ran : reading.run cursor with error | ⟨place, after⟩
  · rfl
  · rw [Except.ok_bind, Except.ok_bind, places cursor place after ran]

/-- A phrase from the place of an expected token on. -/
theorem Places.opens {reading : Reading Span} {next : Span → Reading α}
    (places : Places reading) (first : Takes region 1 reading fun _ => phrase)
    (later : ∀ start, region.holds start →
      Takes region phrase (next start) fun value => given start (write value)) :
    Takes region 1 (reading >>= next) write := by
  rw [places.bind_eq]
  exact .measured fun start within => first.bind fun _ => later start within

theorem Takes.opened {wanted : Punctuator} {next : Span → Reading α}
    (later : ∀ start, region.holds start →
      Takes region (mark wanted) (next start) fun value => given start (write value)) :
    Takes region 1 (expect wanted >>= next) write :=
  Places.opens places_expected (takes_expect wanted) later

theorem Takes.openedWord {text : String} {next : Span → Reading α}
    (later : ∀ start, region.holds start →
      Takes region (word text) (next start) fun value => given start (write value)) :
    Takes region 1 (expectWord text >>= next) write :=
  Places.opens places_expected (takes_expectWord text) later

/-- Measuring what was read, from a place that is within the region. -/
theorem Takes.whole {next : Span → Reading α} (within : region.holds start) (some : [] ∉ sofar)
    (later : ∀ whole, region.holds whole →
      Takes region (sofar ⊓ given start (covering whole sofar)) (next whole) write) :
    Takes region sofar (spanFrom start >>= next) write := by
  intro read isRead cursor stands
  refine later _ (region.merge within stands.last) read ⟨isRead, fun begins => ?_⟩ cursor stands
  have isSome : read ≠ [] := fun none => some (none ▸ isRead)
  have isFirst := List.head?_eq_some_head isSome
  have isLast := List.getLast?_eq_some_getLast isSome
  refine ⟨isRead, _, isFirst, _, isLast, ?_⟩
  have inOrder := stands.inOrder.sublist (List.sublist_append_left _ _)
  rw [← begins _ isFirst, stands.recent _ isLast, inOrder.merge isFirst isLast]

/-- The end of a phrase whose span goes into what is made of it. -/
theorem Takes.close {make : Span → α} (within : region.holds start) (some : [] ∉ sofar)
    (written : ∀ whole, covering whole sofar ≤ write (make whole)) :
    Takes region sofar (spanFrom start >>= fun whole => pure (make whole))
      fun value => given start (write value) := by
  refine .whole within some fun whole _ => takes_pure ?_
  rintro read ⟨_, covers⟩ begins
  exact written whole (covers begins)

/-! ### Loops -/

section

variable {item : Reading α} (each : Takes region 1 item write)
include each

/-- Items up to a closing mark, or as many as there are rounds for and one more. -/
theorem takes_manyUntil (close : Punctuator) (rounds : Nat) :
    Takes region 1 (manyUntil close item rounds) fun values =>
      (values.map write).prod * (mark close + nothing (rounds < values.length)) := by
  induction rounds with
  | zero =>
    refine (takes_accept close).bind fun closed => ?_
    cases closed with
    | true => exact takes_pure (by simp)
    | false =>
      refine each.bind fun value => takes_pure ?_
      rw [nothing_of (by simp)]
      simpa using mul_le_mul' (le_refl (write value)) (le_add_self (a := 1) (b := mark close))
  | succ rounds ih =>
    refine (takes_accept close).bind fun closed => ?_
    cases closed with
    | true => exact takes_pure (by simp)
    | false =>
      refine each.bind fun value => ih.then fun others => takes_pure (le_of_eq ?_)
      simp [mul_assoc]

/-- Items up to a closing mark are read one after another. -/
theorem takes_itemsUntil (some : ∀ value, [] ∉ write value) (close : Punctuator) :
    Takes region 1 (itemsUntil close item) fun values => (values.map write).prod * mark close := by
  rintro _ rfl cursor stands
  refine (takes_manyUntil each close cursor.rest.length [] rfl cursor stands).mono ?_
  rintro taken values after moves ⟨first, isItems, last, isLast, rfl⟩
  -- More items than there are tokens cannot have been read.
  rcases isLast with closed | ⟨tooMany, rfl⟩
  · exact ⟨first, isItems, last, closed, rfl⟩
  · have fewer := length_le_of_mem_prod some values isItems
    have total := congrArg List.length moves.rest
    simp only [List.append_nil, List.length_append] at total fewer
    omega

/-- Items between marks, or none. -/
theorem takes_listed (some : ∀ value, [] ∉ write value) (opening closing : Punctuator) :
    Takes region 1
      (accept opening >>= fun opened => if opened = true then itemsUntil closing item else pure [])
      fun values => listed opening closing (values.map write) := by
  refine (takes_accept opening).bind fun opened => ?_
  cases opened with
  | true => exact (takes_itemsUntil each some closing).after fun _ => le_listed _ _ _
  | false => exact takes_pure (one_le_listed _ _)

/-- Items after marks are read one after another. -/
theorem takes_manyWhile (wanted : Punctuator) (rounds : Nat) :
    Takes region 1 (manyWhile wanted item rounds) fun values => (values.map write).prod := by
  induction rounds with
  | zero => exact takes_pure (by simp)
  | succ rounds ih =>
    refine .look fun seen => ?_
    split
    · exact each.bind fun value => ih.then fun others => takes_pure (by simp)
    · exact takes_pure (by simp)

theorem takes_itemsWhile (wanted : Punctuator) :
    Takes region 1 (itemsWhile wanted item) fun values => (values.map write).prod :=
  .look fun _ => takes_manyWhile each wanted _

/-- Items up to the end are read one after another. -/
theorem takes_manyToEnd (rounds : Nat) :
    Takes region 1 (manyToEnd item rounds) fun values => (values.map write).prod := by
  induction rounds with
  | zero => exact takes_pure (by simp)
  | succ rounds ih =>
    refine .look fun ended => ?_
    split
    · exact takes_pure (by simp)
    · exact each.bind fun value => ih.then fun others => takes_pure (by simp)

theorem takes_itemsToEnd :
    Takes region 1 (itemsToEnd item) fun values => (values.map write).prod :=
  .look fun _ => takes_manyToEnd each _

end

end Reading

end TraversalQuery
