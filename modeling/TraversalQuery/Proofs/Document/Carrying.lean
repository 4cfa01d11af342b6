import TraversalQuery.Document.Cursor
import TraversalQuery.Proofs.Source.Scanning

/-!
# Readings at other places

The tokens of a text may stand further on in a longer text, and more tokens may come after them. A
reading then makes the same of them, at other places, as long as it takes none of those that come
after. Where it looks ahead for something optional, the token after them must not be taken for it:
that of a definition is not.
-/

namespace TraversalQuery

/-- A token that ends what comes before it: a definition goes on with none of the kind. -/
def TokenKind.Opens (kind : TokenKind) : Prop :=
  (∀ mark, kind ≠ .mark mark) ∧ kind ≠ .name "implements" ∧ kind ≠ .name "repeatable"

/-- Where the tokens of a text stand in a longer text, and the tokens that come after them. -/
structure Placement where
  place : Span → Span
  more : List Token
  merges : ∀ first second, place (first.merge second) = (place first).merge (place second)
  opens : ∀ token ∈ more.head?, token.kind.Opens

/-- What is ahead of a cursor that sees a token. -/
theorem Cursor.exists_ahead {cursor : Cursor} {kind : TokenKind} (next : cursor.kind? = some kind) :
    ∃ token rest, cursor.rest = token :: rest ∧ token.kind = kind := by
  obtain ⟨token, first, isKind⟩ := Option.map_eq_some_iff.mp next
  obtain ⟨rest, ahead⟩ := List.head?_eq_some_iff.mp first
  exact ⟨token, rest, ahead, isKind⟩

/-- A cursor that moves on has one token less ahead. -/
theorem Cursor.length_next {cursor : Cursor} {token : Token} {rest : List Token}
    (ahead : cursor.rest = token :: rest) : cursor.next.rest.length + 1 = cursor.rest.length := by
  rw [next, ahead]
  rfl

namespace Placement

/-- The place where a text stands already, with tokens after it. -/
def followedBy (more : List Token) (opens : ∀ token ∈ more.head?, token.kind.Opens) : Placement :=
  ⟨id, more, fun _ _ => rfl, opens⟩

/-- Another place, with nothing after it. -/
def atEnd (place : Span → Span)
    (merges : ∀ first second, place (first.merge second) = (place first).merge (place second)) :
    Placement :=
  ⟨place, [], merges, nofun⟩

variable (placement : Placement) {cursor cursor' : Cursor}

/-- A cursor in the longer text has the same tokens ahead as one in the text, and more. -/
def Meets (cursor cursor' : Cursor) : Prop :=
  cursor'.rest = cursor.rest.map (·.placed placement.place) ++ placement.more

/-- The last token read in the longer text is the last one read in the text. -/
def Recalls (cursor cursor' : Cursor) : Prop :=
  cursor'.last = placement.place cursor.last

variable {placement}

/-- Cursors that meet still do so when both move on. -/
theorem Meets.next {token : Token} {rest : List Token} (meets : placement.Meets cursor cursor')
    (ahead : cursor.rest = token :: rest) :
    placement.Meets cursor.next cursor'.next ∧ placement.Recalls cursor.next cursor'.next := by
  obtain ⟨_, last, ending⟩ := cursor
  obtain ⟨_, last', ending'⟩ := cursor'
  obtain rfl := ahead
  obtain rfl := meets
  exact ⟨rfl, rfl⟩

/-- Cursors that meet differ by the tokens of the second source. -/
theorem Meets.length (meets : placement.Meets cursor cursor') :
    cursor'.rest.length = cursor.rest.length + placement.more.length := by
  rw [meets, List.length_append, List.length_map]

/-- Cursors that meet see the same token as long as there is one. -/
theorem Meets.kind? {token : Token} {rest : List Token} (meets : placement.Meets cursor cursor')
    (ahead : cursor.rest = token :: rest) : cursor'.kind? = cursor.kind? := by
  rw [Cursor.kind?, Cursor.kind?, meets, ahead]
  rfl

/-- At the end of the text nothing is ahead that an optional phrase begins with. -/
theorem Meets.opens (meets : placement.Meets cursor cursor') (ended : cursor.rest = [])
    {kind : TokenKind} (ahead : cursor'.kind? = some kind) : kind.Opens := by
  rw [Cursor.kind?, meets, ended] at ahead
  obtain ⟨token, isFirst, rfl⟩ := Option.map_eq_some_iff.mp ahead
  exact placement.opens token isFirst

/-- Cursors that meet see the same marks. -/
theorem Meets.sees (meets : placement.Meets cursor cursor') (mark : Punctuator) :
    cursor'.sees mark = cursor.sees mark := by
  cases ahead : cursor.rest with
  | cons token rest => rw [Cursor.sees, Cursor.sees, meets.kind? ahead]
  | nil =>
    have none : cursor.sees mark = false := by simp [Cursor.sees, Cursor.kind?, ahead]
    rw [none, Cursor.sees, beq_eq_false_iff_ne]
    exact fun same => (meets.opens ahead same).1 mark rfl

theorem Meets.seesWord (meets : placement.Meets cursor cursor') {word : String}
    (foreign : ∀ {kind : TokenKind}, kind.Opens → kind ≠ .name word) :
    cursor'.seesWord word = cursor.seesWord word := by
  cases ahead : cursor.rest with
  | cons token rest => rw [Cursor.seesWord, Cursor.seesWord, meets.kind? ahead]
  | nil =>
    have none : cursor.seesWord word = false := by simp [Cursor.seesWord, Cursor.kind?, ahead]
    rw [none, Cursor.seesWord, beq_eq_false_iff_ne]
    exact fun same => foreign (meets.opens ahead same) rfl

end Placement

namespace Reading

variable {placement : Placement} {started : Bool} {α β γ δ : Type} {change : α → β}
  {change' : γ → δ}

/-- What one reading makes of a text, the other makes of it in the longer text, at other places, and
then the token read last is the same one. A reading that has `started` begins with the token read
last known to be the same; one that has not takes a token. -/
def Carries (placement : Placement) (started : Bool) (change : α → β) (reading : Reading α)
    (other : Reading β) : Prop :=
  ∀ cursor cursor' value left, placement.Meets cursor cursor' →
    (started = true → placement.Recalls cursor cursor') →
      reading.run cursor = .ok (value, left) →
        ∃ left', other.run cursor' = .ok (change value, left') ∧ placement.Meets left left' ∧
          placement.Recalls left left' ∧ left.rest.length + (!started).toNat ≤ cursor.rest.length

theorem carries_pure (value : α) :
    Carries placement true change (pure value) (pure (change value)) := by
  intro cursor cursor' _ _ meets recalls ran
  cases ran
  exact ⟨cursor', rfl, meets, recalls rfl, Nat.le_refl _⟩

/-- A sequence carries over if its parts do. -/
theorem Carries.bind {reading : Reading α} {other : Reading β} {next : α → Reading γ}
    {next' : β → Reading δ} (first : Carries placement started change reading other)
    (second : ∀ value, Carries placement true change' (next value) (next' (change value))) :
    Carries placement started change' (reading >>= next) (other >>= next') := by
  intro cursor cursor' result left meets recalls ran
  obtain ⟨⟨value, middle⟩, read, ran⟩ := Except.of_bind_eq_ok ran
  obtain ⟨middle', read', meets, recalls, shorter⟩ := first _ _ _ _ meets recalls read
  obtain ⟨left', ran', meets, recalls, shorter'⟩ :=
    second value _ _ _ _ meets (fun _ => recalls) ran
  refine ⟨left', ?_, meets, recalls, Nat.le_trans (Nat.add_le_add_right shorter' _) shorter⟩
  change (other.run cursor' >>= fun (value, middle) => (next' value).run middle) = _
  rw [read']
  exact ran'

/-- A reading may start after another. -/
theorem Carries.begun {reading : Reading α} {other : Reading β}
    (carries : Carries placement false change reading other) :
    Carries placement true change reading other := by
  intro cursor cursor' value left meets _ ran
  obtain ⟨left', ran', meets, recalls, shorter⟩ := carries _ _ _ _ meets nofun ran
  exact ⟨left', ran', meets, recalls, Nat.le_of_lt shorter⟩

/-- A reading carries over with what is made of its answer. -/
theorem Carries.map {reading : Reading α} {other : Reading β} {wrap : α → γ} {wrap' : β → δ}
    (carries : Carries placement started change reading other)
    (commutes : ∀ value, change' (wrap value) = wrap' (change value)) :
    Carries placement started change' (wrap <$> reading) (wrap' <$> other) := by
  rw [map_eq_pure_bind, map_eq_pure_bind]
  refine carries.bind fun value => ?_
  rw [← commutes]
  exact carries_pure _

/-- A reading that fails. -/
def Fails (reading : Reading α) : Prop :=
  ∀ cursor value left, reading.run cursor ≠ .ok (value, left)

theorem fails_fail (fault : SyntaxFault) (span : Span) : Fails (fail fault span : Reading α) :=
  fun _ _ _ => nofun

/-- A sequence fails if its first part does. -/
theorem Fails.bind {reading : Reading α} {next : α → Reading γ} (fails : Fails reading) :
    Fails (reading >>= next) := by
  intro cursor value left ran
  obtain ⟨⟨middle, _⟩, read, _⟩ := Except.of_bind_eq_ok ran
  exact fails _ _ _ read

/-- A sequence fails if all that follows does. -/
theorem fails_bind {reading : Reading α} {next : α → Reading γ}
    (fails : ∀ value, Fails (next value)) : Fails (reading >>= next) := by
  intro cursor value left ran
  obtain ⟨⟨middle, _⟩, _, ran⟩ := Except.of_bind_eq_ok ran
  exact fails middle _ _ _ ran

theorem fails_unexpected (expected : Expected) : Fails (unexpected expected : Reading α) :=
  fails_bind fun _ => fails_bind fun _ => fails_fail _ _

/-- What fails carries over to anything. -/
theorem Fails.carries {reading : Reading α} {other : Reading β} (fails : Fails reading) :
    Carries placement started change reading other :=
  fun _ _ _ _ _ _ ran => absurd ran (fails _ _ _)

/-! ### Single tokens -/

theorem carries_spanFrom (start : Span) :
    Carries placement true placement.place (spanFrom start)
      (spanFrom (placement.place start)) := by
  intro cursor cursor' _ _ meets recalls ran
  cases ran
  refine ⟨cursor', ?_, meets, recalls rfl, Nat.le_refl _⟩
  change Except.ok ((placement.place start).merge cursor'.last, cursor') = _
  rw [recalls rfl, placement.merges]

/-- A token is taken, and after it the last token read is known. -/
theorem carries_taking {reading : Reading α} {other : Reading β}
    (takes : ∀ cursor value left, reading.run cursor = .ok (value, left) →
      ∃ token rest, cursor.rest = token :: rest ∧ left = cursor.next ∧
        ∀ cursor', cursor'.rest = token.placed placement.place ::
          (rest.map (·.placed placement.place) ++ placement.more) →
            other.run cursor' = .ok (change value, cursor'.next)) :
    Carries placement false change reading other := by
  intro cursor cursor' value left meets _ ran
  obtain ⟨token, rest, ahead, rfl, reads⟩ := takes _ _ _ ran
  obtain ⟨meets', recalls⟩ := meets.next ahead
  refine ⟨cursor'.next, reads cursor' (by rw [meets, ahead]; rfl), meets', recalls, ?_⟩
  rw [Cursor.next, ahead]
  exact Nat.le_refl _

/-- Reading a name carries over. -/
theorem carries_name : Carries placement false id name name := by
  refine carries_taking fun cursor value left ran => ?_
  obtain ⟨ahead, last, ending⟩ := cursor
  cases ahead with
  | nil => cases ran
  | cons token rest =>
    obtain ⟨kind, place⟩ := token
    cases kind with
    | name text =>
      cases ran
      refine ⟨_, _, rfl, rfl, ?_⟩
      rintro ⟨_, _, _⟩ rfl
      rfl
    | _ => cases ran

/-- A reading that takes the token of a kind and gives its span, or fails. -/
theorem carries_token {reading : Reading Span} {kind : TokenKind} {expected : Expected}
    (reads : ∀ cursor : Cursor, reading.run cursor =
      if cursor.kind? == some kind then .ok (cursor.span, cursor.next)
      else (unexpected expected : Reading Span).run cursor) :
    Carries placement false placement.place reading reading := by
  refine carries_taking fun cursor value left ran => ?_
  rw [reads] at ran
  split at ran
  · rename_i same
    obtain ⟨token, rest, ahead, isKind⟩ := Cursor.exists_ahead (beq_iff_eq.mp same)
    cases ran
    refine ⟨token, rest, ahead, rfl, ?_⟩
    rintro ⟨_, last', ending'⟩ rfl
    rw [reads]
    simp [Cursor.kind?, Token.placed, isKind, Cursor.span, ahead]
  · exact absurd ran (fails_unexpected _ _ _ _)

/-- Reading a mark that is expected carries over. -/
theorem carries_expect (mark : Punctuator) :
    Carries placement false placement.place (expect mark) (expect mark) := by
  refine @carries_token _ _ (.mark mark) (.mark mark) fun cursor => ?_
  change (if cursor.sees mark = true then _ else _ : Reading Span).run cursor = _
  unfold Cursor.sees
  split <;> rfl

theorem carries_expectWord (word : String) :
    Carries placement false placement.place (expectWord word) (expectWord word) := by
  refine @carries_token _ _ (.name word) (.keyword word) fun cursor => ?_
  change (if cursor.seesWord word = true then _ else _ : Reading Span).run cursor = _
  unfold Cursor.seesWord
  split <;> rfl

/-- An optional phrase that begins with a token. -/
theorem Carries.optional {reading yes no : Reading α} {other yes' no' : Reading β}
    {sees : Cursor → Bool}
    (runs : ∀ cursor, reading.run cursor =
      if sees cursor then yes.run cursor.next else no.run cursor)
    (runs' : ∀ cursor, other.run cursor =
      if sees cursor then yes'.run cursor.next else no'.run cursor)
    (begins : ∀ cursor, sees cursor = true → ∃ kind, cursor.kind? = some kind)
    (same : ∀ {cursor cursor'}, placement.Meets cursor cursor' → sees cursor' = sees cursor)
    (taken : Carries placement true change yes yes')
    (absent : Carries placement started change no no') :
    Carries placement started change reading other := by
  intro cursor cursor' value left meets recalls ran
  rw [runs] at ran
  rw [runs', same meets]
  split at ran
  · rename_i seen
    rw [if_pos seen]
    obtain ⟨kind, next⟩ := begins _ seen
    obtain ⟨token, rest, ahead, _⟩ := Cursor.exists_ahead next
    obtain ⟨meets', recalls'⟩ := meets.next ahead
    obtain ⟨left', ran', meets, recalls, shorter⟩ := taken _ _ _ _ meets' (fun _ => recalls') ran
    have fewer : left.rest.length < cursor.rest.length :=
      Nat.lt_of_le_of_lt shorter (Nat.lt_of_succ_le (Nat.le_of_eq (Cursor.length_next ahead)))
    exact ⟨left', ran', meets, recalls,
      Nat.le_trans (Nat.add_le_add_left (Bool.toNat_le _) _) fewer⟩
  · rename_i unseen
    rw [if_neg unseen]
    exact absent _ _ _ _ meets recalls ran

/-- An optional phrase that begins with a mark. -/
theorem Carries.accept {mark : Punctuator} {next : Bool → Reading α} {next' : Bool → Reading β}
    (taken : Carries placement true change (next true) (next' true))
    (absent : Carries placement started change (next false) (next' false)) :
    Carries placement started change (accept mark >>= next) (accept mark >>= next') := by
  have runs {γ : Type} (next : Bool → Reading γ) (cursor : Cursor) :
      (Reading.accept mark >>= next).run cursor =
        if cursor.sees mark then (next true).run cursor.next else (next false).run cursor := by
    change ((if cursor.sees mark = true then _ else _ : Reading Bool).run cursor >>= _) = _
    split <;> rfl
  exact .optional (runs next) (runs next') (fun _ seen => ⟨_, beq_iff_eq.mp seen⟩)
    (fun meets => meets.sees mark) taken absent

/-- An optional phrase that begins with a word. -/
theorem Carries.word {word : String} {yes no : Reading α} {yes' no' : Reading β}
    (foreign : ∀ {kind : TokenKind}, kind.Opens → kind ≠ .name word)
    (taken : Carries placement true change yes yes')
    (absent : Carries placement started change no no') :
    Carries placement started change
      (seesWord word >>= fun seen => if seen = true then advance >>= fun _ => yes else no)
      (seesWord word >>= fun seen => if seen = true then advance >>= fun _ => yes' else no') := by
  have runs {γ : Type} (yes no : Reading γ) (cursor : Cursor) :
      (seesWord word >>= fun seen => if seen = true then advance >>= fun _ => yes else no).run
        cursor = if cursor.seesWord word then yes.run cursor.next else no.run cursor := by
    change (if cursor.seesWord word = true then _ else _ : Reading γ).run cursor = _
    split <;> rfl
  exact .optional (runs yes no) (runs yes' no') (fun _ seen => ⟨_, beq_iff_eq.mp seen⟩)
    (fun meets => meets.seesWord foreign) taken absent

/-- A look ahead before a phrase that takes a token. At the end there is none to take, so it does
not matter what is seen there. -/
theorem Carries.peek {ε ζ : Type} {look : Reading ε} {look' : Reading ζ} (seen : ε → ζ)
    {next : ε → Reading α} {next' : ζ → Reading β}
    (looks : ∀ {cursor cursor' value left}, placement.Meets cursor cursor' →
      cursor.rest ≠ [] → look.run cursor = .ok (value, left) →
        ∃ left', look'.run cursor' = .ok (seen value, left') ∧ placement.Meets left left' ∧
          left.rest.length ≤ cursor.rest.length)
    (ends : ∀ {cursor value left}, cursor.rest = [] → look.run cursor = .ok (value, left) →
      left.rest = [])
    (later : ∀ value, Carries placement false change (next value) (next' (seen value))) :
    Carries placement false change (look >>= next) (look' >>= next') := by
  intro cursor cursor' result left meets _ ran
  obtain ⟨⟨value, middle⟩, looked, ran⟩ := Except.of_bind_eq_ok ran
  by_cases ended : cursor.rest = []
  -- What comes later takes a token, so it does not succeed where there is none.
  · obtain ⟨_, _, _, _, shorter⟩ := later value middle
      ⟨middle.rest.map (·.placed placement.place) ++ placement.more, .zero, .zero⟩ _ _ rfl nofun ran
    rw [ends ended looked] at shorter
    exact absurd shorter (Nat.not_succ_le_zero _)
  · obtain ⟨middle', looked', meets, shorter⟩ := looks meets ended looked
    obtain ⟨left', ran', meets, recalls, shorter'⟩ := later value _ _ _ _ meets nofun ran
    refine ⟨left', ?_, meets, recalls, Nat.le_trans shorter' shorter⟩
    change (look'.run cursor' >>= fun (value, middle) => (next' value).run middle) = _
    rw [looked']
    exact ran'

/-- Something that is seen of the next token before a phrase that takes it. -/
theorem Carries.look {ε ζ : Type} {look : Cursor → ε} {look' : Cursor → ζ} (seen : ε → ζ)
    {next : ε → Reading α} {next' : ζ → Reading β}
    (looks : ∀ {cursor cursor'}, placement.Meets cursor cursor' → cursor.rest ≠ [] →
      look' cursor' = seen (look cursor))
    (later : ∀ value, Carries placement false change (next value) (next' (seen value))) :
    Carries placement false change ((do return look (← get)) >>= next)
      ((do return look' (← get)) >>= next') := by
  refine .peek seen (fun {cursor cursor' value left} meets some ran => ?_)
    (fun ended ran => ?_) later
  · cases ran
    refine ⟨cursor', ?_, meets, Nat.le_refl _⟩
    rw [← looks meets some]
    rfl
  · cases ran
    exact ended

/-- The place where something starts carries over as the place that it is put to. -/
theorem Carries.span {next : Span → Reading α} {next' : Span → Reading β}
    (later : ∀ start, Carries placement false change (next start)
      (next' (placement.place start))) :
    Carries placement false change (span >>= next) (span >>= next') := by
  refine .look placement.place (fun {cursor cursor'} meets some => ?_) later
  obtain ⟨token, rest, ahead⟩ := List.exists_cons_of_ne_nil some
  rw [Cursor.span, Cursor.span, meets, ahead]
  rfl

theorem Carries.atEnd {next : Bool → Reading α} {next' : Bool → Reading β}
    (later : ∀ ended, Carries placement false change (next ended) (next' ended)) :
    Carries placement false change (atEnd >>= next) (atEnd >>= next') := by
  refine .look id (fun {cursor cursor'} meets some => ?_) later
  obtain ⟨token, rest, ahead⟩ := List.exists_cons_of_ne_nil some
  rw [meets, ahead]
  rfl

theorem Carries.sees {mark : Punctuator} {next : Bool → Reading α} {next' : Bool → Reading β}
    (later : ∀ seen, Carries placement false change (next seen) (next' seen)) :
    Carries placement false change (sees mark >>= next) (sees mark >>= next') :=
  .look id (fun meets _ => meets.sees mark) later

/-! ### A token that decides -/

/-- What one reading makes of a text that has a token ahead, the other makes of it in the longer
text. -/
def CarriesAhead (placement : Placement) (change : α → β) (reading : Reading α)
    (other : Reading β) : Prop :=
  ∀ cursor cursor' value left, placement.Meets cursor cursor' → cursor.rest ≠ [] →
    reading.run cursor = .ok (value, left) →
      ∃ left', other.run cursor' = .ok (change value, left') ∧ placement.Meets left left' ∧
        placement.Recalls left left' ∧ left.rest.length + 1 ≤ cursor.rest.length

theorem Carries.ahead {reading : Reading α} {other : Reading β}
    (carries : Carries placement false change reading other) :
    CarriesAhead placement change reading other :=
  fun _ _ _ _ meets _ ran => carries _ _ _ _ meets nofun ran

theorem Carries.advance {next : Reading α} {next' : Reading β}
    (later : Carries placement true change next next') :
    CarriesAhead placement change (advance >>= fun _ => next) (advance >>= fun _ => next') := by
  intro cursor cursor' value left meets some ran
  obtain ⟨token, rest, ahead⟩ := List.exists_cons_of_ne_nil some
  obtain ⟨meets', recalls⟩ := meets.next ahead
  obtain ⟨left', ran', meets, recalls, shorter⟩ := later _ _ _ _ meets' (fun _ => recalls) ran
  refine ⟨left', ran', meets, recalls, ?_⟩
  rw [← Cursor.length_next ahead]
  exact Nat.succ_le_succ shorter

/-- The kind of the next token decides what is read. -/
theorem Carries.kind {next : Option TokenKind → Reading α} {next' : Option TokenKind → Reading β}
    (later : ∀ kind, CarriesAhead placement change (next (some kind)) (next' (some kind)))
    (ends : Fails (next none)) :
    Carries placement false change (kind? >>= next) (kind? >>= next') := by
  intro cursor cursor' value left meets _ ran
  replace ran : (next cursor.kind?).run cursor = .ok (value, left) := ran
  cases ahead : cursor.rest with
  | nil =>
    rw [Cursor.kind?, ahead] at ran
    exact absurd ran (ends _ _ _)
  | cons token rest =>
    have isNext : cursor.kind? = some token.kind := by rw [Cursor.kind?, ahead]; rfl
    change ∃ left', (next' cursor'.kind?).run cursor' = _ ∧ _
    rw [isNext] at ran
    rw [meets.kind? ahead, isNext, ← ahead]
    exact later token.kind _ _ _ _ meets (by rw [ahead]; exact List.cons_ne_nil _ _) ran

/-! ### Loops -/

section

variable {item : Reading α} {other : Reading β}

/-- One round of reading items up to a closing mark. -/
theorem run_manyUntil (close : Punctuator) (item : Reading α) (rounds : Nat) (cursor : Cursor) :
    (manyUntil close item (rounds + 1)).run cursor =
      if cursor.sees close then .ok ([], cursor.next)
      else (item >>= fun first => manyUntil close item rounds >>= fun others =>
        pure (first :: others)).run cursor := by
  change ((if cursor.sees close = true then _ else _ : Reading Bool).run cursor >>= _) = _
  split <;> rfl

/-- One round of reading items after marks. -/
theorem run_manyWhile (mark : Punctuator) (item : Reading α) (rounds : Nat) (cursor : Cursor) :
    (manyWhile mark item (rounds + 1)).run cursor =
      if cursor.sees mark then
        (item >>= fun first => manyWhile mark item rounds >>= fun others =>
          pure (first :: others)).run cursor
      else .ok ([], cursor) := by
  change (if cursor.sees mark = true then _ else _ : Reading (List α)).run cursor = _
  split <;> rfl

/-- One round of reading items up to the end. -/
theorem run_manyToEnd (item : Reading α) (rounds : Nat) (cursor : Cursor) :
    (manyToEnd item (rounds + 1)).run cursor =
      if cursor.rest.isEmpty then .ok ([], cursor)
      else item.run cursor >>= fun (first, middle) =>
        (manyToEnd item rounds).run middle >>= fun (others, left) =>
          .ok (first :: others, left) := by
  change (if cursor.rest.isEmpty = true then _ else _ : Reading (List α)).run cursor = _
  split <;> rfl

variable (each : Carries placement false change item other)
include each

/-- With nothing ahead there is no item. -/
theorem Carries.ne_nil {cursor left : Cursor} {value : α}
    (ran : item.run cursor = .ok (value, left)) : cursor.rest ≠ [] := by
  intro ended
  obtain ⟨_, _, _, _, shorter⟩ := each cursor
    ⟨cursor.rest.map (·.placed placement.place) ++ placement.more, .zero, .zero⟩ _ _ rfl nofun ran
  rw [ended] at shorter
  exact Nat.not_succ_le_zero _ shorter

/-- An item and then the other rounds of a loop. -/
theorem Carries.round {loop : Reading (List α)} {loop' : Reading (List β)}
    {cursor cursor' left : Cursor} {values : List α} (meets : placement.Meets cursor cursor')
    (later : ∀ {middle middle' others left}, placement.Meets middle middle' →
      placement.Recalls middle middle' → middle.rest.length + 1 ≤ cursor.rest.length →
        loop.run middle = .ok (others, left) →
          ∃ left', loop'.run middle' = .ok (others.map change, left') ∧
            placement.Meets left left' ∧ placement.Recalls left left' ∧
              left.rest.length ≤ middle.rest.length)
    (ran : (item >>= fun first => loop >>= fun others => pure (first :: others)).run cursor =
      .ok (values, left)) :
    ∃ left', (other >>= fun first => loop' >>= fun others => pure (first :: others)).run cursor' =
        .ok (values.map change, left') ∧
      placement.Meets left left' ∧ placement.Recalls left left' ∧
        left.rest.length + 1 ≤ cursor.rest.length := by
  obtain ⟨⟨first, middle⟩, read, ran⟩ := Except.of_bind_eq_ok ran
  obtain ⟨⟨others, _⟩, readOthers, ran⟩ := Except.of_bind_eq_ok ran
  cases ran
  obtain ⟨middle', read', meets, recalls, shorter⟩ := each _ _ _ _ meets nofun read
  obtain ⟨left', readOthers', meets, recalls, fewer⟩ := later meets recalls shorter readOthers
  refine ⟨left', ?_, meets, recalls, Nat.le_trans (Nat.succ_le_succ fewer) shorter⟩
  change (other.run cursor' >>= fun (first, middle) => loop'.run middle >>= fun (others, left) =>
    .ok (first :: others, left)) = _
  rw [read', Except.ok_bind]
  dsimp only
  rw [readOthers']
  rfl

/-- Items up to a closing mark. There is a round for every token that is left, in the longer text as
well. -/
theorem carries_manyUntil (close : Punctuator) (rounds : Nat) :
    ∀ {rounds' : Nat} {cursor cursor' left : Cursor} {values : List α},
      placement.Meets cursor cursor' → cursor.rest.length ≤ rounds → rounds ≤ rounds' →
        (manyUntil close item rounds).run cursor = .ok (values, left) →
          ∃ left', (manyUntil close other rounds').run cursor' = .ok (values.map change, left') ∧
            placement.Meets left left' ∧ placement.Recalls left left' ∧
              left.rest.length + 1 ≤ cursor.rest.length := by
  induction rounds with
  | zero =>
    intro rounds' cursor cursor' left values _ few _ ran
    obtain ⟨_, last, ending⟩ := cursor
    obtain rfl := List.length_eq_zero_iff.mp (Nat.le_zero.mp few)
    obtain ⟨⟨first, middle⟩, read, _⟩ := Except.of_bind_eq_ok ran
    exact absurd rfl (each.ne_nil read)
  | succ rounds ih =>
    intro rounds' cursor cursor' left values meets few enough ran
    obtain ⟨rounds', rfl⟩ := Nat.exists_eq_add_of_le' (Nat.le_of_add_left_le enough)
    rw [run_manyUntil] at ran ⊢
    rw [meets.sees]
    split at ran
    · rename_i seen
      obtain ⟨token, rest, ahead, _⟩ := Cursor.exists_ahead (beq_iff_eq.mp seen)
      obtain ⟨meets', recalls⟩ := meets.next ahead
      rw [if_pos seen]
      cases ran
      exact ⟨_, rfl, meets', recalls, Nat.le_of_eq (Cursor.length_next ahead)⟩
    · rename_i unseen
      rw [if_neg unseen]
      refine each.round meets (fun meets _ shorter read => ?_) ran
      obtain ⟨left', read', meets, recalls, fewer⟩ := ih meets
        (Nat.le_of_succ_le_succ (Nat.le_trans shorter few)) (Nat.le_of_succ_le_succ enough) read
      exact ⟨left', read', meets, recalls, Nat.le_of_lt fewer⟩

/-- Reading items up to a closing mark carries over if reading an item does. -/
theorem carries_itemsUntil (close : Punctuator) :
    Carries placement false (List.map change) (itemsUntil close item)
      (itemsUntil close other) := by
  intro cursor cursor' values left meets _ ran
  have enough : cursor.rest.length ≤ cursor'.rest.length := meets.length ▸ Nat.le_add_right _ _
  obtain ⟨left', ran', meets, recalls, shorter⟩ :=
    carries_manyUntil each close _ meets (Nat.le_refl _) enough ran
  exact ⟨left', ran', meets, recalls, shorter⟩

theorem carries_manyWhile (mark : Punctuator) (rounds : Nat) :
    ∀ {rounds' : Nat} {cursor cursor' left : Cursor} {values : List α},
      placement.Meets cursor cursor' → placement.Recalls cursor cursor' →
        cursor.rest.length ≤ rounds → rounds ≤ rounds' →
          (manyWhile mark item rounds).run cursor = .ok (values, left) →
            ∃ left', (manyWhile mark other rounds').run cursor' = .ok (values.map change, left') ∧
              placement.Meets left left' ∧ placement.Recalls left left' ∧
                left.rest.length ≤ cursor.rest.length := by
  induction rounds with
  | zero =>
    intro rounds' cursor cursor' left values meets recalls few _ ran
    have ended : cursor.rest = [] := List.length_eq_zero_iff.mp (Nat.le_zero.mp few)
    cases ran
    refine ⟨cursor', ?_, meets, recalls, Nat.le_refl _⟩
    cases rounds' with
    | zero => rfl
    | succ rounds' =>
      rw [run_manyWhile, meets.sees, Cursor.sees, Cursor.kind?, ended]
      rfl
  | succ rounds ih =>
    intro rounds' cursor cursor' left values meets recalls few enough ran
    obtain ⟨rounds', rfl⟩ := Nat.exists_eq_add_of_le' (Nat.le_of_add_left_le enough)
    rw [run_manyWhile] at ran ⊢
    rw [meets.sees]
    split at ran
    · rename_i seen
      rw [if_pos seen]
      obtain ⟨left', read', meets, recalls, fewer⟩ := each.round meets
        (fun meets recalls shorter => ih meets recalls
          (Nat.le_of_succ_le_succ (Nat.le_trans shorter few)) (Nat.le_of_succ_le_succ enough)) ran
      exact ⟨left', read', meets, recalls, Nat.le_of_lt fewer⟩
    · rename_i unseen
      rw [if_neg unseen]
      cases ran
      exact ⟨cursor', rfl, meets, recalls, Nat.le_refl _⟩

/-- Reading items after marks carries over if reading an item does. -/
theorem carries_itemsWhile (mark : Punctuator) :
    Carries placement true (List.map change) (itemsWhile mark item)
      (itemsWhile mark other) := by
  intro cursor cursor' values left meets recalls ran
  have enough : cursor.rest.length ≤ cursor'.rest.length := meets.length ▸ Nat.le_add_right _ _
  obtain ⟨left', ran', meets, recalls, shorter⟩ :=
    carries_manyWhile each mark _ meets (recalls rfl) (Nat.le_refl _) enough ran
  exact ⟨left', ran', meets, recalls, shorter⟩

end

end Reading

end TraversalQuery
