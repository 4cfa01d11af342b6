import TraversalQuery.Document.Cursor

/-!
# What readings yield

A reading takes tokens from the front and makes something of them. If all tokens ahead of it have a
property, then so do the tokens it leaves, and what it makes has the properties that its parts get
from them.
-/

namespace TraversalQuery

namespace Reading

variable {α β : Type} {fits : Token → Prop} {good : α → Prop} {fine : β → Prop}

/-- On tokens that all have a property, a reading makes something good and leaves such tokens. -/
def Yields (fits : Token → Prop) (good : α → Prop) (reading : Reading α) : Prop :=
  ∀ cursor : Cursor, (∀ token ∈ cursor.rest, fits token) →
    ∀ value after, reading.run cursor = .ok (value, after) →
      good value ∧ ∀ token ∈ after.rest, fits token

/-- A reading that leaves tokens with the property, whatever it makes of the others. -/
abbrev Keeps (fits : Token → Prop) (reading : Reading α) : Prop :=
  reading.Yields fits fun _ => True

theorem Yields.pure {value : α} (holds : good value) :
    Yields fits good (Pure.pure value) := by
  intro cursor ahead _ _ ran
  cases ran
  exact ⟨holds, ahead⟩

theorem keeps_pure (value : α) : Keeps fits (pure value) :=
  .pure trivial

theorem yields_pure (value : α) : Yields fits (· = value) (pure value) :=
  .pure rfl

/-- A sequence yields what its last part does, on what the others yield. -/
theorem Yields.bind {reading : Reading α} {next : α → Reading β}
    (first : reading.Yields fits good) (second : ∀ value, good value →
      (next value).Yields fits fine) : (reading >>= next).Yields fits fine := by
  intro cursor ahead result final ran
  change (reading.run cursor >>= fun (value, after) => (next value).run after) = _ at ran
  rcases read : reading.run cursor with _ | ⟨value, after⟩
  · rw [read] at ran
    contradiction
  · rw [read] at ran
    obtain ⟨holds, left⟩ := first cursor ahead value after read
    exact second value holds after left result final ran

/-- A reading after one whose result does not matter. -/
theorem Yields.after {reading : Reading α} {next : α → Reading β} (first : reading.Keeps fits)
    (second : ∀ value, (next value).Yields fits fine) : (reading >>= next).Yields fits fine :=
  first.bind fun value _ => second value

/-- What is made of an answer is as good as the answer allows. -/
theorem Yields.map {reading : Reading α} (change : α → β) (made : reading.Yields fits good)
    (better : ∀ value, good value → fine (change value)) :
    (change <$> reading).Yields fits fine := by
  rw [map_eq_pure_bind]
  exact made.bind fun value holds => .pure (better value holds)

/-- A reading yields all that follows from what it yields. -/
theorem Yields.imp {reading : Reading α} {better : α → Prop} (made : reading.Yields fits good)
    (implies : ∀ value, good value → better value) : reading.Yields fits better :=
  fun cursor ahead value after ran =>
    (made cursor ahead value after ran).imp (implies value) id

theorem Yields.keeps {reading : Reading α} (made : reading.Yields fits good) :
    reading.Keeps fits :=
  made.imp fun _ _ => trivial

/-- A reading that fails yields anything. -/
theorem yields_fail (fault : SyntaxFault) (span : Span) :
    (fail fault span : Reading α).Yields fits good := by
  intro cursor ahead value after ran
  contradiction

/-- Nothing is read after a fault. -/
theorem yields_fail_bind (fault : SyntaxFault) (place : Span) (next : PUnit → Reading α) :
    ((fail fault place : Reading PUnit) >>= next).Yields fits good := by
  have stops : (fail fault place : Reading PUnit).Yields fits fun _ => False := yields_fail _ _
  exact stops.bind fun _ never => never.elim

/-- A reading that only looks at the cursor. -/
theorem keeps_look (look : Cursor → α) : Keeps fits (do return look (← get)) := by
  intro cursor ahead value after ran
  cases ran
  exact ⟨trivial, ahead⟩

theorem keeps_kind? : kind?.Keeps fits := keeps_look _

theorem keeps_span : span.Keeps fits := keeps_look _

theorem keeps_spanFrom (start : Span) : (spanFrom start).Keeps fits := keeps_look _

theorem keeps_atEnd : atEnd.Keeps fits := keeps_look _

theorem keeps_sees (mark : Punctuator) : (sees mark).Keeps fits := keeps_look _

theorem keeps_seesWord (word : String) : (seesWord word).Keeps fits := keeps_look _

/-- The tokens ahead of the next place were ahead before. -/
theorem mem_of_mem_next {cursor : Cursor} {token : Token} (member : token ∈ cursor.next.rest) :
    token ∈ cursor.rest := by
  obtain ⟨rest, last, ending⟩ := cursor
  cases rest with
  | nil => exact member
  | cons head rest => exact List.mem_cons_of_mem _ member

/-- Moving on keeps tokens as they are. -/
theorem keeps_advance : advance.Keeps fits := by
  intro cursor ahead value after ran
  cases ran
  exact ⟨trivial, fun token member => ahead token (mem_of_mem_next member)⟩

theorem yields_unexpected (expected : Expected) :
    (unexpected expected : Reading α).Yields fits good :=
  .after keeps_kind? fun _ => .after keeps_span fun _ => yields_fail _ _

theorem keeps_accept (mark : Punctuator) : (accept mark).Keeps fits := by
  refine .after (keeps_sees mark) fun seen => ?_
  split
  · exact .after keeps_advance fun _ => keeps_pure _
  · exact keeps_pure _

theorem keeps_expect (mark : Punctuator) : (expect mark).Keeps fits := by
  refine .after (keeps_sees mark) fun seen => ?_
  split
  · exact .after keeps_span fun _ => .after keeps_advance fun _ => keeps_pure _
  · exact yields_unexpected _

theorem keeps_expectWord (word : String) : (expectWord word).Keeps fits := by
  refine .after (keeps_seesWord word) fun seen => ?_
  split
  · exact .after keeps_span fun _ => .after keeps_advance fun _ => keeps_pure _
  · exact yields_unexpected _

/-- A look at the next token: if its kind is found, the token has the property. -/
theorem yields_kind? (token : TokenKind → Prop) (kinds : ∀ found, fits found → token found.kind) :
    kind?.Yields fits fun found? => ∀ kind, found? = some kind → token kind := by
  intro cursor ahead value after ran
  cases ran
  refine ⟨fun kind found => ?_, ahead⟩
  obtain ⟨first, isFirst, rfl⟩ := Option.map_eq_some_iff.mp found
  exact kinds first (ahead first (List.mem_of_mem_head? isFirst))

/-- A reading that stops when something is wrong. -/
theorem Yields.unless {stop : Reading PUnit} {next : PUnit → Reading α} {wrong : Prop}
    [Decidable wrong] (stops : stop.Yields fits fun _ => False)
    (later : (next ⟨⟩).Yields fits good) :
    (if wrong then stop >>= next else next ⟨⟩).Yields fits good := by
  split
  · exact stops.bind fun _ never => never.elim
  · exact later

/-- A reading that stops with a fault at a place it looks up when something is wrong. -/
theorem Yields.unlessAt {look : Reading Span} {fault : SyntaxFault} {next : PUnit → Reading α}
    {wrong : Prop} [Decidable wrong] (glance : look.Keeps fits)
    (later : (next ⟨⟩).Yields fits good) :
    (if wrong then do next (← fail fault (← look)) else next ⟨⟩).Yields fits good := by
  split
  · exact .after glance fun place => yields_fail_bind _ _ _
  · exact later

section

variable {item : Reading α} (each : item.Yields fits good)
include each

theorem yields_manyUntil (close : Punctuator) (rounds : Nat) :
    (manyUntil close item rounds).Yields fits fun items => ∀ value ∈ items, good value := by
  induction rounds with
  | zero =>
    refine .after (keeps_accept close) fun closed => ?_
    split
    · exact .pure (List.forall_mem_nil _)
    · exact each.bind fun value holds => .pure (by simpa using holds)
  | succ rounds ih =>
    refine .after (keeps_accept close) fun closed => ?_
    split
    · exact .pure (List.forall_mem_nil _)
    · exact each.bind fun value holds => ih.bind fun others rest =>
        .pure (List.forall_mem_cons.mpr ⟨holds, rest⟩)

/-- Items up to a closing mark are as good as each item is. -/
theorem yields_itemsUntil (close : Punctuator) :
    (itemsUntil close item).Yields fits fun items => ∀ value ∈ items, good value :=
  .after (keeps_look id) fun _ => yields_manyUntil each close _

theorem yields_manyWhile (mark : Punctuator) (rounds : Nat) :
    (manyWhile mark item rounds).Yields fits fun items => ∀ value ∈ items, good value := by
  induction rounds with
  | zero => exact .pure (List.forall_mem_nil _)
  | succ rounds ih =>
    refine .after (keeps_sees mark) fun seen => ?_
    split
    · exact each.bind fun value holds => ih.bind fun others rest =>
        .pure (List.forall_mem_cons.mpr ⟨holds, rest⟩)
    · exact .pure (List.forall_mem_nil _)

/-- Items after marks are as good as each item is. -/
theorem yields_itemsWhile (mark : Punctuator) :
    (itemsWhile mark item).Yields fits fun items => ∀ value ∈ items, good value :=
  .after (keeps_look id) fun _ => yields_manyWhile each mark _

theorem yields_manyToEnd (rounds : Nat) :
    (manyToEnd item rounds).Yields fits fun items => ∀ value ∈ items, good value := by
  induction rounds with
  | zero => exact .pure (List.forall_mem_nil _)
  | succ rounds ih =>
    refine .after keeps_atEnd fun ended => ?_
    split
    · exact .pure (List.forall_mem_nil _)
    · exact each.bind fun value holds => ih.bind fun others rest =>
        .pure (List.forall_mem_cons.mpr ⟨holds, rest⟩)

/-- Items up to the end are as good as each item is. -/
theorem yields_itemsToEnd :
    (itemsToEnd item).Yields fits fun items => ∀ value ∈ items, good value :=
  .after (keeps_look id) fun _ => yields_manyToEnd each _

end

end Reading

end TraversalQuery
