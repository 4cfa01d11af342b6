import TraversalQuery.Proofs.Document.Placing
import TraversalQuery.Proofs.Document.Writing
import TraversalQuery.Proofs.Schema.Sources

/-!
# The definitions of joined texts

Two texts that define schemas are joined by a line break. The first token of the second text begins
a definition, and no definition goes on with such a token. So the joined text holds the definitions
of the first text and after them those of the second, which stand further on.
-/

namespace TraversalQuery

namespace Grammar

open Reading

variable {placement : Placement} {started : Bool} {α β γ : Type} {change : α → β}

/-! ### Definitions of schemas -/

/-- A reading that lets only the definitions of a schema through. -/
def schemaOnly (reading : Reading Definition) : Reading Definition := do
  let found ← reading
  if found.isExecutable then unexpected .definition else return found

/-- Reading definitions of schemas only is reading definitions and refusing the others. -/
theorem run_schemaOnly_eq_ok {reading : Reading Definition} {cursor left : Cursor}
    {found : Definition} :
    (schemaOnly reading).run cursor = .ok (found, left) ↔
      reading.run cursor = .ok (found, left) ∧ found.isExecutable = false := by
  change (reading.run cursor >>= fun (found, left) => (if found.isExecutable = true then
    unexpected .definition else pure found : Reading Definition).run left) = _ ↔ _
  constructor
  · intro ran
    obtain ⟨⟨other, middle⟩, read, ran⟩ := Except.of_bind_eq_ok ran
    dsimp only at ran
    split at ran
    · exact absurd ran (fails_unexpected _ _ _ _)
    · rename_i ofSchema
      cases ran
      exact ⟨read, Bool.eq_false_iff.mpr ofSchema⟩
  · rintro ⟨read, ofSchema⟩
    rw [read, Except.ok_bind]
    dsimp only
    rw [if_neg (Bool.eq_false_iff.mp ofSchema)]
    rfl

theorem schemaOnly_bind (first : Reading α) (next : α → Reading Definition) :
    schemaOnly (first >>= next) = first >>= fun value => schemaOnly (next value) :=
  bind_assoc _ _ _

/-- A definition that can be executed is none of a schema. -/
theorem fails_schemaOnly {reading : Reading α} {make : α → Definition}
    (executable : ∀ value, (make value).isExecutable = true) :
    Fails (schemaOnly (make <$> reading)) := by
  intro cursor found left ran
  obtain ⟨ran, ofSchema⟩ := run_schemaOnly_eq_ok.mp ran
  rw [map_eq_pure_bind] at ran
  obtain ⟨⟨value, _⟩, _, made⟩ := Except.of_bind_eq_ok ran
  cases made
  rw [executable] at ofSchema
  contradiction

theorem fails_schemaOnly_unexpected (expected : Expected) :
    Fails (schemaOnly (unexpected expected)) :=
  fun _ _ _ ran => fails_unexpected _ _ _ _ (run_schemaOnly_eq_ok.mp ran).1

/-- What carries over does so for definitions of schemas. -/
theorem carries_schemaOnly {change : Definition → β} {reading : Reading Definition}
    {other : Reading β} (carries : Carries placement started change reading other) :
    Carries placement started change (schemaOnly reading) other :=
  fun _ _ _ _ meets recalls ran => carries _ _ _ _ meets recalls (run_schemaOnly_eq_ok.mp ran).1

/-- The definitions of a kind, with their spans elsewhere. -/
theorem carries_kindOf {reading : Reading α} {other : Reading β} {make : α → Definition}
    {make' : β → Definition} (carries : Carries placement started change reading other)
    (commutes : ∀ value, (make value).placed placement.place = make' (change value)) :
    Carries placement started (·.placed placement.place) (schemaOnly (make <$> reading))
      (make' <$> other) :=
  carries_schemaOnly (carries.map commutes)

/-- Reading a definition of a schema from its keyword on carries over. -/
theorem carries_keywordDefinition (isDescribed : Bool) (start : Span) (keyword : String) :
    CarriesAhead placement (·.placed placement.place)
      (schemaOnly (keywordDefinition isDescribed start keyword))
      (keywordDefinition isDescribed (placement.place start) keyword) := by
  unfold keywordDefinition
  split
  · exact (fails_schemaOnly fun _ => rfl).carries.ahead
  · split
    · exact (fails_schemaOnly fun _ => rfl).carries.ahead
    · split
      · exact (carries_kindOf (carries_schemaDefinition _) fun _ => rfl).ahead
      · split
        · exact (carries_kindOf (carries_directiveDefinition _) fun _ => rfl).ahead
        · split
          · rw [schemaOnly_bind]
            exact (carries_kindOf (carries_typeDefinition _ _) fun _ => rfl).begun.advance
          · exact (carries_kindOf (carries_typeDefinition _ _) fun _ => rfl).ahead

/-- Reading a definition of a schema carries over. -/
theorem carries_definition :
    Carries placement false (·.placed placement.place) (schemaOnly definition) definition := by
  unfold definition
  rw [schemaOnly_bind]
  refine .sees fun braced => ?_
  cases braced with
  | true => exact (fails_schemaOnly fun _ => rfl).carries
  | false =>
    change Carries _ _ _ (schemaOnly (description >>= _)) _
    rw [schemaOnly_bind]
    refine carries_described fun isDescribed => ?_
    rw [schemaOnly_bind]
    refine .span fun start => ?_
    rw [schemaOnly_bind]
    refine .kind (fun kind => ?_) (fails_schemaOnly_unexpected _)
    cases kind with
    | name keyword => exact carries_keywordDefinition _ _ _
    | _ => exact (fails_schemaOnly_unexpected _).carries.ahead

/-! ### What a definition begins with -/

/-- Only the keywords of types begin what a type consists of. -/
theorem fails_typeContent {word : String} (foreign : ∀ content, word ≠ TypeContent.keyword content)
    (place : Span) : Fails (typeContent word place) := by
  unfold typeContent
  split
  · exact absurd rfl (foreign .scalar)
  · exact absurd rfl (foreign (.object [] []))
  · exact absurd rfl (foreign (.interface [] []))
  · exact absurd rfl (foreign (.enum []))
  · exact absurd rfl (foreign (.input []))
  · exact fails_fail _ _

/-- A word that is no keyword begins no definition. -/
theorem definition_ne_ok {word : String}
    (taken : ∀ start,
      keywordDefinition false start word = Definition.type <$> typeDefinition start false)
    (foreign : ∀ content, word ≠ TypeContent.keyword content) {place last ending : Span}
    {rest : List Token} {read : Definition × Cursor} :
    definition.run ⟨⟨.name word, place⟩ :: rest, last, ending⟩ ≠ .ok read := by
  intro ran
  change (keywordDefinition false place word).run _ = _ at ran
  rw [taken, map_eq_pure_bind] at ran
  obtain ⟨⟨type, left⟩, ran, _⟩ := Except.of_bind_eq_ok ran
  change (name >>= fun called => typeContent word place >>= fun held =>
    spanFrom place >>= fun whole => pure ⟨called, held.1, held.2, false, whole⟩ :
      Reading TypeDefinition).run ⟨rest, place, ending⟩ = _ at ran
  obtain ⟨_, _, ran⟩ := Except.of_bind_eq_ok ran
  obtain ⟨_, ran, _⟩ := Except.of_bind_eq_ok ran
  exact fails_typeContent foreign _ _ _ _ ran

/-- The first token of a definition of a schema ends what comes before it. -/
theorem opens_of_definition {cursor left : Cursor} {found : Definition} {token : Token}
    {rest : List Token} (ahead : cursor.rest = token :: rest)
    (ran : (schemaOnly definition).run cursor = .ok (found, left)) : token.kind.Opens := by
  obtain ⟨kind, place⟩ := token
  obtain ⟨_, last, ending⟩ := cursor
  obtain rfl := ahead
  have read := (run_schemaOnly_eq_ok.mp ran).1
  refine ⟨?_, ?_, ?_⟩
  · rintro mark rfl
    cases mark with
    | leftBrace => exact fails_schemaOnly (fun _ => rfl) _ _ _ ran
    | _ => exact fails_schemaOnly_unexpected _ _ _ _ ran
  · rintro rfl
    refine definition_ne_ok (fun start => ?_) (fun content => ?_) read
    · simp [keywordDefinition, OperationKind.ofKeyword?]
    · cases content <;> simp [TypeContent.keyword]
  · rintro rfl
    refine definition_ne_ok (fun start => ?_) (fun content => ?_) read
    · simp [keywordDefinition, OperationKind.ofKeyword?]
    · cases content <;> simp [TypeContent.keyword]

/-! ### One text after another -/

/-- In the longer text the definitions of the text come first. What comes after them is read from
where the text ends. -/
theorem run_manyToEnd_join (rounds : Nat) :
    ∀ {rounds' : Nat} {cursor cursor' left : Cursor} {found : List Definition},
      placement.Meets cursor cursor' → cursor.rest.length ≤ rounds →
        cursor'.rest.length ≤ rounds' → Definition.OfSchema found →
          (manyToEnd definition rounds).run cursor = .ok (found, left) →
            ∃ rounds'' middle, middle.rest = placement.more ∧ middle.rest.length ≤ rounds'' ∧
              (manyToEnd definition rounds').run cursor' =
                (manyToEnd definition rounds'').run middle >>= fun (others, left) =>
                  .ok (found.map (·.placed placement.place) ++ others, left) := by
  -- Each round of the shorter run is one of the longer run, which has more of them.
  induction rounds with
  | zero =>
    intro rounds' cursor cursor' left found meets few enough _ ran
    have ended : cursor.rest = [] := List.length_eq_zero_iff.mp (Nat.le_zero.mp few)
    cases ran
    refine ⟨rounds', cursor', by rw [meets, ended]; rfl, enough, ?_⟩
    exact (bind_pure _).symm
  | succ rounds ih =>
    intro rounds' cursor cursor' left found meets few enough ofSchema ran
    rw [run_manyToEnd] at ran
    split at ran
    · rename_i ended
      cases ran
      refine ⟨rounds', cursor', by rw [meets, List.isEmpty_iff.mp ended]; rfl, enough, ?_⟩
      exact (bind_pure _).symm
    · rename_i some
      obtain ⟨⟨first, middle⟩, read, ran⟩ := Except.of_bind_eq_ok ran
      obtain ⟨⟨others, _⟩, readOthers, ran⟩ := Except.of_bind_eq_ok ran
      cases ran
      obtain ⟨ofFirst, ofOthers⟩ := List.forall_mem_cons.mp ofSchema
      obtain ⟨middle', read', meets', _, shorter⟩ :=
        carries_definition _ _ _ _ meets nofun (run_schemaOnly_eq_ok.mpr ⟨read, ofFirst⟩)
      have length := meets.length
      have length' := meets'.length
      rw [Bool.not_false, Bool.toNat_true] at shorter
      obtain ⟨rounds', rfl⟩ : ∃ fewer, rounds' = fewer + 1 := ⟨rounds' - 1, by omega⟩
      have few' : middle.rest.length ≤ rounds := by omega
      have enough' : middle'.rest.length ≤ rounds' := by omega
      obtain ⟨rounds'', rest, more, enough', ran'⟩ := ih meets' few' enough' ofOthers readOthers
      refine ⟨rounds'', rest, more, enough', ?_⟩
      have some' : ¬cursor'.rest.isEmpty = true := by
        rw [List.isEmpty_iff_length_eq_zero]
        omega
      rw [run_manyToEnd, if_neg some', read', Except.ok_bind]
      dsimp only
      rw [ran', bind_assoc]
      rfl

end Grammar

namespace Document

open Grammar Reading

/-- A document is read from tokens exactly if they are some definitions up to the end. -/
theorem ofTokens_eq_ok_iff {tokens : List Token} {length : Nat} {document : Document} :
    ofTokens tokens length = .ok document ↔ document.definitions ≠ [] ∧
      ∃ left, (manyToEnd definition tokens.length).run (.start tokens length) =
        .ok (document.definitions, left) := by
  rw [ofTokens]
  constructor
  · intro read
    obtain ⟨⟨whole, left⟩, ran, same⟩ := Except.of_bind_eq_ok read
    obtain rfl : whole = document := Except.ok.inj same
    obtain ⟨⟨found, middle⟩, found', ran⟩ := Except.of_bind_eq_ok ran
    cases found with
    | nil => cases ran
    | cons first others =>
      cases ran
      exact ⟨List.cons_ne_nil _ _, left, found'⟩
  · rintro ⟨some, left, ran⟩
    obtain ⟨_ | ⟨first, others⟩⟩ := document
    · exact absurd rfl some
    · change ((manyToEnd definition tokens.length).run (.start tokens length) >>= _) >>= _ = _
      rw [ran]
      rfl

variable {tokens others : List Token} {length length' : Nat} {first second : Document}

/-- What is read as a schema begins as a definition of one. -/
theorem opens_of_ofTokens (read : ofTokens tokens length = .ok first)
    (ofSchema : Definition.OfSchema first.definitions) :
    ∀ token ∈ tokens.head?, token.kind.Opens := by
  obtain ⟨some, left, ran⟩ := ofTokens_eq_ok_iff.mp read
  cases tokens with
  | nil =>
    intro _ none
    contradiction
  | cons token rest =>
    rintro _ ⟨⟩
    rw [List.length_cons, run_manyToEnd] at ran
    obtain ⟨⟨found, middle⟩, read, ran⟩ := Except.of_bind_eq_ok ran
    obtain ⟨⟨more, _⟩, _, ran⟩ := Except.of_bind_eq_ok ran
    have whole : found :: more = first.definitions := congrArg Prod.fst (Except.ok.inj ran)
    rw [← whole] at ofSchema
    exact opens_of_definition rfl
      (run_schemaOnly_eq_ok.mpr ⟨read, ofSchema _ List.mem_cons_self⟩)

/-- The tokens of one text and after them those of another, which stand elsewhere. -/
theorem ofTokens_join {place : Span → Span}
    (merges : ∀ first second, place (first.merge second) = (place first).merge (place second))
    (read : ofTokens tokens length = .ok first)
    (ofSchema : Definition.OfSchema first.definitions)
    (read' : ofTokens others length' = .ok second)
    (ofSchema' : Definition.OfSchema second.definitions) (total : Nat) :
    ofTokens (tokens ++ others.map (·.placed place)) total =
      .ok ⟨first.definitions ++ second.definitions.map (·.placed place)⟩ := by
  have opens : ∀ token ∈ (others.map (·.placed place)).head?, token.kind.Opens := by
    rw [List.head?_map]
    rintro _ next
    obtain ⟨token, isFirst, rfl⟩ := Option.map_eq_some_iff.mp next
    exact opens_of_ofTokens read' ofSchema' token isFirst
  obtain ⟨some, left, ran⟩ := ofTokens_eq_ok_iff.mp read
  obtain ⟨_, left', ran'⟩ := ofTokens_eq_ok_iff.mp read'
  have meets : (Placement.followedBy _ opens).Meets (.start tokens length)
      (.start (tokens ++ others.map (·.placed place)) total) :=
    congrArg (· ++ _) (List.map_id _).symm
  obtain ⟨rounds, middle, rest, enough, joined⟩ :=
    run_manyToEnd_join _ meets (Nat.le_refl _) (Nat.le_refl _) ofSchema ran
  have meets' : (Placement.atEnd place merges).Meets (.start others length') middle :=
    rest.trans (List.append_nil _).symm
  obtain ⟨rounds', after, ended, _, joined'⟩ :=
    run_manyToEnd_join _ meets' (Nat.le_refl _) enough ofSchema' ran'
  have none : (manyToEnd definition rounds').run after = .ok ([], after) := by
    cases rounds' with
    | zero => rfl
    | succ => rw [run_manyToEnd, ended]; rfl
  refine ofTokens_eq_ok_iff.mpr ⟨List.append_ne_nil_of_left_ne_nil some _, after, ?_⟩
  refine joined.trans ?_
  rw [joined', none]
  simp [Placement.followedBy, Placement.atEnd]

/-- Two sources of schemas that are joined by a line break are read as the definitions of both. -/
theorem parse_join {first second : String} {document other : Document}
    (read : parse first = .ok document) (ofSchema : Definition.OfSchema document.definitions)
    (read' : parse second = .ok other) (ofSchema' : Definition.OfSchema other.definitions) :
    parse (first ++ "\n" ++ second) =
      .ok ⟨document.definitions ++
        other.definitions.map (·.placed (·.later (first.utf8ByteSize + 1)))⟩ := by
  obtain ⟨tokens, lexed, read⟩ := Except.of_bind_eq_ok read
  obtain ⟨others, lexed', read'⟩ := Except.of_bind_eq_ok read'
  rw [parse, Lexer.tokens_join lexed lexed', Except.ok_bind]
  exact ofTokens_join (Span.later_merge _) read ofSchema read' ofSchema' _

end Document

end TraversalQuery
