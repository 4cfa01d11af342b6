import TraversalQuery.Proofs.Document.Carrying

/-!
# Loops over tokens

What readings take from the tokens ahead, and loops over items. A loop has a round for every token
that is left. As long as an item takes a token whenever it does not fail, that is no bound: the loop
is the same as one that goes on until it is told to stop.
-/

namespace TraversalQuery

namespace Reading

variable {α β : Type} {least : Nat}

/-- Where a reading succeeds, it has taken at least so many tokens from the front of those ahead and
left the others as they are. -/
def Consumes (least : Nat) (reading : Reading α) : Prop :=
  ∀ cursor value after, reading.run cursor = .ok (value, after) →
    ∃ taken, cursor.rest = taken ++ after.rest ∧ least ≤ taken.length

/-- The reading gives no tokens back. -/
abbrev Forward (reading : Reading α) : Prop :=
  reading.Consumes 0

/-- The reading takes a token if it does not fail. -/
abbrev Advances (reading : Reading α) : Prop :=
  reading.Consumes 1

/-- A sequence consumes what its parts do. -/
theorem Consumes.bind {most : Nat} {reading : Reading α} {next : α → Reading β}
    (first : reading.Consumes least) (second : ∀ value, (next value).Consumes most) :
    (reading >>= next).Consumes (least + most) := by
  intro cursor result final ran
  obtain ⟨⟨value, after⟩, read, ran⟩ := Except.of_bind_eq_ok ran
  obtain ⟨taken, ahead, many⟩ := first _ _ _ read
  obtain ⟨others, ahead', more⟩ := second _ _ _ _ ran
  refine ⟨taken ++ others, ?_, ?_⟩
  · rw [ahead, ahead', List.append_assoc]
  · rw [List.length_append]
    exact Nat.add_le_add many more

/-- What consumes tokens moves forward. -/
theorem Consumes.forward {reading : Reading α} (consumes : reading.Consumes least) :
    reading.Forward := by
  intro cursor value after ran
  obtain ⟨taken, ahead, _⟩ := consumes cursor value after ran
  exact ⟨taken, ahead, Nat.zero_le _⟩

/-- A reading that gives nothing back, before one that takes tokens. -/
theorem Forward.then {reading : Reading α} {next : α → Reading β} (first : reading.Forward)
    (second : ∀ value, (next value).Consumes least) : (reading >>= next).Consumes least := by
  have both := Consumes.bind first second
  rwa [Nat.zero_add] at both

/-- A reading that takes tokens, before one that gives nothing back. -/
theorem Consumes.then {reading : Reading α} {next : α → Reading β}
    (first : reading.Consumes least) (second : ∀ value, (next value).Forward) :
    (reading >>= next).Consumes least :=
  Consumes.bind first second

theorem forward_pure (value : α) : (pure value : Reading α).Forward := by
  intro cursor _ _ ran
  cases ran
  exact ⟨[], rfl, Nat.zero_le _⟩

/-- A reading that only looks at the cursor. -/
theorem forward_look (look : Cursor → α) : Forward (do return look (← get)) := by
  intro cursor _ _ ran
  cases ran
  exact ⟨[], rfl, Nat.zero_le _⟩

/-- What fails may be said to consume anything. -/
theorem Fails.consumes {reading : Reading α} (fails : Fails reading) : reading.Consumes least :=
  fun cursor value after ran => absurd ran (fails cursor value after)

/-- The tokens are those of the cursor before and after the next one is taken. -/
theorem next_of_rest {cursor : Cursor} {token : Token} {rest : List Token}
    (ahead : cursor.rest = token :: rest) : cursor.rest = [token] ++ cursor.next.rest := by
  rw [Cursor.next, ahead]
  rfl

theorem forward_advance : advance.Forward := by
  intro cursor _ _ ran
  cases ran
  obtain ⟨_ | ⟨token, rest⟩, last, ending⟩ := cursor
  · exact ⟨[], rfl, Nat.zero_le _⟩
  · exact ⟨[token], rfl, Nat.zero_le _⟩

/-- Taking the next token, when it is known that there is one. -/
theorem consumes_next {next : Reading α} {cursor after : Cursor} {value : α} {kind : TokenKind}
    (seen : cursor.kind? = some kind) (later : next.Forward)
    (ran : (advance >>= fun _ => next).run cursor = .ok (value, after)) :
    ∃ taken, cursor.rest = taken ++ after.rest ∧ 1 ≤ taken.length := by
  obtain ⟨token, rest, ahead, _⟩ := Cursor.exists_ahead seen
  obtain ⟨taken, ahead', _⟩ := later cursor.next value after ran
  refine ⟨token :: taken, ?_, by simp⟩
  rw [next_of_rest ahead, ahead']
  rfl

/-- A token of some kind that is taken, or nothing. -/
theorem forward_accept (mark : Punctuator) : (accept mark).Forward := by
  refine (forward_look _).then fun seen => ?_
  split
  · exact forward_advance.then fun _ => forward_pure _
  · exact forward_pure _

/-- What is read when the next token is of the kind that is asked for. -/
theorem advances_expected {look : Cursor → Bool} {expected : Expected}
    (shows : ∀ cursor, look cursor = true → ∃ kind, cursor.kind? = some kind) :
    Advances (do
      if ← (do return look (← get)) then
        let place ← span
        advance
        return place
      else unexpected expected) := by
  intro cursor value after ran
  change (if look cursor = true then _ else _ : Reading Span).run cursor = _ at ran
  split at ran
  · rename_i seen
    obtain ⟨kind, next⟩ := shows cursor seen
    exact consumes_next next (forward_pure cursor.span) ran
  · exact absurd ran (fails_unexpected _ _ _ _)

/-- A mark that is expected takes a token. -/
theorem advances_expect (mark : Punctuator) : (expect mark).Advances :=
  advances_expected fun _ seen => ⟨_, beq_iff_eq.mp seen⟩

theorem advances_expectWord (word : String) : (expectWord word).Advances :=
  advances_expected fun _ seen => ⟨_, beq_iff_eq.mp seen⟩

/-- The kind of the next token decides what is read of it. -/
theorem advances_kind {next : Option TokenKind → Reading α} (ends : Fails (next none))
    (later : ∀ kind, Fails (next (some kind)) ∨
      ∃ more : Reading α, more.Forward ∧ next (some kind) = advance >>= fun _ => more) :
    Advances (kind? >>= next) := by
  intro cursor value after ran
  replace ran : (next cursor.kind?).run cursor = .ok (value, after) := ran
  cases seen : cursor.kind? with
  | none =>
    rw [seen] at ran
    exact absurd ran (ends _ _ _)
  | some kind =>
    rw [seen] at ran
    rcases later kind with fails | ⟨more, forward, same⟩
    · exact absurd ran (fails _ _ _)
    · rw [same] at ran
      exact consumes_next seen forward ran

/-- A name takes a token. -/
theorem advances_name : name.Advances := by
  refine advances_kind (fails_unexpected _) fun kind => ?_
  cases kind with
  | name text => exact .inr ⟨pure text, forward_pure _, rfl⟩
  | _ => exact .inl (fails_unexpected _)

/-! ### Loops -/

/-- One round of a loop, given how to go on. -/
def round (stop : Reading Bool) (item : Reading α) (loop : Reading (List α)) :
    Reading (List α) := do
  if ← stop then return []
  let first ← item
  let others ← loop
  return first :: others

/-- A reading of items one after another until it is told to stop, with no bound on the rounds. Each
item takes a token if it does not fail, and what stands between the items is not given back. -/
structure Loops (stop : Reading Bool) (item : Reading α) (loop : Reading (List α)) : Prop where
  advances : item.Advances
  unrolls : loop = round stop item loop
  forward : loop.Forward

/-- A loop over the items up to a closing mark. -/
abbrev LoopsUntil (close : Punctuator) (item : Reading α) : Prop :=
  Loops (accept close) item (itemsUntil close item)

/-- A loop over the items that begin with a mark. -/
abbrev LoopsWhile (mark : Punctuator) (item : Reading α) : Prop :=
  Loops ((!·) <$> sees mark) item (itemsWhile mark item)

/-- What one round of a loop comes to. -/
theorem run_round (stop : Reading Bool) (item : Reading α) (loop : Reading (List α))
    (cursor : Cursor) : (round stop item loop).run cursor =
      stop.run cursor >>= fun (stops, between) =>
        if stops then .ok ([], between)
        else item.run between >>= fun (first, after) =>
          loop.run after >>= fun (others, final) => .ok (first :: others, final) := by
  change (stop.run cursor >>= fun (stops, between) => _) = _
  rcases stop.run cursor with _ | ⟨_ | _, between⟩ <;> rfl

section

variable {stop : Reading Bool} {item : Reading α} {rounds : Nat → Reading (List α)}
  (looks : stop.Forward) (advances : item.Advances)

include looks advances in
/-- A round after which two ways to go on agree where fewer tokens are left. -/
theorem run_round_congr {loop other : Reading (List α)} {cursor : Cursor}
    (agree : ∀ after : Cursor, after.rest.length < cursor.rest.length →
      loop.run after = other.run after) :
    (round stop item loop).run cursor = (round stop item other).run cursor := by
  rw [run_round, run_round]
  rcases stopped : stop.run cursor with _ | ⟨_ | _, between⟩
  · rfl
  · rw [Except.ok_bind, Except.ok_bind]
    dsimp only
    rw [if_neg Bool.false_ne_true, if_neg Bool.false_ne_true]
    rcases read : item.run between with _ | ⟨first, after⟩
    · rfl
    · obtain ⟨skipped, ahead, _⟩ := looks _ _ _ stopped
      obtain ⟨taken, ahead', some⟩ := advances _ _ _ read
      have fewer : after.rest.length < cursor.rest.length := by
        rw [ahead, ahead', List.length_append, List.length_append]
        omega
      rw [Except.ok_bind, Except.ok_bind, agree after fewer]
  · rfl

include looks advances in
/-- A round moves forward if its loop does. -/
theorem forward_round {loop : Reading (List α)} (forward : loop.Forward) :
    (round stop item loop).Forward := by
  refine looks.then fun stops => ?_
  split
  · exact forward_pure _
  · exact advances.forward.then fun _ => forward.then fun _ => forward_pure _

variable (unrolls : ∀ count, rounds (count + 1) = round stop item (rounds count))
  (ends : ∀ cursor : Cursor, cursor.rest = [] → (rounds 0).run cursor = (rounds 1).run cursor)
include looks advances unrolls ends

/-- As many rounds as there are tokens are enough: one more makes no difference. -/
theorem run_rounds_succ (count : Nat) : ∀ cursor : Cursor, cursor.rest.length ≤ count →
    (rounds count).run cursor = (rounds (count + 1)).run cursor := by
  induction count with
  | zero => exact fun cursor few => ends cursor (List.length_eq_zero_iff.mp (Nat.le_zero.mp few))
  | succ count ih =>
    intro cursor few
    rw [unrolls, unrolls (count + 1)]
    exact run_round_congr looks advances fun after fewer => ih after (by omega)

/-- More rounds than there are tokens make no difference. -/
theorem run_rounds_of_le {count : Nat} {cursor : Cursor} (enough : cursor.rest.length ≤ count) :
    (rounds count).run cursor = (rounds cursor.rest.length).run cursor := by
  induction count, enough using Nat.le_induction with
  | base => rfl
  | succ count enough ih =>
    rw [← run_rounds_succ looks advances unrolls ends count cursor enough, ih]

/-- A loop with a round for every token that is left is one without a bound. -/
theorem loops_of_rounds (last : (rounds 0).Forward) :
    Loops stop item (do rounds (← get).rest.length) := by
  have forward (count : Nat) : (rounds count).Forward := by
    induction count with
    | zero => exact last
    | succ count ih =>
      rw [unrolls]
      exact forward_round looks advances ih
  refine ⟨advances, funext fun cursor => ?_, (forward_look _).then fun cursor => forward _⟩
  change (rounds cursor.rest.length).run cursor =
    (round stop item (do rounds (← get).rest.length)).run cursor
  rw [run_rounds_succ looks advances unrolls ends _ cursor (Nat.le_refl _), unrolls]
  refine run_round_congr looks advances fun after fewer => ?_
  exact run_rounds_of_le looks advances unrolls ends (Nat.le_of_lt fewer)

end

section

variable {item : Reading α} (advances : item.Advances)
include advances

/-- No item is read at the end. -/
theorem run_of_rest_eq_nil {cursor : Cursor} (ended : cursor.rest = []) :
    ∃ error, item.run cursor = .error error := by
  rcases read : item.run cursor with error | ⟨value, after⟩
  · exact ⟨error, rfl⟩
  · obtain ⟨taken, ahead, some⟩ := advances _ _ _ read
    rw [ended] at ahead
    rw [(List.append_eq_nil_iff.mp ahead.symm).1] at some
    exact absurd some (Nat.not_succ_le_zero _)

/-- Reading items up to a closing mark is a loop that ends. -/
theorem loops_itemsUntil (close : Punctuator) : LoopsUntil close item := by
  refine loops_of_rounds (forward_accept close) advances (fun count => rfl)
    (fun cursor ended => ?_) ?_
  · obtain ⟨error, fails⟩ := run_of_rest_eq_nil advances ended
    obtain ⟨_, last, ending⟩ := cursor
    obtain rfl := ended
    rw [run_manyUntil]
    change item.run _ >>= _ = item.run _ >>= _
    rw [fails, Except.error_bind, Except.error_bind]
  · refine (forward_accept close).then fun closed => ?_
    split
    · exact forward_pure _
    · exact advances.forward.then fun _ => forward_pure _

/-- Reading items after marks is a loop that ends. -/
theorem loops_itemsWhile (mark : Punctuator) : LoopsWhile mark item := by
  refine loops_of_rounds ?_ advances (fun count => ?_) (fun cursor ended => ?_) (forward_pure _)
  · rw [map_eq_pure_bind]
    exact (forward_look _).then fun _ => forward_pure _
  · rw [round, map_eq_pure_bind, bind_assoc]
    refine bind_congr fun seen => ?_
    cases seen <;> rfl
  · obtain ⟨_, last, ending⟩ := cursor
    obtain rfl := ended
    rfl

/-- Reading items up to the end is a loop that ends. -/
theorem loops_itemsToEnd : Loops atEnd item (itemsToEnd item) := by
  refine loops_of_rounds (forward_look _) advances (fun count => rfl) (fun cursor ended => ?_)
    (forward_pure _)
  obtain ⟨_, last, ending⟩ := cursor
  obtain rfl := ended
  rfl

/-- Items are read to the end when there is a round for every token. -/
theorem rest_of_manyToEnd (count : Nat) : ∀ {cursor after : Cursor} {values : List α},
    cursor.rest.length ≤ count → (manyToEnd item count).run cursor = .ok (values, after) →
      after.rest = [] := by
  induction count with
  | zero =>
    intro cursor after values few ran
    cases ran
    exact List.length_eq_zero_iff.mp (Nat.le_zero.mp few)
  | succ count ih =>
    intro cursor after values few ran
    rw [run_manyToEnd] at ran
    split at ran
    · rename_i ended
      cases ran
      exact List.isEmpty_iff.mp ended
    · obtain ⟨⟨first, middle⟩, read, ran⟩ := Except.of_bind_eq_ok ran
      obtain ⟨⟨others, final⟩, readOthers, ran⟩ := Except.of_bind_eq_ok ran
      cases ran
      obtain ⟨taken, ahead, some⟩ := advances _ _ _ read
      rw [ahead, List.length_append] at few
      exact ih (by omega) readOthers

end

end Reading

end TraversalQuery
