import TraversalQuery.Proofs.Document.Pieces
import TraversalQuery.Proofs.Runs

/-!
# Levels of nesting

Values, type references and selection sets are read with a number of levels they may still open. A
phrase that finds none left is refused before anything of it is read, and apart from such refusals
the number makes no difference: what is read with few levels is read the same with more of them.
-/

namespace TraversalQuery

namespace Reading

variable {α β : Type}

/-- One reading does what another does, or gives up because something nests too deep. -/
def ShortOf (reading deeper : Reading α) : Prop :=
  ∀ cursor, reading.run cursor = deeper.run cursor ∨
    ∃ place, reading.run cursor = .error ⟨.nestsTooDeep, place⟩

theorem ShortOf.refl (reading : Reading α) : reading.ShortOf reading :=
  fun _ => .inl rfl

/-- A sequence is short of another one if its parts are. -/
theorem ShortOf.bind {reading deeper : Reading α} {next deeper' : α → Reading β}
    (first : reading.ShortOf deeper) (second : ∀ value, (next value).ShortOf (deeper' value)) :
    (reading >>= next).ShortOf (deeper >>= deeper') := by
  intro cursor
  change (reading.run cursor >>= fun (value, after) => (next value).run after) =
      (deeper.run cursor >>= fun (value, after) => (deeper' value).run after) ∨
    ∃ place, (reading.run cursor >>= fun (value, after) => (next value).run after) = _
  rcases first cursor with same | ⟨place, refused⟩
  · rw [same]
    rcases deeper.run cursor with error | ⟨value, after⟩
    · exact .inl rfl
    · exact second value after
  · rw [refused]
    exact .inr ⟨place, rfl⟩

/-- A look at the tokens, or another reading that opens no levels, before what may. -/
theorem ShortOf.after {reading : Reading α} {next deeper : α → Reading β}
    (second : ∀ value, (next value).ShortOf (deeper value)) :
    (reading >>= next).ShortOf (reading >>= deeper) :=
  (refl reading).bind second

/-- What is made of the result afterwards opens no levels. -/
theorem ShortOf.then {reading deeper : Reading α} {next : α → Reading β}
    (first : reading.ShortOf deeper) : (reading >>= next).ShortOf (deeper >>= next) :=
  first.bind fun _ => .refl _

section

variable {item deeper : Reading α} (each : item.ShortOf deeper)
include each

/-- Items up to a closing mark are read alike where there is room for each. -/
theorem shortOf_itemsUntil (close : Punctuator) :
    (itemsUntil close item).ShortOf (itemsUntil close deeper) := by
  have rounds (count : Nat) :
      (manyUntil close item count).ShortOf (manyUntil close deeper count) := by
    induction count with
    | zero =>
      refine .after fun closed => ?_
      split
      · exact .refl _
      · exact each.then
    | succ count ih =>
      refine .after fun closed => ?_
      split
      · exact .refl _
      · exact each.bind fun _ => ih.then
  exact .after fun _ => rounds _

/-- Items after marks are read alike where there is room for each. -/
theorem shortOf_itemsWhile (mark : Punctuator) :
    (itemsWhile mark item).ShortOf (itemsWhile mark deeper) := by
  have rounds (count : Nat) :
      (manyWhile mark item count).ShortOf (manyWhile mark deeper count) := by
    induction count with
    | zero => exact .refl _
    | succ count ih =>
      refine .after fun seen => ?_
      split
      · exact each.bind fun _ => ih.then
      · exact .refl _
  exact .after fun _ => rounds _

end

end Reading

namespace Grammar

open Reading

variable {room room' : Nat}

/-- What nests too deep is short of anything. -/
theorem shortOf_tooDeep {α : Type} (deeper : Reading α) : (tooDeep : Reading α).ShortOf deeper :=
  fun cursor => .inr ⟨cursor.span, rfl⟩

theorem shortOf_listItem {value deeper : Reading Literal} (each : value.ShortOf deeper) :
    (listItem value).ShortOf (listItem deeper) := by
  refine .after fun ended => ?_
  split
  · exact .after fun _ => each
  · exact each

theorem shortOf_objectField {value deeper : Reading Literal} (each : value.ShortOf deeper) :
    (objectField value).ShortOf (objectField deeper) :=
  .after fun _ => .after fun _ => each.then

/-- A value is read alike with more room. -/
theorem shortOf_literal (isConstant : Bool) (fewer : room ≤ room') :
    (literal isConstant room).ShortOf (literal isConstant room') := by
  induction room generalizing room' with
  | zero => exact shortOf_tooDeep _
  | succ room ih =>
    obtain ⟨room', rfl⟩ := Nat.exists_eq_add_of_le' (Nat.le_of_add_left_le fewer)
    have inner := ih (Nat.le_of_succ_le_succ fewer)
    refine .after fun kind => ?_
    -- Only lists and objects have values inside them.
    split
    case h_7 => exact .after fun _ => (shortOf_itemsUntil (shortOf_listItem inner) _).then
    case h_8 => exact .after fun _ => (shortOf_itemsUntil (shortOf_objectField inner) _).then
    all_goals exact .refl _

/-- A type reference is read alike with more room. -/
theorem shortOf_typeRef (fewer : room ≤ room') : (typeRef room).ShortOf (typeRef room') := by
  induction room generalizing room' with
  | zero => exact shortOf_tooDeep _
  | succ room ih =>
    obtain ⟨room', rfl⟩ := Nat.exists_eq_add_of_le' (Nat.le_of_add_left_le fewer)
    have core : (nullableRef room).ShortOf (nullableRef room') := by
      refine .after fun opened => ?_
      split
      · exact (ih (Nat.le_of_succ_le_succ fewer)).then
      · exact .refl _
    rw [typeRef_eq, typeRef_eq]
    exact core.then

theorem shortOf_argument (isConstant : Bool) (fewer : room ≤ room') :
    (argument isConstant room).ShortOf (argument isConstant room') :=
  .after fun _ => .after fun _ => .after fun _ => (shortOf_literal isConstant fewer).then

theorem shortOf_arguments (isConstant : Bool) (fewer : room ≤ room') :
    (arguments isConstant room).ShortOf (arguments isConstant room') := by
  refine .after fun opened => ?_
  split
  · exact shortOf_itemsUntil (shortOf_argument isConstant fewer) _
  · exact .refl _

theorem shortOf_directives (isConstant : Bool) (fewer : room ≤ room') :
    (directives isConstant room).ShortOf (directives isConstant room') := by
  have each : (directive isConstant room).ShortOf (directive isConstant room') :=
    .after fun _ => .after fun _ => (shortOf_arguments isConstant fewer).then
  exact shortOf_itemsWhile each _

section

variable {set deeper : Reading Braced} (sets : set.ShortOf deeper) (fewer : room ≤ room')
include sets fewer

theorem shortOf_field : (field set room).ShortOf (field deeper room') := by
  have within : (selectedInside set).ShortOf (selectedInside deeper) := by
    refine .after fun braced => ?_
    split
    · exact sets.then
    · exact .refl _
  rw [field_eq, field_eq]
  exact .after fun _ => .after fun _ => (shortOf_arguments false fewer).bind fun _ =>
    (shortOf_directives false fewer).bind fun _ => within.then

theorem shortOf_fragmentSelection :
    (fragmentSelection set room).ShortOf (fragmentSelection deeper room') := by
  rw [fragmentSelection_eq, fragmentSelection_eq]
  refine .after fun start => .after fun named? => ?_
  cases named? with
  | some name => exact .after fun _ => (shortOf_directives false fewer).then
  | none => exact .after fun _ => (shortOf_directives false fewer).bind fun _ => sets.then

/-- A selection is read alike with more room inside it. -/
theorem shortOf_selection : (selection set room).ShortOf (selection deeper room') := by
  have either : ShortOf
      (sees .spread >>= fun spread => if spread then fragmentSelection set room else field set room)
      (sees .spread >>= fun spread =>
        if spread then fragmentSelection deeper room' else field deeper room') := by
    refine .after fun spread => ?_
    split
    · exact shortOf_fragmentSelection sets fewer
    · exact shortOf_field sets fewer
  refine .after fun ended => ?_
  split
  · exact .after fun _ => either
  · exact either

end

/-- A selection set is read alike with more room. -/
theorem shortOf_selectionSet (fewer : room ≤ room') :
    (selectionSet room).ShortOf (selectionSet room') := by
  induction room generalizing room' with
  | zero => exact shortOf_tooDeep _
  | succ room ih =>
    obtain ⟨room', rfl⟩ := Nat.exists_eq_add_of_le' (Nat.le_of_add_left_le fewer)
    have fewer' := Nat.le_of_succ_le_succ fewer
    exact .after fun _ => (shortOf_itemsUntil (shortOf_selection (ih fewer') fewer') _).then

end Grammar

end TraversalQuery
