import TraversalQuery.Document.Grammar
import TraversalQuery.Proofs.Document.Reads

/-!
# Written documents are read back

The grammar accepts every document that can be written, and reads it as the same document up to the
places in it. Only nesting is bounded: a document in which something lies too deep is refused at the
first token where that is so.
-/

namespace TraversalQuery

namespace Literal

/-- Every value is written from a token of its own level on, which closes no list. -/
theorem written_eq_cons (level : Nat) (value : Literal) :
    ∃ kind others, value.written level = ⟨kind, level⟩ :: others ∧ kind ≠ .mark .rightBracket := by
  cases value
  all_goals exact ⟨_, _, rfl, by simp⟩

end Literal

namespace TypeRef

/-- Every type reference is written from a token of its own level on. -/
theorem written_eq_cons (level : Nat) (type : TypeRef) :
    ∃ kind others, type.written level = ⟨kind, level⟩ :: others := by
  induction type with
  | named name => exact ⟨_, _, rfl⟩
  | list item => exact ⟨_, _, rfl⟩
  | nonNull inner ih =>
    obtain ⟨kind, others, begins⟩ := ih
    exact ⟨kind, others ++ [.mark .bang], by rw [written, begins, List.cons_append]⟩

end TypeRef

namespace Grammar

open Reading

/-- The name of an enum value that can be written stands for no other value. -/
theorem wordLiteral_of_proper {isConstant : Bool} {name : String}
    (proper : (Literal.enumValue name).isProper isConstant = true) :
    wordLiteral name = .enumValue name := by
  have other : name ∉ ["true", "false", "null"] := of_decide_eq_true proper
  unfold wordLiteral
  split
  · exact absurd (by decide) other
  · exact absurd (by decide) other
  · exact absurd (by decide) other
  · rfl

theorem reads_listItem {inner : Reading Literal} {level : Nat} {item : Literal}
    (reads : inner.Reads (item.written level) (· = item) anything) :
    (listItem inner).Reads (item.written level) (id · = item) anything := by
  refine reads_beforeEnd.peek ?_ fun ahead _ => ?_
  · rintro _ rfl
    exact reads
  · obtain ⟨kind, others, begins, _⟩ := item.written_eq_cons level
    rw [begins]
    exact Option.some_ne_none _

theorem reads_objectField {inner : Reading Literal} {level : Nat} {field : String × Literal}
    (reads : inner.Reads (field.2.written level) (· = field.2) anything) :
    (objectField inner).Reads (.name field.1 :: .mark .colon :: field.2.written level)
      (id · = field) anything := by
  refine (reads_name field.1 (Nat.zero_le _)).token ?_
  rintro _ rfl
  refine (reads_expect .colon (Nat.zero_le _)).token fun _ _ => ?_
  refine reads.finish ?_
  rintro _ rfl
  exact .pure rfl

/-- A value that is written is read back. -/
theorem reads_literal {isConstant : Bool} {room : Nat} : ∀ {level : Nat} {value : Literal},
    level + room = maxNesting + 1 → value.isProper isConstant = true →
      (literal isConstant room).Reads (value.written level) (· = value) anything := by
  induction room with
  | zero =>
    intro level value deep _
    obtain ⟨kind, others, begins, _⟩ := value.written_eq_cons level
    rw [begins]
    exact reads_tooDeep (by omega) rfl
  | succ room ih =>
    intro level value within proper
    have fits : level ≤ maxNesting := by omega
    have inside : level + 1 + room = maxNesting + 1 := by omega
    unfold literal
    cases value with
    | reference name =>
      refine (reads_kind (.mark .dollar)).peek ?_ fun _ _ => rfl
      rintro _ rfl
      have admitted : ¬isConstant = true := by simpa [Literal.isProper] using proper
      dsimp only
      rw [if_neg admitted]
      refine (reads_advance fits).token fun _ _ => ?_
      refine (reads_name name (Nat.zero_le _)).finish ?_
      rintro _ rfl
      exact .pure rfl
    | int value =>
      refine (reads_kind (.int value)).peek ?_ fun _ _ => rfl
      rintro _ rfl
      exact (reads_advance fits).finish fun _ _ => .pure rfl
    | float value =>
      refine (reads_kind (.float value)).peek ?_ fun _ _ => rfl
      rintro _ rfl
      exact (reads_advance fits).finish fun _ _ => .pure rfl
    | string text =>
      refine (reads_kind (.string text)).peek ?_ fun _ _ => rfl
      rintro _ rfl
      exact (reads_advance fits).finish fun _ _ => .pure rfl
    | bool value =>
      refine (reads_kind (.name (if value then "true" else "false"))).peek ?_ fun _ _ => rfl
      rintro _ rfl
      exact (reads_advance fits).finish fun _ _ => .pure (by cases value <;> rfl)
    | null =>
      refine (reads_kind (.name "null")).peek ?_ fun _ _ => rfl
      rintro _ rfl
      exact (reads_advance fits).finish fun _ _ => .pure rfl
    | enumValue name =>
      refine (reads_kind (.name name)).peek ?_ fun _ _ => rfl
      rintro _ rfl
      exact (reads_advance fits).finish fun _ _ => .pure (wordLiteral_of_proper proper)
    | list items =>
      refine (reads_kind (.mark .leftBracket)).peek ?_ fun _ _ => rfl
      rintro _ rfl
      refine (reads_advance fits).token fun _ _ => ?_
      have each := fun item member =>
        reads_listItem (ih inside (Literal.areProper_iff.mp proper item member))
      rw [Literal.writtenItems_eq]
      refine (reads_itemsUntil each (fun item _ => ?_) trivial).finish fun values makes => .pure ?_
      · obtain ⟨kind, others, begins, other⟩ := item.written_eq_cons (level + 1)
        exact ⟨_, others, begins, other, trivial⟩
      · simpa using makes
    | object fields =>
      refine (reads_kind (.mark .leftBrace)).peek ?_ fun _ _ => rfl
      rintro _ rfl
      refine (reads_advance fits).token fun _ _ => ?_
      have each := fun field member =>
        reads_objectField (ih inside (Literal.areProperFields_iff.mp proper field member))
      rw [Literal.writtenFields_eq]
      refine (reads_itemsUntil each (fun field _ => ?_) trivial).finish fun values makes => .pure ?_
      · exact ⟨_, _, rfl, nofun, trivial⟩
      · simpa using makes

/-- A named type or a list type with what stands after it. -/
theorem reads_typeRef_core {room level : Nat} (core : TypeRef) {result : TypeRef} {tail : Spelling}
    {follow : Option TokenKind → Prop} (within : level ≤ maxNesting)
    (inside : ∀ {item : TypeRef}, core = .list item →
      (typeRef room).Reads (item.written (level + 1)) (· = item) (noneOf [.bang]))
    (nullable : core.isNonNull = false)
    (after : (do
      if ← accept .bang then return TypeRef.nonNull core
      return core : Reading TypeRef).Reads tail (· = result) follow) :
    (typeRef (room + 1)).Reads (core.written level ++ tail) (· = result) follow := by
  unfold typeRef
  cases core with
  | named name =>
    refine (reads_refuse .leftBracket).peek ?_ fun ahead _ => ?_
    · rintro _ rfl
      refine ((reads_name name within).map TypeRef.named).token ?_
      rintro _ ⟨_, rfl, rfl⟩
      exact after
    · exact List.forall_mem_singleton.mpr nofun
  | list item =>
    rw [TypeRef.written, List.cons_append, List.append_assoc]
    refine (reads_accept .leftBracket within).token ?_
    rintro _ rfl
    refine (inside rfl).bind ?_ fun _ _ => List.forall_mem_singleton.mpr nofun
    rintro _ rfl
    exact (reads_expect .rightBracket (Nat.zero_le _)).token fun _ _ => after
  | nonNull => contradiction

theorem reads_no_bang (core : TypeRef) : (do
    if ← accept .bang then return TypeRef.nonNull core
    return core : Reading TypeRef).Reads [] (· = core) (noneOf [.bang]) := by
  refine (reads_refuse .bang).peek ?_ fun _ => id
  rintro _ rfl
  exact .pure rfl

theorem reads_bang (core : TypeRef) : (do
    if ← accept .bang then return TypeRef.nonNull core
    return core : Reading TypeRef).Reads [.mark .bang] (· = .nonNull core) (noneOf [.bang]) := by
  refine (reads_accept .bang (Nat.zero_le _)).token ?_
  rintro _ rfl
  exact .pure rfl

/-- A type reference that is written is read back. -/
theorem reads_typeRef {room : Nat} : ∀ {level : Nat} {type : TypeRef},
    level + room = maxNesting + 1 → type.isProper = true →
      (typeRef room).Reads (type.written level) (· = type) (noneOf [.bang]) := by
  induction room with
  | zero =>
    intro level type deep _
    obtain ⟨kind, others, begins⟩ := type.written_eq_cons level
    rw [begins]
    exact reads_tooDeep (by omega) rfl
  | succ room ih =>
    intro level type within proper
    have fits : level ≤ maxNesting := by omega
    have inside : level + 1 + room = maxNesting + 1 := by omega
    cases type with
    | named name =>
      rw [← List.append_nil (TypeRef.written level _)]
      refine reads_typeRef_core (.named name) fits (fun same => ?_) rfl (reads_no_bang _)
      contradiction
    | list item =>
      rw [← List.append_nil (TypeRef.written level _)]
      refine reads_typeRef_core (.list item) fits ?_ rfl (reads_no_bang _)
      rintro _ same
      obtain rfl := TypeRef.list.inj same
      exact ih inside proper
    | nonNull core =>
      obtain ⟨nullable, proper⟩ := (Bool.and_eq_true _ _).mp proper
      refine reads_typeRef_core core fits ?_ (by simpa using nullable) (reads_bang core)
      rintro item rfl
      exact ih inside proper

section Directives

variable {isConstant : Bool} {room level : Nat} (within : level + room = maxNesting + 1)
include within

theorem reads_argument {given : Argument} (proper : given.value.isProper isConstant = true) :
    (argument isConstant room).Reads (given.written level) (Argument.bare · = given.bare)
      anything := by
  refine reads_span.peek (fun start _ => ?_) fun _ _ => trivial
  refine (reads_name given.name (Nat.zero_le _)).token ?_
  rintro _ rfl
  refine (reads_expect .colon (Nat.zero_le _)).token fun _ _ => ?_
  refine (reads_literal within proper).finish ?_
  rintro _ rfl
  exact (reads_spanFrom start).peek (fun _ _ => .pure rfl) fun _ _ => trivial

/-- Arguments that are written are read back. -/
theorem reads_arguments {given : List Argument}
    (proper : ∀ argument ∈ given, argument.value.isProper isConstant = true) :
    (arguments isConstant room).Reads (Spelling.listed (·.written level) given)
      (fun read => read.map Argument.bare = given.map Argument.bare) (noneOf [.leftParen]) :=
  reads_listed (fun _ member => reads_argument within (proper _ member))
    (fun _ _ => ⟨_, _, rfl, nofun, trivial⟩) trivial

theorem reads_directive {given : Directive} (proper : given.isProper isConstant = true) :
    (directive isConstant room).Reads (given.written level) (Directive.bare · = given.bare)
      (noneOf [.leftParen]) := by
  refine (reads_expect .atSign (Nat.zero_le _)).token fun start _ => ?_
  refine (reads_name given.name (Nat.zero_le _)).token ?_
  rintro _ rfl
  refine (reads_arguments within (List.all_eq_true.mp proper)).finish fun arguments same => ?_
  refine (reads_spanFrom start).peek (fun _ _ => .pure ?_) fun _ _ => trivial
  rw [Directive.bare, Directive.bare, same]

/-- Directives that are written are read back. -/
theorem reads_directives {given : List Directive}
    (proper : given.all (·.isProper isConstant) = true) :
    (directives isConstant room).Reads (given.flatMap (·.written level))
      (fun read => read.map Directive.bare = given.map Directive.bare)
      (noneOf [.atSign, .leftParen]) := by
  have each := fun part member => reads_directive within (List.all_eq_true.mp proper part member)
  exact reads_itemsWhile each (fun part _ => ⟨_, rfl⟩) (noneOf_mark (by decide))
    fun ahead follows => ⟨follows.mono (by decide), follows.mono (by decide)⟩

omit within in
theorem noneOf_directives {given : List Directive} {marks : List Punctuator}
    {ahead : Option TokenKind} (none : noneOf marks ahead) (other : .atSign ∉ marks) :
    noneOf marks (Spelling.lead (given.flatMap (·.written level)) ahead) := by
  cases given with
  | nil => exact none
  | cons => exact noneOf_mark other

end Directives

section Selections

variable {inner : Reading Braced} {room level : Nat} {selections : List Selection}
  (within : level + room = maxNesting + 1)
  (inside : selections ≠ [] → inner.Reads (Selection.writtenSet level selections)
    (fun braced => Selection.bareAll braced.1 = Selection.bareAll selections) anything)

include within inside

omit within inside in
theorem noneOf_inside {marks : List Punctuator} {ahead : Option TokenKind} {braced : Spelling}
    (none : noneOf marks ahead) (other : .leftBrace ∉ marks) :
    noneOf marks (Spelling.lead (if selections.isEmpty then [] else Spelling.braced level braced)
      ahead) := by
  cases selections with
  | nil => exact none
  | cons => exact noneOf_mark other

/-- A selected field after its name. -/
theorem reads_field_rest {selected : Field} {braces? : Option Span} (start : Span)
    (proper : (Selection.field selected selections braces?).isProper = true) :
    (do
      let arguments ← arguments false room
      let directives ← directives false room
      let (selections, braces?) ←
        if ← sees .leftBrace then
          let (selections, braces) ← inner
          pure (selections, some braces)
        else pure ([], none)
      return .field ⟨selected.alias?, selected.name, arguments, directives, ← spanFrom start⟩
        selections braces?
      : Reading Selection).Reads
      (Spelling.listed (·.written level) selected.arguments ++
        (selected.directives.flatMap (·.written level) ++
          if selections.isEmpty then []
          else Spelling.braced level (Selection.writtenAll (level + 1) selections)))
      (Selection.bare · = (Selection.field selected selections braces?).bare)
      (noneOf [.leftParen, .atSign, .leftBrace]) := by
  obtain ⟨⟨proper, bracing⟩, _⟩ : (selected.isProper = true ∧
      (braces?.isSome == !selections.isEmpty) = true) ∧ _ := by
    simpa only [Selection.isProper, Bool.and_eq_true] using proper
  obtain ⟨properArguments, properDirectives⟩ := (Bool.and_eq_true _ _).mp proper
  refine (reads_arguments within (List.all_eq_true.mp properArguments)).bind
    (fun arguments sameArguments => ?_) fun ahead follows => ?_
  · refine (reads_directives within properDirectives).bind (fun directives sameDirectives => ?_)
      fun ahead follows => noneOf_inside (follows.mono (by decide)) (by decide)
    cases selections with
    | nil =>
      obtain rfl : braces? = none := by simpa using bracing
      refine (reads_misses .leftBrace).peek ?_ fun ahead follows => follows.mono (by decide)
      rintro _ rfl
      simp only [Bool.false_eq_true, if_false, pure_bind]
      refine (reads_spanFrom start).peek (fun _ _ => .pure ?_) fun _ _ => trivial
      simp only [Selection.bare, Field.bare, sameArguments, sameDirectives, Selection.bareAll,
        Option.map_none]
    | cons first others =>
      obtain ⟨braces, rfl⟩ : ∃ braces, braces? = some braces :=
        Option.isSome_iff_exists.mp (by simpa using bracing)
      refine (reads_sees .leftBrace).peek ?_ fun _ _ => rfl
      rintro _ rfl
      refine (inside (List.cons_ne_nil _ _)).always.finish fun taken same => ?_
      obtain ⟨found, braces⟩ := taken
      simp only [pure_bind]
      refine (reads_spanFrom start).peek (fun _ _ => .pure ?_) fun _ _ => trivial
      simp only [Selection.bare, Field.bare, sameArguments, sameDirectives, same]
      rfl
  · rw [Spelling.lead_append]
    refine noneOf_directives ?_ (by decide)
    exact noneOf_inside (follows.mono (by decide)) (by decide)

/-- A field that is written is read back. -/
theorem reads_field {selected : Field} {braces? : Option Span}
    (proper : (Selection.field selected selections braces?).isProper = true) :
    (field inner room).Reads ((Selection.field selected selections braces?).written level)
      (Selection.bare · = (Selection.field selected selections braces?).bare)
      (noneOf [.colon, .leftParen, .atSign, .leftBrace]) := by
  refine reads_span.peek (fun start _ => ?_) fun _ _ => trivial
  obtain ⟨key?, name, given, directives, place⟩ := selected
  have rest := reads_field_rest within inside start proper
  cases key? with
  | none =>
    simp only [Selection.written, Field.written, Option.toList_none, List.flatMap_nil,
      List.nil_append, List.cons_append, List.append_assoc]
    refine (reads_name name (Nat.zero_le _)).token ?_
    rintro _ rfl
    refine (reads_refuse .colon).peek ?_ fun ahead follows => ?_
    · rintro _ rfl
      simp only [Bool.false_eq_true, if_false, pure_bind]
      exact rest.mono (fun _ => id) fun _ follows => follows.mono (by decide)
    · rw [Spelling.lead_append, Spelling.lead_append]
      refine noneOf_listed (noneOf_directives ?_ (by decide)) (by decide)
      exact noneOf_inside (follows.mono (by decide)) (by decide)
  | some key =>
    simp only [Selection.written, Field.written, Option.toList_some, List.flatMap_cons,
      List.flatMap_nil, List.nil_append, List.cons_append, List.append_assoc]
    refine (reads_name key (Nat.zero_le _)).token ?_
    rintro _ rfl
    refine (reads_accept .colon (Nat.zero_le _)).token ?_
    rintro _ rfl
    refine (reads_name name (Nat.zero_le _)).token ?_
    rintro _ rfl
    simp only [pure_bind]
    exact rest.mono (fun _ => id) fun _ follows => follows.mono (by decide)

omit inside in
/-- A spread that is written is read back. -/
theorem reads_spread {name : String} {given : List Directive} {span : Span}
    (proper : (Selection.spread name given span).isProper = true) :
    (fragmentSelection inner room).Reads ((Selection.spread name given span).written level)
      (Selection.bare · = (Selection.spread name given span).bare)
      (noneOf [.leftParen, .atSign]) := by
  obtain ⟨other, proper⟩ := (Bool.and_eq_true _ _).mp proper
  refine (reads_expect .spread (Nat.zero_le _)).token fun start _ => ?_
  refine (reads_kind (.name name)).peek ?_ fun _ _ => rfl
  rintro _ rfl
  have named : name ≠ "on" := by simpa using other
  simp only [if_neg named]
  refine (reads_advance (Nat.zero_le _)).token fun _ _ => ?_
  refine ((reads_directives within proper).mono (fun _ => id) fun _ follows =>
    follows.mono (by decide)).finish fun directives same => ?_
  refine (reads_spanFrom start).peek (fun _ _ => .pure ?_) fun _ _ => trivial
  simp only [Selection.bare, same]

omit within inside in
theorem reads_no_condition : inlineCondition.Reads [] (· = none) noName := by
  refine (reads_missesWord "on").peek ?_ fun _ follows => follows "on"
  rintro _ rfl
  exact .pure rfl

omit within inside in
theorem reads_condition (condition : String) :
    inlineCondition.Reads [.name "on", .name condition] (· = some condition) anything := by
  refine (reads_seesWord "on").peek ?_ fun _ _ => rfl
  rintro _ rfl
  refine (reads_advance (Nat.zero_le _)).token fun _ _ => ?_
  refine (reads_name condition (Nat.zero_le _)).finish ?_
  rintro _ rfl
  exact .pure rfl

omit inside in
/-- An inline fragment after its type condition. -/
theorem reads_inline_rest (condition? : Option String) {given : List Directive}
    (braces span : Span) (inside : inner.Reads (Selection.writtenSet level selections)
      (fun braced => Selection.bareAll braced.1 = Selection.bareAll selections) anything)
    (proper : given.all (·.isProper false) = true) (start : Span) : (do
      let directives ← directives false room
      let (selections, braces) ← inner
      return .inline condition? directives selections braces (← spanFrom start) :
        Reading Selection).Reads
      (given.flatMap (·.written level) ++ Selection.writtenSet level selections)
      (Selection.bare · = (Selection.inline condition? given selections braces span).bare)
      anything := by
  refine (reads_directives within proper).bind (fun directives same => ?_)
    fun _ _ => noneOf_mark (by decide)
  refine inside.finish fun ⟨found, place⟩ same' => ?_
  refine (reads_spanFrom start).peek (fun _ _ => .pure ?_) fun _ _ => trivial
  simp only [Selection.bare, same, same']

/-- An inline fragment that is written is read back. -/
theorem reads_inline {condition? : Option String} {given : List Directive} {braces span : Span}
    (proper : (Selection.inline condition? given selections braces span).isProper = true) :
    (fragmentSelection inner room).Reads
      ((Selection.inline condition? given selections braces span).written level)
      (Selection.bare · = (Selection.inline condition? given selections braces span).bare)
      anything := by
  obtain ⟨⟨properDirectives, filled⟩, _⟩ : (given.all (·.isProper false) = true ∧
      (!selections.isEmpty) = true) ∧ _ := by
    simpa only [Selection.isProper, Bool.and_eq_true] using proper
  have filled : selections ≠ [] := by simpa using filled
  have rest := reads_inline_rest within condition? braces span (inside filled) properDirectives
  have set : Selection.written level (.inline condition? given selections braces span) =
      .mark .spread ::
        ((condition?.toList.flatMap fun condition => [.name "on", .name condition]) ++
        (given.flatMap (·.written level) ++ Selection.writtenSet level selections)) := by
    rfl
  rw [set]
  refine (reads_expect .spread (Nat.zero_le _)).token fun start _ => ?_
  cases condition? with
  | none =>
    have unnamed : ∀ ahead, noName (Spelling.lead
        (given.flatMap (·.written level) ++ Selection.writtenSet level selections) ahead) := by
      intro ahead text
      cases given <;> exact nofun
    refine (reads_kind? noName).peek (fun found other => ?_) fun ahead _ => unnamed ahead
    extract_lets named?
    have spreads : named? = none := by
      dsimp only [named?]
      split
      · exact absurd rfl (other _)
      · rfl
    rw [spreads]
    refine reads_no_condition.peek ?_ fun ahead _ => unnamed ahead
    rintro _ rfl
    exact rest start
  | some condition =>
    refine (reads_kind (.name "on")).peek ?_ fun _ _ => rfl
    rintro _ rfl
    refine (reads_condition condition).bind ?_ fun _ _ => trivial
    rintro _ rfl
    exact rest start

end Selections

/-- Every selection is written from a name or the mark of a spread on. -/
theorem written_selection_eq_cons (level : Nat) (chosen : Selection) :
    ∃ glyph others, chosen.written level = glyph :: others ∧
      (glyph.kind = .mark .spread ∨ ∃ text, glyph.kind = .name text) := by
  cases chosen with
  | field selected selections braces? =>
    obtain ⟨key?, name, given, directives, place⟩ := selected
    cases key? with
    | none => exact ⟨_, _, rfl, .inr ⟨_, rfl⟩⟩
    | some key => exact ⟨_, _, rfl, .inr ⟨_, rfl⟩⟩
  | spread => exact ⟨_, _, rfl, .inl rfl⟩
  | inline => exact ⟨_, _, rfl, .inl rfl⟩

/-- A selection, given how the selection set inside it is read. -/
theorem reads_selection {inner : Reading Braced} {room level : Nat} {chosen : Selection}
    (within : level + room = maxNesting + 1) (proper : chosen.isProper = true)
    (inside : ∀ {selections : List Selection}, Selection.isProperSet selections = true →
      inner.Reads (Selection.writtenSet level selections)
        (fun braced => Selection.bareAll braced.1 = Selection.bareAll selections) anything) :
    (selection inner room).Reads (chosen.written level) (Selection.bare · = chosen.bare)
      (noneOf [.colon, .leftParen, .atSign, .leftBrace]) := by
  obtain ⟨glyph, others, begins, _⟩ := written_selection_eq_cons level chosen
  refine reads_beforeEnd.peek ?_ fun _ _ => by rw [begins]; exact Option.some_ne_none _
  rintro _ rfl
  cases chosen with
  | field selected selections braces? =>
    obtain ⟨⟨_, _⟩, properInside⟩ : (_ ∧ _) ∧ Selection.areProper selections = true := by
      simpa only [Selection.isProper, Bool.and_eq_true] using proper
    have filled (some : selections ≠ []) : Selection.isProperSet selections = true := by
      simpa [Selection.isProperSet, some] using properInside
    refine (reads_misses .spread).peek ?_ fun ahead _ => ?_
    · rintro _ rfl
      exact reads_field within (fun some => inside (filled some)) proper
    · obtain ⟨_ | _, _⟩ := selected <;> exact noneOf_name _ _
  | spread name given span =>
    refine (reads_sees .spread).peek ?_ fun _ _ => rfl
    rintro _ rfl
    exact (reads_spread within proper).mono (fun _ => id) fun _ follows => follows.mono (by decide)
  | inline condition? given selections braces span =>
    obtain ⟨⟨_, some⟩, properInside⟩ : (_ ∧ (!selections.isEmpty) = true) ∧
        Selection.areProper selections = true := by
      simpa only [Selection.isProper, Bool.and_eq_true] using proper
    refine (reads_sees .spread).peek ?_ fun _ _ => rfl
    rintro _ rfl
    exact (reads_inline within
      (fun _ => inside ((Bool.and_eq_true _ _).mpr ⟨some, properInside⟩)) proper).always

/-- A selection set that is written is read back. -/
theorem reads_selectionSet {room : Nat} : ∀ {level : Nat} {selections : List Selection},
    level + room = maxNesting + 1 → Selection.isProperSet selections = true →
      (selectionSet room).Reads (Selection.writtenSet level selections)
        (fun braced => Selection.bareAll braced.1 = Selection.bareAll selections) anything := by
  induction room with
  | zero => exact fun deep _ => reads_tooDeep (by omega) rfl
  | succ room ih =>
    intro level selections within proper
    obtain ⟨filled, proper⟩ := (Bool.and_eq_true _ _).mp proper
    have inside : level + 1 + room = maxNesting + 1 := by omega
    refine (reads_expect .leftBrace (by omega)).token fun start _ => ?_
    rw [Selection.writtenAll_eq]
    have each : ∀ chosen ∈ selections, (selection (selectionSet room) room).Reads
        (chosen.written (level + 1)) (Selection.bare · = chosen.bare)
        (noneOf [.colon, .leftParen, .atSign, .leftBrace]) := fun chosen member =>
      reads_selection inside (Selection.areProper_iff.mp proper chosen member) (ih inside)
    refine (reads_itemsUntil each (fun chosen _ => ?_) (noneOf_mark (by decide))).finish
      fun found same => ?_
    · obtain ⟨glyph, others, begins, spread | ⟨text, named⟩⟩ :=
        written_selection_eq_cons (level + 1) chosen
      · refine ⟨glyph, others, begins, ?_⟩
        rw [spread]
        exact ⟨nofun, noneOf_mark (by decide)⟩
      · refine ⟨glyph, others, begins, ?_⟩
        rw [named]
        exact ⟨nofun, noneOf_name _ _⟩
    · refine (reads_spanFrom start).peek (fun braces _ => ?_) fun _ _ => trivial
      have some : ¬found.isEmpty = true := by
        rintro none
        rw [List.isEmpty_iff.mp none] at same
        simp_all
      rw [if_neg some]
      exact .pure (by rw [Selection.bareAll_eq, Selection.bareAll_eq, same])

end Grammar

end TraversalQuery
