import TraversalQuery.Proofs.Document.Phrases

/-!
# Written documents are read back

The grammar accepts every document that can be written, and reads it as the same document up to the
places in it. Only nesting is bounded: a document in which something lies too deep is refused at the
first token where that is so.
-/

namespace TraversalQuery

namespace Grammar

open Reading

/-- Phrases right below a definition have all levels left. -/
theorem top_level : 1 + maxNesting = maxNesting + 1 :=
  Nat.add_comm _ _

/-- A default that is written is read back. -/
theorem reads_defaultValue {default? : Option Literal}
    (proper : default?.all (·.isProper true) = true) :
    defaultValue.Reads (writtenDefault default?) (· = default?) (noneOf [.equals]) := by
  cases default? with
  | none =>
    refine (reads_refuse .equals).peek ?_ fun _ => id
    rintro _ rfl
    exact .pure rfl
  | some value =>
    rw [writtenDefault, Option.toList_some, List.flatMap_singleton]
    refine (reads_accept .equals (Nat.zero_le _)).token ?_
    rintro _ rfl
    refine (reads_literal top_level proper).always.finish ?_
    rintro _ rfl
    exact .pure rfl

theorem noneOf_default {default? : Option Literal} {marks : List Punctuator}
    {ahead : Option TokenKind} (none : noneOf marks ahead) (other : .equals ∉ marks) :
    noneOf marks (Spelling.lead (writtenDefault default?) ahead) := by
  cases default? with
  | none => exact none
  | some => exact noneOf_mark other

/-- No directives where none are written. -/
theorem reads_no_directives (isConstant : Bool) :
    (directives isConstant maxNesting).Reads [] (fun _ => True) (noneOf [.atSign, .leftParen]) := by
  have proper : ([] : List Directive).all (·.isProper isConstant) = true := rfl
  exact (reads_directives top_level proper).mono (fun _ _ => trivial) fun _ => id

theorem reads_variableDefinition {given : VariableDefinition} (proper : given.isProper = true) :
    variableDefinition.Reads given.written (VariableDefinition.bare · = given.bare)
      (noneOf [.bang, .equals, .atSign, .leftParen]) := by
  obtain ⟨properType, properDefault⟩ := (Bool.and_eq_true _ _).mp proper
  refine (reads_expect .dollar (Nat.zero_le _)).token fun start _ => ?_
  refine (reads_name given.name (Nat.zero_le _)).token ?_
  rintro _ rfl
  refine (reads_expect .colon (Nat.zero_le _)).token fun _ _ => ?_
  refine (reads_typeRef top_level properType).bind ?_ fun ahead follows =>
    noneOf_default (follows.mono (by decide)) (by decide)
  rintro _ rfl
  refine ((reads_defaultValue properDefault).mono (fun _ => id) fun _ follows =>
    follows.mono (by decide)).finish ?_
  rintro _ rfl
  refine (reads_no_directives true).peek (fun _ _ => ?_) fun _ follows => follows.mono (by decide)
  exact (reads_spanFrom start).peek (fun _ _ => .pure rfl) fun _ _ => trivial

/-- Variables that are written are read back. -/
theorem reads_variableDefinitions {given : List VariableDefinition}
    (proper : given.all (·.isProper) = true) :
    variableDefinitions.Reads (Spelling.listed VariableDefinition.written given)
      (fun read => read.map VariableDefinition.bare = given.map VariableDefinition.bare)
      (noneOf [.leftParen]) :=
  reads_listed
    (fun part member => reads_variableDefinition (List.all_eq_true.mp proper part member))
    (fun part _ => ⟨_, _, rfl, nofun, noneOf_mark (by decide)⟩) (noneOf_mark (by decide))

theorem reads_name? (given : Option String) :
    name?.Reads (given.toList.map .name) (· = given) noName := by
  cases given with
  | none =>
    refine (reads_kind? noName).peek (fun found other => ?_) fun _ => id
    split
    · exact absurd rfl (other _)
    · exact .pure rfl
  | some text =>
    refine (reads_kind (.name text)).peek ?_ fun _ _ => rfl
    rintro _ rfl
    exact (reads_advance (Nat.zero_le _)).finish fun _ _ => .pure rfl

/-- An operation that is written is read back. -/
theorem reads_operation {given : Operation} (proper : given.isProper = true) :
    (operation given.kind).Reads given.written (Operation.bare · = given.bare) anything := by
  obtain ⟨⟨properVariables, properDirectives⟩, properSet⟩ :
      (given.variableDefinitions.all (·.isProper) = true ∧
        given.directives.all (·.isProper false) = true) ∧
          Selection.isProperSet given.selections = true := by
    simpa only [Operation.isProper, Bool.and_eq_true] using proper
  refine reads_span.peek (fun start _ => ?_) fun _ _ => trivial
  refine (reads_advance (Nat.zero_le _)).token fun _ _ => ?_
  refine (reads_name? given.name?).bind ?_ fun ahead _ => ?_
  · rintro _ rfl
    refine (reads_variableDefinitions properVariables).bind (fun defined same => ?_)
      fun ahead _ => by
        rw [Spelling.lead_append]
        exact noneOf_directives (noneOf_mark (by decide)) (by decide)
    refine (reads_directives top_level properDirectives).bind (fun directives same' => ?_)
      fun ahead _ => noneOf_mark (by decide)
    refine (reads_selectionSet top_level properSet).finish fun ⟨selections, braces⟩ same'' => ?_
    refine (reads_spanFrom start).peek (fun _ _ => .pure ?_) fun _ _ => trivial
    simp only [Operation.bare, same, same', same'']
  · obtain ⟨_, _, defined, directives, _, _, _⟩ := given
    cases defined with
    | nil => cases directives <;> exact nofun
    | cons => exact nofun

/-- A fragment that is written is read back. -/
theorem reads_fragment {given : Fragment} (proper : given.isProper = true) :
    fragment.Reads given.written (Fragment.bare · = given.bare) anything := by
  obtain ⟨⟨other, properDirectives⟩, properSet⟩ : ((given.name != "on") = true ∧
      given.directives.all (·.isProper false) = true) ∧
        Selection.isProperSet given.selections = true := by
    simpa only [Fragment.isProper, Bool.and_eq_true] using proper
  refine (reads_expectWord "fragment").token fun start _ => ?_
  refine (reads_name given.name (Nat.zero_le _)).token ?_
  rintro _ rfl
  rw [if_neg (by simpa using other)]
  refine (reads_expectWord "on").token fun _ _ => ?_
  refine (reads_name given.condition (Nat.zero_le _)).token ?_
  rintro _ rfl
  refine (reads_directives top_level properDirectives).bind (fun directives same => ?_)
    fun ahead _ => noneOf_mark (by decide)
  refine (reads_selectionSet top_level properSet).finish fun ⟨selections, braces⟩ same' => ?_
  refine (reads_spanFrom start).peek (fun _ _ => .pure ?_) fun _ _ => trivial
  simp only [Fragment.bare, same, same']

theorem reads_rootType (kind : OperationKind) (name : String) :
    rootType.Reads [.name kind.keyword, .mark .colon, .name name] (id · = (kind, name))
      anything := by
  refine reads_span.peek (fun start _ => ?_) fun _ _ => trivial
  refine (reads_name kind.keyword (Nat.zero_le _)).token ?_
  rintro _ rfl
  have known : OperationKind.ofKeyword? kind.keyword = some kind := by cases kind <;> rfl
  rw [known]
  refine (reads_expect .colon (Nat.zero_le _)).token fun _ _ => ?_
  refine (reads_name name (Nat.zero_le _)).finish ?_
  rintro _ rfl
  exact .pure rfl

/-- A schema definition that is written is read back. -/
theorem reads_schemaDefinition (given : SchemaDefinition) (start : Span) :
    (schemaDefinition start).Reads given.written (SchemaDefinition.bare · = given.bare)
      anything := by
  refine (reads_expectWord "schema").token fun _ _ => ?_
  refine (reads_no_directives true).peek (fun _ _ => ?_) fun _ _ => noneOf_mark (by decide)
  refine (reads_expect .leftBrace (Nat.zero_le _)).token fun _ _ => ?_
  have each (root : OperationKind × String) (_ : root ∈ given.roots) :=
    reads_rootType root.1 root.2
  refine (reads_itemsUntil each (fun _ _ => ⟨_, _, rfl, nofun, trivial⟩) trivial).finish
    fun roots same => ?_
  refine (reads_spanFrom start).peek (fun _ _ => .pure ?_) fun _ _ => trivial
  simp_all [SchemaDefinition.bare]

/-- No description where none is written. -/
theorem reads_no_description (text : String) :
    description.Reads [] (· = false) (· = some (.name text)) := by
  refine (reads_kind (.name text)).peek ?_ fun _ => id
  rintro _ rfl
  exact .pure rfl

/-- An input definition that is written is read back. -/
theorem reads_inputDefinition {given : InputDefinition} (proper : given.isProper = true) :
    inputDefinition.Reads given.written (InputDefinition.bare · = given.bare)
      (noneOf [.bang, .equals, .atSign, .leftParen]) := by
  obtain ⟨⟨properType, properDefault⟩, properDirectives⟩ : (given.type.isProper = true ∧
      given.default?.all (·.isProper true) = true) ∧
        given.directives.all (·.isProper true) = true := by
    simpa only [InputDefinition.isProper, Bool.and_eq_true] using proper
  refine (reads_no_description _).peek (fun _ _ => ?_) fun _ _ => rfl
  refine reads_span.peek (fun start _ => ?_) fun _ _ => trivial
  refine (reads_name given.name (Nat.zero_le _)).token ?_
  rintro _ rfl
  refine (reads_expect .colon (Nat.zero_le _)).token fun _ _ => ?_
  refine (reads_typeRef top_level properType).bind ?_ fun ahead follows => ?_
  · rintro _ rfl
    refine (reads_defaultValue properDefault).bind ?_ fun ahead follows =>
      noneOf_directives (follows.mono (by decide)) (by decide)
    rintro _ rfl
    refine ((reads_directives top_level properDirectives).mono (fun _ => id) fun _ follows =>
      follows.mono (by decide)).finish fun directives same => ?_
    refine (reads_spanFrom start).peek (fun _ _ => .pure ?_) fun _ _ => trivial
    simp only [InputDefinition.bare, same]
  · rw [Spelling.lead_append]
    exact noneOf_default (noneOf_directives (follows.mono (by decide)) (by decide)) (by decide)

theorem reads_inputDefinitions {given : List InputDefinition}
    (proper : given.all (·.isProper) = true) :
    (inputDefinitions .leftParen .rightParen).Reads
      (Spelling.listed InputDefinition.written given)
      (fun read => read.map InputDefinition.bare = given.map InputDefinition.bare)
      (noneOf [.leftParen]) :=
  reads_listed
    (fun part member => reads_inputDefinition (List.all_eq_true.mp proper part member))
    (fun _ _ => ⟨_, _, rfl, nofun, noneOf_name _ _⟩) (noneOf_mark (by decide))

theorem reads_inputBody {given : List InputDefinition} (proper : given.all (·.isProper) = true) :
    (inputDefinitions .leftBrace .rightBrace).Reads
      (Spelling.braced 0 (given.flatMap InputDefinition.written))
      (fun read => read.map InputDefinition.bare = given.map InputDefinition.bare) anything :=
  reads_body
    (fun part member => reads_inputDefinition (List.all_eq_true.mp proper part member))
    (fun _ _ => ⟨_, _, rfl, nofun, noneOf_name _ _⟩) (noneOf_mark (by decide))

/-- A field definition that is written is read back. -/
theorem reads_fieldDefinition {given : FieldDefinition} (proper : given.isProper = true) :
    fieldDefinition.Reads given.written (FieldDefinition.bare · = given.bare)
      (noneOf [.bang, .atSign, .leftParen]) := by
  obtain ⟨⟨properArguments, properType⟩, properDirectives⟩ :
      (given.arguments.all (·.isProper) = true ∧ given.type.isProper = true) ∧
        given.directives.all (·.isProper true) = true := by
    simpa only [FieldDefinition.isProper, Bool.and_eq_true] using proper
  refine (reads_no_description _).peek (fun _ _ => ?_) fun _ _ => rfl
  refine reads_span.peek (fun start _ => ?_) fun _ _ => trivial
  refine (reads_name given.name (Nat.zero_le _)).token ?_
  rintro _ rfl
  refine (reads_inputDefinitions properArguments).bind (fun arguments same => ?_)
    fun _ _ => noneOf_mark (by decide)
  refine (reads_expect .colon (Nat.zero_le _)).token fun _ _ => ?_
  refine (reads_typeRef top_level properType).bind ?_ fun ahead follows =>
    noneOf_directives (follows.mono (by decide)) (by decide)
  rintro _ rfl
  refine ((reads_directives top_level properDirectives).mono (fun _ => id) fun _ follows =>
    follows.mono (by decide)).finish fun directives same' => ?_
  refine (reads_spanFrom start).peek (fun _ _ => .pure ?_) fun _ _ => trivial
  simp only [FieldDefinition.bare, same, same']

theorem reads_fieldBody {given : List FieldDefinition} (proper : given.all (·.isProper) = true) :
    fieldDefinitions.Reads (Spelling.braced 0 (given.flatMap FieldDefinition.written))
      (fun read => read.map FieldDefinition.bare = given.map FieldDefinition.bare) anything :=
  reads_body
    (fun part member => reads_fieldDefinition (List.all_eq_true.mp proper part member))
    (fun _ _ => ⟨_, _, rfl, nofun, noneOf_name _ _⟩) (noneOf_mark (by decide))

/-- Names with marks between them are read back. -/
theorem reads_separatedNames {separator : Punctuator} {names : List String} (some : names ≠ []) :
    (separatedNames separator).Reads (Spelling.separated separator names) (· = names)
      (noneOf [separator]) := by
  obtain ⟨first, others, rfl⟩ := List.exists_cons_of_ne_nil some
  refine (reads_refuse separator).peek ?_ fun _ _ => noneOf_name _ _
  rintro _ rfl
  refine (reads_name first (Nat.zero_le _)).token ?_
  rintro _ rfl
  have each : ∀ other ∈ others, (Grammar.separated separator).Reads [.mark separator, .name other]
      (id · = other) anything := by
    intro other _
    refine (reads_expect separator (Nat.zero_le _)).token fun _ _ => ?_
    exact reads_name other (Nat.zero_le _)
  refine (reads_itemsWhile each (fun _ _ => ⟨_, rfl⟩) trivial fun _ follows =>
    ⟨trivial, follows⟩).finish fun names same => .pure ?_
  simpa using same

/-- Interfaces that are written are read back. -/
theorem reads_implementedInterfaces (interfaces : List String) :
    implementedInterfaces.Reads (TypeContent.writtenInterfaces interfaces) (· = interfaces)
      (fun ahead => noName ahead ∧ noneOf [.amp] ahead) := by
  cases interfaces with
  | nil =>
    refine (reads_missesWord "implements").peek ?_ fun _ follows => follows.1 _
    rintro _ rfl
    exact .pure rfl
  | cons first others =>
    refine (reads_seesWord "implements").peek ?_ fun _ _ => rfl
    rintro _ rfl
    refine (reads_advance (Nat.zero_le _)).token fun _ _ => ?_
    exact (reads_separatedNames (List.cons_ne_nil _ _)).mono (fun _ => id) fun _ => And.right

theorem reads_enumValue {given : String} (proper : given ∉ ["true", "false", "null"]) :
    enumValue.Reads [.name given] (id · = given) (noneOf [.atSign, .leftParen]) := by
  refine (reads_no_description _).peek (fun _ _ => ?_) fun _ _ => rfl
  refine reads_span.peek (fun start _ => ?_) fun _ _ => trivial
  refine (reads_name given (Nat.zero_le _)).token ?_
  rintro _ rfl
  rw [if_neg (by simpa using proper)]
  exact (reads_no_directives true).peek (fun _ _ => .pure rfl) fun _ => id

/-- The values of an enum that are written are read back. -/
theorem reads_enumValues {given : List String}
    (proper : given.all (· ∉ ["true", "false", "null"]) = true) :
    enumValues.Reads (.braced 0 (given.map .name)) (· = given) anything := by
  have each := fun value member =>
    reads_enumValue (of_decide_eq_true (List.all_eq_true.mp proper value member))
  rw [List.map_eq_flatMap]
  refine (reads_body each (fun _ _ => ⟨_, _, rfl, nofun, noneOf_name _ _⟩)
    (noneOf_mark (by decide))).mono (fun read same => ?_) fun _ => id
  simpa using same

/-- What a type consists of is read back with its directives. -/
theorem reads_typeContent {content : TypeContent} {given : List Directive} (start : Span)
    (proper : content.isProper = true) (properDirectives : given.all (·.isProper true) = true) :
    (typeContent content.keyword start).Reads (content.written given)
      (fun read => read.1.bare = content.bare ∧
        read.2.map Directive.bare = given.map Directive.bare)
      (noneOf [.atSign, .leftParen]) := by
  have held := reads_directives top_level properDirectives
  have beforeBody (inside : Spelling) (ahead : Option TokenKind) :
      noneOf [.atSign, .leftParen] (Spelling.lead (.braced 0 inside) ahead) :=
    noneOf_mark (by decide)
  have beforeDirectives (inside : Spelling) (ahead : Option TokenKind) :
      noName (Spelling.lead (given.flatMap (·.written 1) ++ .braced 0 inside) ahead) ∧
        noneOf [.amp] (Spelling.lead (given.flatMap (·.written 1) ++ .braced 0 inside) ahead) := by
    cases given with
    | nil => exact ⟨nofun, noneOf_mark (by decide)⟩
    | cons => exact ⟨nofun, noneOf_mark (by decide)⟩
  cases content with
  | scalar =>
    simp only [typeContent, TypeContent.keyword]
    exact held.finish fun directives same => .pure ⟨rfl, same⟩
  | object interfaces fields =>
    simp only [typeContent, TypeContent.keyword]
    refine (reads_implementedInterfaces interfaces).bind ?_ fun ahead _ => beforeDirectives _ ahead
    rintro _ rfl
    refine held.bind (fun directives same => ?_) fun ahead _ => beforeBody _ ahead
    refine (reads_fieldBody proper).always.finish fun fields same' => .pure ⟨?_, same⟩
    simp only [TypeContent.bare, same']
  | interface interfaces fields =>
    simp only [typeContent, TypeContent.keyword]
    refine (reads_implementedInterfaces interfaces).bind ?_ fun ahead _ => beforeDirectives _ ahead
    rintro _ rfl
    refine held.bind (fun directives same => ?_) fun ahead _ => beforeBody _ ahead
    refine (reads_fieldBody proper).always.finish fun fields same' => .pure ⟨?_, same⟩
    simp only [TypeContent.bare, same']
  | enum values =>
    simp only [typeContent, TypeContent.keyword]
    refine held.bind (fun directives same => ?_) fun ahead _ => beforeBody _ ahead
    refine (reads_enumValues proper).always.finish ?_
    rintro _ rfl
    exact .pure ⟨rfl, same⟩
  | input fields =>
    simp only [typeContent, TypeContent.keyword]
    refine held.bind (fun directives same => ?_) fun ahead _ => beforeBody _ ahead
    refine (reads_inputBody proper).always.finish fun fields same' => .pure ⟨?_, same⟩
    simp only [TypeContent.bare, same']

/-- A type definition from the keyword of its kind on. -/
theorem reads_typeDefinition {given : TypeDefinition} (start : Span)
    (proper : given.isProper = true) :
    (typeDefinition start given.isExtension).Reads
      (.name given.content.keyword :: .name given.name :: given.content.written given.directives)
      (TypeDefinition.bare · = given.bare) (noneOf [.atSign, .leftParen]) := by
  obtain ⟨properContent, properDirectives⟩ := (Bool.and_eq_true _ _).mp proper
  refine reads_span.peek (fun place _ => ?_) fun _ _ => trivial
  refine (reads_name given.content.keyword (Nat.zero_le _)).token ?_
  rintro _ rfl
  refine (reads_name given.name (Nat.zero_le _)).token ?_
  rintro _ rfl
  refine (reads_typeContent place properContent properDirectives).finish
    fun ⟨content, directives⟩ ⟨same, same'⟩ => ?_
  refine (reads_spanFrom start).peek (fun _ _ => .pure ?_) fun _ _ => trivial
  simp only at same same'
  simp only [TypeDefinition.bare, same, same']

theorem reads_repeatable (isRepeatable : Bool) :
    repeatable.Reads (if isRepeatable then [.name "repeatable"] else []) (· = isRepeatable)
      (· = some (.name "on")) := by
  cases isRepeatable with
  | true =>
    refine (reads_seesWord "repeatable").peek ?_ fun _ _ => rfl
    rintro _ rfl
    exact (reads_advance (Nat.zero_le _)).finish fun _ _ => .pure rfl
  | false =>
    refine (reads_missesWord "repeatable").peek ?_ fun _ follows => by rw [follows]; decide
    rintro _ rfl
    exact .pure rfl

/-- The definition of a directive that is written is read back. -/
theorem reads_directiveDefinition {given : DirectiveDefinition} (start : Span)
    (proper : given.isProper = true) :
    (directiveDefinition start).Reads given.written (DirectiveDefinition.bare · = given.bare)
      (noneOf [.pipe]) := by
  obtain ⟨properArguments, some⟩ := (Bool.and_eq_true _ _).mp proper
  refine (reads_expectWord "directive").token fun _ _ => ?_
  refine (reads_expect .atSign (Nat.zero_le _)).token fun _ _ => ?_
  refine (reads_name given.name (Nat.zero_le _)).token ?_
  rintro _ rfl
  refine (reads_inputDefinitions properArguments).bind (fun arguments same => ?_) fun ahead _ => ?_
  · refine (reads_repeatable given.isRepeatable).bind ?_ fun _ _ => rfl
    rintro _ rfl
    refine (reads_expectWord "on").token fun _ _ => ?_
    refine (reads_separatedNames (by simpa using some)).finish ?_
    rintro _ rfl
    refine (reads_spanFrom start).peek (fun _ _ => .pure ?_) fun _ _ => trivial
    simp only [DirectiveDefinition.bare, same]
  · cases given.isRepeatable <;> exact noneOf_name _ _

/-- Every definition is written from a keyword on. -/
theorem written_definition_eq_cons (given : Definition) :
    ∃ text others, given.written = .name text :: others := by
  cases given with
  | operation => exact ⟨_, _, rfl⟩
  | fragment => exact ⟨_, _, rfl⟩
  | schema => exact ⟨_, _, rfl⟩
  | type part =>
    obtain ⟨_, _, _, isExtension, _⟩ := part
    cases isExtension <;> exact ⟨_, _, rfl⟩
  | directive => exact ⟨_, _, rfl⟩

/-- A definition from its keyword on. -/
theorem reads_keywordDefinition {given : Definition} {keyword : String} {others : Spelling}
    (start : Span) (proper : given.isProper = true)
    (begins : given.written = .name keyword :: others) :
    (keywordDefinition false start keyword).Reads given.written (Definition.bare · = given.bare)
      (noneOf [.atSign, .leftParen, .pipe]) := by
  have keyed {text : String} {more : Spelling} (same : given.written = .name text :: more) :
      keyword = text := by
    rw [same] at begins
    exact (TokenKind.name.inj (Glyph.mk.inj (List.cons.inj begins).1).1).symm
  cases given with
  | operation part =>
    obtain rfl := keyed rfl
    have known : keywordDefinition false start part.kind.keyword =
        Definition.operation <$> operation part.kind := by
      cases part.kind <;> rfl
    rw [known]
    exact (reads_operation proper).always.wrap _ Definition.operation fun _ => rfl
  | fragment part =>
    obtain rfl := keyed rfl
    exact (reads_fragment proper).always.wrap _ Definition.fragment fun _ => rfl
  | schema part =>
    obtain rfl := keyed rfl
    exact (reads_schemaDefinition part start).always.wrap _ Definition.schema fun _ => rfl
  | type part =>
    have reads := (reads_typeDefinition start proper).mono (fun _ => id)
      fun ahead (follows : noneOf [.atSign, .leftParen, .pipe] ahead) => follows.mono (by decide)
    have wrapped : (Definition.type <$> typeDefinition start part.isExtension).Reads _
        (Definition.bare · = (Definition.type part).bare) _ :=
      reads.wrap _ Definition.type fun _ => rfl
    obtain ⟨name, content, directives, isExtension, span⟩ := part
    cases isExtension with
    | false =>
      obtain rfl := keyed rfl
      have known : keywordDefinition false start content.keyword =
          Definition.type <$> typeDefinition start false := by
        cases content <;> rfl
      rw [known]
      exact wrapped
    | true =>
      obtain rfl := keyed rfl
      exact (reads_advance (Nat.zero_le _)).token fun _ _ => wrapped
  | directive part =>
    obtain rfl := keyed rfl
    have reads := (reads_directiveDefinition start proper).mono (fun _ => id)
      fun ahead (follows : noneOf [.atSign, .leftParen, .pipe] ahead) => follows.mono (by decide)
    exact reads.wrap _ Definition.directive fun _ => rfl

/-- A definition that is written is read back. -/
theorem reads_definition {given : Definition} (proper : given.isProper = true) :
    definition.Reads given.written (Definition.bare · = given.bare)
      (noneOf [.atSign, .leftParen, .pipe]) := by
  obtain ⟨keyword, others, begins⟩ := written_definition_eq_cons given
  refine (reads_misses .leftBrace).peek ?_ fun _ _ => by rw [begins]; exact noneOf_name _ _
  rintro _ rfl
  refine (reads_no_description keyword).peek ?_ fun _ _ => by rw [begins]; rfl
  rintro _ rfl
  refine reads_span.peek (fun start _ => ?_) fun _ _ => trivial
  refine (reads_kind (.name keyword)).peek ?_ fun _ _ => by rw [begins]; rfl
  rintro _ rfl
  exact reads_keywordDefinition start proper begins

/-- A document that is written is read back. -/
theorem reads_document {given : Document} (proper : given.isProper = true) :
    document.Reads given.written (Document.bare · = given.bare) (· = none) := by
  obtain ⟨some, proper⟩ := (Bool.and_eq_true _ _).mp proper
  refine (reads_itemsToEnd
    (fun part member => reads_definition (List.all_eq_true.mp proper part member))
    (fun part _ => ?_) nofun).finish fun definitions same => ?_
  · obtain ⟨text, others, begins⟩ := written_definition_eq_cons part
    exact ⟨_, others, begins, noneOf_name _ _⟩
  · have filled : ¬definitions.isEmpty = true := by
      rintro none
      rw [List.isEmpty_iff.mp none] at same
      simp_all
    rw [if_neg filled]
    exact .pure (congrArg Document.mk same)

end Grammar

namespace Document

/-- The first of the tokens of a written document where a phrase begins that lies too deep. -/
def tooDeep? (document : Document) (tokens : List Token) : Option Token :=
  ((tokens.zip (document.written.map Glyph.level)).find? Reading.isTooDeep).map Prod.fst

/-- Tokens of the kinds of a phrase spell it at its levels. -/
theorem spells_zip {tokens : List Token} {spelling : Spelling}
    (spelled : tokens.map (·.kind) = spelling.map Glyph.kind) :
    Reading.Spells (tokens.zip (spelling.map Glyph.level)) spelling ∧
      (tokens.zip (spelling.map Glyph.level)).map Prod.fst = tokens := by
  induction tokens generalizing spelling with
  | nil =>
    obtain rfl := List.map_eq_nil_iff.mp spelled.symm
    exact ⟨rfl, rfl⟩
  | cons token tokens ih =>
    obtain ⟨glyph, others, rfl, same, later⟩ := List.map_eq_cons_iff.mp spelled.symm
    obtain ⟨spells, back⟩ := ih later.symm
    rw [List.map_cons, List.zip_cons_cons]
    refine ⟨?_, by rw [List.map_cons, back]⟩
    obtain ⟨kind, level⟩ := glyph
    obtain rfl := same
    rw [Reading.Spells, List.map_cons, spells]

/-- Whatever is read from the tokens of a written document is the document, up to the places in
it. -/
theorem bare_eq_of_ofTokens {document other : Document} (proper : document.isProper = true)
    {tokens : List Token} {length : Nat}
    (spelled : tokens.map (·.kind) = document.written.map Glyph.kind)
    (found : ofTokens tokens length = .ok other) : other.bare = document.bare := by
  obtain ⟨spells, back⟩ := spells_zip spelled
  have read := Grammar.reads_document proper _ [] (.start tokens length) spells
    (by rw [back, List.append_nil]; rfl) rfl
  unfold ofTokens at found
  cases deep : (tokens.zip (document.written.map Glyph.level)).find? Reading.isTooDeep with
  | none =>
    rw [deep] at read
    obtain ⟨value, after, ran, same, _⟩ := read
    rw [ran] at found
    rw [← Except.ok.inj found]
    exact same
  | some reading =>
    rw [deep] at read
    dsimp only at read
    rw [read] at found
    contradiction

/-- Every document that can be written is read back from its tokens, up to the places in it, unless
something lies too deep in it. Then it is refused at the first token where something does. -/
theorem ofTokens_written (document : Document) (proper : document.isProper = true)
    (tokens : List Token) (length : Nat)
    (spelled : tokens.map (·.kind) = document.written.map Glyph.kind) :
    (ofTokens tokens length).map bare =
      match document.tooDeep? tokens with
      | none => .ok document.bare
      | some token => .error ⟨.nestsTooDeep, token.span⟩ := by
  obtain ⟨spells, back⟩ := spells_zip spelled
  have read := Grammar.reads_document proper _ [] (.start tokens length) spells
    (by rw [back, List.append_nil]; rfl) rfl
  unfold tooDeep? ofTokens
  cases deep : (tokens.zip (document.written.map Glyph.level)).find? Reading.isTooDeep with
  | none =>
    rw [deep] at read
    obtain ⟨value, after, ran, same, _⟩ := read
    rw [ran]
    exact congrArg Except.ok same
  | some found =>
    rw [deep] at read
    dsimp only at read
    rw [read]
    rfl

/-- The tokens of a written document, each taking one byte. -/
def tokens (document : Document) : List Token :=
  document.written.zipIdx.map fun (glyph, index) => ⟨glyph.kind, ⟨index, index + 1⟩⟩

/-- A document with a definition of every kind, and names that are keywords elsewhere. -/
def varied : Document :=
  ⟨[.operation ⟨.mutation, some "fragment",
      [⟨"on", .nonNull (.list (.nonNull (.named "query"))), some (.list [.null, .bool true]),
        .zero⟩],
      [⟨"type", [⟨"if", .reference "on", .zero⟩], .zero⟩],
      [.field ⟨some "query", "on",
          [⟨"schema", .object [("input", .enumValue "on")], .zero⟩], [], .zero⟩
          [.spread "fragment" [⟨"repeatable", [], .zero⟩] .zero] (some .zero),
        .inline (some "on") [] [.field ⟨none, "true", [], [], .zero⟩ [] none] .zero .zero,
        .inline none [⟨"skip", [], .zero⟩] [.field ⟨none, "null", [], [], .zero⟩ [] none] .zero
          .zero],
      .zero, .zero⟩,
    .fragment ⟨"fragment", "on", [], [.field ⟨none, "a", [], [], .zero⟩ [] none], .zero, .zero⟩,
    .schema ⟨[(.query, "query"), (.mutation, "schema")], .zero⟩,
    .type ⟨"implements", .object ["implements", "on"]
      [⟨"type", [⟨"input", .named "on", some (.enumValue "extend"), [], .zero⟩],
        .list (.named "enum"), [⟨"deprecated", [⟨"reason", .string "none", .zero⟩], .zero⟩],
        .zero⟩], [], false, .zero⟩,
    .type ⟨"scalar", .scalar, [⟨"key", [], .zero⟩], true, .zero⟩,
    .type ⟨"enum", .enum ["on", "repeatable"], [], false, .zero⟩,
    .type ⟨"interface", .interface [] [], [], true, .zero⟩,
    .type ⟨"input", .input [], [], false, .zero⟩,
    .directive ⟨"repeatable", [], true, ["on", "repeatable"], .zero⟩]⟩

/-- A document that declares a variable whose type is a list of lists of lists, and so on. -/
def nested (depth : Nat) : Document :=
  ⟨[.operation ⟨.query, none, [⟨"x", Nat.repeat .list depth (.named "Int"), none, .zero⟩], [],
    [.field ⟨none, "a", [], [], .zero⟩ [] none], .zero, .zero⟩]⟩

/-- A document with all kinds of definitions is read back, and so is one that nests as deep as it
may; one level deeper it is refused. -/
theorem ofTokens_written_varied :
    (varied.isProper = true ∧ (ofTokens varied.tokens 200).map bare = .ok varied.bare) ∧
      (nested 256).isProper = true ∧
        (ofTokens (nested 256).tokens 600).map bare = .error ⟨.nestsTooDeep, ⟨261, 262⟩⟩ := by
  have shallow : varied.tooDeep? varied.tokens = none := by decide
  have deep : (nested 256).tooDeep? (nested 256).tokens = some ⟨.name "Int", ⟨261, 262⟩⟩ := by
    decide +kernel
  have accepted := ofTokens_written varied (by decide) varied.tokens 200 (by decide)
  have refused := ofTokens_written (nested 256) (by decide +kernel) (nested 256).tokens 600
    (by decide +kernel)
  rw [shallow] at accepted
  rw [deep] at refused
  exact ⟨⟨by decide, accepted⟩, by decide +kernel, refused⟩

end Document

end TraversalQuery
