import TraversalQuery.Proofs.Document.Takes

/-!
# What the grammar takes

Every phrase of the grammar takes a wording of what it makes. One lemma for each phrase, from the
lemmas of the phrases in it.
-/

namespace TraversalQuery

namespace Grammar

open Reading Wording

variable {region : Region} {α : Type}

/-! ### Parts that are not empty -/

/-- Every value has at least one token. -/
theorem nil_notMem_literal (value : Literal) : [] ∉ value.wording := by
  cases value <;> simp [Literal.wording, Language.mem_add]

theorem nil_notMem_objectField (field : String × Literal) : [] ∉ Literal.wordingOfField field := by
  simp [Literal.wordingOfField]

@[simp] theorem nil_notMem_called (field : Option String × String) : [] ∉ called field := by
  simp [called]

/-- Every selection has at least one token. -/
theorem nil_notMem_selection (selection : Selection) : [] ∉ selection.wording := by
  cases selection <;> simp [Selection.wording]

theorem nil_notMem_root (given : OperationKind × String) : [] ∉ root given := by
  simp [root]

/-- Every input definition has at least one token. -/
theorem nil_notMem_input (input : InputDefinition) : [] ∉ input.wording :=
  nil_notMem_described (nil_notMem_covering _)

/-- Every field definition has at least one token. -/
theorem nil_notMem_field (field : FieldDefinition) : [] ∉ field.wording :=
  nil_notMem_described (nil_notMem_covering _)

theorem nil_notMem_enumValue (value : String) : [] ∉ Wording.enumValue value :=
  nil_notMem_described (by simp)

/-! ### Values and types -/

/-- What nests too deep is read as nothing. -/
theorem takes_tooDeep {write : α → Language Token} {sofar : Language Token} :
    Takes region sofar tooDeep write :=
  .glance fun _ within => takes_fail within

theorem takes_objectField {value : Reading Literal} (each : Takes region 1 value Literal.wording) :
    Takes region 1 (objectField value) Literal.wordingOfField :=
  takes_name.bind fun _ => (takes_expect .colon).then fun _ => each.then fun _ => takes_pure le_rfl

theorem takes_listItem {value : Reading Literal} (each : Takes region 1 value Literal.wording) :
    Takes region 1 (listItem value) Literal.wording := by
  refine .look fun ended => ?_
  split
  · exact .stop (takes_unexpected _)
  · exact each

/-- A value that is a word is worded as that word. -/
theorem word_le_wordLiteral (text : String) : word text ≤ (wordLiteral text).wording := by
  unfold wordLiteral
  split <;> exact le_rfl

/-- A value is read from its words and the places they stand at. -/
theorem takes_literal (isConstant : Bool) (room : Nat) :
    Takes region 1 (literal isConstant room) Literal.wording := by
  induction room with
  | zero => exact takes_tooDeep
  | succ room ih =>
    refine .peek (fun kind => ?_) (takes_unexpected _)
    cases kind with
    | mark mark =>
      cases mark with
      | dollar =>
        cases isConstant with
        | true => exact Takes.next (.glance fun _ within => .stop (takes_fail within))
        | false => exact .first (takes_name.then fun _ => takes_pure le_rfl)
      | leftBracket =>
        refine .first ((takes_itemsUntil (takes_listItem ih) nil_notMem_literal _).then
          fun items => takes_pure ?_)
        rw [Literal.wording, Literal.wordingOfItems_eq]
        exact le_rfl
      | leftBrace =>
        refine .first ((takes_itemsUntil (takes_objectField ih) nil_notMem_objectField _).then
          fun fields => takes_pure ?_)
        rw [Literal.wording, Literal.wordingOfFields_eq]
        exact le_rfl
      | _ => exact (takes_unexpected _).next
    | name text => exact .first (takes_pure (word_le_wordLiteral text))
    | int value => exact .first (takes_pure le_rfl)
    | float value => exact .first (takes_pure le_rfl)
    | string text => exact .first (takes_pure le_self_add)
    | blockString text => exact .first (takes_pure le_add_self)

/-- A type reference is read from its words. -/
theorem takes_typeRef (room : Nat) : Takes region 1 (typeRef room) TypeRef.wording := by
  induction room with
  | zero => exact takes_tooDeep
  | succ room ih =>
    have core : Takes region 1 (nullableRef room) TypeRef.wording := by
      refine (takes_accept .leftBracket).bind fun opened => ?_
      cases opened with
      | true => exact ih.then fun _ => (takes_expect .rightBracket).then fun _ => takes_pure le_rfl
      | false => exact takes_name.bind fun _ => takes_pure le_rfl
    rw [typeRef_eq]
    refine core.bind fun inner => (takes_accept .bang).then fun marked => ?_
    cases marked with
    | true => exact takes_pure le_rfl
    | false => exact takes_pure (mul_one _).le

/-! ### Directives -/

theorem takes_argument (isConstant : Bool) (room : Nat) :
    Takes region 1 (argument isConstant room) Argument.wording :=
  .measured fun _ within => takes_name.bind fun _ => (takes_expect .colon).then fun _ =>
    (takes_literal isConstant room).then fun _ => .close within (by simp) fun _ => le_rfl

/-- Arguments are read from their words and the places they stand at. -/
theorem takes_arguments (isConstant : Bool) (room : Nat) :
    Takes region 1 (arguments isConstant room)
      fun given => listed .leftParen .rightParen (given.map Argument.wording) :=
  takes_listed (takes_argument isConstant room) (fun _ => nil_notMem_covering _) _ _

theorem takes_directive (isConstant : Bool) (room : Nat) :
    Takes region 1 (directive isConstant room) Directive.wording :=
  .opened fun _ within => takes_name.then fun _ => (takes_arguments isConstant room).then fun _ =>
    .close within (by simp) fun _ => le_rfl

/-- Directives are read from their words and the places they stand at. -/
theorem takes_directives (isConstant : Bool) (room : Nat) :
    Takes region 1 (directives isConstant room) Wording.directives :=
  takes_itemsWhile (takes_directive isConstant room) _

/-! ### Selections -/

theorem takes_calling : Takes region 1 calling called := by
  refine takes_name.bind fun first => (takes_accept .colon).then fun aliased => ?_
  cases aliased with
  | true => exact takes_name.then fun _ => takes_pure le_rfl
  | false => exact takes_pure (by simp [called])

theorem takes_inlineCondition : Takes region 1 inlineCondition condition :=
  .seen (shows_word "on") (.first (takes_name.then fun _ => takes_pure le_rfl)) (takes_pure le_rfl)

section

variable {set : Reading Braced}
  (sets : Takes region 1 set fun braced => Selection.wordingOfSet braced.1 braced.2)
include sets

theorem takes_field (room : Nat) : Takes region 1 (field set room) Selection.wording := by
  have inside : Takes region 1 (selectedInside set) fun held =>
      held.2.elim (nothing (held.1 = [])) (Selection.wordingOfSet held.1) := by
    refine .look fun braced => ?_
    split
    · exact sets.bind fun _ => takes_pure le_rfl
    · exact takes_pure (nothing_of rfl).ge
  rw [field_eq]
  refine .measured fun _ within => takes_calling.bind fun called =>
    (takes_arguments false room).then fun arguments => (takes_directives false room).then
      fun directives => inside.then fun held => .close within (by simp) fun whole => ?_
  obtain ⟨selections, _ | braces⟩ := held
  · exact le_rfl
  · exact le_rfl

theorem takes_fragmentSelection (room : Nat) :
    Takes region 1 (fragmentSelection set room) Selection.wording := by
  refine .opened fun start within => ?_
  have inline : Takes region (mark .spread) (spreadOf set room start none)
      fun selection => given start selection.wording :=
    takes_inlineCondition.then fun _ => (takes_directives false room).then fun _ =>
      sets.then fun _ => .close within (by simp) fun _ => le_rfl
  refine .peek (fun kind => ?_) inline
  cases kind with
  | name text =>
    by_cases reserved : text = "on"
    · simp only [if_pos reserved]
      exact inline.next
    · simp only [if_neg reserved]
      exact .past ((takes_directives false room).then fun _ =>
        .close within (by simp) fun _ => le_rfl)
  | _ => exact inline.next

/-- A selection is read from its words and the places they stand at. -/
theorem takes_selection (room : Nat) :
    Takes region 1 (selection set room) Selection.wording := by
  refine .look fun ended => ?_
  split
  · exact .stop (takes_unexpected _)
  · refine .look fun spread => ?_
    split
    · exact takes_fragmentSelection sets room
    · exact takes_field sets room

end

/-- A selection set is read from its words and the places they stand at. -/
theorem takes_selectionSet (room : Nat) :
    Takes region 1 (selectionSet room)
      fun braced => Selection.wordingOfSet braced.1 braced.2 := by
  induction room with
  | zero => exact takes_tooDeep
  | succ room ih =>
    refine .opened fun _ within =>
      (takes_itemsUntil (takes_selection ih room) nil_notMem_selection _).then
        fun selections => .whole within (by simp) fun whole located => ?_
    split
    · exact .stop (takes_fail located)
    · refine takes_pure (inf_le_right.trans ?_)
      rw [Selection.wordingOfSet, Selection.wordingOfAll_eq]

/-! ### Executable definitions -/

theorem takes_defaultValue : Takes region 1 defaultValue byDefault := by
  refine (takes_accept .equals).bind fun marked => ?_
  cases marked with
  | true => exact (takes_literal true maxNesting).then fun _ => takes_pure le_rfl
  | false => exact takes_pure le_rfl

/-- Directives that mean nothing are among those that may stand there. -/
theorem le_anyDirectives (meaningless : List Directive) :
    Wording.directives meaningless ≤ anyDirectives :=
  le_iSup Wording.directives meaningless

theorem takes_anyDirectives {write : α → Language Token} {sofar : Language Token}
    {next : List Directive → Reading α}
    (later : ∀ meaningless, Takes region (sofar * anyDirectives) (next meaningless) write) :
    Takes region sofar (directives true maxNesting >>= next) write :=
  ((takes_directives true maxNesting).mono le_anyDirectives).then later

theorem takes_variableDefinition :
    Takes region 1 variableDefinition VariableDefinition.wording :=
  .opened fun _ within => takes_name.then fun _ => (takes_expect .colon).then fun _ =>
    (takes_typeRef maxNesting).then fun _ => takes_defaultValue.then fun _ =>
      takes_anyDirectives fun _ => .close within (by simp) fun _ => le_rfl

theorem takes_variableDefinitions :
    Takes region 1 variableDefinitions
      fun defined => listed .leftParen .rightParen (defined.map VariableDefinition.wording) :=
  takes_listed takes_variableDefinition (fun _ => nil_notMem_covering _) _ _

theorem takes_anonymousQuery : Takes region 1 anonymousQuery Operation.wording := by
  refine .measured fun start within => (takes_selectionSet maxNesting).bind
    fun ⟨selections, braces⟩ => .close within (nil_notMem_covering _) fun whole => ?_
  refine covering_mono ?_
  rw [nothing_of ⟨rfl, rfl, rfl, rfl⟩]
  exact le_mul_of_one_le_left' le_self_add

theorem takes_name? : Takes region 1 name? fun name? => (name?.map word).getD 1 := by
  refine .peek (fun kind => ?_) (takes_pure le_rfl)
  cases kind with
  | name text => exact .first (takes_pure le_rfl)
  | _ => exact (takes_pure le_rfl).next

/-- After its keyword an operation is read from its words and the places they stand at. -/
theorem takes_operation (kind : OperationKind) :
    TakesNext region (.name kind.keyword) 1 (operation kind) Operation.wording :=
  .measured fun _ within => .first (takes_name?.then fun _ => takes_variableDefinitions.then
    fun _ => (takes_directives false maxNesting).then fun _ =>
      (takes_selectionSet maxNesting).then fun ⟨_, _⟩ => .close within (by simp) fun _ =>
        covering_mono (mul_le_mul_left le_add_self _))

/-- A fragment is read from its words and the places they stand at. -/
theorem takes_fragment : Takes region 1 fragment Fragment.wording := by
  refine .openedWord fun start within => takes_name.then fun name => ?_
  split
  · exact .stop (takes_fail within)
  · exact (takes_expectWord "on").then fun _ => takes_name.then fun _ =>
      (takes_directives false maxNesting).then fun _ => (takes_selectionSet maxNesting).then
        fun ⟨_, _⟩ => .close within (by simp) fun _ => le_rfl

/-! ### Definitions of schemas -/

theorem takes_description : Takes region 1 Grammar.description Wording.description := by
  refine .peek (fun kind => ?_) (takes_pure le_rfl)
  cases kind with
  | string text => exact .first (takes_pure (le_iSup_of_le text le_self_add))
  | blockString text => exact .first (takes_pure (le_iSup_of_le text le_add_self))
  | _ => exact (takes_pure le_rfl).next

/-- A phrase after a description that means nothing. -/
theorem takes_described {next : Reading α} (write : α → Language Token)
    (later : Takes region 1 next write) :
    Takes region 1 (Grammar.description >>= fun _ => next) fun value => described (write value) :=
  takes_description.bind fun isDescribed => later.after fun _ =>
    mul_le_mul_left (le_iSup Wording.description isDescribed) _

/-- An operation kind is read from its own keyword only. -/
theorem keyword_of_ofKeyword? {keyword : String} {kind : OperationKind}
    (named : OperationKind.ofKeyword? keyword = some kind) : keyword = kind.keyword := by
  unfold OperationKind.ofKeyword? at named
  split at named
  · cases named; rfl
  · cases named; rfl
  · cases named; rfl
  · contradiction

theorem takes_rootType : Takes region 1 rootType root := by
  refine .glance fun start within => takes_name.bind fun keyword => ?_
  split
  · exact takes_fail within
  · rename_i kind named
    rw [keyword_of_ofKeyword? named]
    exact (takes_expect .colon).then fun _ => takes_name.then fun _ => takes_pure le_rfl

/-- A schema definition is read from its words and the places they stand at. -/
theorem takes_schemaDefinition {start : Span} (within : region.holds start) :
    Takes region 1 (schemaDefinition start) fun schema => given start schema.wording :=
  (takes_expectWord "schema").bind fun _ => takes_anyDirectives fun _ =>
    (takes_expect .leftBrace).then fun _ =>
      (takes_itemsUntil takes_rootType nil_notMem_root _).then fun _ =>
        .close within (by simp) fun _ => le_rfl

theorem takes_inputDefinition : Takes region 1 inputDefinition InputDefinition.wording :=
  takes_described _ (.measured fun _ within => takes_name.bind fun _ =>
    (takes_expect .colon).then fun _ => (takes_typeRef maxNesting).then fun _ =>
      takes_defaultValue.then fun _ => (takes_directives true maxNesting).then fun _ =>
        .close within (by simp) fun _ => le_rfl)

theorem takes_inputDefinitions (opening closing : Punctuator) :
    Takes region 1 (inputDefinitions opening closing)
      fun inputs => listed opening closing (inputs.map InputDefinition.wording) :=
  takes_listed takes_inputDefinition nil_notMem_input _ _

theorem takes_fieldDefinition : Takes region 1 fieldDefinition FieldDefinition.wording :=
  takes_described _ (.measured fun _ within => takes_name.bind fun _ =>
    (takes_inputDefinitions .leftParen .rightParen).then fun _ => (takes_expect .colon).then
      fun _ => (takes_typeRef maxNesting).then fun _ => (takes_directives true maxNesting).then
        fun _ => .close within (by simp) fun _ => le_rfl)

theorem takes_fieldDefinitions :
    Takes region 1 fieldDefinitions
      fun fields => listed .leftBrace .rightBrace (fields.map FieldDefinition.wording) :=
  takes_listed takes_fieldDefinition nil_notMem_field _ _

theorem takes_separatedNames (separator : Punctuator) :
    Takes region 1 (separatedNames separator) (Wording.separated separator) := by
  have each : Takes region 1 (Grammar.separated separator)
      fun other => mark separator * word other :=
    (takes_expect separator).bind fun _ => takes_name.after fun _ => le_rfl
  refine (takes_accept separator).bind fun led => takes_name.then fun first =>
    (takes_itemsWhile each separator).then fun others => takes_pure ?_
  refine mul_le_mul_left (mul_le_mul_left ?_ _) _
  cases led with
  | true => exact le_add_self
  | false => exact le_self_add

theorem takes_implementedInterfaces : Takes region 1 implementedInterfaces interfaces := by
  refine .seen (shows_word "implements")
    (.first ((takes_separatedNames .amp).after fun _ => le_add_self)) (takes_pure ?_)
  rw [interfaces, nothing_of rfl]
  exact le_self_add

theorem takes_enumValue : Takes region 1 Grammar.enumValue Wording.enumValue := by
  refine takes_described (fun value => word value * anyDirectives)
    (.glance fun start within => takes_name.bind fun value => ?_)
  split
  · exact .stop (takes_fail within)
  · exact takes_anyDirectives fun _ => takes_pure le_rfl

theorem takes_enumValues :
    Takes region 1 enumValues
      fun values => listed .leftBrace .rightBrace (values.map Wording.enumValue) :=
  takes_listed takes_enumValue nil_notMem_enumValue _ _

/-- What is read of a type after its name is that of a type of its keyword. -/
theorem takes_typeContent (keyword : String) {place : Span} (within : region.holds place) :
    Takes region 1 (typeContent keyword place)
      fun held => nothing (keyword = held.1.keyword) * held.1.wording held.2 := by
  have ofKind {content : TypeContent} {given : List Directive} {sofar : Language Token}
      (same : sofar = content.wording given) :
      Takes region sofar (pure (content, given)) fun held =>
        nothing (content.keyword = held.1.keyword) * held.1.wording held.2 := by
    refine takes_pure ?_
    rw [nothing_of rfl, one_mul, same]
  unfold typeContent
  split
  · exact (takes_directives true maxNesting).bind fun _ => ofKind rfl
  · exact takes_implementedInterfaces.bind fun _ => (takes_directives true maxNesting).then
      fun _ => takes_fieldDefinitions.then fun _ => ofKind rfl
  · exact takes_implementedInterfaces.bind fun _ => (takes_directives true maxNesting).then
      fun _ => takes_fieldDefinitions.then fun _ => ofKind rfl
  · exact (takes_directives true maxNesting).bind fun _ => takes_enumValues.then fun _ => ofKind rfl
  · exact (takes_directives true maxNesting).bind fun _ =>
      (takes_inputDefinitions .leftBrace .rightBrace).then fun _ => ofKind rfl
  · exact takes_fail within

/-- A type definition is read from its words and the places they stand at. -/
theorem takes_typeDefinition {start : Span} (within : region.holds start) (isExtension : Bool) :
    Takes region (if isExtension then word "extend" else 1) (typeDefinition start isExtension)
      fun type => given start type.wording := by
  refine .glance fun place located => takes_name.then fun keyword => takes_name.then fun name =>
    (takes_typeContent keyword located).then fun ⟨content, directives⟩ =>
      .close within (by simp [-mul_ite, -ite_mul]) fun whole => covering_mono ?_
  by_cases same : keyword = content.keyword
  · rw [nothing_of same, one_mul, same]
  · rw [nothing_of_not same, zero_mul, mul_zero]
    exact zero_le

theorem takes_repeatable :
    Takes region 1 repeatable fun isRepeatable => if isRepeatable then word "repeatable" else 1 :=
  .seen (shows_word "repeatable") (.first (takes_pure le_rfl)) (takes_pure le_rfl)

/-- A directive definition is read from its words and the places they stand at. -/
theorem takes_directiveDefinition {start : Span} (within : region.holds start) :
    Takes region 1 (directiveDefinition start) fun directive => given start directive.wording :=
  (takes_expectWord "directive").bind fun _ => (takes_expect .atSign).then fun _ =>
    takes_name.then fun _ => (takes_inputDefinitions .leftParen .rightParen).then fun _ =>
      takes_repeatable.then fun _ => (takes_expectWord "on").then fun _ =>
        (takes_separatedNames .pipe).then fun _ =>
          .close within (by simp [-mul_ite, -ite_mul]) fun _ => le_rfl

/-! ### Documents -/

/-- The tokens of a definition after its description, if it has one. Operations and fragments have
none. -/
def afterDescription (isDescribed : Bool) : Definition → Language Token
  | .operation part => nothing (isDescribed = false) * part.wording
  | .fragment part => nothing (isDescribed = false) * part.wording
  | .schema part => part.wording
  | .type part => part.wording
  | .directive part => part.wording

theorem le_wording_of_afterDescription (isDescribed : Bool) (definition : Definition) :
    Wording.description isDescribed * afterDescription isDescribed definition ≤
      definition.wording := by
  have allowed := le_iSup Wording.description isDescribed
  have undescribed (phrase : Language Token) :
      Wording.description isDescribed * (nothing (isDescribed = false) * phrase) ≤ phrase := by
    cases isDescribed with
    | true => rw [nothing_of_not nofun, zero_mul, mul_zero]; exact zero_le
    | false => rw [nothing_of rfl, Wording.description, one_mul, one_mul]
  cases definition with
  | operation part => exact undescribed _
  | fragment part => exact undescribed _
  | schema part => exact mul_le_mul_left allowed _
  | type part => exact mul_le_mul_left allowed _
  | directive part => exact mul_le_mul_left allowed _

theorem takes_keywordDefinition {start : Span} (within : region.holds start) (isDescribed : Bool)
    (keyword : String) :
    TakesNext region (.name keyword) 1 (keywordDefinition isDescribed start keyword)
      fun definition => given start (afterDescription isDescribed definition) := by
  have bare (phrase : Language Token) :
      phrase ≤ given start (nothing (false = false) * phrase) := by
    rw [nothing_of rfl, one_mul]
    exact le_given start
  unfold keywordDefinition
  split
  · rename_i kind named
    rw [keyword_of_ofKeyword? named]
    exact (takes_operation kind).map fun _ => bare _
  · rename_i isDescribed _ _ _
    split
    · rename_i isFragment
      obtain rfl : isDescribed = false := by simpa using isFragment.2
      exact Takes.next (takes_fragment.map fun _ => bare _)
    · split
      · exact Takes.next ((takes_schemaDefinition within).map fun _ => le_rfl)
      · split
        · exact Takes.next ((takes_directiveDefinition within).map fun _ => le_rfl)
        · split
          · rename_i isExtension
            rw [isExtension]
            exact .first ((takes_typeDefinition within true).map fun _ => le_rfl)
          · exact Takes.next ((takes_typeDefinition within false).map fun _ => le_rfl)

/-- A definition is read from its words and the places they stand at. -/
theorem takes_definition : Takes region 1 definition Definition.wording := by
  refine .look fun braced => ?_
  split
  · exact takes_anonymousQuery.bind fun _ => takes_pure le_rfl
  · refine takes_description.bind fun isDescribed =>
      Takes.after ?_ (le_wording_of_afterDescription isDescribed)
    refine .measured fun start within => .peek (fun kind => ?_) (takes_unexpected _)
    cases kind with
    | name keyword => exact takes_keywordDefinition within isDescribed keyword
    | _ => exact (takes_unexpected _).next

/-- A document is read from its words and the places they stand at. -/
theorem takes_document : Takes region 1 document Document.wording := by
  refine (takes_itemsToEnd takes_definition).bind fun definitions => ?_
  split
  · exact .glance fun _ within => .stop (takes_fail within)
  · exact takes_pure le_rfl

end Grammar

end TraversalQuery
