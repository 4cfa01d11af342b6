import TraversalQuery.Proofs.Document.Progress
import TraversalQuery.Proofs.Document.Worded
import TraversalQuery.Proofs.Forest

/-!
# The extents of phrases

The spans in a document form a forest: below the span of a phrase are those of the phrases in it. A
document that is read is written by the tokens of its text, each of its spans reaching from the
first to the last token of its phrase. Since the tokens stand one after another, the spans lie
inside one another as the phrases do, and beside one another in their order.
-/

namespace TraversalQuery

/-- One span lies inside another. -/
def Span.Holds (outer inner : Span) : Prop :=
  outer.start ≤ inner.start ∧ inner.stop ≤ outer.stop

namespace Forest

/-- The trees of some parts in a row. -/
def row {α β : Type} (trees : α → Forest β) : List α → Forest β
  | [] => nil
  | part :: rest => trees part ++ row trees rest

/-- Spans that lie inside one another as they are one below the other, and otherwise apart and in
order. -/
def Nested : Forest Span → Prop
  | nil => True
  | node place below rest =>
    place.start ≤ place.stop ∧ (∀ inner ∈ below.preorder, place.Holds inner) ∧
      (∀ later ∈ rest.preorder, place.stop ≤ later.start) ∧ below.Nested ∧ rest.Nested

end Forest

open Forest (tree row)

/-! ### The spans of a document -/

/-- The span of an argument. -/
def Argument.spans (argument : Argument) : Forest Span :=
  tree argument.span .nil

/-- The span of a directive, over those of its arguments. -/
def Directive.spans (directive : Directive) : Forest Span :=
  tree directive.span (row Argument.spans directive.arguments)

namespace Selection

mutual

/-- The span of a selection, over those of what it is selected with and of the braces in it. -/
def spans : Selection → Forest Span
  | .field selected selections braces? =>
    tree selected.span (row Argument.spans selected.arguments ++
      row Directive.spans selected.directives ++
        match braces? with
        | none => .nil
        | some braces => tree braces (spansOfAll selections))
  | .spread _ directives span => tree span (row Directive.spans directives)
  | .inline _ directives selections braces span =>
    tree span (row Directive.spans directives ++ tree braces (spansOfAll selections))

/-- The spans of selections one after another. -/
def spansOfAll : List Selection → Forest Span
  | [] => .nil
  | selection :: rest => selection.spans ++ spansOfAll rest

end

end Selection

/-- The span of a variable. -/
def VariableDefinition.spans (defined : VariableDefinition) : Forest Span :=
  tree defined.span .nil

/-- The span of an operation, over those of its variables and directives and of its braces. -/
def Operation.spans (operation : Operation) : Forest Span :=
  tree operation.span (row VariableDefinition.spans operation.variableDefinitions ++
    row Directive.spans operation.directives ++
      tree operation.braces (Selection.spansOfAll operation.selections))

/-- The span of a fragment, over those of its directives and of its braces. -/
def Fragment.spans (fragment : Fragment) : Forest Span :=
  tree fragment.span (row Directive.spans fragment.directives ++
    tree fragment.braces (Selection.spansOfAll fragment.selections))

/-- The span of a schema definition. -/
def SchemaDefinition.spans (schema : SchemaDefinition) : Forest Span :=
  tree schema.span .nil

/-- The span of an input definition, over those of its directives. -/
def InputDefinition.spans (input : InputDefinition) : Forest Span :=
  tree input.span (row Directive.spans input.directives)

/-- The span of an output field, over those of its arguments and directives. -/
def FieldDefinition.spans (field : FieldDefinition) : Forest Span :=
  tree field.span (row InputDefinition.spans field.arguments ++
    row Directive.spans field.directives)

/-- The spans of the fields of a type. -/
def TypeContent.spans : TypeContent → Forest Span
  | .scalar => .nil
  | .object _ fields => row FieldDefinition.spans fields
  | .interface _ fields => row FieldDefinition.spans fields
  | .enum _ => .nil
  | .input fields => row InputDefinition.spans fields

/-- The span of a type definition, over those of its directives and fields. -/
def TypeDefinition.spans (type : TypeDefinition) : Forest Span :=
  tree type.span (row Directive.spans type.directives ++ type.content.spans)

/-- The span of a directive definition, over those of its arguments. -/
def DirectiveDefinition.spans (directive : DirectiveDefinition) : Forest Span :=
  tree directive.span (row InputDefinition.spans directive.arguments)

/-- The spans of a definition. -/
def Definition.spans : Definition → Forest Span
  | .operation part => part.spans
  | .fragment part => part.spans
  | .schema part => part.spans
  | .type part => part.spans
  | .directive part => part.spans

/-- The spans of a document. -/
def Document.spans (document : Document) : Forest Span :=
  row Definition.spans document.definitions

/-! ### Spans laid over tokens -/

namespace Wording

/-- The tokens over which spans can be laid: each covers some of them, and the spans below it cover
parts of those. -/
def laid : Forest Span → Language Token
  | .nil => ⊤
  | .node place below rest => ⊤ * covering place (laid below) * laid rest

variable {phrase other : Language Token} {forest others : Forest Span}

theorem le_laid_nil : phrase ≤ laid .nil :=
  le_top

/-- Any tokens may come before those of a forest. -/
theorem top_mul_laid_le : ⊤ * laid forest ≤ laid forest := by
  cases forest with
  | nil => exact le_top
  | node place below rest =>
    rw [laid, ← mul_assoc, ← mul_assoc]
    exact mul_le_mul_left (mul_le_mul_left le_top _) _

/-- Trees are laid out one after another. -/
theorem laid_mul_laid_le : laid forest * laid others ≤ laid (forest ++ others) := by
  induction forest with
  | nil => exact top_mul_laid_le
  | node place below rest _ ih =>
    rw [Forest.node_append, laid, laid, mul_assoc]
    exact mul_le_mul_right ih _

/-- Spans over one phrase, and spans over the next. -/
theorem mul_le_laid (first : phrase ≤ laid forest) (second : other ≤ laid others) :
    phrase * other ≤ laid (forest ++ others) :=
  (mul_le_mul' first second).trans laid_mul_laid_le

/-- Tokens without spans before a phrase. -/
theorem before_le_laid (second : other ≤ laid forest) : phrase * other ≤ laid forest :=
  mul_le_laid le_laid_nil second

/-- Tokens without spans after a phrase. -/
theorem after_le_laid (first : phrase ≤ laid forest) : phrase * other ≤ laid forest := by
  have unspanned : other ≤ laid .nil := le_laid_nil
  have both := mul_le_laid first unspanned
  rwa [Forest.append_nil] at both

/-- What covers a place is laid out as the tree of the place. -/
theorem covering_le_laid {place : Span} (within : phrase ≤ laid forest) :
    covering place phrase ≤ laid (tree place forest) := by
  have alone : 1 * covering place phrase * 1 ≤ ⊤ * covering place (laid forest) * ⊤ :=
    mul_le_mul' (mul_le_mul' le_top (covering_mono within)) le_top
  rwa [one_mul, mul_one] at alone

theorem nothing_le {condition : Prop} (le : condition → 1 ≤ phrase) :
    nothing condition ≤ phrase := by
  by_cases holds : condition
  · rw [nothing_of holds]
    exact le holds
  · rw [nothing_of_not holds]
    exact zero_le

section

variable {α : Type} {write : α → Language Token} {trees : α → Forest Span}
  (each : ∀ part, write part ≤ laid (trees part))
include each

/-- Parts are laid out one after another. -/
theorem prod_le_laid (parts : List α) : (parts.map write).prod ≤ laid (row trees parts) := by
  induction parts with
  | nil => exact le_laid_nil
  | cons part rest ih =>
    rw [List.map_cons, List.prod_cons]
    exact mul_le_laid (each part) ih

theorem listed_le_laid (opening closing : Punctuator) (parts : List α) :
    listed opening closing (parts.map write) ≤ laid (row trees parts) := by
  refine add_le (nothing_le fun none => ?_)
    (before_le_laid (after_le_laid (prod_le_laid each parts)))
  rw [List.map_eq_nil_iff.mp none]
  exact le_laid_nil

end

end Wording

open Wording

theorem Argument.wording_le_laid (argument : Argument) : argument.wording ≤ laid argument.spans :=
  covering_le_laid le_laid_nil

theorem Directive.wording_le_laid (directive : Directive) :
    directive.wording ≤ laid directive.spans :=
  covering_le_laid (before_le_laid (listed_le_laid Argument.wording_le_laid _ _ _))

theorem directives_le_laid (given : List Directive) :
    Wording.directives given ≤ laid (row Directive.spans given) :=
  prod_le_laid Directive.wording_le_laid given

theorem selected_le_laid (field : Option String × String) (arguments : List Argument)
    (given : List Directive) :
    called field * listed .leftParen .rightParen (arguments.map Argument.wording) *
        Wording.directives given ≤
      laid (row Argument.spans arguments ++ row Directive.spans given) :=
  mul_le_laid (before_le_laid (listed_le_laid Argument.wording_le_laid _ _ _))
    (directives_le_laid given)

namespace Selection

mutual

/-- The words of a selection are laid out as its spans. -/
theorem wording_le_laid : ∀ selection : Selection, selection.wording ≤ laid selection.spans
  | .field selected selections none => by
    rw [wording, spans]
    exact covering_le_laid (mul_le_laid (selected_le_laid _ _ _) le_laid_nil)
  | .field selected selections (some braces) => by
    rw [wording, spans]
    exact covering_le_laid (mul_le_laid (selected_le_laid _ _ _)
      (covering_le_laid (before_le_laid (after_le_laid (wordingOfAll_le_laid selections)))))
  | .spread _ directives _ => by
    rw [wording, spans]
    exact covering_le_laid (before_le_laid (directives_le_laid directives))
  | .inline _ directives selections _ _ => by
    rw [wording, spans]
    exact covering_le_laid (mul_le_laid (before_le_laid (directives_le_laid directives))
      (covering_le_laid (before_le_laid (after_le_laid (wordingOfAll_le_laid selections)))))

theorem wordingOfAll_le_laid : ∀ selections : List Selection,
    wordingOfAll selections ≤ laid (spansOfAll selections)
  | [] => le_laid_nil
  | selection :: rest => by
    rw [wordingOfAll, spansOfAll]
    exact mul_le_laid (wording_le_laid selection) (wordingOfAll_le_laid rest)

end

theorem wordingOfSet_le_laid (selections : List Selection) (braces : Span) :
    wordingOfSet selections braces ≤ laid (tree braces (spansOfAll selections)) :=
  covering_le_laid (before_le_laid (after_le_laid (wordingOfAll_le_laid selections)))

end Selection

theorem VariableDefinition.wording_le_laid (defined : VariableDefinition) :
    defined.wording ≤ laid defined.spans :=
  covering_le_laid le_laid_nil

theorem Operation.wording_le_laid (operation : Operation) :
    operation.wording ≤ laid operation.spans := by
  refine covering_le_laid (mul_le_laid (add_le (nothing_le ?_) ?_)
    (Selection.wordingOfSet_le_laid _ _))
  · rintro ⟨-, -, noVariables, noDirectives⟩
    rw [noVariables, noDirectives]
    exact le_laid_nil
  · exact mul_le_laid
      (before_le_laid (listed_le_laid VariableDefinition.wording_le_laid _ _ _))
      (directives_le_laid operation.directives)

theorem Fragment.wording_le_laid (fragment : Fragment) : fragment.wording ≤ laid fragment.spans :=
  covering_le_laid (mul_le_laid (before_le_laid (directives_le_laid fragment.directives))
    (Selection.wordingOfSet_le_laid _ _))

theorem InputDefinition.wording_le_laid (input : InputDefinition) :
    input.wording ≤ laid input.spans :=
  before_le_laid (covering_le_laid (before_le_laid (directives_le_laid input.directives)))

theorem FieldDefinition.wording_le_laid (field : FieldDefinition) :
    field.wording ≤ laid field.spans :=
  before_le_laid (covering_le_laid (mul_le_laid (after_le_laid (after_le_laid
    (before_le_laid (listed_le_laid InputDefinition.wording_le_laid _ _ _))))
      (directives_le_laid field.directives)))

theorem TypeContent.wording_le_laid (given : List Directive) (content : TypeContent) :
    content.wording given ≤ laid (row Directive.spans given ++ content.spans) := by
  have directives := directives_le_laid given
  cases content with
  | scalar =>
    rw [spans, Forest.append_nil]
    exact directives
  | object _ fields =>
    exact mul_le_laid (before_le_laid directives)
      (listed_le_laid FieldDefinition.wording_le_laid _ _ fields)
  | interface _ fields =>
    exact mul_le_laid (before_le_laid directives)
      (listed_le_laid FieldDefinition.wording_le_laid _ _ fields)
  | enum values => exact mul_le_laid directives le_laid_nil
  | input fields =>
    exact mul_le_laid directives (listed_le_laid InputDefinition.wording_le_laid _ _ fields)

theorem TypeDefinition.wording_le_laid (type : TypeDefinition) : type.wording ≤ laid type.spans :=
  covering_le_laid (before_le_laid (TypeContent.wording_le_laid _ _))

theorem DirectiveDefinition.wording_le_laid (directive : DirectiveDefinition) :
    directive.wording ≤ laid directive.spans :=
  covering_le_laid (after_le_laid (after_le_laid (after_le_laid
    (before_le_laid (listed_le_laid InputDefinition.wording_le_laid _ _ _)))))

/-- The words of a definition are laid out as its spans. -/
theorem Definition.wording_le_laid (definition : Definition) :
    definition.wording ≤ laid definition.spans := by
  cases definition with
  | operation part => exact part.wording_le_laid
  | fragment part => exact part.wording_le_laid
  | schema part => exact before_le_laid (covering_le_laid le_laid_nil)
  | type part => exact before_le_laid part.wording_le_laid
  | directive part => exact before_le_laid part.wording_le_laid

/-- The spans of a document can be laid over its tokens. -/
theorem Document.wording_le_laid (document : Document) : document.wording ≤ laid document.spans :=
  prod_le_laid Definition.wording_le_laid document.definitions

/-! ### Nesting -/

namespace InOrder

variable {tokens : List Token} (inOrder : InOrder tokens) {token first last : Token}
include inOrder

/-- No token starts before the first. -/
theorem first_le (isFirst : first ∈ tokens.head?) (member : token ∈ tokens) :
    first.span.start ≤ token.span.start := by
  obtain ⟨rest, rfl⟩ := List.head?_eq_some_iff.mp isFirst
  cases member with
  | head => exact Nat.le_refl _
  | tail _ later =>
    have apart := (List.pairwise_cons.mp inOrder.apart).1 token later
    exact Nat.le_trans (inOrder.proper first List.mem_cons_self) apart

/-- No token stops after the last. -/
theorem le_last (isLast : last ∈ tokens.getLast?) (member : token ∈ tokens) :
    token.span.stop ≤ last.span.stop := by
  obtain ⟨before, rfl⟩ := List.getLast?_eq_some_iff.mp isLast
  rcases List.mem_append.mp member with earlier | same
  · have apart := (List.pairwise_append.mp inOrder.apart).2.2 token earlier last
      (List.mem_singleton_self _)
    exact Nat.le_trans apart (inOrder.proper last (by simp))
  · rw [List.mem_singleton.mp same]

end InOrder

/-- Spans that are laid over tokens one after another are nested, and each reaches from one token to
another. -/
theorem nested_of_laid {forest : Forest Span} : ∀ {tokens : List Token}, InOrder tokens →
    tokens ∈ laid forest → forest.Nested ∧ ∀ place ∈ forest.preorder,
      ∃ first ∈ tokens, ∃ last ∈ tokens, place = ⟨first.span.start, last.span.stop⟩ := by
  induction forest with
  | nil => exact fun _ _ => ⟨trivial, nofun⟩
  | node place below rest ihBelow ihRest =>
    rintro _ inOrder ⟨_, ⟨skipped, _, block, ⟨isBlock, first, isFirst, last, isLast, rfl⟩, rfl⟩,
      later, isLater, rfl⟩
    have part : block.Sublist (skipped ++ block ++ later) :=
      (List.sublist_append_right _ _).trans (List.sublist_append_left _ _)
    have inBlock := inOrder.sublist part
    obtain ⟨nestedBelow, reachBelow⟩ := ihBelow inBlock isBlock
    have inLater := inOrder.sublist (List.sublist_append_right (skipped ++ block) later)
    obtain ⟨nestedRest, reachRest⟩ := ihRest inLater isLater
    have isFirst' := List.mem_of_mem_head? isFirst
    have isLast' := List.mem_of_getLast? isLast
    have apart := (List.pairwise_append.mp inOrder.apart).2.2
    refine ⟨⟨?_, ?_, ?_, nestedBelow, nestedRest⟩, ?_⟩
    · exact Nat.le_trans (inBlock.first_le isFirst isLast') (inBlock.proper last isLast')
    · intro inner member
      obtain ⟨a, memberA, b, memberB, rfl⟩ := reachBelow inner member
      exact ⟨inBlock.first_le isFirst memberA, inBlock.le_last isLast memberB⟩
    · intro other member
      obtain ⟨a, memberA, b, memberB, rfl⟩ := reachRest other member
      exact apart last (List.mem_append_right _ isLast') a memberA
    · intro other member
      rcases List.mem_cons.mp member with rfl | member
      · exact ⟨first, part.subset isFirst', last, part.subset isLast', rfl⟩
      · rcases List.mem_append.mp member with member | member
        · obtain ⟨a, memberA, b, memberB, reaches⟩ := reachBelow other member
          exact ⟨a, part.subset memberA, b, part.subset memberB, reaches⟩
        · obtain ⟨a, memberA, b, memberB, reaches⟩ := reachRest other member
          exact ⟨a, List.mem_append_right _ memberA, b, List.mem_append_right _ memberB, reaches⟩

namespace Document

open Grammar Reading

/-- Reading a text to its end takes all its tokens. -/
theorem wording_of_ofTokens {tokens : List Token} {length : Nat} {document : Document}
    (inOrder : InOrder tokens) (read : ofTokens tokens length = .ok document) :
    tokens ∈ document.wording := by
  obtain ⟨⟨found, after⟩, ran, same⟩ := Except.of_bind_eq_ok read
  obtain rfl : found = document := Except.ok.inj same
  have stands : Region.anywhere.Stands [] (.start tokens length) :=
    ⟨inOrder, fun _ _ => trivial, trivial, trivial, nofun⟩
  have outcome := takes_document [] rfl _ stands
  rw [ran] at outcome
  obtain ⟨taken, moves, written⟩ := outcome
  rcases document_ends (.start tokens length) with ⟨error, failed⟩ | ⟨_, _, ran', ended⟩
  · rw [ran] at failed
    contradiction
  · rw [ran] at ran'
    cases ran'
    have whole : tokens = taken ++ after.rest := moves.rest
    rw [whole, ended, List.append_nil]
    exact written

/-- A document that is read from a text is written by the tokens of the text: each of its spans
reaches from the start of the first token of its phrase to the end of the last. The spans of phrases
in it lie inside one another as the phrases do, and beside one another in their order. -/
theorem spans_exact {source : String} (short : source.utf8ByteSize < 2 ^ 32) {document : Document}
    (read : parse source = .ok document) :
    ∃ tokens, Lexer.tokens source = .ok tokens ∧ tokens ∈ document.wording ∧
      document.spans.Nested := by
  obtain ⟨tokens, lexed, read⟩ := Except.of_bind_eq_ok read
  have inOrder := Lexer.inOrder_of_tokens short lexed
  have written := wording_of_ofTokens inOrder read
  exact ⟨tokens, lexed, written, (nested_of_laid inOrder (document.wording_le_laid written)).1⟩

/-- A type with a description: its span begins after that, and those of its field, of the input of
the field and of a directive with an argument lie inside it. -/
theorem spans_exact_described :
    ∃ document, parse "\"d\" type T \x7b a(b: [Int!]): Int @c(d: 1) \x7d" = .ok document ∧
      document.spans = tree ⟨4, 41⟩ (tree ⟨13, 39⟩
        (tree ⟨15, 24⟩ .nil ++ tree ⟨31, 39⟩ (tree ⟨34, 38⟩ .nil))) ∧
      ∃ tokens, Lexer.tokens "\"d\" type T \x7b a(b: [Int!]): Int @c(d: 1) \x7d" = .ok tokens ∧
        tokens ∈ document.wording ∧ document.spans.Nested := by
  have ran : (parse "\"d\" type T \x7b a(b: [Int!]): Int @c(d: 1) \x7d").toOption.map (·.spans) =
      some (tree ⟨4, 41⟩ (tree ⟨13, 39⟩
        (tree ⟨15, 24⟩ .nil ++ tree ⟨31, 39⟩ (tree ⟨34, 38⟩ .nil)))) := by
    decide +kernel
  obtain ⟨document, isRead, placed⟩ := Option.map_eq_some_iff.mp ran
  have read := Except.of_toOption_eq_some isRead
  have short : "\"d\" type T \x7b a(b: [Int!]): Int @c(d: 1) \x7d".utf8ByteSize < 2 ^ 32 := by
    decide +kernel
  exact ⟨document, read, placed, spans_exact short read⟩

end Document

end TraversalQuery
