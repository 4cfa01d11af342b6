import TraversalQuery.Proofs.Json.Records
import TraversalQuery.Proofs.Planning.Parts

/-!
# The rules of planning

What the fields of a query become in a plan, by rules on the ontology and on the arguments of the
fields as JSON: which one entity a field leads to, over which relationship, and which tests the
entities have to pass. Each rule is what one step of the planner comes to, and all of them together
are what a field is in a plan.
-/

namespace TraversalQuery

/-! ### Steps to objects -/

namespace Json

/-- The id that a value is: a text, or a number as it is written. -/
inductive IsId : Json → String → Prop
  | text (id : String) : IsId (.string id) id
  | whole (id : Int) : IsId (.int id) (toString id)
  | decimal (id : Binary64) : IsId (.float id) id.dataText

end Json

/-- The first text that arguments have under some names. -/
inductive Members.FirstText (arguments : Members) : List String → Option String → Prop
  | never : FirstText arguments [] none
  | here {name : String} {rest : List String} {text : String}
      (isText : Members.get? name arguments = some (.string text)) :
      FirstText arguments (name :: rest) (some text)
  | later {name : String} {rest : List String} {text? : Option String}
      (noText : ∀ text, Members.get? name arguments ≠ some (.string text))
      (others : FirstText arguments rest text?) : FirstText arguments (name :: rest) text?

namespace EntityType

/-- The argument for the id of an entity: the first of its id fields, or `id` if it has none. -/
def HasIdField (entity : EntityType) (name : String) : Prop :=
  entity.idFields.head? = some name ∨ entity.idFields = [] ∧ name = "id"

/-- The one entity that arguments pick, if the argument for its id is a text or a number. It is
shown by the first text that the arguments have for it. -/
inductive Picks (entity : EntityType) (arguments : Members) : Option ConcreteEntity → Prop
  | one {name : String} {given : Json} {id : String} {shown? : Option String}
      (isField : entity.HasIdField name) (isGiven : Members.get? name arguments = some given)
      (isId : given.IsId id) (shown : arguments.FirstText entity.display shown?) :
      Picks entity arguments (some ⟨id, shown?⟩)
  | every {name : String} (isField : entity.HasIdField name)
      (noId : ∀ given id, Members.get? name arguments = some given → ¬ given.IsId id) :
      Picks entity arguments none

end EntityType

/-- The way a relationship is crossed from a type: either way if it has none of its own, against it
if the type is only on side B, and along it else. -/
inductive RelationshipType.CrossedFrom (relation : RelationshipType) (type : String) :
    Direction → Prop
  | either (undirected : relation.isDirectional = false) : CrossedFrom relation type .either
  | backward (directed : relation.isDirectional = true)
      (notOnA : ∀ pair ∈ relation.pairs, pair.sideAType ≠ type)
      (onB : ∃ pair ∈ relation.pairs, pair.sideBType = type) : CrossedFrom relation type .backward
  | forward (directed : relation.isDirectional = true)
      (onA : (∃ pair ∈ relation.pairs, pair.sideAType = type) ∨
        ∀ pair ∈ relation.pairs, pair.sideBType ≠ type) : CrossedFrom relation type .forward

/-! ### Filters -/

/-- An operator by its spelling or by its spelling with blanks. Blanks around it do not count. -/
def Operator.IsSpelled (operator : Operator) (spelling : String) : Prop :=
  operator.text = String.ofList (Text.trim spelling.toList) ∨
    operator.alias? = some (String.ofList (Text.trim spelling.toList))

namespace Filter

/-- How tests are combined: all of them have to be passed unless something else is said. -/
inductive IsCombination : Option Json → Quantifier → Prop
  | unsaid : IsCombination none .every
  | named {name : String} {kind : Quantifier}
      (known : (name, kind) ∈ [("AND", .every), ("OR", .any)]) :
      IsCombination (some (.string name)) kind
  | tagged {name : String} {kind : Quantifier}
      (known : (name, kind) ∈ [("AND", .every), ("OR", .any)]) :
      IsCombination (some (.object [(name, .null)])) kind

/-- What a test compares with: nothing if it is not said, `null` or the empty text. -/
inductive IsExpression : Option Json → Option String → Prop
  | unsaid : IsExpression none none
  | null : IsExpression (some .null) none
  | empty : IsExpression (some (.string "")) none
  | text {text : String} (proper : text ≠ "") : IsExpression (some (.string text)) (some text)

end Filter

namespace Ontology

/-- The type of the property that is tested: the one of its name, or its name if there is none. -/
def IsTested (ontology : Ontology) (operand propertyType : String) : Prop :=
  (∃ property, ontology.properties.find? (·.name == operand) = some property ∧
      propertyType = property.pType) ∨
    ontology.properties.find? (·.name == operand) = none ∧ propertyType = operand

/-- A test as it stands in a filter, with the type of the property that is tested. -/
inductive IsTest (ontology : Ontology) (value : Json) : String × Option Constraint → Prop
  | mk {given : String → Option Json} {operand spelling propertyType : String}
      {operator : Operator} {expression? : Option String}
      (isRecord : value.IsRecord ["operand", "operator", "expression"] given)
      (isOperand : given "operand" = some (.string operand))
      (isOperator : given "operator" = some (.string spelling))
      (spelled : operator.IsSpelled spelling)
      (isExpression : Filter.IsExpression (given "expression") expression?)
      (typed : ontology.IsTested operand propertyType) :
      IsTest ontology value (propertyType, some ⟨operator, expression?⟩)

/-- A filter as JSON: how its tests are combined, and the tests in their order. -/
inductive IsFilter (ontology : Ontology) (value : Json) : PlannedFilter → Prop
  | mk {given : String → Option Json} {kind : Quantifier} {items : List Json}
      {fields : List (String × Option Constraint)}
      (isRecord : value.IsRecord ["operator", "constraints"] given)
      (combined : Filter.IsCombination (given "operator") kind)
      (isList : given "constraints" = some (.array items))
      (tests : List.Forall₂ ontology.IsTest items fields) : IsFilter ontology value ⟨kind, fields⟩

end Ontology

/-! ### Fields -/

namespace FieldVisit

/-- The step over a relationship to the object of a field: there is one if the field stands inside
another and has the name of a relationship. -/
inductive Crosses (ontology : Ontology) (visit : FieldVisit) : Option RelationStep → Prop
  | outermost (atRoot : visit.parent? = none) : Crosses ontology visit none
  | unrelated
      (noRelation : ontology.relationshipTypes.find? (·.name == visit.definition.name) = none) :
      Crosses ontology visit none
  | across {around : ParentField} {relation : RelationshipType} {direction : Direction}
      (inside : visit.parent? = some around)
      (isRelation :
        ontology.relationshipTypes.find? (·.name == visit.definition.name) = some relation)
      (crossed : relation.CrossedFrom visit.parentType.name direction) :
      Crosses ontology visit (some ⟨relation.rType, direction, visit.definition.name⟩)

/-- The filter on the object of a field: what its argument `where` is, unless that is `null`. -/
inductive Filters (ontology : Ontology) (visit : FieldVisit) : Option PlannedFilter → Prop
  | absent (notGiven : Members.get? "where" visit.arguments = none) : Filters ontology visit none
  | null (isNull : Members.get? "where" visit.arguments = some .null) : Filters ontology visit none
  | given {value : Json} {filter : PlannedFilter}
      (isGiven : Members.get? "where" visit.arguments = some value)
      (isFilter : ontology.IsFilter value filter) : Filters ontology visit (some filter)

/-- What a field becomes in a plan. One with a value becomes the property of its name, which is
shown; one with an object becomes a step to the entity of its type. -/
inductive Becomes (ontology : Ontology) (visit : FieldVisit) : Part → Prop
  | shown {output : SchemaType} {property : PropertyType} (isOutput : visit.output? = some output)
      (leaf : output.kind = .scalar ∨ output.kind = .enum)
      (isProperty : ontology.properties.find? (·.name == visit.definition.name) = some property) :
      Becomes ontology visit (.shown ⟨.entity, property.pType, .shown⟩)
  | entered {output : SchemaType} {entity : EntityType} {relation? : Option RelationStep}
      {concrete? : Option ConcreteEntity} {filter? : Option PlannedFilter}
      (isOutput : visit.output? = some output)
      (composite : output.kind = .object ∨ output.kind = .interface)
      (isEntity : ontology.entityTypes.find? (·.name == output.name) = some entity)
      (crosses : visit.Crosses ontology relation?) (picks : entity.Picks visit.arguments concrete?)
      (filters : visit.Filters ontology filter?) :
      Becomes ontology visit
        (.entered relation? ⟨visit.definition.name, entity.name, concrete?⟩ filter?)

end FieldVisit

/-! ### The rules and the planner -/

namespace EntityType

variable {entity : EntityType} {arguments : Members}

/-- The field for ids is the one that the rules name. -/
theorem hasIdField_iff {name : String} : entity.HasIdField name ↔ name = entity.idField := by
  unfold HasIdField idField defaultIdField
  cases entity.idFields <;> simp [eq_comm]

/-- The text under a name is the one that is given for it. -/
theorem get?_bind_text?_iff {name text : String} :
    (Members.get? name arguments).bind Json.text? = some text ↔
      Members.get? name arguments = some (.string text) := by
  cases Members.get? name arguments with
  | none => simp
  | some given => cases given <;> simp [Json.text?]

/-- The name that is shown is the first text among the arguments for it. -/
theorem displayName?_iff {shown? : Option String} :
    entity.displayName? arguments = shown? ↔ arguments.FirstText entity.display shown? := by
  unfold displayName?
  induction entity.display with
  | nil =>
    constructor
    · rintro rfl
      exact .never
    · rintro ⟨⟩
      rfl
  | cons name rest ih =>
    rw [List.findSome?_cons]
    cases isText : (Members.get? name arguments).bind Json.text? with
    | some text =>
      constructor
      · rintro rfl
        exact .here (get?_bind_text?_iff.mp isText)
      · rintro (_ | isText' | ⟨noText, _⟩)
        · exact isText.symm.trans (get?_bind_text?_iff.mpr isText')
        · exact absurd (get?_bind_text?_iff.mp isText) (noText _)
    | none =>
      have noText : ∀ text, Members.get? name arguments ≠ some (.string text) := by
        intro text isText'
        cases isText.symm.trans (get?_bind_text?_iff.mpr isText')
      refine ih.trans ⟨.later noText, ?_⟩
      rintro (_ | isText' | ⟨_, others⟩)
      · exact absurd isText' (noText _)
      · exact others

/-- An entity is concrete exactly if the argument for its id is a text or a number. -/
theorem concreteId?_iff {id : String} : entity.concreteId? arguments = some id ↔
    ∃ given, Members.get? entity.idField arguments = some given ∧ given.IsId id := by
  unfold concreteId?
  constructor
  · intro isId
    split at isId
    · rename_i found
      cases isId
      exact ⟨_, found, .text _⟩
    · rename_i found
      cases isId
      exact ⟨_, found, .whole _⟩
    · rename_i found
      cases isId
      exact ⟨_, found, .decimal _⟩
    · cases isId
  · rintro ⟨given, found, isId⟩
    cases isId <;> rw [found]

/-- The entity that a field leads to is the one that its arguments pick. -/
theorem picks_iff {concrete? : Option ConcreteEntity} :
    (entity.concreteId? arguments).map (⟨·, entity.displayName? arguments⟩) = concrete? ↔
      entity.Picks arguments concrete? := by
  constructor
  · rintro rfl
    cases isId : entity.concreteId? arguments with
    | none =>
      refine .every (hasIdField_iff.mpr rfl) fun given id isGiven isId' => ?_
      cases isId.symm.trans (concreteId?_iff.mpr ⟨given, isGiven, isId'⟩)
    | some id =>
      obtain ⟨given, isGiven, isId⟩ := concreteId?_iff.mp isId
      exact .one (hasIdField_iff.mpr rfl) isGiven isId (displayName?_iff.mp rfl)
  · intro picks
    cases picks with
    | one isField isGiven isId shown =>
      obtain rfl := hasIdField_iff.mp isField
      rw [concreteId?_iff.mpr ⟨_, isGiven, isId⟩, displayName?_iff.mpr shown]
      rfl
    | every isField noId =>
      obtain rfl := hasIdField_iff.mp isField
      cases isId : entity.concreteId? arguments with
      | none => rfl
      | some id =>
        obtain ⟨given, isGiven, isId⟩ := concreteId?_iff.mp isId
        exact absurd isId (noId given id isGiven)

end EntityType

namespace RelationshipType

variable {relation : RelationshipType} {type : String}

/-- There is no pair from a type exactly if none has it as side A. -/
theorem pairFrom?_eq_none_iff :
    relation.pairFrom? type = none ↔ ∀ pair ∈ relation.pairs, pair.sideAType ≠ type := by
  simp [pairFrom?, List.find?_eq_none]

/-- There is a pair to a type exactly if one has it as side B. -/
theorem isSome_pairTo?_iff :
    (relation.pairTo? type).isSome = true ↔ ∃ pair ∈ relation.pairs, pair.sideBType = type := by
  simp [pairTo?, List.find?_isSome]

/-- The direction from a type is the one in which the relationship is crossed from it. -/
theorem directionFrom_iff {direction : Direction} :
    relation.directionFrom type = direction ↔ relation.CrossedFrom type direction := by
  have decides : (relation.pairFrom? type).isNone && (relation.pairTo? type).isSome ↔
      (∀ pair ∈ relation.pairs, pair.sideAType ≠ type) ∧
        ∃ pair ∈ relation.pairs, pair.sideBType = type := by
    rw [Bool.and_eq_true, Option.isNone_iff_eq_none, pairFrom?_eq_none_iff, isSome_pairTo?_iff]
  unfold directionFrom
  constructor
  · rintro rfl
    cases directed : relation.isDirectional with
    | false => exact .either directed
    | true =>
      rw [Bool.not_true, if_neg Bool.false_ne_true]
      split
      · rename_i against
        obtain ⟨notOnA, onB⟩ := decides.mp against
        exact .backward directed notOnA onB
      · rename_i along
        refine .forward directed ?_
        by_contra neither
        obtain ⟨notOnA, onB⟩ := not_or.mp neither
        exact along (decides.mpr ⟨fun pair member same => notOnA ⟨pair, member, same⟩,
          by simpa using onB⟩)
  · intro crossed
    cases crossed with
    | either undirected => rw [undirected]; rfl
    | backward directed notOnA onB =>
      rw [directed, if_neg (by decide), if_pos (decides.mpr ⟨notOnA, onB⟩)]
    | forward directed onA =>
      rw [directed, if_neg (by decide), if_neg]
      intro against
      obtain ⟨notOnA, pair, isPair, onB⟩ := decides.mp against
      rcases onA with ⟨other, isOther, onA⟩ | notOnB
      · exact notOnA other isOther onA
      · exact notOnB pair isPair onB

end RelationshipType

namespace Operator

/-- The list of operators is complete. -/
theorem mem_all (operator : Operator) : operator ∈ all := by
  cases operator <;> decide

/-- No text is a spelling of two operators. -/
theorem eq_of_isSpelled {operator other : Operator} {spelling : String}
    (spelled : operator.IsSpelled spelling) (spelled' : other.IsSpelled spelling) :
    operator = other := by
  have apart : ∀ first ∈ all, ∀ second ∈ all, first.text = second.text ∨
      first.alias? = some second.text ∨ second.alias? = some first.text ∨
        first.alias?.isSome = true ∧ first.alias? = second.alias? → first = second := by
    decide
  refine apart operator operator.mem_all other other.mem_all ?_
  rcases spelled with plain | blank <;> rcases spelled' with plain' | blank'
  · exact .inl (plain.trans plain'.symm)
  · exact .inr (.inr (.inl (plain ▸ blank')))
  · exact .inr (.inl (plain' ▸ blank))
  · exact .inr (.inr (.inr ⟨by rw [blank]; rfl, blank.trans blank'.symm⟩))

/-- An operator is read from its spelling and from nothing else. -/
theorem read_eq_ok_iff {operator : Operator} {spelling : String} :
    read spelling = .ok operator ↔ operator.IsSpelled spelling := by
  have named (operator : Operator) :
      operator.isNamed (String.ofList (Text.trim spelling.toList)) = true ↔
        operator.IsSpelled spelling := by
    rw [isNamed, Bool.or_eq_true, beq_iff_eq, beq_iff_eq]
    rfl
  unfold read
  dsimp only
  cases found : all.find? (·.isNamed (String.ofList (Text.trim spelling.toList))) with
  | none =>
    constructor
    · exact nofun
    · intro spelled
      exact absurd ((named operator).mpr spelled) (List.find?_eq_none.mp found _ operator.mem_all)
  | some other =>
    have spelled' := (named other).mp (by simpa using List.find?_some found)
    constructor
    · rintro ⟨⟩
      exact spelled'
    · exact fun spelled => congrArg Except.ok (eq_of_isSpelled spelled' spelled)

end Operator

open Json (Decoder Fields)

namespace Filter

/-- What a test compares with is what its decoder reads, but for the empty text. -/
theorem isExpression_iff {given? : Option Json} {expression? : Option String} :
    IsExpression given? expression? ↔
      ∃ written?, (Decoder.optional .text).Takes (some none) given? written? ∧
        written?.filter (fun text => !text.isEmpty) = expression? := by
  constructor
  · intro isExpression
    cases isExpression with
    | unsaid => exact ⟨none, rfl, rfl⟩
    | null => exact ⟨none, rfl, rfl⟩
    | empty => exact ⟨some "", rfl, rfl⟩
    | @text text proper => exact ⟨some text, rfl, by simp [Option.filter, proper]⟩
  · rintro ⟨written?, takes, rfl⟩
    match given? with
    | none =>
      obtain rfl : none = written? := Option.some.inj takes
      exact .unsaid
    | some .null =>
      obtain rfl : none = written? := Except.ok.inj takes
      exact .null
    | some (.string text) =>
      obtain rfl : some text = written? := Except.ok.inj takes
      by_cases empty : text = ""
      · subst empty
        exact .empty
      · rw [show (some text).filter (fun text => !text.isEmpty) = some text by
          simp [Option.filter, empty]]
        exact .text empty

/-- Tests are combined by one of two names. -/
theorem named_combinations_iff {name : String} {kind : Quantifier} :
    Decoder.named WrittenClause.combinations name = .ok kind ↔
      (name, kind) ∈ [("AND", Quantifier.every), ("OR", .any)] := by
  unfold Decoder.named WrittenClause.combinations
  rw [List.lookup_cons, List.lookup_cons, List.lookup_nil]
  by_cases every : name = "AND"
  · subst every
    simp [eq_comm]
  · by_cases any : name = "OR"
    · subst any
      simp [eq_comm]
    · rw [beq_eq_false_iff_ne.mpr every, beq_eq_false_iff_ne.mpr any]
      simp [every, any]

/-- How tests are combined is what its decoder reads. -/
theorem isCombination_iff {given? : Option Json} {kind : Quantifier} :
    IsCombination given? kind ↔
      (Decoder.choice WrittenClause.combinations).Takes (some .every) given? kind := by
  constructor
  · intro combined
    cases combined with
    | unsaid => rfl
    | named known => exact named_combinations_iff.mpr known
    | tagged known =>
      change (Decoder.named WrittenClause.combinations _ >>= _) = _
      rw [named_combinations_iff.mpr known]
      rfl
  · intro takes
    match given? with
    | none =>
      obtain rfl : Quantifier.every = kind := Option.some.inj takes
      exact .unsaid
    | some (.string name) => exact .named (named_combinations_iff.mp takes)
    | some (.object [(name, payload)]) =>
      obtain ⟨other, known, takes⟩ := Except.of_bind_eq_ok takes
      obtain ⟨_, isUnit, same⟩ := Except.of_bind_eq_ok takes
      obtain rfl := Except.ok.inj same
      cases payload with
      | null => exact .tagged (named_combinations_iff.mp known)
      | _ => cases isUnit

end Filter

namespace WrittenConstraint

/-- What makes a record a constraint. -/
theorem decode_eq_ok_iff {value : Json} {written : WrittenConstraint} :
    decoder.decode value = .ok written ↔
      ∃ given, value.IsRecord ["operand", "operator", "expression"] given ∧
        given "operand" = some (.string written.operand) ∧
        given "operator" = some (.string written.operator) ∧
        (Decoder.optional .text).Takes (some none) (given "expression") written.expression? := by
  have reads := (((Fields.ReadBy.none ["operand", "operator", "expression"]
    WrittenConstraint.mk).field "operand" .text none rfl).field "operator" .text none rfl).field
      "expression" (.optional .text) (some none) rfl
  refine (Decoder.decode_record_iff reads rfl).trans <| exists_congr fun given =>
    and_congr_right fun _ => ?_
  rw [← Decoder.takes_text_iff, ← Decoder.takes_text_iff]
  constructor
  · rintro ⟨_, _, ⟨_, _, ⟨_, _, rfl, isOperand, rfl⟩, isOperator, rfl⟩, isExpression, rfl⟩
    exact ⟨isOperand, isOperator, isExpression⟩
  · rintro ⟨isOperand, isOperator, isExpression⟩
    exact ⟨_, _, ⟨_, _, ⟨_, _, rfl, isOperand, rfl⟩, isOperator, rfl⟩, isExpression, rfl⟩

end WrittenConstraint

namespace WrittenClause

/-- What makes a record a clause. -/
theorem decode_eq_ok_iff {value : Json} {written : WrittenClause} :
    decoder.decode value = .ok written ↔
      ∃ given items, value.IsRecord ["operator", "constraints"] given ∧
        Filter.IsCombination (given "operator") written.quantifier ∧
        given "constraints" = some (.array items) ∧
        List.Forall₂ (fun item constraint => WrittenConstraint.decoder.decode item =
          .ok constraint) items written.constraints := by
  have reads := ((Fields.ReadBy.none ["operator", "constraints"] WrittenClause.mk).field
    "operator" (.choice combinations) (some .every) rfl).field "constraints"
      (.list WrittenConstraint.decoder) none rfl
  refine (Decoder.decode_record_iff reads rfl).trans ?_
  constructor
  · rintro ⟨given, isRecord, _, _, ⟨_, _, rfl, combined, rfl⟩, isList, rfl⟩
    obtain ⟨items, isList, each⟩ := Decoder.takes_list_iff.mp isList
    exact ⟨given, items, isRecord, Filter.isCombination_iff.mpr combined, isList, each⟩
  · rintro ⟨given, items, isRecord, combined, isList, each⟩
    exact ⟨given, isRecord, _, _, ⟨_, _, rfl, Filter.isCombination_iff.mp combined, rfl⟩,
      Decoder.takes_list_iff.mpr ⟨items, isList, each⟩, rfl⟩

end WrittenClause

namespace Ontology

variable {ontology : Ontology} {value : Json}

/-- The property that is tested is found by its name, or else taken by it. -/
theorem isTested_iff {operand propertyType : String} :
    ontology.IsTested operand propertyType ↔
      ((ontology.property? operand).map (·.pType)).getD operand = propertyType := by
  unfold IsTested property?
  cases ontology.properties.find? (·.name == operand) <;> simp [eq_comm]

/-- A test is decoded, its operator is looked up, and it is given the type of its property. -/
theorem isTest_iff (path : String) {field : String × Option Constraint} :
    ontology.IsTest value field ↔ ∃ written test,
      WrittenConstraint.decoder.decode value = .ok written ∧
        written.read path = .ok test ∧ Planner.typedConstraint ontology test = field := by
  constructor
  · intro isTest
    cases isTest with
    | @mk given operand spelling _ operator _ isRecord isOperand isOperator spelled isExpression
        typed =>
      obtain ⟨written?, takes, rfl⟩ := Filter.isExpression_iff.mp isExpression
      refine ⟨⟨operand, spelling, written?⟩,
        ⟨operand, operator, written?.filter fun text => !text.isEmpty⟩,
        WrittenConstraint.decode_eq_ok_iff.mpr ⟨given, isRecord, isOperand, isOperator, takes⟩,
        ?_, ?_⟩
      · rw [WrittenConstraint.read, Operator.read_eq_ok_iff.mpr spelled]
      · rw [Planner.typedConstraint, isTested_iff.mp typed]
  · rintro ⟨⟨operand, spelling, written?⟩, test, decodes, reads, rfl⟩
    obtain ⟨given, isRecord, isOperand, isOperator, takes⟩ :=
      WrittenConstraint.decode_eq_ok_iff.mp decodes
    unfold WrittenConstraint.read at reads
    split at reads
    · cases reads
    · rename_i operator isRead
      obtain rfl := Except.ok.inj reads
      exact .mk isRecord isOperand isOperator (Operator.read_eq_ok_iff.mp isRead)
        (Filter.isExpression_iff.mpr ⟨written?, takes, rfl⟩) (isTested_iff.mpr rfl)

/-- Tests are decoded, looked up and given their types one by one. -/
theorem forall₂_isTest_iff (path : String) {items : List Json} :
    ∀ {fields : List (String × Option Constraint)}, List.Forall₂ ontology.IsTest items fields ↔
      ∃ written tests,
        List.Forall₂ (fun item constraint => WrittenConstraint.decoder.decode item =
          .ok constraint) items written ∧
        List.Forall₂ (fun constraint test => constraint.read path = .ok test) written tests ∧
        tests.map (Planner.typedConstraint ontology) = fields := by
  induction items with
  | nil =>
    intro fields
    constructor
    · rintro ⟨⟩
      exact ⟨[], [], .nil, .nil, rfl⟩
    · rintro ⟨_, _, ⟨⟩, ⟨⟩, rfl⟩
      exact .nil
  | cons item rest ih =>
    intro fields
    constructor
    · rintro (_ | ⟨first, others⟩)
      obtain ⟨written, test, decodes, reads, rfl⟩ := (isTest_iff path).mp first
      obtain ⟨moreWritten, more, areDecoded, areRead, rfl⟩ := ih.mp others
      exact ⟨written :: moreWritten, test :: more, .cons decodes areDecoded, .cons reads areRead,
        rfl⟩
    · rintro ⟨_, _, _ | ⟨decodes, areDecoded⟩, _ | ⟨reads, areRead⟩, rfl⟩
      exact .cons ((isTest_iff path).mpr ⟨_, _, decodes, reads, rfl⟩)
        (ih.mpr ⟨_, _, areDecoded, areRead, rfl⟩)

/-- A filter is decoded, its operators are looked up, and its tests are given their types. -/
theorem isFilter_iff (path : String) {filter : PlannedFilter} :
    ontology.IsFilter value filter ↔ ∃ clause, FilterClause.decode value path = .ok clause ∧
      ⟨clause.quantifier, clause.constraints.map (Planner.typedConstraint ontology)⟩ = filter := by
  constructor
  · rintro ⟨isRecord, combined, isList, tests⟩
    obtain ⟨written, read, areDecoded, areRead, rfl⟩ := (forall₂_isTest_iff path).mp tests
    have decodes : WrittenClause.decoder.decode value = .ok ⟨_, written⟩ :=
      WrittenClause.decode_eq_ok_iff.mpr ⟨_, _, isRecord, combined, isList, areDecoded⟩
    refine ⟨⟨_, read⟩, ?_, rfl⟩
    rw [FilterClause.decode, decodes, Except.mapError, Except.ok_bind,
      Except.mapM_eq_ok_iff.mpr areRead]
    rfl
  · rintro ⟨clause, decodes, rfl⟩
    obtain ⟨written, isWritten, decodes⟩ := Except.of_bind_eq_ok decodes
    obtain ⟨tests, areRead, decodes⟩ := Except.of_bind_eq_ok decodes
    obtain rfl := Except.ok.inj decodes
    obtain ⟨given, items, isRecord, combined, isList, areDecoded⟩ :=
      WrittenClause.decode_eq_ok_iff.mp (Except.of_mapError_eq_ok isWritten)
    exact .mk isRecord combined isList ((forall₂_isTest_iff path).mpr
      ⟨_, _, areDecoded, Except.mapM_eq_ok_iff.mp areRead, rfl⟩)

end Ontology

namespace FieldVisit

variable {ontology : Ontology} {visit : FieldVisit}

/-- The step over a relationship is the one that the rules ask for. -/
theorem crosses_iff {relation? : Option RelationStep} :
    visit.relationStep? ontology = relation? ↔ visit.Crosses ontology relation? := by
  unfold relationStep? Ontology.relation?
  constructor
  · rintro rfl
    cases isParent : visit.parent? with
    | none => exact .outermost isParent
    | some around =>
      cases isRelation :
          ontology.relationshipTypes.find? (·.name == visit.definition.name) with
      | none => exact .unrelated isRelation
      | some relation =>
        exact .across isParent isRelation (RelationshipType.directionFrom_iff.mp rfl)
  · intro crosses
    cases crosses with
    | outermost atRoot => rw [atRoot]
    | unrelated noRelation => rw [noRelation]; split <;> first | rfl | contradiction
    | across inside isRelation crossed =>
      rw [inside, isRelation, ← RelationshipType.directionFrom_iff.mpr crossed]

/-- The filter in a plan is the one that the rules ask for. -/
theorem plannedFilter?_iff {value : Json} {filter : PlannedFilter} :
    visit.plannedFilter? ontology value = some filter ↔ ontology.IsFilter value filter := by
  rw [Ontology.isFilter_iff (visit.path.text ++ "(" ++ FilterClause.argumentName ++ ")")]
  unfold plannedFilter?
  cases FilterClause.decode value _ with
  | error error => simp
  | ok clause => simp

/-- What is a filter is not `null`. -/
theorem isNull_of_isFilter {value : Json} {filter : PlannedFilter}
    (isFilter : ontology.IsFilter value filter) : value.isNull = false := by
  cases isFilter with
  | mk isRecord => cases isRecord <;> rfl

/-- The object of a field is entered with the filter that the field has. -/
theorem enteredPart?_eq_some_iff {entity : EntityType} {part : Part} :
    visit.enteredPart? ontology entity = some part ↔ ∃ filter?, visit.Filters ontology filter? ∧
      .entered (visit.relationStep? ontology) (visit.entityStep entity) filter? = part := by
  unfold enteredPart? Planner.filterValue? FilterClause.argumentName
  constructor
  · intro isPart
    cases isGiven : Members.get? "where" visit.arguments with
    | none =>
      rw [isGiven] at isPart
      exact ⟨none, .absent isGiven, Option.some.inj isPart⟩
    | some value =>
      rw [isGiven] at isPart
      cases value with
      | null => exact ⟨none, .null isGiven, Option.some.inj isPart⟩
      | _ =>
        obtain ⟨filter, isFilter, same⟩ := Option.map_eq_some_iff.mp isPart
        exact ⟨some filter, .given isGiven (plannedFilter?_iff.mp isFilter), same⟩
  · rintro ⟨filter?, filters, rfl⟩
    cases filters with
    | absent notGiven => rw [notGiven]; rfl
    | null isNull => rw [isNull]; rfl
    | given isGiven isFilter =>
      rw [isGiven, Option.filter_some_pos (by rw [isNull_of_isFilter isFilter]; rfl)]
      exact Option.map_eq_some_iff.mpr ⟨_, plannedFilter?_iff.mpr isFilter, rfl⟩

/-- **A field becomes what it is by the rules.** -/
theorem part?_eq_some_iff {part : Part} :
    visit.part? ontology = some part ↔ visit.Becomes ontology part := by
  unfold part?
  constructor
  · intro isPart
    cases isOutput : visit.output? with
    | none =>
      rw [isOutput] at isPart
      cases isPart
    | some output =>
      rw [isOutput] at isPart
      dsimp only at isPart
      split at isPart
      · rename_i composite
        obtain ⟨entity, isEntity, entered⟩ := Option.bind_eq_some_iff.mp isPart
        obtain ⟨filter?, filters, rfl⟩ := enteredPart?_eq_some_iff.mp entered
        exact .entered isOutput (TypeKind.isComposite_iff.mp composite) isEntity
          (crosses_iff.mp rfl) (EntityType.picks_iff.mp rfl) filters
      · split at isPart
        · rename_i leaf
          obtain ⟨property, isProperty, rfl⟩ := Option.map_eq_some_iff.mp isPart
          exact .shown isOutput (TypeKind.isLeaf_iff.mp leaf) isProperty
        · cases isPart
  · intro becomes
    cases becomes with
    | @shown output property isOutput leaf isProperty =>
      have isLeaf := TypeKind.isLeaf_iff.mpr leaf
      have notComposite : ¬output.kind.isComposite = true := by
        rcases leaf with same | same <;> rw [same] <;> exact Bool.false_ne_true
      simp only [isOutput, if_neg notComposite, if_pos isLeaf]
      exact Option.map_eq_some_iff.mpr ⟨property, isProperty, rfl⟩
    | @entered output entity _ _ _ isOutput composite isEntity crosses picks filters =>
      simp only [isOutput, if_pos (TypeKind.isComposite_iff.mpr composite)]
      refine Option.bind_eq_some_iff.mpr ⟨entity, isEntity, enteredPart?_eq_some_iff.mpr
        ⟨_, filters, ?_⟩⟩
      rw [crosses_iff.mpr crosses, entityStep, EntityType.picks_iff.mpr picks]

/-- By the rules a field becomes one part of a plan. -/
theorem Becomes.unique {part other : Part} (becomes : visit.Becomes ontology part)
    (becomes' : visit.Becomes ontology other) : part = other :=
  Option.some.inj ((part?_eq_some_iff.mpr becomes).symm.trans (part?_eq_some_iff.mpr becomes'))

end FieldVisit

end TraversalQuery
