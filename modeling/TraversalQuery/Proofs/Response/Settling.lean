import Mathlib.Data.List.Perm.Subperm
import TraversalQuery.Proofs.Response.Written

/-!
# Defaults that settle

Reading a literal takes the defaults of the inputs that it lacks, and reading these takes further
ones. Here are the steps of this, with nothing that limits them. They come to an end exactly if the
defaults settle, and then to the values that the rounds for defaults give: where reading ends at
all, there are enough of them. It always ends if no default leads back to itself.
-/

namespace TraversalQuery

namespace Input

variable {schema : Schema} {values : Members} {first second : Default}

/-! ### What literals lack -/

/-- An input is lacking if nothing is given for it, or something lacks it that is given. -/
theorem mem_lackingOf {given : String → TypeRef → Option (List InputValue)}
    {declared : List InputValue} {input : InputValue} :
    input ∈ lackingOf given declared ↔
      ∃ around ∈ declared, input ∈ (given around.name around.type).getD [around] := by
  rw [lackingOf, List.mem_flatMap]

/-- What a list lacks is what one of its items lacks. -/
theorem mem_lackingInItems {items : List Literal} {type : TypeRef} {input : InputValue} :
    input ∈ lackingInItems schema values items type ↔
      ∃ item ∈ items, input ∈ (lacking schema values item type).getD [] := by
  induction items with
  | nil => simp [lackingInItems]
  | cons item rest ih => simp [lackingInItems, ih]

/-- What is lacking under a name is what the value under it lacks. -/
theorem lookup_lackingInFields {name : String} {type : TypeRef}
    {fields : List (String × Literal)} :
    lookup name type (lackingInFields schema values fields) =
      (Literal.fieldValue? name fields).bind (lacking schema values · type) := by
  induction fields with
  | nil => rfl
  | cons field rest ih =>
    obtain ⟨other, value⟩ := field
    unfold lackingInFields lookup Literal.fieldValue?
    rw [List.find?_cons]
    split
    · rename_i same
      simp [same]
    · rename_i different
      rw [beq_eq_false_iff_ne.mpr (Ne.symm different)]
      exact ih

/-- Nothing is said of what a literal lacks exactly if it has no value. -/
theorem lacking_eq_none_iff {default : Default} {literal : Literal} {type : TypeRef} :
    lacking schema values literal type = none ↔
      ofLiteral schema values default literal type = none := by
  cases literal <;> simp [lacking, ofLiteral]

/-- What a literal lacks is left out by it, or given by nothing but a variable. -/
theorem omitted_of_lacking (literal : Literal) : ∀ {type : TypeRef} {input : InputValue},
    input ∈ (lacking schema values literal type).getD [] → input ∈ schema.omitted type literal := by
  induction literal using Literal.deepInduction with
  | reference name =>
    intro type input member
    unfold lacking at member
    cases held : Members.get? name values <;> rw [held] at member <;> cases member
  | list items ih =>
    intro type input member
    obtain ⟨item, isItem, member⟩ := mem_lackingInItems.mp member
    exact Schema.mem_omittedInItems.mpr ⟨item, isItem, ih item isItem member⟩
  | object fields ih =>
    intro type input member
    rw [lacking, Option.getD_some] at member
    obtain ⟨around, declared, member⟩ := mem_lackingOf.mp member
    rw [lookup_lackingInFields] at member
    have alone (all : (Literal.fieldValue? around.name fields).all (·.isReference) = true) :
        around ∈ schema.omitted type (.object fields) :=
      List.mem_append_left _ (List.mem_filter.mpr ⟨declared, all⟩)
    cases isValue : Literal.fieldValue? around.name fields with
    | none =>
      rw [isValue] at member
      rw [List.mem_singleton.mp member]
      exact alone (by rw [isValue]; rfl)
    | some value =>
      rw [isValue, Option.bind_some] at member
      cases inside : lacking schema values value around.type with
      | none =>
        rw [inside] at member
        rw [List.mem_singleton.mp member]
        have absent : ofLiteral schema values (fun _ => none) value around.type = none :=
          lacking_eq_none_iff.mp inside
        exact alone (by rw [isValue]; exact isReference_of_ofLiteral_eq_none absent)
      | some others =>
        rw [inside] at member
        have isField := Literal.mem_of_fieldValue? isValue
        refine List.mem_append_right _ (Schema.mem_omittedInFields.mpr
          ⟨_, isField, around, declared, rfl, ih _ isField ?_⟩)
        rw [inside]
        exact member
  | _ =>
    intro type input member
    cases member

/-! ### Values depend on what is lacking -/

/-- The members of an object depend only on the values and defaults of its inputs. -/
theorem declaredMembers_congr {value value' : String → TypeRef → Option Json}
    {declared : List InputValue} (same : ∀ input ∈ declared,
      (value input.name input.type).or (first input) =
        (value' input.name input.type).or (second input)) :
    ∀ members, declaredMembers first value declared members =
      declaredMembers second value' declared members := by
  induction declared with
  | nil => exact fun _ => rfl
  | cons input rest ih =>
    obtain ⟨sameInput, sameRest⟩ := List.forall_mem_cons.mp same
    intro members
    rw [declaredMembers, declaredMembers, sameInput]
    split
    · exact ih sameRest members
    · exact ih sameRest _

/-- What inputs come to depends on the defaults that they lack, if what is given for them does. -/
theorem declaredMembers_congr_of_lacking {value? : String → Option Literal}
    {declared : List InputValue}
    (inside : ∀ name literal, value? name = some literal → ∀ type : TypeRef,
      (∀ input ∈ (lacking schema values literal type).getD [], first input = second input) →
        ofLiteral schema values first literal type = ofLiteral schema values second literal type)
    (same : ∀ input ∈ lackingOf (fun name type =>
      (value? name).bind (lacking schema values · type)) declared, first input = second input) :
    ∀ members,
      declaredMembers first (fun name type =>
        (value? name).bind (ofLiteral schema values first · type)) declared members =
      declaredMembers second (fun name type =>
        (value? name).bind (ofLiteral schema values second · type)) declared members := by
  refine declaredMembers_congr fun input member => ?_
  have sameHere (other : InputValue) (isLacking : other ∈
      ((value? input.name).bind (lacking schema values · input.type)).getD [input]) :
      first other = second other :=
    same other (mem_lackingOf.mpr ⟨input, member, isLacking⟩)
  cases isValue : value? input.name with
  | none =>
    rw [isValue] at sameHere
    exact sameHere input List.mem_cons_self
  | some literal =>
    rw [isValue, Option.bind_some] at sameHere
    rw [Option.bind_some, Option.bind_some]
    cases isLacking : lacking schema values literal input.type with
    | none =>
      rw [isLacking] at sameHere
      rw [lacking_eq_none_iff.mp isLacking, lacking_eq_none_iff.mp isLacking]
      exact sameHere input List.mem_cons_self
    | some others =>
      rw [isLacking] at sameHere
      rw [inside _ _ isValue _ (by rw [isLacking]; exact sameHere)]
      cases found : ofLiteral schema values second literal input.type with
      | some json => rfl
      | none => cases (lacking_eq_none_iff.mpr found).symm.trans isLacking

/-- The value of a literal depends on the defaults of the inputs that it lacks, and on no others. -/
theorem ofLiteral_congr (literal : Literal) : ∀ type : TypeRef,
    (∀ input ∈ (lacking schema values literal type).getD [], first input = second input) →
      ofLiteral schema values first literal type = ofLiteral schema values second literal type := by
  induction literal using Literal.deepInduction with
  | list items ih =>
    intro type same
    rw [ofLiteral, ofLiteral, ofItems_eq_map, ofItems_eq_map]
    refine congrArg (some ∘ Json.array) (List.map_congr_left fun item member => ?_)
    rw [ih item member _ fun input left =>
      same input (mem_lackingInItems.mpr ⟨item, member, left⟩)]
  | object fields ih =>
    intro type same
    simp only [lacking, lookup_lackingInFields, Option.getD_some] at same
    simp only [ofLiteral, lookup_ofFields]
    refine congrArg (some ∘ Json.inLists type ∘ Json.object)
      (declaredMembers_congr_of_lacking (fun name literal isValue => ?_) same [])
    exact ih _ (Literal.mem_of_fieldValue? isValue)
  | _ => exact fun _ _ => rfl

/-- The arguments of a selected field, given the values of defaults. -/
def argumentsWith (schema : Schema) (values : Members) (default : Default)
    (declared : List InputValue) (field : Field) : Members :=
  declaredMembers default
    (fun name type => (field.argument? name).bind fun literal =>
      ofLiteral schema values default literal type)
    declared []

/-! ### Reading defaults -/

/-- The steps of reading the defaults of inputs one after another, each of them after those that it
leads to, counted by defaults. The result is what they come to. -/
inductive Reads (schema : Schema) (values : Members) : List InputValue → Default → Nat → Prop
  | done {result : Default} : Reads schema values [] result 0
  | next {input : InputValue} {rest : List InputValue} {below result : Default}
      {inner steps : Nat} (inside : Reads schema values (leadsTo schema values input) below inner)
      (comes : result input = input.default?.bind fun literal =>
        ofLiteral schema values below literal input.type)
      (later : Reads schema values rest result steps) :
      Reads schema values (input :: rest) result (inner + steps + 1)

/-- Defaults are read in one way, and come to one value each. -/
theorem Reads.unique {inputs : List InputValue} {result : Default} {steps : Nat}
    (reads : Reads schema values inputs result steps) : ∀ {other : Default} {others : Nat},
      Reads schema values inputs other others →
        others = steps ∧ ∀ input ∈ inputs, other input = result input := by
  induction reads with
  | done =>
    intro other others second
    cases second
    exact ⟨rfl, List.forall_mem_nil _⟩
  | @next input _ _ _ _ _ _ comes _ ihInside ihLater =>
    intro other others second
    cases second with
    | next inside' comes' later' =>
      obtain ⟨rfl, sameBelow⟩ := ihInside inside'
      obtain ⟨rfl, sameRest⟩ := ihLater later'
      refine ⟨rfl, List.forall_mem_cons.mpr ⟨?_, sameRest⟩⟩
      rw [comes, comes']
      cases isDefault : input.default? with
      | none => rfl
      | some literal =>
        refine ofLiteral_congr literal _ fun lacked member => sameBelow lacked ?_
        rw [leadsTo, isDefault]
        exact member

/-- With one more round, a default is read with what it leads to. -/
theorem defaultOf_succ (schema : Schema) (values : Members) (rounds : Nat) (input : InputValue) :
    defaultOf schema values (rounds + 1) input = input.default?.bind fun literal =>
      ofLiteral schema values (defaultOf schema values rounds) literal input.type := by
  rw [defaultOf]
  cases input.default? <;> rfl

/-- Defaults that settle are read, and what they come to are their values. -/
theorem exists_reads (rounds : Nat) : ∀ {inputs : List InputValue},
    inputs.all (settlesWithin schema values rounds) = true →
      ∃ steps, Reads schema values inputs (defaultOf schema values rounds) steps := by
  induction rounds with
  | zero =>
    intro inputs settled
    cases inputs with
    | nil => exact ⟨0, .done⟩
    | cons input rest => cases settled
  | succ rounds ihRounds =>
    intro inputs settled
    induction inputs with
    | nil => exact ⟨0, .done⟩
    | cons input rest ih =>
      obtain ⟨here, later⟩ := Bool.and_eq_true_iff.mp settled
      obtain ⟨inner, inside⟩ := ihRounds here
      obtain ⟨steps, later⟩ := ih later
      exact ⟨_, .next inside (defaultOf_succ ..) later⟩

/-- An input whose default has to be read before that of another one. -/
def Precedes (schema : Schema) (values : Members) (other input : InputValue) : Prop :=
  other ∈ leadsTo schema values input

/-- What has to be read before an input that is read does not go on for ever. -/
theorem Reads.acc {inputs : List InputValue} {result : Default} {steps : Nat}
    (reads : Reads schema values inputs result steps) :
    ∀ input ∈ inputs, Acc (Precedes schema values) input := by
  induction reads with
  | done => exact List.forall_mem_nil _
  | next _ _ _ ihInside ihLater =>
    exact List.forall_mem_cons.mpr ⟨.intro _ ihInside, ihLater⟩

end Input

namespace Schema

open Input (Precedes settlesWithin)

variable {schema : Schema} {values : Members}

/-! ### Enough rounds -/

/-- There is one more round than there are fields of inputs. -/
theorem defaultRounds_eq (schema : Schema) :
    Input.defaultRounds schema = schema.inputFields.length + 1 := by
  unfold Input.defaultRounds inputFields
  induction schema.types with
  | nil => rfl
  | cons type rest ih =>
    rw [List.foldr_cons, List.flatMap_cons, List.length_append, Nat.add_assoc, ih, Nat.add_assoc]

/-- Defaults lead to fields of input types only. -/
theorem Leads.mem_inputFields {input other : InputValue} (leads : schema.Leads input other) :
    other ∈ schema.inputFields := by
  obtain ⟨literal, _, left⟩ := leads
  exact mem_inputFields_of_mem_omitted literal left

/-- A default whose reading needs another one leads to it. -/
theorem leads_of_precedes {input other : InputValue}
    (before : Input.Precedes schema values other input) : schema.Leads input other := by
  unfold Input.Precedes Input.leadsTo at before
  cases isDefault : input.default? with
  | none =>
    rw [isDefault] at before
    cases before
  | some literal =>
    rw [isDefault] at before
    exact ⟨literal, isDefault, Input.omitted_of_lacking literal before⟩

variable {leads : InputValue → InputValue → Prop}
  (inside : ∀ {input other}, leads input other → other ∈ schema.inputFields)
  (ends : ∀ input, ¬ Relation.TransGen leads input input)
  {motive : Nat → InputValue → Prop}
  (passes : ∀ rounds input, (∀ other, leads input other → motive rounds other) →
    motive (rounds + 1) input)
include inside ends passes

/-- What is passed on from the inputs that an input leads to, one round each, holds of every input
that a chain of others led to, if there are rounds for all inputs that are not among them. -/
theorem holds_of_chain : ∀ (rounds : Nat) {seen : List InputValue} {input : InputValue},
    seen.Nodup → seen ⊆ schema.inputFields →
      (∀ other ∈ seen, Relation.ReflTransGen leads other input) →
      schema.inputFields.length < rounds + seen.length → motive rounds input := by
  intro rounds
  induction rounds with
  | zero =>
    intro seen input nodup isField _ enough
    have bounded := (List.subperm_of_subset nodup isField).length_le
    omega
  | succ rounds ih =>
    intro seen input nodup isField chain enough
    refine passes rounds input fun other follows => ?_
    -- An input that was met before would lead back to itself.
    have fresh : other ∉ seen := fun met => ends other (.tail' (chain other met) follows)
    refine ih (List.nodup_cons.mpr ⟨fresh, nodup⟩)
      (List.cons_subset.mpr ⟨inside follows, isField⟩) ?_ ?_
    · exact List.forall_mem_cons.mpr ⟨.refl, fun before met => (chain before met).tail follows⟩
    · rw [List.length_cons]
      omega

/-- **The rounds suffice.** Where no input leads back to itself, what is passed on from the inputs
that an input leads to, one round each, holds of every input after the rounds that there are. -/
theorem holds_of_rounds (input : InputValue) : motive (Input.defaultRounds schema) input := by
  refine holds_of_chain inside ends passes _ List.nodup_nil (List.nil_subset _)
    (List.forall_mem_nil _) ?_
  rw [defaultRounds_eq]
  exact Nat.lt_succ_self _

omit inside ends passes

/-- Every default settles where none leads back to itself. -/
theorem settles_of_ends (ends : ∀ input, ¬ Relation.TransGen schema.Leads input input)
    (values : Members) (input : InputValue) :
    settlesWithin schema values (Input.defaultRounds schema) input = true := by
  refine holds_of_rounds (motive := fun rounds input => settlesWithin schema values rounds input)
    Leads.mem_inputFields ends (fun rounds input settled => ?_) input
  exact List.all_eq_true.mpr fun other member => settled other (leads_of_precedes member)

/-- What can be read before an input does not lead back to it. -/
theorem not_transGen_of_acc {input : InputValue}
    (accessible : Acc (fun other input => leads input other) input) :
    ¬ Relation.TransGen leads input input := by
  induction accessible with
  | intro input _ ih =>
    intro cycle
    obtain ⟨other, follows, back⟩ := Relation.TransGen.head'_iff.mp cycle
    exact ih other follows (.tail' back follows)

/-- A default settles if what has to be read before it does not go on for ever. -/
theorem settles_of_acc {input : InputValue} (accessible : Acc (Precedes schema values) input) :
    settlesWithin schema values (Input.defaultRounds schema) input = true := by
  -- Elsewhere defaults may lead back to themselves, so only the inputs that can be read count.
  have ends : ∀ input, ¬ Relation.TransGen (fun input other =>
      Acc (Precedes schema values) input ∧ Precedes schema values other input) input input := by
    intro input cycle
    obtain ⟨_, ⟨accessible, _⟩, _⟩ := Relation.TransGen.head'_iff.mp cycle
    exact not_transGen_of_acc accessible (cycle.lift id fun _ _ step => step.2)
  refine holds_of_rounds (motive := fun rounds input => Acc (Precedes schema values) input →
      settlesWithin schema values rounds input = true)
    (fun step => (leads_of_precedes step.2).mem_inputFields) ends
    (fun rounds input settled accessible => ?_) input accessible
  exact List.all_eq_true.mpr fun other member =>
    settled other ⟨accessible, member⟩ (accessible.inv member)

/-- **Defaults settle exactly if they are read.** -/
theorem settle_iff {inputs : List InputValue} : Input.settle schema values inputs = true ↔
    ∃ result steps, Input.Reads schema values inputs result steps := by
  constructor
  · intro settled
    obtain ⟨steps, reads⟩ := Input.exists_reads _ settled
    exact ⟨_, steps, reads⟩
  · rintro ⟨result, steps, reads⟩
    exact List.all_eq_true.mpr fun input member => settles_of_acc (reads.acc input member)

/-- What defaults that settle come to are their values. -/
theorem exists_reads_default {inputs : List InputValue}
    (settled : Input.settle schema values inputs = true) :
    ∃ steps, Input.Reads schema values inputs (Input.default schema values) steps :=
  Input.exists_reads _ settled

/-- Inputs settle where no default leads back to itself. -/
theorem settle_of_ends (ends : ∀ input, ¬ Relation.TransGen schema.Leads input input)
    (values : Members) (inputs : List InputValue) :
    Input.settle schema values inputs = true :=
  List.all_eq_true.mpr fun input _ => settles_of_ends ends values input

/-- A schema of people whose friends come in pages. The default for a page leads to that for where
it begins, which leads to that for an id. -/
def pagedSource : String :=
  "type Query \x7b me: Person \x7d
   type Person implements Named \x7b name: String friends(page: Page = \x7b\x7d): [Person] \x7d
   interface Named \x7b name: String \x7d
   input Page \x7b size: Int = 10 start: Start = \x7b\x7d \x7d
   input Start \x7b id: ID = 0 \x7d"

/-- How far the defaults for pages lead. -/
def pagedRank (input : InputValue) : Nat :=
  if input.name = "page" then 2 else if input.name = "start" then 1 else 0

end Schema

end TraversalQuery
