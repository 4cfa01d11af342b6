import TraversalQuery.Proofs.Response.Equivalence
import TraversalQuery.Proofs.Response.Settling

/-!
# Walks end

The steps of a walk, with nothing that limits them: selections are collected one after another, a
fragment where it is first spread, and the fields that were collected are asked for one after
another, each after the defaults are read that its arguments take, and with the objects inside it.
A request without problems has at most one such walk. Where no default leads back to itself, it
takes finitely many steps, whatever the resolver answers, and its outcome is the response.
-/

namespace TraversalQuery

namespace QueryScope

/-! ### Collecting -/

/-- The steps of collecting selections on an object, counted by selections that are looked at. -/
inductive Collects (scope : QueryScope) (object : SchemaType) :
    List Selection → Collected → Nat → Collected → Prop
  | done {collected : Collected} : Collects scope object [] collected 0 collected
  | excluded {selection : Selection} {rest : List Selection} {collected after : Collected}
      {steps : Nat} (out : scope.includes selection.directives = false)
      (later : Collects scope object rest collected steps after) :
      Collects scope object (selection :: rest) collected (steps + 1) after
  | field {field : Field} {selections rest : List Selection} {braces? : Option Span}
      {collected after : Collected} {steps : Nat}
      (included : scope.includes field.directives = true)
      (later : Collects scope object rest
        { collected with groups := collected.groups.add field.responseKey ⟨field, selections⟩ }
        steps after) :
      Collects scope object (.field field selections braces? :: rest) collected (steps + 1) after
  | again {name : String} {directives : List Directive} {span : Span} {rest : List Selection}
      {collected after : Collected} {steps : Nat} (included : scope.includes directives = true)
      (visited : name ∈ collected.visited)
      (later : Collects scope object rest collected steps after) :
      Collects scope object (.spread name directives span :: rest) collected (steps + 1) after
  | barred {name : String} {directives : List Directive} {span : Span} {rest : List Selection}
      {collected after : Collected} {steps : Nat} (included : scope.includes directives = true)
      (fresh : name ∉ collected.visited)
      (nowhere : ∀ fragment, Fragment.find? scope.fragments name = some fragment →
        object.satisfies fragment.condition = false)
      (later : Collects scope object rest { collected with visited := name :: collected.visited }
        steps after) :
      Collects scope object (.spread name directives span :: rest) collected (steps + 1) after
  | spread {name : String} {directives : List Directive} {span : Span} {rest : List Selection}
      {fragment : Fragment} {collected between after : Collected} {inner steps : Nat}
      (included : scope.includes directives = true) (fresh : name ∉ collected.visited)
      (found : Fragment.find? scope.fragments name = some fragment)
      (satisfied : object.satisfies fragment.condition = true)
      (inside : Collects scope object fragment.selections
        { collected with visited := name :: collected.visited } inner between)
      (later : Collects scope object rest between steps after) :
      Collects scope object (.spread name directives span :: rest) collected
        (inner + steps + 1) after
  | apart {condition? : Option String} {directives : List Directive}
      {selections rest : List Selection} {braces span : Span} {collected after : Collected}
      {steps : Nat} (included : scope.includes directives = true)
      (unfit : admits object condition? = false)
      (later : Collects scope object rest collected steps after) :
      Collects scope object (.inline condition? directives selections braces span :: rest)
        collected (steps + 1) after
  | inline {condition? : Option String} {directives : List Directive}
      {selections rest : List Selection} {braces span : Span}
      {collected between after : Collected} {inner steps : Nat}
      (included : scope.includes directives = true) (fits : admits object condition? = true)
      (inside : Collects scope object selections collected inner between)
      (later : Collects scope object rest between steps after) :
      Collects scope object (.inline condition? directives selections braces span :: rest)
        collected (inner + steps + 1) after

namespace Collects

variable {scope : QueryScope} {object : SchemaType} {selections more : List Selection}
  {before between after : Collected} {steps others : Nat}

/-- What was visited stays visited. -/
theorem visited_subset (collects : scope.Collects object selections before steps after) :
    before.visited ⊆ after.visited := by
  induction collects with
  | done => exact fun _ => id
  | excluded _ _ ih => exact ih
  | field _ _ ih => exact ih
  | again _ _ _ ih => exact ih
  | barred _ _ _ _ ih => exact fun _ member => ih (List.mem_cons_of_mem _ member)
  | spread _ _ _ _ _ _ ihInside ihLater =>
    exact fun _ member => ihLater (ihInside (List.mem_cons_of_mem _ member))
  | apart _ _ _ ih => exact ih
  | inline _ _ _ _ ihInside ihLater => exact fun _ member => ihLater (ihInside member)

/-- Collecting goes one way only. -/
theorem unique (collects : scope.Collects object selections before steps after) :
    ∀ {others : Nat} {other : Collected},
      scope.Collects object selections before others other → others = steps ∧ other = after := by
  induction collects with
  | done =>
    intro others other second
    cases second
    exact ⟨rfl, rfl⟩
  | _ =>
    intro others other second
    cases second <;> grind [Selection.directives]

end Collects

variable {scope : QueryScope} {object : SchemaType} {rounds : Nat}

/-- What a round of collecting finds is found by steps, if each fragment that is left has a round of
its own. -/
def Steps (scope : QueryScope) (object : SchemaType) (rounds : Nat) (selections : List Selection) :
    Prop :=
  ∀ collected : Collected,
    Fragment.unseenWeight (fun _ => 1) collected.visited scope.fragments ≤ rounds →
      ∃ steps, scope.Collects object selections collected steps
        (scope.collectSelections (scope.collectFragment object rounds) object collected selections)

/-- A spread is collected by steps before what comes after it. -/
theorem exists_collects_spread
    (deeper : ∀ left, rounds = left + 1 → ∀ selections, scope.Steps object left selections)
    {name : String} {directives : List Directive} {span : Span}
    {collected after : Collected} {rest : List Selection} {steps : Nat}
    (enough : Fragment.unseenWeight (fun _ => 1) collected.visited scope.fragments ≤ rounds)
    (included : scope.includes directives = true)
    (later : scope.Collects object rest (scope.collectSelection
      (scope.collectFragment object rounds) object collected (.spread name directives span))
        steps after) :
    ∃ total, scope.Collects object (.spread name directives span :: rest) collected total
      after := by
  unfold collectSelection at later
  by_cases visited : name ∈ collected.visited
  · rw [if_neg (by simpa [included] using visited)] at later
    exact ⟨_, .again included visited later⟩
  · rw [if_pos (by simpa [included] using visited)] at later
    dsimp only at later
    split at later
    · rename_i missing
      exact ⟨_, .barred included visited (by simp [missing]) later⟩
    · rename_i fragment found
      split at later
      · rename_i satisfied
        obtain ⟨left, rfl, fewer⟩ := Fragment.exists_round enough visited found
        obtain ⟨_, inside⟩ := deeper left rfl fragment.selections
          { collected with visited := name :: collected.visited } fewer
        exact ⟨_, .spread included visited found satisfied inside later⟩
      · rename_i unsatisfied
        exact ⟨_, .barred included visited (by simpa [found] using unsatisfied) later⟩

mutual

/-- A selection is collected by steps before what comes after it. -/
theorem exists_collects_cons
    (deeper : ∀ left, rounds = left + 1 → ∀ selections, scope.Steps object left selections) :
    ∀ (selection : Selection) {collected after : Collected} {rest : List Selection} {steps : Nat},
      Fragment.unseenWeight (fun _ => 1) collected.visited scope.fragments ≤ rounds →
        scope.Collects object rest (scope.collectSelection (scope.collectFragment object rounds)
          object collected selection) steps after →
          ∃ total, scope.Collects object (selection :: rest) collected total after
  | .field field selections braces?, collected, after, rest, steps, enough, later => by
    unfold collectSelection at later
    split at later
    · rename_i included
      exact ⟨_, .field included later⟩
    · rename_i out
      exact ⟨_, .excluded (Bool.eq_false_iff.mpr out) later⟩
  | .spread name directives span, collected, after, rest, steps, enough, later => by
    cases included : scope.includes directives with
    | true => exact exists_collects_spread deeper enough included later
    | false =>
      simp only [collectSelection, included, Bool.false_and] at later
      exact ⟨_, .excluded included later⟩
  | .inline condition? directives selections braces span, collected, after, rest, steps, enough,
      later => by
    unfold collectSelection at later
    cases included : scope.includes directives with
    | false =>
      simp only [included, Bool.false_and] at later
      exact ⟨_, .excluded included later⟩
    | true =>
      cases fits : admits object condition? with
      | false =>
        simp only [included, fits, Bool.true_and] at later
        exact ⟨_, .apart included fits later⟩
      | true =>
        simp only [included, fits, Bool.true_and, if_true] at later
        obtain ⟨_, inside⟩ := exists_collects_all deeper selections collected enough
        exact ⟨_, .inline included fits inside later⟩

/-- Selections are collected in finitely many steps if the fragments that they spread are. -/
theorem exists_collects_all
    (deeper : ∀ left, rounds = left + 1 → ∀ selections, scope.Steps object left selections) :
    ∀ selections : List Selection, scope.Steps object rounds selections
  | [], collected, _ => ⟨0, .done⟩
  | selection :: rest, collected, enough => by
    obtain ⟨_, first⟩ := exists_collects_cons deeper selection enough .done
    have fewer := Fragment.unseenWeight_le_of_subset (fun _ => 1) first.visited_subset
      scope.fragments
    obtain ⟨_, later⟩ := exists_collects_all deeper rest _ (Nat.le_trans fewer enough)
    exact exists_collects_cons deeper selection enough later

end

/-- Rounds of collecting that suffice find what is found by steps. -/
theorem steps_of_rounds (scope : QueryScope) (object : SchemaType) (rounds : Nat) :
    ∀ selections, scope.Steps object rounds selections := by
  induction rounds with
  | zero => exact exists_collects_all nofun
  | succ left ih =>
    refine exists_collects_all fun other same => ?_
    obtain rfl := Nat.succ.inj same
    exact ih

/-- All selections are collected for all objects in finitely many steps, even where fragments lead
to themselves. -/
theorem exists_collects (scope : QueryScope) (object : SchemaType) (selections : List Selection) :
    ∃ steps found, scope.Collects object selections ⟨[], []⟩ steps found ∧
      found.groups = scope.collect object selections := by
  obtain ⟨steps, collects⟩ := steps_of_rounds scope object scope.fragments.length selections
    ⟨[], []⟩ (Nat.le_of_eq (Fragment.unseenWeight_one_nil _))
  exact ⟨steps, _, collects, rfl⟩

/-- What selections collect by steps are their groups. -/
theorem Collects.groups_eq {selections : List Selection} {steps : Nat} {found : Collected}
    (collects : scope.Collects object selections ⟨[], []⟩ steps found) :
    found.groups = scope.collect object selections := by
  obtain ⟨_, other, others, same⟩ := scope.exists_collects object selections
  rw [← (collects.unique others).2, same]

/-! ### Walking -/

variable {σ ε : Type}

/-- What comes of a group of fields at first: a value that is known at once, or a field to visit. -/
def opening (scope : QueryScope) (object : SchemaType) (path : ResponsePath)
    (parent? : Option ParentField) (key : String) (fields : List SelectedField) :
    Json ⊕ Field × FieldVisit :=
  match fields.head? with
  | none => .inl .null
  | some first =>
    if first.field.name = "__typename" then .inl (.string object.name)
    else match object.field? first.field.name with
      | none => .inl .null
      | some definition =>
        .inr (first.field, scope.visit object definition key first.field path parent?)

/-- The steps of reading the arguments of a field that is visited: the defaults of the inputs that
it does not give are read, and what is visited has what they come to. -/
def ReadsArguments (scope : QueryScope) (field : Field) (visit : FieldVisit) (steps : Nat) : Prop :=
  ∃ result,
    Input.Reads scope.schema scope.variableValues
      (Input.lackingArguments scope.schema scope.variableValues visit.definition.arguments field)
      result steps ∧
    visit.arguments = Input.argumentsWith scope.schema scope.variableValues result
      visit.definition.arguments field

/-- What comes of the answer to a visit: a value, or a declared type to walk into. -/
def reply (visit : FieldVisit) : Answer → Json ⊕ SchemaType
  | .null => .inl .null
  | .leaf value => .inl (listed visit.definition.type.isList value)
  | .object =>
    match visit.output? with
    | none => .inl .null
    | some declared => .inr declared

/-- The steps of walking over the groups of fields of an object, counted by groups that are asked
for, selections that are looked at and defaults that are read. The walk ends after the last group,
or where the resolver fails. -/
inductive Walks (scope : QueryScope) (resolve : Resolver σ ε) :
    SchemaType → ResponsePath → Option ParentField → FieldGroups → Members → σ → Nat →
      Except ε Members × σ → Prop
  | done {object : SchemaType} {path : ResponsePath} {parent? : Option ParentField}
      {members : Members} {state : σ} :
      Walks scope resolve object path parent? [] members state 0 (.ok members, state)
  | known {object : SchemaType} {path : ResponsePath} {parent? : Option ParentField} {key : String}
      {fields : List SelectedField} {rest : FieldGroups} {members : Members} {state : σ}
      {steps : Nat} {outcome : Except ε Members × σ} {value : Json}
      (opens : scope.opening object path parent? key fields = .inl value)
      (later : Walks scope resolve object path parent? rest (Members.insert key value members) state
        steps outcome) :
      Walks scope resolve object path parent? ((key, fields) :: rest) members state (steps + 1)
        outcome
  | refused {object : SchemaType} {path : ResponsePath} {parent? : Option ParentField}
      {key : String} {fields : List SelectedField} {rest : FieldGroups} {members : Members}
      {state after : σ} {reading : Nat} {field : Field} {visit : FieldVisit} {error : ε}
      (opens : scope.opening object path parent? key fields = .inr (field, visit))
      (reads : scope.ReadsArguments field visit reading)
      (refuses : (resolve visit).on state = (.error error, after)) :
      Walks scope resolve object path parent? ((key, fields) :: rest) members state
        (reading + 1) (.error error, after)
  | plain {object : SchemaType} {path : ResponsePath} {parent? : Option ParentField} {key : String}
      {fields : List SelectedField} {rest : FieldGroups} {members : Members} {state between : σ}
      {reading steps : Nat} {outcome : Except ε Members × σ} {field : Field} {visit : FieldVisit}
      {answer : Answer} {value : Json}
      (opens : scope.opening object path parent? key fields = .inr (field, visit))
      (reads : scope.ReadsArguments field visit reading)
      (answers : (resolve visit).on state = (.ok answer, between))
      (replies : reply visit answer = .inl value)
      (later : Walks scope resolve object path parent? rest (Members.insert key value members)
        between steps outcome) :
      Walks scope resolve object path parent? ((key, fields) :: rest) members state
        (reading + steps + 1) outcome
  | stopped {object : SchemaType} {path : ResponsePath} {parent? : Option ParentField}
      {key : String} {fields : List SelectedField} {rest : FieldGroups} {members : Members}
      {state between after : σ} {reading gathering inner : Nat} {field : Field} {visit : FieldVisit}
      {answer : Answer} {declared : SchemaType} {found : Collected} {error : ε}
      (opens : scope.opening object path parent? key fields = .inr (field, visit))
      (reads : scope.ReadsArguments field visit reading)
      (answers : (resolve visit).on state = (.ok answer, between))
      (replies : reply visit answer = .inr declared)
      (collects : scope.Collects (scope.schema.runtimeType declared)
        (fields.flatMap (·.selections)) ⟨[], []⟩ gathering found)
      (inside : Walks scope resolve (scope.schema.runtimeType declared) visit.path
        (some ⟨visit.definition, visit.path⟩) found.groups [] between inner (.error error, after)) :
      Walks scope resolve object path parent? ((key, fields) :: rest) members state
        (reading + gathering + inner + 1) (.error error, after)
  | object {object : SchemaType} {path : ResponsePath} {parent? : Option ParentField}
      {key : String} {fields : List SelectedField} {rest : FieldGroups} {members value : Members}
      {state between after : σ} {reading gathering inner steps : Nat}
      {outcome : Except ε Members × σ} {field : Field} {visit : FieldVisit} {answer : Answer}
      {declared : SchemaType} {found : Collected}
      (opens : scope.opening object path parent? key fields = .inr (field, visit))
      (reads : scope.ReadsArguments field visit reading)
      (answers : (resolve visit).on state = (.ok answer, between))
      (replies : reply visit answer = .inr declared)
      (collects : scope.Collects (scope.schema.runtimeType declared)
        (fields.flatMap (·.selections)) ⟨[], []⟩ gathering found)
      (inside : Walks scope resolve (scope.schema.runtimeType declared) visit.path
        (some ⟨visit.definition, visit.path⟩) found.groups [] between inner (.ok value, after))
      (later : Walks scope resolve object path parent? rest
        (Members.insert key (listed visit.definition.type.isList (.object value)) members) after
        steps outcome) :
      Walks scope resolve object path parent? ((key, fields) :: rest) members state
        (reading + gathering + inner + steps + 1) outcome

variable {resolve : Resolver σ ε}

/-- The arguments of a field are read in one way. -/
theorem ReadsArguments.unique {field : Field} {visit : FieldVisit} {steps others : Nat}
    (first : scope.ReadsArguments field visit steps)
    (second : scope.ReadsArguments field visit others) : others = steps := by
  obtain ⟨_, reads, _⟩ := first
  obtain ⟨_, reads', _⟩ := second
  exact (reads.unique reads').1

/-- A walk goes one way only. -/
theorem Walks.unique {path : ResponsePath} {parent? : Option ParentField} {groups : FieldGroups}
    {members : Members} {state : σ} {steps : Nat} {outcome : Except ε Members × σ}
    (walks : scope.Walks resolve object path parent? groups members state steps outcome) :
    ∀ {others : Nat} {other : Except ε Members × σ},
      scope.Walks resolve object path parent? groups members state others other →
        others = steps ∧ other = outcome := by
  induction walks with
  | done =>
    intro others other second
    cases second
    exact ⟨rfl, rfl⟩
  | _ =>
    intro others other second
    cases second <;> grind [Collects.unique, ReadsArguments.unique]

section

variable {path : ResponsePath} {parent? : Option ParentField} {key : String}
  {fields : List SelectedField} {field : Field} {visit : FieldVisit}

/-- A field that is visited is visited with the arguments that it has by the defaults. -/
theorem arguments_of_opening
    (opens : scope.opening object path parent? key fields = .inr (field, visit)) :
    visit.arguments =
      Input.arguments scope.schema scope.variableValues visit.definition.arguments field := by
  unfold opening at opens
  split at opens
  · cases opens
  · split at opens
    · cases opens
    · split at opens
      · cases opens
      · cases opens
        rfl

/-- The arguments of a field that is visited are read by steps exactly if their defaults settle. -/
theorem settles_iff_readsArguments
    (opens : scope.opening object path parent? key fields = .inr (field, visit)) :
    scope.settles visit.definition field = true ↔
      ∃ steps, scope.ReadsArguments field visit steps := by
  constructor
  · intro settled
    obtain ⟨steps, reads⟩ := Schema.exists_reads_default settled
    exact ⟨steps, _, reads, arguments_of_opening opens⟩
  · rintro ⟨steps, result, reads, _⟩
    exact Schema.settle_iff.mpr ⟨result, steps, reads⟩

/-- The value that a reply comes to: it is known, or it is the object that is walked into. -/
def replied (scope : QueryScope) (inner : WalkObject σ ε) (visit : FieldVisit)
    (selections : List Selection) : Json ⊕ SchemaType → Walk σ ε Json
  | .inl value => pure value
  | .inr declared =>
    inner (scope.schema.runtimeType declared) selections visit.path
      (some ⟨visit.definition, visit.path⟩) >>= fun members =>
        pure (listed visit.definition.type.isList (.object members))

/-- The value of a group, by what comes of it at first and of the answer to it. -/
theorem fieldValue_eq (inner : WalkObject σ ε) (path : ResponsePath)
    (parent? : Option ParentField) (key : String) (fields : List SelectedField) :
    scope.fieldValue resolve inner object path parent? key fields =
      match scope.opening object path parent? key fields with
      | .inl value => pure value
      | .inr (field, visit) =>
        if scope.settles visit.definition field then
          ExceptT.adapt WalkStop.refused (resolve visit) >>= fun answer =>
            scope.replied inner visit (fields.flatMap (·.selections)) (reply visit answer)
        else throw .unsettled := by
  unfold fieldValue opening
  cases fields.head? with
  | none => rfl
  | some first =>
    dsimp only
    split
    · rfl
    · cases object.field? first.field.name with
      | none => rfl
      | some definition =>
        refine if_congr Iff.rfl (bind_congr fun answer => ?_) rfl
        cases answer with
        | null => rfl
        | leaf value => rfl
        | object =>
          unfold answered reply
          cases (scope.visit object definition key first.field path parent?).output? with
          | none => rfl
          | some declared => exact bind_assoc _ _ _

end

/-- How a walk ends that ends as its steps do. -/
def ending (outcome : Except ε Members × σ) : Except (WalkStop ε) Members × σ :=
  (outcome.1.mapError .refused, outcome.2)

section

variable {inner : WalkObject σ ε} {path : ResponsePath} {parent? : Option ParentField}
  {key : String} {fields : List SelectedField} {rest : FieldGroups} {members : Members}
  {state between after : σ} {field : Field} {visit : FieldVisit} {answer : Answer}

/-- A value that is known is put in, and the walk goes on. -/
theorem on_groupValues_known {value : Json}
    (opens : scope.opening object path parent? key fields = .inl value) :
    (groupValues (scope.fieldValue resolve inner object path parent?) ((key, fields) :: rest)
      members).on state =
        (groupValues (scope.fieldValue resolve inner object path parent?) rest
          (Members.insert key value members)).on state := by
  rw [groupValues, fieldValue_eq, opens, pure_bind]

/-- The walk stops at a field whose arguments are never read. -/
theorem on_groupValues_unsettled
    (opens : scope.opening object path parent? key fields = .inr (field, visit))
    (unsettled : scope.settles visit.definition field = false) :
    (groupValues (scope.fieldValue resolve inner object path parent?) ((key, fields) :: rest)
      members).on state = (.error .unsettled, state) := by
  rw [groupValues, fieldValue_eq, opens]
  simp only [unsettled]
  rfl

variable (opens : scope.opening object path parent? key fields = .inr (field, visit))
  (settled : scope.settles visit.definition field = true)
include opens settled

/-- A field whose arguments are read is asked for before the walk goes on. -/
theorem groupValues_visited :
    groupValues (scope.fieldValue resolve inner object path parent?) ((key, fields) :: rest)
      members =
        ExceptT.adapt WalkStop.refused (resolve visit) >>= fun answer =>
          scope.replied inner visit (fields.flatMap (·.selections)) (reply visit answer) >>=
            fun value => groupValues (scope.fieldValue resolve inner object path parent?) rest
              (Members.insert key value members) := by
  rw [groupValues, fieldValue_eq, opens]
  simp only [settled, if_true]
  exact bind_assoc _ _ _

/-- The walk stops with the error of the resolver. -/
theorem on_groupValues_refused {error : ε}
    (refuses : (resolve visit).on state = (.error error, after)) :
    (groupValues (scope.fieldValue resolve inner object path parent?) ((key, fields) :: rest)
      members).on state = (.error (.refused error), after) := by
  rw [groupValues_visited opens settled, ExceptT.on_bind, ExceptT.on_adapt, refuses]
  rfl

/-- A value that the resolver answers is put in, and the walk goes on. -/
theorem on_groupValues_plain {value : Json}
    (answers : (resolve visit).on state = (.ok answer, between))
    (replies : reply visit answer = .inl value) :
    (groupValues (scope.fieldValue resolve inner object path parent?) ((key, fields) :: rest)
      members).on state =
        (groupValues (scope.fieldValue resolve inner object path parent?) rest
          (Members.insert key value members)).on between := by
  rw [groupValues_visited opens settled, ExceptT.on_bind, ExceptT.on_adapt, answers]
  simp only [Except.mapError, replies, replied, pure_bind]

/-- An object that the resolver answers is walked into before the walk goes on. -/
theorem on_groupValues_object {declared : SchemaType}
    (answers : (resolve visit).on state = (.ok answer, between))
    (replies : reply visit answer = .inr declared) :
    (groupValues (scope.fieldValue resolve inner object path parent?) ((key, fields) :: rest)
      members).on state =
        (inner (scope.schema.runtimeType declared) (fields.flatMap (·.selections)) visit.path
          (some ⟨visit.definition, visit.path⟩) >>= fun value =>
            groupValues (scope.fieldValue resolve inner object path parent?) rest
              (Members.insert key (listed visit.definition.type.isList (.object value))
                members)).on between := by
  rw [groupValues_visited opens settled, ExceptT.on_bind, ExceptT.on_adapt, answers]
  simp only [Except.mapError, replies, replied, bind_assoc, pure_bind]

end

/-- Steps of a walk lead where the walk to any depth leads that is not too small. -/
theorem Walks.on_groupValues {path : ResponsePath} {parent? : Option ParentField}
    {groups : FieldGroups} {members : Members} {state : σ} {steps : Nat}
    {outcome : Except ε Members × σ}
    (walks : scope.Walks resolve object path parent? groups members state steps outcome) :
    ∀ depth : Nat,
      (groupValues (scope.fieldValue resolve (scope.walkObject resolve depth) object path parent?)
        groups members).on state = ending outcome ∨
      ((groupValues (scope.fieldValue resolve (scope.walkObject resolve depth) object path parent?)
        groups members).on state).1 = .error .endless := by
  induction walks with
  | done => exact fun _ => .inl rfl
  | known opens _ ih =>
    intro depth
    rw [on_groupValues_known opens]
    exact ih depth
  | refused opens reads refuses =>
    intro depth
    rw [on_groupValues_refused opens ((settles_iff_readsArguments opens).mpr ⟨_, reads⟩) refuses]
    exact .inl rfl
  | plain opens reads answers replies _ ih =>
    intro depth
    rw [on_groupValues_plain opens ((settles_iff_readsArguments opens).mpr ⟨_, reads⟩) answers
      replies]
    exact ih depth
  | stopped opens reads answers replies collects _ ih =>
    intro depth
    rw [on_groupValues_object opens ((settles_iff_readsArguments opens).mpr ⟨_, reads⟩) answers
      replies, ExceptT.on_bind]
    cases depth with
    | zero => exact .inr rfl
    | succ depth =>
      rw [walkObject, ← collects.groups_eq]
      rcases came : (groupValues _ _ _).on _ with ⟨outcome, final⟩
      rcases came ▸ ih depth with same | endless
      · cases same
        exact .inl rfl
      · cases endless
        exact .inr rfl
  | object opens reads answers replies collects _ _ ihInside ihLater =>
    intro depth
    rw [on_groupValues_object opens ((settles_iff_readsArguments opens).mpr ⟨_, reads⟩) answers
      replies, ExceptT.on_bind]
    cases depth with
    | zero => exact .inr rfl
    | succ depth =>
      rw [walkObject, ← collects.groups_eq]
      rcases came : (groupValues _ _ _).on _ with ⟨outcome, final⟩
      rcases came ▸ ihInside depth with same | endless
      · cases same
        exact ihLater (depth + 1)
      · cases endless
        exact .inr rfl

/-- A walk that does not come to a stop did not come to it at first. -/
theorem ne_stop_of_bind {α β : Type} {stop : WalkStop ε} {first : Walk σ ε α}
    {next : α → Walk σ ε β} {state : σ} (avoids : ((first >>= next).on state).1 ≠ .error stop) :
    (first.on state).1 ≠ .error stop := by
  intro stops
  rw [ExceptT.on_bind] at avoids
  rcases came : first.on state with ⟨outcome, after⟩
  rw [came] at stops avoids
  obtain rfl := stops
  exact avoids rfl

/-- A walk over the selections on an object takes finitely many steps. -/
def EndsBySteps (scope : QueryScope) (resolve : Resolver σ ε) (walk : WalkObject σ ε) : Prop :=
  ∀ object selections path parent? state,
    ((walk object selections path parent?).on state).1 ≠ .error .endless →
    ((walk object selections path parent?).on state).1 ≠ .error .unsettled →
      ∃ gathering found steps outcome,
        scope.Collects object selections ⟨[], []⟩ gathering found ∧
        scope.Walks resolve object path parent? found.groups [] state steps outcome ∧
        (walk object selections path parent?).on state = ending outcome

/-- Groups are walked over by steps if the objects inside them are. -/
theorem exists_walks {inner : WalkObject σ ε} (inside : scope.EndsBySteps resolve inner)
    {path : ResponsePath} {parent? : Option ParentField} (groups : FieldGroups) :
    ∀ (members : Members) (state : σ),
      ((groupValues (scope.fieldValue resolve inner object path parent?) groups members).on
        state).1 ≠ .error .endless →
      ((groupValues (scope.fieldValue resolve inner object path parent?) groups members).on
        state).1 ≠ .error .unsettled →
        ∃ steps outcome,
          scope.Walks resolve object path parent? groups members state steps outcome ∧
          (groupValues (scope.fieldValue resolve inner object path parent?) groups members).on
            state = ending outcome := by
  induction groups with
  | nil => exact fun members state _ _ => ⟨0, _, .done, rfl⟩
  | cons group rest ih =>
    obtain ⟨key, fields⟩ := group
    intro members state ends reaches
    cases opens : scope.opening object path parent? key fields with
    | inl value =>
      rw [on_groupValues_known opens] at ends reaches ⊢
      obtain ⟨steps, outcome, later, same⟩ := ih _ _ ends reaches
      exact ⟨_, outcome, .known opens later, same⟩
    | inr visited =>
      obtain ⟨field, visit⟩ := visited
      cases settled : scope.settles visit.definition field with
      | false =>
        rw [on_groupValues_unsettled opens settled] at reaches
        exact absurd rfl reaches
      | true =>
        obtain ⟨reading, reads⟩ := (settles_iff_readsArguments opens).mp settled
        rcases answers : (resolve visit).on state with ⟨error | answer, between⟩
        · rw [on_groupValues_refused opens settled answers]
          exact ⟨_, _, .refused opens reads answers, rfl⟩
        · cases replies : reply visit answer with
          | inl value =>
            rw [on_groupValues_plain opens settled answers replies] at ends reaches ⊢
            obtain ⟨steps, outcome, later, same⟩ := ih _ _ ends reaches
            exact ⟨_, outcome, .plain opens reads answers replies later, same⟩
          | inr declared =>
            rw [on_groupValues_object opens settled answers replies] at ends reaches ⊢
            obtain ⟨gathering, found, steps, ⟨error | value, after⟩, collects, walks, same⟩ :=
              inside _ _ _ _ _ (ne_stop_of_bind ends) (ne_stop_of_bind reaches)
            · rw [ExceptT.on_bind, same]
              exact ⟨_, _, .stopped opens reads answers replies collects walks, rfl⟩
            · rw [ExceptT.on_bind, same] at ends reaches ⊢
              obtain ⟨others, outcome, later, same⟩ := ih _ _ ends reaches
              exact ⟨_, outcome, .object opens reads answers replies collects walks later, same⟩

/-- A walk that neither goes too deep nor comes to arguments that are never read takes finitely many
steps. -/
theorem endsBySteps_walkObject (depth : Nat) :
    scope.EndsBySteps resolve (scope.walkObject resolve depth) := by
  induction depth with
  | zero => exact fun _ _ _ _ _ ends => absurd rfl ends
  | succ depth ih =>
    intro object selections path parent? state ends reaches
    obtain ⟨gathering, found, collects, same⟩ := scope.exists_collects object selections
    rw [walkObject, ← same] at ends reaches ⊢
    obtain ⟨steps, outcome, walks, ended⟩ := exists_walks ih found.groups [] state ends reaches
    exact ⟨gathering, found, steps, outcome, collects, walks, ended⟩

/-- The steps of responding to selections on the root type: they are collected, and the fields that
are found are walked over. -/
def Executes (scope : QueryScope) (resolve : Resolver σ ε) (root : SchemaType)
    (selections : List Selection) (state : σ) (steps : Nat) (outcome : Except ε Members × σ) :
    Prop :=
  ∃ gathering found walking, scope.Collects root selections ⟨[], []⟩ gathering found ∧
    scope.Walks resolve root .root none found.groups [] state walking outcome ∧
    steps = gathering + walking

section

variable {root : SchemaType} {selections : List Selection} {state : σ} {steps others : Nat}
  {outcome other : Except ε Members × σ}

/-- Selections are responded to in one way. -/
theorem Executes.unique (first : scope.Executes resolve root selections state steps outcome)
    (second : scope.Executes resolve root selections state others other) :
    others = steps ∧ other = outcome := by
  obtain ⟨_, _, _, collects, walks, rfl⟩ := first
  obtain ⟨_, _, _, collects', walks', rfl⟩ := second
  obtain ⟨rfl, rfl⟩ := collects.unique collects'
  obtain ⟨rfl, rfl⟩ := walks.unique walks'
  exact ⟨rfl, rfl⟩

/-- Where no fragment leads to itself, no walk goes too deep. -/
theorem ends_respond_of_acyclic (acyclic : Fragment.Acyclic scope.fragments)
    (resolve : Resolver σ ε) (root : SchemaType) (selections : List Selection) :
    Ends (scope.respond resolve root selections) := by
  obtain ⟨expanded, expands, _⟩ := exists_expands_of_acyclic acyclic selections
  rw [respond_expands acyclic expands]
  exact ends_respond root expanded

variable (acyclic : Fragment.Acyclic scope.fragments)
include acyclic

/-- Where no fragment leads to itself, the outcome of the steps is the response. -/
theorem Executes.on_respond
    (executes : scope.Executes resolve root selections state steps outcome) :
    (scope.respond resolve root selections).on state =
      ((outcome.1.mapError .refused).map .object, outcome.2) := by
  obtain ⟨gathering, found, walking, collects, walks, rfl⟩ := executes
  have ends := ne_stop_of_bind (ends_respond_of_acyclic acyclic resolve root selections state)
  have same : (scope.walkObject resolve (scope.depthLimit selections) root selections .root
      none).on state = ending outcome := by
    rw [depthLimit, walkObject, ← collects.groups_eq] at ends ⊢
    exact (walks.on_groupValues _).resolve_right ends
  rw [respond, ExceptT.on_bind, same]
  obtain ⟨_ | _, _⟩ := outcome <;> rfl

/-- Where no fragment leads to itself, a query is responded to in finitely many steps exactly if the
walk comes to no arguments that are never read. -/
theorem exists_executes_iff : (∃ steps outcome,
    scope.Executes resolve root selections state steps outcome) ↔
      ((scope.respond resolve root selections).on state).1 ≠ .error .unsettled := by
  constructor
  · rintro ⟨steps, outcome, executes⟩
    rw [executes.on_respond acyclic]
    obtain ⟨_ | _, _⟩ := outcome <;> exact nofun
  · intro reaches
    obtain ⟨gathering, found, walking, outcome, collects, walks, _⟩ :=
      endsBySteps_walkObject _ _ _ _ _ _
        (ne_stop_of_bind (ends_respond_of_acyclic acyclic resolve root selections state))
        (ne_stop_of_bind reaches)
    exact ⟨_, outcome, gathering, found, walking, collects, walks, rfl⟩

end

end QueryScope

namespace Schema

variable {σ ε : Type}

/-- **Walks end.** Of a document without problems, where no default of the schema leads back to
itself, selections on any type are walked in one way, for all values of variables and whatever the
resolver answers. This walk takes finitely many steps, and its outcome is the response or the error
of the resolver. -/
theorem walk_takes_finitely_many_steps {schema : Schema} {document : Document}
    {operation? : Option String} (valid : document.problems schema operation? = [])
    (ends : ∀ input, ¬ Relation.TransGen schema.Leads input input) (values : Members)
    (resolve : Resolver σ ε) (root : SchemaType) (selections : List Selection) (state : σ) :
    let scope : QueryScope := ⟨schema, document.fragments, values⟩
    ∃ steps outcome, scope.Executes resolve root selections state steps outcome ∧
      (∀ others other, scope.Executes resolve root selections state others other →
        others = steps ∧ other = outcome) ∧
      (scope.respond resolve root selections).on state =
        ((outcome.1.mapError .refused).map .object, outcome.2) := by
  intro scope
  have acyclic : Fragment.Acyclic scope.fragments := Document.acyclic_of_problems valid
  have settled : ∀ definition field, scope.settles definition field = true :=
    fun _ _ => settle_of_ends ends _ _
  obtain ⟨steps, outcome, executes⟩ := (QueryScope.exists_executes_iff acyclic).mpr
    (QueryScope.settled_respond settled root selections state)
  exact ⟨steps, outcome, executes, fun _ _ => executes.unique, executes.on_respond acyclic⟩

/-- People have friends in pages, and the walk over them ends, though the resolver always has an
object to go on with and the default for a page leads to others. -/
theorem walk_takes_finitely_many_steps_friends :
    ∃ (schema : Schema) (document : Document) (operation : Operation) (root : SchemaType),
      compile [pagedSource] = .ok schema ∧
      Document.parse friendsRequest.query = .ok document ∧
      document.problems schema none = [] ∧
      (∀ input, ¬ Relation.TransGen schema.Leads input input) ∧
      document.operations = [operation] ∧ schema.rootType? operation.kind = some root ∧
      let scope : QueryScope := ⟨schema, document.fragments, friendsRequest.variableValues⟩
      ∃ steps outcome,
        scope.Executes friendsResolver root operation.selections () steps outcome ∧
        (∀ others other, scope.Executes friendsResolver root operation.selections () others other →
          others = steps ∧ other = outcome) ∧
        (scope.respond friendsResolver root operation.selections).on () =
          ((outcome.1.mapError .refused).map .object, outcome.2) := by
  have ran : (compile [pagedSource]).toOption.bind (fun schema =>
      (Document.parse friendsRequest.query).toOption.map fun document =>
        ((document.problems schema none).isEmpty, decide (schema.RanksDefaults pagedRank),
          document.operations.length,
          (document.operations.filterMap (schema.rootType? ·.kind)).length)) =
      some (true, true, 1, 1) := by
    decide +kernel
  obtain ⟨schema, isCompiled, ran⟩ := Option.bind_eq_some_iff.mp ran
  obtain ⟨document, isParsed, same⟩ := Option.map_eq_some_iff.mp ran
  obtain ⟨valid, ranked, one, rooted⟩ : _ ∧ _ ∧ _ ∧ _ := by simpa only [Prod.mk.injEq] using same
  obtain ⟨operation, isOnly⟩ := List.length_eq_one_iff.mp one
  have valid := List.isEmpty_iff.mp valid
  have ends := (of_decide_eq_true ranked).not_transGen
  rw [isOnly] at rooted
  cases isRoot : schema.rootType? operation.kind with
  | none => simp [isRoot] at rooted
  | some root =>
    exact ⟨schema, document, operation, root, Except.of_toOption_eq_some isCompiled,
      Except.of_toOption_eq_some isParsed, valid, ends, isOnly, isRoot,
      walk_takes_finitely_many_steps valid ends friendsRequest.variableValues friendsResolver root
        operation.selections ()⟩

/-- Whether a walk came to arguments that are never read. -/
def isUnsettled {α : Type} : Except (WalkStop ε) α → Bool
  | .ok _ => false
  | .error (.refused _) => false
  | .error .endless => false
  | .error .unsettled => true

theorem eq_unsettled_of_isUnsettled {α : Type} {outcome : Except (WalkStop ε) α}
    (stops : isUnsettled outcome = true) : outcome = .error .unsettled := by
  unfold isUnsettled at stops
  split at stops
  iterate 3 cases stops
  rfl

/-- A schema with an input type whose one field has itself inside its default. -/
def circularSource : String :=
  "type Query \x7b f(a: A = \x7b\x7d): Int \x7d
   input A \x7b a: A = \x7b\x7d \x7d"

/-- A walk without an end: the document has no problems, but the arguments of its one field are
never read, since their default leads back to itself. -/
theorem circular_default_never_read :
    ∃ (schema : Schema) (document : Document) (operation : Operation) (root : SchemaType),
      compile [circularSource] = .ok schema ∧
      Document.parse "\x7b f \x7d" = .ok document ∧
      document.problems schema none = [] ∧
      document.operations = [operation] ∧ schema.rootType? operation.kind = some root ∧
      let scope : QueryScope := ⟨schema, document.fragments, []⟩
      ¬ ∃ steps outcome,
        scope.Executes friendsResolver root operation.selections () steps outcome := by
  have ran : (compile [circularSource]).toOption.bind (fun schema =>
      (Document.parse "\x7b f \x7d").toOption.map fun document =>
        ((document.problems schema none).isEmpty,
          document.operations.map fun operation =>
            (schema.rootType? operation.kind).map fun root =>
              isUnsettled ((QueryScope.respond ⟨schema, document.fragments, []⟩ friendsResolver root
                operation.selections).on ()).1)) =
      some (true, [some true]) := by
    decide +kernel
  obtain ⟨schema, isCompiled, ran⟩ := Option.bind_eq_some_iff.mp ran
  obtain ⟨document, isParsed, same⟩ := Option.map_eq_some_iff.mp ran
  obtain ⟨valid, rooted⟩ : _ ∧ _ := by simpa only [Prod.mk.injEq] using same
  have valid := List.isEmpty_iff.mp valid
  obtain ⟨operation, isOnly, responds⟩ := List.map_eq_singleton_iff.mp rooted
  obtain ⟨root, isRoot, stops⟩ := Option.map_eq_some_iff.mp responds
  refine ⟨schema, document, operation, root, Except.of_toOption_eq_some isCompiled,
    Except.of_toOption_eq_some isParsed, valid, isOnly, isRoot, ?_⟩
  intro scope
  rw [QueryScope.exists_executes_iff (Document.acyclic_of_problems valid)]
  exact fun reaches => reaches (eq_unsettled_of_isUnsettled stops)

end Schema

end TraversalQuery
