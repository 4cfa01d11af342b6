import TraversalQuery.Proofs.Forest
import TraversalQuery.Proofs.Runs
import TraversalQuery.Response.Request

/-!
# The calls of a walk

A walk asks its resolver about one field after another. Here the calls are written down: which field
was asked about, in which state of the resolver, and what it answered. Writing them down does not
change the walk. The calls form a forest, the calls for the fields of an object below the call that
was answered with the object, and the walk makes them in preorder.
-/

namespace TraversalQuery

/-- A call of a resolver: the field it is asked about, its state before, and its answer. -/
structure ResolverCall (σ ε : Type) where
  visit : FieldVisit
  before : σ
  answer : Except ε Answer

namespace Resolver

variable {σ ε : Type}

/-- A resolver that writes down its calls. -/
def logged (resolve : Resolver σ ε) : Resolver (σ × List (ResolverCall σ ε)) ε := fun visit => do
  let (state, calls) ← get
  let (answer, after) := (resolve visit).on state
  set (after, calls ++ [⟨visit, state, answer⟩])
  ExceptT.mk (pure answer)

/-- What a resolver answers is written down with the state that it was asked in. -/
theorem on_logged (resolve : Resolver σ ε) (visit : FieldVisit) (state : σ)
    (calls : List (ResolverCall σ ε)) :
    (resolve.logged visit).on (state, calls) =
      (((resolve visit).on state).1, ((resolve visit).on state).2,
        calls ++ [⟨visit, state, ((resolve visit).on state).1⟩]) :=
  rfl

/-- The calls of a resolver on the way from one state to another, each in the state that the one
before it left. A call that fails is the last one. -/
inductive Transcript (resolve : Resolver σ ε) :
    σ → List (ResolverCall σ ε) → Option ε → σ → Prop
  | done (state : σ) : Transcript resolve state [] none state
  | failed {state after : σ} {visit : FieldVisit} {error : ε}
      (fails : (resolve visit).on state = (.error error, after)) :
      Transcript resolve state [⟨visit, state, .error error⟩] (some error) after
  | step {state between after : σ} {visit : FieldVisit} {answer : Answer}
      {rest : List (ResolverCall σ ε)} {failure? : Option ε}
      (answers : (resolve visit).on state = (.ok answer, between))
      (later : Transcript resolve between rest failure? after) :
      Transcript resolve state (⟨visit, state, .ok answer⟩ :: rest) failure? after

/-- Transcripts go on from the state that the first one left. -/
theorem Transcript.append {resolve : Resolver σ ε} {state between after : σ}
    {calls more : List (ResolverCall σ ε)} {failure? : Option ε}
    (first : resolve.Transcript state calls none between)
    (second : resolve.Transcript between more failure? after) :
    resolve.Transcript state (calls ++ more) failure? after := by
  generalize success : (none : Option ε) = outcome at first
  induction first with
  | done => exact second
  | failed => contradiction
  | step answers _ ih => exact .step answers (ih second success)

end Resolver

namespace QueryScope

variable {σ ε α β : Type}

/-- A group of fields that no resolver is asked about: its first field is the name of the type, or a
field that the type does not have. -/
def Silent (object : SchemaType) (fields : List SelectedField) : Prop :=
  ∀ first, fields.head? = some first →
    first.field.name = "__typename" ∨ object.field? first.field.name = none

/-- Calls for groups of fields of an object, in the order of the groups: one for each group that is
not silent, and below a call that was answered with an object the calls for the fields inside it. A
walk that is not `whole` may have stopped at any point. -/
inductive Asked (scope : QueryScope) : SchemaType → ResponsePath → Option ParentField →
    FieldGroups → Bool → Forest (ResolverCall σ ε) → Prop
  | stop {object : SchemaType} {path : ResponsePath} {parent? : Option ParentField}
      {groups : FieldGroups} : Asked scope object path parent? groups false .nil
  | done {object : SchemaType} {path : ResponsePath} {parent? : Option ParentField} :
      Asked scope object path parent? [] true .nil
  | silent {object : SchemaType} {path : ResponsePath} {parent? : Option ParentField}
      {key : String} {fields : List SelectedField} {groups : FieldGroups} {whole : Bool}
      {forest : Forest (ResolverCall σ ε)} (quiet : Silent object fields)
      (later : Asked scope object path parent? groups whole forest) :
      Asked scope object path parent? ((key, fields) :: groups) whole forest
  | value {object : SchemaType} {path : ResponsePath} {parent? : Option ParentField}
      {key : String} {first : SelectedField} {others : List SelectedField} {groups : FieldGroups}
      {definition : OutputField} {call : ResolverCall σ ε} {whole : Bool}
      {rest : Forest (ResolverCall σ ε)} (proper : first.field.name ≠ "__typename")
      (defined : object.field? first.field.name = some definition)
      (asked : call.visit = scope.visit object definition key first.field path parent?)
      (plain : call.answer = .ok .object → call.visit.output? = none)
      (later : Asked scope object path parent? groups whole rest) :
      Asked scope object path parent? ((key, first :: others) :: groups) whole
        (.node call .nil rest)
  | object {object type : SchemaType} {path : ResponsePath} {parent? : Option ParentField}
      {key : String} {first : SelectedField} {others : List SelectedField} {groups : FieldGroups}
      {definition : OutputField} {call : ResolverCall σ ε} {inside whole : Bool}
      {below rest : Forest (ResolverCall σ ε)} (proper : first.field.name ≠ "__typename")
      (defined : object.field? first.field.name = some definition)
      (asked : call.visit = scope.visit object definition key first.field path parent?)
      (answered : call.answer = .ok .object) (declared : call.visit.output? = some type)
      (inner : Asked scope (scope.schema.runtimeType type) call.visit.path
        (some ⟨definition, call.visit.path⟩)
        (scope.collect (scope.schema.runtimeType type)
          ((first :: others).flatMap (·.selections))) inside below)
      (through : whole = true → inside = true)
      (later : Asked scope object path parent? groups whole rest) :
      Asked scope object path parent? ((key, first :: others) :: groups) whole
        (.node call below rest)

/-- Nothing is asked where nothing is selected. -/
theorem Asked.of_nil {scope : QueryScope} {object : SchemaType} {path : ResponsePath}
    {parent? : Option ParentField} {whole : Bool} {forest : Forest (ResolverCall σ ε)}
    (asked : scope.Asked object path parent? [] whole forest) : forest = .nil := by
  cases asked <;> rfl

/-- What is asked for some groups is asked before what is asked for others. -/
theorem Asked.append {scope : QueryScope} {object : SchemaType} {path : ResponsePath}
    {parent? : Option ParentField} {group : String × List SelectedField} {groups : FieldGroups}
    {whole : Bool} {first second : Forest (ResolverCall σ ε)}
    (asked : scope.Asked object path parent? [group] true first)
    (later : scope.Asked object path parent? groups whole second) :
    scope.Asked object path parent? (group :: groups) whole (first ++ second) := by
  cases asked with
  | silent quiet none => rw [none.of_nil]; exact .silent quiet later
  | value proper defined same plain none =>
    rw [none.of_nil]
    exact .value proper defined same plain later
  | object proper defined same answered declared inner through none =>
    rw [none.of_nil]
    exact .object proper defined same answered declared inner (fun _ => through rfl) later

/-- A walk that stopped at one group did not go on to the next. -/
theorem Asked.stopped {scope : QueryScope} {object : SchemaType} {path : ResponsePath}
    {parent? : Option ParentField} {group : String × List SelectedField} {groups : FieldGroups}
    {forest : Forest (ResolverCall σ ε)}
    (asked : scope.Asked object path parent? [group] false forest) :
    scope.Asked object path parent? (group :: groups) false forest := by
  cases asked with
  | stop => exact .stop
  | silent quiet none => rw [none.of_nil]; exact .silent quiet .stop
  | value proper defined same plain none =>
    rw [none.of_nil]
    exact .value proper defined same plain .stop
  | object proper defined same answered declared inner through none =>
    rw [none.of_nil]
    exact .object proper defined same answered declared inner nofun .stop

/-- The error that a walk was refused with. -/
def refusal? : Except (WalkStop ε) α → Option ε
  | .error (.refused error) => some error
  | _ => none

/-- A walk with a resolver that writes down its calls goes like the walk without, and the calls have
a shape, which may depend on whether the walk came to its end. -/
def Records (resolve : Resolver σ ε) (shape : Bool → Forest (ResolverCall σ ε) → Prop)
    (walk : Walk σ ε α) (recorded : Walk (σ × List (ResolverCall σ ε)) ε α) : Prop :=
  ∀ state calls, ∃ forest, shape (walk.on state).1.isOk forest ∧
    recorded.on (state, calls) =
      ((walk.on state).1, (walk.on state).2, calls ++ forest.preorder) ∧
    resolve.Transcript state forest.preorder (refusal? (walk.on state).1) (walk.on state).2

section

variable {resolve : Resolver σ ε} {shape shape' : Bool → Forest (ResolverCall σ ε) → Prop}

/-- Calls that have a shape have all weaker ones. -/
theorem Records.mono {walk : Walk σ ε α} {recorded : Walk (σ × List (ResolverCall σ ε)) ε α}
    (records : Records resolve shape walk recorded)
    (weaker : ∀ whole forest, shape whole forest → shape' whole forest) :
    Records resolve shape' walk recorded := by
  intro state calls
  obtain ⟨forest, fits, rest⟩ := records state calls
  exact ⟨forest, weaker _ forest fits, rest⟩

/-- An answer takes no calls. -/
theorem records_pure (value : α) (quiet : shape true .nil) :
    Records resolve shape (pure value) (pure value) :=
  fun state calls => ⟨.nil, quiet, by simp [Forest.preorder], .done state⟩

/-- A walk that stops by itself asks nothing. -/
theorem records_throw {stop : WalkStop ε} (own : ∀ error, stop ≠ .refused error)
    (quiet : shape false .nil) :
    Records resolve shape (throw stop : Walk σ ε α) (throw stop) := by
  refine fun state calls => ⟨.nil, quiet, by simp [Forest.preorder], ?_⟩
  cases stop with
  | refused error => exact absurd rfl (own error)
  | endless => exact .done state
  | unsettled => exact .done state

/-- The calls of a sequence are those of its parts, one after the other. -/
theorem Records.bind {walk : Walk σ ε α} {recorded : Walk (σ × List (ResolverCall σ ε)) ε α}
    {next : α → Walk σ ε β} {recordedNext : α → Walk (σ × List (ResolverCall σ ε)) ε β}
    {before : Bool → Forest (ResolverCall σ ε) → Prop}
    (first : Records resolve before walk recorded)
    (after : Bool → Forest (ResolverCall σ ε) → Prop)
    (second : ∀ value, Records resolve after (next value) (recordedNext value))
    (stopped : ∀ forest, before false forest → shape false forest)
    (joined : ∀ whole forest more, before true forest → after whole more →
      shape whole (forest ++ more)) :
    Records resolve shape (walk >>= next) (recorded >>= recordedNext) := by
  intro state calls
  obtain ⟨forest, fits, ran, script⟩ := first state calls
  rw [ExceptT.on_bind, ExceptT.on_bind, ran]
  rcases came : walk.on state with ⟨error | value, between⟩
  · rw [came] at fits script
    refine ⟨forest, stopped forest fits, rfl, ?_⟩
    cases error <;> exact script
  · rw [came] at fits script
    obtain ⟨more, fits', ran', script'⟩ := second value between (calls ++ forest.preorder)
    refine ⟨forest ++ more, joined _ forest more fits fits', ?_, ?_⟩
    · rw [Forest.preorder_append, ← List.append_assoc]
      exact ran'
    · rw [Forest.preorder_append]
      exact script.append script'

/-- A walk and a last step that asks nothing. -/
theorem Records.bind_quiet {walk : Walk σ ε α}
    {recorded : Walk (σ × List (ResolverCall σ ε)) ε α}
    {next : α → Walk σ ε β} {recordedNext : α → Walk (σ × List (ResolverCall σ ε)) ε β}
    (first : Records resolve shape walk recorded)
    (second : ∀ value, Records resolve (fun whole forest => whole = true ∧ forest = .nil)
      (next value) (recordedNext value)) :
    Records resolve shape (walk >>= next) (recorded >>= recordedNext) := by
  refine first.bind _ second (fun _ => id) ?_
  rintro whole forest _ fits ⟨rfl, rfl⟩
  rwa [Forest.append_nil]

/-- A call, and then what the walk makes of its answer. -/
theorem records_call {visit : FieldVisit} {next : Answer → Walk σ ε β}
    {recordedNext : Answer → Walk (σ × List (ResolverCall σ ε)) ε β}
    (inside : Except ε Answer → Bool → Forest (ResolverCall σ ε) → Prop)
    (refused : ∀ error, inside (.error error) false .nil)
    (later : ∀ answer, Records resolve (inside (.ok answer)) (next answer) (recordedNext answer)) :
    Records resolve
      (fun whole forest => ∃ state answer below, forest = .tree ⟨visit, state, answer⟩ below ∧
        inside answer whole below)
      (ExceptT.adapt WalkStop.refused (resolve visit) >>= next)
      (ExceptT.adapt WalkStop.refused (resolve.logged visit) >>= recordedNext) := by
  intro state calls
  rw [ExceptT.on_bind, ExceptT.on_bind, ExceptT.on_adapt, ExceptT.on_adapt, Resolver.on_logged]
  rcases answered : (resolve visit).on state with ⟨error | answer, between⟩
  · exact ⟨_, ⟨state, .error error, .nil, rfl, refused error⟩, rfl, .failed answered⟩
  · obtain ⟨below, fits, ran, script⟩ :=
      later answer between (calls ++ [⟨visit, state, .ok answer⟩])
    refine ⟨_, ⟨state, .ok answer, below, rfl, fits⟩, ?_, ?_⟩
    · simpa [Except.mapError, Forest.tree, Forest.preorder] using ran
    · rw [Forest.tree, Forest.preorder, Forest.preorder, List.append_nil]
      exact .step answered script

end

variable {resolve : Resolver σ ε}

/-- What the walk into an object inside a field asks, for each way in which selections on objects
are walked. -/
def RecordsInside (scope : QueryScope) (resolve : Resolver σ ε) (inner : WalkObject σ ε)
    (recordedInner : WalkObject (σ × List (ResolverCall σ ε)) ε) : Prop :=
  ∀ object selections path parent?, Records resolve
    (scope.Asked object path parent? (scope.collect object selections))
    (inner object selections path parent?) (recordedInner object selections path parent?)

/-- What is asked inside a field: nothing unless there is an object, else what the fields of the
group ask of the object. -/
inductive AskedInside (scope : QueryScope) (visit : FieldVisit) (fields : List SelectedField) :
    Except ε Answer → Bool → Forest (ResolverCall σ ε) → Prop
  | refused (error : ε) : AskedInside scope visit fields (.error error) false .nil
  | plain {answer : Answer} (plain : answer = .object → visit.output? = none) :
      AskedInside scope visit fields (.ok answer) true .nil
  | object {type : SchemaType} {whole : Bool} {below : Forest (ResolverCall σ ε)}
      (declared : visit.output? = some type)
      (inner : scope.Asked (scope.schema.runtimeType type) visit.path
        (some ⟨visit.definition, visit.path⟩)
        (scope.collect (scope.schema.runtimeType type) (fields.flatMap (·.selections))) whole
        below) :
      AskedInside scope visit fields (.ok .object) whole below

/-- Inside a field the resolver is asked what the fields of its group ask. -/
theorem records_answered {scope : QueryScope} {inner : WalkObject σ ε}
    {recordedInner : WalkObject (σ × List (ResolverCall σ ε)) ε}
    (inside : scope.RecordsInside resolve inner recordedInner) (visit : FieldVisit)
    (fields : List SelectedField) (answer : Answer) :
    Records resolve (scope.AskedInside visit fields (.ok answer))
      (scope.answered inner visit fields answer)
      (scope.answered recordedInner visit fields answer) := by
  cases answer with
  | null => exact records_pure _ (.plain nofun)
  | leaf value => exact records_pure _ (.plain nofun)
  | object =>
    unfold answered
    cases declared : visit.output? with
    | none => exact records_pure _ (.plain fun _ => declared)
    | some type =>
      refine Records.bind_quiet ?_ fun _ => records_pure _ ⟨rfl, rfl⟩
      exact (inside _ _ _ _).mono fun whole below => .object declared

/-- What is asked for a group is its own call and below it what is asked inside. -/
theorem Asked.of_inside {scope : QueryScope} {object : SchemaType} {path : ResponsePath}
    {parent? : Option ParentField} {key : String} {first : SelectedField}
    {others : List SelectedField} {definition : OutputField} {state : σ}
    {answer : Except ε Answer} {whole : Bool} {below : Forest (ResolverCall σ ε)}
    (proper : first.field.name ≠ "__typename")
    (defined : object.field? first.field.name = some definition)
    (inside : scope.AskedInside (scope.visit object definition key first.field path parent?)
      (first :: others) answer whole below) :
    scope.Asked object path parent? [(key, first :: others)] whole
      (.tree ⟨scope.visit object definition key first.field path parent?, state, answer⟩
        below) := by
  cases inside with
  | refused error => exact .value proper defined rfl nofun .stop
  | plain plain => exact .value proper defined rfl (fun same => plain (Except.ok.inj same)) .done
  | object declared inner =>
    cases whole with
    | false => exact .object proper defined rfl rfl declared inner nofun .stop
    | true => exact .object proper defined rfl rfl declared inner (fun _ => rfl) .done

/-- For a group of fields the resolver is asked once, and then inside the field. -/
theorem records_fieldValue {scope : QueryScope} {inner : WalkObject σ ε}
    {recordedInner : WalkObject (σ × List (ResolverCall σ ε)) ε}
    (inside : scope.RecordsInside resolve inner recordedInner) (object : SchemaType)
    (path : ResponsePath) (parent? : Option ParentField) (key : String)
    (fields : List SelectedField) :
    Records resolve (scope.Asked object path parent? [(key, fields)])
      (scope.fieldValue resolve inner object path parent? key fields)
      (scope.fieldValue resolve.logged recordedInner object path parent? key fields) := by
  unfold fieldValue
  cases fields with
  | nil => exact records_pure _ (.silent nofun .done)
  | cons first others =>
    simp only [List.head?_cons]
    by_cases typename : first.field.name = "__typename"
    · rw [if_pos typename, if_pos typename]
      refine records_pure _ (.silent (fun other isFirst => .inl ?_) .done)
      rwa [← Option.some.inj isFirst]
    · rw [if_neg typename, if_neg typename]
      cases defined : object.field? first.field.name with
      | none =>
        refine records_pure _ (.silent (fun other isFirst => .inr ?_) .done)
        rwa [← Option.some.inj isFirst]
      | some definition =>
        dsimp only
        split
        · refine (records_call (scope.AskedInside
            (scope.visit object definition key first.field path parent?) (first :: others))
            .refused fun answer => ?_).mono ?_
          · refine (records_answered inside _ (first :: others) answer).bind_quiet fun found => ?_
            cases found <;> exact records_pure _ ⟨rfl, rfl⟩
          · rintro whole _ ⟨state, answer, below, rfl, asked⟩
            exact .of_inside typename defined asked
        · exact records_throw (fun _ same => by cases same) .stop

/-- For groups of fields the resolver is asked in their order. -/
theorem records_groupValues {scope : QueryScope} {object : SchemaType} {path : ResponsePath}
    {parent? : Option ParentField} {value : String → List SelectedField → Walk σ ε Json}
    {recordedValue : String → List SelectedField →
      Walk (σ × List (ResolverCall σ ε)) ε Json}
    (each : ∀ key fields, Records resolve (scope.Asked object path parent? [(key, fields)])
      (value key fields) (recordedValue key fields)) (groups : FieldGroups) :
    ∀ members, Records resolve (scope.Asked object path parent? groups)
      (groupValues value groups members) (groupValues recordedValue groups members) := by
  induction groups with
  | nil => exact fun members => records_pure _ .done
  | cons group rest ih =>
    obtain ⟨key, fields⟩ := group
    intro members
    exact (each key fields).bind _ (fun found => ih _) (fun _ => Asked.stopped)
      fun _ _ _ => Asked.append

/-- For selections on an object the resolver is asked what their groups ask. -/
theorem records_walkObject (scope : QueryScope) (resolve : Resolver σ ε) (depth : Nat) :
    scope.RecordsInside resolve (scope.walkObject resolve depth)
      (scope.walkObject resolve.logged depth) := by
  induction depth with
  | zero => exact fun _ _ _ _ => records_throw nofun .stop
  | succ depth ih =>
    intro object selections path parent?
    exact records_groupValues
      (fun key fields => records_fieldValue ih object path parent? key fields)
      _ _

/-- For a request the resolver is asked what its operation selects on the root. -/
theorem records_respond (scope : QueryScope) (resolve : Resolver σ ε) (root : SchemaType)
    (selections : List Selection) :
    Records resolve (scope.Asked root .root none (scope.collect root selections))
      (scope.respond resolve root selections) (scope.respond resolve.logged root selections) :=
  (records_walkObject scope resolve _ _ _ _ _).bind_quiet fun _ =>
    records_pure _ ⟨rfl, rfl⟩

end QueryScope

namespace Schema

variable {σ ε α : Type}

/-- The calls that the response to a request takes of a resolver. -/
def calls (schema : Schema) (resolve : Resolver σ ε) (request : Request) (state : σ) :
    List (ResolverCall σ ε) :=
  ((schema.execute resolve.logged request).on (state, [])).2.2

/-- The error of the resolver in a response, if it has one. -/
def refusal? : Except (RequestError ε) α → Option ε
  | .error (.refused error) => some error
  | _ => none

/-- No resolver is asked before a request is ready to be walked. -/
theorem refusal?_unready {schema : Schema} {request : Request} {error : RequestError ε}
    (unready : schema.prepareRequest request = .error error) :
    refusal? (.error error : Except (RequestError ε) α) = none := by
  rw [prepareRequest] at unready
  cases parsed : Document.parse request.query with
  | error fault =>
    rw [parsed] at unready
    rw [← Except.error.inj unready]
    rfl
  | ok document =>
    rw [parsed] at unready
    change (schema.prepare document request.operation? request.variableValues).mapError
      unreadyError = .error error at unready
    cases made : schema.prepare document request.operation? request.variableValues with
    | error reason =>
      rw [made] at unready
      rw [← Except.error.inj unready]
      cases reason <;> rfl
    | ok prepared =>
      rw [made] at unready
      contradiction

/-- The calls for a request that is ready to be walked are for what its operation selects on the
root type, and all that there are if there is a response. -/
theorem asked_of_ready {schema : Schema} {request : Request} {prepared : PreparedRequest}
    (ready : schema.prepareRequest request =
      (.ok prepared : Except (RequestError ε) PreparedRequest)) (resolve : Resolver σ ε)
    (state : σ) : ∃ forest : Forest (ResolverCall σ ε),
      schema.calls resolve request state = forest.preorder ∧
      prepared.scope.Asked prepared.root .root none
        (prepared.scope.collect prepared.root prepared.operation.selections)
        ((schema.execute resolve request).on state).1.isOk forest ∧
      resolve.Transcript state forest.preorder
        (refusal? ((schema.execute resolve request).on state).1)
        ((schema.execute resolve request).on state).2 := by
  obtain ⟨forest, asked, ran, script⟩ := prepared.scope.records_respond resolve prepared.root
    prepared.operation.selections state []
  unfold calls execute
  rw [ExceptT.on_bind, ExceptT.on_bind, ExceptT.on_mk_pure, ExceptT.on_mk_pure, ready]
  dsimp only
  rw [ExceptT.on_adapt, ExceptT.on_adapt, ran, List.nil_append]
  refine ⟨forest, rfl, ?_⟩
  rcases came : (prepared.scope.respond resolve prepared.root
    prepared.operation.selections).on state with ⟨error | value, after⟩
  · rw [came] at asked script
    refine ⟨asked, ?_⟩
    cases error <;> exact script
  · rw [came] at asked script
    exact ⟨asked, script⟩

/-- **The calls for a request.** Either the request is not ready to be walked and there are none, or
they are a forest of calls for what its operation selects on the root type, made in preorder, and
the whole of it if there is a response. They lead from the first state to the last, and fail where
the response does. -/
theorem calls_asked (schema : Schema) (resolve : Resolver σ ε) (request : Request) (state : σ) :
    ∃ forest : Forest (ResolverCall σ ε),
      schema.calls resolve request state = forest.preorder ∧
      (forest = .nil ∨ ∃ prepared : PreparedRequest,
        schema.prepareRequest request = (.ok prepared : Except (RequestError ε) PreparedRequest) ∧
        prepared.scope.Asked prepared.root .root none
          (prepared.scope.collect prepared.root prepared.operation.selections)
          ((schema.execute resolve request).on state).1.isOk forest) ∧
      resolve.Transcript state forest.preorder
        (refusal? ((schema.execute resolve request).on state).1)
        ((schema.execute resolve request).on state).2 := by
  cases ready : (schema.prepareRequest request : Except (RequestError ε) PreparedRequest) with
  | error error =>
    unfold calls execute
    rw [ExceptT.on_bind, ExceptT.on_bind, ExceptT.on_mk_pure, ExceptT.on_mk_pure, ready]
    refine ⟨.nil, rfl, .inl rfl, ?_⟩
    change resolve.Transcript state [] (refusal? (.error error : Except _ Json)) state
    rw [refusal?_unready ready]
    exact .done state
  | ok prepared =>
    obtain ⟨forest, made, asked, script⟩ := asked_of_ready ready resolve state
    exact ⟨forest, made, .inr ⟨prepared, rfl, asked⟩, script⟩

end Schema

end TraversalQuery
