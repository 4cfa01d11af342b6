import TraversalQuery.Command.Run
import TraversalQuery.Proofs.Document.Worded
import TraversalQuery.Proofs.Planning.Refusals
import TraversalQuery.Proofs.Schema.Malformed

/-!
# Who is blamed for a syntax error

A syntax error is reported against the file it is in: among schema files the first that cannot be
read, and the query file where it is the query. The label of the report begins and ends between two
characters of that file, and its ends are counted in characters.
-/

namespace TraversalQuery

open Text (byteLength)

/-! ### Where a text cannot be read -/

/-- The places in a text. -/
def Region.inText (text : List Char) : Region :=
  ⟨(·.Located text), Span.Located.merge⟩

/-- What is wrong with a text is at a stretch of it. -/
theorem Document.located_of_parse_error {source : String} {error : SyntaxError}
    (short : source.utf8ByteSize < 2 ^ 32) (failed : parse source = .error error) :
    error.span.Located source.toList := by
  rcases Except.of_bind_eq_error failed with unread | ⟨tokens, lexed, failed⟩
  · exact Lexer.located_of_tokens_error short unread
  · have ending : (Span.ofRange source.utf8ByteSize source.utf8ByteSize).Located source.toList := by
      rw [Lexer.utf8ByteSize_eq]
      exact .ending (Lexer.byteLength_le_limit short)
    have stands : (Region.inText source.toList).Stands [] (.start tokens source.utf8ByteSize) :=
      ⟨Lexer.inOrder_of_tokens short lexed,
        fun token member => Lexer.located_of_tokens short lexed member, .zero, ending, nofun⟩
    have outcome := Grammar.takes_document [] rfl _ stands
    rcases Except.of_bind_eq_error failed with refused | ⟨_, _, never⟩
    · rw [refused] at outcome
      exact outcome
    · contradiction

/-! ### What commands report -/

/-- Reading and checking a request is all that can find it malformed. -/
theorem Schema.parse_of_execute_eq_malformed {σ ε : Type} {schema : Schema}
    {resolve : Resolver σ ε} {request : Request} {state : σ} {fault : SyntaxError}
    (failed : ((schema.execute resolve request).on state).1 = .error (.malformed fault)) :
    Document.parse request.query = .error fault := by
  rw [execute, ExceptT.on_bind, ExceptT.on_mk_pure] at failed
  cases ready : schema.prepareRequest (ε := ε) request with
  | ok prepared =>
    rw [ready] at failed
    dsimp only at failed
    rw [ExceptT.on_adapt] at failed
    obtain ⟨stop, _, same⟩ := Except.of_mapError_eq_error failed
    cases stop <;> contradiction
  | error reason =>
    rw [ready] at failed
    obtain rfl : reason = .malformed fault := Except.error.inj failed
    rcases Except.of_bind_eq_error ready with unread | ⟨document, _, refused⟩
    · obtain ⟨error, unread, same⟩ := Except.of_mapError_eq_error unread
      rw [unread, RequestError.malformed.inj same]
    · obtain ⟨unready, _, same⟩ := Except.of_mapError_eq_error refused
      cases unready <;> contradiction

namespace QueryModel

/-- A planner has no syntax errors against a field. -/
theorem not_refused_malformedQuery {ontology : Ontology} {visit : FieldVisit}
    {fault : SyntaxError} : ¬visit.Refused ontology (.malformedQuery fault) := by
  generalize isError : PlanError.malformedQuery fault = error
  intro refused
  cases refused with
  | unreadable _ fails =>
    rcases Planner.of_decode_eq_error fails with ⟨_, _, same⟩ | ⟨_, same⟩ <;>
      exact PlanError.noConfusion (isError.trans same)
  | _ => exact PlanError.noConfusion isError

/-- A query is called malformed only if it cannot be read. -/
theorem parse_of_plan_eq_malformedQuery {model : QueryModel} {request : Request}
    {fault : SyntaxError} (planned : model.plan request = .error (.malformedQuery fault)) :
    Document.parse request.query = .error fault := by
  rw [plan_eq] at planned
  cases came : ((model.schema.execute (Planner.resolve model.ontology) request).on
    (model.start request)).1 with
  | ok response =>
    rw [came] at planned
    contradiction
  | error reason =>
    rw [came] at planned
    have said : planError reason = .malformedQuery fault := Except.error.inj planned
    cases reason with
    | malformed other =>
      obtain rfl := PlanError.malformedQuery.inj said
      exact Schema.parse_of_execute_eq_malformed came
    | refused error =>
      obtain rfl : error = .malformedQuery fault := said
      have isRefusal : model.refusal? request = some (.malformedQuery fault) := by
        rw [refusal?, came]
        rfl
      obtain ⟨forest, _, _, script⟩ := model.calls_arranged request
      obtain ⟨_, _, refused⟩ := Planner.refused_of_transcript script isRefusal
      exact absurd refused not_refused_malformedQuery
    | invalid => contradiction
    | endless => contradiction
    | unsettled => contradiction

end QueryModel

namespace Command

namespace SourceFile

/-- A label in a file: the span of a part of its text, with its ends counted in characters. -/
def Labels (file : SourceFile) (span : Span) : Prop :=
  ∃ before part after, file.text.toList = before ++ part ++ after ∧
    span.start = byteLength before ∧ span.stop = byteLength before + byteLength part ∧
    Location.characterAt file.text.toList span.start = before.length ∧
    Location.characterAt file.text.toList span.stop = before.length + part.length

/-- What a part of the text of a file spans is a label in it. -/
theorem labels_of_located {file : SourceFile} {span : Span}
    (located : span.Located file.text.toList) : file.Labels span := by
  obtain ⟨before, part, after, whole, starts, stops⟩ := located.exists_part
  have first : Location.characterAt file.text.toList span.start = before.length := by
    rw [starts, whole, List.append_assoc, Location.characterAt_append]
  have last : Location.characterAt file.text.toList span.stop = before.length + part.length := by
    rw [stops, whole, ← Text.byteLength_append, Location.characterAt_append, List.length_append]
  exact ⟨before, part, after, whole, starts, stops, first, last⟩

/-- What is wrong with the text of a file is at a label in it. -/
theorem labels_of_parse_error {file : SourceFile} {error : SyntaxError}
    (short : file.text.utf8ByteSize < 2 ^ 32) (failed : Document.parse file.text = .error error) :
    file.Labels error.span :=
  labels_of_located (Document.located_of_parse_error short failed)

end SourceFile

/-- **Syntax errors blame the right file and place.** One in the schema files is reported against
the first of them that cannot be read, one in the query against the query file; both as reading that
file gives them, and at a part of its text. -/
theorem syntax_errors_blamed (schemas : List SourceFile) (query : SourceFile)
    (shortSchemas : ∀ file ∈ schemas, file.text.utf8ByteSize < 2 ^ 32)
    (shortQuery : query.text.utf8ByteSize < 2 ^ 32) :
    (∀ number error query?, Schema.compileWithFilters (schemas.map (·.text)) =
        .error (.malformedSource number error) →
      ∃ before file after, schemas = before ++ file :: after ∧
        (∀ earlier ∈ before, ∃ document, Document.parse earlier.text = .ok document) ∧
        Document.parse file.text = .error error ∧
        CommandError.ofPlanError schemas query? (.schema (.malformedSource number error)) =
          .malformedSource file error ∧
        file.Labels error.span) ∧
    ∀ (model : QueryModel) operation? values error,
      model.plan ⟨query.text, operation?, values⟩ = .error (.malformedQuery error) →
        Document.parse query.text = .error error ∧
        CommandError.ofPlanError schemas (some query) (.malformedQuery error) =
          .malformedSource query error ∧
        query.Labels error.span := by
  constructor
  · intro number error query? failed
    obtain ⟨texts, text, later, parts, rfl, reads, unread⟩ :=
      Schema.malformed_of_compileWithFilters failed
    obtain ⟨before, rest, rfl, rfl, isRest⟩ := List.map_eq_append_iff.mp parts
    obtain ⟨file, after, rfl, rfl, rfl⟩ := List.map_eq_cons_iff.mp isRest
    refine ⟨before, file, after, rfl, fun earlier member => ?_, unread, ?_, ?_⟩
    · exact reads _ (List.mem_map_of_mem member)
    · simp [CommandError.ofPlanError, CommandError.schemaFile?]
    · exact SourceFile.labels_of_parse_error (shortSchemas file (by simp)) unread
  · intro model operation? values error planned
    have unread := QueryModel.parse_of_plan_eq_malformedQuery planned
    exact ⟨unread, rfl, SourceFile.labels_of_parse_error shortQuery unread⟩

/-- Schema files of which the second ends within a field. -/
def cutOff : List SourceFile :=
  [⟨"a.graphql", "type Query \x7b a: Int \x7d"⟩, ⟨"b.graphql", "# \u00e9\ntype A \x7b b"⟩]

/-- A query file with a character that begins no token. -/
def accented : SourceFile :=
  ⟨"q.graphql", "\x7b \u00e9 \x7d"⟩

/-- The syntax error that compiling a schema came to, with the number of its source. -/
def schemaFault? : Except SchemaError Schema → Option (Nat × SyntaxError)
  | .error (.malformedSource number error) => some (number, error)
  | _ => none

theorem of_schemaFault?_eq_some {answer : Except SchemaError Schema} {number : Nat}
    {error : SyntaxError} (isFault : schemaFault? answer = some (number, error)) :
    answer = .error (.malformedSource number error) := by
  unfold schemaFault? at isFault
  split at isFault
  · cases isFault
    rfl
  · contradiction

/-- The syntax error in a query that planning came to. -/
def queryFault? : Except PlanError Plan → Option SyntaxError
  | .error (.malformedQuery error) => some error
  | _ => none

theorem of_queryFault?_eq_some {answer : Except PlanError Plan} {error : SyntaxError}
    (isFault : queryFault? answer = some error) : answer = .error (.malformedQuery error) := by
  unfold queryFault? at isFault
  split at isFault
  · cases isFault
    rfl
  · contradiction

/-- The end of the second schema file is blamed, and the character in the query. -/
theorem syntax_errors_blamed_cutOff :
    (∃ error, Schema.compileWithFilters (cutOff.map (·.text)) = .error (.malformedSource 2 error) ∧
      ∃ before file after, cutOff = before ++ file :: after ∧
        Document.parse file.text = .error error ∧ file.Labels error.span) ∧
    ∃ error, (default : QueryModel).plan ⟨accented.text, none, []⟩ =
        .error (.malformedQuery error) ∧
      Document.parse accented.text = .error error ∧ accented.Labels error.span := by
  have schemaFails : schemaFault? (Schema.compileWithFilters (cutOff.map (·.text))) =
      some (2, ⟨.unexpectedToken (.mark .colon) none, ⟨15, 15⟩⟩) := by
    decide +kernel
  have queryFails : queryFault? ((default : QueryModel).plan ⟨accented.text, none, []⟩) =
      some ⟨.unexpectedCharacters "\u00e9", ⟨2, 4⟩⟩ := by
    decide +kernel
  replace schemaFails := of_schemaFault?_eq_some schemaFails
  replace queryFails := of_queryFault?_eq_some queryFails
  obtain ⟨schemas, queries⟩ :=
    syntax_errors_blamed cutOff accented (by decide +kernel) (by decide +kernel)
  obtain ⟨before, file, after, parts, _, unread, _, labels⟩ := schemas _ _ none schemaFails
  obtain ⟨unread', _, labels'⟩ := queries _ _ _ _ queryFails
  exact ⟨⟨_, schemaFails, before, file, after, parts, unread, labels⟩, _, queryFails, unread',
    labels'⟩

end Command

end TraversalQuery
