import TraversalQuery.Proofs.Document.Acceptance
import TraversalQuery.Proofs.Planning.Legality
import TraversalQuery.Proofs.Response.Aliases

/-!
# Plans under other aliases

A query has the same plan under other aliases. A planner looks up where the fields of an object go
by the path of the object, and of the aliases on a path it counts only which of them are equal. An
error says where it was found, which depends on the aliases; besides this it is the same error.
-/

namespace TraversalQuery

namespace PlanError

/-- An error without the places that it names. -/
def placeless : PlanError → PlanError
  | .invalidQuery problems => .invalidQuery ((Problem.causes problems).map .overall)
  | .unknownOperands operands entity _ => .unknownOperands operands entity ""
  | .unknownOperator operator _ => .unknownOperator operator ""
  | .malformedFilter _ reason => .malformedFilter "" reason
  | .notInOntology element name _ => .notInOntology element name ""
  | other => other

/-- Errors that are the same but for the places that they name. -/
def SameBesides (error other : PlanError) : Prop :=
  other.placeless = error.placeless

end PlanError

open ExceptT
open PlanError (SameBesides placeless)

/-! ### Filters -/

namespace FilterClause

/-- What is wrong with tests does not depend on where they are. -/
theorem mapError_mapM_read (path other : String) (constraints : List WrittenConstraint) :
    (constraints.mapM (WrittenConstraint.read other)).mapError placeless =
      (constraints.mapM (WrittenConstraint.read path)).mapError placeless := by
  induction constraints with
  | nil => rfl
  | cons written rest ih =>
    rw [List.mapM_cons, List.mapM_cons, WrittenConstraint.read, WrittenConstraint.read]
    cases Operator.read written.operator with
    | error unknown => rfl
    | ok operator =>
      exact Except.mapError_bind_congr ih _

/-- Whether a filter can be read does not depend on its path. -/
theorem mapError_decode (value : Json) (path other : String) :
    (decode value other).mapError placeless = (decode value path).mapError placeless := by
  unfold decode
  cases WrittenClause.decoder.decode value with
  | error mismatch => rfl
  | ok written =>
    exact Except.mapError_bind_congr (mapError_mapM_read path other written.constraints) _

end FilterClause

/-! ### Planners -/

namespace Planner

variable {α : Type} {rename : String → String}

/-- Planners that have the same plan and look up the same nodes, one of them under other aliases. -/
structure Renamed (rename : String → String) (planner other : Planner) : Prop where
  builder : other.builder = planner.builder
  position : ∀ path : ResponsePath, path.fieldPath.Named →
    other.position? (path.renamed rename) = planner.position? path

/-- Actions that do the same under other aliases. -/
abbrev Alike (rename : String → String) (action other : Planning α) : Prop :=
  ExceptT.Agrees (Renamed rename) SameBesides Eq action other

/-- The builder does the same under other aliases. -/
theorem alike_building (operation : Build α) :
    Alike rename (building operation) (building operation) := by
  intro planner other renamed
  rw [on_building, on_building, renamed.builder]
  rcases operation.on planner.builder with ⟨error | value, after⟩
  · exact .error rfl
  · exact .ok rfl ⟨rfl, renamed.position⟩

/-- Answers that differ in the places in errors are alike. -/
theorem alike_of_mapError {answer other : Except PlanError α}
    (same : other.mapError placeless = answer.mapError placeless) :
    Alike rename (ExceptT.mk (pure answer)) (ExceptT.mk (pure other)) := by
  intro planner planner' renamed
  rw [on_mk_pure, on_mk_pure]
  cases answer with
  | error error =>
    obtain ⟨error', rfl, causes⟩ := Except.of_mapError_eq_error same
    exact .error causes.symm
  | ok value =>
    rw [Except.of_mapError_eq_ok same]
    exact .ok rfl renamed

/-- Relationships are entered alike under other aliases. -/
theorem alike_enterRelation (ontology : Ontology) (visit : FieldVisit) :
    Alike rename (enterRelation ontology visit)
      (enterRelation ontology (visit.renamed rename)) := by
  unfold enterRelation
  rw [FieldVisit.parent?_renamed, FieldVisit.definition_renamed]
  cases visit.parent? with
  | none => exact agrees_pure rfl
  | some parent =>
    dsimp only [Option.map_some]
    cases ontology.relation? visit.definition.name with
    | none => exact agrees_pure rfl
    | some relation => exact (alike_building _).bind fun _ _ _ => agrees_pure rfl

/-- Properties are shown alike under other aliases. -/
theorem alike_project (ontology : Ontology) (visit : FieldVisit) (output : SchemaType) :
    Alike rename (project ontology visit output)
      (project ontology (visit.renamed rename) output) := by
  unfold project
  rw [FieldVisit.definition_renamed]
  dsimp only
  cases ontology.property? visit.definition.name with
  | none => exact agrees_throw rfl
  | some property => exact (alike_building _).bind fun _ _ _ => agrees_pure rfl

section

variable (isName : ∀ name, IsName name → IsName (rename name))
  (injective : Function.Injective rename)
include isName injective

/-- What is noted under another alias is found under it. -/
theorem Renamed.record {planner other : Planner} (renamed : planner.Renamed rename other)
    {path : ResponsePath} (named : path.fieldPath.Named) (id : NodeId) :
    Renamed rename { planner with positions := planner.positions.set path id }
      { other with positions := other.positions.set (path.renamed rename) id } where
  builder := renamed.builder
  position path' named' := by
    rw [position?_record, position?_record, renamed.position path' named']
    exact if_congr (ResponsePath.positionKey_renamed_iff isName injective named' named) rfl rfl

theorem renamed_fresh (name? ontology? : Option String) :
    (fresh name? ontology?).Renamed rename (fresh name? ontology?) := by
  have blank : Renamed rename ⟨.started name? ontology?, .empty⟩
      ⟨.started name? ontology?, .empty⟩ :=
    ⟨rfl, fun _ _ => rfl⟩
  have root : ResponsePath.root.fieldPath.Named := ResponsePath.named_root
  exact blank.record isName injective root Plan.root

/-- A node is noted alike under other aliases. -/
theorem alike_record {path : ResponsePath} (named : path.fieldPath.Named) (id : NodeId) :
    Alike rename (record path id) (record (path.renamed rename) id) :=
  fun _ _ renamed => .ok rfl (renamed.record isName injective named id)

/-- Objects fan out alike under other aliases. -/
theorem alike_fanOut {path : ResponsePath} (named : path.fieldPath.Named) (atRoot : Bool) :
    Alike rename (fanOut path atRoot) (fanOut (path.renamed rename) atRoot) := by
  refine agrees_get.bind fun planner other renamed => ?_
  rw [renamed.position path named, renamed.builder]
  cases planner.position? path with
  | none => exact agrees_pure rfl
  | some here =>
    dsimp only
    cases planner.builder.plan.node? here with
    | none => exact agrees_pure rfl
    | some node =>
      dsimp only
      split
      · exact agrees_pure rfl
      · refine (alike_building _).bind fun _ _ _ => (alike_building _).bind ?_
        rintro id _ rfl
        exact alike_record isName injective named id

/-- A filter goes to the same node under other aliases. -/
theorem alike_filterScope {path : ResponsePath} (named : path.fieldPath.Named) (entered : NodeId) :
    Alike rename (filterScope path entered) (filterScope (path.renamed rename) entered) := by
  refine (alike_building _).bind fun _ _ _ => (alike_building _).bind ?_
  rintro ascent _ rfl
  cases ascent.found? with
  | some quantifier => exact agrees_pure rfl
  | none =>
    refine (alike_building _).bind fun _ _ _ => (alike_building _).bind ?_
    rintro id _ rfl
    exact (alike_record isName injective named id).bind fun _ _ _ => agrees_pure rfl

/-- Filters are planned alike under other aliases. -/
theorem alike_filter (ontology : Ontology) {visit : FieldVisit} (placed : visit.Placed)
    (entity : EntityType) (entered : NodeId) (value : Json) :
    Alike rename (filter ontology visit entity entered value)
      (filter ontology (visit.renamed rename) entity entered value) := by
  refine (alike_of_mapError (FilterClause.mapError_decode value _ _)).bind ?_
  rintro clause _ rfl
  have rest : Alike rename
      (do
        let scope ← filterScope visit.path entered
        building (Builder.moveTo scope)
        let _ ← building
          (Builder.addGroup (clause.constraints.map (typedConstraint ontology)) clause.quantifier))
      (do
        let scope ← filterScope (visit.path.renamed rename) entered
        building (Builder.moveTo scope)
        let _ ← building
          (Builder.addGroup (clause.constraints.map (typedConstraint ontology))
            clause.quantifier)) := by
    refine (alike_filterScope isName injective placed.path entered).bind ?_
    rintro scope _ rfl
    exact (alike_building _).bind fun _ _ _ => (alike_building _).bind fun _ _ _ => agrees_pure rfl
  dsimp only
  split
  · exact rest
  · refine (agrees_throw ?_).bind fun (_ _ : PUnit) (_ : True) => rest
    rfl

/-- Objects are entered alike under other aliases. -/
theorem alike_enter (ontology : Ontology) {visit : FieldVisit} (placed : visit.Placed)
    (target : SchemaType) :
    Alike rename (enter ontology visit target) (enter ontology (visit.renamed rename) target) := by
  unfold enter
  cases ontology.entity? target.name with
  | none => exact agrees_throw rfl
  | some entity =>
    refine (alike_enterRelation ontology visit).bind fun _ _ _ => (alike_building _).bind ?_
    rintro entered _ rfl
    refine (alike_record isName injective placed.path entered).bind fun _ _ _ => ?_
    rw [FieldVisit.arguments_renamed]
    cases filterValue? visit.arguments with
    | none => exact agrees_pure rfl
    | some value =>
      exact (alike_filter isName injective ontology placed entity entered value).bind
        fun _ _ _ => agrees_pure rfl

/-- **Aliases make no difference to a planner.** -/
theorem indifferent_resolve (ontology : Ontology) :
    (resolve ontology).Indifferent rename (Renamed rename) SameBesides := by
  intro visit placed
  unfold resolve
  rw [FieldVisit.output?_renamed]
  cases visit.output? with
  | none => exact agrees_pure rfl
  | some output =>
    dsimp only
    rw [FieldVisit.parentPath_renamed, FieldVisit.parent?_renamed, Option.isNone_map]
    refine (alike_fanOut isName injective placed.parentPath _).bind fun _ _ _ =>
      agrees_get.bind fun planner other renamed => ?_
    rw [renamed.position _ placed.parentPath]
    cases planner.position? visit.parentPath with
    | none => exact agrees_pure rfl
    | some anchor =>
      refine (alike_building _).bind fun _ _ _ => ?_
      split
      · exact alike_enter isName injective ontology placed output
      · split
        · exact alike_project ontology visit output
        · exact agrees_pure rfl

end

end Planner

/-! ### Plans -/

namespace QueryModel

variable {rename : String → String} {document keyed : Document}

/-- The plan for a document. -/
def planOf (model : QueryModel) (document : Document) (operation? : Option String)
    (provided : Members) : Except PlanError Plan :=
  let (result, planner) :=
    (model.schema.answer (Planner.resolve model.ontology) document operation? provided).on
      (.fresh operation? (some model.ontology.name))
  (result.mapError planError).map fun _ => planner.builder.plan

/-- The plan for a request is that for the document that it writes. -/
theorem plan_eq_planOf (model : QueryModel) {request : Request}
    (parsed : Document.parse request.query = .ok document) :
    model.plan request = model.planOf document request.operation? request.variableValues := by
  rw [plan_eq, finish, model.schema.execute_of_parse _ parsed]
  rfl

/-- The plan for a document is the same under other aliases, or fails alike. -/
theorem mapError_planOf (model : QueryModel) (keys : document.Keys rename keyed)
    (isName : ∀ name, IsName name → IsName (rename name)) (injective : Function.Injective rename)
    (named : ∀ part ∈ document.definitions, part.Named) (operation? : Option String)
    (provided : Members) :
    (model.planOf keyed operation? provided).mapError placeless =
      (model.planOf document operation? provided).mapError placeless := by
  have alike := model.schema.agrees_answer keys injective
    (Planner.indifferent_resolve isName injective model.ontology) named operation? provided _ _
    (Planner.renamed_fresh isName injective operation? (some model.ontology.name))
  unfold planOf
  generalize (model.schema.answer _ document operation? provided).on _ = run at alike
  generalize (model.schema.answer _ keyed operation? provided).on _ = run' at alike
  cases alike with
  | ok _ renamed => exact congrArg (Except.ok ∘ Builder.plan) renamed.builder
  | error alike =>
    refine congrArg Except.error ?_
    cases alike with
    | invalid same => exact congrArg (PlanError.invalidQuery ∘ List.map Problem.overall) same
    | refused same => exact same
    | endless => rfl
    | unsettled => rfl

/-- **Aliases do not matter to planning.** A query has the same plan under other aliases, with the
same nodes. If it has none, then neither has it under other aliases, for the same reason up to
where that is found. -/
theorem plan_aliased (model : QueryModel) (renames : Renaming rename) {request : Request}
    (parsed : Document.parse request.query = .ok document) {query : String} {other : Document}
    (parsed' : Document.parse query = .ok other)
    (aliased : other.bare = (document.aliased rename).bare) :
    (∀ plan, model.plan request = .ok plan →
        model.plan { request with query := query } = .ok plan) ∧
      ∀ error, model.plan request = .error error →
        ∃ error', model.plan { request with query := query } = .error error' ∧
          error'.placeless = error.placeless := by
  obtain ⟨extended, injective, isName, agree⟩ := renames.exists_injective
  have named := Document.named_of_parse parsed
  have named' := Document.named_of_parse parsed'
  -- Either query is compared with what both say when places are left out.
  have keys := (document.keys_aliased rename).congr
    (fun name isName => (agree name isName).symm) named
  have keys' := Document.keys_of_bare_eq aliased
  have same : (model.plan { request with query := query }).mapError placeless =
      (model.plan request).mapError placeless := by
    calc (model.plan { request with query := query }).mapError placeless
        = (model.planOf other request.operation? request.variableValues).mapError placeless :=
          congrArg _ (model.plan_eq_planOf parsed')
      _ = (model.planOf (document.aliased rename).bare request.operation?
            request.variableValues).mapError placeless :=
          (model.mapError_planOf keys' (fun _ => id) Function.injective_id named' _ _).symm
      _ = (model.planOf document request.operation? request.variableValues).mapError placeless :=
          model.mapError_planOf keys isName injective named _ _
      _ = (model.plan request).mapError placeless :=
          congrArg _ (model.plan_eq_planOf parsed).symm
  refine ⟨fun plan planned => ?_, fun error fails => ?_⟩
  · rw [planned] at same
    exact Except.of_mapError_eq_ok same
  · rw [fails] at same
    obtain ⟨error', fails', causes⟩ := Except.of_mapError_eq_error same
    exact ⟨error', fails', causes.symm⟩

/-- A request with two fields to be merged. -/
def mergedRequest : Request where
  query := "query \x7b people \x7b id friends \x7b id \x7d friends \x7b name \x7d \x7d \x7d"
  operation? := none
  variableValues := []

/-- The query with two fields to be merged, with the same front before every response key. -/
def prefixedQuery : String :=
  "query \x7b x_people: people \x7b x_id: id
    x_friends: friends \x7b x_id: id \x7d x_friends: friends \x7b x_name: name \x7d \x7d \x7d"

/-- Fields that are merged are also merged under another alias, and the plan is the same. -/
theorem plan_aliased_merged : ∃ (model : QueryModel) (plan : Plan),
    Schema.compileWithFilters [peopleSource] = .ok model.schema ∧
      model.plan mergedRequest = .ok plan ∧ plan.size = 9 ∧
      model.plan { mergedRequest with query := prefixedQuery } = .ok plan := by
  have ran : ((derive [peopleSource] "people").bind (·.plan mergedRequest)).toOption.map
      Plan.size = some 9 := by decide +kernel
  have spelled : ((Document.parse mergedRequest.query).toOption.any fun document =>
      (Lexer.tokens prefixedQuery).toOption.any fun tokens =>
        decide ((document.aliased ("x_" ++ ·)).isProper = true ∧
          tokens.map (·.kind) = (document.aliased ("x_" ++ ·)).written.map Glyph.kind ∧
          (Document.ofTokens tokens prefixedQuery.utf8ByteSize).toOption.isSome = true)) =
      true := by decide +kernel
  obtain ⟨plan, planned, size⟩ := Option.map_eq_some_iff.mp ran
  obtain ⟨model, derived, planned⟩ := Except.of_bind_eq_ok (Except.of_toOption_eq_some planned)
  obtain ⟨document, parsed, spelled⟩ := (Option.any_eq_true _ _).mp spelled
  obtain ⟨tokens, lexed, spelled⟩ := (Option.any_eq_true _ _).mp spelled
  obtain ⟨proper, kinds, found⟩ := of_decide_eq_true spelled
  obtain ⟨other, found⟩ := Option.isSome_iff_exists.mp found
  have found := Except.of_toOption_eq_some found
  have parsed' : Document.parse prefixedQuery = .ok other := by
    rw [Document.parse, Except.of_toOption_eq_some lexed]
    exact found
  have renames : Renaming ("x_" ++ ·) :=
    renaming_prefixed ⟨'x', ['_'], rfl, by decide, List.forall_mem_singleton.mpr (by decide)⟩
  have alike := plan_aliased model renames (Except.of_toOption_eq_some parsed) parsed'
    (Document.bare_eq_of_ofTokens proper kinds found)
  exact ⟨model, plan, compiled_of_derive derived, planned, size, alike.1 plan planned⟩

end QueryModel

end TraversalQuery
