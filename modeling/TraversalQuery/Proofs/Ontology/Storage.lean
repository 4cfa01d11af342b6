import TraversalQuery.Ontology.Stored
import TraversalQuery.Planning.Model
import TraversalQuery.Proofs.Json.Decoding
import TraversalQuery.Proofs.Runs

/-!
# Ontologies that were stored

What is stored of an ontology is enough to restore it, part by part: every field is written under
the name under which it is read, and every multiplicity has its own name. So queries are planned
with a stored ontology as with the one that was read off the schema.
-/

namespace TraversalQuery

open Json.Decoder (restores_record restores_text restores_flag restores_choice restores_texts)
open Json.Fields (MadeOf)

theorem EntityType.restores_json : EntityType.decoder.Restores EntityType.json := by
  refine restores_record fun entity members holds => ?_
  -- A line for each field in the order in which it is read; `rfl` finds it under its name in what
  -- was written, so a field that is read under another name than it was written under stops here.
  exact MadeOf.none EntityType.mk
    |>.restored restores_text holds rfl
    |>.restored restores_text holds rfl
    |>.restored restores_texts holds rfl
    |>.restored restores_texts holds rfl
    |>.restored restores_texts holds rfl
    |>.restored restores_texts holds rfl
    |>.restored restores_texts holds rfl
    |>.restored restores_flag holds rfl

theorem EntityPair.restores_json : EntityPair.decoder.Restores EntityPair.json := by
  refine restores_record fun pair members holds => ?_
  exact MadeOf.none EntityPair.mk
    |>.restored restores_text holds rfl
    |>.restored (restores_choice Multiplicity.lookup_storedName) holds rfl
    |>.restored restores_text holds rfl
    |>.restored restores_text holds rfl
    |>.restored restores_text holds rfl
    |>.restored restores_text holds rfl
    |>.restored restores_text holds rfl

theorem RelationshipType.restores_json :
    RelationshipType.decoder.Restores RelationshipType.json := by
  refine restores_record fun relation members holds => ?_
  exact MadeOf.none RelationshipType.mk
    |>.restored restores_text holds rfl
    |>.restored restores_text holds rfl
    |>.restored restores_flag holds rfl
    |>.restored EntityPair.restores_json.list holds rfl
    |>.restored restores_texts holds rfl

theorem PropertyType.restores_json : PropertyType.decoder.Restores PropertyType.json := by
  refine restores_record fun property members holds => ?_
  exact MadeOf.none PropertyType.mk
    |>.restored restores_text holds rfl
    |>.restored restores_text holds rfl
    |>.restored restores_text holds rfl

theorem EnumeratedType.restores_json : EnumeratedType.decoder.Restores EnumeratedType.json := by
  refine restores_record fun enumerated members holds => ?_
  exact MadeOf.none EnumeratedType.mk
    |>.restored restores_text holds rfl
    |>.restored restores_texts holds rfl

/-- An ontology is restored from its stored form. -/
theorem Ontology.restores_json : Ontology.decoder.Restores Ontology.json := by
  refine restores_record fun ontology members holds => ?_
  exact MadeOf.none Ontology.mk
    |>.restored restores_text holds rfl
    |>.restored EntityType.restores_json.list holds rfl
    |>.restored RelationshipType.restores_json.list holds rfl
    |>.restored PropertyType.restores_json.list holds rfl
    |>.restored EnumeratedType.restores_json.list holds rfl
    |>.restored restores_texts holds rfl

namespace QueryModel

/-- A model is that of the same sources with the ontology that was read off them. -/
theorem withOntology_of_derive {sources : List String} {name : String} {model : QueryModel}
    (derived : derive sources name = .ok model) :
    withOntology sources model.ontology = .ok model := by
  obtain ⟨schema, compiled, derived⟩ := Except.of_bind_eq_ok derived
  obtain ⟨ontology, _, made⟩ := Except.of_bind_eq_ok derived
  cases made
  unfold withOntology
  rw [compiled]
  rfl

/-- **A stored ontology is as good as the one that was stored.** Every ontology is restored from its
stored form, in whatever order the members of objects stand. With what is restored of the ontology
of a model, its sources make a model that plans every request alike. -/
theorem plan_with_stored_ontology :
    (∀ (ontology : Ontology) (stored : Json), ontology.json.Alike stored →
        Ontology.decoder.decode stored = .ok ontology) ∧
      ∀ (sources : List String) (name : String) (model : QueryModel) (stored : Json),
        derive sources name = .ok model → model.ontology.json.Alike stored →
          ∃ ontology reloaded, Ontology.decoder.decode stored = .ok ontology ∧
            withOntology sources ontology = .ok reloaded ∧
            ∀ request, reloaded.plan request = model.plan request := by
  refine ⟨Ontology.restores_json, fun sources name model stored derived alike => ?_⟩
  exact ⟨model.ontology, model, Ontology.restores_json _ _ alike,
    withOntology_of_derive derived, fun request => rfl⟩

/-- A source with entities, properties, a relationship and an enum. -/
def shelvesSource : String :=
  "type Query \x7b shelves: [Shelf] \x7d
   type Shelf \x7b books: [Book] \x7d
   type Book \x7b title: String form: Form \x7d
   enum Form \x7b POEM \x7d"

/-- A request for the titles of the books on shelves. -/
def titlesRequest : Request where
  query := "\x7b shelves \x7b books \x7b title \x7d \x7d \x7d"
  operation? := none
  variableValues := []

/-- The stored form of an ontology, with its members from the last to the first. -/
def turnedJson (ontology : Ontology) : Json :=
  match ontology.json with
  | .object members => .object members.reverse
  | other => other

/-- Turning the members of all objects around leaves a value alike. -/
theorem alike_turnedJson (ontology : Ontology) : ontology.json.Alike (turnedJson ontology) :=
  .of_perm (List.reverse_perm _).symm <| by
    change ["name", "entityTypes", "relationshipTypes", "properties", "enumeratedTypes",
      "primitiveTypes"].Nodup
    decide

/-- With a stored ontology of books the titles on shelves are planned as before it was stored. -/
theorem plan_with_stored_ontology_shelves : ∃ (model reloaded : QueryModel) (ontology : Ontology)
    (plan : Plan), derive [shelvesSource] "shelves" = .ok model ∧
      model.ontology.json.Alike (turnedJson model.ontology) ∧
      (model.ontology.relationshipTypes.length, model.ontology.enumeratedTypes.length) = (1, 1) ∧
      Ontology.decoder.decode (turnedJson model.ontology) = .ok model.ontology ∧
      Ontology.decoder.decode (turnedJson model.ontology) = .ok ontology ∧
      withOntology [shelvesSource] ontology = .ok reloaded ∧
      model.plan titlesRequest = .ok plan ∧ reloaded.plan titlesRequest = .ok plan ∧
      plan.slots.length = 7 := by
  have ran : (derive [shelvesSource] "shelves").toOption.any (fun model =>
      decide ((model.ontology.relationshipTypes.length, model.ontology.enumeratedTypes.length) =
        (1, 1)) && (model.plan titlesRequest).toOption.any (·.slots.length == 7)) = true := by
    decide +kernel
  obtain ⟨model, derived, ran⟩ := (Option.any_eq_true _ _).mp ran
  obtain ⟨sizes, planned⟩ := Bool.and_eq_true_iff.mp ran
  obtain ⟨plan, planned, length⟩ := (Option.any_eq_true _ _).mp planned
  have derived := Except.of_toOption_eq_some derived
  have planned := Except.of_toOption_eq_some planned
  have alike := alike_turnedJson model.ontology
  obtain ⟨restored, replans⟩ := plan_with_stored_ontology
  obtain ⟨ontology, reloaded, decoded, compiled, same⟩ := replans _ _ _ _ derived alike
  exact ⟨model, reloaded, ontology, plan, derived, alike, of_decide_eq_true sizes,
    restored _ _ alike, decoded, compiled, planned, (same titlesRequest).trans planned,
    eq_of_beq length⟩

end QueryModel

end TraversalQuery
