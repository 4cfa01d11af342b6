import TraversalQuery.Proofs.Document.Joining
import TraversalQuery.Proofs.Schema.Places

/-!
# Joined sources

Where one source ends and the next begins means nothing: two neighbouring sources that define
schemas may be joined to one. The joined source holds the definitions of both, and compiling it
makes the same schema or fails for the same reason. Only the places in directives and the numbers of
the sources are others.
-/

namespace TraversalQuery

/-- The error without the number of the source it is in. -/
def SchemaError.unnumbered : SchemaError → SchemaError
  | .malformedSource _ error => .malformedSource 0 error
  | .executableDefinition _ => .executableDefinition 0
  | other => other

/-- What `keep` keeps of an answer, or the error without the number of its source. -/
def SchemaError.upTo {α β : Type} (keep : α → β) (answer : Except SchemaError α) :
    Except SchemaError β :=
  (answer.map keep).mapError unnumbered

namespace SchemaError

variable {α β γ δ : Type} {keep : α → γ} {keep' : β → δ} {answer other : Except SchemaError α}

theorem upTo_congr (same : answer.map keep = other.map keep) :
    upTo keep answer = upTo keep other :=
  congrArg (·.mapError unnumbered) same

/-- Sequences agree if their first parts do, and what follows on answers of which the same is
kept. -/
theorem upTo_bind (same : upTo keep answer = upTo keep other)
    {next next' : α → Except SchemaError β}
    (later : ∀ value value', keep value = keep value' →
      upTo keep' (next value) = upTo keep' (next' value')) :
    upTo keep' (answer >>= next) = upTo keep' (other >>= next') := by
  cases answer with
  | error error =>
    cases other with
    | error error' => exact congrArg Except.error (Except.error.inj same)
    | ok value' => contradiction
  | ok value =>
    cases other with
    | error error' => contradiction
    | ok value' => exact later value value' (Except.ok.inj same)

end SchemaError

namespace SchemaDraft

open SchemaError

variable {draft draft' : SchemaDraft} {number number' : Nat}

/-- Definitions that differ in places are taken up alike, or refused alike. -/
theorem upTo_add {definition definition' : Definition} (same : draft.bare = draft'.bare)
    (alike : definition.bare = definition'.bare) :
    upTo bare (draft.add definition) = upTo bare (draft'.add definition') :=
  upTo_congr (by rw [← add_bare, ← add_bare, same, alike])

/-- Lists of definitions that differ in places are taken up alike, or refused alike. -/
theorem upTo_addAll {definitions : List Definition} :
    ∀ {definitions' : List Definition} {draft draft' : SchemaDraft}, draft.bare = draft'.bare →
      definitions.map Definition.bare = definitions'.map Definition.bare →
        upTo bare (draft.addAll number definitions) =
          upTo bare (draft'.addAll number' definitions') := by
  induction definitions with
  | nil =>
    intro definitions' draft draft' same alike
    obtain rfl := List.map_eq_nil_iff.mp alike.symm
    exact congrArg Except.ok same
  | cons definition rest ih =>
    intro definitions' draft draft' same alike
    obtain ⟨definition', rest', rfl, first, others⟩ := List.map_eq_cons_iff.mp alike.symm
    have executable : definition'.isExecutable = definition.isExecutable := by
      rw [← Definition.isExecutable_bare, first, Definition.isExecutable_bare]
    rw [addAll, addAll, executable]
    cases definition.isExecutable with
    | true => rfl
    | false => exact upTo_bind (upTo_add same first.symm) fun _ _ same => ih same others.symm

theorem upTo_addSources_cons (same : draft.bare = draft'.bare) {source : String}
    {rest rest' : List String}
    (later : ∀ after after' : SchemaDraft, after.bare = after'.bare →
      upTo bare (after.addSources (number + 1) rest) =
        upTo bare (after'.addSources (number' + 1) rest')) :
    upTo bare (draft.addSources number (source :: rest)) =
      upTo bare (draft'.addSources number' (source :: rest')) := by
  rw [addSources, addSources]
  cases Document.parse source with
  | error error => rfl
  | ok document => exact upTo_bind (upTo_addAll same rfl) later

/-- Sources are taken up alike under other numbers. -/
theorem upTo_addSources {sources : List String} :
    ∀ {draft draft' : SchemaDraft} {number number' : Nat}, draft.bare = draft'.bare →
      upTo bare (draft.addSources number sources) =
        upTo bare (draft'.addSources number' sources) := by
  induction sources with
  | nil => exact fun same => congrArg Except.ok same
  | cons source rest ih => exact fun same => upTo_addSources_cons same fun _ _ same => ih same

section

variable {first second : String} (read : (Document.parse first).isOk = true)
  (read' : (Document.parse second).isOk = true)
  {place : Span → Span}
  (joined : Document.parse (first ++ "\n" ++ second) =
    .ok ⟨Definition.inSource first ++ (Definition.inSource second).map (·.placed place)⟩)
include read read' joined

/-- Two neighbouring sources are taken up as the one that they are joined to. -/
theorem upTo_addSources_join (before after : List String) :
    ∀ {draft draft' : SchemaDraft} {number number' : Nat}, draft.bare = draft'.bare →
      upTo bare (draft.addSources number (before ++ (first ++ "\n" ++ second) :: after)) =
        upTo bare (draft'.addSources number' (before ++ first :: second :: after)) := by
  induction before with
  | nil =>
    intro draft draft' number number' same
    have whole : Definition.inSource (first ++ "\n" ++ second) =
        Definition.inSource first ++ (Definition.inSource second).map (·.placed place) := by
      rw [Definition.inSource, joined]
    rw [List.nil_append, List.nil_append, addSources_cons (by rw [joined]; rfl), whole,
      addSources_cons read, addAll_append, bind_assoc]
    refine upTo_bind (upTo_addAll same rfl) fun middle middle' same => ?_
    rw [addSources_cons read']
    refine upTo_bind (upTo_addAll same ?_) fun _ _ same => upTo_addSources same
    simp [Function.comp_def]
  | cons source rest ih =>
    exact fun same => upTo_addSources_cons same fun _ _ same => ih same

end

end SchemaDraft

namespace Schema

/-- **Joined sources.** Of two texts that define schemas, joined by a line break, the definitions
are those of the first and after them those of the second, further on by the first text and the
break. So compiling gives the same schema, or fails for the same reason, whether two neighbouring
sources are joined or not, up to the places in directives and the numbers of sources. -/
theorem compile_join {first second : String} (read : (Document.parse first).isOk = true)
    (ofSchema : Definition.OfSchema (Definition.inSource first))
    (read' : (Document.parse second).isOk = true)
    (ofSchema' : Definition.OfSchema (Definition.inSource second)) :
    Document.parse (first ++ "\n" ++ second) =
        .ok ⟨Definition.inSource first ++
          (Definition.inSource second).map (·.placed (·.later (first.utf8ByteSize + 1)))⟩ ∧
      ∀ before after : List String,
        SchemaError.upTo bare (compile (before ++ (first ++ "\n" ++ second) :: after)) =
          SchemaError.upTo bare (compile (before ++ first :: second :: after)) := by
  have joined : Document.parse (first ++ "\n" ++ second) =
      .ok ⟨Definition.inSource first ++
        (Definition.inSource second).map (·.placed (·.later (first.utf8ByteSize + 1)))⟩ := by
    unfold Definition.inSource at ofSchema ofSchema' ⊢
    cases parsed : Document.parse first with
    | error error => rw [parsed] at read; contradiction
    | ok document =>
      cases parsed' : Document.parse second with
      | error error => rw [parsed'] at read'; contradiction
      | ok other =>
        rw [parsed] at ofSchema
        rw [parsed'] at ofSchema'
        exact Document.parse_join parsed ofSchema parsed' ofSchema'
  refine ⟨joined, fun before after => ?_⟩
  refine SchemaError.upTo_bind
    (SchemaDraft.upTo_addSources_join read read' joined before after rfl)
    fun draft draft' same => ?_
  exact SchemaError.upTo_congr (by rw [← ofDraft_bare, ← ofDraft_bare, same])

/-- A source that ends in a comment, after a type that could still go on. -/
def catalogSource : String :=
  "type Query \x7b book: Book \x7d type Book implements & Titled @kept # by the library"

/-- A source that begins with a description. -/
def titlesSource : String :=
  "\"What has a title\" interface Titled \x7b title: ID \x7d " ++
    "extend type Book @rare(copies: 1) \x7b title: ID \x7d"

/-- Joined with the source of titles, the catalog still ends where its comment does. -/
theorem compile_join_catalog :
    ((Document.parse catalogSource).isOk = true ∧
        Definition.OfSchema (Definition.inSource catalogSource)) ∧
      ((Document.parse titlesSource).isOk = true ∧
        Definition.OfSchema (Definition.inSource titlesSource)) ∧
      Document.parse (catalogSource ++ "\n" ++ titlesSource) =
        .ok ⟨Definition.inSource catalogSource ++
          (Definition.inSource titlesSource).map
            (·.placed (·.later (catalogSource.utf8ByteSize + 1)))⟩ ∧
      SchemaError.upTo bare (compile [catalogSource ++ "\n" ++ titlesSource]) =
        SchemaError.upTo bare (compile [catalogSource, titlesSource]) ∧
      (compile [catalogSource, titlesSource]).isOk = true := by
  obtain ⟨⟨read, ofSchema⟩, ⟨read', ofSchema'⟩, made⟩ :
      ((Document.parse catalogSource).isOk = true ∧
        Definition.OfSchema (Definition.inSource catalogSource)) ∧
      ((Document.parse titlesSource).isOk = true ∧
        Definition.OfSchema (Definition.inSource titlesSource)) ∧
      (compile [catalogSource, titlesSource]).isOk = true := by
    decide +kernel
  obtain ⟨joined, compiled⟩ := compile_join read ofSchema read' ofSchema'
  exact ⟨⟨read, ofSchema⟩, ⟨read', ofSchema'⟩, joined, compiled [] [], made⟩

end Schema

end TraversalQuery
