import TraversalQuery.Proofs.Typing.Admission

/-!
# The checks of queries follow the rules

A document has no problems exactly if it is well typed. The checks look into a fragment only where
it is met first, and the rules wherever it is spread. What is well typed is so at any place, so the
checks find nothing in it. Conversely, a fragment that the checks do not look into again was found
well typed before, unless they are still inside it; then it would lead to itself.
-/

namespace TraversalQuery

namespace Typing

/-- A check that finds nothing, whatever was looked into before. -/
def Checking.Clean (check : Checking) : Prop :=
  ∀ seen, ∃ after, check.run seen = ([], after)

namespace Scope

/-- A name that may be spread anywhere: that of a fragment which is well typed on its type. -/
def Opens (scope : Scope) (name : String) : Prop :=
  ∃ fragment type, Fragment.find? scope.fragments name = some fragment ∧
    scope.Condition fragment.condition type ∧
      ∀ selection ∈ fragment.selections, selection.WellTyped scope type

/-- A name that is among those given or that one of them leads to. -/
def Reaches (scope : Scope) (names : List String) (name : String) : Prop :=
  ∃ first ∈ names, Relation.ReflTransGen (Fragment.Leads scope.fragments) first name

/-- A check of something that spreads given names. It forgets none of the fragments looked into. If
it finds no problem, and what was looked into and is reached again opens, then what it checks is
good, and all that it looked into opens. Only so many fragments may not have been looked into
before. -/
def Sound (scope : Scope) (room : Nat) (good : Prop) (names : List String) (check : Checking) :
    Prop :=
  ∀ seen, Fragment.unseenWeight (fun _ => 1) seen scope.fragments ≤ room →
    ∀ problems after, check.run seen = (problems, after) → seen ⊆ after ∧
      (problems = [] → (∀ name ∈ seen, scope.Reaches names name → scope.Opens name) →
        good ∧ ∀ name ∈ after, name ∈ seen ∨ scope.Opens name)

end Scope

open Scope

variable {scope : Scope} {room : Nat} {good fine : Prop} {names others : List String}

/-! ### What is well typed has no problems -/

theorem clean_return : Checking.Clean (return []) :=
  fun seen => ⟨seen, rfl⟩

/-- Checks one after the other are clean if both are. -/
theorem Checking.Clean.append {first second : Checking} (clean : first.Clean)
    (clean' : second.Clean) : Checking.Clean (do return (← first) ++ (← second)) := by
  intro seen
  obtain ⟨between, ran⟩ := clean seen
  obtain ⟨after, ran'⟩ := clean' between
  refine ⟨after, ?_⟩
  rw [StateT.run_bind, ran]
  change (second.run between >>= fun found => pure (found.1, found.2) : Id _) = _
  rw [ran']
  rfl

/-- The check of selections is clean if that of each of them is. -/
theorem clean_selectionsProblems {enter : EnterFragment} {type : SchemaType} {path : String}
    {selections : List Selection} (each : ∀ selection ∈ selections,
      (selectionProblems scope enter type path selection).Clean) :
    (selectionsProblems scope enter type path selections).Clean := by
  induction selections with
  | nil => exact clean_return
  | cons selection rest ih =>
    obtain ⟨first, others⟩ := List.forall_mem_cons.mp each
    exact first.append (ih others)

/-- A check that is skipped if a name was met, and makes a note of the name otherwise. -/
theorem Checking.Clean.once {check : Checking} (clean : check.Clean) (name : String) :
    Checking.Clean (do
      if (← get).contains name then return []
      modify (name :: ·)
      check) := by
  intro seen
  rw [StateT.run_bind, StateT.run_get]
  change ∃ after, (if seen.contains name = true then _ else _ : Checking).run seen = ([], after)
  split
  · exact ⟨seen, rfl⟩
  · exact clean (name :: seen)

/-- A fragment can ask for a type exactly if the type has fields. -/
theorem conditionType_eq_ok_iff {name path : String} {type : SchemaType} :
    conditionType scope name path = .ok type ↔ scope.Condition name type := by
  unfold conditionType Condition
  cases scope.schema.get? name with
  | none => simp
  | some found =>
    rcases eq_or_ne found type with rfl | different
    · cases isComposite : found.kind.isComposite <;> simp [isComposite]
    · cases isComposite : found.kind.isComposite <;> simp [isComposite, different]

/-- Nothing is wrong with the arguments of a field exactly if they are admitted and none is
missing. -/
theorem argumentProblems_field_eq_nil_iff (compiled : scope.schema.Compiled) {parent : SchemaType}
    (isType : parent ∈ scope.schema.types) {name path : String} {declared : OutputField}
    (isField : parent.field? name = some declared) {arguments : List Argument} :
    argumentProblems scope declared.arguments path arguments = [] ↔
      scope.AdmitsArguments declared.arguments arguments :=
  argumentProblems_eq_nil_iff compiled (compiled.isSome_input _
    (Schema.arguments_mem_inputLists isType (List.mem_of_find?_eq_some isField)))

/-- The check of a fragment is clean if that of its selections is. -/
theorem clean_fragmentProblems {fragment : Fragment} {type : SchemaType}
    (each : ∀ selection ∈ fragment.selections, ∀ rounds path,
      (selectionProblems scope (fragmentProblems scope rounds) type path selection).Clean)
    (path : String) : ∀ rounds, (fragmentProblems scope rounds fragment type path).Clean
  | 0 => clean_return
  | rounds + 1 => clean_selectionsProblems fun selection member => each selection member rounds path

/-- **What is well typed has no problems** at any path, whatever was looked into before. -/
theorem clean_of_wellTyped (compiled : scope.schema.Compiled) {parent : SchemaType}
    {selection : Selection} (wellTyped : selection.WellTyped scope parent) :
    parent ∈ scope.schema.types → ∀ rounds path,
      (selectionProblems scope (fragmentProblems scope rounds) parent path selection).Clean := by
  induction wellTyped with
  | typename named directives =>
    intro _ rounds path
    unfold selectionProblems
    simpa [(directiveProblems_eq_nil_iff compiled).mpr directives, named] using clean_return
  | leaf proper directives isField arguments isType isLeaf =>
    intro isParent rounds path
    unfold selectionProblems
    simpa [(directiveProblems_eq_nil_iff compiled).mpr directives,
      (argumentProblems_field_eq_nil_iff compiled isParent isField).mpr arguments,
      proper, isField, isType, isLeaf] using clean_return
  | inside proper directives isField arguments isType isComposite each ih =>
    intro isParent rounds path
    unfold selectionProblems
    simpa [(directiveProblems_eq_nil_iff compiled).mpr directives,
      (argumentProblems_field_eq_nil_iff compiled isParent isField).mpr arguments,
      proper, isField, isType, isComposite] using clean_selectionsProblems
        fun selection member => ih selection member (Schema.mem_of_get? isType) rounds _
  | spread conditions isFragment condition each ih =>
    intro _ rounds path
    have inside := clean_fragmentProblems (fun selection member =>
      ih selection member (Schema.mem_of_get? condition.1)) path rounds
    unfold selectionProblems
    simpa [(directiveProblems_eq_nil_iff compiled).mpr conditions, isFragment,
      conditionType_eq_ok_iff.mpr condition] using inside.once _
  | inline conditions each ih =>
    intro isParent rounds path
    unfold selectionProblems
    simpa [(directiveProblems_eq_nil_iff compiled).mpr conditions, inlineType] using
      clean_selectionsProblems fun selection member => ih selection member isParent rounds _
  | narrowed conditions condition each ih =>
    intro _ rounds path
    unfold selectionProblems
    simpa [(directiveProblems_eq_nil_iff compiled).mpr conditions, inlineType,
      conditionType_eq_ok_iff.mpr condition] using clean_selectionsProblems
        fun selection member => ih selection member (Schema.mem_of_get? condition.1) rounds _

/-! ### What has no problems is well typed -/

/-- More names reach more. -/
theorem Scope.Reaches.mono {some more : List String} (subset : some ⊆ more) {name : String}
    (reaches : scope.Reaches some name) : scope.Reaches more name := by
  obtain ⟨first, member, chain⟩ := reaches
  exact ⟨first, subset member, chain⟩

theorem sound_return {problems : List Problem} (implies : problems = [] → good) :
    scope.Sound room good names (return problems) := by
  intro seen _ found after ran
  cases ran
  exact ⟨List.Subset.refl _, fun none _ => ⟨implies none, fun _ => .inl⟩⟩

theorem sound_failing {problems : List Problem} (some : problems ≠ []) :
    scope.Sound room good names (return problems) :=
  sound_return fun none => absurd none some

/-- A sound check is sound for what follows from what it says. -/
theorem Scope.Sound.imp {check : Checking} (sound : scope.Sound room good names check)
    (implies : good → fine) : scope.Sound room fine names check :=
  fun seen enough problems after ran => (sound seen enough problems after ran).imp id
    fun clean none opens => (clean none opens).imp implies id

/-- Two checks one after the other. -/
theorem Scope.Sound.append {first second : Checking} (sound : scope.Sound room good names first)
    (sound' : scope.Sound room fine others second) :
    scope.Sound room (good ∧ fine) (names ++ others) (do return (← first) ++ (← second)) := by
  intro seen enough found final ran
  rcases checked : first.run seen with ⟨problems, after⟩
  rcases checked' : second.run after with ⟨problems', after'⟩
  obtain ⟨rfl, rfl⟩ : problems ++ problems' = found ∧ after' = final := by
    rw [StateT.run_bind, checked] at ran
    change (second.run after >>= fun made => pure (problems ++ made.1, made.2) : Id _) = _ at ran
    rw [checked'] at ran
    exact Prod.ext_iff.mp ran
  have fewer := Fragment.unseenWeight_le_of_subset (fun _ => 1)
    (sound seen enough problems after checked).1 scope.fragments
  obtain ⟨kept, clean⟩ := sound seen enough problems after checked
  obtain ⟨kept', clean'⟩ := sound' after (Nat.le_trans fewer enough) problems' after' checked'
  refine ⟨List.Subset.trans kept kept', fun none opens => ?_⟩
  obtain ⟨rfl, rfl⟩ := List.append_eq_nil_iff.mp none
  obtain ⟨holds, met⟩ := clean rfl fun name member reaches =>
    opens name member (reaches.mono (List.subset_append_left _ _))
  have opens' : ∀ name ∈ after, scope.Reaches others name → scope.Opens name :=
    fun name member reaches => (met name member).elim
      (fun before => opens name before (reaches.mono (List.subset_append_right _ _))) id
  obtain ⟨holds', met'⟩ := clean' rfl opens'
  refine ⟨⟨holds, holds'⟩, fun name member => ?_⟩
  rcases met' name member with before | later
  · exact met name before
  · exact .inr later

/-- A check whose problems are listed after others. -/
theorem Scope.Sound.after {check : Checking} (sound : scope.Sound room good names check)
    (problems : List Problem) :
    scope.Sound room (problems = [] ∧ good) names (do return problems ++ (← check)) :=
  (sound_return id : scope.Sound room (problems = []) [] (return problems)).append sound

/-- A way of looking into fragments that is sound for those not looked into before. -/
def Scope.SoundEnter (scope : Scope) (room : Nat) (enter : EnterFragment) : Prop :=
  ∀ fragment ∈ scope.fragments, ∀ type ∈ scope.schema.types, ∀ path inside, room = inside + 1 →
    scope.Sound inside (∀ selection ∈ fragment.selections, selection.WellTyped scope type)
      fragment.spreads (enter fragment type path)

/-- A fragment that is met for the first time is looked into. -/
theorem Scope.SoundEnter.spread (acyclic : Fragment.Acyclic scope.fragments)
    {enter : EnterFragment} (entering : scope.SoundEnter room enter)
    {name path : String} {fragment : Fragment}
    (found : Fragment.find? scope.fragments name = some fragment) {problems : List Problem} :
    scope.Sound room (problems = [] ∧ scope.Opens name) [name] (do
      if (← get).contains fragment.name then return problems
      modify (fragment.name :: ·)
      match conditionType scope fragment.condition path with
      | .error problem => return problems ++ [problem]
      | .ok type => return problems ++ (← enter fragment type path)) := by
  have named := Fragment.name_of_find? found
  have member := Fragment.mem_of_find? found
  intro seen enough listed after ran
  rw [StateT.run_bind, StateT.run_get] at ran
  change (if seen.contains fragment.name = true then _ else _ : Checking).run seen = _ at ran
  split at ran
  · rename_i known
    cases ran
    have met : name ∈ seen := by simpa [named] using known
    exact ⟨List.Subset.refl _, fun none opens =>
      ⟨⟨none, opens name met ⟨name, List.mem_singleton_self name, .refl⟩⟩, fun _ => .inl⟩⟩
  · rename_i fresh
    have counted := Fragment.weight_add_unseenWeight_le (fun _ => 1)
      (show fragment.name ∉ seen by simpa using fresh) member
    obtain ⟨inside, rfl⟩ : ∃ inside, room = inside + 1 := ⟨room - 1, by omega⟩
    rw [StateT.run_bind, StateT.run_modify] at ran
    change StateT.run (m := Id) (match conditionType scope fragment.condition path with
      | .error problem => return problems ++ [problem]
      | .ok type => return problems ++ (← enter fragment type path)) (fragment.name :: seen) =
        _ at ran
    split at ran
    · cases ran
      exact ⟨List.subset_cons_self _ _, fun none => absurd none (by simp)⟩
    · rename_i type isType
      have condition := conditionType_eq_ok_iff.mp isType
      have entered := (entering fragment member type (Schema.mem_of_get? condition.1) path inside
        rfl).after problems
      obtain ⟨kept, clean⟩ := entered (fragment.name :: seen) (by omega) listed after ran
      refine ⟨List.Subset.trans (List.subset_cons_self _ _) kept, fun none opens => ?_⟩
      -- What is reached inside the fragment is not the fragment itself.
      have opens' : ∀ other ∈ fragment.name :: seen, scope.Reaches fragment.spreads other →
          scope.Opens other := by
        rintro other isOther ⟨first, spread, chain⟩
        have leads : Fragment.Leads scope.fragments name first := ⟨fragment, found, spread⟩
        rcases List.mem_cons.mp isOther with rfl | before
        · rw [named] at chain
          exact absurd (.head' leads chain) (acyclic name)
        · exact opens other before ⟨name, List.mem_singleton_self name, .head leads chain⟩
      obtain ⟨⟨noneBefore, typed⟩, met⟩ := clean none opens'
      have here : scope.Opens name := ⟨fragment, type, found, condition, typed⟩
      refine ⟨⟨noneBefore, here⟩, fun other isOther => ?_⟩
      rcases met other isOther with before | later
      · rcases List.mem_cons.mp before with rfl | before
        · exact .inr (named ▸ here)
        · exact .inl before
      · exact .inr later

/-- An inline fragment has the type around it or the one that it asks for. -/
theorem condition_of_inlineType {parent type : SchemaType} {path : String}
    {condition? : Option String} (found : inlineType scope parent path condition? = .ok type) :
    condition? = none ∧ type = parent ∨
      ∃ name, condition? = some name ∧ scope.Condition name type := by
  cases condition? with
  | none => exact .inl ⟨rfl, (Except.ok.inj found).symm⟩
  | some name => exact .inr ⟨name, rfl, conditionType_eq_ok_iff.mp found⟩

mutual

/-- A selection without problems is well typed. -/
theorem sound_selectionProblems (compiled : scope.schema.Compiled)
    (acyclic : Fragment.Acyclic scope.fragments) {enter : EnterFragment}
    (entering : scope.SoundEnter room enter) {parent : SchemaType}
    (isType : parent ∈ scope.schema.types) (path : String) :
    ∀ selection : Selection, scope.Sound room (selection.WellTyped scope parent) selection.spreads
      (selectionProblems scope enter parent path selection)
  | .field field selections braces? => by
    unfold selectionProblems
    extract_lets fieldsPath onDirectives
    by_cases isTypename : field.name = "__typename"
    · rw [if_pos isTypename]
      cases braces? with
      | some braces => exact sound_failing (by simp)
      | none => exact sound_return fun none =>
          .typename isTypename ((directiveProblems_eq_nil_iff compiled).mp (by simpa using none))
    · rw [if_neg isTypename]
      split
      · exact sound_failing (by simp)
      · rename_i declared isField
        extract_lets onArguments
        obtain ⟨type, found, _⟩ :=
          compiled.isOutput parent isType declared (List.mem_of_find?_eq_some isField)
        rw [found]
        dsimp only
        have admitted (none : onDirectives ++ onArguments = []) :
            scope.AdmitsDirectives field.directives ∧
              scope.AdmitsArguments declared.arguments field.arguments :=
          (List.append_eq_nil_iff.mp none).imp (directiveProblems_eq_nil_iff compiled).mp
            (argumentProblems_field_eq_nil_iff compiled isType isField).mp
        -- Selections are inside a field exactly if its type has fields.
        split
        · exact ((sound_failing (by simp)).after _).imp And.right
        · exact ((sound_failing (by simp)).after _).imp And.right
        · rename_i isComposite
          refine ((sound_selectionsProblems compiled acyclic entering (Schema.mem_of_get? found)
            fieldsPath selections).after _).imp fun typed => ?_
          exact .inside isTypename (admitted typed.1).1 isField (admitted typed.1).2 found
            isComposite typed.2
        · rename_i isLeaf
          refine ((sound_return fun _ => trivial).after _).imp fun typed => ?_
          exact .leaf isTypename (admitted typed.1).1 isField (admitted typed.1).2 found isLeaf
  | .spread name directives span => by
    unfold selectionProblems
    dsimp only
    split
    · exact sound_failing (by simp)
    · rename_i fragment found
      refine (entering.spread acyclic found).imp ?_
      rintro ⟨none, fragment, type, isFragment, condition, each⟩
      exact .spread ((directiveProblems_eq_nil_iff compiled).mp none) isFragment condition each
  | .inline condition? directives selections braces span => by
    unfold selectionProblems
    dsimp only
    split
    · exact sound_failing (by simp)
    · rename_i type found
      have known : type ∈ scope.schema.types := by
        obtain ⟨_, rfl⟩ | ⟨_, _, condition⟩ := condition_of_inlineType found
        · exact isType
        · exact Schema.mem_of_get? condition.1
      refine ((sound_selectionsProblems compiled acyclic entering known path
        selections).after _).imp fun typed => ?_
      have conditions := (directiveProblems_eq_nil_iff compiled).mp typed.1
      obtain ⟨rfl, rfl⟩ | ⟨_, rfl, condition⟩ := condition_of_inlineType found
      · exact .inline conditions typed.2
      · exact .narrowed conditions condition typed.2

/-- Selections without problems are well typed. -/
theorem sound_selectionsProblems (compiled : scope.schema.Compiled)
    (acyclic : Fragment.Acyclic scope.fragments) {enter : EnterFragment}
    (entering : scope.SoundEnter room enter) {parent : SchemaType}
    (isType : parent ∈ scope.schema.types) (path : String) :
    ∀ selections : List Selection, scope.Sound room
      (∀ selection ∈ selections, selection.WellTyped scope parent) (Selection.spreadsOf selections)
      (selectionsProblems scope enter parent path selections)
  | [] => sound_return fun _ => List.forall_mem_nil _
  | selection :: rest =>
    ((sound_selectionProblems compiled acyclic entering isType path selection).append
      (sound_selectionsProblems compiled acyclic entering isType path rest)).imp
        List.forall_mem_cons.mpr

end

/-- Looking into fragments is sound where none leads back to itself. -/
theorem soundEnter_fragmentProblems (compiled : scope.schema.Compiled)
    (acyclic : Fragment.Acyclic scope.fragments) (rounds : Nat) :
    scope.SoundEnter rounds (fragmentProblems scope rounds) := by
  induction rounds with
  | zero => exact fun _ _ _ _ _ _ none => absurd none (Nat.succ_ne_zero _).symm
  | succ rounds ih =>
    intro fragment member type isType path inside same
    obtain rfl := Nat.succ.inj same
    exact sound_selectionsProblems compiled acyclic ih isType path _

/-- The selections of an operation have no problems exactly if they are well typed. -/
theorem selectionsProblems_unseen_eq_nil_iff (compiled : scope.schema.Compiled)
    (acyclic : Fragment.Acyclic scope.fragments) {root : SchemaType}
    (isType : root ∈ scope.schema.types) {path : String} {selections : List Selection} :
    (selectionsProblems scope (fragmentProblems scope scope.fragments.length) root path
      selections).unseen = [] ↔ ∀ selection ∈ selections, selection.WellTyped scope root := by
  constructor
  · intro none
    have sound := sound_selectionsProblems compiled acyclic
      (soundEnter_fragmentProblems compiled acyclic scope.fragments.length) isType path selections
    exact ((sound [] (Nat.le_of_eq (Fragment.unseenWeight_one_nil _)) _ _ rfl).2 none
      (List.forall_mem_nil _)).1
  · intro each
    obtain ⟨after, ran⟩ := clean_selectionsProblems (fun selection member =>
      clean_of_wellTyped compiled (each selection member) isType scope.fragments.length path) []
    unfold Checking.unseen
    rw [ran]
    rfl

/-- No fragment is declared twice exactly if their names are distinct. -/
theorem duplicateProblems_eq_nil_iff {fragments : List Fragment} :
    duplicateProblems [] fragments = [] ↔ (fragments.map (·.name)).Nodup := by
  refine (walk_eq_nil_iff (fun _ => rfl) (fun seen fragment rest => ?_) fragments).trans
    (and_iff_left fun _ _ => trivial)
  rw [duplicateProblems]
  exact refusing_eq_nil_iff (iff_true_intro (rfl : ([] : List Problem) = []))

/-- An operation has no problems exactly if it is well typed, where no fragment leads to itself. -/
theorem operationProblems_eq_nil_iff {schema : Schema} (compiled : schema.Compiled)
    {fragments : List Fragment} (acyclic : Fragment.Acyclic fragments) {operation : Operation} :
    operationProblems schema fragments operation = [] ↔ operation.WellTyped schema fragments := by
  unfold operationProblems
  dsimp only
  split
  · rename_i noRoot
    refine iff_of_false (List.cons_ne_nil _ _) fun wellTyped => ?_
    obtain ⟨root, isRoot, _⟩ := wellTyped.selections
    cases noRoot.symm.trans isRoot
  · rename_i root isRoot
    obtain ⟨_, _, found⟩ := Option.bind_eq_some_iff.mp isRoot
    rw [List.append_eq_nil_iff, List.append_eq_nil_iff,
      variableDefinitionProblems_eq_nil_iff compiled, directiveProblems_eq_nil_iff compiled,
      selectionsProblems_unseen_eq_nil_iff compiled acyclic (Schema.mem_of_get? found)]
    refine ⟨fun ⟨⟨definitions, directives⟩, each⟩ => ⟨definitions, directives, root, isRoot, each⟩,
      fun wellTyped => ⟨⟨wellTyped.definitions, wellTyped.directives⟩, ?_⟩⟩
    obtain ⟨other, isOther, each⟩ := wellTyped.selections
    obtain rfl := Option.some.inj (isRoot.symm.trans isOther)
    exact each

end Typing

namespace Document

/-- **The checks follow the rules.** A document has no problems exactly if it is well typed. -/
theorem problems_eq_nil_iff_wellTyped {schema : Schema} (compiled : schema.Compiled)
    (document : Document) (operation? : Option String) :
    document.problems schema operation? = [] ↔ document.WellTyped schema operation? := by
  unfold problems
  rw [List.append_eq_nil_iff, List.append_eq_nil_iff, Typing.duplicateProblems_eq_nil_iff,
    Typing.cycleProblems_eq_nil_iff]
  constructor
  · rintro ⟨⟨distinct, acyclic⟩, none⟩
    refine ⟨distinct, acyclic, ?_⟩
    split at none
    · contradiction
    · rename_i operation selects
      exact ⟨operation, selects, (Typing.operationProblems_eq_nil_iff compiled acyclic).mp none⟩
  · rintro ⟨distinct, acyclic, operation, selects, wellTyped⟩
    refine ⟨⟨distinct, acyclic⟩, ?_⟩
    rw [selects]
    exact (Typing.operationProblems_eq_nil_iff compiled acyclic).mpr wellTyped

/-- A schema for people and those that they know. -/
def acquaintances : String :=
  "type Query \x7b owner: Person guest: Person \x7d
   type Person \x7b name: String known(years: Int): [Person] \x7d"

/-- A query that spreads one fragment at two places. -/
def spreadTwice : String :=
  "query($years: Int = 3) \x7b owner \x7b ...person \x7d guest \x7b ...person \x7d \x7d
   fragment person on Person
     \x7b name known(years: $years) @include(if: true) \x7b ... on Person \x7b name \x7d \x7d \x7d"

/-- A fragment that is looked into once is well typed at both places. -/
theorem problems_eq_nil_iff_wellTyped_spreadTwice : ∃ (schema : Schema) (document : Document),
    Schema.compile [acquaintances] = .ok schema ∧ parse spreadTwice = .ok document ∧
      document.problems schema none = [] ∧ document.WellTyped schema none := by
  have ran : (Schema.compile [acquaintances]).toOption.bind (fun schema =>
      (parse spreadTwice).toOption.map fun document => document.problems schema none) =
      some [] := by
    decide +kernel
  obtain ⟨schema, isCompiled, ran⟩ := Option.bind_eq_some_iff.mp ran
  obtain ⟨document, isParsed, none⟩ := Option.map_eq_some_iff.mp ran
  have made := Except.of_toOption_eq_some isCompiled
  exact ⟨schema, document, made, Except.of_toOption_eq_some isParsed, none,
    (problems_eq_nil_iff_wellTyped ⟨_, .inl made⟩ document _).mp none⟩

/-- Directives of an operation are checked although they are on none of its selections. -/
theorem unconditional_skip_refused : ∃ (schema : Schema) (document : Document)
    (operation : Operation) (root : SchemaType),
    Schema.compile ["type Query \x7b a: String \x7d"] = .ok schema ∧
      parse "query @skip \x7b a \x7d" = .ok document ∧
      (document.fragments.map (·.name)).Nodup ∧ Fragment.Acyclic document.fragments ∧
      document.selectOperation none = .ok operation ∧
      schema.rootType? operation.kind = some root ∧
      Typing.Scope.AdmitsVariables ⟨schema, operation.variableDefinitions, document.fragments⟩
        operation.variableDefinitions ∧
      (∀ selection ∈ operation.selections, selection.WellTyped
        ⟨schema, operation.variableDefinitions, document.fragments⟩ root) ∧
      document.problems schema none = [⟨.missingArgument "if", "@skip"⟩] := by
  have ran : (Schema.compile ["type Query \x7b a: String \x7d"]).toOption.bind (fun schema =>
      (parse "query @skip \x7b a \x7d").toOption.bind fun document =>
        (document.selectOperation none).toOption.bind fun operation =>
          (schema.rootType? operation.kind).map fun root =>
            (document.fragments.isEmpty && operation.variableDefinitions.isEmpty &&
              (Typing.selectionsProblems ⟨schema, [], []⟩
                (Typing.fragmentProblems ⟨schema, [], []⟩ 0) root ""
                operation.selections).unseen.isEmpty, document.problems schema none)) =
      some (true, [⟨.missingArgument "if", "@skip"⟩]) := by
    decide +kernel
  obtain ⟨schema, isCompiled, ran⟩ := Option.bind_eq_some_iff.mp ran
  obtain ⟨document, isParsed, ran⟩ := Option.bind_eq_some_iff.mp ran
  obtain ⟨operation, selects, ran⟩ := Option.bind_eq_some_iff.mp ran
  obtain ⟨root, isRoot, same⟩ := Option.map_eq_some_iff.mp ran
  obtain ⟨plain, problems⟩ := Prod.mk.inj same
  simp only [Bool.and_eq_true, List.isEmpty_iff] at plain
  obtain ⟨⟨noFragments, noVariables⟩, clean⟩ := plain
  have made := Except.of_toOption_eq_some isCompiled
  obtain ⟨_, _, found⟩ := Option.bind_eq_some_iff.mp isRoot
  have acyclic : Fragment.Acyclic [] := Typing.cycleProblems_eq_nil_iff.mp rfl
  refine ⟨schema, document, operation, root, made, Except.of_toOption_eq_some isParsed, ?_, ?_,
    Except.of_toOption_eq_some selects, isRoot, ?_, ?_, problems⟩
  · rw [noFragments]
    exact List.nodup_nil
  · rwa [noFragments]
  · rw [noVariables]
    exact ⟨List.nodup_nil, List.forall_mem_nil _, List.forall_mem_nil _⟩
  · rw [noVariables, noFragments]
    exact (Typing.selectionsProblems_unseen_eq_nil_iff ⟨_, .inl made⟩ acyclic
      (Schema.mem_of_get? found)).mp clean

end Document

end TraversalQuery
