import Mathlib.Data.List.Induction
import TraversalQuery.Command.Options

/-!
# Options of several argument lists

Arguments are read from left to right, and options that were read can be put over others. Reading
one list after another is as good as putting the options of the second over those of the first, but
for the format: options that show an outline because their arguments ask for one cannot be told from
those whose arguments ask for nothing, and do not count over a format below them.
-/

namespace TraversalQuery

namespace Command

/-- The format that an argument sets. -/
def Setting.format? : Setting → Option OutputFormat
  | .format shown => some shown
  | _ => none

/-- The format that arguments set: what the last of those sets that set one. -/
def formatOf? (arguments : List String) : Option OutputFormat :=
  ((arguments.map Setting.ofArgument).filterMap Setting.format?).getLast?

namespace Options

/-- Options with others over them, shown in a format of their own. -/
def mergeAs (shown : OutputFormat) (options others : Options) : Options :=
  { options.merge others with format := shown }

/-- The format in which options are shown that have settings applied to them. -/
def formatAfter (settings : List Setting) (shown : OutputFormat) : OutputFormat :=
  (settings.filterMap Setting.format?).getLast?.getD shown

/-- The last setting that names a format decides. -/
theorem formatAfter_append (before : List Setting) (last : Setting) (shown : OutputFormat) :
    formatAfter (before ++ [last]) shown = last.format?.getD (formatAfter before shown) := by
  unfold formatAfter
  rw [List.filterMap_append]
  cases isFormat : last.format? <;> simp [isFormat]

/-- **A step.** A setting changes merged options as it changes the upper ones. -/
theorem apply_mergeAs (shown : OutputFormat) (options others : Options) (setting : Setting) :
    (mergeAs shown options others).apply setting =
      mergeAs (setting.format?.getD shown) options (others.apply setting) := by
  cases setting with
  | input path => simp [apply, mergeAs, merge, Setting.format?]
  | _ => rfl

/-- Nothing is merged in where there is nothing. -/
theorem mergeAs_none (options : Options) : mergeAs options.format options none = options := by
  simp [mergeAs, merge, none]

/-- **A run.** Options that settings are applied to one after another are those with the options
over them that the settings make by themselves, in the format that was set last. -/
theorem foldl_apply (options : Options) (settings : List Setting) :
    settings.foldl apply options =
      mergeAs (formatAfter settings options.format) options (settings.foldl apply none) := by
  induction settings using List.reverseRecOn with
  | nil => exact (mergeAs_none options).symm
  | append_singleton before last ih =>
    rw [List.foldl_append, List.foldl_append, formatAfter_append, ih]
    exact apply_mergeAs _ _ _ last

/-- The format of options is the one that their arguments set. -/
theorem format_ofArguments (arguments : List String) :
    (ofArguments arguments).format = (formatOf? arguments).getD .tree := by
  unfold ofArguments
  rw [foldl_apply]
  rfl

/-- Whether a format counts is told by whether it is an outline. -/
theorem format_merge (options others : Options) : (options.merge others).format =
    if others.format = .tree then options.format else others.format :=
  rfl

/-- Merging by what was shown is merging exactly if the format is the merged one. -/
theorem mergeAs_eq_merge_iff (shown : OutputFormat) (options others : Options) :
    mergeAs shown options others = options.merge others ↔
      shown = (options.merge others).format := by
  constructor
  · exact congrArg Options.format
  · rintro rfl
    rfl

/-- **Options compose, but for an outline that is asked for over JSON.** Arguments that come one
after the other give the options of the second over those of the first: inputs in order, and of the
rest what the second set, or else the first, the format included. Merging the options of both gives
the same, unless the second set the outline as their format and the first set JSON. -/
theorem ofArguments_append (first second : List String) :
    ofArguments (first ++ second) =
        { (ofArguments first).merge (ofArguments second) with
          format := (formatOf? second).getD (ofArguments first).format } ∧
      (ofArguments (first ++ second) = (ofArguments first).merge (ofArguments second) ↔
        ¬ (formatOf? first = some .json ∧ formatOf? second = some .tree)) := by
  have composed : ofArguments (first ++ second) =
      mergeAs ((formatOf? second).getD (ofArguments first).format) (ofArguments first)
        (ofArguments second) := by
    rw [ofArguments, List.map_append, List.foldl_append, foldl_apply]
    rfl
  refine ⟨composed, ?_⟩
  rw [composed, mergeAs_eq_merge_iff, format_merge, format_ofArguments, format_ofArguments]
  rcases formatOf? first with _ | _ | _ <;> rcases formatOf? second with _ | _ | _ <;> decide

/-- An outline is asked for after JSON, but not shown by the merged options. -/
theorem explicit_outline_not_merged :
    (ofArguments (["--format=json"] ++ ["--format=tree"])).format = .tree ∧
      ((ofArguments ["--format=json"]).merge (ofArguments ["--format=tree"])).format = .json ∧
      ofArguments (["--format=json"] ++ ["--format=tree"]) ≠
        (ofArguments ["--format=json"]).merge (ofArguments ["--format=tree"]) := by
  decide +kernel

end Options

end Command

end TraversalQuery
