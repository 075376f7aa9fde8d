import Schemata.Config.Basic
import Schemata.Proofs.Mapping

/-!
# Loading options

Options are read entry by entry, and an entry that names an option replaces what was there. What
comes out is therefore told by the last value of each name: neither the order of the entries nor
entries of other names play a part, and options that were dumped are read back as they were.

The operation that dumps the options is no option, and yet it is found among them by its name: an
entry of that name is not ignored but takes its place, and then nothing can be dumped.
-/

namespace Schemata

/-! ### The groups -/

namespace FormatterConfig

def names : List String := ["enabled", "command", "print_width", "single_quote", "semi"]

theorem exists_set (config : FormatterConfig) {name : String} (h : name ∈ names) (value : Json) :
    ∃ next, config.set name value = .ok next := by
  simp only [names, List.mem_cons, List.not_mem_nil, or_false] at h
  rcases h with rfl | rfl | rfl | rfl | rfl <;> exact ⟨_, rfl⟩

theorem exists_ofEntries {entries : List (String × Json)} (h : ∀ entry ∈ entries, entry.1 ∈ names) :
    ∃ config, ofEntries entries = .ok config := by
  rw [ofEntries]
  generalize default = start
  induction entries generalizing start with
  | nil => exact ⟨start, rfl⟩
  | cons entry rest ih =>
    obtain ⟨name, value⟩ := entry
    obtain ⟨next, hnext⟩ := start.exists_set (h _ List.mem_cons_self) value
    rw [List.foldlM_cons]
    dsimp only
    rw [hnext]
    exact ih (fun other hother => h other (List.mem_cons_of_mem _ hother)) next

end FormatterConfig

namespace OutputConfig

/-- The mode is left out, or it is the name of one. -/
def ModeFits (entries : List (String × Json)) : Prop :=
  ∀ value, valueAt? "mode" entries = some value → value = .str "error" ∨ value = .str "force"

theorem exists_readMode {entries : List (String × Json)} (h : ModeFits entries) :
    ∃ mode, readMode (valueAt? "mode" entries) = .ok (.group mode) := by
  cases hvalue : valueAt? "mode" entries with
  | none => exact ⟨.errorIfExists, rfl⟩
  | some value =>
    rcases h value hvalue with rfl | rfl
    · exact ⟨.errorIfExists, rfl⟩
    · exact ⟨.force, rfl⟩

theorem exists_ofEntries {entries : List (String × Json)} (h : ModeFits entries) :
    ∃ mode config, ofEntries entries = .ok config ∧ config.mode = .group mode := by
  obtain ⟨mode, hmode⟩ := exists_readMode h
  rw [ofEntries, hmode]
  exact ⟨mode, _, rfl, rfl⟩

end OutputConfig

namespace Config

/-! ### One entry after another -/

def optionNames : List String :=
  ["add_generation_comment", "skip_type_creation", "type_name_template", "value_name_template",
    "typebox_module", "strict", "formatter", "output"]

/-- Other names by which a record of options is reached itself: its type, its table of fields and
the references to it. Entries of these names are not looked into here. -/
def recordNames : List String := ["__class__", "__dict__", "__weakref__"]

/-- An entry for a group holds an object, with known names for the formatter and a known mode for
the output. -/
structure Fits (entry : String × Json) : Prop where
  formatter : entry.1 = "formatter" →
    ∃ group, entry.2 = .obj group ∧ ∀ inner ∈ group, inner.1 ∈ FormatterConfig.names
  output : entry.1 = "output" → ∃ group, entry.2 = .obj group ∧ OutputConfig.ModeFits group

/-- The options of the formatter that a value stands for; a value that cannot be read is kept. -/
def formatterOf (value : Json) : Setting FormatterConfig :=
  match value with
  | .obj entries =>
    match FormatterConfig.ofEntries entries with
    | .ok group => .group group
    | .error _ => .other value
  | _ => .other value

/-- The options of the output that a value stands for; a value that cannot be read is kept. -/
def outputOf (value : Json) : Setting OutputConfig :=
  match value with
  | .obj entries =>
    match OutputConfig.ofEntries entries with
    | .ok group => .group group
    | .error _ => .other value
  | _ => .other value

/-- Options in which each name that is given a value has the last one. -/
def updated (config : Config) (entries : List (String × Json)) : Config where
  addComment := (lastValue? "add_generation_comment" entries).getD config.addComment
  skipTypes := (lastValue? "skip_type_creation" entries).getD config.skipTypes
  typeTemplate := (lastValue? "type_name_template" entries).getD config.typeTemplate
  valueTemplate := (lastValue? "value_name_template" entries).getD config.valueTemplate
  library := (lastValue? "typebox_module" entries).getD config.library
  strict := (lastValue? "strict" entries).getD config.strict
  formatter := ((lastValue? "formatter" entries).map formatterOf).getD config.formatter
  output := ((lastValue? "output" entries).map outputOf).getD config.output
  dumpReplaced := config.dumpReplaced || (lastValue? "to_dict" entries).isSome

theorem Fits.exists_formatter {value : Json} (h : Fits ("formatter", value)) :
    ∃ entries group, value = .obj entries ∧ FormatterConfig.ofEntries entries = .ok group := by
  obtain ⟨entries, rfl, hnames⟩ := h.formatter rfl
  obtain ⟨group, hgroup⟩ := FormatterConfig.exists_ofEntries hnames
  exact ⟨entries, group, rfl, hgroup⟩

theorem Fits.exists_output {value : Json} (h : Fits ("output", value)) :
    ∃ entries mode group, value = .obj entries ∧ OutputConfig.ofEntries entries = .ok group ∧
      group.mode = .group mode := by
  obtain ⟨entries, rfl, hmode⟩ := h.output rfl
  obtain ⟨mode, group, hgroup, hname⟩ := OutputConfig.exists_ofEntries hmode
  exact ⟨entries, mode, group, rfl, hgroup, hname⟩

/-- One entry gives its option the value and leaves the others alone. -/
theorem set_eq_updated (config : Config) {entry : String × Json} (h : Fits entry) :
    config.set entry.1 entry.2 = .ok (config.updated [entry]) := by
  obtain ⟨name, value⟩ := entry
  by_cases hformatter : name = "formatter"
  · subst hformatter
    obtain ⟨entries, group, rfl, hgroup⟩ := h.exists_formatter
    simp [set, updated, lastValue?_singleton, formatterOf, hgroup]
  · by_cases houtput : name = "output"
    · subst houtput
      obtain ⟨entries, mode, group, rfl, hgroup, -⟩ := h.exists_output
      simp [set, updated, lastValue?_singleton, outputOf, hgroup]
    · -- every other entry sets a single field, or none
      unfold set
      split <;> simp_all [updated, lastValue?_singleton]

theorem updated_updated (config : Config) (first second : List (String × Json)) :
    (config.updated first).updated second = config.updated (first ++ second) := by
  simp [updated, lastValue?_append, Option.map_or, Option.getD_or, Bool.or_assoc, Bool.or_comm]

theorem foldlM_set_eq_updated {entries : List (String × Json)} (h : ∀ entry ∈ entries, Fits entry)
    (config : Config) :
    entries.foldlM (fun config (name, value) => config.set name value) config =
      .ok (config.updated entries) := by
  induction entries generalizing config with
  | nil => simp [updated]; rfl
  | cons entry rest ih =>
    have hset := config.set_eq_updated (h entry List.mem_cons_self)
    obtain ⟨name, value⟩ := entry
    rw [List.foldlM_cons]
    dsimp only at hset ⊢
    rw [hset]
    refine (ih (fun other hother => h other (List.mem_cons_of_mem _ hother)) _).trans ?_
    rw [updated_updated, List.singleton_append]

/-! ### Objects with the same options -/

/-- The options have the same values, in any order and among any other entries. -/
def SameOptions (entries other : List (String × Json)) : Prop :=
  (other.filter fun entry => optionNames.contains entry.1).Perm
    (entries.filter fun entry => optionNames.contains entry.1)

theorem SameOptions.lastValue?_eq {entries other : List (String × Json)}
    (h : SameOptions entries other) (hkeys : (entries.map Prod.fst).Nodup) {name : String}
    (hname : name ∈ optionNames) : lastValue? name other = lastValue? name entries := by
  have hname' : optionNames.contains name = true := List.contains_iff_mem.2 hname
  rw [← lastValue?_filter hname' other, ← lastValue?_filter hname' entries]
  exact lastValue?_perm (hkeys.sublist (List.filter_sublist.map Prod.fst)) h name

theorem SameOptions.fits {entries other : List (String × Json)} (h : SameOptions entries other)
    (hfits : ∀ entry ∈ entries, Fits entry) : ∀ entry ∈ other, Fits entry := by
  intro entry hentry
  by_cases hname : optionNames.contains entry.1 = true
  · have hmem := h.mem_iff.1 (List.mem_filter.2 ⟨hentry, hname⟩)
    exact hfits entry (List.mem_filter.1 hmem).1
  · constructor
    · intro heq
      exact absurd (heq ▸ rfl) hname
    · intro heq
      exact absurd (heq ▸ rfl) hname

theorem SameOptions.updated_eq {entries other : List (String × Json)}
    (h : SameOptions entries other) (hkeys : (entries.map Prod.fst).Nodup) (config : Config) :
    config.updated other = { config.updated entries with
      dumpReplaced := config.dumpReplaced || (lastValue? "to_dict" other).isSome } := by
  have hsame : ∀ name ∈ optionNames, lastValue? name other = lastValue? name entries :=
    fun name hname => h.lastValue?_eq hkeys hname
  simp only [optionNames, List.forall_mem_cons] at hsame
  simp only [updated, hsame]

/-! ### Dumping and reading again -/

theorem exists_formatter_updated {entries : List (String × Json)}
    (h : ∀ entry ∈ entries, Fits entry) :
    ∃ group, (default.updated entries).formatter = .group group := by
  cases hvalue : lastValue? "formatter" entries with
  | none => exact ⟨FormatterConfig.default, by rw [updated, hvalue]; rfl⟩
  | some value =>
    obtain ⟨inner, group, rfl, hgroup⟩ := (h _ (mem_of_lastValue? hvalue)).exists_formatter
    exact ⟨group, by simp [updated, hvalue, formatterOf, hgroup]⟩

theorem exists_output_updated {entries : List (String × Json)}
    (h : ∀ entry ∈ entries, Fits entry) :
    ∃ mode group, (default.updated entries).output = .group group ∧ group.mode = .group mode := by
  cases hvalue : lastValue? "output" entries with
  | none => exact ⟨.errorIfExists, OutputConfig.default, by rw [updated, hvalue]; rfl, rfl⟩
  | some value =>
    obtain ⟨inner, mode, group, rfl, hgroup, hmode⟩ :=
      (h _ (mem_of_lastValue? hvalue)).exists_output
    exact ⟨mode, group, by simp [updated, hvalue, outputOf, hgroup], hmode⟩

/-- Options whose dump is not replaced are read back from it as they were. -/
theorem exists_dump {config : Config} {formatter : FormatterConfig} {output : OutputConfig}
    {mode : OutputMode} (hformatter : config.formatter = .group formatter)
    (houtput : config.output = .group output) (hmode : output.mode = .group mode) :
    ∃ dump, { config with dumpReplaced := false }.toJson = .ok dump ∧
      ofJson dump = .ok { config with dumpReplaced := false } := by
  obtain ⟨addComment, skipTypes, typeTemplate, valueTemplate, library, strict, _, _, _⟩ := config
  obtain ⟨_, validate, atomic⟩ := output
  subst hformatter houtput hmode
  cases mode
  · exact ⟨_, rfl, rfl⟩
  · exact ⟨_, rfl, rfl⟩

/-- **Loading options is a normalisation.** An object whose groups fit is loaded, and so is every
other one with the same options: in another order, with more entries or fewer, they give the same,
which can be dumped and is read back. Only an entry named like the dump itself stands in its way. -/
theorem loading_normalises {entries : List (String × Json)}
    (hkeys : (entries.map Prod.fst).Nodup) (hfits : ∀ entry ∈ entries, Fits entry) :
    ∃ config dump, config.toJson = .ok dump ∧ ofJson dump = .ok config ∧
      ∀ other, SameOptions entries other → (∀ entry ∈ other, entry.1 ∉ recordNames) →
        ((∀ entry ∈ other, entry.1 ≠ "to_dict") → ofJson (.obj other) = .ok config) ∧
        ((∃ entry ∈ other, entry.1 = "to_dict") →
          ofJson (.obj other) = .ok { config with dumpReplaced := true } ∧
          { config with dumpReplaced := true }.toJson = .error .dumpReplaced) := by
  obtain ⟨formatter, hformatter⟩ := exists_formatter_updated hfits
  obtain ⟨mode, output, houtput, hmode⟩ := exists_output_updated hfits
  obtain ⟨dump, hdump, hread⟩ := exists_dump hformatter houtput hmode
  refine ⟨_, dump, hdump, hread, fun other hsame _ => ?_⟩
  have hother : ofJson (.obj other) = .ok (default.updated other) :=
    foldlM_set_eq_updated (hsame.fits hfits) default
  rw [hsame.updated_eq hkeys] at hother
  constructor
  · intro hnames
    rw [hother, lastValue?_eq_none_iff.2 hnames]
    rfl
  · rintro ⟨entry, hentry, hname⟩
    have hsome : (lastValue? "to_dict" other).isSome = true := by
      rw [Option.isSome_iff_ne_none, Ne, lastValue?_eq_none_iff]
      exact fun hall => hall entry hentry hname
    rw [hother, hsome]
    exact ⟨rfl, rfl⟩

/-- Three options and an entry that is none. -/
def sampleEntries : List (String × Json) :=
  [("strict", .int 1), ("formatter", .obj [("semi", .bool false), ("print_width", .int 100)]),
    ("colour", .str "red"), ("output", .obj [("atomic_write", .null), ("mode", .str "force")])]

/-- The same options the other way round, and the name of the dump among them. -/
def reversedEntries : List (String × Json) :=
  [("output", .obj [("atomic_write", .null), ("mode", .str "force")]), ("to_dict", .int 1),
    ("formatter", .obj [("semi", .bool false), ("print_width", .int 100)]), ("strict", .int 1)]

theorem loading_sampleEntries :
    ∃ config dump, ofJson (.obj sampleEntries) = .ok config ∧ config.strict = .int 1 ∧
      config.toJson = .ok dump ∧ ofJson dump = .ok config ∧
      ofJson (.obj reversedEntries) = .ok { config with dumpReplaced := true } ∧
      { config with dumpReplaced := true }.toJson = .error .dumpReplaced := by
  have hfits : ∀ entry ∈ sampleEntries, Fits entry := by
    simp only [sampleEntries, List.forall_mem_cons]
    refine ⟨⟨nofun, nofun⟩, ⟨fun _ => ⟨_, rfl, by decide⟩, nofun⟩, ⟨nofun, nofun⟩,
      ⟨nofun, fun _ => ⟨_, rfl, ?_⟩⟩, by simp⟩
    rintro _ ⟨⟩
    exact Or.inr rfl
  have hreversed : SameOptions sampleEntries reversedEntries :=
    List.reverse_perm (sampleEntries.filter fun entry : String × Json =>
      optionNames.contains entry.1)
  obtain ⟨config, dump, hdump, hread, hsame⟩ := loading_normalises (by decide) hfits
  have hload := (hsame sampleEntries (List.Perm.refl _) (by decide)).1 (by decide)
  have hreplaced := (hsame reversedEntries hreversed (by decide)).2 (by decide)
  refine ⟨config, dump, hload, ?_, hdump, hread, hreplaced⟩
  have hvalue : ofJson (.obj sampleEntries) = .ok _ := rfl
  rw [hvalue] at hload
  cases hload
  rfl

end Config

end Schemata
