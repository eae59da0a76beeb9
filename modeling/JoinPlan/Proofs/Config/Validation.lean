import JoinPlan.Config
import JoinPlan.Proofs.Json.Fields
import JoinPlan.Proofs.Text.Trimming

/-!
# What loading a configuration enforces

The values of a configuration are checked behind the step that sees its directory from the
configuration file. This file supplies what loading demands of the values that stand in the
file.

> `Config.Sound`: there is a directory, the marker is a non-empty path segment, the parent field
> is not blank, and no excluded target is.
>
> `Config.Judges`: what is accepted, what is refused, and for which files that is `Config.Sound`.

Reading is a matter of the text alone (`read?_eq_some_iff`, `read?_eq_none_iff`), and the check
is `Config.Sound` of what it is given (`fault?_eq_none_iff`). In between, an empty directory is
lost in the one that the path of the file names, if it names one (`seenFrom_sound_iff`).
-/

namespace JoinPlan

/-! ## Paths -/

namespace Path

theorem join_eq_empty_iff {base path : String} : join base path = "" ↔ base = "" ∧ path = "" := by
  unfold join
  by_cases habsolute : isAbsolute path = true
  · have hpath : path ≠ "" := by
      rintro rfl
      cases habsolute
    simp [habsolute, hpath]
  · by_cases hbase : base = ""
    · simp [hbase]
    · have hempty : base.isEmpty = false := by simpa using hbase
      simp only [habsolute, hempty, Bool.or_self, Bool.false_eq_true, if_false]
      split <;> simp [hbase]

/-- The path of a file names a directory that the file is in. -/
def NamesDirectory (path : String) : Prop :=
  ∃ directory, parent? path = some directory ∧ directory ≠ ""

/-- The name of a file alone names no directory. -/
theorem not_namesDirectory_of_plain {path : String} (h : '/' ∉ path.toList) :
    ¬NamesDirectory path := by
  have hstart : splitStart path.toList = (['.'], []) ∨
      splitStart path.toList = ([], path.toList) := by
    unfold splitStart
    split
    · next heq => exact absurd (heq ▸ List.mem_cons_self) h
    · exact .inl rfl
    · next heq => exact absurd (heq ▸ List.mem_cons_of_mem _ List.mem_cons_self) h
    · exact .inr rfl
  rintro ⟨directory, hparent, hdirectory⟩
  refine hdirectory ?_
  unfold parent? at hparent
  rcases hstart with hstart | hstart
  · rw [hstart] at hparent
    cases hparent
    rfl
  · rw [hstart] at hparent
    dsimp only at hparent
    rw [Text.pieces_of_not_mem h, List.reverse_singleton] at hparent
    by_cases hidle : isIdle path.toList = true
    · rw [List.dropWhile_cons_of_pos hidle] at hparent
      cases hparent
    · rw [List.dropWhile_cons_of_neg hidle] at hparent
      cases hparent
      rfl

end Path

/-! ## Demands -/

/-- What is demanded of options. -/
structure Options.Sound (options : Options) : Prop where
  marker_ne_empty : options.uplinkMarker ≠ ""
  marker_plain : '/' ∉ options.uplinkMarker.toList
  parentField : Text.trim options.parentField ≠ ""
  excludedTargets : ∀ target ∈ options.excludedTargets, Text.trim target ≠ ""

namespace Config

variable {config written loaded : Config} {path text : String} {node : Node}
  {fields : List (String × Node)}

/-- What is demanded of a configuration. -/
structure Sound (config : Config) : Prop where
  schemaDir : config.schemaDir ≠ ""
  options : config.options.Sound

/-- The check finds nothing exactly where the demands are met. -/
theorem fault?_eq_none_iff : config.fault? = none ↔ config.Sound := by
  have hmarker : (config.options.uplinkMarker.isEmpty ||
      config.options.uplinkMarker.toList.contains '/') = true ↔
      ¬(config.options.uplinkMarker ≠ "" ∧ '/' ∉ config.options.uplinkMarker.toList) := by
    simp only [Bool.or_eq_true, String.isEmpty_iff, List.contains_iff_mem]
    tauto
  constructor
  · intro h
    dsimp only [fault?] at h
    split_ifs at h with hdir hsegment hparent
    rw [hmarker, not_not] at hsegment
    rw [Text.isBlankText_eq_true_iff] at hparent
    rw [Option.map_eq_none_iff, List.find?_eq_none] at h
    refine ⟨by simpa using hdir, hsegment.1, hsegment.2, hparent, fun target htarget => ?_⟩
    rw [ne_eq, ← Text.isBlankText_eq_true_iff]
    exact h target htarget
  · rintro ⟨hdir, hne, hplain, hparent, htargets⟩
    dsimp only [fault?]
    rw [if_neg (by simpa using hdir), if_neg (by rw [hmarker, not_not]; exact ⟨hne, hplain⟩),
      if_neg (by rwa [Text.isBlankText_eq_true_iff]), Option.map_eq_none_iff, List.find?_eq_none]
    intro target htarget
    rw [Text.isBlankText_eq_true_iff]
    exact htargets target htarget

/-! ## Reading -/

/-- The fields of a configuration, in the order that an array has. -/
def fieldNames : List String :=
  ["schema_dir", "uplink_marker", "parent_field", "excluded_targets", "log_pipelines"]

/-- What may stand in a field. -/
def FieldType (name : String) (value : Node) : Prop :=
  match name with
  | "schema_dir" | "uplink_marker" | "parent_field" =>
    ∃ text, value = (Value.string text).toNode
  | "excluded_targets" => ∃ texts, value = (Value.ofTexts texts).toNode
  | "log_pipelines" => ∃ flag, value = (Value.bool flag).toNode
  | _ => False

/-- Fields have the values of a configuration. -/
structure WrittenBy (fields : List (String × Node)) (config : Config) : Prop where
  schemaDir : ("schema_dir", (Value.string config.schemaDir).toNode) ∈ fields
  uplinkMarker : Node.Holds fields "uplink_marker" "~" .string config.options.uplinkMarker
  parentField : Node.Holds fields "parent_field" "parentID" .string config.options.parentField
  excludedTargets :
    Node.Holds fields "excluded_targets" ["formtype"] .ofTexts config.options.excludedTargets
  logPipelines : Node.Holds fields "log_pipelines" false .bool config.options.logPipelines

theorem nodup_fieldNames : fieldNames.Nodup := by decide

theorem ofNode?_eq_some_iff : ofNode? node = some config ↔
    ∃ fields, Node.WritesFields fieldNames node fields ∧ WrittenBy fields config := by
  have hfields : ∀ {fields}, node.typedFields? true fieldNames = some fields ↔
      Node.WritesFields fieldNames node fields := Node.typedFields?_eq_some_iff
  constructor
  · intro h
    obtain ⟨fields, hwrites, h⟩ := Option.bind_eq_some_iff.mp h
    obtain ⟨schemaDir, hschemaDir, h⟩ := Option.bind_eq_some_iff.mp h
    obtain ⟨uplinkMarker, huplinkMarker, h⟩ := Option.bind_eq_some_iff.mp h
    obtain ⟨parentField, hparentField, h⟩ := Option.bind_eq_some_iff.mp h
    obtain ⟨excludedTargets, hexcludedTargets, h⟩ := Option.bind_eq_some_iff.mp h
    obtain ⟨logPipelines, hlogPipelines, h⟩ := Option.bind_eq_some_iff.mp h
    cases h
    have hwrites := hfields.mp hwrites
    have hnodup := hwrites.nodup nodup_fieldNames
    exact ⟨fields, hwrites,
      (Node.reads_text?.required?_eq_some_iff hnodup).mp hschemaDir,
      (Node.reads_text?.orDefault?_eq_some_iff hnodup).mp huplinkMarker,
      (Node.reads_text?.orDefault?_eq_some_iff hnodup).mp hparentField,
      (Node.reads_texts?.orDefault?_eq_some_iff hnodup).mp hexcludedTargets,
      (Node.reads_flag?.orDefault?_eq_some_iff hnodup).mp hlogPipelines⟩
  · rintro ⟨fields, hwrites, hwritten⟩
    have hnodup := hwrites.nodup nodup_fieldNames
    refine Option.bind_eq_some_iff.mpr ⟨fields, hfields.mpr hwrites, ?_⟩
    refine Option.bind_eq_some_iff.mpr ⟨config.schemaDir,
      (Node.reads_text?.required?_eq_some_iff hnodup).mpr hwritten.schemaDir, ?_⟩
    refine Option.bind_eq_some_iff.mpr ⟨config.options.uplinkMarker,
      (Node.reads_text?.orDefault?_eq_some_iff hnodup).mpr hwritten.uplinkMarker, ?_⟩
    refine Option.bind_eq_some_iff.mpr ⟨config.options.parentField,
      (Node.reads_text?.orDefault?_eq_some_iff hnodup).mpr hwritten.parentField, ?_⟩
    refine Option.bind_eq_some_iff.mpr ⟨config.options.excludedTargets,
      (Node.reads_texts?.orDefault?_eq_some_iff hnodup).mpr
        hwritten.excludedTargets, ?_⟩
    exact Option.bind_eq_some_iff.mpr ⟨config.options.logPipelines,
      (Node.reads_flag?.orDefault?_eq_some_iff hnodup).mpr hwritten.logPipelines, rfl⟩

/-- Fields have the values of some configuration exactly when they are of their types and the
directory is among them. -/
theorem exists_writtenBy_iff (hwrites : Node.WritesFields fieldNames node fields) :
    (∃ config, WrittenBy fields config) ↔
      (∀ name value, (name, value) ∈ fields → FieldType name value) ∧
        "schema_dir" ∈ fields.map Prod.fst := by
  have hnodup := hwrites.nodup nodup_fieldNames
  constructor
  · rintro ⟨config, hwritten⟩
    refine ⟨?_, List.mem_map_of_mem hwritten.schemaDir⟩
    intro name value hmem
    have hknown : name ∈ fieldNames := hwrites.mem hmem
    simp only [fieldNames, List.mem_cons, List.not_mem_nil, or_false] at hknown
    rcases hknown with rfl | rfl | rfl | rfl | rfl
    · exact ⟨_, value_unique hnodup hmem hwritten.schemaDir⟩
    · exact ⟨_, hwritten.uplinkMarker.eq_of_mem hnodup hmem⟩
    · exact ⟨_, hwritten.parentField.eq_of_mem hnodup hmem⟩
    · exact ⟨_, hwritten.excludedTargets.eq_of_mem hnodup hmem⟩
    · exact ⟨_, hwritten.logPipelines.eq_of_mem hnodup hmem⟩
  · rintro ⟨htyped, hdirectory⟩
    obtain ⟨⟨_, value⟩, hmem, rfl⟩ := List.mem_map.mp hdirectory
    obtain ⟨schemaDir, rfl⟩ : ∃ text, value = (Value.string text).toNode := htyped _ _ hmem
    obtain ⟨uplinkMarker, huplinkMarker⟩ := Node.exists_holds "~" (htyped "uplink_marker")
    obtain ⟨parentField, hparentField⟩ := Node.exists_holds "parentID" (htyped "parent_field")
    obtain ⟨excludedTargets, hexcludedTargets⟩ :=
      Node.exists_holds ["formtype"] (htyped "excluded_targets")
    obtain ⟨logPipelines, hlogPipelines⟩ := Node.exists_holds false (htyped "log_pipelines")
    exact ⟨⟨schemaDir, ⟨uplinkMarker, parentField, excludedTargets, logPipelines⟩⟩, hmem,
      huplinkMarker, hparentField, hexcludedTargets, hlogPipelines⟩

theorem ofNode?_eq_none_iff :
    ofNode? node = none ↔ Node.Misfit fieldNames ["schema_dir"] FieldType node := by
  rw [Node.misfit_iff, Option.eq_none_iff_forall_ne_some]
  simp only [ne_eq, ofNode?_eq_some_iff]
  constructor
  · rintro h ⟨fields, hwrites, htyped, hrequired⟩
    obtain ⟨config, hwritten⟩ := (exists_writtenBy_iff hwrites).mpr
      ⟨htyped, hrequired _ (List.mem_singleton_self _)⟩
    exact h config ⟨fields, hwrites, hwritten⟩
  · rintro h config ⟨fields, hwrites, hwritten⟩
    obtain ⟨htyped, hdirectory⟩ := (exists_writtenBy_iff hwrites).mp ⟨config, hwritten⟩
    refine h ⟨fields, hwrites, htyped, fun name hname => ?_⟩
    rwa [List.mem_singleton.mp hname]

/-- A text is JSON that writes the values of a configuration. -/
def WrittenIn (text : String) (config : Config) : Prop :=
  ∃ node fields, Node.read text = some node ∧ Node.WritesFields fieldNames node fields ∧
    WrittenBy fields config

/-- A text is no JSON, or it does not fit the fields. -/
def Malformed (text : String) : Prop :=
  ∀ node, Node.read text = some node → Node.Misfit fieldNames ["schema_dir"] FieldType node

theorem read?_eq_some_iff : read? text = some config ↔ WrittenIn text config := by
  rw [read?, Option.bind_eq_some_iff]
  constructor
  · rintro ⟨node, hnode, hconfig⟩
    obtain ⟨fields, hwrites, hwritten⟩ := ofNode?_eq_some_iff.mp hconfig
    exact ⟨node, fields, hnode, hwrites, hwritten⟩
  · rintro ⟨node, fields, hnode, hwrites, hwritten⟩
    exact ⟨node, hnode, ofNode?_eq_some_iff.mpr ⟨fields, hwrites, hwritten⟩⟩

theorem read?_eq_none_iff : read? text = none ↔ Malformed text := by
  rw [read?, Option.bind_eq_none_iff]
  exact forall₂_congr fun node _ => ofNode?_eq_none_iff

/-- A text writes one configuration at most. -/
theorem WrittenIn.unique {other : Config} (h : WrittenIn text config) (ho : WrittenIn text other) :
    config = other := by
  have hread := read?_eq_some_iff.mpr h
  rw [read?_eq_some_iff.mpr ho] at hread
  exact (Option.some.inj hread).symm

/-! ## Loading -/

/-- Seen from a file, a configuration meets the demands when its options do and its directory is
not empty, or is lost in the one that the path of the file names. -/
theorem seenFrom_sound_iff : (config.seenFrom path).Sound ↔
    config.options.Sound ∧ (config.schemaDir = "" → Path.NamesDirectory path) := by
  unfold seenFrom
  cases hparent : Path.parent? path with
  | none =>
    have hnone : ¬Path.NamesDirectory path := by
      rintro ⟨directory, hdirectory, -⟩
      cases hparent.symm.trans hdirectory
    constructor
    · intro h
      exact ⟨h.options, fun hempty => absurd hempty h.schemaDir⟩
    · rintro ⟨hoptions, hdir⟩
      exact ⟨fun hempty => hnone (hdir hempty), hoptions⟩
  | some parent =>
    have hnames : Path.NamesDirectory path ↔ parent ≠ "" := by
      constructor
      · rintro ⟨directory, hdirectory, hne⟩
        cases hparent.symm.trans hdirectory
        exact hne
      · intro hne
        exact ⟨parent, hparent, hne⟩
    rw [hnames]
    constructor
    · intro h
      refine ⟨h.options, fun hempty hlost => h.schemaDir ?_⟩
      exact Path.join_eq_empty_iff.mpr ⟨hlost, hempty⟩
    · rintro ⟨hoptions, hdir⟩
      refine ⟨fun hjoined => ?_, hoptions⟩
      obtain ⟨hlost, hempty⟩ := Path.join_eq_empty_iff.mp hjoined
      exact hdir hempty hlost

theorem checked_eq_ok_iff : config.checked = .ok loaded ↔ config.Sound ∧ loaded = config := by
  rw [← fault?_eq_none_iff]
  unfold checked
  cases config.fault? with
  | none => simp [eq_comm]
  | some fault => simp

theorem load_of_written (h : WrittenIn text written) (path : String) :
    load path (some text) = (written.seenFrom path).checked := by
  dsimp only [load]
  rw [read?_eq_some_iff.mpr h]

theorem load_of_malformed (h : Malformed text) (path : String) :
    load path (some text) = .error .malformed := by
  dsimp only [load]
  rw [read?_eq_none_iff.mpr h]

/-- A text is malformed or has values, and not both. -/
theorem malformed_iff : Malformed text ↔ ∀ written, ¬WrittenIn text written := by
  rw [← read?_eq_none_iff, Option.eq_none_iff_forall_ne_some]
  exact forall_congr' fun written => not_congr read?_eq_some_iff

theorem load_eq_ok_iff : load path (some text) = .ok loaded ↔
    ∃ written, WrittenIn text written ∧ written.options.Sound ∧
      (written.schemaDir = "" → Path.NamesDirectory path) ∧ loaded = written.seenFrom path := by
  constructor
  · intro h
    by_cases hmalformed : Malformed text
    · rw [load_of_malformed hmalformed] at h
      cases h
    · rw [malformed_iff, not_forall_not] at hmalformed
      obtain ⟨written, hwritten⟩ := hmalformed
      rw [load_of_written hwritten, checked_eq_ok_iff, seenFrom_sound_iff] at h
      obtain ⟨⟨hoptions, hdir⟩, rfl⟩ := h
      exact ⟨written, hwritten, hoptions, hdir, rfl⟩
  · rintro ⟨written, hwritten, hoptions, hdir, rfl⟩
    rw [load_of_written hwritten, checked_eq_ok_iff, seenFrom_sound_iff]
    exact ⟨⟨hoptions, hdir⟩, rfl⟩

/-- Whatever keeps a configuration from being loaded has one code. -/
theorem code_of_load_eq_error {content : Option String} {error : ConfigError}
    (h : load path content = .error error) : error.code = "AERO_CONFIG_INVALID" := by
  unfold load at h
  split at h
  · cases h
    rfl
  · split at h
    · cases h
      rfl
    · unfold checked at h
      split at h
      · cases h
        rfl
      · cases h

theorem load_eq_malformed_iff : load path (some text) = .error .malformed ↔ Malformed text := by
  constructor
  · intro h
    rw [malformed_iff]
    intro written hwritten
    rw [load_of_written hwritten] at h
    unfold checked at h
    split at h <;> cases h
  · intro h
    exact load_of_malformed h path

/-- What is loaded has met the demands as it stands in the text; a text that is malformed, or has
values that do not meet them, is an invalid configuration. -/
structure Enforces (path text : String) : Prop where
  sound : ∀ loaded, load path (some text) = .ok loaded →
    ∃ written, WrittenIn text written ∧ written.Sound
  malformed : Malformed text →
    ∃ error, load path (some text) = .error error ∧ error.code = "AERO_CONFIG_INVALID"
  unsound : ∀ written, WrittenIn text written → ¬written.Sound →
    ∃ error, load path (some text) = .error error ∧ error.code = "AERO_CONFIG_INVALID"

/-- The demands are enforced but for an empty directory that is lost in the one that the path of
the file names. -/
theorem enforces_iff : Enforces path text ↔ ∀ written, WrittenIn text written →
    written.options.Sound → written.schemaDir = "" → ¬Path.NamesDirectory path := by
  constructor
  · intro h written hwritten hoptions hempty hnames
    have hloaded := load_eq_ok_iff.mpr ⟨written, hwritten, hoptions, fun _ => hnames, rfl⟩
    obtain ⟨other, hother, hsound⟩ := h.sound _ hloaded
    rw [hother.unique hwritten] at hsound
    exact hsound.schemaDir hempty
  · intro h
    refine ⟨?_, ?_, ?_⟩
    · intro loaded hloaded
      obtain ⟨written, hwritten, hoptions, hdir, -⟩ := load_eq_ok_iff.mp hloaded
      refine ⟨written, hwritten, fun hempty => ?_, hoptions⟩
      exact h written hwritten hoptions hempty (hdir hempty)
    · intro hmalformed
      exact ⟨.malformed, load_of_malformed hmalformed path, rfl⟩
    · intro written hwritten hunsound
      cases hload : load path (some text) with
      | error error => exact ⟨error, rfl, code_of_load_eq_error hload⟩
      | ok loaded =>
        obtain ⟨other, hother, hoptions, hdir, -⟩ := load_eq_ok_iff.mp hload
        rw [hother.unique hwritten] at hoptions hdir
        refine absurd ⟨fun hempty => ?_, hoptions⟩ hunsound
        exact h written hwritten hoptions hempty (hdir hempty)

/-- The defaults meet the demands. -/
theorem sound_standard : Options.standard.Sound where
  marker_ne_empty := by decide
  marker_plain := by decide
  parentField := by decide
  excludedTargets := by decide

/-- A configuration that only says that its directory is empty. -/
def emptyDirectoryText : String := "\x7b\"schema_dir\":\"\"\x7d"

theorem writtenIn_emptyDirectoryText : WrittenIn emptyDirectoryText (ofSchemaDir "") :=
  read?_eq_some_iff.mp (by decide +kernel)

/-- What loading from a path makes of a text. -/
structure Judges (path : String) : Prop where
  /-- What is written is loaded, seen from the path, if its options meet the demands and its
  directory is not empty or is lost in that of the path. -/
  accepts : ∀ text loaded, load path (some text) = .ok loaded ↔
    ∃ written, WrittenIn text written ∧ written.options.Sound ∧
      (written.schemaDir = "" → Path.NamesDirectory path) ∧ loaded = written.seenFrom path
  /-- Every refusal has one code, -/
  code : ∀ content error, load path content = .error error → error.code = "AERO_CONFIG_INVALID"
  /-- and one error tells that there is nothing to judge. -/
  malformed : ∀ text, load path (some text) = .error .malformed ↔ Malformed text
  /-- Of a text the demands are enforced but for an empty directory where the path names one, -/
  enforces : ∀ text, Enforces path text ↔ ∀ written, WrittenIn text written →
    written.options.Sound → written.schemaDir = "" → ¬Path.NamesDirectory path
  /-- so they are of all texts exactly where it names none. -/
  enforcesAll : (∀ text, Enforces path text) ↔ ¬Path.NamesDirectory path
  plain : '/' ∉ path.toList → ∀ text, Enforces path text

/-- Loading enforces what is demanded of the values in the file, for every file whose path is its
name alone. Where the path names a directory, it does so but for an empty schema directory. -/
theorem judges (path : String) : Judges path where
  accepts _ _ := load_eq_ok_iff
  code _ _ := code_of_load_eq_error
  malformed _ := load_eq_malformed_iff
  enforces _ := enforces_iff
  enforcesAll := by
    constructor
    · intro h
      exact enforces_iff.mp (h emptyDirectoryText) _ writtenIn_emptyDirectoryText sound_standard rfl
    · intro h text
      exact enforces_iff.mpr fun _ _ _ _ => h
  plain hplain text :=
    enforces_iff.mpr fun _ _ _ _ => Path.not_namesDirectory_of_plain hplain

/-- In a directory, an empty schema directory is accepted. -/
theorem not_enforces_emptyDirectoryText : ¬Enforces "conf/aerorel.json" emptyDirectoryText := by
  intro h
  have hloaded : load "conf/aerorel.json" (some emptyDirectoryText) =
      .ok (ofSchemaDir "conf/") := by decide +kernel
  obtain ⟨written, hwritten, hsound⟩ := h.sound _ hloaded
  rw [hwritten.unique writtenIn_emptyDirectoryText] at hsound
  exact hsound.schemaDir rfl

end Config

end JoinPlan
