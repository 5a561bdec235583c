import SymbolGraph.Config.Text
import SymbolGraph.Proofs.TomlLines
import SymbolGraph.Proofs.WrittenFiles

/-! Settings survive being saved. Their text is a document of three sections, each value of which is read back,
    so the text is read as the settings it was written for; none of the defaults is asked. What is saved for a
    workspace is loaded for it, whatever links its path leads through, and saving fails only where the disk
    does not let the file be written. -/

namespace SymbolGraph.Config

open Document Toml Disk Fallible

/-! ### Values of settings -/

theorem count?_integer {n : Nat} (h : n < 9223372036854775808) : (Value.integer n).count? = some n := by
  have hfits : 0 ≤ (n : Int) ∧ (n : Int) < 18446744073709551616 := by omega
  rw [Value.count?, if_pos hfits]
  rfl

/-- The value that a choice of languages is written as. -/
def languagesValue : LanguageChoice → Value
  | .auto => .text "auto"
  | .only ids => .list (ids.map .text)

theorem stands_languages (l : LanguageChoice) (rest : List Char) :
    Stands (languagesText l).toList ('\n' :: rest) (languagesValue l) := by
  cases l with
  | auto => exact stands_text "auto" ⟨by simp, by simp⟩
  | only ids => exact stands_texts ids

theorem mapM_texts (ss : List String) : (ss.map Value.text).mapM Value.text? = some ss := by
  induction ss with
  | nil => rfl
  | cons s ss ih => rw [List.map_cons, List.mapM_cons, ih]; rfl

theorem texts?_list (ss : List String) : (Value.list (ss.map .text)).texts? = some ss := mapM_texts ss

/-- The choice of languages is read back from the value that it is written as. -/
theorem ofValue?_languagesValue (l : LanguageChoice) : LanguageChoice.ofValue? (languagesValue l) = some l := by
  cases l with
  | auto => decide
  | only ids =>
    show (Value.list (ids.map .text)).texts?.map LanguageChoice.only = _
    rw [texts?_list]
    rfl

/-! ### The sections of a text -/

theorem isWritable_iff {c : Config} : c.isWritable = true ↔
    c.batchSize < 9223372036854775808 ∧ c.maxFileBytes < 9223372036854775808 ∧
      c.batchPause < 9223372036854775808 ∧ c.debounce < 9223372036854775808 := by
  simp [isWritable]

variable {c : Config}

def indexSection (h : c.isWritable) : Section where
  name := "index"
  settings := [
    .number "batch_size" (by decide) c.batchSize (isWritable_iff.mp h).1,
    .number "max_file_bytes" (by decide) c.maxFileBytes (isWritable_iff.mp h).2.1,
    .number "batch_pause_ms" (by decide) c.batchPause (isWritable_iff.mp h).2.2.1,
    .texts "exclude_dirs" (by decide) c.excludeDirs,
    ⟨"languages", (languagesText c.languages).toList, languagesValue c.languages, by decide, stands_languages _⟩]
  isKey := by decide
  distinct := by
    show ["batch_size", "max_file_bytes", "batch_pause_ms", "exclude_dirs", "languages"].Nodup
    decide

def watchSection (h : c.isWritable) : Section where
  name := "watch"
  settings := [
    .bool "enabled" (by decide) c.watch,
    .number "debounce_ms" (by decide) c.debounce (isWritable_iff.mp h).2.2.2]
  isKey := by decide
  distinct := by
    show ["enabled", "debounce_ms"].Nodup
    decide

def storeSection (c : Config) : Section where
  name := "store"
  settings := [.text "path" (by decide) c.storePath]
  isKey := by decide
  distinct := List.nodup_singleton _

/-- The text is the document of the sections. -/
theorem toList_text (h : c.isWritable) :
    c.text.toList = (indexSection h).written ++ [watchSection h, storeSection c].flatMap fun t => '\n' :: t.written := by
  have hheaders : "[index]\n".toList = '[' :: ("index".toList ++ ']' :: '\n' :: []) ∧
      "\n[watch]\n".toList = '\n' :: '[' :: ("watch".toList ++ ']' :: '\n' :: []) ∧
      "\n[store]\n".toList = '\n' :: '[' :: ("store".toList ++ ']' :: '\n' :: []) := ⟨rfl, rfl, rfl⟩
  have hkeys : "batch_size = ".toList = "batch_size".toList ++ " = ".toList ∧
      "max_file_bytes = ".toList = "max_file_bytes".toList ++ " = ".toList ∧
      "batch_pause_ms = ".toList = "batch_pause_ms".toList ++ " = ".toList ∧
      "exclude_dirs = ".toList = "exclude_dirs".toList ++ " = ".toList ∧
      "languages = ".toList = "languages".toList ++ " = ".toList ∧
      "enabled = ".toList = "enabled".toList ++ " = ".toList ∧
      "debounce_ms = ".toList = "debounce_ms".toList ++ " = ".toList ∧
      "path = ".toList = "path".toList ++ " = ".toList := ⟨rfl, rfl, rfl, rfl, rfl, rfl, rfl, rfl⟩
  have hend : "\n".toList = ['\n'] := rfl
  obtain ⟨h₁, h₂, h₃⟩ := hheaders
  obtain ⟨k₁, k₂, k₃, k₄, k₅, k₆, k₇, k₈⟩ := hkeys
  have hs : ∀ s : String, toString s = s := fun _ => rfl
  unfold Config.text
  simp only [hs, String.toList_append, h₁, h₂, h₃, k₁, k₂, k₃, k₄, k₅, k₆, k₇, k₈, hend, indexSection, watchSection,
    storeSection, Section.written, Setting.written, Setting.number, Setting.bool, Setting.text, Setting.texts,
    List.flatMap_cons, List.flatMap_nil, List.append_assoc, List.cons_append, List.nil_append, List.append_nil]

theorem toml_read_text (h : c.isWritable) : Toml.read c.text = some (.table .headed
    ([indexSection h, watchSection h, storeSection c].map fun t => (t.name, .table .headed t.table.2))) := by
  refine read_sections (indexSection h) [watchSection h, storeSection c] ?_ (toList_text h)
  show ["index", "watch", "store"].Nodup
  decide

/-! ### Reading the sections -/

section
variable {a b n : Nat} {dirs : List String} {l : LanguageChoice} {enabled : Bool} {path : String} (d : Config)

theorem readIndex_table {v₁ v₂ v₃ v₄ v₅ : Value} (h₁ : v₁.count? = some a) (h₂ : v₂.count? = some b)
    (h₃ : v₃.count? = some n) (h₄ : v₄.texts? = some dirs) (h₅ : LanguageChoice.ofValue? v₅ = some l) :
    readIndex textRule d (.table .headed [("batch_size", v₁), ("max_file_bytes", v₂), ("batch_pause_ms", v₃),
      ("exclude_dirs", v₄), ("languages", v₅)]) = some { d with
        batchSize := a, maxFileBytes := b, batchPause := n, excludeDirs := dirs, languages := l } := by
  simp [readIndex, fields, textRule, field?, fieldOr, h₁, h₂, h₃, h₄, h₅]

theorem readWatch_table {v₁ v₂ : Value} (h₁ : v₁.bool? = some enabled) (h₂ : v₂.count? = some n) :
    readWatch textRule d (.table .headed [("enabled", v₁), ("debounce_ms", v₂)]) =
      some { d with watch := enabled, debounce := n } := by
  simp [readWatch, fields, textRule, field?, fieldOr, h₁, h₂]

theorem readStore_table {v : Value} (h : v.text? = some path) :
    readStore textRule d (.table .headed [("path", v)]) = some { d with storePath := path } := by
  simp [readStore, fields, textRule, field?, fieldOr, h]

end

theorem ofValue?_tables {v₁ v₂ v₃ : Value} {c₁ c₂ c₃ : Config} (h₁ : readIndex textRule {} v₁ = some c₁)
    (h₂ : readWatch textRule c₁ v₂ = some c₂) (h₃ : readStore textRule c₂ v₃ = some c₃) :
    ofValue? textRule (.table .headed [("index", v₁), ("watch", v₂), ("store", v₃)]) = some c₃ := by
  have hfields : fields textRule ["index", "watch", "store"] (.table .headed [("index", v₁), ("watch", v₂), ("store", v₃)]) =
      some [some v₁, some v₂, some v₃] := by
    simp [fields, textRule, field?]
  rw [ofValue?, hfields]
  simp [fieldOr, h₁, h₂, h₃]

theorem ofValue?_sections (h : c.isWritable) : ofValue? textRule (.table .headed
    ([indexSection h, watchSection h, storeSection c].map fun t => (t.name, .table .headed t.table.2))) = some c := by
  obtain ⟨hsize, hbytes, hpause, hdebounce⟩ := isWritable_iff.mp h
  exact ofValue?_tables
    (readIndex_table _ (count?_integer hsize) (count?_integer hbytes) (count?_integer hpause) (texts?_list _)
      (ofValue?_languagesValue _))
    (readWatch_table _ rfl (count?_integer hdebounce))
    (readStore_table _ rfl)

theorem ofValue?_text (h : c.isWritable) : (Toml.read c.text).bind (ofValue? textRule) = some c := by
  rw [toml_read_text h, Option.bind_some, ofValue?_sections h]

/-- The text of settings is read as these settings, whose sizes are then checked. -/
theorem read_text (h : c.isWritable) : read c.text = c.validate.map fun _ => c := by
  rw [read, ofValue?_text h]
  rfl

theorem validate_eq_ok : c.validate = .ok () ↔ 1 ≤ c.batchSize ∧ 1 ≤ c.maxFileBytes := by
  unfold validate
  split
  · next h => simp [h]
  · split
    · next h => simp [h]
    · simp
      omega

theorem validate_of_read {s : String} (h : read s = .ok c) : c.validate = .ok () := by
  unfold read at h
  split at h
  · next c' _ =>
    obtain ⟨_, hvalid, hreturn⟩ := exists_of_bind h
    cases hreturn
    exact hvalid
  · cases h

theorem validate_of_load {d : Disk} {root : String} (h : load d root = .ok c) : c.validate = .ok () := by
  unfold load at h
  split at h
  · unfold loadFrom at h
    split at h
    · exact validate_of_read h
    · cases h
    · cases h
  · cases h
    decide

/-! ### Saving -/

section
variable {d d' : Disk} {root : String} {at_ : Location}

theorem fitNames : FitName stateDirectory ∧ FitName "config.toml" := by decide

/-- A directory can take the settings of a workspace: its own directory for them and the file in there can be
    made, or are there already and can be written, and their path is not too long. -/
structure Takes (d : Disk) (root : String) (at_ : Location) : Prop where
  absolute : Path.isAbsolute root
  found : d.find root = .ok (at_, .directory)
  directory : d.entry? (at_ ++ [stateDirectory]) = none ∨ d.entry? (at_ ++ [stateDirectory]) = some .directory
  file : d.entry? (at_ ++ [stateDirectory, "config.toml"]) = none ∨
    ∃ old, d.entry? (at_ ++ [stateDirectory, "config.toml"]) = some (.file old) ∧ ∀ size, old ≠ .sealed size
  short : (pathFor root).utf8ByteSize < pathLimit

theorem size_le_append (habs : Path.isAbsolute root) {n : String} (hn : FitName n) :
    root.utf8ByteSize ≤ (Path.append root n).utf8ByteSize := by
  obtain ⟨base, happend, rfl | rfl⟩ := Path.append_eq habs hn.proper
  · simp only [happend, String.utf8ByteSize_append]
    omega
  · simp only [happend, String.utf8ByteSize_append]
    omega

theorem save_of_takes (h : c.isWritable) (ht : Takes d root at_) : ∃ d', c.save d root = .ok d' := by
  obtain ⟨hstate, hconfig⟩ := fitNames
  have habs := (Path.append_name ht.absolute hstate.proper).1
  have hshort : (Path.append root stateDirectory).utf8ByteSize < pathLimit :=
    Nat.lt_of_le_of_lt (size_le_append habs hconfig) ht.short
  obtain ⟨d₁, hmade, hfound, hsame⟩ := makeDirectories_append ht.absolute hstate ht.found hshort ht.directory
  have hfile : d₁.entry? (at_ ++ [stateDirectory] ++ ["config.toml"]) = none ∨
      ∃ old, d₁.entry? (at_ ++ [stateDirectory] ++ ["config.toml"]) = some (.file old) ∧ ∀ size, old ≠ .sealed size := by
    rw [hsame _ (by simp), List.append_assoc]
    exact ht.file
  obtain ⟨d₂, hwritten⟩ := write_append habs hconfig hfound ht.short hfile (.text c.text)
  refine ⟨d₂, ?_⟩
  have hpath : d₁.write (pathFor root) (.text c.text) = .ok d₂ := hwritten
  simp only [save, hmade, write, h, if_true, bind, Except.bind, hpath]
  rfl

/-- Saving fails only because a directory or the file cannot be written. -/
theorem save_eq_error (h : c.isWritable) {e : ConfigError} (hs : c.save d root = .error e) :
    ∃ path cause, e = .invalid (.file path cause) := by
  simp only [save, write, h, if_true, bind, Except.bind] at hs
  split at hs
  · cases hs
    exact ⟨_, _, rfl⟩
  · split at hs
    · cases hs
      exact ⟨_, _, rfl⟩
    · cases hs

theorem suffix_append (root n : String) : n.toList <:+ (Path.append root n).toList := by
  unfold Path.append
  split
  · exact List.suffix_rfl
  · split <;> exact ⟨_, String.toList_append.symm⟩

/-- The path of the file with the settings means no directory, whatever the workspace is called. -/
theorem meansDirectory_pathFor (root : String) : meansDirectory (pathFor root) = false := by
  have hend (stop : String) (hlen : stop.toList.length ≤ "config.toml".toList.length)
      (hstop : ¬ stop.toList <:+ "config.toml".toList) : Text.hasEnd stop (pathFor root) = false := by
    rw [Bool.eq_false_iff]
    exact fun h => hstop (List.suffix_of_suffix_length_le (Text.hasEnd_iff.mp h) (suffix_append _ _) hlen)
  rw [meansDirectory, Bool.or_eq_false_iff]
  exact ⟨hend "/" (by decide) (by decide), hend "/." (by decide) (by decide)⟩

/-- After saving, the text of the settings is what is loaded. -/
theorem load_of_save (h : c.isWritable) (hs : c.save d root = .ok d') : load d' root = read c.text := by
  simp only [save, write, h, if_true, bind, Except.bind] at hs
  split at hs
  · cases hs
  · next d₁ _ =>
    split at hs
    · cases hs
    · next _ hwritten =>
      cases hs
      have hcontent := content_of_write hwritten (meansDirectory_pathFor root)
      rw [load, if_pos (exists_of_content hcontent), loadFrom, readText_of_content hcontent]

theorem load_of_save_valid (hsize : 1 ≤ c.batchSize) (hbytes : 1 ≤ c.maxFileBytes) (h : c.isWritable)
    (hs : c.save d root = .ok d') : load d' root = .ok c := by
  rw [load_of_save h hs, read_text h, validate_eq_ok.mpr ⟨hsize, hbytes⟩]
  rfl

end

theorem text_inj {c' : Config} (hc : c.isWritable) (hc' : c'.isWritable) (h : c.text = c'.text) : c = c' := by
  have hvalue := ofValue?_text hc
  rw [h, ofValue?_text hc'] at hvalue
  exact (Option.some_inj.mp hvalue).symm

/-- Settings that an index can make progress with, and whose numbers fit in 64 bits with a sign, are saved
    wherever the disk takes them, and what is loaded afterwards is these settings. All languages, none and
    one that is called `auto` have different texts. What is loaded has always been checked. -/
theorem settings_survive_saving :
    (∀ c : Config, 1 ≤ c.batchSize → 1 ≤ c.maxFileBytes →
      (∀ n ∈ [c.batchSize, c.maxFileBytes, c.batchPause, c.debounce], n ≤ 2 ^ 63 - 1) →
        (∀ d root at_, Takes d root at_ → ∃ d', c.save d root = .ok d') ∧
        (∀ d root e, c.save d root = .error e → ∃ path cause, e = .invalid (.file path cause)) ∧
        (∀ d root d', c.save d root = .ok d' → load d' root = .ok c) ∧
        [LanguageChoice.auto, .only [], .only ["auto"]].Pairwise fun l m =>
          ({ c with languages := l } : Config).text ≠ ({ c with languages := m } : Config).text) ∧
    (∀ s c, read s = .ok c → c.validate = .ok ()) ∧
    ∀ d root c, load d root = .ok c → c.validate = .ok () := by
  refine ⟨fun c hsize hbytes hfit => ?_, fun _ _ => validate_of_read, fun _ _ _ => validate_of_load⟩
  have hc : c.isWritable := by
    simp only [List.mem_cons, List.not_mem_nil, or_false, forall_eq_or_imp, forall_eq] at hfit
    rw [isWritable_iff]
    omega
  refine ⟨fun _ _ _ => save_of_takes hc, fun _ _ _ => save_eq_error hc,
    fun _ _ _ => load_of_save_valid hsize hbytes hc, ?_⟩
  have hlanguages (l : LanguageChoice) : ({ c with languages := l } : Config).isWritable := hc
  have hchoices : [LanguageChoice.auto, .only [], .only ["auto"]].Nodup := by decide
  exact hchoices.imp fun hne heq => hne (congrArg Config.languages (text_inj (hlanguages _) (hlanguages _) heq))

/-- Texts with quotes of both kinds, a newline and a control character, and a language that is called `auto`. -/
def oddSettings : Config :=
  { excludeDirs := ["it's", "\x22\x22\x22\n\x27\x27\x27", "\x07"], languages := .only ["auto"], storePath := "a\\b" }

/-- A link to a directory. -/
def linkedDisk : Disk := { entries := [(["w"], .directory), (["link"], .link "w")] }

theorem odd_settings_saved :
    ∃ d', oddSettings.save linkedDisk "/link" = .ok d' ∧ load d' "/link" = .ok oddSettings := by
  have htakes : Takes linkedDisk "/link" ["w"] := by
    refine ⟨rfl, rfl, .inl rfl, .inl rfl, by decide⟩
  have hodd := settings_survive_saving.1 oddSettings (by decide) (by decide) (by decide)
  exact (hodd.1 _ _ _ htakes).imp fun d' hd' => ⟨hd', hodd.2.2.1 _ _ d' hd'⟩

end SymbolGraph.Config
