import Mathlib.Data.List.Find
import Mathlib.Data.List.Infix
import Mathlib.Data.List.TakeWhile
import SymbolGraph.Cli.Commands
import SymbolGraph.Proofs.Pieces

/-! What failing commands say. A failure of the settings or of the store is told by its cause. About every other
    failure the words of its text decide, and the text quotes paths and lines of the ignore file. Each way in which a
    command fails has an outcome of its kind, and comes to that outcome unless the quoted text has a word in it that is
    looked for before those of the kind. -/

namespace SymbolGraph

/-! ### Words beside quotations -/

namespace Text

variable {α : Type} {c : α} {word before after : List α}

theorem prefix_of_prefix_around (hc : c ∉ word) (h : word <+: before ++ c :: after) : word <+: before := by
  rcases List.prefix_or_prefix_of_prefix h (List.prefix_append before _) with hword | ⟨rest, rfl⟩
  · exact hword
  · -- What the word has after the text begins with the separator, so there is nothing.
    rcases List.prefix_cons_iff.mp ((List.prefix_append_right_inj before).mp h) with rfl | ⟨rest, rfl, -⟩
    · simp
    · exact absurd (List.mem_append_right before List.mem_cons_self) hc

/-- A word without the separator stands on one side of it. -/
theorem infix_around_iff (hc : c ∉ word) :
    word <:+: before ++ c :: after ↔ word <:+: before ∨ word <:+: after := by
  constructor
  · intro h
    induction before with
    | nil =>
      rcases List.infix_cons_iff.mp h with hstart | hafter
      · exact .inl (prefix_of_prefix_around hc hstart).isInfix
      · exact .inr hafter
    | cons b before ih =>
      rcases List.infix_cons_iff.mp h with hstart | hrest
      · exact .inl (prefix_of_prefix_around hc hstart).isInfix
      · exact (ih hrest).imp_left List.infix_cons
  · rintro (h | h)
    · exact h.trans (List.prefix_append before _).isInfix
    · exact h.trans ((List.suffix_cons c after).trans (List.suffix_append before _)).isInfix

/-- The word cannot begin in the text, whatever follows it. -/
def Clear (word text : List α) : Prop := ∀ rest ∈ text.tails, rest ≠ [] → ¬word <+: rest ∧ ¬rest <+: word

namespace Clear

instance [DecidableEq α] (word text : List α) : Decidable (Clear word text) :=
  inferInstanceAs (Decidable (∀ rest ∈ text.tails, rest ≠ [] → ¬word <+: rest ∧ ¬rest <+: word))

theorem of_suffix (h : Clear word before) {rest : List α} (hrest : rest <:+ before) (hne : rest ≠ []) :
    ¬word <+: rest ∧ ¬rest <+: word := h rest ((List.mem_tails _ _).mpr hrest) hne

theorem not_prefix (h : Clear word before) (hne : before ≠ []) (after : List α) : ¬word <+: before ++ after := by
  intro hword
  obtain ⟨hin, hout⟩ := h.of_suffix List.suffix_rfl hne
  exact (List.prefix_or_prefix_of_prefix hword (List.prefix_append before after)).elim hin hout

theorem of_cons {b : α} (h : Clear word (b :: before)) : Clear word before := fun _ hrest =>
  h.of_suffix (((List.mem_tails _ _).mp hrest).trans (List.suffix_cons b before))

theorem infix_append_iff (h : Clear word before) : word <:+: before ++ after ↔ word <:+: after := by
  refine ⟨fun hword => ?_, fun hword => hword.trans (List.suffix_append before after).isInfix⟩
  -- No tail of `before` begins with the word or is a beginning of it, so the word does not start there.
  induction before with
  | nil => exact hword
  | cons b before ih =>
    rcases List.infix_cons_iff.mp hword with hstart | hrest
    · exact absurd hstart (h.not_prefix (List.cons_ne_nil b before) after)
    · exact ih h.of_cons hrest

theorem of_disjoint (hne : word ≠ []) (h : ∀ c ∈ before, c ∉ word) : Clear word before := by
  intro rest hrest hsome
  obtain ⟨w, word, rfl⟩ := List.exists_cons_of_ne_nil hne
  obtain ⟨r, rest, rfl⟩ := List.exists_cons_of_ne_nil hsome
  have hr : r ∉ w :: word := h r (((List.mem_tails _ _).mp hrest).subset List.mem_cons_self)
  have hwr : w ≠ r := fun heq => hr (heq ▸ List.mem_cons_self)
  exact ⟨fun hp => hwr (List.cons_prefix_cons.mp hp).1, fun hp => hwr (List.cons_prefix_cons.mp hp).1.symm⟩

end Clear

end Text

namespace Cli

open Index Text

/-- The characters of a text, with small letters. -/
def small (text : String) : List Char := text.toList.map Char.toLower

theorem small_append (s t : String) : small (s ++ t) = small s ++ small t := by simp [small]

/-- The text has the word in it, in whatever case its letters are. -/
def Mentions (text word : String) : Prop := word.toList <:+: small text

theorem hasPart_lowerAscii {text word : String} : hasPart word (lowerAscii text) = true ↔ Mentions text word := by
  rw [hasPart_iff, lowerAscii, String.toList_ofList, Mentions, small]

/-- Nothing that has the word in it begins in the text. -/
def Opens (text word : String) : Prop := Clear word.toList (small text)

/-- The text begins with a sign that is not in the word. -/
def Parts (text word : String) : Prop := (small text).head?.all (· ∉ word.toList) = true

instance (text word : String) : Decidable (Mentions text word) :=
  inferInstanceAs (Decidable (word.toList <:+: small text))

instance (text word : String) : Decidable (Opens text word) :=
  inferInstanceAs (Decidable (Clear word.toList (small text)))

instance (text word : String) : Decidable (Parts text word) :=
  inferInstanceAs (Decidable ((small text).head?.all (· ∉ word.toList) = true))

section
variable {text frame word : String}

theorem Mentions.append (h : Mentions frame word) (text : String) : Mentions (frame ++ text) word := by
  rw [Mentions, small_append]
  exact h.trans (List.prefix_append _ _).isInfix

theorem Opens.mentions_append (h : Opens frame word) : Mentions (frame ++ text) word ↔ Mentions text word := by
  rw [Mentions, small_append]
  exact h.infix_append_iff

theorem Parts.append (h : Parts frame word) (hne : frame ≠ "") (text : String) : Parts (frame ++ text) word := by
  obtain ⟨c, rest, hframe⟩ := List.exists_cons_of_ne_nil (mt String.toList_eq_nil_iff.mp hne)
  simpa [Parts, small, hframe] using h

theorem Parts.mentions_append (h : Parts frame word) :
    Mentions (text ++ frame) word ↔ Mentions text word ∨ Mentions frame word := by
  rw [Mentions, Mentions, Mentions, small_append]
  rw [Parts] at h
  cases hframe : small frame with
  | nil =>
    rw [List.append_nil]
    exact (or_iff_left_of_imp fun hnone => hnone.trans List.nil_infix).symm
  | cons c rest =>
    have hc : c ∉ word.toList := by simpa [hframe] using h
    rw [infix_around_iff hc, ← List.nil_append (c :: rest), infix_around_iff hc, ← or_assoc]
    refine or_congr_left (or_iff_left_of_imp fun hnone => hnone.trans List.nil_infix).symm

theorem Parts.not_mentions_append (h : Parts frame word) (htext : ¬Mentions text word)
    (hframe : ¬Mentions frame word) : ¬Mentions (text ++ frame) word := by
  rw [h.mentions_append]
  exact not_or.mpr ⟨htext, hframe⟩

end

theorem toLower_of_isDigit {c : Char} (h : c.isDigit) : c.toLower = c := by
  have hdigit : c.val.toNat ≤ 57 := by
    simp only [Char.isDigit, Bool.and_eq_true, decide_eq_true_eq, UInt32.le_iff_toNat_le] at h
    exact h.2
  have hupper : ¬(c.val ≥ 'A'.val ∧ c.val ≤ 'Z'.val) := by
    simp only [ge_iff_le, UInt32.le_iff_toNat_le, not_and]
    intro h65
    exact absurd (h65.trans hdigit) (by decide)
  exact dif_neg hupper

/-! ### Outcomes that words decide -/

namespace Outcome
variable {text quoted : String} {kind : Outcome}

/-- The words that are looked for before those of the outcome. -/
def decoys (kind : Outcome) : List (String × Outcome) := outcomeWords.takeWhile (·.2 ≠ kind)

theorem mem_words {w : String × Outcome} (hw : w ∈ kind.decoys) : w ∈ outcomeWords :=
  (List.takeWhile_prefix _).subset hw

/-- The outcome of a failure of the kind that quotes the text. -/
def swayedBy (kind : Outcome) (quoted : String) : Outcome :=
  match kind.decoys.find? fun w => hasPart w.1 (lowerAscii quoted) with
  | some w => w.2
  | none => kind

theorem swayedBy_eq_self : kind.swayedBy quoted = kind ↔ ∀ w ∈ kind.decoys, ¬Mentions quoted w.1 := by
  unfold swayedBy
  cases hfound : kind.decoys.find? fun w => hasPart w.1 (lowerAscii quoted) with
  | none => simpa [← hasPart_lowerAscii] using hfound
  | some w =>
    have hmem := List.mem_of_find?_eq_some hfound
    have hother : w.2 ≠ kind := by simpa using List.mem_takeWhile_imp hmem
    have hpart : hasPart w.1 (lowerAscii quoted) = true := by simpa using List.find?_some hfound
    exact ⟨fun h => absurd h hother, fun h => absurd (hasPart_lowerAscii.mp hpart) (h w hmem)⟩

theorem find?_decoys_congr {text' : String} (h : ∀ w ∈ kind.decoys, Mentions text w.1 ↔ Mentions text' w.1) :
    (kind.decoys.find? fun w => hasPart w.1 (lowerAscii text)) =
      kind.decoys.find? fun w => hasPart w.1 (lowerAscii text') :=
  List.find?_congr fun w hw => Bool.eq_iff_iff.mpr (hasPart_lowerAscii.trans ((h w hw).trans hasPart_lowerAscii.symm))

theorem swayedBy_congr {quoted' : String} (h : ∀ w ∈ kind.decoys, Mentions quoted w.1 ↔ Mentions quoted' w.1) :
    kind.swayedBy quoted = kind.swayedBy quoted' := by
  rw [swayedBy, swayedBy, find?_decoys_congr h]

theorem ofText_eq (text : String) :
    ofText text = ((outcomeWords.find? fun w => hasPart w.1 (lowerAscii text)).map (·.2)).getD .failure := by
  unfold ofText
  cases outcomeWords.find? fun w => hasPart w.1 (lowerAscii text) <;> rfl

theorem find?_own (hown : kind ≠ .failure → ∃ w ∈ outcomeWords, w.2 = kind ∧ Mentions text w.1) :
    (((outcomeWords.dropWhile (·.2 ≠ kind)).find? fun w => hasPart w.1 (lowerAscii text)).map (·.2)).getD .failure =
      kind := by
  by_cases hfailure : kind = .failure
  · subst hfailure
    rfl
  · -- The words of a kind stand together, so its first one or the next one is found.
    obtain ⟨w, hw, rfl, hsaid⟩ := hown hfailure
    have hpart : hasPart w.1 (lowerAscii text) = true := hasPart_lowerAscii.mpr hsaid
    simp only [outcomeWords, List.mem_cons, List.not_mem_nil, or_false] at hw
    rcases hw with rfl | rfl | rfl | rfl | rfl <;> simp [outcomeWords, List.dropWhile, List.find?_cons, hpart] <;>
      split <;> rfl

/-- What a text says apart from a quotation decides its kind. -/
theorem ofText_eq_swayedBy (hown : kind ≠ .failure → ∃ w ∈ outcomeWords, w.2 = kind ∧ Mentions text w.1)
    (h : ∀ w ∈ kind.decoys, Mentions text w.1 ↔ Mentions quoted w.1) : ofText text = kind.swayedBy quoted := by
  -- Before the words of the kind nothing but the quotation is found, and then one of its own is.
  have hwords : outcomeWords = kind.decoys ++ outcomeWords.dropWhile (·.2 ≠ kind) :=
    List.takeWhile_append_dropWhile.symm
  rw [ofText_eq, hwords, List.find?_append, find?_decoys_congr h, swayedBy]
  cases kind.decoys.find? fun w => hasPart w.1 (lowerAscii quoted) with
  | some w => rfl
  | none => exact find?_own hown

end Outcome

/-! ### Complaints -/

/-- A part of the work on an index that can fail. -/
inductive Attempt where
  | loadRules
  | index
  deriving DecidableEq

/-- What is said about the part when it has failed. -/
def Attempt.failed : Attempt → String
  | loadRules => "Cannot load ignore rules"
  | index => "Indexing failed"

/-- A way in which a command fails. -/
inductive Complaint where
  /-- There is nothing at the path. -/
  | nowhere (path : String) (cause : IoError)
  | notSetUp (root : Disk.Location)
  | alreadySetUp (root : Disk.Location)
  /-- The settings are at fault. -/
  | settings (message : String) (cause : ConfigError)
  | noDatabase (path : String)
  /-- The directory of the database cannot be made. -/
  | noPlace (path : String) (cause : IoError)
  /-- The store is at fault. -/
  | store (message : String) (cause : StoreError)
  | work (attempt : Attempt) (cause : Error)

namespace Complaint

/-- The failure of the command. -/
def failure : Complaint → Failure
  | nowhere path cause => ⟨"Cannot resolve path: " ++ path, .io cause⟩
  | notSetUp root => ⟨"Tessera is not initialized in " ++ root.path ++ ". Run `tessera init` first.", .nothing⟩
  | alreadySetUp root =>
    ⟨"Config already exists at " ++ Config.pathFor root.path ++ ". Use --force to overwrite.", .nothing⟩
  | settings message cause => ⟨message, .config cause⟩
  | noDatabase path => ⟨"Database not found: " ++ path ++ ". Run `tessera index` first.", .nothing⟩
  | noPlace path cause => ⟨"Cannot open database: " ++ path, .index (.io cause)⟩
  | store message cause => ⟨message, .index (.store cause)⟩
  | work attempt cause => ⟨attempt.failed, .index cause⟩

/-- The outcome of work that a cause puts an end to. -/
def kindOf : Error → Outcome
  | .store _ => .database
  | .config _ => .badConfig
  | .io _ => .failure
  | .ignoreLine _ => .failure

/-- The outcome of failures of the kind. -/
def kind : Complaint → Outcome
  | nowhere _ _ => .noWorkspace
  | notSetUp _ => .noWorkspace
  | alreadySetUp _ => .badConfig
  | settings _ _ => .badConfig
  | noDatabase _ => .database
  | noPlace _ _ => .database
  | store _ _ => .database
  | work _ cause => kindOf cause

/-- The text that is searched and that is not the program's own: a path or a line of the ignore file. -/
def quoted : Complaint → String
  | nowhere path _ => path
  | notSetUp root => root.path
  | alreadySetUp root => Config.pathFor root.path
  | settings _ _ => ""
  | noDatabase path => path
  | noPlace path _ => path
  | store _ _ => ""
  | work _ (.ignoreLine cause) => cause.line
  | work _ _ => ""

/-! ### The program's own texts -/

/-- What messages with a quotation begin with, and the outcomes that they decide. -/
def heads : List (String × Outcome) :=
  [("Cannot resolve path: ", .noWorkspace), ("Tessera is not initialized in ", .noWorkspace),
    ("Config already exists at ", .badConfig), ("Database not found: ", .database),
    ("Cannot open database: ", .database)]

/-- Texts that nothing with a word in it begins in. -/
def openings : List String :=
  [": ", "`", "`: ", Topic.io.area, Topic.io.lead, Topic.ignorePattern.area, Topic.ignorePattern.lead,
    "Pattern syntax error near position "]

/-- Texts without any of the words. -/
def plainTexts : List String :=
  ["", Attempt.loadRules.failed, Attempt.index.failed, ". Run `tessera init` first.", ". Run `tessera index` first.",
    ". Use --force to overwrite."] ++
    [IoError.notFound, .alreadyExists, .notADirectory, .isADirectory, .linkLoop, .nameTooLong, .zeroByte,
      .notText, .permissionDenied].map IoError.text ++
    [Ignore.GlobFault.wildcards, .recursiveWildcards, .invalidRange].map Ignore.GlobFault.message

/-- Texts that set off what is before them. -/
def signs : List String :=
  [": ", "`: ", ". Run `tessera init` first.", ". Run `tessera index` first.", ". Use --force to overwrite."]

theorem heads_decide : ∀ head ∈ heads, (∃ w ∈ outcomeWords, w.2 = head.2 ∧ Mentions head.1 w.1) ∧
    ∀ w ∈ head.2.decoys, Opens head.1 w.1 := by decide +kernel

theorem openings_open : ∀ text ∈ openings, ∀ w ∈ outcomeWords, Opens text w.1 := by decide +kernel

theorem plainTexts_plain : ∀ text ∈ plainTexts, ∀ w ∈ outcomeWords, ¬Mentions text w.1 := by decide +kernel

theorem signs_part : ∀ text ∈ signs, ∀ w ∈ outcomeWords, Parts text w.1 := by decide +kernel

theorem words_without_digits : ∀ w ∈ outcomeWords, w.1.toList ≠ [] ∧ w.1.toList.any Char.isDigit = false := by
  decide +kernel

theorem opens_number (n : Nat) : ∀ w ∈ outcomeWords, Opens (toString n) w.1 := by
  intro w hw
  obtain ⟨hne, hword⟩ := words_without_digits w hw
  refine .of_disjoint hne fun c hc hmem => ?_
  have hdigit : c.isDigit = true := by
    obtain ⟨d, hd, rfl⟩ : ∃ d ∈ Nat.toDigits 10 n, d.toLower = c := by simpa [small] using hc
    have hd' := Nat.isDigit_of_mem_toDigits (by decide) (by decide) hd
    rwa [toLower_of_isDigit hd']
  exact List.any_eq_false.mp hword c hmem hdigit

theorem parts_colon (text : String) : ∀ w ∈ outcomeWords, Parts (": " ++ text) w.1 := fun w hw =>
  (signs_part _ (by simp [signs]) w hw).append (by simp) text

theorem opens_colon : ∀ w ∈ outcomeWords, Opens ": " w.1 := openings_open _ (by simp [openings])

theorem ioError_plain (cause : IoError) : ∀ w ∈ outcomeWords, ¬Mentions cause.text w.1 :=
  plainTexts_plain _ (by cases cause <;> simp [plainTexts])

theorem fault_plain (fault : Ignore.GlobFault) : ∀ w ∈ outcomeWords, ¬Mentions fault.message w.1 :=
  plainTexts_plain _ (by cases fault <;> simp [plainTexts])

theorem attempt_plain (attempt : Attempt) : ∀ w ∈ outcomeWords, ¬Mentions attempt.failed w.1 :=
  plainTexts_plain _ (by cases attempt <;> simp [plainTexts])

/-! ### What is said decides -/

theorem swayedBy_empty (kind : Outcome) : kind.swayedBy "" = kind :=
  Outcome.swayedBy_eq_self.mpr fun w hw => plainTexts_plain _ (by simp [plainTexts]) w (Outcome.mem_words hw)

/-- A quotation between two texts of the program is all that sways the outcome of the first one. -/
theorem ofText_framed {before after : String} {kind : Outcome} (quotation : String)
    (hbefore : (before, kind) ∈ heads) (hafter : ∀ w ∈ outcomeWords, Parts after w.1 ∧ ¬Mentions after w.1) :
    Outcome.ofText (before ++ quotation ++ after) = kind.swayedBy quotation := by
  obtain ⟨⟨word, hword, hkind, hown⟩, hopens⟩ := heads_decide _ hbefore
  refine Outcome.ofText_eq_swayedBy (fun _ => ?_) fun w hw => ?_
  · exact ⟨word, hword, hkind, (hown.append quotation).append after⟩
  · obtain ⟨hparts, hnot⟩ := hafter w (Outcome.mem_words hw)
    rw [hparts.mentions_append, (hopens w hw).mentions_append]
    exact or_iff_left hnot

theorem outcome_of_text {f : Failure} (h : f.cause.outcome? = none) : f.outcome = .ofText f.text := by
  rw [Failure.outcome, h, Option.getD_none]

theorem text_io (message : String) (cause : IoError) :
    (⟨message, .io cause⟩ : Failure).text = message ++ (": " ++ cause.text) := by
  rw [Failure.text, Cause.texts, List.foldl_cons, List.foldl_nil, String.append_assoc]

/-- What is said after a failure of work on the disk. -/
def diskRemark (cause : IoError) : String :=
  ": " ++ (Topic.io.area ++ (Topic.io.lead ++ (cause.text ++ (": " ++ (Topic.io.lead ++ (cause.text ++
    (": " ++ cause.text)))))))

theorem text_index_io (message : String) (cause : IoError) :
    (⟨message, .index (.io cause)⟩ : Failure).text = message ++ diskRemark cause := by
  rw [Failure.text, Cause.texts, errorTexts, diskRemark]
  simp only [List.foldl_cons, List.foldl_nil, List.cons_append, List.nil_append, String.append_assoc, Error.report,
    Report.fullText, Report.text]

theorem diskRemark_plain (cause : IoError) :
    ∀ w ∈ outcomeWords, Parts (diskRemark cause) w.1 ∧ ¬Mentions (diskRemark cause) w.1 := by
  intro w hw
  have harea : Opens Topic.io.area w.1 := openings_open _ (by simp [openings]) w hw
  have hlead : Opens Topic.io.lead w.1 := openings_open _ (by simp [openings]) w hw
  have hcause := ioError_plain cause w hw
  refine ⟨parts_colon _ w hw, ?_⟩
  rw [diskRemark, (opens_colon w hw).mentions_append, harea.mentions_append, hlead.mentions_append]
  refine (parts_colon _ w hw).not_mentions_append hcause ?_
  rw [(opens_colon w hw).mentions_append, hlead.mentions_append]
  refine (parts_colon _ w hw).not_mentions_append hcause ?_
  rwa [(opens_colon w hw).mentions_append]

/-- What is said after a line of the ignore file. -/
def remark (cause : Ignore.GlobError) : String := "`: " ++ cause.message

theorem remark_plain (cause : Ignore.GlobError) :
    ∀ w ∈ outcomeWords, Parts (remark cause) w.1 ∧ ¬Mentions (remark cause) w.1 := by
  have hsaid : remark cause =
      "`: " ++ ("Pattern syntax error near position " ++ toString cause.position ++ ": " ++ cause.fault.message) := rfl
  intro w hw
  have hmark : Opens "`: " w.1 := openings_open _ (by simp [openings]) w hw
  have hposition : Opens "Pattern syntax error near position " w.1 := openings_open _ (by simp [openings]) w hw
  refine ⟨(signs_part _ (by simp [signs]) w hw).append (by simp) _, ?_⟩
  rw [hsaid, hmark.mentions_append, String.append_assoc, String.append_assoc, hposition.mentions_append,
    (opens_number _ w hw).mentions_append, (opens_colon w hw).mentions_append]
  exact fault_plain cause.fault w hw

theorem text_ignoreLine (message : String) (cause : Ignore.LineError) :
    (⟨message, .index (.ignoreLine cause)⟩ : Failure).text =
      message ++ (": " ++ (Topic.ignorePattern.area ++ (Topic.ignorePattern.lead ++ ("`" ++ (cause.line ++
        (remark cause.cause ++ (": " ++ (Topic.ignorePattern.lead ++ ("`" ++ (cause.line ++
          remark cause.cause)))))))))) := by
  simp only [Failure.text, Cause.texts, errorTexts, Error.report, Ignore.LineError.report, Report.ofIgnoreLine,
    Report.fullText, Report.text, remark, List.foldl_cons, List.foldl_nil, List.cons_append, List.nil_append,
    String.append_assoc]

/-- The line is quoted twice, and nothing else sways. -/
theorem mentions_ignoreLine (attempt : Attempt) (cause : Ignore.LineError) :
    ∀ w ∈ outcomeWords, Mentions (⟨attempt.failed, .index (.ignoreLine cause)⟩ : Failure).text w.1 ↔
      Mentions cause.line w.1 := by
  intro w hw
  have harea : Opens Topic.ignorePattern.area w.1 := openings_open _ (by simp [openings]) w hw
  have hlead : Opens Topic.ignorePattern.lead w.1 := openings_open _ (by simp [openings]) w hw
  have hmark : Opens "`" w.1 := openings_open _ (by simp [openings]) w hw
  have hquoted : Mentions (cause.line ++ remark cause.cause) w.1 ↔ Mentions cause.line w.1 := by
    obtain ⟨hparts, hnot⟩ := remark_plain cause.cause w hw
    rw [hparts.mentions_append]
    exact or_iff_left hnot
  rw [text_ignoreLine, (parts_colon _ w hw).mentions_append, or_iff_right (attempt_plain attempt w hw),
    (opens_colon w hw).mentions_append, harea.mentions_append, hlead.mentions_append, hmark.mentions_append,
    ← String.append_assoc, (parts_colon _ w hw).mentions_append, hquoted, (opens_colon w hw).mentions_append,
    hlead.mentions_append, hmark.mentions_append, hquoted, or_self]

theorem outcome_nowhere (path : String) (cause : IoError) :
    (nowhere path cause).failure.outcome = Outcome.noWorkspace.swayedBy path := by
  have hsaid : (nowhere path cause).failure.text = "Cannot resolve path: " ++ path ++ (": " ++ cause.text) :=
    text_io _ cause
  have htyped : (nowhere path cause).failure.cause.outcome? = none := rfl
  rw [outcome_of_text htyped, hsaid]
  refine ofText_framed path (by simp [heads]) fun w hw => ⟨parts_colon _ w hw, ?_⟩
  rw [(opens_colon w hw).mentions_append]
  exact ioError_plain cause w hw

theorem outcome_notSetUp (root : Disk.Location) :
    (notSetUp root).failure.outcome = Outcome.noWorkspace.swayedBy root.path := by
  have htyped : (notSetUp root).failure.cause.outcome? = none := rfl
  rw [outcome_of_text htyped]
  exact ofText_framed _ (by simp [heads]) fun w hw =>
    ⟨signs_part _ (by simp [signs]) w hw, plainTexts_plain _ (by simp [plainTexts]) w hw⟩

theorem outcome_alreadySetUp (root : Disk.Location) :
    (alreadySetUp root).failure.outcome = Outcome.badConfig.swayedBy (Config.pathFor root.path) := by
  have htyped : (alreadySetUp root).failure.cause.outcome? = none := rfl
  rw [outcome_of_text htyped]
  exact ofText_framed _ (by simp [heads]) fun w hw =>
    ⟨signs_part _ (by simp [signs]) w hw, plainTexts_plain _ (by simp [plainTexts]) w hw⟩

theorem outcome_noDatabase (path : String) : (noDatabase path).failure.outcome = Outcome.database.swayedBy path := by
  have htyped : (noDatabase path).failure.cause.outcome? = none := rfl
  rw [outcome_of_text htyped]
  exact ofText_framed _ (by simp [heads]) fun w hw =>
    ⟨signs_part _ (by simp [signs]) w hw, plainTexts_plain _ (by simp [plainTexts]) w hw⟩

theorem outcome_noPlace (path : String) (cause : IoError) :
    (noPlace path cause).failure.outcome = Outcome.database.swayedBy path := by
  have hsaid : (noPlace path cause).failure.text = "Cannot open database: " ++ path ++ diskRemark cause :=
    text_index_io _ cause
  have htyped : (noPlace path cause).failure.cause.outcome? = none := rfl
  rw [outcome_of_text htyped, hsaid]
  exact ofText_framed path (by simp [heads]) (diskRemark_plain cause)

theorem outcome_io (attempt : Attempt) (cause : IoError) :
    (work attempt (.io cause)).failure.outcome = .failure := by
  have hsaid : (work attempt (.io cause)).failure.text = attempt.failed ++ diskRemark cause := text_index_io _ cause
  have htyped : (work attempt (.io cause)).failure.cause.outcome? = none := rfl
  rw [outcome_of_text htyped, hsaid, ← swayedBy_empty .failure]
  refine Outcome.ofText_eq_swayedBy (absurd rfl) fun w hw => ?_
  have hword := Outcome.mem_words hw
  obtain ⟨hparts, hnot⟩ := diskRemark_plain cause w hword
  refine iff_of_false (hparts.not_mentions_append (attempt_plain attempt w hword) hnot) ?_
  exact plainTexts_plain _ (by simp [plainTexts]) w hword

theorem outcome_ignoreLine (attempt : Attempt) (cause : Ignore.LineError) :
    (work attempt (.ignoreLine cause)).failure.outcome = Outcome.failure.swayedBy cause.line := by
  have htyped : (work attempt (.ignoreLine cause)).failure.cause.outcome? = none := rfl
  rw [outcome_of_text htyped]
  refine Outcome.ofText_eq_swayedBy (absurd rfl) fun w hw => ?_
  exact mentions_ignoreLine attempt cause w (Outcome.mem_words hw)

/-- A failure has the outcome of its kind unless it quotes a word that is looked for before those of the kind. -/
theorem outcome_failure (c : Complaint) : c.failure.outcome = c.kind.swayedBy c.quoted := by
  cases c with
  | nowhere path cause => exact outcome_nowhere path cause
  | notSetUp root => exact outcome_notSetUp root
  | alreadySetUp root => exact outcome_alreadySetUp root
  | settings message cause => exact (swayedBy_empty .badConfig).symm
  | noDatabase path => exact outcome_noDatabase path
  | noPlace path cause => exact outcome_noPlace path cause
  | store message cause => exact (swayedBy_empty .database).symm
  | work attempt cause =>
    cases cause with
    | store cause => exact (swayedBy_empty .database).symm
    | config cause => exact (swayedBy_empty .badConfig).symm
    | io cause => exact (outcome_io attempt cause).trans (swayedBy_empty .failure).symm
    | ignoreLine cause => exact outcome_ignoreLine attempt cause

end Complaint
end Cli
end SymbolGraph
