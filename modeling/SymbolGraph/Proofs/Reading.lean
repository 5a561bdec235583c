import SymbolGraph.Extraction
import SymbolGraph.Proofs.Pieces

/-! How a text is read. Which of the three ways is taken is told by the text without its byte-order mark, its size and
    its tree, and whichever it is, the result carries the digest of that text. -/

namespace SymbolGraph

open SymbolGraph.Tree

namespace Text

/-! ### Byte-order marks -/

theorem dropMark_marked (text : String) : dropMark ("\uFEFF" ++ text) = text := by
  rw [dropMark, afterStart?, String.toList_append, dropStart?_append]
  exact String.ofList_toList

theorem dropMark_unmarked {text : String} (h : ∀ rest, text ≠ "\uFEFF" ++ rest) : dropMark text = text := by
  rw [dropMark, afterStart?]
  cases hcut : dropStart? "\uFEFF".toList text.toList with
  | none => rfl
  | some rest =>
    obtain ⟨tail, htail⟩ := dropStart?_isSome.mp (by rw [hcut]; rfl)
    exact absurd (String.toList_injective (by simp [← htail])) (h (String.ofList tail))

theorem dropMark_subset {text : String} {c : Char} (h : c ∈ (dropMark text).toList) : c ∈ text.toList := by
  by_cases hmark : ∃ rest, text = "\uFEFF" ++ rest
  · obtain ⟨rest, rfl⟩ := hmark
    rw [dropMark_marked] at h
    simp [h]
  · rwa [dropMark_unmarked fun rest htext => hmark ⟨rest, htext⟩] at h

end Text

namespace Extraction

open Text

/-- The text that is read: without a byte-order mark, and empty if there is none. -/
def source (text : Option String) : String := (text.map dropMark).getD ""

/-- There is no text, or nothing to read in it, or too much of it, or a zero byte. -/
def TurnedAway (text : Option String) (cap : Nat) : Prop :=
  text = none ∨ source text = "" ∨ cap < (source text).utf8ByteSize ∨ '\x00' ∈ (source text).toList

/-- There is no tree, or a damaged one that is mostly errors or has no declarations. -/
def Untrusted (language : Language) (source : String) : Option Node → Prop
  | none => True
  | some root => root.label.hasError = true ∧
      (source.utf8ByteSize < 2 * root.errorBytes ∨ (language.dialect.findings source root).symbols = [])

section
variable {language : Language} {text : Option String} {cap : Nat} {tree : Option Node} {root : Node}

theorem rejection?_isSome : (rejection? (text.map dropMark) cap).isSome = true ↔ TurnedAway text cap := by
  unfold TurnedAway source
  cases text with
  | none => simp [rejection?]
  | some text =>
    rw [Option.map_some, rejection?]
    split_ifs with hempty hlong hzero
    · simp_all
    · simp_all
    · simp_all
    · simp_all

theorem ofTree_untrusted {source : String} (h : Untrusted language source (some root)) :
    ofTree language source root = .unparseable (contentHash source) := by
  obtain ⟨hdamaged, hmost | hnone⟩ := h
  · have hmostly : mostlyErrors source root = true := by
      rw [mostlyErrors, hdamaged]
      simpa [Nat.mul_comm] using hmost
    simp [ofTree, hmostly]
  · unfold ofTree
    dsimp only
    split
    · rfl
    · simp [hdamaged, hnone]

theorem ofTree_trusted {source : String} (h : ¬ Untrusted language source (some root)) :
    ofTree language source root =
      .parsed { hash := contentHash source, method := .tree, found := language.dialect.findings source root } := by
  have hsound : root.label.hasError = true → ¬ source.utf8ByteSize < 2 * root.errorBytes ∧
      (language.dialect.findings source root).symbols ≠ [] :=
    fun hdamaged => ⟨fun hmost => h ⟨hdamaged, .inl hmost⟩, fun hnone => h ⟨hdamaged, .inr hnone⟩⟩
  have hmostly : mostlyErrors source root = false := by
    rw [mostlyErrors, Bool.and_eq_false_iff]
    cases hdamaged : root.label.hasError with
    | false => exact .inl rfl
    | true => exact .inr (by simpa [Nat.mul_comm] using (hsound hdamaged).1)
  have hdeclares : (root.label.hasError && (language.dialect.findings source root).symbols.isEmpty) = false := by
    cases hdamaged : root.label.hasError with
    | false => rfl
    | true => simpa using (hsound hdamaged).2
  unfold ofTree
  simp [hmostly, hdeclares]

/-! ### The three ways -/

theorem extract_turnedAway (h : TurnedAway text cap) :
    extract language text cap tree = .parsed { hash := contentHash (source text), method := .guarded } := by
  obtain ⟨reason, hreason⟩ := Option.isSome_iff_exists.mp (rejection?_isSome.mpr h)
  simp only [extract, hreason]
  rfl

theorem extract_untrusted (h : ¬ TurnedAway text cap) (htree : Untrusted language (source text) tree) :
    extract language text cap tree = .unparseable (contentHash (source text)) := by
  have hnone : rejection? (text.map dropMark) cap = none := by
    rw [← Option.not_isSome_iff_eq_none, rejection?_isSome]
    exact h
  simp only [extract, hnone]
  cases tree with
  | none => rfl
  | some root => exact ofTree_untrusted htree

theorem extract_trusted (h : ¬ TurnedAway text cap) (htree : ¬ Untrusted language (source text) tree) :
    ∃ root, tree = some root ∧ extract language text cap tree =
      .parsed { hash := contentHash (source text), method := .tree
                found := language.dialect.findings (source text) root } := by
  have hnone : rejection? (text.map dropMark) cap = none := by
    rw [← Option.not_isSome_iff_eq_none, rejection?_isSome]
    exact h
  cases tree with
  | none => exact absurd trivial htree
  | some root =>
    refine ⟨root, rfl, ?_⟩
    simp only [extract, hnone]
    exact ofTree_trusted htree

/-- Every way carries the digest of the text that is read. -/
theorem outcome_hash (language : Language) (text : Option String) (cap : Nat) (tree : Option Node) :
    (extract language text cap tree).hash = contentHash (source text) := by
  by_cases haway : TurnedAway text cap
  · rw [extract_turnedAway haway]
    rfl
  · by_cases htree : Untrusted language (source text) tree
    · rw [extract_untrusted haway htree]
      rfl
    · obtain ⟨root, -, hextract⟩ := extract_trusted haway htree
      rw [hextract]
      rfl

theorem recover_hash (languageId text : String) (outcome : Outcome) :
    (recover languageId text outcome).hash = outcome.hash := by
  cases outcome <;> rfl

theorem extractOrRecover_hash (language : Language) (text : Option String) (cap : Nat) (tree : Option Node) :
    (extractOrRecover language text cap tree).hash = contentHash (source text) :=
  (recover_hash _ _ _).trans (outcome_hash language text cap tree)

/-- What the result is, and how it came about. -/
inductive Read (language : Language) (text : Option String) (cap : Nat) (tree : Option Node) (e : Extract) : Prop
  | guarded (h : TurnedAway text cap) (method : e.method = .guarded) (found : e.found = {})
  | patterns (h : ¬ TurnedAway text cap) (htree : Untrusted language (source text) tree) (method : e.method = .patterns)
      (found : e.found = { symbols := Recovery.declarations language.id (source text) })
  | tree {root : Node} (h : ¬ TurnedAway text cap) (hroot : tree = some root)
      (htree : ¬ Untrusted language (source text) tree) (method : e.method = .tree)
      (found : e.found = language.dialect.findings (source text) root)

theorem extractOrRecover_read (language : Language) (text : Option String) (cap : Nat) (tree : Option Node) :
    Read language text cap tree (extractOrRecover language text cap tree) := by
  unfold extractOrRecover
  by_cases haway : TurnedAway text cap
  · rw [extract_turnedAway haway]
    exact .guarded haway rfl rfl
  · by_cases htree : Untrusted language (source text) tree
    · rw [extract_untrusted haway htree]
      exact .patterns haway htree rfl rfl
    · obtain ⟨root, hroot, hextract⟩ := extract_trusted haway htree
      rw [hextract]
      exact .tree haway hroot htree rfl rfl

section
variable {e : Extract}

theorem Read.guarded_iff (h : Read language text cap tree e) : e.method = .guarded ↔ TurnedAway text cap := by
  cases h with
  | guarded haway hmethod => simp [hmethod, haway]
  | patterns haway _ hmethod => simp [hmethod, haway]
  | tree haway _ _ hmethod => simp [hmethod, haway]

theorem Read.patterns_iff (h : Read language text cap tree e) :
    e.method = .patterns ↔ ¬ TurnedAway text cap ∧ Untrusted language (source text) tree := by
  cases h with
  | guarded haway hmethod => simp [hmethod, haway]
  | patterns haway htree hmethod => simp [hmethod, haway, htree]
  | tree haway _ htree hmethod => simp [hmethod, htree]

theorem Read.tree_iff (h : Read language text cap tree e) :
    e.method = .tree ↔ ¬ TurnedAway text cap ∧ ¬ Untrusted language (source text) tree := by
  cases h with
  | guarded haway hmethod => simp [hmethod, haway]
  | patterns haway htree hmethod => simp [hmethod, htree]
  | tree haway _ htree hmethod => simp [hmethod, haway, htree]

/-- What is found goes with the way it was found. -/
theorem Read.found_eq (h : Read language text cap tree e) :
    (e.method = .guarded → e.found = {}) ∧
    (e.method = .patterns → e.found = { symbols := Recovery.declarations language.id (source text) }) ∧
    (e.method = .tree → ∃ root, tree = some root ∧ e.found = language.dialect.findings (source text) root) := by
  cases h with
  | guarded _ hmethod hfound => simp [hmethod, hfound]
  | patterns _ _ hmethod hfound => simp [hmethod, hfound]
  | tree _ hroot _ hmethod hfound => exact ⟨by simp [hmethod], by simp [hmethod], fun _ => ⟨_, hroot, hfound⟩⟩

end

/-- A byte-order mark in front of a text without one makes no difference. -/
theorem extract_marked {text : String} (h : ∀ rest, text ≠ "\uFEFF" ++ rest) :
    extract language (some ("\uFEFF" ++ text)) cap tree = extract language (some text) cap tree ∧
      extractOrRecover language (some ("\uFEFF" ++ text)) cap tree =
        extractOrRecover language (some text) cap tree := by
  simp only [extractOrRecover, extract, Option.map_some, dropMark_marked, dropMark_unmarked h, and_self]

end
end Extraction
end SymbolGraph
