import SymbolGraph.Proofs.Convergence
import SymbolGraph.Proofs.Ranges

/-! One digest and one method for each text. A file is stored under the digest of its text without a byte-order mark and
    looked up by it, so it is read again exactly if its text has another one, whichever way it was read. -/

namespace SymbolGraph

open SymbolGraph.Tree

namespace Index
variable {w : Workspace} {language : Language} {path text : String}

/-- A text that is read from a file is turned away only if nothing is in it. -/
theorem turnedAway_of_source (h : w.source? path = some text) :
    Extraction.TurnedAway (some text) w.config.maxFileBytes ↔ Text.dropMark text = "" := by
  have hbounds : text.utf8ByteSize ≤ w.config.maxFileBytes ∧ '\x00' ∉ text.toList := by
    unfold Workspace.source? at h
    split at h
    · split at h
      · cases h
        simp_all
      · cases h
    · cases h
  have hsize := Nat.le_trans (Text.dropMark_size text) hbounds.1
  constructor
  · rintro (hnone | hempty | hlong | hzero)
    · cases hnone
    · exact hempty
    · exact absurd hsize (Nat.not_le.mpr hlong)
    · exact absurd (Text.dropMark_subset hzero) hbounds.2
  · exact fun hempty => .inr (.inl hempty)

/-- A file is left alone exactly if its record has the digest that a result for its text carries. -/
theorem processFile_eq {t : Tally} {s s' : Session} {known : Option Store.FileRecord}
    (haccepts : w.accepts path = some language) (hsource : w.source? path = some text)
    (hknown : Action.file? path s = (.ok known, s')) :
    Run.processFile w path t s =
      if known.any (·.hash == (w.extract language text).hash) then (.ok (Run.keep t), s')
      else Run.storeText w path language text t s' := by
  simp only [Run.processFile, haccepts, hsource]
  rw [Action.attempt_ok hknown, extract_hash]
  dsimp only
  split <;> rfl

/-- Whatever the text, the size allowed and the tree, what is read carries the digest of the text without its
    byte-order mark, whether the tree was trusted or not. The input is turned away exactly if it has no such text, or
    too much of it, or a zero byte in it, and then nothing is found. Otherwise patterns are used exactly if the tree is
    not trusted, and they find neither imports nor calls; otherwise what is found is what the walk finds. A byte-order
    mark before a text changes nothing. A text that a workspace reads is turned away only if it is empty, and its file
    is left alone exactly if the digest of its record is the one that the result would carry. -/
theorem one_digest_one_method :
    (∀ (language : Language) (text : Option String) (cap : Nat) (tree : Option Node),
      let source := Extraction.source text
      let e := Extraction.extractOrRecover language text cap tree
      (Extraction.extract language text cap tree).hash = Text.contentHash source ∧
      e.hash = Text.contentHash source ∧
      (e.method = .guarded ↔ Extraction.TurnedAway text cap) ∧
      (e.method = .guarded → e.found.symbols = [] ∧ e.found.imports = [] ∧ e.found.calls = []) ∧
      (e.method = .patterns ↔ ¬ Extraction.TurnedAway text cap ∧ Extraction.Untrusted language source tree) ∧
      (e.method = .patterns → e.found.imports = [] ∧ e.found.calls = []) ∧
      (e.method = .tree ↔ ¬ Extraction.TurnedAway text cap ∧ ¬ Extraction.Untrusted language source tree) ∧
      (e.method = .tree → ∃ root, tree = some root ∧ e.found = language.dialect.findings source root)) ∧
    (∀ text, (∀ rest, text ≠ "\uFEFF" ++ rest) →
      (∀ (language : Language) (cap : Nat) (tree : Option Node),
        Extraction.extract language (some ("\uFEFF" ++ text)) cap tree =
          Extraction.extract language (some text) cap tree ∧
        Extraction.extractOrRecover language (some ("\uFEFF" ++ text)) cap tree =
          Extraction.extractOrRecover language (some text) cap tree) ∧
      ∀ (w : Workspace) (language : Language), w.extract language ("\uFEFF" ++ text) = w.extract language text) ∧
    ∀ (w : Workspace) (path text : String) (language : Language), w.source? path = some text →
      ((w.extract language text).method = .guarded ↔ Text.dropMark text = "") ∧
      (w.extract language text).hash = Text.contentHash (Text.dropMark text) ∧
      ∀ (t : Tally) (s s' : Session) (known : Option Store.FileRecord), w.accepts path = some language →
        Action.file? path s = (.ok known, s') →
          Run.processFile w path t s =
            if known.any (·.hash == (w.extract language text).hash) then (.ok (Run.keep t), s')
            else Run.storeText w path language text t s' := by
  refine ⟨fun language text cap tree => ?_, fun text hmark => ⟨fun language cap tree => ?_, fun w language => ?_⟩,
    fun w path text language hsource => ?_⟩
  · have hread := Extraction.extractOrRecover_read language text cap tree
    obtain ⟨hguarded, hpatterns, htree⟩ := hread.found_eq
    exact ⟨Extraction.outcome_hash language text cap tree, Extraction.extractOrRecover_hash language text cap tree,
      hread.guarded_iff, fun h => by simp [hguarded h], hread.patterns_iff, fun h => by simp [hpatterns h],
      hread.tree_iff, htree⟩
  · exact Extraction.extract_marked hmark
  · exact extract_unmarked ((Text.dropMark_marked text).trans (Text.dropMark_unmarked hmark).symm)
  · have hread := Extraction.extractOrRecover_read language (some text) w.config.maxFileBytes
      (w.parser language (Text.dropMark text))
    exact ⟨hread.guarded_iff.trans (turnedAway_of_source hsource), extract_hash w language text,
      fun t s s' known haccepts hknown => processFile_eq haccepts hsource hknown⟩

/-- A class behind a byte-order mark. With its tree it is walked, without one patterns find it, and with too little size
    allowed it is turned away; a workspace that has not stored it stores it under the digest of the class alone. -/
theorem class_read_by_each_method :
    let text := "class A {}"
    let w : Workspace :=
      { disk := ⟨[(["a.ts"], .file (.text ("\uFEFF" ++ text)))]⟩, parser := fun _ _ => some classTree }
    let digest := Text.contentHash text
    (Extraction.extractOrRecover .typescript (some ("\uFEFF" ++ text)) 10 (some classTree)).method = .tree ∧
    (Extraction.extractOrRecover .typescript (some ("\uFEFF" ++ text)) 10 none).method = .patterns ∧
    (Extraction.extractOrRecover .typescript (some ("\uFEFF" ++ text)) 9 (some classTree)).method = .guarded ∧
    (Extraction.extractOrRecover .typescript (some ("\uFEFF" ++ text)) 9 (some classTree)).hash = digest ∧
    w.extract .typescript ("\uFEFF" ++ text) = w.extract .typescript text ∧
    (w.extract .typescript ("\uFEFF" ++ text)).hash = digest ∧
    Run.processFile w "a.ts" {} {} =
      Run.storeText w "a.ts" .typescript ("\uFEFF" ++ text) {} { ({} : Session) with calls := 1 } := by
  intro text w digest
  obtain ⟨hread, hmark, hworkspace⟩ := one_digest_one_method
  have hsource : Extraction.source (some ("\uFEFF" ++ text)) = text := Text.dropMark_marked text
  have htrusted : ∀ source, ¬ Extraction.Untrusted .typescript source (some classTree) := fun _ h => nomatch h.1
  have haway : ¬ Extraction.TurnedAway (some ("\uFEFF" ++ text)) 10 := by
    unfold Extraction.TurnedAway
    rw [hsource]
    decide +kernel
  have hunmarked : ∀ rest, text ≠ "\uFEFF" ++ rest := fun rest h => by
    have hfirst := congrArg (·.toList.head?) h
    simp [text] at hfirst
  have hfile : w.source? "a.ts" = some ("\uFEFF" ++ text) := by decide +kernel
  obtain ⟨-, hdigest, hprocess⟩ := hworkspace w "a.ts" _ .typescript hfile
  refine ⟨?_, ?_, ?_, ?_, (hmark text hunmarked).2 w .typescript, ?_, ?_⟩
  · exact (hread .typescript _ 10 (some classTree)).2.2.2.2.2.2.1.mpr ⟨haway, htrusted _⟩
  · exact (hread .typescript _ 10 none).2.2.2.2.1.mpr ⟨haway, trivial⟩
  · refine (hread .typescript _ 9 (some classTree)).2.2.1.mpr (.inr (.inr (.inl ?_)))
    rw [hsource]
    decide +kernel
  · exact (hread .typescript _ 9 (some classTree)).2.1.trans (congrArg Text.contentHash hsource)
  · exact hdigest.trans (congrArg Text.contentHash (Text.dropMark_marked text))
  · have haccepts : w.accepts "a.ts" = some .typescript := by decide +kernel
    have hunknown : Action.file? "a.ts" {} = (.ok none, { ({} : Session) with calls := 1 }) := rfl
    exact (hprocess {} {} _ none haccepts hunknown).trans (if_neg (by simp))

end Index
end SymbolGraph
