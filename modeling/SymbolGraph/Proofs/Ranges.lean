import SymbolGraph.Proofs.CallSites
import SymbolGraph.Proofs.Coherence
import SymbolGraph.Proofs.QualifiedNames
import SymbolGraph.Proofs.Recovered

/-! Ranges. If the ranges of a syntax tree lie in the text, so do those of the declarations and calls that are read out
    of it, and patterns find ranges of the text by themselves. So the ranges of the nodes in a store lie in the files
    that they belong to. -/

namespace SymbolGraph

open SymbolGraph.Tree Store

/-- The range goes forward and ends within so many bytes. -/
def Span.Within (s : Span) (size : Nat) : Prop := s.start ≤ s.stop ∧ s.stop ≤ size

instance (s : Span) (size : Nat) : Decidable (s.Within size) := inferInstanceAs (Decidable (_ ∧ _))

theorem Recovery.Cuts.within {text : String} {s : Span} (h : Recovery.Cuts text.toList s) :
    s.Within text.utf8ByteSize :=
  ⟨h.forward, Text.utf8ByteSize_eq text ▸ h.stop.le⟩

namespace Tree

/-! ### Trees -/

/-- The ranges of a node and of all nodes below it lie in a text of so many bytes. -/
inductive Node.Fits (size : Nat) : Node → Prop
  | mk {label : Label} {children : List Node} (here : label.span.Within size) (below : ∀ c ∈ children, Fits size c) :
    Fits size (.mk label children)

variable {n : Node} {size : Nat} {g : Grammar} {source : String}

namespace Node.Fits

theorem span (h : n.Fits size) : n.span.Within size := by
  cases h with
  | mk here below => exact here

theorem child (h : n.Fits size) {c : Node} (hc : c ∈ n.children) : c.Fits size := by
  cases h with
  | mk here below => exact below c hc

end Node.Fits

theorem Node.Fits.places : ∀ (n : Node) (earlier : List Node), n.Fits size →
    ∀ p ∈ Tree.places earlier n, p.node.Fits size := by
  refine Node.induct fun label children ih earlier h p hp => ?_
  rw [Tree.places] at hp
  rcases List.mem_cons.mp hp with rfl | hp
  · exact h
  · obtain ⟨q, hq, rfl⟩ := List.mem_map.mp hp
    obtain ⟨c, hc, before, hq⟩ := mem_placesAll hq
    exact ih c hc before (h.child hc) q hq

theorem Dialect.placesOf_fit {d : Dialect} {root : Node} (h : root.Fits size) :
    ∀ p ∈ d.placesOf root, p.node.Fits size := by
  intro p hp
  unfold placesOf at hp
  split at hp
  · obtain ⟨c, hc, before, hp⟩ := mem_placesAll hp
    exact Node.Fits.places c before (h.child hc) p hp
  · exact Node.Fits.places root [] h p hp

/-- A declaration has the range of its node, or that of a node at most two levels below. -/
theorem Grammar.Declares.within {s : Symbol} (h : g.Declares n s) (hn : n.Fits size) : s.span.Within size := by
  rcases h with hspan | ⟨-, c, hc, hspan⟩
  · exact hspan ▸ hn.span
  · rw [hspan]
    rcases List.mem_append.mp hc with hc | hc
    · exact (hn.child hc).span
    · obtain ⟨b, hb, hc⟩ := List.mem_flatMap.mp hc
      exact ((hn.child hb).child hc).span

theorem Grammar.invocation?_span {c : CallSite} (h : g.invocation? source n = some c) : c.span = n.span := by
  unfold invocation? at h
  split at h
  · obtain ⟨callee, -, h⟩ := Option.bind_eq_some_iff.mp h
    split at h
    · cases h
    · exact Option.some.inj h ▸ rfl
  · cases h

end Tree

/-! ### What is read out of a tree -/

theorem Language.symbols_within (language : Language) (source : String) {root : Node} {size : Nat}
    (h : root.Fits size) : ∀ s ∈ (language.dialect.findings source root).symbols, s.span.Within size := by
  intro s hs
  rw [language.findings_eq, symbols_collect] at hs
  obtain ⟨p, hp, hs⟩ := List.mem_flatMap.mp hs
  obtain ⟨-, -, hdeclares, -⟩ := language.scope_foundAt source root hs
  exact hdeclares.within (Dialect.placesOf_fit h p hp)

theorem Language.calls_within (language : Language) (source : String) {root : Node} {size : Nat}
    (h : root.Fits size) : ∀ c ∈ (language.dialect.findings source root).calls, c.span.Within size := by
  intro c hc
  rw [language.findings_eq, calls_collect] at hc
  obtain ⟨p, hp, hc⟩ := List.mem_flatMap.mp hc
  rw [Dialect.foundAt, language.dialect_follows.calls_foundFrom] at hc
  split at hc
  · rw [Grammar.invocation?_span (Option.mem_toList.mp hc)]
    exact (Dialect.placesOf_fit h p hp).span
  · cases hc

/-! ### What is read out of a file -/

/-- Ranges of a result lie in the text, and the ends of those that patterns found are boundaries of it. -/
structure Extract.Within (e : Extract) (source : String) : Prop where
  symbols : ∀ s ∈ e.found.symbols, s.span.Within source.utf8ByteSize
  calls : ∀ c ∈ e.found.calls, c.span.Within source.utf8ByteSize
  boundaries : e.method = .patterns → ∀ s ∈ e.found.symbols,
    (⟨s.span.start⟩ : String.Pos.Raw).IsValid source ∧ (⟨s.span.stop⟩ : String.Pos.Raw).IsValid source

theorem Extraction.extractOrRecover_within (language : Language) (text : Option String) (cap : Nat)
    {tree : Option Node}
    (h : ∀ root, tree = some root → root.Fits ((text.map Text.dropMark).getD "").utf8ByteSize) :
    (extractOrRecover language text cap tree).Within ((text.map Text.dropMark).getD "") := by
  cases extractOrRecover_read language text cap tree with
  | guarded _ hmethod hfound => exact ⟨by simp [hfound], by simp [hfound], by simp [hfound]⟩
  | @tree root _ htree _ hmethod hfound =>
    refine ⟨?_, ?_, fun hpatterns => nomatch hmethod.symm.trans hpatterns⟩
    · exact hfound ▸ language.symbols_within _ (h root htree)
    · exact hfound ▸ language.calls_within _ (h root htree)
  | patterns _ _ hmethod hfound =>
    have hcuts := fun s (hs : s ∈ (extractOrRecover language text cap tree).found.symbols) =>
      Recovery.declarations_cuts (hfound ▸ hs)
    refine ⟨fun s hs => (hcuts s hs).within, by simp [hfound], fun _ s hs => ?_⟩
    exact ⟨(hcuts s hs).start.isValid, (hcuts s hs).stop.isValid⟩

/-! ### What a store holds -/

theorem Text.byteLength_dropStart? {start cs rest : List Char} (h : dropStart? start cs = some rest) :
    byteLength rest ≤ byteLength cs := by
  fun_induction dropStart? start cs with
  | case1 cs => exact Option.some.inj h ▸ Nat.le_refl _
  | case2 => cases h
  | case3 start c cs ih => exact Nat.le_trans (ih h) (Nat.le_add_left _ _)
  | case4 => cases h

theorem Text.dropMark_size (text : String) : (dropMark text).utf8ByteSize ≤ text.utf8ByteSize := by
  unfold dropMark afterStart?
  cases hrest : dropStart? "\uFEFF".toList text.toList with
  | none => exact Nat.le_refl _
  | some rest =>
    rw [Option.map_some, Option.getD_some, utf8ByteSize_eq, utf8ByteSize_eq, String.toList_ofList]
    exact byteLength_dropStart? hrest

theorem Store.keptOffset_mono {m n : Nat} (h : m ≤ n) : keptOffset m ≤ keptOffset n := by
  unfold keptOffset
  omega

namespace Index
variable {w : Workspace} {had : String → String → Prop} {t : Tables}

/-- The trees that the parser makes have ranges in the text. -/
def Parser.Fits (parser : Parser) : Prop :=
  ∀ language text root, parser language text = some root → root.Fits text.utf8ByteSize

/-- If the trees that texts become have ranges in the texts, the range of every node lies in its file. -/
theorem node_within (h : t.Coherent w had) (hw : w.parser.Fits) {row : NodeRow} (hrow : row ∈ t.nodes) :
    ∃ node, row.node = .ok node ∧
      ∃ record, t.file? node.path = .ok (some record) ∧ node.symbol.span.Within record.size := by
  have hfound : (t.files.find? (·.path == row.path)).isSome := by
    obtain ⟨file, hfile, hpath⟩ := h.owned row hrow
    exact List.find?_isSome.mpr ⟨file, hfile, beq_iff_eq.mpr hpath⟩
  obtain ⟨file, hfind⟩ := Option.isSome_iff_exists.mp hfound
  have hfile := List.mem_of_find?_eq_some hfind
  have hpath : file.path = row.path := by simpa using List.find?_some hfind
  obtain ⟨language, text, -, -, hd⟩ := h.described file hfile
  obtain ⟨record, hrecord, hsize⟩ := hd.record (h.times file hfile)
  have hmem : row ∈ t.nodesAt file.path := List.mem_filter.mpr ⟨hrow, by simp [hpath]⟩
  obtain ⟨symbol, hsymbol, hcarries⟩ := exists_paired hd.nodes hmem
  refine ⟨_, hcarries.node, record, ?_, ?_⟩
  · rw [Tables.file?, Store.file?, hfind]
    exact congrArg (Except.map some) hrecord
  · have hextract := Extraction.extractOrRecover_within language (some text) w.config.maxFileBytes (hw language _)
    obtain ⟨hforward, hstop⟩ := hextract.symbols symbol hsymbol
    exact ⟨keptOffset_mono hforward, hsize ▸ keptOffset_mono (Nat.le_trans hstop (Text.dropMark_size text))⟩

/-- If the ranges of a tree lie in the text without its byte-order mark, so do those of all declarations and calls that
    are read out of the text, and what patterns find starts and ends at boundaries of it; no cut that they make fails.
    So between any two operations of a run whose trees have ranges in their texts, every node can be read, its file has
    a record, and its range lies within the size there. -/
theorem ranges_lie_in_texts :
    (∀ (language : Language) (text : Option String) (cap : Nat) (tree : Option Node),
      let source := (text.map Text.dropMark).getD ""
      (∀ root, tree = some root → root.Fits source.utf8ByteSize) →
        (Extraction.extractOrRecover language text cap tree).Within source) ∧
    (∀ languageId text, Recovery.cutDeclarations? languageId text = some (Recovery.declarations languageId text)) ∧
    ∀ (place : Place) (w : Workspace) (ops : List Operation), w.parser.Fits →
      let s := ((World.start place).run w ops).session.store
      ∃ nodes, s.allNodes = .ok nodes ∧
        ∀ n ∈ nodes, ∃ record, s.file? n.path = .ok (some record) ∧ n.symbol.span.Within record.size := by
  refine ⟨Extraction.extractOrRecover_within, Recovery.cutDeclarations?_eq, fun place w ops hw => ?_⟩
  obtain ⟨-, hstore⟩ := (World.start_coherent (w := w) place _).run ops
  have hrows := fun row (hrow : row ∈ _) => node_within hstore hw hrow
  obtain ⟨nodes, hnodes⟩ := Tables.exists_nodes fun row hrow => (hrows row hrow).imp fun _ h => h.1
  refine ⟨nodes, Store.readNodes_eq_ok hnodes, fun n hn => ?_⟩
  obtain ⟨row, hrow, hnode⟩ := Store.exists_paired hnodes.flip hn
  obtain ⟨n', hnode', hrecord⟩ := hrows row hrow
  obtain rfl := Except.ok.inj (hnode.symm.trans hnode')
  exact hrecord

/-- The tree of `class A {}`. -/
def classTree : Node :=
  .mk { kind := "program", span := ⟨0, 10⟩ } [.mk { kind := "class_declaration", span := ⟨0, 10⟩ }
    [.mk { kind := "identifier", span := ⟨6, 7⟩, field := "name" } []]]

/-- A class behind a byte-order mark, in a result and in a store. -/
theorem class_behind_mark :
    let text := "\uFEFFclass A {}"
    let e := Extraction.extractOrRecover .typescript (some text) Extraction.defaultCap (some classTree)
    let w : Workspace := { parser := fun _ source => if source = "class A {}" then some classTree else none }
    let s := ((World.start .memory).run w [.edit ⟨[(["a.ts"], .file (.text text))]⟩, .fullIndex]).session.store
    e.found.symbols = [⟨"A", "A", .class, ⟨0, 10⟩⟩] ∧ e.Within "class A {}" ∧ w.parser.Fits ∧
      ∃ nodes, s.allNodes = .ok nodes ∧
        ∀ n ∈ nodes, ∃ record, s.file? n.path = .ok (some record) ∧ n.symbol.span.Within record.size := by
  intro text e w s
  have htree : classTree.Fits 10 :=
    .mk (by decide) (List.forall_mem_singleton.mpr
      (.mk (by decide) (List.forall_mem_singleton.mpr (.mk (by decide) nofun))))
  have hsource : Text.dropMark text = "class A {}" := by decide +kernel
  have hsize : "class A {}".utf8ByteSize = 10 := by decide +kernel
  have hparser : w.parser.Fits := fun language source root hroot => by
    have hcase : (if source = "class A {}" then some classTree else none) = some root := hroot
    split at hcase
    · next hsource =>
      rw [hsource, hsize]
      exact Option.some.inj hcase ▸ htree
    · cases hcase
  refine ⟨by decide +kernel, ?_, hparser, ranges_lie_in_texts.2.2 .memory w _ hparser⟩
  -- The tree fits the text without the mark, which is the text that is walked.
  have hfits : ∀ root, some classTree = some root → root.Fits ((some text).map Text.dropMark |>.getD "").utf8ByteSize :=
    fun root hroot => by
      rw [Option.map_some, Option.getD_some, hsource, hsize]
      exact Option.some.inj hroot ▸ htree
  have hwithin := ranges_lie_in_texts.1 .typescript (some text) Extraction.defaultCap (some classTree) hfits
  rwa [Option.map_some, Option.getD_some, hsource] at hwithin

end Index
end SymbolGraph
