import SymbolGraph.Proofs.Positions
import SymbolGraph.Proofs.Repetition

/-! Catching up with changes on the disk. A pass brings each of its paths up to date once, however often it is
    given, and what is held of the path before decides what becomes of it. So whether an index of all scanned
    paths after a full index comes to what a new full index would come to is decided path by path. It does but
    for three kinds of paths: what leads to something that is not read is skipped, with its old symbols, what
    the scan does not enter is read nevertheless, and a text with the digest of the old one is not seen. -/

namespace SymbolGraph

open Store

/-- The digest and the symbols are the same. -/
structure Holding.Agrees (h k : Holding) : Prop where
  hash : h.row?.map (·.hash) = k.row?.map (·.hash)
  nodes : h.nodes = k.nodes

namespace Tables
variable {t u : Tables}

/-- The same files with the same digests, and the same symbols in each. -/
structure SameContents (t u : Tables) : Prop where
  files : t.files.map (fun row => (row.path, row.hash)) = u.files.map fun row => (row.path, row.hash)
  symbols : t.SameSymbols u

theorem sameContents_iff (ht : t.files.Pairwise (·.path < ·.path)) (hu : u.files.Pairwise (·.path < ·.path)) :
    t.SameContents u ↔ ∀ path, (t.holding path).Agrees (u.holding path) := by
  have hfind : ∀ (t : Tables) (path : String),
      (t.files.map fun row => (row.path, row.hash)).find? (·.1 == path) =
        ((t.holding path).row?.map (·.hash)).map (path, ·) := fun t path => by
    rw [List.find?_map, ← Index.hashAt_eq, Index.hashAt]
    cases hrow : t.files.find? (·.path == path) with
    | none => simpa using hrow
    | some row =>
      have hpath : row.path = path := by simpa using List.find?_some hrow
      subst hpath
      exact congrArg (Option.map _) hrow
  have hsorted : ∀ t : Tables, t.files.Pairwise (·.path < ·.path) →
      (t.files.map fun row => (row.path, row.hash)).Pairwise (·.1 < ·.1) := fun t ht => List.pairwise_map.mpr ht
  constructor
  · intro h path
    refine ⟨?_, h.symbols path⟩
    have hhash := congrArg (·.find? (·.1 == path)) h.files
    rw [hfind, hfind] at hhash
    exact Option.map_injective (Prod.mk_right_injective path) hhash
  · intro h
    refine ⟨?_, fun path => (h path).nodes⟩
    exact Index.eq_of_find? (hsorted t ht) (hsorted u hu) fun path => by rw [hfind, hfind, (h path).hash]

end Tables

namespace Index
variable {w : Workspace} {R : List String} {path : String}

/-! ### What a pass leaves of a path -/

/-- What is held of a path after it was brought up to date. -/
def Workspace.renew (w : Workspace) (R : List String) (path : String) (h : Holding) : Holding :=
  (w.ruleUpdate R (h.row?.map (·.hash)) path).leaves w path h

/-- Bringing a path up to date twice is doing it once. -/
theorem renew_idem (h : Holding) : w.renew R path (w.renew R path h) = w.renew R path h := by
  cases hv : w.ruleUpdate R (h.row?.map (·.hash)) path with
  | stored language text =>
    obtain ⟨-, -, hkept⟩ := ruleUpdate_stored hv
    have hstored : w.renew R path h = (Verdict.stored language text).leaves w path h := congrArg (·.leaves w path h) hv
    rw [← extract_hash w language] at hkept
    rw [hstored]
    exact congrArg (fun v : Verdict => v.leaves w path ((Verdict.stored language text).leaves w path h)) hkept
  | erased =>
    have herased : w.renew R path h = {} := congrArg (·.leaves w path h) hv
    rw [herased]
    exact congrArg (fun v : Verdict => v.leaves w path {}) (ruleUpdate_erased hv none)
  | _ =>
    have hsame : w.renew R path h = h := congrArg (·.leaves w path h) hv
    rw [hsame, hsame]

/-- The path is among the given ones, however they spell it. -/
def Workspace.Given (w : Workspace) (paths : List String) (path : String) : Prop :=
  ∃ given ∈ paths, Path.relative? w.rootPath given = some path

instance (w : Workspace) (paths : List String) (path : String) : Decidable (w.Given paths path) :=
  inferInstanceAs (Decidable (∃ given ∈ paths, Path.relative? w.rootPath given = some path))

theorem given_iff {paths : List String} (h : ∀ p ∈ paths, Path.relative? w.rootPath p = some p) :
    w.Given paths path ↔ path ∈ paths := by
  constructor
  · rintro ⟨given, hgiven, hrel⟩
    cases (h given hgiven).symm.trans hrel
    exact hgiven
  · intro hpath
    exact ⟨path, hpath, h path hpath⟩

theorem given_cons {given : String} {rest : List String} :
    w.Given (given :: rest) path ↔ Path.relative? w.rootPath given = some path ∨ w.Given rest path := by
  simp [Workspace.Given]

theorem Snapshot.step_holding (x : Snapshot) {given : String} (h : Path.relative? w.rootPath given = some path) :
    (x.step w R given).holding = Function.update x.holding path (w.renew R path (x.holding path)) := by
  rw [Snapshot.step, h]
  rfl

/-- Only whether a path is among the given ones matters, not when and how often. -/
theorem Snapshot.foldl_holding (paths : List String) (x : Snapshot) : (paths.foldl (.step w R) x).holding path =
    if w.Given paths path then w.renew R path (x.holding path) else x.holding path := by
  induction paths generalizing x with
  | nil => rfl
  | cons given rest ih =>
    rw [List.foldl_cons, ih, if_congr given_cons rfl rfl]
    cases hrel : Path.relative? w.rootPath given with
    | none =>
      rw [Snapshot.step, hrel]
      simp only [reduceCtorEq, false_or]
      rfl
    | some other =>
      rw [x.step_holding hrel]
      by_cases hother : other = path
      · subst hother
        rw [Function.update_self, renew_idem, ite_self, if_pos (.inl rfl)]
      · rw [Function.update_of_ne (Ne.symm hother)]
        simp only [Option.some.injEq, hother, false_or]

theorem firstPass_holding {had : String → String → Prop} {t : Tables} {c : Clock} (hw : (w.timed c).Shows had)
    (ht : t.Coherent (w.timed c) had) (paths : List String) (path : String) :
    (Run.firstPass (w.timed c) R t paths).tables.holding path =
      if w.Given paths path then w.renew R path (t.holding path) else t.holding path := by
  have hsnapshot := firstPass_snapshot (R := R) c hw ht paths
  have hholding := congrArg (·.holding path) hsnapshot
  exact hholding.trans (Snapshot.foldl_holding paths _)

/-- What a full index holds of a path. -/
def Workspace.scannedHolding (w : Workspace) (R : List String) (path : String) : Holding :=
  if path ∈ w.scan.map (·.path) then w.renew R path {} else {}

/-- A full index is an index of the scanned paths on empty tables. -/
theorem fullPass_holding (hd : w.disk.Sound) (c : Clock) (t : Tables) (path : String) :
    (Run.fullPass (w.timed c) R t).tables.holding path = w.scannedHolding R path := by
  let u : Tables := { t with files := [], nodes := [], edges := [] }
  have hoff := firstPass_off (w := w.timed c) hd (shows_sources w c) R (u := u) rfl
  have hfull : Run.fullPass (w.timed c) R t = Run.fullPass (w.timed c) R u := rfl
  rw [hfull, ← hoff.tables, firstPass_holding (shows_sources w c) (.of_no_files _ rfl rfl)]
  exact if_congr (given_iff (scanned_paths hd)) rfl rfl

/-! ### Changed files -/

namespace Workspace

/-- The workspace with another disk. -/
def on (w : Workspace) (disk : Disk) : Workspace := { w with disk }

/-- The path had a text that was read, and leads to something that is not read on the new disk: a directory, or
    a file that is too long, no text or sealed. -/
structure Stale (w : Workspace) (disk : Disk) (path : String) : Prop where
  read : (w.source? path).isSome
  unread : (w.on disk).source? path = none
  leads : disk.exists (w.absolute path)

/-- The path leads to a text that the scan does not come across: there is a link on the way, or a directory that can
    be searched but not listed. -/
structure Unscanned (w : Workspace) (path : String) : Prop where
  read : (w.source? path).isSome
  missed : path ∉ w.scan.map (·.path)

/-- The path has another text on the new disk, which has the digest of the old one but not its symbols. -/
def Disguised (w : Workspace) (disk : Disk) (path : String) : Prop :=
  ∃ language old new, w.accepts path = some language ∧ w.source? path = some old ∧ (w.on disk).source? path = some new ∧
    Text.dropMark old ≠ Text.dropMark new ∧
    Text.contentHash (Text.dropMark old) = Text.contentHash (Text.dropMark new) ∧
    (w.extract language old).found.symbols.map (NodeRow.ofSymbol 0 path) ≠
      (w.extract language new).found.symbols.map (NodeRow.ofSymbol 0 path)

end Workspace

variable {language : Language} {text : String} {disk : Disk}

/-- What is held of a path with the text. -/
def Workspace.textHolding (w : Workspace) (path : String) (language : Language) (text : String) : Holding :=
  (Verdict.stored language text).leaves w path {}

theorem textHolding_hash : (w.textHolding path language text).row?.map (·.hash) =
    some (Text.contentHash (Text.dropMark text)) :=
  congrArg some (extract_hash w language text)

theorem not_agrees_nothing {h : Holding} (hh : h.row?.map (·.hash) ≠ none) : ¬ h.Agrees {} := fun hagrees =>
  hh hagrees.hash

theorem renew_unread (h : w.source? path = none) (held : Holding) :
    w.renew [] path held = if w.disk.exists (w.absolute path) then held else {} := by
  rw [Workspace.renew, Workspace.ruleUpdate, rule_of_no_source h]
  split <;> rfl

theorem renew_text (ha : w.accepts path = some language) (hs : w.source? path = some text) (held : Holding) :
    w.renew [] path held =
      if held.row?.map (·.hash) = some (Text.contentHash (Text.dropMark text)) then held
      else w.textHolding path language text := by
  rw [Workspace.renew, Workspace.ruleUpdate, if_pos (Workspace.exists_of_source hs), Workspace.rule, ha, hs]
  dsimp only
  split <;> rfl

theorem scannedHolding_unread (h : w.source? path = none) : w.scannedHolding [] path = {} := by
  rw [Workspace.scannedHolding, renew_unread h, ite_self, ite_self]

theorem scannedHolding_text (hpath : path ∈ w.scan.map (·.path)) (ha : w.accepts path = some language)
    (hs : w.source? path = some text) : w.scannedHolding [] path = w.textHolding path language text := by
  rw [Workspace.scannedHolding, if_pos hpath, renew_text ha hs]
  exact if_neg (by simp)

theorem extract_unmarked {old new : String} (h : Text.dropMark old = Text.dropMark new) :
    w.extract language old = w.extract language new := by
  unfold Workspace.extract Extraction.extractOrRecover Extraction.extract
  simp only [Option.map_some, h]

theorem accepts_of_scanned (hpath : path ∈ w.scan.map (·.path)) : ∃ language, w.accepts path = some language := by
  obtain ⟨f, hf, rfl⟩ := List.mem_map.mp hpath
  obtain ⟨_, _, -, -, -, -, -, ha⟩ := Workspace.mem_scan_iff.mp hf
  exact ⟨f.language, ha⟩

section
variable (hpath : path ∈ w.scan.map (·.path))
include hpath

/-- What is not read now agrees with a full index unless old symbols stay. -/
theorem agrees_unread (hnew : (w.on disk).source? path = none) :
    ((w.on disk).renew [] path (w.scannedHolding [] path)).Agrees ((w.on disk).scannedHolding [] path) ↔
      ¬ w.Stale disk path := by
  obtain ⟨language, ha⟩ := accepts_of_scanned hpath
  rw [scannedHolding_unread hnew, renew_unread hnew]
  by_cases hexists : (w.on disk).disk.exists ((w.on disk).absolute path)
  · rw [if_pos hexists]
    cases hold : w.source? path with
    | none =>
      rw [scannedHolding_unread hold]
      exact iff_of_true ⟨rfl, rfl⟩ fun hstale => by simpa [hold] using hstale.read
    | some old =>
      rw [scannedHolding_text hpath ha hold]
      refine iff_of_false (not_agrees_nothing ?_) (not_not.mpr ⟨by simp [hold], hnew, hexists⟩)
      simp [textHolding_hash]
  · rw [if_neg hexists]
    exact iff_of_true ⟨rfl, rfl⟩ fun hstale => hexists hstale.leads

/-- What is read now agrees with a full index if the scan finds it, unless the old text had its digest. -/
theorem agrees_read {new : String} (hnew : (w.on disk).source? path = some new)
    (hscan : path ∈ (w.on disk).scan.map (·.path)) :
    ((w.on disk).renew [] path (w.scannedHolding [] path)).Agrees ((w.on disk).scannedHolding [] path) ↔
      ¬ w.Disguised disk path := by
  obtain ⟨language, ha⟩ := accepts_of_scanned hpath
  have ha' : (w.on disk).accepts path = some language := ha
  rw [scannedHolding_text hscan ha' hnew, renew_text ha' hnew]
  cases hold : w.source? path with
  | none =>
    rw [scannedHolding_unread hold, if_neg (by simp)]
    exact iff_of_true ⟨rfl, rfl⟩ fun ⟨_, _, _, _, hsource, _⟩ => by simp [hold] at hsource
  | some old =>
    rw [scannedHolding_text hpath ha hold, textHolding_hash]
    by_cases hdigest : Text.contentHash (Text.dropMark old) = Text.contentHash (Text.dropMark new)
    · -- The old symbols are kept, which are the new ones unless the texts differ.
      rw [if_pos (congrArg some hdigest)]
      constructor
      · rintro hagrees ⟨l, o, n, hl, ho, hn, -, -, hsymbols⟩
        cases hl.symm.trans ha
        cases ho.symm.trans hold
        cases hn.symm.trans hnew
        exact hsymbols hagrees.nodes
      · intro hdisguised
        refine ⟨?_, ?_⟩
        · rw [textHolding_hash, textHolding_hash, hdigest]
        · by_contra hnodes
          refine hdisguised ⟨language, old, new, ha, hold, hnew, fun htexts => hnodes ?_, hdigest, hnodes⟩
          show (w.textHolding path language old).nodes = (w.textHolding path language new).nodes
          simp only [Workspace.textHolding, Verdict.leaves, extract_unmarked htexts]
    · rw [if_neg fun hsome => hdigest (Option.some_inj.mp hsome)]
      refine iff_of_true ⟨rfl, rfl⟩ fun ⟨_, o, n, _, ho, hn, _, hsame, _⟩ => hdigest ?_
      cases ho.symm.trans hold
      cases hn.symm.trans hnew
      exact hsame

/-- Whether what is held of a path is what a full index would hold. -/
theorem renew_agrees_iff :
    ((w.on disk).renew [] path (w.scannedHolding [] path)).Agrees ((w.on disk).scannedHolding [] path) ↔
      ¬ w.Stale disk path ∧ ¬ (w.on disk).Unscanned path ∧ ¬ w.Disguised disk path := by
  cases hnew : (w.on disk).source? path with
  | none =>
    have hread : ¬ (w.on disk).Unscanned path ∧ ¬ w.Disguised disk path := by
      refine ⟨fun hunscanned => by simpa [hnew] using hunscanned.read, ?_⟩
      rintro ⟨_, _, _, _, _, hsource, _⟩
      simp [hnew] at hsource
    rw [agrees_unread hpath hnew, and_iff_left hread]
  | some new =>
    have hstale : ¬ w.Stale disk path := fun hstale => by simpa [hnew] using hstale.unread
    rw [and_iff_right hstale]
    by_cases hscan : path ∈ (w.on disk).scan.map (·.path)
    · rw [agrees_read hpath hnew hscan, and_iff_right fun hunscanned => hunscanned.missed hscan]
    · have hunscanned : (w.on disk).Unscanned path := ⟨by simp [hnew], hscan⟩
      refine iff_of_false ?_ fun h => h.1 hunscanned
      obtain ⟨language, ha⟩ := accepts_of_scanned hpath
      have ha' : (w.on disk).accepts path = some language := ha
      have hnothing : (w.on disk).scannedHolding [] path = {} := if_neg hscan
      rw [hnothing, renew_text ha' hnew]
      refine not_agrees_nothing ?_
      split
      · next hkept => simp [hkept]
      · simp [textHolding_hash]

end

/-! ### Runs -/

theorem holding_congr {t u : Tables} (hf : u.files = t.files) (hn : u.nodes = t.nodes) : u.holding = t.holding := by
  funext path
  rw [Tables.holding, Tables.holding, Tables.nodesAt, Tables.nodesAt, hf, hn]

theorem fullIndex_holding {s : Session} (hd : w.disk.Sound) (c : Clock) (hs : s.Calm R) :
    ∃ stats done, Run.fullIndex (w.timed c) s = (.ok stats, done) ∧ done.Calm R ∧
      done.store.tables.Coherent (w.timed c) (fun path text => w.source? path = some text) ∧
      ∀ path, done.store.tables.holding path = w.scannedHolding R path := by
  obtain ⟨stats, done, hrun, hcalm, hdone, hfiles, hnodes⟩ := fullIndex_coherent (shows_sources w c) hs
  refine ⟨stats, done, hrun, hcalm, hdone, fun path => ?_⟩
  rw [holding_congr hfiles hnodes]
  exact fullPass_holding hd c _ path

theorem indexFiles_holding {s : Session} {had : String → String → Prop} {c : Clock} (hw : (w.timed c).Shows had)
    (hs : s.Calm R) (ht : s.store.tables.Coherent (w.timed c) had) {paths : List String}
    (hpaths : ∀ p ∈ paths, Path.relative? w.rootPath p = some p) :
    ∃ stats done, Run.indexFiles (w.timed c) paths s = (.ok stats, done) ∧
      done.store.tables.Coherent (w.timed c) had ∧
      ∀ path, done.store.tables.holding path =
        if path ∈ paths then w.renew R path (s.store.tables.holding path) else s.store.tables.holding path := by
  obtain ⟨stats, done, hrun, -, hdone, hfiles, hnodes⟩ := indexFiles_coherent hw hs ht paths
  refine ⟨stats, done, hrun, hdone, fun path => ?_⟩
  rw [holding_congr hfiles hnodes, firstPass_holding hw ht]
  exact if_congr (given_iff hpaths) rfl rfl

/-- A full index, changes on the disk, and an index of all paths that the scan finds before or after them leave the
    files, digests and symbols that a full index after the changes leaves, unless a scanned file is stale, is read
    without being scanned or has a new text with the old digest. A stale file keeps the record and the symbols of its old
    text. -/
theorem index_files_converges_iff (w : Workspace) (disk : Disk) (c c' c'' : Clock) (s s' : Session)
    (paths : List String) (hs : s.Calm []) (hs' : s'.Calm []) (hd : w.disk.Sound) (hdisk : disk.Sound)
    (hpaths : ∀ path, path ∈ paths ↔ path ∈ w.scan.map (·.path) ∨ path ∈ (w.on disk).scan.map (·.path)) :
    ∃ stats stats' stats'' before done done',
      Run.fullIndex (w.timed c) s = (.ok stats, before) ∧
      Run.indexFiles ((w.on disk).timed c') paths before = (.ok stats', done) ∧
      Run.fullIndex ((w.on disk).timed c'') s' = (.ok stats'', done') ∧
      (done.store.tables.SameContents done'.store.tables ↔ ∀ path ∈ w.scan.map (·.path),
        ¬ w.Stale disk path ∧ ¬ (w.on disk).Unscanned path ∧ ¬ w.Disguised disk path) ∧
      ∀ path ∈ w.scan.map (·.path), w.Stale disk path → ∃ language old, w.accepts path = some language ∧
        w.source? path = some old ∧ done.store.tables.holding path = w.textHolding path language old := by
  obtain ⟨stats, before, hrun, hcalm, hbefore, hheld⟩ := fullIndex_holding hd c hs
  obtain ⟨stats'', done', hrun'', -, hfull, hheld''⟩ := fullIndex_holding (w := w.on disk) hdisk c'' hs'
  let had := fun path text => w.source? path = some text ∨ (w.on disk).source? path = some text
  have hshows : ((w.on disk).timed c').Shows had := ⟨fun _ _ h => .inr h, c'.readable⟩
  have hstart : before.store.tables.Coherent ((w.on disk).timed c') had :=
    (hbefore.mono fun _ _ h => .inl h).of_workspace rfl rfl
  have hrel : ∀ p ∈ paths, Path.relative? (w.on disk).rootPath p = some p := fun p hp => by
    rcases (hpaths p).mp hp with hold | hnew
    · exact scanned_paths hd p hold
    · exact scanned_paths (w := w.on disk) hdisk p hnew
  obtain ⟨stats', done, hrun', hdone, hheld'⟩ := indexFiles_holding hshows hcalm hstart hrel
  have hgiven : ∀ path ∈ w.scan.map (·.path),
      done.store.tables.holding path = (w.on disk).renew [] path (w.scannedHolding [] path) := fun path hpath => by
    rw [hheld', if_pos ((hpaths path).mpr (.inl hpath)), hheld]
  refine ⟨stats, stats', stats'', before, done, done', hrun, hrun', hrun'', ?_, fun path hpath hstale => ?_⟩
  · rw [Tables.sameContents_iff hdone.paths hfull.paths]
    refine forall_congr' fun path => ?_
    rw [hheld'']
    by_cases hpath : path ∈ w.scan.map (·.path)
    · rw [hgiven path hpath, renew_agrees_iff hpath, imp_iff_right hpath]
    · -- Nothing was held of a path that only the new scan finds.
      have hnothing : w.scannedHolding [] path = {} := if_neg hpath
      have hnew : path ∈ paths ↔ path ∈ (w.on disk).scan.map (·.path) := by rw [hpaths, or_iff_right hpath]
      refine iff_of_true ?_ fun hin => absurd hin hpath
      rw [hheld', hheld, hnothing, Workspace.scannedHolding, if_congr hnew rfl rfl]
      exact ⟨rfl, rfl⟩
  · obtain ⟨language, ha⟩ := accepts_of_scanned hpath
    obtain ⟨old, hold⟩ := Option.isSome_iff_exists.mp hstale.read
    refine ⟨language, old, ha, hold, ?_⟩
    rw [hgiven path hpath, renew_unread hstale.unread, scannedHolding_text hpath ha hold]
    exact if_pos hstale.leads

/-- A disk with one file. -/
def single (content : Disk.Content) : Disk := ⟨[(["a.ts"], .file content)]⟩

theorem single_sound (content : Disk.Content) : (single content).Sound := by
  refine .of_entries fun p hp name hname => ?_
  obtain rfl := List.mem_singleton.mp hp
  obtain rfl : "a.ts" = name := by simpa using hname
  exact ⟨by decide, rfl⟩

theorem scan_single (content : Disk.Content) :
    "a.ts" ∈ (Workspace.scan { disk := single content }).map (·.path) := by
  have haccepts : Workspace.accepts { disk := single content } "a.ts" = some .typescript := by
    show Workspace.accepts {} "a.ts" = _
    decide
  have hlist : (single content).canList [] :=
    ((single_sound content).canList_iff rfl).mpr ⟨rfl, by decide, Disk.passable_nil⟩
  have hreaches : Workspace.reaches { disk := single content } ["a.ts"] := by
    rw [Workspace.reaches, Workspace.enclosing, List.all_cons, List.all_nil, Bool.and_true]
    exact hlist
  refine List.mem_map.mpr ⟨⟨"a.ts", .typescript⟩, ?_, rfl⟩
  exact Workspace.mem_scan_iff.mpr ⟨["a.ts"], _, by simp, by decide, rfl, hreaches, rfl, haccepts⟩

/-- The tree of a function with a name of one letter. -/
def functionTree : Tree.Node :=
  .mk { kind := "program", span := ⟨0, 14⟩ } [.mk { kind := "function_declaration", span := ⟨0, 14⟩ }
    [.mk { kind := "identifier", span := ⟨9, 10⟩, field := "name" } []]]

/-- A file with a function is overwritten by a zero byte, and the function stays in the index. -/
theorem overwritten_function_stays :
    let w : Workspace := { disk := single (.text "function f(){}"), parser := fun _ _ => some functionTree }
    let v := w.on (single (.text "\x00"))
    ∃ stats stats' stats'' before done done', Run.fullIndex w idle = (.ok stats, before) ∧
      Run.indexFiles v (w.scan.map (·.path) ++ v.scan.map (·.path)) before = (.ok stats', done) ∧
      Run.fullIndex v idle = (.ok stats'', done') ∧ ¬ done.store.tables.SameContents done'.store.tables ∧
      (done.store.tables.holding "a.ts").nodes.map (·.name) = ["f"] := by
  intro w v
  have hold : w.source? "a.ts" = some "function f(){}" := by decide +kernel
  have hlanguage : w.accepts "a.ts" = some .typescript := by decide +kernel
  have hpath : "a.ts" ∈ w.scan.map (·.path) := scan_single _
  have hstale : w.Stale (single (.text "\x00")) "a.ts" :=
    ⟨by simp [hold], by decide +kernel, by decide +kernel⟩
  obtain ⟨stats, stats', stats'', before, done, done', hrun, hrun', hrun'', hsame, hkept⟩ :=
    index_files_converges_iff w (single (.text "\x00")) .epoch .epoch .epoch idle idle
      (w.scan.map (·.path) ++ v.scan.map (·.path)) idle_calm idle_calm (single_sound _) (single_sound _)
      fun _ => List.mem_append
  refine ⟨stats, stats', stats'', before, done, done', hrun, hrun', hrun'', ?_, ?_⟩
  · intro hcontents
    exact (hsame.mp hcontents "a.ts" hpath).1 hstale
  · obtain ⟨language, old, hlanguage', hold', hheld⟩ := hkept "a.ts" hpath hstale
    cases hold'.symm.trans hold
    cases hlanguage'.symm.trans hlanguage
    rw [hheld]
    decide +kernel

end Index
end SymbolGraph
