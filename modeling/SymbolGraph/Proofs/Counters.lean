import Mathlib.Algebra.GroupWithZero.Nat
import SymbolGraph.Proofs.Convergence
import SymbolGraph.Proofs.Faults
import SymbolGraph.Proofs.LiveEdges

/-! What a call counts, and what it leaves in its store. Each fate adds to one counter and changes the tables to match,
    so that the counts are right after any mix of fates; the links are counted as they are added. -/

namespace SymbolGraph

open Store

namespace Index

/-- The edges of the kind that the run counted. -/
def Stats.edges (s : Stats) : EdgeKind → Nat
  | .imports => s.importEdges
  | .calls => s.callEdges

/-- The edges of the kind that the resolution counted. -/
def Resolved.edges (r : Resolved) : EdgeKind → Nat
  | .imports => r.importEdges
  | .calls => r.callEdges

/-- The files that the run counted, removed ones apart. -/
def Stats.settled (s : Stats) : Nat := s.indexed + s.unchanged + s.skipped + s.failed

/-- The symbols of the file, none if it is not to be read. -/
def Workspace.symbolsIn (w : Workspace) (path : String) : List Symbol :=
  match w.accepts path, w.source? path with
  | some language, some text => (w.extract language text).found.symbols
  | _, _ => []

/-! ### Links -/

section Links
variable {t : Tables} {registry : Registry} {nodes : List GraphNode} {p : Pending} (kind : EdgeKind)

theorem total_edges (rs : List Resolved) : (Resolved.total rs).edges kind = (rs.map (·.edges kind)).sum := by
  induction rs with
  | nil => cases kind <;> rfl
  | cons r rest ih =>
    rw [List.map_cons, List.sum_cons, ← ih]
    cases kind <;> rfl

theorem countP_kind {ls : List Link} {made : EdgeKind} (h : ∀ l ∈ ls, l.kind = made) :
    ls.countP (·.kind = kind) = if made = kind then ls.length else 0 := by
  split
  · next hkind => exact List.countP_eq_length.mpr fun l hl => by simp [h l hl, hkind]
  · next hkind => exact List.countP_eq_zero.mpr fun l hl => by simp [h l hl, hkind]

theorem nameCounts_edges (source : NodeId) (targets : List GraphNode) (names : List String) :
    (Resolve.nameCounts targets names).edges kind = (Resolve.nameLinks source targets names).countP (·.kind = kind) := by
  have hkind : ∀ l ∈ Resolve.nameLinks source targets names, l.kind = .imports := by
    intro l hl
    obtain ⟨name, -, hn⟩ := List.mem_filterMap.mp hl
    obtain ⟨n, -, rfl⟩ := Option.map_eq_some_iff.mp hn
    rfl
  rw [countP_kind kind hkind]
  cases kind with
  | imports => simp [Resolve.nameLinks, Resolve.nameCounts, Resolved.edges, List.length_filterMap_eq_countP]
  | calls => rfl

theorem importCounts_edges (res : ModuleResolution) (i : ImportDeclaration) :
    (Resolve.importCounts t res p i).edges kind = (Resolve.importLinks t res p i).countP (·.kind = kind) := by
  unfold Resolve.importCounts Resolve.importLinks
  split
  · exact nameCounts_edges kind _ _ _
  · cases kind <;> rfl

theorem callCounts_edges (c : CallSite) :
    (Resolve.callCounts nodes p c).edges kind = (Resolve.callLinks nodes p c).countP (·.kind = kind) := by
  rw [countP_kind kind fun l hl => Resolve.callLinks_kind hl]
  unfold Resolve.callCounts
  cases hcaller : p.enclosing? c with
  | none => cases kind <;> simp [Resolve.callLinks, hcaller, Resolved.edges]
  | some caller => cases kind <;> simp [Resolved.edges]

theorem fileCounts_edges :
    (Resolve.fileCounts t registry nodes p).edges kind = (Resolve.fileLinks t registry nodes p).countP (·.kind = kind) := by
  have hadd : ∀ a b : Resolved, (a.add b).edges kind = a.edges kind + b.edges kind := fun a b => by cases kind <;> rfl
  rw [Resolve.fileCounts, Resolve.fileLinks, hadd, total_edges, total_edges, List.countP_append, List.countP_flatMap,
    List.countP_flatMap, List.map_map, List.map_map]
  congr 2
  · exact List.map_congr_left fun pair _ => importCounts_edges kind pair.1 pair.2
  · exact List.map_congr_left fun c _ => callCounts_edges kind c

/-- The edges of a kind are counted as they are added. -/
theorem counts_edges (files : List Pending) :
    (Resolve.counts t registry nodes files).edges kind =
      (Resolve.links t registry nodes files).countP (·.kind = kind) := by
  rw [Resolve.counts, Resolve.links, total_edges, List.countP_flatMap, List.map_map]
  exact congrArg List.sum (List.map_congr_left fun p _ => fileCounts_edges kind)

theorem length_by_kind (ls : List Link) : ls.length = ls.countP (·.kind = .imports) + ls.countP (·.kind = .calls) := by
  induction ls with
  | nil => rfl
  | cons l rest ih =>
    rw [List.length_cons, List.countP_cons, List.countP_cons, ih]
    cases hkind : l.kind <;> simp <;> omega

theorem numbered_edges (now : Time.Instant) (id : EdgeId) (ls : List Link) :
    (EdgeRow.numbered now id ls).countP (·.kind = kind.text) = ls.countP (·.kind = kind) := by
  induction ls generalizing id with
  | nil => rfl
  | cons l rest ih =>
    rw [EdgeRow.numbered, List.countP_cons, List.countP_cons, ih]
    congr 1
    cases l with
    | mk made source target => cases made <;> cases kind <;> rfl

end Links

/-! ### Passes -/

variable {w : Workspace} {x : Standing} {f : Tally → Tally} {path : String} {v : Verdict}

/-- What all fates have added to a counter, and what was added before each. -/
theorem Standing.through_count {c : Stats → Nat} {k : Nat} (hplus : ∀ a b, c (a.plus b) = c a + c b)
    (hf : ∀ t : Tally, c (f t).stats = c t.stats + k) (fates : List Fate) (x : Standing) :
    c (x.through w f fates).tally.stats =
      c x.tally.stats + fates.length * k + (fates.map fun fate => c (fate.verdict.gain w)).sum := by
  induction fates generalizing x with
  | nil => simp [through]
  | cons fate rest ih =>
    have htail := ih ((x.counted f).after w fate.path fate.verdict)
    rw [through, List.foldl_cons, ← through, htail, Standing.after_tally, Verdict.tally_eq, hplus, Standing.counted_tally, hf,
      List.length_cons, List.map_cons, List.sum_cons, Nat.succ_mul]
    omega

/-- Every fate but a removal is counted once. -/
theorem gains_settled (w : Workspace) (fates : List Fate) :
    (fates.map fun fate => (fate.verdict.gain w).settled).sum + fates.countP (·.verdict = .erased) = fates.length := by
  induction fates with
  | nil => rfl
  | cons fate rest ih =>
    rw [List.map_cons, List.sum_cons, List.countP_cons, List.length_cons, ← ih]
    cases fate with
    | mk path v => cases v <;> simp [Verdict.gain, Stats.settled] <;> omega

theorem gains_nothing {c : Stats → Nat} (h : ∀ v : Verdict, c (v.gain w) = 0) (fates : List Fate) :
    (fates.map fun fate => c (fate.verdict.gain w)).sum = 0 := by
  simp [h]

theorem Standing.through_seen (fates : List Fate) (x : Standing) :
    (x.through w Run.see fates).tally.stats.filesSeen = x.tally.stats.filesSeen + fates.length ∧
      (x.through w id fates).tally.stats.filesSeen = x.tally.stats.filesSeen := by
  have hnothing := gains_nothing (w := w) (c := Stats.filesSeen) (fun v => by cases v <;> rfl) fates
  have hsee := through_count (w := w) (c := Stats.filesSeen) (f := Run.see) (k := 1) (fun _ _ => rfl) (fun _ => rfl) fates x
  have hid := through_count (w := w) (c := Stats.filesSeen) (f := id) (k := 0) (fun _ _ => rfl) (fun _ => rfl) fates x
  rw [hnothing] at hsee hid
  exact ⟨by simpa using hsee, by simpa using hid⟩

theorem Standing.through_settled (hf : ∀ t : Tally, (f t).stats.settled = t.stats.settled) (fates : List Fate) (x : Standing) :
    (x.through w f fates).tally.stats.settled + fates.countP (·.verdict = .erased) =
      x.tally.stats.settled + fates.length := by
  have hcount := through_count (w := w) (c := Stats.settled) (k := 0)
    (fun a b => by simp only [Stats.settled, Stats.plus]; omega) hf fates x
  have hgains := gains_settled w fates
  omega

theorem Standing.through_edges (hf : ∀ (t : Tally) kind, (f t).stats.edges kind = t.stats.edges kind) (kind : EdgeKind)
    (fates : List Fate) (x : Standing) :
    (x.through w f fates).tally.stats.edges kind = x.tally.stats.edges kind := by
  have hcount := through_count (w := w) (c := (·.edges kind)) (k := 0) (fun a b => by cases kind <;> rfl) (hf · kind) fates x
  rw [gains_nothing (c := (·.edges kind)) fun v => by cases v <;> cases kind <;> rfl] at hcount
  simpa using hcount

/-- The pass has counted and told what it has stored. -/
structure Standing.Accounts (x : Standing) : Prop where
  indexed : x.tally.stats.indexed = x.tally.pending.length
  created : x.tally.stats.nodesCreated = (x.tally.pending.map (·.found.symbols.length)).sum
  told : x.Tells

theorem Standing.Accounts.after (h : x.Accounts) (path : String) (v : Verdict) : (x.after w path v).Accounts := by
  refine ⟨?_, ?_, h.told.after path v⟩
  · rw [Standing.after_tally, Verdict.tally_eq, List.length_append, ← h.indexed]
    cases v <;> rfl
  · rw [Standing.after_tally, Verdict.tally_eq, List.map_append, List.sum_append, ← h.created]
    cases v <;> rfl

/-- The fates change the pass, one after the other. -/
theorem Standing.through_induct {P : Standing → Prop} (hf : ∀ x, P x → P (x.counted f))
    (hafter : ∀ x path v, P x → (v.GivenUp ∨ v = w.ruleUpdate [] (hashAt x.tables path) path) → P (x.after w path v))
    {fates : List Fate} {x : Standing} (hfits : Fits w x.tables fates) (hx : P x) : P (x.through w f fates) := by
  induction fates generalizing x with
  | nil => exact hx
  | cons fate rest ih =>
    obtain ⟨hfate, hrest⟩ := hfits
    exact ih (x := (x.counted f).after w fate.path fate.verdict) hrest (hafter (x.counted f) _ _ (hf x hx) hfate)

theorem Verdict.GivenUp.same (h : v.GivenUp) (w : Workspace) (path : String) (t : Tables) (next : NodeId) :
    v.tables w path t = t ∧ v.made w path next = [] := by
  cases v <;> first | exact ⟨rfl, rfl⟩ | cases h

theorem Standing.Lasting.fate (h : x.Lasting w []) (hv : v.GivenUp ∨ v = w.ruleUpdate [] (hashAt x.tables path) path) :
    (x.after w path v).Lasting w [] := by
  rcases hv with hv | rfl
  · obtain ⟨htables, hmade⟩ := hv.same w path x.tables x.tables.nextNode
    have hpending : (x.after w path v).tally.pending = x.tally.pending := by
      rw [Standing.after_tally, Verdict.tally_eq, hmade, List.append_nil]
    refine ⟨?_, ?_⟩
    · rw [hpending, Standing.after_tables, htables]
      exact h.current
    · rw [hpending]
      exact h.nodup
  · exact h.after path

/-- A path that the pass has not stored has the nodes it had, or none. -/
def Standing.Spares (x : Standing) (t : Tables) : Prop :=
  ∀ path, path ∉ x.tally.pending.map (·.path) → x.tables.nodesAt path = t.nodesAt path ∨ x.tables.nodesAt path = []

theorem Standing.Spares.after {t : Tables} (h : x.Spares t) (path : String) (v : Verdict) : (x.after w path v).Spares t := by
  intro other hother
  rw [Standing.after_tally, Verdict.tally_eq, List.map_append, List.mem_append, not_or] at hother
  obtain ⟨hold, hnew⟩ := hother
  by_cases hp : other = path
  · subst hp
    cases v with
    | stored language text => exact absurd (List.mem_singleton.mpr rfl) hnew
    | erased => exact .inr (x.tables.nodesAt_withoutFile_self other)
    | _ => exact h other hold
  · rw [Standing.after_tables, (Verdict.tables_of_ne hp v x.tables).2]
    exact h other hold

/-- The store holds what the pass has counted, and nothing else. -/
structure Standing.Built (x : Standing) : Prop where
  files : x.tally.stats.indexed = x.tables.files.length
  nodes : x.tally.stats.nodesCreated = x.tables.nodes.length
  unchanged : x.tally.stats.unchanged = 0

theorem length_putFile {row : FileRow} {files : List FileRow} (h : ∀ r ∈ files, r.path ≠ row.path) :
    (Tables.putFile row files).length = files.length + 1 := by
  induction files with
  | nil => rfl
  | cons r rest ih =>
    rw [Tables.putFile, if_neg (h r List.mem_cons_self)]
    split
    · rfl
    · rw [List.length_cons, ih fun r hr => h r (List.mem_cons_of_mem _ hr), List.length_cons]

theorem length_numbered (path : String) (id : NodeId) (symbols : List Symbol) :
    (NodeRow.numbered path id symbols).length = symbols.length :=
  NodeRow.numbered_carries.length_eq

theorem ruleUpdate_none_ne_kept (w : Workspace) (R : List String) (path : String) : w.ruleUpdate R none path ≠ .kept := by
  unfold Workspace.ruleUpdate Workspace.rule
  split
  · split
    · simp only [reduceCtorEq, if_false]
      split <;> simp
    · simp
  · split <;> simp

/-- A path of which the store knows nothing comes to its fate. -/
theorem Standing.Built.fate (h : x.Built) (hnew : x.tables.knows path = false) (hne : v ≠ .erased)
    (hv : v.GivenUp ∨ v = w.ruleUpdate [] (hashAt x.tables path) path) : (x.after w path v).Built := by
  obtain ⟨hnodes, hfiles⟩ := Tables.knows_eq_false.mp hnew
  have hstats : (x.after w path v).tally.stats = x.tally.stats.plus (v.gain w) := by
    rw [Standing.after_tally, Verdict.tally_eq]
  cases v with
  | stored language text =>
    have hkept : x.tables.nodes.filter (·.path != path) = x.tables.nodes :=
      List.filter_eq_self.mpr fun node hnode => by simpa using hnodes node hnode
    refine ⟨?_, ?_, ?_⟩
    · rw [hstats]
      exact (congrArg (· + 1) h.files).trans (length_putFile hfiles).symm
    · rw [hstats, Standing.after_tables, Verdict.tables, Tables.withFile, List.length_append, length_numbered]
      exact congrArg₂ (· + ·) (h.nodes.trans (congrArg List.length hkept.symm)) rfl
    · rw [hstats]
      exact h.unchanged
  | kept =>
    -- A file without a record is never found unchanged.
    have hhash : hashAt x.tables path = none := by
      rw [hashAt, List.find?_eq_none.mpr fun row hrow => by simpa using hfiles row hrow]
      rfl
    rcases hv with hv | hv
    · cases hv
    · rw [hhash] at hv
      exact absurd hv.symm (ruleUpdate_none_ne_kept w [] path)
  | erased => exact absurd rfl hne
  | _ => exact ⟨hstats ▸ h.files, hstats ▸ h.nodes, hstats ▸ h.unchanged⟩

theorem Standing.Built.through {fates : List Fate} (h : x.Built) (hfits : Fits w x.tables fates)
    (hremain : ∀ fate ∈ fates, fate.verdict ≠ .erased) (hnodup : (fates.map (·.path)).Nodup)
    (hnew : ∀ fate ∈ fates, x.tables.knows fate.path = false) : (x.through w id fates).Built := by
  induction fates generalizing x with
  | nil => exact h
  | cons fate rest ih =>
    obtain ⟨hfate, hrest⟩ := hfits
    obtain ⟨hfirst, hnodup⟩ := List.nodup_cons.mp hnodup
    have hafter := h.fate (hnew fate List.mem_cons_self) (hremain fate List.mem_cons_self) hfate
    refine ih (x := x.after w fate.path fate.verdict) hafter hrest (fun g hg => hremain g (List.mem_cons_of_mem _ hg))
      hnodup fun g hg => ?_
    have hpath : g.path ≠ fate.path := fun hsame => hfirst (List.mem_map.mpr ⟨g, hg, hsame⟩)
    rw [Standing.after_tables, Verdict.knows_of_ne hpath]
    exact hnew g (List.mem_cons_of_mem _ hg)

theorem Standing.through_table_edges (fates : List Fate) (x : Standing) :
    (x.through w f fates).tables.edges = x.tables.edges := by
  induction fates generalizing x with
  | nil => rfl
  | cons fate rest ih =>
    exact (ih ((x.counted f).after w fate.path fate.verdict)).trans (fate.verdict.tables_edges w fate.path x.tables).1

/-! ### Calls -/

theorem Standing.stats_edges (x : Standing) (w : Workspace) (kind : EdgeKind) :
    (x.stats w).edges kind = x.tally.stats.edges kind + (x.links w.registry).countP (·.kind = kind) := by
  rw [Standing.links, ← counts_edges]
  cases kind <;> rfl

/-- The links of a pass are counted as their edges are added. -/
theorem Standing.linked_counts (x : Standing) (w : Workspace) (h : ∀ kind, x.tally.stats.edges kind = 0) :
    ∃ new, (x.linked w).edges = x.tables.edges ++ new ∧
      (∀ kind : EdgeKind, new.countP (·.kind = kind.text) = (x.stats w).edges kind) ∧
      new.length = (x.stats w).importEdges + (x.stats w).callEdges := by
  have hcount : ∀ kind, (x.links w.registry).countP (·.kind = kind) = (x.stats w).edges kind := fun kind => by
    rw [stats_edges, h, Nat.zero_add]
  refine ⟨_, Tables.linkAll_edges _ _ _, fun kind => (numbered_edges kind _ _ _).trans (hcount kind), ?_⟩
  rw [(numbered_stores _ _ _).length_eq, length_by_kind, hcount, hcount]
  rfl

/-- The counts of a full index are those of the scanned files and of what the store holds. -/
structure Stats.OfFullIndex (stats : Stats) (w : Workspace) (t : Tables) : Prop where
  seen : stats.filesSeen = w.scan.length
  settled : stats.filesSeen = stats.indexed + stats.skipped + stats.failed
  unchanged : stats.unchanged = 0
  files : stats.indexed = t.files.length
  nodes : stats.nodesCreated = t.nodes.length
  imports : stats.importEdges = t.edges.countP (·.kind = EdgeKind.imports.text)
  calls : stats.callEdges = t.edges.countP (·.kind = EdgeKind.calls.text)

/-- The counts of a call with some paths are those of what it did. -/
structure Stats.OfIndexFiles (stats : Stats) (w : Workspace) (paths : List String) (s done : Session) : Prop where
  seen : stats.filesSeen = paths.length
  settled : stats.filesSeen =
    stats.indexed + stats.unchanged + stats.skipped + stats.failed + Run.removals w paths {} s
  /-- The files that were committed, which are those that were told to be indexed, and no other path has new nodes. -/
  committed : ∃ told, done.events = s.events ++ told ∧
    let committed := told.filterMap Event.indexed?
    committed.Nodup ∧ stats.indexed = committed.length ∧
      stats.nodesCreated = (committed.map fun path => (w.symbolsIn path).length).sum ∧
      (∀ path ∈ committed, (done.store.tables.nodesAt path).length = (w.symbolsIn path).length) ∧
      ∀ path, path ∉ committed →
        done.store.tables.nodesAt path = s.store.tables.nodesAt path ∨ done.store.tables.nodesAt path = []
  edges : ∃ new, done.store.tables.edges = s.store.tables.edges ++ new ∧
    new.countP (·.kind = EdgeKind.imports.text) = stats.importEdges ∧
    new.countP (·.kind = EdgeKind.calls.text) = stats.callEdges ∧
    new.length = stats.importEdges + stats.callEdges

theorem fullIndex_counts {s done : Session} {stats : Stats} (hs : s.Revertible) (hd : w.disk.Sound)
    (h : Run.fullIndex w s = (.ok stats, done)) : stats.OfFullIndex w done.store.tables := by
  obtain ⟨fates, checkpoints, hpaths, hremain, hfits, rfl, hb⟩ := Run.fullIndex_eq_ok hs h
  let x := (Run.cleared w s.store.tables).through w id fates
  have hnodup : (fates.map (·.path)).Nodup := hpaths ▸ Workspace.scan_nodup hd
  have hbuilt : x.Built := Standing.Built.through ⟨rfl, rfl, rfl⟩ hfits hremain hnodup fun fate _ => rfl
  have hseen : x.tally.stats.filesSeen = w.scan.length := (Standing.through_seen fates _).2
  have hsettled : x.tally.stats.settled = w.scan.length := by
    have hcount : x.tally.stats.settled + fates.countP (·.verdict = .erased) = 0 + fates.length :=
      Standing.through_settled (f := id) (fun _ => rfl) fates _
    have hlength : fates.length = w.scan.length := by simpa using congrArg List.length hpaths
    rwa [List.countP_eq_zero.mpr fun fate hfate => by simpa using hremain fate hfate, hlength, Nat.zero_add] at hcount
  have hnone : ∀ kind, x.tally.stats.edges kind = 0 := fun kind => by
    refine (Standing.through_edges (f := id) (fun _ _ => rfl) kind fates _).trans ?_
    cases kind <;> rfl
  obtain ⟨new, hedges, hcounts, -⟩ := Standing.linked_counts x w hnone
  -- The index was cleared, so all its edges are the ones that were just added.
  rw [Standing.through_table_edges, show (Run.cleared w s.store.tables).tables.edges = [] from rfl, List.nil_append] at hedges
  rw [hb.tables]
  refine ⟨hseen, ?_, hbuilt.unchanged, ?_, ?_, ?_, ?_⟩
  · have hunchanged := hbuilt.unchanged
    unfold Stats.settled at hsettled
    show x.tally.stats.filesSeen = x.tally.stats.indexed + x.tally.stats.skipped + x.tally.stats.failed
    omega
  · exact hbuilt.files.trans (congrArg List.length (Tables.linkAll_files ..).symm)
  · exact hbuilt.nodes.trans (congrArg List.length (Tables.linkAll_nodes ..).symm)
  · rw [← hedges] at hcounts
    exact (hcounts .imports).symm
  · rw [← hedges] at hcounts
    exact (hcounts .calls).symm

theorem Pending.Current.symbols {t : Tables} {R : List String} {p : Pending} (h : p.Current w R t) :
    p.found.symbols = w.symbolsIn p.path ∧ (t.nodesAt p.path).length = p.found.symbols.length := by
  obtain ⟨language, text, hl, hs, hfound⟩ := h.found
  refine ⟨by rw [Workspace.symbolsIn, hl, hs, hfound], ?_⟩
  have hids := congrArg List.length h.ids
  have hspans := congrArg List.length h.spans
  rw [List.length_map, List.length_map] at hids hspans
  exact hids.symm.trans hspans

theorem indexFiles_counts {s done : Session} {stats : Stats} {paths : List String} (hs : s.Revertible)
    (h : Run.indexFiles w paths s = (.ok stats, done)) : stats.OfIndexFiles w paths s done := by
  obtain ⟨fates, hlength, hremoved, hfits, rfl, hb⟩ := Run.indexFiles_eq_ok hs h
  let start : Standing := { tables := s.store.tables }
  let x := start.through w Run.see fates
  -- Three invariants are carried through the pass together: who was stored last, what was counted, what was left alone.
  have hall : x.Lasting w [] ∧ x.Accounts ∧ x.Spares s.store.tables := by
    refine Standing.through_induct (f := Run.see) (P := fun x => x.Lasting w [] ∧ x.Accounts ∧ x.Spares s.store.tables)
      (fun x hx => ⟨⟨hx.1.current, hx.1.nodup⟩, ⟨hx.2.1.indexed, hx.2.1.created, hx.2.1.told⟩, hx.2.2⟩)
      (fun x path v hx hv => ⟨hx.1.fate hv, hx.2.1.after path v, hx.2.2.after path v⟩) hfits ?_
    exact ⟨⟨fun _ hp => absurd hp List.not_mem_nil, List.nodup_nil⟩, ⟨rfl, rfl, rfl⟩, fun _ _ => .inl rfl⟩
  obtain ⟨hlasting, haccounts, hspares⟩ := hall
  have hseen : x.tally.stats.filesSeen = 0 + fates.length := (Standing.through_seen fates _).1
  have hsettled : x.tally.stats.settled + fates.countP (·.verdict = .erased) = 0 + fates.length :=
    Standing.through_settled (f := Run.see) (fun _ => rfl) fates _
  have hnone : ∀ kind, x.tally.stats.edges kind = 0 := fun kind => by
    refine (Standing.through_edges (f := Run.see) (fun _ kind => by cases kind <;> rfl) kind fates _).trans ?_
    cases kind <;> rfl
  obtain ⟨new, hedges, hcounts, hnew⟩ := Standing.linked_counts x w hnone
  rw [Standing.through_table_edges] at hedges
  refine ⟨?_, ?_, ⟨x.told, hb.events, ?_⟩, ⟨new, ?_, hcounts .imports, hcounts .calls, hnew⟩⟩
  · show x.tally.stats.filesSeen = paths.length
    omega
  · unfold Stats.settled at hsettled
    show x.tally.stats.filesSeen = x.tally.stats.indexed + x.tally.stats.unchanged + x.tally.stats.skipped +
      x.tally.stats.failed + Run.removals w paths {} s
    omega
  · have hnodes : ∀ path, done.store.tables.nodesAt path = x.tables.nodesAt path := fun path => by
      rw [hb.tables, Tables.nodesAt, Standing.linked, Tables.linkAll_nodes, ← Tables.nodesAt]
    rw [haccounts.told]
    refine ⟨hlasting.nodup, by rw [List.length_map]; exact haccounts.indexed, ?_, ?_, ?_⟩
    · rw [List.map_map]
      refine haccounts.created.trans (congrArg List.sum (List.map_congr_left fun p hp => ?_))
      exact congrArg List.length (hlasting.current p hp).symbols.1
    · intro path hpath
      obtain ⟨p, hp, rfl⟩ := List.mem_map.mp hpath
      obtain ⟨hsymbols, hlength⟩ := (hlasting.current p hp).symbols
      rw [hnodes, hlength, hsymbols]
    · intro path hpath
      rw [hnodes]
      exact hspares path hpath
  · rw [hb.tables]
    exact hedges

/-- Whatever the store refuses but to take a transaction back, the counts of calls that succeed are right. -/
theorem counters_tell_truth (w : Workspace) (s : Session) (hs : s.Revertible) :
    (w.disk.Sound → ∀ stats done, Run.fullIndex w s = (.ok stats, done) → stats.OfFullIndex w done.store.tables) ∧
      ∀ paths stats done, Run.indexFiles w paths s = (.ok stats, done) → stats.OfIndexFiles w paths s done :=
  ⟨fun hd _ _ h => fullIndex_counts hs hd h, fun _ _ _ h => indexFiles_counts hs h⟩

/-- Of three files one is there, and of the two that are gone the store refuses to remove one. -/
theorem one_file_counted :
    let w : Workspace := { disk := single (.text "function f(){}"), parser := fun _ _ => some functionTree }
    let paths := ["a.ts", "b.ts", "c.ts"]
    ∃ stats stats' first done, Run.fullIndex w { gate := .refusing ["b.ts"] } = (.ok stats, first) ∧
      Run.indexFiles w paths first = (.ok stats', done) ∧ stats.OfFullIndex w first.store.tables ∧
      stats'.OfIndexFiles w paths first done := by
  intro w paths
  have hshows : w.Shows fun path text => w.source? path = some text := ⟨fun _ _ h => h, Clock.epoch.readable⟩
  obtain ⟨stats, first, hrun, hcalm, htables, -⟩ :=
    fullIndex_coherent (s := { gate := .refusing ["b.ts"] }) hshows ⟨rfl, rfl⟩
  obtain ⟨stats', done, hrun', -⟩ := indexFiles_coherent hshows hcalm htables paths
  refine ⟨stats, stats', first, done, hrun, hrun', ?_, ?_⟩
  · exact (counters_tell_truth w _ fun _ => rfl).1 (single_sound _) _ _ hrun
  · exact (counters_tell_truth w first fun _ => by rw [hcalm.gate]; rfl).2 _ _ _ hrun'

end Index
end SymbolGraph
