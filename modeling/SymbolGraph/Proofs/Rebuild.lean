import SymbolGraph.Proofs.Locations
import SymbolGraph.Proofs.Renumbering

/-! A full index and an index of what a scan finds. The former clears the store and stores every file that it
    finds; the latter, started on a new store, stores the same files in the same order. The two differ only in
    a file that is listed but cannot be looked up, because its absolute path is too long or nothing can be
    looked up in its directory: the former skips it, the latter takes it for gone. -/

namespace SymbolGraph

open Store

/-- The same files, nodes and edges, but for times and for the numbers, which are higher by `k` for nodes and by
    `j` for edges in the first. -/
structure Tables.SameBut (k j : Int) (t u : Tables) : Prop where
  files : t.files.map FileRow.timeless = u.files.map FileRow.timeless
  nodes : t.nodes = u.nodes.map (NodeRow.moved k)
  edges : t.edges.map EdgeRow.timeless = u.edges.map fun e => (e.moved k j).timeless

namespace Index

namespace Workspace

/-- A call with the path takes the file for gone, as the path leads to nothing, even if the file is there. -/
def seemsGone (w : Workspace) (path : String) : Bool := !w.disk.exists (w.absolute path)

theorem source?_of_seemsGone {w : Workspace} {path : String} (h : w.seemsGone path) : w.source? path = none := by
  by_contra hsome
  obtain ⟨text, hsource⟩ := Option.ne_none_iff_exists'.mp hsome
  simp [seemsGone, exists_of_source hsource] at h

/-- A scanned file is taken for gone if its path is too long or the directory that holds it cannot be searched. -/
theorem seemsGone_of_mem_scan_iff {w : Workspace} (hd : w.disk.Sound) {f : Found} (hf : f ∈ w.scan) :
    ∃ names, f.path = Text.join '/' names ∧ (w.seemsGone f.path ↔
      Disk.pathLimit ≤ (w.absolute f.path).utf8ByteSize ∨ w.disk.searchable (w.root ++ names.dropLast) = false) := by
  obtain ⟨names, hpath, hexists⟩ := exists_of_mem_scan_iff hd hf
  refine ⟨names, hpath, ?_⟩
  rw [seemsGone, Bool.not_eq_true', ← Bool.not_eq_true, hexists, not_and_or, not_lt, Bool.not_eq_true]

end Workspace

/-! ### From a scanned path to its verdict -/

/-- Both passes have come as far, but the first still has to see `n` files, and of the files that the second has
    skipped it has missed `a` and failed to remove `b`. -/
structure Standing.Off (a b n : Nat) (y x : Standing) : Prop where
  tables : y.tables = x.tables
  pending : y.tally.pending = x.tally.pending
  stats : y.tally.stats.plus { filesSeen := n, skipped := a } = x.tally.stats.plus { failed := b }

variable {w : Workspace} {R : List String} {x y : Standing} {a b n : Nat} {path : String}

theorem Standing.Off.linked (h : y.Off a b n x) : y.linked w = x.linked w := by
  unfold Standing.linked Standing.links
  rw [h.tables, h.pending]

theorem Standing.Off.seen (h : y.Off a b (n + 1) x) (hrel : Path.relative? w.rootPath path = some path)
    (hex : w.disk.exists (w.absolute path)) : (y.update w R path).Off a b n (x.settle w R path) := by
  have hupdate : y.update w R path = (y.counted Run.see).after w path (w.judge R (y.tables.file? path) path) := by
    rw [Standing.update_inside hrel]
    simp only [Workspace.judgeUpdate, hex, if_true]
  rw [hupdate, Standing.settle, h.tables]
  refine ⟨?_, ?_, ?_⟩
  · simp only [Standing.after_tables, Standing.counted_tables, h.tables]
  · simp only [Standing.after_tally, Standing.counted_tally, Standing.counted_tables, Verdict.tally_eq, Run.see,
      h.tables, h.pending]
  · have hstats := h.stats
    simp only [Stats.plus, Stats.mk.injEq] at hstats
    simp only [Standing.after_tally, Standing.counted_tally, Verdict.tally_eq, Run.see, Stats.plus, Stats.mk.injEq]
    grind

/-- A path that leads to nothing and has no rows is skipped by the one and missed by the other. -/
theorem Standing.Off.missed (h : y.Off a b (n + 1) x) (hrel : Path.relative? w.rootPath path = some path)
    (hgone : w.seemsGone path) (hnone : x.tables.withoutFile path = x.tables) :
    (y.update w R path).Off (a + 1) (if path ∈ R then b + 1 else b) n (x.settle w R path) := by
  have hverdict : w.judgeUpdate R (y.tables.file? path) path = if path ∈ R then .stuck else .erased := by
    rw [Workspace.judgeUpdate, show w.disk.exists (w.absolute path) = false from by simpa [Workspace.seemsGone] using hgone]
    simp
  have hskip : w.judge R (x.tables.file? path) path = .skipped := by
    unfold Workspace.judge
    rw [Workspace.source?_of_seemsGone hgone]
    cases w.accepts path <;> rfl
  have hstats := h.stats
  simp only [Stats.plus, Stats.mk.injEq] at hstats
  rw [Standing.update_inside hrel, hverdict, Standing.settle, hskip]
  -- The call without a scan tries to remove the path, which counts as a failure where the store refuses that.
  by_cases hR : path ∈ R
  · simp only [hR, if_true]
    refine ⟨h.tables, ?_, ?_⟩
    · simp only [Standing.after_tally, Standing.counted_tally, Verdict.tally_eq, Verdict.made, Run.see, h.pending]
    · simp only [Standing.after_tally, Standing.counted_tally, Verdict.tally_eq, Verdict.gain, Run.see, Stats.plus,
        Stats.mk.injEq]
      grind
  · simp only [hR, if_false]
    refine ⟨?_, ?_, ?_⟩
    · simp only [Standing.after_tables, Standing.counted_tables, Verdict.tables, h.tables, hnone]
    · simp only [Standing.after_tally, Standing.counted_tally, Verdict.tally_eq, Verdict.made, Run.see, h.pending]
    · simp only [Standing.after_tally, Standing.counted_tally, Verdict.tally_eq, Verdict.gain, Run.see, Stats.plus,
        Stats.mk.injEq]
      grind

/-- Tables whose files all had a text know nothing of a path that leads to nothing. -/
theorem withoutFile_of_seemsGone {t : Tables} (h : t.Coherent w fun path text => w.source? path = some text)
    (hgone : w.seemsGone path) : t.withoutFile path = t := by
  refine Tables.withoutFile_unknown (h.unknown fun text hsource => ?_)
  rw [Workspace.source?_of_seemsGone hgone] at hsource
  cases hsource

/-- A pass that looks whether the paths exist misses those that lead to nothing. -/
theorem Standing.Off.foldl (hw : w.Shows fun path text => w.source? path = some text) (paths : List String)
    (h : y.Off a b paths.length x) (hx : x.tables.Coherent w fun path text => w.source? path = some text)
    (hpaths : ∀ path ∈ paths, Path.relative? w.rootPath path = some path) :
    (paths.foldl (.update w R) y).Off (a + paths.countP w.seemsGone)
      (b + paths.countP fun path => w.seemsGone path && R.contains path) 0
      (paths.foldl (.settle w R) x) := by
  induction paths generalizing x y a b with
  | nil => exact h
  | cons path rest ih =>
    have hrel := hpaths path List.mem_cons_self
    have hrest := fun p hp => hpaths p (List.mem_cons_of_mem path hp)
    have hx' := settle_coherent (R := R) hx hw path
    rw [List.foldl_cons, List.foldl_cons, List.countP_cons, List.countP_cons]
    -- The second pass never has rows for a path that leads to nothing, as no text was ever read for it.
    cases hgone : w.seemsGone path with
    | false =>
      have hexists : w.disk.exists (w.absolute path) := by simpa [Workspace.seemsGone] using hgone
      have := ih (h.seen (R := R) hrel hexists) hx' hrest
      simpa [Nat.add_assoc, Nat.add_comm, Nat.add_left_comm] using this
    | true =>
      have := ih (h.missed (R := R) hrel hgone (withoutFile_of_seemsGone hx hgone)) hx' hrest
      by_cases hR : path ∈ R
      · simpa [hR, Nat.add_assoc, Nat.add_comm, Nat.add_left_comm] using this
      · simpa [hR, Nat.add_assoc, Nat.add_comm, Nat.add_left_comm] using this

/-! ### The runs -/

theorem scanned_paths (hd : w.disk.Sound) : ∀ path ∈ w.scan.map (·.path), Path.relative? w.rootPath path = some path := by
  intro path hpath
  obtain ⟨f, hf, rfl⟩ := List.mem_map.mp hpath
  exact Workspace.relative?_of_mem_scan hd hf

theorem shows_sources (w : Workspace) (c : Clock) : (w.timed c).Shows fun path text => w.source? path = some text :=
  ⟨fun _ _ h => h, c.readable⟩

theorem raise_to (a b : Int) : a = b + (a - b) := by omega

/-- Full passes come as far whatever the stores held. -/
theorem fullPass_moved (w : Workspace) (c c' : Clock) (R : List String) (t u : Tables) :
    (Run.fullPass (w.timed c) R t).Moved (t.nextNode - u.nextNode) (Run.fullPass (w.timed c') R u) := by
  refine foldl_settle_moved (shows_sources w c) (shows_sources w c') _ ⟨⟨rfl, rfl, ?_⟩, rfl, .nil⟩
    (.of_no_files _ rfl rfl) (.of_no_files _ rfl rfl)
  exact raise_to _ _

/-- On an empty store a pass over what the scan finds is a full pass but for paths that lead to nothing. -/
theorem firstPass_off (hd : w.disk.Sound) (hw : w.Shows fun path text => w.source? path = some text) (R : List String)
    {u : Tables} (hu : u = { u with files := [], nodes := [], edges := [] }) :
    let paths := w.scan.map (·.path)
    (Run.firstPass w R u paths).Off (paths.countP w.seemsGone)
      (paths.countP fun path => w.seemsGone path && R.contains path) 0 (Run.fullPass w R u) := by
  intro paths
  have hstart : Standing.Off 0 0 paths.length { tables := u }
      { tables := { u with files := [], nodes := [], edges := [] }
        tally := { stats := { filesSeen := w.scan.length } } } :=
    ⟨hu, rfl, by simp [Stats.plus, paths]⟩
  have hfold := hstart.foldl (R := R) hw paths (.of_no_files _ rfl rfl) (scanned_paths hd)
  rw [Nat.zero_add, Nat.zero_add] at hfold
  exact hfold

theorem Standing.Moved.linked {k : Int} (h : x.Moved k y) (hy : y.tables.Readable) (c c' : Clock)
    (hx₀ : x.tables.edges = []) (hy₀ : y.tables.edges = []) :
    (x.linked (w.timed c)).SameBut k (x.tables.nextEdge - y.tables.nextEdge) (y.linked (w.timed c')) := by
  obtain ⟨hlinks, -⟩ := h.links hy w.registry
  refine ⟨?_, ?_, ?_⟩
  · rw [Standing.linked, Standing.linked, Tables.linkAll_files, Tables.linkAll_files, h.tables.files]
  · rw [Standing.linked, Standing.linked, Tables.linkAll_nodes, Tables.linkAll_nodes, h.tables.nodes]
  · have hedges := EdgeRow.numbered_moved hlinks (x.tables.nextEdge - y.tables.nextEdge) y.tables.nextEdge c.now c'.now
    rw [← raise_to] at hedges
    rw [Standing.linked, Standing.linked, Tables.linkAll_edges, Tables.linkAll_edges, hx₀, hy₀]
    exact hedges

theorem Standing.Moved.stats_off {k : Int} {z : Standing} (h : x.Moved k z) (hz : z.tables.Readable)
    (hoff : y.Off a b 0 z) (c c' : Clock) :
    (y.stats (w.timed c')).plus { skipped := a } =
      { (x.stats (w.timed c)).plus { failed := b } with duration := c'.elapsed } := by
  obtain ⟨-, hcounts⟩ := h.links hz w.registry
  have hstats := hoff.stats
  unfold Standing.stats
  rw [hoff.tables, hoff.pending, Workspace.timed_registry, Workspace.timed_registry, hcounts]
  simp only [Stats.plus, Stats.mk.injEq] at hstats
  simp only [Stats.plus, Stats.absorb, Stats.mk.injEq, Workspace.timed_elapsed, h.stats]
  grind

/-- Both runs succeed, and come to what their first passes come to. -/
theorem rebuild_runs (w : Workspace) (c c' : Clock) {R : List String} {s s' : Session} (hs : s.Calm R) (hs' : s'.Calm R)
    (hu : s'.store.tables = { s'.store.tables with files := [], nodes := [], edges := [] }) (hd : w.disk.Sound) :
    let full := Run.fullPass (w.timed c) R s.store.tables
    let given := Run.firstPass (w.timed c') R s'.store.tables (w.scan.map (·.path))
    ∃ done done', Run.fullIndex (w.timed c) s = (.ok (full.stats (w.timed c)), done) ∧
      Run.indexFiles (w.timed c') (w.scan.map (·.path)) s' = (.ok (given.stats (w.timed c')), done') ∧
      done.store.tables = (full.linked (w.timed c)).recorded (w.timed c) (full.stats (w.timed c)) ∧
      done'.store.tables = given.linked (w.timed c') := by
  intro full given
  have hfull := (fullPass_coherent (R := R) (shows_sources w c) s.store.tables).readable
  have hsame := (fullPass_coherent (R := R) (shows_sources w c') s'.store.tables).readable
  have hoff := firstPass_off (w := w.timed c') hd (shows_sources w c') R hu
  obtain ⟨done, hrun, hdone⟩ := Run.fullIndex_became hs hfull
  obtain ⟨done', hrun', hdone'⟩ := Run.indexFiles_became hs' (w.scan.map (·.path)) (hoff.tables ▸ hsame)
  exact ⟨done, done', hrun, hrun', hdone.tables, hdone'.tables⟩

/-! ### Files that are deep down -/

/-- A disk with one file, that many directories below the root. -/
def nested (n : Nat) : Disk :=
  ⟨(List.replicate n "d" ++ ["a.ts"], .file (.text "")) ::
    (List.range n).map fun i => (List.replicate (i + 1) "d", .directory)⟩

theorem nested_file (n : Nat) : Disk.entry? (nested n) (List.replicate n "d" ++ ["a.ts"]) = some (.file (.text "")) := by
  simp [Disk.entry?, nested]

theorem nested_directory {n k : Nat} (hk : k ≤ n) :
    Disk.entry? (nested n) (List.replicate k "d") = some .directory := by
  cases k with
  | zero => rfl
  | succ k =>
    have hne : (List.replicate (k + 1) "d" == List.replicate n "d" ++ ["a.ts"]) = false := by
      rw [beq_eq_false_iff_ne]
      intro heq
      have hlast := congrArg List.getLast? heq
      simp [List.getLast?_replicate] at hlast
    have hsome : (((List.range n).map fun i => (List.replicate (i + 1) "d", Disk.Entry.directory)).lookup
        (List.replicate (k + 1) "d")).isSome := by
      rw [List.lookup_isSome_iff]
      exact ⟨_, List.mem_map.mpr ⟨k, List.mem_range.mpr hk, rfl⟩, beq_self_eq_true _⟩
    obtain ⟨e, he⟩ := Option.isSome_iff_exists.mp hsome
    obtain ⟨i, -, hi⟩ := List.mem_map.mp (Disk.mem_of_lookup he)
    rw [Disk.entry?, nested, List.lookup_cons, hne, he, ← (Prod.mk.inj hi).2]
    rfl

theorem nested_sound (n : Nat) : (nested n).Sound := by
  have fits : ∀ name ∈ ["d", "a.ts"], Disk.FitName name := by decide
  refine .of_entries fun p hp name hname => ?_
  rcases List.mem_cons.mp hp with rfl | hp
  · obtain rfl : "a.ts" = name := by simpa using hname
    rw [List.dropLast_concat]
    exact ⟨fits _ (by simp), Disk.holdsDirectory_iff.mpr ⟨_, nested_directory (le_refl n)⟩⟩
  · obtain ⟨i, hi, rfl⟩ := List.mem_map.mp hp
    rw [List.replicate_succ'] at hname ⊢
    obtain rfl : "d" = name := by simpa using hname
    rw [List.dropLast_concat]
    exact ⟨fits _ (by simp), Disk.holdsDirectory_iff.mpr ⟨_, nested_directory (List.mem_range.mp hi).le⟩⟩

theorem nested_passable (n : Nat) : (nested n).Passable [] (List.replicate n "d") := by
  intro dir rest _ hnames
  have hlen := congrArg List.length hnames
  rw [List.length_replicate, List.length_append] at hlen
  have hdir : dir = List.replicate dir.length "d" :=
    List.eq_replicate_of_mem fun name hname => List.eq_of_mem_replicate (hnames ▸ List.mem_append_left rest hname)
  rw [List.nil_append, hdir]
  exact Disk.searchable_of_entry (nested_directory (by omega)) rfl

/-- The workspace in the innermost directory. -/
def innermost (n : Nat) : Workspace := { root := List.replicate n "d", disk := nested n }

theorem nested_fit (n : Nat) : ∀ name ∈ List.replicate n "d", Disk.FitName name := fun name hname => by
  obtain rfl := List.eq_of_mem_replicate hname
  constructor <;> decide

theorem size_nested (n : Nat) {names : Disk.Location} (h : names ≠ []) :
    (Disk.Location.path (List.replicate n "d" ++ names)).utf8ByteSize = 2 * n + names.path.utf8ByteSize := by
  have hd : "d".utf8ByteSize = 1 := by decide
  induction n with
  | zero => simp
  | succ n ih =>
    rw [List.replicate_succ, List.cons_append, Disk.Location.size_cons _ (by simp [h]), ih, hd]
    omega

theorem size_innermost {n : Nat} (hn : n ≠ 0) : (Disk.Location.path (List.replicate n "d")).utf8ByteSize = 2 * n := by
  have hd : "d".utf8ByteSize = 1 := by decide
  obtain ⟨m, rfl⟩ := Nat.exists_eq_succ_of_ne_zero hn
  rw [List.replicate_succ', size_nested m (by simp), Disk.Location.size_singleton, hd]
  omega

/-- The innermost directory can be listed as long as its path is not too long. -/
theorem canList_innermost_iff {n : Nat} (hn : n ≠ 0) :
    (nested n).canList (List.replicate n "d") ↔ 2 * n < Disk.pathLimit := by
  rw [(nested_sound n).canList_iff (nested_directory (le_refl n)), size_innermost hn, and_iff_left (nested_passable n),
    and_iff_right rfl]

/-- The file is found as long as its directory can be listed. -/
theorem scan_innermost {n : Nat} (hn : n ≠ 0) (hlist : 2 * n < Disk.pathLimit) :
    ⟨"a.ts", .typescript⟩ ∈ (innermost n).scan := by
  have hreaches : (innermost n).reaches ["a.ts"] := by
    rw [Workspace.reaches, Workspace.enclosing, List.all_cons, List.all_nil, Bool.and_true, List.append_nil]
    exact (canList_innermost_iff hn).mpr hlist
  have haccepts : (innermost n).accepts "a.ts" = some .typescript := by
    show ({} : Workspace).accepts "a.ts" = _
    decide
  exact Workspace.mem_scan_iff.mpr ⟨["a.ts"], _, by simp, by decide, nested_file n, hreaches, rfl, haccepts⟩

theorem seemsGone_innermost {n : Nat} (hn : n ≠ 0) (hlist : 2 * n < Disk.pathLimit) (hlong : Disk.pathLimit ≤ 2 * n + 5) :
    (innermost n).seemsGone "a.ts" := by
  have hname : ∀ name ∈ ["a.ts"], Disk.FitName name := fun name h => by
    rw [List.mem_singleton.mp h]
    constructor <;> decide
  have hjoin : Text.join '/' ["a.ts"] = "a.ts" := by decide
  have habsolute := Workspace.absolute_join (w := innermost n) (by simp) hname (nested_fit n)
  rw [hjoin] at habsolute
  have hfile : "a.ts".utf8ByteSize = 4 := by decide
  obtain ⟨names, -, hgone⟩ := Workspace.seemsGone_of_mem_scan_iff (nested_sound n) (scan_innermost hn hlist)
  refine hgone.mpr (.inl ?_)
  rw [habsolute, innermost, size_nested n (by simp), Disk.Location.size_singleton, hfile]
  exact hlong

/-- An index that has not run yet, on a store that refuses nothing. -/
def idle : Session := { gate := .refusing [] }

theorem idle_calm : idle.Calm [] := ⟨rfl, rfl⟩

/-- A file whose own path is too long, but whose directory can be listed, is skipped by the full index only. -/
theorem innermost_counted_apart {n : Nat} (hn : n ≠ 0) (hlist : 2 * n < Disk.pathLimit)
    (hlong : Disk.pathLimit ≤ 2 * n + 5) :
    ∃ stats stats' done done', Run.fullIndex (innermost n) idle = (.ok stats, done) ∧
      Run.indexFiles (innermost n) ((innermost n).scan.map (·.path)) idle = (.ok stats', done') ∧
      stats'.skipped < stats.skipped := by
  have hu : idle.store.tables = { idle.store.tables with files := [], nodes := [], edges := [] } := rfl
  obtain ⟨done, done', hrun, hrun', -⟩ :=
    rebuild_runs (innermost n) .epoch .epoch idle_calm idle_calm hu (nested_sound n)
  refine ⟨_, _, done, done', hrun, hrun', ?_⟩
  have hshows := shows_sources (innermost n) .epoch
  have hoff := firstPass_off (w := (innermost n).timed .epoch) (nested_sound n) hshows [] hu
  have hmoved := fullPass_moved (innermost n) .epoch .epoch [] idle.store.tables idle.store.tables
  have hstats := hmoved.stats_off (w := innermost n)
    (fullPass_coherent hshows idle.store.tables).readable hoff .epoch .epoch
  have hskipped := congrArg Stats.skipped hstats
  have hmissed : 0 < ((innermost n).scan.map (·.path)).countP (innermost n).seemsGone :=
    List.countP_pos_iff.mpr ⟨_, List.mem_map_of_mem (scan_innermost hn hlist), seemsGone_innermost hn hlist hlong⟩
  exact Nat.lt_of_lt_of_eq (Nat.lt_add_of_pos_right hmissed) hskipped

/-! ### Rebuilding -/

/-- Whatever a store held before, a full index leaves the same files, nodes and edges in it as an index of what
    the scan finds leaves in a new one, but for times and numbers. The counters are the same but for the scanned
    files whose paths lead to nothing, which are those whose absolute paths are too long and those in directories
    that can be listed and not searched: the full index skips them, the other takes them for gone, and fails if
    their nodes must not be changed. -/
theorem full_index_agrees_with_scan (w : Workspace) (c c' : Clock) (R : List String) (place : Place) (s s' : Session)
    (hs : s.Calm R) (hs' : s'.Calm R) (hnew : s'.store = .fresh place) (hd : w.disk.Sound) :
    let paths := w.scan.map (·.path)
    ∃ stats stats' done done', Run.fullIndex (w.timed c) s = (.ok stats, done) ∧
      Run.indexFiles (w.timed c') paths s' = (.ok stats', done') ∧
      stats'.plus { skipped := paths.countP w.seemsGone } =
        { stats.plus { failed := paths.countP fun path => w.seemsGone path && R.contains path } with
          duration := stats'.duration } ∧
      (∃ k j, done.store.tables.SameBut k j done'.store.tables) ∧
      ∀ f ∈ w.scan, ∃ names, f.path = Text.join '/' names ∧ (w.seemsGone f.path ↔
        Disk.pathLimit ≤ (w.absolute f.path).utf8ByteSize ∨ w.disk.searchable (w.root ++ names.dropLast) = false) := by
  intro paths
  have hu : s'.store.tables = { s'.store.tables with files := [], nodes := [], edges := [] } := by
    rw [hnew]
    rfl
  have hmoved := fullPass_moved w c c' R s.store.tables s'.store.tables
  have hoff : (Run.firstPass (w.timed c') R s'.store.tables paths).Off (paths.countP w.seemsGone)
      (paths.countP fun path => w.seemsGone path && R.contains path) 0 (Run.fullPass (w.timed c') R s'.store.tables) :=
    firstPass_off (w := w.timed c') hd (shows_sources w c') R hu
  have hread := (fullPass_coherent (R := R) (shows_sources w c') s'.store.tables).readable
  have hlinked := hmoved.linked (w := w) hread c c' (Standing.foldl_settle_edges ..).1 (Standing.foldl_settle_edges ..).1
  obtain ⟨done, done', hrun, hrun', hdone, hdone'⟩ := rebuild_runs w c c' hs hs' hu hd
  refine ⟨_, _, done, done', hrun, hrun', hmoved.stats_off hread hoff c c', ?_,
    fun f hf => Workspace.seemsGone_of_mem_scan_iff hd hf⟩
  rw [hdone, hdone', hoff.linked]
  exact ⟨_, _, hlinked.files, hlinked.nodes, hlinked.edges⟩

/-- A path of 4097 bytes below a directory of 4092. -/
theorem deep_file_counted_apart :
    (innermost 2046).disk.Sound ∧
    ∃ stats stats' done done', Run.fullIndex (innermost 2046) idle = (.ok stats, done) ∧
      Run.indexFiles (innermost 2046) ((innermost 2046).scan.map (·.path)) idle = (.ok stats', done') ∧
      stats'.skipped < stats.skipped :=
  ⟨nested_sound 2046, innermost_counted_apart (by decide) (by decide) (by decide)⟩

/-- An index of a file that is gone, on a store that has given numbers away and refuses a path. -/
def stale : Session :=
  { store := { place := .disk, tables := { files := [⟨"b.ts", "typescript", "", .ofNat 3, ""⟩], nextNode := 8 } }
    gate := .refusing ["b.ts"] }

/-- A disk with a file, and with another one in a directory that can be listed and not searched. -/
def shut : Disk :=
  ⟨[(["a.ts"], .file (.text "")), (["in"], .directory { search := false }), (["in", "a.ts"], .file (.text ""))]⟩

theorem shut_sound : shut.Sound := .of_entries (by decide)

/-- The file in the directory is found, and is taken for gone by a call with its path. -/
theorem stale_index_rebuilt :
    let w : Workspace := { disk := shut }
    ∃ stats stats' done done', Run.fullIndex w stale = (.ok stats, done) ∧
      Run.indexFiles w (w.scan.map (·.path)) { gate := .refusing ["b.ts"] } = (.ok stats', done') ∧
      stats'.skipped < stats.skipped ∧ ∃ k j, done.store.tables.SameBut k j done'.store.tables := by
  intro w
  obtain ⟨stats, stats', done, done', hrun, hrun', hstats, hsame, -⟩ :=
    full_index_agrees_with_scan w .epoch .epoch ["b.ts"] .memory stale { gate := .refusing ["b.ts"] } ⟨rfl, rfl⟩ ⟨rfl, rfl⟩
      rfl shut_sound
  have haccepts : w.accepts "in/a.ts" = some .typescript := by decide +kernel
  have hscan : ⟨"in/a.ts", .typescript⟩ ∈ w.scan :=
    Workspace.mem_scan_iff.mpr ⟨["in", "a.ts"], _, by simp, by decide, rfl, by decide +kernel, rfl, haccepts⟩
  have hgone : 0 < (w.scan.map (·.path)).countP w.seemsGone :=
    List.countP_pos_iff.mpr ⟨_, List.mem_map_of_mem hscan, by decide +kernel⟩
  have hskipped : stats'.skipped + (w.scan.map (·.path)).countP w.seemsGone = stats.skipped := congrArg Stats.skipped hstats
  exact ⟨stats, stats', done, done', hrun, hrun', by omega, hsame⟩

end Index
end SymbolGraph
