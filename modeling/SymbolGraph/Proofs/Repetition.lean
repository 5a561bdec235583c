import SymbolGraph.Proofs.Rebuild
import SymbolGraph.Proofs.Snapshot

/-! Bringing files up to date once more. A path is at rest if nothing would be done about it: nothing is
    stored, and nothing that is known of it is removed. A step of a pass leaves its own path at rest and
    does not disturb the others, so at the end of a pass all of its paths are at rest, and a second pass
    over them changes nothing. -/

namespace SymbolGraph

open Store

namespace Index
variable {w : Workspace} {R : List String} {t : Tables} {path other : String}

/-! ### Verdicts that change nothing -/

/-- The verdict changes nothing if something of its path is known, or if nothing is. -/
def Verdict.Idle (known : Bool) : Verdict → Prop
  | stored _ _ => False
  | erased => known = false
  | _ => True

namespace Verdict.Idle
variable {v : Verdict}

theorem tables (h : v.Idle (t.knows path)) : v.tables w path t = t := by
  cases v with
  | stored language text => exact h.elim
  | erased => exact Tables.withoutFile_unknown h
  | skipped => rfl
  | unknown => rfl
  | kept => rfl
  | refused e => rfl
  | stuck => rfl

theorem events (h : v.Idle (t.knows path)) : v.events path t = [] := by
  cases v with
  | stored language text => exact h.elim
  | erased => simp [Verdict.events, show t.knows path = false from h]
  | skipped => rfl
  | unknown => rfl
  | kept => rfl
  | refused e => rfl
  | stuck => rfl

theorem made {known : Bool} (h : v.Idle known) (next : NodeId) : v.made w path next = [] := by
  cases v with
  | stored language text => exact h.elim
  | _ => rfl

theorem gain {known : Bool} (h : v.Idle known) : (v.gain w).indexed = 0 ∧ (v.gain w).nodesCreated = 0 := by
  cases v with
  | stored language text => exact h.elim
  | _ => exact ⟨rfl, rfl⟩

end Verdict.Idle

/-- Bringing the path up to date would change nothing. -/
def AtRest (w : Workspace) (R : List String) (t : Tables) (path : String) : Prop :=
  (w.ruleUpdate R (hashAt t path) path).Idle (t.knows path)

theorem AtRest.of_same {u : Tables} (h : AtRest w R t path) (hhash : hashAt u path = hashAt t path)
    (hnodes : u.nodesAt path = t.nodesAt path) : AtRest w R u path := by
  rw [AtRest, knows_eq, hhash, hnodes, ← knows_eq]
  exact h

theorem AtRest.of_rows {u : Tables} (h : AtRest w R t path) (hf : u.files = t.files) (hn : u.nodes = t.nodes) :
    AtRest w R u path :=
  h.of_same (by rw [hashAt, hashAt, hf]) (by rw [Tables.nodesAt, Tables.nodesAt, hn])

/-- Whether a path is removed does not depend on what is known of it. -/
theorem ruleUpdate_erased {known : Option String} (h : w.ruleUpdate R known path = .erased) (known' : Option String) :
    w.ruleUpdate R known' path = .erased := by
  unfold Workspace.ruleUpdate at h ⊢
  split at h
  · -- What exists is not removed.
    unfold Workspace.rule at h
    split at h
    · split at h
      · cases h
      · split at h <;> cases h
    · cases h
  · next hgone =>
    rw [if_neg hgone]
    exact h

theorem atRest_of_no_source (h : w.source? path = none) (hunknown : t.knows path = false) : AtRest w R t path := by
  rw [AtRest, hunknown, Workspace.ruleUpdate, rule_of_no_source h]
  split
  · trivial
  · split
    · trivial
    · rfl

/-- A path comes to rest when it is brought up to date. -/
theorem atRest_after (w : Workspace) (R : List String) (t : Tables) (path : String) :
    AtRest w R ((w.ruleUpdate R (hashAt t path) path).tables w path t) path := by
  cases hv : w.ruleUpdate R (hashAt t path) path with
  | stored language text =>
    -- The digest is now that of the text, so the file is kept.
    obtain ⟨-, -, hkept⟩ := ruleUpdate_stored hv
    let row : FileRow := .ofRecord ⟨path, language.id, (w.extract language text).hash, text.utf8ByteSize, w.now⟩
    have hhash : hashAt (Verdict.tables w path (.stored language text) t) path =
        some (Text.contentHash (Text.dropMark text)) := by
      rw [← extract_hash w language]
      exact hashAt_withFile t row (w.extract language text).found.symbols
    rw [AtRest, hhash, hkept]
    trivial
  | erased =>
    rw [AtRest, ruleUpdate_erased hv]
    exact t.knows_withoutFile path
  | _ =>
    show AtRest w R t path
    rw [AtRest, hv]
    trivial

/-- A path stays at rest when a path is brought up to date. -/
theorem AtRest.after (h : AtRest w R t path) (other : String) :
    AtRest w R ((w.ruleUpdate R (hashAt t other) other).tables w other t) path := by
  by_cases hp : path = other
  · subst hp
    rw [Verdict.Idle.tables h]
    exact h
  · obtain ⟨hhash, hnodes⟩ := Verdict.tables_of_ne (w := w) hp (w.ruleUpdate R (hashAt t other) other) t
    exact h.of_same hhash hnodes

/-! ### Passes -/

theorem foldl_update_atRest {had : String → String → Prop} (hw : w.Shows had) (paths : List String) {x : Standing}
    (hx : x.tables.Coherent w had)
    (h : (∃ given ∈ paths, Path.relative? w.rootPath given = some path) ∨ AtRest w R x.tables path) :
    AtRest w R (paths.foldl (.update w R) x).tables path := by
  induction paths generalizing x with
  | nil =>
    rcases h with ⟨given, hgiven, -⟩ | h
    · cases hgiven
    · exact h
  | cons given rest ih =>
    have htables : ∀ other, Path.relative? w.rootPath given = some other →
        (x.update w R given).tables = (w.ruleUpdate R (hashAt x.tables other) other).tables w other x.tables := by
      intro other hrel
      rw [Standing.tables_inside hrel, judgeUpdate_eq_rule hx.readable]
    -- The path comes to rest when it is given itself, and no other path disturbs it.
    refine ih (update_coherent hx hw given) ?_
    rcases h with ⟨given', hgiven, hrel⟩ | h
    · rcases List.mem_cons.mp hgiven with rfl | hgiven
      · right
        rw [htables path hrel]
        exact atRest_after w R x.tables path
      · exact .inl ⟨given', hgiven, hrel⟩
    · right
      cases hrel : Path.relative? w.rootPath given with
      | none =>
        rw [Standing.update_outside hrel]
        exact h
      | some other =>
        rw [htables other hrel]
        exact h.after other

/-- A pass that has come across nothing to be done. -/
structure Standing.Still (t : Tables) (x : Standing) : Prop where
  tables : x.tables = t
  told : x.told = []
  pending : x.tally.pending = []
  indexed : x.tally.stats.indexed = 0
  nodes : x.tally.stats.nodesCreated = 0
  imports : x.tally.stats.importEdges = 0
  calls : x.tally.stats.callEdges = 0

theorem Standing.Still.after {x : Standing} {v : Verdict} (h : x.Still t) (hv : v.Idle (t.knows path)) :
    (x.after w path v).Still t := by
  obtain ⟨rfl, htold, hpending, hindexed, hnodes, himports, hcalls⟩ := h
  obtain ⟨hgain, hgain'⟩ := hv.gain (w := w)
  have hedges : (v.gain w).importEdges = 0 ∧ (v.gain w).callEdges = 0 := by cases v <;> exact ⟨rfl, rfl⟩
  refine ⟨hv.tables, ?_, ?_, ?_, ?_, ?_, ?_⟩
  · rw [Standing.after, htold, hv.events, List.append_nil]
  · rw [Standing.after_tally, Verdict.tally_eq, hpending, hv.made, List.append_nil]
  · rw [Standing.after_tally, Verdict.tally_eq, Stats.plus, hindexed, hgain]
  · rw [Standing.after_tally, Verdict.tally_eq, Stats.plus, hnodes, hgain']
  · rw [Standing.after_tally, Verdict.tally_eq, Stats.plus, himports, hedges.1]
  · rw [Standing.after_tally, Verdict.tally_eq, Stats.plus, hcalls, hedges.2]

theorem firstPass_still (hr : t.Readable) (paths : List String)
    (h : ∀ given ∈ paths, ∀ path, Path.relative? w.rootPath given = some path → AtRest w R t path) :
    (Run.firstPass w R t paths).Still t := by
  refine List.foldlRecOn paths (Standing.update w R) (motive := Standing.Still t) ⟨rfl, rfl, rfl, rfl, rfl, rfl, rfl⟩ ?_
  intro x hx given hgiven
  cases hrel : Path.relative? w.rootPath given with
  | none =>
    rw [Standing.update_outside hrel]
    exact ⟨hx.tables, hx.told, hx.pending, hx.indexed, hx.nodes, hx.imports, hx.calls⟩
  | some path =>
    have hseen : (x.counted Run.see).Still t :=
      ⟨hx.tables, hx.told, hx.pending, hx.indexed, hx.nodes, hx.imports, hx.calls⟩
    rw [Standing.update_inside hrel, hx.tables, judgeUpdate_eq_rule hr]
    exact hseen.after (h given hgiven path hrel)

theorem AtRest.settle {x : Standing} (hx : x.tables.Readable) (h : AtRest w R x.tables path) (other : String) :
    AtRest w R (x.settle w R other).tables path := by
  rw [Standing.settle, judge_eq_rule hx, Standing.after_tables]
  rcases rule_cases w R (hashAt x.tables other) other with hrule | ⟨-, hskip⟩
  · rw [hrule]
    exact h.after other
  · rw [hskip]
    exact h

/-- At the end of a full pass its paths are at rest: those that hold a text are stored, and of the others nothing
    is known. -/
theorem foldl_settle_atRest {had : String → String → Prop} (hw : w.Shows had)
    (hsource : ∀ path text, had path text → w.source? path = some text) (paths : List String) {x : Standing}
    (hx : x.tables.Coherent w had) (h : path ∈ paths ∨ AtRest w R x.tables path) :
    AtRest w R (paths.foldl (.settle w R) x).tables path := by
  induction paths generalizing x with
  | nil =>
    rcases h with h | h
    · cases h
    · exact h
  | cons other rest ih =>
    have hnext := settle_coherent (R := R) hx hw other
    refine ih hnext ?_
    rcases h with h | h
    · rcases List.mem_cons.mp h with rfl | h
      · right
        rcases rule_cases w R (hashAt x.tables path) path with hrule | ⟨hnone, -⟩
        · rw [Standing.settle, judge_eq_rule hx.readable, hrule]
          exact atRest_after w R x.tables path
        · refine atRest_of_no_source hnone (hnext.unknown fun text ht => ?_)
          rw [hsource path text ht] at hnone
          cases hnone
      · exact .inl h
    · exact .inr (h.settle hx.readable other)

/-! ### Calls -/

/-- The call has left the store as it was, has told nothing, and has counted nothing that it created. -/
structure Session.Unmoved (s : Session) (stats : Stats) (s' : Session) : Prop where
  store : s'.store = s.store
  events : s'.events = s.events
  indexed : stats.indexed = 0
  nodes : stats.nodesCreated = 0
  imports : stats.importEdges = 0
  calls : stats.callEdges = 0

/-- A call with paths at rest changes nothing. -/
theorem indexFiles_unmoved {s : Session} (hs : s.Calm R) (hr : s.store.tables.Readable) (paths : List String)
    (h : ∀ given ∈ paths, ∀ path, Path.relative? w.rootPath given = some path → AtRest w R s.store.tables path) :
    ∃ stats s', Run.indexFiles w paths s = (.ok stats, s') ∧ s.Unmoved stats s' := by
  have hstill := firstPass_still hr paths h
  generalize hx : Run.firstPass w R s.store.tables paths = x at hstill
  obtain ⟨s', hrun, hb⟩ := Run.indexFiles_became (w := w) hs paths (by rw [hx, hstill.tables]; exact hr)
  rw [hx] at hrun hb
  refine ⟨_, s', hrun, ?_, ?_, hstill.indexed, hstill.nodes, ?_, ?_⟩
  · have hlinked : x.linked w = s.store.tables := by
      rw [Standing.linked, Standing.links, hstill.pending, hstill.tables]
      rfl
    rw [hb.store, hlinked]
  · rw [hb.events, hstill.told, List.append_nil]
  · rw [Standing.stats, hstill.pending]
    exact hstill.imports
  · rw [Standing.stats, hstill.pending]
    exact hstill.calls

/-! ### Runs -/

/-- At the end of a call all of its paths are at rest. -/
theorem indexFiles_atRest {s : Session} {had : String → String → Prop} (hw : w.Shows had) (hs : s.Calm R)
    (ht : s.store.tables.Coherent w had) (paths : List String) :
    ∃ stats done, Run.indexFiles w paths s = (.ok stats, done) ∧ done.Calm R ∧ done.store.tables.Coherent w had ∧
      ∀ given ∈ paths, ∀ path, Path.relative? w.rootPath given = some path → AtRest w R done.store.tables path := by
  obtain ⟨stats, done, hrun, hcalm, hdone, hfiles, hnodes⟩ := indexFiles_coherent hw hs ht paths
  refine ⟨stats, done, hrun, hcalm, hdone, fun given hgiven path hrel => ?_⟩
  exact (foldl_update_atRest hw paths ht (.inl ⟨given, hgiven, hrel⟩)).of_rows hfiles hnodes

/-- At the end of a full index all paths of the scan are at rest. -/
theorem fullIndex_atRest {s : Session} {c : Clock} (hs : s.Calm R) :
    ∃ stats done, Run.fullIndex (w.timed c) s = (.ok stats, done) ∧ done.Calm R ∧ done.store.tables.Readable ∧
      ∀ path ∈ w.scan.map (·.path), AtRest (w.timed c) R done.store.tables path := by
  obtain ⟨stats, done, hrun, hcalm, hdone, hfiles, hnodes⟩ := fullIndex_coherent (shows_sources w c) hs
  refine ⟨stats, done, hrun, hcalm, hdone.readable, fun path hpath => ?_⟩
  exact (foldl_settle_atRest (shows_sources w c) (fun _ _ h => h) _ (.of_no_files _ rfl rfl) (.inl hpath)).of_rows
    hfiles hnodes

/-- From any store that a run has left, a second call with the same paths leaves files, nodes and edges as the first
    left them, with all numbers and times, tells nothing, and counts nothing that it created. So does a call with
    paths that the scan finds after a full index. -/
theorem reindexing_changes_nothing (place : Place) (w : Workspace) (ops : List Operation) (c c' : Clock) :
    let x := (World.start place).run w ops
    let v := x.workspace w
    (∀ paths, ∃ stats stats' done done', Run.indexFiles (v.timed c) paths x.guarded = (.ok stats, done) ∧
      Run.indexFiles (v.timed c') paths done = (.ok stats', done') ∧ done.Unmoved stats' done') ∧
    (x.disk.Sound → ∀ paths ⊆ v.scan.map (·.path), ∃ stats stats' done done',
      Run.fullIndex (v.timed c) x.guarded = (.ok stats, done) ∧
      Run.indexFiles (v.timed c') paths done = (.ok stats', done') ∧ done.Unmoved stats' done') := by
  intro x v
  obtain ⟨hidle, hstore⟩ := (World.start_coherent (w := w) place _).run ops
  have hshows : (v.timed c).Shows ((World.start place).Had w ops) :=
    ⟨fun path text hs => ⟨ops, List.prefix_refl ops, hs⟩, c.readable⟩
  have hstart : x.guarded.store.tables.Coherent (v.timed c) ((World.start place).Had w ops) :=
    hstore.of_workspace rfl rfl
  have hcalm : x.guarded.Calm x.refused := ⟨rfl, hidle⟩
  refine ⟨fun paths => ?_, fun hd paths hpaths => ?_⟩
  · obtain ⟨stats, done, hrun, hdone, ht, hrest⟩ := indexFiles_atRest hshows hcalm hstart paths
    obtain ⟨stats', done', hrun', hunmoved⟩ := indexFiles_unmoved (w := v.timed c') hdone ht.readable paths hrest
    exact ⟨stats, stats', done, done', hrun, hrun', hunmoved⟩
  · obtain ⟨stats, done, hrun, hdone, hr, hrest⟩ := fullIndex_atRest (w := v) (c := c) hcalm
    obtain ⟨stats', done', hrun', hunmoved⟩ := indexFiles_unmoved (w := v.timed c') hdone hr paths
      fun given hgiven path hrel => by
        -- A scanned path is given as it is stored.
        have hself := scanned_paths (w := v) hd given (hpaths hgiven)
        cases hself.symm.trans hrel
        exact hrest given (hpaths hgiven)
    exact ⟨stats, stats', done, done', hrun, hrun', hunmoved⟩

/-- The only file of a workspace, given twice after a full index on a store that refuses another one. -/
theorem scanned_file_given_twice :
    let x := (World.start .disk).run (innermost 1) [.edit (nested 1), .refuse "b.ts"]
    let v := x.workspace (innermost 1)
    ["a.ts", "a.ts"] ⊆ v.scan.map (·.path) ∧
    ∃ stats stats' done done', Run.fullIndex (v.timed .epoch) x.guarded = (.ok stats, done) ∧
      Run.indexFiles (v.timed .epoch) ["a.ts", "a.ts"] done = (.ok stats', done') ∧ done.Unmoved stats' done' := by
  intro x v
  have hscan : "a.ts" ∈ v.scan.map (·.path) :=
    List.mem_map_of_mem (f := Workspace.Found.path) (scan_innermost (n := 1) (by decide) (by decide))
  have hpaths : ["a.ts", "a.ts"] ⊆ v.scan.map (·.path) := by simp [hscan]
  exact ⟨hpaths, (reindexing_changes_nothing .disk (innermost 1) [.edit (nested 1), .refuse "b.ts"] .epoch .epoch).2
    (nested_sound 1) _ hpaths⟩

end Index
end SymbolGraph
