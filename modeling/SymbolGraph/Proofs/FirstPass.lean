import SymbolGraph.Proofs.FileStep

/-! The first pass of a run over its files. As long as the gate refuses nothing but changes of nodes, no
    file of the pass fails as a whole: the pass is the fold of the verdicts over the paths, and how the
    files are grouped makes no difference. -/

namespace SymbolGraph

/-- The record of a path. -/
def Tables.file? (t : Tables) (path : String) : Except StoreError (Option Store.FileRecord) :=
  Store.file? { tables := t } path

namespace Index

/-! ### What a verdict counts -/

/-- The counts with others added to them. The duration stays. -/
def Stats.plus (s a : Stats) : Stats where
  filesSeen := s.filesSeen + a.filesSeen
  indexed := s.indexed + a.indexed
  unchanged := s.unchanged + a.unchanged
  skipped := s.skipped + a.skipped
  failed := s.failed + a.failed
  fallback := s.fallback + a.fallback
  nodesCreated := s.nodesCreated + a.nodesCreated
  importEdges := s.importEdges + a.importEdges
  callEdges := s.callEdges + a.callEdges
  unresolvedImports := s.unresolvedImports + a.unresolvedImports
  unresolvedCalls := s.unresolvedCalls + a.unresolvedCalls
  duration := s.duration

theorem Stats.plus_right_comm (s a b : Stats) : (s.plus a).plus b = (s.plus b).plus a := by
  simp [plus, Nat.add_right_comm]

/-- How many files read by patterns a file with the method makes. -/
def fallbacks (m : Method) : Nat := if m = .patterns then 1 else 0

namespace Verdict

/-- What the verdict adds to the counts. -/
def gain (w : Workspace) : Verdict → Stats
  | skipped => { skipped := 1 }
  | unknown => { failed := 1 }
  | kept => { unchanged := 1 }
  | refused e => { failed := 1, fallback := fallbacks e.method }
  | stored language text =>
    let e := w.extract language text
    { indexed := 1, nodesCreated := e.found.symbols.length, fallback := fallbacks e.method }
  | erased => {}
  | stuck => { failed := 1 }

/-- The files that the verdict stores, where the next node gets the number. -/
def made (w : Workspace) (path : String) (next : NodeId) : Verdict → List Pending
  | stored language text =>
    let e := w.extract language text
    [⟨path, language.id, e.found, numberedSpans next e.found.symbols⟩]
  | _ => []

end Verdict

theorem numberedSpans_length (id : NodeId) (symbols : List Symbol) :
    (numberedSpans id symbols).length = symbols.length := by
  induction symbols generalizing id with
  | nil => rfl
  | cons symbol rest ih => rw [numberedSpans, List.length_cons, List.length_cons, ih]

theorem noteMethod_eq (m : Method) (t : Tally) :
    Run.noteMethod m t = { t with stats := t.stats.plus { fallback := fallbacks m } } := by
  unfold Run.noteMethod fallbacks
  split <;> rfl

/-- A verdict adds its gain to the counts and its file to the stored ones. -/
theorem Verdict.tally_eq (w : Workspace) (path : String) (next : NodeId) (v : Verdict) (t : Tally) :
    v.tally w path next t = { stats := t.stats.plus (v.gain w), pending := t.pending ++ v.made w path next } := by
  cases v with
  | stored language text =>
    simp only [tally, gain, made, noteMethod_eq, Run.store, Stats.plus, numberedSpans_length, Nat.add_zero]
  | refused e => simp [tally, gain, made, noteMethod_eq, Run.fail, Stats.plus]
  | skipped => simp [tally, gain, made, Run.skip, Stats.plus]
  | unknown => simp [tally, gain, made, Run.fail, Stats.plus]
  | kept => simp [tally, gain, made, Run.keep, Stats.plus]
  | erased => simp [tally, gain, made, Stats.plus]
  | stuck => simp [tally, gain, made, Run.fail, Stats.plus]

theorem Verdict.tables_edges (w : Workspace) (path : String) (v : Verdict) (t : Tables) :
    (v.tables w path t).edges = t.edges ∧ (v.tables w path t).nextEdge = t.nextEdge := by
  cases v <;> exact ⟨rfl, rfl⟩

/-- How far a pass has come. -/
structure Standing where
  tables : Tables
  tally : Tally := {}
  /-- What was told, oldest first. -/
  told : List Event := []

namespace Standing

/-- After the path came to the verdict. -/
def after (x : Standing) (w : Workspace) (path : String) (v : Verdict) : Standing where
  tables := v.tables w path x.tables
  tally := v.tally w path x.tables.nextNode x.tally
  told := x.told ++ v.events path x.tables

/-- With the counts changed. -/
def counted (x : Standing) (f : Tally → Tally) : Standing := { x with tally := f x.tally }

/-- After an existing path was judged. -/
def settle (w : Workspace) (R : List String) (x : Standing) (path : String) : Standing :=
  x.after w path (w.judge R (x.tables.file? path) path)

/-- After a given path was brought up to date. -/
def update (w : Workspace) (R : List String) (x : Standing) (given : String) : Standing :=
  match Path.relative? w.rootPath given with
  | none => x.counted fun t => Run.skip (Run.see t)
  | some path => (x.counted Run.see).after w path (w.judgeUpdate R (x.tables.file? path) path)

section
variable {w : Workspace} {R : List String} {x : Standing} {given path : String} {v : Verdict} {f : Tally → Tally}

@[simp] theorem after_tables : (x.after w path v).tables = v.tables w path x.tables := rfl

@[simp] theorem after_tally : (x.after w path v).tally = v.tally w path x.tables.nextNode x.tally := rfl

@[simp] theorem counted_tables : (x.counted f).tables = x.tables := rfl

@[simp] theorem counted_tally : (x.counted f).tally = f x.tally := rfl

theorem update_outside (h : Path.relative? w.rootPath given = none) :
    x.update w R given = x.counted fun t => Run.skip (Run.see t) := by
  rw [update, h]

theorem update_inside (h : Path.relative? w.rootPath given = some path) :
    x.update w R given = (x.counted Run.see).after w path (w.judgeUpdate R (x.tables.file? path) path) := by
  rw [update, h]

theorem tables_inside (h : Path.relative? w.rootPath given = some path) :
    (x.update w R given).tables = (w.judgeUpdate R (x.tables.file? path) path).tables w path x.tables := by
  rw [update_inside h, after_tables, counted_tables]

end

theorem foldl_settle_edges (w : Workspace) (R : List String) (paths : List String) (x : Standing) :
    (paths.foldl (settle w R) x).tables.edges = x.tables.edges ∧
      (paths.foldl (settle w R) x).tables.nextEdge = x.tables.nextEdge := by
  induction paths generalizing x with
  | nil => exact ⟨rfl, rfl⟩
  | cons path rest ih =>
    obtain ⟨hedges, hnext⟩ := ih (x.settle w R path)
    obtain ⟨hedges', hnext'⟩ := Verdict.tables_edges w path (w.judge R (x.tables.file? path) path) x.tables
    exact ⟨hedges.trans hedges', hnext.trans hnext'⟩

end Standing

namespace Run
variable {s₀ s : Session} {R : List String} {w : Workspace}

/-! ### All files -/

theorem processAll_became (h : s.Calm R) (files : List Workspace.Found) {x : Standing}
    (hx : s₀.Became x.tables x.told s) :
    ∃ s', processAll w files x.tally s = (.ok ((files.map (·.path)).foldl (.settle w R) x).tally, s') ∧
      s₀.Became ((files.map (·.path)).foldl (.settle w R) x).tables
        ((files.map (·.path)).foldl (.settle w R) x).told s' := by
  induction files generalizing s x with
  | nil => exact ⟨s, rfl, hx⟩
  | cons f rest ih =>
    obtain ⟨s₁, h₁, b₁⟩ := processFile_became h w f.path x.tally
    obtain ⟨s₂, h₂, b₂⟩ := Action.report_became (.fileDone f.path) s₁
    rw [hx.tables] at h₁ b₁
    rw [b₁.tables] at b₂
    have hfile : s.store.file? f.path = x.tables.file? f.path := by rw [← hx.tables]; rfl
    rw [hfile] at h₁ b₁ b₂
    obtain ⟨s', h', b'⟩ := ih (x := x.settle w R f.path) ((b₁.quietly b₂).calm h) (hx.trans (b₁.quietly b₂))
    refine ⟨s', ?_, b'⟩
    rw [processAll, Fallible.bind_ok h₁, Fallible.bind_ok h₂]
    exact h'

theorem updateAll_became (h : s.Calm R) (paths : List String) {x : Standing}
    (hx : s₀.Became x.tables x.told s) :
    ∃ s', updateAll w paths x.tally s = (.ok (paths.foldl (.update w R) x).tally, s') ∧
      s₀.Became (paths.foldl (.update w R) x).tables (paths.foldl (.update w R) x).told s' := by
  induction paths generalizing s x with
  | nil => exact ⟨s, rfl, hx⟩
  | cons given rest ih =>
    rw [updateAll, List.foldl_cons]
    cases hrel : Path.relative? w.rootPath given with
    | none =>
      rw [Fallible.bind_ok (updateFile_outside w x.tally s hrel), Standing.update_outside hrel]
      exact ih (x := x.counted fun t => skip (see t)) h hx
    | some path =>
      obtain ⟨s₁, h₁, b₁⟩ := updateFile_became h w x.tally hrel
      have hfile : s.store.file? path = x.tables.file? path := by rw [← hx.tables]; rfl
      rw [hx.tables, hfile] at h₁ b₁
      rw [Fallible.bind_ok h₁, Standing.update_inside hrel]
      generalize w.judgeUpdate R (x.tables.file? path) path = v at b₁
      exact ih (x := (x.counted see).after w path v) (b₁.calm h) (hx.trans b₁)

/-! ### Groups of files -/

theorem flatten_batches {α : Type} (size : Nat) (l : List α) : (batches size l).flatten = l := by
  fun_induction batches size l with
  | case1 => rfl
  | case2 a rest ih => simp [ih]

theorem processAll_append (files more : List Workspace.Found) (t : Tally) (s : Session) :
    processAll w (files ++ more) t s = (processAll w files t >>= processAll w more) s := by
  induction files generalizing t s with
  | nil => rfl
  | cons f rest ih =>
    simp only [List.cons_append, processAll, Fallible.bind_apply]
    rcases processFile w f.path t s with ⟨_ | t₁, s₁⟩
    · rfl
    · dsimp only
      rcases Action.report (.fileDone f.path) s₁ with ⟨_ | _, s₂⟩
      · rfl
      · simp only [ih, Fallible.bind_apply]

/-- Storing the files in groups is storing them all. -/
theorem processBatches_eq (groups : List (List Workspace.Found)) (t : Tally) (s : Session) :
    processBatches w groups t s = processAll w groups.flatten t s := by
  induction groups generalizing t s with
  | nil => rfl
  | cons batch rest ih =>
    rw [processBatches, List.flatten_cons, processAll_append, Fallible.bind_apply, Fallible.bind_apply]
    rcases processAll w batch t s with ⟨_ | t₁, s₁⟩
    · rfl
    · exact ih t₁ s₁

end Run
end Index
end SymbolGraph
