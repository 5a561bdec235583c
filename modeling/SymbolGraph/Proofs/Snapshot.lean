import Mathlib.Algebra.Order.Group.Multiset
import SymbolGraph.Proofs.Locations
import SymbolGraph.Proofs.Renumbering

/-! Passes apart from the order of their paths. A snapshot is what a pass has come to without times, without
    the numbers of nodes and without the order in which files were stored. A step of a pass looks at one path
    and changes nothing but what is held of that path, so any two steps can be exchanged. -/

namespace SymbolGraph

open Store

namespace Store

theorem map_unnumbered_numbered (path : String) (id : NodeId) (symbols : List Symbol) :
    (NodeRow.numbered path id symbols).map NodeRow.unnumbered = symbols.map (NodeRow.ofSymbol 0 path) := by
  induction symbols generalizing id with
  | nil => rfl
  | cons symbol rest ih =>
    rw [NodeRow.numbered, List.map_cons, List.map_cons, ih]
    rfl

end Store

/-- The row and the nodes of a path, without times and numbers. -/
structure Holding where
  row? : Option FileRow := none
  nodes : List NodeRow := []

namespace Tables
variable {t : Tables} {path other : String}

/-- What is held of a path. -/
def holding (t : Tables) (path : String) : Holding where
  row? := (t.files.find? (·.path == path)).map FileRow.timeless
  nodes := (t.nodesAt path).map NodeRow.unnumbered

theorem find?_withoutFile (t : Tables) (path other : String) :
    (t.withoutFile other).files.find? (·.path == path) =
      if path = other then none else t.files.find? (·.path == path) := by
  rw [withoutFile, List.find?_filter]
  split
  · next h =>
    subst h
    rw [List.find?_eq_none]
    intro row _
    by_cases hp : row.path = path <;> simp [hp]
  · next h =>
    refine congrArg (t.files.find? ·) (funext fun row => ?_)
    by_cases hp : row.path = path <;> simp [hp, h]

theorem holding_withoutFile (t : Tables) (path other : String) :
    (t.withoutFile other).holding path = if path = other then {} else t.holding path := by
  unfold holding
  rw [find?_withoutFile]
  split
  · next h =>
    subst h
    rw [nodesAt_withoutFile_self]
    rfl
  · next h => rw [t.nodesAt_withoutFile_of_ne h]

theorem holding_withFile (t : Tables) (row : FileRow) (symbols : List Symbol) (path : String) :
    (t.withFile row symbols).holding path =
      if path = row.path then ⟨some row.timeless, symbols.map (NodeRow.ofSymbol 0 row.path)⟩ else t.holding path := by
  unfold holding
  have hfiles : (t.withFile row symbols).files = putFile row t.files := rfl
  rw [hfiles, find?_putFile]
  by_cases h : path = row.path
  · subst h
    rw [if_pos rfl, if_pos rfl, nodesAt_withFile_self, map_unnumbered_numbered]
    rfl
  · rw [if_neg h, if_neg (Ne.symm h), t.nodesAt_withFile_of_ne symbols h]

end Tables

namespace Index

/-- What becomes of a path that may be gone and whose record has the digest. -/
def Workspace.ruleUpdate (w : Workspace) (R : List String) (known : Option String) (path : String) : Verdict :=
  if w.disk.exists (w.absolute path) then w.rule R known path
  else if path ∈ R then .stuck
  else .erased

theorem judgeUpdate_eq_rule {t : Tables} (h : t.Readable) (w : Workspace) (R : List String) (path : String) :
    w.judgeUpdate R (t.file? path) path = w.ruleUpdate R (hashAt t path) path := by
  rw [Workspace.judgeUpdate, Workspace.ruleUpdate, judge_eq_rule h]

theorem rule_of_no_source {w : Workspace} {path : String} (h : w.source? path = none) (R : List String)
    (known : Option String) : w.rule R known path = .skipped := by
  unfold Workspace.rule
  rw [h]
  cases w.accepts path <;> rfl

/-- Whether a path may be gone makes a difference only where nothing is read. -/
theorem rule_cases (w : Workspace) (R : List String) (known : Option String) (path : String) :
    w.rule R known path = w.ruleUpdate R known path ∨ w.source? path = none ∧ w.rule R known path = .skipped := by
  cases hs : w.source? path with
  | none => exact .inr ⟨rfl, rule_of_no_source hs R known⟩
  | some text => exact .inl (if_pos (Workspace.exists_of_source hs)).symm

theorem hashAt_eq (t : Tables) (path : String) : hashAt t path = (t.holding path).row?.map (·.hash) := by
  rw [hashAt, Tables.holding]
  cases t.files.find? (·.path == path) <;> rfl

theorem hashAt_withFile (t : Tables) (row : FileRow) (symbols : List Symbol) :
    hashAt (t.withFile row symbols) row.path = some row.hash := by
  rw [hashAt_eq, Tables.holding_withFile, if_pos rfl]
  rfl

/-- What is held of a path after its verdict. -/
def Verdict.leaves (w : Workspace) (path : String) : Verdict → Holding → Holding
  | stored language text, _ =>
    let e := w.extract language text
    ⟨some ⟨path, language.id, e.hash, .ofNat text.utf8ByteSize, ""⟩, e.found.symbols.map (NodeRow.ofSymbol 0 path)⟩
  | erased, _ => {}
  | _, h => h

variable {w : Workspace} {R : List String} {path : String}

/-- A verdict changes what is held of its path only. -/
theorem Verdict.holding_tables (c : Clock) (v : Verdict) (t : Tables) :
    (v.tables (w.timed c) path t).holding = Function.update t.holding path (v.leaves w path (t.holding path)) := by
  have hsame : t.holding = Function.update t.holding path (t.holding path) := (Function.update_eq_self path _).symm
  cases v with
  | stored language text =>
    funext other
    rw [Function.update_apply]
    exact (Tables.holding_withFile ..).trans (by rw [timeless_ofRecord]; rfl)
  | erased =>
    funext other
    rw [Function.update_apply]
    exact Tables.holding_withoutFile ..
  | skipped => exact hsame
  | unknown => exact hsame
  | kept => exact hsame
  | refused e => exact hsame
  | stuck => exact hsame

/-! ### Snapshots -/

/-- What a stored file says: its path, its language and what was found in it. -/
def Pending.gist (p : Pending) : String × String × Findings := (p.path, p.language, p.found)

/-- What a pass has come to, apart from times, numbers and order. -/
@[ext] structure Snapshot where
  holding : String → Holding
  stats : Stats
  pending : Multiset (String × String × Findings)

namespace Snapshot

/-- After a path was seen and came to the verdict. -/
def after (x : Snapshot) (w : Workspace) (path : String) (v : Verdict) : Snapshot where
  holding := Function.update x.holding path (v.leaves w path (x.holding path))
  stats := (x.stats.plus { filesSeen := 1 }).plus (v.gain w)
  pending := x.pending + (v.made w path 0).map Pending.gist

/-- After a path was brought up to date. -/
def settle (w : Workspace) (R : List String) (x : Snapshot) (path : String) : Snapshot :=
  x.after w path (w.ruleUpdate R ((x.holding path).row?.map (·.hash)) path)

/-- After a path outside of the workspace was given. -/
def miss (x : Snapshot) : Snapshot := { x with stats := x.stats.plus { filesSeen := 1, skipped := 1 } }

/-- After a given path was brought up to date. -/
def step (w : Workspace) (R : List String) (x : Snapshot) (given : String) : Snapshot :=
  match Path.relative? w.rootPath given with
  | none => x.miss
  | some path => x.settle w R path

/-- Verdicts on different paths can be exchanged. -/
theorem after_comm {p q : String} (h : p ≠ q) (x : Snapshot) (v u : Verdict) :
    (x.after w p v).after w q u = (x.after w q u).after w p v := by
  have hq : (x.after w p v).holding q = x.holding q := Function.update_of_ne h.symm _ _
  have hp : (x.after w q u).holding p = x.holding p := Function.update_of_ne h _ _
  ext1
  · -- Each verdict sees what was held of its own path before either.
    show Function.update (x.after w p v).holding q _ = Function.update (x.after w q u).holding p _
    rw [hp, hq]
    exact Function.update_comm h _ _ _
  · simp only [after, Stats.plus_right_comm]
  · exact add_right_comm _ _ _

theorem settle_comm {p q : String} (h : p ≠ q) (x : Snapshot) :
    (x.settle w R p).settle w R q = (x.settle w R q).settle w R p := by
  have hq : ∀ v : Verdict, (x.after w p v).holding q = x.holding q := fun v => Function.update_of_ne h.symm _ _
  have hp : ∀ v : Verdict, (x.after w q v).holding p = x.holding p := fun v => Function.update_of_ne h _ _
  unfold settle
  rw [hp, hq]
  exact after_comm h x _ _

theorem miss_settle (x : Snapshot) (path : String) : x.miss.settle w R path = (x.settle w R path).miss := by
  unfold settle after miss
  dsimp only
  rw [Stats.plus_right_comm x.stats, Stats.plus_right_comm (x.stats.plus { filesSeen := 1 })]

theorem step_right_comm (x : Snapshot) (given other : String) :
    (x.step w R given).step w R other = (x.step w R other).step w R given := by
  unfold step
  cases Path.relative? w.rootPath given with
  | none =>
    cases Path.relative? w.rootPath other with
    | none => rfl
    | some q => exact miss_settle x q
  | some p =>
    cases Path.relative? w.rootPath other with
    | none => exact (miss_settle x p).symm
    | some q =>
      by_cases h : p = q
      · rw [h]
      · exact settle_comm h x

end Snapshot

/-- What the pass has come to. -/
def Standing.snapshot (x : Standing) : Snapshot where
  holding := x.tables.holding
  stats := x.tally.stats
  pending := x.tally.pending.map Pending.gist

theorem Verdict.gist_made (v : Verdict) (next : NodeId) :
    (v.made w path next).map Pending.gist = (v.made w path 0).map Pending.gist := by
  cases v <;> rfl

/-- A step of a pass is a step of its snapshot. -/
theorem Standing.snapshot_update {x : Standing} (h : x.tables.Readable) (c : Clock) (given : String) :
    (x.update (w.timed c) R given).snapshot = x.snapshot.step w R given := by
  unfold Standing.update Snapshot.step
  rw [show (w.timed c).rootPath = w.rootPath from rfl]
  cases Path.relative? w.rootPath given with
  | none => rfl
  | some path =>
    dsimp only
    rw [judgeUpdate_eq_rule h, hashAt_eq]
    unfold Snapshot.settle
    generalize hv : w.ruleUpdate R ((x.snapshot.holding path).row?.map (·.hash)) path = v
    rw [show (w.timed c).ruleUpdate R ((x.tables.holding path).row?.map (·.hash)) path = v from hv]
    unfold Standing.snapshot Standing.after Standing.counted Snapshot.after
    rw [Verdict.holding_tables, Verdict.tally_eq, Verdict.gain_timed, Verdict.made_timed, List.map_append,
      Verdict.gist_made]
    rfl

theorem firstPass_snapshot {had : String → String → Prop} {t : Tables} (c : Clock) (hw : (w.timed c).Shows had)
    (h : t.Coherent (w.timed c) had) (paths : List String) :
    (Run.firstPass (w.timed c) R t paths).snapshot = paths.foldl (.step w R) (Standing.snapshot { tables := t }) := by
  have hfold : ∀ x : Standing, x.tables.Coherent (w.timed c) had →
      (paths.foldl (.update (w.timed c) R) x).snapshot = paths.foldl (.step w R) x.snapshot := by
    induction paths with
    | nil => exact fun _ _ => rfl
    | cons given rest ih =>
      intro x hx
      rw [List.foldl_cons, List.foldl_cons, ih _ (update_coherent hx hw given), Standing.snapshot_update hx.readable]
  exact hfold _ h

theorem firstPass_snapshot_perm {had : String → String → Prop} {t : Tables} {c c' : Clock}
    (hw : (w.timed c).Shows had) (hw' : (w.timed c').Shows had) (h : t.Coherent (w.timed c) had)
    {ps qs : List String} (hperm : ps.Perm qs) :
    (Run.firstPass (w.timed c) R t ps).snapshot = (Run.firstPass (w.timed c') R t qs).snapshot := by
  have h' : t.Coherent (w.timed c') had := h.of_workspace rfl rfl
  rw [firstPass_snapshot c hw h, firstPass_snapshot c' hw' h']
  exact hperm.foldl_eq' (fun given _ other _ x => x.step_right_comm given other) _

/-! ### Stored files stay stored -/

/-- The file is stored as the workspace has it, and its nodes are those in the tables. -/
structure Pending.Current (w : Workspace) (R : List String) (t : Tables) (p : Pending) : Prop where
  kept : w.ruleUpdate R (hashAt t p.path) p.path = .kept
  ids : p.nodes.map (·.1) = (t.nodesAt p.path).map (·.id)
  spans : p.nodes.map (·.2) = p.found.symbols.map (·.span)
  found : ∃ language text, w.accepts p.path = some language ∧ w.source? p.path = some text ∧
    p.found = (w.extract language text).found

theorem numberedSpans_ids (path : String) (id : NodeId) (symbols : List Symbol) :
    (numberedSpans id symbols).map (·.1) = (NodeRow.numbered path id symbols).map (·.id) := by
  induction symbols generalizing id with
  | nil => rfl
  | cons symbol rest ih => exact congrArg (id :: ·) (ih (id + 1))

theorem numberedSpans_spans (id : NodeId) (symbols : List Symbol) :
    (numberedSpans id symbols).map (·.2) = symbols.map (·.span) := by
  induction symbols generalizing id with
  | nil => rfl
  | cons symbol rest ih => exact congrArg (symbol.span :: ·) (ih (id + 1))

theorem ruleUpdate_stored {known : Option String} {language : Language} {text : String}
    (h : w.ruleUpdate R known path = .stored language text) :
    w.accepts path = some language ∧ w.source? path = some text ∧
      w.ruleUpdate R (some (Text.contentHash (Text.dropMark text))) path = .kept := by
  unfold Workspace.ruleUpdate at h ⊢
  split at h
  · next hexists =>
    unfold Workspace.rule at h ⊢
    split at h
    · next l s hl hs =>
      split at h
      · cases h
      · split at h
        · cases h
        · cases h
          exact ⟨hl, hs, by rw [if_pos hexists]; exact if_pos rfl⟩
    · cases h
  · split at h <;> cases h

theorem Verdict.tables_of_ne {other : String} (h : other ≠ path) (v : Verdict) (t : Tables) :
    hashAt (v.tables w path t) other = hashAt t other ∧ (v.tables w path t).nodesAt other = t.nodesAt other := by
  cases v with
  | stored language text =>
    refine ⟨?_, t.nodesAt_withFile_of_ne _ h⟩
    rw [hashAt_eq, hashAt_eq, Verdict.tables, Tables.holding_withFile]
    exact congrArg (fun held : Holding => held.row?.map (·.hash)) (if_neg h)
  | erased =>
    refine ⟨?_, t.nodesAt_withoutFile_of_ne h⟩
    rw [hashAt_eq, hashAt_eq, Verdict.tables, Tables.holding_withoutFile, if_neg h]
  | skipped => exact ⟨rfl, rfl⟩
  | unknown => exact ⟨rfl, rfl⟩
  | kept => exact ⟨rfl, rfl⟩
  | refused e => exact ⟨rfl, rfl⟩
  | stuck => exact ⟨rfl, rfl⟩

theorem knows_eq (t : Tables) (path : String) :
    t.knows path = (decide (0 < (t.nodesAt path).length) || (hashAt t path).isSome) := by
  rw [Tables.knows, hashAt, Option.isSome_map, List.isSome_find?]

theorem Verdict.knows_of_ne {other : String} (h : other ≠ path) (v : Verdict) (t : Tables) :
    (v.tables w path t).knows other = t.knows other := by
  obtain ⟨hhash, hnodes⟩ := v.tables_of_ne (w := w) h t
  rw [knows_eq, knows_eq, hhash, hnodes]

/-- A verdict on a path leaves the stored files as they are: one that has the path is kept. -/
theorem Pending.Current.after {t : Tables} {p : Pending} (h : p.Current w R t) (path : String) :
    p.Current w R ((w.ruleUpdate R (hashAt t path) path).tables w path t) := by
  by_cases hp : p.path = path
  · -- Its digest is that of the text it has now, so that it is not stored again.
    subst hp
    rw [h.kept]
    exact h
  · obtain ⟨hhash, hnodes⟩ := Verdict.tables_of_ne (w := w) hp (w.ruleUpdate R (hashAt t path) path) t
    exact ⟨by rw [hhash]; exact h.kept, by rw [hnodes]; exact h.ids, h.spans, h.found⟩

theorem Pending.Current.made {t : Tables} {p : Pending}
    (h : p ∈ (w.ruleUpdate R (hashAt t path) path).made w path t.nextNode) :
    p.Current w R ((w.ruleUpdate R (hashAt t path) path).tables w path t) := by
  cases hv : w.ruleUpdate R (hashAt t path) path with
  | stored language text =>
    rw [hv] at h
    obtain rfl := List.mem_singleton.mp h
    obtain ⟨hl, hs, hkept⟩ := ruleUpdate_stored hv
    let row : FileRow := .ofRecord ⟨path, language.id, (w.extract language text).hash, text.utf8ByteSize, w.now⟩
    have hhash := hashAt_withFile t row (w.extract language text).found.symbols
    have hnodes := t.nodesAt_withFile_self row (w.extract language text).found.symbols
    rw [← extract_hash w language] at hkept
    refine ⟨?_, ?_, numberedSpans_spans _ _, language, text, hl, hs, rfl⟩
    · exact (congrArg (w.ruleUpdate R · path) hhash).trans hkept
    · exact (numberedSpans_ids path _ _).trans (congrArg (List.map NodeRow.id) hnodes.symm)
  | _ =>
    rw [hv] at h
    cases h

/-- After a verdict the stored files, its own among them, are as they were stored. -/
theorem Standing.after_current {x : Standing} (h : ∀ p ∈ x.tally.pending, p.Current w R x.tables) (path : String) :
    let y := x.after w path (w.ruleUpdate R (hashAt x.tables path) path)
    ∀ p ∈ y.tally.pending, p.Current w R y.tables := by
  intro y p hp
  rw [Standing.after_tally, Verdict.tally_eq] at hp
  rcases List.mem_append.mp hp with hp | hp
  · exact (h p hp).after path
  · exact .made hp

/-- A pass has stored no path twice, and all that it stored is as it was stored. -/
structure Standing.Lasting (w : Workspace) (R : List String) (x : Standing) : Prop where
  current : ∀ p ∈ x.tally.pending, p.Current w R x.tables
  nodup : (x.tally.pending.map (·.path)).Nodup

theorem Standing.Lasting.after {x : Standing} (h : x.Lasting w R) (path : String) :
    (x.after w path (w.ruleUpdate R (hashAt x.tables path) path)).Lasting w R := by
  refine ⟨Standing.after_current h.current path, ?_⟩
  rw [Standing.after_tally, Verdict.tally_eq, List.map_append]
  cases hv : w.ruleUpdate R (hashAt x.tables path) path with
  | stored language text =>
    refine List.nodup_append.mpr ⟨h.nodup, List.nodup_singleton path, ?_⟩
    -- Had the path been stored before, its record would be right, and it would be kept now.
    rintro _ hp _ hpath rfl
    obtain rfl := List.mem_singleton.mp hpath
    obtain ⟨p, hp, hpath⟩ := List.mem_map.mp hp
    have hkept := (h.current p hp).kept
    rw [hpath] at hkept
    exact nomatch hkept.symm.trans hv
  | _ => simpa [Verdict.made] using h.nodup

theorem firstPass_current {had : String → String → Prop} {t : Tables} (hw : w.Shows had) (h : t.Coherent w had)
    (paths : List String) :
    ∀ p ∈ (Run.firstPass w R t paths).tally.pending, p.Current w R (Run.firstPass w R t paths).tables := by
  have hstep : ∀ (x : Standing) (given : String), x.tables.Coherent w had →
      (∀ p ∈ x.tally.pending, p.Current w R x.tables) →
      ∀ p ∈ (x.update w R given).tally.pending, p.Current w R (x.update w R given).tables := by
    intro x given hx hcurrent
    cases hrel : Path.relative? w.rootPath given with
    | none =>
      rw [Standing.update_outside hrel]
      exact hcurrent
    | some path =>
      rw [Standing.update_inside hrel, judgeUpdate_eq_rule hx.readable]
      exact Standing.after_current (x := x.counted Run.see) hcurrent path
  have hall := List.foldlRecOn paths (Standing.update w R)
    (motive := fun x => x.tables.Coherent w had ∧ ∀ p ∈ x.tally.pending, p.Current w R x.tables)
    (b := { tables := t }) ⟨h, fun _ hp => by cases hp⟩
    fun x hx given _ => ⟨update_coherent hx.1 hw given, hstep x given hx.1 hx.2⟩
  exact hall.2

theorem fullPass_current {had : String → String → Prop} (hw : w.Shows had) (t : Tables) :
    ∀ p ∈ (Run.fullPass w R t).tally.pending, p.Current w R (Run.fullPass w R t).tables := by
  have hstep : ∀ (x : Standing) (path : String), x.tables.Coherent w had →
      (∀ p ∈ x.tally.pending, p.Current w R x.tables) →
      ∀ p ∈ (x.settle w R path).tally.pending, p.Current w R (x.settle w R path).tables := by
    intro x path hx hcurrent
    rw [Standing.settle, judge_eq_rule hx.readable]
    rcases rule_cases w R (hashAt x.tables path) path with hrule | ⟨-, hskip⟩
    · rw [hrule]
      exact Standing.after_current hcurrent path
    · rw [hskip]
      exact hcurrent
  have hall := List.foldlRecOn (w.scan.map (·.path)) (Standing.settle w R)
    (motive := fun x => x.tables.Coherent w had ∧ ∀ p ∈ x.tally.pending, p.Current w R x.tables)
    (b := { tables := { t with files := [], nodes := [], edges := [] }
            tally := { stats := { filesSeen := w.scan.length } } })
    ⟨.of_no_files _ rfl rfl, fun _ hp => by cases hp⟩
    fun x hx path _ => ⟨settle_coherent hx.1 hw path, hstep x path hx.1 hx.2⟩
  exact hall.2

end Index
end SymbolGraph
