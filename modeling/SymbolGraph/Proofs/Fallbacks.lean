import SymbolGraph.Proofs.Counters
import SymbolGraph.Proofs.Retry

/-! Files that were read by patterns. Their counter goes up as soon as a text was read, before the store is asked to
    keep what was found. So besides the files that a call commits it counts those that were read in vain, whose
    nodes the store refuses and which count as failed too. Whether a path is read in vain does not change in a
    call: what the store refuses keeps its record, so that each time the path is given it is read again. -/

namespace SymbolGraph

open Store

namespace Index

namespace Workspace

/-- The file is to be read, and its text is read by patterns. -/
def readByPatterns (w : Workspace) (path : String) : Bool :=
  match w.accepts path, w.source? path with
  | some language, some text => (w.extract language text).method = .patterns
  | _, _ => false

/-- The digest of the text that the file has now. -/
def digest? (w : Workspace) (path : String) : Option String :=
  (w.source? path).map fun text => Text.contentHash (Text.dropMark text)

/-- The file is read by patterns, for its record has another digest, and the store refuses its nodes. -/
def readInVain (w : Workspace) (R : List String) (known : Option String) (path : String) : Bool :=
  path ∈ R && w.readByPatterns path && known != w.digest? path

/-- The given path leads to a file that is read in vain. -/
def givenInVain (w : Workspace) (R : List String) (t : Tables) (given : String) : Bool :=
  (Path.relative? w.rootPath given).any fun path => w.readInVain R (hashAt t path) path

end Workspace

/-- The call has counted the files read by patterns that it has told to be indexed, and `lost` files besides, all of
    which have failed. -/
structure Stats.CountsReadings (stats : Stats) (w : Workspace) (told : List Event) (lost : Nat) : Prop where
  fallback : stats.fallback = (told.filterMap Event.indexed?).countP w.readByPatterns + lost
  indexed : stats.indexed = (told.filterMap Event.indexed?).length
  failed : lost ≤ stats.failed

variable {w : Workspace} {R : List String} {path : String} {t : Tables} {x : Standing} {n k : Nat}

/-! ### One path -/

/-- What the verdict adds to the counter: the file that it stores, if that was read by patterns, and `k` failed ones. -/
structure Verdict.Reads (v : Verdict) (w : Workspace) (path : String) (k : Nat) : Prop where
  fallback : ∀ next, (v.gain w).fallback = ((v.made w path next).map (·.path)).countP w.readByPatterns + k
  failed : k ≤ (v.gain w).failed

theorem Verdict.Reads.nothing {v : Verdict} (hgain : (v.gain w).fallback = 0) (hmade : ∀ next, v.made w path next = []) :
    v.Reads w path 0 :=
  ⟨fun next => by rw [hgain, hmade]; rfl, Nat.zero_le _⟩

theorem readInVain_of_not_read {known : Option String} (h : w.readByPatterns path = false) :
    w.readInVain R known path = false := by
  simp [Workspace.readInVain, h]

theorem skipped_reads {known : Option String} (h : w.readByPatterns path = false) :
    Verdict.skipped.Reads w path (if w.readInVain R known path then 1 else 0) := by
  rw [readInVain_of_not_read h]
  exact .nothing rfl fun _ => rfl

theorem rule_reads (w : Workspace) (R : List String) (known : Option String) (path : String) :
    (w.rule R known path).Reads w path (if w.readInVain R known path then 1 else 0) := by
  unfold Workspace.rule
  split
  · next language text hl hs =>
    have hread : w.readByPatterns path = decide ((w.extract language text).method = .patterns) := by
      rw [Workspace.readByPatterns, hl, hs]
    have hdigest : w.digest? path = some (Text.contentHash (Text.dropMark text)) := by rw [Workspace.digest?, hs]; rfl
    rw [Workspace.readInVain, hdigest, hread]
    split
    · next hkept =>
      -- The record stays as it is, though the text was read.
      rw [hkept]
      simpa using .nothing rfl fun _ => rfl
    · next hchanged =>
      split
      · next hR =>
        refine ⟨fun next => ?_, ?_⟩
        · simp [hR, hchanged, Verdict.gain, Verdict.made, fallbacks]
        · show _ ≤ 1
          split <;> decide
      · next hR =>
        refine ⟨fun next => ?_, ?_⟩
        · simp [hR, hread, Verdict.gain, Verdict.made, fallbacks]
        · simp [hR]
  · next hnone =>
    refine skipped_reads ?_
    unfold Workspace.readByPatterns
    split
    · next language text hl hs => exact (hnone language text hl hs).elim
    · rfl

theorem ruleUpdate_reads (w : Workspace) (R : List String) (known : Option String) (path : String) :
    (w.ruleUpdate R known path).Reads w path (if w.readInVain R known path then 1 else 0) := by
  by_cases hexists : w.disk.exists (w.absolute path)
  · rw [Workspace.ruleUpdate, if_pos hexists]
    exact rule_reads w R known path
  · have hunread : w.readByPatterns path = false := by
      unfold Workspace.readByPatterns
      split
      · next hs => exact absurd (Workspace.exists_of_source hs) hexists
      · rfl
    rw [Workspace.ruleUpdate, if_neg hexists, readInVain_of_not_read hunread]
    split <;> exact .nothing rfl fun _ => rfl

/-- Whether a path is read in vain stays the same when a path comes to its verdict, for what is refused keeps its
    record. -/
theorem readInVain_after {v : Verdict} (hrefused : path ∈ R → v.Idle true) (t : Tables) (other : String) :
    w.readInVain R (hashAt (v.tables w path t) other) other = w.readInVain R (hashAt t other) other := by
  by_cases hother : other = path
  · subst hother
    by_cases hR : other ∈ R
    · have hidle := hrefused hR
      cases v with
      | stored language text => exact hidle.elim
      | erased => cases hidle
      | _ => rfl
    · simp [Workspace.readInVain, hR]
  · rw [(Verdict.tables_of_ne hother v t).1]

theorem rule_refused (h : path ∈ R) (known : Option String) : (w.rule R known path).Idle true := by
  rcases rule_cases w R known path with hrule | ⟨-, hskip⟩
  · rw [hrule]
    exact ruleUpdate_refused h known
  · rw [hskip]
    trivial

/-! ### Passes -/

/-- The pass has read `n` files in vain. -/
structure Standing.CountsReadings (x : Standing) (w : Workspace) (n : Nat) : Prop where
  fallback : x.tally.stats.fallback = (x.tally.pending.map (·.path)).countP w.readByPatterns + n
  failed : n ≤ x.tally.stats.failed
  accounts : x.Accounts

theorem Standing.CountsReadings.after {v : Verdict} (h : x.CountsReadings w n) (hv : v.Reads w path k) :
    (x.after w path v).CountsReadings w (n + k) := by
  have hcount := h.fallback
  have hgain := hv.fallback x.tables.nextNode
  refine ⟨?_, ?_, h.accounts.after path v⟩
  · rw [Standing.after_tally, Verdict.tally_eq, List.map_append, List.countP_append]
    show x.tally.stats.fallback + (v.gain w).fallback = _
    omega
  · rw [Standing.after_tally, Verdict.tally_eq]
    exact Nat.add_le_add h.failed hv.failed

theorem update_readings (ht : x.tables.Readable) (h : x.CountsReadings w n) (given : String) :
    (x.update w R given).CountsReadings w (n + if w.givenInVain R x.tables given then 1 else 0) ∧
      w.givenInVain R (x.update w R given).tables = w.givenInVain R x.tables := by
  cases hrel : Path.relative? w.rootPath given with
  | none =>
    have hnot : w.givenInVain R x.tables given = false := by simp [Workspace.givenInVain, hrel]
    rw [Standing.update_outside hrel, hnot]
    exact ⟨⟨h.fallback, h.failed, h.accounts.indexed, h.accounts.created, h.accounts.told⟩, rfl⟩
  | some path =>
    have hgiven : w.givenInVain R x.tables given = w.readInVain R (hashAt x.tables path) path := by
      simp [Workspace.givenInVain, hrel]
    rw [Standing.update_inside hrel, judgeUpdate_eq_rule ht, hgiven]
    have hseen : (x.counted Run.see).CountsReadings w n :=
      ⟨h.fallback, h.failed, h.accounts.indexed, h.accounts.created, h.accounts.told⟩
    refine ⟨hseen.after (ruleUpdate_reads w R _ path), funext fun other => ?_⟩
    unfold Workspace.givenInVain
    cases Path.relative? w.rootPath other with
    | none => rfl
    | some other => exact readInVain_after (fun hR => ruleUpdate_refused hR _) x.tables other

/-- A pass over given paths reads in vain what it could not keep, each time that it is given. -/
theorem foldl_update_readings {had : String → String → Prop} (hw : w.Shows had) (paths : List String)
    (hx : x.tables.Coherent w had) (h : x.CountsReadings w n) :
    (paths.foldl (.update w R) x).CountsReadings w (n + paths.countP (w.givenInVain R x.tables)) := by
  induction paths generalizing x n with
  | nil => exact h
  | cons given rest ih =>
    obtain ⟨hnext, hsame⟩ := update_readings (R := R) hx.readable h given
    have hrest := ih (update_coherent hx hw given) hnext
    rw [hsame] at hrest
    rwa [List.foldl_cons, List.countP_cons, Nat.add_comm (List.countP _ _), ← Nat.add_assoc]

/-- A pass over existing paths reads in vain what it could not keep. -/
theorem foldl_settle_readings {had : String → String → Prop} (hw : w.Shows had) (paths : List String)
    (hx : x.tables.Coherent w had) (h : x.CountsReadings w n) :
    (paths.foldl (.settle w R) x).CountsReadings w
      (n + paths.countP fun path => w.readInVain R (hashAt x.tables path) path) := by
  induction paths generalizing x n with
  | nil => exact h
  | cons path rest ih =>
    have hnext := settle_coherent (R := R) hx hw path
    rw [Standing.settle, judge_eq_rule hx.readable] at hnext
    have hrest := ih hnext (h.after (rule_reads w R _ path))
    simp only [Standing.after_tables, readInVain_after fun hR => rule_refused hR _] at hrest
    rwa [List.foldl_cons, List.countP_cons, Nat.add_comm (List.countP _ _), ← Nat.add_assoc, Standing.settle,
      judge_eq_rule hx.readable]

/-! ### Calls -/

/-- The second pass counts no files. -/
theorem Standing.CountsReadings.stats (h : x.CountsReadings w n) (v : Workspace) {told : List Event}
    (htold : told.filterMap Event.indexed? = x.told.filterMap Event.indexed?) :
    (x.stats v).CountsReadings w told n := by
  have hpaths : told.filterMap Event.indexed? = x.tally.pending.map (·.path) := htold.trans h.accounts.told
  refine ⟨?_, ?_, h.failed⟩
  · rw [hpaths]
    exact h.fallback
  · rw [hpaths, List.length_map]
    exact h.accounts.indexed

/-- Whatever a run has done, and however far a drain has come, a call counts as read by patterns the files that it
    commits and that were read by patterns, and the paths that it was given or has scanned and has read in vain. So
    the counter is that of the committed files exactly if nothing was read in vain. -/
theorem fallbacks_count_readings (place : Place) (w : Workspace) (ops : List Operation) (steps : Nat) :
    let x := ((World.start place).run w ops).inDrain w steps
    let v := x.workspace w
    (∀ paths, ∃ stats told done, Run.indexFiles v paths x.guarded = (.ok stats, done) ∧
      done.events = x.session.events ++ told ∧
      stats.CountsReadings v told (paths.countP (v.givenInVain x.refused x.session.store.tables))) ∧
    ∃ stats told done, Run.fullIndex v x.guarded = (.ok stats, done) ∧
      done.events = x.session.events ++ told ∧
      stats.CountsReadings v told ((v.scan.map (·.path)).countP (v.readInVain x.refused none)) := by
  intro x v
  let y := (World.start place).run w ops
  have hy := (World.start_coherent (w := w) place _).run ops
  have hshows : v.Shows ((World.start place).Had w ops) :=
    ⟨fun path text hs => ⟨ops, List.prefix_refl ops, hs⟩, y.clock.readable⟩
  obtain ⟨hidle, ht⟩ := hy.after (keeps_run (w := y.workspace w) hshows steps {}).workspace
  have hstart : x.guarded.store.tables.Coherent v ((World.start place).Had w ops) :=
    ht.of_workspace rfl rfl
  have hcalm : x.guarded.Calm x.refused := ⟨rfl, hidle⟩
  -- A call starts from the records that are there, a full index from none.
  refine ⟨fun paths => ?_, ?_⟩
  · have hread := (firstPass_coherent (R := x.refused) hstart hshows paths).readable
    obtain ⟨done, hrun, hdone⟩ := Run.indexFiles_became hcalm paths hread
    have hpass := foldl_update_readings (R := x.refused) hshows paths (x := { tables := x.guarded.store.tables }) (n := 0)
      hstart ⟨rfl, Nat.le_refl 0, rfl, rfl, rfl⟩
    rw [Nat.zero_add] at hpass
    exact ⟨_, _, done, hrun, hdone.events, hpass.stats v rfl⟩
  · have hread := (fullPass_coherent (R := x.refused) hshows x.guarded.store.tables).readable
    obtain ⟨done, hrun, hdone⟩ := Run.fullIndex_became hcalm hread
    have hpass := foldl_settle_readings (R := x.refused) hshows (v.scan.map (·.path)) (n := 0)
      (x := { tables := { x.guarded.store.tables with files := [], nodes := [], edges := [] }
              tally := { stats := { filesSeen := v.scan.length } } })
      (.of_no_files _ rfl rfl) ⟨rfl, Nat.le_refl 0, rfl, rfl, rfl⟩
    rw [Nat.zero_add] at hpass
    refine ⟨_, _, done, hrun, hdone.events, Standing.CountsReadings.stats hpass v ?_⟩
    rw [List.filterMap_append, List.filterMap_append]
    exact List.append_nil _

/-- A file without a syntax tree is refused by the store: it is counted as read by patterns and not committed. -/
theorem refused_file_counted :
    let x := (((World.start .memory).run {} [.edit (single (.text "function f(){}")), .refuse "a.ts"]).inDrain {} 0)
    let v := x.workspace {}
    ∃ stats told done, Run.fullIndex v x.guarded = (.ok stats, done) ∧ done.events = x.session.events ++ told ∧
      stats.fallback ≠ (told.filterMap Event.indexed?).countP v.readByPatterns := by
  intro x v
  obtain ⟨-, stats, told, done, hrun, hevents, hcounts⟩ :=
    fallbacks_count_readings .memory {} [.edit (single (.text "function f(){}")), .refuse "a.ts"] 0
  have hvain : v.readInVain x.refused none "a.ts" = true := by decide +kernel
  have hlost : 0 < (v.scan.map (·.path)).countP (v.readInVain x.refused none) :=
    List.countP_pos_iff.mpr ⟨_, scan_single _, hvain⟩
  refine ⟨stats, told, done, hrun, hevents, ?_⟩
  rw [hcounts.fallback]
  exact (Nat.lt_add_of_pos_right hlost).ne'

end Index
end SymbolGraph
