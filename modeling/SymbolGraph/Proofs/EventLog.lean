import Mathlib.Data.Finset.Basic
import Mathlib.Data.Finset.Dedup
import SymbolGraph.Proofs.LiveEdges

/-! What those who follow an index know. Every verdict tells just what it does to the records, so whoever adds
    the paths that are told to be indexed, takes away those told to be removed, and starts anew when a full index
    does, has the paths of the records after every operation of a run. -/

namespace SymbolGraph

open Store

/-- The paths that have a record. -/
def Tables.recordedPaths (t : Tables) : Finset String := (t.files.map (·.path)).toFinset

namespace Tables

theorem mem_recordedPaths {t : Tables} {path : String} :
    path ∈ t.recordedPaths ↔ (t.files.find? (·.path == path)).isSome := by
  simp [recordedPaths]

theorem recordedPaths_withFile (t : Tables) (row : FileRow) (symbols : List Symbol) :
    (t.withFile row symbols).recordedPaths = insert row.path t.recordedPaths := by
  ext path
  rw [mem_recordedPaths, Finset.mem_insert, mem_recordedPaths, Tables.withFile, find?_putFile]
  by_cases h : row.path = path
  · simp [h]
  · simp [h, Ne.symm h]

theorem recordedPaths_withoutFile (t : Tables) (path : String) :
    (t.withoutFile path).recordedPaths = t.recordedPaths.erase path := by
  ext other
  rw [mem_recordedPaths, Finset.mem_erase, mem_recordedPaths, find?_withoutFile]
  by_cases h : other = path <;> simp [h]

end Tables

namespace Index
variable {w : Workspace} {R : List String} {had : String → String → Prop} {t : Tables}

/-- The paths that are taken to be recorded after the event was told. -/
def Event.follow (known : Finset String) : Event → Finset String
  | indexStarted => ∅
  | fileIndexed path => insert path known
  | fileRemoved path => known.erase path
  | indexCompleted _ => known
  | failed _ _ => known

/-! ### Passes -/

theorem Verdict.follow_events (w : Workspace) (path : String) (v : Verdict) (t : Tables) :
    (v.events path t).foldl Event.follow t.recordedPaths = (v.tables w path t).recordedPaths := by
  cases v with
  | stored language text =>
    rw [Verdict.events, Verdict.tables, Tables.recordedPaths_withFile]
    rfl
  | erased =>
    unfold Verdict.events Verdict.tables
    cases hk : t.knows path
    · simp [Tables.withoutFile_unknown hk]
    · simp [Tables.recordedPaths_withoutFile, Event.follow]
  | _ => rfl

/-- What the pass has told leads from the paths to those that are recorded now. -/
def Standing.Follows (known : Finset String) (x : Standing) : Prop :=
  x.told.foldl Event.follow known = x.tables.recordedPaths

theorem Standing.Follows.after {known : Finset String} {x : Standing} (h : x.Follows known) (path : String)
    (v : Verdict) : (x.after w path v).Follows known := by
  unfold Follows at h ⊢
  rw [Standing.after, List.foldl_append, h]
  exact v.follow_events w path x.tables

theorem firstPass_follows (w : Workspace) (R : List String) (t : Tables) (paths : List String) :
    (Run.firstPass w R t paths).Follows t.recordedPaths := by
  refine List.foldlRecOn paths (Standing.update w R) (motive := Standing.Follows t.recordedPaths) rfl ?_
  intro x hx given _
  cases hrel : Path.relative? w.rootPath given with
  | none =>
    rw [Standing.update_outside hrel]
    exact hx
  | some path =>
    rw [Standing.update_inside hrel]
    exact Standing.Follows.after (x := x.counted Run.see) hx path _

theorem fullPass_follows (w : Workspace) (R : List String) (t : Tables) : (Run.fullPass w R t).Follows ∅ :=
  List.foldlRecOn _ (Standing.settle w R) (motive := Standing.Follows ∅) rfl fun _ hx path _ => hx.after path _

/-! ### Calls -/

/-- Following the events of the session leads to the paths that are recorded. -/
def Session.Followed (s : Session) : Prop := s.events.foldl Event.follow ∅ = s.store.tables.recordedPaths

theorem Session.Followed.became {s s' : Session} {told : List Event} (h : s.Followed) (hb : s.Became t told s')
    (ht : told.foldl Event.follow s.store.tables.recordedPaths = t.recordedPaths) : s'.Followed := by
  unfold Followed at h ⊢
  rw [hb.events, List.foldl_append, h, hb.tables, ht]

/-- The action keeps the tables coherent, and whoever follows the events up to date. -/
structure Informs (w : Workspace) (had : String → String → Prop) (R : List String) {α : Type} (x : Action α) : Prop where
  keeps : Keeps R (Tables.Coherent w had) x
  followed : ∀ s : Session, s.Calm R → s.store.tables.Coherent w had → s.Followed → (x s).2.Followed

namespace Informs
variable {α β : Type} {x : Action α}

theorem pure (a : α) : Informs w had R (Pure.pure a : Action α) := ⟨.pure a, fun _ _ _ h => h⟩

theorem bind {f : α → Action β} (hx : Informs w had R x) (hf : ∀ a, Informs w had R (f a)) :
    Informs w had R (x >>= f) where
  keeps := hx.keeps.bind fun a => (hf a).keeps
  followed := by
    intro s hs ht h
    have hfollowed := hx.followed s hs ht h
    obtain ⟨hs₁, ht₁⟩ := hx.keeps s hs ht
    rw [Fallible.bind_apply]
    rcases hxs : x s with ⟨_ | a, s₁⟩ <;> rw [hxs] at hfollowed hs₁ ht₁
    · exact hfollowed
    · exact (hf a).followed s₁ hs₁ ht₁ hfollowed

theorem attempt (hx : Informs w had R x) : Informs w had R (Action.attempt x) := ⟨hx.keeps.attempt, hx.followed⟩

theorem tellFailed (operation : String) (e : Error) : Informs w had R (Action.tellFailed operation e) := by
  refine ⟨.tell _, fun s _ _ h => ?_⟩
  obtain ⟨s', hrun, hb⟩ := Action.tell_became (.failed operation e.report.fullText) s
  rw [Action.tellFailed, hrun]
  exact h.became hb rfl

end Informs

theorem informs_removeFile (path : String) : Informs w had R (Run.removeFile path) := by
  refine ⟨keeps_removeFile path, fun s hs _ h => ?_⟩
  by_cases hp : path ∈ R
  · obtain ⟨s', hrun, hb⟩ := Run.removeFile_refused hs hp
    rw [hrun]
    exact h.became hb rfl
  · obtain ⟨s', hrun, hb⟩ := Run.removeFile_became hs hp
    rw [hrun]
    exact h.became hb (Verdict.follow_events w path .erased s.store.tables)

section
variable (hw : w.Shows had)
include hw

theorem informs_indexFiles (paths : List String) : Informs w had R (Run.indexFiles w paths) := by
  refine ⟨keeps_indexFiles hw paths, fun s hs ht h => ?_⟩
  have hpass := firstPass_coherent (R := R) ht hw paths
  obtain ⟨s', hrun, hb⟩ := Run.indexFiles_became hs paths hpass.readable
  rw [hrun]
  refine h.became hb ((firstPass_follows w R s.store.tables paths).trans ?_)
  rw [Standing.linked, Tables.recordedPaths, Tables.recordedPaths, Tables.linkAll_files]

theorem informs_fullIndex : Informs w had R (Run.fullIndex w) := by
  refine ⟨keeps_fullIndex hw, fun s hs _ h => ?_⟩
  have hpass := fullPass_coherent (R := R) hw s.store.tables
  obtain ⟨s', hrun, hb⟩ := Run.fullIndex_became hs hpass.readable
  rw [hrun]
  refine h.became hb ?_
  -- Whatever was known before, the first event makes it nothing, as the full index does with the records.
  rw [List.foldl_append, List.foldl_append]
  refine (fullPass_follows w R s.store.tables).trans ?_
  rw [Tables.recordedPaths, Tables.recordedPaths, Tables.recorded, Standing.linked, Tables.linkAll_files]

theorem informs_handle (c : Change) : Informs w had R (Watch.handle w c) := by
  cases c with
  | changed path => exact .bind (informs_indexFiles hw [path]).attempt fun _ => .pure _
  | removed path =>
    refine .bind (informs_removeFile path).attempt fun result => ?_
    cases result with
    | ok _ => exact .pure _
    | error e => exact .tellFailed _ e

theorem informs_step (d : Drain Change) : Informs w had R (Watch.step w d) := by
  refine ⟨keeps_step hw d, fun s hs ht h => ?_⟩
  unfold Watch.step
  cases d.phase with
  | handle c =>
    have hfollowed := (informs_handle (R := R) hw c).followed s hs ht h
    dsimp only
    rw [Fallible.bind_apply]
    rcases hrun : Watch.handle w c s with ⟨_ | _, s₁⟩ <;> rw [hrun] at hfollowed <;> exact hfollowed
  | _ => exact h

theorem informs_run (fuel : Nat) (d : Drain Change) : Informs w had R (Watch.run w fuel d) := by
  induction fuel generalizing d with
  | zero => exact .pure d
  | succ fuel ih =>
    rw [Watch.run]
    split
    · exact .pure d
    · exact .bind (informs_step hw d) ih

theorem informs_drain : Informs w had R (Watch.drain w) :=
  .bind ⟨fun _ hs hP => ⟨hs, hP⟩, fun _ _ _ h => h⟩ fun _ => .bind (informs_run hw _ _) fun _ => .pure _

end

/-! ### Runs -/

theorem World.after_followed {α : Type} {x : World} {action : Action α} (hx : x.Coherent w had)
    (h : x.session.Followed) (hi : Informs (x.workspace w) had x.refused action) :
    (x.after action).session.Followed :=
  hi.followed x.guarded ⟨rfl, hx.1⟩ (hx.2.of_workspace rfl rfl) h

theorem World.perform_followed {x : World} (hx : x.Coherent w had) (hw : (x.workspace w).Shows had)
    (h : x.session.Followed) (op : Operation) : (x.perform w op).session.Followed := by
  cases op with
  | fullIndex => exact World.after_followed hx h (informs_fullIndex hw)
  | indexFiles paths => exact World.after_followed hx h (informs_indexFiles hw paths)
  | removeFile path => exact World.after_followed hx h (informs_removeFile path)
  | drain => exact World.after_followed hx h (informs_drain hw)
  | _ => exact h

/-- After every operation of a run the events lead to the recorded paths. -/
theorem World.run_followed (place : Place) (w : Workspace) (ops : List Operation) :
    ((World.start place).run w ops).session.Followed := by
  induction ops using List.reverseRecOn with
  | nil => exact Eq.refl (∅ : Finset String)
  | append_singleton ops op ih =>
    have hx := (World.start_coherent (w := w) place _).run ops
    rw [World.run, List.foldl_append]
    exact World.perform_followed hx ((World.start place).run_shows w ops) ih op

/-! ### The events of a full index -/

/-- A pass that removes nothing tells of the files that it stores, and of nothing else. -/
structure Standing.Reports (x : Standing) : Prop where
  told : x.told = (x.tally.pending.map (·.path)).map .fileIndexed
  indexed : x.tally.stats.indexed = x.tally.pending.length

theorem judge_ne_erased (w : Workspace) (R : List String) (known : Except StoreError (Option FileRecord))
    (path : String) : w.judge R known path ≠ .erased := by
  unfold Workspace.judge
  split
  · split
    · simp
    · split
      · simp
      · split <;> simp
  · simp

theorem Standing.Reports.after {x : Standing} (h : x.Reports) (path : String) {v : Verdict} (hv : v ≠ .erased) :
    (x.after w path v).Reports := by
  refine ⟨?_, ?_⟩
  · rw [Standing.after_tally, Verdict.tally_eq, List.map_append, List.map_append, ← h.told, Standing.after]
    cases v with
    | erased => exact absurd rfl hv
    | stored language text => rfl
    | _ => rfl
  · rw [Standing.after_tally, Verdict.tally_eq, List.length_append, ← h.indexed]
    cases v <;> rfl

theorem fullPass_reports (w : Workspace) (R : List String) (t : Tables) : (Run.fullPass w R t).Reports :=
  List.foldlRecOn _ (Standing.settle w R) (motive := Standing.Reports) ⟨rfl, rfl⟩
    fun _ hx path _ => hx.after path (judge_ne_erased w R _ path)

theorem foldl_settle_sublist (w : Workspace) (R : List String) (paths : List String) (x : Standing) :
    ((paths.foldl (.settle w R) x).tally.pending.map (·.path)).Sublist (x.tally.pending.map (·.path) ++ paths) := by
  induction paths generalizing x with
  | nil => simp
  | cons path rest ih =>
    refine (ih (x.settle w R path)).trans ?_
    rw [Standing.settle, Standing.after_tally, Verdict.tally_eq, List.map_append, List.append_assoc]
    refine List.Sublist.append_left ?_ _
    cases w.judge R (x.tables.file? path) path with
    | stored language text => exact List.Sublist.refl _
    | _ => exact List.sublist_cons_self path rest

theorem Standing.Lasting.settle {x : Standing} (h : x.Lasting w R) (hx : x.tables.Readable) (path : String) :
    (x.settle w R path).Lasting w R := by
  rw [Standing.settle, judge_eq_rule hx]
  rcases rule_cases w R (hashAt x.tables path) path with hrule | ⟨-, hskip⟩
  · rw [hrule]
    exact h.after path
  · rw [hskip]
    refine ⟨h.current, ?_⟩
    rw [Standing.after_tally, Verdict.tally_eq]
    simpa [Verdict.made] using h.nodup

theorem fullPass_lasting (hw : w.Shows had) (t : Tables) : (Run.fullPass w R t).Lasting w R := by
  have hall := List.foldlRecOn (w.scan.map (·.path)) (Standing.settle w R)
    (motive := fun x => x.tables.Coherent w had ∧ x.Lasting w R)
    (b := { tables := { t with files := [], nodes := [], edges := [] }
            tally := { stats := { filesSeen := w.scan.length } } })
    ⟨.of_no_files _ rfl rfl, fun _ hp => absurd hp List.not_mem_nil, List.nodup_nil⟩
    fun _ hx path _ => ⟨settle_coherent hx.1 hw path, hx.2.settle hx.1.readable path⟩
  exact hall.2

theorem scan_ascending (w : Workspace) : (w.scan.map (·.path)).Pairwise (· ≤ ·) := by
  let le : Workspace.Found → Workspace.Found → Bool := fun a b => decide (a.path ≤ b.path)
  have htrans : ∀ a b c, le a b → le b c → le a c := fun a b c hab hbc =>
    decide_eq_true ((of_decide_eq_true hab).trans (of_decide_eq_true hbc))
  have htotal : ∀ a b, le a b || le b a := fun a b => by
    simpa [le] using le_total a.path b.path
  have hsorted := List.pairwise_mergeSort htrans htotal (w.disk.locations.filterMap w.found?)
  exact List.pairwise_map.mpr (hsorted.imp fun h => of_decide_eq_true h)

theorem fullPass_sublist (w : Workspace) (R : List String) (t : Tables) :
    ((Run.fullPass w R t).tally.pending.map (·.path)).Sublist (w.scan.map (·.path)) := by
  have h := foldl_settle_sublist w R (w.scan.map (·.path))
    { tables := { t with files := [], nodes := [], edges := [] }
      tally := { stats := { filesSeen := w.scan.length } } }
  exact h

theorem fullPass_ascending (hw : w.Shows had) (t : Tables) :
    ((Run.fullPass w R t).tally.pending.map (·.path)).Pairwise (· < ·) :=
  ((scan_ascending w).sublist (fullPass_sublist w R t)).imp₂ (fun _ _ hab hne => lt_of_le_of_ne hab hne)
    (fullPass_lasting hw t).nodup

/-- Between any two operations of a run, whoever has followed its events has the paths that are recorded. A full
    index tells that it starts, then of every file that it stores, in strictly ascending order of their paths and as
    many as it counts, and then that it is complete with what it has counted. -/
theorem events_mirror_index (place : Place) (w : Workspace) (ops : List Operation) :
    let x := (World.start place).run w ops
    x.session.events.foldl Event.follow ∅ = x.session.store.tables.recordedPaths ∧
    ∃ stats, ∃ stored : List String, ∃ done, Run.fullIndex (x.workspace w) x.guarded = (.ok stats, done) ∧
      done.events = x.session.events ++
        ([.indexStarted] ++ (stored.map .fileIndexed ++ [.indexCompleted stats])) ∧
      stored.Pairwise (· < ·) ∧ stored.length = stats.indexed := by
  intro x
  obtain ⟨hidle, -⟩ := (World.start_coherent (w := w) place _).run ops
  have hshows : (x.workspace w).Shows fun path text => (x.workspace w).source? path = some text :=
    ⟨fun _ _ h => h, x.clock.readable⟩
  have hpass := fullPass_coherent (R := x.refused) hshows x.guarded.store.tables
  obtain ⟨done, hrun, hdone⟩ := Run.fullIndex_became (s := x.guarded) ⟨rfl, hidle⟩ hpass.readable
  obtain ⟨htold, hindexed⟩ := fullPass_reports (x.workspace w) x.refused x.guarded.store.tables
  have hascending := fullPass_ascending (R := x.refused) hshows x.guarded.store.tables
  refine ⟨World.run_followed place w ops, _, _, done, hrun, ?_, hascending, ?_⟩
  · rw [hdone.events, htold]
    rfl
  · rw [List.length_map, ← hindexed]
    rfl

end Index
end SymbolGraph
