import Mathlib.Data.List.Induction
import SymbolGraph.Proofs.Outcome
import SymbolGraph.Proofs.Reading
import SymbolGraph.Proofs.Runs

/-! What a store says is what files said. A store is coherent if every node belongs to a recorded file, and
    the record and the nodes of every file are those of a text that the file once had. Every verdict keeps a
    store coherent, the second pass changes nothing that matters, and so every operation of a run keeps it
    coherent, whether it succeeds or not. -/

namespace SymbolGraph

open Store

/-- The row and the nodes are those of the text in the language, with these symbols. -/
structure Store.FileRow.Describes (row : FileRow) (nodes : List NodeRow) (language : Language) (text : String)
    (symbols : List Symbol) : Prop where
  language : row.language = language.id
  hash : row.hash = Text.contentHash (Text.dropMark text)
  size : row.size = .ofNat text.utf8ByteSize
  nodes : List.Forall₂ NodeRow.Carries nodes symbols

/-- A row with a readable time can be read, and its record has the size of the text. -/
theorem Store.FileRow.Describes.record {row : FileRow} {nodes : List NodeRow} {language : Language} {text : String}
    {symbols : List Symbol} (h : row.Describes nodes language text symbols)
    (htime : (Time.Instant.read row.indexedAt).isSome) :
    ∃ record, row.record = .ok record ∧ record.size = keptOffset text.utf8ByteSize := by
  obtain ⟨time, htime⟩ := Option.isSome_iff_exists.mp htime
  refine ⟨⟨row.path, row.language, row.hash, keptOffset text.utf8ByteSize, time⟩, ?_, rfl⟩
  rw [FileRow.record, h.size, readTime, htime]
  rfl

/-- The rows of files and nodes are those of texts that the files had. -/
structure Tables.Coherent (w : Index.Workspace) (had : String → String → Prop) (t : Tables) : Prop where
  paths : t.files.Pairwise (·.path < ·.path)
  times : ∀ row ∈ t.files, (Time.Instant.read row.indexedAt).isSome
  ids : t.nodes.Pairwise (·.id < ·.id)
  unused : ∀ node ∈ t.nodes, node.id < t.nextNode
  owned : ∀ node ∈ t.nodes, ∃ row ∈ t.files, row.path = node.path
  described : ∀ row ∈ t.files, ∃ language text, had row.path text ∧ w.accepts row.path = some language ∧
    row.Describes (t.nodesAt row.path) language text (w.extract language text).found.symbols

namespace Index

theorem extract_hash (w : Workspace) (language : Language) (text : String) :
    (w.extract language text).hash = Text.contentHash (Text.dropMark text) :=
  Extraction.extractOrRecover_hash language (some text) _ _

end Index

namespace Tables.Coherent
variable {w : Index.Workspace} {had had' : String → String → Prop} {t u : Tables} {path : String}

theorem of_no_files (t : Tables) (hf : t.files = []) (hn : t.nodes = []) : t.Coherent w had where
  paths := by simp [hf]
  times := by simp [hf]
  ids := by simp [hn]
  unused := by simp [hn]
  owned := by simp [hn]
  described := by simp [hf]

/-- Only the rows of files and nodes matter. -/
theorem of_frame (h : t.Coherent w had) (hf : u.files = t.files) (hn : u.nodes = t.nodes)
    (hnext : u.nextNode = t.nextNode) : u.Coherent w had where
  paths := by simpa only [hf] using h.paths
  times := by simpa only [hf] using h.times
  ids := by simpa only [hn] using h.ids
  unused := by simpa only [hn, hnext] using h.unused
  owned := by simpa only [hf, hn] using h.owned
  described := by simpa only [nodesAt, hf, hn] using h.described

theorem mono (h : t.Coherent w had) (hhad : ∀ path text, had path text → had' path text) : t.Coherent w had' where
  paths := h.paths
  times := h.times
  ids := h.ids
  unused := h.unused
  owned := h.owned
  described row hrow := by
    obtain ⟨language, text, ht, hd⟩ := h.described row hrow
    exact ⟨language, text, hhad _ _ ht, hd⟩

/-- Of the workspace only what it accepts and extracts matters. -/
theorem of_workspace {w' : Index.Workspace} (h : t.Coherent w had) (haccepts : w'.accepts = w.accepts)
    (hextract : w'.extract = w.extract) : t.Coherent w' had where
  paths := h.paths
  times := h.times
  ids := h.ids
  unused := h.unused
  owned := h.owned
  described := by simpa only [haccepts, hextract] using h.described

/-! ### What a verdict keeps -/

theorem withoutFile (h : t.Coherent w had) (path : String) : (t.withoutFile path).Coherent w had where
  paths := h.paths.filter _
  times row hrow := h.times row (List.mem_of_mem_filter hrow)
  ids := h.ids.filter _
  unused node hnode := h.unused node (List.mem_of_mem_filter hnode)
  owned node hnode := by
    obtain ⟨hnode, hne⟩ := List.mem_filter.mp hnode
    obtain ⟨row, hrow, hp⟩ := h.owned node hnode
    exact ⟨row, List.mem_filter.mpr ⟨hrow, by rwa [hp]⟩, hp⟩
  described row hrow := by
    obtain ⟨hrow, hne⟩ := List.mem_filter.mp hrow
    obtain ⟨language, text, ht, ha, hd⟩ := h.described row hrow
    exact ⟨language, text, ht, ha, (t.nodesAt_withoutFile_of_ne (by simpa using hne)).symm ▸ hd⟩

theorem withFile (h : t.Coherent w had) {language : Language} {text : String} (ha : w.accepts path = some language)
    (ht : had path text) {now : Time.Instant} (hnow : (Time.Instant.read now.text).isSome) :
    (t.withFile (.ofRecord ⟨path, language.id, (w.extract language text).hash, text.utf8ByteSize, now⟩)
      (w.extract language text).found.symbols).Coherent w had where
  paths := putFile_ascending _ h.paths
  times row hrow := by
    rcases mem_putFile h.paths hrow with rfl | ⟨hrow, -⟩
    · exact hnow
    · exact h.times row hrow
  ids := by
    -- The old numbers are below the next one, and the new ones start there.
    refine List.pairwise_append.mpr ⟨h.ids.filter _, NodeRow.numbered_ascending, fun a ha b hb => ?_⟩
    exact Int.lt_of_lt_of_le (h.unused a (List.mem_of_mem_filter ha)) (NodeRow.id_of_mem_numbered hb).1
  unused node hnode := by
    rcases List.mem_append.mp hnode with hnode | hnode
    · refine Int.lt_of_lt_of_le (h.unused node (List.mem_of_mem_filter hnode)) ?_
      exact Int.le_add_of_nonneg_right (Int.natCast_nonneg _)
    · exact (NodeRow.id_of_mem_numbered hnode).2
  owned node hnode := by
    rcases List.mem_append.mp hnode with hnode | hnode
    · obtain ⟨hnode, hne⟩ := List.mem_filter.mp hnode
      obtain ⟨row, hrow, hp⟩ := h.owned node hnode
      exact ⟨row, mem_putFile_of_ne hrow (by simpa [hp] using hne), hp⟩
    · exact ⟨_, mem_putFile_self _ _, (NodeRow.path_of_mem_numbered hnode).symm⟩
  described row hrow := by
    rcases mem_putFile h.paths hrow with rfl | ⟨hrow, hne⟩
    · refine ⟨language, text, ht, ha, rfl, Index.extract_hash w language text, rfl, ?_⟩
      rw [nodesAt_withFile_self]
      exact NodeRow.numbered_carries
    · obtain ⟨language', text', ht', ha', hd⟩ := h.described row hrow
      exact ⟨language', text', ht', ha', (t.nodesAt_withFile_of_ne _ hne).symm ▸ hd⟩

/-! ### Reading -/

theorem readable (h : t.Coherent w had) : t.Readable where
  files row hrow := by
    obtain ⟨language, text, -, -, hd⟩ := h.described row hrow
    obtain ⟨record, hrecord, -⟩ := hd.record (h.times row hrow)
    exact ⟨record, hrecord⟩
  nodes row hrow := by
    obtain ⟨file, hfile, hpath⟩ := h.owned row hrow
    obtain ⟨language, text, -, -, hd⟩ := h.described file hfile
    have hmem : row ∈ t.nodesAt file.path := List.mem_filter.mpr ⟨hrow, by simp [hpath]⟩
    obtain ⟨symbol, -, hcarries⟩ := exists_paired hd.nodes hmem
    exact ⟨_, hcarries.node⟩

/-- Nothing is known of a path that never had a text. -/
theorem unknown (h : t.Coherent w had) (hnone : ∀ text, ¬ had path text) : t.knows path = false := by
  have hfiles : ∀ row ∈ t.files, row.path ≠ path := fun row hrow hp => by
    obtain ⟨language, text, ht, -⟩ := h.described row hrow
    exact hnone text (hp ▸ ht)
  refine knows_eq_false.mpr ⟨fun node hnode hp => ?_, hfiles⟩
  obtain ⟨row, hrow, hpath⟩ := h.owned node hnode
  exact hfiles row hrow (hpath.trans hp)

end Tables.Coherent

namespace Index
variable {R : List String} {w : Workspace} {had : String → String → Prop} {path : String}

/-- The texts of the workspace are among those that the files had, and its clock is of use. -/
structure Workspace.Shows (w : Workspace) (had : String → String → Prop) : Prop where
  texts : ∀ path text, w.source? path = some text → had path text
  time : (Time.Instant.read w.now.text).isSome

theorem judge_stored {known : Except StoreError (Option FileRecord)} {language : Language} {text : String}
    (h : w.judge R known path = .stored language text) :
    w.accepts path = some language ∧ w.source? path = some text ∧ path ∉ R := by
  unfold Workspace.judge at h
  split at h
  · next l s hl hs =>
    split at h
    · cases h
    · split at h
      · cases h
      · split at h
        · cases h
        · next hR =>
          cases h
          exact ⟨hl, hs, hR⟩
  · cases h

theorem judgeUpdate_stored {known : Except StoreError (Option FileRecord)} {language : Language} {text : String}
    (h : w.judgeUpdate R known path = .stored language text) : w.judge R known path = .stored language text := by
  unfold Workspace.judgeUpdate at h
  split at h
  · exact h
  · split at h <;> cases h

/-- A verdict keeps the tables coherent if what it stores is what the workspace holds. -/
theorem Verdict.tables_coherent {t : Tables} (h : t.Coherent w had) (hw : w.Shows had) (v : Verdict)
    (hv : ∀ language text, v = .stored language text → w.accepts path = some language ∧ w.source? path = some text) :
    (v.tables w path t).Coherent w had := by
  cases v with
  | stored language text =>
    obtain ⟨ha, hs⟩ := hv language text rfl
    exact h.withFile ha (hw.texts path text hs) hw.time
  | erased => exact h.withoutFile path
  | skipped => exact h
  | unknown => exact h
  | kept => exact h
  | refused e => exact h
  | stuck => exact h

theorem settle_coherent {x : Standing} (h : x.tables.Coherent w had) (hw : w.Shows had) (path : String) :
    (x.settle w R path).tables.Coherent w had :=
  Verdict.tables_coherent h hw _ fun _ _ hv => ⟨(judge_stored hv).1, (judge_stored hv).2.1⟩

theorem update_coherent {x : Standing} (h : x.tables.Coherent w had) (hw : w.Shows had) (given : String) :
    (x.update w R given).tables.Coherent w had := by
  cases hrel : Path.relative? w.rootPath given with
  | none =>
    rw [Standing.update_outside hrel]
    exact h
  | some path =>
    rw [Standing.tables_inside hrel]
    refine Verdict.tables_coherent h hw _ fun _ _ hv => ?_
    exact ⟨(judge_stored (judgeUpdate_stored hv)).1, (judge_stored (judgeUpdate_stored hv)).2.1⟩

theorem firstPass_coherent {t : Tables} (h : t.Coherent w had) (hw : w.Shows had) (paths : List String) :
    (Run.firstPass w R t paths).tables.Coherent w had :=
  List.foldlRecOn paths (Standing.update w R) (motive := fun x => x.tables.Coherent w had) h
    fun _ hx given _ => update_coherent hx hw given

theorem fullPass_coherent (hw : w.Shows had) (t : Tables) : (Run.fullPass w R t).tables.Coherent w had :=
  List.foldlRecOn _ (Standing.settle w R) (motive := fun x => x.tables.Coherent w had) (.of_no_files _ rfl rfl)
    fun _ hx path _ => settle_coherent hx hw path

/-! ### What an action keeps -/

/-- Started in a calm session whose tables are of the kind, the action ends in one, whether it succeeds or
    not. -/
def Keeps {α : Type} (R : List String) (P : Tables → Prop) (x : Action α) : Prop :=
  ∀ s : Session, s.Calm R → P s.store.tables → (x s).2.Calm R ∧ P (x s).2.store.tables

namespace Keeps
variable {α β : Type} {P : Tables → Prop} {x : Action α}

theorem of_became (h : ∀ s : Session, s.Calm R → P s.store.tables →
    ∃ result s' t told, x s = (result, s') ∧ s.Became t told s' ∧ P t) : Keeps R P x := fun s hs hP => by
  obtain ⟨result, s', t, told, hx, hb, ht⟩ := h s hs hP
  rw [hx]
  exact ⟨hb.calm hs, hb.tables ▸ ht⟩

theorem pure (a : α) : Keeps R P (Pure.pure a : Action α) := fun _ hs hP => ⟨hs, hP⟩

theorem throw (e : Error) : Keeps R P (throw e : Action α) := fun _ hs hP => ⟨hs, hP⟩

theorem bind {f : α → Action β} (hx : Keeps R P x) (hf : ∀ a, Keeps R P (f a)) : Keeps R P (x >>= f) :=
  fun s hs hP => by
    obtain ⟨hs₁, hP₁⟩ := hx s hs hP
    rw [Fallible.bind_apply]
    rcases hxs : x s with ⟨_ | a, s₁⟩ <;> rw [hxs] at hs₁ hP₁
    · exact ⟨hs₁, hP₁⟩
    · exact hf a s₁ hs₁ hP₁

theorem attempt (hx : Keeps R P x) : Keeps R P (Action.attempt x) := fun s hs hP => hx s hs hP

theorem tell (e : Event) : Keeps R P (Action.tell e) := fun _ hs hP => ⟨⟨hs.gate, hs.idle⟩, hP⟩

theorem report (p : Progress) : Keeps R P (Action.report p) := fun _ hs hP => ⟨⟨hs.gate, hs.idle⟩, hP⟩

theorem change {call : Call} {f : Tables → Tables} (hg : ∀ n, Gate.refusing R n call = none)
    (hf : ∀ t, P t → P (f t)) : Keeps R P (Action.change call fun st => .ok (st.change f)) :=
  .of_became fun s hs hP => by
    obtain ⟨s', h', hb⟩ := Action.change_became (s := s) call f (by rw [hs.gate]; exact hg _)
    exact ⟨_, s', _, _, h', hb, hf _ hP⟩

theorem query {call : Call} {f : Store → Except StoreError α} (hg : ∀ n, Gate.refusing R n call = none) :
    Keeps R P (Action.query call f) :=
  .of_became fun s hs hP => by
    obtain ⟨s', h', hb⟩ := Action.query_of_none (s := s) call f (by rw [hs.gate]; exact hg _)
    exact ⟨_, s', _, _, h', hb, hP⟩

end Keeps

theorem coherent_linked {t : Tables} (h : t.Coherent w had) (now : Time.Instant) (ls : List Link) :
    (t.linkAll now ls).Coherent w had :=
  h.of_frame (t.linkAll_files now ls) (t.linkAll_nodes now ls) (t.linkAll_nextNode now ls)

/-- A call succeeds, and leaves coherent tables with the files and nodes that its first pass leaves. -/
theorem indexFiles_coherent {s : Session} (hw : w.Shows had) (hs : s.Calm R) (ht : s.store.tables.Coherent w had)
    (paths : List String) :
    let x := Run.firstPass w R s.store.tables paths
    ∃ stats done, Run.indexFiles w paths s = (.ok stats, done) ∧ done.Calm R ∧ done.store.tables.Coherent w had ∧
      done.store.tables.files = x.tables.files ∧ done.store.tables.nodes = x.tables.nodes := by
  intro x
  have hpass := firstPass_coherent (R := R) ht hw paths
  obtain ⟨done, hrun, hdone⟩ := Run.indexFiles_became hs paths hpass.readable
  refine ⟨_, done, hrun, hdone.calm hs, ?_, ?_, ?_⟩
  · rw [hdone.tables]
    exact coherent_linked hpass _ _
  · rw [hdone.tables]
    exact Tables.linkAll_files ..
  · rw [hdone.tables]
    exact Tables.linkAll_nodes ..

/-- So does a full index, whatever the tables were. -/
theorem fullIndex_coherent {s : Session} (hw : w.Shows had) (hs : s.Calm R) :
    let x := Run.fullPass w R s.store.tables
    ∃ stats done, Run.fullIndex w s = (.ok stats, done) ∧ done.Calm R ∧ done.store.tables.Coherent w had ∧
      done.store.tables.files = x.tables.files ∧ done.store.tables.nodes = x.tables.nodes := by
  intro x
  have hpass := fullPass_coherent (R := R) hw s.store.tables
  obtain ⟨done, hrun, hdone⟩ := Run.fullIndex_became hs hpass.readable
  refine ⟨_, done, hrun, hdone.calm hs, ?_, ?_, ?_⟩
  · rw [hdone.tables]
    exact (coherent_linked hpass _ _).of_frame rfl rfl rfl
  · rw [hdone.tables]
    exact Tables.linkAll_files ..
  · rw [hdone.tables]
    exact Tables.linkAll_nodes ..

theorem keeps_pending (now : Time.Instant) (registry : Registry) (files : List Pending) :
    Keeps R (Tables.Coherent w had) (Resolve.pending now registry files) :=
  .of_became fun s hs hP => by
    rcases Resolve.pending_cases hs now registry files with ⟨s', h, hb⟩ | ⟨-, e, s', h, hb⟩
    · exact ⟨_, s', _, _, h, hb, coherent_linked hP _ _⟩
    · exact ⟨_, s', _, _, h, hb, hP⟩

theorem keeps_removeFile (path : String) : Keeps R (Tables.Coherent w had) (Run.removeFile path) :=
  .of_became fun s hs hP => by
    by_cases hp : path ∈ R
    · obtain ⟨s', h, hb⟩ := Run.removeFile_refused hs hp
      exact ⟨_, s', _, _, h, hb, hP⟩
    · obtain ⟨s', h, hb⟩ := Run.removeFile_became hs hp
      exact ⟨_, s', _, _, h, hb, hP.withoutFile path⟩

section
variable (hw : w.Shows had)
include hw

theorem keeps_processFile (path : String) (t : Tally) : Keeps R (Tables.Coherent w had) (Run.processFile w path t) :=
  .of_became fun s hs hP => by
    obtain ⟨s', h, hb⟩ := Run.processFile_became hs w path t
    refine ⟨_, s', _, _, h, hb, Verdict.tables_coherent hP hw _ fun language text hv => ?_⟩
    exact ⟨(judge_stored hv).1, (judge_stored hv).2.1⟩

theorem keeps_updateFile (given : String) (t : Tally) : Keeps R (Tables.Coherent w had) (Run.updateFile w given t) :=
  .of_became fun s hs hP => by
    cases hrel : Path.relative? w.rootPath given with
    | none =>
      exact ⟨_, s, _, _, Run.updateFile_outside w t s hrel, .refl s, hP⟩
    | some path =>
      obtain ⟨s', h, hb⟩ := Run.updateFile_became hs w t hrel
      refine ⟨_, s', _, _, h, hb, Verdict.tables_coherent hP hw _ fun language text hv => ?_⟩
      exact ⟨(judge_stored (judgeUpdate_stored hv)).1, (judge_stored (judgeUpdate_stored hv)).2.1⟩

theorem keeps_processAll (files : List Workspace.Found) (t : Tally) :
    Keeps R (Tables.Coherent w had) (Run.processAll w files t) := by
  induction files generalizing t with
  | nil => exact .pure t
  | cons f rest ih => exact .bind (keeps_processFile hw f.path t) fun t => .bind (.report _) fun _ => ih t

theorem keeps_processBatches (groups : List (List Workspace.Found)) (t : Tally) :
    Keeps R (Tables.Coherent w had) (Run.processBatches w groups t) := by
  induction groups generalizing t with
  | nil => exact .pure t
  | cons batch rest ih => exact .bind (keeps_processAll hw batch t) fun t => ih t

theorem keeps_updateAll (paths : List String) (t : Tally) :
    Keeps R (Tables.Coherent w had) (Run.updateAll w paths t) := by
  induction paths generalizing t with
  | nil => exact .pure t
  | cons given rest ih => exact .bind (keeps_updateFile hw given t) fun t => ih t

theorem keeps_fullIndex : Keeps R (Tables.Coherent w had) (Run.fullIndex w) := by
  have hclear : Keeps R (Tables.Coherent w had) Action.clear :=
    .change (fun _ => rfl) fun t _ => .of_no_files _ rfl rfl
  have hrun : Keeps R (Tables.Coherent w had) (Run.fullRun w) :=
    .bind hclear fun _ => .bind (.report _) fun _ => .bind (keeps_processBatches hw _ _) fun _ =>
      .bind (.report _) fun _ => .bind (keeps_pending _ _ _) fun _ => .bind (.report _) fun _ =>
        .bind (.query fun _ => rfl) fun _ => .pure _
  have hrecord : ∀ stats, Keeps R (Tables.Coherent w had) (Run.recordRun w stats) := fun stats =>
    .bind (.change (fun _ => rfl) fun t ht => ht.of_frame rfl rfl rfl) fun _ =>
      .change (fun _ => rfl) fun t ht => ht.of_frame rfl rfl rfl
  refine .bind (.tell _) fun _ => .bind hrun.attempt fun result => ?_
  cases result with
  | ok stats => exact .bind (hrecord stats).attempt fun _ => .bind (.tell _) fun _ => .pure _
  | error e => exact .bind (.report _) fun _ => .bind (.tell _) fun _ => .throw e

theorem keeps_indexFiles (paths : List String) : Keeps R (Tables.Coherent w had) (Run.indexFiles w paths) := by
  have hrun : Keeps R (Tables.Coherent w had) (Run.partialRun w paths) :=
    .bind (keeps_updateAll hw paths _) fun _ => .bind (keeps_pending _ _ _) fun _ =>
      .bind (.query fun _ => rfl) fun _ => .pure _
  refine .bind hrun.attempt fun result => ?_
  cases result with
  | ok stats => exact .pure _
  | error e => exact .bind (.tell _) fun _ => .throw e

theorem keeps_handle (c : Change) : Keeps R (Tables.Coherent w had) (Watch.handle w c) := by
  cases c with
  | changed path => exact .bind (keeps_indexFiles hw [path]).attempt fun _ => .pure _
  | removed path =>
    refine .bind (keeps_removeFile path).attempt fun result => ?_
    cases result with
    | ok _ => exact .pure _
    | error e => exact .tell _

theorem keeps_step (d : Drain Change) : Keeps R (Tables.Coherent w had) (Watch.step w d) := by
  unfold Watch.step
  dsimp only
  split
  · exact .bind (keeps_handle hw _) fun _ _ hs hP => ⟨⟨hs.gate, hs.idle⟩, hP⟩
  · exact fun _ hs hP => ⟨⟨hs.gate, hs.idle⟩, hP⟩

/-- A drain keeps the tables coherent, however many steps it takes. -/
theorem keeps_run (fuel : Nat) (d : Drain Change) : Keeps R (Tables.Coherent w had) (Watch.run w fuel d) := by
  induction fuel generalizing d with
  | zero => exact .pure d
  | succ fuel ih =>
    rw [Watch.run]
    split
    · exact .pure d
    · exact .bind (keeps_step hw d) ih

theorem keeps_drain : Keeps R (Tables.Coherent w had) (Watch.drain w) :=
  .bind (fun _ hs hP => ⟨hs, hP⟩) fun _ => .bind (keeps_run hw _ _) fun _ => .pure _

end

/-! ### Runs -/

/-- Some time before or in the state after the run, the path had the text. -/
def World.Had (w : Workspace) (x : World) (ops : List Operation) (path text : String) : Prop :=
  ∃ past, past <+: ops ∧ ((x.run w past).workspace w).source? path = some text

/-- No transaction is open, and the tables are coherent. -/
def World.Coherent (w : Workspace) (had : String → String → Prop) (x : World) : Prop :=
  x.session.store.before? = none ∧ x.session.store.tables.Coherent w had

theorem World.Coherent.after {α : Type} {x : World} {action : Action α} (h : x.Coherent w had)
    (hk : Keeps x.refused (Tables.Coherent w had) action) : (x.after action).Coherent w had := by
  obtain ⟨hcalm, ht⟩ := hk x.guarded ⟨rfl, h.1⟩ h.2
  exact ⟨hcalm.idle, ht⟩

/-- What a store is coherent with is only what a workspace accepts and extracts, which stays the same in a run. -/
theorem Keeps.workspace {α : Type} {action : Action α} {x : World}
    (h : Keeps R (Tables.Coherent (x.workspace w) had) action) : Keeps R (Tables.Coherent w had) action :=
  fun s hs hP => by
    obtain ⟨hcalm, ht⟩ := h s hs (hP.of_workspace rfl rfl)
    exact ⟨hcalm, ht.of_workspace rfl rfl⟩

/-- Every operation keeps a store coherent. -/
theorem World.Coherent.perform {x : World} (h : x.Coherent w had) (hw : (x.workspace w).Shows had)
    (op : Operation) : (x.perform w op).Coherent w had := by
  cases op with
  | fullIndex => exact h.after (keeps_fullIndex hw).workspace
  | indexFiles paths => exact h.after (keeps_indexFiles hw paths).workspace
  | removeFile path => exact h.after (keeps_removeFile path)
  | enqueue c => exact h
  | drain => exact h.after (keeps_drain hw).workspace
  | edit disk => exact h
  | refuse path => exact h
  | allow path => exact h
  | arm hook => exact h
  | wait clock => exact h

/-- What the workspace shows after a run was shown in it. -/
theorem World.run_shows (x : World) (w : Workspace) (ops : List Operation) :
    ((x.run w ops).workspace w).Shows (x.Had w ops) :=
  ⟨fun _ _ hs => ⟨ops, List.prefix_refl ops, hs⟩, (x.run w ops).clock.readable⟩

theorem World.Coherent.run {x : World} (h : x.Coherent w (x.Had w [])) (ops : List Operation) :
    (x.run w ops).Coherent w (x.Had w ops) := by
  induction ops using List.reverseRecOn with
  | nil => exact h
  | append_singleton ops op ih =>
    -- What was shown before the last operation is shown in a prefix of the longer run too.
    have hstep := ih.perform (x.run_shows w ops) op
    rw [World.run, List.foldl_append]
    refine ⟨hstep.1, hstep.2.mono fun path text ⟨past, hpast, hs⟩ => ⟨past, ?_, hs⟩⟩
    exact hpast.trans (List.prefix_append ops [op])

theorem World.start_coherent (place : Place) (had : String → String → Prop) : (World.start place).Coherent w had :=
  ⟨rfl, .of_no_files _ rfl rfl⟩

/-- Between any two operations of a run no transaction is open, no path has two records, every node has its
    file's record, and for every record there is a text that the file had: the record holds the text's
    language, digest and size, and the nodes of the path, in the order of their numbers, are the symbols that
    are found in the text. Sizes and offsets are those that a column of 64 bits with a sign keeps. -/
theorem store_says_what_files_said (place : Place) (w : Workspace) (ops : List Operation) :
    let s := ((World.start place).run w ops).session.store
    s.before? = none ∧ (s.tables.files.map (·.path)).Nodup ∧
    (∀ node ∈ s.tables.nodes, ∃ row ∈ s.tables.files, row.path = node.path) ∧
    ∀ row ∈ s.tables.files, ∃ language text,
      (World.start place).Had w ops row.path text ∧ w.accepts row.path = some language ∧
      row.language = language.id ∧ row.hash = Text.contentHash (Text.dropMark text) ∧
      row.size = .ofNat text.utf8ByteSize ∧
      ∃ nodes, s.nodesOf row.path = .ok nodes ∧ nodes.Pairwise (·.id < ·.id) ∧
        nodes.map (·.symbol) = (w.extract language text).found.symbols.map keptSymbol := by
  obtain ⟨hidle, h⟩ := (World.start_coherent (w := w) place _).run ops
  refine ⟨hidle, ?_, h.owned, fun row hrow => ?_⟩
  · exact List.pairwise_map.mpr (h.paths.imp fun hlt => hlt.ne)
  · obtain ⟨language, text, hhad, haccepts, hd⟩ := h.described row hrow
    obtain ⟨nodes, hread, hids, hsymbols⟩ := readNodes_of_carries hd.nodes
    have hrows := h.ids.filter (·.path == row.path)
    refine ⟨language, text, hhad, haccepts, hd.language, hd.hash, hd.size, nodes, hread, ?_, hsymbols⟩
    rw [← List.pairwise_map (f := GraphNode.id) (R := (· < ·)), hids]
    exact List.pairwise_map.mpr hrows

end Index
end SymbolGraph
