import SymbolGraph.Proofs.Resolution

/-! What whole runs come to. As long as nothing but changes of nodes is refused and the rows that the first
    pass leaves can be read, a run succeeds: it counts what its verdicts and its links count, and leaves the
    tables of the first pass with the links added. -/

namespace SymbolGraph

open Store Index

/-- The tables with the counts and the time of a full index. -/
def Tables.recorded (t : Tables) (w : Workspace) (stats : Stats) : Tables :=
  { t with checkpoints := putCheckpoint timeKey w.now.text (putCheckpoint statsKey stats.text t.checkpoints) }

namespace Index

/-! ### Verdicts on tables that can be read -/

/-- The digest in the record of a path. -/
def hashAt (t : Tables) (path : String) : Option String := (t.files.find? (·.path == path)).map (·.hash)

/-- What becomes of an existing path whose record has the digest. -/
def Workspace.rule (w : Workspace) (R : List String) (known : Option String) (path : String) : Verdict :=
  match w.accepts path, w.source? path with
  | some language, some text =>
    if known = some (Text.contentHash (Text.dropMark text)) then .kept
    else if path ∈ R then .refused (w.extract language text)
    else .stored language text
  | _, _ => .skipped

theorem record_hash {row : FileRow} {record : FileRecord} (h : row.record = .ok record) : record.hash = row.hash := by
  unfold FileRow.record at h
  cases hs : row.size.integer? with
  | error e =>
    rw [hs] at h
    cases h
  | ok size =>
    cases ht : readTime row.indexedAt with
    | error e =>
      rw [hs, ht] at h
      cases h
    | ok time =>
      rw [hs, ht] at h
      cases h
      rfl

/-- Where records can be read, their digests decide. -/
theorem judge_eq_rule {t : Tables} (h : t.Readable) (w : Workspace) (R : List String) (path : String) :
    w.judge R (t.file? path) path = w.rule R (hashAt t path) path := by
  have hknown : ∃ found, t.file? path = .ok found ∧ found.map (·.hash) = hashAt t path := by
    unfold Tables.file? Store.file? hashAt
    cases hfind : t.files.find? (·.path == path) with
    | none => exact ⟨none, rfl, rfl⟩
    | some row =>
      obtain ⟨record, hrecord⟩ := h.files row (List.mem_of_find?_eq_some hfind)
      exact ⟨some record, congrArg (Except.map some) hrecord, congrArg some (record_hash hrecord)⟩
  obtain ⟨found, hfile, hhash⟩ := hknown
  unfold Workspace.judge Workspace.rule
  rw [hfile, ← hhash]
  cases w.accepts path with
  | none => rfl
  | some language =>
    cases w.source? path with
    | none => rfl
    | some text => cases found <;> simp

/-! ### The first pass and the links -/

/-- The links of the files that a first pass stored. -/
def Standing.links (x : Standing) (registry : Registry) : List Link :=
  Resolve.links x.tables registry x.tables.readAll x.tally.pending

/-- The counts of a run whose first pass ended so. -/
def Standing.stats (x : Standing) (w : Workspace) : Stats :=
  { x.tally.stats.absorb (Resolve.counts x.tables w.registry x.tables.readAll x.tally.pending) with
    duration := w.elapsed }

/-- The tables after a run whose first pass ended so. -/
def Standing.linked (x : Standing) (w : Workspace) : Tables := x.tables.linkAll w.now (x.links w.registry)

namespace Run
variable {R : List String} {s : Session} {w : Workspace}

theorem save_calm (h : s.Calm R) : ∃ s', Action.save s = (.ok (), s') ∧ s.Became s.store.tables [] s' := by
  obtain ⟨s', h', b⟩ := Action.query_of_none (s := s) .save (·.save) (by rw [h.gate]; rfl)
  have hsave : s.store.save = .ok () := by simp [Store.save, Store.inTransaction, h.idle]
  rw [hsave] at h'
  exact ⟨s', h', b⟩

theorem pending_became (h : s.Calm R) (hr : s.store.tables.Readable) (now : Time.Instant) (registry : Registry)
    (files : List Pending) :
    ∃ s', Resolve.pending now registry files s =
        (.ok (Resolve.counts s.store.tables registry s.store.tables.readAll files), s') ∧
      s.Became (s.store.tables.linkAll now (Resolve.links s.store.tables registry s.store.tables.readAll files)) [] s' :=
  (Resolve.pending_cases h now registry files).resolve_right fun hn => hn.1 hr

/-! ### Some files -/

/-- The first pass over the paths from the tables on. -/
def firstPass (w : Workspace) (R : List String) (t : Tables) (paths : List String) : Standing :=
  paths.foldl (.update w R) { tables := t }

theorem indexFiles_became (h : s.Calm R) (paths : List String)
    (hr : (firstPass w R s.store.tables paths).tables.Readable) :
    ∃ s', indexFiles w paths s = (.ok ((firstPass w R s.store.tables paths).stats w), s') ∧
      s.Became ((firstPass w R s.store.tables paths).linked w) (firstPass w R s.store.tables paths).told s' := by
  obtain ⟨s₁, h₁, b₁⟩ := updateAll_became (w := w) h paths (x := { tables := s.store.tables }) (.refl s)
  have hr₁ : s₁.store.tables.Readable := b₁.tables ▸ hr
  obtain ⟨s₂, h₂, b₂⟩ := pending_became (b₁.calm h) hr₁ w.now w.registry (firstPass w R s.store.tables paths).tally.pending
  obtain ⟨s₃, h₃, b₃⟩ := save_calm (b₂.calm (b₁.calm h))
  rw [b₂.tables] at b₃
  rw [b₁.tables] at h₂ b₂ b₃
  have hrun : partialRun w paths s = (.ok ((firstPass w R s.store.tables paths).stats w), s₃) := by
    rw [partialRun, Fallible.bind_ok h₁]
    exact (Fallible.bind_ok h₂).trans (Fallible.bind_ok h₃)
  exact ⟨s₃, Action.attempt_ok hrun, (b₁.quietly b₂).quietly b₃⟩

/-! ### All files -/

/-- The first pass of a full index from the tables on. -/
def fullPass (w : Workspace) (R : List String) (t : Tables) : Standing :=
  (w.scan.map (·.path)).foldl (.settle w R)
    { tables := { t with files := [], nodes := [], edges := [] }
      tally := { stats := { filesSeen := w.scan.length } } }

theorem fullPass_became (h : s.Calm R) :
    let x := fullPass w R s.store.tables
    ∃ s₁ s₂ s₃ s₄, Action.clear s = (.ok (), s₁) ∧ Action.report (.extracting w.scan.length) s₁ = (.ok (), s₂) ∧
      processBatches w (batches w.config.batchSize w.scan) { stats := { filesSeen := w.scan.length } } s₂ =
        (.ok x.tally, s₃) ∧
      Action.report (.resolving x.tally.pending.length) s₃ = (.ok (), s₄) ∧ s.Became x.tables x.told s₄ := by
  intro x
  obtain ⟨s₁, h₁, b₁⟩ := Action.change_became (s := s) .clear
    (fun t => { t with files := [], nodes := [], edges := [] }) (by rw [h.gate]; rfl)
  obtain ⟨s₂, h₂, b₂⟩ := Action.report_became (.extracting w.scan.length) s₁
  rw [b₁.tables] at b₂
  have b₂ := b₁.quietly b₂
  obtain ⟨s₃, h₃, b₃⟩ := processAll_became (w := w) (b₂.calm h) w.scan
    (x := { tables := _, tally := { stats := { filesSeen := w.scan.length } } }) b₂
  obtain ⟨s₄, h₄, b₄⟩ := Action.report_became (.resolving x.tally.pending.length) s₃
  rw [b₃.tables] at b₄
  refine ⟨s₁, s₂, s₃, s₄, h₁, h₂, ?_, h₄, b₃.quietly b₄⟩
  rw [processBatches_eq, flatten_batches]
  exact h₃

theorem fullRun_became (h : s.Calm R) (hr : (fullPass w R s.store.tables).tables.Readable) :
    ∃ s', fullRun w s = (.ok ((fullPass w R s.store.tables).stats w), s') ∧
      s.Became ((fullPass w R s.store.tables).linked w) (fullPass w R s.store.tables).told s' := by
  obtain ⟨s₁, s₂, s₃, s₄, h₁, h₂, h₃, h₄, b₄⟩ := fullPass_became (w := w) h
  have hr₄ : s₄.store.tables.Readable := b₄.tables ▸ hr
  obtain ⟨s₅, h₅, b₅⟩ := pending_became (b₄.calm h) hr₄ w.now w.registry (fullPass w R s.store.tables).tally.pending
  obtain ⟨s₆, h₆, b₆⟩ := Action.report_became .finished s₅
  rw [b₅.tables] at b₆
  rw [b₄.tables] at h₅ b₅ b₆
  have b₆ := (b₄.quietly b₅).quietly b₆
  obtain ⟨s₇, h₇, b₇⟩ := save_calm (b₆.calm h)
  rw [b₆.tables] at b₇
  refine ⟨s₇, ?_, b₆.quietly b₇⟩
  rw [fullRun]
  refine (Fallible.bind_ok h₁).trans ((Fallible.bind_ok h₂).trans ((Fallible.bind_ok h₃).trans ?_))
  exact (Fallible.bind_ok h₄).trans ((Fallible.bind_ok h₅).trans ((Fallible.bind_ok h₆).trans (Fallible.bind_ok h₇)))

theorem recordRun_became (h : s.Calm R) (stats : Stats) :
    ∃ s', recordRun w stats s = (.ok (), s') ∧ s.Became (s.store.tables.recorded w stats) [] s' := by
  obtain ⟨s₁, h₁, b₁⟩ := Action.change_became (s := s) (.setCheckpoint statsKey)
    (fun t => { t with checkpoints := Tables.putCheckpoint statsKey stats.text t.checkpoints }) (by rw [h.gate]; rfl)
  obtain ⟨s₂, h₂, b₂⟩ := Action.change_became (s := s₁) (.setCheckpoint timeKey)
    (fun t => { t with checkpoints := Tables.putCheckpoint timeKey w.now.text t.checkpoints })
    (by rw [(b₁.calm h).gate]; rfl)
  rw [b₁.tables] at b₂
  exact ⟨s₂, (Fallible.bind_ok h₁).trans h₂, b₁.quietly b₂⟩

theorem fullIndex_became (h : s.Calm R) (hr : (fullPass w R s.store.tables).tables.Readable) :
    let x := fullPass w R s.store.tables
    ∃ s', fullIndex w s = (.ok (x.stats w), s') ∧
      s.Became ((x.linked w).recorded w (x.stats w))
        ([.indexStarted] ++ (x.told ++ [.indexCompleted (x.stats w)])) s' := by
  intro x
  obtain ⟨s₁, h₁, b₁⟩ := Action.tell_became .indexStarted s
  rw [← b₁.tables] at hr
  obtain ⟨s₂, h₂, b₂⟩ := fullRun_became (b₁.calm h) hr
  rw [b₁.tables] at h₂ b₂
  obtain ⟨s₃, h₃, b₃⟩ := recordRun_became (w := w) (b₂.calm (b₁.calm h)) (x.stats w)
  rw [b₂.tables] at b₃
  obtain ⟨s₄, h₄, b₄⟩ := Action.tell_became (.indexCompleted (x.stats w)) s₃
  rw [b₃.tables] at b₄
  refine ⟨s₄, ?_, b₁.trans ((b₂.quietly b₃).trans b₄)⟩
  rw [fullIndex]
  refine (Fallible.bind_ok h₁).trans ((Action.attempt_ok h₂).trans ?_)
  exact (Action.attempt_ok h₃).trans (Fallible.bind_ok h₄)

end Run
end Index
end SymbolGraph
