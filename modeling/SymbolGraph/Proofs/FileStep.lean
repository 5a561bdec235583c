import SymbolGraph.Proofs.Action
import SymbolGraph.Proofs.Rows

/-! What becomes of one path. `Verdict` names everything that can happen to it and says for each case what
    it does to the tables and to the counts. While the gate refuses nothing but changes of the nodes of
    certain paths and no transaction is open, bringing a path up to date comes to its verdict, and again
    leaves no transaction open. -/

namespace SymbolGraph

open Store

namespace Index

/-- What becomes of a path. -/
inductive Verdict where
  /-- It is not to be read. -/
  | skipped
  /-- Its record cannot be read. -/
  | unknown
  /-- It has not changed. -/
  | kept
  /-- The store refuses to change its nodes. -/
  | refused (e : Extract)
  /-- Its text in the language is stored. -/
  | stored (language : Language) (text : String)
  /-- It does not exist any more and is removed. -/
  | erased
  /-- It does not exist any more, and the store refuses to remove its nodes. -/
  | stuck
  deriving DecidableEq

/-- The symbols' spans under consecutive numbers. -/
def numberedSpans : NodeId → List Symbol → List (NodeId × Span)
  | _, [] => []
  | id, symbol :: rest => (id, symbol.span) :: numberedSpans (id + 1) rest

/-- What becomes of an existing path, given what the store says of it. -/
def Workspace.judge (w : Workspace) (R : List String) (known : Except StoreError (Option FileRecord))
    (path : String) : Verdict :=
  match w.accepts path, w.source? path with
  | some language, some text =>
    match known with
    | .error _ => .unknown
    | .ok known =>
      if known.any (·.hash == Text.contentHash (Text.dropMark text)) then .kept
      else if path ∈ R then .refused (w.extract language text)
      else .stored language text
  | _, _ => .skipped

/-- What becomes of a path that may be gone. -/
def Workspace.judgeUpdate (w : Workspace) (R : List String) (known : Except StoreError (Option FileRecord))
    (path : String) : Verdict :=
  if w.disk.exists (w.absolute path) then w.judge R known path
  else if path ∈ R then .stuck
  else .erased

namespace Verdict

/-- The tables after the verdict. -/
def tables (w : Workspace) (path : String) : Verdict → Tables → Tables
  | stored language text, t =>
    let e := w.extract language text
    t.withFile (.ofRecord ⟨path, language.id, e.hash, text.utf8ByteSize, w.now⟩) e.found.symbols
  | erased, t => t.withoutFile path
  | _, t => t

/-- The counts after the verdict, where the next node gets the number. -/
def tally (w : Workspace) (path : String) (next : NodeId) : Verdict → Tally → Tally
  | skipped, t => Run.skip t
  | unknown, t => Run.fail t
  | kept, t => Run.keep t
  | refused e, t => Run.fail (Run.noteMethod e.method t)
  | stored language text, t =>
    let e := w.extract language text
    Run.store ⟨path, language.id, e.found, numberedSpans next e.found.symbols⟩ (Run.noteMethod e.method t)
  | erased, t => t
  | stuck, t => Run.fail t

/-- What is told of the verdict. -/
def events (path : String) (t : Tables) : Verdict → List Event
  | stored _ _ => [.fileIndexed path]
  | erased => if t.knows path then [.fileRemoved path] else []
  | _ => []

end Verdict

/-- Nothing is refused but changes of the nodes of the paths, and no transaction is open. -/
structure Session.Calm (R : List String) (s : Session) : Prop where
  gate : s.gate = .refusing R
  idle : s.store.before? = none

theorem Session.Became.calm {R : List String} {s s' : Session} {t : Tables} {told : List Event}
    (h : s.Became t told s') (hs : s.Calm R) : s'.Calm R :=
  ⟨h.gate.trans hs.gate, h.before?.trans hs.idle⟩

namespace Run
variable {α : Type} {s : Session} {R : List String} {path : String}

/-! ### Transactions -/

/-- The session after a transaction was opened in it. -/
def opened (s : Session) : Session :=
  { s with calls := s.calls + 1, store := { s.store with before? := some s.store.tables } }

/-- The session after its transaction was ended with the tables. -/
def closed (s : Session) (tables : Tables) : Session :=
  { s with calls := s.calls + 1, store := { s.store with tables, before? := none } }

theorem begin_idle (hg : s.gate s.calls .begin = none) (hidle : s.store.before? = none) :
    Action.begin s = (.ok (), opened s) :=
  Action.change_of_none hg (by simp [Store.begin, hidle])

theorem begin_calm (h : s.Calm R) : Action.begin s = (.ok (), opened s) :=
  begin_idle (by rw [h.gate]; rfl) h.idle

theorem commit_open {before : Tables} (hg : s.gate s.calls .commit = none) (hb : s.store.before? = some before) :
    Action.commit s = (.ok (), closed s s.store.tables) :=
  Action.change_of_none hg (by simp [Store.commit, hb])

theorem rollback_open {before : Tables} (hg : s.gate s.calls .rollback = none) (hb : s.store.before? = some before) :
    Action.rollback s = (.ok (), closed s before) :=
  Action.change_of_none hg (by simp [Store.rollback, hb])

/-- What work in a transaction told stays told, whichever tables the transaction ends with. -/
theorem became_closed {s₁ : Session} {t u : Tables} {told : List Event} (hidle : s.store.before? = none)
    (hb : (opened s).Became t told s₁) : s.Became u told (closed s₁ u) where
  store := by simp [closed, hb.store, opened, hidle]
  gate := hb.gate
  events := hb.events

theorem inTransaction_ok {work : Action α} {a : α} {t : Tables} {told : List Event} (h : s.Calm R)
    (hw : ∃ s', work (opened s) = (.ok a, s') ∧ (opened s).Became t told s') :
    ∃ s', inTransaction work s = (.ok a, s') ∧ s.Became t told s' := by
  obtain ⟨s₁, hwork, hb⟩ := hw
  have hcommit := commit_open (by rw [hb.gate.trans h.gate]; rfl) hb.before?
  have hall : (do let a ← work; Action.commit; return a : Action α) (opened s) =
      (.ok a, closed s₁ s₁.store.tables) := by
    rw [Fallible.bind_ok hwork, Fallible.bind_ok hcommit, Fallible.pure_apply]
  refine ⟨closed s₁ s₁.store.tables, ?_, hb.tables ▸ became_closed h.idle hb⟩
  rw [inTransaction, Fallible.bind_ok (begin_calm h), Action.attempt_ok hall]
  rfl

theorem inTransaction_error {work : Action α} {e : Error} {t : Tables} {told : List Event} (h : s.Calm R)
    (hw : ∃ s', work (opened s) = (.error e, s') ∧ (opened s).Became t told s') :
    ∃ s', inTransaction work s = (.error e, s') ∧ s.Became s.store.tables told s' := by
  obtain ⟨s₁, hwork, hb⟩ := hw
  have hrollback := rollback_open (by rw [hb.gate.trans h.gate]; rfl) hb.before?
  have hall : (do let a ← work; Action.commit; return a : Action α) (opened s) = (.error e, s₁) := by
    rw [Fallible.bind_error hwork]
  refine ⟨closed s₁ s.store.tables, ?_, became_closed h.idle hb⟩
  rw [inTransaction, Fallible.bind_ok (begin_calm h), Action.attempt_error hall]
  show (Action.tryRollback >>= fun _ => throw e) s₁ = _
  rw [Action.tryRollback, Fallible.bind_apply, Fallible.bind_apply, Action.attempt_apply, hrollback]
  rfl

/-! ### The nodes and the record of a path -/

theorem deleteNodes_became (hg : s.gate = .refusing R) (hp : path ∉ R) :
    ∃ s', Action.deleteNodes path s = (.ok (s.store.tables.nodesAt path).length, s') ∧
      s.Became { s.store.tables with nodes := s.store.tables.nodes.filter (·.path != path) } [] s' := by
  obtain ⟨s', hc, hb⟩ := Action.change_became (s := s) (.deleteNodes path)
    (fun t => { t with nodes := t.nodes.filter (·.path != path) })
    (by rw [hg]; exact Action.refusing_deleteNodes hp _)
  refine ⟨s', ?_, hb⟩
  rw [Action.deleteNodes, Fallible.bind_ok (Fallible.get_apply s)]
  exact Fallible.bind_ok hc

theorem deleteNodes_refused (hg : s.gate = .refusing R) (hp : path ∈ R) :
    ∃ s', Action.deleteNodes path s = (.error (.store (.invalidRow (.writeRefused path))), s') ∧
      s.Became s.store.tables [] s' := by
  have hc := Action.change_of_some (s := s) (f := fun st => .ok (st.deleteNodes path))
    (show s.gate s.calls (.deleteNodes path) = _ by rw [hg]; exact Action.refused_deleteNodes hp _)
  refine ⟨{ s with calls := s.calls + 1 }, ?_, rfl, rfl, by simp⟩
  rw [Action.deleteNodes, Fallible.bind_ok (Fallible.get_apply s)]
  exact Fallible.bind_error hc

theorem insertNode_became (hg : s.gate = .refusing R) (hp : path ∉ R) (symbol : Symbol) :
    ∃ s', Action.insertNode path symbol s = (.ok s.store.tables.nextNode, s') ∧
      s.Became { s.store.tables with
        nodes := s.store.tables.nodes ++ [.ofSymbol s.store.tables.nextNode path symbol]
        nextNode := s.store.tables.nextNode + 1 } [] s' := by
  obtain ⟨s', hc, hb⟩ := Action.change_became (s := s) (.insertNode path)
    (fun t => { t with nodes := t.nodes ++ [.ofSymbol t.nextNode path symbol], nextNode := t.nextNode + 1 })
    (by rw [hg]; exact Action.refusing_insertNode hp _)
  refine ⟨s', ?_, hb⟩
  rw [Action.insertNode, Fallible.bind_ok (Fallible.get_apply s)]
  exact Fallible.bind_ok hc

theorem insertSymbols_became (hp : path ∉ R) (symbols : List Symbol) (hg : s.gate = .refusing R) :
    ∃ s', insertSymbols path symbols s = (.ok (numberedSpans s.store.tables.nextNode symbols), s') ∧
      s.Became { s.store.tables with
        nodes := s.store.tables.nodes ++ NodeRow.numbered path s.store.tables.nextNode symbols
        nextNode := s.store.tables.nextNode + symbols.length } [] s' := by
  induction symbols generalizing s with
  | nil => exact ⟨s, rfl, by simp [NodeRow.numbered, Session.Became.refl s]⟩
  | cons symbol rest ih =>
    obtain ⟨s₁, h₁, b₁⟩ := insertNode_became hg hp symbol
    obtain ⟨s₂, h₂, b₂⟩ := ih (b₁.gate.trans hg)
    rw [b₁.tables] at h₂ b₂
    refine ⟨s₂, ?_, ?_⟩
    · rw [insertSymbols, Fallible.bind_ok h₁, Fallible.bind_ok h₂]
      rfl
    · have hlen : ∀ n : Int, n + 1 + (rest.length : Int) = n + ((rest.length : Int) + 1) := fun n => by omega
      simpa [NodeRow.numbered, hlen] using b₁.quietly b₂

theorem fireHook_became (path : String) (s : Session) :
    ∃ s', Action.fireHook path s = (.ok (), s') ∧ s.Became s.store.tables [] s' := by
  refine ⟨_, Fallible.modify_apply _ s, ?_⟩
  split
  · split
    · exact ⟨rfl, rfl, by simp⟩
    · exact .refl s
  · exact .refl s

theorem upsertFile_became (hg : s.gate = .refusing R) (f : FileRecord) :
    ∃ s', Action.upsertFile f s = (.ok (), s') ∧
      s.Became { s.store.tables with files := Tables.putFile (.ofRecord f) s.store.tables.files } [] s' := by
  obtain ⟨s₁, h₁, b₁⟩ := Action.change_became (s := s) (.upsertFile f.path)
    (fun t => { t with files := Tables.putFile (.ofRecord f) t.files }) (by rw [hg]; rfl)
  obtain ⟨s₂, h₂, b₂⟩ := fireHook_became f.path s₁
  rw [b₁.tables] at b₂
  refine ⟨s₂, ?_, b₁.quietly b₂⟩
  rw [Action.upsertFile]
  exact (Fallible.bind_ok h₁).trans h₂

theorem deleteFile_became (hg : s.gate = .refusing R) (path : String) :
    ∃ s', Action.deleteFile path s = (.ok (s.store.hasFile path), s') ∧
      s.Became { s.store.tables with files := s.store.tables.files.filter (·.path != path) } [] s' := by
  obtain ⟨s', hc, hb⟩ := Action.change_became (s := s) (.deleteFile path)
    (fun t => { t with files := t.files.filter (·.path != path) }) (by rw [hg]; rfl)
  refine ⟨s', ?_, hb⟩
  rw [Action.deleteFile, Fallible.bind_ok (Fallible.get_apply s)]
  exact Fallible.bind_ok hc

/-! ### Files in transactions -/

theorem writeFile_became (hg : s.gate = .refusing R) (hp : path ∉ R) (now : Time.Instant) (language : Language)
    (size : Nat) (e : Extract) :
    ∃ s', writeFile now path language size e s =
        (.ok (numberedSpans s.store.tables.nextNode e.found.symbols), s') ∧
      s.Became (s.store.tables.withFile (.ofRecord ⟨path, language.id, e.hash, size, now⟩) e.found.symbols) [] s' := by
  obtain ⟨s₁, h₁, b₁⟩ := deleteNodes_became hg hp
  obtain ⟨s₂, h₂, b₂⟩ := insertSymbols_became hp e.found.symbols (b₁.gate.trans hg)
  obtain ⟨s₃, h₃, b₃⟩ := upsertFile_became (b₂.gate.trans (b₁.gate.trans hg)) ⟨path, language.id, e.hash, size, now⟩
  rw [b₁.tables] at h₂ b₂
  rw [b₂.tables] at b₃
  refine ⟨s₃, ?_, (b₁.quietly b₂).quietly b₃⟩
  rw [writeFile, Fallible.bind_ok h₁, Fallible.bind_ok h₂, Fallible.bind_ok h₃]
  rfl

theorem writeFile_refused (hg : s.gate = .refusing R) (hp : path ∈ R) (now : Time.Instant) (language : Language)
    (size : Nat) (e : Extract) :
    ∃ s', writeFile now path language size e s = (.error (.store (.invalidRow (.writeRefused path))), s') ∧
      s.Became s.store.tables [] s' := by
  obtain ⟨s₁, h₁, b₁⟩ := deleteNodes_refused hg hp
  exact ⟨s₁, by rw [writeFile, Fallible.bind_error h₁], b₁⟩

theorem commitFile_became (h : s.Calm R) (hp : path ∉ R) (now : Time.Instant) (language : Language) (size : Nat)
    (e : Extract) :
    ∃ s', commitFile now path language size e s =
        (.ok ⟨path, language.id, e.found, numberedSpans s.store.tables.nextNode e.found.symbols⟩, s') ∧
      s.Became (s.store.tables.withFile (.ofRecord ⟨path, language.id, e.hash, size, now⟩) e.found.symbols) [] s' := by
  obtain ⟨s', hw, hb⟩ := inTransaction_ok h
    (writeFile_became (s := opened s) h.gate hp now language size e)
  refine ⟨s', ?_, hb⟩
  rw [commitFile, Fallible.bind_ok hw]
  rfl

theorem commitFile_refused (h : s.Calm R) (hp : path ∈ R) (now : Time.Instant) (language : Language) (size : Nat)
    (e : Extract) :
    ∃ s', commitFile now path language size e s = (.error (.store (.invalidRow (.writeRefused path))), s') ∧
      s.Became s.store.tables [] s' := by
  obtain ⟨s', hw, hb⟩ := inTransaction_error h
    (writeFile_refused (s := opened s) h.gate hp now language size e)
  exact ⟨s', by rw [commitFile, Fallible.bind_error hw], hb⟩

theorem eraseFile_became (hg : s.gate = .refusing R) (hp : path ∉ R) :
    ∃ s', eraseFile path s = (.ok (s.store.tables.knows path), s') ∧
      s.Became (s.store.tables.withoutFile path) [] s' := by
  obtain ⟨s₁, h₁, b₁⟩ := deleteNodes_became hg hp
  obtain ⟨s₂, h₂, b₂⟩ := deleteFile_became (b₁.gate.trans hg) path
  rw [b₁.tables] at b₂
  refine ⟨s₂, ?_, b₁.quietly b₂⟩
  rw [eraseFile, Fallible.bind_ok h₁, Fallible.bind_ok h₂, Store.hasFile, b₁.tables]
  rfl

theorem eraseFile_refused (hg : s.gate = .refusing R) (hp : path ∈ R) :
    ∃ s', eraseFile path s = (.error (.store (.invalidRow (.writeRefused path))), s') ∧
      s.Became s.store.tables [] s' := by
  obtain ⟨s₁, h₁, b₁⟩ := deleteNodes_refused hg hp
  exact ⟨s₁, by rw [eraseFile, Fallible.bind_error h₁], b₁⟩

theorem removeFile_became (h : s.Calm R) (hp : path ∉ R) :
    ∃ s', removeFile path s = (.ok (s.store.tables.knows path), s') ∧
      s.Became (s.store.tables.withoutFile path)
        (if s.store.tables.knows path then [.fileRemoved path] else []) s' := by
  obtain ⟨s₁, h₁, b₁⟩ := inTransaction_ok h (eraseFile_became (s := opened s) h.gate hp)
  have hk : (opened s).store.tables.knows path = s.store.tables.knows path := rfl
  rw [hk] at h₁
  rw [removeFile, Fallible.bind_ok h₁]
  cases s.store.tables.knows path
  · exact ⟨s₁, rfl, b₁⟩
  · obtain ⟨s₂, h₂, b₂⟩ := Action.tell_became (.fileRemoved path) s₁
    rw [b₁.tables] at b₂
    exact ⟨s₂, Fallible.bind_ok h₂, b₁.trans b₂⟩

theorem removeFile_refused (h : s.Calm R) (hp : path ∈ R) :
    ∃ s', removeFile path s = (.error (.store (.invalidRow (.writeRefused path))), s') ∧
      s.Became s.store.tables [] s' := by
  obtain ⟨s', hw, hb⟩ := inTransaction_error h (eraseFile_refused (s := opened s) h.gate hp)
  exact ⟨s', by rw [removeFile, Fallible.bind_error hw], hb⟩

/-! ### Verdicts -/

theorem storeText_became (h : s.Calm R) (w : Workspace) (path : String) (language : Language) (text : String)
    (t : Tally) :
    let v : Verdict := if path ∈ R then .refused (w.extract language text) else .stored language text
    ∃ s', storeText w path language text t s = (.ok (v.tally w path s.store.tables.nextNode t), s') ∧
      s.Became (v.tables w path s.store.tables) (v.events path s.store.tables) s' := by
  by_cases hp : path ∈ R
  · obtain ⟨s₁, h₁, b₁⟩ := commitFile_refused h hp w.now language text.utf8ByteSize (w.extract language text)
    simp only [hp, if_true]
    exact ⟨s₁, by rw [storeText, Action.attempt_error h₁]; rfl, b₁⟩
  · obtain ⟨s₁, h₁, b₁⟩ := commitFile_became h hp w.now language text.utf8ByteSize (w.extract language text)
    obtain ⟨s₂, h₂, b₂⟩ := Action.tell_became (.fileIndexed path) s₁
    rw [b₁.tables] at b₂
    simp only [hp, if_false]
    exact ⟨s₂, by rw [storeText, Action.attempt_ok h₁]; exact Fallible.bind_ok h₂, b₁.trans b₂⟩

/-- An existing path comes to its verdict. -/
theorem processFile_became (h : s.Calm R) (w : Workspace) (path : String) (t : Tally) :
    let v := w.judge R (s.store.file? path) path
    ∃ s', processFile w path t s = (.ok (v.tally w path s.store.tables.nextNode t), s') ∧
      s.Became (v.tables w path s.store.tables) (v.events path s.store.tables) s' := by
  unfold processFile Workspace.judge
  cases w.accepts path with
  | none => exact ⟨s, rfl, .refl s⟩
  | some language =>
    cases w.source? path with
    | none => exact ⟨s, rfl, .refl s⟩
    | some text =>
      obtain ⟨s₁, h₁, b₁⟩ := Action.query_of_none (s := s) (.file path) (·.file? path)
        (by rw [h.gate]; rfl)
      cases hknown : s.store.file? path with
      | error e =>
        rw [hknown] at h₁
        exact ⟨s₁, Action.attempt_error h₁, b₁⟩
      | ok known =>
        rw [hknown] at h₁
        have h₁ : Action.file? path s = (.ok known, s₁) := h₁
        dsimp only
        rw [Action.attempt_ok h₁]
        by_cases hk : known.any (·.hash == Text.contentHash (Text.dropMark text))
        · simp only [hk, if_true]
          exact ⟨s₁, rfl, b₁⟩
        · obtain ⟨s₂, hst, b₂⟩ := storeText_became (b₁.calm h) w path language text t
          rw [b₁.tables] at hst b₂
          simp only [hk]
          exact ⟨s₂, hst, by simpa using b₁.trans b₂⟩

/-- The counts with one more file seen. -/
def see (t : Tally) : Tally := { t with stats := { t.stats with filesSeen := t.stats.filesSeen + 1 } }

/-- A path of the workspace comes to its verdict. -/
theorem updateFile_became (h : s.Calm R) (w : Workspace) (t : Tally) {given : String}
    (hrel : Path.relative? w.rootPath given = some path) :
    let v := w.judgeUpdate R (s.store.file? path) path
    ∃ s', updateFile w given t s = (.ok (v.tally w path s.store.tables.nextNode (see t)), s') ∧
      s.Became (v.tables w path s.store.tables) (v.events path s.store.tables) s' := by
  unfold updateFile Workspace.judgeUpdate
  rw [hrel]
  by_cases hex : w.disk.exists (w.absolute path)
  · simp only [hex, if_true]
    exact processFile_became h w path (see t)
  · simp only [hex]
    by_cases hp : path ∈ R
    · obtain ⟨s₁, h₁, b₁⟩ := removeFile_refused h hp
      simp only [hp, if_true]
      exact ⟨s₁, Action.attempt_error h₁, b₁⟩
    · obtain ⟨s₁, h₁, b₁⟩ := removeFile_became h hp
      simp only [hp, if_false]
      exact ⟨s₁, Action.attempt_ok h₁, b₁⟩

theorem updateFile_outside (w : Workspace) (t : Tally) {given : String} (s : Session)
    (hrel : Path.relative? w.rootPath given = none) : updateFile w given t s = (.ok (skip (see t)), s) := by
  rw [updateFile, hrel]
  rfl

end Run
end Index
end SymbolGraph
