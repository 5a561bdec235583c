import SymbolGraph.Proofs.Snapshot

/-! Calls on a store that may refuse anything but to take a transaction back. Work in a transaction then succeeds as a
    whole or leaves the tables as they were. So every path of a call comes to a verdict, whatever is refused on the
    way: to that of a store that refuses nothing, or to one that gives the path up. -/

namespace SymbolGraph

open Store

namespace Index
variable {α β : Type} {s s' : Session} {w : Workspace} {path : String}

/-- The store can always take a transaction back. -/
def Session.Revertible (s : Session) : Prop := ∀ n, s.gate n .rollback = none

theorem Session.Became.revertible {t : Tables} {told : List Event} (hb : s.Became t told s') (hs : s.Revertible) :
    s'.Revertible := by
  rw [Session.Revertible, hb.gate]
  exact hs

/-! ### Work on tables -/

/-- The action gives `r` of the tables and leaves `f` of them, or fails and leaves any tables. Either way it tells
    nothing, and leaves the transaction and the gate alone. -/
def Yields (x : Action α) (r : Tables → α) (f : Tables → Tables) : Prop :=
  ∀ s : Session, (∃ s', x s = (.ok (r s.store.tables), s') ∧ s.Became (f s.store.tables) [] s') ∨
    ∃ e s' t, x s = (.error e, s') ∧ s.Became t [] s'

namespace Yields
variable {x : Action α} {r r' : Tables → α} {f f' : Tables → Tables}

theorem congr (h : Yields x r f) (hr : ∀ t, r t = r' t) (hf : ∀ t, f t = f' t) : Yields x r' f' := by
  obtain rfl := funext hr
  obtain rfl := funext hf
  exact h

theorem pure (a : α) : Yields (Pure.pure a) (fun _ => a) id := fun s => .inl ⟨s, rfl, .refl s⟩

theorem bind {k : α → Action β} {q : α → Tables → β} {g : α → Tables → Tables} (hx : Yields x r f)
    (hk : ∀ a, Yields (k a) (q a) (g a)) : Yields (x >>= k) (fun t => q (r t) (f t)) (fun t => g (r t) (f t)) := by
  intro s
  rcases hx s with ⟨s₁, h₁, b₁⟩ | ⟨e, s₁, t, h₁, b₁⟩
  · rcases hk (r s.store.tables) s₁ with ⟨s₂, h₂, b₂⟩ | ⟨e, s₂, t, h₂, b₂⟩
    · rw [b₁.tables] at h₂ b₂
      exact .inl ⟨s₂, (Fallible.bind_ok h₁).trans h₂, b₁.quietly b₂⟩
    · exact .inr ⟨e, s₂, t, (Fallible.bind_ok h₁).trans h₂, b₁.quietly b₂⟩
  · exact .inr ⟨e, s₁, t, Fallible.bind_error h₁, b₁⟩

theorem change (call : Call) (f : Tables → Tables) :
    Yields (Action.change call fun st => .ok (st.change f)) (fun _ => ()) f := by
  intro s
  rcases Action.change_cases call (fun st => .ok (st.change f)) s with ⟨store, -, hf, h⟩ | ⟨e, h⟩
  · cases hf
    exact .inl ⟨_, h, rfl, rfl, by simp⟩
  · exact .inr ⟨e, _, s.store.tables, h, .called s⟩

/-- A change that says something of the tables from before. -/
theorem changeSaying (call : Call) (r : Tables → α) (f : Tables → Tables) : Yields (do
    let s ← get
    Action.change call fun st => .ok (st.change f)
    return r s.store.tables) r f := by
  intro s
  rw [Fallible.bind_ok (Fallible.get_apply s)]
  exact (change call f).bind (fun _ => .pure (r s.store.tables)) s

theorem fireHook (path : String) : Yields (Action.fireHook path) (fun _ => ()) id := fun s => by
  obtain ⟨s', h, b⟩ := Run.fireHook_became path s
  exact .inl ⟨s', h, b⟩

theorem deleteNodes (path : String) : Yields (Action.deleteNodes path) (fun t => (t.nodesAt path).length)
    fun t => { t with nodes := t.nodes.filter (·.path != path) } :=
  changeSaying (.deleteNodes path) (fun t => (t.nodesAt path).length) _

theorem deleteFile (path : String) : Yields (Action.deleteFile path) (fun t => t.files.any (·.path == path))
    fun t => { t with files := t.files.filter (·.path != path) } :=
  changeSaying (.deleteFile path) (fun t => t.files.any (·.path == path)) _

theorem insertNode (path : String) (symbol : Symbol) : Yields (Action.insertNode path symbol) (·.nextNode)
    fun t => { t with
      nodes := t.nodes ++ [.ofSymbol t.nextNode path symbol]
      nextNode := t.nextNode + 1 } :=
  changeSaying (.insertNode path) _ _

theorem upsertFile (record : FileRecord) : Yields (Action.upsertFile record) (fun _ => ())
    fun t => { t with files := Tables.putFile (.ofRecord record) t.files } :=
  (change (.upsertFile record.path) _).bind fun _ => fireHook record.path

theorem insertSymbols (path : String) (symbols : List Symbol) :
    Yields (Run.insertSymbols path symbols) (fun t => numberedSpans t.nextNode symbols) fun t => { t with
      nodes := t.nodes ++ NodeRow.numbered path t.nextNode symbols
      nextNode := t.nextNode + symbols.length } := by
  induction symbols with
  | nil => exact (pure []).congr (fun _ => rfl) fun t => by simp [NodeRow.numbered]
  | cons symbol rest ih =>
    refine ((insertNode path symbol).bind fun id => ih.bind fun spans => pure ((id, symbol.span) :: spans)).congr
      (fun _ => rfl) fun t => ?_
    have hlen : ∀ n : Int, n + 1 + (rest.length : Int) = n + ((rest.length : Int) + 1) := fun n => by omega
    simp [NodeRow.numbered, hlen]

theorem writeFile (now : Time.Instant) (path : String) (language : Language) (size : Nat) (e : Extract) :
    Yields (Run.writeFile now path language size e) (fun t => numberedSpans t.nextNode e.found.symbols)
      fun t => t.withFile (.ofRecord ⟨path, language.id, e.hash, size, now⟩) e.found.symbols :=
  (deleteNodes path).bind fun _ => (insertSymbols path e.found.symbols).bind fun spans =>
    (upsertFile ⟨path, language.id, e.hash, size, now⟩).bind fun _ => pure spans

theorem eraseFile (path : String) : Yields (Run.eraseFile path) (·.knows path) (·.withoutFile path) :=
  (deleteNodes path).bind fun nodes => (deleteFile path).bind fun existed => pure (0 < nodes || existed)

end Yields

/-! ### Transactions -/

namespace Run

theorem begin_cases (s : Session) :
    s.store.before? = none ∧ Action.begin s = (.ok (), opened s) ∨
      ∃ e, Action.begin s = (.error e, { s with calls := s.calls + 1 }) := by
  rcases Action.change_cases .begin (·.begin) s with ⟨store, hgate, hopen, -⟩ | h
  · cases hb : s.store.before? with
    | none => exact .inl ⟨rfl, begin_idle hgate hb⟩
    | some before => simp [Store.begin, hb] at hopen
  · exact .inr h

theorem commit_cases {before : Tables} (hb : s.store.before? = some before) :
    Action.commit s = (.ok (), closed s s.store.tables) ∨
      ∃ e, Action.commit s = (.error e, { s with calls := s.calls + 1 }) := by
  rcases Action.change_cases .commit (·.commit) s with ⟨store, hgate, -, -⟩ | h
  · exact .inl (commit_open hgate hb)
  · exact .inr h

theorem rollback_opened {s₁ : Session} {t : Tables} {told : List Event} (hs : s.Revertible)
    (hb : (opened s).Became t told s₁) : Action.rollback s₁ = (.ok (), closed s₁ s.store.tables) := by
  refine rollback_open ?_ hb.before?
  rw [hb.gate]
  exact hs _

/-- What fails in a transaction is taken back. -/
theorem inTransaction_undone {work : Action α} {s₁ : Session} {e : Error} {t : Tables} (hs : s.Revertible)
    (hbegin : Action.begin s = (.ok (), opened s)) (hidle : s.store.before? = none)
    (hall : (do let a ← work; Action.commit; return a : Action α) (opened s) = (.error e, s₁))
    (hb : (opened s).Became t [] s₁) :
    ∃ s', inTransaction work s = (.error e, s') ∧ s.Became s.store.tables [] s' := by
  refine ⟨closed s₁ s.store.tables, ?_, became_closed hidle hb⟩
  rw [inTransaction, Fallible.bind_ok hbegin, Action.attempt_error hall]
  show (Action.tryRollback >>= fun _ => throw e) s₁ = _
  rw [Action.tryRollback, Fallible.bind_apply, Fallible.bind_apply, Action.attempt_apply, rollback_opened hs hb]
  rfl

/-- Work in a transaction does all that it is to do, or fails and leaves the tables as they were. -/
theorem inTransaction_cases {work : Action α} {r : Tables → α} {f : Tables → Tables} (hs : s.Revertible)
    (hwork : Yields work r f) :
    (∃ s', inTransaction work s = (.ok (r s.store.tables), s') ∧ s.Became (f s.store.tables) [] s') ∨
      ∃ e s', inTransaction work s = (.error e, s') ∧ s.Became s.store.tables [] s' := by
  rcases begin_cases s with ⟨hidle, hbegin⟩ | ⟨e, h₁⟩
  · rcases hwork (opened s) with ⟨s₂, h₂, b₂⟩ | ⟨e, s₂, t, h₂, b₂⟩
    · rcases commit_cases b₂.before? with h₃ | ⟨e, h₃⟩
      · have hall : (do let a ← work; Action.commit; return a : Action α) (opened s) =
            (.ok (r s.store.tables), closed s₂ s₂.store.tables) := by
          rw [Fallible.bind_ok h₂, Fallible.bind_ok h₃]
          rfl
        refine .inl ⟨closed s₂ s₂.store.tables, ?_, b₂.tables ▸ became_closed hidle b₂⟩
        rw [inTransaction, Fallible.bind_ok hbegin, Action.attempt_ok hall]
        rfl
      · have hall : (do let a ← work; Action.commit; return a : Action α) (opened s) =
            (.error e, { s₂ with calls := s₂.calls + 1 }) := (Fallible.bind_ok h₂).trans (Fallible.bind_error h₃)
        exact .inr ⟨e, inTransaction_undone hs hbegin hidle hall (b₂.quietly (.called s₂))⟩
    · exact .inr ⟨e, inTransaction_undone hs hbegin hidle (Fallible.bind_error h₂) b₂⟩
  · exact .inr ⟨e, _, Fallible.bind_error h₁, .called s⟩

theorem commitFile_cases (hs : s.Revertible) (now : Time.Instant) (path : String) (language : Language) (size : Nat)
    (e : Extract) :
    (∃ s', commitFile now path language size e s =
        (.ok ⟨path, language.id, e.found, numberedSpans s.store.tables.nextNode e.found.symbols⟩, s') ∧
      s.Became (s.store.tables.withFile (.ofRecord ⟨path, language.id, e.hash, size, now⟩) e.found.symbols) [] s') ∨
      ∃ err s', commitFile now path language size e s = (.error err, s') ∧ s.Became s.store.tables [] s' := by
  rcases inTransaction_cases hs (.writeFile now path language size e) with ⟨s₁, h₁, b₁⟩ | ⟨err, s₁, h₁, b₁⟩
  · exact .inl ⟨s₁, Fallible.bind_ok h₁, b₁⟩
  · exact .inr ⟨err, s₁, Fallible.bind_error h₁, b₁⟩

theorem removeFile_cases (hs : s.Revertible) (path : String) :
    (∃ s', removeFile path s = (.ok (s.store.tables.knows path), s') ∧
      s.Became (s.store.tables.withoutFile path) (Verdict.erased.events path s.store.tables) s') ∨
      ∃ e s', removeFile path s = (.error e, s') ∧ s.Became s.store.tables [] s' := by
  unfold Verdict.events
  rcases inTransaction_cases hs (.eraseFile path) with ⟨s₁, h₁, b₁⟩ | ⟨e, s₁, h₁, b₁⟩
  · refine .inl ?_
    rw [removeFile, Fallible.bind_ok h₁]
    cases s.store.tables.knows path with
    | false => exact ⟨s₁, rfl, b₁⟩
    | true =>
      obtain ⟨s₂, h₂, b₂⟩ := Action.tell_became (.fileRemoved path) s₁
      rw [b₁.tables] at b₂
      exact ⟨s₂, Fallible.bind_ok h₂, b₁.trans b₂⟩
  · exact .inr ⟨e, s₁, Fallible.bind_error h₁, b₁⟩

end Run

/-! ### Verdicts -/

/-- The path is given up: nothing is done but counted. -/
def Verdict.GivenUp : Verdict → Prop
  | skipped | unknown | refused _ | stuck => True
  | kept | stored _ _ | erased => False

theorem ne_erased {v : Verdict} {R : List String} {known : Option String}
    (h : v.GivenUp ∨ v = w.rule R known path) : v ≠ .erased := by
  rintro rfl
  rcases h with h | h
  · exact h
  · unfold Workspace.rule at h
    split at h
    · split at h
      · cases h
      · split at h <;> cases h
    · cases h

theorem rule_fits {v : Verdict} {R : List String} {known : Option String} (h : v = w.rule R known path) :
    v.GivenUp ∨ v = w.ruleUpdate R known path := by
  rcases rule_cases w R known path with hrule | ⟨-, hskip⟩
  · exact .inr (h.trans hrule)
  · rw [h, hskip]
    exact .inl trivial

theorem hashAt_of_file? {st : Store} {found : Option FileRecord} (h : st.file? path = .ok found) :
    found.map (·.hash) = hashAt st.tables path := by
  unfold Store.file? at h
  unfold hashAt
  cases hfind : st.tables.files.find? (·.path == path) with
  | none =>
    rw [hfind] at h
    cases h
    rfl
  | some row =>
    rw [hfind] at h
    dsimp only at h
    cases hrecord : row.record with
    | error e =>
      rw [hrecord] at h
      cases h
    | ok record =>
      rw [hrecord] at h
      cases h
      exact congrArg some (record_hash hrecord)

namespace Run

/-- The action brings the counts of a path up to date with its verdict. -/
def Comes (w : Workspace) (path : String) (v : Verdict) (x : Action Tally) (t : Tally) (s s' : Session) : Prop :=
  x s = (.ok (v.tally w path s.store.tables.nextNode t), s') ∧
    s.Became (v.tables w path s.store.tables) (v.events path s.store.tables) s'

theorem storeText_cases (hs : s.Revertible) (w : Workspace) (path : String) (language : Language) (text : String)
    (t : Tally) :
    ∃ v s', (v.GivenUp ∨ v = .stored language text) ∧ Comes w path v (storeText w path language text t) t s s' := by
  rcases commitFile_cases hs w.now path language text.utf8ByteSize (w.extract language text) with
    ⟨s₁, h₁, b₁⟩ | ⟨e, s₁, h₁, b₁⟩
  · obtain ⟨s₂, h₂, b₂⟩ := Action.tell_became (.fileIndexed path) s₁
    rw [b₁.tables] at b₂
    refine ⟨.stored language text, s₂, .inr rfl, ?_, b₁.trans b₂⟩
    rw [storeText, Action.attempt_ok h₁]
    exact Fallible.bind_ok h₂
  · refine ⟨.refused (w.extract language text), s₁, .inl trivial, ?_, b₁⟩
    rw [storeText, Action.attempt_error h₁]
    rfl

/-- A file is given up, or comes to the verdict of a store that refuses nothing. -/
theorem processFile_cases (hs : s.Revertible) (w : Workspace) (path : String) (t : Tally) :
    ∃ v s', (v.GivenUp ∨ v = w.rule [] (hashAt s.store.tables path) path) ∧
      Comes w path v (processFile w path t) t s s' := by
  unfold processFile Workspace.rule
  cases w.accepts path with
  | none => exact ⟨.skipped, s, .inl trivial, rfl, .refl s⟩
  | some language =>
    cases w.source? path with
    | none => exact ⟨.skipped, s, .inl trivial, rfl, .refl s⟩
    | some text =>
      dsimp only
      rcases Action.query_cases (.file path) (·.file? path) s with ⟨known, hfile, h₁⟩ | ⟨e, h₁⟩
      · have h₁ : Action.file? path s = (.ok known, { s with calls := s.calls + 1 }) := h₁
        have hknown : known.any (·.hash == Text.contentHash (Text.dropMark text)) =
            decide (hashAt s.store.tables path = some (Text.contentHash (Text.dropMark text))) := by
          rw [← hashAt_of_file? hfile, Bool.eq_iff_iff]
          cases known <;> simp
        -- A record with the same digest keeps the file as it is; otherwise the verdict is that of storing.
        by_cases hsame : hashAt s.store.tables path = some (Text.contentHash (Text.dropMark text))
        · refine ⟨.kept, _, .inr (if_pos hsame).symm, ?_, .called s⟩
          rw [Action.attempt_ok h₁]
          simp only [hknown, hsame, decide_true, if_true]
          rfl
        · obtain ⟨v, s₂, hv, h₂, b₂⟩ := storeText_cases (s := { s with calls := s.calls + 1 }) hs w path language text t
          refine ⟨v, s₂, ?_, ?_, by simpa using (Session.Became.called s).trans b₂⟩
          · simpa [hsame] using hv
          · rw [Action.attempt_ok h₁]
            simpa [hknown, hsame] using h₂
      · exact ⟨.unknown, _, .inl trivial, Action.attempt_error h₁, .called s⟩

/-- Whether the path is one of the workspace that is gone, and the store removes it. -/
def removes (w : Workspace) (given : String) (s : Session) : Bool :=
  match Path.relative? w.rootPath given with
  | none => false
  | some path => !w.disk.exists (w.absolute path) && (removeFile path s).1.isOk

/-- A given path is given up, or comes to the verdict of a store that refuses nothing. A path outside of the workspace
    is given up under its own name. -/
theorem updateFile_cases (hs : s.Revertible) (w : Workspace) (given : String) (t : Tally) :
    ∃ path v s', (v.GivenUp ∨ v = w.ruleUpdate [] (hashAt s.store.tables path) path) ∧
      (v = .erased ↔ removes w given s) ∧ updateFile w given t s = (.ok (v.tally w path s.store.tables.nextNode (see t)), s') ∧
      s.Became (v.tables w path s.store.tables) (v.events path s.store.tables) s' := by
  unfold updateFile removes Workspace.ruleUpdate
  cases hrel : Path.relative? w.rootPath given with
  | none => exact ⟨given, .skipped, s, .inl trivial, by simp, rfl, .refl s⟩
  | some path =>
    dsimp only
    cases hexists : w.disk.exists (w.absolute path) with
    | true =>
      obtain ⟨v, s', hv, h⟩ := processFile_cases hs w path (see t)
      refine ⟨path, v, s', ?_, ?_, h⟩
      · simpa [hexists] using hv
      · simpa using ne_erased hv
    | false =>
      rcases removeFile_cases hs path with ⟨s₁, h₁, b₁⟩ | ⟨e, s₁, h₁, b₁⟩
      · refine ⟨path, .erased, s₁, .inr ?_, ?_, ?_, b₁⟩
        · simp [hexists]
        · simp [h₁, Except.isOk, Except.toBool]
        · exact Action.attempt_ok h₁
      · refine ⟨path, .stuck, s₁, .inl trivial, ?_, ?_, b₁⟩
        · simp [h₁, Except.isOk, Except.toBool]
        · exact Action.attempt_error h₁

end Run

/-! ### Passes -/

/-- What became of a path. -/
structure Fate where
  path : String
  verdict : Verdict

/-- After the paths came to their verdicts, where `f` changes the counts before each. -/
def Standing.through (x : Standing) (w : Workspace) (f : Tally → Tally) (fates : List Fate) : Standing :=
  fates.foldl (fun x fate => (x.counted f).after w fate.path fate.verdict) x

/-- One after the other, the paths are given up or come to the verdict of a store that refuses nothing. -/
def Fits (w : Workspace) : Tables → List Fate → Prop
  | _, [] => True
  | t, fate :: rest =>
    (fate.verdict.GivenUp ∨ fate.verdict = w.ruleUpdate [] (hashAt t fate.path) fate.path) ∧
      Fits w (fate.verdict.tables w fate.path t) rest

namespace Run
variable {s₀ : Session} {x : Standing}

/-- The work takes a pass through the fates of its paths. -/
structure Passes (w : Workspace) (f : Tally → Tally) (s₀ : Session) (x : Standing) (work : Action Tally) (fates : List Fate)
    (s s' : Session) : Prop where
  fits : Fits w x.tables fates
  result : work s = (.ok (x.through w f fates).tally, s')
  became : s₀.Became (x.through w f fates).tables (x.through w f fates).told s'

theorem processAll_passes (hs : s.Revertible) (files : List Workspace.Found) (hx : s₀.Became x.tables x.told s) :
    ∃ fates s', fates.map (·.path) = files.map (·.path) ∧ (∀ fate ∈ fates, fate.verdict ≠ .erased) ∧
      Passes w id s₀ x (processAll w files x.tally) fates s s' := by
  induction files generalizing s x with
  | nil => exact ⟨[], s, rfl, by simp, trivial, rfl, hx⟩
  | cons file rest ih =>
    obtain ⟨v, s₁, hv, h₁, b₁⟩ := processFile_cases hs w file.path x.tally
    obtain ⟨s₂, h₂, b₂⟩ := Action.report_became (.fileDone file.path) s₁
    rw [b₁.tables] at b₂
    have hs₂ := (b₁.quietly b₂).revertible hs
    rw [hx.tables] at hv h₁ b₁ b₂
    obtain ⟨fates, s', hpaths, hremain, hpass⟩ := ih (x := x.after w file.path v) hs₂ (hx.trans (b₁.quietly b₂))
    refine ⟨⟨file.path, v⟩ :: fates, s', by simp [hpaths], ?_, ⟨⟨?_, hpass.fits⟩, ?_, hpass.became⟩⟩
    · simpa [ne_erased hv] using hremain
    · exact hv.elim .inl rule_fits
    · rw [processAll, Fallible.bind_ok h₁, Fallible.bind_ok h₂]
      exact hpass.result

/-- How many of the paths are those of the workspace that are gone and that the store removes, one after the other. -/
def removals (w : Workspace) : List String → Tally → Session → Nat
  | [], _, _ => 0
  | given :: rest, t, s =>
    (if removes w given s then 1 else 0) +
      match updateFile w given t s with
      | (.ok t, s) => removals w rest t s
      | (.error _, _) => 0

theorem updateAll_passes (hs : s.Revertible) (paths : List String) (hx : s₀.Became x.tables x.told s) :
    ∃ fates s', fates.length = paths.length ∧ fates.countP (·.verdict = .erased) = removals w paths x.tally s ∧
      Passes w see s₀ x (updateAll w paths x.tally) fates s s' := by
  induction paths generalizing s x with
  | nil => exact ⟨[], s, rfl, rfl, trivial, rfl, hx⟩
  | cons given rest ih =>
    obtain ⟨path, v, s₁, hv, herased, h₁, b₁⟩ := updateFile_cases hs w given x.tally
    have hs₁ := b₁.revertible hs
    rw [hx.tables] at hv h₁ b₁
    obtain ⟨fates, s', hlength, hcount, hpass⟩ := ih (x := (x.counted see).after w path v) hs₁ (hx.trans b₁)
    refine ⟨⟨path, v⟩ :: fates, s', by simp [hlength], ?_, ⟨⟨hv, hpass.fits⟩, ?_, hpass.became⟩⟩
    · rw [List.countP_cons, hcount, removals, h₁, Nat.add_comm]
      simp only [herased, decide_eq_true_eq]
      rfl
    · rw [updateAll, Fallible.bind_ok h₁]
      exact hpass.result

end Run

/-! ### Calls that succeed -/

theorem Yields.eq_ok {x : Action α} {r : Tables → α} {f : Tables → Tables} {a : α} (h : Yields x r f)
    (hx : x s = (.ok a, s')) : a = r s.store.tables ∧ s.Became (f s.store.tables) [] s' := by
  rcases h s with ⟨s₁, h₁, b₁⟩ | ⟨e, s₁, t, h₁, -⟩
  · cases hx.symm.trans h₁
    exact ⟨rfl, b₁⟩
  · cases hx.symm.trans h₁

/-- A second pass that succeeds has added the links of its files and counted them. -/
theorem Resolve.pending_eq_ok {now : Time.Instant} {registry : Registry} {files : List Pending} {r : Resolved}
    (h : Resolve.pending now registry files s = (.ok r, s')) :
    r = Resolve.counts s.store.tables registry s.store.tables.readAll files ∧
      s.Became (s.store.tables.linkAll now (Resolve.links s.store.tables registry s.store.tables.readAll files)) [] s' := by
  unfold Resolve.pending at h
  cases files with
  | nil =>
    cases h
    exact ⟨rfl, .refl s⟩
  | cons p rest =>
    simp only [List.isEmpty_cons, Bool.false_eq_true, if_false] at h
    obtain ⟨nodes, s₁, hall, h⟩ := Fallible.bind_eq_ok h
    obtain ⟨hread, b₁⟩ := Resolve.query_eq_ok hall
    have hnodes : s.store.tables.readAll = nodes := Tables.readAll_of_allNodes hread
    obtain ⟨⟨⟩, s₂, hbegin, h⟩ := Fallible.bind_eq_ok h
    rcases Run.begin_cases s₁ with ⟨hidle, hopened⟩ | ⟨e, hfailed⟩
    · cases hbegin.symm.trans hopened
      rcases hfiles : Resolve.filesOf now registry nodes [] (p :: rest) (Run.opened s₁) with ⟨e | counted, s₃⟩
      · -- The links of a failed pass are taken back and its error thrown again, so the whole does not succeed.
        rw [Action.attempt_error hfiles] at h
        obtain ⟨_, _, -, h⟩ := Fallible.bind_eq_ok h
        cases h
      · obtain ⟨rfl, b₃⟩ := Resolve.filesOf_eq_ok (p :: rest) (Resolve.Remembers.nothing _) hfiles
        rw [Action.attempt_ok hfiles] at h
        obtain ⟨⟨⟩, s₄, hcommit, h⟩ := Fallible.bind_eq_ok h
        obtain ⟨rfl, rfl⟩ := Fallible.pure_eq_ok h
        have htables : (Run.opened s₁).store.tables = s.store.tables := b₁.tables
        rcases Run.commit_cases b₃.before? with hclosed | ⟨e, hfailed⟩
        · cases hcommit.symm.trans hclosed
          rw [htables] at b₃ ⊢
          rw [b₃.tables, hnodes]
          exact ⟨rfl, b₁.quietly (Run.became_closed hidle b₃)⟩
        · cases hcommit.symm.trans hfailed
    · cases hbegin.symm.trans hfailed

namespace Run

theorem partialRun_eq_ok {paths : List String} {stats : Stats} (hs : s.Revertible)
    (h : partialRun w paths s = (.ok stats, s')) :
    ∃ fates, fates.length = paths.length ∧ fates.countP (·.verdict = .erased) = removals w paths {} s ∧
      Fits w s.store.tables fates ∧
      let x := ({ tables := s.store.tables } : Standing).through w see fates
      stats = x.stats w ∧ s.Became (x.linked w) x.told s' := by
  obtain ⟨t, s₁, h₁, h⟩ := Fallible.bind_eq_ok h
  obtain ⟨resolved, s₂, h₂, h⟩ := Fallible.bind_eq_ok h
  obtain ⟨⟨⟩, s₃, h₃, h⟩ := Fallible.bind_eq_ok h
  obtain ⟨rfl, rfl⟩ := Fallible.pure_eq_ok h
  obtain ⟨fates, s₁', hlength, hcount, hpass⟩ := updateAll_passes (x := { tables := s.store.tables }) hs paths (.refl s)
  cases h₁.symm.trans hpass.result
  obtain ⟨rfl, b₂⟩ := Resolve.pending_eq_ok h₂
  obtain ⟨-, b₃⟩ := Resolve.query_eq_ok h₃
  have b₁ := hpass.became
  rw [b₂.tables] at b₃
  rw [b₁.tables] at b₂ b₃ ⊢
  exact ⟨fates, hlength, hcount, hpass.fits, rfl, (b₁.quietly b₂).quietly b₃⟩

/-- A call with some paths that succeeds has taken each of them to its fate and then added the links. -/
theorem indexFiles_eq_ok {paths : List String} {stats : Stats} (hs : s.Revertible)
    (h : indexFiles w paths s = (.ok stats, s')) :
    ∃ fates, fates.length = paths.length ∧ fates.countP (·.verdict = .erased) = removals w paths {} s ∧
      Fits w s.store.tables fates ∧
      let x := ({ tables := s.store.tables } : Standing).through w see fates
      stats = x.stats w ∧ s.Became (x.linked w) x.told s' := by
  rcases hrun : partialRun w paths s with ⟨e | counted, s₁⟩
  · rw [indexFiles, Action.attempt_error hrun] at h
    obtain ⟨_, _, -, h⟩ := Fallible.bind_eq_ok h
    cases h
  · rw [indexFiles, Action.attempt_ok hrun] at h
    obtain ⟨rfl, rfl⟩ := Fallible.pure_eq_ok h
    exact partialRun_eq_ok hs hrun

/-- A pass of a full index with nothing done yet. -/
def cleared (w : Workspace) (t : Tables) : Standing where
  tables := { t with files := [], nodes := [], edges := [] }
  tally := { stats := { filesSeen := w.scan.length } }

theorem report_eq_ok {p : Progress} (h : Action.report p s = (.ok (), s')) : s.Became s.store.tables [] s' := by
  obtain ⟨s₁, h₁, b₁⟩ := Action.report_became p s
  cases h.symm.trans h₁
  exact b₁

theorem fullRun_eq_ok {stats : Stats} (hs : s.Revertible) (h : fullRun w s = (.ok stats, s')) :
    ∃ fates, fates.map (·.path) = w.scan.map (·.path) ∧ (∀ fate ∈ fates, fate.verdict ≠ .erased) ∧
      Fits w (cleared w s.store.tables).tables fates ∧
      let x := (cleared w s.store.tables).through w id fates
      stats = x.stats w ∧ s.Became (x.linked w) x.told s' := by
  obtain ⟨⟨⟩, s₁, h₁, h⟩ := Fallible.bind_eq_ok h
  obtain ⟨⟨⟩, s₂, h₂, h⟩ := Fallible.bind_eq_ok h
  obtain ⟨t, s₃, h₃, h⟩ := Fallible.bind_eq_ok h
  obtain ⟨⟨⟩, s₄, h₄, h⟩ := Fallible.bind_eq_ok h
  obtain ⟨resolved, s₅, h₅, h⟩ := Fallible.bind_eq_ok h
  obtain ⟨⟨⟩, s₆, h₆, h⟩ := Fallible.bind_eq_ok h
  obtain ⟨⟨⟩, s₇, h₇, h⟩ := Fallible.bind_eq_ok h
  obtain ⟨rfl, rfl⟩ := Fallible.pure_eq_ok h
  -- What each of the seven steps leaves behind, one after the other.
  have b₁ : s.Became (cleared w s.store.tables).tables [] s₁ := ((Yields.change .clear _).eq_ok h₁).2
  have b₂ := report_eq_ok h₂
  rw [b₁.tables] at b₂
  rw [processBatches_eq, flatten_batches] at h₃
  obtain ⟨fates, s₃', hpaths, hremain, hpass⟩ := processAll_passes (x := cleared w s.store.tables)
    ((b₁.quietly b₂).revertible hs) w.scan (b₁.quietly b₂)
  cases h₃.symm.trans hpass.result
  have b₃ := hpass.became
  have b₄ := report_eq_ok h₄
  rw [b₃.tables] at b₄
  have b₄ := b₃.quietly b₄
  obtain ⟨rfl, b₅⟩ := Resolve.pending_eq_ok h₅
  rw [b₄.tables] at b₅ ⊢
  have b₆ := report_eq_ok h₆
  rw [b₅.tables] at b₆
  obtain ⟨-, b₇⟩ := Resolve.query_eq_ok h₇
  rw [b₆.tables] at b₇
  exact ⟨fates, hpaths, hremain, hpass.fits, rfl, ((b₄.quietly b₅).quietly b₆).quietly b₇⟩

theorem setCheckpoint_leaves (key value : String) (s : Session) :
    ∃ result s' checkpoints, Action.setCheckpoint key value s = (result, s') ∧
      s.Became { s.store.tables with checkpoints } [] s' := by
  rcases Action.change_cases (.setCheckpoint key) (fun st => .ok (st.setCheckpoint key value)) s with
    ⟨store, -, hstore, h⟩ | ⟨e, h⟩
  · cases hstore
    exact ⟨.ok (), _, Tables.putCheckpoint key value s.store.tables.checkpoints, h, rfl, rfl, by simp⟩
  · exact ⟨.error e, _, s.store.tables.checkpoints, h, .called s⟩

/-- Whether its counts are recorded or not, a full index leaves its files, nodes and edges. -/
theorem recordRun_leaves (w : Workspace) (stats : Stats) (s : Session) :
    ∃ result s' checkpoints, recordRun w stats s = (result, s') ∧ s.Became { s.store.tables with checkpoints } [] s' := by
  obtain ⟨result, s₁, checkpoints, h₁, b₁⟩ := setCheckpoint_leaves statsKey stats.text s
  rw [recordRun, Fallible.bind_apply, h₁]
  cases result with
  | error e => exact ⟨.error e, s₁, checkpoints, rfl, b₁⟩
  | ok u =>
    obtain ⟨result, s₂, checkpoints, h₂, b₂⟩ := setCheckpoint_leaves timeKey w.now.text s₁
    rw [b₁.tables] at b₂
    exact ⟨result, s₂, checkpoints, h₂, b₁.quietly b₂⟩

/-- A full index that succeeds has taken each scanned file to its fate and then added the links. -/
theorem fullIndex_eq_ok {stats : Stats} (hs : s.Revertible) (h : fullIndex w s = (.ok stats, s')) :
    ∃ fates checkpoints, fates.map (·.path) = w.scan.map (·.path) ∧ (∀ fate ∈ fates, fate.verdict ≠ .erased) ∧
      Fits w (cleared w s.store.tables).tables fates ∧
      let x := (cleared w s.store.tables).through w id fates
      stats = x.stats w ∧ s.Became { x.linked w with checkpoints }
        ([.indexStarted] ++ (x.told ++ [.indexCompleted stats])) s' := by
  obtain ⟨s₁, h₁, b₁⟩ := Action.tell_became .indexStarted s
  rw [fullIndex, Fallible.bind_ok h₁] at h
  rcases hrun : fullRun w s₁ with ⟨e | counted, s₂⟩
  · rw [Action.attempt_error hrun] at h
    obtain ⟨_, _, -, h⟩ := Fallible.bind_eq_ok h
    obtain ⟨_, _, -, h⟩ := Fallible.bind_eq_ok h
    cases h
  · rw [Action.attempt_ok hrun] at h
    obtain ⟨fates, hpaths, hremain, hfits, rfl, b₂⟩ := fullRun_eq_ok (b₁.revertible hs) hrun
    rw [b₁.tables] at hfits b₂ h
    -- The checkpoint changes no rows but its own, whether it can be written or not.
    obtain ⟨result, s₃, checkpoints, h₃, b₃⟩ := recordRun_leaves w
      (((cleared w s.store.tables).through w id fates).stats w) s₂
    rw [b₂.tables] at b₃
    obtain ⟨s₄, h₄, b₄⟩ := Action.tell_became
      (.indexCompleted (((cleared w s.store.tables).through w id fates).stats w)) s₃
    rw [b₃.tables] at b₄
    dsimp only at h
    rw [Fallible.bind_apply, Action.attempt_apply, h₃] at h
    dsimp only at h
    rw [Fallible.bind_ok h₄] at h
    obtain ⟨rfl, rfl⟩ := Fallible.pure_eq_ok h
    exact ⟨fates, checkpoints, hpaths, hremain, hfits, rfl, b₁.trans ((b₂.quietly b₃).trans b₄)⟩

end Run
end Index
end SymbolGraph
