import SymbolGraph.Proofs.Faults

/-! Transactions on a store that may refuse any call but to take one back. A file is replaced or removed as a whole and
    nothing else changes, or the store is as it was; and no transaction stays open that was not open before. A second
    pass that fails leaves the store as it was too, unless the store refuses to commit its edges: then its transaction
    stays open. -/

namespace SymbolGraph

open Store

/-! ### Other paths -/

/-- Nothing has changed but the nodes and the record of the path, and the next number of a node. -/
structure Tables.OnlyAt (path : String) (t u : Tables) : Prop where
  nodes : u.nodes.filter (·.path != path) = t.nodes.filter (·.path != path)
  files : u.files.filter (·.path != path) = t.files.filter (·.path != path)
  edges : u.edges = t.edges
  nextEdge : u.nextEdge = t.nextEdge
  checkpoints : u.checkpoints = t.checkpoints

namespace Tables
variable {path : String}

theorem filter_putFile (row : FileRow) (files : List FileRow) :
    (putFile row files).filter (·.path != row.path) = files.filter (·.path != row.path) := by
  induction files with
  | nil => simp [putFile]
  | cons r rest ih =>
    rw [putFile]
    split
    · next hpath => simp [hpath]
    · split
      · simp
      · simp [List.filter_cons, ih]

theorem withFile_onlyAt (t : Tables) (row : FileRow) (symbols : List Symbol) :
    t.OnlyAt row.path (t.withFile row symbols) := by
  refine ⟨?_, filter_putFile row t.files, rfl, rfl, rfl⟩
  have hnew : (NodeRow.numbered row.path t.nextNode symbols).filter (·.path != row.path) = [] :=
    List.filter_eq_nil_iff.mpr fun r hr => by simp [NodeRow.path_of_mem_numbered hr]
  rw [withFile, List.filter_append, hnew, List.append_nil, List.filter_filter]
  simp

theorem withoutFile_onlyAt (t : Tables) (path : String) : t.OnlyAt path (t.withoutFile path) := by
  refine ⟨?_, ?_, rfl, rfl, rfl⟩ <;> simp [withoutFile, List.filter_filter]

end Tables

namespace Index

/-! ### The first node with each name -/

theorem lookup_keepFirst (name : String) (entries known : List (String × NodeId)) :
    (entries.foldl (fun known entry => if known.any (·.1 == entry.1) then known else known ++ [entry]) known).lookup name =
      (known.lookup name).or (entries.lookup name) := by
  induction entries generalizing known with
  | nil => simp
  | cons entry rest ih =>
    obtain ⟨key, id⟩ := entry
    rw [List.foldl_cons, ih, List.lookup_cons]
    split
    · next hknown =>
      -- A name that is known already keeps its number, and any other is not the one that is passed over.
      cases hname : name == key with
      | false => rfl
      | true =>
        have hsome : (known.lookup name).isSome := by
          obtain ⟨pair, hpair, hkey⟩ := List.any_eq_true.mp hknown
          refine List.lookup_isSome_iff.mpr ⟨pair, hpair, ?_⟩
          rw [beq_iff_eq] at hname hkey ⊢
          exact hname.trans hkey.symm
        obtain ⟨found, hfound⟩ := Option.isSome_iff_exists.mp hsome
        simp [hfound]
    · rw [List.lookup_append, Option.or_assoc]
      cases hname : name == key <;> simp [List.lookup_cons, hname]

theorem lookup_zip (name : String) (symbols : List Symbol) (ids : List NodeId) :
    ((symbols.zip ids).map fun (symbol, id) => (symbol.fqname, id)).lookup name =
      ((symbols.zip ids).find? (·.1.fqname == name)).map (·.2) := by
  induction symbols.zip ids with
  | nil => rfl
  | cons pair rest ih =>
    rw [List.map_cons, List.lookup_cons, List.find?_cons, ih, BEq.comm]
    cases pair.1.fqname == name <;> rfl

/-- A qualified name leads to the node of the first symbol with it. -/
theorem Pending.lookup_nodeMap (p : Pending) (name : String) : p.nodeMap.lookup name =
    ((p.found.symbols.zip (p.nodes.map (·.1))).find? (·.1.fqname == name)).map (·.2) := by
  rw [Pending.nodeMap, lookup_keepFirst, ← lookup_zip, List.zip_map_right, List.map_map]
  rfl

/-! ### What a file step leaves -/

/-- The file was replaced by what was found in it. -/
structure Replaced (now : Time.Instant) (path : String) (language : Language) (size : Nat) (e : Extract) (st : Store)
    (p : Pending) (st' : Store) : Prop where
  /-- The nodes of the path are the symbols in their order. -/
  rows : List.Forall₂ NodeRow.Carries (st'.nodeRows path) e.found.symbols
  read : ∃ nodes, st'.nodesOf path = .ok nodes ∧ nodes.map (·.id) = p.nodes.map (·.1) ∧
    ((∀ symbol ∈ e.found.symbols, (symbol.span.start : Int) ≤ largestInteger ∧ (symbol.span.stop : Int) ≤ largestInteger) →
      nodes.map (·.symbol) = e.found.symbols)
  /-- What is handed on is of this path and language, with everything found in the file. -/
  pending : p.path = path ∧ p.language = language.id ∧ p.found = e.found
  ids : p.nodes.map (·.1) = (st'.nodeRows path).map (·.id)
  spans : p.nodes.map (·.2) = e.found.symbols.map (·.span)
  /-- Each qualified name leads to the node of the first symbol with it. -/
  names : ∀ name, p.nodeMap.lookup name =
    ((e.found.symbols.zip (st'.nodeRows path)).find? (·.1.fqname == name)).map (·.2.id)
  record : st'.tables.files.find? (·.path == path) = some (.ofRecord ⟨path, language.id, e.hash, size, now⟩)
  others : st.tables.OnlyAt path st'.tables

/-- Nothing of the file is left. -/
structure Removed (path : String) (st : Store) (existed : Bool) (st' : Store) : Prop where
  nodes : st'.nodeRows path = []
  record : st'.hasFile path = false
  existed : existed = true ↔ st.nodeRows path ≠ [] ∨ st.hasFile path = true
  others : st.tables.OnlyAt path st'.tables

section
variable {s s' : Session} {path : String}

theorem keptSymbol_of_fits {symbol : Symbol} (hstart : (symbol.span.start : Int) ≤ largestInteger)
    (hstop : (symbol.span.stop : Int) ≤ largestInteger) : keptSymbol symbol = symbol := by
  have hkept : ∀ n : Nat, (n : Int) ≤ largestInteger → keptOffset n = n := fun n hn => by
    rw [keptOffset, Int.min_eq_left hn, Int.toNat_natCast]
  rw [keptSymbol, hkept _ hstart, hkept _ hstop]

theorem replaced_withFile (now : Time.Instant) (path : String) (language : Language) (size : Nat) (e : Extract)
    (st : Store) {st' : Store}
    (h : st'.tables = st.tables.withFile (.ofRecord ⟨path, language.id, e.hash, size, now⟩) e.found.symbols) :
    Replaced now path language size e st
      ⟨path, language.id, e.found, numberedSpans st.tables.nextNode e.found.symbols⟩ st' := by
  let row : FileRow := .ofRecord ⟨path, language.id, e.hash, size, now⟩
  have hrows : st'.nodeRows path = NodeRow.numbered path st.tables.nextNode e.found.symbols := by
    rw [Store.nodeRows, h]
    exact Tables.nodesAt_withFile_self st.tables row e.found.symbols
  have hids : (numberedSpans st.tables.nextNode e.found.symbols).map (·.1) = (st'.nodeRows path).map (·.id) := by
    rw [hrows]
    exact numberedSpans_ids path st.tables.nextNode e.found.symbols
  have hcarries : List.Forall₂ NodeRow.Carries (st'.nodeRows path) e.found.symbols := by
    rw [hrows]
    exact NodeRow.numbered_carries
  -- Rows that carry symbols can be read, and say what the symbols say as far as they fit.
  obtain ⟨nodes, hread, hnodes, hsymbols⟩ := readNodes_of_carries hcarries
  refine ⟨hcarries, ⟨nodes, hread, hnodes.trans hids.symm, fun hfits => ?_⟩, ⟨rfl, rfl, rfl⟩, hids,
    numberedSpans_spans _ _, fun name => ?_, ?_, ?_⟩
  · rw [hsymbols]
    refine (List.map_congr_left fun symbol hsymbol => ?_).trans (List.map_id _)
    exact keptSymbol_of_fits (hfits symbol hsymbol).1 (hfits symbol hsymbol).2
  · rw [Pending.lookup_nodeMap, hids, List.zip_map_right, List.find?_map, Option.map_map]
    rfl
  · rw [h]
    exact (Tables.find?_putFile row st.tables.files path).trans (if_pos rfl)
  · rw [h]
    exact Tables.withFile_onlyAt st.tables row e.found.symbols

theorem removed_withoutFile (path : String) (st : Store) {st' : Store} (h : st'.tables = st.tables.withoutFile path) :
    Removed path st (st.tables.knows path) st' := by
  refine ⟨?_, ?_, ?_, ?_⟩
  · rw [Store.nodeRows, h]
    exact Tables.nodesAt_withoutFile_self st.tables path
  · rw [Store.hasFile, h]
    simp [Tables.withoutFile]
  · simp [Tables.knows, Tables.nodesAt, Store.nodeRows, Store.hasFile]
  · rw [h]
    exact Tables.withoutFile_onlyAt st.tables path

namespace Run

/-! ### A transaction that is open already -/

theorem begin_busy (h : s.store.before?.isSome) : ∃ err,
    Action.begin s = (.error err, { s with calls := s.calls + 1 }) ∧
      (s.gate s.calls .begin = none → err = .store (.transaction .alreadyActive)) := by
  obtain ⟨before, hbefore⟩ := Option.isSome_iff_exists.mp h
  cases hgate : s.gate s.calls .begin with
  | some e => exact ⟨.store e, Action.change_of_some hgate, fun h => (nomatch h)⟩
  | none =>
    refine ⟨_, ?_, fun _ => rfl⟩
    simp only [Action.begin, Action.change, Fallible.bind_apply, Action.pass_of_none hgate, Fallible.get_apply, Store.begin,
      hbefore, Fallible.throw_apply]

theorem inTransaction_busy {α : Type} {work : Action α} (h : s.store.before?.isSome) : ∃ err,
    inTransaction work s = (.error err, { s with calls := s.calls + 1 }) ∧
      (s.gate s.calls .begin = none → err = .store (.transaction .alreadyActive)) := by
  obtain ⟨err, hbegin, herr⟩ := begin_busy h
  exact ⟨err, Fallible.bind_error hbegin, herr⟩

end Run

/-- The work fails and leaves the store alone. -/
def Fails {α : Type} (work : Action α) (s : Session) : Prop := ∃ err s', work s = (.error err, s') ∧ s'.store = s.store

theorem fails_busy {α β : Type} {work : Action α} {f : α → Action β} (h : s.store.before?.isSome) :
    Fails (Run.inTransaction work >>= f) s ∧
      (s.gate s.calls .begin = none →
        ((Run.inTransaction work >>= f) s).1 = .error (.store (.transaction .alreadyActive))) := by
  obtain ⟨err, hwork, herr⟩ := Run.inTransaction_busy h
  rw [Fails, Fallible.bind_error hwork]
  exact ⟨⟨err, _, rfl, rfl⟩, fun hgate => congrArg Except.error (herr hgate)⟩

theorem calm_of_free (hgate : ∀ n call, s.gate n call = none) (hidle : s.store.before? = none) : s.Calm [] := by
  refine ⟨funext fun n => funext fun call => (hgate n call).trans ?_, hidle⟩
  cases call <;> rfl

/-- Without an open transaction a file is replaced or removed as a whole, or the step fails and the store is as it was;
    either way no transaction is open. If one is open, the step fails and the transaction stays as it is. -/
theorem file_steps_atomic (s : Session) (now : Time.Instant) (path : String) (language : Language) (size : Nat) (e : Extract) :
    (s.Revertible → s.store.before? = none →
      ((∃ p s', Run.commitFile now path language size e s = (.ok p, s') ∧ s'.store.before? = none ∧
          Replaced now path language size e s.store p s'.store) ∨
        Fails (Run.commitFile now path language size e) s) ∧
      ((∃ existed s', Run.removeFile path s = (.ok existed, s') ∧ s'.store.before? = none ∧
          Removed path s.store existed s'.store) ∨
        Fails (Run.removeFile path) s)) ∧
    (s.store.before?.isSome →
      Fails (Run.commitFile now path language size e) s ∧ Fails (Run.removeFile path) s ∧
        (s.gate s.calls .begin = none →
          (Run.commitFile now path language size e s).1 = .error (.store (.transaction .alreadyActive)) ∧
          (Run.removeFile path s).1 = .error (.store (.transaction .alreadyActive)))) ∧
    ((∀ n call, s.gate n call = none) → s.store.before? = none →
      ¬ Fails (Run.commitFile now path language size e) s ∧ ¬ Fails (Run.removeFile path) s) := by
  refine ⟨fun hs hidle => ⟨?_, ?_⟩, fun hbusy => ?_, fun hgate hidle => ?_⟩
  · rcases Run.commitFile_cases hs now path language size e with ⟨s₁, h₁, b₁⟩ | ⟨err, s₁, h₁, b₁⟩
    · exact .inl ⟨_, s₁, h₁, b₁.before?.trans hidle, replaced_withFile now path language size e s.store b₁.tables⟩
    · exact .inr ⟨err, s₁, h₁, b₁.store⟩
  · rcases Run.removeFile_cases hs path with ⟨s₁, h₁, b₁⟩ | ⟨err, s₁, h₁, b₁⟩
    · exact .inl ⟨_, s₁, h₁, b₁.before?.trans hidle, removed_withoutFile path s.store b₁.tables⟩
    · exact .inr ⟨err, s₁, h₁, b₁.store⟩
  · -- A transaction that is open already keeps both steps from beginning.
    have hcommit : Fails (Run.commitFile now path language size e) s ∧ _ := fails_busy hbusy
    have hremove : Fails (Run.removeFile path) s ∧ _ := fails_busy hbusy
    exact ⟨hcommit.1, hremove.1, fun hgate => ⟨hcommit.2 hgate, hremove.2 hgate⟩⟩
  · -- Both steps succeed here, so neither fails.
    have hcalm := calm_of_free hgate hidle
    have hpath : path ∉ [] := List.not_mem_nil
    obtain ⟨s₁, h₁, -⟩ := Run.commitFile_became hcalm hpath now language size e
    obtain ⟨s₂, h₂, -⟩ := Run.removeFile_became hcalm hpath
    refine ⟨fun hfails => ?_, fun hfails => ?_⟩
    · obtain ⟨err, s', h, -⟩ := hfails
      cases h₁.symm.trans h
    · obtain ⟨err, s', h, -⟩ := hfails
      cases h₂.symm.trans h

/-- A store that refuses to commit, one that refuses nothing, and one with an open transaction. -/
theorem file_with_two_names_atomic :
    let f (name : String) (start : Nat) : Symbol := ⟨name, name, .function, ⟨start, start + 1⟩⟩
    let e : Extract := { hash := "", method := .tree, found := { symbols := [f "g" 0, f "h" 2, f "g" 4] } }
    let stored : Store := ((Store.fresh .memory).insertNode "a.ts" (f "old" 0)).insertNode "b.ts" (f "main" 0)
    let free : Session := { store := stored }
    let guarded : Session :=
      { store := stored, gate := fun _ call => if call = .commit then some (.transaction .noneToCommit) else none }
    let open_ : Session := { store := { stored with before? := some {} } }
    (∃ p s', Run.commitFile .epoch "a.ts" .typescript 5 e free = (.ok p, s') ∧ p.nodeMap = [("g", 3), ("h", 4)] ∧
      s'.store.before? = none ∧ Replaced .epoch "a.ts" .typescript 5 e stored p s'.store) ∧
    (Fails (Run.commitFile .epoch "a.ts" .typescript 5 e) guarded ∧ Fails (Run.removeFile "a.ts") guarded) ∧
    Fails (Run.commitFile .epoch "a.ts" .typescript 5 e) open_ := by
  intro f e stored free guarded open_
  refine ⟨?_, ⟨?_, ?_⟩, ?_⟩
  · obtain ⟨hdone, -, hfree⟩ := file_steps_atomic free .epoch "a.ts" .typescript 5 e
    obtain ⟨⟨p, s', hrun, hidle, hp⟩ | hfails, -⟩ := hdone (fun _ => rfl) rfl
    · have hmap : (Run.commitFile .epoch "a.ts" .typescript 5 e free).1.toOption.map (·.nodeMap) =
          some [("g", 3), ("h", 4)] := by decide +kernel
      rw [hrun] at hmap
      exact ⟨p, s', hrun, Option.some.inj hmap, hidle, hp⟩
    · exact absurd hfails (hfree (fun _ _ => rfl) rfl).1
  · -- Either the step is done or it fails, and where committing is refused it is not done.
    obtain ⟨⟨p, s', hrun, -⟩ | hfails, -⟩ :=
      (file_steps_atomic guarded .epoch "a.ts" .typescript 5 e).1 (fun _ => rfl) rfl
    · have hnot : (Run.commitFile .epoch "a.ts" .typescript 5 e guarded).1.toOption = none := by decide +kernel
      rw [hrun] at hnot
      cases hnot
    · exact hfails
  · obtain ⟨-, ⟨existed, s', hrun, -⟩ | hfails⟩ :=
      (file_steps_atomic guarded .epoch "a.ts" .typescript 5 e).1 (fun _ => rfl) rfl
    · have hnot : (Run.removeFile "a.ts" guarded).1.toOption = none := by decide +kernel
      rw [hrun] at hnot
      cases hnot
    · exact hfails
  · exact ((file_steps_atomic open_ .epoch "a.ts" .typescript 5 e).2.1 rfl).1

/-! ### A second pass that fails -/

theorem Action.query_eq_error {α : Type} {call : Call} {f : Store → Except StoreError α} {e : Error}
    (h : Action.query call f s = (.error e, s')) : s'.store = s.store := by
  rcases Action.query_cases call f s with ⟨a, -, hq⟩ | ⟨err, hq⟩ <;> cases h.symm.trans hq
  rfl

namespace Run

theorem begin_eq_ok (h : Action.begin s = (.ok (), s')) : s.store.before? = none ∧ s' = opened s := by
  rcases begin_cases s with ⟨hidle, hbegin⟩ | ⟨err, hbegin⟩ <;> cases h.symm.trans hbegin
  exact ⟨hidle, rfl⟩

theorem begin_eq_error {e : Error} (h : Action.begin s = (.error e, s')) : s'.store = s.store := by
  rcases begin_cases s with ⟨hidle, hbegin⟩ | ⟨err, hbegin⟩ <;> cases h.symm.trans hbegin
  rfl

theorem commit_eq_error {before : Tables} {e : Error} (hb : s.store.before? = some before)
    (h : Action.commit s = (.error e, s')) :
    (∃ err, s.gate s.calls .commit = some err ∧ e = .store err) ∧ s'.store = s.store := by
  cases hgate : s.gate s.calls .commit with
  | none => cases h.symm.trans (commit_open hgate hb)
  | some err =>
    cases h.symm.trans (Action.change_of_some hgate)
    exact ⟨⟨err, rfl, rfl⟩, rfl⟩

theorem rollback_throw {α : Type} {s₁ : Session} {t : Tables} {told : List Event} (hs : s.Revertible)
    (hb : (opened s).Became t told s₁) (e : Error) :
    (do Action.tryRollback; throw e : Action α) s₁ = (.error e, closed s₁ s.store.tables) := by
  rw [Fallible.bind_apply, Action.tryRollback, Fallible.bind_apply, Action.attempt_apply, rollback_opened hs hb]
  rfl

end Run

/-- The transaction of the pass is still open, with all its edges, since the store refused to commit it. -/
structure LeftOpen (now : Time.Instant) (registry : Registry) (files : List Pending) (s : Session) (e : Error)
    (s' : Session) : Prop where
  refused : ∃ n err, s.gate n .commit = some err ∧ e = .store err
  idle : s.store.before? = none
  store : s'.store = { s.store with
    tables := s.store.tables.linkAll now (Resolve.links s.store.tables registry s.store.tables.readAll files)
    before? := some s.store.tables }

theorem pending_eq_error {now : Time.Instant} {registry : Registry} {files : List Pending} {e : Error} (hs : s.Revertible)
    (h : Resolve.pending now registry files s = (.error e, s')) :
    s'.store = s.store ∨ LeftOpen now registry files s e s' := by
  unfold Resolve.pending at h
  cases files with
  | nil => cases h
  | cons p rest =>
    simp only [List.isEmpty_cons, Bool.false_eq_true, if_false] at h
    rcases Fallible.bind_eq_error h with hall | ⟨nodes, s₁, hall, h⟩
    · exact .inl (Action.query_eq_error hall)
    obtain ⟨hread, b₁⟩ := Resolve.query_eq_ok hall
    rcases Fallible.bind_eq_error h with hbegin | ⟨⟨⟩, s₂, hbegin, h⟩
    · exact .inl ((Run.begin_eq_error hbegin).trans b₁.store)
    obtain ⟨hidle, rfl⟩ := Run.begin_eq_ok hbegin
    rcases hfiles : Resolve.filesOf now registry nodes [] (p :: rest) (Run.opened s₁) with ⟨err | counted, s₃⟩
    · -- Edges that were added before the failure are taken back.
      obtain ⟨t, b₃⟩ := Resolve.quiet_pervades.filesOf now registry nodes [] (p :: rest) (Run.opened s₁)
      rw [hfiles] at b₃
      rw [Action.attempt_error hfiles] at h
      cases (Run.rollback_throw (b₁.revertible hs) b₃ err).symm.trans h
      rw [(Run.became_closed hidle b₃).store, b₁.store]
      exact .inl rfl
    · -- All edges were added, and nothing takes them back if it is the commit that fails.
      obtain ⟨-, b₃⟩ := Resolve.filesOf_eq_ok (p :: rest) (Resolve.Remembers.nothing _) hfiles
      rw [Action.attempt_ok hfiles] at h
      rcases Fallible.bind_eq_error h with hcommit | ⟨⟨⟩, s₄, -, hpure⟩
      · obtain ⟨⟨err, hgate, rfl⟩, hstore⟩ := Run.commit_eq_error b₃.before? hcommit
        rw [b₃.gate] at hgate
        have hgate : s₁.gate s₃.calls .commit = some err := hgate
        rw [b₁.gate] at hgate
        refine .inr ⟨⟨_, err, hgate, rfl⟩, b₁.before?.symm.trans hidle, ?_⟩
        have htables : (Run.opened s₁).store.tables = s.store.tables := b₁.tables
        rw [hstore, b₃.store, htables, Tables.readAll_of_allNodes hread, Run.opened, b₁.store]
      · cases hpure

/-- A second pass that fails leaves the store as it was, unless it is the commit that is refused: then all its edges stay
    in an open transaction, so that no other transaction can begin. -/
theorem failed_second_pass_undone_before_commit {now : Time.Instant} {registry : Registry} {files : List Pending} {e : Error}
    (hs : s.Revertible) (h : Resolve.pending now registry files s = (.error e, s')) :
    s'.store = s.store ∨
      LeftOpen now registry files s e s' ∧ ∀ work : Action Unit, Fails (Run.inTransaction work) s' := by
  rcases pending_eq_error hs h with hsame | hopen
  · exact .inl hsame
  · refine .inr ⟨hopen, fun work => ?_⟩
    have hbusy : s'.store.before?.isSome := by
      rw [hopen.store]
      rfl
    obtain ⟨err, hwork, -⟩ := Run.inTransaction_busy hbusy
    exact ⟨err, _, hwork, rfl⟩

end

/-- A call of a function in its own file, on a store that refuses the calls. -/
def selfCall (refused : Call) : Session × List Pending :=
  let stored : Store := (Store.fresh .memory).insertNode "a.ts" ⟨"f", "f", .function, ⟨0, 9⟩⟩
  ({ store := stored, gate := fun _ call => if call = refused then some (.database .duplicateKey) else none },
    [⟨"a.ts", "typescript", { calls := [⟨"f", ⟨1, 2⟩⟩] }, [(1, ⟨0, 9⟩)]⟩])

/-- Where adding the edge is refused, the pass is undone; where the commit is refused, it is not. -/
theorem failed_self_call_undone_before_commit :
    (∃ e s', Resolve.pending .epoch .full (selfCall .insertEdge).2 (selfCall .insertEdge).1 = (.error e, s') ∧
      s'.store = (selfCall .insertEdge).1.store) ∧
    ∃ e s', Resolve.pending .epoch .full (selfCall .commit).2 (selfCall .commit).1 = (.error e, s') ∧
      LeftOpen .epoch .full (selfCall .commit).2 (selfCall .commit).1 e s' ∧
      ∀ work : Action Unit, Fails (Run.inTransaction work) s' := by
  have hrun : ∀ refused, (Resolve.pending .epoch .full (selfCall refused).2 (selfCall refused).1).1 =
      .error (.store (.database .duplicateKey)) →
      Resolve.pending .epoch .full (selfCall refused).2 (selfCall refused).1 = (.error (.store (.database .duplicateKey)),
        (Resolve.pending .epoch .full (selfCall refused).2 (selfCall refused).1).2) := fun refused h => Prod.ext h rfl
  refine ⟨⟨_, _, hrun .insertEdge (by decide +kernel), ?_⟩, ⟨_, _, hrun .commit (by decide +kernel), ?_⟩⟩
  · rcases failed_second_pass_undone_before_commit (fun _ => rfl) (hrun .insertEdge (by decide +kernel)) with hsame | hopen
    · exact hsame
    · obtain ⟨n, err, hgate, -⟩ := hopen.1.refused
      cases hgate
  · rcases failed_second_pass_undone_before_commit (fun _ => rfl) (hrun .commit (by decide +kernel)) with hsame | hopen
    · have hother : (Resolve.pending .epoch .full (selfCall .commit).2 (selfCall .commit).1).2.store.before? ≠ none := by
        decide +kernel
      rw [hsame] at hother
      exact absurd rfl hother
    · exact hopen

/-- After a refused commit a transaction is open that was not open before, there is an edge that was not there, and no
    transaction can begin. -/
theorem refused_commit_leaves_transaction_open :
    let s := (selfCall .commit).1
    let s' := (Resolve.pending .epoch .full (selfCall .commit).2 s).2
    (∀ n, s.gate n .rollback = none) ∧ s.store.before? = none ∧ s.store.tables.edges = [] ∧
      (Resolve.pending .epoch .full (selfCall .commit).2 s).1 = .error (.store (.database .duplicateKey)) ∧
      s'.store.before? ≠ none ∧ s'.store.tables.edges.length = 1 ∧
      (Action.begin s').1 = .error (.store (.transaction .alreadyActive)) := by
  refine ⟨fun _ => rfl, rfl, rfl, ?_, ?_, ?_, ?_⟩ <;> decide +kernel

end Index
end SymbolGraph
