import SymbolGraph.Proofs.Convergence

/-! Files that a store refused. A refused path keeps its row and its nodes through the call, whichever other
    paths come before and after it, and the other paths are finished with. So the same call on a store that
    refuses nothing comes to what it would have come to at once. -/

namespace SymbolGraph

open Store

/-- The path has the same row and the same nodes in both, numbers and times included. -/
structure Tables.SameRows (t u : Tables) (path : String) : Prop where
  row : t.files.find? (·.path == path) = u.files.find? (·.path == path)
  nodes : t.nodesAt path = u.nodesAt path

namespace Tables.SameRows
variable {t u v : Tables} {path other : String}

theorem refl (t : Tables) (path : String) : t.SameRows t path := ⟨rfl, rfl⟩

theorem trans (h : t.SameRows u path) (h' : u.SameRows v path) : t.SameRows v path :=
  ⟨h.row.trans h'.row, h.nodes.trans h'.nodes⟩

theorem symm (h : t.SameRows u path) : u.SameRows t path := ⟨h.row.symm, h.nodes.symm⟩

theorem of_rows (hf : t.files = u.files) (hn : t.nodes = u.nodes) (path : String) : t.SameRows u path :=
  ⟨by rw [hf], by rw [nodesAt, nodesAt, hn]⟩

theorem withFile {row : FileRow} (h : path ≠ row.path) (t : Tables) (symbols : List Symbol) :
    (t.withFile row symbols).SameRows t path := by
  refine ⟨?_, t.nodesAt_withFile_of_ne symbols h⟩
  rw [Tables.withFile, find?_putFile, if_neg h.symm]

theorem withoutFile (h : path ≠ other) (t : Tables) : (t.withoutFile other).SameRows t path := by
  refine ⟨?_, t.nodesAt_withoutFile_of_ne h⟩
  rw [find?_withoutFile, if_neg h]

end Tables.SameRows

namespace Index
variable {w : Workspace} {R : List String} {path : String}

/-! ### Paths that a call leaves alone -/

theorem Verdict.sameRows_of_ne {other : String} (h : path ≠ other) (v : Verdict) (t : Tables) :
    (v.tables w other t).SameRows t path := by
  cases v with
  | stored language text => exact .withFile h t _
  | erased => exact .withoutFile h t
  | _ => exact .refl t path

theorem update_sameRows {had : String → String → Prop} {x : Standing} (hw : w.Shows had) (hx : x.tables.Coherent w had)
    (hrest : AtRest w R x.tables path) (given : String) :
    (x.update w R given).tables.Coherent w had ∧ AtRest w R (x.update w R given).tables path ∧
      (x.update w R given).tables.SameRows x.tables path := by
  cases hrel : Path.relative? w.rootPath given with
  | none =>
    rw [Standing.update_outside hrel]
    exact ⟨hx, hrest, .refl _ path⟩
  | some other =>
    have hnext := update_coherent (R := R) hx hw given
    rw [Standing.tables_inside hrel, judgeUpdate_eq_rule hx.readable] at hnext ⊢
    refine ⟨hnext, hrest.after other, ?_⟩
    by_cases hp : path = other
    · subst hp
      rw [Verdict.Idle.tables hrest]
      exact .refl _ path
    · exact Verdict.sameRows_of_ne hp _ _

/-- A path at rest keeps its rows, numbers and times included, through a pass over any paths. -/
theorem firstPass_sameRows {had : String → String → Prop} {t : Tables} (hw : w.Shows had) (ht : t.Coherent w had)
    (paths : List String) (h : AtRest w R t path) : (Run.firstPass w R t paths).tables.SameRows t path := by
  have hall : ∀ x : Standing, x.tables.Coherent w had → AtRest w R x.tables path →
      (paths.foldl (.update w R) x).tables.SameRows x.tables path := by
    induction paths with
    | nil => exact fun x _ _ => .refl _ path
    | cons given rest ih =>
      intro x hx hrest
      obtain ⟨hx', hrest', hsame⟩ := update_sameRows hw hx hrest given
      exact (ih _ hx' hrest').trans hsame
  exact hall { tables := t } ht h

/-- What the store refuses is neither stored nor removed. -/
theorem ruleUpdate_refused (h : path ∈ R) (known : Option String) : (w.ruleUpdate R known path).Idle true := by
  unfold Workspace.ruleUpdate Workspace.rule
  simp only [h, if_true]
  split
  · split
    · split <;> trivial
    · trivial
  · trivial

theorem atRest_refused (h : path ∈ R) (t : Tables) : AtRest w R t path := by
  have hidle := ruleUpdate_refused (w := w) h (hashAt t path)
  unfold AtRest
  cases hv : w.ruleUpdate R (hashAt t path) path with
  | stored language text => rwa [hv] at hidle
  | erased =>
    rw [hv] at hidle
    cases hidle
  | _ => trivial

/-- What the store does not refuse comes to the same whether it refuses other paths or not. -/
theorem ruleUpdate_allowed (h : path ∉ R) (known : Option String) :
    w.ruleUpdate R known path = w.ruleUpdate [] known path := by
  unfold Workspace.ruleUpdate Workspace.rule
  simp only [h, List.not_mem_nil, if_false]

theorem AtRest.allowed {t : Tables} (hp : path ∉ R) (h : AtRest w R t path) : AtRest w [] t path := by
  rwa [AtRest, ruleUpdate_allowed hp] at h

/-! ### What is held of a path -/

theorem renew_refused (h : path ∈ R) (held : Holding) : w.renew R path held = held := by
  have hidle := ruleUpdate_refused (w := w) h (held.row?.map (·.hash))
  unfold Workspace.renew
  cases hv : w.ruleUpdate R (held.row?.map (·.hash)) path with
  | stored language text =>
    rw [hv] at hidle
    exact hidle.elim
  | erased =>
    rw [hv] at hidle
    cases hidle
  | _ => rfl

theorem renew_allowed (h : path ∉ R) (held : Holding) : w.renew R path held = w.renew [] path held := by
  rw [Workspace.renew, Workspace.renew, ruleUpdate_allowed h]

/-- To bring a path up to date after a store may have refused it is to bring it up to date at once. -/
theorem renew_retried (held : Holding) : w.renew [] path (w.renew R path held) = w.renew [] path held := by
  by_cases h : path ∈ R
  · rw [renew_refused h]
  · rw [renew_allowed h, renew_idem]

/-! ### Runs -/

/-- The session with a store that refuses the paths. -/
def Session.refusing (s : Session) (R : List String) : Session := { s with gate := .refusing R }

theorem Session.Calm.refusing {s : Session} (h : s.Calm R) (R' : List String) : (s.refusing R').Calm R' := ⟨rfl, h.idle⟩

/-- How a call ends: what it has left of every path. -/
structure Session.Updated (w : Workspace) (R : List String) (had : String → String → Prop) (paths : List String)
    (s done : Session) : Prop where
  calm : done.Calm R
  coherent : done.store.tables.Coherent w had
  holding : ∀ path, done.store.tables.holding path =
    if w.Given paths path then w.renew R path (s.store.tables.holding path) else s.store.tables.holding path
  rest : ∀ path, w.Given paths path → AtRest w R done.store.tables path
  kept : ∀ path, AtRest w R s.store.tables path → done.store.tables.SameRows s.store.tables path

theorem indexFiles_updated {s : Session} {had : String → String → Prop} {c : Clock} (hw : (w.timed c).Shows had)
    (hs : s.Calm R) (ht : s.store.tables.Coherent w had) (paths : List String) :
    ∃ stats done, Run.indexFiles (w.timed c) paths s = (.ok stats, done) ∧ s.Updated w R had paths done := by
  have ht' : s.store.tables.Coherent (w.timed c) had := ht.of_workspace rfl rfl
  obtain ⟨stats, done, hrun, hcalm, hdone, hfiles, hnodes⟩ := indexFiles_coherent hw hs ht' paths
  refine ⟨stats, done, hrun, hcalm, hdone.of_workspace rfl rfl, ?_, ?_, ?_⟩
  · intro path
    rw [holding_congr hfiles hnodes, firstPass_holding hw ht']
  · rintro path ⟨given, hgiven, hrel⟩
    exact (foldl_update_atRest hw paths ht' (.inl ⟨given, hgiven, hrel⟩)).of_rows hfiles hnodes
  · intro path hrest
    exact (Tables.SameRows.of_rows hfiles hnodes path).trans (firstPass_sameRows hw ht' paths hrest)

/-- A call on a store that refuses some paths and the same call on one that refuses nothing hold of each path what the
    second call alone holds. -/
theorem Session.Updated.retried {had : String → String → Prop} {paths : List String} {s first second once : Session}
    (hfirst : s.Updated w R had paths first) (hsecond : (first.refusing []).Updated w [] had paths second)
    (honce : (s.refusing []).Updated w [] had paths once) :
    second.store.tables.holding = once.store.tables.holding := by
  have hheld := hfirst.holding
  funext path
  rw [hsecond.holding, honce.holding]
  split
  · next hgiven =>
    rw [show (first.refusing []).store = first.store from rfl, hheld, if_pos hgiven, renew_retried]
    rfl
  · next hgiven =>
    rw [show (first.refusing []).store = first.store from rfl, hheld, if_neg hgiven]
    rfl

/-- After the first call a path of the call that was not refused has the rows that it has in the end. -/
theorem Session.Updated.finished {had : String → String → Prop} {paths : List String}
    {s first second once : Session} (hfirst : s.Updated w R had paths first)
    (hsecond : (first.refusing []).Updated w [] had paths second)
    (honce : (s.refusing []).Updated w [] had paths once) (hgiven : w.Given paths path) (hpath : path ∉ R) :
    first.store.tables.SameRows second.store.tables path ∧
      first.store.tables.holding path = once.store.tables.holding path := by
  have hrest := (hfirst.rest path hgiven).allowed hpath
  refine ⟨(hsecond.kept path hrest).symm, ?_⟩
  rw [hfirst.holding, honce.holding, if_pos hgiven, if_pos hgiven, renew_allowed hpath]
  rfl

/-- From any store that a run has left, a call with some paths on a store that refuses others, and the same call on
    a store that refuses nothing, leave the records but for times and the symbols that the second call alone leaves.
    After the first call a refused path has the rows it had before, and a path of the call that was not refused has
    those that it has in the end: the second call does not touch them. -/
theorem refused_files_retried (place : Place) (w : Workspace) (ops : List Operation) (R paths : List String)
    (c c' c'' : Clock) :
    let x := (World.start place).run w ops
    let v := x.workspace w
    ∃ stats stats' stats'' first second once,
      Run.indexFiles (v.timed c) paths (x.session.refusing R) = (.ok stats, first) ∧
      Run.indexFiles (v.timed c') paths (first.refusing []) = (.ok stats', second) ∧
      Run.indexFiles (v.timed c'') paths (x.session.refusing []) = (.ok stats'', once) ∧
      second.store.tables.files.map FileRow.timeless = once.store.tables.files.map FileRow.timeless ∧
      second.store.tables.SameSymbols once.store.tables ∧
      (∀ path ∈ R, first.store.tables.SameRows x.session.store.tables path) ∧
      ∀ path, v.Given paths path → path ∉ R → first.store.tables.SameRows second.store.tables path ∧
        first.store.tables.holding path = once.store.tables.holding path := by
  intro x v
  obtain ⟨hidle, hstore⟩ := (World.start_coherent (w := w) place _).run ops
  have hshows : ∀ c, (v.timed c).Shows ((World.start place).Had w ops) := ((World.start place).run_shows w ops).timed
  have hstart : x.session.store.tables.Coherent v ((World.start place).Had w ops) := hstore.of_workspace rfl rfl
  have hcalm : ∀ R, (x.session.refusing R).Calm R := fun R => ⟨rfl, hidle⟩
  obtain ⟨stats, first, hrun, hfirst⟩ := indexFiles_updated (hshows c) (hcalm R) hstart paths
  obtain ⟨stats', second, hrun', hsecond⟩ :=
    indexFiles_updated (hshows c') (hfirst.calm.refusing []) hfirst.coherent paths
  obtain ⟨stats'', once, hrun'', honce⟩ := indexFiles_updated (hshows c'') (hcalm []) hstart paths
  -- The second call finishes what the first one could not write.
  have hsame : second.store.tables.holding = once.store.tables.holding := hfirst.retried hsecond honce
  refine ⟨stats, stats', stats'', first, second, once, hrun, hrun', hrun'', ?_, holding_symbols hsame, ?_, ?_⟩
  · exact holding_files hsame hsecond.coherent.paths honce.coherent.paths
  · intro path hpath
    exact hfirst.kept path (atRest_refused hpath _)
  · intro path hgiven hpath
    exact hfirst.finished hsecond honce hgiven hpath

end Index
end SymbolGraph
