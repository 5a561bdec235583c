import SymbolGraph.Proofs.Moments
import SymbolGraph.Proofs.Numbers
import SymbolGraph.Proofs.Resolution
import SymbolGraph.Index.Watch

/-! The calls of an index. Everything that it does with a store it does by calls. The first pass of a run moves the
    store as numbers allow, and the second pass only adds edges until its transaction ends. -/

namespace SymbolGraph

open Store

/-- Edges were added, and nothing else happened to files and nodes. -/
structure Store.Joins (st st' : Store) : Prop where
  rest : st' = { st with tables := st'.tables }
  nodes : st'.tables.nodes = st.tables.nodes
  nextNode : st'.tables.nextNode = st.tables.nextNode
  edges : st.tables.edges <+: st'.tables.edges

theorem Store.Joins.refl (st : Store) : st.Joins st := ⟨rfl, rfl, rfl, List.prefix_refl _⟩

theorem Store.Joins.trans {st st₁ st₂ : Store} (h : st.Joins st₁) (h' : st₁.Joins st₂) : st.Joins st₂ where
  rest := by rw [h'.rest, h.rest]
  nodes := h'.nodes.trans h.nodes
  nextNode := h'.nextNode.trans h.nextNode
  edges := h.edges.trans h'.edges

namespace Index
namespace Scripted
variable {r : Store → Store → Prop} {α : Type} {path : String}

theorem tell (e : Event) : Scripted r (Action.tell e) := .aside ⟨fun _ => rfl, fun _ => rfl, fun _ _ => rfl⟩

theorem report (p : Progress) : Scripted r (Action.report p) := .aside ⟨fun _ => rfl, fun _ => rfl, fun _ _ => rfl⟩

theorem fireHook (path : String) : Scripted r (Action.fireHook path) := by
  refine .aside ⟨fun s => ?_, fun s => ?_, fun s g => ?_⟩
  · dsimp only
    split
    · split <;> rfl
    · rfl
  · dsimp only
    split
    · split <;> rfl
    · rfl
  · dsimp only
    split
    · split <;> rfl
    · rfl

/-! ### Calls that change the store -/

theorem ofChange {call : Call} {f : Tables → Tables} (h : ∀ bound t, Tables.Advances bound t (f t)) :
    Scripted Moves (Action.change call fun st => .ok (st.change f)) :=
  .change fun st st' hst => by
    cases hst
    exact .change (h _ _)

theorem clear : Scripted Moves Action.clear :=
  .ofChange fun _ _ =>
    ⟨Int.le_refl _, fun _ h => (nomatch h), fun _ => ⟨.nil, fun _ h => (nomatch h)⟩, fun _ h => (nomatch h)⟩

theorem setCheckpoint (key value : String) : Scripted Moves (Action.setCheckpoint key value) :=
  .ofChange fun _ _ => .of_nodes rfl rfl fun _ h => .inl h

theorem deleteNodes (path : String) : Scripted Moves (Action.deleteNodes path) :=
  .ofGet (fun _ => .bind (.ofChange fun _ _ => .removal _ rfl rfl (List.Subset.refl _)) fun _ => .pure _) fun _ _ => rfl

theorem insertNode (path : String) (symbol : Symbol) : Scripted Moves (Action.insertNode path symbol) :=
  .ofGet (fun _ => .bind (.ofChange fun bound t => .newNode t bound path symbol) fun _ => .pure _) fun _ _ => rfl

theorem deleteFile (path : String) : Scripted Moves (Action.deleteFile path) :=
  .ofGet (fun _ => .bind (.ofChange fun _ _ => .of_nodes rfl rfl fun _ h => .inl h) fun _ => .pure _) fun _ _ => rfl

theorem upsertFile (f : FileRecord) : Scripted Moves (Action.upsertFile f) :=
  .bind (.ofChange fun _ _ => .of_nodes rfl rfl fun _ h => .inl h) fun _ => .fireHook f.path

theorem begin : Scripted Moves Action.begin :=
  .change fun st st' h => by
    unfold Store.begin at h
    split at h
    · cases h
    · next hb =>
      cases h
      exact .begin hb

theorem commit : Scripted Moves Action.commit :=
  .change fun st st' h => by
    unfold Store.commit at h
    split at h
    · next hb =>
      cases h
      exact .commit hb
    · cases h

theorem rollback : Scripted Moves Action.rollback :=
  .change fun st st' h => by
    unfold Store.rollback at h
    split at h
    · next hb =>
      cases h
      exact .rollback hb
    · cases h

theorem inTransaction {work : Action α} (h : Scripted Moves work) : Scripted Moves (Run.inTransaction work) := by
  refine .bind .begin fun _ => .bind (.attempt (.bind h fun a => .bind .commit fun _ => .pure a)) fun result => ?_
  cases result with
  | ok a => exact .pure a
  | error e => exact .bind (.bind (.attempt .rollback) fun _ => .pure _) fun _ => .throw e

/-! ### The first pass -/

theorem insertSymbols (path : String) (symbols : List Symbol) : Scripted Moves (Run.insertSymbols path symbols) := by
  induction symbols with
  | nil => exact .pure _
  | cons symbol rest ih =>
    exact .bind (.insertNode path symbol) fun id => .bind ih fun more => .pure ((id, symbol.span) :: more)

theorem commitFile (now : Time.Instant) (path : String) (language : Language) (size : Nat) (e : Extract) :
    Scripted Moves (Run.commitFile now path language size e) := by
  have hwrite : Scripted Moves (Run.writeFile now path language size e) :=
    .bind (.deleteNodes path) fun _ => .bind (.insertSymbols path _) fun _ => .bind (.upsertFile _) fun _ => .pure _
  exact .bind (.inTransaction hwrite) fun _ => .pure _

theorem removeFile (path : String) : Scripted Moves (Run.removeFile path) := by
  have herase : Scripted Moves (Run.eraseFile path) :=
    .bind (.deleteNodes path) fun _ => .bind (.deleteFile path) fun _ => .pure _
  refine .bind (.inTransaction herase) fun existed => ?_
  cases existed with
  | true => exact .bind (.tell _) fun _ => .pure _
  | false => exact .pure _

variable (w : Workspace)

theorem processFile (path : String) (t : Tally) : Scripted Moves (Run.processFile w path t) := by
  have hstore : ∀ language text, Scripted Moves (Run.storeText w path language text t) := fun language text => by
    refine .bind (.attempt (.commitFile ..)) fun result => ?_
    cases result with
    | ok p => exact .bind (.tell _) fun _ => .pure _
    | error e => exact .pure _
  unfold Run.processFile
  split
  · exact .pure _
  · split
    · exact .pure _
    · refine .bind (.attempt (.query _ _)) fun result => ?_
      cases result with
      | error e => exact .pure _
      | ok known =>
        dsimp only
        split
        · exact .pure _
        · exact hstore _ _

theorem processBatches (groups : List (List Workspace.Found)) (t : Tally) :
    Scripted Moves (Run.processBatches w groups t) := by
  have hall : ∀ (files : List Workspace.Found) (t : Tally), Scripted Moves (Run.processAll w files t) := fun files => by
    induction files with
    | nil => exact fun t => .pure t
    | cons f rest ih => exact fun t => .bind (processFile w f.path t) fun t => .bind (.report _) fun _ => ih t
  induction groups generalizing t with
  | nil => exact .pure t
  | cons batch rest ih => exact .bind (hall batch t) fun t => ih t

theorem updateAll (paths : List String) (t : Tally) : Scripted Moves (Run.updateAll w paths t) := by
  have hupdate : ∀ (given : String) (t : Tally), Scripted Moves (Run.updateFile w given t) := fun given t => by
    unfold Run.updateFile
    dsimp only
    split
    · exact .pure _
    · split
      · exact processFile w _ _
      · refine .bind (.attempt (.removeFile _)) fun result => ?_
        cases result <;> exact .pure _
  induction paths generalizing t with
  | nil => exact .pure t
  | cons given rest ih => exact .bind (hupdate given t) fun t => ih t

/-! ### The second pass -/

theorem joins_pervades : Resolve.Pervades (Scripted Joins) where
  pure := .pure
  bind := .bind
  file path := .query _ _
  nodes path := .query _ _
  edge now kind source target :=
    .ofGet (fun _ => .bind (.change fun st st' h => by
      cases h
      exact ⟨rfl, rfl, rfl, List.prefix_append _ _⟩) fun _ => .pure _) fun _ _ => rfl

/-- How the second pass ends. -/
theorem closing (result : Except Error Resolved) :
    Scripted Moves (match result with
      | .ok counted => do
        Action.commit
        return counted
      | .error e => do
        Action.tryRollback
        MonadExcept.throw e : Action Resolved) := by
  cases result with
  | ok counted => exact .bind .commit fun _ => .pure _
  | error e => exact .bind (.bind (.attempt .rollback) fun _ => .pure _) fun _ => .throw e

/-! ### Whole runs -/

/-- Nothing is said of what the calls do. -/
def Any : Store → Store → Prop := fun _ _ => True

theorem any {x : Action α} (h : Scripted r x) : Scripted Any x := h.mono fun _ _ _ => trivial

theorem resolve (now : Time.Instant) (registry : Registry) (nodes : List GraphNode) (files : List Pending) :
    Scripted Any (Action.begin >>= fun _ =>
      Action.attempt (Resolve.filesOf now registry nodes [] files) >>= fun result =>
        match result with
        | .ok counted => do
          Action.commit
          return counted
        | .error e => do
          Action.tryRollback
          MonadExcept.throw e : Action Resolved) :=
  .bind (any .begin) fun _ => .bind (.attempt (any (joins_pervades.filesOf ..))) fun result => any (closing result)

theorem pending (now : Time.Instant) (registry : Registry) (files : List Pending) :
    Scripted Any (Resolve.pending now registry files) := by
  unfold Resolve.pending
  split
  · exact .pure _
  · exact .bind (.query _ _) fun nodes => resolve now registry nodes files

theorem partialRun (paths : List String) : Scripted Any (Run.partialRun w paths) :=
  .bind (any (updateAll w paths _)) fun _ => .bind (pending ..) fun _ => .bind (.query _ _) fun _ => .pure _

/-- What follows the run of a call with some files. -/
theorem indexFiles_rest (result : Except Error Stats) :
    Scripted Moves (match result with
      | .ok stats => return stats
      | .error e => do
        Action.tellFailed "index_files" e
        MonadExcept.throw e : Action Stats) := by
  cases result with
  | ok stats => exact .pure _
  | error e => exact .bind (.tell _) fun _ => .throw e

theorem indexFiles (paths : List String) : Scripted Any (Run.indexFiles w paths) :=
  .bind (.attempt (partialRun w paths)) fun result => any (indexFiles_rest result)

theorem recordRun (stats : Stats) : Scripted Moves (Run.recordRun w stats) :=
  .bind (.setCheckpoint ..) fun _ => .setCheckpoint ..

theorem fullRun : Scripted Any (Run.fullRun w) :=
  .bind (any .clear) fun _ => .bind (.report _) fun _ => .bind (any (processBatches w _ _)) fun _ =>
    .bind (.report _) fun _ => .bind (pending ..) fun _ => .bind (.report _) fun _ => .bind (.query _ _) fun _ => .pure _

/-- What follows the run of a full index. -/
theorem fullIndex_rest (result : Except Error Stats) :
    Scripted Moves (match result with
      | .ok stats => do
        let _ ← Action.attempt (Run.recordRun w stats)
        Action.tell (.indexCompleted stats)
        return stats
      | .error e => do
        Action.report .finished
        Action.tellFailed "full_index" e
        MonadExcept.throw e : Action Stats) := by
  cases result with
  | ok stats => exact .bind (.attempt (recordRun w stats)) fun _ => .bind (.tell _) fun _ => .pure _
  | error e => exact .bind (.report _) fun _ => .bind (.tell _) fun _ => .throw e

theorem fullIndex : Scripted Any (Run.fullIndex w) :=
  .bind (.tell _) fun _ => .bind (.attempt (fullRun w)) fun result => any (fullIndex_rest w result)

theorem handle (c : Change) : Scripted Any (Watch.handle w c) := by
  cases c with
  | changed path => exact .bind (.attempt (indexFiles w [path])) fun _ => .pure _
  | removed path =>
    refine .bind (.attempt (any (.removeFile path))) fun result => ?_
    cases result with
    | ok _ => exact .pure _
    | error e => exact .tell _

/-- What a step of a drain does with the queue. -/
theorem advance (d : Drain Change) :
    Scripted r (do
      let s ← get
      let (d, changes) := d.step s.changes
      set { s with changes }
      return d : Action (Drain Change)) := by
  have hstep : Scripted r (fun s : Session =>
      (modify (fun s' : Session => { s' with changes := (d.step s.changes).2 }) >>= fun _ =>
        Pure.pure (d.step s.changes).1 : Action (Drain Change)) s) :=
    .read (fun s => .bind (.aside ⟨fun _ => rfl, fun _ => rfl, fun _ _ => rfl⟩) fun _ => .pure _) fun _ _ => rfl
  exact hstep

theorem step (d : Drain Change) : Scripted Any (Watch.step w d) := by
  unfold Watch.step
  dsimp only
  split
  · exact .bind (handle w _) fun _ => advance d
  · exact advance d

theorem run (fuel : Nat) (d : Drain Change) : Scripted Any (Watch.run w fuel d) := by
  induction fuel generalizing d with
  | zero => exact .pure d
  | succ fuel ih =>
    unfold Watch.run
    split
    · exact .pure d
    · exact .bind (step w d) ih

end Scripted
end Index
end SymbolGraph
