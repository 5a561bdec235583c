import SymbolGraph.Proofs.LiveEdges
import SymbolGraph.Proofs.Script

/-! Edges of which an end is gone. Removing nodes leaves their edges behind, so an edge may mention a number that no
    node has any more. Such a number never becomes that of another node, at whatever moment of a run one looks:
    a moment is the store after some number of its calls, also in the middle of a transaction that will be taken
    back. -/

namespace SymbolGraph

open Store

namespace Index
variable {w : Workspace} {R : List String} {had : String → String → Prop} {s : Session} {t : Tables}

/-! ### The second pass -/

theorem link_bounded (ht : t.Readable) (hunused : ∀ node ∈ t.nodes, node.id < t.nextNode) {registry : Registry}
    {files : List Pending} (hcurrent : ∀ p ∈ files, p.Current w R t) {l : Link}
    (hl : l ∈ Resolve.links t registry t.readAll files) {e : EdgeRow} (he : Stores e l) {id : NodeId}
    (hid : e.Mentions id) : id < t.nextNode := by
  obtain ⟨p, hp, hl⟩ := List.mem_flatMap.mp hl
  obtain ⟨⟨source, hsource, -, hs⟩, ⟨target, htarget, ht'⟩⟩ := fileLinks_lead ht (hcurrent p hp) hl he
  rcases hid with hid | hid
  · cases hs.symm.trans hid
    exact hunused source hsource
  · cases ht'.symm.trans hid
    exact hunused target htarget

/-- In its transaction the second pass adds edges between nodes that last. -/
theorem filesOf_chain {before : Tables} (hg : s.gate = .refusing R) (hb : s.store.before? = some before)
    (hnext : s.store.tables.nextNode = before.nextNode) (ht : s.store.tables.Readable)
    (hunused : ∀ node ∈ s.store.tables.nodes, node.id < s.store.tables.nextNode) {files : List Pending}
    (hcurrent : ∀ p ∈ files, p.Current w R s.store.tables) (now : Time.Instant) (registry : Registry) :
    (Resolve.filesOf now registry s.store.tables.readAll [] files).Chain Moves s := by
  have hscript := Scripted.joins_pervades.filesOf now registry s.store.tables.readAll [] files
  have hchain := hscript.chain Joins.refl s
  obtain ⟨r, s₁, hrun, -⟩ := Resolve.sure_pervades.filesOf now registry s.store.tables.readAll [] files s hg ht
  obtain ⟨-, hdone⟩ := Resolve.filesOf_eq_ok files (.nothing _) hrun
  intro n
  obtain ⟨hfirst, -⟩ := hchain.ends Joins.refl (fun _ _ _ h h' => h.trans h') hscript.gated n
  obtain ⟨-, hlast⟩ := hchain.ends Joins.refl (fun _ _ _ h h' => h.trans h') hscript.gated (n + 1)
  have hnow := hchain n
  rw [hnow.rest]
  refine .change (.of_nodes hnow.nodes hnow.nextNode fun e he => ?_)
  -- An edge of the next moment is there at the end, so it is an old one or that of a link.
  have hend : e ∈ s₁.store.tables.edges := by
    rw [hrun] at hlast
    exact hlast.edges.subset he
  rw [hdone.tables, Tables.linkAll_edges] at hend
  rcases List.mem_append.mp hend with hold | hnew
  · exact .inl (hfirst.edges.subset hold)
  · obtain ⟨l, hl, hel⟩ := exists_paired (numbered_stores ..) hnew
    have hcommitted : (Action.storeAt _ s n).committed = before :=
      committed_of_some ((congrArg Store.before? hfirst.rest).trans hb)
    refine .inr fun id hid => ?_
    rw [hcommitted, ← hnext]
    exact link_bounded ht hunused hcurrent hl hel hid

theorem pending_chain (hs : s.Calm R) (ht : s.store.tables.Readable)
    (hunused : ∀ node ∈ s.store.tables.nodes, node.id < s.store.tables.nextNode) {files : List Pending}
    (hcurrent : ∀ p ∈ files, p.Current w R s.store.tables) (now : Time.Instant) (registry : Registry) :
    (Resolve.pending now registry files).Chain Moves s := by
  have hfiles : ∀ nodes, Gated (Resolve.filesOf now registry nodes [] files) := fun nodes =>
    (Scripted.joins_pervades.filesOf now registry nodes [] files).gated
  unfold Resolve.pending
  split
  · exact (Scripted.pure _).chain Moves.refl s
  · refine (Scripted.query _ _).andThen Moves.refl (fun nodes => (Scripted.resolve now registry nodes files).gated) ?_
    intro nodes s₁ h₁
    obtain ⟨hread, b₁⟩ := Resolve.query_eq_ok h₁
    have hall : s.store.tables.readAll = nodes := Tables.readAll_of_allNodes hread
    have hcalm := b₁.calm hs
    rw [← b₁.tables] at ht hunused hcurrent hall
    refine Scripted.begin.andThen Moves.refl
      (fun _ => (hfiles nodes).attempt.bind fun result => (Scripted.closing result).gated) ?_
    intro _ s₂ h₂
    cases (Run.begin_calm hcalm).symm.trans h₂
    refine .andThen Moves.refl (hfiles nodes).attempt ?_ fun result => Scripted.closing result
    rw [← hall]
    exact filesOf_chain (s := Run.opened s₁) hcalm.gate rfl rfl ht hunused hcurrent now registry

/-! ### Actions in a coherent store -/

/-- From a calm session with a coherent store the action moves the store as numbers allow, call by call. -/
structure Orderly (w : Workspace) (had : String → String → Prop) (R : List String) {α : Type} (x : Action α) : Prop where
  script : Scripted Scripted.Any x
  keeps : Keeps R (Tables.Coherent w had) x
  chain : ∀ s : Session, s.Calm R → s.store.tables.Coherent w had → x.Chain Moves s

namespace Orderly
variable {α β : Type} {x : Action α} {f : α → Action β}

theorem of_script (h : Scripted Moves x) (hk : Keeps R (Tables.Coherent w had) x) : Orderly w had R x :=
  ⟨h.any, hk, fun s _ _ => h.chain Moves.refl s⟩

theorem pure (a : α) : Orderly w had R (Pure.pure a : Action α) := of_script (.pure a) (.pure a)

theorem bind (hx : Orderly w had R x) (hf : ∀ a, Orderly w had R (f a)) : Orderly w had R (x >>= f) where
  script := .bind hx.script fun a => (hf a).script
  keeps := .bind hx.keeps fun a => (hf a).keeps
  chain s hs ht := by
    refine .bind Moves.refl hx.script.gated (fun a => (hf a).script.gated) (hx.chain s hs ht) fun a s₁ h₁ => ?_
    have hkept := hx.keeps s hs ht
    rw [h₁] at hkept
    exact (hf a).chain s₁ hkept.1 hkept.2

theorem attempt (hx : Orderly w had R x) : Orderly w had R (Action.attempt x) where
  script := hx.script.attempt
  keeps := hx.keeps.attempt
  chain := hx.chain

end Orderly

section
variable (hw : w.Shows had)
include hw

theorem partialRun_chain (hs : s.Calm R) (ht : s.store.tables.Coherent w had) (paths : List String) :
    (Run.partialRun w paths).Chain Moves s := by
  have hupdate := Scripted.updateAll w paths {}
  refine hupdate.andThen Moves.refl (fun t => (Scripted.pending ..).gated.bind fun _ =>
    (Scripted.query (r := Moves) _ _).gated.bind fun _ => (Scripted.pure (r := Moves) _).gated) fun t s₁ h₁ => ?_
  obtain ⟨s₁', h₁', b₁⟩ := Run.updateAll_became (w := w) hs paths (x := { tables := s.store.tables }) (.refl s)
  cases h₁.symm.trans h₁'
  have hpass := firstPass_coherent (R := R) ht hw paths
  have hcurrent := firstPass_current (R := R) hw ht paths
  have htables : s₁.store.tables = (Run.firstPass w R s.store.tables paths).tables := b₁.tables
  rw [← htables] at hpass hcurrent
  exact .andThen Moves.refl (Scripted.pending ..).gated
    (pending_chain (b₁.calm hs) hpass.readable hpass.unused hcurrent _ _) fun _ =>
      .bind (.query _ _) fun _ => .pure _

theorem fullRun_chain (hs : s.Calm R) : (Run.fullRun w).Chain Moves s := by
  obtain ⟨s₁, s₂, s₃, s₄, h₁, h₂, h₃, h₄, b₄⟩ := Run.fullPass_became (w := w) hs
  have hrest : ∀ t : Tally, Scripted Scripted.Any (do
      Action.report (.resolving t.pending.length)
      let resolved ← Resolve.pending w.now w.registry t.pending
      Action.report .finished
      Action.save
      return { t.stats.absorb resolved with duration := w.elapsed } : Action Stats) := fun t =>
    .bind (.report _) fun _ => .bind (.pending ..) fun _ => .bind (.report _) fun _ => .bind (.query _ _) fun _ => .pure _
  have hbatches := Scripted.processBatches w (Run.batches w.config.batchSize w.scan)
    { stats := { filesSeen := w.scan.length } }
  refine Scripted.clear.andThen Moves.refl (fun _ => (Scripted.bind (.report _) fun _ => .bind hbatches.any hrest).gated) ?_
  intro _ _ h
  cases h.symm.trans h₁
  refine (Scripted.report _).andThen Moves.refl (fun _ => (Scripted.bind hbatches.any hrest).gated) ?_
  intro _ _ h
  cases h.symm.trans h₂
  refine hbatches.andThen Moves.refl (fun t => (hrest t).gated) ?_
  intro _ _ h
  cases h.symm.trans h₃
  refine (Scripted.report _).andThen Moves.refl
    (fun _ => (Scripted.pending ..).gated.bind fun _ => (Scripted.report (r := Moves) _).gated.bind fun _ =>
      (Scripted.query (r := Moves) _ _).gated.bind fun _ => (Scripted.pure (r := Moves) _).gated) ?_
  intro _ _ h
  cases h.symm.trans h₄
  -- The second pass starts from the tables of the first, where the stored files still have their nodes.
  have hpass := fullPass_coherent (R := R) hw s.store.tables
  have hcurrent := fullPass_current (R := R) hw s.store.tables
  rw [← b₄.tables] at hpass hcurrent
  exact .andThen Moves.refl (Scripted.pending ..).gated
    (pending_chain (b₄.calm hs) hpass.readable hpass.unused hcurrent _ _) fun _ =>
      .bind (.report _) fun _ => .bind (.query _ _) fun _ => .pure _

theorem orderly_indexFiles (paths : List String) : Orderly w had R (Run.indexFiles w paths) := by
  refine ⟨.indexFiles w paths, keeps_indexFiles hw paths, fun s hs ht => ?_⟩
  exact .andThen Moves.refl (Scripted.partialRun w paths).gated.attempt (partialRun_chain hw hs ht paths)
    Scripted.indexFiles_rest

theorem orderly_fullIndex : Orderly w had R (Run.fullIndex w) := by
  refine ⟨.fullIndex w, keeps_fullIndex hw, fun s hs ht => ?_⟩
  have hstart := Scripted.tell (r := Moves) .indexStarted
  refine hstart.andThen Moves.refl
    (fun _ => (Scripted.fullRun w).gated.attempt.bind fun result => (Scripted.fullIndex_rest w result).gated)
    fun _ s₁ h₁ => ?_
  obtain ⟨s₁', h₁', b₁⟩ := Action.tell_became .indexStarted s
  cases h₁.symm.trans h₁'
  exact .andThen Moves.refl (Scripted.fullRun w).gated.attempt (fullRun_chain hw (b₁.calm hs))
    (Scripted.fullIndex_rest w)

theorem orderly_run (fuel : Nat) (d : Drain Change) : Orderly w had R (Watch.run w fuel d) := by
  have hhandle : ∀ c, Orderly w had R (Watch.handle w c) := fun c => by
    refine ⟨.handle w c, keeps_handle hw c, fun s hs ht => ?_⟩
    cases c with
    | changed path =>
      exact .andThen Moves.refl (Scripted.indexFiles w [path]).gated.attempt
        ((orderly_indexFiles hw [path]).chain s hs ht) fun _ => .pure _
    | removed path =>
      refine .andThen Moves.refl (Scripted.removeFile path).gated.attempt
        ((Scripted.removeFile path).chain Moves.refl s) fun result => ?_
      cases result with
      | ok _ => exact .pure _
      | error e => exact .tell _
  have hstep : ∀ d, Orderly w had R (Watch.step w d) := fun d => by
    refine ⟨.step w d, keeps_step hw d, fun s hs ht => ?_⟩
    unfold Watch.step
    dsimp only
    split
    · exact .andThen Moves.refl (Scripted.handle w _).gated ((hhandle _).chain s hs ht) fun _ => .advance d
    · exact (Scripted.advance d).chain Moves.refl s
  -- A drain is a chain of steps, of which each one handles a change or takes over what is waiting.
  induction fuel generalizing d with
  | zero => exact .pure d
  | succ fuel ih =>
    rw [Watch.run]
    split
    · exact .pure d
    · exact .bind (hstep d) ih

theorem orderly_drain : Orderly w had R (Watch.drain w) := by
  have hrest : ∀ fuel, Orderly w had R (Watch.run w fuel {} >>= fun d => Pure.pure d.handled) := fun fuel =>
    .bind (orderly_run hw fuel {}) fun d => .pure d.handled
  refine ⟨?_, keeps_drain hw, fun s hs ht => ?_⟩
  · exact .ofGet (fun s => (hrest (Watch.stepsFor s)).script) fun _ _ => rfl
  · exact .ofGet (fun _ _ => rfl) ((hrest (Watch.stepsFor s)).chain s hs ht)

end

/-! ### The moments of a run -/

/-- What an operation does with the session, whether it succeeds or not. -/
def Operation.action (w : Workspace) : Operation → Action Unit
  | .fullIndex => do let _ ← Action.attempt (Run.fullIndex w)
  | .indexFiles paths => do let _ ← Action.attempt (Run.indexFiles w paths)
  | .removeFile path => do let _ ← Action.attempt (Run.removeFile path)
  | .enqueue c => Watch.enqueue c
  | .drain => do let _ ← Action.attempt (Watch.drain w)
  | _ => pure ()

namespace World
variable {x : World} {n : Nat}

/-- The store after the first `n` calls of it, if the operations follow. -/
def storeAt (w : Workspace) (x : World) : List Operation → Nat → Store
  | [], _ => x.session.store
  | op :: rest, n =>
    if n < (x.perform w op).session.calls then (op.action (x.workspace w)).storeAt x.guarded n
    else (x.perform w op).storeAt w rest n

theorem perform_action (w : Workspace) (x : World) (op : Operation) :
    (x.perform w op).session.store = (op.action (x.workspace w) x.guarded).2.store ∧
      (x.perform w op).session.calls = (op.action (x.workspace w) x.guarded).2.calls := by
  cases op <;> exact ⟨rfl, rfl⟩

theorem shows_any (w : Workspace) (x : World) : (x.workspace w).Shows fun _ _ => True :=
  ⟨fun _ _ _ => trivial, x.clock.readable⟩

theorem orderly_action (w : Workspace) (x : World) (op : Operation) :
    Orderly (x.workspace w) (fun _ _ => True) R (op.action (x.workspace w)) := by
  have hw := x.shows_any w
  cases op with
  | fullIndex => exact (orderly_fullIndex hw).attempt.bind fun _ => .pure _
  | indexFiles paths => exact (orderly_indexFiles hw paths).attempt.bind fun _ => .pure _
  | removeFile path => exact (Orderly.of_script (.removeFile path) (keeps_removeFile path)).attempt.bind fun _ => .pure _
  | enqueue c => exact .of_script (.aside ⟨fun _ => rfl, fun _ => rfl, fun _ _ => rfl⟩) fun _ hs ht => ⟨⟨hs.gate, hs.idle⟩, ht⟩
  | drain => exact (orderly_drain hw).attempt.bind fun _ => .pure _
  | _ => exact .pure ()

theorem gated_action (w : Workspace) (x : World) (op : Operation) : Gated (op.action (x.workspace w)) :=
  (orderly_action (R := []) w x op).script.gated

theorem calls_perform (w : Workspace) (x : World) (op : Operation) : x.session.calls ≤ (x.perform w op).session.calls := by
  rw [(perform_action w x op).2]
  exact (gated_action w x op).calls x.guarded

theorem calls_run (w : Workspace) (x : World) (ops : List Operation) : x.session.calls ≤ (x.run w ops).session.calls := by
  induction ops generalizing x with
  | nil => exact le_rfl
  | cons op rest ih => exact (calls_perform w x op).trans (ih _)

theorem storeAt_start (ops : List Operation) (h : n ≤ x.session.calls) : x.storeAt w ops n = x.session.store := by
  induction ops generalizing x with
  | nil => rfl
  | cons op rest ih =>
    have hstart := (gated_action w x op).storeAt_start (s := x.guarded) h
    rw [storeAt]
    split
    · exact hstart
    · next hn =>
      rw [ih (h.trans (calls_perform w x op)), (perform_action w x op).1]
      have hend := (gated_action w x op).storeAt_end (s := x.guarded) (n := n)
        ((perform_action w x op).2 ▸ not_lt.mp hn)
      exact hend.symm.trans hstart

theorem storeAt_early (op : Operation) (rest : List Operation) (h : n ≤ (x.perform w op).session.calls) :
    x.storeAt w (op :: rest) n = (op.action (x.workspace w)).storeAt x.guarded n := by
  rw [storeAt]
  split
  · rfl
  · next hn =>
    rw [storeAt_start rest h, (perform_action w x op).1]
    exact ((gated_action w x op).storeAt_end ((perform_action w x op).2 ▸ not_lt.mp hn)).symm

theorem storeAt_late (op : Operation) (rest : List Operation) (h : (x.perform w op).session.calls ≤ n) :
    x.storeAt w (op :: rest) n = (x.perform w op).storeAt w rest n := if_neg (not_lt.mpr h)

/-- What a run has come to before an operation is one of its moments. -/
theorem storeAt_between (w : Workspace) (x : World) (past rest : List Operation) :
    x.storeAt w (past ++ rest) (x.run w past).session.calls = (x.run w past).session.store := by
  induction past generalizing x with
  | nil => exact storeAt_start rest le_rfl
  | cons op past ih =>
    exact (storeAt_late op _ (calls_run w (x.perform w op) past)).trans (ih (x.perform w op))

/-- From each moment of a run to the next the store moves as numbers allow. -/
theorem storeAt_moves (hx : x.Coherent w fun _ _ => True) (ops : List Operation) (n : Nat) :
    Moves (x.storeAt w ops n) (x.storeAt w ops (n + 1)) := by
  induction ops generalizing x with
  | nil => exact .refl _
  | cons op rest ih =>
    rcases Nat.lt_or_ge n (x.perform w op).session.calls with hn | hn
    · rw [storeAt_early op rest hn.le, storeAt_early op rest hn]
      exact (orderly_action w x op).chain x.guarded ⟨rfl, hx.1⟩ (hx.2.of_workspace rfl rfl) n
    · rw [storeAt_late op rest hn, storeAt_late op rest (Nat.le_succ_of_le hn)]
      exact ih (hx.perform (x.shows_any w) op)

theorem storeAt_numbered (place : Place) (w : Workspace) (ops : List Operation) (n : Nat) :
    ((start place).storeAt w ops n).Numbered := by
  induction n with
  | zero =>
    rw [storeAt_start ops (Nat.zero_le _)]
    exact numbered_of_none rfl ⟨.nil, fun _ h => (nomatch h)⟩ fun _ h => (nomatch h)
  | succ n ih => exact ((storeAt_moves (start_coherent place _) ops n).numbered ih).1

theorem storeAt_keeps (place : Place) (w : Workspace) (ops : List Operation) (n k : Nat) :
    ((start place).storeAt w ops n).Keeps ((start place).storeAt w ops (n + k)) := by
  induction k with
  | zero => exact .refl _
  | succ k ih =>
    have hmoves := storeAt_moves (start_coherent place _) ops (n + k) (w := w)
    exact ih.trans (hmoves.numbered (storeAt_numbered place w ops (n + k))).2

end World

/-- If an edge mentions a number at some moment of a run, then at no later moment does a node have it that did not
    have it then or before the transaction that was open then, with the same path, symbol and span. The states
    between two operations are among the moments. -/
theorem edge_ends_never_rebound (place : Place) (w : Workspace) (ops : List Operation) (n k : Nat) :
    let x := World.start place
    let y := x.storeAt w ops n
    let z := x.storeAt w ops (n + k)
    (∀ e ∈ y.tables.edges, ∀ id, e.Mentions id → ∀ later ∈ z.tables.nodes, later.id = id →
      later ∈ y.committed.nodes ∧ ∀ node ∈ y.tables.nodes, node.id = id → later = node) ∧
    ∀ past, past <+: ops → x.storeAt w ops (x.run w past).session.calls = (x.run w past).session.store := by
  intro x y z
  refine ⟨fun e he id hid later hlater hlid => ?_, fun past ⟨rest, hops⟩ => ?_⟩
  · have hy := World.storeAt_numbered place w ops n
    have hz := World.storeAt_numbered place w ops (n + k)
    exact (World.storeAt_keeps place w ops n k).unique hy hz he hid hlater hlid
  · subst hops
    exact World.storeAt_between w x past rest

/-- The tree of a function with a name of one letter that calls itself. -/
def callTree : Tree.Node :=
  .mk { kind := "program", span := ⟨0, 17⟩ } [.mk { kind := "function_declaration", span := ⟨0, 17⟩ }
    [.mk { kind := "identifier", span := ⟨9, 10⟩, field := "name" } [],
     .mk { kind := "statement_block", span := ⟨12, 17⟩ } [.mk { kind := "call_expression", span := ⟨13, 16⟩ }
       [.mk { kind := "identifier", span := ⟨13, 14⟩, field := "function" } []]]]]

/-- A workspace whose files all have that tree. -/
def recursive : Workspace := { parser := fun _ _ => some callTree }

/-- Two files, each with a function that calls itself, of which one is indexed after the other. -/
def callers : List Operation :=
  [.edit ⟨[(["a.ts"], .file (.text "function f(){f()}")), (["b.ts"], .file (.text "function g(){g()}"))]⟩,
   .indexFiles ["a.ts"], .indexFiles ["b.ts"]]

/-- When nine calls were made, the edge of the first file is new and its transaction still open. -/
theorem caller_stays_itself :
    ∃ e ∈ ((World.start .memory).storeAt recursive callers 9).tables.edges,
      ∃ later ∈ ((World.start .memory).storeAt recursive callers (9 + 13)).tables.nodes, e.Mentions later.id ∧
        later ∈ ((World.start .memory).storeAt recursive callers 9).committed.nodes := by
  obtain ⟨e, he, hsource⟩ : ∃ e ∈ ((World.start .memory).storeAt recursive callers 9).tables.edges,
      e.source = .integer 1 := by decide +kernel
  obtain ⟨later, hlater, hid⟩ : ∃ node ∈ ((World.start .memory).storeAt recursive callers (9 + 13)).tables.nodes,
      node.id = 1 := by decide +kernel
  have hmentions : e.Mentions 1 := .inl hsource
  obtain ⟨hkept, -⟩ := (edge_ends_never_rebound .memory recursive callers 9 13).1 e he 1 hmentions later hlater hid
  exact ⟨e, he, later, hlater, hid ▸ hmentions, hkept⟩

end Index
end SymbolGraph
