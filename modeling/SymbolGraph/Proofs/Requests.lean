import Mathlib.Data.List.Induction
import SymbolGraph.Proofs.Action

/-! Calls of a store, one after the other. A call writes or reads, or it opens a transaction or ends one. Writing never
    fails and reading changes nothing; opening and ending fail at the wrong time and then change nothing either. The
    tables that a transaction is taken back to are those of the run up to its opening. -/

namespace SymbolGraph.Store

open Index

/-- A call that changes the tables. -/
inductive Write where
  | upsertFile (f : FileRecord)
  | deleteFile (path : String)
  | insertNode (path : String) (symbol : Symbol)
  | deleteNodes (path : String)
  | insertEdge (now : Time.Instant) (kind : EdgeKind) (source target : NodeId)
  | setCheckpoint (key value : String)
  | clear

/-- A call that changes nothing. -/
inductive Query where
  | file (path : String)
  | allFiles
  | nodesOf (path : String)
  | allNodes
  | allEdges
  | checkpoint (key : String)
  | save
  | summary

/-- A call of a store. -/
inductive Request where
  | write (w : Write)
  | query (q : Query)
  | begin
  | commit
  | rollback

/-- What a call gives back. -/
inductive Answer where
  | done
  | flag (holds : Bool)
  | count (n : Nat)
  | number (id : Int)
  | file (found : Option FileRecord)
  | files (files : List FileRecord)
  | nodes (nodes : List GraphNode)
  | edges (edges : List Edge)
  | value (found : Option String)
  | summary (summary : Summary)

namespace Write

def perform : Write → Action Answer
  | upsertFile f => (fun _ => .done) <$> Action.upsertFile f
  | deleteFile path => .flag <$> Action.deleteFile path
  | insertNode path symbol => .number <$> Action.insertNode path symbol
  | deleteNodes path => .count <$> Action.deleteNodes path
  | insertEdge now kind source target => .number <$> Action.insertEdge now kind source target
  | setCheckpoint key value => (fun _ => .done) <$> Action.setCheckpoint key value
  | clear => (fun _ => .done) <$> Action.clear

/-- What it leaves behind. -/
def apply : Write → Store → Store
  | upsertFile f, s => s.upsertFile f
  | deleteFile path, s => s.deleteFile path
  | insertNode path symbol, s => s.insertNode path symbol
  | deleteNodes path, s => s.deleteNodes path
  | insertEdge now kind source target, s => s.insertEdge now kind source target
  | setCheckpoint key value, s => s.setCheckpoint key value
  | clear, s => s.clear

theorem apply_place (w : Write) (s : Store) : (w.apply s).place = s.place := by cases w <;> rfl

theorem apply_before? (w : Write) (s : Store) : (w.apply s).before? = s.before? := by cases w <;> rfl

end Write

namespace Query

def perform : Query → Action Answer
  | file path => .file <$> Action.file? path
  | allFiles => .files <$> Action.look (·.allFiles)
  | nodesOf path => .nodes <$> Action.nodesOf path
  | allNodes => .nodes <$> Action.allNodes
  | allEdges => .edges <$> Action.look (·.allEdges)
  | checkpoint key => .value <$> Action.look fun s => .ok (s.checkpoint? key)
  | save => (fun _ => .done) <$> Action.save
  | summary => .summary <$> Action.look fun s => .ok s.summary

/-- What it finds. -/
def find : Query → Store → Except StoreError Answer
  | file path, s => (s.file? path).map .file
  | allFiles, s => s.allFiles.map .files
  | nodesOf path, s => (s.nodesOf path).map .nodes
  | allNodes, s => s.allNodes.map .nodes
  | allEdges, s => s.allEdges.map .edges
  | checkpoint key, s => .ok (.value (s.checkpoint? key))
  | save, s => s.save.map fun _ => .done
  | summary, s => .ok (.summary s.summary)

end Query

def Request.perform : Request → Action Answer
  | write w => w.perform
  | query q => q.perform
  | begin => (fun _ => .done) <$> Action.begin
  | commit => (fun _ => .done) <$> Action.commit
  | rollback => (fun _ => .done) <$> Action.rollback

/-- What a store answers to a call, and what it is like afterwards. -/
def ask (s : Store) (r : Request) : Except Error Answer × Store :=
  let (answer, session) := r.perform { store := s }
  (answer, session.store)

/-- The store after the calls. -/
def after (s : Store) (rs : List Request) : Store := rs.foldl (fun s r => (s.ask r).2) s

def Answers (s : Store) (r : Request) (a : Answer) : Prop := (s.ask r).1 = .ok a

def Fails (s : Store) (r : Request) : Prop := ∃ e, (s.ask r).1 = .error e

/-! ### One call -/

section
variable {α : Type} {s : Store} {before : Tables}

theorem map_look (f : Store → Except StoreError α) (g : α → Answer) (session : Session) :
    (g <$> Action.look f) session = (((f session.store).map g).mapError .store, session) := by
  rw [Fallible.map_apply]
  simp only [Action.look, Fallible.bind_apply, Fallible.get_apply]
  cases f session.store <;> rfl

theorem map_query (call : Call) (f : Store → Except StoreError α) (g : α → Answer) :
    (g <$> Action.query call f) { store := s } = (((f s).map g).mapError .store, { store := s, calls := 1 }) := by
  rw [Fallible.map_apply, Action.query, Fallible.bind_ok (Action.pass_of_none rfl)]
  simp only [Action.look, Fallible.bind_apply, Fallible.get_apply]
  cases f s <;> rfl

theorem ask_write (w : Write) : ∃ a, s.ask (.write w) = (.ok a, w.apply s) := by
  cases w <;> exact ⟨_, rfl⟩

theorem ask_query (q : Query) : s.ask (.query q) = ((q.find s).mapError .store, s) := by
  cases q with
  | file path | nodesOf path | allNodes | save =>
    simp only [ask, Request.perform, Query.perform, Action.file?, Action.nodesOf, Action.allNodes, Action.save,
      map_query, Query.find]
  | allFiles | allEdges => simp only [ask, Request.perform, Query.perform, map_look, Query.find]
  | checkpoint key | summary => rfl

theorem ask_begin (h : s.before? = none) : s.ask .begin = (.ok .done, { s with before? := some s.tables }) := by
  obtain ⟨place, tables, before?⟩ := s
  obtain rfl : before? = none := h
  rfl

theorem ask_begin_open (h : s.before? = some before) :
    s.ask .begin = (.error (.store (.transaction .alreadyActive)), s) := by
  obtain ⟨place, tables, before?⟩ := s
  obtain rfl : before? = some before := h
  rfl

theorem ask_commit (h : s.before? = some before) : s.ask .commit = (.ok .done, { s with before? := none }) := by
  obtain ⟨place, tables, before?⟩ := s
  obtain rfl : before? = some before := h
  rfl

theorem ask_commit_closed (h : s.before? = none) :
    s.ask .commit = (.error (.store (.transaction .noneToCommit)), s) := by
  obtain ⟨place, tables, before?⟩ := s
  obtain rfl : before? = none := h
  rfl

theorem ask_rollback (h : s.before? = some before) :
    s.ask .rollback = (.ok .done, { s with tables := before, before? := none }) := by
  obtain ⟨place, tables, before?⟩ := s
  obtain rfl : before? = some before := h
  rfl

theorem ask_rollback_closed (h : s.before? = none) :
    s.ask .rollback = (.error (.store (.transaction .noneToRollBack)), s) := by
  obtain ⟨place, tables, before?⟩ := s
  obtain rfl : before? = none := h
  rfl

end

/-- What becomes of a store by a call. -/
inductive Step (s : Store) : Request → Store → Prop where
  | wrote (w : Write) : Step s (.write w) (w.apply s)
  | asked (q : Query) : Step s (.query q) s
  | began (h : s.before? = none) : Step s .begin { s with before? := some s.tables }
  | committed {before : Tables} (h : s.before? = some before) : Step s .commit { s with before? := none }
  | rolledBack {before : Tables} (h : s.before? = some before) :
      Step s .rollback { s with tables := before, before? := none }
  | refusedBegin {before : Tables} (h : s.before? = some before) : Step s .begin s
  | refusedCommit (h : s.before? = none) : Step s .commit s
  | refusedRollback (h : s.before? = none) : Step s .rollback s

theorem ask_step (s : Store) (r : Request) : s.Step r (s.ask r).2 := by
  cases r with
  | write w =>
    obtain ⟨a, ha⟩ := s.ask_write w
    exact ha ▸ .wrote w
  | query q => exact ask_query q ▸ .asked q
  | begin =>
    cases h : s.before? with
    | none => exact ask_begin h ▸ .began h
    | some before => exact ask_begin_open h ▸ .refusedBegin h
  | commit =>
    cases h : s.before? with
    | none => exact ask_commit_closed h ▸ .refusedCommit h
    | some before => exact ask_commit h ▸ .committed h
  | rollback =>
    cases h : s.before? with
    | none => exact ask_rollback_closed h ▸ .refusedRollback h
    | some before => exact ask_rollback h ▸ .rolledBack h

/-! ### Many calls -/

section
variable {start s : Store} {r : Request} {rs : List Request}

theorem after_concat (start : Store) (rs : List Request) (r : Request) :
    start.after (rs ++ [r]) = ((start.after rs).ask r).2 := by
  rw [after, List.foldl_append]
  rfl

theorem Fails.of_error {e : Error} {s' : Store} (h : s.ask r = (.error e, s')) : s.Fails r := ⟨e, congrArg Prod.fst h⟩

theorem not_fails {a : Answer} {s' : Store} (h : s.ask r = (.ok a, s')) : ¬ s.Fails r := fun ⟨e, he⟩ => by
  rw [h] at he
  cases he

/-- A call that fails changes nothing. -/
theorem Fails.unchanged (h : s.Fails r) : (s.ask r).2 = s := by
  cases r with
  | write w =>
    obtain ⟨a, ha⟩ := s.ask_write w
    exact absurd h (not_fails ha)
  | query q => rw [ask_query]
  | begin =>
    cases hb : s.before? with
    | none => exact absurd h (not_fails (ask_begin hb))
    | some before => rw [ask_begin_open hb]
  | commit =>
    cases hb : s.before? with
    | none => rw [ask_commit_closed hb]
    | some before => exact absurd h (not_fails (ask_commit hb))
  | rollback =>
    cases hb : s.before? with
    | none => rw [ask_rollback_closed hb]
    | some before => exact absurd h (not_fails (ask_rollback hb))

theorem fails_begin : s.Fails .begin ↔ s.inTransaction = true := by
  rw [inTransaction]
  cases hb : s.before? with
  | none => simpa using not_fails (ask_begin hb)
  | some before => simpa using Fails.of_error (ask_begin_open hb)

theorem fails_commit : s.Fails .commit ↔ s.inTransaction = false := by
  rw [inTransaction]
  cases hb : s.before? with
  | none => simpa using Fails.of_error (ask_commit_closed hb)
  | some before => simpa using not_fails (ask_commit hb)

theorem fails_rollback : s.Fails .rollback ↔ s.inTransaction = false := by
  rw [inTransaction]
  cases hb : s.before? with
  | none => simpa using Fails.of_error (ask_rollback_closed hb)
  | some before => simpa using not_fails (ask_rollback hb)

/-- Whether the call opens a transaction or ends one, if it is about transactions. -/
def Request.opens? : Request → Option Bool
  | begin => some true
  | commit => some false
  | rollback => some false
  | _ => none

/-- Whether of the calls about transactions the last one opens one. -/
def leaveOpen (rs : List Request) : Bool := rs.foldl (fun isOpen r => r.opens?.getD isOpen) false

theorem leaveOpen_concat (rs : List Request) (r : Request) : leaveOpen (rs ++ [r]) = r.opens?.getD (leaveOpen rs) := by
  rw [leaveOpen, List.foldl_append]
  rfl

theorem Step.inTransaction {s' : Store} (h : s.Step r s') : s'.inTransaction = r.opens?.getD s.inTransaction := by
  cases h with
  | wrote w => rw [Store.inTransaction, w.apply_before?]; rfl
  | asked q => rfl
  | began h => rfl
  | committed h => rfl
  | rolledBack h => rfl
  | refusedBegin h => rw [Store.inTransaction, h]; rfl
  | refusedCommit h => rw [Store.inTransaction, h]; rfl
  | refusedRollback h => rw [Store.inTransaction, h]; rfl

theorem Step.place {s' : Store} (h : s.Step r s') : s'.place = s.place := by
  cases h with
  | wrote w => exact w.apply_place s
  | asked | began | committed | rolledBack | refusedBegin | refusedCommit | refusedRollback => rfl

/-- A transaction is open if the last call about transactions opens one, whether that call fails or not. -/
theorem inTransaction_after (h : start.before? = none) (rs : List Request) :
    (start.after rs).inTransaction = leaveOpen rs := by
  induction rs using List.reverseRecOn with
  | nil =>
    rw [after, List.foldl_nil, inTransaction, h]
    rfl
  | append_singleton rs r ih => rw [after_concat, (ask_step _ r).inTransaction, leaveOpen_concat, ih]

theorem after_place (start : Store) (rs : List Request) : (start.after rs).place = start.place := by
  induction rs using List.reverseRecOn with
  | nil => rfl
  | append_singleton rs r ih => rw [after_concat, (ask_step _ r).place, ih]

/-- The calls end with an opening and others after it, none of which ends the transaction. Before these the store was
    closed and had the tables. -/
def OpenedAt (start : Store) (rs : List Request) (before : Tables) : Prop :=
  ∃ past since, rs = past ++ .begin :: since ∧ (∀ r ∈ since, r ≠ .commit ∧ r ≠ .rollback) ∧
    (start.after past).before? = none ∧ (start.after past).tables = before

theorem OpenedAt.concat {before : Tables} (h : start.OpenedAt rs before) (hr : r ≠ .commit ∧ r ≠ .rollback) :
    start.OpenedAt (rs ++ [r]) before := by
  obtain ⟨past, since, rfl, hsince, hclosed, htables⟩ := h
  refine ⟨past, since ++ [r], by simp, fun q hq => ?_, hclosed, htables⟩
  rcases List.mem_append.mp hq with hq | hq
  · exact hsince q hq
  · exact List.mem_singleton.mp hq ▸ hr

/-- What a transaction is taken back to is what was there at its opening. -/
theorem openedAt_after (hstart : start.before? = none) {before : Tables} (h : (start.after rs).before? = some before) :
    start.OpenedAt rs before := by
  induction rs using List.reverseRecOn with
  | nil => cases hstart.symm.trans h
  | append_singleton rs r ih =>
    rw [after_concat] at h
    generalize hs' : ((start.after rs).ask r).2 = s' at h
    cases hs' ▸ ask_step (start.after rs) r with
    | wrote w => exact (ih (w.apply_before? _ ▸ h)).concat ⟨nofun, nofun⟩
    | asked q => exact (ih h).concat ⟨nofun, nofun⟩
    | began hclosed => exact ⟨rs, [], rfl, nofun, hclosed, Option.some.inj h⟩
    | refusedBegin => exact (ih h).concat ⟨nofun, nofun⟩
    | committed | rolledBack => cases h
    | refusedCommit hclosed | refusedRollback hclosed => cases hclosed.symm.trans h

theorem rollback_after (hstart : start.before? = none) (h : (start.after rs).inTransaction = true) :
    ∃ past since, rs = past ++ .begin :: since ∧ (start.after past).inTransaction = false ∧
      (∀ r ∈ since, r ≠ .commit ∧ r ≠ .rollback) ∧ (start.after rs).ask .rollback = (.ok .done, start.after past) := by
  obtain ⟨before, hbefore⟩ := Option.isSome_iff_exists.mp h
  obtain ⟨past, since, hrs, hsince, hclosed, htables⟩ := openedAt_after hstart hbefore
  refine ⟨past, since, hrs, by rw [inTransaction, hclosed]; rfl, hsince, ?_⟩
  rw [ask_rollback hbefore, after_place, ← htables, ← hclosed, ← after_place start past]

end

end SymbolGraph.Store
