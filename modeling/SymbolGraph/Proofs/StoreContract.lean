import Mathlib.Algebra.BigOperators.Group.List.Lemmas
import Mathlib.Algebra.GroupWithZero.Nat
import Mathlib.Data.List.Dedup
import Mathlib.Data.List.Forall2
import SymbolGraph.Proofs.Fallible
import SymbolGraph.Proofs.Locations
import SymbolGraph.Proofs.Requests
import SymbolGraph.Proofs.Rows

/-! What a store promises to those who call it. Its rows are those of some of the things that were put in, in the order
    in which they were put in, and numbers ascend in that order. Numbers that were part of what lasts are never given
    out anew: the next number only falls when a transaction is taken back, and then to the next one of what lasts. -/

namespace SymbolGraph.Store

open Index Fallible

/-! ### What is put in -/

/-- The row that stores a node. -/
def NodeRow.ofNode (n : GraphNode) : NodeRow := .ofSymbol n.id n.path n.symbol

/-- The row that stores a new edge. -/
def EdgeRow.ofEdge (e : Edge) : EdgeRow := .new e.id e.kind e.source e.target e.createdAt

/-- The node as it is read back. -/
def keptNode (n : GraphNode) : GraphNode := { n with symbol := keptSymbol n.symbol }

/-- What an edge says besides its weight and its time. -/
def reference (e : Edge) : EdgeId × EdgeKind × NodeId × NodeId := (e.id, e.kind, e.source, e.target)

/-- Things that are put into a store, in their order, under the numbers that the store has answered. -/
@[ext]
structure Added where
  files : List FileRecord := []
  nodes : List GraphNode := []
  edges : List Edge := []

namespace Added

instance : Append Added where
  append a b := ⟨a.files ++ b.files, a.nodes ++ b.nodes, a.edges ++ b.edges⟩

@[simp] theorem files_append (a b : Added) : (a ++ b).files = a.files ++ b.files := rfl

@[simp] theorem nodes_append (a b : Added) : (a ++ b).nodes = a.nodes ++ b.nodes := rfl

@[simp] theorem edges_append (a b : Added) : (a ++ b).edges = a.edges ++ b.edges := rfl

theorem append_empty (a : Added) : a ++ ({} : Added) = a := Added.ext (by simp) (by simp) (by simp)

theorem append_assoc (a b c : Added) : a ++ b ++ c = a ++ (b ++ c) := Added.ext (by simp) (by simp) (by simp)

end Added

/-- What a call puts in. -/
def Request.adds (s : Store) (r : Request) : Added :=
  match r, (s.ask r).1 with
  | .write (.upsertFile f), .ok _ => { files := [f] }
  | .write (.insertNode path symbol), .ok (.number id) => { nodes := [⟨id, path, symbol⟩] }
  | .write (.insertEdge now kind source target), .ok (.number id) =>
    { edges := [{ id, kind, source, target, createdAt := now }] }
  | _, _ => {}

/-- What the calls put in. -/
def added (s : Store) : List Request → Added
  | [] => {}
  | r :: rs => r.adds s ++ added (s.ask r).2 rs

theorem added_concat (s : Store) (rs : List Request) (r : Request) :
    s.added (rs ++ [r]) = s.added rs ++ r.adds (s.after rs) := by
  induction rs generalizing s with
  | nil => exact Added.append_empty _
  | cons q rs ih =>
    rw [List.cons_append, added, ih, added, Added.append_assoc]
    rfl

/-! ### Rows of what is put in -/

/-- The rows are those of the things that are kept of those put in, in their order. Their numbers ascend and are below
    the next one. -/
structure Kept {α β : Type} (number : β → Int) (row : β → α) (added : List β) (next : Int) (rows : List α)
    (kept : List β) : Prop where
  rows : rows = kept.map row
  sublist : kept.Sublist added
  ascending : kept.Pairwise (number · < number ·)
  below : ∀ b ∈ kept, number b < next

namespace Kept
variable {α β : Type} {number : β → Int} {row : β → α} {added : List β} {next : Int} {rows : List α} {kept : List β}

theorem nil : Kept number row added next [] [] := ⟨rfl, List.nil_sublist _, .nil, nofun⟩

theorem more (h : Kept number row added next rows kept) (later : List β) :
    Kept number row (added ++ later) next rows kept :=
  { h with sublist := h.sublist.trans (List.sublist_append_left _ _) }

theorem filter (h : Kept number row added next rows kept) (p : α → Bool) :
    Kept number row added next (rows.filter p) (kept.filter (p ∘ row)) where
  rows := by rw [h.rows, List.filter_map]
  sublist := List.filter_sublist.trans h.sublist
  ascending := h.ascending.filter _
  below b hb := h.below b (List.mem_of_mem_filter hb)

theorem concat (h : Kept number row added next rows kept) {b : β} (hb : number b = next) :
    Kept number row (added ++ [b]) (next + 1) (rows ++ [row b]) (kept ++ [b]) where
  rows := by rw [h.rows, List.map_append]; rfl
  sublist := h.sublist.append (List.Sublist.refl _)
  ascending := List.pairwise_append.mpr ⟨h.ascending, List.pairwise_singleton _ _, fun a ha c hc => by
    rw [List.mem_singleton.mp hc, hb]
    exact h.below a ha⟩
  below c hc := by
    rcases List.mem_append.mp hc with hc | hc
    · exact Int.lt_add_one_of_le (Int.le_of_lt (h.below c hc))
    · rw [List.mem_singleton.mp hc, hb]
      exact Int.lt_succ next

end Kept

/-- The tables hold what is kept of the things put in. There is one row for each path of a file. -/
structure TablesHold (a : Added) (t : Tables) : Prop where
  records : ∀ row ∈ t.files, ∃ f ∈ a.files, row = .ofRecord f
  paths : t.files.Pairwise (·.path < ·.path)
  nodes : ∃ kept, Kept GraphNode.id NodeRow.ofNode a.nodes t.nextNode t.nodes kept
  edges : ∃ kept, Kept Edge.id EdgeRow.ofEdge a.edges t.nextEdge t.edges kept

namespace TablesHold
variable {a : Added} {t u : Tables} {s : Store}

theorem more (h : TablesHold a t) (b : Added) : TablesHold (a ++ b) t where
  records row hrow := by
    obtain ⟨f, hf, rfl⟩ := h.records row hrow
    exact ⟨f, List.mem_append_left _ hf, rfl⟩
  paths := h.paths
  nodes := by
    obtain ⟨kept, hkept⟩ := h.nodes
    exact ⟨kept, hkept.more _⟩
  edges := by
    obtain ⟨kept, hkept⟩ := h.edges
    exact ⟨kept, hkept.more _⟩

theorem write (h : TablesHold a s.tables) (w : Write) :
    TablesHold (a ++ (Request.write w).adds s) (w.apply s).tables := by
  have hmore := h.more ((Request.write w).adds s)
  obtain ⟨nodes, hnodes⟩ := h.nodes
  obtain ⟨edges, hedges⟩ := h.edges
  cases w with
  | upsertFile f =>
    refine ⟨fun row hrow => ?_, Tables.putFile_ascending _ h.paths, hmore.nodes, hmore.edges⟩
    rcases Tables.mem_putFile h.paths hrow with rfl | ⟨hrow, -⟩
    · exact ⟨f, List.mem_append_right _ (List.mem_singleton_self f), rfl⟩
    · exact hmore.records row hrow
  | deleteFile path =>
    exact ⟨fun row hrow => hmore.records row (List.mem_of_mem_filter hrow), h.paths.filter _, hmore.nodes, hmore.edges⟩
  | insertNode path symbol =>
    exact ⟨hmore.records, h.paths, ⟨_, hnodes.concat (b := ⟨s.tables.nextNode, path, symbol⟩) rfl⟩, hmore.edges⟩
  | deleteNodes path => exact ⟨hmore.records, h.paths, ⟨_, (hnodes.more _).filter _⟩, hmore.edges⟩
  | insertEdge now kind source target =>
    exact ⟨hmore.records, h.paths, hmore.nodes,
      ⟨_, hedges.concat (b := { id := s.tables.nextEdge, kind, source, target, createdAt := now }) rfl⟩⟩
  | setCheckpoint key value => exact ⟨hmore.records, h.paths, hmore.nodes, hmore.edges⟩
  | clear => exact ⟨nofun, .nil, ⟨[], .nil⟩, ⟨[], .nil⟩⟩

end TablesHold

theorem apply_nextNode (w : Write) (s : Store) : s.tables.nextNode ≤ (w.apply s).tables.nextNode := by
  cases w with
  | insertNode path symbol => exact Int.le_add_of_nonneg_right (by decide)
  | _ => exact Int.le_refl _

theorem apply_nextEdge (w : Write) (s : Store) : s.tables.nextEdge ≤ (w.apply s).tables.nextEdge := by
  cases w with
  | insertEdge now kind source target => exact Int.le_add_of_nonneg_right (by decide)
  | _ => exact Int.le_refl _

/-! ### What holds in a run -/

/-- The tables hold what is kept of the things put in, now and if the transaction is taken back. The numbers that a
    transaction gives out follow those that last. -/
structure Holds (a : Added) (s : Store) : Prop where
  tables : TablesHold a s.tables
  committed : TablesHold a s.committed
  nextNode : s.committed.nextNode ≤ s.tables.nextNode
  nextEdge : s.committed.nextEdge ≤ s.tables.nextEdge

/-- The numbers of what lasts do not fall. -/
structure Lasts (s s' : Store) : Prop where
  nextNode : s.committed.nextNode ≤ s'.committed.nextNode
  nextEdge : s.committed.nextEdge ≤ s'.committed.nextEdge

section
variable {a : Added} {s s' : Store} {r : Request} {before : Tables}

theorem committed_closed (h : s.before? = none) : s.committed = s.tables := by
  rw [committed, h]
  rfl

theorem committed_open (h : s.before? = some before) : s.committed = before := by
  rw [committed, h]
  rfl

theorem Lasts.of_eq (h : s'.committed = s.committed) : s.Lasts s' := by
  constructor <;> rw [h]

theorem Holds.of_closed (h : s.before? = none) (ht : TablesHold a s.tables) : s.Holds a := by
  have hc := committed_closed h
  exact ⟨ht, hc ▸ ht, Int.le_of_eq (by rw [hc]), Int.le_of_eq (by rw [hc])⟩

theorem Holds.more (h : s.Holds a) (b : Added) : s.Holds (a ++ b) :=
  ⟨h.tables.more b, h.committed.more b, h.nextNode, h.nextEdge⟩

theorem Holds.step (h : s.Holds a) (hstep : s.Step r s') : s'.Holds (a ++ r.adds s) ∧ s.Lasts s' := by
  cases hstep with
  | wrote w =>
    have htables := h.tables.write w
    cases hb : s.before? with
    | none =>
      have hb' := (w.apply_before? s).trans hb
      refine ⟨.of_closed hb' htables, ?_, ?_⟩ <;> rw [committed_closed hb, committed_closed hb']
      · exact apply_nextNode w s
      · exact apply_nextEdge w s
    | some before =>
      have hsame : (w.apply s).committed = s.committed := by
        rw [committed_open hb, committed_open ((w.apply_before? s).trans hb)]
      refine ⟨⟨htables, ?_, ?_, ?_⟩, .of_eq hsame⟩ <;> rw [hsame]
      · exact h.committed.more _
      · exact h.nextNode.trans (apply_nextNode w s)
      · exact h.nextEdge.trans (apply_nextEdge w s)
  | asked | refusedBegin | refusedCommit | refusedRollback => exact ⟨h.more _, .of_eq rfl⟩
  | began hb =>
    refine ⟨⟨h.tables.more _, h.tables.more _, Int.le_refl _, Int.le_refl _⟩, .of_eq ?_⟩
    rw [committed_closed hb]
    rfl
  | committed hb => exact ⟨.of_closed rfl (h.tables.more _), h.nextNode, h.nextEdge⟩
  | rolledBack hb =>
    have hbefore := committed_open hb
    exact ⟨.of_closed rfl (hbefore ▸ h.committed.more _), .of_eq hbefore.symm⟩

theorem holds_fresh (place : Place) : (fresh place).Holds {} :=
  .of_closed rfl ⟨nofun, .nil, ⟨[], .nil⟩, ⟨[], .nil⟩⟩

theorem holds_after (place : Place) (rs : List Request) :
    ((fresh place).after rs).Holds ((fresh place).added rs) := by
  induction rs using List.reverseRecOn with
  | nil => exact holds_fresh place
  | append_singleton rs r ih =>
    rw [after_concat, added_concat]
    exact (ih.step (ask_step _ r)).1

theorem lasts_after (place : Place) (past rest : List Request) :
    ((fresh place).after past).Lasts ((fresh place).after (past ++ rest)) := by
  induction rest using List.reverseRecOn with
  | nil => exact .of_eq (by rw [List.append_nil])
  | append_singleton rest r ih =>
    have hstep := ((holds_after place (past ++ rest)).step (ask_step _ r)).2
    rw [← List.append_assoc, after_concat]
    exact ⟨ih.nextNode.trans hstep.nextNode, ih.nextEdge.trans hstep.nextEdge⟩

end

/-! ### Reading -/

theorem node_ofNode (n : GraphNode) : (NodeRow.ofNode n).node = .ok (keptNode n) :=
  NodeRow.Carries.node (r := .ofNode n) rfl

theorem readNodes_ofNode (kept : List GraphNode) : readNodes (kept.map .ofNode) = .ok (kept.map keptNode) := by
  refine readNodes_eq_ok ?_
  rw [List.forall₂_map_left_iff, List.forall₂_map_right_iff]
  exact List.forall₂_same.mpr fun n _ => node_ofNode n

theorem edge_ofEdge (e : Edge) : (EdgeRow.ofEdge e).edge =
    (readTime e.createdAt.text).map fun t => { e with weight := .finite ⟨1, 0⟩, createdAt := t } := by
  have hkind : EdgeKind.ofText? e.kind.text = some e.kind := by cases e.kind <;> rfl
  simp only [EdgeRow.edge, EdgeRow.ofEdge, EdgeRow.new, Stored.integer?, StoredWeight.weight?, bind, Except.bind, hkind]
  cases readTime e.createdAt.text <;> rfl

theorem record_ofRecord (f : FileRecord) : (FileRow.ofRecord f).record =
    (readTime f.indexedAt.text).map fun t => { f with size := keptOffset f.size, indexedAt := t } := by
  simp only [FileRow.record, FileRow.ofRecord, Stored.ofNat, Stored.integer?, bind, Except.bind]
  cases readTime f.indexedAt.text <;> rfl

theorem path_of_record {row : FileRow} {f : FileRecord} (h : row.record = .ok f) : f.path = row.path := by
  unfold FileRow.record at h
  cases hsize : row.size.integer? with
  | error e =>
    rw [hsize] at h
    cases h
  | ok size =>
    cases htime : readTime row.indexedAt with
    | error e =>
      rw [hsize, htime] at h
      cases h
    | ok t =>
      rw [hsize, htime] at h
      cases h
      rfl

theorem sum_countWords (words : List String) : ((countWords words).map (·.2)).sum = words.length := by
  have hperm : words.eraseDups.Perm words.dedup :=
    (List.perm_ext_iff_of_nodup (Workspace.nodup_eraseDups words) (List.nodup_dedup words)).mpr fun w => by simp
  rw [← List.sum_map_count_dedup_eq_length words, countWords, List.map_map]
  exact (hperm.map _).sum_eq

/-! ### The contract -/

/-- What holds after the calls. -/
structure Contract (start : Store) (rs : List Request) : Prop where
  begin_fails : (start.after rs).Fails .begin ↔ leaveOpen rs = true
  commit_fails : (start.after rs).Fails .commit ↔ leaveOpen rs = false
  rollback_fails : (start.after rs).Fails .rollback ↔ leaveOpen rs = false
  unchanged : ∀ r, (start.after rs).Fails r → ((start.after rs).ask r).2 = start.after rs
  /-- A transaction is taken back to the whole store from before its opening. -/
  taken_back : leaveOpen rs = true → ∃ past since, rs = past ++ .begin :: since ∧ leaveOpen past = false ∧
    (∀ r ∈ since, r ≠ .commit ∧ r ≠ .rollback) ∧ (start.after rs).ask .rollback = (.ok .done, start.after past)
  /-- Nodes are listed in the order in which they were put in, which is that of their numbers. -/
  nodes : ∃ kept : List GraphNode, kept.Sublist (start.added rs).nodes ∧ kept.Pairwise (·.id < ·.id) ∧
    (start.after rs).summary.nodes = kept.length ∧
    (start.after rs).Answers (.query .allNodes) (.nodes (kept.map keptNode)) ∧
    ∀ path, (start.after rs).Answers (.query (.nodesOf path)) (.nodes ((kept.filter (·.path == path)).map keptNode))
  /-- So are edges, if their times can be read. -/
  edges : ∃ kept : List Edge, kept.Sublist (start.added rs).edges ∧ kept.Pairwise (·.id < ·.id) ∧
    (start.after rs).summary.edges = kept.length ∧
    (∀ edges, (start.after rs).Answers (.query .allEdges) (.edges edges) →
      edges.map reference = kept.map reference) ∧
    ((∀ e ∈ kept, (Time.Instant.read e.createdAt.text).isSome) →
      ∃ edges, (start.after rs).Answers (.query .allEdges) (.edges edges))
  /-- Files are listed by path, one for each path, if their times can be read. -/
  files : (∀ files, (start.after rs).Answers (.query .allFiles) (.files files) →
      files.Pairwise (·.path < ·.path) ∧ (start.after rs).summary.files = files.length) ∧
    ((∀ f ∈ (start.added rs).files, (Time.Instant.read f.indexedAt.text).isSome) →
      ∃ files, (start.after rs).Answers (.query .allFiles) (.files files))
  paths : (start.after rs).tables.files.Pairwise (·.path < ·.path)
  /-- A new number is above all that lasted at any time. -/
  new_node : ∀ path symbol, ∃ id, (start.after rs).Answers (.write (.insertNode path symbol)) (.number id) ∧
    ∀ past rest, rs = past ++ rest → ∀ row ∈ (start.after past).committed.nodes, row.id < id
  new_edge : ∀ now kind source target, ∃ id,
    (start.after rs).Answers (.write (.insertEdge now kind source target)) (.number id) ∧
      ∀ past rest, rs = past ++ rest → ∀ row ∈ (start.after past).committed.edges, row.id < id
  summary : (start.after rs).Answers (.query .summary) (.summary (start.after rs).summary)
  by_kind : ((start.after rs).summary.nodesByKind.map (·.2)).sum = (start.after rs).summary.nodes ∧
    ((start.after rs).summary.edgesByKind.map (·.2)).sum = (start.after rs).summary.edges

section
variable {a : Added} {s : Store} {q : Query} {x : Answer}

theorem answers_query : s.Answers (.query q) x ↔ q.find s = .ok x := by
  rw [Answers, ask_query]
  cases q.find s <;> simp [Except.mapError]

theorem Holds.read_nodes (h : s.Holds a) : ∃ kept : List GraphNode, kept.Sublist a.nodes ∧ kept.Pairwise (·.id < ·.id) ∧
    s.summary.nodes = kept.length ∧ s.Answers (.query .allNodes) (.nodes (kept.map keptNode)) ∧
    ∀ path, s.Answers (.query (.nodesOf path)) (.nodes ((kept.filter (·.path == path)).map keptNode)) := by
  obtain ⟨kept, hkept⟩ := h.tables.nodes
  have hat : ∀ path, s.nodeRows path = (kept.filter (·.path == path)).map NodeRow.ofNode := fun path => by
    rw [nodeRows, hkept.rows, List.filter_map]
    rfl
  refine ⟨kept, hkept.sublist, hkept.ascending, ?_, answers_query.mpr ?_, fun path => answers_query.mpr ?_⟩
  · rw [Store.summary, hkept.rows, List.length_map]
  · rw [Query.find, allNodes, hkept.rows, readNodes_ofNode]
    rfl
  · rw [Query.find, nodesOf, hat, readNodes_ofNode]
    rfl

theorem Holds.read_edges (h : s.Holds a) : ∃ kept : List Edge, kept.Sublist a.edges ∧ kept.Pairwise (·.id < ·.id) ∧
    s.summary.edges = kept.length ∧
    (∀ edges, s.Answers (.query .allEdges) (.edges edges) → edges.map reference = kept.map reference) ∧
    ((∀ e ∈ kept, (Time.Instant.read e.createdAt.text).isSome) →
      ∃ edges, s.Answers (.query .allEdges) (.edges edges)) := by
  obtain ⟨kept, hkept⟩ := h.tables.edges
  have hfits : s.tables.edges.forM EdgeRow.fits = .ok () := by
    refine forM_ok fun row hrow => ?_
    obtain ⟨e, -, rfl⟩ := List.mem_map.mp (hkept.rows ▸ hrow)
    rfl
  have hread : s.allEdges = (kept.map EdgeRow.ofEdge).mapM EdgeRow.edge := by
    rw [allEdges, hfits, hkept.rows]
    rfl
  refine ⟨kept, hkept.sublist, hkept.ascending, ?_, fun edges hedges => ?_, fun htimes => ?_⟩
  · rw [Store.summary, hkept.rows, List.length_map]
  · obtain ⟨found, hfound, heq⟩ := exists_of_map (answers_query.mp hedges)
    obtain rfl : found = edges := Answer.edges.inj heq
    rw [hread, List.mapM_map] at hfound
    refine map_eq_of_mapM hfound fun e e' he => ?_
    rw [Function.comp_apply, edge_ofEdge] at he
    obtain ⟨t, -, rfl⟩ := exists_of_map he
    rfl
  · -- Edges can be read back if all their times can.
    obtain ⟨edges, hedges⟩ := exists_mapM (f := EdgeRow.edge) (l := kept.map EdgeRow.ofEdge) fun row hrow => by
      obtain ⟨e, he, rfl⟩ := List.mem_map.mp hrow
      obtain ⟨t, ht⟩ := Option.isSome_iff_exists.mp (htimes e he)
      exact ⟨_, by rw [edge_ofEdge, readTime, ht]; rfl⟩
    exact ⟨edges, answers_query.mpr (by rw [Query.find, hread, hedges]; rfl)⟩

theorem Holds.read_files (h : s.Holds a) :
    (∀ files, s.Answers (.query .allFiles) (.files files) →
      files.Pairwise (·.path < ·.path) ∧ s.summary.files = files.length) ∧
    ((∀ f ∈ a.files, (Time.Instant.read f.indexedAt.text).isSome) →
      ∃ files, s.Answers (.query .allFiles) (.files files)) := by
  have hfits : s.tables.files.forM FileRow.fits = .ok () := by
    refine forM_ok fun row hrow => ?_
    obtain ⟨f, -, rfl⟩ := h.tables.records row hrow
    rfl
  have hread : s.allFiles = s.tables.files.mapM FileRow.record := by
    rw [allFiles, hfits]
    rfl
  refine ⟨fun files hfiles => ?_, fun htimes => ?_⟩
  · obtain ⟨found, hfound, heq⟩ := exists_of_map (answers_query.mp hfiles)
    obtain rfl : found = files := Answer.files.inj heq
    rw [hread] at hfound
    have hpaths : found.map (·.path) = s.tables.files.map (·.path) := map_eq_of_mapM hfound fun row f => path_of_record
    refine ⟨?_, ?_⟩
    · have hascending := List.pairwise_map.mpr h.tables.paths
      rw [← hpaths] at hascending
      exact List.pairwise_map.mp hascending
    · rw [← List.length_map (·.path), hpaths, List.length_map]
      rfl
  · obtain ⟨files, hfiles⟩ := exists_mapM (f := FileRow.record) (l := s.tables.files) fun row hrow => by
      obtain ⟨f, hf, rfl⟩ := h.tables.records row hrow
      obtain ⟨t, ht⟩ := Option.isSome_iff_exists.mp (htimes f hf)
      exact ⟨_, by rw [record_ofRecord, readTime, ht]; rfl⟩
    exact ⟨files, answers_query.mpr (by rw [Query.find, hread, hfiles]; rfl)⟩

end

/-- After any calls a store keeps its contract. -/
theorem contract_holds (place : Place) (rs : List Request) : Contract (fresh place) rs := by
  have hclosed : (fresh place).before? = none := rfl
  have hopen := inTransaction_after hclosed rs
  have hholds := holds_after place rs
  refine
    { begin_fails := by rw [fails_begin, hopen]
      commit_fails := by rw [fails_commit, hopen]
      rollback_fails := by rw [fails_rollback, hopen]
      unchanged := fun r h => h.unchanged
      taken_back := fun h => ?_
      nodes := hholds.read_nodes
      edges := hholds.read_edges
      files := hholds.read_files
      paths := hholds.tables.paths
      new_node := fun path symbol => ⟨_, rfl, fun past rest hrs row hrow => ?_⟩
      new_edge := fun now kind source target => ⟨_, rfl, fun past rest hrs row hrow => ?_⟩
      summary := rfl
      by_kind := ⟨?_, ?_⟩ }
  · obtain ⟨past, since, hrs, hpast, hsince, hrollback⟩ := rollback_after hclosed (hopen.trans h)
    exact ⟨past, since, hrs, (inTransaction_after hclosed past).symm.trans hpast, hsince, hrollback⟩
  · -- A number was given out before, so it is below what was next then, and that never falls below what lasts.
    subst hrs
    obtain ⟨kept, hkept⟩ := (holds_after place past).committed.nodes
    obtain ⟨n, hn, rfl⟩ := List.mem_map.mp (hkept.rows ▸ hrow)
    exact ((hkept.below n hn).trans_le (lasts_after place past rest).nextNode).trans_le hholds.nextNode
  · subst hrs
    obtain ⟨kept, hkept⟩ := (holds_after place past).committed.edges
    obtain ⟨e, he, rfl⟩ := List.mem_map.mp (hkept.rows ▸ hrow)
    exact ((hkept.below e he).trans_le (lasts_after place past rest).nextEdge).trans_le hholds.nextEdge
  · exact (sum_countWords _).trans (List.length_map _)
  · exact (sum_countWords _).trans (List.length_map _)

end SymbolGraph.Store
