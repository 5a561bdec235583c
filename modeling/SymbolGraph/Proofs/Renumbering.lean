import SymbolGraph.Proofs.Alike
import SymbolGraph.Proofs.Coherence

/-! Runs that give out other numbers. Two passes over the same paths, one of which starts with a higher
    number for the next node, come to the same verdicts; what they store differs in the times and in the
    numbers of the nodes, all of which are higher by the same amount. The links then differ in the same
    way. -/

namespace SymbolGraph

namespace Store

/-- The row without its time. -/
def FileRow.timeless (r : FileRow) : FileRow := { r with indexedAt := "" }

/-- The row with its number raised. -/
def NodeRow.moved (k : Int) (r : NodeRow) : NodeRow := { r with id := r.id + k }

/-- The integer, raised. -/
def Stored.moved (k : Int) : Stored → Stored
  | .integer n => .integer (n + k)
  | .other => .other

/-- The row with the numbers of its nodes raised by `k` and its own raised by `j`. -/
def EdgeRow.moved (k j : Int) (e : EdgeRow) : EdgeRow :=
  { e with id := e.id + j, source := e.source.moved k, target := e.target.moved k }

/-- The row without its time. -/
def EdgeRow.timeless (e : EdgeRow) : EdgeRow := { e with createdAt := "" }

/-- The rows for the links under consecutive numbers. -/
def EdgeRow.numbered (now : Time.Instant) : EdgeId → List Link → List EdgeRow
  | _, [] => []
  | id, l :: rest => .new id l.kind l.source l.target now :: numbered now (id + 1) rest

/-! ### Rows -/

theorem timeless_ofRecord (f : FileRecord) :
    (FileRow.ofRecord f).timeless = ⟨f.path, f.language, f.hash, .ofNat f.size, ""⟩ := rfl

theorem timeless_new (id : EdgeId) (kind : EdgeKind) (source target : NodeId) (now : Time.Instant) :
    (EdgeRow.new id kind source target now).timeless =
      ⟨id, kind.text, .integer source, .integer target, .weight (.finite ⟨1, 0⟩), ""⟩ := rfl

theorem moved_new (k j : Int) (id : EdgeId) (kind : EdgeKind) (source target : NodeId) (now : Time.Instant) :
    (EdgeRow.new id kind source target now).moved k j = .new (id + j) kind (source + k) (target + k) now := rfl

theorem map_timeless_putFile (row : FileRow) (files : List FileRow) :
    (Tables.putFile row files).map FileRow.timeless = Tables.putFile row.timeless (files.map FileRow.timeless) := by
  induction files with
  | nil => rfl
  | cons r rest ih =>
    rw [List.map_cons, Tables.putFile, Tables.putFile]
    have hpath : ∀ r : FileRow, r.timeless.path = r.path := fun _ => rfl
    simp only [hpath]
    split
    · rfl
    · split
      · rfl
      · rw [List.map_cons, ih]

theorem numbered_moved (path : String) (id : NodeId) (k : Int) (symbols : List Symbol) :
    NodeRow.numbered path (id + k) symbols = (NodeRow.numbered path id symbols).map (NodeRow.moved k) := by
  induction symbols generalizing id with
  | nil => rfl
  | cons symbol rest ih =>
    have hnext : id + k + 1 = id + 1 + k := by rw [Int.add_right_comm]
    rw [NodeRow.numbered, NodeRow.numbered, List.map_cons, hnext, ih]
    rfl

end Store

open Store

/-- Both tables hold the same but for times and for the numbers of the nodes, which are higher by `k` in the
    first. -/
structure Tables.Moved (k : Int) (t u : Tables) : Prop where
  files : t.files.map FileRow.timeless = u.files.map FileRow.timeless
  nodes : t.nodes = u.nodes.map (NodeRow.moved k)
  nextNode : t.nextNode = u.nextNode + k

namespace Tables
variable {k : Int} {t u : Tables} {now : Time.Instant}

theorem linkAll_eq (t : Tables) (now : Time.Instant) (ls : List Link) :
    t.linkAll now ls = { t with
      edges := t.edges ++ EdgeRow.numbered now t.nextEdge ls
      nextEdge := t.nextEdge + ls.length } := by
  induction ls generalizing t with
  | nil => simp [linkAll, EdgeRow.numbered]
  | cons l rest ih =>
    have hnext : ∀ id n : Int, id + 1 + n = id + (n + 1) := by omega
    have htail := ih (t.link now l)
    simpa [linkAll, EdgeRow.numbered, link, hnext] using htail

theorem linkAll_edges (t : Tables) (now : Time.Instant) (ls : List Link) :
    (t.linkAll now ls).edges = t.edges ++ EdgeRow.numbered now t.nextEdge ls := by
  rw [linkAll_eq]

theorem Moved.withFile (h : t.Moved k u) {row row' : FileRow} (hrow : row.timeless = row'.timeless)
    (symbols : List Symbol) : (t.withFile row symbols).Moved k (u.withFile row' symbols) := by
  have hpath : row.path = row'.path := (FileRow.mk.injEq .. ▸ hrow).1
  refine ⟨?_, ?_, ?_⟩
  · simp only [Tables.withFile, map_timeless_putFile, hrow, h.files]
  · simp only [Tables.withFile, h.nodes, h.nextNode, hpath, numbered_moved, List.map_append, List.filter_map]
    rfl
  · simp only [Tables.withFile, h.nextNode]
    exact Int.add_right_comm _ _ _

theorem Moved.withoutFile (h : t.Moved k u) (path : String) : (t.withoutFile path).Moved k (u.withoutFile path) := by
  refine ⟨?_, ?_, h.nextNode⟩
  · have hfilter : ∀ files : List FileRow, (files.filter (·.path != path)).map FileRow.timeless =
        (files.map FileRow.timeless).filter (·.path != path) := fun files => by rw [List.filter_map]; rfl
    simp only [Tables.withoutFile, hfilter, h.files]
  · simp only [Tables.withoutFile, h.nodes, List.filter_map]
    rfl

/-! ### Reading -/

theorem Moved.find? (h : t.Moved k u) (path : String) :
    (t.files.find? (·.path == path)).map FileRow.timeless = (u.files.find? (·.path == path)).map FileRow.timeless := by
  have hfind : ∀ files : List FileRow, (files.find? (·.path == path)).map FileRow.timeless =
      (files.map FileRow.timeless).find? (·.path == path) := fun files => by rw [List.find?_map]; rfl
  rw [hfind, hfind, h.files]

end Tables

namespace Index

theorem Run.firstPass_edges (w : Workspace) (R : List String) (t : Tables) (paths : List String) :
    (firstPass w R t paths).tables.edges = t.edges :=
  List.foldlRecOn paths (Standing.update w R) (motive := fun x => x.tables.edges = t.edges) (b := { tables := t }) rfl
    fun x hx given _ => by
      cases hrel : Path.relative? w.rootPath given with
      | none =>
        rw [Standing.update_outside hrel]
        exact hx
      | some path =>
        rw [Standing.tables_inside hrel, (Verdict.tables_edges ..).1]
        exact hx

/-- The edges that a call with some files leaves: those before it and those of the links. -/
theorem Run.linked_edges (w : Workspace) (R : List String) (t : Tables) (paths : List String) :
    ((firstPass w R t paths).linked w).edges =
      t.edges ++ EdgeRow.numbered w.now (firstPass w R t paths).tables.nextEdge
        ((firstPass w R t paths).links w.registry) := by
  rw [Standing.linked, Tables.linkAll_edges, firstPass_edges]

/-- The first number is higher by `k`. -/
def Raised (k : Int) (a b : NodeId) : Prop := a = b + k

variable {k : Int} {t u : Tables}

theorem readNodes_moved {rows : List NodeRow} (h : ∀ r ∈ rows, ∃ n, r.node = .ok n) :
    List.Forall₂ (NodeAlike (Raised k)) ((readNodes (rows.map (NodeRow.moved k))).toOption.getD [])
      ((readNodes rows).toOption.getD []) := by
  refine readNodes_alike ?_ h
  rw [List.forall₂_map_left_iff]
  exact List.forall₂_same.mpr fun r _ => ⟨rfl, rfl⟩

theorem lookup_moved (h : t.Moved k u) (hu : u.Readable) : LookupAlike (Raised k) t u := fun path => by
  have hany : t.files.any (·.path == path) = u.files.any (·.path == path) := by
    have hmap : ∀ files : List FileRow, (files.map FileRow.timeless).any (·.path == path) = files.any (·.path == path) :=
      fun files => by rw [List.any_map]; rfl
    rw [← hmap, h.files, hmap]
  have hrows : t.nodesAt path = (u.nodesAt path).map (NodeRow.moved k) := by
    rw [Tables.nodesAt, Tables.nodesAt, h.nodes, List.filter_map]
    rfl
  unfold Tables.lookup? Tables.readAt
  rw [hany, hrows]
  split
  · exact .some (readNodes_moved fun r hr => hu.nodes r (List.mem_of_mem_filter hr))
  · exact .none

/-! ### The first pass -/

/-- The workspace at another time. -/
def Workspace.timed (w : Workspace) (c : Clock) : Workspace := { w with now := c.now, elapsed := c.elapsed }

@[simp] theorem Workspace.timed_registry (w : Workspace) (c : Clock) : (w.timed c).registry = w.registry := rfl

@[simp] theorem Workspace.timed_elapsed (w : Workspace) (c : Clock) : (w.timed c).elapsed = c.elapsed := rfl

theorem Workspace.Shows.timed {w : Workspace} {had : String → String → Prop} (h : w.Shows had) (c : Clock) :
    (w.timed c).Shows had := ⟨h.texts, c.readable⟩

theorem extract_timed (w : Workspace) (c : Clock) : (w.timed c).extract = w.extract := rfl

theorem Verdict.gain_timed (w : Workspace) (c : Clock) (v : Verdict) : v.gain (w.timed c) = v.gain w := by
  cases v <;> simp only [gain, extract_timed]

theorem Verdict.made_timed (w : Workspace) (c : Clock) (path : String) (next : NodeId) (v : Verdict) :
    v.made (w.timed c) path next = v.made w path next := by
  cases v <;> simp only [made, extract_timed]

/-- Both passes have come as far, but for times and for the numbers of the nodes. -/
structure Standing.Moved (k : Int) (x y : Standing) : Prop where
  tables : x.tables.Moved k y.tables
  stats : x.tally.stats = y.tally.stats
  pending : List.Forall₂ (PendingAlike (Raised k)) x.tally.pending y.tally.pending

theorem numberedSpans_moved (id : NodeId) (symbols : List Symbol) :
    List.Forall₂ (fun a b => Raised k a.1 b.1 ∧ a.2 = b.2) (numberedSpans (id + k) symbols) (numberedSpans id symbols) := by
  induction symbols generalizing id with
  | nil => exact .nil
  | cons symbol rest ih =>
    have htail := ih (id + 1)
    rw [Int.add_right_comm] at htail
    exact .cons ⟨rfl, rfl⟩ htail

variable {w : Workspace} {c c' : Clock} {R : List String} {x y : Standing}

theorem Verdict.tables_moved (h : t.Moved k u) (path : String) (v : Verdict) :
    (v.tables (w.timed c) path t).Moved k (v.tables (w.timed c') path u) := by
  cases v with
  | stored language text =>
    show ((t.withFile (.ofRecord ⟨path, language.id, (w.extract language text).hash, text.utf8ByteSize, c.now⟩)
      (w.extract language text).found.symbols)).Moved k (u.withFile
        (.ofRecord ⟨path, language.id, (w.extract language text).hash, text.utf8ByteSize, c'.now⟩)
        (w.extract language text).found.symbols)
    exact h.withFile (by rw [timeless_ofRecord, timeless_ofRecord]) _
  | erased => exact h.withoutFile path
  | skipped => exact h
  | unknown => exact h
  | kept => exact h
  | refused e => exact h
  | stuck => exact h

theorem Verdict.made_moved (path : String) (next : NodeId) (v : Verdict) :
    List.Forall₂ (PendingAlike (Raised k)) (v.made w path (next + k)) (v.made w path next) := by
  cases v with
  | stored language text => exact .cons ⟨rfl, rfl, rfl, numberedSpans_moved next _⟩ .nil
  | erased => exact .nil
  | skipped => exact .nil
  | unknown => exact .nil
  | kept => exact .nil
  | refused e => exact .nil
  | stuck => exact .nil

theorem Standing.Moved.after (h : x.Moved k y) (path : String) (v : Verdict) :
    (x.after (w.timed c) path v).Moved k (y.after (w.timed c') path v) where
  tables := Verdict.tables_moved h.tables path v
  stats := by simp only [Standing.after, Verdict.tally_eq, h.stats, Verdict.gain_timed]
  pending := by
    simp only [Standing.after, Verdict.tally_eq, Verdict.made_timed, h.tables.nextNode]
    exact List.rel_append h.pending (Verdict.made_moved path y.tables.nextNode v)

/-- A path comes to the same verdict in both passes. -/
theorem Standing.Moved.settle (h : x.Moved k y) (hx : x.tables.Readable) (hy : y.tables.Readable) (path : String) :
    (x.settle (w.timed c) R path).Moved k (y.settle (w.timed c') R path) := by
  have hhash : hashAt x.tables path = hashAt y.tables path := by
    have htimeless : ∀ f : Option FileRow, f.map (·.hash) = (f.map FileRow.timeless).map (·.hash) := fun f => by
      cases f <;> rfl
    rw [hashAt, hashAt, htimeless, h.tables.find?, ← htimeless]
  unfold Standing.settle
  rw [judge_eq_rule hx, judge_eq_rule hy, hhash]
  exact h.after path _

theorem foldl_settle_moved {had : String → String → Prop} (hc : (w.timed c).Shows had) (hc' : (w.timed c').Shows had)
    (paths : List String) (h : x.Moved k y) (hx : x.tables.Coherent (w.timed c) had)
    (hy : y.tables.Coherent (w.timed c') had) :
    (paths.foldl (.settle (w.timed c) R) x).Moved k (paths.foldl (.settle (w.timed c') R) y) := by
  induction paths generalizing x y with
  | nil => exact h
  | cons path rest ih =>
    exact ih (h.settle hx.readable hy.readable path) (settle_coherent hx hc path) (settle_coherent hy hc' path)

/-! ### The second pass -/

theorem EdgeRow.numbered_moved {ls ms : List Link} (h : List.Forall₂ (LinkAlike (Raised k)) ls ms) (j : Int) (id : EdgeId)
    (now now' : Time.Instant) :
    (EdgeRow.numbered now (id + j) ls).map EdgeRow.timeless =
      (EdgeRow.numbered now' id ms).map fun e => (e.moved k j).timeless := by
  induction h generalizing id with
  | nil => rfl
  | @cons l m _ _ hlm _ ih =>
    have hnext : id + j + 1 = id + 1 + j := Int.add_right_comm _ _ _
    have hsource : l.source = m.source + k := hlm.source
    have htarget : l.target = m.target + k := hlm.target
    rw [EdgeRow.numbered, EdgeRow.numbered, List.map_cons, List.map_cons, hnext, ih, hlm.kind, hsource, htarget,
      moved_new, timeless_new, timeless_new]

/-- Passes that have come as far add links between the same nodes and count the same. -/
theorem Standing.Moved.links (h : x.Moved k y) (hy : y.tables.Readable) (registry : Registry) :
    List.Forall₂ (LinkAlike (Raised k)) (x.links registry) (y.links registry) ∧
      Resolve.counts x.tables registry x.tables.readAll x.tally.pending =
        Resolve.counts y.tables registry y.tables.readAll y.tally.pending := by
  have hall : List.Forall₂ (NodeAlike (Raised k)) x.tables.readAll y.tables.readAll := by
    rw [Tables.readAll, h.tables.nodes]
    exact readNodes_moved hy.nodes
  exact Resolve.links_alike (lookup_moved h.tables hy) hall registry h.pending

end Index
end SymbolGraph
