import SymbolGraph.Proofs.Convergence

/-! Files given in another order. A call with the same paths in another order counts the same and leaves the
    same files and symbols. It adds the same imports, seen by the positions of their ends; and it adds calls
    for the same references, from the same symbols, and to the same symbol where only one can be meant. -/

namespace SymbolGraph

open Store

/-- The positions of both ends of an edge. -/
def Tables.ends? (t : Tables) (e : EdgeRow) : Option ((String × Nat) × (String × Nat)) :=
  (t.position? e.source).bind fun a => (t.position? e.target).map fun b => (a, b)

/-- The nodes that a name may mean. -/
def Tables.meanings (t : Tables) (name : String) : List GraphNode :=
  t.readAll.filter (·.symbol.matchesReference name)

namespace Index

/-- A name in a call of a file. -/
structure Reference where
  path : String
  call : CallSite
  name : String

/-- The edge is what the reference becomes: it starts at the first symbol of the file around the call, and ends
    at a node that the name may mean. -/
structure Reference.Becomes (w : Workspace) (t : Tables) (r : Reference) (e : EdgeRow) : Prop where
  source : ∃ language text i, w.accepts r.path = some language ∧ w.source? r.path = some text ∧
    r.call ∈ (w.extract language text).found.calls ∧
    (w.extract language text).found.symbols.findIdx? (·.span.contains r.call.span) = some i ∧
    t.position? e.source = some (r.path, i)
  name : r.name ∈ Resolve.calleeParts r.call.callee
  target : ∃ n ∈ t.meanings r.name, e.target = .integer n.id

/-- Both tables hold the same but for times and numbers, and so do the edges that were added to each. -/
structure Agree (w : Workspace) (t : Tables) (new : List EdgeRow) (u : Tables) (new' : List EdgeRow) : Prop where
  files : t.files.map FileRow.timeless = u.files.map FileRow.timeless
  symbols : t.SameSymbols u
  imports : ((new.filter (·.kind == EdgeKind.imports.text)).map t.ends?).Perm
    ((new'.filter (·.kind == EdgeKind.imports.text)).map u.ends?)
  placed : none ∉ (new.filter (·.kind == EdgeKind.imports.text)).map t.ends?
  calls : ∃ made made' : List (Reference × EdgeRow),
    made.map (·.2) = new.filter (·.kind == EdgeKind.calls.text) ∧
    made'.map (·.2) = new'.filter (·.kind == EdgeKind.calls.text) ∧
    (made.map (·.1)).Perm (made'.map (·.1)) ∧
    (∀ m ∈ made, m.1.Becomes w t m.2) ∧ (∀ m ∈ made', m.1.Becomes w u m.2) ∧
    ∀ m ∈ made, ∀ m' ∈ made', m.1 = m'.1 → t.position? m.2.source = u.position? m'.2.source ∧
      ((t.meanings m.1.name).length = 1 → t.position? m.2.target = u.position? m'.2.target)

namespace Resolve
variable {ρ : NodeId → NodeId → Prop} {t u : Tables} {p q : Pending} {ns ms : List GraphNode} {registry : Registry}

/-! ### Calls by reference -/

/-- A name may mean some node of the one just if it may mean some node of the other. -/
def SameNames (ns ms : List GraphNode) : Prop := ∀ name : String,
  (ns.find? (·.symbol.matchesReference name)).isSome = (ms.find? (·.symbol.matchesReference name)).isSome

/-- The links of a call with the references that they are made for. -/
def namedLinks (ns : List GraphNode) (p : Pending) (c : CallSite) : List (Reference × Link) :=
  match p.enclosing? c with
  | some caller => (calleeParts c.callee).filterMap fun name =>
      (ns.find? (·.symbol.matchesReference name)).map fun n => (⟨p.path, c, name⟩, ⟨.calls, caller, n.id⟩)
  | none => []

theorem namedLinks_links (ns : List GraphNode) (p : Pending) (c : CallSite) :
    (namedLinks ns p c).map (·.2) = callLinks ns p c := by
  unfold namedLinks callLinks
  cases p.enclosing? c with
  | none => rfl
  | some caller =>
    simp only [partLinks, List.map_filterMap, Option.map_map]
    rfl

theorem mem_namedLinks {c : CallSite} {r : Reference} {l : Link} (h : (r, l) ∈ namedLinks ns p c) :
    r.path = p.path ∧ r.call = c ∧ r.name ∈ calleeParts c.callee ∧ p.enclosing? c = some l.source ∧
      ∃ n, ns.find? (·.symbol.matchesReference r.name) = some n ∧ l.target = n.id := by
  unfold namedLinks at h
  cases hcaller : p.enclosing? c with
  | none =>
    rw [hcaller] at h
    cases h
  | some caller =>
    rw [hcaller] at h
    obtain ⟨name, hname, hfound⟩ := List.mem_filterMap.mp h
    obtain ⟨n, hn, hpair⟩ := Option.map_eq_some_iff.mp hfound
    cases hpair
    exact ⟨rfl, rfl, hname, rfl, n, hn, rfl⟩

theorem namedLinks_alike (hp : PendingAlike ρ p q) (hfind : SameNames ns ms) (c : CallSite) :
    (namedLinks ns p c).map (·.1) = (namedLinks ms q c).map (·.1) := by
  have hcaller := hp.enclosing? c
  unfold namedLinks
  rw [hp.path]
  revert hcaller
  cases p.enclosing? c <;> cases q.enclosing? c <;> intro hcaller <;> cases hcaller
  · rfl
  · simp only [List.map_filterMap, Option.map_map]
    refine List.filterMap_congr fun name _ => ?_
    have hname := hfind name
    cases hn : ns.find? (·.symbol.matchesReference name) <;> cases hm : ms.find? (·.symbol.matchesReference name) <;>
      simp_all

theorem callCounts_alike (hp : PendingAlike ρ p q) (hfind : SameNames ns ms) (c : CallSite) :
    callCounts ns p c = callCounts ms q c := by
  refine callCounts_congr hp ?_
  rw [← namedLinks_links, ← namedLinks_links, List.length_map, List.length_map]
  simpa using congrArg List.length (namedLinks_alike hp hfind c)

/-! ### Counts in any order -/

theorem total_perm {rs qs : List Resolved} (h : rs.Perm qs) : Resolved.total rs = Resolved.total qs := by
  unfold Resolved.total
  refine h.foldr_eq' (fun a _ b _ c => ?_) _
  simp [Resolved.add, Nat.add_left_comm]

theorem fileCounts_alike (registry : Registry) (hl : LookupAlike ρ t u) (hp : PendingAlike ρ p q)
    (hfind : SameNames ns ms) : fileCounts t registry ns p = fileCounts u registry ms q :=
  fileCounts_congr hl hp registry (callCounts_alike hp hfind)

/-! ### Links by kind -/

theorem importLinksOf_kind {l : Link} (h : l ∈ importLinksOf t registry p) : l.kind = .imports := by
  obtain ⟨⟨res, i⟩, -, hl⟩ := List.mem_flatMap.mp h
  have hl : l ∈ importLinks t res p i := hl
  unfold importLinks at hl
  split at hl
  · obtain ⟨name, -, hn⟩ := List.mem_filterMap.mp hl
    obtain ⟨n, -, rfl⟩ := Option.map_eq_some_iff.mp hn
    rfl
  · cases hl

theorem callLinks_kind {c : CallSite} {l : Link} (h : l ∈ callLinks ns p c) : l.kind = .calls := by
  unfold callLinks at h
  split at h
  · obtain ⟨name, -, hn⟩ := List.mem_filterMap.mp h
    obtain ⟨n, -, rfl⟩ := Option.map_eq_some_iff.mp hn
    rfl
  · cases h

theorem links_imports (t : Tables) (registry : Registry) (ns : List GraphNode) (ps : List Pending) :
    (links t registry ns ps).filter (·.kind = .imports) = ps.flatMap (importLinksOf t registry) := by
  rw [links, List.filter_flatMap]
  refine List.flatMap_congr fun p _ => ?_
  have himports : ∀ l ∈ importLinksOf t registry p, decide (l.kind = .imports) = true := fun l hl =>
    decide_eq_true (importLinksOf_kind hl)
  have hcalls : ∀ l ∈ p.found.calls.flatMap (callLinks ns p), ¬ decide (l.kind = .imports) = true := fun l hl => by
    obtain ⟨c, -, hl⟩ := List.mem_flatMap.mp hl
    simp [callLinks_kind hl]
  rw [fileLinks, List.filter_append, List.filter_eq_nil_iff.mpr hcalls, List.append_nil]
  exact List.filter_eq_self.mpr himports

theorem links_calls (t : Tables) (registry : Registry) (ns : List GraphNode) (ps : List Pending) :
    (links t registry ns ps).filter (·.kind = .calls) =
      (ps.flatMap fun p => p.found.calls.flatMap (namedLinks ns p)).map (·.2) := by
  rw [links, List.filter_flatMap, List.map_flatMap]
  refine List.flatMap_congr fun p _ => ?_
  have himports : ∀ l ∈ importLinksOf t registry p, ¬ decide (l.kind = .calls) = true := fun l hl => by
    simp [importLinksOf_kind hl]
  have hcalls : ∀ l ∈ p.found.calls.flatMap (callLinks ns p), decide (l.kind = .calls) = true := fun l hl => by
    obtain ⟨c, -, hl⟩ := List.mem_flatMap.mp hl
    simp [callLinks_kind hl]
  rw [fileLinks, ← importLinksOf, List.filter_append, List.filter_eq_nil_iff.mpr himports, List.nil_append,
    List.filter_eq_self.mpr hcalls, List.map_flatMap]
  exact List.flatMap_congr fun c _ => (namedLinks_links ns p c).symm

end Resolve

variable {t u : Tables} {w : Workspace} {R : List String}

/-! ### Edges of links -/

/-- The row is that of the link. -/
structure Stores (e : EdgeRow) (l : Link) : Prop where
  kind : e.kind = l.kind.text
  source : e.source = .integer l.source
  target : e.target = .integer l.target

theorem numbered_stores (now : Time.Instant) (id : EdgeId) (ls : List Link) :
    List.Forall₂ Stores (EdgeRow.numbered now id ls) ls := by
  induction ls generalizing id with
  | nil => exact .nil
  | cons l rest ih => exact .cons ⟨rfl, rfl, rfl⟩ (ih (id + 1))

theorem kindText_injective : Function.Injective EdgeKind.text := fun a b h => by
  cases a <;> cases b <;> first | rfl | exact absurd h (by decide)

theorem stores_filter {rows : List EdgeRow} {ls : List Link} (h : List.Forall₂ Stores rows ls) (kind : EdgeKind) :
    List.Forall₂ Stores (rows.filter (·.kind == kind.text)) (ls.filter (·.kind = kind)) := by
  refine List.rel_filter (fun e l hel => ?_) h
  show (e.kind == kind.text) = true ↔ decide (l.kind = kind) = true
  rw [hel.kind, beq_iff_eq, decide_eq_true_iff]
  exact kindText_injective.eq_iff

/-- The positions of both ends of a link. -/
def linkEnds? (t : Tables) (l : Link) : Option ((String × Nat) × (String × Nat)) :=
  (t.position? (.integer l.source)).bind fun a => (t.position? (.integer l.target)).map fun b => (a, b)

theorem Stores.ends? {e : EdgeRow} {l : Link} (h : Stores e l) (t : Tables) : t.ends? e = linkEnds? t l := by
  rw [Tables.ends?, linkEnds?, h.source, h.target]

theorem linkEnds_alike {l m : Link} (h : LinkAlike (t.Corresponds u) l m) (ht : t.nodes.Pairwise (·.id < ·.id))
    (hu : u.nodes.Pairwise (·.id < ·.id)) : ∃ ends, linkEnds? t l = some ends ∧ linkEnds? u m = some ends := by
  obtain ⟨a, ha, ha'⟩ := h.source.position ht hu
  obtain ⟨b, hb, hb'⟩ := h.target.position ht hu
  refine ⟨(a, b), ?_, ?_⟩
  · rw [linkEnds?, ha, hb]
    rfl
  · rw [linkEnds?, ha', hb']
    rfl

/-- Rows of links that were made for references, with the references. -/
theorem exists_made {named : List (Reference × Link)} {rows : List EdgeRow}
    (h : List.Forall₂ Stores rows (named.map (·.2))) :
    ∃ made : List (Reference × EdgeRow), made.map (·.2) = rows ∧ made.map (·.1) = named.map (·.1) ∧
      ∀ m ∈ made, ∃ l, (m.1, l) ∈ named ∧ Stores m.2 l := by
  induction named generalizing rows with
  | nil =>
    cases h
    exact ⟨[], rfl, rfl, by simp⟩
  | cons rl rest ih =>
    cases h with
    | cons he hrest =>
      obtain ⟨made, hrows, hrefs, hall⟩ := ih hrest
      refine ⟨(rl.1, _) :: made, congrArg (_ :: ·) hrows, congrArg (_ :: ·) hrefs, ?_⟩
      intro m hm
      rcases List.mem_cons.mp hm with rfl | hm
      · exact ⟨rl.2, List.mem_cons_self, he⟩
      · obtain ⟨l, hl, hstores⟩ := hall m hm
        exact ⟨l, List.mem_cons_of_mem _ hl, hstores⟩

/-! ### Where calls lead -/

theorem Pending.Current.enclosing {p : Pending} {c : CallSite} {a : NodeId} (hp : p.Current w R t)
    (h : p.enclosing? c = some a) :
    ∃ i r, p.found.symbols.findIdx? (·.span.contains c.span) = some i ∧ (t.nodesAt p.path)[i]? = some r ∧ r.id = a := by
  obtain ⟨found, hfind, hid⟩ := Option.map_eq_some_iff.mp h
  obtain ⟨hcontains, i, hi, hget, hbefore⟩ := List.find?_eq_some_iff_getElem.mp hfind
  have hindex : p.nodes.findIdx? (fun node => node.2.contains c.span) = some i :=
    List.findIdx?_eq_some_iff_getElem.mpr ⟨hi, by rw [hget]; exact hcontains, fun j hj => by simpa using hbefore j hj⟩
  have hsymbols := congrArg (List.findIdx? (·.contains c.span)) hp.spans
  rw [List.findIdx?_map, List.findIdx?_map] at hsymbols
  have hids := congrArg (·[i]?) hp.ids
  simp only [List.getElem?_map, List.getElem?_eq_getElem hi, Option.map_some] at hids
  obtain ⟨r, hr, hrid⟩ := Option.map_eq_some_iff.mp hids.symm
  refine ⟨i, r, ?_, hr, by rw [hrid, hget, hid]⟩
  exact hsymbols.symm.trans hindex

theorem becomes_of_named {p : Pending} {c : CallSite} {r : Reference} {l : Link} {e : EdgeRow}
    (ht : t.nodes.Pairwise (·.id < ·.id)) (hp : p.Current w R t) (hc : c ∈ p.found.calls)
    (h : (r, l) ∈ Resolve.namedLinks t.readAll p c) (he : Stores e l) : r.Becomes w t e := by
  obtain ⟨hpath, hcall, hname, hcaller, n, hn, htarget⟩ := Resolve.mem_namedLinks h
  obtain ⟨language, text, hl, hs, hfound⟩ := hp.found
  obtain ⟨i, row, hi, hrow, hid⟩ := hp.enclosing hcaller
  rw [hfound] at hc hi
  subst hcall
  refine ⟨⟨language, text, i, hpath ▸ hl, hpath ▸ hs, hc, hi, ?_⟩, hname, n, ?_, by rw [he.target, htarget]⟩
  · rw [he.source, ← hid, Tables.position?_eq ht hrow, hpath]
  · have hmatch := List.find?_some hn
    exact List.mem_filter.mpr ⟨List.mem_of_find?_eq_some hn, hmatch⟩

/-- A reference becomes edges from the same symbol, and to the same symbol if it can mean only one. -/
theorem Reference.Becomes.agree {r : Reference} {e e' : EdgeRow} (h : r.Becomes w t e) (h' : r.Becomes w u e')
    (hsame : t.SameSymbols u) (ht : t.Readable) (hu : u.Readable) (hti : t.nodes.Pairwise (·.id < ·.id))
    (hui : u.nodes.Pairwise (·.id < ·.id)) :
    t.position? e.source = u.position? e'.source ∧
      ((t.meanings r.name).length = 1 → t.position? e.target = u.position? e'.target) := by
  constructor
  · obtain ⟨language, text, i, hl, hs, -, hi, hsource⟩ := h.source
    obtain ⟨language', text', i', hl', hs', -, hi', hsource'⟩ := h'.source
    cases hl.symm.trans hl'
    cases hs.symm.trans hs'
    cases hi.symm.trans hi'
    rw [hsource, hsource']
  · intro hone
    obtain ⟨n, hn, htarget⟩ := h.target
    obtain ⟨m, hm, htarget'⟩ := h'.target
    obtain ⟨hm, hmatch⟩ := List.mem_filter.mp hm
    -- The node of the second tables has its like in the first, where only one node can be meant.
    obtain ⟨n', hn', halike⟩ := exists_alike hsame.symm hu ht hm
    have hmeant : n' ∈ t.meanings r.name := List.mem_filter.mpr ⟨hn', by rw [← halike.symbol]; exact hmatch⟩
    obtain ⟨only, honly⟩ := List.length_eq_one_iff.mp hone
    rw [honly, List.mem_singleton] at hn hmeant
    obtain ⟨at_, hat, hat'⟩ := halike.id.symm.position hti hui
    rw [htarget, htarget', hn, ← hmeant, hat, hat']

/-! ### Passes with the same snapshot -/

/-- How a first pass ends: the tables can be read, and the stored files are in them. -/
structure Standing.Settled (w : Workspace) (R : List String) (x : Standing) : Prop where
  readable : x.tables.Readable
  paths : x.tables.files.Pairwise (·.path < ·.path)
  ids : x.tables.nodes.Pairwise (·.id < ·.id)
  current : ∀ p ∈ x.tally.pending, p.Current w R x.tables

theorem firstPass_settled {had : String → String → Prop} {c : Clock} (hw : (w.timed c).Shows had)
    (h : t.Coherent (w.timed c) had) (paths : List String) : (Run.firstPass (w.timed c) R t paths).Settled w R := by
  have hend := firstPass_coherent (R := R) h hw paths
  refine ⟨hend.readable, hend.paths, hend.ids, fun p hp => ?_⟩
  have hcurrent := firstPass_current (R := R) hw h paths p hp
  exact ⟨hcurrent.kept, hcurrent.ids, hcurrent.spans, hcurrent.found⟩

theorem names_agree (h : t.SameSymbols u) (ht : t.Readable) (hu : u.Readable) :
    Resolve.SameNames t.readAll u.readAll := by
  have hsome : ∀ {t u : Tables} {name : String}, t.SameSymbols u → t.Readable → u.Readable →
      (t.readAll.find? (·.symbol.matchesReference name)).isSome →
      (u.readAll.find? (·.symbol.matchesReference name)).isSome := by
    intro t u name h ht hu hfound
    obtain ⟨n, hn, hmatch⟩ := List.find?_isSome.mp hfound
    obtain ⟨m, hm, halike⟩ := exists_alike h ht hu hn
    exact List.find?_isSome.mpr ⟨m, hm, by rw [← halike.symbol]; exact hmatch⟩
  exact fun name => Bool.eq_iff_iff.mpr ⟨hsome h ht hu, hsome h.symm hu ht⟩

section
variable {x y : Standing} (h : x.snapshot = y.snapshot) (hx : x.Settled w R) (hy : y.Settled w R)
include h hx hy

theorem counts_agree (registry : Registry) :
    Resolve.counts x.tables registry x.tables.readAll x.tally.pending =
      Resolve.counts y.tables registry y.tables.readAll y.tally.pending := by
  have hheld := congrArg Snapshot.holding h
  have hlookup := lookup_alike hheld hy.readable
  have hfind := names_agree (holding_symbols hheld) hx.readable hy.readable
  obtain ⟨qs, hperm, hqs⟩ := exists_aligned h hx.current hy.current
  have hcounts := map_alike_eq hqs fun p q hpq => Resolve.fileCounts_alike registry hlookup hpq hfind
  rw [Resolve.counts, Resolve.counts, hcounts]
  exact Resolve.total_perm (hperm.map _)

theorem stats_agree (c c' : Clock) :
    y.stats (w.timed c') = { x.stats (w.timed c) with duration := (y.stats (w.timed c')).duration } := by
  have hstats : x.tally.stats = y.tally.stats := congrArg Snapshot.stats h
  unfold Standing.stats
  rw [Workspace.timed_registry, Workspace.timed_registry, counts_agree h hx hy, hstats]

theorem imports_agree (registry : Registry) {rows rows' : List EdgeRow} (hr : List.Forall₂ Stores rows (x.links registry))
    (hr' : List.Forall₂ Stores rows' (y.links registry)) :
    ((rows.filter (·.kind == EdgeKind.imports.text)).map x.tables.ends?).Perm
        ((rows'.filter (·.kind == EdgeKind.imports.text)).map y.tables.ends?) ∧
      none ∉ (rows.filter (·.kind == EdgeKind.imports.text)).map x.tables.ends? := by
  -- The files of one run, put in the order of the other, are the same file by file.
  obtain ⟨qs, hperm, hqs⟩ := exists_aligned h hx.current hy.current
  have hlookup := lookup_alike (congrArg Snapshot.holding h) hy.readable
  have hends := map_alike_eq (stores_filter hr .imports) fun e l hel => hel.ends? x.tables
  have hends' := map_alike_eq (stores_filter hr' .imports) fun e l hel => hel.ends? y.tables
  rw [Standing.links, Resolve.links_imports] at hends hends'
  have halike : List.Forall₂ (LinkAlike (x.tables.Corresponds y.tables))
      (x.tally.pending.flatMap (Resolve.importLinksOf x.tables registry))
      (qs.flatMap (Resolve.importLinksOf y.tables registry)) :=
    List.rel_flatMap hqs fun p q hpq => (Resolve.importLinksOf_alike hlookup hpq registry).1
  have hsame := map_alike_eq halike fun l m hlm => by
    obtain ⟨ends, hl, hm⟩ := linkEnds_alike hlm hx.ids hy.ids
    exact hl.trans hm.symm
  rw [hends, hends', hsame]
  refine ⟨(hperm.flatMap_right _).map _, ?_⟩
  rw [← hsame]
  intro hnone
  obtain ⟨l, hl, hend⟩ := List.mem_map.mp hnone
  obtain ⟨m, -, hlm⟩ := exists_paired halike hl
  obtain ⟨ends, hsome, -⟩ := linkEnds_alike hlm hx.ids hy.ids
  rw [hend] at hsome
  cases hsome

theorem calls_agree (registry : Registry) {rows rows' : List EdgeRow} (hr : List.Forall₂ Stores rows (x.links registry))
    (hr' : List.Forall₂ Stores rows' (y.links registry)) :
    ∃ made made' : List (Reference × EdgeRow),
      made.map (·.2) = rows.filter (·.kind == EdgeKind.calls.text) ∧
      made'.map (·.2) = rows'.filter (·.kind == EdgeKind.calls.text) ∧
      (made.map (·.1)).Perm (made'.map (·.1)) ∧
      (∀ m ∈ made, m.1.Becomes w x.tables m.2) ∧ (∀ m ∈ made', m.1.Becomes w y.tables m.2) := by
  have hcalls := stores_filter hr .calls
  have hcalls' := stores_filter hr' .calls
  rw [Standing.links, Resolve.links_calls] at hcalls hcalls'
  obtain ⟨made, hrows, hrefs, hmade⟩ := exists_made hcalls
  obtain ⟨made', hrows', hrefs', hmade'⟩ := exists_made hcalls'
  have hbecomes : ∀ {x : Standing}, x.Settled w R → ∀ {r : Reference} {l : Link} {e : EdgeRow},
      (r, l) ∈ x.tally.pending.flatMap (fun p => p.found.calls.flatMap (Resolve.namedLinks x.tables.readAll p)) →
      Stores e l → r.Becomes w x.tables e := by
    intro x hx r l e hrl he
    obtain ⟨p, hp, hrl⟩ := List.mem_flatMap.mp hrl
    obtain ⟨c, hc, hrl⟩ := List.mem_flatMap.mp hrl
    exact becomes_of_named hx.ids (hx.current p hp) hc hrl he
  refine ⟨made, made', hrows, hrows', ?_, fun m hm => ?_, fun m hm => ?_⟩
  · -- Which references become edges depends on the names that some node has, not on the order of the nodes.
    obtain ⟨qs, hperm, hqs⟩ := exists_aligned h hx.current hy.current
    have hfind := names_agree (holding_symbols (congrArg Snapshot.holding h)) hx.readable hy.readable
    have hsame : x.tally.pending.flatMap
        (fun p => (p.found.calls.flatMap (Resolve.namedLinks x.tables.readAll p)).map (·.1)) =
        qs.flatMap fun q => (q.found.calls.flatMap (Resolve.namedLinks y.tables.readAll q)).map (·.1) := by
      rw [List.flatMap_def, List.flatMap_def]
      refine congrArg List.flatten (map_alike_eq hqs fun p q hpq => ?_)
      rw [hpq.found, List.map_flatMap, List.map_flatMap]
      exact List.flatMap_congr fun c _ => Resolve.namedLinks_alike hpq hfind c
    rw [hrefs, hrefs', List.map_flatMap, List.map_flatMap, hsame]
    exact hperm.flatMap_right _
  · obtain ⟨l, hl, he⟩ := hmade m hm
    exact hbecomes hx hl he
  · obtain ⟨l, hl, he⟩ := hmade' m hm
    exact hbecomes hy hl he

theorem agree_of_snapshot (registry : Registry) {rows rows' : List EdgeRow}
    (hr : List.Forall₂ Stores rows (x.links registry)) (hr' : List.Forall₂ Stores rows' (y.links registry)) :
    Agree w x.tables rows y.tables rows' := by
  have hheld := congrArg Snapshot.holding h
  have hsame := holding_symbols hheld
  obtain ⟨himports, hplaced⟩ := imports_agree h hx hy registry hr hr'
  obtain ⟨made, made', hrows, hrows', hrefs, hmade, hmade'⟩ := calls_agree h hx hy registry hr hr'
  refine ⟨holding_files hheld hx.paths hy.paths, hsame, himports, hplaced, made, made', hrows, hrows', hrefs, hmade,
    hmade', ?_⟩
  intro m hm m' hm' href
  have hm' := hmade' m' hm'
  rw [← href] at hm'
  exact (hmade m hm).agree hm' hsame hx.readable hy.readable hx.ids hy.ids

end

theorem Agree.of_frame {t' u' : Tables} {new new' : List EdgeRow} (h : Agree w t new u new') (hf : t'.files = t.files)
    (hn : t'.nodes = t.nodes) (hf' : u'.files = u.files) (hn' : u'.nodes = u.nodes) : Agree w t' new u' new' := by
  obtain ⟨files, nodes, _, _, _, _⟩ := t'
  obtain ⟨files', nodes', _, _, _, _⟩ := u'
  subst hf hn hf' hn'
  obtain ⟨made, made', hrows, hrows', hrefs, hmade, hmade', hends⟩ := h.calls
  refine ⟨h.files, h.symbols, h.imports, h.placed, made, made', hrows, hrows', hrefs, ?_, ?_, hends⟩
  · exact fun m hm => ⟨(hmade m hm).source, (hmade m hm).name, (hmade m hm).target⟩
  · exact fun m hm => ⟨(hmade' m hm).source, (hmade' m hm).name, (hmade' m hm).target⟩

/-! ### Runs -/

/-- From any store that a run has left, the same paths in another order give the same counters, the same records
    but for times, the same symbols, the same imports by the positions of their ends, and calls for the same
    references: from the same symbol, and to the same one if the name can mean only one node. -/
theorem index_files_in_any_order (place : Place) (w : Workspace) (ops : List Operation) (c c' : Clock)
    (ps qs : List String) (hperm : ps.Perm qs) :
    let x := (World.start place).run w ops
    let v := x.workspace w
    ∃ stats stats' done done', Run.indexFiles (v.timed c) ps x.guarded = (.ok stats, done) ∧
      Run.indexFiles (v.timed c') qs x.guarded = (.ok stats', done') ∧
      stats' = { stats with duration := stats'.duration } ∧
      ∃ new new', done.store.tables.edges = x.session.store.tables.edges ++ new ∧
        done'.store.tables.edges = x.session.store.tables.edges ++ new' ∧
        Agree v done.store.tables new done'.store.tables new' := by
  intro x v
  obtain ⟨hidle, hstore⟩ := (World.start_coherent (w := w) place _).run ops
  have hshows : ∀ c, (v.timed c).Shows ((World.start place).Had w ops) := fun c =>
    ⟨fun path text hs => ⟨ops, List.prefix_refl ops, hs⟩, c.readable⟩
  have hstart : ∀ c, x.guarded.store.tables.Coherent (v.timed c) ((World.start place).Had w ops) := fun c =>
    ⟨hstore.paths, hstore.times, hstore.ids, hstore.unused, hstore.owned, hstore.described⟩
  have hcalm : x.guarded.Calm x.refused := ⟨rfl, hidle⟩
  have hsettled := firstPass_settled (R := x.refused) (hshows c) (hstart c) ps
  have hsettled' := firstPass_settled (R := x.refused) (hshows c') (hstart c') qs
  -- The snapshot of the first pass has no order in it, and the second pass depends on the snapshot alone.
  have hsnapshot := firstPass_snapshot_perm (R := x.refused) (hshows c) (hshows c') (hstart c) hperm
  obtain ⟨done, hrun, hdone⟩ := Run.indexFiles_became hcalm ps hsettled.readable
  obtain ⟨done', hrun', hdone'⟩ := Run.indexFiles_became hcalm qs hsettled'.readable
  have hedges := Run.linked_edges (v.timed c) x.refused x.guarded.store.tables ps
  have hedges' := Run.linked_edges (v.timed c') x.refused x.guarded.store.tables qs
  rw [← hdone.tables] at hedges
  rw [← hdone'.tables] at hedges'
  refine ⟨_, _, done, done', hrun, hrun', ?_, _, _, hedges, hedges', ?_⟩
  · exact stats_agree hsnapshot hsettled hsettled' c c'
  · rw [hdone.tables, hdone'.tables]
    exact (agree_of_snapshot hsnapshot hsettled hsettled' v.registry (numbered_stores ..) (numbered_stores ..)).of_frame
      (Tables.linkAll_files ..) (Tables.linkAll_nodes ..) (Tables.linkAll_files ..) (Tables.linkAll_nodes ..)

/-- A file with a function that calls one which the file imports. -/
def importerText : String := "import{g}from'./b';function f(){g()}"

def importerTree : Tree.Node :=
  .mk { kind := "program", span := ⟨0, 36⟩ }
    [.mk { kind := "import_statement", span := ⟨0, 19⟩ }
      [.mk { kind := "import_clause", span := ⟨6, 9⟩ }
        [.mk { kind := "named_imports", span := ⟨6, 9⟩ }
          [.mk { kind := "import_specifier", span := ⟨7, 8⟩ }
            [.mk { kind := "identifier", span := ⟨7, 8⟩, field := "name" } []]]],
       .mk { kind := "string", span := ⟨13, 18⟩, field := "source" } []],
     .mk { kind := "function_declaration", span := ⟨19, 36⟩ }
      [.mk { kind := "identifier", span := ⟨28, 29⟩, field := "name" } [],
       .mk { kind := "statement_block", span := ⟨31, 36⟩ }
        [.mk { kind := "call_expression", span := ⟨32, 35⟩ }
          [.mk { kind := "identifier", span := ⟨32, 33⟩, field := "function" } []]]]]

/-- A workspace whose texts have that tree or the one of a function. -/
def twoTrees : Workspace where
  parser _ text := some (if text = importerText then importerTree else functionTree)

/-- A disk with the two files. -/
def twoFiles : Disk := ⟨[(["a.ts"], .file (.text importerText)), (["b.ts"], .file (.text "function g(){}"))]⟩

/-- In either order the call adds an edge for the import and one for the call, both from the one function to the
    other, whose numbers are swapped. -/
theorem two_files_in_either_order :
    let x := (World.start .memory).run twoTrees [.edit twoFiles]
    let v := (x.workspace twoTrees).timed .epoch
    let done := (Run.indexFiles v ["a.ts", "b.ts"] x.guarded).2.store.tables
    let done' := (Run.indexFiles v ["b.ts", "a.ts"] x.guarded).2.store.tables
    Agree (x.workspace twoTrees) done done.edges done' done'.edges ∧
      done.edges.map (fun e => (e.kind, e.source, e.target)) =
        [(EdgeKind.imports.text, .integer 1, .integer 2), (EdgeKind.calls.text, .integer 1, .integer 2)] ∧
      done'.edges.map (fun e => (e.kind, e.source, e.target)) =
        [(EdgeKind.imports.text, .integer 2, .integer 1), (EdgeKind.calls.text, .integer 2, .integer 1)] := by
  intro x v done done'
  refine ⟨?_, by decide +kernel, by decide +kernel⟩
  obtain ⟨_, _, after, after', hrun, hrun', -, new, new', hnew, hnew', hagree⟩ :=
    index_files_in_any_order .memory twoTrees [.edit twoFiles] .epoch .epoch ["a.ts", "b.ts"] ["b.ts", "a.ts"]
      (.swap _ _ _)
  -- There were no edges before.
  have hedges : done.edges = new := by
    show (Run.indexFiles v ["a.ts", "b.ts"] x.guarded).2.store.tables.edges = new
    rw [hrun, hnew]
    rfl
  have hedges' : done'.edges = new' := by
    show (Run.indexFiles v ["b.ts", "a.ts"] x.guarded).2.store.tables.edges = new'
    rw [hrun', hnew']
    rfl
  rw [hedges, hedges']
  show Agree _ (Run.indexFiles v ["a.ts", "b.ts"] x.guarded).2.store.tables _
    (Run.indexFiles v ["b.ts", "a.ts"] x.guarded).2.store.tables _
  rw [hrun, hrun']
  exact hagree

end Index
end SymbolGraph
