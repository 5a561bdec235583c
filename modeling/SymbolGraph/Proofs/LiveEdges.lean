import SymbolGraph.Proofs.Order

/-! Edges between nodes that exist. The first pass of a call ends before its second pass begins, and a file that
    was stored in the one is still stored when the other reads its nodes. So every edge that a call adds leads
    from a node of the file that it is added for to a node, both in the tables that the call leaves behind. -/

namespace SymbolGraph

open Store

/-- The edge leads from a node of the path to a node. -/
structure Store.EdgeRow.LeadsFrom (e : EdgeRow) (path : String) (t : Tables) : Prop where
  source : ∃ node ∈ t.nodes, node.path = path ∧ e.source = .integer node.id
  target : ∃ node ∈ t.nodes, e.target = .integer node.id

namespace Index

/-- The path of a file that was told to be indexed. -/
def Event.indexed? : Event → Option String
  | fileIndexed path => some path
  | _ => none

/-- The edges from before are followed by edges for each file that was told to be indexed, in the order in which
    the files were told, and these lead from nodes of their file to nodes. -/
def JoinsLive (before : List EdgeRow) (told : List Event) (t : Tables) : Prop :=
  ∃ groups : List (List EdgeRow), t.edges = before ++ groups.flatten ∧
    List.Forall₂ (fun path rows => ∀ e ∈ rows, e.LeadsFrom path t) (told.filterMap Event.indexed?) groups

variable {w : Workspace} {R : List String} {t : Tables} {path : String} {p : Pending}

/-! ### Ends of links -/

theorem node_id {r : NodeRow} {n : GraphNode} (h : r.node = .ok n) : n.id = r.id := by
  rw [node_unnumbered] at h
  cases hr : r.unnumbered.node with
  | error e =>
    rw [hr] at h
    cases h
  | ok m =>
    rw [hr] at h
    cases h
    rfl

theorem mem_readAll_id (ht : t.Readable) {n : GraphNode} (hn : n ∈ t.readAll) : ∃ node ∈ t.nodes, node.id = n.id := by
  obtain ⟨node, hnode, hread⟩ := (mem_read ht.nodes).mp hn
  exact ⟨node, hnode, (node_id hread).symm⟩

theorem mem_lookup_id (ht : t.Readable) {targets : List GraphNode} (h : t.lookup? path = some targets) {n : GraphNode}
    (hn : n ∈ targets) : ∃ node ∈ t.nodes, node.id = n.id := by
  unfold Tables.lookup? at h
  split at h
  · cases h
    exact mem_readAll_id ht ((mem_readAll ht).mpr ⟨path, hn⟩)
  · cases h

/-- The numbers that a stored file remembers are those of its nodes. -/
theorem Pending.Current.node (hp : p.Current w R t) {id : NodeId} (h : id ∈ p.nodes.map (·.1)) :
    ∃ node ∈ t.nodes, node.path = p.path ∧ node.id = id := by
  rw [hp.ids] at h
  obtain ⟨node, hnode, hid⟩ := List.mem_map.mp h
  obtain ⟨hmem, hpath⟩ := List.mem_filter.mp hnode
  exact ⟨node, hmem, by simpa using hpath, hid⟩

theorem firstNode?_mem {id : NodeId} (h : p.firstNode? = some id) : id ∈ p.nodes.map (·.1) := by
  obtain ⟨node, hhead, rfl⟩ := Option.map_eq_some_iff.mp h
  exact List.mem_map_of_mem (List.mem_of_mem_head? hhead)

theorem enclosing?_mem {c : CallSite} {id : NodeId} (h : p.enclosing? c = some id) : id ∈ p.nodes.map (·.1) := by
  obtain ⟨node, hfind, rfl⟩ := Option.map_eq_some_iff.mp h
  exact List.mem_map_of_mem (List.mem_of_find?_eq_some hfind)

theorem importLinks_ends (ht : t.Readable) {res : ModuleResolution} {i : ImportDeclaration} {l : Link}
    (h : l ∈ Resolve.importLinks t res p i) :
    l.source ∈ p.nodes.map (·.1) ∧ ∃ node ∈ t.nodes, node.id = l.target := by
  unfold Resolve.importLinks at h
  split at h
  · next targets source htargets hsource =>
    obtain ⟨name, -, hlink⟩ := List.mem_filterMap.mp h
    obtain ⟨n, hn, rfl⟩ := Option.map_eq_some_iff.mp hlink
    obtain ⟨path, -, hlookup⟩ := List.exists_of_findSome?_eq_some htargets
    exact ⟨firstNode?_mem hsource, mem_lookup_id ht hlookup (List.mem_of_find?_eq_some hn)⟩
  · cases h

theorem callLinks_ends (ht : t.Readable) {c : CallSite} {l : Link} (h : l ∈ Resolve.callLinks t.readAll p c) :
    l.source ∈ p.nodes.map (·.1) ∧ ∃ node ∈ t.nodes, node.id = l.target := by
  unfold Resolve.callLinks at h
  split at h
  · next caller hcaller =>
    obtain ⟨part, -, hlink⟩ := List.mem_filterMap.mp h
    obtain ⟨n, hn, rfl⟩ := Option.map_eq_some_iff.mp hlink
    exact ⟨enclosing?_mem hcaller, mem_readAll_id ht (List.mem_of_find?_eq_some hn)⟩
  · cases h

theorem fileLinks_lead (ht : t.Readable) (hp : p.Current w R t) {registry : Registry} {l : Link} {e : EdgeRow}
    (h : l ∈ Resolve.fileLinks t registry t.readAll p) (he : Stores e l) : e.LeadsFrom p.path t := by
  have hends : l.source ∈ p.nodes.map (·.1) ∧ ∃ node ∈ t.nodes, node.id = l.target := by
    rcases List.mem_append.mp h with h | h
    · obtain ⟨⟨res, i⟩, -, hl⟩ := List.mem_flatMap.mp h
      exact importLinks_ends ht hl
    · obtain ⟨c, -, hl⟩ := List.mem_flatMap.mp h
      exact callLinks_ends ht hl
  obtain ⟨hsource, target, htarget, hid⟩ := hends
  obtain ⟨source, hmem, hpath, hid'⟩ := hp.node hsource
  exact ⟨⟨source, hmem, hpath, by rw [he.source, hid']⟩, ⟨target, htarget, by rw [he.target, hid]⟩⟩

/-! ### Edges by file -/

/-- What is paired with lists one after the other falls into groups, one for each list. -/
theorem exists_groups {α β γ : Type} {P : α → β → Prop} {f : γ → List β} (l : List γ) {rows : List α}
    (h : List.Forall₂ P rows (l.flatMap f)) :
    ∃ groups : List (List α), rows = groups.flatten ∧ List.Forall₂ (fun c group => List.Forall₂ P group (f c)) l groups := by
  induction l generalizing rows with
  | nil =>
    cases h
    exact ⟨[], rfl, .nil⟩
  | cons c rest ih =>
    rw [List.flatMap_cons] at h
    obtain ⟨groups, hrows, hgroups⟩ := ih (List.forall₂_drop_append _ _ _ h)
    refine ⟨rows.take (f c).length :: groups, ?_, .cons (List.forall₂_take_append _ _ _ h) hgroups⟩
    rw [List.flatten_cons, ← hrows, List.take_append_drop]

theorem Verdict.indexed_events (w : Workspace) (path : String) (next : NodeId) (v : Verdict) (t : Tables) :
    (v.events path t).filterMap Event.indexed? = (v.made w path next).map (·.path) := by
  cases v with
  | erased =>
    simp only [Verdict.events]
    split <;> rfl
  | _ => rfl

/-- A pass tells which files it stores, in the order in which it stores them. -/
def Standing.Tells (x : Standing) : Prop := x.told.filterMap Event.indexed? = x.tally.pending.map (·.path)

theorem Standing.Tells.after {x : Standing} (h : x.Tells) (path : String) (v : Verdict) : (x.after w path v).Tells := by
  have hevents := v.indexed_events w path x.tables.nextNode x.tables
  rw [Tells, after_tally, Verdict.tally_eq, List.map_append, ← hevents, ← show _ = _ from h]
  exact List.filterMap_append

theorem firstPass_tells (w : Workspace) (R : List String) (t : Tables) (paths : List String) :
    (Run.firstPass w R t paths).Tells := by
  refine List.foldlRecOn paths (Standing.update w R) (motive := Standing.Tells) rfl fun x hx given _ => ?_
  cases hrel : Path.relative? w.rootPath given with
  | none =>
    rw [Standing.update_outside hrel]
    exact hx
  | some path =>
    rw [Standing.update_inside hrel]
    exact Standing.Tells.after (x := x.counted Run.see) hx path _

theorem fullPass_tells (w : Workspace) (R : List String) (t : Tables) : (Run.fullPass w R t).Tells :=
  List.foldlRecOn _ (Standing.settle w R) (motive := Standing.Tells) rfl fun _ hx path _ => hx.after path _

/-- The second pass joins nodes that exist, if the first pass has left its files as it stored them. -/
theorem linked_joinsLive {x : Standing} (ht : x.tables.Readable) (hcurrent : ∀ p ∈ x.tally.pending, p.Current w R x.tables)
    (htells : x.Tells) (v : Workspace) : JoinsLive x.tables.edges x.told (x.linked v) := by
  have hstores := numbered_stores v.now x.tables.nextEdge (x.links v.registry)
  obtain ⟨groups, hrows, hgroups⟩ := exists_groups _ hstores
  refine ⟨groups, ?_, ?_⟩
  · rw [Standing.linked, Tables.linkAll_edges, hrows]
  · rw [htells, List.forall₂_map_left_iff]
    refine ((List.forall₂_and_left _ _).mpr ⟨hcurrent, hgroups⟩).imp fun p rows hp e he => ?_
    obtain ⟨l, hl, hel⟩ := exists_paired hp.2 he
    obtain ⟨hsource, htarget⟩ := fileLinks_lead ht hp.1 hl hel
    have hnodes : (x.linked v).nodes = x.tables.nodes := Tables.linkAll_nodes ..
    exact ⟨hnodes ▸ hsource, hnodes ▸ htarget⟩

/-- What a full index tells and records besides makes no difference. -/
theorem JoinsLive.recorded {told : List Event} {before : List EdgeRow} (h : JoinsLive before told t) {stats : Stats} :
    JoinsLive before ([.indexStarted] ++ (told ++ [.indexCompleted stats])) (t.recorded w stats) := by
  obtain ⟨groups, hedges, hgroups⟩ := h
  have htold : ([Event.indexStarted] ++ (told ++ [Event.indexCompleted stats])).filterMap Event.indexed? =
      told.filterMap Event.indexed? := by
    rw [List.filterMap_append, List.filterMap_append]
    exact List.append_nil _
  rw [← htold] at hgroups
  refine ⟨groups, hedges, hgroups.imp fun path rows hrows e he => ?_⟩
  exact ⟨(hrows e he).source, (hrows e he).target⟩

theorem JoinsLive.ends {told : List Event} (h : JoinsLive [] told t) :
    ∀ e ∈ t.edges, ∃ path, e.LeadsFrom path t := by
  obtain ⟨groups, hedges, hgroups⟩ := h
  intro e he
  rw [hedges, List.nil_append] at he
  obtain ⟨rows, hrows, he⟩ := List.mem_flatten.mp he
  obtain ⟨path, -, hlead⟩ := exists_paired hgroups.flip hrows
  exact ⟨path, hlead e he⟩

/-! ### Runs -/

/-- After that many steps of a drain, or at its end. -/
def World.inDrain (w : Workspace) (x : World) (steps : Nat) : World := x.after (Watch.run (x.workspace w) steps {})

/-- Whatever a run has done, and however far a drain has come, a call adds edges for the files that it tells to be
    indexed, each from a node of its file to a node that is there when the call ends. After a full index there are
    no other edges. -/
theorem edges_join_live_nodes (place : Place) (w : Workspace) (ops : List Operation) (steps : Nat) :
    let x := ((World.start place).run w ops).inDrain w steps
    let v := x.workspace w
    (∀ paths, ∃ stats told done, Run.indexFiles v paths x.guarded = (.ok stats, done) ∧
      done.events = x.session.events ++ told ∧ JoinsLive x.session.store.tables.edges told done.store.tables) ∧
    ∃ stats told done, Run.fullIndex v x.guarded = (.ok stats, done) ∧
      done.events = x.session.events ++ told ∧ JoinsLive [] told done.store.tables ∧
      ∀ e ∈ done.store.tables.edges, ∃ path, e.LeadsFrom path done.store.tables := by
  intro x v
  let y := (World.start place).run w ops
  have hy := (World.start_coherent (w := w) place _).run ops
  have hshows : v.Shows ((World.start place).Had w ops) :=
    ⟨fun path text hs => ⟨ops, List.prefix_refl ops, hs⟩, y.clock.readable⟩
  obtain ⟨hidle, ht⟩ := hy.after (keeps_run (w := y.workspace w) hshows steps {}).workspace
  have hstart : x.guarded.store.tables.Coherent v ((World.start place).Had w ops) :=
    ht.of_workspace rfl rfl
  have hcalm : x.guarded.Calm x.refused := ⟨rfl, hidle⟩
  refine ⟨fun paths => ?_, ?_⟩
  · have hread := (firstPass_coherent (R := x.refused) hstart hshows paths).readable
    obtain ⟨done, hrun, hdone⟩ := Run.indexFiles_became hcalm paths hread
    refine ⟨_, _, done, hrun, hdone.events, ?_⟩
    have hlive := linked_joinsLive hread (firstPass_current hshows hstart paths) (firstPass_tells ..) v
    rw [hdone.tables]
    rwa [Run.firstPass_edges] at hlive
  · have hread := (fullPass_coherent (R := x.refused) hshows x.guarded.store.tables).readable
    obtain ⟨done, hrun, hdone⟩ := Run.fullIndex_became hcalm hread
    have hlive := linked_joinsLive hread (fullPass_current hshows _) (fullPass_tells ..) v
    -- A full index starts without edges.
    rw [show (Run.fullPass v x.refused x.guarded.store.tables).tables.edges = [] from
      (Standing.foldl_settle_edges ..).1] at hlive
    have hdone' : JoinsLive [] _ done.store.tables := hdone.tables ▸ hlive.recorded
    exact ⟨_, _, done, hrun, hdone.events, hdone', hdone'.ends⟩

end Index
end SymbolGraph
