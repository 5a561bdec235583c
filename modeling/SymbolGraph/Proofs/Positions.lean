import SymbolGraph.Proofs.Snapshot

/-! Nodes by position. Tables with the same symbols in each path give a node other numbers, but not another
    position: its path and its place among the nodes of that path. Numbers of nodes in the same position
    correspond, and so do the files that two passes with the same snapshot have stored. -/

namespace SymbolGraph

open Store

namespace Tables
variable {t u : Tables} {path : String} {a b : NodeId}

/-- The path of a node and its place among the nodes of that path. -/
def position? (t : Tables) : Stored → Option (String × Nat)
  | .integer id => (t.nodes.find? (·.id == id)).map fun r => (r.path, (t.nodesAt r.path).findIdx (·.id == id))
  | .other => none

/-- The numbers are those of nodes in the same position. -/
def Corresponds (t u : Tables) (a b : NodeId) : Prop :=
  ∃ (path : String) (i : Nat) (r s : NodeRow),
    (t.nodesAt path)[i]? = some r ∧ (u.nodesAt path)[i]? = some s ∧ r.id = a ∧ s.id = b

/-- Each path has the same symbols in both. -/
def SameSymbols (t u : Tables) : Prop :=
  ∀ path, (t.nodesAt path).map NodeRow.unnumbered = (u.nodesAt path).map NodeRow.unnumbered

theorem position?_eq (h : t.nodes.Pairwise (·.id < ·.id)) {i : Nat} {r : NodeRow} (hr : (t.nodesAt path)[i]? = some r) :
    t.position? (.integer r.id) = some (path, i) := by
  obtain ⟨hi, hget⟩ := List.getElem?_eq_some_iff.mp hr
  have hmem : r ∈ t.nodesAt path := List.mem_of_getElem? hr
  obtain ⟨hnode, hpath⟩ := List.mem_filter.mp hmem
  have hfind : t.nodes.find? (·.id == r.id) = some r := by
    cases hf : t.nodes.find? (·.id == r.id) with
    | none => simpa using List.find?_eq_none.mp hf r hnode
    | some s =>
      have hs := List.find?_some hf
      exact congrArg some (eq_of_id h (List.mem_of_find?_eq_some hf) hnode (by simpa using hs))
  have hindex : (t.nodesAt path).findIdx (·.id == r.id) = i := by
    refine (List.findIdx_eq hi).mpr ⟨by simp [hget], fun j hj => ?_⟩
    have hrows : (t.nodesAt path).Pairwise (·.id < ·.id) := h.filter _
    have hlt := List.pairwise_iff_getElem.mp hrows j i (hj.trans hi) hi hj
    rw [beq_eq_false_iff_ne, ← hget]
    exact ne_of_lt hlt
  rw [position?, hfind, Option.map_some, beq_iff_eq.mp hpath, hindex]

theorem Corresponds.position (h : t.Corresponds u a b) (ht : t.nodes.Pairwise (·.id < ·.id))
    (hu : u.nodes.Pairwise (·.id < ·.id)) :
    ∃ at_, t.position? (.integer a) = some at_ ∧ u.position? (.integer b) = some at_ := by
  obtain ⟨path, i, r, s, hr, hs, rfl, rfl⟩ := h
  exact ⟨(path, i), position?_eq ht hr, position?_eq hu hs⟩

theorem SameSymbols.symm (h : t.SameSymbols u) : u.SameSymbols t := fun path => (h path).symm

theorem Corresponds.symm (h : t.Corresponds u a b) : u.Corresponds t b a := by
  obtain ⟨path, i, r, s, hr, hs, ha, hb⟩ := h
  exact ⟨path, i, s, r, hs, hr, hb, ha⟩

theorem SameSymbols.rows (h : t.SameSymbols u) (path : String) :
    List.Forall₂ (fun r s => t.Corresponds u r.id s.id ∧ r.unnumbered = s.unnumbered) (t.nodesAt path)
      (u.nodesAt path) := by
  have hlength : (t.nodesAt path).length = (u.nodesAt path).length := by simpa using congrArg List.length (h path)
  refine List.forall₂_iff_get.mpr ⟨hlength, fun i hi hi' => ⟨?_, ?_⟩⟩
  · exact ⟨path, i, _, _, List.getElem?_eq_getElem hi, List.getElem?_eq_getElem hi', rfl, rfl⟩
  · have hget := congrArg (·[i]?) (h path)
    simpa [hi, hi'] using hget

end Tables

namespace Index
variable {t u : Tables} {w : Workspace} {R : List String}

/-! ### What both hold -/

theorem isSome_row? (t : Tables) (path : String) : (t.holding path).row?.isSome = t.files.any (·.path == path) := by
  rw [Tables.holding, Option.isSome_map, List.isSome_find?]

theorem holding_any (h : t.holding = u.holding) (path : String) :
    t.files.any (·.path == path) = u.files.any (·.path == path) := by
  rw [← isSome_row?, ← isSome_row?, h]

theorem mem_iff_find? {α : Type} {key : α → String} {l : List α} (h : l.Pairwise (key · < key ·)) {a : α} :
    a ∈ l ↔ l.find? (key · == key a) = some a := by
  refine ⟨fun ha => ?_, List.mem_of_find?_eq_some⟩
  have hnodup : (l.map key).Nodup := List.pairwise_map.mpr (h.imp fun hlt => ne_of_lt hlt)
  cases hf : l.find? (key · == key a) with
  | none => simpa using List.find?_eq_none.mp hf a ha
  | some other =>
    have hkey := List.find?_some hf
    exact congrArg some (List.inj_on_of_nodup_map hnodup (List.mem_of_find?_eq_some hf) ha (by simpa using hkey))

/-- Lists in ascending order are the same if each key finds the same in them. -/
theorem eq_of_find? {α : Type} {key : α → String} {l m : List α} (hl : l.Pairwise (key · < key ·))
    (hm : m.Pairwise (key · < key ·)) (h : ∀ k, l.find? (key · == k) = m.find? (key · == k)) : l = m := by
  have hmem : ∀ a, a ∈ l ↔ a ∈ m := fun a => by rw [mem_iff_find? hl, mem_iff_find? hm, h]
  have hnodup : ∀ l : List α, l.Pairwise (key · < key ·) → l.Nodup := fun l hl =>
    hl.imp fun hlt heq => (ne_of_lt hlt) (congrArg key heq)
  have hperm := (List.perm_ext_iff_of_nodup (hnodup l hl) (hnodup m hm)).mpr hmem
  exact hperm.eq_of_pairwise (fun a b _ _ hab hba => absurd hab (not_lt.mpr hba.le)) hl hm

/-- Records in ascending order are the same if each path has the same. -/
theorem holding_files (h : t.holding = u.holding) (ht : t.files.Pairwise (·.path < ·.path))
    (hu : u.files.Pairwise (·.path < ·.path)) : t.files.map FileRow.timeless = u.files.map FileRow.timeless := by
  have hfind : ∀ (t : Tables) (path : String),
      (t.files.map FileRow.timeless).find? (·.path == path) = (t.holding path).row? := fun t path => by
    rw [List.find?_map]
    rfl
  have hsorted : ∀ t : Tables, t.files.Pairwise (·.path < ·.path) →
      (t.files.map FileRow.timeless).Pairwise (·.path < ·.path) := fun t ht => List.pairwise_map.mpr ht
  exact eq_of_find? (hsorted t ht) (hsorted u hu) fun path => by rw [hfind, hfind, h]

theorem holding_symbols (h : t.holding = u.holding) : t.SameSymbols u := fun path =>
  congrArg (fun held => (held path).nodes) h

/-! ### Nodes that correspond -/

theorem readAt_alike (h : t.SameSymbols u) (hu : u.Readable) (path : String) :
    List.Forall₂ (NodeAlike (t.Corresponds u)) (t.readAt path) (u.readAt path) :=
  readNodes_alike (h.rows path) fun s hs => hu.nodes s (List.mem_of_mem_filter hs)

theorem lookup_alike (h : t.holding = u.holding) (hu : u.Readable) : LookupAlike (t.Corresponds u) t u := fun path => by
  unfold Tables.lookup?
  rw [holding_any h path]
  split
  · exact .some (readAt_alike (holding_symbols h) hu path)
  · exact .none

theorem mem_read {rows : List NodeRow} (h : ∀ r ∈ rows, ∃ n, r.node = .ok n) {n : GraphNode} :
    n ∈ (readNodes rows).toOption.getD [] ↔ ∃ r ∈ rows, r.node = .ok n := by
  obtain ⟨ns, hns⟩ := Tables.exists_nodes h
  rw [readNodes_eq_ok hns]
  constructor
  · intro hn
    exact exists_paired hns.flip hn
  · rintro ⟨r, hr, hn⟩
    obtain ⟨m, hm, hrm⟩ := exists_paired hns hr
    cases hn.symm.trans hrm
    exact hm

theorem mem_readAll (h : t.Readable) {n : GraphNode} : n ∈ t.readAll ↔ ∃ path, n ∈ t.readAt path := by
  rw [Tables.readAll, mem_read h.nodes]
  constructor
  · rintro ⟨r, hr, hn⟩
    refine ⟨r.path, (mem_read fun s hs => h.nodes s (List.mem_of_mem_filter hs)).mpr ⟨r, ?_, hn⟩⟩
    exact List.mem_filter.mpr ⟨hr, beq_self_eq_true r.path⟩
  · rintro ⟨path, hn⟩
    obtain ⟨r, hr, hn⟩ := (mem_read fun s hs => h.nodes s (List.mem_of_mem_filter hs)).mp hn
    exact ⟨r, List.mem_of_mem_filter hr, hn⟩

theorem exists_alike (h : t.SameSymbols u) (ht : t.Readable) (hu : u.Readable) {n : GraphNode} (hn : n ∈ t.readAll) :
    ∃ m ∈ u.readAll, NodeAlike (t.Corresponds u) n m := by
  obtain ⟨path, hn⟩ := (mem_readAll ht).mp hn
  obtain ⟨m, hm, halike⟩ := exists_paired (readAt_alike h hu path) hn
  exact ⟨m, (mem_readAll hu).mpr ⟨path, hm⟩, halike⟩

/-! ### Files that correspond -/

theorem Pending.Current.alike {w' : Workspace} {p q : Pending} (hp : p.Current w R t) (hq : q.Current w' R u)
    (hgist : p.gist = q.gist) : PendingAlike (t.Corresponds u) p q := by
  obtain ⟨hpath, hlanguage, hfound⟩ : p.path = q.path ∧ p.language = q.language ∧ p.found = q.found := by
    simpa [Pending.gist] using hgist
  refine ⟨hpath, hlanguage, hfound, ?_⟩
  have hspans : p.nodes.map (·.2) = q.nodes.map (·.2) := by rw [hp.spans, hq.spans, hfound]
  have hlength : p.nodes.length = q.nodes.length := by simpa using congrArg List.length hspans
  refine List.forall₂_iff_get.mpr ⟨hlength, fun i hi hi' => ⟨?_, ?_⟩⟩
  · have hid := congrArg (·[i]?) hp.ids
    have hid' := congrArg (·[i]?) hq.ids
    simp only [List.getElem?_map, List.getElem?_eq_getElem hi, List.getElem?_eq_getElem hi', Option.map_some] at hid hid'
    obtain ⟨r, hr, hrid⟩ := Option.map_eq_some_iff.mp hid.symm
    obtain ⟨s, hs, hsid⟩ := Option.map_eq_some_iff.mp hid'.symm
    exact ⟨p.path, i, r, s, hr, hpath ▸ hs, hrid, hsid⟩
  · have hspan := congrArg (·[i]?) hspans
    simpa [hi, hi'] using hspan

/-- Passes with the same snapshot have stored the same files, if in another order. -/
theorem exists_aligned {x y : Standing} {w' : Workspace} (h : x.snapshot = y.snapshot)
    (hx : ∀ p ∈ x.tally.pending, p.Current w R x.tables) (hy : ∀ q ∈ y.tally.pending, q.Current w' R y.tables) :
    ∃ qs, qs.Perm y.tally.pending ∧
      List.Forall₂ (PendingAlike (x.tables.Corresponds y.tables)) x.tally.pending qs := by
  have hperm : (x.tally.pending.map Pending.gist).Perm (y.tally.pending.map Pending.gist) :=
    Multiset.coe_eq_coe.mp (congrArg Snapshot.pending h)
  have hgists : List.Forall₂ (fun g q => g = Pending.gist q) (y.tally.pending.map Pending.gist) y.tally.pending :=
    List.forall₂_map_left_iff.mpr (List.forall₂_same.mpr fun _ _ => rfl)
  obtain ⟨qs, hqs, hys⟩ := List.perm_comp_forall₂ hperm hgists
  refine ⟨qs, hys, ?_⟩
  have hcurrent : ∀ q ∈ qs, q.Current w' R y.tables := fun q hq => hy q (hys.subset hq)
  rw [List.forall₂_map_left_iff] at hqs
  -- The pairs know that their files say the same; that the files are current is added on each side.
  have hleft := (List.forall₂_and_left _ _).mpr ⟨hx, hqs⟩
  have hboth := (List.forall₂_and_left _ _).mpr ⟨hcurrent, hleft.flip⟩
  exact hboth.flip.imp fun p q hpq => hpq.2.1.alike hpq.1 hpq.2.2

end Index
end SymbolGraph
