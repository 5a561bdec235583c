import Mathlib.Algebra.BigOperators.Group.List.Basic
import Mathlib.Algebra.BigOperators.Group.Finset.Basic
import Mathlib.Algebra.GroupWithZero.Nat
import Mathlib.Data.String.Basic
import SymbolGraph.Graph.View

/-! What a view of a graph counts. The tables of a view agree on which row of an id is the last, so that the edges of
    the id meet there and nowhere else; what is ranked is a full account of the edges whose ends are both nodes. -/

namespace SymbolGraph

/-! ### Lists -/

/-- Sorting keeps the order of elements that may stand either way. -/
theorem pairwise_mergeSort_stable {α : Type} {le : α → α → Bool} {R : α → α → Prop} {l : List α}
    (htrans : ∀ a b c, le a b = true → le b c = true → le a c = true) (htotal : ∀ a b, (le a b || le b a) = true)
    (h : l.Pairwise R) : (l.mergeSort le).Pairwise fun a b => le a b = true ∧ (le b a = true → R a b) := by
  rw [← List.mergeSort_zipIdx, List.pairwise_map]
  have hsorted := List.pairwise_mergeSort (List.zipIdxLE_trans htrans) (List.zipIdxLE_total htotal) l.zipIdx
  have hplaces : (l.zipIdx.mergeSort (List.zipIdxLE le)).Pairwise fun a b => a.2 ≠ b.2 := by
    refine ((List.mergeSort_perm _ _).pairwise_iff Ne.symm).mpr (List.pairwise_map.mp ?_)
    rw [List.zipIdx_map_snd]
    exact List.nodup_range'
  refine (List.Pairwise.and hsorted hplaces).imp_of_mem fun {a b} ha hb ⟨hle, hne⟩ => ?_
  obtain ⟨a, i⟩ := a
  obtain ⟨b, j⟩ := b
  have hfirst : l[i]? = some a := List.mem_zipIdx_iff_getElem?.mp (List.mem_mergeSort.mp ha)
  have hsecond : l[j]? = some b := List.mem_zipIdx_iff_getElem?.mp (List.mem_mergeSort.mp hb)
  simp only [List.zipIdxLE] at hle
  split at hle
  · next hab =>
    refine ⟨hab, fun hba => ?_⟩
    rw [if_pos hba] at hle
    have hlt : i < j := Nat.lt_of_le_of_ne (of_decide_eq_true hle) hne
    obtain ⟨hi, rfl⟩ := List.getElem?_eq_some_iff.mp hfirst
    obtain ⟨hj, rfl⟩ := List.getElem?_eq_some_iff.mp hsecond
    exact List.pairwise_iff_getElem.mp h i j hi hj hlt
  · cases hle

theorem sum_filterMap {α β : Type} (f : α → Option β) (g : β → Nat) (l : List α) :
    ((l.filterMap f).map g).sum = (l.map fun a => ((f a).map g).getD 0).sum := by
  induction l with
  | nil => rfl
  | cons a l ih => cases hf : f a <;> simp [hf, ih]

/-- Counting the elements by a number below a bound counts each of them once. -/
theorem sum_countP_eq {α : Type} (f : α → Nat) {bound : Nat} {l : List α} (h : ∀ a ∈ l, f a < bound) :
    ((List.range bound).map fun n => l.countP (f · == n)).sum = l.length := by
  have hcount : ∀ n, l.countP (f · == n) = Multiset.count n (l.map f : Multiset Nat) := fun n => by
    rw [Multiset.coe_count, List.count, List.countP_map]
    rfl
  have hall : ∀ n ∈ (l.map f : Multiset Nat), n ∈ Finset.range bound := fun n hn => by
    obtain ⟨a, ha, rfl⟩ := List.mem_map.mp (Multiset.mem_coe.mp hn)
    exact Finset.mem_range.mpr (h a ha)
  have hsum := Multiset.sum_count_eq_card hall
  rw [Multiset.coe_card, List.length_map] at hsum
  simp only [hcount]
  exact hsum

namespace GraphView

/-! ### Rows that stand for their ids -/

/-- The row at the position is the last one with its id. -/
def Stands (nodes : List GraphNode) (position : Nat) (n : GraphNode) : Prop :=
  nodes[position]? = some n ∧ ∀ later m, position < later → nodes[later]? = some m → m.id ≠ n.id

section Stands
variable {nodes : List GraphNode} {n m : GraphNode} {i j : Nat} {id : NodeId}

theorem Stands.lt_length (h : Stands nodes i n) : i < nodes.length := (List.getElem?_eq_some_iff.mp h.1).1

theorem Stands.mem (h : Stands nodes i n) : n ∈ nodes := List.mem_of_getElem? h.1

theorem Stands.row_eq (hn : Stands nodes i n) (hm : Stands nodes i m) : n = m :=
  Option.some.inj (hn.1.symm.trans hm.1)

theorem Stands.unique (hi : Stands nodes i n) (hj : Stands nodes j m) (hid : n.id = m.id) : i = j ∧ n = m := by
  rcases Nat.lt_trichotomy i j with hlt | rfl | hlt
  · exact absurd hid.symm (hi.2 j m hlt hj.1)
  · exact ⟨rfl, hi.row_eq hj⟩
  · exact absurd hid (hj.2 i n hlt hi.1)

theorem stands_concat :
    Stands (nodes ++ [n]) i m ↔ i = nodes.length ∧ m = n ∨ Stands nodes i m ∧ m.id ≠ n.id := by
  have hlast : (nodes ++ [n])[nodes.length]? = some n := List.getElem?_concat_length
  constructor
  · intro ⟨hrow, hlater⟩
    rcases Nat.lt_trichotomy i nodes.length with hlt | rfl | hgt
    · refine .inr ⟨⟨by rwa [List.getElem?_append_left hlt] at hrow, fun j k hij hk => ?_⟩, ?_⟩
      · exact hlater j k hij (by rw [List.getElem?_append_left (List.getElem?_eq_some_iff.mp hk).1, hk])
      · exact (hlater _ n hlt hlast).symm
    · exact .inl ⟨rfl, Option.some.inj (hrow.symm.trans hlast)⟩
    · obtain ⟨hi, -⟩ := List.getElem?_eq_some_iff.mp hrow
      rw [List.length_append, List.length_singleton] at hi
      omega
  · rintro (⟨rfl, rfl⟩ | ⟨h, hne⟩)
    · refine ⟨hlast, fun j k hj hk => ?_⟩
      obtain ⟨hlt, -⟩ := List.getElem?_eq_some_iff.mp hk
      rw [List.length_append, List.length_singleton] at hlt
      omega
    · refine ⟨by rw [List.getElem?_append_left h.lt_length, h.1], fun j k hj hk => ?_⟩
      rcases Nat.lt_trichotomy j nodes.length with hlt | rfl | hgt
      · exact h.2 j k hj (by rwa [List.getElem?_append_left hlt] at hk)
      · exact Option.some.inj (hlast.symm.trans hk) ▸ hne.symm
      · obtain ⟨hlt, -⟩ := List.getElem?_eq_some_iff.mp hk
        rw [List.length_append, List.length_singleton] at hlt
        omega

theorem exists_stands (h : id ∈ nodes.map (·.id)) : ∃ i n, Stands nodes i n ∧ n.id = id := by
  induction nodes using List.reverseRecOn with
  | nil => cases h
  | append_singleton nodes n ih =>
    by_cases hid : n.id = id
    · exact ⟨_, n, stands_concat.mpr (.inl ⟨rfl, rfl⟩), hid⟩
    · have hbefore : id ∈ nodes.map (·.id) := by simpa [Ne.symm hid] using h
      obtain ⟨i, m, hm, rfl⟩ := ih hbefore
      exact ⟨i, m, stands_concat.mpr (.inr ⟨hm, Ne.symm hid⟩), rfl⟩

/-! ### The tables -/

/-- The view of the nodes without edges. -/
def ofNodes (nodes : List GraphNode) : GraphView := nodes.foldl addNode {}

theorem ofNodes_concat : ofNodes (nodes ++ [n]) = (ofNodes nodes).addNode n := by
  rw [ofNodes, List.foldl_append]
  rfl

@[simp] theorem nodes_ofNodes : (ofNodes nodes).nodes = nodes.map (·.id) := by
  induction nodes using List.reverseRecOn with
  | nil => rfl
  | append_singleton nodes n ih => rw [ofNodes_concat, addNode, ih, List.map_append, List.map_singleton]

@[simp] theorem edges_ofNodes : (ofNodes nodes).edges = [] := by
  induction nodes using List.reverseRecOn with
  | nil => rfl
  | append_singleton nodes n ih => rw [ofNodes_concat, addNode, ih]

/-- The position of an id is where its last row is. -/
theorem lookup_positions :
    (ofNodes nodes).positions.lookup id = some i ↔ ∃ n, Stands nodes i n ∧ n.id = id := by
  induction nodes using List.reverseRecOn with
  | nil => simp [ofNodes, Stands]
  | append_singleton nodes n ih =>
    rw [ofNodes_concat, addNode, nodes_ofNodes, List.length_map, List.lookup_cons]
    simp only [stands_concat]
    by_cases hid : id = n.id
    · subst hid
      simp only [beq_self_eq_true, Option.some.injEq]
      constructor
      · rintro rfl
        exact ⟨n, .inl ⟨rfl, rfl⟩, rfl⟩
      · rintro ⟨m, ⟨rfl, rfl⟩ | ⟨-, hne⟩, hm⟩
        · rfl
        · exact absurd hm hne
    · simp only [beq_false_of_ne hid, ih]
      constructor
      · rintro ⟨m, hm, rfl⟩
        exact ⟨m, .inr ⟨hm, hid⟩, rfl⟩
      · rintro ⟨m, ⟨rfl, rfl⟩ | ⟨hm, -⟩, rfl⟩
        · exact absurd rfl hid
        · exact ⟨m, hm, rfl⟩

/-- The row of an id is the last one. -/
theorem lookup_rows : (ofNodes nodes).rows.lookup id = some n ↔ n.id = id ∧ ∃ i, Stands nodes i n := by
  induction nodes using List.reverseRecOn with
  | nil => simp [ofNodes, Stands]
  | append_singleton nodes m ih =>
    rw [ofNodes_concat, addNode, List.lookup_cons]
    simp only [stands_concat]
    by_cases hid : id = m.id
    · subst hid
      simp only [beq_self_eq_true, Option.some.injEq]
      constructor
      · rintro rfl
        exact ⟨rfl, _, .inl ⟨rfl, rfl⟩⟩
      · rintro ⟨hn, i, ⟨-, rfl⟩ | ⟨-, hne⟩⟩
        · rfl
        · exact absurd hn hne
    · simp only [beq_false_of_ne hid, ih]
      constructor
      · rintro ⟨rfl, i, hi⟩
        exact ⟨rfl, i, .inr ⟨hi, hid⟩⟩
      · rintro ⟨rfl, i, ⟨-, rfl⟩ | ⟨hi, -⟩⟩
        · exact absurd rfl hid
        · exact ⟨rfl, i, hi⟩

end Stands

/-! ### Edges -/

/-- Both ends of the edge are nodes. -/
def Live (nodes : List GraphNode) (e : Edge) : Prop :=
  e.source ∈ nodes.map (·.id) ∧ e.target ∈ nodes.map (·.id)

instance (nodes : List GraphNode) (e : Edge) : Decidable (Live nodes e) := inferInstanceAs (Decidable (_ ∧ _))

/-- The number of edges between nodes that lead to the id. -/
def references (nodes : List GraphNode) (edges : List Edge) (id : NodeId) : Nat :=
  edges.countP fun e => Live nodes e ∧ e.target = id

section Edges
variable {nodes : List GraphNode} {edges : List Edge} {n : GraphNode} {e : Edge} {arc : Arc} {i : Nat} {id : NodeId}

theorem foldl_addEdge (v : GraphView) (edges : List Edge) :
    edges.foldl addEdge v = { v with edges := v.edges ++ edges.filterMap (arc? v.positions) } := by
  induction edges generalizing v with
  | nil => simp
  | cons e edges ih =>
    rw [List.foldl_cons, ih, addEdge]
    cases harc : arc? v.positions e <;> simp [harc]

theorem ofParts_eq : ofParts nodes edges =
    { ofNodes nodes with edges := edges.filterMap (arc? (ofNodes nodes).positions) } := by
  rw [ofParts, ← ofNodes, foldl_addEdge, edges_ofNodes, List.nil_append]

theorem arc?_eq_some {positions : List (NodeId × Nat)} : arc? positions e = some arc ↔
    arc.kind = e.kind ∧ positions.lookup e.source = some arc.source ∧ positions.lookup e.target = some arc.target := by
  obtain ⟨kind, source, target⟩ := arc
  cases hs : positions.lookup e.source <;> cases ht : positions.lookup e.target <;> simp [arc?, hs, ht, eq_comm]

theorem mem_ids_iff : id ∈ nodes.map (·.id) ↔ ∃ i, (ofNodes nodes).positions.lookup id = some i := by
  simp only [lookup_positions]
  constructor
  · intro h
    obtain ⟨i, n, hn⟩ := exists_stands h
    exact ⟨i, n, hn⟩
  · rintro ⟨i, n, hn, rfl⟩
    exact List.mem_map.mpr ⟨n, hn.mem, rfl⟩

theorem live_iff : Live nodes e ↔ ∃ arc, arc? (ofNodes nodes).positions e = some arc := by
  simp only [Live, mem_ids_iff, arc?_eq_some]
  constructor
  · rintro ⟨⟨i, hi⟩, j, hj⟩
    exact ⟨⟨e.kind, i, j⟩, rfl, hi, hj⟩
  · rintro ⟨arc, -, hs, ht⟩
    exact ⟨⟨_, hs⟩, _, ht⟩

/-- An edge leads to the position of a node exactly if it leads to the node. -/
theorem leads_iff (h : Stands nodes i n) :
    (∃ arc, arc? (ofNodes nodes).positions e = some arc ∧ arc.target = i) ↔ Live nodes e ∧ e.target = n.id := by
  rw [live_iff]
  constructor
  · rintro ⟨arc, harc, rfl⟩
    obtain ⟨m, hm, htarget⟩ := lookup_positions.mp (arc?_eq_some.mp harc).2.2
    obtain rfl := hm.row_eq h
    exact ⟨⟨arc, harc⟩, htarget.symm⟩
  · rintro ⟨⟨arc, harc⟩, htarget⟩
    obtain ⟨m, hm, hid⟩ := lookup_positions.mp (arc?_eq_some.mp harc).2.2
    exact ⟨arc, harc, (hm.unique h (hid.trans htarget)).1⟩

theorem length_edges : (ofParts nodes edges).edges.length = edges.countP (Live nodes ·) := by
  rw [ofParts_eq, List.length_filterMap_eq_countP]
  refine List.countP_congr fun e _ => ?_
  rw [decide_eq_true_eq, live_iff, Option.isSome_iff_exists]

theorem incoming_eq (i : Nat) : (ofParts nodes edges).incoming i =
    edges.countP fun e => ((arc? (ofNodes nodes).positions e).map (·.target == i)).getD false := by
  rw [incoming, ofParts_eq, List.countP_filterMap]

theorem incoming_stands (h : Stands nodes i n) : (ofParts nodes edges).incoming i = references nodes edges n.id := by
  rw [incoming_eq, references]
  refine List.countP_congr fun e _ => ?_
  rw [decide_eq_true_eq, ← leads_iff h]
  cases arc? (ofNodes nodes).positions e <;> simp

/-- Edges lead to positions of nodes only. -/
theorem stands_of_incoming (h : 0 < (ofParts nodes edges).incoming i) : ∃ n, Stands nodes i n := by
  rw [incoming_eq, List.countP_pos_iff] at h
  obtain ⟨e, -, he⟩ := h
  cases harc : arc? (ofNodes nodes).positions e with
  | none => simp [harc] at he
  | some arc =>
    obtain ⟨n, hn, -⟩ := lookup_positions.mp (arc?_eq_some.mp harc).2.2
    rw [harc] at he
    exact ⟨n, eq_of_beq he ▸ hn⟩

theorem references_eq_zero (h : id ∉ nodes.map (·.id)) : references nodes edges id = 0 := by
  refine List.countP_eq_zero.mpr fun e _ => ?_
  simp only [decide_eq_true_eq]
  rintro ⟨⟨-, htarget⟩, rfl⟩
  exact h htarget

theorem inDegree_eq : (ofParts nodes edges).inDegree id = references nodes edges id := by
  have hpositions : (ofParts nodes edges).positions = (ofNodes nodes).positions := by rw [ofParts_eq]
  rw [inDegree, hpositions]
  split
  · next i hi =>
    obtain ⟨n, hn, rfl⟩ := lookup_positions.mp hi
    exact incoming_stands hn
  · next hnone =>
    refine (references_eq_zero fun hid => ?_).symm
    obtain ⟨i, hi⟩ := mem_ids_iff.mp hid
    rw [hnone] at hi
    cases hi

theorem node?_eq_some {m : GraphNode} :
    (ofParts nodes edges).node? id = some m ↔ m.id = id ∧ ∃ i, Stands nodes i m := by
  rw [node?, ofParts_eq]
  exact lookup_rows

end Edges

/-! ### The ranking -/

/-- More edges lead to `a`, or as many and its qualified name is smaller, or that too is the same and it has the earlier
    position. -/
def Precedes (nodes : List GraphNode) (a b : Ranked) : Prop :=
  b.count < a.count ∨ a.count = b.count ∧ (a.node.symbol.fqname < b.node.symbol.fqname ∨
    a.node.symbol.fqname = b.node.symbol.fqname ∧ ∃ i j, Stands nodes i a.node ∧ Stands nodes j b.node ∧ i < j)

/-- The list accounts for the edges between nodes. -/
structure Ranks (nodes : List GraphNode) (edges : List Edge) (l : List Ranked) : Prop where
  /-- It has the last row of every id that edges lead to, with their number. -/
  exact r : r ∈ l ↔ (∃ i, Stands nodes i r.node) ∧ r.count = references nodes edges r.node.id ∧ 0 < r.count
  /-- No id comes twice. -/
  once : (l.map (·.node.id)).Nodup
  ordered : l.Pairwise (Precedes nodes)
  total : (l.map (·.count)).sum = edges.countP (Live nodes ·)

section Ranking
variable {nodes : List GraphNode} {edges : List Edge} {id : NodeId} {i : Nat} {r : Ranked}

theorem rankedBefore_iff {a b : Ranked} : rankedBefore a b = true ↔
    b.count < a.count ∨ a.count = b.count ∧ a.node.symbol.fqname ≤ b.node.symbol.fqname := by
  unfold rankedBefore
  split
  · next heq => simp [heq]
  · next hne => simp [hne]

theorem rankedBefore_trans (a b c : Ranked) (hab : rankedBefore a b = true) (hbc : rankedBefore b c = true) :
    rankedBefore a c = true := by
  rw [rankedBefore_iff] at *
  rcases hab with hab | ⟨hab, hname⟩ <;> rcases hbc with hbc | ⟨hbc, hname'⟩
  · exact .inl (hbc.trans hab)
  · exact .inl (hbc ▸ hab)
  · exact .inl (hab ▸ hbc)
  · exact .inr ⟨hab.trans hbc, hname.trans hname'⟩

theorem rankedBefore_total (a b : Ranked) : (rankedBefore a b || rankedBefore b a) = true := by
  rw [Bool.or_eq_true, rankedBefore_iff, rankedBefore_iff]
  rcases Nat.lt_trichotomy a.count b.count with hlt | heq | hgt
  · exact .inr (.inl hlt)
  · rcases le_total a.node.symbol.fqname b.node.symbol.fqname with hle | hle
    · exact .inl (.inr ⟨heq, hle⟩)
    · exact .inr (.inr ⟨heq.symm, hle⟩)
  · exact .inl (.inl hgt)

theorem ranked?_eq_some (hid : nodes[i]?.map (·.id) = some id) : (ofParts nodes edges).ranked? id i = some r ↔
    Stands nodes i r.node ∧ r.count = references nodes edges r.node.id ∧ 0 < r.count := by
  obtain ⟨node, count⟩ := r
  simp only [ranked?, Option.bind_eq_bind, Option.bind_eq_some_iff, node?_eq_some]
  constructor
  · rintro ⟨m, ⟨rfl, j, hj⟩, h⟩
    split at h
    · next hpos =>
      cases h
      obtain ⟨n, hn⟩ := stands_of_incoming hpos
      have hsame : n.id = node.id := by simpa [hn.1] using hid
      obtain ⟨-, rfl⟩ := hn.unique hj hsame
      exact ⟨hn, incoming_stands hn, hpos⟩
    · cases h
  · rintro ⟨hn, hcount, hpos⟩
    have hsame : node.id = id := by simpa [hn.1] using hid
    have hincoming : (ofParts nodes edges).incoming i = references nodes edges node.id := incoming_stands hn
    refine ⟨node, ⟨hsame, i, hn⟩, ?_⟩
    rw [hincoming, ← hcount, if_pos hpos]

/-- What is ranked, by position. -/
def listed (v : GraphView) : List Ranked := v.nodes.zipIdx.filterMap fun (id, position) => v.ranked? id position

theorem mem_zipIdx_nodes (h : (id, i) ∈ (ofParts nodes edges).nodes.zipIdx) : nodes[i]?.map (·.id) = some id := by
  rw [ofParts_eq, nodes_ofNodes, List.mem_zipIdx_iff_getElem?, List.getElem?_map] at h
  exact h

theorem mem_listed : r ∈ listed (ofParts nodes edges) ↔
    (∃ i, Stands nodes i r.node) ∧ r.count = references nodes edges r.node.id ∧ 0 < r.count := by
  rw [listed, List.mem_filterMap]
  constructor
  · rintro ⟨⟨id, i⟩, hmem, h⟩
    obtain ⟨hn, hrest⟩ := (ranked?_eq_some (mem_zipIdx_nodes hmem)).mp h
    exact ⟨⟨i, hn⟩, hrest⟩
  · rintro ⟨⟨i, hn⟩, hrest⟩
    have hid : nodes[i]?.map (·.id) = some r.node.id := by rw [hn.1]; rfl
    refine ⟨(r.node.id, i), ?_, (ranked?_eq_some hid).mpr ⟨hn, hrest⟩⟩
    rw [ofParts_eq, nodes_ofNodes, List.mem_zipIdx_iff_getElem?, List.getElem?_map]
    exact hid

theorem listed_positions : (listed (ofParts nodes edges)).Pairwise fun a b =>
    ∃ i j, Stands nodes i a.node ∧ Stands nodes j b.node ∧ i < j := by
  have hplaces : (ofParts nodes edges).nodes.zipIdx.Pairwise fun a b => a.2 < b.2 := by
    refine List.pairwise_map.mp ?_
    rw [List.zipIdx_map_snd]
    exact List.pairwise_lt_range'
  rw [listed, List.pairwise_filterMap]
  refine hplaces.imp_of_mem fun ha hb hlt r hr s hs => ?_
  exact ⟨_, _, ((ranked?_eq_some (mem_zipIdx_nodes ha)).mp hr).1, ((ranked?_eq_some (mem_zipIdx_nodes hb)).mp hs).1, hlt⟩

theorem listed_total : ((listed (ofParts nodes edges)).map (·.count)).sum = edges.countP (Live nodes ·) := by
  -- A node that is not listed has nothing that leads to it, so it may be counted with the others.
  have hcount : ∀ x ∈ (ofParts nodes edges).nodes.zipIdx,
      (((ofParts nodes edges).ranked? x.1 x.2).map (·.count)).getD 0 = (ofParts nodes edges).incoming x.2 := by
    rintro ⟨id, i⟩ hx
    cases hr : (ofParts nodes edges).ranked? id i with
    | some r =>
      obtain ⟨hn, hcount, -⟩ := (ranked?_eq_some (mem_zipIdx_nodes hx)).mp hr
      exact hcount.trans (incoming_stands hn).symm
    | none =>
      refine (Nat.eq_zero_of_not_pos fun hpos => ?_).symm
      obtain ⟨n, hn⟩ := stands_of_incoming hpos
      have hsome := (ranked?_eq_some (r := ⟨n, _⟩) (mem_zipIdx_nodes hx)).mpr
        ⟨hn, rfl, incoming_stands hn ▸ hpos⟩
      rw [hr] at hsome
      cases hsome
  have hbound : ∀ arc ∈ (ofParts nodes edges).edges, arc.target < nodes.length := by
    intro arc harc
    rw [ofParts_eq] at harc
    obtain ⟨e, -, he⟩ := List.mem_filterMap.mp harc
    obtain ⟨n, hn, -⟩ := lookup_positions.mp (arc?_eq_some.mp he).2.2
    exact hn.lt_length
  calc ((listed (ofParts nodes edges)).map (·.count)).sum
      = ((ofParts nodes edges).nodes.zipIdx.map fun x => (ofParts nodes edges).incoming x.2).sum := by
        rw [listed, sum_filterMap]
        exact congrArg List.sum (List.map_congr_left hcount)
    _ = ((List.range nodes.length).map (ofParts nodes edges).incoming).sum := by
        have hnodes : (ofParts nodes edges).nodes.length = nodes.length := by simp [ofParts_eq]
        rw [List.range_eq_range', ← hnodes, ← List.zipIdx_map_snd, List.map_map]
        rfl
    _ = (ofParts nodes edges).edges.length := sum_countP_eq Arc.target hbound
    _ = edges.countP (Live nodes ·) := length_edges

theorem ranking_ranks : Ranks nodes edges (ofParts nodes edges).ranking where
  exact r := List.mem_mergeSort.trans mem_listed
  once := by
    refine (((List.mergeSort_perm _ _).map _).nodup_iff).mpr (List.pairwise_map.mpr ?_)
    refine listed_positions.imp fun ⟨i, j, hi, hj, hlt⟩ hid => ?_
    exact hi.2 j _ hlt hj.1 hid.symm
  ordered := by
    refine (pairwise_mergeSort_stable rankedBefore_trans rankedBefore_total listed_positions).imp fun ⟨hle, hplace⟩ => ?_
    rcases rankedBefore_iff.mp hle with hlt | ⟨hcount, hname⟩
    · exact .inl hlt
    · rcases lt_or_eq_of_le hname with hlt | heq
      · exact .inr ⟨hcount, .inl hlt⟩
      · exact .inr ⟨hcount, .inr ⟨heq, hplace (rankedBefore_iff.mpr (.inr ⟨hcount.symm, heq.ge⟩))⟩⟩
  total := (((List.mergeSort_perm _ _).map _).sum_eq).trans listed_total

theorem length_ranking_le : (ofParts nodes edges).ranking.length ≤ nodes.length := by
  rw [ranking, List.length_mergeSort]
  refine (List.length_filterMap_le _ _).trans_eq ?_
  rw [List.length_zipIdx, ofParts_eq, nodes_ofNodes, List.length_map]

end Ranking

/-- Whatever rows and edges there are, a view has the edges whose ends are both nodes, and an id that is no node's has no
    references. The node of an id is its last row. What is referred to most is the beginning of a list that accounts for
    the edges: it has the last row of each id that edges lead to once, with their number, the higher numbers first, then
    the smaller qualified names, then the earlier positions; and the numbers in the whole list add up to the number of
    edges. -/
theorem counts_live_edges (nodes : List GraphNode) (edges : List Edge) :
    let v := ofParts nodes edges
    v.edges.length = edges.countP (Live nodes ·) ∧
      (∀ id, v.inDegree id =
        if id ∈ nodes.map (·.id) then edges.countP fun e => Live nodes e ∧ e.target = id else 0) ∧
      (∀ id n, v.node? id = some n ↔ n.id = id ∧ ∃ i, Stands nodes i n) ∧
      ∃ ranking, Ranks nodes edges ranking ∧ (∀ limit, v.mostReferenced limit = ranking.take limit) ∧
        ∀ more, ((v.mostReferenced (nodes.length + more)).map (·.count)).sum = v.edges.length := by
  intro v
  refine ⟨length_edges, fun id => ?_, fun id n => node?_eq_some, v.ranking, ranking_ranks, fun limit => rfl, fun more => ?_⟩
  · rw [inDegree_eq]
    split
    · rfl
    · next hid => exact references_eq_zero hid
  · have hall : v.mostReferenced (nodes.length + more) = v.ranking :=
      List.take_of_length_le (length_ranking_le.trans (Nat.le_add_right _ _))
    rw [hall, length_edges]
    exact ranking_ranks.total

/-- Of two rows with the id 1 the second is the node, which the edges lead to; the edge to 3 leads nowhere. -/
example :
    let row (id : NodeId) (name : String) : GraphNode := ⟨id, "a.ts", ⟨name, name, .function, ⟨0, 1⟩⟩⟩
    let edge (source target : NodeId) : Edge := { id := 1, kind := .calls, source, target }
    let v := ofParts [row 1 "f", row 2 "g", row 1 "h"] [edge 2 1, edge 1 1, edge 1 3, edge 1 2]
    v.edges.length = 3 ∧ v.inDegree 3 = 0 ∧ (v.mostReferenced 9).map (fun r => (r.node.symbol.name, r.count)) =
      [("h", 2), ("g", 1)] := by
  cbv

end GraphView
end SymbolGraph
