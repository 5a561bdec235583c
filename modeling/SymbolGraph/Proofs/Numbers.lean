import SymbolGraph.Proofs.Rows

/-! Numbers of nodes. `Moves` says what a call may do to a store: it may give out new numbers, remove nodes and
    edges, and add edges between nodes that last; and it may open and end a transaction. A rollback takes back the
    numbers of its transaction, but no edge mentions them, since edges are only added between nodes that last. -/

namespace SymbolGraph

open Store

/-- One end of the edge has the number. -/
def Store.EdgeRow.Mentions (e : EdgeRow) (id : NodeId) : Prop := e.source = .integer id ∨ e.target = .integer id

/-- Nodes are in the order of their numbers, and these were given out. -/
structure Tables.Ordered (t : Tables) : Prop where
  ids : t.nodes.Pairwise (·.id < ·.id)
  unused : ∀ node ∈ t.nodes, node.id < t.nextNode

/-- New nodes have new numbers, and new edges mention numbers below the bound. -/
structure Tables.Advances (bound : NodeId) (t u : Tables) : Prop where
  next : t.nextNode ≤ u.nextNode
  nodes : ∀ node ∈ u.nodes, node ∈ t.nodes ∨ t.nextNode ≤ node.id
  ordered : t.Ordered → u.Ordered
  edges : ∀ e ∈ u.edges, e ∈ t.edges ∨ ∀ id, e.Mentions id → id < bound

namespace Tables
variable {t u : Tables} {bound : NodeId}

theorem Advances.of_nodes (hn : u.nodes = t.nodes) (hnext : u.nextNode = t.nextNode)
    (he : ∀ e ∈ u.edges, e ∈ t.edges ∨ ∀ id, e.Mentions id → id < bound) : t.Advances bound u where
  next := Int.le_of_eq hnext.symm
  nodes node hnode := .inl (hn ▸ hnode)
  ordered h := ⟨by rw [hn]; exact h.ids, by rw [hn, hnext]; exact h.unused⟩
  edges := he

theorem Advances.removal (keep : NodeRow → Bool) (hn : u.nodes = t.nodes.filter keep) (hnext : u.nextNode = t.nextNode)
    (he : u.edges ⊆ t.edges) : t.Advances bound u where
  next := Int.le_of_eq hnext.symm
  nodes node hnode := .inl (List.mem_of_mem_filter (hn ▸ hnode))
  ordered h := by
    refine ⟨by rw [hn]; exact h.ids.filter _, fun node hnode => ?_⟩
    rw [hnext]
    exact h.unused node (List.mem_of_mem_filter (hn ▸ hnode))
  edges e h := .inl (he h)

theorem Advances.newNode (t : Tables) (bound : NodeId) (path : String) (symbol : Symbol) :
    t.Advances bound
      { t with nodes := t.nodes ++ [.ofSymbol t.nextNode path symbol], nextNode := t.nextNode + 1 } where
  next := Int.le_add_of_nonneg_right (by decide)
  nodes node hnode := by
    rcases List.mem_append.mp hnode with hnode | hnode
    · exact .inl hnode
    · obtain rfl := List.mem_singleton.mp hnode
      exact .inr (Int.le_refl t.nextNode)
  ordered h := by
    refine ⟨List.pairwise_append.mpr ⟨h.ids, List.pairwise_singleton _ _, fun a ha b hb => ?_⟩, fun node hnode => ?_⟩
    · obtain rfl := List.mem_singleton.mp hb
      exact h.unused a ha
    · rcases List.mem_append.mp hnode with hnode | hnode
      · exact Int.lt_trans (h.unused node hnode) (Int.lt_succ t.nextNode)
      · obtain rfl := List.mem_singleton.mp hnode
        exact Int.lt_succ t.nextNode
  edges e h := .inl h

end Tables

namespace Store

/-- What one call may do. -/
inductive Moves : Store → Store → Prop where
  | change {st : Store} {u : Tables} (h : st.tables.Advances st.committed.nextNode u) : Moves st { st with tables := u }
  | begin {st : Store} (h : st.before? = none) : Moves st { st with before? := some st.tables }
  | commit {st : Store} {before : Tables} (h : st.before? = some before) : Moves st { st with before? := none }
  | rollback {st : Store} {before : Tables} (h : st.before? = some before) :
      Moves st { st with tables := before, before? := none }

theorem Moves.refl (st : Store) : Moves st st := .change (.of_nodes rfl rfl fun _ h => .inl h)

/-- The numbers in a store. A node whose number was given out before the transaction lasts, and an edge mentions
    no other number. -/
structure Numbered (st : Store) : Prop where
  tables : st.tables.Ordered
  committed : st.committed.Ordered
  next : st.committed.nextNode ≤ st.tables.nextNode
  nodes : ∀ node ∈ st.tables.nodes, node.id < st.committed.nextNode → node ∈ st.committed.nodes
  edges : ∀ e ∈ st.tables.edges, ∀ id, e.Mentions id → id < st.committed.nextNode
  edges' : ∀ e ∈ st.committed.edges, ∀ id, e.Mentions id → id < st.committed.nextNode

/-- Of the numbers that were given out and lasted in the first store, the second knows no other nodes. -/
structure Keeps (st st' : Store) : Prop where
  next : st.committed.nextNode ≤ st'.committed.nextNode
  nodes : ∀ node ∈ st'.committed.nodes, node.id < st.committed.nextNode → node ∈ st.committed.nodes

theorem Keeps.refl (st : Store) : st.Keeps st := ⟨Int.le_refl _, fun _ h _ => h⟩

theorem Keeps.trans {st st₁ st₂ : Store} (h : st.Keeps st₁) (h' : st₁.Keeps st₂) : st.Keeps st₂ where
  next := Int.le_trans h.next h'.next
  nodes node hnode hid := h.nodes node (h'.nodes node hnode (Int.lt_of_lt_of_le hid h.next)) hid

variable {st st' : Store} {before : Tables}

theorem committed_of_none (h : st.before? = none) : st.committed = st.tables := by
  rw [committed, h]
  rfl

theorem committed_of_some (h : st.before? = some before) : st.committed = before := by
  rw [committed, h]
  rfl

/-- With no transaction open the tables are what lasts. -/
theorem numbered_of_none (h : st.before? = none) (ht : st.tables.Ordered)
    (he : ∀ e ∈ st.tables.edges, ∀ id, e.Mentions id → id < st.tables.nextNode) : st.Numbered := by
  have hc := committed_of_none h
  refine ⟨ht, ?_, ?_, ?_, ?_, ?_⟩ <;> rw [hc]
  · exact ht
  · exact fun node hnode _ => hnode
  · exact he
  · exact he

/-- In a transaction what lasts is what was there before it. -/
theorem numbered_of_some (h : st.before? = some before) (hb : before.Ordered) (ht : st.tables.Ordered)
    (hnext : before.nextNode ≤ st.tables.nextNode)
    (hn : ∀ node ∈ st.tables.nodes, node.id < before.nextNode → node ∈ before.nodes)
    (he : ∀ e ∈ st.tables.edges, ∀ id, e.Mentions id → id < before.nextNode)
    (he' : ∀ e ∈ before.edges, ∀ id, e.Mentions id → id < before.nextNode) : st.Numbered := by
  have hc := committed_of_some h
  refine ⟨ht, ?_, ?_, ?_, ?_, ?_⟩ <;> rwa [hc]

theorem keeps_of_committed (h : st'.committed = st.committed) : st.Keeps st' :=
  ⟨by rw [h], fun node hnode _ => by rwa [← h]⟩

theorem moves_change (h : st.Numbered) {u : Tables} (hu : st.tables.Advances st.committed.nextNode u)
    (h' : st' = { st with tables := u }) : st'.Numbered ∧ st.Keeps st' := by
  have htables : st'.tables = u := by rw [h']
  have hedges : ∀ e ∈ u.edges, ∀ id, e.Mentions id → id < st.committed.nextNode := by
    intro e he id hid
    rcases hu.edges e he with he | hnew
    · exact h.edges e he id hid
    · exact hnew id hid
  cases hb : st.before? with
  | none =>
    -- Numbers that are given out last at once.
    have hb' : st'.before? = none := by rw [h', hb]
    rw [committed_of_none hb] at hedges
    refine ⟨numbered_of_none hb' (htables ▸ hu.ordered h.tables) fun e he id hid => ?_, ?_, ?_⟩
    · rw [htables] at he ⊢
      exact Int.lt_of_lt_of_le (hedges e he id hid) hu.next
    · rw [committed_of_none hb, committed_of_none hb', htables]
      exact hu.next
    · rw [committed_of_none hb, committed_of_none hb', htables]
      intro node hnode hid
      rcases hu.nodes node hnode with hold | hnew
      · exact hold
      · exact absurd hid (Int.not_lt.mpr hnew)
  | some before =>
    -- Whatever is given out, what lasts stays as it was before the transaction.
    have hb' : st'.before? = some before := by rw [h', hb]
    have hc := committed_of_some hb
    have hnext := h.next
    have hnodes := h.nodes
    have hordered := h.committed
    have hedges' := h.edges'
    rw [hc] at hnext hnodes hordered hedges hedges'
    refine ⟨numbered_of_some hb' hordered (htables ▸ hu.ordered h.tables) ?_ ?_ ?_ hedges', ?_⟩
    · rw [htables]
      exact Int.le_trans hnext hu.next
    · rw [htables]
      intro node hnode hid
      rcases hu.nodes node hnode with hold | hnew
      · exact hnodes node hold hid
      · exact absurd (Int.lt_of_lt_of_le hid hnext) (Int.not_lt.mpr hnew)
    · rwa [htables]
    · exact keeps_of_committed (by rw [hc, committed_of_some hb'])

/-- A call keeps the numbers in order, and binds none that lasts anew. -/
theorem Moves.numbered (hm : Moves st st') (h : st.Numbered) : st'.Numbered ∧ st.Keeps st' := by
  cases hm with
  | change hu => exact moves_change h hu rfl
  | begin hb =>
    have hc := committed_of_none hb
    have hedges := h.edges
    rw [hc] at hedges
    exact ⟨numbered_of_some rfl h.tables h.tables (Int.le_refl _) (fun _ hnode _ => hnode) hedges hedges,
      keeps_of_committed hc.symm⟩
  | @commit before hb =>
    have hc := committed_of_some hb
    have hnext := h.next
    have hnodes := h.nodes
    have hedges := h.edges
    rw [hc] at hnext hnodes hedges
    refine ⟨numbered_of_none rfl h.tables fun e he id hid => Int.lt_of_lt_of_le (hedges e he id hid) hnext, ?_, ?_⟩
    · rw [hc]
      exact hnext
    · rw [hc]
      exact hnodes
  | @rollback before hb =>
    have hc := committed_of_some hb
    have hordered := h.committed
    have hedges := h.edges'
    rw [hc] at hordered hedges
    exact ⟨numbered_of_none rfl hordered hedges, keeps_of_committed hc.symm⟩

/-- What an edge mentions was the same node all along, if it was one. -/
theorem Keeps.unique (hk : st.Keeps st') (h : st.Numbered) (h' : st'.Numbered) {e : EdgeRow} (he : e ∈ st.tables.edges)
    {id : NodeId} (hid : e.Mentions id) {later : NodeRow} (hlater : later ∈ st'.tables.nodes) (hlid : later.id = id) :
    later ∈ st.committed.nodes ∧ ∀ node ∈ st.tables.nodes, node.id = id → later = node := by
  have hbound := h.edges e he id hid
  subst hlid
  have hlasts := hk.nodes later (h'.nodes later hlater (Int.lt_of_lt_of_le hbound hk.next)) hbound
  refine ⟨hlasts, fun node hnode hnid => ?_⟩
  have hnode' := h.nodes node hnode (hnid ▸ hbound)
  exact Tables.eq_of_id h.committed.ids hlasts hnode' hnid.symm

end Store
end SymbolGraph
