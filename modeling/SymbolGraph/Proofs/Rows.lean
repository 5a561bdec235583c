import Mathlib.Data.List.Forall2
import Mathlib.Data.List.Nodup
import Mathlib.Data.String.Basic
import SymbolGraph.Store.Basic

/-! The rows of one file among the rows of all. Storing a file puts its row in its place and its nodes at
    the end, removing it takes away what has its path, and both leave the rows of other paths alone. Rows
    that were made from symbols can be read, and say what the symbols say. -/

namespace SymbolGraph

namespace Store

/-! ### Nodes of symbols -/

/-- The rows for the symbols of a path under consecutive numbers. -/
def NodeRow.numbered (path : String) : NodeId → List Symbol → List NodeRow
  | _, [] => []
  | id, symbol :: rest => .ofSymbol id path symbol :: numbered path (id + 1) rest

/-- The row says what the symbol says. -/
def NodeRow.Carries (r : NodeRow) (symbol : Symbol) : Prop := r = .ofSymbol r.id r.path symbol

/-- An offset as a column keeps it: what is too large becomes the largest integer. -/
def keptOffset (n : Nat) : Nat := (min (n : Int) largestInteger).toNat

/-- The symbol as the columns keep it. -/
def keptSymbol (s : Symbol) : Symbol := { s with span := ⟨keptOffset s.span.start, keptOffset s.span.stop⟩ }

theorem ofText?_text (kind : SymbolKind) : SymbolKind.ofText? kind.text = some kind := by cases kind <;> decide

theorem NodeRow.Carries.node {r : NodeRow} {s : Symbol} (h : r.Carries s) :
    r.node = .ok ⟨r.id, r.path, keptSymbol s⟩ := by
  have offset_nonneg : ∀ n : Nat, ¬ min (n : Int) largestInteger < 0 := fun n => by
    rw [largestInteger]
    omega
  rw [h]
  simp only [NodeRow.node, NodeRow.ofSymbol, Stored.ofNat, Stored.integer?, bind, Except.bind, ofText?_text,
    offset_nonneg, if_false, pure, Except.pure]
  rfl

namespace NodeRow
variable {path : String} {id : NodeId} {symbols : List Symbol}

theorem numbered_carries : List.Forall₂ Carries (numbered path id symbols) symbols := by
  induction symbols generalizing id with
  | nil => exact .nil
  | cons symbol rest ih => exact .cons rfl ih

theorem path_of_mem_numbered {r : NodeRow} (h : r ∈ numbered path id symbols) : r.path = path := by
  induction symbols generalizing id with
  | nil => cases h
  | cons symbol rest ih =>
    rcases List.mem_cons.mp h with rfl | h
    · rfl
    · exact ih h

theorem id_of_mem_numbered {r : NodeRow} (h : r ∈ numbered path id symbols) :
    id ≤ r.id ∧ r.id < id + symbols.length := by
  induction symbols generalizing id with
  | nil => cases h
  | cons symbol rest ih =>
    have later : ∀ a b n : Int, a + 1 ≤ b ∧ b < a + 1 + n → a ≤ b ∧ b < a + (n + 1) := by omega
    rw [List.length_cons]
    rcases List.mem_cons.mp h with rfl | h
    · exact ⟨le_refl id, Int.lt_add_of_pos_right id (Int.natCast_pos.mpr (Nat.succ_pos _))⟩
    · exact later _ _ _ (ih h)

theorem numbered_ascending : (numbered path id symbols).Pairwise (·.id < ·.id) := by
  induction symbols generalizing id with
  | nil => exact .nil
  | cons symbol rest ih => exact .cons (fun r hr => Int.lt_of_add_one_le (id_of_mem_numbered hr).1) ih

end NodeRow

theorem exists_paired {α β : Type} {P : α → β → Prop} {l : List α} {m : List β} (h : List.Forall₂ P l m) {a : α}
    (ha : a ∈ l) : ∃ b ∈ m, P a b := by
  induction h with
  | nil => cases ha
  | cons hab _ ih =>
    rcases List.mem_cons.mp ha with rfl | ha
    · exact ⟨_, List.mem_cons_self, hab⟩
    · obtain ⟨b, hb, hab⟩ := ih ha
      exact ⟨b, List.mem_cons_of_mem _ hb, hab⟩

/-! ### Reading nodes -/

theorem fits_of_node {r : NodeRow} {n : GraphNode} (h : r.node = .ok n) : r.fits = .ok () := by
  unfold NodeRow.node at h
  unfold NodeRow.fits
  cases hs : r.start.integer? with
  | error e =>
    rw [hs] at h
    cases h
  | ok start =>
    cases ht : r.stop.integer? with
    | error e =>
      rw [hs, ht] at h
      cases h
    | ok stop => rfl

/-- Rows that can be read one by one can be read together. -/
theorem readNodes_eq_ok {rows : List NodeRow} {nodes : List GraphNode}
    (h : List.Forall₂ (fun r n => r.node = .ok n) rows nodes) : readNodes rows = .ok nodes := by
  have hall : forM rows NodeRow.fits = .ok () ∧ rows.mapM NodeRow.node = .ok nodes := by
    induction h with
    | nil => exact ⟨rfl, rfl⟩
    | cons hr _ ih =>
      rw [List.forM_cons, List.mapM_cons, fits_of_node hr, hr, ih.2]
      exact ⟨ih.1, rfl⟩
  rw [readNodes, show rows.forM NodeRow.fits = .ok () from hall.1]
  exact hall.2

/-- Rows that say what symbols say can be read, and the nodes are those symbols. -/
theorem readNodes_of_carries {rows : List NodeRow} {symbols : List Symbol}
    (h : List.Forall₂ NodeRow.Carries rows symbols) :
    ∃ nodes, readNodes rows = .ok nodes ∧ nodes.map (·.id) = rows.map (·.id) ∧
      nodes.map (·.symbol) = symbols.map keptSymbol := by
  have hall : ∃ nodes, List.Forall₂ (fun r n => r.node = .ok n) rows nodes ∧ nodes.map (·.id) = rows.map (·.id) ∧
      nodes.map (·.symbol) = symbols.map keptSymbol := by
    induction h with
    | nil => exact ⟨[], .nil, rfl, rfl⟩
    | cons hr _ ih =>
      obtain ⟨nodes, hnodes, hids, hsymbols⟩ := ih
      exact ⟨_ :: nodes, .cons hr.node hnodes, by simp [hids], by simp [hsymbols]⟩
  obtain ⟨nodes, hnodes, hrest⟩ := hall
  exact ⟨nodes, readNodes_eq_ok hnodes, hrest⟩

end Store

open Store

namespace Tables
variable {row : FileRow} {files : List FileRow} {path : String}

/-! ### Rows of files -/

theorem find?_putFile (row : FileRow) (files : List FileRow) (path : String) :
    (putFile row files).find? (·.path == path) =
      if row.path = path then some row else files.find? (·.path == path) := by
  induction files with
  | nil => by_cases hp : row.path = path <;> simp [putFile, hp]
  | cons r rest ih =>
    rw [putFile]
    split
    · next hr => by_cases hp : row.path = path <;> simp [hp, hr]
    · next hr =>
      split
      · by_cases hp : row.path = path <;> simp [hp]
      · by_cases hp : row.path = path
        · subst hp
          simp [hr, ih]
        · simp [List.find?_cons, ih, hp]

theorem mem_putFile {r : FileRow} (hs : files.Pairwise (·.path < ·.path)) (h : r ∈ putFile row files) :
    r = row ∨ r ∈ files ∧ r.path ≠ row.path := by
  induction files with
  | nil => exact .inl (by simpa [putFile] using h)
  | cons f rest ih =>
    rw [List.pairwise_cons] at hs
    rw [putFile] at h
    split at h
    · next hf =>
      rcases List.mem_cons.mp h with rfl | hr
      · exact .inl rfl
      · exact .inr ⟨List.mem_cons_of_mem _ hr, hf ▸ (hs.1 r hr).ne'⟩
    · next hf =>
      split at h
      · next hlt =>
          -- From the place of the new row on all paths are greater than its own.
        rcases List.mem_cons.mp h with rfl | hr
        · exact .inl rfl
        · refine .inr ⟨hr, ?_⟩
          rcases List.mem_cons.mp hr with rfl | hr
          · exact hf
          · exact (hlt.trans (hs.1 r hr)).ne'
      · rcases List.mem_cons.mp h with rfl | hr
        · exact .inr ⟨List.mem_cons_self, hf⟩
        · rcases ih hs.2 hr with rfl | ⟨hr, hne⟩
          · exact .inl rfl
          · exact .inr ⟨List.mem_cons_of_mem _ hr, hne⟩

theorem mem_putFile_self (row : FileRow) (files : List FileRow) : row ∈ putFile row files := by
  induction files with
  | nil => exact List.mem_singleton.mpr rfl
  | cons f rest ih =>
    rw [putFile]
    split
    · exact List.mem_cons_self
    · split
      · exact List.mem_cons_self
      · exact List.mem_cons_of_mem _ ih

theorem mem_putFile_of_ne {r : FileRow} (hr : r ∈ files) (hne : r.path ≠ row.path) : r ∈ putFile row files := by
  induction files with
  | nil => cases hr
  | cons f rest ih =>
    rw [putFile]
    split
    · next hf =>
      rcases List.mem_cons.mp hr with rfl | hr
      · exact absurd hf hne
      · exact List.mem_cons_of_mem _ hr
    · split
      · exact List.mem_cons_of_mem _ hr
      · rcases List.mem_cons.mp hr with rfl | hr
        · exact List.mem_cons_self
        · exact List.mem_cons_of_mem _ (ih hr)

theorem putFile_ascending (row : FileRow) (hs : files.Pairwise (·.path < ·.path)) :
    (putFile row files).Pairwise (·.path < ·.path) := by
  induction files with
  | nil => exact .cons (fun _ h => by cases h) .nil
  | cons f rest ih =>
    have hcons := List.pairwise_cons.mp hs
    rw [putFile]
    split
    · next hf => exact .cons (fun r hr => hf ▸ hcons.1 r hr) hcons.2
    · next hf =>
      split
      · next hlt =>
        refine .cons (fun r hr => ?_) hs
        rcases List.mem_cons.mp hr with rfl | hr
        · exact hlt
        · exact hlt.trans (hcons.1 r hr)
      · next hle =>
        refine .cons (fun r hr => ?_) (ih hcons.2)
        rcases mem_putFile hcons.2 hr with rfl | ⟨hr, -⟩
        · exact lt_of_le_of_ne (not_lt.mp hle) hf
        · exact hcons.1 r hr

/-! ### Rows of nodes -/

theorem eq_of_id {rows : List NodeRow} (h : rows.Pairwise (·.id < ·.id)) {r s : NodeRow} (hr : r ∈ rows) (hs : s ∈ rows)
    (hid : r.id = s.id) : r = s := by
  have hnodup : (rows.map (·.id)).Nodup := List.pairwise_map.mpr (h.imp fun hlt => Int.ne_of_lt hlt)
  exact List.inj_on_of_nodup_map hnodup hr hs hid

/-- The rows for the nodes of a path. -/
def nodesAt (t : Tables) (path : String) : List NodeRow := t.nodes.filter (·.path == path)

/-- The tables with the file's row and nodes for its symbols, instead of those with its path. -/
def withFile (t : Tables) (row : FileRow) (symbols : List Symbol) : Tables :=
  { t with
    files := putFile row t.files
    nodes := t.nodes.filter (·.path != row.path) ++ NodeRow.numbered row.path t.nextNode symbols
    nextNode := t.nextNode + symbols.length }

/-- The tables without the row and the nodes of a path. -/
def withoutFile (t : Tables) (path : String) : Tables :=
  { t with
    files := t.files.filter (·.path != path)
    nodes := t.nodes.filter (·.path != path) }

/-- Whether there is anything of the path. -/
def knows (t : Tables) (path : String) : Bool := 0 < (t.nodesAt path).length || t.files.any (·.path == path)

theorem nodesAt_withFile_self (t : Tables) (row : FileRow) (symbols : List Symbol) :
    (t.withFile row symbols).nodesAt row.path = NodeRow.numbered row.path t.nextNode symbols := by
  have hold : (t.nodes.filter (·.path != row.path)).filter (·.path == row.path) = [] := by
    simp [List.filter_eq_nil_iff]
  have hnew : (NodeRow.numbered row.path t.nextNode symbols).filter (·.path == row.path) =
      NodeRow.numbered row.path t.nextNode symbols :=
    List.filter_eq_self.mpr fun r hr => beq_iff_eq.mpr (NodeRow.path_of_mem_numbered hr)
  rw [nodesAt, withFile, List.filter_append, hold, hnew, List.nil_append]

theorem filter_ne_path {l : List NodeRow} {path other : String} (h : path ≠ other) :
    (l.filter (·.path != other)).filter (·.path == path) = l.filter (·.path == path) := by
  rw [List.filter_filter]
  refine List.filter_congr fun r _ => ?_
  by_cases hr : r.path = path <;> simp [hr, h]

theorem nodesAt_withFile_of_ne (t : Tables) (symbols : List Symbol) (h : path ≠ row.path) :
    (t.withFile row symbols).nodesAt path = t.nodesAt path := by
  have hnew : (NodeRow.numbered row.path t.nextNode symbols).filter (·.path == path) = [] :=
    List.filter_eq_nil_iff.mpr fun r hr => by simpa [NodeRow.path_of_mem_numbered hr] using h.symm
  rw [nodesAt, withFile, List.filter_append, hnew, List.append_nil, filter_ne_path h]
  rfl

theorem nodesAt_withoutFile_of_ne (t : Tables) {other : String} (h : path ≠ other) :
    (t.withoutFile other).nodesAt path = t.nodesAt path := filter_ne_path h

theorem nodesAt_withoutFile_self (t : Tables) (path : String) : (t.withoutFile path).nodesAt path = [] := by
  simp [nodesAt, withoutFile, List.filter_eq_nil_iff]

/-! ### Paths of which nothing is known -/

theorem knows_eq_false {t : Tables} : t.knows path = false ↔
    (∀ node ∈ t.nodes, node.path ≠ path) ∧ ∀ row ∈ t.files, row.path ≠ path := by
  simp [knows, nodesAt]

theorem knows_withoutFile (t : Tables) (path : String) : (t.withoutFile path).knows path = false := by
  rw [knows_eq_false]
  simp [withoutFile]

theorem withoutFile_unknown {t : Tables} (h : t.knows path = false) : t.withoutFile path = t := by
  obtain ⟨hnodes, hfiles⟩ := knows_eq_false.mp h
  have hkept : t.files.filter (·.path != path) = t.files :=
    List.filter_eq_self.mpr fun row hrow => by simpa using hfiles row hrow
  have hkept' : t.nodes.filter (·.path != path) = t.nodes :=
    List.filter_eq_self.mpr fun node hnode => by simpa using hnodes node hnode
  rw [withoutFile, hkept, hkept']

end Tables
end SymbolGraph
