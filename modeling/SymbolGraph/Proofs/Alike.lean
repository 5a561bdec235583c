import Mathlib.Data.List.Forall2
import SymbolGraph.Proofs.Resolution

/-! Links of stores that are alike. Two stores may hold the same symbols under different numbers. If the
    numbers correspond, and each file has corresponding nodes in the same order, then the imports of a file
    become corresponding links; so do the calls if the order of all nodes is the same too. -/

namespace SymbolGraph

/-- The row without its number. -/
def Store.NodeRow.unnumbered (r : NodeRow) : NodeRow := { r with id := 0 }

namespace Index

open Store

/-- The nodes are the same symbol under corresponding numbers. -/
structure NodeAlike (ρ : NodeId → NodeId → Prop) (n m : GraphNode) : Prop where
  id : ρ n.id m.id
  symbol : n.symbol = m.symbol

/-- The same file, whose nodes have corresponding numbers. -/
structure PendingAlike (ρ : NodeId → NodeId → Prop) (p q : Pending) : Prop where
  path : p.path = q.path
  language : p.language = q.language
  found : p.found = q.found
  nodes : List.Forall₂ (fun a b => ρ a.1 b.1 ∧ a.2 = b.2) p.nodes q.nodes

/-- Links of one kind between corresponding nodes. -/
structure LinkAlike (ρ : NodeId → NodeId → Prop) (l m : Link) : Prop where
  kind : l.kind = m.kind
  source : ρ l.source m.source
  target : ρ l.target m.target

/-- The same paths have records, and their nodes correspond in order. -/
def LookupAlike (ρ : NodeId → NodeId → Prop) (t u : Tables) : Prop :=
  ∀ path, Option.Rel (List.Forall₂ (NodeAlike ρ)) (t.lookup? path) (u.lookup? path)

/-! ### Finding what corresponds -/

theorem find?_alike {α β : Type} {r : α → β → Prop} {l : List α} {m : List β} {f : α → Bool} {g : β → Bool}
    (h : List.Forall₂ r l m) (hfg : ∀ a b, r a b → f a = g b) : Option.Rel r (l.find? f) (m.find? g) := by
  induction h with
  | nil => exact .none
  | @cons a b _ _ hab _ ih =>
    rw [List.find?_cons, List.find?_cons, hfg a b hab]
    cases g b with
    | true => exact .some hab
    | false => exact ih

theorem findSome?_alike {α β γ : Type} {r : α → β → Prop} {f : γ → Option α} {g : γ → Option β} (l : List γ)
    (h : ∀ c, Option.Rel r (f c) (g c)) : Option.Rel r (l.findSome? f) (l.findSome? g) := by
  induction l with
  | nil => exact .none
  | cons c rest ih =>
    rw [List.findSome?_cons, List.findSome?_cons]
    have hc := h c
    revert hc
    cases f c <;> cases g c <;> intro hc <;> cases hc
    · exact ih
    · exact .some ‹_›

theorem isSome_alike {α β : Type} {r : α → β → Prop} {a : Option α} {b : Option β} (h : Option.Rel r a b) :
    a.isSome = b.isSome := by
  cases h <;> rfl

theorem map_alike {α β γ δ : Type} {r : α → β → Prop} {q : γ → δ → Prop} {f : α → γ} {g : β → δ} {a : Option α}
    {b : Option β} (h : Option.Rel r a b) (hfg : ∀ a b, r a b → q (f a) (g b)) : Option.Rel q (a.map f) (b.map g) := by
  cases h with
  | none => exact .none
  | some hab => exact .some (hfg _ _ hab)

/-- Lists that are made of one list in corresponding ways correspond. -/
theorem filterMap_alike {α β γ : Type} {r : β → γ → Prop} {f : α → Option β} {g : α → Option γ} (l : List α)
    (h : ∀ a, Option.Rel r (f a) (g a)) : List.Forall₂ r (l.filterMap f) (l.filterMap g) :=
  List.rel_filterMap (fun a _ hab => hab ▸ h a) (List.forall₂_same.mpr fun _ _ => rfl)

theorem flatMap_alike {α β γ : Type} {r : β → γ → Prop} {f : α → List β} {g : α → List γ} (l : List α)
    (h : ∀ a, List.Forall₂ r (f a) (g a)) : List.Forall₂ r (l.flatMap f) (l.flatMap g) :=
  List.rel_flatMap (List.forall₂_same.mpr fun _ _ => rfl) fun a _ hab => hab ▸ h a

theorem map_alike_eq {α β γ : Type} {P : α → β → Prop} {f : α → γ} {g : β → γ} {l : List α} {m : List β}
    (h : List.Forall₂ P l m) (hfg : ∀ a b, P a b → f a = g b) : l.map f = m.map g := by
  induction h with
  | nil => rfl
  | cons hab _ ih => rw [List.map_cons, List.map_cons, hfg _ _ hab, ih]

variable {ρ : NodeId → NodeId → Prop} {t u : Tables} {p q : Pending}

/-! ### Reading what corresponds -/

theorem node_unnumbered (r : NodeRow) : r.node = r.unnumbered.node.map fun n => { n with id := r.id } := by
  simp only [NodeRow.node, NodeRow.unnumbered, bind, Except.bind]
  cases r.start.integer? with
  | error e => rfl
  | ok start =>
    cases r.stop.integer? with
    | error e => rfl
    | ok stop =>
      cases SymbolKind.ofText? r.kind with
      | none => rfl
      | some kind =>
        dsimp only
        split
        · rfl
        · split <;> rfl

/-- Rows that differ in their numbers only are read as the same symbols. -/
theorem readNodes_alike {rows others : List NodeRow}
    (h : List.Forall₂ (fun r s => ρ r.id s.id ∧ r.unnumbered = s.unnumbered) rows others)
    (hread : ∀ s ∈ others, ∃ n, s.node = .ok n) :
    List.Forall₂ (NodeAlike ρ) ((readNodes rows).toOption.getD []) ((readNodes others).toOption.getD []) := by
  have hall : ∃ ns ms, List.Forall₂ (fun r n => r.node = .ok n) rows ns ∧
      List.Forall₂ (fun r n => r.node = .ok n) others ms ∧ List.Forall₂ (NodeAlike ρ) ns ms := by
    induction h with
    | nil => exact ⟨[], [], .nil, .nil, .nil⟩
    | @cons r s _ _ hrs _ ih =>
      obtain ⟨ns, ms, hns, hms, halike⟩ := ih fun s hs => hread s (List.mem_cons_of_mem _ hs)
      obtain ⟨n, hn⟩ := hread s List.mem_cons_self
      have hr := node_unnumbered r
      have hs := node_unnumbered s
      rw [hrs.2] at hr
      cases hnode : s.unnumbered.node with
      | error e =>
        rw [hnode, hn] at hs
        cases hs
      | ok m =>
        rw [hnode] at hr hs
        exact ⟨_ :: ns, _ :: ms, .cons hr hns, .cons hs hms, .cons ⟨hrs.1, rfl⟩ halike⟩
  obtain ⟨ns, ms, hns, hms, halike⟩ := hall
  rw [readNodes_eq_ok hns, readNodes_eq_ok hms]
  exact halike

theorem PendingAlike.firstNode? (h : PendingAlike ρ p q) : Option.Rel ρ p.firstNode? q.firstNode? := by
  unfold Pending.firstNode?
  have hnodes := h.nodes
  revert hnodes
  cases p.nodes <;> cases q.nodes <;> intro hnodes <;> cases hnodes
  · exact .none
  · next hab _ => exact .some hab.1

theorem PendingAlike.enclosing? (h : PendingAlike ρ p q) (c : CallSite) :
    Option.Rel ρ (p.enclosing? c) (q.enclosing? c) :=
  map_alike (find?_alike h.nodes fun _ _ hab => congrArg (Span.contains · c.span) hab.2) fun _ _ hab => hab.1

namespace Resolve

/-! ### Imports -/

theorem nameLinks_alike {a b : NodeId} {ns ms : List GraphNode} (hab : ρ a b) (h : List.Forall₂ (NodeAlike ρ) ns ms)
    (names : List String) :
    List.Forall₂ (LinkAlike ρ) (nameLinks a ns names) (nameLinks b ms names) ∧
      nameCounts ns names = nameCounts ms names := by
  have hfind : ∀ name, Option.Rel (NodeAlike ρ) (ns.find? (named name)) (ms.find? (named name)) := fun name =>
    find?_alike h fun n m hnm => by rw [named, named, hnm.symbol]
  refine ⟨filterMap_alike names fun name => map_alike (hfind name) fun n m hnm => ⟨rfl, hab, hnm.id⟩, ?_⟩
  have hsome : ∀ name, (ns.find? (named name)).isSome = (ms.find? (named name)).isSome := fun name =>
    isSome_alike (hfind name)
  simp only [nameCounts, ← Option.not_isSome, hsome]

theorem importLinks_alike (hl : LookupAlike ρ t u) (hp : PendingAlike ρ p q) (res : ModuleResolution)
    (i : ImportDeclaration) :
    List.Forall₂ (LinkAlike ρ) (importLinks t res p i) (importLinks u res q i) ∧
      importCounts t res p i = importCounts u res q i := by
  have htargets : Option.Rel (List.Forall₂ (NodeAlike ρ)) (targets? t res p i) (targets? u res q i) := by
    rw [targets?, targets?, hp.path]
    exact findSome?_alike _ hl
  have hfirst := hp.firstNode?
  unfold importLinks importCounts
  revert htargets hfirst
  cases targets? t res p i <;> cases targets? u res q i <;> intro htargets <;> cases htargets
  · cases p.firstNode? <;> cases q.firstNode? <;> intro hfirst <;> cases hfirst <;> exact ⟨.nil, rfl⟩
  · next h =>
    cases p.firstNode? <;> cases q.firstNode? <;> intro hfirst <;> cases hfirst
    · exact ⟨.nil, rfl⟩
    · next hab => exact nameLinks_alike hab h i.names

/-- The links of a file's imports. -/
def importLinksOf (t : Tables) (registry : Registry) (p : Pending) : List Link :=
  (importsWith registry p).flatMap fun (res, i) => importLinks t res p i

/-- The counts of a file's imports. -/
def importCountsOf (t : Tables) (registry : Registry) (p : Pending) : Resolved :=
  Resolved.total ((importsWith registry p).map fun (res, i) => importCounts t res p i)

theorem importLinksOf_alike (hl : LookupAlike ρ t u) (hp : PendingAlike ρ p q) (registry : Registry) :
    List.Forall₂ (LinkAlike ρ) (importLinksOf t registry p) (importLinksOf u registry q) ∧
      importCountsOf t registry p = importCountsOf u registry q := by
  have hwith : importsWith registry p = importsWith registry q := by
    rw [importsWith, importsWith, hp.language, hp.found]
  unfold importLinksOf importCountsOf
  rw [hwith]
  refine ⟨flatMap_alike _ fun (res, i) => (importLinks_alike hl hp res i).1, ?_⟩
  exact congrArg Resolved.total (List.map_congr_left fun (res, i) _ => (importLinks_alike hl hp res i).2)

/-! ### Calls -/

theorem callCounts_congr {ns ms : List GraphNode} (hp : PendingAlike ρ p q) {c : CallSite}
    (h : (callLinks ns p c).length = (callLinks ms q c).length) : callCounts ns p c = callCounts ms q c := by
  have hcaller := isSome_alike (hp.enclosing? c)
  unfold callCounts
  rw [h]
  cases hpc : p.enclosing? c <;> cases hqc : q.enclosing? c <;> simp_all

theorem callLinks_alike {ns ms : List GraphNode} (hn : List.Forall₂ (NodeAlike ρ) ns ms) (hp : PendingAlike ρ p q)
    (c : CallSite) :
    List.Forall₂ (LinkAlike ρ) (callLinks ns p c) (callLinks ms q c) ∧ callCounts ns p c = callCounts ms q c := by
  have hlinks : List.Forall₂ (LinkAlike ρ) (callLinks ns p c) (callLinks ms q c) := by
    have hcaller := hp.enclosing? c
    unfold callLinks
    revert hcaller
    cases p.enclosing? c <;> cases q.enclosing? c <;> intro hcaller <;> cases hcaller
    · exact .nil
    · next hab =>
      refine filterMap_alike _ fun part => map_alike (find?_alike hn fun n m hnm => ?_) fun n m hnm => ⟨rfl, hab, hnm.id⟩
      rw [hnm.symbol]
  exact ⟨hlinks, callCounts_congr hp hlinks.length_eq⟩

/-! ### Files -/

theorem fileCounts_congr {ns ms : List GraphNode} (hl : LookupAlike ρ t u) (hp : PendingAlike ρ p q) (registry : Registry)
    (h : ∀ c, callCounts ns p c = callCounts ms q c) : fileCounts t registry ns p = fileCounts u registry ms q := by
  have himports := (importLinksOf_alike hl hp registry).2
  have hcalls : p.found.calls.map (callCounts ns p) = q.found.calls.map (callCounts ms q) := by
    rw [hp.found]
    exact List.map_congr_left fun c _ => h c
  unfold importCountsOf at himports
  rw [fileCounts, fileCounts, hcalls, himports]

theorem fileLinks_alike {ns ms : List GraphNode} (hl : LookupAlike ρ t u) (hn : List.Forall₂ (NodeAlike ρ) ns ms)
    (hp : PendingAlike ρ p q) (registry : Registry) :
    List.Forall₂ (LinkAlike ρ) (fileLinks t registry ns p) (fileLinks u registry ms q) ∧
      fileCounts t registry ns p = fileCounts u registry ms q := by
  have himports := (importLinksOf_alike hl hp registry).1
  have hcalls : List.Forall₂ (LinkAlike ρ) (p.found.calls.flatMap (callLinks ns p))
      (q.found.calls.flatMap (callLinks ms q)) := by
    rw [hp.found]
    exact flatMap_alike _ fun c => (callLinks_alike hn hp c).1
  exact ⟨List.rel_append himports hcalls, fileCounts_congr hl hp registry fun c => (callLinks_alike hn hp c).2⟩

theorem links_alike {ns ms : List GraphNode} (hl : LookupAlike ρ t u) (hn : List.Forall₂ (NodeAlike ρ) ns ms)
    (registry : Registry) {ps qs : List Pending} (hps : List.Forall₂ (PendingAlike ρ) ps qs) :
    List.Forall₂ (LinkAlike ρ) (links t registry ns ps) (links u registry ms qs) ∧
      counts t registry ns ps = counts u registry ms qs := by
  refine ⟨List.rel_flatMap hps fun p q hp => (fileLinks_alike hl hn hp registry).1, ?_⟩
  rw [counts, counts, map_alike_eq hps fun p q hp => (fileLinks_alike hl hn hp registry).2]

end Resolve
end Index
end SymbolGraph
