import SymbolGraph.Tree.Walk

/-! The places of a tree. A place is a node with the nodes around it, each with the siblings before it. A walk goes
    down to a place step by step, and what it knows there follows from these steps alone; what it finds in a tree is
    what it finds at the places, one after the other. -/

namespace SymbolGraph

namespace Findings

@[simp] theorem symbols_append (a b : Findings) : (a ++ b).symbols = a.symbols ++ b.symbols := rfl

@[simp] theorem imports_append (a b : Findings) : (a ++ b).imports = a.imports ++ b.imports := rfl

@[simp] theorem calls_append (a b : Findings) : (a ++ b).calls = a.calls ++ b.calls := rfl

theorem ext {a b : Findings} (hs : a.symbols = b.symbols) (hi : a.imports = b.imports) (hc : a.calls = b.calls) :
    a = b := by
  cases a
  cases b
  simp_all

@[simp] theorem empty_append (a : Findings) : ({} : Findings) ++ a = a := rfl

@[simp] theorem append_empty (a : Findings) : a ++ ({} : Findings) = a := ext (by simp) (by simp) (by simp)

theorem append_assoc (a b c : Findings) : a ++ b ++ c = a ++ (b ++ c) := ext (by simp) (by simp) (by simp)

end Findings

namespace Tree

/-- To show something of all nodes, it may be supposed of the nodes directly below. -/
theorem Node.induct {P : Node → Prop} (h : ∀ label children, (∀ c ∈ children, P c) → P (.mk label children)) :
    ∀ n, P n :=
  @Node.rec P (fun ns => ∀ c ∈ ns, P c) h (fun _ hc => (nomatch hc)) fun _ _ hn hns c hc => by
    rcases List.mem_cons.mp hc with rfl | hc
    · exact hn
    · exact hns c hc

/-- A node with those of its siblings that come before it. -/
structure Step where
  node : Node
  earlier : List Node

/-- A node in a tree. -/
structure Place where
  /-- The nodes around it, the outermost first. -/
  outer : List Step
  here : Step

namespace Place

def node (p : Place) : Node := p.here.node

/-- The place as it is seen from one step further out. -/
def within (s : Step) (p : Place) : Place := ⟨s :: p.outer, p.here⟩

end Place

mutual

/-- The places of a node and of all nodes below, each before those below it. -/
def places (earlier : List Node) : Node → List Place
  | .mk label children =>
    ⟨[], ⟨.mk label children, earlier⟩⟩ :: (placesAll [] children).map (.within ⟨.mk label children, earlier⟩)

/-- The places of siblings and of all nodes below, where `earlier` come before them. -/
def placesAll (earlier : List Node) : List Node → List Place
  | [] => []
  | n :: ns => places earlier n ++ placesAll (earlier ++ [n]) ns

end

theorem mem_placesAll {p : Place} {earlier ns : List Node} (h : p ∈ placesAll earlier ns) :
    ∃ n ∈ ns, ∃ before, p ∈ places before n := by
  induction ns generalizing earlier with
  | nil => cases h
  | cons n ns ih =>
    rw [placesAll] at h
    rcases List.mem_append.mp h with h | h
    · exact ⟨n, List.mem_cons_self, earlier, h⟩
    · obtain ⟨m, hm, hp⟩ := ih h
      exact ⟨m, List.mem_cons_of_mem _ hm, hp⟩

/-! ### What is collected -/

section
variable {α β : Type} (f : α → Findings)

theorem collect_append (l m : List α) : collect f (l ++ m) = collect f l ++ collect f m := by
  induction l with
  | nil => rfl
  | cons a l ih => rw [List.cons_append, collect, collect, ih, Findings.append_assoc]

theorem collect_map (g : β → α) (l : List β) : collect f (l.map g) = collect (fun b => f (g b)) l := by
  induction l with
  | nil => rfl
  | cons b l ih => rw [List.map_cons, collect, collect, ih]

theorem collect_nothing {f : α → Findings} {l : List α} (h : ∀ a ∈ l, f a = {}) : collect f l = {} := by
  induction l with
  | nil => rfl
  | cons a l ih =>
    rw [collect, h a List.mem_cons_self, ih fun b hb => h b (List.mem_cons_of_mem _ hb), Findings.empty_append]

@[simp] theorem symbols_collect (l : List α) : (collect f l).symbols = l.flatMap fun a => (f a).symbols := by
  induction l with
  | nil => rfl
  | cons a l ih => rw [collect, Findings.symbols_append, ih, List.flatMap_cons]

@[simp] theorem imports_collect (l : List α) : (collect f l).imports = l.flatMap fun a => (f a).imports := by
  induction l with
  | nil => rfl
  | cons a l ih => rw [collect, Findings.imports_append, ih, List.flatMap_cons]

@[simp] theorem calls_collect (l : List α) : (collect f l).calls = l.flatMap fun a => (f a).calls := by
  induction l with
  | nil => rfl
  | cons a l ih => rw [collect, Findings.calls_append, ih, List.flatMap_cons]

end

/-! ### Going down -/

/-- Whether the child is one of those that are walked. -/
def Descent.takes : Descent → Step → Bool
  | .stop, _ => false
  | .all, _ => true
  | .ofKind kind, s => s.node.kind == kind
  | .ofField field, s => s.node.label.field == field && s.earlier.all (·.label.field != field)

/-- What a walk knows inside a node. -/
structure Level where
  /-- The kind of the node. -/
  kind : String
  scope : Scope
  descent : Descent

namespace Dialect
variable (d : Dialect) (source : String)

/-- The namespace for the rest of a file that the child is in: the last one that it or a sibling before it opens. -/
def space? (s : Step) : Option String := (s.node :: s.earlier.reverse).findSome? (d.siblingSpace? source)

/-- The scope of a child. -/
def scopeAt (l : Level) (s : Step) : Scope :=
  match l.descent with
  | .all => ((d.space? source s).map l.scope.enterSpace).getD l.scope
  | _ => l.scope

/-- What a walk knows inside a child. -/
def into (l : Level) (s : Step) : Level :=
  let visit := d.visit source l.kind s.node (d.scopeAt source l s)
  ⟨s.node.kind, (d.scopeAt source l s).enter visit.opening, visit.descent⟩

/-- What a walk knows around a node that it comes down to. -/
def reach? : Level → List Step → Step → Option Level
  | l, [], here => if l.descent.takes here then some l else none
  | l, s :: outer, here => if l.descent.takes s then reach? (d.into source l s) outer here else none

/-- What is found at a place by a walk that comes down to it, nothing if it does not. -/
def foundFrom (l : Level) (outer : List Step) (here : Step) : Findings :=
  given (d.reach? source l outer here) fun m => (d.visit source m.kind here.node (d.scopeAt source m here)).found

/-- What a walk knows before the first step. -/
def top (root : Node) : Level := ⟨if d.rootHoldsOnly then root.kind else "", .top, .all⟩

/-- The places of a tree that are of interest. -/
def placesOf (root : Node) : List Place := if d.rootHoldsOnly then placesAll [] root.children else places [] root

/-- What is found at a place of a tree. -/
def foundAt (root : Node) (p : Place) : Findings := d.foundFrom source (d.top root) p.outer p.here

variable {d source} {l : Level} {n : Node} {earlier : List Node} {s : Step}

theorem foundFrom_missed (h : l.descent.takes ⟨n, earlier⟩ = false) :
    collect (fun p => d.foundFrom source l p.outer p.here) (places earlier n) = {} := by
  obtain ⟨label, children⟩ := n
  refine collect_nothing fun p hp => ?_
  rw [places] at hp
  rcases List.mem_cons.mp hp with rfl | hp
  · rw [foundFrom, reach?, h]
    rfl
  · obtain ⟨q, -, rfl⟩ := List.mem_map.mp hp
    rw [Place.within, foundFrom, reach?, h]
    rfl

theorem foundFrom_missed_all {ns : List Node} (h : ∀ s, l.descent.takes s = false) :
    collect (fun p => d.foundFrom source l p.outer p.here) (placesAll earlier ns) = {} := by
  induction ns generalizing earlier with
  | nil => rfl
  | cons n ns ih => rw [placesAll, collect_append, foundFrom_missed (h _), ih, Findings.empty_append]

/-! ### A walk, node by node -/

/-- What a walk finds below a node that it comes to is what it finds at the places there. -/
def Covers (d : Dialect) (source : String) (n : Node) : Prop :=
  ∀ (l : Level) (earlier : List Node), l.descent.takes ⟨n, earlier⟩ = true →
    d.walk source l.kind (d.scopeAt source l ⟨n, earlier⟩) n =
      collect (fun p => d.foundFrom source l p.outer p.here) (places earlier n)

theorem walkAll_eq (l : Level) (earlier ns : List Node) (h : ∀ c ∈ ns, d.Covers source c) (hl : l.descent = .all) :
    d.walkAll source l.kind l.scope (((earlier.reverse.findSome? (d.siblingSpace? source)).map l.scope.enterSpace).getD
        l.scope) ns =
      collect (fun p => d.foundFrom source l p.outer p.here) (placesAll earlier ns) := by
  induction ns generalizing earlier with
  | nil => rfl
  | cons n ns ih =>
    have htakes : l.descent.takes ⟨n, earlier⟩ = true := by rw [hl]; rfl
    have hrest := ih (earlier ++ [n]) fun c hc => h c (List.mem_cons_of_mem _ hc)
    rw [placesAll, collect_append, ← h n List.mem_cons_self l earlier htakes, ← hrest, walkAll, scopeAt, hl]
    -- A node that opens a namespace for its siblings is in it too, and otherwise stands in the one before.
    cases hspace : d.siblingSpace? source n <;> simp [space?, hspace]

theorem walkKind_eq (l : Level) (earlier ns : List Node) {kind : String} (h : ∀ c ∈ ns, d.Covers source c)
    (hl : l.descent = .ofKind kind) :
    d.walkKind source l.kind l.scope kind ns =
      collect (fun p => d.foundFrom source l p.outer p.here) (placesAll earlier ns) := by
  induction ns generalizing earlier with
  | nil => rfl
  | cons n ns ih =>
    have hrest := ih (earlier ++ [n]) fun c hc => h c (List.mem_cons_of_mem _ hc)
    have htakes : l.descent.takes ⟨n, earlier⟩ = (n.kind == kind) := by rw [hl]; rfl
    have hscope : d.scopeAt source l ⟨n, earlier⟩ = l.scope := by rw [scopeAt, hl]
    rw [placesAll, collect_append, ← hrest, walkKind]
    split
    · next hkind =>
      rw [← h n List.mem_cons_self l earlier (htakes.trans hkind), hscope]
    · next hkind =>
      rw [foundFrom_missed (htakes.trans (Bool.eq_false_iff.mpr hkind)), Findings.empty_append]

theorem walkField_past {ns : List Node} {field : String} (hl : l.descent = .ofField field)
    (hpast : earlier.any (·.label.field == field) = true) :
    collect (fun p => d.foundFrom source l p.outer p.here) (placesAll earlier ns) = {} := by
  induction ns generalizing earlier with
  | nil => rfl
  | cons n ns ih =>
    have htakes : l.descent.takes ⟨n, earlier⟩ = false := by
      rw [hl, Descent.takes, Bool.and_eq_false_iff, List.all_eq_not_any_not]
      simpa [bne] using .inr (by simpa using hpast)
    rw [placesAll, collect_append, foundFrom_missed htakes, ih (by simp [hpast]), Findings.empty_append]

theorem walkField_eq (l : Level) (earlier ns : List Node) {field : String} (h : ∀ c ∈ ns, d.Covers source c)
    (hl : l.descent = .ofField field) (hnone : earlier.all (·.label.field != field) = true) :
    d.walkField source l.kind l.scope field ns =
      collect (fun p => d.foundFrom source l p.outer p.here) (placesAll earlier ns) := by
  induction ns generalizing earlier with
  | nil => rfl
  | cons n ns ih =>
    have htakes : l.descent.takes ⟨n, earlier⟩ = (n.label.field == field) := by
      rw [hl, Descent.takes, hnone, Bool.and_true]
    have hscope : d.scopeAt source l ⟨n, earlier⟩ = l.scope := by rw [scopeAt, hl]
    rw [placesAll, collect_append, walkField]
    split
    · next hfield =>
      rw [← h n List.mem_cons_self l earlier (htakes.trans hfield), hscope,
        walkField_past hl (by simp [hfield]), Findings.append_empty]
    · next hfield =>
      rw [foundFrom_missed (htakes.trans (Bool.eq_false_iff.mpr hfield)), Findings.empty_append]
      exact ih (earlier ++ [n]) (fun c hc => h c (List.mem_cons_of_mem _ hc)) (by simpa [hnone] using hfield)

theorem covers (d : Dialect) (source : String) : ∀ n, d.Covers source n := by
  refine Node.induct fun label children ih l earlier htakes => ?_
  have hbelow : collect (fun p : Place => d.foundFrom source l p.outer p.here)
        ((placesAll [] children).map (Place.within ⟨.mk label children, earlier⟩)) =
      collect (fun p : Place => d.foundFrom source (d.into source l ⟨.mk label children, earlier⟩) p.outer p.here)
        (placesAll [] children) := by
    rw [collect_map]
    refine congrArg (collect · _) (funext fun p => ?_)
    rw [Place.within, foundFrom, reach?, htakes]
    rfl
  rw [places, collect, hbelow, foundFrom, reach?, htakes, if_pos rfl, given, walk]
  refine congrArg _ ?_
  -- From here on only the level inside the node matters, and each way of going on is one case.
  generalize hinner : d.into source l ⟨.mk label children, earlier⟩ = inner
  have hkind : label.kind = inner.kind := by rw [← hinner]; rfl
  have hscope : (d.scopeAt source l ⟨.mk label children, earlier⟩).enter
      (d.visit source l.kind (.mk label children) (d.scopeAt source l ⟨.mk label children, earlier⟩)).opening =
        inner.scope := by rw [← hinner]; rfl
  rw [hkind, hscope]
  cases hdescent : (d.visit source l.kind (.mk label children)
    (d.scopeAt source l ⟨.mk label children, earlier⟩)).descent
  all_goals
    have hinside := (congrArg Level.descent hinner).symm.trans hdescent
  · exact (foundFrom_missed_all fun s => by rw [hinside]; rfl).symm
  · exact walkAll_eq inner [] children ih hinside
  · exact walkKind_eq inner [] children ih hinside
  · exact walkField_eq inner [] children ih hinside rfl

/-- What is found in a tree is what is found at its places, in their order. -/
theorem findings_eq (root : Node) (h : d.rootHoldsOnly = true ∨ ∀ n, d.siblingSpace? source n = none) :
    d.findings source root = collect (d.foundAt source root) (d.placesOf root) := by
  unfold findings placesOf
  split
  · next hroot =>
    have hall := walkAll_eq (d.top root) [] root.children (fun c _ => covers d source c) rfl
    rw [top, if_pos hroot] at hall
    rwa [funext fun p => show d.foundAt source root p = _ by rw [foundAt, top, if_pos hroot]]
  · next hroot =>
    have hone := covers d source root (d.top root) [] rfl
    have hnone : d.siblingSpace? source root = none := h.resolve_left hroot root
    have hscope : d.scopeAt source (d.top root) ⟨root, []⟩ = .top := by simp [scopeAt, top, space?, hnone]
    rw [hscope, top, if_neg hroot] at hone
    rwa [funext fun p => show d.foundAt source root p = _ by rw [foundAt, top, if_neg hroot]]

end Dialect
end Tree
end SymbolGraph
