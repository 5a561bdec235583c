import Mathlib.Data.List.Pairwise
import SymbolGraph.Index.Pending
import SymbolGraph.Proofs.CallSites
import SymbolGraph.Proofs.Snapshot

/-! The declaration that a call belongs to. A walk comes to a node before it comes to those below it, and a node
    declares itself, or its declarators before anything in them is come to. So of two declarations of a tree the one
    that is listed first holds all of the other one or nothing of it, and the first around a call is the widest. -/

namespace SymbolGraph

open SymbolGraph.Tree

namespace Span
variable {s t u : Span}

theorem contains_iff : s.contains t = true ↔ s.start ≤ t.start ∧ t.stop ≤ s.stop := by simp [contains]

theorem contains_refl (s : Span) : s.contains s = true := contains_iff.mpr ⟨Nat.le_refl _, Nat.le_refl _⟩

theorem contains_trans (hst : s.contains t = true) (htu : t.contains u = true) : s.contains u = true := by
  rw [contains_iff] at hst htu ⊢
  omega

/-- The spans share no byte. -/
def Apart (s t : Span) : Prop := s.stop ≤ t.start ∨ t.stop ≤ s.start

theorem Apart.symm (h : s.Apart t) : t.Apart s := Or.symm h

theorem Apart.shrink {s' t' : Span} (h : s.Apart t) (hs : s.contains s' = true) (ht : t.contains t' = true) :
    s'.Apart t' := by
  rw [contains_iff] at hs ht
  unfold Apart at h ⊢
  omega

/-- The span holds all of the other one or no byte of it. -/
def TakesWhole (s t : Span) : Prop := s.contains t = true ∨ s.Apart t

theorem TakesWhole.shrink (h : s.TakesWhole t) (ht : t.contains u = true) : s.TakesWhole u :=
  h.imp (fun hst => contains_trans hst ht) fun hapart => hapart.shrink (contains_refl s) ht

/-- Where each span takes those after it whole, the first around something is the widest. -/
theorem widest_of_find? {l : List Span} (h : l.Pairwise TakesWhole) {c : Span} (hc : c.start < c.stop)
    (hs : l.find? (·.contains c) = some s) (ht : t ∈ l) (htc : t.contains c = true) : s.contains t = true := by
  obtain ⟨hsc, before, after, rfl, hbefore⟩ := List.find?_eq_some_iff_append.mp hs
  rcases List.mem_append.mp ht with hmem | hmem
  · simpa [htc] using hbefore t hmem
  · rcases List.mem_cons.mp hmem with rfl | hmem
    · exact contains_refl t
    · obtain ⟨-, hpairs, -⟩ := List.pairwise_append.mp h
      refine (List.rel_of_pairwise_cons hpairs hmem).resolve_right fun hapart => ?_
      rw [contains_iff] at hsc htc
      unfold Apart at hapart
      omega

end Span

namespace Tree

/-! ### Trees whose ranges lie in one another -/

/-- The range of a node holds those of the nodes below, and a node ends before its later siblings start. -/
inductive Node.Nested : Node → Prop
  | mk {label : Label} {children : List Node} (inside : ∀ c ∈ children, label.span.contains c.span = true)
      (ordered : children.Pairwise fun a b => a.span.stop ≤ b.span.start) (nested : ∀ c ∈ children, Nested c) :
      Nested (.mk label children)

namespace Node.Nested
variable {n c : Node}

theorem inside (h : n.Nested) (hc : c ∈ n.children) : n.span.contains c.span = true := by
  cases h with
  | mk inside ordered nested => exact inside c hc

theorem ordered (h : n.Nested) : n.children.Pairwise fun a b => a.span.stop ≤ b.span.start := by
  cases h with
  | mk inside ordered nested => exact ordered

theorem child (h : n.Nested) (hc : c ∈ n.children) : c.Nested := by
  cases h with
  | mk inside ordered nested => exact nested c hc

end Node.Nested

section
variable {a b n : Node} {ns earlier : List Node} {p : Place}

/-- Different siblings share no byte. -/
theorem eq_or_apart (h : ns.Pairwise fun a b => a.span.stop ≤ b.span.start) (ha : a ∈ ns) (hb : b ∈ ns) :
    a = b ∨ a.span.Apart b.span := by
  induction ns with
  | nil => cases ha
  | cons n ns ih =>
    obtain ⟨hn, hns⟩ := List.pairwise_cons.mp h
    rcases List.mem_cons.mp ha with rfl | ha' <;> rcases List.mem_cons.mp hb with rfl | hb'
    · exact .inl rfl
    · exact .inr (.inl (hn b hb'))
    · exact .inr (.inr (hn a ha'))
    · exact ih hns ha' hb'

theorem Node.Nested.places : ∀ (n : Node) (earlier : List Node), n.Nested →
    ∀ p ∈ Tree.places earlier n, n.span.contains p.node.span = true ∧ p.node.Nested := by
  refine Node.induct fun label children ih earlier h p hp => ?_
  rw [Tree.places] at hp
  rcases List.mem_cons.mp hp with rfl | hp
  · exact ⟨Span.contains_refl _, h⟩
  · obtain ⟨q, hq, rfl⟩ := List.mem_map.mp hp
    obtain ⟨c, hc, before, hq⟩ := mem_placesAll hq
    obtain ⟨hinside, hnested⟩ := ih c hc before (h.child hc) q hq
    exact ⟨Span.contains_trans (h.inside hc) hinside, hnested⟩

/-- A sibling takes each node whole that is below it or a sibling. -/
theorem takesWhole_below (h : ns.Pairwise fun a b => a.span.stop ≤ b.span.start) (hns : ∀ c ∈ ns, c.Nested)
    (ha : a ∈ ns) (hp : p ∈ placesAll earlier ns) : a.span.TakesWhole p.node.span := by
  obtain ⟨b, hb, before, hp⟩ := mem_placesAll hp
  have hinside := (Node.Nested.places b before (hns b hb) p hp).1
  rcases eq_or_apart h ha hb with rfl | hapart
  · exact .inl hinside
  · exact .inr (hapart.shrink (Span.contains_refl _) hinside)

/-! ### What the nodes of a tree declare -/

/-- The spans that a node declares are its own, or those of some of its children, or those of some nodes below a child
    that declares nothing. -/
inductive Origin (quiet : Node → Prop) (n : Node) (spans : List Span) : Prop
  | own (h : ∀ s ∈ spans, s = n.span)
  | children (h : spans.Sublist (n.children.map Node.span))
  | grandchildren {c : Node} (hc : c ∈ n.children) (hquiet : quiet c) (h : spans.Sublist (c.children.map Node.span))

/-- A place declares spans that have an origin, and none if its node is one that declares nothing. -/
structure Declares (quiet : Node → Prop) (spans : Place → List Span) (p : Place) : Prop where
  origin : Origin quiet p.node (spans p)
  silent : quiet p.node → spans p = []

variable {quiet : Node → Prop} {spans : Place → List Span} {s t : Span}

theorem Origin.inside {l : List Span} (h : Origin quiet n l) (hn : n.Nested) (hs : s ∈ l) :
    n.span.contains s = true := by
  cases h with
  | own h => exact h s hs ▸ Span.contains_refl _
  | children h =>
    obtain ⟨c, hc, rfl⟩ := List.mem_map.mp (h.subset hs)
    exact hn.inside hc
  | grandchildren hc hquiet h =>
    obtain ⟨d, hd, rfl⟩ := List.mem_map.mp (h.subset hs)
    exact Span.contains_trans (hn.inside hc) ((hn.child hc).inside hd)

/-- What one node declares is a repetition or apart. -/
theorem Origin.pairwise {l : List Span} (h : Origin quiet n l) (hn : n.Nested) : l.Pairwise Span.TakesWhole := by
  have hsiblings : ∀ ns : List Node, (ns.Pairwise fun a b => a.span.stop ≤ b.span.start) →
      (ns.map Node.span).Pairwise Span.TakesWhole :=
    fun ns hns => List.pairwise_map.mpr (hns.imp fun hab => .inr (.inl hab))
  cases h with
  | own h =>
    refine List.pairwise_of_forall_mem_list fun a ha b hb => .inl ?_
    rw [h a ha, h b hb]
    exact Span.contains_refl _
  | children h => exact (hsiblings _ hn.ordered).sublist h
  | grandchildren hc hquiet h => exact (hsiblings _ (hn.child hc).ordered).sublist h

/-- What a node declares takes whole what is declared below. -/
theorem Origin.takesWhole {l : List Span} (h : Origin quiet n l) (hn : n.Nested) {step : Step}
    (hbelow : ∀ q ∈ placesAll [] n.children, Declares quiet spans (q.within step)) (hs : s ∈ l)
    (hp : p ∈ placesAll [] n.children) (ht : t ∈ spans (p.within step)) : s.TakesWhole t := by
  have hnested : ∀ c ∈ n.children, c.Nested := fun c hc => hn.child hc
  obtain ⟨b, hb, before, hmem⟩ := mem_placesAll hp
  obtain ⟨hchild, hnode⟩ := Node.Nested.places b before (hnested b hb) p hmem
  have hinside : p.node.span.contains t = true := (hbelow p hp).origin.inside hnode ht
  cases h with
  | own h => exact .inl (h s hs ▸ Span.contains_trans (hn.inside hb) (Span.contains_trans hchild hinside))
  | children h =>
    obtain ⟨a, ha, rfl⟩ := List.mem_map.mp (h.subset hs)
    exact (takesWhole_below hn.ordered hnested ha hp).shrink hinside
  | @grandchildren c hc hquiet h =>
    obtain ⟨a, ha, rfl⟩ := List.mem_map.mp (h.subset hs)
    rcases eq_or_apart hn.ordered hc hb with rfl | hapart
    · -- Between the node and its declarators there is only the child that declares nothing.
      obtain ⟨label, children⟩ := c
      rw [places] at hmem
      rcases List.mem_cons.mp hmem with rfl | hmem
      · rw [(hbelow _ hp).silent hquiet] at ht
        cases ht
      · obtain ⟨q, hq, rfl⟩ := List.mem_map.mp hmem
        have hdeclarators := hn.child hc
        exact (takesWhole_below hdeclarators.ordered (fun d hd => hdeclarators.child hd) ha hq).shrink hinside
    · exact .inr (hapart.shrink ((hn.child hc).inside ha) (Span.contains_trans hchild hinside))

/-- Each span that is declared in a tree takes those whole that are declared after it. -/
def Orderly (quiet : Node → Prop) (n : Node) : Prop :=
  ∀ (earlier : List Node) (spans : Place → List Span), (∀ p ∈ places earlier n, Declares quiet spans p) →
    ((places earlier n).flatMap spans).Pairwise Span.TakesWhole

theorem orderly_siblings (h : ns.Pairwise fun a b => a.span.stop ≤ b.span.start)
    (hns : ∀ c ∈ ns, c.Nested ∧ Orderly quiet c) (hspans : ∀ p ∈ placesAll earlier ns, Declares quiet spans p) :
    ((placesAll earlier ns).flatMap spans).Pairwise Span.TakesWhole := by
  induction ns generalizing earlier with
  | nil => exact .nil
  | cons n ns ih =>
    obtain ⟨hn, hrest⟩ := List.pairwise_cons.mp h
    obtain ⟨hnested, horderly⟩ := hns n List.mem_cons_self
    rw [placesAll] at hspans ⊢
    have hfirst := fun p hp => hspans p (List.mem_append_left _ hp)
    have hlater := fun p hp => hspans p (List.mem_append_right _ hp)
    rw [List.flatMap_append, List.pairwise_append]
    refine ⟨horderly earlier spans hfirst, ih hrest (fun c hc => hns c (List.mem_cons_of_mem _ hc)) hlater, ?_⟩
    intro s hs t ht
    obtain ⟨p, hp, hs⟩ := List.mem_flatMap.mp hs
    obtain ⟨q, hq, ht⟩ := List.mem_flatMap.mp ht
    obtain ⟨b, hb, before, hmem⟩ := mem_placesAll hq
    obtain ⟨hin, hnode⟩ := Node.Nested.places n earlier hnested p hp
    obtain ⟨hin', hnode'⟩ := Node.Nested.places b before (hns b (List.mem_cons_of_mem _ hb)).1 q hmem
    have hapart : n.span.Apart b.span := .inl (hn b hb)
    exact .inr (hapart.shrink (Span.contains_trans hin ((hfirst p hp).origin.inside hnode hs))
      (Span.contains_trans hin' ((hlater q hq).origin.inside hnode' ht)))

theorem orderly_of_nested : ∀ n : Node, n.Nested → Orderly quiet n := by
  refine Node.induct fun label children ih h earlier spans hspans => ?_
  rw [places] at hspans ⊢
  have hhere := hspans _ List.mem_cons_self
  have hbelow : ∀ q ∈ placesAll [] children, Declares quiet spans (q.within ⟨.mk label children, earlier⟩) :=
    fun q hq => hspans _ (List.mem_cons_of_mem _ (List.mem_map_of_mem hq))
  rw [List.flatMap_cons, List.flatMap_map, List.pairwise_append]
  refine ⟨hhere.origin.pairwise h, ?_, fun s hs t ht => ?_⟩
  · -- Seen from the node, the places below declare the same spans.
    refine orderly_siblings h.ordered (fun c hc => ⟨h.child hc, ih c hc (h.child hc)⟩) fun q hq => ?_
    exact ⟨(hbelow q hq).origin, (hbelow q hq).silent⟩
  · obtain ⟨q, hq, ht⟩ := List.mem_flatMap.mp ht
    exact hhere.origin.takesWhole h hbelow hs hq ht

theorem Dialect.orderly (d : Dialect) {root : Node} (h : root.Nested)
    (hspans : ∀ p ∈ d.placesOf root, Declares quiet spans p) :
    ((d.placesOf root).flatMap spans).Pairwise Span.TakesWhole := by
  unfold placesOf at hspans ⊢
  split
  · next hroot =>
    rw [if_pos hroot] at hspans
    exact orderly_siblings h.ordered (fun c hc => ⟨h.child hc, orderly_of_nested c (h.child hc)⟩) hspans
  · next hroot =>
    rw [if_neg hroot] at hspans
    exact orderly_of_nested root h [] spans hspans

end

/-! ### Declarators -/

section
variable {source : String} {scope : Scope} {f : Node → Findings} {quiet : Node → Prop}

/-- Each declarator in a list declares itself or nothing. -/
theorem collect_spans (hf : ∀ c, (f c).symbols.map Symbol.span = [] ∨ (f c).symbols.map Symbol.span = [c.span])
    (l : List Node) : ((collect f l).symbols.map Symbol.span).Sublist (l.map Node.span) := by
  induction l with
  | nil => exact .slnil
  | cons c l ih =>
    rw [collect, Findings.symbols_append, List.map_append, List.map_cons]
    rcases hf c with h | h
    · rw [h]
      exact ih.cons _
    · rw [h]
      exact ih.cons_cons _

theorem given_declareOuter_spans (name : Option String) (kind : SymbolKind) (c : Node) :
    (given name fun name => declareOuter scope name kind c).symbols.map Symbol.span = [] ∨
      (given name fun name => declareOuter scope name kind c).symbols.map Symbol.span = [c.span] := by
  cases name with
  | none => exact .inl rfl
  | some name =>
    rw [given, declareOuter]
    split
    · exact .inl rfl
    · exact .inr rfl

/-- A node that is no field declares its own span. -/
theorem Dialect.Follows.origin {d : Dialect} {g : Grammar} (h : d.Follows g) {parentKind : String} {n : Node}
    (hn : g.fields.contains n.kind = false) :
    Origin quiet n ((d.visit source parentKind n scope).found.symbols.map Symbol.span) := by
  refine .own fun s hs => ?_
  obtain ⟨symbol, hsymbol, rfl⟩ := List.mem_map.mp hs
  refine (h.owned source parentKind n scope symbol hsymbol).1.resolve_right fun hfield => ?_
  rw [hn] at hfield
  cases hfield.1

end

end Tree

theorem Java.origin_fields {source parentKind : String} {n : Node} {scope : Scope} {quiet : Node → Prop}
    (h : grammar.fields.contains n.kind = true) :
    Origin quiet n ((dialect.visit source parentKind n scope).found.symbols.map Symbol.span) := by
  have hfound : (dialect.visit source parentKind n scope).found = fields source n scope := by
    have hkind : n.kind = "field_declaration" ∨ n.kind = "constant_declaration" := by simpa [grammar] using h
    rcases hkind with hkind | hkind <;> simp [dialect, visit, typeKind?, hkind]
  rw [hfound]
  refine .children (.trans (collect_spans (fun c => ?_) _) (List.filter_sublist.map _))
  have htext : ∀ kind, (given (c.child? "name") fun name => declareOuter scope (name.text source) kind c) =
      given ((c.child? "name").map (·.text source)) fun name => declareOuter scope name kind c := fun kind => by
    cases c.child? "name" <;> rfl
  rw [htext]
  exact given_declareOuter_spans _ _ c

theorem CSharp.origin_fields {source parentKind : String} {n : Node} {scope : Scope} {quiet : Node → Prop}
    (h : grammar.fields.contains n.kind = true)
    (hquiet : ∀ c : Node, c.kind = "variable_declaration" → quiet c) :
    Origin quiet n ((dialect.visit source parentKind n scope).found.symbols.map Symbol.span) := by
  have hfound : (dialect.visit source parentKind n scope).found = fields source n scope := by
    have hkind : n.kind = "field_declaration" := by simpa [grammar] using h
    simp [dialect, visit, typeKind?, hkind]
  rw [hfound, fields]
  cases hlist : n.childOfKind? "variable_declaration" with
  | none => exact .own (by simp)
  | some list =>
    have hkind : list.kind = "variable_declaration" := by simpa using List.find?_some hlist
    refine .grandchildren (List.mem_of_find?_eq_some hlist) (hquiet list hkind) ?_
    exact .trans (collect_spans (fun c => given_declareOuter_spans _ _ c) _) (List.filter_sublist.map _)

namespace Language
variable (language : Language) (source : String)

/-- Wherever it stands, the node declares nothing. -/
def Quiet (n : Node) : Prop :=
  ∀ parentKind scope, (language.dialect.visit source parentKind n scope).found.symbols = []

theorem origin (parentKind : String) (n : Node) (scope : Scope) :
    Origin (language.Quiet source) n
      ((language.dialect.visit source parentKind n scope).found.symbols.map Symbol.span) := by
  cases hfields : language.grammar.fields.contains n.kind with
  | false => exact language.dialect_follows.origin hfields
  | true =>
    cases language with
    | java => exact Java.origin_fields hfields
    | csharp =>
      refine CSharp.origin_fields hfields fun c hkind parentKind scope => ?_
      simp [dialect, CSharp.dialect, CSharp.visit, CSharp.typeKind?, hkind]
    | typescript | tsx | javascript | python | go | kotlin => cases hfields

/-- Each declaration of a tree takes those whole that are listed after it. -/
theorem symbols_orderly {root : Node} (h : root.Nested) :
    ((language.dialect.findings source root).symbols.map Symbol.span).Pairwise Span.TakesWhole := by
  have hdeclares : ∀ p ∈ language.dialect.placesOf root, Declares (language.Quiet source)
      (fun p => (language.dialect.foundAt source root p).symbols.map Symbol.span) p := fun p _ => by
    unfold Dialect.foundAt Dialect.foundFrom
    cases hreach : language.dialect.reach? source (language.dialect.top root) p.outer p.here with
    | none => exact ⟨.own (by simp [hreach]), fun _ => by simp [hreach]⟩
    | some m =>
      refine ⟨?_, fun hquiet => ?_⟩
      · simpa [hreach, Place.node] using language.origin source m.kind p.node (language.dialect.scopeAt source m p.here)
      · simpa [hreach, Place.node] using hquiet m.kind (language.dialect.scopeAt source m p.here)
  rw [language.findings_eq, symbols_collect, List.map_flatMap]
  exact language.dialect.orderly h hdeclares

end Language

namespace Index
variable {p : Pending} {call : CallSite}

/-- The first node around a call is that of the first symbol around it. -/
theorem Pending.enclosing?_eq_some (hnodes : p.nodes.map (·.2) = p.found.symbols.map Symbol.span) {id : NodeId}
    (h : p.enclosing? call = some id) :
    ∃ s, (s, id) ∈ p.found.symbols.zip (p.nodes.map (·.1)) ∧ s.span.contains call.span = true ∧
      (p.found.symbols.map Symbol.span).find? (·.contains call.span) = some s.span := by
  obtain ⟨⟨id', span⟩, hfind, rfl⟩ := Option.map_eq_some_iff.mp h
  have hspans : (p.found.symbols.map Symbol.span).find? (·.contains call.span) = some span := by
    rw [← hnodes, List.find?_map, Function.comp_def, hfind]
    rfl
  obtain ⟨i, hi, hget⟩ := List.mem_iff_getElem.mp (List.mem_of_find?_eq_some hfind)
  have hlength : p.nodes.length = p.found.symbols.length := by simpa using congrArg List.length hnodes
  have hspan : p.found.symbols[i].span = span := by
    have hmap : (p.found.symbols.map Symbol.span)[i]? = some span := by rw [← hnodes]; simp [hi, hget]
    simpa [hlength ▸ hi] using hmap
  refine ⟨p.found.symbols[i], ?_, hspan ▸ List.find?_some hfind, hspan ▸ hspans⟩
  exact List.mem_iff_getElem.mpr ⟨i, by simpa [hlength] using hlength ▸ hi, by simp [hget]⟩

theorem Pending.enclosing?_eq_none (hnodes : p.nodes.map (·.2) = p.found.symbols.map Symbol.span) :
    p.enclosing? call = none ↔ ∀ s ∈ p.found.symbols, s.span.contains call.span = false := by
  have hspans : (∀ node ∈ p.nodes, node.2.contains call.span = false) ↔
      ∀ span ∈ p.found.symbols.map Symbol.span, span.contains call.span = false := by
    rw [← hnodes, List.forall_mem_map]
  rw [Pending.enclosing?, Option.map_eq_none_iff, List.find?_eq_none]
  simpa using hspans

/-- Where the ranges of a tree lie in one another, a call that is no empty range belongs to a declaration around it that
    holds every other declaration around it, and to none exactly if no declaration is around it. -/
theorem call_belongs_to_widest (language : Language) (source : String) {root : Node} (h : root.Nested) {p : Pending}
    (hfound : p.found = language.dialect.findings source root)
    (hnodes : p.nodes.map (·.2) = p.found.symbols.map Symbol.span) (call : CallSite)
    (hcall : call.span.isEmpty = false) :
    (p.enclosing? call = none ↔ ∀ s ∈ p.found.symbols, s.span.contains call.span = false) ∧
      ∀ id, p.enclosing? call = some id → ∃ s, (s, id) ∈ p.found.symbols.zip (p.nodes.map (·.1)) ∧
        s.span.contains call.span = true ∧
        ∀ other ∈ p.found.symbols, other.span.contains call.span = true → s.span.contains other.span = true := by
  refine ⟨p.enclosing?_eq_none hnodes, fun id hid => ?_⟩
  obtain ⟨s, hmem, haround, hfirst⟩ := p.enclosing?_eq_some hnodes hid
  have horderly : (p.found.symbols.map Symbol.span).Pairwise Span.TakesWhole :=
    hfound ▸ language.symbols_orderly source h
  have hlong : call.span.start < call.span.stop := by
    rw [Span.isEmpty, Span.length, beq_eq_false_iff_ne] at hcall
    omega
  exact ⟨s, hmem, haround, fun other hother => Span.widest_of_find? horderly hlong hfirst (List.mem_map_of_mem hother)⟩

/-- The tree of `class A { int x = f(), y = g(); }`. -/
def classWithFields : Node :=
  .mk { kind := "program", span := ⟨0, 33⟩ } [.mk { kind := "class_declaration", span := ⟨0, 33⟩ }
    [.mk { kind := "identifier", span := ⟨6, 7⟩, field := "name" } [],
     .mk { kind := "class_body", span := ⟨8, 33⟩, field := "body" }
       [.mk { kind := "field_declaration", span := ⟨10, 31⟩ }
         [.mk { kind := "variable_declarator", span := ⟨14, 21⟩, field := "declarator" }
           [.mk { kind := "identifier", span := ⟨14, 15⟩, field := "name" } [],
            .mk { kind := "method_invocation", span := ⟨18, 21⟩, field := "value" }
              [.mk { kind := "identifier", span := ⟨18, 19⟩, field := "name" } []]],
          .mk { kind := "variable_declarator", span := ⟨23, 30⟩, field := "declarator" }
           [.mk { kind := "identifier", span := ⟨23, 24⟩, field := "name" } [],
            .mk { kind := "method_invocation", span := ⟨27, 30⟩, field := "value" }
              [.mk { kind := "identifier", span := ⟨27, 28⟩, field := "name" } []]]]]]]

theorem classWithFields_nested : classWithFields.Nested := by
  have hleaf : ∀ label, Node.Nested (.mk label []) := fun _ => .mk nofun .nil nofun
  have hpair : ∀ {a b : Node}, a.Nested → b.Nested → ∀ c ∈ [a, b], c.Nested := fun ha hb =>
    List.forall_mem_cons.mpr ⟨ha, List.forall_mem_singleton.mpr hb⟩
  refine .mk (by decide) (by decide) (List.forall_mem_singleton.mpr ?_)
  refine .mk (by decide) (by decide) (hpair (hleaf _) ?_)
  refine .mk (by decide) (by decide) (List.forall_mem_singleton.mpr ?_)
  refine .mk (by decide) (by decide) (hpair ?_ ?_)
  all_goals
    refine .mk (by decide) (by decide) (hpair (hleaf _) ?_)
    exact .mk (by decide) (by decide) (List.forall_mem_singleton.mpr (hleaf _))

/-- A call in the second field of a class belongs to the class, which is around the field, and a call behind the
    class to nothing. -/
theorem call_in_field_belongs_to_class :
    let found := Language.java.dialect.findings "class A { int x = f(), y = g(); }" classWithFields
    let p : Pending := ⟨"A.java", "java", found, numberedSpans 1 found.symbols⟩
    found.symbols.map (fun s => (s.name, s.span)) = [("A", ⟨0, 33⟩), ("x", ⟨14, 21⟩), ("y", ⟨23, 30⟩)] ∧
      found.calls = [⟨"f", ⟨18, 21⟩⟩, ⟨"g", ⟨27, 30⟩⟩] ∧ p.enclosing? ⟨"g", ⟨27, 30⟩⟩ = some 1 ∧
      (∃ s, (s, 1) ∈ found.symbols.zip (p.nodes.map (·.1)) ∧ s.span.contains ⟨27, 30⟩ = true ∧
        ∀ other ∈ found.symbols, other.span.contains ⟨27, 30⟩ = true → s.span.contains other.span = true) ∧
      p.enclosing? ⟨"h", ⟨34, 37⟩⟩ = none := by
  intro found p
  have hwidest := call_belongs_to_widest .java "class A { int x = f(), y = g(); }" classWithFields_nested
    (p := p) rfl (numberedSpans_spans 1 found.symbols)
  have hid : p.enclosing? ⟨"g", ⟨27, 30⟩⟩ = some 1 := by decide +kernel
  refine ⟨by decide +kernel, by decide +kernel, hid, ?_, ?_⟩
  · exact (hwidest ⟨"g", ⟨27, 30⟩⟩ rfl).2 1 hid
  · exact (hwidest ⟨"h", ⟨34, 37⟩⟩ rfl).1.mpr (by decide +kernel)

end Index
end SymbolGraph
