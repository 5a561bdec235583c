import SymbolGraph.Proofs.Grammars

/-! Qualified names and locals. The scope that a walk has come to at a place is told by the nodes around the place:
    its qualifier joins the names of types and namespaces, from the outermost on, and it is inside a function if of
    functions and bodies of types the innermost is a function. -/

namespace SymbolGraph

open SymbolGraph.Tree

/-- The name after the name of what it is in, if there is any. -/
def joined (space name : String) : String := if space.isEmpty then name else space ++ "." ++ name

/-- The name after the names of what it is in, the outermost first. -/
def qualified (names : List String) (name : String) : String := (names ++ [name]).foldl joined ""

namespace Opening

/-- The name that an opening adds to those before it. -/
def name? : Opening → Option String
  | type name => some name
  | space name => some name
  | _ => none

/-- Whether it decides what is local inside. -/
def bounds : Opening → Bool
  | function => true
  | type _ => true
  | _ => false

end Opening

namespace Tree.Grammar
variable (g : Grammar) (source : String)

/-- The namespace for the rest of a file that a node is in: the last one that it or a sibling before it opens. -/
def space? (s : Step) : Option String := (s.node :: s.earlier.reverse).findSome? (g.fileSpace? source)

/-- The names that a node adds to those of the nodes around it. -/
def names (s : Step) : List String := (g.space? source s).toList ++ (g.opens source s.node).name?.toList

/-- The names of the types and namespaces around a place, the outermost first. -/
def outerNames (p : Place) : List String := p.outer.flatMap (g.names source) ++ (g.space? source p.here).toList

/-- Of the functions and bodies of types around a place the innermost. -/
def innermost? (p : Place) : Option Opening :=
  (p.outer.reverse.map fun s => g.opens source s.node).find? Opening.bounds

end Tree.Grammar

/-! ### Scopes -/

namespace Scope

/-- Nothing directly inside a type is inside a function. -/
def Sensible (s : Scope) : Prop := s.inTypeBody = true → s.insideFunction = false

/-- Whether names are local inside an opening. -/
def localIn (isLocal : Bool) : Opening → Bool
  | .function => true
  | .type _ => false
  | _ => isLocal

variable {s : Scope}

theorem qualify_eq (name : String) : s.qualify name = joined s.qualifier name := rfl

theorem top_sensible : top.Sensible := fun hbody => (nomatch hbody)

theorem enter_qualifier (o : Opening) : (s.enter o).qualifier = o.name?.toList.foldl joined s.qualifier := by
  cases o <;> rfl

theorem enter_insideFunction (o : Opening) : (s.enter o).insideFunction = localIn s.insideFunction o := by
  cases o <;> rfl

theorem Sensible.enter (h : s.Sensible) (o : Opening) : (s.enter o).Sensible := by
  cases o with
  | same => exact h
  | function => exact fun hbody => (nomatch hbody)
  | type name => exact fun _ => rfl
  | space name => exact fun hbody => (nomatch hbody)

end Scope

/-- What is local is settled by the last opening that bounds it. -/
theorem foldl_localIn (isLocal : Bool) (os : List Opening) :
    os.foldl Scope.localIn isLocal = ((os.reverse.find? Opening.bounds).map (Scope.localIn isLocal)).getD isLocal := by
  induction os generalizing isLocal with
  | nil => rfl
  | cons o os ih =>
    rw [List.foldl_cons, ih, List.reverse_cons, List.find?_append]
    cases hfound : os.reverse.find? Opening.bounds with
    | none => cases o <;> rfl
    | some inner =>
      -- What the outer one says is of no account further in.
      have hbounds := List.find?_some hfound
      cases inner with
      | function | type => rfl
      | same | space => cases hbounds

/-! ### Scopes on the way down -/

namespace Tree

/-- Only where all children are walked can one of them open a namespace for those after it. -/
def Level.Spaced (g : Grammar) (l : Level) : Prop := l.descent = .all ∨ l.descent = .stop ∨ g.fileSpaces = []

/-- The scope at a place that a walk has come down to. -/
structure ScopeAt (g : Grammar) (source : String) (start : Scope) (outer : List Step) (here : Step)
    (scope : Scope) : Prop where
  sensible : scope.Sensible
  qualifier : scope.qualifier = (g.outerNames source ⟨outer, here⟩).foldl joined start.qualifier
  insideFunction : scope.insideFunction =
    (outer.map fun s => g.opens source s.node).foldl Scope.localIn start.insideFunction

theorem Grammar.descent_cases {g : Grammar} {source parentKind : String} {n : Node} (h : g.bindings = []) :
    g.descent source parentKind n = .all ∨ g.descent source parentKind n = .stop := by
  unfold descent enters
  split
  · exact .inr rfl
  · split
    · exact .inr rfl
    · simp [h]

namespace Dialect.Follows
variable {d : Dialect} {g : Grammar} {source : String} {l m : Level} {s here : Step} {outer : List Step}

theorem space?_eq (h : d.Follows g) (s : Step) : d.space? source s = g.space? source s := by
  rw [space?, Grammar.space?, funext (h.space source)]

theorem scopeAt_eq (h : d.Follows g) (hl : l.Spaced g) (htakes : l.descent.takes s = true) :
    d.scopeAt source l s = ((g.space? source s).map l.scope.enterSpace).getD l.scope := by
  have hnone : g.fileSpaces = [] → g.space? source s = none := fun hspaces => by
    rw [Grammar.space?, List.findSome?_eq_none_iff]
    simp [Grammar.fileSpace?, hspaces]
  rw [scopeAt, h.space?_eq]
  rcases hl with hl | hl | hl
  · rw [hl]
  · rw [hl] at htakes
    cases htakes
  · rw [hnone hl]
    cases l.descent <;> rfl

theorem into_spaced (h : d.Follows g) (hg : g.fileSpaces = [] ∨ g.bindings = []) : (d.into source l s).Spaced g := by
  rcases hg with hspaces | hbindings
  · exact .inr (.inr hspaces)
  · rw [Level.Spaced, into, h.descent]
    rcases Grammar.descent_cases hbindings with hall | hstop
    · exact .inl hall
    · exact .inr (.inl hstop)

theorem descent_ne_stop (h : d.reach? source l outer here = some m) : l.descent ≠ .stop := fun hstop => by
  cases outer <;> simp [reach?, hstop, Descent.takes] at h

/-- A child is in the namespace for the rest of the file, besides what its parent opens. -/
theorem scopeAt_child (h : d.Follows g) (hl : l.Spaced g) (htakes : l.descent.takes s = true)
    (hscope : l.scope.Sensible) : ScopeAt g source l.scope [] s (d.scopeAt source l s) := by
  rw [h.scopeAt_eq hl htakes]
  cases hspace : g.space? source s with
  | none => exact ⟨hscope, by simp [Grammar.outerNames, hspace], rfl⟩
  | some name => exact ⟨fun hbody => (nomatch hbody), by simp [Grammar.outerNames, hspace]; rfl, rfl⟩

theorem scopeAt_reached (h : d.Follows g) (hg : g.fileSpaces = [] ∨ g.bindings = []) (hl : l.Spaced g)
    (hscope : l.scope.Sensible) (hreach : d.reach? source l outer here = some m) :
    ScopeAt g source l.scope outer here (d.scopeAt source m here) := by
  -- Down the ancestors, outermost first: each one enters its scope, and the rest starts from there.
  induction outer generalizing l with
  | nil =>
    rw [reach?] at hreach
    split at hreach
    · next htakes =>
      obtain rfl := Option.some.inj hreach
      exact h.scopeAt_child hl htakes hscope
    · cases hreach
  | cons s outer ih =>
    rw [reach?] at hreach
    split at hreach
    · next htakes =>
      have hchild : ScopeAt g source l.scope [] s (d.scopeAt source l s) := h.scopeAt_child hl htakes hscope
      obtain ⟨hsensible, hqualifier, hinside⟩ := hchild
      have hopening : (d.visit source l.kind s.node (d.scopeAt source l s)).opening = g.opens source s.node :=
        h.opening source l.kind s.node _ (h.descent source l.kind s.node _ ▸ descent_ne_stop hreach)
      have hinner : (d.into source l s).scope = (d.scopeAt source l s).enter (g.opens source s.node) := by
        rw [into, hopening]
      obtain ⟨hs, hq, hi⟩ := ih (h.into_spaced hg) (hinner ▸ hsensible.enter _) hreach
      refine ⟨hs, ?_, ?_⟩
      · rw [hq, hinner, Scope.enter_qualifier, hqualifier]
        simp [Grammar.outerNames, Grammar.names]
      · rw [hi, hinner, Scope.enter_insideFunction, hinside]
        rfl
    · cases hreach

end Dialect.Follows
end Tree

namespace Language
variable (language : Language) (source : String) (root : Node)

theorem scope_foundAt {p : Tree.Place} {s : Symbol} (hs : s ∈ (language.dialect.foundAt source root p).symbols) :
    ∃ scope, ScopeAt language.grammar source .top p.outer p.here scope ∧ language.grammar.Declares p.node s ∧
      s.fqname = scope.qualify s.name ∧ (s.IsBinding → scope.insideFunction = false) := by
  rw [Dialect.foundAt, Dialect.foundFrom, symbols_given] at hs
  obtain ⟨m, hreach, hs⟩ := List.mem_flatMap.mp hs
  obtain ⟨hdeclares, hname, hlocal⟩ := language.dialect_follows.owned source m.kind p.node _ s hs
  have hscope := language.dialect_follows.scopeAt_reached language.fileSpaces_or_bindings (.inl rfl) Scope.top_sensible
    (Option.mem_toList.mp hreach)
  refine ⟨_, hscope, hdeclares, hname, fun hbinding => ?_⟩
  rcases hlocal hbinding with hinside | hbody
  · exact hinside
  · exact hscope.sensible hbody

/-- The symbols of a tree are those of its places, one place after the other. A place has symbols that its node
    declares. Each one's qualified name is told by the types and namespaces around the place, and if it is a variable or
    a constant, the innermost function or body of a type around the place is the body of a type, if there is any. -/
theorem qualified_names_follow_from_ancestors :
    (language.dialect.findings source root).symbols =
        (language.dialect.placesOf root).flatMap (fun p => (language.dialect.foundAt source root p).symbols) ∧
      ∀ p ∈ language.dialect.placesOf root, ∀ s ∈ (language.dialect.foundAt source root p).symbols,
        language.grammar.Declares p.node s ∧
        s.fqname = qualified (language.grammar.outerNames source p) s.name ∧
        (s.IsBinding → ∀ o, language.grammar.innermost? source p = some o → ∃ name, o = .type name) := by
  refine ⟨by rw [language.findings_eq, symbols_collect], fun p _ s hs => ?_⟩
  obtain ⟨scope, hscope, hdeclares, hname, hlocal⟩ := language.scope_foundAt source root hs
  refine ⟨hdeclares, ?_, fun hbinding o ho => ?_⟩
  · rw [hname, Scope.qualify_eq, hscope.qualifier, qualified, List.foldl_append]
    rfl
  · have hinside := hscope.insideFunction.symm.trans (hlocal hbinding)
    rw [foldl_localIn, ← List.map_reverse, show (p.outer.reverse.map _).find? _ = some o from ho] at hinside
    have hbounds := List.find?_some ho
    cases o with
    | type name => exact ⟨name, rfl⟩
    | function => cases hinside
    | same | space => cases hbounds

end Language
end SymbolGraph
