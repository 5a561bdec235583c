import Mathlib.Data.List.Basic
import SymbolGraph.Proofs.Grammars

/-! Calls. A walk lists the invocations that it comes down to, each once and in the order of the text. Which those are
    is told by the kinds of the nodes around them: none below an import, and none where a node in between is a leaf or
    a declarator that is gone into for its value alone. -/

namespace SymbolGraph

open SymbolGraph.Tree

namespace Tree.Grammar

/-- Whether a way down leads to a place. `into` says which children of a node are taken. -/
def leadsTo (into : (parentKind : String) → Node → Descent) : (parentKind : String) → Descent → List Step → Step → Bool
  | _, descent, [], here => descent.takes here
  | parentKind, descent, s :: outer, here =>
    descent.takes s && leadsTo into s.node.kind (into parentKind s.node) outer here

variable (g : Grammar) (source : String)

/-- Whether the place is inside an import statement. -/
def underImport (p : Place) : Bool := p.outer.any fun s => g.imports.contains s.node.kind

/-- Whether a node around the place is no import and still not gone into there. -/
def isPassedOver (p : Place) : Bool := !leadsTo (g.enters source) "" .all p.outer p.here

variable {g source} {l : Level} {outer : List Step} {here : Step} {parentKind : String} {descent : Descent}

theorem leadsTo_stop (into : (parentKind : String) → Node → Descent) :
    leadsTo into parentKind .stop outer here = false := by
  cases outer <;> rfl

/-- Imports bar the way, and nothing else that the walk does not enter anyway. -/
theorem leadsTo_descent : leadsTo (g.descent source) parentKind descent outer here =
    (leadsTo (g.enters source) parentKind descent outer here && !g.underImport ⟨outer, here⟩) := by
  induction outer generalizing parentKind descent with
  | nil => simp [leadsTo, underImport]
  | cons s outer ih =>
    rw [leadsTo, leadsTo, Grammar.descent]
    by_cases himport : g.imports.contains s.node.kind = true
    · have hunder : g.underImport ⟨s :: outer, here⟩ = true := by rw [underImport, List.any_cons, himport, Bool.true_or]
      rw [if_pos himport, leadsTo_stop, hunder, Bool.and_false, Bool.not_true, Bool.and_false]
    · have hunder : g.underImport ⟨s :: outer, here⟩ = g.underImport ⟨outer, here⟩ := by
        rw [underImport, List.any_cons, Bool.eq_false_iff.mpr himport, Bool.false_or]
        rfl
      rw [if_neg himport, ih, hunder, Bool.and_assoc]

/-- Without lists of declarators it is of no account what the outermost node is in. -/
theorem leadsTo_top (h : g.bindings = []) (kind : String) :
    leadsTo (g.enters source) kind descent outer here = leadsTo (g.enters source) "" descent outer here := by
  cases outer with
  | nil => rfl
  | cons s outer => simp [leadsTo, enters, h]

end Tree.Grammar

/-! ### What a walk lists -/

namespace Tree.Dialect.Follows
variable {d : Dialect} {g : Grammar} {source : String} {l : Level} {outer : List Step} {here : Step}

theorem reach?_isSome (h : d.Follows g) :
    (d.reach? source l outer here).isSome = Grammar.leadsTo (g.descent source) l.kind l.descent outer here := by
  induction outer generalizing l with
  | nil =>
    rw [reach?, Grammar.leadsTo]
    cases l.descent.takes here <;> rfl
  | cons s outer ih =>
    have hinto : (d.into source l s).descent = g.descent source l.kind s.node := h.descent ..
    rw [reach?, Grammar.leadsTo]
    cases htakes : l.descent.takes s with
    | false => rfl
    | true =>
      rw [if_pos rfl, ih, hinto]
      rfl

theorem calls_foundFrom (h : d.Follows g) : (d.foundFrom source l outer here).calls =
    if Grammar.leadsTo (g.descent source) l.kind l.descent outer here then (g.invocation? source here.node).toList
    else [] := by
  rw [foundFrom, calls_given, ← h.reach?_isSome]
  cases d.reach? source l outer here with
  | none => rfl
  | some m =>
    rw [Option.toList_some, List.flatMap_singleton]
    exact h.calls ..

end Tree.Dialect.Follows

namespace Language
variable (language : Language) (source : String) (root : Node)

theorem top_kind (outer : List Step) (here : Step) :
    Grammar.leadsTo (language.grammar.enters source) (language.dialect.top root).kind .all outer here =
      Grammar.leadsTo (language.grammar.enters source) "" .all outer here := by
  rcases language.rootHoldsOnly_or_bindings with hroot | hbindings
  · rw [Dialect.top, hroot]
    rfl
  · exact Grammar.leadsTo_top hbindings _

/-- The calls of a tree are the invocations at its places, in their order, but for those in imports and those that are
    passed over. -/
theorem calls_are_invocations_gone_into :
    (language.dialect.findings source root).calls =
      (language.dialect.placesOf root).filterMap fun p =>
        if language.grammar.underImport p || language.grammar.isPassedOver source p then none
        else language.grammar.invocation? source p.node := by
  rw [language.findings_eq, calls_collect, List.filterMap_eq_flatMap_toList]
  refine congrArg (List.flatMap · _) (funext fun p => ?_)
  have hstart : (language.dialect.top root).descent = .all := rfl
  rw [Dialect.foundAt, language.dialect_follows.calls_foundFrom, hstart, Grammar.leadsTo_descent, language.top_kind,
    Grammar.isPassedOver]
  cases Grammar.leadsTo (language.grammar.enters source) "" .all p.outer p.here <;>
    cases language.grammar.underImport p <;> rfl

/-- The tree of `enum E { A=f() }`. -/
def computedEnum : Node :=
  .mk ⟨"enum_declaration", ⟨0, 16⟩, true, false, false, ""⟩
    [.mk ⟨"identifier", ⟨5, 6⟩, true, false, false, "name"⟩ [],
     .mk ⟨"enum_body", ⟨7, 16⟩, true, false, false, "body"⟩
       [.mk ⟨"enum_assignment", ⟨9, 14⟩, true, false, false, ""⟩
         [.mk ⟨"call_expression", ⟨11, 14⟩, true, false, false, "value"⟩
           [.mk ⟨"identifier", ⟨11, 12⟩, true, false, false, "function"⟩ []]]]]

/-- The call that gives a member of an enumeration its value is in no import, and is not listed. -/
theorem computed_member_unlisted :
    (typescript.dialect.findings "enum E { A=f() }" computedEnum).calls = [] ∧
      (typescript.dialect.placesOf computedEnum).filterMap (fun p =>
        if typescript.grammar.underImport p then none else typescript.grammar.invocation? "enum E { A=f() }" p.node) =
        [⟨"f", ⟨11, 14⟩⟩] :=
  ⟨(calls_are_invocations_gone_into typescript "enum E { A=f() }" computedEnum).trans (by decide +kernel),
    by decide +kernel⟩

end Language
end SymbolGraph
