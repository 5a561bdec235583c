import Mathlib.Data.List.DropRight
import SymbolGraph.Proofs.QualifiedNames

/-! Declarations without a name. Some kinds of declarations are passed over if their name is blank, or have a word of
    their own in it. The others take the text of a node for their name as it stands, and where that node is missing from
    the source its text is empty. So a symbol has no name exactly where such a node is blank, and a qualified name has
    a gap exactly behind such a name. -/

namespace SymbolGraph

open SymbolGraph.Tree

namespace Text

/-- There is nothing but blanks in the text. -/
def Blank (s : String) : Prop := ∀ c ∈ s.toList, isBlank c = true

instance (s : String) : Decidable (Blank s) := decidable_of_iff (s.toList.all isBlank = true) List.all_eq_true

theorem not_blank_append {a : String} (h : ¬ Blank a) (b : String) : ¬ Blank (a ++ b) := fun hall =>
  h fun c hc => hall c (by rw [String.toList_append]; exact List.mem_append_left _ hc)

/-- What is left of a text without the blanks at either end does not end with one. -/
theorem not_blank_trim {s : String} (h : (trim s).isEmpty = false) : ¬ Blank (trim s) := fun hall => by
  have hne : trimBlank s.toList ≠ [] := fun hnil => by simp [trim, hnil] at h
  have hlast := List.rdropWhile_last_not isBlank (s.toList.dropWhile isBlank) hne
  refine hlast (hall _ ?_)
  rw [trim, String.toList_ofList]
  exact List.getLast_mem hne

end Text

open Text

/-! ### Parts of qualified names -/

theorem foldl_joined_of_ne (names : List String) {s : String} (h : s ≠ "") :
    names.foldl joined s = join '.' (s :: names) := by
  induction names generalizing s with
  | nil => simp [join, joinChars]
  | cons n rest ih =>
    have hjoined : joined s n = s ++ "." ++ n := if_neg (by simpa using h)
    rw [List.foldl_cons, hjoined, ih (by simp [h])]
    cases rest <;> simp [join, joinChars]

/-- A qualified name is the names from the first on that is not empty, with dots between. -/
theorem foldl_joined (names : List String) : names.foldl joined "" = join '.' (names.dropWhile (·.isEmpty)) := by
  induction names with
  | nil => rfl
  | cons n rest ih =>
    have hjoined : joined "" n = n := rfl
    rw [List.foldl_cons, hjoined]
    by_cases hn : n = ""
    · subst hn
      rw [ih, List.dropWhile_cons_of_pos rfl]
    · rw [foldl_joined_of_ne rest hn, List.dropWhile_cons_of_neg (by simpa using hn)]

namespace Tree

/-- The nodes around a place and at it, each with its siblings before it. -/
def Place.around (p : Place) : List Node := (p.outer ++ [p.here]).flatMap fun s => s.node :: s.earlier

/-- The names of what was found come from the bearers: there is one for each, and it is the bearer's text, or there are
    no bearers, and no name is blank. -/
inductive NamedBy (source : String) (bearers : List Node) (f : Findings) : Prop
  | nothing (h : f.symbols = [])
  | texts (h : f.symbols.map (·.name) = bearers.map (·.text source))
  | proper (hnone : bearers = []) (h : ∀ s ∈ f.symbols, ¬ Blank s.name)

namespace NamedBy
variable {source : String} {scope : Scope} {kind : SymbolKind} {n c : Node} {name : String} {f : Findings}
  {bearers : List Node} {α : Type}

/-- A name is blank exactly where something is declared by a blank bearer. -/
theorem blank_iff (h : NamedBy source bearers f) :
    (∃ s ∈ f.symbols, Blank s.name) ↔ f.symbols ≠ [] ∧ ∃ c ∈ bearers, Blank (c.text source) := by
  cases h with
  | nothing h => simp [h]
  | proper hnone h =>
    subst hnone
    simpa using h
  | texts h =>
    have hnames : (∃ s ∈ f.symbols, Blank s.name) ↔ ∃ c ∈ bearers, Blank (c.text source) := by
      have hboth := congrArg (fun names : List String => ∃ name ∈ names, Blank name) h
      simpa using hboth
    refine hnames.trans ⟨fun hc => ⟨fun hnil => ?_, hc⟩, fun hc => hc.2⟩
    obtain ⟨s, hs, -⟩ := hnames.mpr hc
    simp [hnil] at hs

protected theorem declare : NamedBy source [c] (declare scope (c.text source) kind n) := .texts rfl

protected theorem declareOuter : NamedBy source [c] (declareOuter scope (c.text source) kind n) := by
  unfold Tree.declareOuter
  split
  · exact .nothing rfl
  · exact .declare

theorem declare_proper (h : ¬ Blank name) : NamedBy source [] (Tree.declare scope name kind n) :=
  .proper rfl fun s hs => by
    obtain rfl := List.mem_singleton.mp hs
    exact h

protected theorem given {x : Option Node} {f : Node → Findings} (h : ∀ c, x = some c → NamedBy source [c] (f c)) :
    NamedBy source x.toList (given x f) := by
  cases x with
  | none => exact .nothing rfl
  | some c => exact h c rfl

theorem given_text {x : Option Node} {f : String → Findings}
    (h : ∀ c, x = some c → NamedBy source [c] (f (c.text source))) :
    NamedBy source x.toList (Tree.given (x.map (·.text source)) f) := by
  cases x with
  | none => exact .nothing rfl
  | some c => exact h c rfl

theorem given_proper {x : Option α} {f : α → Findings} (h : ∀ a, x = some a → NamedBy source [] (f a)) :
    NamedBy source [] (Tree.given x f) := by
  cases x with
  | none => exact .nothing rfl
  | some a => exact h a rfl

theorem after {a : Findings} (ha : a.symbols = []) (h : NamedBy source bearers f) : NamedBy source bearers (a ++ f) := by
  have hsame : (a ++ f).symbols = f.symbols := by rw [Findings.symbols_append, ha, List.nil_append]
  cases h with
  | nothing h => exact .nothing (hsame ▸ h)
  | texts h => exact .texts (hsame ▸ h)
  | proper hnone h => exact .proper hnone (hsame ▸ h)

/-- Whether declarations outside of functions count is the same for all of a list. -/
theorem collect_given {l : List α} {bearer : α → Option Node} {m : α → Node} :
    NamedBy source (l.filterMap bearer)
      (collect (fun a => Tree.given (bearer a) fun c => Tree.declareOuter scope (c.text source) kind (m a)) l) := by
  by_cases hlocal : scope.insideFunction
  · refine .nothing ?_
    simp [Tree.declareOuter, hlocal]
  · refine .texts ?_
    rw [symbols_collect, List.filterMap_eq_flatMap_toList, List.map_flatMap, List.map_flatMap]
    refine congrArg (List.flatMap · l) (funext fun a => ?_)
    cases bearer a <;> simp [Tree.given, Tree.declareOuter, hlocal, Tree.declare]

theorem collect_outer (l : List Node) :
    NamedBy source l (collect (fun c => Tree.declareOuter scope (c.text source) kind n) l) := by
  have h : NamedBy source (l.filterMap some)
      (collect (fun c => Tree.given (some c) fun c => Tree.declareOuter scope (c.text source) kind n) l) := collect_given
  rwa [List.filterMap_some] at h

end NamedBy

/-- What a node declares is named by its bearers, and so is what it opens: a name that it opens is a bearer's text or
    not blank. -/
structure Dialect.NamedBy (d : Dialect) (g : Grammar) (bearers : Node → List Node) : Prop where
  found source parentKind n scope : Tree.NamedBy source (bearers n) (d.visit source parentKind n scope).found
  opened source n name : (g.opens source n).name? = some name ∨ g.fileSpace? source n = some name → Blank name →
    ∃ c ∈ bearers n, name = c.text source

end Tree

/-! ### Bearers of names -/

theorem proper_of_trim {text name : String}
    (h : (if (trim text).isEmpty = true then none else some (trim text)) = some name) : ¬ Blank name := by
  split at h
  · cases h
  · next hne =>
    cases h
    exact not_blank_trim (Bool.eq_false_iff.mpr hne)

theorem fieldText?_proper {source field name : String} {n : Node} (h : n.fieldText? source field = some name) :
    ¬ Blank name := by
  unfold Node.fieldText? at h
  cases hc : n.child? field with
  | none =>
    rw [hc] at h
    cases h
  | some c =>
    rw [hc] at h
    exact proper_of_trim h

/-- What a node opens has the name of the node. -/
theorem opens_name? {g : Grammar} {source name : String} {n : Node}
    (h : (g.opens source n).name? = some name ∨ g.fileSpace? source n = some name) :
    g.name? source n = some name ∧ n.kind ∈ g.types ++ g.spaces ++ g.fileSpaces := by
  rcases h with h | h
  · unfold Grammar.opens at h
    split at h
    · cases h
    · split at h
      · next htype =>
        split at h
        · next hname =>
          cases h
          exact ⟨hname, by simp [List.contains_iff_mem.mp htype]⟩
        · split at h <;> cases h
      · split at h
        · next hspace =>
          split at h
          · next hname =>
            cases h
            exact ⟨hname, by simp [List.contains_iff_mem.mp hspace]⟩
          · cases h
        · cases h
  · unfold Grammar.fileSpace? at h
    split at h
    · next hspace => exact ⟨h, by simp [List.contains_iff_mem.mp hspace]⟩
    · cases h

namespace Python

/-- The nodes whose texts a node takes for names as they stand. -/
def bearers (n : Node) : List Node :=
  if n.kind == "assignment" then ((n.child? "left").filter (·.kind == "identifier")).toList
  else (n.child? "name").toList

theorem dialect_namedBy : dialect.NamedBy grammar bearers where
  found source parentKind n scope := by
    simp only [dialect, visit]
    split <;> simp only [bearers, *, String.reduceBEq, Bool.false_eq_true, if_true, if_false]
    · exact .given fun _ _ => .declare
    · cases n.child? "name" with
      | none => exact .nothing rfl
      | some name => exact .declare
    · exact .given fun _ _ => .declareOuter
    · exact .nothing rfl
    all_goals exact .nothing (by simp)
  opened source n name h _ := by
    obtain ⟨hname, hkind⟩ := opens_name? h
    obtain ⟨c, hc, rfl⟩ := Option.map_eq_some_iff.mp hname
    simp only [grammar, List.append_nil, List.mem_singleton] at hkind
    exact ⟨c, by simp [bearers, hkind, hc], rfl⟩

end Python

namespace Go

/-- The nodes whose texts a node takes for names as they stand. -/
def bearers (n : Node) : List Node :=
  if ["var_spec", "const_spec"].contains n.kind then n.childrenIn "name" else (n.child? "name").toList

theorem dialect_namedBy : dialect.NamedBy grammar bearers where
  found source parentKind n scope := by
    simp only [dialect, visit]
    split <;> simp [bearers, *]
    · exact .given fun _ _ => .declare
    · exact .given fun _ _ => .declare
    · exact .given fun _ _ => .declareOuter
    · exact .given fun _ _ => .declareOuter
    · exact .collect_outer _
    · exact .collect_outer _
    all_goals exact .nothing (by simp [importSpec])
  opened source n name h _ := by
    obtain ⟨hname, hkind⟩ := opens_name? h
    obtain ⟨c, hc, rfl⟩ := Option.map_eq_some_iff.mp hname
    simp only [grammar, List.append_nil, List.mem_cons, List.not_mem_nil, or_false] at hkind
    rcases hkind with hkind | hkind <;> exact ⟨c, by simp [bearers, hkind, hc], rfl⟩

end Go

namespace Java

/-- The nodes whose texts a node takes for names as they stand. -/
def bearers (n : Node) : List Node :=
  if grammar.fields.contains n.kind then (n.childrenIn "declarator").filterMap (·.child? "name")
  else (n.child? "name").toList

theorem bearers_of_type {n : Node} (h : n.kind ∈ grammar.types) : bearers n = (n.child? "name").toList := by
  have hfield : grammar.fields.contains n.kind = false := by
    simp only [grammar, List.mem_cons, List.not_mem_nil, or_false] at h
    rcases h with h | h | h | h | h <;> rw [h] <;> rfl
  rw [bearers, hfield]
  rfl

theorem dialect_namedBy : dialect.NamedBy grammar bearers where
  found source parentKind n scope := by
    simp only [dialect, visit]
    split
    · next kind hkind =>
      rw [bearers_of_type (List.contains_iff_mem.mp (typeKind?_some hkind).1)]
      cases n.child? "name" with
      | none => exact .nothing rfl
      | some name => exact .declare
    · split <;> simp [bearers, grammar, *]
      · exact .given fun _ _ => .declare
      · exact .given fun _ _ => .declare
      · exact .given fun _ _ => .declare
      · exact .collect_given
      · exact .collect_given
      all_goals exact .nothing (by simp [importDeclaration, invoked, apply_ite Findings.symbols])
  opened source n name h _ := by
    obtain ⟨hname, hkind⟩ := opens_name? h
    obtain ⟨c, hc, rfl⟩ := Option.map_eq_some_iff.mp hname
    refine ⟨c, ?_, rfl⟩
    rw [bearers_of_type (by simpa [grammar] using hkind), hc]
    exact List.mem_singleton.mpr rfl

end Java

namespace CSharp

/-- The node that bears the name of a node. -/
def nameNode? (n : Node) : Option Node := (n.child? "name").or (n.childOfKind? "identifier")

/-- The nodes whose texts a node takes for names as they stand. -/
def bearers (n : Node) : List Node :=
  if ["destructor_declaration", "operator_declaration"].contains n.kind then []
  else if n.kind == "field_declaration" then
    (n.childOfKind? "variable_declaration").toList.flatMap fun declaration =>
      (declaration.children.filter (·.kind == "variable_declarator")).filterMap nameNode?
  else (nameNode? n).toList

theorem bearers_of_type {n : Node} (h : n.kind ∈ grammar.types ++ grammar.spaces ++ grammar.fileSpaces) :
    bearers n = (nameNode? n).toList := by
  simp only [grammar, List.cons_append, List.nil_append, List.mem_cons, List.not_mem_nil, or_false] at h
  rcases h with h | h | h | h | h | h | h | h <;> simp [bearers, h]

theorem named_namedBy {source : String} {n : Node} {scope : Scope} {kind : SymbolKind}
    (h : n.kind ∉ ["destructor_declaration", "operator_declaration", "field_declaration"]) :
    Tree.NamedBy source (bearers n) (given (nameText? source n) fun name => declare scope name kind n) := by
  have hbearers : bearers n = (nameNode? n).toList := by simp_all [bearers]
  rw [hbearers]
  exact .given_text fun _ _ => .declare

/-- Destructors and operators put a word in front of what the node says, so their names are never blank. -/
theorem prefixed_namedBy {source word : String} {n : Node} {scope : Scope} {kind : SymbolKind} {α : Type} {text : α → String}
    {x : Option α} (h : n.kind ∈ ["destructor_declaration", "operator_declaration"]) (hword : ¬ Blank word) :
    Tree.NamedBy source (bearers n) (given x fun a => declare scope (word ++ text a) kind n) := by
  have hbearers : bearers n = [] := by simp_all [bearers]
  rw [hbearers]
  exact .given_proper fun a _ => .declare_proper (not_blank_append hword _)

theorem fields_namedBy {source : String} {n : Node} {scope : Scope} (h : n.kind = "field_declaration") :
    Tree.NamedBy source (bearers n) (fields source n scope) := by
  have hbearers : bearers n = (n.childOfKind? "variable_declaration").toList.flatMap fun declaration =>
      (declaration.children.filter (·.kind == "variable_declarator")).filterMap nameNode? := by simp [bearers, h]
  rw [hbearers, fields]
  cases n.childOfKind? "variable_declaration" with
  | none => exact .nothing rfl
  | some declaration =>
    rw [Option.toList_some, List.flatMap_singleton]
    have hgiven : ∀ declarator : Node, ∀ f : String → Findings,
        given (nameText? source declarator) f = given (nameNode? declarator) fun c => f (c.text source) :=
      fun declarator f => by
        rw [nameText?, ← nameNode?]
        cases nameNode? declarator <;> rfl
    simp only [hgiven]
    exact NamedBy.collect_given

theorem dialect_namedBy : dialect.NamedBy grammar bearers where
  found source parentKind n scope := by
    simp only [dialect, visit]
    split
    · next kind hkind =>
      have htype : n.kind ∈ grammar.types := List.contains_iff_mem.mp (typeKind?_some hkind).1
      have hname : nameText? source n = (nameNode? n).map (·.text source) := rfl
      rw [bearers_of_type (by simp [htype]), hname]
      cases nameNode? n with
      | none => exact .nothing rfl
      | some name => exact .declare
    · split
      -- Namespaces.
      · split <;> exact .nothing rfl
      -- Delegates, methods, local functions and constructors.
      · next h => exact named_namedBy (by simp [h])
      · next h => exact named_namedBy (by simp [h])
      · next h => exact named_namedBy (by simp [h])
      · next h => exact named_namedBy (by simp [h])
      -- Destructors and operators.
      · next h => exact prefixed_namedBy (by simp [h]) (by decide)
      · next h => exact prefixed_namedBy (by simp [h]) (by decide)
      -- Properties and fields.
      · next h =>
        split
        · exact named_namedBy (by simp [h])
        · exact .nothing rfl
      · next h => exact fields_namedBy h
      all_goals exact .nothing (by simp)
  opened source n name h _ := by
    obtain ⟨hname, hkind⟩ := opens_name? h
    obtain ⟨c, hc, rfl⟩ := Option.map_eq_some_iff.mp hname
    refine ⟨c, ?_, rfl⟩
    rw [bearers_of_type (by simpa [grammar] using hkind), nameNode?, hc]
    exact List.mem_singleton.mpr rfl

end CSharp

namespace Kotlin

/-- The nodes whose texts a node takes for names as they stand. The names of other nodes are not blank. -/
def bearers (n : Node) : List Node :=
  if n.kind == "property_declaration" then
    ((n.childOfKind? "variable_declaration").bind (·.childOfKinds? nameKinds)).toList
  else if n.kind == "type_alias" then (((n.child? "name").or (n.child? "type")).or (n.childOfKinds? nameKinds)).toList
  else []

theorem nameOf?_proper {source name : String} {n : Node} (h : nameOf? source n = some name) : ¬ Blank name := by
  unfold nameOf? at h
  split at h
  · cases h
  · exact proper_of_trim h

theorem companion_proper {source : String} {n : Node} : ¬ Blank ((nameOf? source n).getD "Companion") := by
  cases h : nameOf? source n with
  | none => decide
  | some name => exact nameOf?_proper h

theorem dialect_namedBy : dialect.NamedBy grammar bearers where
  found source parentKind n scope := by
    simp only [dialect, visit]
    split
    · unfold visitNamed
      split <;> simp [bearers, *]
      · -- A class.
        split
        · next name hname => exact .declare_proper (nameOf?_proper hname)
        · exact .nothing rfl
      -- Objects.
      · exact .declare_proper companion_proper
      · exact .declare_proper companion_proper
      · -- A function.
        exact .given_proper fun name hname => .declare_proper (nameOf?_proper hname)
      · -- A constructor.
        exact .declare_proper (by decide)
      · -- A property.
        rw [propertyName?]
        exact .given_text fun _ _ => .declareOuter
      · -- An alias.
        exact .given fun _ _ => .declare
      all_goals exact .nothing (by simp)
    · exact .nothing rfl
  opened source n name h hblank := by
    have hname : (nameOf? source n).or (if n.kind == "class_declaration" then none else some "Companion") = some name :=
      (opens_name? h).1
    rcases Option.or_eq_some_iff.mp hname with hname | ⟨-, hname⟩
    · exact absurd hblank (nameOf?_proper hname)
    · split at hname
      · cases hname
      · cases hname
        exact absurd hblank (by decide)

end Kotlin

namespace Ecma

/-- The nodes whose texts a node takes for names as they stand. The names of other nodes are not blank. -/
def bearers (n : Node) : List Node :=
  if n.kind == "variable_declarator" then ((n.child? "name").filter (·.kind == "identifier")).toList else []

theorem given_namedBy {source : String} {n : Node} {scope : Scope} {kind : SymbolKind} :
    Tree.NamedBy source [] (given (n.fieldText? source "name") fun name => declare scope name kind n) :=
  .given_proper fun _ hname => .declare_proper (fieldText?_proper hname)

theorem type_namedBy {source : String} {n : Node} {scope : Scope} {kind : SymbolKind} {descent : Descent}
    {opening : Opening} :
    Tree.NamedBy source [] (match (motive := Option String → Visit) n.fieldText? source "name" with
      | some name => { found := declare scope name kind n, opening := .type name }
      | none => { descent, opening }).found := by
  split
  · next name hname => exact .declare_proper (fieldText?_proper hname)
  · exact .nothing rfl

theorem member_namedBy {source : String} {n : Node} {scope : Scope} (kind : String → SymbolKind) :
    Tree.NamedBy source [] (member source n scope kind) := by
  unfold member
  split
  · exact .given_proper fun name hname => .declare_proper (fieldText?_proper hname)
  · exact .nothing rfl

theorem field_namedBy {source : String} {n : Node} {scope : Scope} {kind : SymbolKind} :
    Tree.NamedBy source [] (if scope.inTypeBody then
      given ((n.fieldText? source "name").or (n.fieldText? source "property")) fun name => declare scope name kind n
    else {}) := by
  split
  · refine .given_proper fun name hname => .declare_proper ?_
    rcases Option.or_eq_some_iff.mp hname with hname | ⟨-, hname⟩
    · exact fieldText?_proper hname
    · exact fieldText?_proper hname
  · exact .nothing rfl

theorem declarator_namedBy {source : String} {n : Node} {scope : Scope} :
    Tree.NamedBy source ((n.child? "name").filter (·.kind == "identifier")).toList (declarator source n scope) := by
  unfold declarator
  cases n.child? "name" with
  | none => exact .nothing rfl
  | some name =>
    -- The import that a call of the value stands for declares nothing.
    refine .after (by simp) ?_
    by_cases hkind : (name.kind == "identifier") = true
    · have hbearer : (some name).filter (·.kind == "identifier") = some name := if_pos hkind
      rw [hbearer, if_pos hkind]
      exact .declareOuter
    · rw [if_neg hkind]
      exact .nothing rfl

theorem dialect_namedBy : dialect.NamedBy grammar bearers where
  found source parentKind n scope := by
    simp only [dialect, visit]
    split <;> simp [bearers, *]
    -- Functions.
    · exact given_namedBy
    · exact given_namedBy
    -- Classes.
    · exact type_namedBy
    · exact type_namedBy
    · exact type_namedBy
    -- Methods and their signatures.
    · exact member_namedBy _
    · exact member_namedBy _
    · exact member_namedBy _
    -- Fields and their signatures.
    · exact field_namedBy
    · exact field_namedBy
    · exact member_namedBy _
    -- Interfaces, aliases and enumerations.
    · exact type_namedBy
    · exact given_namedBy
    · exact given_namedBy
    -- Modules.
    · split <;> exact .nothing rfl
    · split <;> exact .nothing rfl
    -- Lists of declarators, and a declarator.
    · exact .nothing rfl
    · exact .nothing rfl
    · split
      · exact declarator_namedBy
      · exact .nothing rfl
    all_goals exact .nothing (by simp [exportStatement, symbols_importStatement])
  opened source n name h hblank := absurd hblank (fieldText?_proper (opens_name? h).1)

end Ecma

namespace Language

/-- The nodes whose texts a node of the language takes for names as they stand. -/
def bearers : Language → Node → List Node
  | typescript => Ecma.bearers
  | tsx => Ecma.bearers
  | javascript => Ecma.bearers
  | python => Python.bearers
  | go => Go.bearers
  | java => Java.bearers
  | csharp => CSharp.bearers
  | kotlin => Kotlin.bearers

theorem dialect_namedBy (language : Language) : language.dialect.NamedBy language.grammar language.bearers := by
  cases language with
  | typescript | tsx | javascript => exact Ecma.dialect_namedBy
  | python => exact Python.dialect_namedBy
  | go => exact Go.dialect_namedBy
  | java => exact Java.dialect_namedBy
  | csharp => exact CSharp.dialect_namedBy
  | kotlin => exact Kotlin.dialect_namedBy

variable (language : Language) (source : String) (root : Node)

theorem foundAt_namedBy (p : Tree.Place) : Tree.NamedBy source (language.bearers p.node) (language.dialect.foundAt source root p) := by
  rw [Dialect.foundAt, Dialect.foundFrom]
  cases language.dialect.reach? source (language.dialect.top root) p.outer p.here with
  | none => exact .nothing rfl
  | some m => exact language.dialect_namedBy.found source m.kind p.node _

variable {language source}

theorem space?_bearer {s : Step} {name : String} (h : language.grammar.space? source s = some name) (hblank : Blank name) :
    ∃ n ∈ s.node :: s.earlier, ∃ c ∈ language.bearers n, name = c.text source := by
  obtain ⟨n, hn, hspace⟩ := List.exists_of_findSome?_eq_some h
  obtain ⟨c, hc, rfl⟩ := language.dialect_namedBy.opened source n name (.inr hspace) hblank
  exact ⟨n, by simpa using hn, c, hc, rfl⟩

/-- A blank name among those around a place is that of a bearer there. -/
theorem outerNames_bearer {p : Tree.Place} {name : String} (h : name ∈ language.grammar.outerNames source p)
    (hblank : Blank name) : ∃ n ∈ p.around, ∃ c ∈ language.bearers n, name = c.text source := by
  have hstep : ∀ s ∈ p.outer ++ [p.here], ∀ n ∈ s.node :: s.earlier, n ∈ p.around := fun s hs n hn =>
    List.mem_flatMap.mpr ⟨s, hs, hn⟩
  rcases List.mem_append.mp h with h | h
  · obtain ⟨s, hs, h⟩ := List.mem_flatMap.mp h
    have hs : s ∈ p.outer ++ [p.here] := List.mem_append_left _ hs
    rcases List.mem_append.mp h with h | h
    · obtain ⟨n, hn, hc⟩ := space?_bearer (Option.mem_toList.mp h) hblank
      exact ⟨n, hstep s hs n hn, hc⟩
    · obtain ⟨c, hc, rfl⟩ := language.dialect_namedBy.opened source s.node name (.inl (Option.mem_toList.mp h)) hblank
      exact ⟨s.node, hstep s hs _ List.mem_cons_self, c, hc, rfl⟩
  · obtain ⟨n, hn, hc⟩ := space?_bearer (Option.mem_toList.mp h) hblank
    exact ⟨n, hstep p.here (List.mem_append_right _ List.mem_cons_self) n hn, hc⟩

/-- The symbols of a tree are those of its places. At a place a symbol has a blank name exactly if something is declared
    there and one of its bearers is blank. Its qualified name joins the names around the place and its own, from the
    first on that is not empty, and a blank one among those around is that of a bearer there. So if no bearer is blank,
    no name is, and no qualified name ends in a dot or has a gap for want of a name. -/
theorem blank_names_are_bearers (language : Language) (source : String) (root : Node) :
    let found p := (language.dialect.foundAt source root p).symbols
    (language.dialect.findings source root).symbols = (language.dialect.placesOf root).flatMap found ∧
      ∀ p ∈ language.dialect.placesOf root,
        ((∃ s ∈ found p, Blank s.name) ↔ found p ≠ [] ∧ ∃ c ∈ language.bearers p.node, Blank (c.text source)) ∧
        (∀ s ∈ found p,
          s.fqname = join '.' ((language.grammar.outerNames source p ++ [s.name]).dropWhile (·.isEmpty))) ∧
        ∀ name ∈ language.grammar.outerNames source p, Blank name →
          ∃ n ∈ p.around, ∃ c ∈ language.bearers n, name = c.text source := by
  refine ⟨by rw [language.findings_eq, symbols_collect], fun p _ => ?_⟩
  refine ⟨(language.foundAt_namedBy source root p).blank_iff, fun s hs => ?_, fun _ => outerNames_bearer⟩
  obtain ⟨scope, hscope, -, hname, -⟩ := language.scope_foundAt source root hs
  rw [hname, Scope.qualify_eq, hscope.qualifier, ← foldl_joined, List.foldl_append]
  rfl

/-- The tree of a class in a class, where the inner one has a method but the node of its name is missing. -/
def unnamedClass : Node :=
  .mk { kind := "class_declaration", span := ⟨0, 26⟩ }
    [.mk { kind := "identifier", span := ⟨6, 7⟩, field := "name" } [],
     .mk { kind := "class_body", span := ⟨7, 26⟩, field := "body" }
       [.mk { kind := "class_declaration", span := ⟨8, 25⟩ }
         [.mk { kind := "identifier", span := ⟨13, 13⟩, field := "name" } [],
          .mk { kind := "class_body", span := ⟨13, 25⟩, field := "body" }
            [.mk { kind := "method_declaration", span := ⟨14, 24⟩ }
              [.mk { kind := "identifier", span := ⟨19, 20⟩, field := "name" } []]]]]]

/-- The class without a name is listed, and leaves a gap in the name of its method. -/
theorem unnamed_class_listed :
    let source := "class A{class{void m(){}}}"
    (java.dialect.findings source unnamedClass).symbols.map (fun s => (s.name, s.fqname)) =
        [("A", "A"), ("", "A."), ("m", "A..m")] ∧
      ∃ p ∈ java.dialect.placesOf unnamedClass, ∃ c ∈ java.bearers p.node, Blank (c.text source) := by
  intro source
  have hlisted : (java.dialect.findings source unnamedClass).symbols.map (fun s => (s.name, s.fqname)) =
      [("A", "A"), ("", "A."), ("m", "A..m")] := by decide +kernel
  refine ⟨hlisted, ?_⟩
  obtain ⟨hall, hplaces⟩ := blank_names_are_bearers java source unnamedClass
  have hmem : ("", "A.") ∈ (java.dialect.findings source unnamedClass).symbols.map fun s => (s.name, s.fqname) := by
    rw [hlisted]
    decide
  obtain ⟨s, hs, hname⟩ := List.mem_map.mp hmem
  rw [hall] at hs
  obtain ⟨p, hp, hs⟩ := List.mem_flatMap.mp hs
  have hblank : Blank s.name := by
    rw [(Prod.mk.inj hname).1]
    decide
  exact ⟨p, hp, ((hplaces p hp).1.mp ⟨s, hs, hblank⟩).2⟩

end Language
end SymbolGraph
