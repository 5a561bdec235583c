import Mathlib.Data.Finset.Lattice.Lemmas
import SymbolGraph.Proofs.CallSites
import SymbolGraph.Proofs.EventLog
import SymbolGraph.Proofs.Lookups

/-! Imports by name. A statement that imports a name binds it, or another name in its place, and it is the bound name
    that is listed. After a full index an edge leads from the first node of a file to the first node with each listed
    name, in the first of the import's candidates that has a record, and nowhere else; so a name that is bound under
    another one is not looked for. -/

namespace SymbolGraph

open Store

/-! ### Names in import statements -/

/-- The statement imports `name` from `specifier` in its list in braces, and binds `bound`. -/
structure Ecma.NamedImport (source : String) (n : Tree.Node) (specifier name bound : String) : Prop where
  statement : n.kind = "import_statement"
  noRequire : n.childOfKind? "import_require_clause" = none
  origin : ∃ from_, n.child? "source" = some from_ ∧ specifier = Tree.unquote (from_.text source)
  item : ∃ clause part item imported, n.childOfKind? "import_clause" = some clause ∧ part ∈ clause.children ∧
    part.kind = "named_imports" ∧ item ∈ part.children ∧ item.kind = "import_specifier" ∧
    item.child? "name" = some imported ∧ name = imported.text source ∧
    bound = ((item.child? "alias").getD imported).text source

/-- The statement imports `name` from `specifier` and binds `bound`. -/
structure Python.NamedImport (source : String) (n : Tree.Node) (specifier name bound : String) : Prop where
  statement : n.kind = "import_from_statement"
  origin : ∃ from_, n.child? "module_name" = some from_ ∧ specifier = Tree.unquote (from_.text source)
  item : ∃ item ∈ n.childrenIn "name",
    item.kind ≠ "aliased_import" ∧ name = item.text source ∧ bound = Tree.lastSegment name ∨
    item.kind = "aliased_import" ∧ ∃ imported renamed, item.child? "name" = some imported ∧
      item.child? "alias" = some renamed ∧ name = imported.text source ∧ bound = renamed.text source

/-- The statement imports `name` from `specifier` and binds `bound`. -/
def Language.NamedImport (language : Language) (source : String) (n : Tree.Node) (specifier name bound : String) : Prop :=
  match language with
  | .typescript | .tsx | .javascript => Ecma.NamedImport source n specifier name bound
  | .python => Python.NamedImport source n specifier name bound
  | _ => False

section
variable {source parentKind specifier name bound : String} {n : Tree.Node} {scope : Scope}

theorem exists_importing {text : String} {names : List String} (hbound : bound ∈ names) (h : Tree.unquote text ≠ "") :
    ∃ i ∈ (Tree.importing text names).imports, i.specifier = Tree.unquote text ∧ bound ∈ i.names := by
  have hempty : (Tree.unquote text).isEmpty = false := by simpa [String.isEmpty_iff] using h
  simpa [Tree.importing, hempty] using hbound

theorem Ecma.visit_import (h : n.kind = "import_statement") :
    (Ecma.dialect.visit source parentKind n scope).found = Ecma.importStatement source n := by
  simp only [Ecma.dialect, Ecma.visit]
  split <;> simp_all

theorem Ecma.NamedImport.listed (h : Ecma.NamedImport source n specifier name bound) (hspecifier : specifier ≠ "") :
    ∃ i ∈ (Ecma.dialect.visit source parentKind n scope).found.imports, i.specifier = specifier ∧ bound ∈ i.names := by
  obtain ⟨from_, hfrom, horigin⟩ := h.origin
  obtain ⟨clause, part, item, imported, hclause, hpart, hkind, hitem, hitemKind, himported, -, hbound⟩ := h.item
  rw [horigin] at hspecifier ⊢
  have hlisted : bound ∈ clause.children.flatMap (Ecma.clauseNames source) := by
    refine List.mem_flatMap.mpr ⟨part, hpart, ?_⟩
    rw [Ecma.clauseNames, hkind]
    refine List.mem_filterMap.mpr ⟨item, List.mem_filter.mpr ⟨hitem, by simp [hitemKind]⟩, ?_⟩
    rw [himported, hbound]
    cases item.child? "alias" <;> rfl
  have hfound : Ecma.importStatement source n =
      Tree.importing (from_.text source) (clause.children.flatMap (Ecma.clauseNames source)) := by
    simp only [Ecma.importStatement, h.noRequire, hfrom, hclause, Tree.given]
  rw [Ecma.visit_import h.statement, hfound]
  exact exists_importing hlisted hspecifier

theorem Python.visit_import (h : n.kind = "import_from_statement") :
    (Python.dialect.visit source parentKind n scope).found = Tree.given (n.child? "module_name") fun from_ =>
      Tree.importing (from_.text source) ((n.childrenIn "name").map fun part => (Python.aliased source part).2) := by
  simp only [Python.dialect, Python.visit]
  split <;> simp_all

theorem Python.NamedImport.listed (h : Python.NamedImport source n specifier name bound) (hspecifier : specifier ≠ "") :
    ∃ i ∈ (Python.dialect.visit source parentKind n scope).found.imports, i.specifier = specifier ∧ bound ∈ i.names := by
  obtain ⟨from_, hfrom, horigin⟩ := h.origin
  obtain ⟨item, hitem, hnames⟩ := h.item
  rw [horigin] at hspecifier ⊢
  have hbound : (Python.aliased source item).2 = bound := by
    rcases hnames with ⟨hplain, rfl, rfl⟩ | ⟨haliased, imported, renamed, himported, hrenamed, -, rfl⟩
    · simp [Python.aliased, hplain]
    · simp [Python.aliased, haliased, himported, hrenamed]
  rw [Python.visit_import h.statement, hfrom, Tree.given]
  exact exists_importing (List.mem_map.mpr ⟨item, hitem, hbound⟩) hspecifier

/-- What a statement binds for a name from elsewhere is among the names that are listed of it. -/
theorem Language.NamedImport.listed {language : Language} (h : language.NamedImport source n specifier name bound)
    (hspecifier : specifier ≠ "") (parentKind : String) (scope : Scope) :
    ∃ i ∈ (language.dialect.visit source parentKind n scope).found.imports, i.specifier = specifier ∧ bound ∈ i.names := by
  cases language with
  | typescript | tsx | javascript => exact Ecma.NamedImport.listed h hspecifier
  | python => exact Python.NamedImport.listed h hspecifier
  | go | java | csharp | kotlin => exact h.elim

/-- What a walk finds in a tree has the imports that it lists of each node it comes to. -/
theorem Language.imports_findings (language : Language) (root : Tree.Node) {p : Tree.Place}
    (hplace : p ∈ language.dialect.placesOf root) (hunder : language.grammar.underImport p = false)
    (hover : language.grammar.isPassedOver source p = false) :
    ∃ parentKind scope, (language.dialect.visit source parentKind p.node scope).found.imports ⊆
      (language.dialect.findings source root).imports := by
  have hreach : (language.dialect.reach? source (language.dialect.top root) p.outer p.here).isSome := by
    have hstart : (language.dialect.top root).descent = .all := rfl
    rw [language.dialect_follows.reach?_isSome, hstart, Tree.Grammar.leadsTo_descent, language.top_kind]
    have hleads : Tree.Grammar.leadsTo (language.grammar.enters source) "" .all p.outer p.here = true := by
      simpa [Tree.Grammar.isPassedOver] using hover
    have hunder : language.grammar.underImport ⟨p.outer, p.here⟩ = false := hunder
    rw [hleads, hunder]
    rfl
  obtain ⟨m, hm⟩ := Option.isSome_iff_exists.mp hreach
  refine ⟨m.kind, language.dialect.scopeAt source m p.here, fun i hi => ?_⟩
  rw [language.findings_eq, Tree.imports_collect]
  refine List.mem_flatMap.mpr ⟨p, hplace, ?_⟩
  rw [Tree.Dialect.foundAt, Tree.Dialect.foundFrom, hm]
  exact hi

end

theorem Language.id_injective : Function.Injective Language.id := by
  have hofId : ∀ language : Language, Language.ofId? language.id = some language := fun language => by
    cases language <;> decide
  exact fun a b h => Option.some_inj.mp ((hofId a).symm.trans (h ▸ hofId b))

/-! ### Looking up names -/

namespace Tables
variable {t : Tables} {path name : String}

/-- The first node of a path. -/
def firstNode? (t : Tables) (path : String) : Option NodeId := (t.nodesAt path).head?.map (·.id)

/-- The first node of a path with the name, be it qualified or not. -/
def firstNamed? (t : Tables) (path name : String) : Option NodeId :=
  ((t.nodesAt path).find? fun r => r.name == name || r.fqname == name).map (·.id)

/-- The first file with a record that the specifier may mean in a file of the language. -/
def importedFile? (t : Tables) (language : Language) (path specifier : String) : Option String :=
  (Import.candidates language.resolution path specifier).find? fun file => t.files.any (·.path == file)

/-- A name of the file's import is that of the node, which is the first with it in the file that the import leads to. -/
def Means (t : Tables) (language : Language) (path : String) (i : ImportDeclaration) (id : NodeId) : Prop :=
  ∃ name ∈ i.names, ∃ file, t.importedFile? language path i.specifier = some file ∧ t.firstNamed? file name = some id

/-- There is an edge for the link. -/
def Holds (t : Tables) (l : Link) : Prop := ∃ e ∈ t.edges, Index.Stores e l

theorem readAt_pairs (h : t.Readable) (path : String) :
    List.Forall₂ (fun r n => r.node = .ok n) (t.nodesAt path) (t.readAt path) := by
  have hsubset : t.nodesAt path ⊆ t.nodes := List.filter_subset_self _
  obtain ⟨nodes, hnodes⟩ := h.readNodes hsubset
  rw [readAt, hnodes]
  exact Store.readNodes_iff.mp hnodes

theorem find?_readAt (h : t.Readable) (path name : String) :
    ((t.readAt path).find? (Index.Resolve.named name)).map (·.id) = t.firstNamed? path name := by
  have hfind := Index.find?_alike (readAt_pairs h path) (f := fun r => r.name == name || r.fqname == name)
    (g := Index.Resolve.named name) fun r n hrn => by
      obtain ⟨-, hname, hfqname⟩ := Store.texts_of_node hrn
      rw [Index.Resolve.named, hname, hfqname]
  rw [firstNamed?]
  generalize (t.nodesAt path).find? _ = row, (t.readAt path).find? _ = node at hfind ⊢
  cases hfind with
  | none => rfl
  | some hrn => exact congrArg some (Index.node_id hrn)

theorem firstNode?_inj (ht : t.nodes.Pairwise (·.id < ·.id)) {other : String} {id : NodeId}
    (h : t.firstNode? path = some id) (h' : t.firstNode? other = some id) : path = other := by
  have hrow : ∀ path, t.firstNode? path = some id → ∃ r ∈ t.nodes, r.path = path ∧ r.id = id := by
    intro path h
    obtain ⟨r, hr, hid⟩ := Option.map_eq_some_iff.mp h
    obtain ⟨hmem, hpath⟩ := List.mem_filter.mp (List.mem_of_mem_head? hr)
    exact ⟨r, hmem, by simpa using hpath, hid⟩
  obtain ⟨r, hr, rfl, hid⟩ := hrow path h
  obtain ⟨r', hr', rfl, hid'⟩ := hrow other h'
  rw [Tables.eq_of_id ht hr hr' (hid.trans hid'.symm)]

theorem specifier_ne_empty {language : Language} {path specifier file : String}
    (h : t.importedFile? language path specifier = some file) : specifier ≠ "" := by
  rintro rfl
  have hrelative : language.resolution.isRelative "" = false := by cases language <;> decide
  rw [importedFile?, Import.candidates, hrelative] at h
  cases h

theorem lookups_congr {u : Tables} (hf : u.files = t.files) (hn : u.nodes = t.nodes) :
    u.recordedPaths = t.recordedPaths ∧ u.firstNode? = t.firstNode? ∧ u.firstNamed? = t.firstNamed? ∧
      u.importedFile? = t.importedFile? ∧ u.Means = t.Means := by
  have hrows : u.nodesAt = t.nodesAt := funext fun path => by rw [nodesAt, nodesAt, hn]
  have hnamed : u.firstNamed? = t.firstNamed? := by
    funext path name
    rw [firstNamed?, firstNamed?, hrows]
  have hfile : u.importedFile? = t.importedFile? := by
    funext language path specifier
    rw [importedFile?, importedFile?, hf]
  refine ⟨by rw [recordedPaths, recordedPaths, hf], ?_, hnamed, hfile, ?_⟩
  · funext path
    rw [firstNode?, firstNode?, hrows]
  · funext language path i id
    rw [Means, Means, hfile, hnamed]

end Tables

namespace Index
variable {t : Tables} {w : Workspace} {R : List String}

/-! ### Links of imports -/

theorem links_iff {rows : List EdgeRow} {ls : List Link} (h : List.Forall₂ Stores rows ls) (l : Link) :
    (∃ e ∈ rows, Stores e l) ↔ l ∈ ls := by
  constructor
  · rintro ⟨e, he, hel⟩
    obtain ⟨m, hm, hem⟩ := exists_paired h he
    have hsame : l = m := by
      obtain ⟨kind, source, target⟩ := l
      obtain rfl := kindText_injective (hel.kind.symm.trans hem.kind)
      cases hel.source.symm.trans hem.source
      cases hel.target.symm.trans hem.target
      rfl
    exact hsame ▸ hm
  · intro hl
    obtain ⟨e, he, hel⟩ := exists_paired h.flip hl
    exact ⟨e, he, hel⟩

namespace Resolve

theorem mem_importLinks {p : Pending} {language : Language} {i : ImportDeclaration} {a b : NodeId} (ht : t.Readable) :
    ⟨.imports, a, b⟩ ∈ importLinks t language.resolution p i ↔ p.firstNode? = some a ∧ t.Means language p.path i b := by
  rw [importLinks, targets?, findSome?_lookup?, ← Tables.importedFile?, Tables.Means]
  cases hfile : t.importedFile? language p.path i.specifier with
  | none => simp
  | some file =>
    cases hsource : p.firstNode? with
    | none => simp
    | some source =>
      constructor
      · intro h
        obtain ⟨name, hname, hlink⟩ := List.mem_filterMap.mp h
        obtain ⟨n, hn, hl⟩ := Option.map_eq_some_iff.mp hlink
        cases hl
        exact ⟨rfl, name, hname, file, rfl, by rw [← Tables.find?_readAt ht, hn]; rfl⟩
      · rintro ⟨⟨⟩, name, hname, _, ⟨⟩, hb⟩
        rw [← Tables.find?_readAt ht] at hb
        obtain ⟨n, hn, rfl⟩ := Option.map_eq_some_iff.mp hb
        exact List.mem_filterMap.mpr ⟨name, hname, by rw [hn]; rfl⟩

theorem mem_importLinksOf {registry : Registry} {p : Pending} {language : Language} {a b : NodeId} (ht : t.Readable)
    (hlanguage : registry.get? p.language = some language) :
    ⟨.imports, a, b⟩ ∈ importLinksOf t registry p ↔
      p.firstNode? = some a ∧ ∃ i ∈ p.found.imports, t.Means language p.path i b := by
  simp only [importLinksOf, importsWith, hlanguage, List.flatMap_map, List.mem_flatMap, mem_importLinks ht]
  constructor
  · rintro ⟨i, hi, hsource, htarget⟩
    exact ⟨hsource, i, hi, htarget⟩
  · rintro ⟨hsource, i, hi, htarget⟩
    exact ⟨i, hi, hsource, htarget⟩

theorem mem_links_imports {registry : Registry} {nodes : List GraphNode} {files : List Pending} {a b : NodeId} :
    ⟨.imports, a, b⟩ ∈ links t registry nodes files ↔ ∃ p ∈ files, ⟨.imports, a, b⟩ ∈ importLinksOf t registry p := by
  rw [← List.mem_flatMap, ← links_imports t registry nodes, List.mem_filter]
  simp

end Resolve

theorem get?_of_accepts {path : String} {language : Language} (h : w.accepts path = some language) :
    w.registry.get? language.id = some language := by
  have hclassified : w.classify path = some language := by
    unfold Workspace.accepts at h
    split at h
    · cases h
    · exact h
  have hpath : w.registry.forPath? path = some language := (Option.filter_eq_some_iff.mp hclassified).1
  have hmem : language ∈ w.registry.languages := List.contains_iff_mem.mp (Option.filter_eq_some_iff.mp hpath).2
  unfold Registry.get?
  cases hfind : w.registry.languages.find? (·.id == language.id) with
  | none => simpa using List.find?_eq_none.mp hfind language hmem
  | some other => exact congrArg some (Language.id_injective (by simpa using List.find?_some hfind))

/-! ### The pass of a full index -/

/-- The language of the file is the one that its path has. -/
def Pending.InLanguage (w : Workspace) (p : Pending) : Prop :=
  ∃ language, w.accepts p.path = some language ∧ p.language = language.id

theorem fullPass_languages (w : Workspace) (R : List String) (t : Tables) :
    ∀ p ∈ (Run.fullPass w R t).tally.pending, p.InLanguage w := by
  refine List.foldlRecOn _ (Standing.settle w R) (motive := fun x => ∀ p ∈ x.tally.pending, p.InLanguage w)
    (b := Run.cleared w t) (fun p hp => absurd hp List.not_mem_nil) fun x hx path _ p hp => ?_
  rw [Standing.settle, Standing.after_tally, Verdict.tally_eq] at hp
  rcases List.mem_append.mp hp with hold | hnew
  · exact hx p hold
  · cases hv : w.judge R (x.tables.file? path) path with
    | stored language text =>
      rw [hv] at hnew
      obtain rfl := List.mem_singleton.mp hnew
      exact ⟨language, (judge_stored hv).1, rfl⟩
    | _ =>
      rw [hv] at hnew
      cases hnew

theorem follow_indexed (paths : List String) (known : Finset String) :
    (paths.map Event.fileIndexed).foldl Event.follow known = known ∪ paths.toFinset := by
  induction paths generalizing known with
  | nil => simp
  | cons path rest ih =>
    rw [List.map_cons, List.foldl_cons, ih, List.toFinset_cons, Event.follow, Finset.insert_union, Finset.union_insert]

/-- The files with a record are those that the pass has stored. -/
theorem fullPass_recorded (w : Workspace) (R : List String) (t : Tables) :
    (Run.fullPass w R t).tables.recordedPaths = ((Run.fullPass w R t).tally.pending.map (·.path)).toFinset := by
  rw [← fullPass_follows, (fullPass_reports w R t).told, follow_indexed, Finset.empty_union]

theorem Pending.Current.firstNode? {p : Pending} (hp : p.Current w R t) : p.firstNode? = t.firstNode? p.path := by
  have hhead := congrArg List.head? hp.ids
  rwa [List.head?_map, List.head?_map] at hhead

/-- The links of imports from the first node of a file are those that its imports ask for. -/
theorem fullPass_imports {had : String → String → Prop} (hw : w.Shows had) {path : String} {language : Language}
    {text : String} {source : NodeId} (hlanguage : w.accepts path = some language) (htext : w.source? path = some text)
    (target : NodeId) :
    let x := Run.fullPass w R t
    path ∈ x.tables.recordedPaths → x.tables.firstNode? path = some source →
      (⟨.imports, source, target⟩ ∈ x.links w.registry ↔
        ∃ i ∈ (w.extract language text).found.imports, x.tables.Means language path i target) := by
  intro x hrecorded hsource
  have hpass : x.tables.Coherent w had := fullPass_coherent hw t
  have hcurrent : ∀ p ∈ x.tally.pending, p.Current w R x.tables := fullPass_current hw t
  have hfile : ∀ p ∈ x.tally.pending, ∃ l, w.registry.get? p.language = some l ∧
      (p.path = path → l = language ∧ p.found = (w.extract language text).found) := by
    intro p hp
    obtain ⟨l, hl, hid⟩ := fullPass_languages w R t p hp
    obtain ⟨l', text', hl', htext', hfound⟩ := (hcurrent p hp).found
    refine ⟨l, hid ▸ get?_of_accepts hl, ?_⟩
    rintro rfl
    cases hl.symm.trans hlanguage
    cases hl'.symm.trans hlanguage
    cases htext'.symm.trans htext
    exact ⟨rfl, hfound⟩
  rw [Standing.links, Resolve.mem_links_imports]
  constructor
  · rintro ⟨p, hp, hlink⟩
    obtain ⟨l, hl, hsame⟩ := hfile p hp
    obtain ⟨hfirst, himports⟩ := (Resolve.mem_importLinksOf hpass.readable hl).mp hlink
    -- No other file has the first node of this one.
    obtain rfl : p.path = path := Tables.firstNode?_inj hpass.ids ((hcurrent p hp).firstNode?.symm.trans hfirst) hsource
    obtain ⟨rfl, hfound⟩ := hsame rfl
    rwa [hfound] at himports
  · intro himports
    rw [fullPass_recorded, List.mem_toFinset] at hrecorded
    obtain ⟨p, hp, rfl⟩ := List.mem_map.mp hrecorded
    obtain ⟨l, hl, hsame⟩ := hfile p hp
    obtain ⟨rfl, hfound⟩ := hsame rfl
    rw [← hfound] at himports
    exact ⟨p, hp, (Resolve.mem_importLinksOf hpass.readable hl).mpr ⟨(hcurrent p hp).firstNode?.trans hsource, himports⟩⟩

theorem recorded_source {had : String → String → Prop} (hw : w.Shows had) {path : String}
    (h : path ∈ (Run.fullPass w R t).tables.recordedPaths) :
    ∃ language text, w.accepts path = some language ∧ w.source? path = some text := by
  rw [fullPass_recorded, List.mem_toFinset] at h
  obtain ⟨p, hp, rfl⟩ := List.mem_map.mp h
  obtain ⟨language, text, hlanguage, htext, -⟩ := (fullPass_current hw t p hp).found
  exact ⟨language, text, hlanguage, htext⟩

/-- A full index leaves the files and nodes of its pass, and no edges but those of its links. -/
theorem fullIndex_leaves {had : String → String → Prop} {s : Session} (hw : w.Shows had) (hs : s.Calm R) :
    let x := Run.fullPass w R s.store.tables
    ∃ stats done, Run.fullIndex w s = (.ok stats, done) ∧ done.store.tables.files = x.tables.files ∧
      done.store.tables.nodes = x.tables.nodes ∧
      done.store.tables.edges = EdgeRow.numbered w.now x.tables.nextEdge (x.links w.registry) := by
  intro x
  obtain ⟨done, hrun, hdone⟩ := Run.fullIndex_became hs (fullPass_coherent (R := R) hw s.store.tables).readable
  have hnone : x.tables.edges = [] := (Standing.foldl_settle_edges _ _ _ _).1
  have hedges : (x.linked w).edges = EdgeRow.numbered w.now x.tables.nextEdge (x.links w.registry) := by
    rw [Standing.linked, Tables.linkAll_edges, hnone, List.nil_append]
  refine ⟨x.stats w, done, hrun, ?_, ?_, ?_⟩ <;> rw [hdone.tables]
  · exact Tables.linkAll_files ..
  · exact Tables.linkAll_nodes ..
  · exact hedges

/-! ### Named imports of a file -/

/-- The tree of the file has a statement, at a place that its walk comes down to, that imports `name` from `specifier` and
    binds `bound`. -/
structure Workspace.ImportsName (w : Workspace) (language : Language) (text specifier name bound : String) : Prop where
  walked : (w.extract language text).method = .tree
  statement : ∃ root p, w.parser language (Text.dropMark text) = some root ∧ p ∈ language.dialect.placesOf root ∧
    language.grammar.underImport p = false ∧ language.grammar.isPassedOver (Text.dropMark text) p = false ∧
    language.NamedImport (Text.dropMark text) p.node specifier name bound

theorem extract_walked {language : Language} {text : String} {root : Tree.Node}
    (h : (w.extract language text).method = .tree) (hroot : w.parser language (Text.dropMark text) = some root) :
    (w.extract language text).found = language.dialect.findings (Text.dropMark text) root := by
  have hread := Extraction.extractOrRecover_read language (some text) w.config.maxFileBytes
    (w.parser language (Text.dropMark text))
  obtain ⟨root', hroot', hfound⟩ := hread.found_eq.2.2 h
  obtain rfl := Option.some.inj (hroot.symm.trans hroot')
  exact hfound

theorem Workspace.ImportsName.listed {language : Language} {text specifier name bound : String}
    (h : w.ImportsName language text specifier name bound) (hspecifier : specifier ≠ "") :
    ∃ i ∈ (w.extract language text).found.imports, i.specifier = specifier ∧ bound ∈ i.names := by
  obtain ⟨root, p, hroot, hplace, hunder, hover, hnamed⟩ := h.statement
  obtain ⟨parentKind, scope, hsubset⟩ := language.imports_findings root hplace hunder hover
  obtain ⟨i, hi, hlisted⟩ := hnamed.listed hspecifier parentKind scope
  rw [extract_walked h.walked hroot]
  exact ⟨i, hsubset hi, hlisted⟩

/-- After a full index the edges of imports from the first node of a file lead to the first nodes with the names that
    are listed of its imports, each in the first of the import's candidates that has a record. Of a name that is
    imported from elsewhere it is the bound name that is listed, so the first node with that name has an edge. -/
theorem imports_lead_to_bound_names (w : Workspace) (c : Clock) (R : List String) (s : Session) (hs : s.Calm R) :
    ∃ stats done, Run.fullIndex (w.timed c) s = (.ok stats, done) ∧
      let t := done.store.tables
      ∀ path ∈ t.recordedPaths, ∃ language text, w.accepts path = some language ∧ w.source? path = some text ∧
        ∀ source, t.firstNode? path = some source →
          (∀ target, t.Holds ⟨.imports, source, target⟩ ↔
            ∃ i ∈ (w.extract language text).found.imports, t.Means language path i target) ∧
          ∀ specifier name bound file target, w.ImportsName language text specifier name bound →
            t.importedFile? language path specifier = some file → t.firstNamed? file bound = some target →
            t.Holds ⟨.imports, source, target⟩ := by
  have hshows := shows_sources w c
  obtain ⟨stats, done, hrun, hfiles, hnodes, hedges⟩ := fullIndex_leaves hshows hs
  refine ⟨stats, done, hrun, ?_⟩
  -- Links change neither records nor nodes, so what is looked up is what the first pass left.
  obtain ⟨hrecorded, hfirst, hnamed, hfile, hmeans⟩ := Tables.lookups_congr hfiles hnodes
  intro t path hpath
  rw [hrecorded] at hpath
  rw [hfirst, hnamed, hfile, hmeans]
  obtain ⟨language, text, hlanguage, htext⟩ := recorded_source hshows hpath
  refine ⟨language, text, hlanguage, htext, fun source hsource => ?_⟩
  have hlinks (l : Link) : t.Holds l ↔ l ∈ (Run.fullPass (w.timed c) R s.store.tables).links w.registry := by
    rw [Tables.Holds, hedges]
    exact links_iff (numbered_stores ..) l
  have hholds (target : NodeId) := (hlinks _).trans (fullPass_imports hshows hlanguage htext target hpath hsource)
  refine ⟨hholds, fun specifier name bound file target himports hfile htarget => (hholds target).mpr ?_⟩
  obtain ⟨i, hi, rfl, hbound⟩ := himports.listed (Tables.specifier_ne_empty hfile)
  exact ⟨i, hi, bound, hbound, file, hfile, htarget⟩

/-- A file that imports two functions, one of them under another name. -/
def importingText : String := "import{bar as baz,old}from'./b';function f(){}"

/-- The import of the file. -/
def importNode : Tree.Node :=
  .mk { kind := "import_statement", span := ⟨0, 32⟩ }
    [.mk { kind := "import_clause", span := ⟨6, 22⟩ }
      [.mk { kind := "named_imports", span := ⟨6, 22⟩ }
        [.mk { kind := "import_specifier", span := ⟨7, 17⟩ }
          [.mk { kind := "identifier", span := ⟨7, 10⟩, field := "name" } [],
           .mk { kind := "identifier", span := ⟨14, 17⟩, field := "alias" } []],
         .mk { kind := "import_specifier", span := ⟨18, 21⟩ }
          [.mk { kind := "identifier", span := ⟨18, 21⟩, field := "name" } []]]],
     .mk { kind := "string", span := ⟨26, 31⟩, field := "source" } []]

/-- A function whose name has the second span. -/
def functionNode (span name : Span) : Tree.Node :=
  .mk { kind := "function_declaration", span := span } [.mk { kind := "identifier", span := name, field := "name" } []]

/-- The file, and beside it the one that has the functions. -/
def aliasing : Workspace where
  disk := ⟨[(["a.ts"], .file (.text importingText)),
    (["b.ts"], .file (.text "function bar(){}function old(){}"))]⟩
  parser _ text :=
    if text = "function bar(){}function old(){}" then
      some (.mk { kind := "program", span := ⟨0, 32⟩ } [functionNode ⟨0, 16⟩ ⟨9, 12⟩, functionNode ⟨16, 32⟩ ⟨25, 28⟩])
    else some (.mk { kind := "program", span := ⟨0, 46⟩ } [importNode, functionNode ⟨32, 46⟩ ⟨41, 42⟩])

theorem aliasing_scan : (aliasing.timed .epoch).scan.map (·.path) = ["a.ts", "b.ts"] := by
  have hfound : aliasing.disk.locations.filterMap aliasing.found? = [⟨"a.ts", .typescript⟩, ⟨"b.ts", .typescript⟩] := by
    decide +kernel
  show (List.mergeSort (aliasing.disk.locations.filterMap aliasing.found?) _).map _ = _
  rw [hfound, List.mergeSort_of_pairwise (by decide)]
  rfl

theorem aliasing_tables {stats : Stats} {done : Session}
    (h : Run.fullIndex (aliasing.timed .epoch) idle = (.ok stats, done)) :
    let t := done.store.tables
    "a.ts" ∈ t.recordedPaths ∧ t.firstNode? "a.ts" = some 1 ∧ t.importedFile? .typescript "a.ts" "./b" = some "b.ts" ∧
      t.firstNamed? "b.ts" "bar" = some 2 ∧ t.firstNamed? "b.ts" "baz" = none ∧ t.firstNamed? "b.ts" "old" = some 3 := by
  intro t
  obtain ⟨_, _, hrun, hfiles, hnodes, -⟩ := fullIndex_leaves (shows_sources aliasing .epoch) idle_calm
  cases h.symm.trans hrun
  obtain ⟨hrecorded, hfirst, hnamed, hfile, -⟩ := Tables.lookups_congr hfiles hnodes
  rw [hrecorded, hfirst, hnamed, hfile, Run.fullPass, aliasing_scan]
  decide +kernel

/-- The walk of the first file comes down to its import. -/
theorem aliasing_imports {name bound : String}
    (h : Ecma.NamedImport importingText importNode "./b" name bound) :
    aliasing.ImportsName .typescript importingText "./b" name bound := by
  refine ⟨by decide +kernel, .mk { kind := "program", span := ⟨0, 46⟩ } [importNode, functionNode ⟨32, 46⟩ ⟨41, 42⟩],
    ⟨[⟨.mk { kind := "program", span := ⟨0, 46⟩ } [importNode, functionNode ⟨32, 46⟩ ⟨41, 42⟩], []⟩], ⟨importNode, []⟩⟩,
    ?_, ?_, by decide +kernel, by decide +kernel, ?_⟩
  · rfl
  · exact List.mem_cons_of_mem _ (List.mem_map.mpr ⟨⟨[], ⟨importNode, []⟩⟩, List.mem_cons_self, rfl⟩)
  · exact h

/-- The function that is imported under its own name has an edge, the one that is imported under another has none. -/
theorem renamed_import_has_no_edge :
    ∃ stats done, Run.fullIndex (aliasing.timed .epoch) idle = (.ok stats, done) ∧
      let t := done.store.tables
      aliasing.ImportsName .typescript importingText "./b" "bar" "baz" ∧
      aliasing.ImportsName .typescript importingText "./b" "old" "old" ∧
      t.importedFile? .typescript "a.ts" "./b" = some "b.ts" ∧ t.firstNode? "a.ts" = some 1 ∧
      t.firstNamed? "b.ts" "bar" = some 2 ∧ ¬ t.Holds ⟨.imports, 1, 2⟩ ∧
      t.firstNamed? "b.ts" "old" = some 3 ∧ t.Holds ⟨.imports, 1, 3⟩ := by
  obtain ⟨stats, done, hrun, hall⟩ := imports_lead_to_bound_names aliasing .epoch [] idle idle_calm
  obtain ⟨hrecorded, hfirst, hfile, hbar, hbaz, hold⟩ := aliasing_tables hrun
  obtain ⟨language, text, hlanguage, htext, hedges⟩ := hall "a.ts" hrecorded
  have hlanguage' : aliasing.accepts "a.ts" = some .typescript := by decide +kernel
  have htext' : aliasing.source? "a.ts" = some importingText := by decide +kernel
  cases hlanguage.symm.trans hlanguage'
  cases htext.symm.trans htext'
  obtain ⟨hiff, hnamed⟩ := hedges 1 hfirst
  have hrenamed : aliasing.ImportsName .typescript importingText "./b" "bar" "baz" := by
    refine aliasing_imports ⟨rfl, rfl, ⟨_, rfl, by decide +kernel⟩, ?_⟩
    exact ⟨_, _, _, _, rfl, List.mem_cons_self, rfl, List.mem_cons_self, rfl, rfl, by decide +kernel, by decide +kernel⟩
  have hkept : aliasing.ImportsName .typescript importingText "./b" "old" "old" := by
    refine aliasing_imports ⟨rfl, rfl, ⟨_, rfl, by decide +kernel⟩, ?_⟩
    exact ⟨_, _, _, _, rfl, List.mem_cons_self, rfl, List.mem_cons_of_mem _ List.mem_cons_self, rfl, rfl,
      by decide +kernel, by decide +kernel⟩
  refine ⟨stats, done, hrun, hrenamed, hkept, hfile, hfirst, hbar, ?_, hold, hnamed "./b" "old" "old" "b.ts" 3 hkept hfile hold⟩
  -- The names that are listed are the bound ones, and none of them is that of the node.
  have himports : (aliasing.extract .typescript importingText).found.imports =
      [⟨"./b", ["baz", "old"]⟩] := by decide +kernel
  rw [hiff, himports]
  rintro ⟨i, hi, name, hname, file, hmeant, hnode⟩
  obtain rfl := List.mem_singleton.mp hi
  cases hmeant.symm.trans hfile
  rcases List.mem_pair.mp hname with rfl | rfl
  · exact nomatch hbaz.symm.trans hnode
  · exact nomatch hold.symm.trans hnode

end Index
end SymbolGraph
