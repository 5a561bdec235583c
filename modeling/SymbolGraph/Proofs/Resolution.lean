import SymbolGraph.Proofs.FirstPass

/-! The second pass of a run. Whatever happens in it, it changes nothing but edges and ends its
    transaction. What it adds when it succeeds can be said without its memory of files looked up before:
    `links` lists the edges, and `counts` what is counted. It succeeds on every store whose rows can be
    read. -/

namespace SymbolGraph

open Store

/-- An edge that is to be added. -/
structure Link where
  kind : EdgeKind
  source : NodeId
  target : NodeId
  deriving Repr, DecidableEq

namespace Tables

/-- Adds an edge under the next number. -/
def link (now : Time.Instant) (t : Tables) (l : Link) : Tables :=
  { t with edges := t.edges ++ [.new t.nextEdge l.kind l.source l.target now], nextEdge := t.nextEdge + 1 }

/-- Adds the edges one after the other. -/
def linkAll (t : Tables) (now : Time.Instant) (ls : List Link) : Tables := ls.foldl (link now) t

section
variable (t : Tables) (now : Time.Instant) (ls more : List Link)

theorem linkAll_append : t.linkAll now (ls ++ more) = (t.linkAll now ls).linkAll now more := List.foldl_append

theorem linkAll_frame : (t.linkAll now ls).files = t.files ∧ (t.linkAll now ls).nodes = t.nodes ∧
    (t.linkAll now ls).checkpoints = t.checkpoints ∧ (t.linkAll now ls).nextNode = t.nextNode := by
  induction ls generalizing t with
  | nil => exact ⟨rfl, rfl, rfl, rfl⟩
  | cons l rest ih => exact ih (t.link now l)

@[simp] theorem linkAll_files : (t.linkAll now ls).files = t.files := (linkAll_frame t now ls).1

@[simp] theorem linkAll_nodes : (t.linkAll now ls).nodes = t.nodes := (linkAll_frame t now ls).2.1

@[simp] theorem linkAll_nextNode : (t.linkAll now ls).nextNode = t.nextNode := (linkAll_frame t now ls).2.2.2

end

/-- The nodes of a path, none if they cannot be read. -/
def readAt (t : Tables) (path : String) : List GraphNode := (readNodes (t.nodesAt path)).toOption.getD []

/-- All nodes, none if they cannot be read. -/
def readAll (t : Tables) : List GraphNode := (readNodes t.nodes).toOption.getD []

theorem readAll_of_allNodes {st : Store} {nodes : List GraphNode} (h : st.allNodes = .ok nodes) :
    st.tables.readAll = nodes := by
  rw [readAll, show readNodes st.tables.nodes = .ok nodes from h]
  rfl

/-- The nodes of a path that has a record. -/
def lookup? (t : Tables) (path : String) : Option (List GraphNode) :=
  if t.files.any (·.path == path) then some (t.readAt path) else none

/-- Every row of a file and of a node can be read. -/
structure Readable (t : Tables) : Prop where
  files : ∀ row ∈ t.files, ∃ record, row.record = .ok record
  nodes : ∀ row ∈ t.nodes, ∃ node, row.node = .ok node

theorem Readable.file? {st : Store} (h : st.tables.Readable) (path : String) : ∃ found, st.file? path = .ok found := by
  unfold Store.file?
  cases hfind : st.tables.files.find? (·.path == path) with
  | none => exact ⟨none, rfl⟩
  | some row =>
    obtain ⟨record, hrecord⟩ := h.files row (List.mem_of_find?_eq_some hfind)
    exact ⟨some record, congrArg (Except.map some) hrecord⟩

theorem exists_nodes {rows : List NodeRow} (h : ∀ r ∈ rows, ∃ n, r.node = .ok n) :
    ∃ nodes, List.Forall₂ (fun r n => r.node = .ok n) rows nodes := by
  induction rows with
  | nil => exact ⟨[], .nil⟩
  | cons r rest ih =>
    obtain ⟨n, hn⟩ := h r List.mem_cons_self
    obtain ⟨nodes, hnodes⟩ := ih fun r hr => h r (List.mem_cons_of_mem _ hr)
    exact ⟨n :: nodes, .cons hn hnodes⟩

theorem Readable.readNodes {t : Tables} (h : t.Readable) {rows : List NodeRow} (hrows : rows ⊆ t.nodes) :
    ∃ nodes, Store.readNodes rows = .ok nodes := by
  obtain ⟨nodes, hnodes⟩ := exists_nodes fun r hr => h.nodes r (hrows hr)
  exact ⟨nodes, readNodes_eq_ok hnodes⟩

theorem lookup?_congr {t u : Tables} (hf : u.files = t.files) (hn : u.nodes = t.nodes) (path : String) :
    u.lookup? path = t.lookup? path := by
  simp only [lookup?, readAt, nodesAt, hf, hn]

end Tables

namespace Index

/-- The counts of all. -/
def Resolved.total (rs : List Resolved) : Resolved := rs.foldr Resolved.add {}

namespace Resolve

/-! ### The edges and the counts -/

/-- The edges from the source to the first target with each name. -/
def nameLinks (source : NodeId) (targets : List GraphNode) (names : List String) : List Link :=
  names.filterMap fun name => (targets.find? (named name)).map fun n => ⟨.imports, source, n.id⟩

/-- The counts of names among the targets. -/
def nameCounts (targets : List GraphNode) (names : List String) : Resolved where
  importEdges := names.countP fun name => (targets.find? (named name)).isSome
  unresolvedImports := names.countP fun name => (targets.find? (named name)).isNone

/-- The nodes of the file that an import means: the first of the candidates that has a record. -/
def targets? (t : Tables) (res : ModuleResolution) (p : Pending) (i : ImportDeclaration) : Option (List GraphNode) :=
  (Import.candidates res p.path i.specifier).findSome? t.lookup?

/-- The edges of an import. -/
def importLinks (t : Tables) (res : ModuleResolution) (p : Pending) (i : ImportDeclaration) : List Link :=
  match targets? t res p i, p.firstNode? with
  | some targets, some source => nameLinks source targets i.names
  | _, _ => []

/-- The counts of an import. -/
def importCounts (t : Tables) (res : ModuleResolution) (p : Pending) (i : ImportDeclaration) : Resolved :=
  match targets? t res p i, p.firstNode? with
  | some targets, some _ => nameCounts targets i.names
  | _, _ => { unresolvedImports := 1 }

/-- The edges from the caller to the first node that each part may mean. -/
def partLinks (nodes : List GraphNode) (caller : NodeId) (parts : List String) : List Link :=
  parts.filterMap fun part =>
    (nodes.find? (·.symbol.matchesReference part)).map fun n => ⟨.calls, caller, n.id⟩

/-- The edges of a call. -/
def callLinks (nodes : List GraphNode) (p : Pending) (c : CallSite) : List Link :=
  match p.enclosing? c with
  | some caller => partLinks nodes caller (calleeParts c.callee)
  | none => []

/-- The counts of a call. -/
def callCounts (nodes : List GraphNode) (p : Pending) (c : CallSite) : Resolved :=
  match p.enclosing? c with
  | some _ =>
    let created := (callLinks nodes p c).length
    { callEdges := created, unresolvedCalls := if created = 0 then 1 else 0 }
  | none => {}

/-- The imports of a file that count, with the resolution of its language. -/
def importsWith (registry : Registry) (p : Pending) : List (ModuleResolution × ImportDeclaration) :=
  match registry.get? p.language with
  | some language => p.found.imports.map fun i => (language.resolution, i)
  | none => []

/-- The edges of a file. -/
def fileLinks (t : Tables) (registry : Registry) (nodes : List GraphNode) (p : Pending) : List Link :=
  (importsWith registry p).flatMap (fun (res, i) => importLinks t res p i) ++
    p.found.calls.flatMap (callLinks nodes p)

/-- The counts of a file. -/
def fileCounts (t : Tables) (registry : Registry) (nodes : List GraphNode) (p : Pending) : Resolved :=
  (Resolved.total ((importsWith registry p).map fun (res, i) => importCounts t res p i)).add
    (Resolved.total (p.found.calls.map (callCounts nodes p)))

/-- The edges of the files. -/
def links (t : Tables) (registry : Registry) (nodes : List GraphNode) (files : List Pending) : List Link :=
  files.flatMap (fileLinks t registry nodes)

/-- The counts of the files. -/
def counts (t : Tables) (registry : Registry) (nodes : List GraphNode) (files : List Pending) : Resolved :=
  Resolved.total (files.map (fileCounts t registry nodes))

theorem fileLinks_congr {t u : Tables} (hf : u.files = t.files) (hn : u.nodes = t.nodes) (registry : Registry)
    (nodes : List GraphNode) (p : Pending) :
    fileLinks u registry nodes p = fileLinks t registry nodes p ∧
      fileCounts u registry nodes p = fileCounts t registry nodes p := by
  have hlook : u.lookup? = t.lookup? := funext (Tables.lookup?_congr hf hn)
  simp only [fileLinks, fileCounts, importLinks, importCounts, targets?, hlook, and_self]

/-! ### What success leaves behind -/

section Success
variable {α : Type} {s s' : Session} {known known' : Known} {path : String} {now : Time.Instant} {p : Pending}

theorem query_eq_ok {call : Call} {f : Store → Except StoreError α} {a : α}
    (h : Action.query call f s = (.ok a, s')) : f s.store = .ok a ∧ s.Became s.store.tables [] s' := by
  rcases Action.query_cases call f s with ⟨b, hf, h₁⟩ | ⟨e, h₁⟩
  · cases h.symm.trans h₁
    exact ⟨hf, .called s⟩
  · cases h.symm.trans h₁

theorem insertEdge_eq_ok {kind : EdgeKind} {source target : NodeId} {id : EdgeId}
    (h : Action.insertEdge now kind source target s = (.ok id, s')) :
    s.Became (s.store.tables.link now ⟨kind, source, target⟩) [] s' := by
  rw [Action.insertEdge, Fallible.bind_ok (Fallible.get_apply s)] at h
  obtain ⟨_, s₁, hc, hp⟩ := Fallible.bind_eq_ok h
  obtain ⟨-, rfl⟩ := Fallible.pure_eq_ok hp
  cases hg : s.gate s.calls .insertEdge with
  | some e =>
    rw [Action.change_of_some hg] at hc
    cases hc
  | none =>
    obtain ⟨s₂, h₂, b₂⟩ := Action.change_became .insertEdge (fun t => t.link now ⟨kind, source, target⟩) hg
    cases hc.symm.trans h₂
    exact b₂

theorem any_of_file? {st : Store} {found : Option FileRecord} (h : st.file? path = .ok found) :
    st.tables.files.any (·.path == path) = found.isSome := by
  unfold Store.file? at h
  cases hfind : st.tables.files.find? (·.path == path) with
  | none =>
    rw [hfind] at h
    cases h
    simpa [List.find?_eq_none] using hfind
  | some row =>
    rw [hfind] at h
    dsimp only at h
    have hany : st.tables.files.any (·.path == path) = true :=
      List.any_eq_true.mpr ⟨row, List.mem_of_find?_eq_some hfind, by simpa using List.find?_some hfind⟩
    cases hrec : row.record with
    | error e =>
      rw [hrec] at h
      cases h
    | ok record =>
      rw [hrec] at h
      cases h
      exact hany

/-- What is remembered is what the tables say. -/
def Remembers (t : Tables) (known : Known) : Prop := ∀ path nodes, known.lookup path = some nodes → nodes = t.lookup? path

theorem Remembers.nothing (t : Tables) : Remembers t [] := fun _ _ h => by cases h

theorem nodesFor_eq_ok {r : Option (List GraphNode)} (hk : Remembers s.store.tables known)
    (h : nodesFor known path s = (.ok (r, known'), s')) :
    r = s.store.tables.lookup? path ∧ Remembers s.store.tables known' ∧ s.Became s.store.tables [] s' := by
  unfold nodesFor at h
  cases hl : known.lookup path with
  | some nodes =>
    rw [hl] at h
    cases h
    exact ⟨hk path r hl, hk, .refl _⟩
  | none =>
    rw [hl] at h
    obtain ⟨found, s₁, hfile, h⟩ := Fallible.bind_eq_ok h
    obtain ⟨hrow, b₁⟩ := query_eq_ok hfile
    -- What is not remembered is looked up, and remembered as it was found.
    have hlook : r = s.store.tables.lookup? path ∧ known' = (path, r) :: known ∧
        s.Became s.store.tables [] s' := by
      cases found with
      | none =>
        obtain ⟨_, s₂, hnodes, h⟩ := Fallible.bind_eq_ok h
        cases hnodes
        cases h
        exact ⟨by rw [Tables.lookup?, any_of_file? hrow]; rfl, rfl, b₁⟩
      | some record =>
        obtain ⟨_, s₂, hnodes, h⟩ := Fallible.bind_eq_ok h
        cases h
        obtain ⟨ns, hq, rfl⟩ := Fallible.map_eq_ok hnodes
        obtain ⟨hread, b₂⟩ := query_eq_ok hq
        rw [b₁.tables] at b₂
        have hread' : readNodes (s.store.tables.nodesAt path) = .ok ns := by
          rw [← hread, Store.nodesOf, Store.nodeRows, b₁.tables]
          rfl
        refine ⟨?_, rfl, b₁.quietly b₂⟩
        rw [Tables.lookup?, any_of_file? hrow, Tables.readAt, hread']
        rfl
    obtain ⟨hr, rfl, hb⟩ := hlook
    refine ⟨hr, fun path' nodes hl' => ?_, hb⟩
    by_cases hp : path' = path
    · subst hp
      simp only [List.lookup_cons_self, Option.some.injEq] at hl'
      exact hl'.symm.trans hr
    · rw [List.lookup_cons, beq_false_of_ne hp] at hl'
      exact hk path' nodes hl'

theorem firstTarget_eq_ok {r : Option (List GraphNode)} (paths : List String)
    (hk : Remembers s.store.tables known) (h : firstTarget known paths s = (.ok (r, known'), s')) :
    r = paths.findSome? s.store.tables.lookup? ∧ Remembers s.store.tables known' ∧
      s.Became s.store.tables [] s' := by
  induction paths generalizing s known with
  | nil =>
    cases h
    exact ⟨rfl, hk, .refl _⟩
  | cons path rest ih =>
    rw [firstTarget] at h
    obtain ⟨⟨found, known₁⟩, s₁, h₁, h⟩ := Fallible.bind_eq_ok h
    obtain ⟨hfound, hk₁, b₁⟩ := nodesFor_eq_ok hk h₁
    cases found with
    | some nodes =>
      cases h
      exact ⟨by rw [List.findSome?_cons, ← hfound], hk₁, b₁⟩
    | none =>
      rw [← b₁.tables] at hk₁
      obtain ⟨hr, hk₂, b₂⟩ := ih hk₁ h
      rw [b₁.tables] at hr hk₂ b₂
      exact ⟨by rw [List.findSome?_cons, ← hfound]; exact hr, hk₂, b₁.quietly b₂⟩

theorem importNames_eq_ok {source : NodeId} {targets : List GraphNode} {r : Resolved} (names : List String)
    (h : importNames now source targets names s = (.ok r, s')) :
    r = nameCounts targets names ∧
      s.Became (s.store.tables.linkAll now (nameLinks source targets names)) [] s' := by
  induction names generalizing s r with
  | nil =>
    cases h
    exact ⟨rfl, .refl _⟩
  | cons name rest ih =>
    rw [importNames] at h
    cases hfind : targets.find? (named name) with
    | none =>
      rw [hfind] at h
      obtain ⟨_, s₁, h₁, h⟩ := Fallible.bind_eq_ok h
      cases h₁
      obtain ⟨more, s₂, h₂, h⟩ := Fallible.bind_eq_ok h
      cases h
      obtain ⟨rfl, b₂⟩ := ih h₂
      refine ⟨?_, by simpa [nameLinks, hfind] using b₂⟩
      simp [nameCounts, Resolved.add, hfind, Nat.add_comm]
    | some target =>
      rw [hfind] at h
      obtain ⟨_, s₁, h₁, h⟩ := Fallible.bind_eq_ok h
      obtain ⟨_, s₂, h₂, h⟩ := Fallible.bind_eq_ok h
      cases h₂
      have b₁ := insertEdge_eq_ok h₁
      obtain ⟨more, s₃, h₃, h⟩ := Fallible.bind_eq_ok h
      cases h
      obtain ⟨rfl, b₂⟩ := ih h₃
      rw [b₁.tables] at b₂
      refine ⟨?_, by simpa [nameLinks, hfind, Tables.linkAll] using b₁.quietly b₂⟩
      simp [nameCounts, Resolved.add, hfind, Nat.add_comm]

theorem importOf_eq_ok {res : ModuleResolution} {i : ImportDeclaration} {r : Resolved}
    (hk : Remembers s.store.tables known) (h : importOf now res p known i s = (.ok (r, known'), s')) :
    r = importCounts s.store.tables res p i ∧ Remembers s.store.tables known' ∧
      s.Became (s.store.tables.linkAll now (importLinks s.store.tables res p i)) [] s' := by
  unfold importOf at h
  unfold importCounts importLinks targets?
  cases hc : (Import.candidates res p.path i.specifier).isEmpty with
  | true =>
    simp only [hc, if_true] at h
    cases h
    rw [List.isEmpty_iff.mp hc]
    exact ⟨rfl, hk, .refl _⟩
  | false =>
    simp only [hc] at h
    obtain ⟨⟨target, known₁⟩, s₁, h₁, h⟩ := Fallible.bind_eq_ok h
    obtain ⟨rfl, hk₁, b₁⟩ := firstTarget_eq_ok _ hk h₁
    cases ht : (Import.candidates res p.path i.specifier).findSome? s.store.tables.lookup? with
    | none =>
      rw [ht] at h
      cases h
      exact ⟨rfl, hk₁, b₁⟩
    | some targets =>
      cases hs : p.firstNode? with
      | none =>
        rw [ht, hs] at h
        cases h
        exact ⟨rfl, hk₁, b₁⟩
      | some source =>
        rw [ht, hs] at h
        obtain ⟨r₁, s₂, h₂, h⟩ := Fallible.bind_eq_ok h
        cases h
        obtain ⟨rfl, b₂⟩ := importNames_eq_ok i.names h₂
        rw [b₁.tables] at b₂
        exact ⟨rfl, hk₁, b₁.quietly b₂⟩

theorem importLinks_congr {t u : Tables} (hf : u.files = t.files) (hn : u.nodes = t.nodes) (res : ModuleResolution)
    (p : Pending) (i : ImportDeclaration) :
    importLinks u res p i = importLinks t res p i ∧ importCounts u res p i = importCounts t res p i := by
  have hlook : u.lookup? = t.lookup? := funext (Tables.lookup?_congr hf hn)
  simp only [importLinks, importCounts, targets?, hlook, and_self]

theorem Remembers.congr {t u : Tables} (hf : u.files = t.files) (hn : u.nodes = t.nodes) (h : Remembers t known) :
    Remembers u known := fun path nodes hl => by
  rw [Tables.lookup?_congr hf hn]
  exact h path nodes hl

theorem importsOf_eq_ok {res : ModuleResolution} {r : Resolved} (imports : List ImportDeclaration)
    (hk : Remembers s.store.tables known) (h : importsOf now res p known imports s = (.ok (r, known'), s')) :
    r = Resolved.total (imports.map (importCounts s.store.tables res p)) ∧ Remembers s.store.tables known' ∧
      s.Became (s.store.tables.linkAll now (imports.flatMap (importLinks s.store.tables res p))) [] s' := by
  induction imports generalizing s known r with
  | nil =>
    cases h
    exact ⟨rfl, hk, .refl _⟩
  | cons i rest ih =>
    rw [importsOf] at h
    obtain ⟨⟨r₁, known₁⟩, s₁, h₁, h⟩ := Fallible.bind_eq_ok h
    obtain ⟨⟨r₂, known₂⟩, s₂, h₂, h⟩ := Fallible.bind_eq_ok h
    cases h
    obtain ⟨rfl, hk₁, b₁⟩ := importOf_eq_ok hk h₁
    have hf : s₁.store.tables.files = s.store.tables.files := by rw [b₁.tables, Tables.linkAll_files]
    have hn : s₁.store.tables.nodes = s.store.tables.nodes := by rw [b₁.tables, Tables.linkAll_nodes]
    obtain ⟨rfl, hk₂, b₂⟩ := ih (hk₁.congr hf hn) h₂
    have hlinks : importLinks s₁.store.tables res p = importLinks s.store.tables res p :=
      funext fun i => (importLinks_congr hf hn res p i).1
    have hcounts : importCounts s₁.store.tables res p = importCounts s.store.tables res p :=
      funext fun i => (importLinks_congr hf hn res p i).2
    rw [hlinks, b₁.tables, ← Tables.linkAll_append] at b₂
    rw [hcounts]
    exact ⟨rfl, hk₂.congr hf.symm hn.symm, b₁.quietly b₂⟩

theorem callParts_eq_ok {nodes : List GraphNode} {caller : NodeId} {n : Nat} (parts : List String)
    (h : callParts now nodes caller parts s = (.ok n, s')) :
    n = (partLinks nodes caller parts).length ∧
      s.Became (s.store.tables.linkAll now (partLinks nodes caller parts)) [] s' := by
  induction parts generalizing s n with
  | nil =>
    cases h
    exact ⟨rfl, .refl _⟩
  | cons part rest ih =>
    rw [callParts] at h
    cases hfind : nodes.find? (·.symbol.matchesReference part) with
    | none =>
      rw [hfind] at h
      obtain ⟨rfl, b⟩ := ih h
      exact ⟨by simp [partLinks, hfind], by simpa [partLinks, hfind] using b⟩
    | some target =>
      rw [hfind] at h
      obtain ⟨_, s₁, h₁, h⟩ := Fallible.bind_eq_ok h
      obtain ⟨m, s₂, h₂, h⟩ := Fallible.bind_eq_ok h
      cases h
      have b₁ := insertEdge_eq_ok h₁
      obtain ⟨rfl, b₂⟩ := ih h₂
      rw [b₁.tables] at b₂
      exact ⟨by simp [partLinks, hfind], by simpa [partLinks, hfind, Tables.linkAll] using b₁.quietly b₂⟩

theorem callOf_eq_ok {nodes : List GraphNode} {c : CallSite} {r : Resolved}
    (h : callOf now nodes p c s = (.ok r, s')) :
    r = callCounts nodes p c ∧ s.Became (s.store.tables.linkAll now (callLinks nodes p c)) [] s' := by
  unfold callOf at h
  unfold callCounts callLinks
  cases he : p.enclosing? c with
  | none =>
    rw [he] at h
    cases h
    exact ⟨rfl, .refl _⟩
  | some caller =>
    rw [he] at h
    obtain ⟨n, s₁, h₁, h⟩ := Fallible.bind_eq_ok h
    cases h
    obtain ⟨rfl, b₁⟩ := callParts_eq_ok _ h₁
    exact ⟨rfl, b₁⟩

theorem callsOf_eq_ok {nodes : List GraphNode} {r : Resolved} (calls : List CallSite)
    (h : callsOf now nodes p calls s = (.ok r, s')) :
    r = Resolved.total (calls.map (callCounts nodes p)) ∧
      s.Became (s.store.tables.linkAll now (calls.flatMap (callLinks nodes p))) [] s' := by
  induction calls generalizing s r with
  | nil =>
    cases h
    exact ⟨rfl, .refl _⟩
  | cons c rest ih =>
    rw [callsOf] at h
    obtain ⟨r₁, s₁, h₁, h⟩ := Fallible.bind_eq_ok h
    obtain ⟨r₂, s₂, h₂, h⟩ := Fallible.bind_eq_ok h
    cases h
    obtain ⟨rfl, b₁⟩ := callOf_eq_ok h₁
    obtain ⟨rfl, b₂⟩ := ih h₂
    rw [b₁.tables, ← Tables.linkAll_append] at b₂
    exact ⟨rfl, b₁.quietly b₂⟩

theorem fileOf_eq_ok {registry : Registry} {nodes : List GraphNode} {r : Resolved}
    (hk : Remembers s.store.tables known) (h : fileOf now registry nodes known p s = (.ok (r, known'), s')) :
    r = fileCounts s.store.tables registry nodes p ∧ Remembers s.store.tables known' ∧
      s.Became (s.store.tables.linkAll now (fileLinks s.store.tables registry nodes p)) [] s' := by
  unfold fileOf at h
  unfold fileCounts fileLinks importsWith
  cases hl : registry.get? p.language with
  | none =>
    rw [hl] at h
    obtain ⟨_, s₁, h₁, h⟩ := Fallible.bind_eq_ok h
    cases h₁
    obtain ⟨r₂, s₂, h₂, h⟩ := Fallible.bind_eq_ok h
    cases h
    obtain ⟨rfl, b₂⟩ := callsOf_eq_ok _ h₂
    exact ⟨rfl, hk, b₂⟩
  | some language =>
    rw [hl] at h
    obtain ⟨⟨r₁, known₁⟩, s₁, h₁, h⟩ := Fallible.bind_eq_ok h
    obtain ⟨r₂, s₂, h₂, h⟩ := Fallible.bind_eq_ok h
    cases h
    obtain ⟨rfl, hk₁, b₁⟩ := importsOf_eq_ok _ hk h₁
    obtain ⟨rfl, b₂⟩ := callsOf_eq_ok _ h₂
    rw [b₁.tables, ← Tables.linkAll_append] at b₂
    refine ⟨?_, hk₁, ?_⟩
    · simp [List.map_map, Function.comp_def]
    · simpa [List.flatMap_map] using b₁.quietly b₂

theorem filesOf_eq_ok {registry : Registry} {nodes : List GraphNode} {r : Resolved} (files : List Pending)
    (hk : Remembers s.store.tables known) (h : filesOf now registry nodes known files s = (.ok r, s')) :
    r = counts s.store.tables registry nodes files ∧
      s.Became (s.store.tables.linkAll now (links s.store.tables registry nodes files)) [] s' := by
  induction files generalizing s known r with
  | nil =>
    cases h
    exact ⟨rfl, .refl _⟩
  | cons p rest ih =>
    rw [filesOf] at h
    obtain ⟨⟨r₁, known₁⟩, s₁, h₁, h⟩ := Fallible.bind_eq_ok h
    obtain ⟨r₂, s₂, h₂, h⟩ := Fallible.bind_eq_ok h
    cases h
    obtain ⟨rfl, hk₁, b₁⟩ := fileOf_eq_ok hk h₁
    have hf : s₁.store.tables.files = s.store.tables.files := by rw [b₁.tables, Tables.linkAll_files]
    have hn : s₁.store.tables.nodes = s.store.tables.nodes := by rw [b₁.tables, Tables.linkAll_nodes]
    obtain ⟨rfl, b₂⟩ := ih (hk₁.congr hf hn) h₂
    have hlinks : fileLinks s₁.store.tables registry nodes = fileLinks s.store.tables registry nodes :=
      funext fun p => (fileLinks_congr hf hn registry nodes p).1
    have hcounts : fileCounts s₁.store.tables registry nodes = fileCounts s.store.tables registry nodes :=
      funext fun p => (fileLinks_congr hf hn registry nodes p).2
    rw [links, hlinks, b₁.tables, ← Tables.linkAll_append] at b₂
    rw [counts, hcounts]
    exact ⟨rfl, b₁.quietly b₂⟩

end Success

/-! ### Whatever happens -/

section Frame
variable {C : ∀ {α : Type}, Action α → Prop} {R : List String} {s : Session}

/-- The property holds of the calls of a second pass, and of work whose parts have it. -/
structure Pervades (C : ∀ {α : Type}, Action α → Prop) : Prop where
  pure : ∀ {α : Type} (a : α), C (pure a : Action α)
  bind : ∀ {α β : Type} {x : Action α} {f : α → Action β}, C x → (∀ a, C (f a)) → C (x >>= f)
  file : ∀ path, C (Action.file? path)
  nodes : ∀ path, C (Action.nodesOf path)
  edge : ∀ now kind source target, C (Action.insertEdge now kind source target)

namespace Pervades
variable (h : Pervades C)
include h

theorem nodesFor (known : Known) (path : String) : C (nodesFor known path) := by
  unfold Resolve.nodesFor
  split
  · exact h.pure _
  · refine h.bind (h.file path) fun found => ?_
    cases found with
    | none => exact h.bind (h.pure _) fun _ => h.pure _
    | some record =>
      have hmap : some <$> Action.nodesOf path = Action.nodesOf path >>= fun nodes => Pure.pure (some nodes) :=
        funext fun s => by
          rw [Fallible.map_apply, Fallible.bind_apply]
          rfl
      dsimp only
      rw [hmap]
      exact h.bind (h.bind (h.nodes path) fun _ => h.pure _) fun _ => h.pure _

theorem firstTarget (known : Known) (paths : List String) : C (firstTarget known paths) := by
  induction paths generalizing known with
  | nil => exact h.pure _
  | cons path rest ih =>
    refine h.bind (h.nodesFor known path) fun (found, known) => ?_
    cases found with
    | none => exact ih known
    | some nodes => exact h.pure _

theorem importNames (now : Time.Instant) (source : NodeId) (targets : List GraphNode) (names : List String) :
    C (importNames now source targets names) := by
  induction names with
  | nil => exact h.pure _
  | cons name rest ih =>
    unfold Resolve.importNames
    split
    · exact h.bind (h.edge _ _ _ _) fun _ => h.bind (h.pure _) fun _ => h.bind ih fun _ => h.pure _
    · exact h.bind (h.pure _) fun _ => h.bind ih fun _ => h.pure _

theorem importsOf (now : Time.Instant) (res : ModuleResolution) (p : Pending) (known : Known)
    (imports : List ImportDeclaration) : C (importsOf now res p known imports) := by
  induction imports generalizing known with
  | nil => exact h.pure _
  | cons i rest ih =>
    refine h.bind ?_ fun (_, known) => h.bind (ih known) fun _ => h.pure _
    unfold importOf
    dsimp only
    split
    · exact h.pure _
    · refine h.bind (h.firstTarget _ _) fun (target, known) => ?_
      split
      · exact h.bind (h.importNames _ _ _ _) fun _ => h.pure _
      · exact h.pure _

theorem callParts (now : Time.Instant) (nodes : List GraphNode) (caller : NodeId) (parts : List String) :
    C (callParts now nodes caller parts) := by
  induction parts with
  | nil => exact h.pure _
  | cons part rest ih =>
    unfold Resolve.callParts
    split
    · exact h.bind (h.edge _ _ _ _) fun _ => h.bind ih fun _ => h.pure _
    · exact ih

theorem callsOf (now : Time.Instant) (nodes : List GraphNode) (p : Pending) (calls : List CallSite) :
    C (callsOf now nodes p calls) := by
  induction calls with
  | nil => exact h.pure _
  | cons c rest ih =>
    refine h.bind ?_ fun _ => h.bind ih fun _ => h.pure _
    unfold callOf
    split
    · exact h.pure _
    · exact h.bind (h.callParts _ _ _ _) fun _ => h.pure _

theorem filesOf (now : Time.Instant) (registry : Registry) (nodes : List GraphNode) (known : Known)
    (files : List Pending) : C (filesOf now registry nodes known files) := by
  induction files generalizing known with
  | nil => exact h.pure _
  | cons p rest ih =>
    refine h.bind ?_ fun (_, known) => h.bind (ih known) fun _ => h.pure _
    unfold fileOf
    split
    · exact h.bind (h.importsOf _ _ _ _ _) fun _ => h.bind (h.callsOf _ _ _ _) fun _ => h.pure _
    · exact h.bind (h.pure _) fun _ => h.bind (h.callsOf _ _ _ _) fun _ => h.pure _

end Pervades

/-- Whatever the action does to the tables, it leaves the transaction and the gate alone and tells nothing. -/
def Quiet {α : Type} (x : Action α) : Prop := ∀ s : Session, ∃ t, s.Became t [] (x s).2

theorem quiet_query {α : Type} (call : Call) (f : Store → Except StoreError α) : Quiet (Action.query call f) :=
  fun s => by
    rcases Action.query_cases call f s with ⟨a, -, h⟩ | ⟨e, h⟩ <;> rw [h] <;> exact ⟨_, .called s⟩

theorem quiet_pervades : Pervades Quiet where
  pure a s := ⟨_, .refl s⟩
  bind {α β x f} hx hf s := by
    obtain ⟨t, b₁⟩ := hx s
    rw [Fallible.bind_apply]
    rcases hxs : x s with ⟨_ | a, s₁⟩ <;> rw [hxs] at b₁
    · exact ⟨t, b₁⟩
    · obtain ⟨u, b₂⟩ := hf a s₁
      exact ⟨u, b₁.quietly b₂⟩
  file path := quiet_query _ _
  nodes path := quiet_query _ _
  edge now kind source target s := by
    rw [Action.insertEdge, Fallible.bind_ok (Fallible.get_apply s)]
    cases hg : s.gate s.calls .insertEdge with
    | some e =>
      rw [Fallible.bind_error (Action.change_of_some hg)]
      exact ⟨_, rfl, rfl, by simp⟩
    | none =>
      obtain ⟨s', h, b⟩ := Action.change_became .insertEdge (fun t => t.link now ⟨kind, source, target⟩) hg
      have h' : Action.change .insertEdge (fun st => .ok (st.insertEdge now kind source target)) s = (.ok (), s') := h
      rw [Fallible.bind_ok h']
      exact ⟨_, b⟩

/-- On tables that can be read the action succeeds and leaves them so, if only changes of nodes are refused. -/
def Sure (R : List String) {α : Type} (x : Action α) : Prop :=
  ∀ s : Session, s.gate = .refusing R → s.store.tables.Readable →
    ∃ a s', x s = (.ok a, s') ∧ s'.gate = .refusing R ∧ s'.store.tables.Readable

theorem sure_query {α : Type} {call : Call} {f : Store → Except StoreError α}
    (hcall : ∀ n, Gate.refusing R n call = none) (hf : ∀ st : Store, st.tables.Readable → ∃ a, f st = .ok a) :
    Sure R (Action.query call f) := fun s hg hr => by
  obtain ⟨s', h, b⟩ := Action.query_of_none (s := s) call f (by rw [hg]; exact hcall _)
  obtain ⟨a, ha⟩ := hf s.store hr
  rw [ha] at h
  exact ⟨a, s', h, b.gate.trans hg, b.tables ▸ hr⟩

theorem sure_pervades : Pervades (Sure R) where
  pure a s hg hr := ⟨a, s, rfl, hg, hr⟩
  bind {α β x f} hx hf s hg hr := by
    obtain ⟨a, s₁, h₁, hg₁, hr₁⟩ := hx s hg hr
    obtain ⟨b, s₂, h₂, hg₂, hr₂⟩ := hf a s₁ hg₁ hr₁
    exact ⟨b, s₂, (Fallible.bind_ok h₁).trans h₂, hg₂, hr₂⟩
  file path := sure_query (fun _ => rfl) fun st hr => hr.file? path
  nodes path := sure_query (fun _ => rfl) fun st hr => hr.readNodes (List.filter_subset_self _)
  edge now kind source target s hg hr := by
    obtain ⟨s', h, b⟩ := Action.change_became (s := s) .insertEdge (fun t => t.link now ⟨kind, source, target⟩)
      (by rw [hg]; rfl)
    refine ⟨_, s', (Fallible.bind_ok (Fallible.get_apply s)).trans (Fallible.bind_ok h), b.gate.trans hg, ?_⟩
    rw [b.tables]
    exact ⟨hr.files, hr.nodes⟩

/-- A second pass adds the links of its files and counts them, unless something in the tables cannot be read; then
    it fails and changes nothing. -/
theorem pending_cases (h : s.Calm R) (now : Time.Instant) (registry : Registry)
    (files : List Pending) :
    (∃ s', pending now registry files s = (.ok (counts s.store.tables registry s.store.tables.readAll files), s') ∧
      s.Became (s.store.tables.linkAll now (links s.store.tables registry s.store.tables.readAll files)) [] s') ∨
    ¬ s.store.tables.Readable ∧
      ∃ e s', pending now registry files s = (.error e, s') ∧ s.Became s.store.tables [] s' := by
  unfold pending
  cases files with
  | nil => exact .inl ⟨s, rfl, .refl s⟩
  | cons p rest =>
  obtain ⟨s₁, h₁, b₁⟩ := Action.query_of_none (s := s) .allNodes (·.allNodes) (by rw [h.gate]; rfl)
  have calm₁ := b₁.calm h
  have htables : (Run.opened s₁).store.tables = s.store.tables := b₁.tables
  simp only [List.isEmpty_cons, Bool.false_eq_true, if_false]
  cases hall : s.store.allNodes with
  | error e =>
    rw [hall] at h₁
    refine .inr ⟨fun hr => ?_, .store e, s₁, Fallible.bind_error h₁, b₁⟩
    obtain ⟨nodes, hnodes⟩ := hr.readNodes (List.Subset.refl _)
    exact nomatch hall.symm.trans hnodes
  | ok nodes =>
    rw [hall] at h₁
    have h₁ : Action.allNodes s = (.ok nodes, s₁) := h₁
    have hread : s.store.tables.readAll = nodes := Tables.readAll_of_allNodes hall
    rw [Fallible.bind_ok h₁, Fallible.bind_ok (Run.begin_calm calm₁)]
    rcases hfiles : filesOf now registry nodes [] (p :: rest) (Run.opened s₁) with ⟨e | r, s₂⟩
    · -- Edges may have been added before the failure; the rollback takes them back.
      obtain ⟨t, b₂⟩ := quiet_pervades.filesOf now registry nodes [] (p :: rest) (Run.opened s₁)
      rw [hfiles] at b₂
      have hunread : ¬ s.store.tables.Readable := fun hr => by
        obtain ⟨r, s₃, hok, -⟩ := sure_pervades.filesOf now registry nodes [] (p :: rest) (Run.opened s₁) calm₁.gate
          (htables ▸ hr)
        exact nomatch hfiles.symm.trans hok
      have hrollback := Run.rollback_open (by rw [b₂.gate.trans calm₁.gate]; rfl) b₂.before?
      rw [b₁.tables] at hrollback
      rw [Action.attempt_error hfiles]
      refine .inr ⟨hunread, e, Run.closed s₂ s.store.tables, ?_, b₁.quietly (Run.became_closed calm₁.idle b₂)⟩
      show (Action.tryRollback >>= fun _ => throw e) s₂ = _
      rw [Action.tryRollback, Fallible.bind_apply, Fallible.bind_apply, Action.attempt_apply, hrollback]
      rfl
    · obtain ⟨rfl, b₂⟩ := filesOf_eq_ok (p :: rest) (Remembers.nothing _) hfiles
      rw [htables] at b₂ hfiles
      have hcommit := Run.commit_open (by rw [b₂.gate.trans calm₁.gate]; rfl) b₂.before?
      rw [b₂.tables] at hcommit
      rw [Action.attempt_ok hfiles, hread]
      refine .inl ⟨_, ?_, b₁.quietly (Run.became_closed calm₁.idle b₂)⟩
      exact Fallible.bind_ok hcommit

end Frame

end Resolve
end Index
end SymbolGraph
