import SymbolGraph.Proofs.Counters
import SymbolGraph.Proofs.Fallible
import SymbolGraph.Proofs.Pieces

/-! A second pass without its memory. What the imports and calls of its files lead to can be read off the store from
    before the pass: an import means the first of its candidates that has a record, a call the first of all nodes with
    each part of its callee. A pass that succeeds adds just those edges, and its counts follow from them. -/

namespace SymbolGraph

open Store Fallible

namespace Store
variable {rows : List NodeRow} {nodes : List GraphNode}

/-! ### Some of the rows -/

theorem texts_of_node {r : NodeRow} {n : GraphNode} (h : r.node = .ok n) :
    n.path = r.path ∧ n.symbol.name = r.name ∧ n.symbol.fqname = r.fqname := by
  obtain ⟨start, -, h⟩ := exists_of_bind h
  obtain ⟨stop, -, h⟩ := exists_of_bind h
  split at h
  · cases h
  · split at h
    · cases h
    · split at h <;> cases h
      exact ⟨rfl, rfl, rfl⟩

theorem readNodes_iff : readNodes rows = .ok nodes ↔ List.Forall₂ (fun r n => r.node = .ok n) rows nodes := by
  refine ⟨fun h => ?_, readNodes_eq_ok⟩
  obtain ⟨⟨⟩, -, hnodes⟩ := exists_of_bind h
  exact forall₂_of_mapM hnodes

theorem readNodes_filter (h : readNodes rows = .ok nodes) (path : String) :
    readNodes (rows.filter (·.path == path)) = .ok (nodes.filter (·.path == path)) := by
  rw [readNodes_iff] at h ⊢
  induction h with
  | nil => exact .nil
  | cons hr _ ih =>
    rw [List.filter_cons, List.filter_cons, (texts_of_node hr).1]
    split
    · exact .cons hr ih
    · exact ih

theorem readNodes_ascending (h : readNodes rows = .ok nodes) (hrows : rows.Pairwise (·.id < ·.id)) :
    nodes.Pairwise (·.id < ·.id) := by
  obtain ⟨⟨⟩, -, hnodes⟩ := exists_of_bind h
  have hids : nodes.map (·.id) = rows.map (·.id) := map_eq_of_mapM hnodes fun _ _ => Index.node_id
  have hmap : (nodes.map (·.id)).Pairwise (· < ·) := by
    rw [hids]
    exact List.pairwise_map.mpr hrows
  exact List.pairwise_map.mp hmap

end Store

namespace Index
namespace Resolve

/-! ### Parts of callees -/

/-- The parts that are not empty before and after the last dot of the callee, or the callee itself if it has no dot. -/
inductive PartsOf : String → List String → Prop where
  | dotted (head tail : String) : '.' ∉ tail.toList → PartsOf (head ++ "." ++ tail) ([head, tail].filter (· ≠ ""))
  | plain (callee : String) : '.' ∉ callee.toList → PartsOf callee ([callee].filter (· ≠ ""))

theorem calleeParts_partsOf (callee : String) : PartsOf callee (calleeParts callee) := by
  unfold calleeParts
  rcases Text.cutLast_cases '.' callee with ⟨head, tail, rfl, htail, hcut⟩ | ⟨hnone, hcut⟩
  · rw [hcut]
    exact .dotted head tail htail
  · rw [hcut]
    exact .plain callee hnone

/-! ### What imports and calls lead to -/

section
variable (st : Store) (registry : Registry) (nodes : List GraphNode) (p : Pending)

/-- The nodes that an import may name: those of the first of its candidates that has a record. -/
def meant? (i : ImportDeclaration) : Option (List GraphNode) := do
  let language ← registry.get? p.language
  let path ← (Import.candidates language.resolution p.path i.specifier).find? st.hasFile
  return nodes.filter (·.path == path)

/-- The edges of an import: from the first node of its file to the first node meant with each of its names. -/
def madeByImport (i : ImportDeclaration) : List Link :=
  match meant? st registry nodes p i, p.firstNode? with
  | some targets, some source =>
    i.names.filterMap fun name => (targets.find? (named name)).map fun n => ⟨.imports, source, n.id⟩
  | _, _ => []

/-- What an import adds to the count of those without an edge: one if it leads nowhere, or each name without a node. -/
def unresolvedOf (i : ImportDeclaration) : Nat :=
  if (registry.get? p.language).isNone then 0
  else
    match meant? st registry nodes p i, p.firstNode? with
    | some targets, some _ => i.names.countP fun name => ¬ targets.any (named name)
    | _, _ => 1

/-- The edges of a file. -/
def madeByFile : List Link :=
  p.found.imports.flatMap (madeByImport st registry nodes p) ++ p.found.calls.flatMap (callLinks nodes p)

/-- The calls of a file that are made within a node and have no edge. -/
def callsWithoutEdge : List CallSite :=
  p.found.calls.filter fun c => (p.enclosing? c).isSome && (callLinks nodes p c).isEmpty

end

/-- A second pass has read its edges and counts off the store. -/
structure ReadOff (now : Time.Instant) (registry : Registry) (files : List Pending) (st : Store) (nodes : List GraphNode)
    (r : Resolved) (after : Store) : Prop where
  /-- The nodes are all those of the store, in the order of their numbers. -/
  read : files ≠ [] → st.allNodes = .ok nodes
  ascending : st.tables.nodes.Pairwise (·.id < ·.id) → nodes.Pairwise (·.id < ·.id)
  /-- Nothing changes but the edges and their next number. -/
  store : after = { st with tables := { st.tables with
    edges := st.tables.edges ++
      EdgeRow.numbered now st.tables.nextEdge (files.flatMap (madeByFile st registry nodes))
    nextEdge := st.tables.nextEdge + (files.flatMap (madeByFile st registry nodes)).length } }
  importEdges : r.importEdges = (files.flatMap (madeByFile st registry nodes)).countP (·.kind = .imports)
  callEdges : r.callEdges = (files.flatMap (madeByFile st registry nodes)).countP (·.kind = .calls)
  unresolvedImports : r.unresolvedImports =
    (files.map fun p => (p.found.imports.map (unresolvedOf st registry nodes p)).sum).sum
  unresolvedCalls : r.unresolvedCalls = (files.map fun p => (callsWithoutEdge nodes p).length).sum

/-! ### The same with what is remembered left out -/

section
variable {st : Store} {registry : Registry} {nodes : List GraphNode} {p : Pending}

theorem findSome?_lookup? (t : Tables) (paths : List String) :
    paths.findSome? t.lookup? = (paths.find? fun path => t.files.any (·.path == path)).map t.readAt := by
  induction paths with
  | nil => rfl
  | cons path rest ih =>
    rw [List.findSome?_cons, List.find?_cons, Tables.lookup?]
    cases t.files.any (·.path == path) with
    | true => rfl
    | false => exact ih

theorem readAt_of_allNodes (hnodes : st.allNodes = .ok nodes) (path : String) :
    st.tables.readAt path = nodes.filter (·.path == path) := by
  rw [Tables.readAt, Tables.nodesAt, readNodes_filter hnodes path]
  rfl

theorem meant?_of_registered {language : Language} (hnodes : st.allNodes = .ok nodes)
    (hlanguage : registry.get? p.language = some language) (i : ImportDeclaration) :
    meant? st registry nodes p i = targets? st.tables language.resolution p i := by
  have hrecorded : (fun path => st.tables.files.any (·.path == path)) = st.hasFile := rfl
  rw [targets?, findSome?_lookup?, hrecorded, funext (readAt_of_allNodes hnodes), meant?, hlanguage]
  cases hpath : (Import.candidates language.resolution p.path i.specifier).find? st.hasFile <;> simp [hpath]

theorem importsWith_links (hnodes : st.allNodes = .ok nodes) :
    (importsWith registry p).flatMap (fun (res, i) => importLinks st.tables res p i) =
      p.found.imports.flatMap (madeByImport st registry nodes p) := by
  unfold importsWith
  cases hlanguage : registry.get? p.language with
  | none =>
    refine (List.flatMap_eq_nil_iff.mpr fun i _ => ?_).symm
    simp [madeByImport, meant?, hlanguage]
  | some language =>
    rw [List.flatMap_map]
    refine List.flatMap_congr fun i _ => ?_
    rw [madeByImport, meant?_of_registered hnodes hlanguage]
    rfl

theorem fileLinks_eq (hnodes : st.allNodes = .ok nodes) :
    fileLinks st.tables registry nodes p = madeByFile st registry nodes p := by
  rw [fileLinks, madeByFile, importsWith_links hnodes]

theorem total_unresolvedImports (rs : List Resolved) :
    (Resolved.total rs).unresolvedImports = (rs.map (·.unresolvedImports)).sum := by
  induction rs with
  | nil => rfl
  | cons r rest ih => exact congrArg (r.unresolvedImports + ·) ih

theorem total_unresolvedCalls (rs : List Resolved) :
    (Resolved.total rs).unresolvedCalls = (rs.map (·.unresolvedCalls)).sum := by
  induction rs with
  | nil => rfl
  | cons r rest ih => exact congrArg (r.unresolvedCalls + ·) ih

theorem importsWith_unresolved (hnodes : st.allNodes = .ok nodes) :
    ((importsWith registry p).map fun (res, i) => (importCounts st.tables res p i).unresolvedImports).sum =
      (p.found.imports.map (unresolvedOf st registry nodes p)).sum := by
  unfold importsWith
  cases hlanguage : registry.get? p.language with
  | none =>
    refine (List.sum_eq_zero_iff_forall_eq_nat.mpr fun n hn => ?_).symm
    obtain ⟨i, -, rfl⟩ := List.mem_map.mp hn
    simp [unresolvedOf, hlanguage]
  | some language =>
    rw [List.map_map]
    refine congrArg List.sum (List.map_congr_left fun i _ => ?_)
    rw [unresolvedOf, hlanguage, meant?_of_registered hnodes hlanguage]
    simp only [Function.comp_apply, importCounts]
    cases targets? st.tables language.resolution p i with
    | none => rfl
    | some targets =>
      cases p.firstNode? with
      | none => rfl
      | some source => exact List.countP_congr fun name _ => by simp

theorem callCounts_unresolvedImports (c : CallSite) : (callCounts nodes p c).unresolvedImports = 0 := by
  unfold callCounts
  split <;> rfl

theorem importCounts_unresolvedCalls (t : Tables) (res : ModuleResolution) (i : ImportDeclaration) :
    (importCounts t res p i).unresolvedCalls = 0 := by
  unfold importCounts
  split <;> rfl

theorem callCounts_unresolvedCalls (c : CallSite) : (callCounts nodes p c).unresolvedCalls =
    if (p.enclosing? c).isSome && (callLinks nodes p c).isEmpty then 1 else 0 := by
  unfold callCounts
  cases p.enclosing? c with
  | none => rfl
  | some caller => simp

theorem fileCounts_unresolvedImports (hnodes : st.allNodes = .ok nodes) :
    (fileCounts st.tables registry nodes p).unresolvedImports =
      (p.found.imports.map (unresolvedOf st registry nodes p)).sum := by
  show (Resolved.total _).unresolvedImports + (Resolved.total _).unresolvedImports = _
  rw [total_unresolvedImports, total_unresolvedImports, List.map_map, List.map_map, ← importsWith_unresolved hnodes]
  have hcalls : (p.found.calls.map ((·.unresolvedImports) ∘ callCounts nodes p)).sum = 0 := by
    refine List.sum_eq_zero_iff_forall_eq_nat.mpr fun n hn => ?_
    obtain ⟨c, -, rfl⟩ := List.mem_map.mp hn
    exact callCounts_unresolvedImports c
  rw [hcalls]
  rfl

theorem fileCounts_unresolvedCalls : (fileCounts st.tables registry nodes p).unresolvedCalls =
    (callsWithoutEdge nodes p).length := by
  show (Resolved.total _).unresolvedCalls + (Resolved.total _).unresolvedCalls = _
  rw [total_unresolvedCalls, total_unresolvedCalls, List.map_map, List.map_map]
  have himports : ((importsWith registry p).map ((·.unresolvedCalls) ∘ fun (res, i) =>
      importCounts st.tables res p i)).sum = 0 := by
    refine List.sum_eq_zero_iff_forall_eq_nat.mpr fun n hn => ?_
    obtain ⟨⟨res, i⟩, -, rfl⟩ := List.mem_map.mp hn
    exact importCounts_unresolvedCalls _ res i
  rw [himports, Nat.zero_add, callsWithoutEdge, ← List.countP_eq_length_filter]
  induction p.found.calls with
  | nil => rfl
  | cons c rest ih =>
    rw [List.map_cons, List.sum_cons, ih, List.countP_cons, Function.comp_apply, callCounts_unresolvedCalls, Nat.add_comm]

theorem readAll_ascending {t : Tables} (h : t.nodes.Pairwise (·.id < ·.id)) : t.readAll.Pairwise (·.id < ·.id) := by
  unfold Tables.readAll
  cases hread : readNodes t.nodes with
  | error e => exact .nil
  | ok nodes => exact readNodes_ascending hread h

theorem pending_allNodes {now : Time.Instant} {files : List Pending} {s s' : Session} {r : Resolved}
    (h : pending now registry files s = (.ok r, s')) (hfiles : files ≠ []) :
    s.store.allNodes = .ok s.store.tables.readAll := by
  unfold pending at h
  rw [List.isEmpty_eq_false_iff.mpr hfiles] at h
  obtain ⟨nodes, s₁, hall, -⟩ := bind_eq_ok h
  have hread := (query_eq_ok hall).1
  rw [Tables.readAll_of_allNodes hread]
  exact hread

end

/-- A second pass that succeeds has added the edges and counts that the store from before it defines, though it
    remembers which files it looked up. -/
theorem second_pass_reads_store {now : Time.Instant} {registry : Registry} {files : List Pending} {s s' : Session}
    {r : Resolved} (h : pending now registry files s = (.ok r, s')) :
    (∃ nodes, ReadOff now registry files s.store nodes r s'.store) ∧ ∀ callee, PartsOf callee (calleeParts callee) := by
  refine ⟨⟨s.store.tables.readAll, ?_⟩, calleeParts_partsOf⟩
  have hread := pending_allNodes h
  obtain ⟨rfl, hb⟩ := pending_eq_ok h
  have hlinks : links s.store.tables registry s.store.tables.readAll files =
      files.flatMap (madeByFile s.store registry s.store.tables.readAll) :=
    List.flatMap_congr fun p hp => fileLinks_eq (hread (List.ne_nil_of_mem hp))
  refine ⟨hread, readAll_ascending, ?_, ?_, ?_, ?_, ?_⟩
  · rw [hb.store, hlinks, Tables.linkAll_eq]
  · rw [← hlinks]
    exact counts_edges .imports files
  · rw [← hlinks]
    exact counts_edges .calls files
  · rw [counts, total_unresolvedImports, List.map_map]
    exact congrArg List.sum (List.map_congr_left fun p hp =>
      fileCounts_unresolvedImports (hread (List.ne_nil_of_mem hp)))
  · rw [counts, total_unresolvedCalls, List.map_map]
    exact congrArg List.sum (List.map_congr_left fun p _ => fileCounts_unresolvedCalls)

/-- Three imports of one file, of which the last names nothing, and a call of one of its functions. -/
theorem importing_file_reads_store :
    let f (name : String) : Symbol := ⟨name, name, .function, ⟨0, 9⟩⟩
    let record (path : String) : FileRecord := ⟨path, "typescript", "", 9, .epoch⟩
    let s : Session := { store :=
      (((((Store.fresh .memory).upsertFile (record "a.ts")).upsertFile (record "b.ts")).insertNode "b.ts" (f "g")).insertNode
        "b.ts" (f "h")).insertNode "a.ts" (f "main") }
    let files : List Pending := [⟨"a.ts", "typescript",
      { imports := [⟨"./b", ["g"]⟩, ⟨"./b.ts", ["h"]⟩, ⟨"./b", ["none"]⟩], calls := [⟨"lib.g", ⟨1, 2⟩⟩] }, [(3, ⟨0, 9⟩)]⟩]
    ∃ r s', pending .epoch .full files s = (.ok r, s') ∧ r = ⟨2, 1, 1, 0⟩ ∧
      (∃ nodes, ReadOff .epoch .full files s.store nodes r s'.store) ∧
      ∀ callee, PartsOf callee (calleeParts callee) := by
  intro f record s files
  have hrun : (pending .epoch .full files s).1 = .ok ⟨2, 1, 1, 0⟩ := by decide +kernel
  have hpair : pending .epoch .full files s = (.ok ⟨2, 1, 1, 0⟩, (pending .epoch .full files s).2) :=
    Prod.ext hrun rfl
  exact ⟨_, _, hpair, rfl, second_pass_reads_store hpair⟩

end Resolve
end Index
end SymbolGraph
