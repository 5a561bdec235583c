import SymbolGraph.Proofs.Candidates

/-! Spellings of paths. Below an absolute root a path is told by the components that lead on from the root, where a dot
    says nothing. They decide whether the path has a spelling of its own in the workspace and which one that is, and
    that spelling stands for itself, alone and behind the root. So an index knows a file by one path, however it was
    given. -/

namespace SymbolGraph

namespace Path

open Text

variable {root path r : String} {c : Component} {cs rest : List Component} {names : List String}

/-! ### Components -/

theorem ofSegment?_eq_some {segment : String} (h : Component.ofSegment? segment = some c) :
    c = .parent ∨ c = .name segment ∧ segment ≠ "" ∧ segment ≠ "." ∧ segment ≠ ".." := by
  unfold Component.ofSegment? at h
  split at h
  · cases h
  · cases h
  · exact .inl (Option.some.inj h).symm
  · next hsome hdot hdots => exact .inr ⟨(Option.some.inj h).symm, hsome, hdot, hdots⟩

/-- What the segments of a path say are steps up and names on the way down. -/
theorem mem_segments (h : c ∈ (split '/' path).filterMap Component.ofSegment?) :
    c = .parent ∨ ∃ n, c = .name n ∧ Proper n := by
  obtain ⟨segment, hsegment, hc⟩ := List.mem_filterMap.mp h
  rcases ofSegment?_eq_some hc with hparent | ⟨hname, hsome, hdot, hdots⟩
  · exact .inl hparent
  · exact .inr ⟨segment, hname, ⟨hsome, not_mem_split hsegment⟩, hdot, hdots⟩

theorem components_of_absolute (h : isAbsolute path = true) :
    components path = .root :: (split '/' path).filterMap Component.ofSegment? := by
  rw [components, if_pos h]
  rfl

theorem mem_components (h : c ∈ components path) :
    c = .root ∧ isAbsolute path = true ∨ c = .current ∨ c = .parent ∨ ∃ n, c = .name n ∧ Proper n := by
  rw [components, List.mem_append] at h
  rcases h with hfirst | hlater
  · split_ifs at hfirst with habsolute hdot
    · exact .inl ⟨List.mem_singleton.mp hfirst, habsolute⟩
    · exact .inr (.inl (List.mem_singleton.mp hfirst))
    · cases hfirst
  · exact .inr (.inr (mem_segments hlater))

theorem isAbsolute_append (h : isAbsolute root = true) (s : String) : isAbsolute (root ++ s) = true := by
  obtain ⟨rest, rfl⟩ := exists_of_hasStart.mp h
  exact exists_of_hasStart.mpr ⟨rest ++ s, String.append_assoc⟩

/-- Behind the root come the names. -/
theorem components_append (hroot : isAbsolute root = true) (hne : names ≠ []) (h : ∀ n ∈ names, Proper n) :
    isAbsolute (append root (join '/' names)) = true ∧
      components (append root (join '/' names)) = components root ++ names.map .name := by
  have hplain : ∀ n ∈ names, Plain n := fun n hn => (h n hn).toPlain
  have hnames : (split '/' (join '/' names)).filterMap Component.ofSegment? = names.map .name := by
    rw [split_plain hne hplain, filterMap_ofSegment? h]
  have hsome : root.isEmpty = false := by
    rw [Bool.eq_false_iff, ne_eq, String.isEmpty_iff]
    rintro rfl
    cases hroot
  have hends : ∀ dir : String, (split '/' (dir ++ "/" ++ join '/' names)).filterMap Component.ofSegment? =
      (split '/' dir).filterMap Component.ofSegment? ++ names.map .name := fun dir => by
    rw [split_append_slash, List.filterMap_append, hnames]
  rw [append, isAbsolute_join hne hplain, hsome, Bool.or_self, if_neg Bool.false_ne_true]
  split
  · next hend =>
    -- The slash at the end of the root is the one in front of the names.
    obtain ⟨dir, rfl⟩ := exists_of_hasEnd.mp hend
    have hall := isAbsolute_append hroot (join '/' names)
    refine ⟨hall, ?_⟩
    have hlast : (split '/' (dir ++ "/")).filterMap Component.ofSegment? =
        (split '/' dir).filterMap Component.ofSegment? := by
      rw [split_final_slash, List.filterMap_append]
      exact List.append_nil _
    rw [components_of_absolute hall, components_of_absolute hroot, hends, hlast, List.cons_append]
  · have hall : isAbsolute (root ++ "/" ++ join '/' names) = true := by
      rw [String.append_assoc]
      exact isAbsolute_append hroot _
    refine ⟨hall, ?_⟩
    rw [components_of_absolute hall, components_of_absolute hroot, hends, List.cons_append]

/-! ### What leads on from the root -/

/-- The components lead on from the root: all those of a relative path, and those of an absolute one behind the
    components of the root. -/
def LeadsOn (root path : String) (rest : List Component) : Prop :=
  components path = if isAbsolute path then components root ++ rest else rest

instance (root path : String) (rest : List Component) : Decidable (LeadsOn root path rest) :=
  inferInstanceAs (Decidable (components path = _))

/-- They are dots, steps up and names. -/
theorem LeadsOn.mem (hroot : isAbsolute root = true) (h : LeadsOn root path rest) (hc : c ∈ rest) :
    c = .current ∨ c = .parent ∨ ∃ n, c = .name n ∧ Proper n := by
  rw [LeadsOn] at h
  split at h
  · next habsolute =>
    -- The root of the path is that of the root, so it is not among them.
    rw [components_of_absolute habsolute, components_of_absolute hroot, List.cons_append, List.cons.injEq] at h
    exact .inr (mem_segments (h.2 ▸ List.mem_append_right _ hc))
  · next hrelative => exact (mem_components (h ▸ hc)).resolve_left fun hc => hrelative hc.2

/-- What is left of them without the dots. -/
def named (rest : List Component) : List Component := rest.filter (· ≠ .current)

theorem LeadsOn.proper (hroot : isAbsolute root = true) (h : LeadsOn root path rest)
    (hnamed : named rest = names.map .name) : ∀ n ∈ names, Proper n := fun n hn => by
  have hmem : .name n ∈ named rest := hnamed ▸ List.mem_map_of_mem hn
  rcases h.mem hroot (List.mem_filter.mp hmem).1 with h | h | ⟨m, h, hm⟩
  · cases h
  · cases h
  · cases h
    exact hm

end Path

namespace Index

open SymbolGraph.Path

variable {w : Workspace} {R : List String}

/-! ### Files in the index -/

section
variable {had : String → String → Prop} {paths : List String} {s done : Session}

/-- A file that is given and to be indexed has a record. -/
theorem Session.Updated.recorded (h : s.Updated w [] had paths done) {path text : String} {language : Language}
    (hgiven : w.Given paths path) (ha : w.accepts path = some language) (hs : w.source? path = some text) :
    path ∈ done.store.tables.files.map (·.path) := by
  obtain ⟨row, hrow, -⟩ := Option.map_eq_some_iff.mp (hash_of_atRest (h.rest path hgiven) ha hs)
  exact List.mem_map.mpr ⟨row, List.mem_of_find?_eq_some hrow, by simpa using List.find?_some hrow⟩

end

end Index
end SymbolGraph
