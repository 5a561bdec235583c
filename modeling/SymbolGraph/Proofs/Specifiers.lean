import SymbolGraph.Proofs.Candidates

/-! Relative specifiers taken apart. To go a way in two parts is to go the first and then, from where it leads, the
    second, so a step up in front of a specifier cancels the directory that the importing file is in. A slash at the end
    of a specifier says nothing that its last step does not say already, except that it makes a relative specifier out
    of a text that is nothing but the one step. -/

namespace SymbolGraph

namespace Import

open SymbolGraph.Path Text

variable {parts out : List String} {dir s s' x f : String} {res : ModuleResolution}

/-! ### A way in two parts -/

theorem foldSegments_append (parts a b : List String) :
    foldSegments parts (a ++ b) = (foldSegments parts a).bind (foldSegments · b) := by
  fun_induction foldSegments parts a with
  | case1 parts => rfl
  | case2 parts segment rest hstay ih => simpa [foldSegments, hstay] using ih
  | case3 rest => rfl
  | case4 rest part outer hstay ih => exact ih
  | case5 parts segment rest hstay hup ih => simpa [foldSegments, hstay, hup] using ih

/-- The names on the way to a directory. -/
def dirNames (dir : String) : List String := (split '/' dir).filter (· ≠ "")

theorem dirNames_plain (dir : String) : ∀ n ∈ dirNames dir, Plain n := fun n hn => by
  obtain ⟨hmem, hsome⟩ := List.mem_filter.mp hn
  exact ⟨by simpa using hsome, not_mem_split hmem⟩

theorem dirNames_join {names : List String} (h : ∀ n ∈ names, Plain n) : dirNames (join '/' names) = names :=
  filter_split_join h

/-- A directory has the names of the one around it and its own. -/
theorem dirNames_inDirectory (dir : String) (h : Plain x) : dirNames (inDirectory dir x) = dirNames dir ++ [x] := by
  have hone : dirNames x = [x] := by
    rw [dirNames, split_of_not_mem h.no_slash]
    simp [h.some_text]
  unfold inDirectory
  split
  · next hempty =>
    obtain rfl := String.isEmpty_iff.mp hempty
    exact hone
  · rw [dirNames, split_append_slash, List.filter_append]
    exact congrArg (dirNames dir ++ ·) hone

theorem normalize_eq (dir rel : String) :
    normalize dir rel =
      (foldSegments (dirNames dir).reverse (split '/' rel)).map fun parts => join '/' parts.reverse := rfl

/-- What a way leads to has plain names again, so a further way goes on from them. -/
theorem foldSegments_plain (h : foldSegments (dirNames dir).reverse (split '/' s) = some out) :
    ∀ n ∈ out.reverse, Plain n := by
  have hout := foldSegments_all (fun n hn => dirNames_plain dir n (List.mem_reverse.mp hn))
    (fun n hn hdown => ⟨by simp_all [goesDown], not_mem_split hn⟩) h
  exact fun n hn => hout n (List.mem_reverse.mp hn)

theorem normalize_append (dir a b : String) :
    normalize dir (a ++ "/" ++ b) = (normalize dir a).bind (normalize · b) := by
  rw [normalize_eq, split_append_slash, foldSegments_append, normalize_eq dir a]
  cases hfold : foldSegments (dirNames dir).reverse (split '/' a) with
  | none => rfl
  | some out =>
    rw [Option.bind_some, Option.map_some, Option.bind_some, normalize_eq, dirNames_join (foldSegments_plain hfold),
      List.reverse_reverse]

/-! ### Up from a directory -/

theorem directoryOf_inDirectory (dir : String) (h : '/' ∉ f.toList) : directoryOf (inDirectory dir f) = dir := by
  unfold inDirectory
  split
  · next hempty =>
    obtain rfl := String.isEmpty_iff.mp hempty
    rw [directoryOf, cutLast_of_not_mem h]
  · rw [directoryOf, cutLast_append_slash _ h]

/-- A step up leaves the directory. -/
theorem normalize_up (dir rel : String) (h : Plain x) : normalize (inDirectory dir x) ("../" ++ rel) = normalize dir rel := by
  have hsplit : split '/' ("../" ++ rel) = ".." :: split '/' rel := split_append_slash ".." rel
  rw [normalize_eq, hsplit, dirNames_inDirectory dir h, List.reverse_concat]
  rfl

/-- One more leading dot is one more step up. -/
theorem segments_dot (h : hasStart "." s = true) : segments .dots ("." ++ s) = ".." :: segments .dots s := by
  obtain ⟨rest, rfl⟩ := exists_of_hasStart.mp h
  simp [segments, List.replicate_succ]

theorem dottedNames_dot (s : String) : dottedNames ("." ++ s) = dottedNames s := by
  simp [dottedNames]

/-- One more leading dot leaves the directory. -/
theorem normalize_dot (dir : String) (h : Plain x) (hs : hasStart "." s = true) :
    normalize (inDirectory dir x) (dottedPath ("." ++ s)) = normalize dir (dottedPath s) := by
  rw [normalize_eq, split_dottedPath, segments_dot hs, dottedNames_dot, dirNames_inDirectory dir h, List.reverse_concat,
    normalize_eq, split_dottedPath]
  rfl

/-! ### Specifiers that mean the same -/

/-- Of a specifier only three things matter: whether it is relative, what its base path is and whether it names a
    directory. -/
theorem candidates_congr {importer importer' : String} (hrelative : res.isRelative s = res.isRelative s')
    (hbase : basePath res (directoryOf importer) s = basePath res (directoryOf importer') s')
    (hdirectory : res.namesDirectory s = res.namesDirectory s') :
    candidates res importer s = candidates res importer' s' := by
  unfold candidates fileCandidates
  rw [hrelative, hbase, hdirectory]

theorem candidates_up (dir : String) (hx : Plain x) (hf : '/' ∉ f.toList) (hs : res.isRelative s = true)
    (hstyle : res.style = .path) :
    candidates res (inDirectory (inDirectory dir x) f) ("../" ++ s) = candidates res (inDirectory dir f) s := by
  refine candidates_congr ?_ ?_ ?_
  · rw [hs, isRelative_iff, hstyle]
    exact ⟨s, .inr rfl⟩
  · simp only [basePath, hstyle, directoryOf_inDirectory _ hf, normalize_up dir s hx]
  · have hlast : afterLast '/' ("../" ++ s) = afterLast '/' s := afterLast_append_slash ".." s
    simp only [ModuleResolution.namesDirectory, hstyle, hlast]

theorem candidates_dot (dir : String) (hx : Plain x) (hf : '/' ∉ f.toList) (hs : res.isRelative s = true)
    (hstyle : res.style = .dots) :
    candidates res (inDirectory (inDirectory dir x) f) ("." ++ s) = candidates res (inDirectory dir f) s := by
  have hdot : hasStart "." s = true := by simpa only [ModuleResolution.isRelative, hstyle] using hs
  refine candidates_congr ?_ ?_ ?_
  · rw [hs, isRelative_iff, hstyle]
    exact ⟨s, rfl⟩
  · simp only [basePath, hstyle, directoryOf_inDirectory _ hf, normalize_dot dir hx hdot]
  · simp [ModuleResolution.namesDirectory, hstyle]

/-- A way in two parts leads where the second leads from the end of the first, and nowhere if one of them does. So a
    step up in front of a specifier says in a file of a directory what the specifier says in a file next to it. -/
theorem relative_ways_compose :
    (∀ dir a b, normalize dir (a ++ "/" ++ b) = (normalize dir a).bind (normalize · b)) ∧
    ∀ (res : ModuleResolution) (dir x f s : String), Plain x → '/' ∉ f.toList → res.isRelative s = true →
      (res.style = .path →
        candidates res (inDirectory (inDirectory dir x) f) ("../" ++ s) = candidates res (inDirectory dir f) s) ∧
      (res.style = .dots →
        candidates res (inDirectory (inDirectory dir x) f) ("." ++ s) = candidates res (inDirectory dir f) s) :=
  ⟨normalize_append, fun _ dir _ _ _ hx hf hs => ⟨candidates_up dir hx hf hs, candidates_dot dir hx hf hs⟩⟩

/-- Two steps up from a deeper file are one step up from the file next to its directory, in both spellings. -/
theorem deeper_file_goes_up_once_more :
    let typescript := Language.typescript.resolution
    let python := Language.python.resolution
    Plain "ui" ∧ '/' ∉ "a.py".toList ∧ typescript.isRelative "../lib" = true ∧ python.isRelative "..lib" = true ∧
      candidates typescript "src/ui/a.py" "../../lib" = candidates typescript "src/a.py" "../lib" ∧
      candidates python "src/ui/a.py" "...lib" = ["lib.py", "lib.pyi", "lib/__init__.py"] ∧
      candidates python "src/ui/a.py" "...lib" = candidates python "src/a.py" "..lib" := by
  intro typescript python
  have hx : Plain "ui" := ⟨by decide, by decide⟩
  have hf : '/' ∉ "a.py".toList := by decide
  have hpath : typescript.isRelative "../lib" = true := by decide
  have hdots : python.isRelative "..lib" = true := by decide
  have hdeep : inDirectory (inDirectory "src" "ui") "a.py" = "src/ui/a.py" := by decide
  have hnext : inDirectory "src" "a.py" = "src/a.py" := by decide
  obtain ⟨hup, -⟩ := relative_ways_compose.2 typescript "src" "ui" "a.py" "../lib" hx hf hpath
  obtain ⟨-, hdot⟩ := relative_ways_compose.2 python "src" "ui" "a.py" "..lib" hx hf hdots
  rw [hdeep, hnext] at hup hdot
  exact ⟨hx, hf, hpath, hdots, hup rfl, by decide +kernel, hdot rfl⟩

/-! ### A slash at the end -/

/-- A segment that stays in a directory or leaves it. -/
def IsStep (segment : String) : Prop := segment = "." ∨ segment = ".."

/-- The first and the last segment of the text are steps, so it can only mean a directory. -/
structure Steps (s : String) : Prop where
  first : ∃ n, (split '/' s).head? = some n ∧ IsStep n
  last : ∃ n, (split '/' s).getLast? = some n ∧ IsStep n

theorem IsStep.no_slash (h : IsStep s) : '/' ∉ s.toList := by
  rcases h with rfl | rfl <;> decide

theorem normalize_final_slash (dir s : String) : normalize dir (s ++ "/") = normalize dir s := by
  have hstay : ∀ parts, foldSegments parts [""] = some parts := fun _ => rfl
  simp only [normalize_eq, split_final_slash, foldSegments_append, hstay, Option.bind_fun_some]

/-- A text of steps is a relative specifier unless it is a single one. -/
theorem Steps.isRelative_iff (h : Steps s) (hstyle : res.style = .path) : res.isRelative s = true ↔ ¬ IsStep s := by
  rw [Import.isRelative_iff, hstyle]
  constructor
  · rintro ⟨rest, hrest⟩ hstep
    refine hstep.no_slash ?_
    rcases hrest with rfl | rfl <;> simp
  · intro hlong
    obtain ⟨n, hhead, hn⟩ := h.first
    rcases head?_split hhead with ⟨rfl, -⟩ | ⟨rest, rfl⟩
    · exact absurd hn hlong
    · rcases hn with rfl | rfl
      · exact ⟨rest, .inl rfl⟩
      · exact ⟨rest, .inr rfl⟩

/-- With the slash it always is one. -/
theorem Steps.isRelative_final_slash (h : Steps s) (hstyle : res.style = .path) : res.isRelative (s ++ "/") = true := by
  obtain ⟨n, hhead, hn⟩ := h.first
  rw [Import.isRelative_iff, hstyle]
  rcases head?_split hhead with ⟨rfl, -⟩ | ⟨rest, rfl⟩
  · rcases hn with rfl | rfl
    · exact ⟨"", .inl rfl⟩
    · exact ⟨"", .inr rfl⟩
  · rw [String.append_assoc]
    rcases hn with rfl | rfl
    · exact ⟨rest ++ "/", .inl rfl⟩
    · exact ⟨rest ++ "/", .inr rfl⟩

theorem Steps.namesDirectory (h : Steps s) (hstyle : res.style = .path) : res.namesDirectory s = true := by
  obtain ⟨n, hlast, hn⟩ := h.last
  obtain ⟨front, hsplit⟩ := split_eq_concat '/' s
  rw [hsplit, List.getLast?_concat, Option.some.injEq] at hlast
  simp only [ModuleResolution.namesDirectory, hstyle, hlast]
  rcases hn with rfl | rfl <;> rfl

theorem namesDirectory_final_slash (s : String) (hstyle : res.style = .path) :
    res.namesDirectory (s ++ "/") = true := by
  have hlast : afterLast '/' (s ++ "/") = "" := by
    rw [← String.append_empty (s := s ++ "/")]
    exact afterLast_append_slash s ""
  simp [ModuleResolution.namesDirectory, hstyle, hlast]

/-- With the slash the text means the files that stand for the directory that its steps lead to. -/
theorem Steps.candidates_final_slash (h : Steps s) (hstyle : res.style = .path) (importer : String) :
    candidates res importer (s ++ "/") =
      (normalize (directoryOf importer) s).elim [] (directoryCandidates res) := by
  have hbase : basePath res (directoryOf importer) (s ++ "/") = normalize (directoryOf importer) s := by
    simp only [basePath, hstyle, normalize_final_slash]
  rw [candidates, if_pos (h.isRelative_final_slash hstyle), hbase]
  cases normalize (directoryOf importer) s with
  | none => rfl
  | some base => simp [fileCandidates, namesDirectory_final_slash s hstyle]

/-- A text that begins and ends with a step leads, with a slash behind it, to the files that stand for a directory.
    Without the slash it leads to the same files, but for a single step, which is no relative specifier and leads to
    none: so the slash makes a difference exactly for a single step to a directory in the workspace, in a language with
    files that stand for directories. -/
theorem final_slash_matters_iff (hstyle : res.style = .path) (h : Steps s) (importer : String) :
    candidates res importer (s ++ "/") = (normalize (directoryOf importer) s).elim [] (directoryCandidates res) ∧
      (IsStep s → candidates res importer s = []) ∧
      (candidates res importer s ≠ candidates res importer (s ++ "/") ↔
        IsStep s ∧ normalize (directoryOf importer) s ≠ none ∧ res.indexFiles ≠ []) := by
  have hsingle : IsStep s → candidates res importer s = [] := fun hstep =>
    if_neg fun hrelative => (h.isRelative_iff hstyle).mp hrelative hstep
  refine ⟨h.candidates_final_slash hstyle importer, hsingle, ?_⟩
  by_cases hstep : IsStep s
  · rw [hsingle hstep, h.candidates_final_slash hstyle]
    cases normalize (directoryOf importer) s with
    | none => simp
    | some base => simp [hstep, directoryCandidates, eq_comm (a := [])]
  · have hsame : candidates res importer s = candidates res importer (s ++ "/") := by
      refine candidates_congr ?_ ?_ ?_
      · rw [(h.isRelative_iff hstyle).mpr hstep, h.isRelative_final_slash hstyle]
      · simp only [basePath, hstyle, normalize_final_slash]
      · rw [h.namesDirectory hstyle, namesDirectory_final_slash s hstyle]
    simp [hsame, hstep]

/-- The parent directory is found by `../` and, from a deeper file, by `./..`, and not by `..`. -/
theorem parent_needs_slash :
    let typescript := Language.typescript.resolution
    Steps ".." ∧ Steps "./.." ∧ candidates typescript "src/ui/a.ts" ".." = [] ∧
      candidates typescript "src/ui/a.ts" "../" = ["src/index.ts", "src/index.tsx", "src/index.js"] ∧
      candidates typescript "src/ui/a.ts" "./.." = candidates typescript "src/ui/a.ts" "./../" := by
  intro typescript
  have hsingle : Steps ".." := ⟨⟨"..", by decide, .inr rfl⟩, "..", by decide, .inr rfl⟩
  have hlong : Steps "./.." := ⟨⟨".", by decide, .inl rfl⟩, "..", by decide, .inr rfl⟩
  have hstyle : typescript.style = .path := rfl
  obtain ⟨hfound, hnone, -⟩ := final_slash_matters_iff hstyle hsingle "src/ui/a.ts"
  obtain ⟨-, -, hsame⟩ := final_slash_matters_iff hstyle hlong "src/ui/a.ts"
  have hstep : ¬ IsStep "./.." := by simp [IsStep]
  exact ⟨hsingle, hlong, hnone (.inr rfl), hfound.trans (by decide), not_not.mp fun hne => hstep (hsame.mp hne).1⟩

end Import
end SymbolGraph
