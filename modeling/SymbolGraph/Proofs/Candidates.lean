import SymbolGraph.Proofs.Pruning

/-! Where relative imports lead. The segments of a specifier are gone through from the directory of the importing file;
    what is reached is a list of names, and there is no way above the top. So whatever text a specifier is, each path
    that it may mean lies in the workspace and is spelled in the one way in which paths there are spelled. -/

namespace SymbolGraph

namespace Path

open Text

/-- A name stays one with an ending of two characters or more. -/
theorem Proper.append {n ending : String} (hn : Proper n) (hlong : 2 ≤ ending.toList.length)
    (hslash : '/' ∉ ending.toList) : Proper (n ++ ending) := by
  have hchars : n.toList ≠ [] := fun h => hn.some_text (String.toList_eq_nil_iff.mp h)
  have hlength : 3 ≤ (n ++ ending).toList.length := by
    have := List.length_pos_iff.mpr hchars
    rw [String.toList_append, List.length_append]
    omega
  refine ⟨⟨?_, by simp [hn.no_slash, hslash]⟩, ?_, ?_⟩
  all_goals
    intro h
    rw [h] at hlength
    exact absurd hlength (by decide)

theorem join_eq_empty {names : List String} (h : ∀ n ∈ names, Proper n) : join '/' names = "" ↔ names = [] := by
  refine ⟨fun hjoin => ?_, fun hnil => hnil ▸ rfl⟩
  by_contra hne
  have hsplit := split_plain hne fun n hn => (h n hn).toPlain
  rw [hjoin] at hsplit
  exact (h "" (by rw [← hsplit]; decide)).some_text rfl

/-- A path in the workspace: names on the way down, with a slash between neighbours. -/
def Inside (path : String) : Prop := ∃ names, names ≠ [] ∧ (∀ n ∈ names, Proper n) ∧ path = join '/' names

end Path

namespace Import

open SymbolGraph.Path Text

/-! ### Going up and down -/

/-- Whether the segment leads one level down. -/
def goesDown (segment : String) : Bool := segment ≠ "" && segment ≠ "." && segment ≠ ".."

/-- At some point of going through the segments more of them have gone up than there were levels to leave, of which
    there are `depth` at the start. -/
def Climbs (depth : Nat) (segments : List String) : Prop :=
  ∃ k, depth + (segments.take k).countP goesDown < (segments.take k).count ".."

section
variable {depth : Nat} {segment : String} {segments rest parts out : List String}

theorem not_climbs_nil : ¬ Climbs depth [] := by
  rintro ⟨k, hk⟩
  simp at hk

theorem climbs_up : Climbs depth (".." :: rest) ↔ depth = 0 ∨ Climbs (depth - 1) rest := by
  have hdown : goesDown ".." = false := by decide
  constructor
  · rintro ⟨k, hk⟩
    cases k with
    | zero => simp at hk
    | succ k =>
      rw [List.take_succ_cons, List.countP_cons_of_neg (by simp [hdown]), List.count_cons_self] at hk
      rcases Nat.eq_zero_or_pos depth with hzero | hpos
      · exact .inl hzero
      · exact .inr ⟨k, by omega⟩
  · rintro (rfl | ⟨k, hk⟩)
    · exact ⟨1, by simp [hdown]⟩
    · refine ⟨k + 1, ?_⟩
      rw [List.take_succ_cons, List.countP_cons_of_neg (by simp [hdown]), List.count_cons_self]
      omega

theorem climbs_cons (h : segment ≠ "..") :
    Climbs depth (segment :: rest) ↔ Climbs (depth + if goesDown segment then 1 else 0) rest := by
  constructor
  · rintro ⟨k, hk⟩
    cases k with
    | zero => simp at hk
    | succ k =>
      rw [List.take_succ_cons, List.countP_cons, List.count_cons_of_ne h] at hk
      exact ⟨k, by omega⟩
  · rintro ⟨k, hk⟩
    refine ⟨k + 1, ?_⟩
    rw [List.take_succ_cons, List.countP_cons, List.count_cons_of_ne h]
    omega

/-- What never goes up cannot lead above the top. -/
theorem climbs_append (h : ".." ∉ rest) : Climbs depth (segments ++ rest) ↔ Climbs depth segments := by
  constructor
  · rintro ⟨k, hk⟩
    refine ⟨k, ?_⟩
    have hnone : (rest.take (k - segments.length)).count ".." = 0 :=
      List.count_eq_zero.mpr fun hmem => h (List.mem_of_mem_take hmem)
    rw [List.take_append, List.countP_append, List.count_append, hnone] at hk
    omega
  · rintro ⟨k, hk⟩
    refine ⟨min k segments.length, ?_⟩
    rwa [List.take_append_of_le_length (Nat.min_le_right ..), ← List.take_eq_take_min]

/-- The way is lost exactly if it leads above the top. -/
theorem foldSegments_eq_none : foldSegments parts segments = none ↔ Climbs parts.length segments := by
  fun_induction foldSegments parts segments with
  | case1 parts => simp [not_climbs_nil]
  | case2 parts segment rest hstay ih =>
    have hdown : goesDown segment = false := by rcases hstay with rfl | rfl <;> decide
    rw [ih, climbs_cons (by rcases hstay with rfl | rfl <;> decide), hdown]
    rfl
  | case3 rest => simp [climbs_up]
  | case4 rest part outer hstay ih => simp [ih, climbs_up]
  | case5 parts segment rest hstay hup ih =>
    have hdown : goesDown segment = true := by simp_all [goesDown]
    rw [ih, climbs_cons hup, hdown]
    rfl

/-- Each name on the way is one that was there or a segment that leads down. -/
theorem foldSegments_all {P : String → Prop} (hparts : ∀ n ∈ parts, P n)
    (hsegments : ∀ s ∈ segments, goesDown s = true → P s) (h : foldSegments parts segments = some out) :
    ∀ n ∈ out, P n := by
  fun_induction foldSegments parts segments with
  | case1 parts => exact Option.some.inj h ▸ hparts
  | case2 parts segment rest hstay ih => exact ih hparts (fun s hs => hsegments s (List.mem_cons_of_mem _ hs)) h
  | case3 rest => cases h
  | case4 rest part outer hstay ih =>
    exact ih (fun n hn => hparts n (List.mem_cons_of_mem _ hn)) (fun s hs => hsegments s (List.mem_cons_of_mem _ hs)) h
  | case5 parts segment rest hstay hup ih =>
    have hdown : goesDown segment = true := by simp_all [goesDown]
    refine ih (fun n hn => ?_) (fun s hs => hsegments s (List.mem_cons_of_mem _ hs)) h
    rcases List.mem_cons.mp hn with rfl | hn
    · exact hsegments _ List.mem_cons_self hdown
    · exact hparts n hn

theorem foldSegments_proper (hparts : ∀ n ∈ parts, Proper n) (hslash : ∀ s ∈ segments, '/' ∉ s.toList)
    (h : foldSegments parts segments = some out) : ∀ n ∈ out, Proper n :=
  foldSegments_all hparts (fun s hs hdown => by
    obtain ⟨⟨hsome, hdot⟩, hdots⟩ : (s ≠ "" ∧ s ≠ ".") ∧ s ≠ ".." := by simpa [goesDown] using hdown
    exact ⟨⟨hsome, hslash s hs⟩, hdot, hdots⟩) h

/-- A name at the end is where the way ends. -/
theorem foldSegments_concat (hdown : goesDown segment = true)
    (h : foldSegments parts (segments ++ [segment]) = some out) : out ≠ [] := by
  have hname : segment ≠ "" ∧ segment ≠ "." ∧ segment ≠ ".." := by simpa [goesDown, and_assoc] using hdown
  induction segments generalizing parts with
  | nil =>
    simp only [List.nil_append, foldSegments, hname, or_self, if_false, Option.some.injEq] at h
    exact h ▸ List.cons_ne_nil _ _
  | cons s rest ih =>
    rw [List.cons_append] at h
    unfold foldSegments at h
    split at h
    · exact ih h
    · split at h
      · split at h
        · cases h
        · exact ih h
      · exact ih h

end

/-! ### From the importing file -/

section
variable {names : List String} {specifier base : String} {res : ModuleResolution}

theorem directoryOf_join (h : ∀ n ∈ names, Proper n) : directoryOf (join '/' names) = join '/' names.dropLast := by
  rcases List.eq_nil_or_concat' names with rfl | ⟨front, n, rfl⟩
  · rfl
  · have hslash : '/' ∉ n.toList := (h n (by simp)).no_slash
    rw [List.dropLast_concat]
    by_cases hfront : front = []
    · rw [hfront, List.nil_append, join_singleton, directoryOf, cutLast_of_not_mem hslash]
      rfl
    · rw [join_append hfront (by simp), join_singleton, directoryOf, cutLast_append_slash _ hslash]

/-- A joined path has the names that it was joined from. -/
theorem filter_split_join (h : ∀ n ∈ names, Plain n) : (split '/' (join '/' names)).filter (· ≠ "") = names := by
  cases names with
  | nil => rfl
  | cons n more =>
    rw [split_plain (by simp) h, List.filter_eq_self]
    exact fun n hn => by simpa using (h n hn).some_text

/-- From a directory one goes through the segments of a path. -/
theorem normalize_join (h : ∀ n ∈ names, Plain n) (rel : String) :
    normalize (join '/' names) rel =
      (foldSegments names.reverse (split '/' rel)).map fun parts => join '/' parts.reverse := by
  rw [normalize, filter_split_join h]

theorem normalize_inside (h : ∀ n ∈ names, Proper n) {rel : String}
    (hbase : normalize (join '/' names) rel = some base) :
    ∃ parts, (∀ n ∈ parts, Proper n) ∧ base = join '/' parts := by
  rw [normalize_join fun n hn => (h n hn).toPlain] at hbase
  obtain ⟨out, hout, rfl⟩ := Option.map_eq_some_iff.mp hbase
  have hproper := foldSegments_proper (fun n hn => h n (List.mem_reverse.mp hn)) (fun s hs => not_mem_split hs) hout
  exact ⟨out.reverse, fun n hn => hproper n (List.mem_reverse.mp hn), rfl⟩

theorem normalize_eq_none (h : ∀ n ∈ names, Proper n) (rel : String) :
    normalize (join '/' names) rel = none ↔ Climbs names.length (split '/' rel) := by
  rw [normalize_join fun n hn => (h n hn).toPlain, Option.map_eq_none_iff, foldSegments_eq_none, List.length_reverse]

/-! ### What a specifier says -/

/-- A text that is spelled like a relative import. -/
def Relative (style : RelativeStyle) (specifier : String) : Prop :=
  match style with
  | .path => ∃ rest, specifier = "./" ++ rest ∨ specifier = "../" ++ rest
  | .dots => ∃ rest, specifier = "." ++ rest
  | .none => False

/-- The segments that a specifier leads up and down by. Of leading dots the first says nothing, and what follows them
    leads down. -/
def segments (style : RelativeStyle) (specifier : String) : List String :=
  match style with
  | .path => split '/' specifier
  | .dots => List.replicate ((specifier.toList.takeWhile (· == '.')).length - 1) ".."
  | .none => []

theorem isRelative_iff : res.isRelative specifier = true ↔ Relative res.style specifier := by
  unfold ModuleResolution.isRelative Relative
  cases res.style with
  | path => simp only [Bool.or_eq_true, exists_of_hasStart, ← exists_or]
  | dots => exact exists_of_hasStart
  | none => simp

/-- The names behind leading dots. -/
def dottedNames (specifier : String) : List String :=
  ((split '.' (String.ofList (specifier.toList.dropWhile (· == '.')))).filter (· ≠ "")).flatMap (split '/')

/-- Leading dots lead up by one level less than there are dots, and then the names behind them follow. -/
theorem split_dottedPath (specifier : String) :
    split '/' (dottedPath specifier) = "." :: (segments .dots specifier ++ dottedNames specifier) := by
  have hone : (segments .dots specifier).flatMap (split '/') = segments .dots specifier := by
    rw [segments, List.flatMap_replicate]
    exact List.flatten_replicate_singleton
  rw [dottedPath, split_joined (by simp), List.flatMap_append, List.flatMap_append]
  exact congrArg (fun ups => "." :: (ups ++ dottedNames specifier)) hone

/-- Behind leading dots no segment goes up. -/
theorem climbs_dottedPath {depth : Nat} :
    Climbs depth (split '/' (dottedPath specifier)) ↔ Climbs depth (segments .dots specifier) := by
  have hdown : ".." ∉ dottedNames specifier := fun hmem => by
    obtain ⟨piece, hpiece, hmem⟩ := List.mem_flatMap.mp hmem
    have hdot : '.' ∈ piece.toList := (mem_split hmem (by decide)).1
    exact not_mem_split (List.mem_of_mem_filter hpiece) hdot
  rw [split_dottedPath, climbs_cons (by decide), climbs_append hdown]
  exact Iff.rfl

theorem basePath_eq_none (h : ∀ n ∈ names, Proper n) (hrelative : Relative res.style specifier) :
    basePath res (join '/' names) specifier = none ↔ Climbs names.length (segments res.style specifier) := by
  unfold basePath
  cases hstyle : res.style with
  | path => exact normalize_eq_none h specifier
  | dots => exact (normalize_eq_none h _).trans climbs_dottedPath
  | none =>
    rw [hstyle] at hrelative
    exact hrelative.elim

theorem basePath_inside (h : ∀ n ∈ names, Proper n) (hbase : basePath res (join '/' names) specifier = some base) :
    ∃ parts, (∀ n ∈ parts, Proper n) ∧ base = join '/' parts := by
  unfold basePath at hbase
  split at hbase
  · exact normalize_inside h hbase
  · exact normalize_inside h hbase
  · cases hbase

/-- A path that leads to the top names a directory. -/
theorem namesDirectory_of_top (h : ∀ n ∈ names, Proper n) (hstyle : res.style = .path)
    (hbase : basePath res (join '/' names) specifier = some "") : res.namesDirectory specifier = true := by
  obtain ⟨front, hsplit⟩ := split_eq_concat '/' specifier
  rw [basePath, hstyle] at hbase
  change normalize _ _ = _ at hbase
  rw [normalize_join fun n hn => (h n hn).toPlain, hsplit] at hbase
  obtain ⟨out, hout, hjoin⟩ := Option.map_eq_some_iff.mp hbase
  have hproper := foldSegments_proper (fun n hn => h n (List.mem_reverse.mp hn))
    (fun s hs => not_mem_split (hsplit ▸ hs)) hout
  have hnil : out = [] := by simpa using (join_eq_empty fun n hn => hproper n (List.mem_reverse.mp hn)).mp hjoin
  have hstays : ¬ goesDown (afterLast '/' specifier) = true := fun hdown => foldSegments_concat hdown hout hnil
  rw [ModuleResolution.namesDirectory, hstyle]
  simpa [goesDown, or_iff_not_imp_left] using hstays

end

end Import

/-! ### Tables of endings and file names -/

/-- Each ending and each file name for a directory stands in the table once, and what they make of a path in the
    workspace is again one. -/
structure ModuleResolution.Sound (res : ModuleResolution) : Prop where
  endings : res.extensions.Nodup
  ending : ∀ e ∈ res.extensions, 2 ≤ e.toList.length ∧ '/' ∉ e.toList
  files : res.indexFiles.Nodup
  file : ∀ n ∈ res.indexFiles, Path.Proper n

/-- A language with relative imports has files that stand for directories, or else has paths for specifiers and endings
    to try. -/
def ModuleResolution.Leads (res : ModuleResolution) : Prop :=
  res.indexFiles = [] → res.style = .none ∨ res.style = .path ∧ res.extensions ≠ []

theorem Language.resolution_sound (language : Language) : language.resolution.Sound := by
  cases language <;> constructor <;> decide

theorem Language.resolution_leads (language : Language) : language.resolution.Leads := by
  cases language <;> simp [resolution, typescriptResolution, ModuleResolution.Leads]

namespace Import

open SymbolGraph.Path Text

section
variable {names parts : List String} {specifier path : String} {res : ModuleResolution}

theorem join_ending (front : List String) (n ending : String) :
    join '/' (front ++ [n]) ++ ending = join '/' (front ++ [n ++ ending]) := by
  by_cases hfront : front = []
  · simp [hfront]
  · rw [join_append hfront (by simp), join_append hfront (by simp), join_singleton, join_singleton, String.append_assoc]

theorem inDirectory_join (h : ∀ n ∈ parts, Proper n) (name : String) :
    inDirectory (join '/' parts) name = join '/' (parts ++ [name]) := by
  cases hparts : parts with
  | nil => exact (join_singleton '/' name).symm
  | cons n more =>
    have hbase : (join '/' parts).isEmpty = false := by
      rw [Bool.eq_false_iff, ne_eq, String.isEmpty_iff, join_eq_empty h, hparts]
      simp
    rw [inDirectory, ← hparts, hbase, join_append (by simp [hparts]) (by simp), join_singleton]
    rfl

/-- A file at the path has as many names as the path. -/
theorem fileCandidates_inside (hres : res.Sound) (h : ∀ n ∈ parts, Proper n)
    (hpath : path ∈ fileCandidates res specifier (join '/' parts)) :
    ∃ names, names ≠ [] ∧ names.length = parts.length ∧ (∀ n ∈ names, Proper n) ∧ path = join '/' names := by
  unfold fileCandidates at hpath
  split at hpath
  · cases hpath
  · next hkept =>
    have hne : parts ≠ [] := by
      rintro rfl
      exact hkept (by simp [join, joinChars])
    obtain ⟨front, n, rfl⟩ := (List.eq_nil_or_concat' parts).resolve_left hne
    rcases List.mem_append.mp hpath with hliteral | hending
    · refine ⟨front ++ [n], hne, rfl, h, ?_⟩
      split at hliteral
      · exact List.mem_singleton.mp hliteral
      · cases hliteral
    · obtain ⟨ending, hmem, rfl⟩ := List.mem_map.mp hending
      obtain ⟨hlong, hslash⟩ := hres.ending ending hmem
      refine ⟨front ++ [n ++ ending], by simp, by simp, fun m hm => ?_, join_ending front n ending⟩
      rcases List.mem_append.mp hm with hm | hm
      · exact h m (List.mem_append_left _ hm)
      · rw [List.mem_singleton.mp hm]
        exact (h n (by simp)).append hlong hslash

/-- A file that stands for the directory at the path has one name more. -/
theorem directoryCandidates_inside (hres : res.Sound) (h : ∀ n ∈ parts, Proper n)
    (hpath : path ∈ directoryCandidates res (join '/' parts)) :
    ∃ names, names ≠ [] ∧ names.length = parts.length + 1 ∧ (∀ n ∈ names, Proper n) ∧ path = join '/' names := by
  obtain ⟨name, hname, rfl⟩ := List.mem_map.mp hpath
  refine ⟨parts ++ [name], by simp, by simp, fun m hm => ?_, inDirectory_join h name⟩
  rcases List.mem_append.mp hm with hm | hm
  · exact h m hm
  · exact List.mem_singleton.mp hm ▸ hres.file name hname

theorem fileCandidates_nodup (hres : res.Sound) (base : String) : (fileCandidates res specifier base).Nodup := by
  unfold fileCandidates
  split
  · exact List.nodup_nil
  · have hendings : (res.extensions.map (base ++ ·)).Nodup :=
      hres.endings.map fun a b hab => by simpa using hab
    refine List.Nodup.append (by split <;> simp) hendings fun path hliteral hmem => ?_
    have hbase : path = base := by
      split at hliteral
      · exact List.mem_singleton.mp hliteral
      · cases hliteral
    -- With an ending the path is longer.
    obtain ⟨ending, hending, hpath⟩ := List.mem_map.mp hmem
    have hempty : ending.toList = [] := by simpa [hbase] using congrArg String.toList hpath
    have hlong := (hres.ending ending hending).1
    simp [hempty] at hlong

theorem directoryCandidates_nodup (hres : res.Sound) (h : ∀ n ∈ parts, Proper n) :
    (directoryCandidates res (join '/' parts)).Nodup := by
  refine hres.files.map_on fun a ha b hb hab => ?_
  have hproper : ∀ n ∈ res.indexFiles, ∀ m ∈ parts ++ [n], Plain m := fun n hn m hm => by
    rcases List.mem_append.mp hm with hm | hm
    · exact (h m hm).toPlain
    · exact List.mem_singleton.mp hm ▸ (hres.file n hn).toPlain
  rw [inDirectory_join h, inDirectory_join h] at hab
  have hsplit := congrArg (split '/') hab
  rw [split_plain (by simp) (hproper a ha), split_plain (by simp) (hproper b hb)] at hsplit
  simpa using hsplit

/-- The paths that a specifier may mean are those of files at its base path and of files that stand for the directory
    there, if it is relative and has one. -/
theorem candidates_cases (res : ModuleResolution) (h : ∀ n ∈ names, Proper n) (specifier : String) :
    (candidates res (join '/' names) specifier = [] ∧
      (¬ Relative res.style specifier ∨ Climbs (names.length - 1) (segments res.style specifier))) ∨
    ∃ parts, (∀ n ∈ parts, Proper n) ∧ Relative res.style specifier ∧
      basePath res (join '/' names.dropLast) specifier = some (join '/' parts) ∧
      candidates res (join '/' names) specifier =
        fileCandidates res specifier (join '/' parts) ++ directoryCandidates res (join '/' parts) := by
  have hdir : ∀ n ∈ names.dropLast, Proper n := fun n hn => h n (List.dropLast_subset _ hn)
  rw [candidates, directoryOf_join h]
  by_cases hrelative : Relative res.style specifier
  · rw [if_pos (isRelative_iff.mpr hrelative)]
    cases hbase : basePath res (join '/' names.dropLast) specifier with
    | none => exact .inl ⟨rfl, .inr (by simpa using (basePath_eq_none hdir hrelative).mp hbase)⟩
    | some base =>
      obtain ⟨parts, hparts, rfl⟩ := basePath_inside hdir hbase
      exact .inr ⟨parts, hparts, hrelative, rfl, rfl⟩
  · rw [if_neg fun hyes => hrelative (isRelative_iff.mp hyes)]
    exact .inl ⟨rfl, .inl hrelative⟩

theorem candidates_inside (hres : res.Sound) (h : ∀ n ∈ names, Proper n)
    (hpath : path ∈ candidates res (join '/' names) specifier) : Inside path := by
  rcases candidates_cases res h specifier with ⟨hnone, -⟩ | ⟨parts, hparts, -, -, hfound⟩
  · rw [hnone] at hpath
    cases hpath
  · rw [hfound] at hpath
    rcases List.mem_append.mp hpath with hfile | hdirectory
    · obtain ⟨found, hne, -, hproper⟩ := fileCandidates_inside hres hparts hfile
      exact ⟨found, hne, hproper⟩
    · obtain ⟨found, hne, -, hproper⟩ := directoryCandidates_inside hres hparts hdirectory
      exact ⟨found, hne, hproper⟩

theorem candidates_nodup (hres : res.Sound) (h : ∀ n ∈ names, Proper n) (specifier : String) :
    (candidates res (join '/' names) specifier).Nodup := by
  rcases candidates_cases res h specifier with ⟨hnone, -⟩ | ⟨parts, hparts, -, -, hfound⟩
  · exact hnone ▸ List.nodup_nil
  · rw [hfound]
    refine (fileCandidates_nodup hres _).append (directoryCandidates_nodup hres hparts) fun path hfile hdirectory => ?_
    obtain ⟨a, ha, hshort, hproper, hpath⟩ := fileCandidates_inside hres hparts hfile
    obtain ⟨b, hb, hlong, hproper', hpath'⟩ := directoryCandidates_inside hres hparts hdirectory
    have hsame : a = b := by
      rw [← split_plain ha fun n hn => (hproper n hn).toPlain, ← split_plain hb fun n hn => (hproper' n hn).toPlain,
        ← hpath, ← hpath']
    rw [hsame, hlong] at hshort
    omega

/-- There is nothing to try for a text that is not relative, for one that leads above the top, and, where no files
    stand for directories, for one that names a directory. -/
theorem candidates_eq_nil (hres : res.Leads) (h : ∀ n ∈ names, Proper n) (specifier : String) :
    candidates res (join '/' names) specifier = [] ↔
      ¬ Relative res.style specifier ∨ Climbs (names.length - 1) (segments res.style specifier) ∨
        res.indexFiles = [] ∧ res.namesDirectory specifier = true := by
  have hdir : ∀ n ∈ names.dropLast, Proper n := fun n hn => h n (List.dropLast_subset _ hn)
  rcases candidates_cases res h specifier with ⟨hnone, hlost⟩ | ⟨parts, hparts, hrelative, hbase, hfound⟩
  · exact iff_of_true hnone (hlost.imp_right .inl)
  · have hclimbs : ¬ Climbs (names.length - 1) (segments res.style specifier) := fun hclimbs => by
      have hnone := (basePath_eq_none hdir hrelative).mpr (by simpa using hclimbs)
      rw [hnone] at hbase
      cases hbase
    have hfiles : res.indexFiles = [] →
        (fileCandidates res specifier (join '/' parts) = [] ↔ res.namesDirectory specifier = true) := fun hnone => by
      obtain ⟨hstyle, hendings⟩ : res.style = .path ∧ res.extensions ≠ [] :=
        (hres hnone).resolve_left fun hstyle => by rw [hstyle] at hrelative; exact hrelative
      have htop : (join '/' parts).isEmpty = true → res.namesDirectory specifier = true := fun hempty =>
        namesDirectory_of_top hdir hstyle (by rw [hbase, String.isEmpty_iff.mp hempty])
      unfold fileCandidates
      cases hdirectory : res.namesDirectory specifier with
      | true => simp
      | false =>
        have hbase : (join '/' parts).isEmpty = false := by
          rw [Bool.eq_false_iff]
          exact fun hempty => by simp [htop hempty] at hdirectory
        simp [hbase, hendings]
    rw [hfound, List.append_eq_nil_iff, directoryCandidates, List.map_eq_nil_iff]
    constructor
    · rintro ⟨hfile, hnone⟩
      exact .inr (.inr ⟨hnone, (hfiles hnone).mp hfile⟩)
    · rintro (hnot | hclimbs' | ⟨hnone, hdirectory⟩)
      · exact absurd hrelative hnot
      · exact absurd hclimbs' hclimbs
      · exact ⟨(hfiles hnone).mpr hdirectory, hnone⟩

end

/-- Whatever text is imported in a file of the workspace, each path that it may mean lies in the workspace, and none is
    tried twice. There is nothing to try if the text is not spelled like a relative import or if its segments lead above
    the top at some point, and else only if it names a directory in a language without files that stand for them. -/
theorem candidates_stay_inside (language : Language) {names : List String} (h : ∀ n ∈ names, Proper n)
    (specifier : String) :
    let res := language.resolution
    let found := candidates res (join '/' names) specifier
    (∀ path ∈ found, Inside path) ∧ found.Nodup ∧
      (found = [] ↔ ¬ Relative res.style specifier ∨ Climbs (names.length - 1) (segments res.style specifier) ∨
        res.indexFiles = [] ∧ res.namesDirectory specifier = true) :=
  ⟨fun _ hpath => candidates_inside language.resolution_sound h hpath,
    candidates_nodup language.resolution_sound h specifier,
    candidates_eq_nil language.resolution_leads h specifier⟩

/-- A way up with a repeated slash and a dot in it leads to files next to the importing one. One that leaves the
    workspace leads to none, though it would come back. -/
theorem detour_leads_nowhere :
    let found := candidates Language.typescript.resolution "src/app/main.ts"
    (∀ n ∈ ["src", "app", "main.ts"], Proper n) ∧
      found "../lib//./x.js" = ["src/lib/x.js", "src/lib/x.js.ts", "src/lib/x.js.tsx", "src/lib/x.js.d.ts",
        "src/lib/x.js.js", "src/lib/x.js.jsx", "src/lib/x.js/index.ts", "src/lib/x.js/index.tsx",
        "src/lib/x.js/index.js"] ∧
      (∀ path ∈ found "../lib//./x.js", Inside path) ∧ (found "../lib//./x.js").Nodup ∧
      Climbs 2 (segments .path "../../../w/src/app/x") ∧ found "../../../w/src/app/x" = [] := by
  have hnames : ∀ n ∈ ["src", "app", "main.ts"], Proper n := by decide
  have hpath : join '/' ["src", "app", "main.ts"] = "src/app/main.ts" := by decide
  obtain ⟨hinside, honce, -⟩ := candidates_stay_inside .typescript hnames "../lib//./x.js"
  obtain ⟨-, -, hnothing⟩ := candidates_stay_inside .typescript hnames "../../../w/src/app/x"
  rw [hpath] at hinside honce hnothing
  have hclimbs : Climbs 2 (segments .path "../../../w/src/app/x") := ⟨3, by decide⟩
  exact ⟨hnames, by decide +kernel, hinside, honce, hclimbs, hnothing.mpr (.inr (.inl hclimbs))⟩

end Import
end SymbolGraph
