import SymbolGraph.Proofs.EventLog
import SymbolGraph.Proofs.Pruning
import SymbolGraph.Proofs.Rebuild

/-! What a scan finds, told by the names on the way to a file alone. A walk enters one directory after the other and
    asks of each whether it is left out; in the end it has come to exactly the files that are wanted, but for those in
    and below directories that cannot be listed: their absolute paths are too long, or permission is missing. -/

namespace SymbolGraph

open SymbolGraph.Path Text Disk

/-! ### Paths of names -/

section
variable {names dir : List String} {n : String}

theorem Path.fileName?_join (dir : List String) (h : ∀ m ∈ dir ++ [n], FitName m) :
    fileName? (join '/' (dir ++ [n])) = some n := by
  rw [fileName?, components_join (by simp) (proper_of_fit h)]
  simp

/-- The last name tells the language. -/
theorem Language.ofPath?_join (h : ∀ m ∈ dir ++ [n], FitName m) :
    Language.ofPath? (join '/' (dir ++ [n])) = Language.ofPath? n := by
  have hname : fileName? n = some n := by
    have halone := Path.fileName?_join (n := n) [] fun m hm => h m (List.mem_append_right _ hm)
    rwa [List.nil_append, join_singleton] at halone
  rw [Language.ofPath?, Language.ofPath?, extension?, extension?, Path.fileName?_join dir h, hname]

/-- A location has one spelling below every location around it. -/
theorem Path.relative?_path {root : Location} (hne : names ≠ []) (h : ∀ n ∈ root ++ names, FitName n) :
    relative? root.path (root ++ names).path = some (join '/' names) := by
  have hroot : ∀ n ∈ root, FitName n := fun n hn => h n (List.mem_append_left _ hn)
  have hbelow : belowRoot? root.path (root ++ names).path = some (names.map .name) := by
    rw [belowRoot?, if_pos (Location.isAbsolute_path _), Location.components_path hroot, Location.components_path h,
      List.map_append, ← List.cons_append, dropBase?_eq_some.mpr rfl]
  rw [relative?, hbelow, Option.bind_some, Path.names?_map]
  cases names with
  | nil => exact absurd rfl hne
  | cons n rest => rfl

end

namespace Index.Workspace
variable {w : Workspace} {names dir : List String} {f : Found} {language : Language} {path : String}

/-! ### Which files are wanted -/

/-- The settings and the rules let a file in: neither its path nor a directory around it is left out, and the language
    that its extension tells is registered and allowed. -/
structure Wanted (w : Workspace) (names : List String) (language : Language) : Prop where
  kept : w.ignore.ignores (join '/' names) = false
  around : ∀ dir rest, dir ≠ [] → rest ≠ [] → names = dir ++ rest → w.ignore.ignores (join '/' dir ++ "/") = false
  detected : Language.ofPath? (join '/' names) = some language
  registered : language ∈ w.registry.languages
  allowed : w.config.languages.allows language.id = true

theorem classify_iff : w.classify path = some language ↔ Language.ofPath? path = some language ∧
    language ∈ w.registry.languages ∧ w.config.languages.allows language.id = true := by
  rw [classify, Registry.forPath?, Option.filter_eq_some_iff, Option.filter_eq_some_iff, List.contains_iff_mem,
    and_assoc]

theorem accepts_iff : w.accepts path = some language ↔
    w.ignore.ignores path = false ∧ w.classify path = some language := by
  rw [accepts]
  cases w.ignore.ignores path <;> simp

theorem inIgnoredDirectory_iff : w.inIgnoredDirectory names = false ↔
    ∀ dir rest, dir ≠ [] → rest ≠ [] → names = dir ++ rest → w.ignore.ignores (join '/' dir ++ "/") = false := by
  simp only [inIgnoredDirectory, List.any_eq_false, mem_enclosing_iff, Bool.not_eq_true]
  constructor
  · exact fun h dir rest hdir hrest hnames => h dir ⟨hdir, rest, hrest, hnames⟩
  · rintro h dir ⟨hdir, rest, hrest, hnames⟩
    exact h dir rest hdir hrest hnames

theorem wanted_iff : w.Wanted names language ↔
    w.inIgnoredDirectory names = false ∧ w.accepts (join '/' names) = some language := by
  rw [inIgnoredDirectory_iff, accepts_iff, classify_iff]
  exact ⟨fun ⟨hkept, haround, hdetected, hregistered, hallowed⟩ => ⟨haround, hkept, hdetected, hregistered, hallowed⟩,
    fun ⟨haround, hkept, hdetected, hregistered, hallowed⟩ => ⟨hkept, haround, hdetected, hregistered, hallowed⟩⟩

/-- A scan finds the wanted files whose directories can be listed. -/
theorem mem_scan_iff_wanted : f ∈ w.scan ↔ ∃ names content, names ≠ [] ∧ f.path = join '/' names ∧
    w.disk.entry? (w.root ++ names) = some (.file content) ∧ w.Listed names ∧ w.Wanted names f.language := by
  rw [mem_scan_iff]
  constructor
  · rintro ⟨names, content, hne, hpath, he, hreaches, hentered, haccepts⟩
    exact ⟨names, content, hne, hpath, he, (reaches_iff hne).mp hreaches, wanted_iff.mpr ⟨hentered, hpath ▸ haccepts⟩⟩
  · rintro ⟨names, content, hne, hpath, he, hlisted, hwanted⟩
    obtain ⟨hentered, haccepts⟩ := wanted_iff.mp hwanted
    exact ⟨names, content, hne, hpath, he, (reaches_iff hne).mpr hlisted, hentered, hpath ▸ haccepts⟩

/-! ### Walking from directory to directory -/

/-- The directories that are entered: the workspace, and in a directory that can be listed every one that is not left
    out. -/
inductive Entered (w : Workspace) : List String → Prop
  | root : w.Entered []
  | inner {dir : List String} {n : String} {access : Access} (h : w.Entered dir)
      (hlist : w.disk.canList (w.root ++ dir) = true)
      (hentry : w.disk.entry? (w.root ++ (dir ++ [n])) = some (.directory access))
      (hkept : w.ignore.ignores (join '/' (dir ++ [n]) ++ "/") = false) : w.Entered (dir ++ [n])

/-- The files that a walk comes to and takes in. -/
inductive Reached (w : Workspace) : Found → Prop
  | file {dir : List String} {n : String} {content : Content} {language : Language} (h : w.Entered dir)
      (hlist : w.disk.canList (w.root ++ dir) = true)
      (hentry : w.disk.entry? (w.root ++ (dir ++ [n])) = some (.file content))
      (hkept : w.ignore.ignores (join '/' (dir ++ [n])) = false)
      (hclassify : w.classify (join '/' (dir ++ [n])) = some language) : w.Reached ⟨join '/' (dir ++ [n]), language⟩

/-- On the way to a directory that is entered nothing is left out. -/
theorem Entered.kept (h : w.Entered names) : ∀ dir rest, dir ≠ [] → names = dir ++ rest →
    w.ignore.ignores (join '/' dir ++ "/") = false := by
  induction h with
  | root => exact fun dir rest hdir hnames => absurd (List.append_eq_nil_iff.mp hnames.symm).1 hdir
  | @inner outer n _ _ _ _ hkept ih =>
    intro dir rest hdir hnames
    rcases List.eq_nil_or_concat' rest with rfl | ⟨front, m, rfl⟩
    · rwa [List.append_nil, ← hnames] at *
    · rw [← List.append_assoc] at hnames
      exact ih dir front hdir (List.append_inj_left' hnames rfl)

/-- On the way to a directory that is entered everything can be listed. -/
theorem Entered.listed (h : w.Entered names) : w.Listed names := by
  induction h with
  | root => exact around_nil
  | inner _ hlist _ _ ih => exact around_concat.mpr ⟨ih, hlist⟩

/-- A directory is entered if everything on the way to it can be listed and nothing there is left out. -/
theorem entered_of_kept (hd : w.disk.Sound) (hentry : w.disk.holdsDirectory (w.root ++ names)) (hlisted : w.Listed names)
    (hkept : ∀ dir rest, dir ≠ [] → names = dir ++ rest → w.ignore.ignores (join '/' dir ++ "/") = false) :
    w.Entered names := by
  induction names using List.reverseRecOn with
  | nil => exact .root
  | append_singleton outer n ih =>
    obtain ⟨houter, hlist⟩ := around_concat.mp hlisted
    obtain ⟨access, he⟩ := holdsDirectory_iff.mp hentry
    have hholder := (hd.around (w.root ++ outer) [n] (by rwa [List.append_assoc])).2 (by simp)
    refine .inner (ih hholder houter fun dir rest hdir hnames => ?_) hlist he ?_
    · exact hkept dir (rest ++ [n]) hdir (by rw [hnames, List.append_assoc])
    · exact hkept (outer ++ [n]) [] (by simp) (by simp)

/-- A walk comes to exactly the files that the scan finds. -/
theorem reached_iff_mem_scan (hd : w.disk.Sound) : w.Reached f ↔ f ∈ w.scan := by
  rw [mem_scan_iff_wanted]
  constructor
  · rintro ⟨h, hlist, hentry, hkept, hclassify⟩
    refine ⟨_, _, by simp, rfl, hentry, around_concat.mpr ⟨h.listed, hlist⟩, ?_⟩
    obtain ⟨hdetected, hregistered, hallowed⟩ := classify_iff.mp hclassify
    refine ⟨hkept, fun dir rest hdir hrest hnames => ?_, hdetected, hregistered, hallowed⟩
    obtain ⟨front, m, rfl⟩ := (List.eq_nil_or_concat' rest).resolve_left hrest
    rw [← List.append_assoc] at hnames
    exact h.kept dir front hdir (List.append_inj_left' hnames rfl)
  · rintro ⟨names, content, hne, hpath, hentry, hlisted, hwanted⟩
    obtain ⟨dir, n, rfl⟩ := (List.eq_nil_or_concat' names).resolve_left hne
    obtain ⟨houter, hlist⟩ := around_concat.mp hlisted
    have hholder : w.disk.holdsDirectory (w.root ++ dir) :=
      (hd.around (w.root ++ dir) [n] (by rwa [List.append_assoc])).2 (by simp)
    have hentered : w.Entered dir := entered_of_kept hd hholder houter fun d rest hdir hnames =>
      hwanted.around d (rest ++ [n]) hdir (by simp) (by rw [hnames, List.append_assoc])
    have hclassify := classify_iff.mpr ⟨hwanted.detected, hwanted.registered, hwanted.allowed⟩
    have hreached : w.Reached ⟨join '/' (dir ++ [n]), f.language⟩ := .file hentered hlist hentry hwanted.kept hclassify
    rwa [← hpath] at hreached

/-! ### What is said of a scanned file elsewhere -/

theorem scan_strictly_ascending (hd : w.disk.Sound) : (w.scan.map (·.path)).Pairwise (· < ·) :=
  (scan_ascending w).imp₂ (fun _ _ hab hne => lt_of_le_of_ne hab hne) (scan_nodup hd)

/-- The absolute path of a scanned file is understood as the path that the scan gives. -/
theorem relative?_absolute (hd : w.disk.Sound) (hf : f ∈ w.scan) :
    relative? w.rootPath (w.absolute f.path) = some f.path := by
  obtain ⟨names, content, hne, hpath, -, -, hall, habsolute⟩ := absolute_of_mem_scan hd hf
  rw [habsolute, hpath]
  exact Path.relative?_path hne hall

/-- The watch takes in a scanned file, however its path is given. -/
theorem notice?_of_mem_scan (hd : w.disk.Sound) (hf : f ∈ w.scan) {given : String}
    (hrel : relative? w.rootPath given = some f.path) : ∃ c, Watch.notice? w given = some c ∧ c.path = f.path := by
  obtain ⟨-, -, -, -, -, -, -, haccepts⟩ := mem_scan_iff.mp hf
  unfold Watch.notice?
  simp only [hrel, haccepts, bind, Option.bind_some, isFile_of_mem_scan hd hf]
  -- A path that leads to nothing is taken for one of a file that was removed.
  split
  · exact ⟨.changed f.path, rfl, rfl⟩
  · exact ⟨.removed f.path, rfl, rfl⟩

/-- A file below the workspace is scanned in a language exactly if it is wanted in it and the directories around it can
    be listed. -/
theorem mem_scan_of_file_iff (hd : w.disk.Sound) {content : Content} (hne : names ≠ [])
    (he : w.disk.entry? (w.root ++ names) = some (.file content)) :
    ⟨join '/' names, language⟩ ∈ w.scan ↔ w.Wanted names language ∧ w.Listed names := by
  rw [mem_scan_iff_wanted]
  constructor
  · rintro ⟨names', content', hne', hpath, he', hlisted, hwanted⟩
    have hslash : ∀ {names content}, w.disk.entry? (w.root ++ names) = some (.file content) →
        ∀ n ∈ names, '/' ∉ n.toList :=
      fun he n hn => ((hd.around [] _ he).1 n (List.mem_append_right _ hn)).no_slash
    have hnames : names = names' := by rw [← split_join hne (hslash he), ← split_join hne' (hslash he'), ← hpath]
    subst hnames
    exact ⟨hwanted, hlisted⟩
  · exact fun ⟨hwanted, hlisted⟩ => ⟨names, content, hne, rfl, he, hlisted, hwanted⟩

end Index.Workspace

namespace Index

/-- On a disk that is a tree, a scan gives every path once, in ascending order. It finds a file below the workspace
    exactly if its path is not left out, no directory around it is, its language is registered and allowed, and the
    directory that holds it and those above it, up to the workspace, can be listed. What it finds is such a file, in the
    language that its extension tells, and is accepted in this language and noticed by the watch. A walk from directory
    to directory comes to exactly these files. -/
theorem scan_finds_wanted (w : Workspace) (hd : w.disk.Sound) :
    (w.scan.map (·.path)).Pairwise (· < ·) ∧
    (∀ (names : List String) (content : Content), names ≠ [] →
      w.disk.entry? (w.root ++ names) = some (.file content) → ∀ language : Language,
        (⟨join '/' names, language⟩ ∈ w.scan ↔ w.Wanted names language ∧ w.Listed names)) ∧
    (∀ f ∈ w.scan,
      (∃ names content, names ≠ [] ∧ f.path = join '/' names ∧
        w.disk.entry? (w.root ++ names) = some (.file content)) ∧
      Language.ofPath? f.path = some f.language ∧ w.accepts f.path = some f.language ∧
      relative? w.rootPath (w.absolute f.path) = some f.path ∧
      ∀ given, relative? w.rootPath given = some f.path → ∃ c, Watch.notice? w given = some c ∧ c.path = f.path) ∧
    ∀ f, f ∈ w.scan ↔ w.Reached f := by
  refine ⟨Workspace.scan_strictly_ascending hd, fun names content hne he language =>
    Workspace.mem_scan_of_file_iff hd hne he, fun f hf => ?_, fun f => (Workspace.reached_iff_mem_scan hd).symm⟩
  obtain ⟨names, content, hne, hpath, he, -, -, haccepts⟩ := Workspace.mem_scan_iff.mp hf
  obtain ⟨-, hclassify⟩ := Workspace.accepts_iff.mp haccepts
  exact ⟨⟨names, content, hne, hpath, he⟩, (Workspace.classify_iff.mp hclassify).1, haccepts,
    Workspace.relative?_absolute hd hf, fun given hrel => Workspace.notice?_of_mem_scan hd hf hrel⟩

/-- Of three files the scan finds the one whose directory is neither left out nor closed to listing. -/
theorem kept_file_found :
    let w : Workspace :=
      { ignore := ⟨[.directory "out"], ["out/"]⟩
        disk := ⟨[(["src"], .directory), (["src", "a.ts"], .file (.text "")), (["out"], .directory),
          (["out", "b.ts"], .file (.text "")), (["shut"], .directory { list := false }),
          (["shut", "c.ts"], .file (.text ""))]⟩ }
    w.disk.Sound ∧ ⟨"src/a.ts", .typescript⟩ ∈ w.scan ∧ ⟨"out/b.ts", .typescript⟩ ∉ w.scan ∧
      ⟨"shut/c.ts", .typescript⟩ ∉ w.scan ∧ ∃ c, Watch.notice? w "/src/a.ts" = some c ∧ c.path = "src/a.ts" := by
  intro w
  have hd : w.disk.Sound := .of_entries (by decide)
  obtain ⟨-, hfound, hsaid, -⟩ := scan_finds_wanted w hd
  have hwanted : w.Wanted ["src", "a.ts"] .typescript := Workspace.wanted_iff.mpr (by decide +kernel)
  have hlisted : w.Listed ["src", "a.ts"] := (Workspace.reaches_iff (by decide)).mp (by decide +kernel)
  have hmem : ⟨"src/a.ts", .typescript⟩ ∈ w.scan :=
    (hfound ["src", "a.ts"] (.text "") (by decide) rfl .typescript).mpr ⟨hwanted, hlisted⟩
  refine ⟨hd, hmem, fun hout => ?_, fun hshut => ?_, (hsaid _ hmem).2.2.2.2 "/src/a.ts" (by decide +kernel)⟩
  · have hkept := ((hfound ["out", "b.ts"] (.text "") (by decide) rfl .typescript).mp hout).1.around ["out"] ["b.ts"]
    exact absurd (hkept (by decide) (by decide) rfl) (by decide +kernel)
  · have hopen := ((hfound ["shut", "c.ts"] (.text "") (by decide) rfl .typescript).mp hshut).2 ["shut"] ["c.ts"]
    exact absurd (hopen (by decide) rfl) (by decide +kernel)

/-! ### A file that is too deep -/

/-- No rule and no setting keeps the file out, whose path is long. -/
theorem nested_wanted (n : Nat) :
    ({ disk := nested n } : Workspace).Wanted (List.replicate n "d" ++ ["a.ts"]) .typescript where
  kept := rfl
  around _ _ _ _ _ := rfl
  detected := by
    rw [Language.ofPath?_join ((nested_sound n).around [] _ (nested_file n)).1]
    decide +kernel
  registered := show Language.typescript ∈ Language.all by decide
  allowed := rfl

/-- Yet it is not found if its directory cannot be listed. -/
theorem nested_missed {n : Nat} (hn : n ≠ 0) (hlong : Disk.pathLimit ≤ 2 * n) :
    join '/' (List.replicate n "d" ++ ["a.ts"]) ∉ ({ disk := nested n } : Workspace).scan.map (·.path) := by
  intro hscan
  obtain ⟨⟨path, language⟩, hf, hpath⟩ := List.mem_map.mp hscan
  obtain rfl : path = join '/' (List.replicate n "d" ++ ["a.ts"]) := hpath
  have hlisted := ((Workspace.mem_scan_of_file_iff (nested_sound n) (List.concat_ne_nil _ _) (nested_file n)).mp hf).2
  have hshort : 2 * n < Disk.pathLimit := (canList_innermost_iff hn).mp (around_concat.mp hlisted).2
  omega

/-- A file in a directory with an absolute path of 4096 bytes is wanted and not found. -/
theorem file_in_deep_directory_missed :
    let w : Workspace := { disk := nested 2048 }
    let names := List.replicate 2048 "d" ++ ["a.ts"]
    w.disk.Sound ∧ w.disk.entry? (w.root ++ names) = some (.file (.text "")) ∧ w.Wanted names .typescript ∧
      join '/' names ∉ w.scan.map (·.path) :=
  ⟨nested_sound 2048, nested_file 2048, nested_wanted 2048, nested_missed (by decide) (by decide)⟩

end Index
end SymbolGraph
