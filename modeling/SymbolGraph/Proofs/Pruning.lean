import SymbolGraph.Index.Watch
import SymbolGraph.Proofs.Retry

/-! Files below directories that are left out. A scan does not enter such a directory; a call with a path and the
    watch look at the path alone. A rule for directories, and one that names a component, leave out what lies below
    as well, but a pattern need not, and neither need a rule that spells the whole path of a directory. A file that
    only such rules keep from the scan is taken in once its path is given. -/

namespace SymbolGraph

namespace Text

/-! ### Slashes at the end -/

theorem trimEndChar_append_slash (s : String) : trimEndChar '/' (s ++ "/") = trimEndChar '/' s := by
  simp [trimEndChar]

theorem trimEndChar_of_last {s : String} (cs : List Char) {c : Char} (h : s.toList = cs ++ [c]) (hc : c ≠ '/') :
    trimEndChar '/' s = s := by
  apply String.toList_injective
  simp [trimEndChar, h, hc]

end Text

namespace Path

open Text

/-! ### Joined names -/

section
variable {names : List String}

theorem split_plain (hne : names ≠ []) (h : ∀ n ∈ names, Plain n) : split '/' (join '/' names) = names :=
  split_join hne fun n hn => (h n hn).no_slash

theorem split_slash (hne : names ≠ []) (h : ∀ n ∈ names, Plain n) :
    split '/' (join '/' names ++ "/") = names ++ [""] := by
  rw [split_final_slash, split_plain hne h]

/-- A joined path ends with its last name, all of it or after a slash. -/
theorem join_concat (front : List String) (n : String) :
    join '/' (front ++ [n]) = n ∨ join '/' (front ++ [n]) = join '/' front ++ "/" ++ n := by
  cases front with
  | nil => exact .inl (join_singleton '/' n)
  | cons m more => exact .inr (by rw [join_append (by simp) (by simp), join_singleton])

theorem afterLast_join (front : List String) {n : String} (h : Plain n) :
    afterLast '/' (join '/' (front ++ [n])) = n := by
  rcases join_concat front n with hjoin | hjoin
  · rw [hjoin, afterLast_of_not_mem h.no_slash]
  · rw [hjoin, afterLast_append_slash, afterLast_of_not_mem h.no_slash]

theorem trimEndChar_join (hne : names ≠ []) (h : ∀ n ∈ names, Plain n) :
    trimEndChar '/' (join '/' names) = join '/' names := by
  obtain ⟨front, n, rfl⟩ := (List.eq_nil_or_concat' names).resolve_left hne
  have hn := h n (by simp)
  obtain ⟨cs, c, hchars⟩ := (List.eq_nil_or_concat' n.toList).resolve_left (by simpa using hn.some_text)
  have hc : c ≠ '/' := fun hc => hn.no_slash (by simp [hchars, hc])
  rcases join_concat front n with hjoin | hjoin
  · exact trimEndChar_of_last cs (by rw [hjoin, hchars]) hc
  · exact trimEndChar_of_last ((join '/' front ++ "/").toList ++ cs) (by rw [hjoin]; simp [hchars]) hc

theorem mem_join (hlen : 1 < names.length) (h : ∀ n ∈ names, Plain n) : '/' ∈ (join '/' names).toList := by
  by_contra hslash
  have hsplit := split_plain (by rintro rfl; cases hlen) h
  rw [split_of_not_mem hslash] at hsplit
  rw [← hsplit] at hlen
  exact absurd hlen (by simp)

theorem one_lt_length_of_not_mem (hne : names ≠ []) (h : join '/' names ∉ names) : 1 < names.length := by
  cases names with
  | nil => exact absurd rfl hne
  | cons n more =>
    cases more with
    | nil => exact absurd (by simp [join, joinChars]) h
    | cons m more => simp

end

end Path

namespace Ignore

open SymbolGraph.Path Text

/-! ### Rules for what lies below a directory -/

/-- The rule, though it may leave out the directory, lets the path below pass: a pattern that stands neither for the
    path nor for its last name, and the whole path of a directory that lies in another one. -/
def Rule.letsPass (dir rest : List String) : Rule → Bool
  | directory _ => false
  | pattern glob => !(glob.matches (join '/' (dir ++ rest)) || rest.getLast?.any glob.matches)
  | exact name => name == join '/' dir && decide (1 < dir.length)

/-- What leaves out the directory lets the path below pass, and nothing else leaves the path out. -/
def RuleSet.letsPass (dir rest : List String) (s : RuleSet) : Bool :=
  s.rules.all fun rule =>
    if rule.ignores (join '/' dir ++ "/") then rule.letsPass dir rest else !rule.ignores (join '/' (dir ++ rest))

section
variable {dir rest : List String} (hdir : dir ≠ []) (hrest : rest ≠ []) (h : ∀ n ∈ dir ++ rest, Plain n)
include hdir hrest h

theorem inDirectory_below {d : String} (hd : Rule.inDirectory d (join '/' dir ++ "/") = true) :
    Rule.inDirectory d (join '/' (dir ++ rest)) = true := by
  have hnames : ∀ n ∈ dir, Plain n := fun n hn => h n (List.mem_append_left _ hn)
  unfold Rule.inDirectory at hd ⊢
  split_ifs at hd ⊢ with hempty hslash
  · rw [join_append hdir hrest]
    rw [Bool.or_eq_true, hasStart_iff, hasPart_iff] at hd ⊢
    rw [String.toList_append (t := join '/' rest)]
    exact hd.imp (fun hstart => hstart.trans (List.prefix_append _ _)) fun hpart =>
      hpart.trans (List.prefix_append _ _).isInfix
  · rw [split_slash hdir hnames, List.dropLast_concat, List.contains_iff_mem] at hd
    rw [split_plain (by simp [hdir]) h, List.dropLast_append_of_ne_nil hrest, List.contains_iff_mem]
    exact List.mem_append_left _ hd

omit hdir in
theorem pattern_below (glob : Glob) :
    (Rule.pattern glob).ignores (join '/' (dir ++ rest)) = !(Rule.pattern glob).letsPass dir rest := by
  obtain ⟨front, n, rfl⟩ := (List.eq_nil_or_concat' rest).resolve_left hrest
  have hlast : afterLast '/' (join '/' (dir ++ (front ++ [n]))) = n := by
    rw [← List.append_assoc]
    exact afterLast_join _ (h n (by simp))
  simp [Rule.ignores, Rule.letsPass, trimEndChar_join (by simp) h, hlast]

theorem exact_below {name : String} (hd : (Rule.exact name).ignores (join '/' dir ++ "/") = true) :
    (Rule.exact name).ignores (join '/' (dir ++ rest)) = !(Rule.exact name).letsPass dir rest := by
  have hnames : ∀ n ∈ dir, Plain n := fun n hn => h n (List.mem_append_left _ hn)
  have hall : dir ++ rest ≠ [] := by simp [hdir]
  simp only [Rule.ignores, trimEndChar_append_slash, trimEndChar_join hdir hnames, split_plain hdir hnames,
    Bool.or_eq_true, beq_iff_eq, List.contains_iff_mem] at hd
  simp only [Rule.ignores, Rule.letsPass, trimEndChar_join hall h, split_plain hall h]
  rw [Bool.eq_iff_iff]
  simp only [Bool.or_eq_true, Bool.not_eq_true', Bool.and_eq_false_iff, beq_iff_eq, beq_eq_false_iff_ne,
    List.contains_iff_mem, decide_eq_false_iff_not]
  by_cases hin : name ∈ dir
  · -- A component of the directory is one of the path.
    refine iff_of_true (.inr (List.mem_append_left _ hin)) ?_
    by_contra! hwhole
    exact (hnames name hin).no_slash (hwhole.1 ▸ mem_join hwhole.2 hnames)
  · -- The whole path of the directory is neither that of what lies below nor a component of it.
    have hwhole : join '/' dir = name := hd.resolve_right hin
    subst hwhole
    have hlong : 1 < dir.length := one_lt_length_of_not_mem hdir hin
    refine iff_of_false ?_ (by simp [hlong])
    rintro (hsame | hmem)
    · have hsplit := congrArg (split '/') hsame
      rw [split_plain hall h, split_plain hdir hnames] at hsplit
      exact hrest (List.append_right_eq_self.mp hsplit)
    · exact (h _ hmem).no_slash (mem_join hlong hnames)

/-- Kind by kind, a rule that leaves out a directory leaves out a path below unless it lets it pass. -/
theorem Rule.ignores_below {rule : Rule} (hd : rule.ignores (join '/' dir ++ "/") = true) :
    rule.ignores (join '/' (dir ++ rest)) = !rule.letsPass dir rest := by
  cases rule with
  | directory d => exact inDirectory_below hdir hrest h hd
  | pattern glob => exact pattern_below hrest h glob
  | exact name => exact exact_below hdir hrest h hd

theorem RuleSet.ignores_below (s : RuleSet) : s.ignores (join '/' (dir ++ rest)) = !s.letsPass dir rest := by
  rw [RuleSet.ignores, RuleSet.letsPass, List.not_all_eq_any_not]
  refine List.any_congr rfl fun rule => ?_
  by_cases hd : rule.ignores (join '/' dir ++ "/") = true
  · rw [if_pos hd, Rule.ignores_below hdir hrest h hd]
  · rw [if_neg hd, Bool.not_not]

end

end Ignore

open SymbolGraph.Path Text

namespace Index
variable {w : Workspace} {R : List String} {dir rest : List String} {path : String}

/-! ### What a scan does not enter -/

/-- No file below a directory that is left out is found. -/
theorem not_mem_scan_below (hd : w.disk.Sound) (hdir : dir ≠ []) (hrest : rest ≠ []) (h : ∀ n ∈ dir ++ rest, Plain n)
    (hpruned : w.ignore.ignores (join '/' dir ++ "/") = true) : join '/' (dir ++ rest) ∉ w.scan.map (·.path) := by
  intro hscan
  obtain ⟨f, hf, hpath⟩ := List.mem_map.mp hscan
  obtain ⟨names, content, hne, hjoin, he, -, hentered, -⟩ := Workspace.mem_scan_iff.mp hf
  have hplain : ∀ n ∈ names, Plain n := fun n hn => ((hd.around [] _ he).1 n (List.mem_append_right _ hn)).proper.toPlain
  have hnames : names = dir ++ rest := by
    rw [← split_plain hne hplain, ← split_plain (by simp [hdir]) h, ← hpath, hjoin]
  rw [hnames, Workspace.inIgnoredDirectory, List.any_eq_false] at hentered
  exact hentered dir (Workspace.mem_enclosing hdir hrest) hpruned

/-! ### What a call and the watch take in -/

/-- Whether the path is taken in if it is given: it has a language that is indexed, and no rule leaves it out. -/
theorem accepts_below (hdir : dir ≠ []) (hrest : rest ≠ []) (h : ∀ n ∈ dir ++ rest, Plain n) :
    w.accepts (join '/' (dir ++ rest)) =
      if w.ignore.letsPass dir rest then w.classify (join '/' (dir ++ rest)) else none := by
  rw [Workspace.accepts, Ignore.RuleSet.ignores_below hdir hrest h]
  cases w.ignore.letsPass dir rest <;> rfl

theorem isFile_of_source {text : String} (h : w.source? path = some text) : w.disk.isFile (w.absolute path) = true := by
  obtain ⟨loc, hfind⟩ := Workspace.find_of_source h
  rw [Disk.isFile, Disk.content, hfind]
  rfl

/-- Of a file that is there the watch hears exactly if it is to be indexed. -/
theorem notice?_of_source {given text : String} (hrel : relative? w.rootPath given = some path)
    (h : w.source? path = some text) :
    Watch.notice? w given = if (w.accepts path).isSome then some (.changed path) else none := by
  unfold Watch.notice?
  rw [hrel]
  cases ha : w.accepts path with
  | none => simp [bind, ha]
  | some language => simp [bind, ha, isFile_of_source h]

/-- A file with a text that is to be indexed and is at rest has its record. -/
theorem hash_of_atRest {t : Tables} {language : Language} {text : String} (h : AtRest w [] t path)
    (ha : w.accepts path = some language) (hs : w.source? path = some text) :
    hashAt t path = some (contentHash (dropMark text)) := by
  rw [AtRest, Workspace.ruleUpdate, if_pos (Workspace.exists_of_source hs), Workspace.rule, ha, hs] at h
  by_contra hhash
  simp [hhash, Verdict.Idle] at h

theorem atRest_of_not_accepted {t : Tables} {text : String} (ha : w.accepts path = none)
    (hs : w.source? path = some text) : AtRest w R t path := by
  rw [AtRest, Workspace.ruleUpdate, if_pos (Workspace.exists_of_source hs), Workspace.rule, ha]
  trivial

/-- A call with the path of a file that is there leaves its record if it is to be indexed, and nothing new if not. -/
theorem indexFiles_of_source {had : String → String → Prop} {s : Session} (hw : w.Shows had) (hcalm : s.Calm [])
    (ht : s.store.tables.Coherent w had) {given text : String} (hrel : relative? w.rootPath given = some path)
    (hs : w.source? path = some text) :
    ∃ stats done, Run.indexFiles w [given] s = (.ok stats, done) ∧
      if (w.accepts path).isSome then hashAt done.store.tables path = some (contentHash (dropMark text))
      else done.store.tables.SameRows s.store.tables path := by
  obtain ⟨stats, done, hrun, hdone⟩ := indexFiles_updated (c := ⟨w.now, w.elapsed, hw.time⟩) hw hcalm ht [given]
  refine ⟨stats, done, hrun, ?_⟩
  split
  · next haccepted =>
    obtain ⟨language, ha⟩ := Option.isSome_iff_exists.mp haccepted
    exact hash_of_atRest (hdone.rest path ⟨given, by simp, hrel⟩) ha hs
  · next hrefused =>
    exact hdone.kept path (atRest_of_not_accepted (by simpa using hrefused) hs)

/-- A scan finds no file below a directory that is left out. A call with the path of such a file and the watch take
    it in exactly if it has a language that is indexed, each rule that leaves out the directory lets it pass, and no
    other rule leaves it out. -/
theorem pruned_file_taken_iff (place : Place) (w : Workspace) (ops : List Operation) {dir rest : List String}
    (hdir : dir ≠ []) (hrest : rest ≠ []) (h : ∀ n ∈ dir ++ rest, Plain n)
    (hpruned : w.ignore.ignores (join '/' dir ++ "/") = true) :
    let x := (World.start place).run w ops
    let v := x.workspace w
    let path := join '/' (dir ++ rest)
    let taken := (w.classify path).isSome && w.ignore.letsPass dir rest
    w.ignore.ignores path = !w.ignore.letsPass dir rest ∧ (x.disk.Sound → path ∉ v.scan.map (·.path)) ∧
      ∀ given text, relative? v.rootPath given = some path → v.source? path = some text →
        Watch.notice? v given = (if taken then some (.changed path) else none) ∧
        ∃ stats done, Run.indexFiles v [given] (x.session.refusing []) = (.ok stats, done) ∧
          if taken then hashAt done.store.tables path = some (contentHash (dropMark text))
          else done.store.tables.SameRows x.session.store.tables path := by
  intro x v path taken
  have htaken : (v.accepts path).isSome = taken := by
    have haccepts : v.accepts path = if w.ignore.letsPass dir rest then w.classify path else none :=
      accepts_below (w := v) hdir hrest h
    rw [haccepts]
    cases hpass : w.ignore.letsPass dir rest <;> simp [taken, hpass]
  refine ⟨Ignore.RuleSet.ignores_below hdir hrest h _, fun hd => not_mem_scan_below (w := v) hd hdir hrest h hpruned, ?_⟩
  intro given text hrel hs
  obtain ⟨hidle, hstore⟩ := (World.start_coherent (w := w) place _).run ops
  have hshows : v.Shows ((World.start place).Had w ops) := (World.start place).run_shows w ops
  have hcalm : (x.session.refusing []).Calm [] := ⟨rfl, hidle⟩
  rw [← htaken]
  exact ⟨notice?_of_source hrel hs, indexFiles_of_source hshows hcalm (hstore.of_workspace rfl rfl) hrel hs⟩

/-- A disk with a file in a directory. -/
def built : Disk := ⟨[(["build"], .directory), (["build", "x.ts"], .file (.text "function f(){}"))]⟩

theorem built_sound : built.Sound := .of_entries (by decide)

/-- A pattern for a directory keeps the scan from the file in it, and lets the watch and a call take the file in. -/
theorem file_in_pruned_directory_taken :
    ∃ rules, Ignore.RuleSet.ofLines ["buil?"] = .ok rules ∧
      let w : Workspace := { ignore := rules }
      let x := (World.start .memory).run w [.edit built]
      let v := x.workspace w
      rules.ignores "build/" = true ∧ rules.ignores "build/x.ts" = false ∧ "build/x.ts" ∉ v.scan.map (·.path) ∧
        Watch.notice? v "build/x.ts" = some (.changed "build/x.ts") ∧
        ∃ stats done, Run.indexFiles v ["build/x.ts"] (x.session.refusing []) = (.ok stats, done) ∧
          hashAt done.store.tables "build/x.ts" = some (contentHash "function f(){}") := by
  refine ⟨⟨[.pattern ⟨[.char 'b', .char 'u', .char 'i', .char 'l', .anyChar]⟩], ["buil?"]⟩, by decide +kernel, ?_⟩
  intro w x v
  have hpruned : w.ignore.ignores "build/" = true := by decide +kernel
  have hplain : ∀ n ∈ ["build", "x.ts"], Plain n := fun n hn => by
    simp only [List.mem_cons, List.not_mem_nil, or_false] at hn
    rcases hn with rfl | rfl <;> constructor <;> decide
  have hdir : ["build"] ≠ [] := by simp
  have hrest : ["x.ts"] ≠ [] := by simp
  obtain ⟨hpassed, hscan, htaken⟩ := pruned_file_taken_iff .memory w [.edit built] hdir hrest hplain hpruned
  have hpath : join '/' (["build"] ++ ["x.ts"]) = "build/x.ts" := by decide +kernel
  have hpass : w.ignore.letsPass ["build"] ["x.ts"] = true := by decide +kernel
  have hlanguage : (w.classify "build/x.ts").isSome = true := by decide +kernel
  have htext : dropMark "function f(){}" = "function f(){}" := by decide +kernel
  rw [hpath] at hpassed hscan htaken
  obtain ⟨hnotice, stats, done, hrun, hhash⟩ :=
    htaken "build/x.ts" "function f(){}" (by decide +kernel) (by decide +kernel)
  simp only [hlanguage, hpass, Bool.and_self, if_true, htext] at hnotice hhash
  exact ⟨hpruned, by rw [hpassed, hpass]; rfl, hscan built_sound, hnotice, stats, done, hrun, hhash⟩

end Index
end SymbolGraph
