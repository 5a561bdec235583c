import Mathlib.Data.List.Nodup
import SymbolGraph.Index.Workspace
import SymbolGraph.Proofs.Pieces
import SymbolGraph.Proofs.Ways

/-! Paths that a scan finds lead back to their files. Names that a directory can hold survive being joined
    to a path and taken apart again, so the path of a location on a sound disk leads to the location if it
    leads anywhere, and a path below the workspace has one spelling, which is its own. It leads nowhere if it
    is too long or a directory on the way cannot be searched. -/

namespace SymbolGraph

open SymbolGraph.Path Text Fallible

namespace Path

/-- A name that a path can be joined from. -/
structure Plain (n : String) : Prop where
  some_text : n ≠ ""
  no_slash : '/' ∉ n.toList

/-- A name on the way down from the top of the workspace. -/
structure Proper (n : String) : Prop extends Plain n where
  not_dot : n ≠ "."
  not_dots : n ≠ ".."

instance (n : String) : Decidable (Proper n) :=
  decidable_of_iff (n ≠ "" ∧ '/' ∉ n.toList ∧ n ≠ "." ∧ n ≠ "..")
    ⟨fun ⟨a, b, c, d⟩ => ⟨⟨a, b⟩, c, d⟩, fun ⟨⟨a, b⟩, c, d⟩ => ⟨a, b, c, d⟩⟩

/-! ### Components of joined names -/

theorem Proper.ofSegment? {n : String} (h : Proper n) : Component.ofSegment? n = some (.name n) := by
  unfold Component.ofSegment?
  split
  · exact absurd rfl h.some_text
  · exact absurd rfl h.not_dot
  · exact absurd rfl h.not_dots
  · rfl

section
variable {names : List String}

theorem filterMap_ofSegment? (h : ∀ n ∈ names, Proper n) : names.filterMap Component.ofSegment? = names.map .name := by
  induction names with
  | nil => rfl
  | cons n rest ih =>
    rw [List.filterMap_cons, (h n List.mem_cons_self).ofSegment?, List.map_cons,
      ih fun m hm => h m (List.mem_cons_of_mem _ hm)]

/-- A joined path of names starts with a character of its first name. -/
theorem head?_join (hne : names ≠ []) (h : ∀ n ∈ names, Plain n) :
    ∃ c rest, (join '/' names).toList = c :: rest ∧ c ≠ '/' := by
  cases names with
  | nil => exact absurd rfl hne
  | cons n more =>
    have hn := h n List.mem_cons_self
    cases hchars : n.toList with
    | nil => exact absurd (String.toList_eq_nil_iff.mp hchars) hn.some_text
    | cons c cs =>
      have hc : c ≠ '/' := fun hc => hn.no_slash (by rw [hchars, hc]; exact List.mem_cons_self)
      cases more with
      | nil => exact ⟨c, cs, by simp [join, joinChars, hchars], hc⟩
      | cons m more =>
        refine ⟨c, cs ++ '/' :: joinChars '/' ((m :: more).map String.toList), ?_, hc⟩
        simp [join, joinChars, hchars]

theorem isAbsolute_join (hne : names ≠ []) (h : ∀ n ∈ names, Plain n) : isAbsolute (join '/' names) = false := by
  obtain ⟨c, rest, hchars, hc⟩ := head?_join hne h
  simp [isAbsolute, hasStart, hchars, dropStart?, hc.symm]

theorem components_join (hne : names ≠ []) (h : ∀ n ∈ names, Proper n) : components (join '/' names) = names.map .name := by
  have hsplit : split '/' (join '/' names) = names := split_join hne fun n hn => (h n hn).no_slash
  have hdot : names.head? ≠ some "." := fun hd => (h "." (List.mem_of_head? hd)).not_dot rfl
  rw [components, hsplit, isAbsolute_join hne fun n hn => (h n hn).toPlain]
  simp [hdot, filterMap_ofSegment? h]

end

theorem dropBase?_eq_some {base cs rest : List Component} : dropBase? base cs = some rest ↔ cs = base ++ rest := by
  fun_induction dropBase? base cs with
  | case1 cs => rw [Option.some.injEq, List.nil_append]
  | case2 b bs => simp
  | case3 bs c cs ih => rw [ih, List.cons_append, List.cons.injEq, and_iff_right rfl]
  | case4 b bs c cs hne => simp [Ne.symm hne]

end Path

namespace Disk

/-- A directory can hold an entry with the name. -/
structure FitName (n : String) : Prop where
  some_text : n ≠ ""
  not_dot : n ≠ "."
  not_dots : n ≠ ".."
  no_slash : '/' ∉ n.toList
  no_zero : '\x00' ∉ n.toList
  short : n.utf8ByteSize ≤ nameLimit

/-- Every entry has a name that its directory can hold, and stands in a directory. -/
def Sound (d : Disk) : Prop := ∀ at_ n e, d.entry? (at_ ++ [n]) = some e → FitName n ∧ d.holdsDirectory at_

instance (n : String) : Decidable (FitName n) :=
  decidable_of_iff (n ≠ "" ∧ n ≠ "." ∧ n ≠ ".." ∧ '/' ∉ n.toList ∧ '\x00' ∉ n.toList ∧ n.utf8ByteSize ≤ nameLimit)
    ⟨fun ⟨a, b, c, d, e, f⟩ => ⟨a, b, c, d, e, f⟩, fun ⟨a, b, c, d, e, f⟩ => ⟨a, b, c, d, e, f⟩⟩

theorem mem_of_lookup {at_ : Disk.Location} {e : Disk.Entry} {entries : List (Disk.Location × Disk.Entry)}
    (h : entries.lookup at_ = some e) : (at_, e) ∈ entries := by
  obtain ⟨l₁, l₂, rfl, -⟩ := List.lookup_eq_some_iff.mp h
  simp

/-- It is enough to look at what the disk lists. -/
theorem Sound.of_entries {d : Disk}
    (h : ∀ p ∈ d.entries, ∀ n ∈ p.1.getLast?, FitName n ∧ d.holdsDirectory p.1.dropLast) : d.Sound := by
  intro at_ n e he
  rw [Disk.entry?, if_neg (by simp)] at he
  simpa using h _ (mem_of_lookup he) n (by simp)

/-! ### Components of paths -/

theorem FitName.proper {n : String} (h : FitName n) : Proper n := ⟨⟨h.some_text, h.no_slash⟩, h.not_dot, h.not_dots⟩

theorem proper_of_fit {names : List String} (h : ∀ n ∈ names, FitName n) : ∀ n ∈ names, Proper n :=
  fun n hn => (h n hn).proper

theorem Location.toList_path (at_ : Location) : at_.path.toList = '/' :: (join '/' at_).toList := by
  simp [Location.path]

theorem Location.isAbsolute_path (at_ : Location) : isAbsolute at_.path = true := by
  simp [isAbsolute, hasStart, Location.toList_path, dropStart?]

theorem Location.components_path {at_ : Location} (h : ∀ n ∈ at_, FitName n) :
    components at_.path = .root :: at_.map .name := by
  have hsplit : split '/' at_.path = "" :: split '/' (join '/' at_) := split_leading_slash _
  have hsegments : (split '/' (join '/' at_)).filterMap Component.ofSegment? = at_.map .name := by
    cases at_ with
    | nil => rfl
    | cons n rest =>
      rw [split_join (by simp) fun n hn => (h n hn).no_slash]
      exact filterMap_ofSegment? (proper_of_fit h)
  rw [components, hsplit, Location.isAbsolute_path, List.filterMap_cons, if_pos rfl]
  exact congrArg (Component.root :: ·) hsegments

/-! ### From paths to locations -/

theorem Sound.around {d : Disk} (hd : d.Sound) (at_ rest : Location) {e : Entry}
    (h : d.entry? (at_ ++ rest) = some e) :
    (∀ n ∈ rest, FitName n) ∧ (rest ≠ [] → d.holdsDirectory at_) := by
  induction rest generalizing at_ with
  | nil => exact ⟨by simp, fun hne => absurd rfl hne⟩
  | cons n rest ih =>
    have h' : d.entry? ((at_ ++ [n]) ++ rest) = some e := by simpa using h
    obtain ⟨hrest, hdir⟩ := ih (at_ ++ [n]) h'
    have hn : FitName n ∧ d.holdsDirectory at_ := by
      cases rest with
      | nil => exact hd at_ n e (by simpa using h)
      | cons m more =>
        obtain ⟨access, hentry⟩ := holdsDirectory_iff.mp (hdir (by simp))
        exact hd at_ n _ hentry
    refine ⟨fun m hm => ?_, fun _ => hn.2⟩
    rcases List.mem_cons.mp hm with rfl | hm
    · exact hn.1
    · exact hrest m hm

/-- The names on the way to what is no link are walked without meeting one, if they can be looked up. -/
theorem Sound.walk_iff {d : Disk} (hd : d.Sound) (at_ rest : Location) {e : Entry} {walked : Walked}
    (h : d.entry? (at_ ++ rest) = some e) (hlink : ∀ target, e ≠ .link target) :
    d.walk at_ (rest.map .name) = .ok walked ↔ walked = .arrived (at_ ++ rest) ∧ d.Passable at_ rest := by
  induction rest generalizing at_ with
  | nil =>
    rw [List.map_nil, Disk.walk, List.append_nil, and_iff_left passable_nil, Except.ok.injEq, eq_comm]
  | cons n rest ih =>
    have h' : d.entry? ((at_ ++ [n]) ++ rest) = some e := by simpa using h
    have hshort := ((hd.around _ _ h).1 n List.mem_cons_self).short
    -- What lies on the way is a directory, and what lies at the end is no link either.
    have hnext : ∀ target, d.entry? (at_ ++ [n]) ≠ some (.link target) := fun target ht => by
      cases rest with
      | nil =>
        rw [List.append_nil, ht, Option.some.injEq] at h'
        exact hlink target h'.symm
      | cons m more =>
        obtain ⟨access, hentry⟩ := holdsDirectory_iff.mp ((hd.around _ _ h').2 (by simp))
        rw [ht] at hentry
        cases hentry
    have hunmet : ¬ ∃ target, d.entry? (at_ ++ [n]) = some (.link target) ∧
        walked = .met at_ target (rest.map .name) := by
      rintro ⟨target, ht, -⟩
      exact hnext target ht
    rw [List.map_cons, walk_name_iff, ih (at_ ++ [n]) h', passable_cons, and_iff_right hshort, or_iff_right hunmet,
      and_iff_right hnext, List.append_assoc]
    exact and_left_comm

theorem Location.no_zero {at_ : Location} (h : ∀ n ∈ at_, FitName n) : '\x00' ∉ at_.path.toList := by
  have hjoin : ∀ pieces : List (List Char), (∀ p ∈ pieces, '\x00' ∉ p) → '\x00' ∉ joinChars '/' pieces := fun pieces => by
    induction pieces with
    | nil => simp [joinChars]
    | cons p rest ih =>
      intro hp
      cases rest with
      | nil => simpa [joinChars] using hp
      | cons q more =>
        have htail := ih fun r hr => hp r (List.mem_cons_of_mem _ hr)
        simp only [joinChars, List.mem_append, List.mem_cons, not_or]
        exact ⟨hp p List.mem_cons_self, by decide, htail⟩
  rw [Location.toList_path, List.mem_cons, not_or, join, String.toList_ofList]
  refine ⟨by decide, hjoin _ fun p hp => ?_⟩
  obtain ⟨n, hn, rfl⟩ := List.mem_map.mp hp
  exact (h n hn).no_zero

theorem Location.size_singleton (n : String) : (Location.path [n]).utf8ByteSize = n.utf8ByteSize + 1 := by
  have hslash : "/".utf8ByteSize = 1 := by decide
  simp [Location.path, String.utf8ByteSize_append, hslash, Nat.add_comm]

theorem Location.size_cons (n : String) {rest : Location} (h : rest ≠ []) :
    (Location.path (n :: rest)).utf8ByteSize = n.utf8ByteSize + 1 + rest.path.utf8ByteSize := by
  have hslash : "/".utf8ByteSize = 1 := by decide
  rw [Location.path, join_cons n h, Location.path]
  simp only [String.utf8ByteSize_append, hslash]
  omega

theorem Location.split_path {at_ : Location} (hne : at_ ≠ []) (h : ∀ n ∈ at_, FitName n) :
    split '/' at_.path = "" :: at_ := by
  rw [Location.path, split_leading_slash, split_join hne fun n hn => (h n hn).no_slash]

/-- A path of names ends in no slash, alone or with a dot, as its last name would be none. -/
theorem Location.hasEnd_path {at_ : Location} (hne : at_ ≠ []) (h : ∀ n ∈ at_, FitName n) {s : String}
    (hs : '/' ∉ s.toList) (hfit : ¬ FitName s) : hasEnd ("/" ++ s) at_.path = false := by
  rw [Bool.eq_false_iff]
  intro hend
  obtain ⟨front, hfront, hcut⟩ := split_of_hasEnd hs hend
  have hsplit := Location.split_path hne h
  rw [hcut] at hsplit
  cases front with
  | nil => exact hfront rfl
  | cons f more =>
    rw [List.cons_append, List.cons.injEq] at hsplit
    exact hfit (h s (by rw [← hsplit.2]; simp))

theorem Location.meansDirectory_path {at_ : Location} (hne : at_ ≠ []) (h : ∀ n ∈ at_, FitName n) :
    meansDirectory at_.path = false := by
  have hslash := Location.hasEnd_path hne h (s := "") (by simp) fun hf => hf.some_text rfl
  have hdot := Location.hasEnd_path hne h (s := ".") (by decide) fun hf => hf.not_dot rfl
  rw [meansDirectory, Bool.or_eq_false_iff]
  exact ⟨hslash, hdot⟩

theorem checkPath_iff {at_ : Location} (h : ∀ n ∈ at_, FitName n) :
    checkPath at_.path = .ok () ↔ at_.path.utf8ByteSize < pathLimit := by
  rw [checkPath, if_neg (by simpa using Location.no_zero h)]
  split <;> simp_all

/-- The path of a location leads to nothing else, and to what is there if it is not too long and the names can be
    looked up. -/
theorem Sound.find_path_iff {d : Disk} (hd : d.Sound) {at_ : Location} {e : Entry} (h : d.entry? at_ = some e)
    (hlink : ∀ target, e ≠ .link target) {found : Location × Entry} :
    d.find at_.path = .ok found ↔
      found = (at_, e) ∧ at_.path.utf8ByteSize < pathLimit ∧ d.Passable [] at_ := by
  have hnames := (hd.around [] at_ h).1
  have hwalk (walked : Walked) : d.walk [] (components at_.path) = .ok walked ↔
      walked = .arrived at_ ∧ d.Passable [] at_ := by
    rw [Location.components_path hnames, Disk.walk]
    exact hd.walk_iff [] at_ h hlink
  constructor
  · intro hfind
    obtain ⟨hcheck, hfollow, hentry⟩ := find_inv hfind
    rw [show linkLimit = 39 + 1 from rfl] at hfollow
    obtain ⟨walked, hwalked, harrived⟩ := exists_of_bind hfollow
    obtain ⟨rfl, hpass⟩ := (hwalk walked).mp hwalked
    cases harrived
    rw [h, Option.some.injEq] at hentry
    exact ⟨Prod.ext rfl hentry.symm, (checkPath_iff hnames).mp hcheck, hpass⟩
  · rintro ⟨rfl, hlen, hpass⟩
    refine find_eq_ok ((checkPath_iff hnames).mpr hlen) (follow_of_walk ((hwalk _).mpr ⟨rfl, hpass⟩)) h fun hmeans => ?_
    -- Only the path of the root ends in a slash.
    have hroot : at_ = [] := by
      by_contra hne
      rw [Location.meansDirectory_path hne hnames] at hmeans
      cases hmeans
    subst hroot
    cases h
    rfl

theorem Sound.canList_iff {d : Disk} (hd : d.Sound) {at_ : Location} {access : Access}
    (h : d.entry? at_ = some (.directory access)) :
    d.canList at_ ↔ access.list ∧ at_.path.utf8ByteSize < pathLimit ∧ d.Passable [] at_ := by
  have hfind (found : Location × Entry) : d.find at_.path = .ok found ↔
      found = (at_, .directory access) ∧ at_.path.utf8ByteSize < pathLimit ∧ d.Passable [] at_ :=
    hd.find_path_iff h (by simp)
  unfold canList
  split
  · next loc access' hfound =>
    obtain ⟨heq, hway⟩ := (hfind _).mp hfound
    cases heq
    rw [and_iff_left hway]
  · next hnone =>
    refine iff_of_false Bool.false_ne_true fun ⟨_, hway⟩ => ?_
    exact hnone at_ access ((hfind _).mpr ⟨rfl, hway⟩)

end Disk

open Disk

/-! ### What a scan finds -/

theorem Path.names?_map (names : List String) : names? (names.map .name) = some names := by
  induction names with
  | nil => rfl
  | cons n rest ih => rw [List.map_cons, names?, ih]; rfl

/-- Joined names are the one spelling of their path below an absolute root. -/
theorem Path.relative?_join {root : String} (hroot : isAbsolute root) {names : List String} (hne : names ≠ [])
    (h : ∀ n ∈ names, Proper n) : relative? root (join '/' names) = some (join '/' names) := by
  have hbelow : belowRoot? root (join '/' names) = some (names.map .name) := by
    simp [belowRoot?, isAbsolute_join hne fun n hn => (h n hn).toPlain, hroot, components_join hne h]
  rw [relative?, hbelow, Option.bind_some, Path.names?_map]
  cases names with
  | nil => exact absurd rfl hne
  | cons n rest => rfl

instance : LawfulBEq Language where
  eq_of_beq {a b} h := by cases a <;> cases b <;> first | rfl | cases h
  rfl {a} := by cases a <;> rfl

namespace Index.Workspace
variable {w : Workspace}

/-- A text that is read stands in the file that the path leads to. -/
theorem find_of_source {path text : String} (h : w.source? path = some text) :
    ∃ loc, w.disk.find (w.absolute path) = .ok (loc, .file (.text text)) := by
  unfold source? at h
  split at h
  · next content hcontent =>
    have htext : content = text := by
      split at h
      · exact Option.some_inj.mp h
      · cases h
    subst htext
    obtain ⟨⟨loc, e⟩, hfind, hfile⟩ := exists_of_bind hcontent
    cases e with
    | file c =>
      cases hfile
      exact ⟨loc, hfind⟩
    | directory => cases hfile
    | link target => cases hfile
  · cases h

theorem exists_of_source {path text : String} (h : w.source? path = some text) : w.disk.exists (w.absolute path) := by
  obtain ⟨loc, hfind⟩ := find_of_source h
  exact exists_iff.mpr ⟨_, hfind⟩

theorem below?_eq_some_iff {at_ : Location} {names : List String} :
    w.below? at_ = some names ↔ at_ = w.root ++ names ∧ names ≠ [] := by
  unfold below?
  split
  · next hroot =>
    rw [Bool.and_eq_true, List.isPrefixOf_iff_prefix] at hroot
    obtain ⟨⟨rest, rfl⟩, hne⟩ := hroot
    have hrest : rest ≠ [] := fun hnil => by simp [hnil] at hne
    rw [List.drop_left, Option.some.injEq, List.append_cancel_left_eq]
    constructor
    · rintro rfl
      exact ⟨rfl, hrest⟩
    · exact And.left
  · next hroot =>
    refine iff_of_false (by simp) fun ⟨hat, hne⟩ => hroot ?_
    simp [hat, hne]

theorem holdsFile_iff {at_ : Location} : w.holdsFile at_ ↔ ∃ content, w.disk.entry? at_ = some (.file content) := by
  unfold holdsFile
  split
  · next content he => simp [he]
  · next hnone => exact iff_of_false Bool.false_ne_true fun ⟨content, he⟩ => hnone content he

theorem found?_eq_some_iff {at_ : Location} {f : Found} : w.found? at_ = some f ↔
    ∃ names content, at_ = w.root ++ names ∧ names ≠ [] ∧ f.path = join '/' names ∧
      w.disk.entry? at_ = some (.file content) ∧ w.reaches names ∧ w.inIgnoredDirectory names = false ∧
      w.accepts f.path = some f.language := by
  simp only [found?, bind, Option.bind_eq_some_iff, below?_eq_some_iff]
  constructor
  · rintro ⟨names, ⟨hat, hne⟩, hfound⟩
    split at hfound
    · next hseen =>
      simp only [Bool.and_eq_true, holdsFile_iff, Bool.not_eq_true'] at hseen
      obtain ⟨⟨⟨content, he⟩, hreaches⟩, hentered⟩ := hseen
      obtain ⟨language, haccepts, rfl⟩ := Option.map_eq_some_iff.mp hfound
      exact ⟨names, content, hat, hne, rfl, he, hreaches, hentered, haccepts⟩
    · cases hfound
  · rintro ⟨names, content, hat, hne, hpath, he, hreaches, hentered, haccepts⟩
    refine ⟨names, ⟨hat, hne⟩, ?_⟩
    rw [hreaches, hentered, holdsFile_iff.mpr ⟨content, he⟩, ← hpath, haccepts]
    rfl

theorem mem_scan_iff {f : Found} : f ∈ w.scan ↔ ∃ names content, names ≠ [] ∧ f.path = join '/' names ∧
    w.disk.entry? (w.root ++ names) = some (.file content) ∧ w.reaches names ∧ w.inIgnoredDirectory names = false ∧
      w.accepts f.path = some f.language := by
  rw [scan, List.mem_mergeSort, List.mem_filterMap]
  constructor
  · rintro ⟨at_, -, hat⟩
    obtain ⟨names, content, rfl, hfound⟩ := found?_eq_some_iff.mp hat
    exact ⟨names, content, hfound⟩
  · rintro ⟨names, content, hne, hpath, he, hfound⟩
    refine ⟨_, ?_, found?_eq_some_iff.mpr ⟨names, content, rfl, hne, hpath, he, hfound⟩⟩
    rw [Disk.entry?, if_neg (by simp [hne])] at he
    exact List.mem_eraseDups.mpr (List.mem_map_of_mem (mem_of_lookup he))

/-! ### Directories around a file -/

section
variable {names dir rest : List String}

theorem enclosing_cons {n : String} (h : names ≠ []) : enclosing (n :: names) = [n] :: (enclosing names).map (n :: ·) := by
  cases names with
  | nil => exact absurd rfl h
  | cons m more => rfl

theorem mem_enclosing (hdir : dir ≠ []) (hrest : rest ≠ []) : dir ∈ enclosing (dir ++ rest) := by
  induction dir with
  | nil => exact absurd rfl hdir
  | cons n more ih =>
    rw [List.cons_append, enclosing_cons (by simp [hrest])]
    cases more with
    | nil => exact List.mem_cons_self
    | cons k more => exact List.mem_cons_of_mem _ (List.mem_map_of_mem (ih (by simp)))

theorem mem_enclosing_iff : dir ∈ enclosing names ↔ dir ≠ [] ∧ ∃ rest, rest ≠ [] ∧ names = dir ++ rest := by
  refine ⟨fun h => ?_, fun ⟨hdir, rest, hrest, hnames⟩ => hnames ▸ mem_enclosing hdir hrest⟩
  fun_induction enclosing names generalizing dir with
  | case1 => cases h
  | case2 => cases h
  | case3 n rest hrest ih =>
    have hne : rest ≠ [] := hrest
    rcases List.mem_cons.mp h with rfl | hmore
    · exact ⟨by simp, rest, hne, rfl⟩
    · obtain ⟨inner, hinner, rfl⟩ := List.mem_map.mp hmore
      obtain ⟨-, below, hbelow, rfl⟩ := ih hinner
      exact ⟨by simp, below, hbelow, rfl⟩

/-- The workspace and every directory around what the names lead to can be listed. -/
def Listed (w : Workspace) (names : List String) : Prop := Around (fun dir => w.disk.canList (w.root ++ dir)) names

theorem reaches_iff (hne : names ≠ []) : w.reaches names ↔ w.Listed names := by
  simp only [reaches, List.all_eq_true, List.mem_cons, mem_enclosing_iff]
  constructor
  · intro h dir rest hrest hnames
    refine h dir ?_
    by_cases hdir : dir = []
    · exact .inl hdir
    · exact .inr ⟨hdir, rest, hrest, hnames⟩
  · rintro h dir (rfl | ⟨-, rest, hrest, hnames⟩)
    · exact h [] names hne rfl
    · exact h dir rest hrest hnames

end

/-! ### Where scanned paths lead -/

theorem absolute_join {names : List String} (hne : names ≠ []) (h : ∀ n ∈ names, FitName n)
    (hroot : ∀ n ∈ w.root, FitName n) : w.absolute (join '/' names) = (w.root ++ names).path := by
  have hbase : w.rootPath.isEmpty = false := by
    rw [Bool.eq_false_iff, ne_eq, String.isEmpty_iff]
    intro h
    have hchars := Location.toList_path w.root
    rw [show Location.path w.root = "" from h] at hchars
    cases hchars
  rw [absolute, Path.append, isAbsolute_join hne fun n hn => (h n hn).proper.toPlain, hbase]
  simp only [Bool.or_self, Bool.false_eq_true, if_false]
  by_cases hr : w.root = []
  · rw [rootPath, hr]
    simp only [List.nil_append]
    rfl
  · have hslash := Location.hasEnd_path hr hroot (s := "") (by simp) fun hf => hf.some_text rfl
    rw [String.append_empty] at hslash
    rw [rootPath, hslash, Location.path, Location.path, join_append hr hne]
    simp [String.append_assoc]

/-- The absolute path of a scanned file is that of the location where it stands. -/
theorem absolute_of_mem_scan (hd : w.disk.Sound) {f : Found} (hf : f ∈ w.scan) : ∃ names content, names ≠ [] ∧
    f.path = join '/' names ∧ w.disk.entry? (w.root ++ names) = some (.file content) ∧ w.reaches names ∧
      (∀ n ∈ w.root ++ names, FitName n) ∧ w.absolute f.path = (w.root ++ names).path := by
  obtain ⟨names, content, hne, hpath, he, hreaches, -⟩ := mem_scan_iff.mp hf
  have hall := (hd.around [] (w.root ++ names) he).1
  refine ⟨names, content, hne, hpath, he, hreaches, hall, hpath ▸ absolute_join hne ?_ ?_⟩
  · exact fun n hn => hall n (List.mem_append_right _ hn)
  · exact fun n hn => hall n (List.mem_append_left _ hn)

/-- A scanned path is its own spelling. -/
theorem relative?_of_mem_scan (hd : w.disk.Sound) {f : Found} (hf : f ∈ w.scan) :
    relative? w.rootPath f.path = some f.path := by
  obtain ⟨names, content, hne, hpath, -, -, hall, -⟩ := absolute_of_mem_scan hd hf
  rw [hpath]
  exact relative?_join (Location.isAbsolute_path w.root) hne
    (proper_of_fit fun n hn => hall n (List.mem_append_right _ hn))

/-- Where a scanned path leads, if anywhere, its file is. -/
theorem isFile_of_mem_scan (hd : w.disk.Sound) {f : Found} (hf : f ∈ w.scan) :
    w.disk.isFile (w.absolute f.path) = w.disk.exists (w.absolute f.path) := by
  obtain ⟨names, content, -, -, he, -, -, habsolute⟩ := absolute_of_mem_scan hd hf
  rw [habsolute, Disk.isFile, Disk.exists, Disk.content]
  cases hfind : w.disk.find (w.root ++ names).path with
  | error e => rfl
  | ok found =>
    obtain ⟨rfl, -⟩ := (hd.find_path_iff he (by simp)).mp hfind
    rfl

/-- A scanned path leads to its file unless it is too long or the directory that holds the file cannot be searched.
    The directories around that one can be, as it was listed. -/
theorem exists_of_mem_scan_iff (hd : w.disk.Sound) {f : Found} (hf : f ∈ w.scan) :
    ∃ names, f.path = join '/' names ∧ (w.disk.exists (w.absolute f.path) ↔
      (w.absolute f.path).utf8ByteSize < pathLimit ∧ w.disk.searchable (w.root ++ names.dropLast)) := by
  obtain ⟨names, content, hne, hpath, he, hreaches, -, habsolute⟩ := absolute_of_mem_scan hd hf
  obtain ⟨dir, n, rfl⟩ := (List.eq_nil_or_concat' names).resolve_left hne
  refine ⟨_, hpath, ?_⟩
  have hholder : w.disk.Passable [] (w.root ++ dir) := by
    have hlist := (reaches_iff hne).mp hreaches dir [n] (by simp) rfl
    obtain ⟨access, hentry⟩ := holdsDirectory_iff.mp ((hd.around (w.root ++ dir) [n] (by simpa using he)).2 (by simp))
    exact ((hd.canList_iff hentry).mp hlist).2.2
  have hfind (found : Location × Entry) : w.disk.find (w.root ++ (dir ++ [n])).path = .ok found ↔
      found = (w.root ++ (dir ++ [n]), .file content) ∧ (w.root ++ (dir ++ [n])).path.utf8ByteSize < pathLimit ∧
        w.disk.Passable [] (w.root ++ (dir ++ [n])) :=
    hd.find_path_iff he (by simp)
  rw [habsolute, List.dropLast_concat, exists_iff]
  simp only [hfind, exists_eq_left]
  rw [← List.append_assoc, passable_concat, List.nil_append, and_iff_right hholder]

theorem found?_inj (hd : w.disk.Sound) {a b : Location} {f g : Found} (ha : w.found? a = some f)
    (hb : w.found? b = some g) (hpath : f.path = g.path) : a = b := by
  obtain ⟨names, content, rfl, hne, hf, he, -⟩ := found?_eq_some_iff.mp ha
  obtain ⟨names', content', rfl, hne', hg, he', -⟩ := found?_eq_some_iff.mp hb
  have hslash : ∀ n ∈ names, '/' ∉ n.toList := fun n hn =>
    ((hd.around [] _ he).1 n (List.mem_append_right _ hn)).no_slash
  have hslash' : ∀ n ∈ names', '/' ∉ n.toList := fun n hn =>
    ((hd.around [] _ he').1 n (List.mem_append_right _ hn)).no_slash
  rw [← split_join hne hslash, ← split_join hne' hslash', ← hf, ← hg, hpath]

theorem nodup_eraseDups {α : Type} [BEq α] [LawfulBEq α] (l : List α) : l.eraseDups.Nodup := by
  induction h : l.length using Nat.strongRecOn generalizing l with
  | ind n ih =>
    cases l with
    | nil => simp
    | cons a rest =>
      rw [List.eraseDups_cons, List.nodup_cons]
      refine ⟨by simp, ih _ ?_ _ rfl⟩
      rw [← h, List.length_cons]
      exact Nat.lt_succ_of_le (List.length_filter_le _ _)

/-- No path is scanned twice. -/
theorem scan_nodup (hd : w.disk.Sound) : (w.scan.map (·.path)).Nodup := by
  refine ((List.mergeSort_perm _ _).map _).nodup_iff.mpr ?_
  rw [List.map_filterMap]
  have hlocations : w.disk.locations.Nodup := nodup_eraseDups _
  refine hlocations.filterMap fun a b path ha hb => ?_
  obtain ⟨f, hf, rfl⟩ := Option.map_eq_some_iff.mp ha
  obtain ⟨g, hg, hpath⟩ := Option.map_eq_some_iff.mp hb
  exact found?_inj hd hf hg hpath.symm

end Index.Workspace
end SymbolGraph
