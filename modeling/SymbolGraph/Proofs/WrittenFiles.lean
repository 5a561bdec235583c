import SymbolGraph.Proofs.PathNames

/-! What is written through a path is found through it. A path may lead through links; writing changes the
    disk only where no directory and no link was, so every way that could be gone before is gone the same way
    afterwards. A directory that a path leads to can be given a directory or a file with a fit name, if
    there is nothing else of that name. -/

namespace SymbolGraph

open Text Fallible

namespace Disk

open SymbolGraph.Path

variable {d : Disk} {at_ loc : Location} {e : Entry}

/-! ### Single entries -/

theorem entry?_put (d : Disk) (loc : Location) (e : Entry) (at_ : Location) :
    entry? (d.put loc e) at_ = if at_ = [] then some .directory else if at_ = loc then some e else d.entry? at_ := by
  have hfilter : ∀ entries : List (Location × Entry), at_ ≠ loc →
      (entries.filter (·.1 != loc)).lookup at_ = entries.lookup at_ := fun entries hne => by
    induction entries with
    | nil => rfl
    | cons p rest ih =>
      obtain ⟨l, e⟩ := p
      by_cases hl : l = loc
      · have hat : (at_ == l) = false := beq_false_of_ne (hl ▸ hne)
        rw [List.filter_cons_of_neg (by simp [hl]), ih, List.lookup_cons, hat]
      · rw [List.filter_cons_of_pos (by simp [hl]), List.lookup_cons, List.lookup_cons, ih]
  by_cases hnil : at_ = []
  · simp [Disk.entry?, hnil]
  · by_cases hat : at_ = loc
    · simp [Disk.entry?, put, hat, hat ▸ hnil]
    · have hbeq : (at_ == loc) = false := beq_false_of_ne hat
      simp [Disk.entry?, put, hnil, hat, List.lookup_cons, hbeq, hfilter _ hat]

theorem entry?_put_of_ne (h : at_ ≠ loc) : entry? (d.put loc e) at_ = d.entry? at_ := by
  rw [entry?_put, if_neg h]
  split
  · next hnil => rw [hnil]; rfl
  · rfl

theorem entry?_put_self (h : loc ≠ []) : entry? (d.put loc e) loc = some e := by
  rw [entry?_put, if_neg h, if_pos rfl]

theorem ne_nil_of_not_directory (h : d.holdsDirectory loc = false) : loc ≠ [] := by
  rintro rfl
  cases h

/-! ### Ways -/

/-- Where a walk stops. -/
def Walked.place : Walked → Location
  | .arrived at_ => at_
  | .met directory _ _ => directory

/-- No link is on the way to the location or at it. -/
def Unlinked (d : Disk) (at_ : Location) : Prop := ∀ l, l <+: at_ → ∀ target, d.entry? l ≠ some (.link target)

theorem unlinked_nil : d.Unlinked [] := by
  intro l hl target
  rw [List.prefix_nil.mp hl]
  simp [Disk.entry?]

theorem walk_unlinked {cs : List Component} {w : Walked} (h : d.Unlinked at_) (hw : d.walk at_ cs = .ok w) :
    d.Unlinked w.place := by
  induction cs generalizing at_ with
  | nil =>
    cases hw
    exact h
  | cons c rest ih =>
    cases c with
    | root => exact ih unlinked_nil hw
    | current =>
      obtain ⟨-, -, hrest⟩ := exists_of_bind hw
      exact ih h hrest
    | parent =>
      obtain ⟨-, -, hrest⟩ := exists_of_bind hw
      exact ih (fun l hl => h l (hl.trans (List.dropLast_prefix at_))) hrest
    | name n =>
      obtain ⟨-, -, ⟨target, -, rfl⟩ | ⟨hlink, hrest⟩⟩ := walk_name_iff.mp hw
      · exact h
      · refine ih (fun l hl => ?_) hrest
        rcases List.prefix_concat_iff.mp hl with rfl | hl
        · exact hlink
        · exact h l hl

theorem followToWrite_unlinked {links : Nat} {cs : List Component} (h : d.Unlinked at_)
    (hf : d.followToWrite links at_ cs = .ok loc) : d.follow links at_ cs = .ok loc ∧ d.Unlinked loc := by
  induction links generalizing at_ cs with
  | zero =>
    obtain ⟨w, hw, hend⟩ := exists_of_bind hf
    have hplace := walk_unlinked h hw
    rw [follow, hw]
    cases w with
    | arrived x =>
      cases hend
      exact ⟨rfl, hplace⟩
    | met directory target rest => cases hend
  | succ links ih =>
    obtain ⟨w, hw, hend⟩ := exists_of_bind hf
    have hplace := walk_unlinked h hw
    rw [follow, hw]
    cases w with
    | arrived x =>
      cases hend
      exact ⟨rfl, hplace⟩
    | met directory target rest =>
      dsimp only at hend
      split at hend
      · -- A link at the end of the way is not written through.
        obtain ⟨_, _, hthrown⟩ := exists_of_bind hend
        obtain ⟨_, _, hthrown⟩ := exists_of_bind hthrown
        cases hthrown
      · exact ih hplace hend

/-! ### Ways after a change -/

section
variable (hdirectory : d.holdsDirectory loc = false) (hlink : ∀ target, d.entry? loc ≠ some (.link target))
  (he : ∀ target, e ≠ .link target)
include hdirectory

/-- What is put down where no directory was changes nothing about directories. -/
theorem entry?_put_directory (h : d.holdsDirectory at_) : entry? (d.put loc e) at_ = d.entry? at_ :=
  entry?_put_of_ne fun heq => by simp [heq, hdirectory] at h

theorem needDirectory_put (h : d.needDirectory at_ = .ok ()) : (d.put loc e).needDirectory at_ = .ok () := by
  have hholds := needDirectory_iff.mp h
  rw [needDirectory_iff, holdsDirectory, entry?_put_directory hdirectory hholds]
  exact hholds

theorem searchable_put (h : d.searchable at_) : (d.put loc e).searchable at_ := by
  rw [searchable, entry?_put_directory hdirectory (holdsDirectory_of_searchable h)]
  exact h

include hlink he

theorem walk_put {cs : List Component} {w : Walked} (hw : d.walk at_ cs = .ok w) :
    (d.put loc e).walk at_ cs = .ok w := by
  induction cs generalizing at_ with
  | nil => exact hw
  | cons c rest ih =>
    cases c with
    | root => exact ih hw
    | current =>
      obtain ⟨_, hneed, hrest⟩ := exists_of_bind hw
      rw [walk, needDirectory_put hdirectory hneed]
      exact ih hrest
    | parent =>
      obtain ⟨_, hneed, hrest⟩ := exists_of_bind hw
      rw [walk, needSearch_iff.mpr (searchable_put hdirectory (needSearch_iff.mp hneed))]
      exact ih hrest
    | name n =>
      obtain ⟨hsearch, hname, hstep⟩ := walk_name_iff.mp hw
      refine walk_name_iff.mpr ⟨searchable_put hdirectory hsearch, hname, ?_⟩
      -- Only a walk that passes the new entry could go another way, and there is no link at it before or after.
      by_cases hloc : at_ ++ [n] = loc
      · rcases hstep with ⟨target, htarget, -⟩ | ⟨-, hrest⟩
        · exact absurd htarget (hloc ▸ hlink target)
        · refine .inr ⟨fun target => ?_, ih hrest⟩
          rw [hloc, entry?_put_self (ne_nil_of_not_directory hdirectory)]
          exact fun heq => he target (Option.some_inj.mp heq)
      · rw [entry?_put_of_ne hloc]
        exact hstep.imp_right (And.imp_right ih)

theorem follow_put {links : Nat} {cs : List Component} {x : Location} (hf : d.follow links at_ cs = .ok x) :
    (d.put loc e).follow links at_ cs = .ok x := by
  induction links generalizing at_ cs with
  | zero =>
    obtain ⟨w, hw, hend⟩ := exists_of_bind hf
    rw [follow, walk_put hdirectory hlink he hw]
    exact hend
  | succ links ih =>
    obtain ⟨w, hw, hend⟩ := exists_of_bind hf
    rw [follow, walk_put hdirectory hlink he hw]
    cases w with
    | arrived x => exact hend
    | met directory target rest => exact ih hend

end

/-! ### Reading what was written -/

theorem write_eq_ok {path : String} {content : Content} {d' : Disk} (h : d.write path content = .ok d') :
    ∃ loc, checkPath path = .ok () ∧ d.followToWrite linkLimit [] (components path) = .ok loc ∧
      d.holdsDirectory loc = false ∧ d' = d.put loc (.file content) := by
  obtain ⟨_, hcheck, h⟩ := exists_of_bind h
  obtain ⟨loc, hfollow, h⟩ := exists_of_bind h
  obtain ⟨-, -, h⟩ := exists_of_bind h
  refine ⟨loc, hcheck, hfollow, ?_⟩
  split at h
  · cases h
  · cases h
  · next hne _ =>
    cases h
    refine ⟨?_, rfl⟩
    rw [← Bool.not_eq_true, holdsDirectory_iff]
    exact fun ⟨access, he⟩ => hne access he

/-- A file is read through the path it was written through. -/
theorem content_of_write {path : String} {content : Content} {d' : Disk} (h : d.write path content = .ok d')
    (hplain : meansDirectory path = false) : d'.content path = .ok content := by
  obtain ⟨loc, hcheck, hwrite, hne, rfl⟩ := write_eq_ok h
  obtain ⟨hfollow, hunlinked⟩ := followToWrite_unlinked unlinked_nil hwrite
  have hafter := follow_put (e := .file content) hne (hunlinked loc List.prefix_rfl) (fun _ => nofun) hfollow
  have hfind := find_eq_ok hcheck hafter (entry?_put_self (ne_nil_of_not_directory hne)) (by simp [hplain])
  rw [Disk.content, hfind]
  rfl

theorem exists_of_content {path : String} {content : Content} (h : d.content path = .ok content) :
    d.exists path = true := by
  obtain ⟨found, hfind, -⟩ := exists_of_bind h
  exact exists_iff.mpr ⟨found, hfind⟩

theorem readText_of_content {path s : String} (h : d.content path = .ok (.text s)) : d.readText path = .ok s := by
  rw [readText, h]
  rfl

/-! ### Going on from a directory -/

/-- What comes of a walk when more components follow. -/
def Walked.goOn (d : Disk) (more : List Component) : Walked → Except IoError Walked
  | .arrived at_ => d.walk at_ more
  | .met directory target rest => .ok (.met directory target (rest ++ more))

theorem walk_append {a : List Component} {w : Walked} (ha : d.walk at_ a = .ok w) (more : List Component) :
    d.walk at_ (a ++ more) = w.goOn d more := by
  induction a generalizing at_ with
  | nil =>
    cases ha
    rfl
  | cons c rest ih =>
    cases c with
    | root => exact ih ha
    | current =>
      obtain ⟨_, hneed, hrest⟩ := exists_of_bind ha
      rw [List.cons_append, walk, hneed]
      exact ih hrest
    | parent =>
      obtain ⟨_, hneed, hrest⟩ := exists_of_bind ha
      rw [List.cons_append, walk, hneed]
      exact ih hrest
    | name n =>
      rw [List.cons_append, walk]
      obtain ⟨hsearch, hname, ⟨target, hlink, rfl⟩ | ⟨hlink, hrest⟩⟩ := walk_name_iff.mp ha
      · rw [needSearch_iff.mpr hsearch, checkName_iff.mpr hname]
        simp only [bind, Except.bind, hlink]
        rfl
      · rw [needSearch_iff.mpr hsearch, checkName_iff.mpr hname]
        simp only [bind, Except.bind]
        exact ih hrest

/-- What is written stands below a directory, so that no link that is met is the last of the way. -/
theorem followToWrite_append {links : Nat} {a more : List Component} {x y : Location}
    (ha : d.follow links at_ a = .ok x) (hne : more ≠ []) (hmore : d.walk x more = .ok (.arrived y)) :
    d.followToWrite links at_ (a ++ more) = .ok y := by
  have hmet (rest : List Component) : (rest ++ more).isEmpty = false := by simp [hne]
  induction links generalizing at_ a with
  | zero =>
    obtain ⟨w, hw, hend⟩ := exists_of_bind ha
    rw [followToWrite, walk_append hw]
    cases w with
    | arrived z =>
      cases hend
      rw [Walked.goOn, hmore]
      rfl
    | met directory target rest => cases hend
  | succ links ih =>
    obtain ⟨w, hw, hend⟩ := exists_of_bind ha
    rw [followToWrite, walk_append hw]
    cases w with
    | arrived z =>
      cases hend
      rw [Walked.goOn, hmore]
      rfl
    | met directory target rest =>
      -- A link that is met on the way is followed with the names still to come.
      simp only [Walked.goOn, bind, Except.bind, hmet, Bool.false_and, Bool.false_eq_true, if_false]
      rw [← List.append_assoc]
      exact ih hend

/-! ### Directories and files with a fit name -/

section
variable {root n : String} (habs : isAbsolute root) (hn : FitName n) (hroot : d.find root = .ok (at_, .directory))
  (hlen : (append root n).utf8ByteSize < pathLimit)
include habs hn

theorem meansDirectory_append : meansDirectory (append root n) = false := by
  obtain ⟨segments, hsplit⟩ := split_append habs hn.proper
  have hend (s : String) (hslash : '/' ∉ s.toList) (hne : s ≠ n) : hasEnd ("/" ++ s) (append root n) = false := by
    rw [Bool.eq_false_iff]
    intro h
    obtain ⟨front, -, hcut⟩ := split_of_hasEnd hslash h
    rw [hcut] at hsplit
    exact hne (List.append_inj_right' hsplit rfl |> List.head_eq_of_cons_eq)
  rw [meansDirectory, Bool.or_eq_false_iff]
  exact ⟨hend "" (by simp) (Ne.symm hn.some_text), hend "." (by decide) (Ne.symm hn.not_dot)⟩

include hroot hlen

theorem checkPath_append : checkPath (append root n) = .ok () := by
  obtain ⟨hcheck, -, -⟩ := find_inv hroot
  have hzero : '\x00' ∉ root.toList := fun hmem => by
    rw [checkPath, if_pos (by simpa using hmem)] at hcheck
    cases hcheck
  have happend : '\x00' ∉ (append root n).toList := by
    obtain ⟨base, happend, hbase⟩ := append_eq habs hn.proper
    rw [happend]
    rcases hbase with rfl | rfl
    · simpa using ⟨hzero, hn.no_zero⟩
    · simpa using ⟨fun hmem => hzero (by simp [hmem]), hn.no_zero⟩
  rw [checkPath, if_neg (by simpa using happend), if_pos hlen]

omit hlen

theorem locateLast_append : d.locateLast (components (append root n)) = .ok (at_ ++ [n]) := by
  obtain ⟨-, hfollow, hat⟩ := find_inv hroot
  rw [(append_name habs hn.proper).2, locateLast, List.getLast?_concat]
  dsimp only
  rw [List.dropLast_concat, hfollow]
  simp only [bind, Except.bind, needSearch_iff.mpr (searchable_of_entry hat rfl), checkName_iff.mpr hn.short]
  rfl

theorem followToWrite_name (hlink : ∀ target, d.entry? (at_ ++ [n]) ≠ some (.link target)) :
    d.followToWrite linkLimit [] (components (append root n)) = .ok (at_ ++ [n]) := by
  obtain ⟨-, hfollow, hat⟩ := find_inv hroot
  rw [(append_name habs hn.proper).2]
  exact followToWrite_append hfollow (by simp) (walk_name_iff.mpr ⟨searchable_of_entry hat rfl, hn.short, .inr ⟨hlink, rfl⟩⟩)

include hlen

/-- A directory is made below another one, unless it is there already. -/
theorem makeDirectories_append (hentry : d.entry? (at_ ++ [n]) = none ∨ d.entry? (at_ ++ [n]) = some .directory) :
    ∃ d', d.makeDirectories (append root n) = .ok d' ∧ d'.find (append root n) = .ok (at_ ++ [n], .directory) ∧
      ∀ l ≠ at_ ++ [n], d'.entry? l = d.entry? l := by
  have hcheck := checkPath_append habs hn hroot hlen
  have hplain := meansDirectory_append habs hn
  have hlink : ∀ target, d.entry? (at_ ++ [n]) ≠ some (.link target) := fun target heq => by
    rcases hentry with h | h <;> rw [h] at heq <;> cases heq
  obtain ⟨hfollow, -⟩ := followToWrite_unlinked unlinked_nil (followToWrite_name habs hn hroot hlink)
  have hmake (d' : Disk) (h : d.ensureDirectory (append root n) = .ok d') :
      d.makeDirectories (append root n) = .ok d' := by
    obtain ⟨above, habove⟩ := prefixes_append habs hn.proper
    rw [makeDirectories, habove, ensureDirectories, h]
    rfl
  rcases hentry with hnone | hdirectory
  · have hne : d.holdsDirectory (at_ ++ [n]) = false := by simp [holdsDirectory, hnone]
    have hafter := follow_put (e := .directory) hne hlink (fun _ => nofun) hfollow
    refine ⟨d.put (at_ ++ [n]) .directory, hmake _ ?_,
      find_eq_ok hcheck hafter (entry?_put_self (by simp)) (by simp [hplain]), fun l hl => entry?_put_of_ne hl⟩
    have hmade : d.makeDirectory (append root n) = .ok (d.put (at_ ++ [n]) .directory) := by
      rw [makeDirectory, hcheck, locateLast_append habs hn hroot]
      simp only [bind, Except.bind, hnone]
      rfl
    rw [ensureDirectory, hmade]
  · have hfind := find_eq_ok hcheck hfollow hdirectory (by simp [hplain])
    refine ⟨d, hmake _ ?_, hfind, fun _ _ => rfl⟩
    have hmade : d.makeDirectory (append root n) = .error .alreadyExists := by
      rw [makeDirectory, hcheck, locateLast_append habs hn hroot]
      simp only [bind, Except.bind, hdirectory]
      rfl
    rw [ensureDirectory, hmade]
    simp [isDirectory, hfind]

/-- A file is written below a directory, unless there is something else of that name, or a sealed file. -/
theorem write_append (hentry : d.entry? (at_ ++ [n]) = none ∨
      ∃ old, d.entry? (at_ ++ [n]) = some (.file old) ∧ ∀ size, old ≠ .sealed size)
    (content : Content) : ∃ d', d.write (append root n) content = .ok d' := by
  obtain ⟨-, -, hat⟩ := find_inv hroot
  have hlink : ∀ target, d.entry? (at_ ++ [n]) ≠ some (.link target) := fun target heq => by
    rcases hentry with hnone | ⟨old, hold, -⟩
    · rw [hnone] at heq
      cases heq
    · rw [hold] at heq
      cases heq
  have hwrite := followToWrite_name habs hn hroot hlink
  refine ⟨d.put (at_ ++ [n]) (.file content), ?_⟩
  rw [write, checkPath_append habs hn hroot hlen]
  have hneed := needDirectory_iff.mpr (holdsDirectory_iff.mpr ⟨_, hat⟩)
  simp only [bind, Except.bind, hwrite, List.dropLast_concat, hneed]
  rcases hentry with hnone | ⟨old, hold, hopen⟩
  · rw [hnone]; rfl
  · rw [hold]
    cases old with
    | sealed size => exact absurd rfl (hopen size)
    | _ => rfl

end

end Disk
end SymbolGraph
