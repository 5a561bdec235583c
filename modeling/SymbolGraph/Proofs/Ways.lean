import SymbolGraph.Disk.Basic
import SymbolGraph.Proofs.Fallible

/-! The way along a path. It goes from directory to directory, and names have to be looked up in each of them; links
    that are met are followed. What is at the end need not be looked into, so a path leads to a directory that cannot
    be searched, or even listed, and no further. -/

namespace SymbolGraph.Disk

open SymbolGraph.Path Fallible

variable {d : Disk} {at_ loc : Location} {e : Entry} {n : String} {names : List String}

/-! ### Directories on the way -/

theorem holdsDirectory_iff : d.holdsDirectory at_ ↔ ∃ access, d.entry? at_ = some (.directory access) := by
  unfold holdsDirectory
  cases d.entry? at_ with
  | none => simp
  | some e => cases e <;> simp [Entry.isDirectory]

theorem searchable_iff :
    d.searchable at_ ↔ ∃ access, d.entry? at_ = some (.directory access) ∧ access.search = true := by
  unfold searchable
  cases d.entry? at_ with
  | none => simp
  | some e => cases e <;> simp [Entry.isSearchable]

theorem searchable_of_entry {access : Access} (h : d.entry? at_ = some (.directory access)) (hs : access.search = true) :
    d.searchable at_ := searchable_iff.mpr ⟨access, h, hs⟩

theorem holdsDirectory_of_searchable (h : d.searchable at_) : d.holdsDirectory at_ := by
  obtain ⟨access, he, -⟩ := searchable_iff.mp h
  exact holdsDirectory_iff.mpr ⟨access, he⟩

theorem needDirectory_iff : d.needDirectory at_ = .ok () ↔ d.holdsDirectory at_ := by
  unfold needDirectory holdsDirectory
  cases d.entry? at_ with
  | none => simp
  | some e => cases he : e.isDirectory <;> simp [he]

theorem needSearch_iff : d.needSearch at_ = .ok () ↔ d.searchable at_ := by
  constructor
  · intro h
    obtain ⟨-, -, hsearch⟩ := exists_of_bind h
    split at hsearch
    · assumption
    · cases hsearch
  · intro h
    rw [needSearch, needDirectory_iff.mpr (holdsDirectory_of_searchable h), if_pos h]
    rfl

theorem checkName_iff : checkName n = .ok () ↔ n.utf8ByteSize ≤ nameLimit := by
  unfold checkName
  split <;> simp_all

/-! ### Ways -/

/-- One name further a link is met, or the way goes on. -/
theorem walk_name_iff {rest : List Component} {w : Walked} :
    d.walk at_ (.name n :: rest) = .ok w ↔
      d.searchable at_ ∧ n.utf8ByteSize ≤ nameLimit ∧
        ((∃ target, d.entry? (at_ ++ [n]) = some (.link target) ∧ w = .met at_ target rest) ∨
          (∀ target, d.entry? (at_ ++ [n]) ≠ some (.link target)) ∧ d.walk (at_ ++ [n]) rest = .ok w) := by
  constructor
  · intro h
    obtain ⟨_, hsearch, hchecked⟩ := exists_of_bind h
    obtain ⟨_, hname, hstep⟩ := exists_of_bind hchecked
    refine ⟨needSearch_iff.mp hsearch, checkName_iff.mp hname, ?_⟩
    split at hstep
    · next target hlink =>
      cases hstep
      exact .inl ⟨target, hlink, rfl⟩
    · next hlink => exact .inr ⟨hlink, hstep⟩
  · rintro ⟨hsearch, hname, hstep⟩
    rw [walk, needSearch_iff.mpr hsearch, checkName_iff.mpr hname]
    rcases hstep with ⟨target, hlink, rfl⟩ | ⟨hlink, hwalk⟩
    · simp only [bind, Except.bind, hlink]
      rfl
    · simp only [bind, Except.bind]
      exact hwalk

/-- A way that meets no link is gone without following one. -/
theorem follow_of_walk {links : Nat} {cs : List Component} (h : d.walk at_ cs = .ok (.arrived loc)) :
    d.follow links at_ cs = .ok loc := by
  cases links <;> rw [follow, h] <;> rfl

theorem find_inv {path : String} (h : d.find path = .ok (loc, e)) :
    checkPath path = .ok () ∧ d.follow linkLimit [] (components path) = .ok loc ∧ d.entry? loc = some e := by
  obtain ⟨found, hlocate, hentry⟩ := exists_of_bind h
  obtain ⟨_, hcheck, hresolve⟩ := exists_of_bind hlocate
  obtain ⟨reached, hfollow, hreached⟩ := exists_of_bind hresolve
  split at hreached
  · cases hreached
  · cases hreached
    split at hentry
    · next he =>
      cases hentry
      exact ⟨hcheck, hfollow, he⟩
    · cases hentry

theorem find_eq_ok {path : String} (hcheck : checkPath path = .ok ())
    (hfollow : d.follow linkLimit [] (components path) = .ok loc) (hentry : d.entry? loc = some e)
    (hplain : meansDirectory path = true → e.isDirectory = true) : d.find path = .ok (loc, e) := by
  have hmeant : ¬ (meansDirectory path && (d.entry? loc).any (!·.isDirectory)) = true := by
    simpa [hentry] using hplain
  have hlocate : d.locate path = .ok loc := by
    rw [locate, hcheck]
    simp only [resolve, hfollow, bind, Except.bind, if_neg hmeant]
    rfl
  rw [find, hlocate]
  simp only [bind, Except.bind, hentry]
  rfl

theorem exists_iff {path : String} : d.exists path ↔ ∃ found, d.find path = .ok found := by
  unfold Disk.exists
  cases d.find path <;> simp [Except.isOk, Except.toBool]

/-! ### Directories around what names lead to -/

/-- What holds of all directories around what the names lead to, the first one included. -/
def Around (p : List String → Prop) (names : List String) : Prop :=
  ∀ dir rest, rest ≠ [] → names = dir ++ rest → p dir

section
variable {p : List String → Prop}

theorem around_nil : Around p [] := fun _ _ hrest hnames => absurd (List.append_eq_nil_iff.mp hnames.symm).2 hrest

theorem around_cons : Around p (n :: names) ↔ p [] ∧ Around (fun dir => p (n :: dir)) names := by
  constructor
  · exact fun h => ⟨h [] (n :: names) (by simp) rfl, fun dir rest hrest hnames => h (n :: dir) rest hrest (by simp [hnames])⟩
  · rintro ⟨hfirst, h⟩ dir rest hrest hnames
    cases dir with
    | nil => exact hfirst
    | cons m dir =>
      obtain ⟨rfl, htail⟩ := List.cons.inj hnames
      exact h dir rest hrest htail

theorem around_concat : Around p (names ++ [n]) ↔ Around p names ∧ p names := by
  induction names generalizing p with
  | nil =>
    rw [List.nil_append, around_cons]
    exact and_comm.trans (and_congr_left fun _ => iff_of_true around_nil around_nil)
  | cons m names ih => rw [List.cons_append, around_cons, ih, around_cons, and_assoc]

end

/-- Names can be looked up in every directory from the location on around what the names lead to. -/
def Passable (d : Disk) (at_ : Location) (names : List String) : Prop := Around (fun dir => d.searchable (at_ ++ dir)) names

theorem passable_nil : d.Passable at_ [] := around_nil

theorem passable_cons : d.Passable at_ (n :: names) ↔ d.searchable at_ ∧ d.Passable (at_ ++ [n]) names := by
  rw [Passable, around_cons, List.append_nil, Passable]
  simp only [List.append_assoc, List.singleton_append]

theorem passable_concat : d.Passable at_ (names ++ [n]) ↔ d.Passable at_ names ∧ d.searchable (at_ ++ names) :=
  around_concat

end SymbolGraph.Disk
