import SymbolGraph.Document.Reader
import SymbolGraph.Proofs.Pieces

/-! What the readers of a text do with what comes next: which of them succeed, what they give and what
    they leave. A reader that is made of others is followed with `bind_taken`, one reader after the other. -/

namespace SymbolGraph.Document.Reader

open Text

variable {α β : Type} {s s' cs rest : List Char}

/-! ### One reader after the other -/

/-- What follows a reader that succeeds goes on with its result and with what it leaves. -/
theorem bind_taken {r : Reader α} {a : α} (h : r s = some (a, s')) (f : α → Reader β) : (r >>= f) s = f a s' := by
  show (r s >>= fun p => f p.1 p.2) = _
  rw [h]
  rfl

/-- What follows a reader that fails does not matter. -/
theorem bind_failed {r : Reader α} (h : r s = none) (f : α → Reader β) : (r >>= f) s = none := by
  show (r s >>= fun p => f p.1 p.2) = _
  rw [h]
  rfl

theorem bind_none {r : Reader α} {f : α → Reader β} (h : ∀ a s', r s = some (a, s') → f a s' = none) :
    (r >>= f) s = none := by
  cases hr : r s with
  | none => exact bind_failed hr f
  | some p =>
    obtain ⟨a, s'⟩ := p
    rw [bind_taken hr]
    exact h a s' hr

theorem exists_of_bind {r : Reader α} {f : α → Reader β} {b : β} (h : (r >>= f) s = some (b, s')) :
    ∃ a t, r s = some (a, t) ∧ f a t = some (b, s') := by
  cases hr : r s with
  | none =>
    rw [bind_failed hr f] at h
    cases h
  | some p =>
    obtain ⟨a, t⟩ := p
    rw [bind_taken hr] at h
    exact ⟨a, t, rfl, h⟩

@[simp] theorem pure_apply (a : α) : (pure a : Reader α) s = some (a, s) := rfl

@[simp] theorem failure_apply : (failure : Reader α) s = none := rfl

@[simp] theorem get_apply : (get : Reader (List Char)) s = some (s, s) := rfl

@[simp] theorem rest_apply : Reader.rest s = some (s, s) := rfl

@[simp] theorem peek?_apply : peek? s = some (s.head?, s) := rfl

theorem maybe_taken {r : Reader α} {a : α} (h : r s = some (a, s')) : maybe r s = some (some a, s') := by
  rw [maybe, h]

theorem maybe_failed {r : Reader α} (h : r s = none) : maybe r s = some (none, s) := by rw [maybe, h]

/-! ### Single characters -/

@[simp] theorem next_cons (c : Char) : next (c :: cs) = some (c, cs) := rfl

theorem one_cons {isIn : Char → Bool} {c : Char} (h : isIn c) : one isIn (c :: cs) = some (c, cs) := by
  show (if isIn c then (do set cs; return c : Reader Char) else failure) (c :: cs) = _
  rw [if_pos h]
  rfl

theorem one_failed {isIn : Char → Bool} (h : ∀ c ∈ s.head?, isIn c = false) : one isIn s = none := by
  cases s with
  | nil => rfl
  | cons c cs =>
    show (if isIn c then (do set cs; return c : Reader Char) else failure) (c :: cs) = none
    rw [h c rfl]
    rfl

@[simp] theorem mark_cons (c : Char) : mark c (c :: cs) = some ((), cs) := by
  have hone : one (· == c) (c :: cs) = some (c, cs) := one_cons (beq_self_eq_true c)
  rw [mark, bind_taken hone]
  rfl

theorem mark_failed {c : Char} (h : s.head? ≠ some c) : mark c s = none :=
  bind_failed (one_failed fun d hd => beq_false_of_ne fun hdc => h (by rw [hd, hdc])) _

/-! ### Runs -/

theorem takeWhile_stops {isIn : Char → Bool} (hcs : ∀ c ∈ cs, isIn c) (hrest : ∀ c ∈ rest.head?, isIn c = false) :
    (cs ++ rest).takeWhile isIn = cs ∧ (cs ++ rest).dropWhile isIn = rest := by
  rw [List.takeWhile_append_of_pos hcs, List.dropWhile_append_of_pos hcs]
  cases rest with
  | nil => simp
  | cons d ds => simp [hrest d rfl]

/-- A run ends before the first character that is not of the class. -/
theorem run_append {isIn : Char → Bool} (hcs : ∀ c ∈ cs, isIn c) (hrest : ∀ c ∈ rest.head?, isIn c = false) :
    run isIn (cs ++ rest) = some (cs, rest) := by
  obtain ⟨htake, hdrop⟩ := takeWhile_stops hcs hrest
  show some ((cs ++ rest).takeWhile isIn, (cs ++ rest).dropWhile isIn) = _
  rw [htake, hdrop]

theorem run_nothing {isIn : Char → Bool} (h : ∀ c ∈ s.head?, isIn c = false) : run isIn s = some ([], s) := by
  have hrun : run isIn ([] ++ s) = some ([], s) := run_append (by simp) h
  exact hrun

theorem run1_append {isIn : Char → Bool} (hne : cs ≠ []) (hcs : ∀ c ∈ cs, isIn c)
    (hrest : ∀ c ∈ rest.head?, isIn c = false) : run1 isIn (cs ++ rest) = some (cs, rest) := by
  rw [run1, bind_taken (run_append hcs hrest), if_neg (by simpa using hne)]
  rfl

/-! ### Words -/

theorem skip?_append (text : String) : skip? text (text.toList ++ rest) = some (true, rest) := by
  rw [skip?, bind_taken get_apply, dropStart?_append]
  rfl

theorem skip?_other {text : String} (h : ¬ text.toList <+: s) : skip? text s = some (false, s) := by
  have hdrop : dropStart? text.toList s = none := by
    rw [← Option.not_isSome_iff_eq_none, dropStart?_isSome]
    exact h
  rw [skip?, bind_taken get_apply, hdrop]
  rfl

/-- No text comes next that starts with another character. -/
theorem other_head {text : String} {c : Char} (h : text.toList.head?.any (· != c)) : ¬ text.toList <+: c :: cs := by
  rintro hprefix
  obtain ⟨d, hhead, hne⟩ := (Option.any_eq_true _ _).mp h
  obtain ⟨ds, hds⟩ := List.head?_eq_some_iff.mp hhead
  rw [hds] at hprefix
  exact bne_iff_ne.mp hne (List.cons_prefix_cons.mp hprefix).1

theorem branch_taken {text : String} {yes no : Reader α} (h : text.toList ++ rest = s) :
    (skip? text >>= fun taken => if taken then yes else no) s = yes rest := by
  rw [← h, bind_taken (skip?_append text), if_pos rfl]

theorem branch_other {text : String} {yes no : Reader α} (h : ¬ text.toList <+: s) :
    (skip? text >>= fun taken => if taken then yes else no) s = no s := by
  rw [bind_taken (skip?_other h), if_neg Bool.false_ne_true]

theorem word_append (text : String) : word text (text.toList ++ rest) = some ((), rest) := by
  rw [word, branch_taken rfl, pure_apply]

theorem word_failed {text : String} (h : ¬ text.toList <+: s) : word text s = none := by
  rw [word, branch_other h, failure_apply]

end SymbolGraph.Document.Reader
