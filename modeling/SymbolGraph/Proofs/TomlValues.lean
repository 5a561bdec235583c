import SymbolGraph.Document.Toml.Read
import SymbolGraph.Proofs.TomlTexts

/-! Values survive being written. Numbers, switches, texts and lists of texts are read back from the way they
    are written, up to the end of their line. A number alone on its line is no date and no time, as no dash
    and no colon comes after its digits. -/

namespace SymbolGraph.Document.Toml

open Reader

variable {rest : List Char}

/-! ### Numbers -/

theorem numberIn_toDigits (n : Nat) : numberIn 10 (Nat.toDigits 10 n) = n := by
  have hfold : ∀ (ds : List Char) (m : Nat), (∀ d ∈ ds, d.isDigit) →
      ds.foldl (fun n c => n * 10 + digitValue c) m = Nat.ofDigitChars 10 ds m := fun ds => by
    induction ds with
    | nil => intro m _; rfl
    | cons d ds ih =>
      intro m hds
      have hd : digitValue d = d.toNat - '0'.toNat := by
        rw [digitValue, if_pos (hds d List.mem_cons_self)]
        rfl
      rw [List.foldl_cons, Nat.ofDigitChars_cons, hd, Nat.mul_comm m 10]
      exact ih _ fun d hd => hds d (List.mem_cons_of_mem _ hd)
  rw [numberIn, hfold _ _ fun d hd => Nat.isDigit_of_mem_toDigits (by decide) (by decide) hd]
  exact Nat.ofDigitChars_toDigits (by decide) (by decide)

/-- Only zero is written with a zero in front. -/
theorem head?_toDigits {n : Nat} (h : (Nat.toDigits 10 n).head? = some '0') : n = 0 := by
  induction n using Nat.strongRecOn with
  | ind n ih =>
    rw [Nat.toDigits_eq_if (by decide)] at h
    split at h
    · next hlt =>
      have hall : ∀ m < 10, m.digitChar = '0' → m = 0 := by decide
      exact hall n hlt (Option.some_inj.mp h)
    · next hge =>
      have hhead : (Nat.toDigits 10 (n / 10)).head? = some '0' := by
        rwa [List.head?_append_of_ne_nil _ Nat.toDigits_ne_nil] at h
      have := ih (n / 10) (by omega) hhead
      omega

/-- Digits up to the end of a line. -/
def Numeral (s : List Char) : Prop := ∃ ds rest, s = ds ++ '\n' :: rest ∧ ∀ d ∈ ds, d.isDigit

section
variable {c : Char} {s s' : List Char}

theorem Numeral.of_digits {ds : List Char} (h : ∀ d ∈ ds, d.isDigit) (rest : List Char) :
    Numeral (ds ++ '\n' :: rest) := ⟨ds, rest, rfl, h⟩

theorem Numeral.of_cons (h : Numeral (c :: s)) : c = '\n' ∨ c.isDigit ∧ Numeral s := by
  obtain ⟨ds, rest, hs, hds⟩ := h
  cases ds with
  | nil => exact .inl (List.cons.inj hs).1
  | cons d ds =>
    obtain ⟨rfl, rfl⟩ := List.cons.inj hs
    exact .inr ⟨hds c List.mem_cons_self, ds, rest, rfl, fun d hd => hds d (List.mem_cons_of_mem _ hd)⟩

theorem Numeral.one (h : Numeral s) (hone : one Char.isDigit s = some (c, s')) : Numeral s' := by
  cases s with
  | nil => cases hone
  | cons d ds =>
    rcases h.of_cons with rfl | ⟨hd, hds⟩
    · cases hone
    · rw [one_cons hd] at hone
      cases hone
      exact hds

theorem Numeral.mark_failed (h : Numeral s) (hc : c.isDigit = false) (hline : c ≠ '\n') : mark c s = none := by
  refine Reader.mark_failed fun hhead => ?_
  cases s with
  | nil => cases hhead
  | cons d ds =>
    cases hhead
    rcases h.of_cons with rfl | ⟨hd, -⟩
    · exact hline rfl
    · rw [hd] at hc
      cases hc

theorem Numeral.twoDigits (h : Numeral s) {least most n : Nat} (htwo : twoDigits least most s = some (n, s')) :
    Numeral s' := by
  obtain ⟨a, t, ha, hrest⟩ := exists_of_bind htwo
  obtain ⟨b, u, hb, hchecked⟩ := exists_of_bind hrest
  have hu := (h.one ha).one hb
  by_cases hn : least ≤ numberIn 10 [a, b] ∧ numberIn 10 [a, b] ≤ most
  · simp only [if_pos hn] at hchecked
    cases hchecked
    exact hu
  · simp only [if_neg hn] at hchecked
    cases hchecked

/-- A number alone on its line starts no date. -/
theorem Numeral.yearMark (h : Numeral s) : yearMark s = none :=
  bind_none fun _ _ h₁ => bind_none fun _ _ h₂ => bind_none fun _ _ h₃ => bind_none fun _ _ h₄ =>
    bind_failed ((((h.one h₁).one h₂).one h₃).one h₄ |>.mark_failed (by decide) (by decide)) _

/-- A number alone on its line starts no time. -/
theorem Numeral.hourMark (h : Numeral s) : hourMark s = none :=
  bind_none fun _ _ htwo => (h.twoDigits htwo).mark_failed (by decide) (by decide)

theorem Numeral.not_prefix (h : Numeral s) {start : List Char} (hline : '\n' ∉ start)
    (hstart : start.all Char.isDigit = false) : ¬ start <+: s := by
  rintro ⟨tail, rfl⟩
  induction start with
  | nil => cases hstart
  | cons d ds ih =>
    rw [List.mem_cons, not_or] at hline
    rcases h.of_cons with rfl | ⟨hd, hds⟩
    · exact hline.1 rfl
    · rw [List.all_cons, hd, Bool.true_and] at hstart
      exact ih hline.2 hstart hds

end

theorem sign_nothing {s : List Char} (h : s.head? ≠ some '+') (h' : s.head? ≠ some '-') :
    sign s = some (false, s) := by
  have hone : one (fun c => c == '+' || c == '-') s = none := one_failed fun c hc => by
    rw [Bool.or_eq_false_iff, beq_eq_false_iff_ne, beq_eq_false_iff_ne]
    exact ⟨fun heq => h (by rw [hc, heq]), fun heq => h' (by rw [hc, heq])⟩
  rw [sign, bind_taken (maybe_failed hone)]
  rfl

theorem wholeDigits_toDigits (n : Nat) :
    wholeDigits (Nat.toDigits 10 n ++ '\n' :: rest) = some (Nat.toDigits 10 n, '\n' :: rest) := by
  rw [wholeDigits]
  by_cases hn : n = 0
  · subst hn
    exact branch_taken rfl
  · have hskip : ¬ "0".toList <+: Nat.toDigits 10 n ++ '\n' :: rest := fun hprefix => by
      obtain ⟨tail, htail⟩ := hprefix
      refine hn (head?_toDigits ?_)
      rw [← List.head?_append_of_ne_nil (Nat.toDigits 10 n) Nat.toDigits_ne_nil, ← htail]
      rfl
    have hrun : run1 Char.isDigit (Nat.toDigits 10 n ++ '\n' :: rest) = some (Nat.toDigits 10 n, '\n' :: rest) :=
      run1_append Nat.toDigits_ne_nil (fun d hd => Nat.isDigit_of_mem_toDigits (by decide) (by decide) hd) (by simp)
    rw [branch_other hskip, digits, bind_taken rest_apply, digitGroups, bind_taken hrun,
      branch_other (other_head (by decide)), pure_apply]

theorem number_toDigits {n : Nat} (h : n < 9223372036854775808) :
    number (Nat.toDigits 10 n ++ '\n' :: rest) = some (.integer n, '\n' :: rest) := by
  let s := Nat.toDigits 10 n ++ '\n' :: rest
  have hs : Numeral s := .of_digits (fun d hd => Nat.isDigit_of_mem_toDigits (by decide) (by decide) hd) rest
  have hplus : ¬ ['+'] <+: s := hs.not_prefix (by decide) (by decide)
  have hminus : ¬ ['-'] <+: s := hs.not_prefix (by decide) (by decide)
  have hsign : sign s = some (false, s) := sign_nothing
    (fun hhead => hplus (List.singleton_prefix_iff_head?_eq_some.mpr hhead))
    (fun hhead => hminus (List.singleton_prefix_iff_head?_eq_some.mpr hhead))
  -- A numeral starts with a digit, so nothing that is tried before decimal numbers takes it.
  have hspecial : special s = none := by
    rw [special, bind_taken hsign, branch_other (hs.not_prefix (by decide) (by decide))]
    exact bind_failed (word_failed (hs.not_prefix (by decide) (by decide))) _
  have hfits : -9223372036854775808 ≤ (n : Int) ∧ (n : Int) < 9223372036854775808 := by omega
  have hdecimal : decimal s = some (.integer n, '\n' :: rest) := by
    rw [decimal, bind_taken hsign, bind_taken (wholeDigits_toDigits n), bind_taken (skip?_other (other_head (by decide)))]
    simp only [Bool.false_eq_true, if_false, pure_bind]
    rw [bind_taken peek?_apply]
    have hpower : ('\n' == 'e' || '\n' == 'E') = false := by decide
    simp only [List.head?_cons, Option.any_some, hpower, List.isEmpty_nil, Bool.not_false, Bool.and_self, if_true,
      Bool.false_eq_true, if_false]
    rw [numberIn_toDigits, fitting, if_pos hfits]
    rfl
  show number s = _
  rw [number, branch_other (hs.not_prefix (by decide) (by decide)), branch_other (hs.not_prefix (by decide) (by decide)),
    branch_other (hs.not_prefix (by decide) (by decide)), bind_taken (maybe_failed hspecial)]
  exact hdecimal

/-! ### Values -/

/-- The characters, with what follows them, are read as the value. -/
structure Stands (chars rest : List Char) (v : Value) : Prop where
  /-- Spaces before the value end where it starts. -/
  no_space : ∀ c ∈ (chars ++ rest).head?, isSpace c = false
  read : ∀ fuel, (chars ++ rest).length < fuel → value fuel 0 (chars ++ rest) = some (v, rest)

/-- It is enough that the value is read with one unit of fuel more than some. -/
theorem Stands.of_succ {chars : List Char} {v : Value} (hspace : ∀ c ∈ (chars ++ rest).head?, isSpace c = false)
    (hread : ∀ fuel, (chars ++ rest).length ≤ fuel → value (fuel + 1) 0 (chars ++ rest) = some (v, rest)) :
    Stands chars rest v := by
  refine ⟨hspace, fun fuel hfuel => ?_⟩
  obtain ⟨fuel, rfl⟩ := Nat.exists_eq_add_one_of_ne_zero (Nat.ne_zero_of_lt hfuel)
  exact hread fuel (Nat.le_of_lt_succ hfuel)

theorem stands_number {n : Nat} (h : n < 9223372036854775808) :
    Stands (toString n).toList ('\n' :: rest) (.integer n) := by
  have hs : Numeral (Nat.toDigits 10 n ++ '\n' :: rest) :=
    .of_digits (fun d hd => Nat.isDigit_of_mem_toDigits (by decide) (by decide) hd) rest
  have hnumber : numberOrDate (Nat.toDigits 10 n ++ '\n' :: rest) = some (.integer n, '\n' :: rest) := by
    rw [numberOrDate, bind_taken (maybe_failed hs.yearMark)]
    dsimp only
    rw [bind_taken (maybe_failed hs.hourMark)]
    exact number_toDigits h
  obtain ⟨d, ds, hdigits⟩ := List.exists_cons_of_ne_nil (Nat.toDigits_ne_nil (n := n) (b := 10))
  have hd : d.isDigit := Nat.isDigit_of_mem_toDigits (b := 10) (n := n) (by decide) (by decide) (by simp [hdigits])
  rw [show (toString n).toList = d :: ds by simp [hdigits]]
  rw [hdigits] at hnumber
  refine .of_succ (fun c hc => ?_) fun fuel _ => ?_
  · cases hc
    rw [isSpace, Bool.or_eq_false_iff, beq_eq_false_iff_ne, beq_eq_false_iff_ne]
    constructor
    · rintro rfl
      cases hd
    · rintro rfl
      cases hd
  · rw [value, bind_taken peek?_apply]
    generalize hpeek : (d :: ds ++ '\n' :: rest).head? = o
    -- None of the characters that other values start with is a digit.
    split
    any_goals exact hnumber
    all_goals cases hpeek
    all_goals cases hd

theorem stands_bool (b : Bool) : Stands (toString b).toList rest (.bool b) := by
  refine .of_succ (fun c hc => ?_) fun fuel _ => ?_
  · cases b <;> cases hc <;> rfl
  · rw [value, bind_taken peek?_apply]
    cases b with
    | true => exact bind_taken (word_append "true") _
    | false => exact bind_taken (word_append "false") _

theorem toList_writeText (s : String) : ∃ c cs, (writeText s).toList = c :: cs ∧ (c = '\x22' ∨ c = '\x27') := by
  rw [writeText]
  split
  · exact ⟨_, _, by simp [String.toList_append]; rfl, .inl rfl⟩
  · exact ⟨_, _, by simp [String.toList_append]; rfl, .inr rfl⟩
  · exact ⟨_, _, by simp [String.toList_append]; rfl, .inl rfl⟩
  · exact ⟨_, _, by simp [String.toList_append]; rfl, .inr rfl⟩

theorem value_writeText (fuel depth : Nat) (s : String) (hrest : NoQuote rest) :
    value (fuel + 1) depth ((writeText s).toList ++ rest) = some (.text s, rest) := by
  have hread := text_writeText s hrest
  obtain ⟨c, cs, hchars, hc⟩ := toList_writeText s
  rw [hchars] at hread ⊢
  rw [value, bind_taken peek?_apply]
  rcases hc with rfl | rfl
  · exact bind_taken hread _
  · exact bind_taken hread _

theorem stands_text (s : String) (hrest : NoQuote rest) : Stands (writeText s).toList rest (.text s) := by
  refine .of_succ (fun c hc => ?_) fun fuel _ => value_writeText fuel 0 s hrest
  obtain ⟨d, cs, hchars, hd⟩ := toList_writeText s
  rw [hchars] at hc
  cases hc
  rcases hd with rfl | rfl <;> rfl

/-! ### Lists of texts -/

/-- No gap starts here. -/
def Solid (s : List Char) : Prop := ∀ c ∈ s.head?, c ∉ [' ', '\t', '#', '\n', '\r']

theorem solid_cons {c : Char} (h : c ∉ [' ', '\t', '#', '\n', '\r']) (s : List Char) : Solid (c :: s) := by
  rintro d ⟨⟩
  exact h

theorem solid_writeText (s : String) (rest : List Char) : Solid ((writeText s).toList ++ rest) := by
  obtain ⟨c, cs, hchars, hc⟩ := toList_writeText s
  rw [hchars, List.cons_append]
  rcases hc with rfl | rfl <;> exact solid_cons (by decide) _

section
variable {s : List Char}

theorem Solid.no_space (h : Solid s) : ∀ c ∈ s.head?, isSpace c = false := fun c hc => by
  have hsolid := h c hc
  simp only [List.mem_cons, not_or] at hsolid
  simp [isSpace, hsolid]

theorem Solid.spaces (h : Solid s) : Toml.spaces s = some ((), s) := by
  rw [Toml.spaces, bind_taken (run_nothing h.no_space)]
  rfl

theorem Solid.head?_ne (h : Solid s) {c : Char} (hc : c ∈ [' ', '\t', '#', '\n', '\r']) : s.head? ≠ some c :=
  fun hhead => h c hhead hc

/-- A gap ends after the spaces if something solid comes then. -/
theorem Solid.gaps_spaces (h : Solid s) {input : List Char} (hspaces : Toml.spaces input = some ((), s)) (fuel : Nat) :
    Toml.gaps (fuel + 1) input = some ((), s) := by
  have hcomment : (s.head? == some '#') = false := beq_false_of_ne (h.head?_ne (by decide))
  have hnewline := newline_failed (h.head?_ne (c := '\n') (by decide)) (h.head?_ne (c := '\r') (by decide))
  rw [Toml.gaps, bind_taken hspaces, bind_taken peek?_apply, hcomment]
  simp only [Bool.false_eq_true, if_false]
  rw [bind_taken (maybe_failed hnewline)]
  rfl

theorem Solid.gaps (h : Solid s) (fuel : Nat) : Toml.gaps fuel s = some ((), s) := by
  cases fuel with
  | zero => rfl
  | succ fuel => exact h.gaps_spaces h.spaces fuel

/-- A gap may hold the end of a line and the spaces that the next one starts with. -/
theorem Solid.gaps_line (h : Solid s) (fuel width : Nat) :
    Toml.gaps (fuel + 2) ('\n' :: (List.replicate width ' ' ++ s)) = some ((), s) := by
  have hspaces : Toml.spaces ('\n' :: (List.replicate width ' ' ++ s)) = some ((), '\n' :: (List.replicate width ' ' ++ s)) := by
    rw [Toml.spaces, bind_taken (run_nothing (by simp [isSpace]))]
    rfl
  have hrun : run isSpace (List.replicate width ' ' ++ s) = some (List.replicate width ' ', s) :=
    run_append (by simp [isSpace]) h.no_space
  have hwide : Toml.spaces (List.replicate width ' ' ++ s) = some ((), s) := by
    rw [Toml.spaces, bind_taken hrun]
    rfl
  have hbreak : (('\n' :: (List.replicate width ' ' ++ s)).head? == some '#') = false := rfl
  rw [Toml.gaps, bind_taken hspaces, bind_taken peek?_apply, hbreak]
  simp only [Bool.false_eq_true, if_false]
  rw [bind_taken (maybe_taken (newline_taken _))]
  exact h.gaps_spaces hwide fuel

end

theorem not_bracket (s : String) (rest : List Char) : ¬ "]".toList <+: (writeText s).toList ++ rest := by
  obtain ⟨c, cs, hchars, hc⟩ := toList_writeText s
  rw [hchars]
  rcases hc with rfl | rfl <;> exact other_head (by decide)

/-- A text with a comma after it is one item, and the other items are read from there. -/
theorem items_comma {fuel depth : Nat} {s : String} {vs : List Value} {input more : List Char}
    (hgap : gaps (fuel + 1) input = some ((), (writeText s).toList ++ ',' :: more))
    (hmore : items (fuel + 1) depth more = some (vs, rest)) :
    items (fuel + 2) depth input = some (.text s :: vs, rest) := by
  have hvalue := @value_writeText (',' :: more) fuel depth s ⟨by simp, by simp⟩
  have hafter := (solid_cons (c := ',') (by decide) more).gaps (fuel + 1)
  rw [items, bind_taken hgap, branch_other (not_bracket s _), bind_taken hvalue, bind_taken hafter, branch_taken (by rfl),
    bind_taken hmore]
  rfl

theorem items_last (fuel depth : Nat) (s : String) :
    items (fuel + 2) depth ((writeText s).toList ++ ']' :: rest) = some ([.text s], rest) := by
  have hvalue := @value_writeText (']' :: rest) fuel depth s ⟨by simp, by simp⟩
  have hafter := (solid_cons (c := ']') (by decide) rest).gaps (fuel + 1)
  rw [items, bind_taken ((solid_writeText s _).gaps _), branch_other (not_bracket s _), bind_taken hvalue,
    bind_taken hafter, branch_other (other_head (by decide)), bind_taken (mark_cons _)]
  rfl

/-- Texts with a line each, to the bracket that closes the list. -/
theorem items_lines (depth : Nat) (ss : List String) {fuel : Nat} (hfuel : ss.length + 2 < fuel) :
    items fuel depth ('\n' :: ((String.join (ss.map fun s => "    " ++ writeText s ++ ",\n")).toList ++ ']' :: rest)) =
      some (ss.map .text, rest) := by
  induction ss generalizing fuel with
  | nil =>
    obtain ⟨fuel, rfl⟩ := Nat.exists_eq_add_of_lt hfuel
    have hgap : gaps (fuel + 2) ('\n' :: ']' :: rest) = some ((), ']' :: rest) :=
      (solid_cons (by decide) rest).gaps_line fuel 0
    show items (0 + 2 + fuel + 1) depth ('\n' :: ']' :: rest) = _
    rw [show 0 + 2 + fuel + 1 = fuel + 2 + 1 by omega, items, bind_taken hgap, branch_taken (by rfl), pure_apply]
    rfl
  | cons s ss ih =>
    obtain ⟨fuel, rfl⟩ : ∃ k, fuel = k + 4 := ⟨fuel - 4, by simp at hfuel; omega⟩
    let more := '\n' :: ((String.join (ss.map fun s => "    " ++ writeText s ++ ",\n")).toList ++ ']' :: rest)
    have hinput : '\n' :: ((String.join ((s :: ss).map fun s => "    " ++ writeText s ++ ",\n")).toList ++ ']' :: rest) =
        '\n' :: (List.replicate 4 ' ' ++ ((writeText s).toList ++ ',' :: more)) := by
      simp [more, String.toList_append, List.replicate]
    rw [hinput]
    refine items_comma ((solid_writeText s _).gaps_line (fuel + 1) 4) (ih ?_)
    simp at hfuel ⊢
    omega

theorem value_list {fuel : Nat} {vs : List Value} {input : List Char} (h : items fuel 1 input = some (vs, rest)) :
    value (fuel + 1) 0 ('[' :: input) = some (.list vs, rest) := by
  rw [value, bind_taken peek?_apply]
  show (mark '[' >>= fun _ => do return .list (← items fuel 1) : Reader Value) _ = _
  rw [bind_taken (mark_cons _), bind_taken h]
  rfl

theorem length_le_lines (ss : List String) :
    ss.length ≤ (String.join (ss.map fun s => "    " ++ writeText s ++ ",\n")).toList.length := by
  induction ss with
  | nil => exact Nat.zero_le _
  | cons s ss ih =>
    rw [List.map_cons, String.join_cons, String.toList_append, List.length_append, String.toList_append]
    simp at ih ⊢
    omega

theorem stands_texts (ss : List String) : Stands (writeTexts ss).toList rest (.list (ss.map .text)) := by
  have hhead : ∃ tail, (writeTexts ss).toList ++ rest = '[' :: tail := by
    unfold writeTexts
    split <;> simp [String.toList_append]
  refine .of_succ (fun c hc => ?_) fun fuel hfuel => ?_
  · obtain ⟨tail, htail⟩ := hhead
    rw [htail] at hc
    cases hc
    rfl
  -- No item, one item on the same line, or each item on a line of its own.
  cases ss with
  | nil =>
    obtain ⟨fuel, rfl⟩ : ∃ k, fuel = k + 1 := ⟨fuel - 1, by simp [writeTexts] at hfuel; omega⟩
    have hitems : items (fuel + 1) 1 (']' :: rest) = some ([], rest) := by
      rw [items, bind_taken ((solid_cons (by decide) rest).gaps fuel), branch_taken (by rfl), pure_apply]
    exact value_list hitems
  | cons s more =>
    cases more with
    | nil =>
      obtain ⟨fuel, rfl⟩ : ∃ k, fuel = k + 2 := ⟨fuel - 2, by simp [writeTexts, String.toList_append] at hfuel; omega⟩
      have hinput : (writeTexts [s]).toList ++ rest = '[' :: ((writeText s).toList ++ ']' :: rest) := by
        simp [writeTexts, String.toList_append]
      rw [hinput]
      exact value_list (items_last fuel 1 s)
    | cons t more =>
      have hinput : (writeTexts (s :: t :: more)).toList ++ rest = '[' ::
          '\n' :: ((String.join ((s :: t :: more).map fun s => "    " ++ writeText s ++ ",\n")).toList ++ ']' :: rest) := by
        have hwritten : writeTexts (s :: t :: more) =
            "[\n" ++ String.join ((s :: t :: more).map fun s => "    " ++ writeText s ++ ",\n") ++ "]" := rfl
        rw [hwritten, String.toList_append, String.toList_append, List.append_assoc, List.append_assoc]
        rfl
      have hlength := length_le_lines (s :: t :: more)
      rw [hinput] at hfuel ⊢
      refine value_list (items_lines 1 _ ?_)
      simp only [List.length_cons, List.length_append] at hfuel hlength ⊢
      omega

end SymbolGraph.Document.Toml
