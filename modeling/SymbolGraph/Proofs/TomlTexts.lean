import SymbolGraph.Document.Toml.Scalar
import SymbolGraph.Document.Toml.Write
import SymbolGraph.Proofs.Readers

/-! Texts survive being written. Whatever characters a text holds, the form in which it is written is read
    as the text, if no further quote follows. A character between double quotes is written as itself, as
    a newline or as an escape, and each of these is read back; quotes in a row wait until it is known whether
    they belong to the text or close it. -/

namespace SymbolGraph.Document.Toml

open Reader

/-! ### Numbered escapes -/

theorem upperHexDigit_lt {n : Nat} (h : n < 16) :
    isHexDigit (upperHexDigit n) = true ∧ digitValue (upperHexDigit n) = n := by
  revert n
  decide

theorem hexDigits_append {ds rest : List Char} (h : ∀ d ∈ ds, isHexDigit d) :
    hexDigits ds.length (ds ++ rest) = some (ds, rest) := by
  induction ds with
  | nil => rfl
  | cons d ds ih =>
    rw [List.length_cons, hexDigits, List.cons_append, bind_taken (one_cons (h d List.mem_cons_self)),
      bind_taken (ih fun d hd => h d (List.mem_cons_of_mem _ hd))]
    rfl

/-- The four digits of a small number spell it. -/
theorem numberedEscape_spells {n : Nat} (h : n < 65536) :
    numberIn 16 ([n / 4096 % 16, n / 256 % 16, n / 16 % 16, n % 16].map upperHexDigit) = n := by
  simp only [numberIn, List.map_cons, List.map_nil, List.foldl_cons, List.foldl_nil]
  rw [(upperHexDigit_lt (n := n / 4096 % 16) (by omega)).2, (upperHexDigit_lt (n := n / 256 % 16) (by omega)).2,
    (upperHexDigit_lt (n := n / 16 % 16) (by omega)).2, (upperHexDigit_lt (n := n % 16) (by omega)).2]
  omega

theorem escaped_numbered {c : Char} (h : c.toNat < 0xD800) (tail : List Char) :
    escaped ((numberedEscape c).tail ++ tail) = some (c, tail) := by
  let ds := [c.toNat / 4096 % 16, c.toNat / 256 % 16, c.toNat / 16 % 16, c.toNat % 16].map upperHexDigit
  have hds : ∀ d ∈ ds, isHexDigit d := fun d hd => by
    obtain ⟨n, hn, rfl⟩ := List.mem_map.mp hd
    refine (upperHexDigit_lt ?_).1
    simp only [List.mem_cons, List.not_mem_nil, or_false] at hn
    omega
  have hchar : scalar? (numberIn 16 ds) = some c := by
    rw [numberedEscape_spells (by omega), scalar?, if_pos (.inl h), Char.ofNat_toNat]
  have hread : hexDigits 4 (ds ++ tail) = some (ds, tail) := hexDigits_append hds
  show numbered 4 (ds ++ tail) = _
  rw [numbered, bind_taken hread, hchar]
  rfl

/-! ### Characters between double quotes -/

/-- How a character may be written between double quotes. -/
inductive Written (onLines : Bool) : Char → List Char → Prop where
  | plain {c : Char} (h : isBasic c) : Written onLines c [c]
  | newline (h : onLines = true) : Written onLines '\n' ['\n']
  /-- An escape starts with no blank after its backslash, so that it folds no line. -/
  | escape {c mark : Char} {more : List Char} (hread : ∀ tail, escaped (mark :: more ++ tail) = some (c, tail))
      (hmark : mark ∉ [' ', '\t', '\n', '\r']) : Written onLines c ('\\' :: mark :: more)

theorem isPlain_of_not_control {c : Char} (h : isControl c = false) (hnewline : c ≠ '\n') : isPlain c = true := by
  simp only [isControl, isPlain, Bool.or_eq_false_iff, Bool.and_eq_false_iff, decide_eq_false_iff_not, bne_eq_false_iff_eq,
    beq_eq_false_iff_ne, Bool.or_eq_true, beq_iff_eq, Bool.and_eq_true, decide_eq_true_eq, bne_iff_ne] at h ⊢
  rcases h.1 with (hlow | htab) | hline
  · exact .inr ⟨by omega, h.2⟩
  · exact .inl htab
  · exact absurd hline hnewline

theorem toNat_of_isControl {c : Char} (h : isControl c) : c.toNat < 128 := by
  simp only [isControl, Bool.or_eq_true, Bool.and_eq_true, decide_eq_true_eq, beq_iff_eq] at h
  omega

theorem written_numbered {onLines : Bool} {c : Char} (h : isControl c) : Written onLines c (numberedEscape c) :=
  .escape (escaped_numbered (by have := toNat_of_isControl h; omega)) (by decide)

theorem Written.quote (onLines : Bool) : Written onLines '\x22' ['\\', '\x22'] :=
  @Written.escape onLines '\x22' '\x22' [] (fun _ => rfl) (by decide)

/-- A character that is no quote is written in one of the ways, and the run of quotes starts anew. -/
theorem basicChars_cons (onLines : Bool) (run : Nat) {c : Char} (h : c ≠ '\x22') (cs : List Char) :
    ∃ w, Written onLines c w ∧ basicChars onLines run (c :: cs) = w ++ basicChars onLines 0 cs := by
  rw [basicChars.eq_def]
  simp only [h, if_false]
  refine ⟨_, ?_, rfl⟩
  split
  · exact .escape (fun _ => rfl) (by decide)
  · exact .escape (fun _ => rfl) (by decide)
  · split
    · next hlines => exact .newline hlines
    · exact .escape (fun _ => rfl) (by decide)
  · exact .escape (fun _ => rfl) (by decide)
  · exact .escape (fun _ => rfl) (by decide)
  · exact .escape (fun _ => rfl) (by decide)
  · next hnewline _ _ hbackslash =>
    split
    · next hcontrol => exact written_numbered hcontrol
    · next hcontrol =>
      have hplain := isPlain_of_not_control (Bool.eq_false_iff.mpr hcontrol) hnewline
      exact .plain (by simp [isBasic, hplain, h]; exact hbackslash)

theorem basicChars_quote_kept {run : Nat} (h : run < 2) (cs : List Char) :
    basicChars true run ('\x22' :: cs) = '\x22' :: basicChars true (run + 1) cs := by
  rw [basicChars.eq_def]
  simp [h]

theorem basicChars_quote_escaped {onLines : Bool} {run : Nat} (h : onLines = true → 2 ≤ run) (cs : List Char) :
    basicChars onLines run ('\x22' :: cs) = ['\\', '\x22'] ++ basicChars onLines 0 cs := by
  have hescaped : ¬ (onLines && decide (run < 2)) = true := by
    rw [Bool.and_eq_true, decide_eq_true_eq]
    exact fun ⟨hlines, hrun⟩ => absurd hrun (Nat.not_lt.mpr (h hlines))
  rw [basicChars.eq_def]
  simp only [if_true, hescaped]
  rfl

/-! ### Reading to the closing quotes -/

/-- Given enough fuel, the reader takes `cs` from the input and leaves `rest`. -/
def Reads (read : Nat → Reader (List Char)) (input cs rest : List Char) : Prop :=
  ∀ fuel, input.length < fuel → read fuel input = some (cs, rest)

/-- Each character that is taken costs one unit of fuel at most. -/
theorem Reads.step {read : Nat → Reader (List Char)} {input tail cs cs' rest : List Char} (h : Reads read tail cs rest)
    (hlen : tail.length < input.length)
    (hstep : ∀ fuel, read fuel tail = some (cs, rest) → read (fuel + 1) input = some (cs', rest)) :
    Reads read input cs' rest := by
  intro fuel hfuel
  cases fuel with
  | zero => omega
  | succ fuel => exact hstep fuel (h fuel (by omega))

theorem Reads.stop {read : Nat → Reader (List Char)} {input cs rest : List Char}
    (h : ∀ fuel, read (fuel + 1) input = some (cs, rest)) : Reads read input cs rest := by
  intro fuel hfuel
  cases fuel with
  | zero => omega
  | succ fuel => exact h fuel

theorem isBasic_ne {c : Char} (h : isBasic c) : c ≠ '\x22' ∧ c ≠ '\\' := by
  simp only [isBasic, Bool.and_eq_true, bne_iff_ne] at h
  exact ⟨h.1.2, h.2⟩

section
variable {c : Char} {w tail cs rest : List Char}

theorem basicBody_written (hw : Written false c w) (h : Reads basicBody tail cs rest) :
    Reads basicBody (w ++ tail) (c :: cs) rest := by
  refine h.step (by cases hw <;> simp +arith) fun fuel htail => ?_
  cases hw with
  | plain hbasic =>
    obtain ⟨hquote, hbackslash⟩ := isBasic_ne hbasic
    rw [List.singleton_append, basicBody, bind_taken (next_cons c)]
    split
    · exact absurd rfl hquote
    · exact absurd rfl hbackslash
    · rw [if_pos hbasic, bind_taken htail]
      rfl
  | newline hlines => cases hlines
  | escape hread _ =>
    rw [List.cons_append, basicBody, bind_taken (next_cons _)]
    show (escaped >>= fun c => do return c :: (← basicBody fuel)) _ = _
    rw [bind_taken (hread tail), bind_taken htail]
    rfl

/-- Between double quotes every text is read back. -/
theorem basicBody_basicChars (cs rest : List Char) (run : Nat) :
    Reads basicBody (basicChars false run cs ++ '\x22' :: rest) cs rest := by
  induction cs generalizing run with
  | nil => exact .stop fun _ => rfl
  | cons c cs ih =>
    by_cases hc : c = '\x22'
    · subst hc
      rw [basicChars_quote_escaped (by simp), List.append_assoc]
      exact basicBody_written (.quote false) (ih 0)
    · obtain ⟨w, hw, heq⟩ := basicChars_cons false run hc cs
      rw [heq, List.append_assoc]
      exact basicBody_written hw (ih 0)

/-! ### Quotes in a row -/

variable {quote : Char} {k : Nat}

theorem count_quotes (hrest : rest.head? ≠ some quote) :
    ((List.replicate k quote ++ rest).takeWhile (· == quote)).length = k := by
  have hquotes : ∀ c ∈ List.replicate k quote, c == quote := fun c hc => beq_iff_eq.mpr (List.eq_of_mem_replicate hc)
  have hother : ∀ c ∈ rest.head?, (c == quote) = false := fun c hc =>
    beq_false_of_ne fun heq => hrest (by rw [hc, heq])
  rw [(takeWhile_stops hquotes hother).1, List.length_replicate]

theorem quotes_inside (hk : k < 3) (hrest : rest.head? ≠ some quote) :
    quotes quote (List.replicate k quote ++ rest) = some ((k, false), rest) := by
  rw [quotes, bind_taken rest_apply, count_quotes hrest]
  simp only [hk, if_true]
  show some _ = _
  rw [List.drop_left' List.length_replicate]

/-- The last three quotes close the text. -/
theorem quotes_closing (hk : k < 3) (hrest : rest.head? ≠ some quote) :
    quotes quote (List.replicate (k + 3) quote ++ rest) = some ((k, true), rest) := by
  have hinside : min (k + 3 - 3) 2 = k := by omega
  rw [quotes, bind_taken rest_apply, count_quotes hrest]
  simp only [show ¬ k + 3 < 3 by omega, if_false, hinside]
  show some _ = _
  rw [List.drop_left' List.length_replicate]

/-- The reader leaves the quotes in front of it to `quotes`. -/
def TakesQuotes (read : Nat → Reader (List Char)) (quote : Char) : Prop :=
  ∀ fuel s, read (fuel + 1) (quote :: s) = (do
    let (inside, closed) ← quotes quote
    let before := List.replicate inside quote
    if closed then return before else return before ++ (← read fuel) : Reader (List Char)) (quote :: s)

theorem basicLines_takesQuotes : TakesQuotes basicLines '\x22' := fun _ _ => rfl

theorem literalLines_takesQuotes : TakesQuotes literalLines '\x27' := fun _ _ => rfl

variable {read : Nat → Reader (List Char)}

theorem TakesQuotes.inside (hread : TakesQuotes read quote) (hk : k < 3) (htail : tail.head? ≠ some quote)
    (h : Reads read tail cs rest) : Reads read (List.replicate k quote ++ tail) (List.replicate k quote ++ cs) rest := by
  cases k with
  | zero => exact h
  | succ k =>
    refine h.step (by simp) fun fuel hfuel => ?_
    have hquotes := quotes_inside hk htail
    rw [List.replicate_succ, List.cons_append] at hquotes ⊢
    rw [hread, bind_taken hquotes]
    show (read fuel >>= fun cs => return List.replicate (k + 1) quote ++ cs : Reader _) tail = _
    rw [bind_taken hfuel]
    rfl

theorem TakesQuotes.closing (hread : TakesQuotes read quote) (hk : k < 3) (hrest : rest.head? ≠ some quote) :
    Reads read (List.replicate k quote ++ (List.replicate 3 quote ++ rest)) (List.replicate k quote) rest := by
  refine .stop fun fuel => ?_
  have hquotes := quotes_closing hk hrest
  rw [← List.append_assoc, List.replicate_append_replicate, List.replicate_succ, List.cons_append] at *
  rw [hread, bind_taken hquotes]
  rfl

theorem replicate_append_cons (k : Nat) (quote : Char) (s : List Char) :
    List.replicate k quote ++ quote :: s = List.replicate (k + 1) quote ++ s := by
  rw [List.replicate_succ', List.append_assoc, List.singleton_append]

/-! ### Texts on several lines -/

theorem newline_taken (s : List Char) : newline ('\n' :: s) = some ((), s) := by
  rw [newline, branch_taken (by rfl), pure_apply]

theorem newline_failed {s : List Char} (hline : s.head? ≠ some '\n') (hreturn : s.head? ≠ some '\r') :
    newline s = none := by
  cases s with
  | nil => rfl
  | cons c cs =>
    rw [List.head?_cons, ne_eq, Option.some_inj] at hline hreturn
    rw [newline, branch_other (other_head (by simpa using Ne.symm hline))]
    exact word_failed (other_head (by simpa using Ne.symm hreturn))

theorem foldedLine_failed (fuel : Nat) {mark : Char} (hmark : mark ∉ [' ', '\t', '\n', '\r']) (s : List Char) :
    foldedLine fuel (mark :: s) = none := by
  simp only [List.mem_cons, List.not_mem_nil, or_false, not_or] at hmark
  have hspaces : spaces (mark :: s) = some ((), mark :: s) := by
    rw [spaces, bind_taken (run_nothing _)]
    · rfl
    · simp [isSpace, hmark]
  have hline : newline (mark :: s) = none := newline_failed (by simp [hmark]) (by simp [hmark])
  rw [foldedLine, bind_taken hspaces, bind_failed hline]

theorem basicLines_written (hw : Written true c w) (h : Reads basicLines tail cs rest) :
    Reads basicLines (w ++ tail) (c :: cs) rest := by
  refine h.step (by cases hw <;> simp +arith) fun fuel htail => ?_
  cases hw with
  | plain hbasic =>
    obtain ⟨hquote, hbackslash⟩ := isBasic_ne hbasic
    rw [List.singleton_append, basicLines, bind_taken peek?_apply]
    generalize hpeek : (c :: tail).head? = o
    split
    · exact absurd (Option.some_inj.mp hpeek) hquote
    · exact absurd (Option.some_inj.mp hpeek) hbackslash
    · cases hpeek
      rw [if_pos hbasic, bind_taken (mark_cons c), bind_taken htail]
      rfl
    · cases hpeek
  | newline _ =>
    rw [List.singleton_append, basicLines, bind_taken peek?_apply]
    show (newline >>= fun _ => do return '\n' :: (← basicLines fuel) : Reader _) _ = _
    rw [bind_taken (newline_taken tail), bind_taken htail]
    rfl
  | escape hread hmark =>
    rw [List.cons_append, basicLines, bind_taken peek?_apply]
    simp only [List.head?_cons]
    rw [bind_taken (mark_cons '\\'), List.cons_append, bind_taken (maybe_failed (foldedLine_failed fuel hmark _))]
    show (escaped >>= fun c => do return c :: (← basicLines fuel) : Reader _) _ = _
    rw [← List.cons_append, bind_taken (hread tail), bind_taken htail]
    rfl

theorem Written.head?_ne {onLines : Bool} (hw : Written onLines c w) (hc : c ≠ '\x22') (tail : List Char) :
    (w ++ tail).head? ≠ some '\x22' := by
  cases hw with
  | plain h => simpa using hc
  | newline h => simp
  | escape hread hmark => simp

/-- Between three double quotes every text is read back; `k` quotes of it wait before the characters. -/
theorem basicLines_basicChars (hrest : rest.head? ≠ some '\x22') (cs : List Char) (hk : k < 3) :
    Reads basicLines (List.replicate k '\x22' ++ (basicChars true k cs ++ (List.replicate 3 '\x22' ++ rest)))
      (List.replicate k '\x22' ++ cs) rest := by
  induction cs generalizing k with
  | nil => simpa [basicChars] using basicLines_takesQuotes.closing hk hrest
  | cons c cs ih =>
    have hnext := ih (k := 0) (by omega)
    by_cases hc : c = '\x22'
    · subst hc
      by_cases hmore : k < 2
      · rw [basicChars_quote_kept hmore, List.cons_append, replicate_append_cons, replicate_append_cons]
        exact ih (by omega)
      · rw [basicChars_quote_escaped (fun _ => Nat.not_lt.mp hmore), List.append_assoc]
        exact basicLines_takesQuotes.inside hk (by simp) (basicLines_written (.quote true) hnext)
    · obtain ⟨w, hw, heq⟩ := basicChars_cons true k hc cs
      rw [heq, List.append_assoc]
      exact basicLines_takesQuotes.inside hk (hw.head?_ne hc _) (basicLines_written hw hnext)

/-! ### Texts between single quotes -/

theorem longestRun_le (c : Char) (current longest : Nat) (cs : List Char) :
    max current longest ≤ longestRun c current longest cs := by
  induction cs generalizing current longest with
  | nil => exact Nat.le_refl _
  | cons d ds ih =>
    rw [longestRun]
    split
    · exact Nat.le_trans (by omega) (ih _ _)
    · exact Nat.le_trans (by omega) (ih _ _)

/-- A longest run of no characters means that there is none. -/
theorem not_mem_of_longestRun {c : Char} {current longest : Nat} {cs : List Char}
    (h : longestRun c current longest cs = 0) : c ∉ cs := by
  induction cs generalizing current longest with
  | nil => exact List.not_mem_nil
  | cons d ds ih =>
    rw [longestRun] at h
    by_cases hd : d = c
    · rw [if_pos hd] at h
      have := longestRun_le c (current + 1) longest ds
      omega
    · rw [if_neg hd] at h
      exact List.not_mem_cons_of_ne_of_not_mem (Ne.symm hd) (ih h)

theorem literalLines_char (hc : isControl c = false) (hquote : c ≠ '\x27') (h : Reads literalLines tail cs rest) :
    Reads literalLines (c :: tail) (c :: cs) rest := by
  refine h.step (by simp) fun fuel htail => ?_
  rw [literalLines, bind_taken peek?_apply]
  generalize hpeek : (c :: tail).head? = o
  split
  · exact absurd (Option.some_inj.mp hpeek) hquote
  · cases hpeek
    by_cases hline : c = '\n'
    · subst hline
      show (newline >>= fun _ => do return '\n' :: (← literalLines fuel) : Reader _) _ = _
      rw [bind_taken (newline_taken tail), bind_taken htail]
      rfl
    · have hliteral : isLiteral c := by simp [isLiteral, isPlain_of_not_control hc hline, hquote]
      rw [if_pos hliteral, bind_taken (mark_cons c), bind_taken htail]
      rfl
  · cases hpeek

/-- Between three single quotes a text without control characters and without three single quotes in a
    row is read back; `k` quotes of it wait before the characters. -/
theorem literalLines_chars (hrest : rest.head? ≠ some '\x27') {longest : Nat} {cs : List Char}
    (hcontrol : cs.any isControl = false) (hrun : longestRun '\x27' k longest cs ≤ 2) :
    Reads literalLines (List.replicate k '\x27' ++ (cs ++ (List.replicate 3 '\x27' ++ rest)))
      (List.replicate k '\x27' ++ cs) rest := by
  have hk : k < 3 := by
    have := longestRun_le '\x27' k longest cs
    omega
  induction cs generalizing k longest with
  | nil => simpa using literalLines_takesQuotes.closing hk hrest
  | cons c cs ih =>
    rw [List.any_cons, Bool.or_eq_false_iff] at hcontrol
    rw [longestRun] at hrun
    by_cases hc : c = '\x27'
    · subst hc
      rw [if_pos rfl] at hrun
      rw [List.cons_append, replicate_append_cons, replicate_append_cons]
      refine ih hcontrol.2 hrun ?_
      have := longestRun_le '\x27' (k + 1) longest cs
      omega
    · rw [if_neg hc] at hrun
      have hnext := ih hcontrol.2 hrun (by omega)
      exact literalLines_takesQuotes.inside hk (by simpa using hc) (literalLines_char hcontrol.1 hc hnext)

/-! ### Texts in quotes -/

/-- What follows a text does not go on with its quotes. -/
structure NoQuote (rest : List Char) : Prop where
  double : rest.head? ≠ some '\x22'
  single : rest.head? ≠ some '\x27'

/-- Characters that are no control characters, the newline aside, hold no other end of a line. -/
theorem not_return {cs : List Char} (h : cs.any isControl = false) : '\r' ∉ cs := fun hmem =>
  absurd (List.any_eq_true.mpr ⟨_, hmem, by decide⟩) (Bool.eq_false_iff.mp h)

/-- A newline after the opening quotes is taken only if it was put in there. -/
theorem opening_newline {s : List Char} {hasNewline : Bool}
    (h : hasNewline = false → s.head? ≠ some '\n' ∧ s.head? ≠ some '\r') :
    ∃ taken, maybe newline ((if hasNewline then "\n" else "").toList ++ s) = some (taken, s) := by
  cases hasNewline with
  | true => exact ⟨some (), maybe_taken (newline_taken s)⟩
  | false => exact ⟨none, maybe_failed (newline_failed (h rfl).1 (h rfl).2)⟩

theorem head?_basicChars {onLines : Bool} (hline : '\n' ∉ cs) (s : List Char) :
    (basicChars onLines 0 cs ++ '\x22' :: s).head? ≠ some '\n' ∧
      (basicChars onLines 0 cs ++ '\x22' :: s).head? ≠ some '\r' := by
  cases cs with
  | nil => simp [basicChars]
  | cons c cs =>
    by_cases hc : c = '\x22'
    · subst hc
      cases onLines with
      | true => simp [basicChars_quote_kept]
      | false => simp [basicChars_quote_escaped]
    · obtain ⟨w, hw, heq⟩ := basicChars_cons onLines 0 hc cs
      rw [heq, List.append_assoc]
      cases hw with
      | plain h =>
        have hreturn : c ≠ '\r' := fun hr => by
          rw [hr] at h
          exact absurd h (by decide)
        have hnewline : c ≠ '\n' := fun hn => hline (by simp [hn])
        simp [hreturn, hnewline]
      | newline h => exact absurd List.mem_cons_self hline
      | escape hread hmark => simp

theorem text_basic (cs : List Char) (hrest : NoQuote rest) :
    text ('\x22' :: (basicChars false 0 cs ++ '\x22' :: rest)) = some (String.ofList cs, rest) := by
  let body := basicChars false 0 cs ++ '\x22' :: rest
  have hthree : ¬ "\x22\x22\x22".toList <+: '\x22' :: body := by
    have hbody : ¬ ['\x22', '\x22'] <+: body := fun hprefix => by
      cases cs with
      | nil =>
        obtain ⟨s, hs⟩ := (List.cons_prefix_cons.mp hprefix).2
        exact hrest.double (by rw [← hs]; rfl)
      | cons c cs =>
        obtain ⟨s, hs⟩ := hprefix
        have hhead : body.head? = some '\x22' := by rw [← hs]; rfl
        by_cases hc : c = '\x22'
        · simp [body, hc, basicChars_quote_escaped] at hhead
        · obtain ⟨w, hw, heq⟩ := basicChars_cons false 0 hc cs
          rw [show body = w ++ (basicChars false 0 cs ++ '\x22' :: rest) by rw [← List.append_assoc, ← heq]] at hhead
          exact hw.head?_ne hc _ hhead
    exact fun hprefix => hbody (List.cons_prefix_cons.mp hprefix).2
  have hopen : "\x22".toList ++ body = '\x22' :: body := rfl
  have hread := basicBody_basicChars cs rest 0 (('\x22' :: body).length + 1) (by simp +arith [body])
  rw [text, bind_taken rest_apply, branch_other hthree, branch_other (other_head (by decide)), lineText,
    bind_taken rest_apply, branch_taken hopen, bind_taken hread]
  rfl

theorem text_literal (hcontrol : cs.any isControl = false) (hline : '\n' ∉ cs) (hquote : '\x27' ∉ cs)
    (hrest : NoQuote rest) : text ('\x27' :: (cs ++ '\x27' :: rest)) = some (String.ofList cs, rest) := by
  have hthree : ¬ "\x27\x27\x27".toList <+: '\x27' :: (cs ++ '\x27' :: rest) := by
    have hbody : ¬ ['\x27', '\x27'] <+: cs ++ '\x27' :: rest := fun hprefix => by
      cases cs with
      | nil =>
        obtain ⟨s, hs⟩ := (List.cons_prefix_cons.mp hprefix).2
        exact hrest.single (by rw [← hs]; rfl)
      | cons c cs => exact hquote (by rw [(List.cons_prefix_cons.mp hprefix).1]; exact List.mem_cons_self)
    exact fun hprefix => hbody (List.cons_prefix_cons.mp hprefix).2
  have hliteral : ∀ c ∈ cs, isLiteral c := fun c hc => by
    have hplain : isPlain c := by
      refine isPlain_of_not_control ?_ fun hn => hline (hn ▸ hc)
      exact Bool.eq_false_iff.mpr fun h => Bool.eq_false_iff.mp hcontrol (List.any_eq_true.mpr ⟨c, hc, h⟩)
    have hne : c ≠ '\x27' := fun hq => hquote (hq ▸ hc)
    simp [isLiteral, hplain, hne]
  have hrun : run isLiteral (cs ++ '\x27' :: rest) = some (cs, '\x27' :: rest) :=
    run_append hliteral (by simp [isLiteral])
  have hread : literalBody (cs ++ '\x27' :: rest) = some (cs, rest) := by
    rw [literalBody, bind_taken hrun, bind_taken (mark_cons _)]
    rfl
  rw [text, bind_taken rest_apply, branch_other (other_head (by decide)), branch_other hthree, lineText,
    bind_taken rest_apply, branch_other (other_head (by decide)), bind_taken (mark_cons _), bind_taken hread]
  rfl

theorem text_of_basicLines {opening body : List Char} {taken : Option Unit}
    (hopen : maybe newline (opening ++ body) = some (taken, body)) (hread : Reads basicLines body cs rest) :
    text ("\x22\x22\x22".toList ++ (opening ++ body)) = some (String.ofList cs, rest) := by
  have hlines := hread (("\x22\x22\x22".toList ++ (opening ++ body)).length + 1) (by simp +arith)
  rw [text, bind_taken rest_apply, branch_taken rfl, bind_taken hopen, bind_taken hlines]
  rfl

theorem text_of_literalLines {opening body : List Char} {taken : Option Unit}
    (hopen : maybe newline (opening ++ body) = some (taken, body)) (hread : Reads literalLines body cs rest) :
    text ("\x27\x27\x27".toList ++ (opening ++ body)) = some (String.ofList cs, rest) := by
  have hlines := hread (("\x27\x27\x27".toList ++ (opening ++ body)).length + 1) (by simp +arith)
  have hdouble : ¬ "\x22\x22\x22".toList <+: "\x27\x27\x27".toList ++ (opening ++ body) := other_head (by decide)
  rw [text, bind_taken rest_apply, branch_other hdouble, branch_taken rfl, bind_taken hopen, bind_taken hlines]
  rfl

theorem TextForm.of_literal {t : TextTraits} (h : TextForm.of t = .literal) :
    t.hasControl = false ∧ t.singleQuotes = 0 ∧ t.hasNewline = false := by
  unfold TextForm.of at h
  split at h
  · cases h
  · split at h
    · next hliteral => simpa [and_assoc] using hliteral
    · split at h
      · cases h
      · split at h
        · cases h
        · split at h <;> cases h

theorem TextForm.of_literalLines {t : TextTraits} (h : TextForm.of t = .literalLines) :
    t.hasControl = false ∧ t.singleQuotes ≤ 2 := by
  unfold TextForm.of at h
  split at h
  · cases h
  · split at h
    · cases h
    · split at h
      · cases h
      · split at h
        · next hlines => simpa using hlines
        · split at h <;> cases h

/-- Every text is read back from the form in which it is written, and nothing else is taken. -/
theorem text_writeText (s : String) (hrest : NoQuote rest) : text ((writeText s).toList ++ rest) = some (s, rest) := by
  have hnewline : (TextTraits.of s.toList).hasNewline = false → '\n' ∉ s.toList := fun h => by
    simpa [TextTraits.of] using h
  -- One case for each of the four forms. The two of several lines are read behind a line break, if one is written.
  rw [writeText]
  split
  · simpa [String.toList_append, List.append_assoc] using text_basic s.toList hrest
  · next hform =>
    obtain ⟨hcontrol, hquotes, hline⟩ := TextForm.of_literal hform
    have hread := text_literal hcontrol (hnewline hline) (not_mem_of_longestRun hquotes) hrest
    simpa [String.toList_append, List.append_assoc] using hread
  · have hhead (h : (TextTraits.of s.toList).hasNewline = false) :=
      @head?_basicChars s.toList true (hnewline h) ('\x22' :: '\x22' :: rest)
    obtain ⟨taken, hopen⟩ := opening_newline hhead
    have hread := text_of_basicLines hopen (basicLines_basicChars (k := 0) hrest.double s.toList (by omega))
    simpa [String.toList_append, List.append_assoc] using hread
  · next hform =>
    obtain ⟨hcontrol, hquotes⟩ := TextForm.of_literalLines hform
    have hhead : (TextTraits.of s.toList).hasNewline = false →
        (s.toList ++ (List.replicate 3 '\x27' ++ rest)).head? ≠ some '\n' ∧
          (s.toList ++ (List.replicate 3 '\x27' ++ rest)).head? ≠ some '\r' := fun h => by
      have hline := hnewline h
      have hreturn := not_return hcontrol
      cases hchars : s.toList with
      | nil => simp
      | cons c cs =>
        rw [hchars, List.mem_cons, not_or] at hline hreturn
        simp [Ne.symm hline.1, Ne.symm hreturn.1]
    obtain ⟨taken, hopen⟩ := opening_newline hhead
    have hread := text_of_literalLines hopen (literalLines_chars (k := 0) hrest.single hcontrol hquotes)
    simpa [String.toList_append, List.append_assoc] using hread

end

end SymbolGraph.Document.Toml
