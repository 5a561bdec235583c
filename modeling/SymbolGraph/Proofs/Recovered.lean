import Mathlib.Data.List.TakeWhile
import SymbolGraph.Proofs.Matching
import SymbolGraph.Proofs.Pieces
import SymbolGraph.Recovery.Declarations

/-! Declarations that patterns recover. The recovery is told once more with offsets into the text, where each cut fails
    unless it is made at boundaries that are in order. No cut of it fails, and it finds the same declarations. -/

namespace SymbolGraph.Recovery

open Text

/-! ### Cuts by offsets -/

/-- The offset of the line that byte `n` is on. -/
def lineStart? (text : List Char) (n : Nat) : Option Nat := (before? text n).map Cursor.lineStart

/-- The offset of the end of the line that byte `start` is on. -/
def lineEnd? (text : List Char) (start : Nat) : Option Nat :=
  (from? text start).map fun rest => start + byteLength (rest.takeWhile (· != '\n'))

/-- The end of the braced body that starts at byte `start`, at most `cap` bytes on. -/
def cutBraceEnd? (text : List Char) (start cap : Nat) : Option Nat :=
  let limit := floorBoundary text (start + cap)
  (between? text start limit).map (closingBrace limit 0 start)

theorem le_of_lineEnd? {text : List Char} {start stop : Nat} (h : lineEnd? text start = some stop) : start ≤ stop := by
  obtain ⟨rest, -, rfl⟩ := Option.map_eq_some_iff.mp h
  exact Nat.le_add_right _ _

/-- The end of the indented block, of which a line ends at byte `pos` and the last line with text at byte `last`. -/
def cutBlockEnd? (text : List Char) (indent limit pos last : Nat) : Option Nat :=
  if pos < limit then
    if byteLength text ≤ pos + 1 then some (min last limit)
    else
      match _ : lineEnd? text (pos + 1) with
      | none => none
      | some stop =>
        match between? text (pos + 1) stop with
        | none => none
        | some line =>
          if line.all isBlank then cutBlockEnd? text indent limit stop last
          else if indentation line ≤ indent then some (min last limit)
          else cutBlockEnd? text indent limit stop stop
  else some (min last limit)
termination_by byteLength text - pos
decreasing_by
  all_goals
    have hstop := le_of_lineEnd? ‹_›
    omega

/-- The end of the indented block whose header starts at byte `start`, at most `cap` bytes on. -/
def cutIndentEnd? (text : List Char) (start indent cap : Nat) : Option Nat := do
  let header ← lineEnd? text start
  cutBlockEnd? text indent (floorBoundary text (start + cap)) header header

/-- The end of a declaration that starts at byte `start`. -/
def Extent.cutEnd? (text : List Char) (start indent : Nat) : Extent → Option Nat
  | .braces cap => cutBraceEnd? text start cap
  | .indent cap => cutIndentEnd? text start indent cap
  | .line => lineEnd? text start

/-- The claim of a match, if all cuts can be made. -/
def Rule.cutClaim? (rule : Rule) (text : List Char) (m : Match) : Option (Option Claim) :=
  match m.name? with
  | none => some none
  | some (at_, stop) => do
    let name := String.ofList (← between? text at_.offset stop)
    if controlWords.contains name then return none
    let line ← lineStart? text at_.offset
    let indent := indentation (← from? text line)
    let start := line + indent
    let stop ← rule.extent.cutEnd? text start indent
    return some ⟨line, name, name, rule.kind.kindOf name indent, start, stop⟩

/-- The claims of a rule, if all cuts can be made. -/
def Rule.cutClaims? (rule : Rule) (text : List Char) : Option (List Claim) :=
  ((rule.pattern.searchAll text).mapM (rule.cutClaim? text)).map fun claims => claims.filterMap id

/-- The declarations of a text, if all cuts can be made. -/
def cutDeclarations? (languageId text : String) : Option (List Symbol) :=
  match Language.ofId? languageId with
  | none => some []
  | some language => do
    let claims := firstClaims ∅ (← (rulesOf language).mapM (·.cutClaims? text.toList)).flatten
    return (claims.map (·.symbol)).mergeSort fun a b => a.span.start ≤ b.span.start

variable {text cs line after window : List Char} {t : Text.Tail} {limit depth offset indent last cap : Nat}

/-! ### The end of a line -/

theorem lineEnd?_eq (h : t.Of text) : lineEnd? text t.offset = some (Tail.lineEnd t) := by
  rw [lineEnd?, h.from?_offset]
  rfl

/-- A line goes up to a line break or to the end of the text. -/
theorem rest_cases (cs : List Char) : ∃ line after, cs = line ++ after ∧ cs.takeWhile (· != '\n') = line ∧ '\n' ∉ line ∧
    (after = [] ∨ ∃ more, after = '\n' :: more) := by
  refine ⟨_, cs.dropWhile (· != '\n'), List.takeWhile_append_dropWhile.symm, rfl, fun hmem => ?_, ?_⟩
  · simpa using List.mem_takeWhile_imp hmem
  · cases hdrop : cs.dropWhile (· != '\n') with
    | nil => exact .inl rfl
    | cons c more =>
      have hhead := List.head?_dropWhile_not (· != '\n') cs
      rw [hdrop] at hhead
      exact .inr ⟨more, by simpa using hhead⟩

theorem ahead_lineEnd (t : Text.Tail) : t.Ahead (Tail.lineEnd t) := ⟨_, _, List.takeWhile_append_dropWhile.symm, rfl⟩

/-! ### The end of a braced body -/

theorem closingBrace_cons (limit depth offset : Nat) (c : Char) (cs : List Char) :
    closingBrace limit depth offset (c :: cs) =
      if limit ≤ offset then limit
      else if c = '\x7b' then closingBrace limit (depth + 1) (offset + c.utf8Size) cs
      else if c = '\x7d' then
        match depth with
        | 0 => closingBrace limit 0 (offset + c.utf8Size) cs
        | 1 => offset + c.utf8Size
        | depth + 2 => closingBrace limit (depth + 1) (offset + c.utf8Size) cs
      else closingBrace limit depth (offset + c.utf8Size) cs := rfl

theorem closingBrace_cases (limit depth offset : Nat) (cs : List Char) : closingBrace limit depth offset cs = limit ∨
    ∃ mid after, cs = mid ++ after ∧ mid ≠ [] ∧ closingBrace limit depth offset cs = offset + byteLength mid := by
  induction cs generalizing depth offset with
  | nil => exact .inl rfl
  | cons c cs ih =>
    have hlater : ∀ d, closingBrace limit d (offset + c.utf8Size) cs = limit ∨
        ∃ mid after, c :: cs = mid ++ after ∧ mid ≠ [] ∧
          closingBrace limit d (offset + c.utf8Size) cs = offset + byteLength mid := fun d => by
      rcases ih d (offset + c.utf8Size) with hlimit | ⟨mid, after, rfl, -, hmid⟩
      · exact .inl hlimit
      · exact .inr ⟨c :: mid, after, rfl, List.cons_ne_nil c mid, by rw [hmid, byteLength, Nat.add_assoc]⟩
    rw [closingBrace_cons]
    split
    · exact .inl rfl
    · split
      · exact hlater _
      · split
        · split
          · exact hlater _
          · exact .inr ⟨[c], cs, rfl, List.cons_ne_nil c [], rfl⟩
          · exact hlater _
        · exact hlater _

/-- What is behind the window does not matter. -/
theorem closingBrace_window (h : offset + byteLength window = limit) :
    closingBrace limit depth offset (window ++ after) = closingBrace limit depth offset window := by
  induction window generalizing depth offset with
  | nil =>
    have hend : limit ≤ offset := by simp [← h]
    cases after with
    | nil => rfl
    | cons c after =>
      rw [List.nil_append, closingBrace_cons, if_pos hend]
      rfl
  | cons c window ih =>
    have hlater : ∀ d, closingBrace limit d (offset + c.utf8Size) (window ++ after) =
        closingBrace limit d (offset + c.utf8Size) window := fun d => ih (by rw [← h, byteLength, Nat.add_assoc])
    rw [List.cons_append, closingBrace_cons, closingBrace_cons]
    simp only [hlater]

theorem ahead_braceEnd (t : Text.Tail) (cap : Nat) : t.Ahead (Tail.braceEnd t cap) := by
  rcases closingBrace_cases (t.limit cap) 0 t.offset t.rest with hlimit | ⟨mid, after, hrest, -, hmid⟩
  · rw [Tail.braceEnd, hlimit]
    exact t.ahead_limit cap
  · exact ⟨mid, after, hrest, hmid⟩

theorem cutBraceEnd?_eq (h : t.Of text) (cap : Nat) : cutBraceEnd? text t.offset cap = some (Tail.braceEnd t cap) := by
  obtain ⟨window, after, hrest, hlimit⟩ := t.ahead_limit cap
  rw [cutBraceEnd?, ← h.limit_eq, hlimit, h.between?_ahead hrest, Option.map_some, Tail.braceEnd, hlimit, hrest,
    closingBrace_window rfl]

/-! ### The end of an indented block -/

/-- The line that the tail starts with and those after it that start in the window. -/
def linesIn (limit : Nat) (t : Text.Tail) : List Text.Tail :=
  placeLines t.offset (splitChars '\n' (linesTo limit t.offset t.rest))

theorem linesTo_append (h : '\n' ∉ line) :
    linesTo limit offset (line ++ after) = line ++ linesTo limit (offset + byteLength line) after := by
  induction line generalizing offset with
  | nil => rfl
  | cons c line ih =>
    obtain ⟨hc, hline⟩ := not_or.mp fun hmem => h (List.mem_cons.mpr hmem)
    rw [List.cons_append, linesTo, if_neg fun hstop => hc hstop.2.symm, ih hline, byteLength, Nat.add_assoc,
      List.cons_append]

/-- The last line of a text is the only one from there on. -/
theorem linesIn_last (hrest : t.rest = line) (h : '\n' ∉ line) : linesIn limit t = [⟨t.offset, line⟩] := by
  have hto : linesTo limit t.offset line = line := by
    have happend := @linesTo_append line [] limit t.offset h
    simpa [linesTo] using happend
  rw [linesIn, hrest, hto, splitChars_of_not_mem h]
  rfl

theorem linesIn_break {more : List Char} (hrest : t.rest = line ++ '\n' :: more) (h : '\n' ∉ line) :
    linesIn limit t = ⟨t.offset, line⟩ ::
      if limit ≤ t.offset + byteLength line then [] else linesIn limit ⟨t.offset + byteLength line + 1, more⟩ := by
  rw [linesIn, hrest, linesTo_append h, linesTo]
  by_cases hend : limit ≤ t.offset + byteLength line
  · rw [if_pos ⟨hend, rfl⟩, if_pos hend, List.append_nil, splitChars_of_not_mem h]
    rfl
  · rw [if_neg fun hstop => hend hstop.1, if_neg hend, splitChars_append h]
    rfl

theorem blockEnd_cases (indent last : Nat) (ls : List Text.Tail) :
    blockEnd indent last ls = last ∨ ∃ l ∈ ls, blockEnd indent last ls = placedEnd l := by
  induction ls generalizing last with
  | nil => exact .inl rfl
  | cons l ls ih =>
    have hlater : ∀ e, blockEnd indent e ls = e ∨ ∃ l' ∈ l :: ls, blockEnd indent e ls = placedEnd l' := fun e => by
      rcases ih e with hlast | ⟨l', hl', hend⟩
      · exact .inl hlast
      · exact .inr ⟨l', List.mem_cons_of_mem _ hl', hend⟩
    rw [blockEnd]
    split
    · exact hlater last
    · split
      · exact .inl rfl
      · rcases hlater (placedEnd l) with hlast | hmem
        · exact .inr ⟨l, List.mem_cons_self, hlast⟩
        · exact .inr hmem

theorem ahead_linesIn (limit : Nat) (t : Text.Tail) : ∀ l ∈ linesIn limit t, t.Ahead (placedEnd l) := by
  induction hn : t.rest.length using Nat.strongRecOn generalizing t with
  | ind n ih =>
    obtain ⟨line, after, hrest, -, hline, hafter⟩ := rest_cases t.rest
    have hfirst : t.Ahead (placedEnd ⟨t.offset, line⟩) := ⟨line, after, hrest, rfl⟩
    intro l hl
    rcases hafter with rfl | ⟨more, rfl⟩
    · rw [linesIn_last (hrest.trans (List.append_nil line)) hline] at hl
      exact List.mem_singleton.mp hl ▸ hfirst
    · rw [linesIn_break hrest hline] at hl
      rcases List.mem_cons.mp hl with rfl | hl
      · exact hfirst
      · split at hl
        · cases hl
        · have hbreak : t.rest = (line ++ ['\n']) ++ more := by simp [hrest]
          refine .of_later hbreak ?_
          rw [byteLength_append]
          exact ih more.length (by rw [← hn, hrest]; simp; omega) ⟨t.offset + byteLength line + 1, more⟩ rfl l hl

/-- The header of a block is the line that the tail starts with. -/
theorem linesIn_eq (limit : Nat) (t : Text.Tail) :
    linesIn limit t = ⟨t.offset, t.rest.takeWhile (· != '\n')⟩ :: (linesIn limit t).tail := by
  obtain ⟨line, after, hrest, htake, hline, hafter⟩ := rest_cases t.rest
  rw [htake]
  rcases hafter with rfl | ⟨more, rfl⟩
  · rw [linesIn_last (hrest.trans (List.append_nil line)) hline, List.tail_cons]
  · rw [linesIn_break hrest hline, List.tail_cons]

theorem indentEnd_eq (t : Text.Tail) (indent cap : Nat) : Tail.indentEnd t indent cap =
    min (blockEnd indent (Tail.lineEnd t) (linesIn (t.limit cap) t).tail) (t.limit cap) := by
  have hlines : placeLines t.offset (splitChars '\n' (linesTo (t.limit cap) t.offset t.rest)) =
      linesIn (t.limit cap) t := rfl
  rw [Tail.indentEnd, hlines, linesIn_eq]
  rfl

theorem ahead_indentEnd (t : Text.Tail) (indent cap : Nat) : t.Ahead (Tail.indentEnd t indent cap) := by
  rw [indentEnd_eq]
  refine .min ?_ (t.ahead_limit cap)
  rcases blockEnd_cases indent (Tail.lineEnd t) (linesIn (t.limit cap) t).tail with hlast | ⟨l, hl, hend⟩
  · rw [hlast]
    exact ahead_lineEnd t
  · rw [hend]
    exact ahead_linesIn _ t l (List.mem_of_mem_tail hl)

/-- From the end of a line on, the block is followed line by line. -/
theorem cutBlockEnd?_eq (h : t.Of text) (hlimit : limit ≤ byteLength text) (last : Nat) :
    cutBlockEnd? text indent limit (Tail.lineEnd t) last =
      some (min (blockEnd indent last (linesIn limit t).tail) limit) := by
  induction hn : t.rest.length using Nat.strongRecOn generalizing t last with
  | ind n ih =>
    obtain ⟨line, after, hrest, htake, hline, hafter⟩ := rest_cases t.rest
    have hend : Tail.lineEnd t = t.offset + byteLength line := by rw [Tail.lineEnd, htake]
    have hstop : limit ≤ Tail.lineEnd t →
        cutBlockEnd? text indent limit (Tail.lineEnd t) last = some (min last limit) := fun hle => by
      rw [cutBlockEnd?, if_neg (Nat.not_lt.mpr hle)]
    rcases hafter with rfl | ⟨more, rfl⟩
    · have hall : byteLength text = Tail.lineEnd t := by rw [h.byteLength_eq, hrest, hend, List.append_nil]
      rw [linesIn_last (hrest.trans (List.append_nil line)) hline, hstop (hall ▸ hlimit)]
      rfl
    · rw [linesIn_break hrest hline, List.tail_cons]
      by_cases hle : limit ≤ t.offset + byteLength line
      · rw [if_pos hle, hstop (hend ▸ hle)]
        rfl
      · -- The next line starts behind the line break.
        have hbreak : t.rest = (line ++ ['\n']) ++ more := by simp [hrest]
        have hnext : (⟨t.offset + byteLength line + 1, more⟩ : Text.Tail).Of text := by
          have hlater := h.later hbreak
          rwa [byteLength_append, ← Nat.add_assoc] at hlater
        generalize ht' : (⟨t.offset + byteLength line + 1, more⟩ : Text.Tail) = t' at hnext
        have hoffset : t'.offset = Tail.lineEnd t + 1 := by rw [← ht', hend]
        have ih' : ∀ e, cutBlockEnd? text indent limit (Tail.lineEnd t') e =
            some (min (blockEnd indent e (linesIn limit t').tail) limit) := fun e =>
          ih t'.rest.length (by rw [← hn, hrest, ← ht']; simp; omega) hnext e rfl
        rw [if_neg hle, cutBlockEnd?, if_pos (hend ▸ Nat.not_le.mp hle), ← hoffset, linesIn_eq limit t', blockEnd]
        dsimp only
        by_cases hempty : byteLength text ≤ t'.offset
        · have hrest' : t'.rest = [] := by
            have hsize := hnext.byteLength_eq
            exact byteLength_eq_zero.mp (by omega)
          rw [if_pos hempty, linesIn_last hrest' (by simp), hrest']
          rfl
        · have hcut : between? text t'.offset (Tail.lineEnd t') = some (t'.rest.takeWhile (· != '\n')) :=
            hnext.between?_ahead List.takeWhile_append_dropWhile.symm
          rw [if_neg hempty]
          split
          · next hnone => exact nomatch hnone.symm.trans (lineEnd?_eq hnext)
          · next stop hstop =>
            obtain rfl := Option.some.inj (hstop.symm.trans (lineEnd?_eq hnext))
            rw [hcut]
            dsimp only
            split
            · exact ih' last
            · split
              · rfl
              · exact ih' _

theorem cutIndentEnd?_eq (h : t.Of text) (indent cap : Nat) :
    cutIndentEnd? text t.offset indent cap = some (Tail.indentEnd t indent cap) := by
  have hlimit : t.limit cap ≤ byteLength text := (h.ahead (t.ahead_limit cap)).le
  rw [cutIndentEnd?, lineEnd?_eq h, ← h.limit_eq, Option.bind_eq_bind, Option.bind_some, cutBlockEnd?_eq h hlimit,
    indentEnd_eq]

/-! ### The end of a declaration -/

theorem cutEnd?_eq (h : t.Of text) (indent : Nat) (e : Extent) :
    e.cutEnd? text t.offset indent = some (e.endOf t indent) := by
  cases e with
  | braces cap => exact cutBraceEnd?_eq h cap
  | indent cap => exact cutIndentEnd?_eq h indent cap
  | line => exact lineEnd?_eq h

theorem ahead_endOf (t : Text.Tail) (indent : Nat) (e : Extent) : t.Ahead (e.endOf t indent) := by
  cases e with
  | braces cap => exact ahead_braceEnd t cap
  | indent cap => exact ahead_indentEnd t indent cap
  | line => exact ahead_lineEnd t

/-- The line without its indentation. -/
def outdented (line : Text.Tail) : Text.Tail :=
  ⟨line.offset + indentation line.rest, line.rest.drop (indentation line.rest)⟩

/-- Spaces and tabs take a byte each. -/
theorem byteLength_margin (cs : List Char) :
    byteLength (cs.takeWhile fun c => c == ' ' || c == '\t') = indentation cs := by
  induction cs with
  | nil => rfl
  | cons c cs ih =>
    rw [indentation, List.takeWhile_cons]
    split
    · next hmargin =>
      have hsize : c.utf8Size = 1 := by
        rcases Bool.or_eq_true_iff.mp hmargin with hc | hc
        · exact eq_of_beq hc ▸ rfl
        · exact eq_of_beq hc ▸ rfl
      rw [byteLength, hsize, ih, List.length_cons, Nat.add_comm]
      rfl
    · rfl

theorem outdented_of {line : Text.Tail} (h : line.Of text) : (outdented line).Of text := by
  have htake : (line.rest.takeWhile fun c => c == ' ' || c == '\t') = line.rest.take (indentation line.rest) :=
    List.prefix_iff_eq_take.mp (List.takeWhile_prefix _)
  have hlater := h.later (List.take_append_drop (indentation line.rest) line.rest).symm
  rwa [← htake, byteLength_margin] at hlater

/-! ### Claims -/

theorem takeTo_append (name after : List Char) (offset : Nat) :
    takeTo (offset + byteLength name) offset (name ++ after) = name := by
  induction name generalizing offset with
  | nil => cases after <;> simp [takeTo]
  | cons c name ih =>
    have hpos := c.utf8Size_pos
    rw [List.cons_append, takeTo, if_pos (by rw [byteLength]; omega), byteLength, ← Nat.add_assoc, ih]

variable {m : Match} {rule : Rule} {claim : Claim} {at_ : Cursor} {stop : Nat}

/-- What a place and an end offset ahead of it hold between them is cut out of the text. -/
theorem between?_textTo (h : at_.Of text) (hstop : (⟨at_.offset, at_.rest⟩ : Text.Tail).Ahead stop) :
    between? text at_.offset stop = some (at_.textTo stop).toList := by
  obtain ⟨name, after, hrest, rfl⟩ := hstop
  have hrest : at_.rest = name ++ after := hrest
  have htext : at_.textTo (at_.offset + byteLength name) = String.ofList name := by
    rw [Cursor.textTo, hrest, takeTo_append]
  rw [htext, String.toList_ofList]
  exact h.tail.between?_ahead hrest

theorem lineStart?_eq (h : at_.Of text) : lineStart? text at_.offset = some at_.line.offset := by
  obtain ⟨before, htext, hoffset, hline⟩ := h
  have hbefore : before? text at_.offset = some before := before?_eq_some.mpr ⟨at_.rest, htext, hoffset.symm⟩
  rw [lineStart?, hbefore, Option.map_some, hline]

theorem claim?_eq_some : rule.claim? m = some claim ↔ ∃ at_ stop, m.name? = some (at_, stop) ∧
    at_.textTo stop ∉ controlWords ∧ claim = ⟨at_.line.offset, rule.declaration (at_.textTo stop) at_.line⟩ := by
  rw [Rule.claim?]
  cases m.name? with
  | none => simp
  | some marked =>
    obtain ⟨at_, stop⟩ := marked
    by_cases hword : at_.textTo stop ∈ controlWords <;> simp [hword, eq_comm]

theorem cutClaim?_eq (h : m.Of text) (rule : Rule) : rule.cutClaim? text m = some (rule.claim? m) := by
  rw [Rule.cutClaim?, Rule.claim?]
  cases hname : m.name? with
  | none => rfl
  | some marked =>
    obtain ⟨at_, stop⟩ := marked
    obtain ⟨hat, hstop⟩ := h.2 at_ stop hname
    have hend := cutEnd?_eq (outdented_of hat.line) (indentation at_.line.rest) rule.extent
    simp only [between?_textTo hat hstop, lineStart?_eq hat, hat.line.from?_offset, Option.bind_eq_bind, Option.bind_some,
      String.ofList_toList]
    split
    · rfl
    · show ((rule.extent.cutEnd? text (outdented at_.line).offset _).bind _) = _
      rw [hend]
      rfl

/-- If the function fails on no item of a list, neither does going through the list. -/
theorem mapM_of_some {α β : Type} {f : α → Option β} {g : α → β} {l : List α} (h : ∀ a ∈ l, f a = some (g a)) :
    l.mapM f = some (l.map g) := by
  induction l with
  | nil => rfl
  | cons a l ih =>
    have hfirst := h a List.mem_cons_self
    have hrest := ih fun b hb => h b (List.mem_cons_of_mem _ hb)
    rw [List.mapM_cons, hfirst, hrest]
    rfl

theorem cutClaims?_eq (rule : Rule) (text : List Char) : rule.cutClaims? text = some (rule.claims text) := by
  have hcuts := mapM_of_some fun m hm => cutClaim?_eq (rule.pattern.searchAll_of text m hm) rule
  rw [Rule.cutClaims?, hcuts, Option.map_some, List.filterMap_map]
  rfl

/-- No cut fails, and with all of them made the declarations are the ones that are found. -/
theorem cutDeclarations?_eq (languageId text : String) :
    cutDeclarations? languageId text = some (declarations languageId text) := by
  rw [cutDeclarations?, declarations]
  cases Language.ofId? languageId with
  | none => rfl
  | some language =>
    have hcuts := mapM_of_some fun rule (_ : rule ∈ rulesOf language) => cutClaims?_eq rule text.toList
    simp only [hcuts, Option.bind_eq_bind, Option.bind_some, symbolsBy, List.flatMap]
    rfl

/-! ### First claims -/

/-- A claim is kept if its line is free and it is the first one to that. -/
theorem mem_firstClaims {taken : Std.HashSet Nat} {claims : List Claim} : claim ∈ firstClaims taken claims ↔
    claim.line ∉ taken ∧ claims.find? (·.line == claim.line) = some claim := by
  induction claims generalizing taken with
  | nil => simp [firstClaims]
  | cons first claims ih =>
    have hinsert : claim ∈ firstClaims (taken.insert first.line) claims ↔
        (first.line ≠ claim.line ∧ claim.line ∉ taken) ∧ claims.find? (·.line == claim.line) = some claim := by
      rw [ih, Std.HashSet.mem_insert, beq_iff_eq, not_or]
    rw [firstClaims, List.find?_cons]
    by_cases hline : first.line = claim.line
    · -- The first one is the only one that may still get the line.
      rw [beq_iff_eq.mpr hline]
      split
      · next htaken =>
        have htaken : claim.line ∈ taken := hline ▸ htaken
        simp [ih, htaken]
      · next hfree =>
        have hfree : claim.line ∉ taken := fun htaken => hfree (hline ▸ htaken)
        rw [List.mem_cons, hinsert]
        simp [hline, hfree, eq_comm]
    · have hne : claim ≠ first := fun heq => hline (heq ▸ rfl)
      rw [beq_false_of_ne hline]
      split
      · exact ih
      · rw [List.mem_cons, hinsert]
        simp [hne, hline]

/-! ### Ranges -/

/-- A range between two boundaries of the text, the first of which is not after the second. -/
structure Cuts (text : List Char) (span : Span) : Prop where
  start : IsBoundary text span.start
  stop : IsBoundary text span.stop
  forward : span.start ≤ span.stop

theorem claim?_cuts (h : m.Of text) (hclaim : rule.claim? m = some claim) : Cuts text claim.symbol.span := by
  obtain ⟨at_, stop, hname, -, rfl⟩ := claim?_eq_some.mp hclaim
  have hline := outdented_of (h.2 at_ stop hname).1.line
  have hstop := ahead_endOf (outdented at_.line) (indentation at_.line.rest) rule.extent
  exact ⟨hline.isBoundary, hline.ahead hstop, hstop.le⟩

theorem declarations_cuts {languageId text : String} {s : Symbol} (h : s ∈ declarations languageId text) :
    Cuts text.toList s.span := by
  rw [declarations] at h
  split at h
  · next language _ =>
    obtain ⟨claim, hclaim, rfl⟩ := List.mem_map.mp (List.mem_mergeSort.mp h)
    obtain ⟨rule, -, hclaim⟩ := List.mem_flatMap.mp (List.mem_of_find?_eq_some (mem_firstClaims.mp hclaim).2)
    obtain ⟨m, hm, hclaim⟩ := List.mem_filterMap.mp hclaim
    exact claim?_cuts (rule.pattern.searchAll_of text.toList m hm) hclaim
  · cases h

end SymbolGraph.Recovery
