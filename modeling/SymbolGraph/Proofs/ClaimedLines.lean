import Mathlib.Data.List.DropRight
import Mathlib.Data.List.Forall2
import SymbolGraph.Extraction
import SymbolGraph.Proofs.DeclaredNames
import SymbolGraph.Proofs.Recovered

/-! Which lines recovered declarations are on. A line has one exactly if some rule finds a name there that is no control
    word. The first such rule gives it, by the first of its matches with a name on the line. -/

namespace SymbolGraph.Recovery

open Text

/-- The match marks this word, which is no control word, as the name on the line that starts at byte `line`. -/
def Match.Names (text : List Char) (line : Nat) (word : String) (m : Match) : Prop :=
  ∃ at_ stop, m.name? = some (at_, stop) ∧ lineStart? text at_.offset = some line ∧
    between? text at_.offset stop = some word.toList ∧ word ∉ controlWords

/-- Some match of the rule marks a name on the line. -/
def Rule.Finds (rule : Rule) (text : List Char) (line : Nat) : Prop :=
  ∃ m ∈ rule.pattern.searchAll text, ∃ word, m.Names text line word

/-- The rule is the first to find a name on the line, and this is the first name that it finds there. -/
structure FirstOn (rules : List Rule) (text : List Char) (line : Nat) (rule : Rule) (word : String) : Prop where
  first : ∃ earlier later, rules = earlier ++ rule :: later ∧ ∀ other ∈ earlier, ¬ other.Finds text line
  found : ∃ before m after, rule.pattern.searchAll text = before ++ m :: after ∧ m.Names text line word ∧
    ∀ other ∈ before, ∀ word', ¬ other.Names text line word'

/-- The first character of the line that is neither a space nor a tab is at byte `start`. -/
def StartsText (text : List Char) (line start : Nat) : Prop :=
  ∃ margin c rest, from? text line = some (margin ++ c :: rest) ∧ (∀ b ∈ margin, b = ' ' ∨ b = '\t') ∧
    c ≠ ' ' ∧ c ≠ '\t' ∧ c ≠ '\n' ∧ start = line + byteLength margin

/-- The symbol is the declaration that the rule makes of a name on the line. -/
structure Declares (rule : Rule) (word : String) (text : List Char) (line : Nat) (s : Symbol) : Prop where
  name : s.name = word
  fqname : s.fqname = word
  start : StartsText text line s.span.start
  kind : s.kind = rule.kind.kindOf word (s.span.start - line)
  stop : rule.extent.cutEnd? text s.span.start (s.span.start - line) = some s.span.stop

variable {text head after : List Char} {t : Text.Tail} {m : Match} {rule : Rule} {claim : Claim}
  {line start cap : Nat} {c : Char}

/-! ### The start of a line -/

/-- A head on the line stops the blanks that the line starts with. -/
theorem margin_cases (hhead : '\n' ∉ head) (hc : isHead c = true) (after : List Char) :
    ∃ margin d rest, head ++ c :: after = margin ++ d :: rest ∧ (∀ b ∈ margin, b = ' ' ∨ b = '\t') ∧
      d ≠ ' ' ∧ d ≠ '\t' ∧ d ≠ '\n' := by
  induction head with
  | nil => exact ⟨[], c, after, rfl, nofun, ne_of_isHead hc rfl, ne_of_isHead hc rfl, ne_of_isHead hc rfl⟩
  | cons b head ih =>
    obtain ⟨hb, hhead⟩ := not_or.mp fun hmem => hhead (List.mem_cons.mpr hmem)
    by_cases hblank : b = ' ' ∨ b = '\t'
    · obtain ⟨margin, d, rest, hrest, hmargin, hd⟩ := ih hhead
      refine ⟨b :: margin, d, rest, by rw [List.cons_append, hrest, List.cons_append], fun x hx => ?_, hd⟩
      rcases List.mem_cons.mp hx with rfl | hx
      · exact hblank
      · exact hmargin x hx
    · obtain ⟨hspace, htab⟩ := not_or.mp hblank
      exact ⟨[], b, head ++ c :: after, rfl, nofun, hspace, htab, Ne.symm hb⟩

theorem indentation_margin {margin rest : List Char} (hmargin : ∀ b ∈ margin, b = ' ' ∨ b = '\t') (hspace : c ≠ ' ')
    (htab : c ≠ '\t') : indentation (margin ++ c :: rest) = byteLength margin := by
  have htake : ((margin ++ c :: rest).takeWhile fun b => b == ' ' || b == '\t') = margin := by
    rw [List.takeWhile_append_of_pos (by simpa using hmargin), List.takeWhile_cons_of_neg (by simp [hspace, htab]),
      List.append_nil]
  rw [← byteLength_margin, htake]

/-- A line on which a name begins has text. -/
theorem startsText {at_ : Cursor} (h : at_.Of text) (hrest : at_.rest = c :: after) (hc : isHead c = true) :
    StartsText text at_.line.offset (at_.line.offset + indentation at_.line.rest) := by
  have hfrom := h.line.from?_offset
  obtain ⟨before, -, -, hline⟩ := h
  have hbreak : '\n' ∉ Cursor.lineHead before := fun hmem => by
    simpa using List.mem_takeWhile_imp (List.mem_reverse.mp hmem)
  obtain ⟨margin, d, rest, hsplit, hmargin, hspace, htab, hnew⟩ := margin_cases hbreak hc after
  have hlineRest : at_.line.rest = margin ++ d :: rest := by rw [hline, ← hsplit, hrest]
  rw [hlineRest] at hfrom ⊢
  exact ⟨margin, d, rest, hfrom, hmargin, hspace, htab, hnew, by rw [indentation_margin hmargin hspace htab]⟩

theorem StartsText.from? (h : StartsText text line start) :
    ∃ c rest, Text.from? text start = some (c :: rest) ∧ c ≠ '\n' := by
  obtain ⟨margin, c, rest, hfrom, -, -, -, hc, rfl⟩ := h
  obtain ⟨before, rfl, rfl⟩ := from?_eq_some.mp hfrom
  exact ⟨c, rest, from?_eq_some.mpr ⟨before ++ margin, by rw [List.append_assoc], byteLength_append _ _⟩, hc⟩

/-! ### Ranges that hold a character -/

/-- The window of the extent has room for any character. -/
def Extent.Roomy : Extent → Prop
  | .braces cap => 4 ≤ cap
  | .indent cap => 4 ≤ cap
  | .line => True

theorem lt_lineEnd (hrest : t.rest = c :: after) (hc : c ≠ '\n') : t.offset < Tail.lineEnd t := by
  have hpos := c.utf8Size_pos
  rw [Tail.lineEnd, hrest, List.takeWhile_cons_of_pos (by simpa using hc), byteLength]
  omega

theorem lt_limit (hrest : t.rest = c :: after) (hcap : 4 ≤ cap) : t.offset < t.limit cap := by
  have hpos := c.utf8Size_pos
  rw [Tail.limit, hrest, floorBoundary, if_pos (c.utf8Size_le_four.trans hcap)]
  omega

theorem lt_braceEnd (hrest : t.rest = c :: after) (hcap : 4 ≤ cap) : t.offset < Tail.braceEnd t cap := by
  rw [Tail.braceEnd]
  rcases closingBrace_cases (t.limit cap) 0 t.offset t.rest with hlimit | ⟨mid, more, -, hmid, hcloses⟩
  · rw [hlimit]
    exact lt_limit hrest hcap
  · have hpos := Nat.pos_of_ne_zero (mt byteLength_eq_zero.mp hmid)
    omega

/-- The lines after the header end behind it. -/
theorem lineEnd_le_placedEnd {limit : Nat} : ∀ l ∈ (linesIn limit t).tail, Tail.lineEnd t ≤ placedEnd l := by
  obtain ⟨header, after, hrest, htake, hheader, hafter⟩ := rest_cases t.rest
  intro l hl
  rcases hafter with rfl | ⟨more, rfl⟩
  · rw [linesIn_last (hrest.trans (List.append_nil header)) hheader] at hl
    cases hl
  · rw [linesIn_break hrest hheader, List.tail_cons] at hl
    split at hl
    · cases hl
    · have hle : t.offset + byteLength header + 1 ≤ placedEnd l := (ahead_linesIn _ _ l hl).le
      rw [Tail.lineEnd, htake]
      omega

theorem lt_indentEnd {indent : Nat} (hrest : t.rest = c :: after) (hc : c ≠ '\n') (hcap : 4 ≤ cap) :
    t.offset < Tail.indentEnd t indent cap := by
  rw [indentEnd_eq]
  refine Nat.lt_min.mpr ⟨?_, lt_limit hrest hcap⟩
  have hheader := lt_lineEnd hrest hc
  rcases blockEnd_cases indent (Tail.lineEnd t) (linesIn (t.limit cap) t).tail with hlast | ⟨l, hl, hend⟩
  · rwa [hlast]
  · exact hend ▸ hheader.trans_le (lineEnd_le_placedEnd l hl)

theorem lt_endOf {e : Extent} (he : e.Roomy) (hrest : t.rest = c :: after) (hc : c ≠ '\n') (indent : Nat) :
    t.offset < e.endOf t indent := by
  cases e with
  | braces cap => exact lt_braceEnd hrest he
  | indent cap => exact lt_indentEnd hrest hc he
  | line => exact lt_lineEnd hrest hc

/-! ### Claims of matches -/

/-- The rule marks names that begin with a head, and its window has room for that. -/
structure Rule.Sound (rule : Rule) : Prop where
  marks : rule.pattern.Marks Pattern.HeadFirst
  roomy : rule.extent.Roomy

theorem sound_rulesOf (language : Language) : ∀ rule ∈ rulesOf language, rule.Sound := fun rule hrule => by
  refine ⟨rulesOf_marks language rule hrule, ?_⟩
  cases language <;> revert rule <;>
    simp [rulesOf, ecmaRules, pythonRules, goRules, javaRules, csharpRules, kotlinRules, Extent.Roomy, functionBody,
      typeBody, functionCap, typeCap]

theorem names_iff {word : String} (hm : m.Of text) : m.Names text line word ↔
    ∃ at_ stop, m.name? = some (at_, stop) ∧ at_.line.offset = line ∧ at_.textTo stop = word ∧ word ∉ controlWords := by
  refine exists₂_congr fun at_ stop => and_congr_right fun hname => ?_
  obtain ⟨hat, hstop⟩ := hm.2 at_ stop hname
  rw [lineStart?_eq hat, between?_textTo hat hstop, Option.some_inj, Option.some_inj, String.toList_inj]

/-- A match makes a claim to the line that it marks a name on. -/
theorem any_claim? (hm : m.Of text) (rule : Rule) :
    (rule.claim? m).any (·.line == line) = true ↔ ∃ word, m.Names text line word := by
  simp only [Option.any_eq_true, beq_iff_eq, claim?_eq_some, names_iff hm]
  constructor
  · rintro ⟨claim, ⟨at_, stop, hname, hword, rfl⟩, rfl⟩
    exact ⟨_, at_, stop, hname, rfl, rfl, hword⟩
  · rintro ⟨word, at_, stop, hname, rfl, rfl, hword⟩
    exact ⟨_, ⟨at_, stop, hname, hword, rfl⟩, rfl⟩

theorem finds_iff : rule.Finds text line ↔ ∃ claim ∈ rule.claims text, claim.line = line := by
  simp only [Rule.Finds, Rule.claims, List.mem_filterMap]
  constructor
  · rintro ⟨m, hm, hword⟩
    have hany := (any_claim? (rule.pattern.searchAll_of text m hm) rule).mpr hword
    obtain ⟨claim, hclaim, hline⟩ := (Option.any_eq_true _ _).mp hany
    exact ⟨claim, ⟨m, hm, hclaim⟩, beq_iff_eq.mp hline⟩
  · rintro ⟨claim, ⟨m, hm, hclaim⟩, hline⟩
    refine ⟨m, hm, (any_claim? (rule.pattern.searchAll_of text m hm) rule).mp ?_⟩
    rw [hclaim]
    exact beq_iff_eq.mpr hline

theorem claim?_declares (hm : m.Of text) (hrule : rule.Sound) (hheaded : m.Headed)
    (hclaim : rule.claim? m = some claim) : ∃ word, m.Names text claim.line word ∧
      Declares rule word text claim.line claim.symbol ∧ claim.symbol.span.start < claim.symbol.span.stop := by
  obtain ⟨at_, stop, hname, hword, rfl⟩ := claim?_eq_some.mp hclaim
  obtain ⟨c, after, hrest, hc⟩ := hheaded at_ stop hname
  have hat := (hm.2 at_ stop hname).1
  have hstart := startsText hat hrest hc
  have hof := outdented_of hat.line
  have hindent : at_.line.offset + indentation at_.line.rest - at_.line.offset = indentation at_.line.rest :=
    Nat.add_sub_cancel_left _ _
  have hend := cutEnd?_eq hof (indentation at_.line.rest) rule.extent
  obtain ⟨d, more, hfrom, hd⟩ := hstart.from?
  have hmore : (outdented at_.line).rest = d :: more := Option.some.inj (hof.from?_offset.symm.trans hfrom)
  refine ⟨_, (names_iff hm).mpr ⟨at_, stop, hname, rfl, rfl, hword⟩, ⟨rfl, rfl, hstart, ?_, ?_⟩,
    lt_endOf hrule.roomy hmore hd _⟩
  · exact congrArg (fun indent => rule.kind.kindOf _ indent) hindent.symm
  · exact (congrArg (rule.extent.cutEnd? text _) hindent).trans hend

/-! ### The first claim to a line -/

theorem firstClaims_pairwise (taken : Std.HashSet Nat) (claims : List Claim) :
    (firstClaims taken claims).Pairwise (·.line ≠ ·.line) := by
  induction claims generalizing taken with
  | nil => exact .nil
  | cons first claims ih =>
    rw [firstClaims]
    split
    · exact ih taken
    · refine .cons (fun later hlater heq => ?_) (ih _)
      exact (mem_firstClaims.mp hlater).1 (heq ▸ Std.HashSet.mem_insert_self)

variable {rules : List Rule}

/-- The first claim to a line is that of the first rule to find a name there, for the first name that it finds. -/
theorem find?_claims (hrules : ∀ rule ∈ rules, rule.Sound)
    (hfind : (rules.flatMap (·.claims text)).find? (·.line == line) = some claim) :
    ∃ rule word, FirstOn rules text line rule word ∧ Declares rule word text line claim.symbol ∧
      claim.symbol.span.start < claim.symbol.span.stop := by
  rw [List.find?_flatMap, List.findSome?_eq_some_iff] at hfind
  obtain ⟨earlier, rule, later, hsplit, hfirst, hearlier⟩ := hfind
  rw [Rule.claims, List.find?_filterMap, Option.bind_eq_some_iff] at hfirst
  obtain ⟨m, hm, hclaim⟩ := hfirst
  obtain ⟨hany, before, after, hmatches, hbefore⟩ := List.find?_eq_some_iff_append.mp hm
  have hof := rule.pattern.searchAll_of text
  have hmem : m ∈ rule.pattern.searchAll text := hmatches ▸ List.mem_append_right _ List.mem_cons_self
  have hsound := hrules rule (hsplit ▸ List.mem_append_right _ List.mem_cons_self)
  have hheaded := Pattern.searchAll_headed hsound.marks text m hmem
  obtain ⟨word, hnames, hdeclares, hspan⟩ := claim?_declares (hof m hmem) hsound hheaded hclaim
  obtain rfl : claim.line = line := by simpa [hclaim] using hany
  refine ⟨rule, word, ⟨⟨earlier, later, hsplit, fun other hother hfinds => ?_⟩, before, m, after, hmatches, hnames, ?_⟩,
    hdeclares, hspan⟩
  · obtain ⟨claim', hclaim', hline⟩ := finds_iff.mp hfinds
    exact List.find?_eq_none.mp (hearlier other hother) claim' hclaim' (beq_iff_eq.mpr hline)
  · intro other hother word' hword
    have hno := hbefore other hother
    rw [(any_claim? (hof other (hmatches ▸ List.mem_append_left _ hother)) rule).mpr ⟨word', hword⟩] at hno
    cases hno

/-! ### The order of the lines -/

theorem lineStart_le_append (before mid : List Char) : Cursor.lineStart before ≤ Cursor.lineStart (before ++ mid) := by
  rw [Cursor.lineStart, Cursor.lineStart, List.reverse_append, List.dropWhile_append]
  split
  · exact Nat.le_refl _
  · have hbefore := congrArg byteLength (Cursor.lineHead_append before)
    rw [byteLength_append, byteLength_reverse] at hbefore
    rw [byteLength_append, byteLength_reverse]
    omega

/-- What is behind another place is on the same line or on a later one. -/
theorem lineStart?_mono {n n' line' : Nat} (h : lineStart? text n = some line) (h' : lineStart? text n' = some line')
    (hle : n ≤ n') : line ≤ line' := by
  obtain ⟨before, hbefore, rfl⟩ := Option.map_eq_some_iff.mp h
  obtain ⟨before', hbefore', rfl⟩ := Option.map_eq_some_iff.mp h'
  obtain ⟨after, htext, rfl⟩ := before?_eq_some.mp hbefore
  obtain ⟨after', htext', rfl⟩ := before?_eq_some.mp hbefore'
  rcases List.prefix_or_prefix_of_prefix ⟨after, htext.symm⟩ ⟨after', htext'.symm⟩ with ⟨mid, rfl⟩ | ⟨mid, rfl⟩
  · exact lineStart_le_append before mid
  · have hmid : mid = [] := byteLength_eq_zero.mp (by rw [byteLength_append] at hle; omega)
    rw [hmid, List.append_nil]

theorem lineStart_append_of_not_mem {before mid : List Char} (h : '\n' ∉ mid) :
    Cursor.lineStart (before ++ mid) = Cursor.lineStart before := by
  have hstay : ∀ c ∈ mid.reverse, (c != '\n') = true := fun c hc => by
    simpa using fun heq : c = '\n' => h (heq ▸ List.mem_reverse.mp hc)
  rw [Cursor.lineStart, List.reverse_append, List.dropWhile_append_of_pos hstay, Cursor.lineStart]

/-- The start of a line is on that line. -/
theorem lineStart?_idem {n : Nat} (h : lineStart? text n = some line) : lineStart? text line = some line := by
  obtain ⟨before, hbefore, hstart⟩ := Option.map_eq_some_iff.mp h
  obtain ⟨after, htext, -⟩ := before?_eq_some.mp hbefore
  have hupTo : before? text line = some (before.reverse.dropWhile (· != '\n')).reverse := by
    refine before?_eq_some.mpr ⟨Cursor.lineHead before ++ after, ?_, ?_⟩
    · rw [← List.append_assoc, Cursor.lineHead_append, htext]
    · rw [byteLength_reverse, ← hstart, Cursor.lineStart]
  rw [lineStart?, hupTo, Option.map_some, Cursor.lineStart, List.reverse_reverse, List.dropWhile_idempotent, ← hstart,
    Cursor.lineStart]

/-- So is what is behind its margin. -/
theorem StartsText.lineStart? {n : Nat} (h : StartsText text line start) (hline : Recovery.lineStart? text n = some line) :
    Recovery.lineStart? text start = some line := by
  obtain ⟨margin, c, rest, hfrom, hmargin, -, -, -, rfl⟩ := h
  obtain ⟨upTo, rfl, hupTo⟩ := from?_eq_some.mp hfrom
  obtain ⟨before, hbefore, hstart⟩ := Option.map_eq_some_iff.mp (lineStart?_idem hline)
  obtain rfl : before = upTo := Option.some.inj (hbefore.symm.trans (before?_eq_some.mpr ⟨_, rfl, hupTo⟩))
  have hbehind := before?_eq_some.mpr ⟨c :: rest, (List.append_assoc before margin _).symm, rfl⟩
  have hbreak : '\n' ∉ margin := fun hmem => by rcases hmargin _ hmem with heq | heq <;> cases heq
  rw [byteLength_append, hupTo] at hbehind
  rw [Recovery.lineStart?, hbehind, Option.map_some, lineStart_append_of_not_mem hbreak, hstart]

/-! ### The claims in order -/

/-- The claims that become symbols, in the order of these. -/
def claimsBy (rules : List Rule) (text : List Char) : List Claim :=
  (firstClaims ∅ (rules.flatMap (·.claims text))).mergeSort fun a b => a.symbol.span.start ≤ b.symbol.span.start

theorem symbolsBy_eq (rules : List Rule) (text : List Char) :
    symbolsBy rules text = (claimsBy rules text).map (·.symbol) := by
  have hsort := List.map_mergeSort (f := fun claim : Claim => claim.symbol)
    (r := fun a b => a.symbol.span.start ≤ b.symbol.span.start) (s := fun a b => a.span.start ≤ b.span.start)
    (l := firstClaims ∅ (rules.flatMap (·.claims text))) fun _ _ _ _ => rfl
  exact hsort.symm

theorem mem_claimsBy : claim ∈ claimsBy rules text ↔
    (rules.flatMap (·.claims text)).find? (·.line == claim.line) = some claim := by
  rw [claimsBy, List.mem_mergeSort, mem_firstClaims]
  simp

theorem lineStart?_claim (hrules : ∀ rule ∈ rules, rule.Sound) (h : claim ∈ claimsBy rules text) :
    lineStart? text claim.symbol.span.start = some claim.line := by
  obtain ⟨rule, word, hfirst, hdeclares, -⟩ := find?_claims hrules (mem_claimsBy.mp h)
  obtain ⟨before, m, after, -, ⟨at_, stop, -, hline, -⟩, -⟩ := hfirst.found
  exact hdeclares.start.lineStart? hline

/-- One claim after the other is on a later line and has a later start. -/
theorem claimsBy_pairwise (hrules : ∀ rule ∈ rules, rule.Sound) (text : List Char) : (claimsBy rules text).Pairwise
    fun a b => a.line < b.line ∧ a.symbol.span.start < b.symbol.span.start := by
  have htrans : ∀ a b c : Claim, decide (a.symbol.span.start ≤ b.symbol.span.start) →
      decide (b.symbol.span.start ≤ c.symbol.span.start) → decide (a.symbol.span.start ≤ c.symbol.span.start) :=
    fun a b c hab hbc => decide_eq_true ((of_decide_eq_true hab).trans (of_decide_eq_true hbc))
  have htotal : ∀ a b : Claim,
      decide (a.symbol.span.start ≤ b.symbol.span.start) || decide (b.symbol.span.start ≤ a.symbol.span.start) :=
    fun a b => by simp [Nat.le_total]
  have hsorted := List.pairwise_mergeSort htrans htotal (firstClaims ∅ (rules.flatMap (·.claims text)))
  have hlines : (claimsBy rules text).Pairwise (·.line ≠ ·.line) :=
    ((List.mergeSort_perm _ _).pairwise_iff Ne.symm).mpr (firstClaims_pairwise _ _)
  refine List.Pairwise.imp_of_mem (fun {a b} ha hb hab => ?_) (List.Pairwise.and hsorted hlines)
  obtain ⟨hle, hne⟩ := hab
  have hle := of_decide_eq_true hle
  have hlineA := lineStart?_claim hrules ha
  have hlineB := lineStart?_claim hrules hb
  refine ⟨lt_of_le_of_ne (lineStart?_mono hlineA hlineB hle) hne, lt_of_le_of_ne hle fun hstart => hne ?_⟩
  rw [hstart] at hlineA
  exact Option.some.inj (hlineA.symm.trans hlineB)

theorem mem_lines : line ∈ (claimsBy rules text).map (·.line) ↔ ∃ rule ∈ rules, rule.Finds text line := by
  have hfinds : (∃ rule ∈ rules, rule.Finds text line) ↔
      ((rules.flatMap (·.claims text)).find? (·.line == line)).isSome = true := by
    simp only [finds_iff, List.find?_isSome, List.mem_flatMap, beq_iff_eq]
    constructor
    · rintro ⟨rule, hrule, claim, hclaim, hline⟩
      exact ⟨claim, ⟨rule, hrule, hclaim⟩, hline⟩
    · rintro ⟨claim, ⟨rule, hrule, hclaim⟩, hline⟩
      exact ⟨rule, hrule, claim, hclaim, hline⟩
  rw [hfinds, Option.isSome_iff_exists, List.mem_map]
  constructor
  · rintro ⟨claim, hclaim, rfl⟩
    exact ⟨claim, mem_claimsBy.mp hclaim⟩
  · rintro ⟨claim, hfind⟩
    obtain rfl : claim.line = line := by simpa using List.find?_some hfind
    exact ⟨claim, mem_claimsBy.mpr hfind, rfl⟩

/-- The rules for the language of that name. A language that is not known has none. -/
def rulesFor (languageId : String) : List Rule := (Language.ofId? languageId).elim [] rulesOf

theorem sound_rulesFor (languageId : String) : ∀ rule ∈ rulesFor languageId, rule.Sound := by
  rw [rulesFor]
  cases Language.ofId? languageId with
  | none => nofun
  | some language => exact sound_rulesOf language

theorem declarations_eq (languageId text : String) :
    declarations languageId text = (claimsBy (rulesFor languageId) text.toList).map (·.symbol) := by
  rw [declarations, rulesFor, ← symbolsBy_eq]
  cases Language.ofId? languageId with
  | none => simp [symbolsBy, firstClaims]
  | some language => rfl

end SymbolGraph.Recovery

namespace SymbolGraph.Extraction

open Recovery

/-- The patterns recover declarations only, in the order of the text. There is one on each line that some rule finds a
    name on, and on no other line. It is what the first such rule makes of the first name that it finds on the line. -/
theorem recovered_first_on_lines (languageId text hash : String) :
    let found := (recovered languageId text hash).found
    found.imports = [] ∧ found.calls = [] ∧ found.symbols.Pairwise (·.span.start < ·.span.start) ∧
    (∀ s ∈ found.symbols, s.span.start < s.span.stop ∧ s.fqname = s.name ∧ s.name ∉ controlWords) ∧
    ∃ lines : List Nat, lines.Pairwise (· < ·) ∧
      (∀ line, line ∈ lines ↔ ∃ rule ∈ rulesFor languageId, rule.Finds text.toList line) ∧
      List.Forall₂ (fun line s => ∃ rule word, FirstOn (rulesFor languageId) text.toList line rule word ∧
        Declares rule word text.toList line s) lines found.symbols := by
  have hsound := sound_rulesFor languageId
  have hpairwise := claimsBy_pairwise hsound text.toList
  have hfirst := fun (claim : Claim) (hclaim : claim ∈ claimsBy (rulesFor languageId) text.toList) =>
    find?_claims hsound (mem_claimsBy.mp hclaim)
  have hsymbols : (recovered languageId text hash).found.symbols =
      (claimsBy (rulesFor languageId) text.toList).map (·.symbol) := declarations_eq languageId text
  refine ⟨rfl, rfl, ?_, fun s hs => ?_, (claimsBy (rulesFor languageId) text.toList).map (·.line), ?_,
    fun line => mem_lines, ?_⟩
  · rw [hsymbols]
    exact List.pairwise_map.mpr (hpairwise.imp And.right)
  · rw [hsymbols] at hs
    obtain ⟨claim, hclaim, rfl⟩ := List.mem_map.mp hs
    obtain ⟨rule, word, hword, hdeclares, hspan⟩ := hfirst claim hclaim
    obtain ⟨-, m, -, -, ⟨-, -, -, -, -, hcontrol⟩, -⟩ := hword.found
    exact ⟨hspan, hdeclares.fqname.trans hdeclares.name.symm, hdeclares.name ▸ hcontrol⟩
  · exact List.pairwise_map.mpr (hpairwise.imp And.left)
  · rw [hsymbols]
    refine List.forall₂_map_left_iff.mpr (List.forall₂_map_right_iff.mpr (List.forall₂_same.mpr fun claim hclaim => ?_))
    obtain ⟨rule, word, hword, hdeclares, -⟩ := hfirst claim hclaim
    exact ⟨rule, word, hword, hdeclares⟩

-- Two rules find the name, and the one for functions comes before the one for variables.
example : (declarations "javascript" "const go = () => {}").map (fun s => (s.name, s.kind, s.span)) =
    [("go", .function, ⟨0, 19⟩)] := by cbv

end SymbolGraph.Extraction
