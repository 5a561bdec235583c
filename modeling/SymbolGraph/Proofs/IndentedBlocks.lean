import SymbolGraph.Proofs.Recovered

/-! The end of an indented block. The lines of a window are those of the text that start in it. A block goes on up to
    the last line with text that is deeper than its header, so no sibling of the header starts in it, and what follows
    it in the window is a sibling. -/

namespace SymbolGraph.Recovery

open Text

variable {text line before rest after more : List Char} {t l : Text.Tail} {ls block others : List Text.Tail}
  {limit offset indent start stop last cap : Nat}

/-! ### Lines of a text -/

/-- The line of the text that starts at byte `start`. -/
def LineAt (text : List Char) (start : Nat) (line : List Char) : Prop :=
  ∃ before after, text = before ++ line ++ after ∧ byteLength before = start ∧ '\n' ∉ line ∧
    (before = [] ∨ ∃ upTo, before = upTo ++ ['\n']) ∧ (after = [] ∨ ∃ more, after = '\n' :: more)

/-- Some character of the line is no blank. -/
def HasText (line : List Char) : Prop := ∃ c ∈ line, isBlank c = false

theorem all_isBlank : line.all isBlank = true ↔ ¬ HasText line := by simp [HasText]

/-- A line that starts behind a line break of the tail. -/
def Later (t l : Text.Tail) : Prop :=
  ∃ mid after, t.rest = mid ++ '\n' :: (l.rest ++ after) ∧ l.offset = t.offset + byteLength mid + 1 ∧ '\n' ∉ l.rest ∧
    (after = [] ∨ ∃ more, after = '\n' :: more)

theorem takeWhile_line (h : '\n' ∉ line) (hafter : after = [] ∨ ∃ more, after = '\n' :: more) :
    (line ++ after).takeWhile (· != '\n') = line := by
  have hall : ∀ c ∈ line, (c != '\n') = true := fun c hc => by simpa using fun heq : c = '\n' => h (heq ▸ hc)
  rw [List.takeWhile_append_of_pos hall]
  rcases hafter with rfl | ⟨more, rfl⟩ <;> simp

/-- Behind a boundary of the text, the lines of the text are those of what follows it. -/
theorem later_iff (h : t.Of text) : Later t l ↔ LineAt text l.offset l.rest ∧ t.offset < l.offset := by
  obtain ⟨first, rfl, hoffset⟩ := h
  constructor
  · rintro ⟨mid, after, hrest, hl, hline, hafter⟩
    refine ⟨⟨first ++ (mid ++ ['\n']), after, by simp [hrest], ?_, hline, .inr ⟨first ++ mid, by simp⟩, hafter⟩, ?_⟩
    swap
    · omega
    have hbreak : byteLength ['\n'] = 1 := rfl
    rw [byteLength_append, byteLength_append, hbreak, hl, hoffset, Nat.add_assoc]
  · rintro ⟨⟨before, after, htext, hbefore, hline, hbreak, hafter⟩, hlt⟩
    -- The line may start before the tail does, which the offsets exclude, or in it.
    rw [List.append_assoc, eq_comm, List.append_eq_append_iff] at htext
    rcases htext with ⟨x, rfl, -⟩ | ⟨x, rfl, hrest⟩
    · rw [byteLength_append] at hoffset
      omega
    · rw [byteLength_append] at hbefore
      rcases List.eq_nil_or_concat x with rfl | ⟨mid, c, rfl⟩
      · rw [byteLength_nil] at hbefore
        omega
      · have hc : c = '\n' := by
          rcases hbreak with hnil | ⟨upTo, hupTo⟩
          · simp at hnil
          · have hlast := congrArg List.getLast? hupTo
            simpa [← List.append_assoc] using hlast
        subst hc
        have hbyte : byteLength ['\n'] = 1 := rfl
        rw [List.concat_eq_append, byteLength_append, hbyte] at hbefore
        exact ⟨mid, after, by simpa using hrest, by omega, hline, hafter⟩

theorem not_later (hrest : t.rest = line) (h : '\n' ∉ line) : ¬ Later t l := by
  rintro ⟨mid, after, hlater, -⟩
  exact h (by rw [← hrest, hlater]; simp)

/-- The next line starts behind the first line break, and the other ones behind the line break after it. -/
theorem later_break (hrest : t.rest = line ++ '\n' :: more) (h : '\n' ∉ line) :
    Later t l ↔ l = ⟨t.offset + byteLength line + 1, more.takeWhile (· != '\n')⟩ ∨
      Later ⟨t.offset + byteLength line + 1, more⟩ l := by
  constructor
  · rintro ⟨mid, after, hlater, hl, hline, hafter⟩
    rw [hrest, List.append_eq_append_iff] at hlater
    have hnext : mid = line → more = l.rest ++ after →
        l = ⟨t.offset + byteLength line + 1, more.takeWhile (· != '\n')⟩ := by
      rintro rfl rfl
      rw [takeWhile_line hline hafter, ← hl]
    -- What is before the later line ends with the first line break, or goes on behind it.
    rcases hlater with ⟨x, hmid, htail⟩ | ⟨x, hmid, htail⟩
    · cases x with
      | nil => exact .inl (hnext (by simpa using hmid) (by simpa using htail))
      | cons c x =>
        obtain ⟨rfl, hmore⟩ := List.cons.inj htail
        refine .inr ⟨x, after, hmore, ?_, hline, hafter⟩
        have hbyte : '\n'.utf8Size = 1 := rfl
        rw [hl, hmid, byteLength_append, byteLength, hbyte]
        show _ = t.offset + byteLength line + 1 + byteLength x + 1
        omega
    · cases x with
      | nil => exact .inl (hnext (by simpa using hmid.symm) (by simpa using htail.symm))
      | cons c x =>
        obtain ⟨rfl, -⟩ := List.cons.inj htail
        exact absurd (by rw [hmid]; simp) h
  · rintro (rfl | ⟨mid, after, hmore, hl, hline, hafter⟩)
    · obtain ⟨first, after, hmore, htake, hfirst, hafter⟩ := rest_cases more
      rw [htake]
      exact ⟨line, after, by rw [hrest, hmore], rfl, hfirst, hafter⟩
    · refine ⟨line ++ '\n' :: mid, after, ?_, ?_, hline, hafter⟩
      · have hmore : more = mid ++ '\n' :: (l.rest ++ after) := hmore
        rw [hrest, hmore]
        simp
      · have hbyte : '\n'.utf8Size = 1 := rfl
        have hl : l.offset = t.offset + byteLength line + 1 + byteLength mid + 1 := hl
        rw [hl, byteLength_append, byteLength, hbyte]
        omega

/-! ### Lines in a window -/

/-- The lines of a window behind its first one are the later lines that start in it. -/
theorem mem_linesIn (limit : Nat) (t : Text.Tail) : l ∈ (linesIn limit t).tail ↔ Later t l ∧ l.offset ≤ limit := by
  -- Behind the first line break the lines are those of a shorter text.
  induction hn : t.rest.length using Nat.strongRecOn generalizing t with
  | ind n ih =>
    obtain ⟨line, after, hrest, -, hline, hafter⟩ := rest_cases t.rest
    rcases hafter with rfl | ⟨more, rfl⟩
    · rw [List.append_nil] at hrest
      rw [linesIn_last hrest hline, List.tail_cons]
      simp [not_later hrest hline]
    · rw [linesIn_break hrest hline, List.tail_cons, later_break hrest hline]
      have ih := ih more.length (by rw [← hn, hrest]; simp; omega) ⟨t.offset + byteLength line + 1, more⟩ rfl
      split
      · next hend =>
        -- The window ends with the first line, and all later ones start behind it.
        refine ⟨nofun, ?_⟩
        rintro ⟨rfl | ⟨mid, -, -, hl, -⟩, hle⟩
        · dsimp only at hle
          omega
        · dsimp only at hl
          omega
      · next hend =>
        rw [linesIn_eq, List.mem_cons, ih]
        constructor
        · rintro (rfl | ⟨hlater, hle⟩)
          · exact ⟨.inl rfl, by dsimp only; omega⟩
          · exact ⟨.inr hlater, hle⟩
        · rintro ⟨rfl | hlater, hle⟩
          · exact .inl rfl
          · exact .inr ⟨hlater, hle⟩

theorem linesIn_ordered (limit : Nat) (t : Text.Tail) :
    (linesIn limit t).Pairwise fun a b => placedEnd a < b.offset := by
  induction hn : t.rest.length using Nat.strongRecOn generalizing t with
  | ind n ih =>
    obtain ⟨line, after, hrest, -, hline, hafter⟩ := rest_cases t.rest
    rcases hafter with rfl | ⟨more, rfl⟩
    · rw [linesIn_last (hrest.trans (List.append_nil line)) hline]
      exact List.pairwise_singleton _ _
    · rw [linesIn_break hrest hline]
      split
      · exact List.pairwise_singleton _ _
      · have ih := ih more.length (by rw [← hn, hrest]; simp; omega) ⟨t.offset + byteLength line + 1, more⟩ rfl
        refine List.pairwise_cons.mpr ⟨fun l hl => ?_, ih⟩
        rw [linesIn_eq] at hl
        show t.offset + byteLength line < l.offset
        rcases List.mem_cons.mp hl with rfl | hl
        · exact Nat.lt_succ_self _
        · obtain ⟨⟨mid, -, -, hoffset, -⟩, -⟩ := (mem_linesIn limit _).mp hl
          dsimp only at hoffset
          omega

/-! ### Blocks -/

/-- Some lines belong to a block that ends at `stop`, where `last` is the end of the header, and the others do not. -/
structure Divides (indent last : Nat) (block others : List Text.Tail) (stop : Nat) : Prop where
  deeper : ∀ l ∈ block, HasText l.rest → indent < indentation l.rest
  covered : ∀ l ∈ block, HasText l.rest → placedEnd l ≤ stop
  from_last : last ≤ stop
  /-- The block ends with the header or with one of its lines. -/
  ends : stop = last ∨ ∃ l ∈ block, HasText l.rest ∧ stop = placedEnd l
  /-- The first of the other lines is not deeper than the header. -/
  sibling : ∀ l more, others = l :: more → HasText l.rest ∧ indentation l.rest ≤ indent

theorem blockEnd_divides (indent : Nat) (hordered : ls.Pairwise fun a b => placedEnd a < b.offset)
    (hlast : ∀ l ∈ ls, last < l.offset) :
    ∃ block others, ls = block ++ others ∧ Divides indent last block others (blockEnd indent last ls) := by
  induction ls generalizing last with
  | nil => exact ⟨[], [], rfl, nofun, nofun, Nat.le_refl _, .inl rfl, nofun⟩
  | cons l ls ih =>
    obtain ⟨hfirst, hordered⟩ := List.pairwise_cons.mp hordered
    obtain ⟨hl, hls⟩ := List.forall_mem_cons.mp hlast
    rw [blockEnd]
    split
    · next hblank =>
      -- A blank line is taken into the block but does not move its end.
      have hnone : ¬ HasText l.rest := all_isBlank.mp hblank
      obtain ⟨block, others, rfl, h⟩ := ih hordered hls
      refine ⟨l :: block, others, rfl, ?_, ?_, h.from_last, ?_, h.sibling⟩
      · exact List.forall_mem_cons.mpr ⟨fun htext => absurd htext hnone, h.deeper⟩
      · exact List.forall_mem_cons.mpr ⟨fun htext => absurd htext hnone, h.covered⟩
      · rcases h.ends with hstop | ⟨m, hm, hend⟩
        · exact .inl hstop
        · exact .inr ⟨m, List.mem_cons_of_mem l hm, hend⟩
    · next hblank =>
      have htext : HasText l.rest := not_not.mp fun hnone => hblank (all_isBlank.mpr hnone)
      split
      · next hle =>
        refine ⟨[], l :: ls, rfl, nofun, nofun, Nat.le_refl _, .inl rfl, ?_⟩
        rintro m more hcons
        obtain ⟨rfl, -⟩ := List.cons.inj hcons
        exact ⟨htext, hle⟩
      · next hdeep =>
        obtain ⟨block, others, rfl, h⟩ := ih hordered hfirst
        have hend : l.offset ≤ placedEnd l := Nat.le_add_right _ _
        refine ⟨l :: block, others, rfl, ?_, ?_, (hl.le.trans hend).trans h.from_last, .inr ?_, h.sibling⟩
        · exact List.forall_mem_cons.mpr ⟨fun _ => Nat.not_le.mp hdeep, h.deeper⟩
        · exact List.forall_mem_cons.mpr ⟨fun _ => h.from_last, h.covered⟩
        · rcases h.ends with hstop | ⟨m, hm, hend⟩
          · exact ⟨l, List.mem_cons_self, htext, hstop⟩
          · exact ⟨m, List.mem_cons_of_mem l hm, hend⟩

/-- The first line with text that starts behind byte `stop`. -/
def NextLine (text : List Char) (stop start : Nat) (line : List Char) : Prop :=
  LineAt text start line ∧ HasText line ∧ stop < start ∧
    ∀ s other, LineAt text s other → HasText other → stop < s → start ≤ s

/-- What is between `start` and `stop` is a block in the window up to `limit`, whose header is a line that ends at
    `header` and is indented by `indent`. -/
structure IsBlock (text : List Char) (indent start header limit stop : Nat) : Prop where
  forward : start ≤ stop
  inside : stop ≤ limit
  boundary : IsBoundary text stop
  /-- No line with text that is not deeper starts in the block behind its header. -/
  deeper : ∀ s line, LineAt text s line → HasText line → header < s → s < stop → indent < indentation line
  /-- The block ends with its header, with a line that has text or with the window. -/
  ends : stop = header ∨ stop = limit ∨
    ∃ s line, header < s ∧ LineAt text s line ∧ HasText line ∧ stop = s + byteLength line
  /-- The first line with text behind a block is no part of it. -/
  sibling : stop < limit → ∀ s line, NextLine text stop s line → s ≤ limit → indentation line ≤ indent

theorem indentEnd_isBlock (h : t.Of text) (indent cap : Nat) :
    IsBlock text indent t.offset (Tail.lineEnd t) (t.limit cap) (Tail.indentEnd t indent cap) := by
  have hahead := ahead_indentEnd t indent cap
  have hordered := linesIn_ordered (t.limit cap) t
  rw [linesIn_eq] at hordered
  obtain ⟨hheader, hordered⟩ := List.pairwise_cons.mp hordered
  have hheader : ∀ l ∈ (linesIn (t.limit cap) t).tail, Tail.lineEnd t < l.offset := hheader
  obtain ⟨block, others, hlines, hblock⟩ := blockEnd_divides indent hordered hheader
  have hend := indentEnd_eq t indent cap
  generalize blockEnd indent (Tail.lineEnd t) (linesIn (t.limit cap) t).tail = stop at hblock hend
  have hline : ∀ l, l ∈ block ++ others ↔
      (LineAt text l.offset l.rest ∧ t.offset < l.offset) ∧ l.offset ≤ t.limit cap := fun l => by
    rw [← hlines, mem_linesIn, later_iff h]
  have hstart : t.offset ≤ Tail.lineEnd t := (ahead_lineEnd t).le
  rw [hlines] at hordered hheader
  obtain ⟨-, hothers, hapart⟩ := List.pairwise_append.mp hordered
  have hbehind : ∀ l ∈ others, stop < l.offset := fun l hl => by
    rcases hblock.ends with rfl | ⟨m, hm, -, rfl⟩
    · exact hheader l (List.mem_append_right block hl)
    · exact hapart m hm l hl
  refine ⟨hahead.le, hend.le.trans (min_le_right stop _), h.ahead hahead, ?_, ?_, ?_⟩
  · intro s line hat htext hs hstop
    have hlt : s < stop ∧ s < t.limit cap := lt_min_iff.mp (hstop.trans_eq hend)
    rcases List.mem_append.mp ((hline ⟨s, line⟩).mpr ⟨⟨hat, hstart.trans_lt hs⟩, hlt.2.le⟩) with hmem | hmem
    · exact hblock.deeper _ hmem htext
    · exact absurd (hbehind _ hmem) (Nat.lt_asymm hlt.1)
  · rcases Nat.le_total stop (t.limit cap) with hle | hle
    · rw [hend, min_eq_left hle]
      rcases hblock.ends with hlast | ⟨l, hl, htext, hl_end⟩
      · exact .inl hlast
      · have hmem := List.mem_append_left others hl
        exact .inr (.inr ⟨l.offset, l.rest, hheader l hmem, ((hline l).mp hmem).1.1, htext, hl_end⟩)
    · exact .inr (.inl (hend.trans (min_eq_right hle)))
  · intro hearly s line hnext hs
    obtain ⟨hat, htext, hlt, hfirst⟩ := hnext
    have hstop : Tail.indentEnd t indent cap = stop := by
      rw [hend] at hearly ⊢
      exact min_eq_left (by omega)
    rw [hstop] at hlt hfirst
    have hin := (hline ⟨s, line⟩).mpr ⟨⟨hat, hstart.trans_lt (hblock.from_last.trans_lt hlt)⟩, hs⟩
    rcases List.mem_append.mp hin with hmem | hmem
    · -- Lines of the block with text end with it.
      have hcovered : s + byteLength line ≤ stop := hblock.covered _ hmem htext
      omega
    · cases others with
      | nil => cases hmem
      | cons l more =>
        obtain ⟨hl_text, hl_indent⟩ := hblock.sibling l more rfl
        have hl := List.mem_append_right block (List.mem_cons_self (a := l) (l := more))
        have hle : s ≤ l.offset := hfirst _ _ ((hline l).mp hl).1.1 hl_text (hbehind l List.mem_cons_self)
        rcases List.mem_cons.mp hmem with rfl | hmore
        · exact hl_indent
        · have hlater : l.offset + byteLength l.rest < s := (List.pairwise_cons.mp hothers).1 _ hmore
          omega

/-- From a boundary of the text that the header starts at, the search for the end of an indented block comes to an end
    without a cut that fails, and what it finds is a block. -/
theorem indented_block_ends (hstart : IsBoundary text start) (indent cap : Nat) :
    ∃ limit header stop, IsGreatest {k | IsBoundary text k ∧ k ≤ min (start + cap) (byteLength text)} limit ∧
      lineEnd? text start = some header ∧ indentEnd? text start indent cap = some stop ∧
      cutIndentEnd? text start indent cap = some stop ∧ IsBlock text indent start header limit stop := by
  obtain ⟨before, after, rfl, rfl⟩ := hstart
  have h : (⟨byteLength before, after⟩ : Text.Tail).Of (before ++ after) := ⟨before, rfl, rfl⟩
  have hfound : indentEnd? (before ++ after) (byteLength before) indent cap =
      some (Tail.indentEnd ⟨byteLength before, after⟩ indent cap) := by
    rw [indentEnd?, tailAt?_eq_some.mpr ⟨h, rfl⟩]
    rfl
  exact ⟨_, _, _, h.limit_eq cap ▸ isGreatest_floorBoundary _ _, lineEnd?_eq h, hfound, cutIndentEnd?_eq h indent cap,
    indentEnd_isBlock h indent cap⟩

/-- A block goes on behind a blank line and ends before a sibling of its header, or else where the window ends, which is
    before a letter that does not fit in it. -/
theorem block_before_sibling :
    let text := "  def m:\n      a\n\n      é\n  def n:\n".toList
    IsBoundary text 2 ∧ IsBlock text 2 2 8 36 26 ∧ IsBlock text 2 2 8 24 24 := by
  intro text
  have hstart : IsBoundary text 2 := ⟨[' ', ' '], text.drop 2, by decide +kernel, rfl⟩
  have hblock : ∀ cap limit stop, floorBoundary text (2 + cap) = limit → indentEnd? text 2 2 cap = some stop →
      IsBlock text 2 2 8 limit stop := by
    rintro cap - stop rfl hstop
    obtain ⟨limit, header, stop', hlimit, hheader, hstop', -, hblock⟩ := indented_block_ends hstart 2 cap
    obtain rfl := hlimit.unique (isGreatest_floorBoundary text (2 + cap))
    obtain rfl : stop' = stop := Option.some.inj (hstop'.symm.trans hstop)
    obtain rfl : header = 8 := Option.some.inj (hheader.symm.trans (by decide))
    exact hblock
  exact ⟨hstart, hblock 100 36 26 (by decide) (by decide), hblock 23 24 24 (by decide) (by decide)⟩

end SymbolGraph.Recovery
