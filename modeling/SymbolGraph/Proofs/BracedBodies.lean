import SymbolGraph.Proofs.Recovered

/-! The end of a braced body. The search goes over the bytes of a window and counts the braces that are open, from the
    first one on. It ends behind the first closing brace with as many closing as opening braces before it, or with the
    window, and a longer window changes the end only if it was that of the window. -/

namespace SymbolGraph.Recovery

open Text

variable {text window piece mid after : List Char} {t : Text.Tail} {limit depth offset start stop cap : Nat}

/-! ### Over bytes -/

/-- The bytes of the UTF-8 form of the characters. -/
def utf8 (cs : List Char) : List UInt8 := cs.flatMap String.utf8EncodeChar

/-- The end of the braced body in the bytes from `offset` on, where `depth` braces are open. Once one was opened, a
    closing brace takes one away, which fails if none is open. -/
def closingByte? (limit : Nat) : (depth : Nat) → (opened : Bool) → (offset : Nat) → List UInt8 → Option Nat
  | _, _, _, [] => some limit
  | depth, opened, offset, b :: bs =>
    if b = 0x7b then closingByte? limit (depth + 1) true (offset + 1) bs
    else if b = 0x7d ∧ opened = true then
      match depth with
      | 0 => none
      | 1 => some (offset + 1)
      | depth + 2 => closingByte? limit (depth + 1) true (offset + 1) bs
    else closingByte? limit depth opened (offset + 1) bs

/-- The end of the braced body from byte `start` on, at most `cap` bytes further. The bytes up to there can be cut out
    only if the two places are in order and in the text. -/
def byteBraceEnd? (text : List Char) (start cap : Nat) : Option Nat :=
  let limit := floorBoundary text (start + cap)
  if start ≤ limit ∧ limit ≤ (utf8 text).length then
    closingByte? limit 0 false start (((utf8 text).drop start).take (limit - start))
  else none

theorem closingByte?_cons (limit depth : Nat) (opened : Bool) (offset : Nat) (b : UInt8) (bs : List UInt8) :
    closingByte? limit depth opened offset (b :: bs) =
      if b = 0x7b then closingByte? limit (depth + 1) true (offset + 1) bs
      else if b = 0x7d ∧ opened = true then
        match depth with
        | 0 => none
        | 1 => some (offset + 1)
        | depth + 2 => closingByte? limit (depth + 1) true (offset + 1) bs
      else closingByte? limit depth opened (offset + 1) bs := rfl

theorem utf8_append (cs ds : List Char) : utf8 (cs ++ ds) = utf8 cs ++ utf8 ds := List.flatMap_append

theorem length_utf8 (cs : List Char) : (utf8 cs).length = byteLength cs := by
  induction cs with
  | nil => rfl
  | cons c cs ih =>
    rw [utf8, List.flatMap_cons, List.length_append, String.length_utf8EncodeChar, byteLength, ← ih, utf8]

/-- A byte of a character is the character itself or no ASCII character. -/
theorem toNat_utf8Byte {c : Char} {b : UInt8} (hb : b ∈ String.utf8EncodeChar c) :
    b.toNat = c.toNat ∨ 128 ≤ b.toNat := by
  have hbyte : ∀ {n : Nat}, n < 256 → (UInt8.ofNat n).toNat = n := UInt8.toNat_ofNat_of_lt'
  rw [String.utf8EncodeChar.eq_1] at hb
  split at hb
  · obtain rfl := List.mem_singleton.mp hb
    exact .inl (hbyte (by omega))
  · right
    split at hb
    · simp only [List.mem_cons, List.not_mem_nil, or_false] at hb
      rcases hb with rfl | rfl <;> rw [hbyte (by omega)] <;> omega
    · split at hb
      · simp only [List.mem_cons, List.not_mem_nil, or_false] at hb
        rcases hb with rfl | rfl | rfl <;> rw [hbyte (by omega)] <;> omega
      · simp only [List.mem_cons, List.not_mem_nil, or_false] at hb
        rcases hb with rfl | rfl | rfl | rfl <;> rw [hbyte (by omega)] <;> omega

/-- The bytes of a character that is no brace are no braces. -/
theorem no_brace_byte {c : Char} (hopen : c ≠ '\x7b') (hclose : c ≠ '\x7d') {b : UInt8}
    (hb : b ∈ String.utf8EncodeChar c) : b ≠ 0x7b ∧ b ≠ 0x7d := by
  have hsame : ∀ d : Char, d.toNat < 128 → b.toNat = d.toNat → c = d := fun d hd hbd => by
    have hc : c.toNat = d.toNat := by
      rcases toNat_utf8Byte hb with h | h
      · rw [← h, hbd]
      · omega
    exact Char.ext (UInt32.toNat_inj.mp hc)
  constructor
  · rintro rfl
    exact hopen (hsame _ (by decide) rfl)
  · rintro rfl
    exact hclose (hsame _ (by decide) rfl)

theorem closingByte?_skip {opened : Bool} {bs rest : List UInt8} (h : ∀ b ∈ bs, b ≠ 0x7b ∧ b ≠ 0x7d) :
    closingByte? limit depth opened offset (bs ++ rest) =
      closingByte? limit depth opened (offset + bs.length) rest := by
  induction bs generalizing offset with
  | nil => rfl
  | cons b bs ih =>
    obtain ⟨⟨hopen, hclose⟩, hbs⟩ := List.forall_mem_cons.mp h
    rw [List.cons_append, closingByte?_cons, if_neg hopen, if_neg fun hb => hclose hb.1, ih hbs, List.length_cons,
      Nat.add_assoc, Nat.add_comm 1]

/-- In a window the search over bytes finds what the search over characters finds. A brace was opened exactly if one is
    open, since the search ends when none is any more. -/
theorem closingByte?_utf8 (h : offset + byteLength window = limit) :
    closingByte? limit depth (decide (0 < depth)) offset (utf8 window) =
      some (closingBrace limit depth offset window) := by
  induction window generalizing depth offset with
  | nil => cases depth <;> rfl
  | cons c window ih =>
    have hinside : ¬ limit ≤ offset := by
      have := c.utf8Size_pos
      rw [byteLength] at h
      omega
    have hrest : offset + c.utf8Size + byteLength window = limit := by rw [← h, byteLength, Nat.add_assoc]
    rw [utf8, List.flatMap_cons, ← utf8, closingBrace_cons, if_neg hinside]
    by_cases hopen : c = '\x7b'
    · subst hopen
      rw [if_pos rfl]
      exact ih hrest
    rw [if_neg hopen]
    by_cases hclose : c = '\x7d'
    · subst hclose
      rw [if_pos rfl]
      -- With no brace open, none was opened before, and this one is passed over.
      rcases depth with _ | _ | depth
      · exact ih hrest
      · rfl
      · exact ih hrest
    · rw [if_neg hclose, closingByte?_skip fun b hb => no_brace_byte hopen hclose hb, String.length_utf8EncodeChar]
      exact ih hrest

theorem byteBraceEnd?_eq (h : t.Of text) (cap : Nat) :
    byteBraceEnd? text t.offset cap = some (Tail.braceEnd t cap) := by
  obtain ⟨window, after, hrest, hlimit⟩ := t.ahead_limit cap
  obtain ⟨before, rfl, hoffset⟩ := id h
  have hcut : ((utf8 (before ++ t.rest)).drop t.offset).take (t.limit cap - t.offset) = utf8 window := by
    have hwindow : t.limit cap - t.offset = (utf8 window).length := by rw [hlimit, length_utf8, Nat.add_sub_cancel_left]
    have hstart : t.offset = (utf8 before).length := by rw [length_utf8, hoffset]
    rw [hwindow, hrest, utf8_append, utf8_append, hstart, List.drop_left, List.take_left]
  have hinside : t.offset ≤ t.limit cap ∧ t.limit cap ≤ (utf8 (before ++ t.rest)).length := by
    rw [length_utf8, h.byteLength_eq, hlimit, hrest, byteLength_append]
    omega
  have hsearch := @closingByte?_utf8 window (t.limit cap) 0 t.offset hlimit.symm
  rw [byteBraceEnd?, ← h.limit_eq, if_pos hinside, hcut, Tail.braceEnd]
  rw [hrest, closingBrace_window hlimit.symm]
  exact hsearch

/-! ### Open and closed braces -/

/-- The part of the piece from its first opening brace on. -/
def fromBrace (piece : List Char) : List Char := piece.dropWhile (· != '\x7b')

/-- The piece has an opening brace, and from the first one on it has as many opening as closing ones, of which the last
    ends it. -/
structure Balanced (piece : List Char) : Prop where
  ends : piece.getLast? = some '\x7d'
  opened : '\x7b' ∈ piece
  even : (fromBrace piece).count '\x7b' = (fromBrace piece).count '\x7d'

/-- From the first opening brace on, if there is one, the piece has more opening than closing ones. -/
def Unclosed (piece : List Char) : Prop :=
  '\x7b' ∈ piece → (fromBrace piece).count '\x7d' < (fromBrace piece).count '\x7b'

theorem Unclosed.not_balanced (h : Unclosed piece) : ¬ Balanced piece := fun hbalanced => by
  have := h hbalanced.opened
  have := hbalanced.even
  omega

/-- Where `depth` braces are open before the characters, one stays open up to each of them. -/
def StaysOpen (depth : Nat) (cs : List Char) : Prop :=
  ∀ p, p <+: cs → p.count '\x7d' < depth + p.count '\x7b'

theorem StaysOpen.cons {d : Nat} {c : Char} {cs : List Char} (h : StaysOpen d cs) (hdepth : 0 < depth)
    (hc : d + [c].count '\x7d' = depth + [c].count '\x7b') : StaysOpen depth (c :: cs) := by
  intro p hp
  rcases List.prefix_cons_iff.mp hp with rfl | ⟨q, rfl, hq⟩
  · exact hdepth
  · have := h q hq
    rw [← List.singleton_append, List.count_append, List.count_append]
    omega

/-- What the search for the last of `depth` closing braces comes to. -/
inductive Search (limit depth offset : Nat) (window : List Char) : Nat → Prop
  | found (mid after : List Char) (hwindow : window = mid ++ '\x7d' :: after) (hopen : StaysOpen depth mid)
      (hlast : depth + mid.count '\x7b' = mid.count '\x7d' + 1) :
      Search limit depth offset window (offset + byteLength mid + 1)
  | missed (hopen : StaysOpen depth window) : Search limit depth offset window limit

/-- The search behind a character comes to the same as the one from it on. -/
theorem Search.cons {d : Nat} {c : Char} (h : Search limit d (offset + c.utf8Size) window stop) (hdepth : 0 < depth)
    (hc : d + [c].count '\x7d' = depth + [c].count '\x7b') : Search limit depth offset (c :: window) stop := by
  cases h with
  | found mid after hwindow hopen hlast =>
    have hcount : depth + (c :: mid).count '\x7b' = (c :: mid).count '\x7d' + 1 := by
      rw [← List.singleton_append, List.count_append, List.count_append]
      omega
    have hfound := @Search.found limit depth offset (c :: window) (c :: mid) after (by rw [hwindow]; rfl)
      (hopen.cons hdepth hc) hcount
    rwa [byteLength, ← Nat.add_assoc offset] at hfound
  | missed hopen => exact .missed (hopen.cons hdepth hc)

theorem closingBrace_search (hdepth : 0 < depth) (h : offset + byteLength window = limit) :
    Search limit depth offset window (closingBrace limit depth offset window) := by
  induction window generalizing depth offset with
  | nil =>
    refine .missed fun p hp => ?_
    rw [List.prefix_nil.mp hp]
    exact hdepth
  | cons c window ih =>
    have hinside : ¬ limit ≤ offset := by
      have := c.utf8Size_pos
      rw [byteLength] at h
      omega
    have hrest : offset + c.utf8Size + byteLength window = limit := by rw [← h, byteLength, Nat.add_assoc]
    rw [closingBrace_cons, if_neg hinside]
    by_cases hopen : c = '\x7b'
    · subst hopen
      exact (ih (Nat.succ_pos depth) hrest).cons hdepth rfl
    rw [if_neg hopen]
    by_cases hclose : c = '\x7d'
    · subst hclose
      rw [if_pos rfl]
      -- The search ends here if no other brace is open.
      rcases depth with _ | _ | depth
      · cases hdepth
      · exact .found [] window rfl (fun p hp => by rw [List.prefix_nil.mp hp]; exact Nat.one_pos) rfl
      · exact (ih (Nat.succ_pos depth) hrest).cons hdepth rfl
    · rw [if_neg hclose]
      refine (ih hdepth hrest).cons hdepth ?_
      rw [List.count_singleton, List.count_singleton, if_neg (by simpa using hclose), if_neg (by simpa using hopen)]

/-! ### From the first opening brace on -/

variable {before rest : List Char}

theorem fromBrace_append (h : '\x7b' ∉ before) : fromBrace (before ++ '\x7b' :: rest) = '\x7b' :: rest := by
  have hall : ∀ c ∈ before, (c != '\x7b') = true := fun c hc => by simpa using fun heq : c = '\x7b' => h (heq ▸ hc)
  rw [fromBrace, List.dropWhile_append_of_pos hall]
  rfl

/-- A piece before the first opening brace has none, and one that goes further is as open as what it has behind it. -/
theorem prefix_cases (h : '\x7b' ∉ before) (hpiece : piece <+: before ++ '\x7b' :: rest) :
    '\x7b' ∉ piece ∨ ∃ q, q <+: rest ∧ piece = before ++ '\x7b' :: q := by
  rcases List.prefix_or_prefix_of_prefix hpiece (List.prefix_append before _) with hshort | ⟨q, rfl⟩
  · exact .inl fun hmem => h (hshort.subset hmem)
  · rcases List.prefix_cons_iff.mp ((List.prefix_append_right_inj before).mp hpiece) with rfl | ⟨q', rfl, hq'⟩
    · exact .inl (by simpa using h)
    · exact .inr ⟨q', hq', rfl⟩

theorem unclosed_of_staysOpen (h : '\x7b' ∉ before) (hopen : StaysOpen 1 rest)
    (hpiece : piece <+: before ++ '\x7b' :: rest) : Unclosed piece := by
  intro hmem
  rcases prefix_cases h hpiece with hnone | ⟨q, hq, rfl⟩
  · exact absurd hmem hnone
  · have := hopen q hq
    rw [fromBrace_append h, ← List.singleton_append, List.count_append, List.count_append]
    simpa [Nat.add_comm] using this

/-- Closing braces before the first opening one are passed over. -/
theorem closingBrace_before (h : '\x7b' ∉ before) (hlimit : offset + byteLength (before ++ rest) = limit) :
    closingBrace limit 0 offset (before ++ rest) = closingBrace limit 0 (offset + byteLength before) rest := by
  induction before generalizing offset with
  | nil => rfl
  | cons c before ih =>
    obtain ⟨hc, hbefore⟩ := not_or.mp fun hmem => h (List.mem_cons.mpr hmem)
    have hinside : ¬ limit ≤ offset := by
      have := c.utf8Size_pos
      rw [List.cons_append, byteLength] at hlimit
      omega
    have hlimit : offset + c.utf8Size + byteLength (before ++ rest) = limit := by
      rw [← hlimit, List.cons_append, byteLength, Nat.add_assoc]
    have hrest := ih hbefore hlimit
    rw [List.cons_append, closingBrace_cons, if_neg hinside, if_neg (Ne.symm hc), hrest, byteLength, Nat.add_assoc]
    exact ite_self _

/-- In a window, the end is that of its shortest balanced beginning, or of the window if there is none. -/
theorem closingBrace_balanced (h : start + byteLength window = limit) :
    (∃ piece after, window = piece ++ after ∧ closingBrace limit 0 start window = start + byteLength piece ∧
        Balanced piece ∧ ∀ p, p <+: piece → p ≠ piece → Unclosed p) ∨
      closingBrace limit 0 start window = limit ∧ ∀ p, p <+: window → Unclosed p := by
  by_cases hmem : '\x7b' ∈ window
  · -- Up to the first opening brace nothing counts; from there on the search is the one with one brace open.
    obtain ⟨before, rest, rfl, hbefore⟩ := List.eq_append_cons_of_mem hmem
    have hrest : start + byteLength before + 1 + byteLength rest = limit := by
      have hsize : '\x7b'.utf8Size = 1 := rfl
      rw [← h, byteLength_append, byteLength, hsize]
      omega
    have hopened : closingBrace limit 0 (start + byteLength before) ('\x7b' :: rest) =
        closingBrace limit 1 (start + byteLength before + 1) rest := by
      rw [closingBrace_cons, if_neg (by omega), if_pos rfl]
      rfl
    rw [closingBrace_before hbefore h, hopened]
    have hsearch := closingBrace_search Nat.one_pos hrest
    generalize closingBrace limit 1 (start + byteLength before + 1) rest = stop at hsearch
    cases hsearch with
    | found mid after hwindow hopen hlast =>
      have hconcat : before ++ '\x7b' :: (mid ++ ['\x7d']) = (before ++ '\x7b' :: mid) ++ ['\x7d'] := by simp
      refine .inl ⟨before ++ '\x7b' :: (mid ++ ['\x7d']), after, by simp [hwindow], ?_, ⟨?_, by simp, ?_⟩, ?_⟩
      · have hsize : '\x7b'.utf8Size = 1 ∧ '\x7d'.utf8Size = 1 := ⟨rfl, rfl⟩
        rw [byteLength_append, byteLength, byteLength_append, byteLength, hsize.1, hsize.2, byteLength_nil]
        omega
      · rw [hconcat, List.getLast?_concat]
      · rw [fromBrace_append hbefore]
        have hopening : ('\x7b' :: (mid ++ ['\x7d'])).count '\x7b' = mid.count '\x7b' + 1 := by simp
        have hclosing : ('\x7b' :: (mid ++ ['\x7d'])).count '\x7d' = mid.count '\x7d' + 1 := by simp
        omega
      · intro p hp hne
        rw [hconcat] at hp hne
        exact unclosed_of_staysOpen hbefore hopen ((List.prefix_concat_iff.mp hp).resolve_left hne)
    | missed hopen => exact .inr ⟨rfl, fun p hp => unclosed_of_staysOpen hbefore hopen hp⟩
  · refine .inr ⟨?_, fun p hp hp_mem => absurd (hp.subset hp_mem) hmem⟩
    rw [← List.append_nil window, closingBrace_before hmem (by rw [List.append_nil, h])]
    rfl

/-! ### The end of a body -/

/-- The part of the text between the two places is balanced. -/
def BalancedUpTo (text : List Char) (start stop : Nat) : Prop :=
  ∃ piece, between? text start stop = some piece ∧ Balanced piece

theorem braceEnd?_eq (h : t.Of text) (cap : Nat) : braceEnd? text t.offset cap = some (Tail.braceEnd t cap) := by
  obtain ⟨before, rfl, hoffset⟩ := h
  have htail : ceilTail? (before ++ t.rest) t.offset = some t := by
    rw [ceilTail?, hoffset, tailFrom_append, Nat.zero_add, ← hoffset]
  simp [braceEnd?, htail]

/-- What is cut out of a text from a place on is a beginning of what follows the place. -/
theorem prefix_of_between? (h : t.Of text) (hcut : between? text t.offset stop = some piece) :
    piece <+: t.rest ∧ stop = t.offset + byteLength piece := by
  obtain ⟨before, after, htext, hstart, hstop⟩ := between?_eq_some.mp hcut
  have hrest : some (piece ++ after) = some t.rest :=
    (from?_eq_some.mpr ⟨before, by rw [htext, List.append_assoc], hstart⟩).symm.trans h.from?_offset
  exact ⟨⟨after, Option.some.inj hrest⟩, hstop.symm⟩

/-- Of two beginnings of the same characters the one with fewer bytes is a beginning of the other one. -/
theorem prefix_of_byteLength_le {p q : List Char} (hp : p <+: window) (hq : q <+: window)
    (h : byteLength p ≤ byteLength q) : p <+: q := by
  rcases List.prefix_or_prefix_of_prefix hp hq with hpq | ⟨rest, rfl⟩
  · exact hpq
  · have hnil : rest = [] := byteLength_eq_zero.mp (by rw [byteLength_append] at h; omega)
    simp [hnil]

/-- The end of a body is the first place up to which the text is balanced, or else that of the window, and a brace is
    open at every place before it that is behind an opening one. -/
theorem braceEnd_least (h : t.Of text) (cap : Nat) :
    (IsLeast {e | e ≤ t.limit cap ∧ BalancedUpTo text t.offset e} (Tail.braceEnd t cap) ∨
        Tail.braceEnd t cap = t.limit cap ∧ ∀ e ≤ t.limit cap, ¬ BalancedUpTo text t.offset e) ∧
      ∀ e piece, e < Tail.braceEnd t cap → between? text t.offset e = some piece → Unclosed piece := by
  obtain ⟨window, after, hrest, hlimit⟩ := t.ahead_limit cap
  have hend : Tail.braceEnd t cap = closingBrace (t.limit cap) 0 t.offset window := by
    rw [Tail.braceEnd, hrest, closingBrace_window hlimit.symm]
  -- What is cut from the offset on, up to the limit, is a beginning of the window.
  have hwindow : ∀ {e piece}, e ≤ t.limit cap → between? text t.offset e = some piece →
      piece <+: window ∧ e = t.offset + byteLength piece := by
    intro e piece he hcut
    obtain ⟨hpiece, rfl⟩ := prefix_of_between? h hcut
    rw [hrest] at hpiece
    exact ⟨prefix_of_byteLength_le hpiece (List.prefix_append window after) (by omega), rfl⟩
  rcases closingBrace_balanced hlimit.symm with ⟨piece, more, rfl, hstop, hbalanced, hshorter⟩ | ⟨hstop, hopen⟩
  · rw [hend, hstop]
    have hbefore : ∀ {e p}, e < t.offset + byteLength piece → between? text t.offset e = some p → Unclosed p := by
      intro e p he hcut
      obtain ⟨hp, rfl⟩ := hwindow (by rw [hlimit, byteLength_append]; omega) hcut
      have hp_piece := prefix_of_byteLength_le hp (List.prefix_append piece more) (by omega)
      exact hshorter p hp_piece fun heq => by rw [heq] at he; exact Nat.lt_irrefl _ he
    refine ⟨.inl ⟨⟨?_, piece, h.between?_ahead (by rw [hrest, List.append_assoc]), hbalanced⟩, ?_⟩, fun e p => hbefore⟩
    · rw [hlimit, byteLength_append]
      omega
    · rintro e ⟨-, p, hcut, hp⟩
      by_contra hlt
      exact (hbefore (Nat.not_le.mp hlt) hcut).not_balanced hp
  · rw [hend, hstop]
    refine ⟨.inr ⟨rfl, ?_⟩, fun e p he hcut => hopen p (hwindow (Nat.le_of_lt he) hcut).1⟩
    rintro e he ⟨p, hcut, hp⟩
    exact (hopen p (hwindow he hcut).1).not_balanced hp

/-- From a boundary of the text, the search for the end of a braced body comes to an end in the window, over bytes
    without a failure. -/
theorem braced_body_ends (hstart : IsBoundary text start) (cap : Nat) :
    ∃ limit stop, IsGreatest {k | IsBoundary text k ∧ k ≤ min (start + cap) (byteLength text)} limit ∧
      braceEnd? text start cap = some stop ∧ byteBraceEnd? text start cap = some stop ∧
      (IsLeast {e | e ≤ limit ∧ BalancedUpTo text start e} stop ∨
        stop = limit ∧ ∀ e ≤ limit, ¬ BalancedUpTo text start e) ∧
      (∀ e piece, e < stop → between? text start e = some piece → '\x7b' ∈ piece →
        (fromBrace piece).count '\x7d' < (fromBrace piece).count '\x7b') ∧
      start ≤ stop ∧ stop ≤ start + cap ∧ IsBoundary text stop ∧
      (stop < limit → ∀ cap', cap ≤ cap' → braceEnd? text start cap' = some stop) := by
  obtain ⟨t, h, rfl⟩ : ∃ t : Text.Tail, t.Of text ∧ t.offset = start := by
    obtain ⟨before, after, rfl, rfl⟩ := hstart
    exact ⟨⟨byteLength before, after⟩, ⟨before, rfl, rfl⟩, rfl⟩
  have hlimit : ∀ cap, IsGreatest {k | IsBoundary text k ∧ k ≤ min (t.offset + cap) (byteLength text)} (t.limit cap) :=
    fun cap => h.limit_eq cap ▸ isGreatest_floorBoundary text (t.offset + cap)
  obtain ⟨hleast, hopen⟩ := braceEnd_least h cap
  have hinside : Tail.braceEnd t cap ≤ t.limit cap := by
    rcases hleast with hleast | ⟨heq, -⟩
    · exact hleast.1.1
    · exact heq.le
  refine ⟨t.limit cap, Tail.braceEnd t cap, hlimit cap, braceEnd?_eq h cap, byteBraceEnd?_eq h cap, hleast, hopen,
    (ahead_braceEnd t cap).le, hinside.trans ((hlimit cap).1.2.trans (min_le_left _ _)),
    h.ahead (ahead_braceEnd t cap), ?_⟩
  intro hearly cap' hcap
  rw [braceEnd?_eq h cap']
  -- A place that is balanced in the shorter window is so in the longer one, and none before it is.
  have hleast := hleast.resolve_right fun hnone => hearly.ne hnone.1
  have hwider : t.limit cap ≤ t.limit cap' := (hlimit cap').2 ⟨(hlimit cap).1.1, by
    have := (hlimit cap).1.2
    omega⟩
  have hleast' : IsLeast {e | e ≤ t.limit cap' ∧ BalancedUpTo text t.offset e} (Tail.braceEnd t cap) := by
    refine ⟨⟨hinside.trans hwider, hleast.1.2⟩, ?_⟩
    rintro e ⟨-, he⟩
    rcases Nat.le_total e (t.limit cap) with hle | hle
    · exact hleast.2 ⟨hle, he⟩
    · exact hinside.trans hle
  rcases (braceEnd_least h cap').1 with hfound | ⟨-, hnone⟩
  · rw [hfound.unique hleast']
  · exact absurd hleast'.1.2 (hnone _ hleast'.1.1)

/-- A brace that closes nothing is passed over. A window that ends in a letter of two bytes ends before it, and in a
    window that holds the whole body a longer one changes nothing. -/
theorem body_behind_stray_brace :
    let text := "\x7d\x7bé\x7b\x7d\x7d x".toList
    IsBoundary text 0 ∧ braceEnd? text 0 3 = some 2 ∧ IsLeast {e | e ≤ 8 ∧ BalancedUpTo text 0 e} 7 ∧
      ∀ cap, 8 ≤ cap → braceEnd? text 0 cap = some 7 := by
  intro text
  have hstart : IsBoundary text 0 := ⟨[], text, rfl, rfl⟩
  obtain ⟨limit, stop, hlimit, hstop, -, hleast, -, -, -, -, hwider⟩ := braced_body_ends hstart 8
  obtain rfl : stop = 7 := Option.some.inj (hstop.symm.trans (by decide))
  have hfloor : floorBoundary text (0 + 8) = 8 := by decide
  obtain rfl : limit = 8 := hlimit.unique (hfloor ▸ isGreatest_floorBoundary text (0 + 8))
  exact ⟨hstart, by decide, hleast.resolve_right fun hnone => absurd hnone.1 (by decide), hwider (by decide)⟩

end SymbolGraph.Recovery
