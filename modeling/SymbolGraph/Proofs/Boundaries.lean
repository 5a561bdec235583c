import Mathlib.Data.String.Basic
import Mathlib.Order.Bounds.Basic
import SymbolGraph.Text.Offset

/-! Boundaries of a text, which are the places where it can be cut. A text is taken apart at one of them: what is before
    it has as many bytes as its offset says. Cuts that fail at other places succeed at boundaries, and there only. -/

namespace SymbolGraph.Text

variable {text cs before mid after : List Char} {n start stop : Nat}

/-! ### Bytes -/

@[simp] theorem byteLength_nil : byteLength [] = 0 := rfl

@[simp] theorem byteLength_cons (c : Char) (cs : List Char) : byteLength (c :: cs) = c.utf8Size + byteLength cs := rfl

@[simp] theorem byteLength_append (cs ds : List Char) : byteLength (cs ++ ds) = byteLength cs + byteLength ds := by
  induction cs with
  | nil => simp
  | cons c cs ih => simp [ih, Nat.add_assoc]

@[simp] theorem byteLength_reverse (cs : List Char) : byteLength cs.reverse = byteLength cs := by
  induction cs with
  | nil => rfl
  | cons c cs ih => simp [ih, Nat.add_comm]

theorem byteLength_eq_zero : byteLength cs = 0 ↔ cs = [] := by
  cases cs with
  | nil => simp
  | cons c cs => simp [Nat.ne_of_gt c.utf8Size_pos]

theorem utf8ByteSize_eq (s : String) : s.utf8ByteSize = byteLength s.toList := by
  have hchars : ∀ cs, (String.ofList cs).utf8ByteSize = byteLength cs := fun cs => by
    induction cs with
    | nil => rfl
    | cons c cs ih => rw [String.ofList_cons, String.utf8ByteSize_append, String.utf8ByteSize_singleton, ih, byteLength]
  rw [← hchars, String.ofList_toList]

/-! ### Boundaries -/

/-- Byte `n` of the text is at the start of a character, or the text ends there. -/
def IsBoundary (text : List Char) (n : Nat) : Prop := ∃ before after, text = before ++ after ∧ byteLength before = n

theorem IsBoundary.le (h : IsBoundary text n) : n ≤ byteLength text := by
  obtain ⟨before, after, rfl, rfl⟩ := h
  simp

theorem IsBoundary.isValid {s : String} (h : IsBoundary s.toList n) : (⟨n⟩ : String.Pos.Raw).IsValid s := by
  obtain ⟨before, after, hs, rfl⟩ := h
  rw [String.Pos.Raw.isValid_iff_exists_append]
  refine ⟨String.ofList before, String.ofList after, ?_, ?_⟩
  · rw [← String.ofList_append, ← hs, String.ofList_toList]
  · rw [String.Pos.Raw.ext_iff, String.byteIdx_rawEndPos, utf8ByteSize_eq, String.toList_ofList]

/-- The text from a boundary on. -/
def Tail.Of (t : Tail) (text : List Char) : Prop := ∃ before, text = before ++ t.rest ∧ t.offset = byteLength before

/-- Byte `n` is a boundary of the tail. -/
def Tail.Ahead (t : Tail) (n : Nat) : Prop := ∃ mid after, t.rest = mid ++ after ∧ n = t.offset + byteLength mid

namespace Tail.Of
variable {t : Tail}

theorem isBoundary (h : t.Of text) : IsBoundary text t.offset := by
  obtain ⟨before, htext, hoffset⟩ := h
  exact ⟨before, t.rest, htext, hoffset.symm⟩

theorem later (h : t.Of text) (hrest : t.rest = mid ++ after) :
    (⟨t.offset + byteLength mid, after⟩ : Tail).Of text := by
  obtain ⟨before, rfl, hoffset⟩ := h
  exact ⟨before ++ mid, by simp [hrest], by simp [hoffset]⟩

theorem ahead (h : t.Of text) (hn : t.Ahead n) : IsBoundary text n := by
  obtain ⟨mid, after, hrest, rfl⟩ := hn
  exact (h.later hrest).isBoundary

theorem byteLength_eq (h : t.Of text) : byteLength text = t.offset + byteLength t.rest := by
  obtain ⟨before, rfl, hoffset⟩ := h
  simp [hoffset]

end Tail.Of

namespace Tail.Ahead
variable {t : Tail} {m : Nat}

theorem le (h : t.Ahead n) : t.offset ≤ n := by
  obtain ⟨mid, after, -, rfl⟩ := h
  exact Nat.le_add_right _ _

theorem min (h : t.Ahead n) (h' : t.Ahead m) : t.Ahead (min n m) := by
  rcases Nat.le_total n m with hle | hle
  · rwa [Nat.min_eq_left hle]
  · rwa [Nat.min_eq_right hle]

/-- What is ahead of a later place is ahead of the first one. -/
theorem of_later (hrest : t.rest = mid ++ after) (h : (⟨t.offset + byteLength mid, after⟩ : Tail).Ahead n) :
    t.Ahead n := by
  obtain ⟨more, rest, hafter, hn⟩ := h
  have hafter : after = more ++ rest := hafter
  exact ⟨mid ++ more, rest, by rw [hrest, hafter, List.append_assoc], by rw [hn, byteLength_append, Nat.add_assoc]⟩

end Tail.Ahead

/-! ### The last boundary in a window -/

theorem floorBoundary_spec (cs : List Char) (n : Nat) :
    ∃ mid after, cs = mid ++ after ∧ floorBoundary cs n = byteLength mid := by
  induction cs generalizing n with
  | nil => exact ⟨[], [], rfl, rfl⟩
  | cons c cs ih =>
    rw [floorBoundary]
    split
    · obtain ⟨mid, after, rfl, hfloor⟩ := ih (n - c.utf8Size)
      exact ⟨c :: mid, after, rfl, by rw [hfloor, byteLength]⟩
    · exact ⟨[], c :: cs, rfl, rfl⟩

theorem floorBoundary_append (before cs : List Char) (n : Nat) :
    floorBoundary (before ++ cs) (byteLength before + n) = byteLength before + floorBoundary cs n := by
  induction before with
  | nil => simp
  | cons c before ih =>
    have hrest : c.utf8Size + byteLength before + n - c.utf8Size = byteLength before + n := by omega
    rw [List.cons_append, floorBoundary, byteLength, if_pos (by omega), hrest, ih, Nat.add_assoc]

theorem floorBoundary_le (cs : List Char) (n : Nat) : floorBoundary cs n ≤ n := by
  induction cs generalizing n with
  | nil => exact Nat.zero_le n
  | cons c cs ih =>
    rw [floorBoundary]
    split
    · have := ih (n - c.utf8Size)
      omega
    · exact Nat.zero_le n

/-- No boundary up to byte `n` of a text is behind the last one. -/
theorem isGreatest_floorBoundary (text : List Char) (n : Nat) :
    IsGreatest {k | IsBoundary text k ∧ k ≤ min n (byteLength text)} (floorBoundary text n) := by
  obtain ⟨mid, after, htext, hfloor⟩ := floorBoundary_spec text n
  have hboundary : IsBoundary text (floorBoundary text n) := ⟨mid, after, htext, hfloor.symm⟩
  refine ⟨⟨hboundary, le_min (floorBoundary_le text n) hboundary.le⟩, ?_⟩
  rintro k ⟨⟨before, rest, rfl, rfl⟩, hk⟩
  obtain ⟨more, rfl⟩ := Nat.exists_eq_add_of_le (hk.trans (min_le_left _ _))
  rw [floorBoundary_append]
  exact Nat.le_add_right _ _

theorem Tail.Of.limit_eq {t : Tail} (h : t.Of text) (cap : Nat) :
    t.limit cap = floorBoundary text (t.offset + cap) := by
  obtain ⟨before, rfl, hoffset⟩ := h
  rw [Tail.limit, hoffset, floorBoundary_append]

theorem Tail.ahead_limit (t : Tail) (cap : Nat) : t.Ahead (t.limit cap) := by
  obtain ⟨mid, after, hrest, hfloor⟩ := floorBoundary_spec t.rest cap
  exact ⟨mid, after, hrest, by rw [Tail.limit, hfloor]⟩

/-! ### Cuts that may fail -/

/-- The text before byte `n`. -/
def before? : List Char → Nat → Option (List Char)
  | _, 0 => some []
  | [], _ + 1 => none
  | c :: cs, n + 1 => if c.utf8Size ≤ n + 1 then (before? cs (n + 1 - c.utf8Size)).map (c :: ·) else none

/-- The text from byte `n` on. -/
def from? (text : List Char) (n : Nat) : Option (List Char) := (tailAt? text n).map (·.rest)

/-- The text from byte `start` up to byte `stop`. -/
def between? (text : List Char) (start stop : Nat) : Option (List Char) :=
  (before? text stop).bind fun before => from? before start

theorem before?_append (before after : List Char) : before? (before ++ after) (byteLength before) = some before := by
  induction before with
  | nil => cases after <;> rfl
  | cons c before ih =>
    have hpos := c.utf8Size_pos
    obtain ⟨k, hk⟩ : ∃ k, c.utf8Size + byteLength before = k + 1 := ⟨_, (Nat.succ_pred_eq_of_pos (by omega)).symm⟩
    have hrest : k + 1 - c.utf8Size = byteLength before := by omega
    rw [byteLength, hk, List.cons_append, before?, if_pos (by omega), hrest, ih]
    rfl

/-- What is before byte `n` is cut off only if that is a boundary. -/
theorem before?_eq_some : before? text n = some before ↔ ∃ after, text = before ++ after ∧ byteLength before = n := by
  constructor
  · intro h
    fun_induction before? text n generalizing before with
    | case1 text => exact ⟨text, by simp [← Option.some.inj h], by simp [← Option.some.inj h]⟩
    | case2 n => cases h
    | case3 c cs n hle ih =>
      obtain ⟨rest, hrest, rfl⟩ := Option.map_eq_some_iff.mp h
      obtain ⟨after, rfl, hlength⟩ := ih hrest
      exact ⟨after, rfl, by rw [byteLength, hlength]; omega⟩
    | case4 c cs n hle => cases h
  · rintro ⟨after, rfl, rfl⟩
    exact before?_append before after

theorem tailFrom_append (offset : Nat) (before cs : List Char) :
    tailFrom offset (before ++ cs) (byteLength before) = some ⟨offset + byteLength before, cs⟩ := by
  induction before generalizing offset with
  | nil => cases cs <;> rfl
  | cons c before ih =>
    have hpos := c.utf8Size_pos
    obtain ⟨k, hk⟩ : ∃ k, c.utf8Size + byteLength before = k + 1 := ⟨_, (Nat.succ_pred_eq_of_pos (by omega)).symm⟩
    have hrest : k + 1 - c.utf8Size = byteLength before := by omega
    rw [byteLength, hk, List.cons_append, tailFrom, hrest, ih, ← hk, Nat.add_assoc]

/-- The tail that starts in a text leaves out a part of it. -/
theorem tailFrom_eq_some {offset : Nat} {t : Tail} (h : tailFrom offset cs n = some t) :
    ∃ before, cs = before ++ t.rest ∧ t.offset = offset + byteLength before := by
  fun_induction tailFrom offset cs n with
  | case1 offset cs => exact ⟨[], by simp [← Option.some.inj h], by simp [← Option.some.inj h]⟩
  | case2 offset n => cases h
  | case3 offset c cs n ih =>
    obtain ⟨before, rfl, hoffset⟩ := ih h
    exact ⟨c :: before, rfl, by rw [hoffset, byteLength, Nat.add_assoc]⟩

theorem tailAt?_eq_some {t : Tail} : tailAt? text n = some t ↔ t.Of text ∧ t.offset = n := by
  rw [tailAt?, ceilTail?, Option.filter_eq_some_iff, decide_eq_true_iff]
  constructor
  · rintro ⟨htail, hoffset⟩
    obtain ⟨before, htext, hbefore⟩ := tailFrom_eq_some htail
    exact ⟨⟨before, htext, by rw [hbefore, Nat.zero_add]⟩, hoffset⟩
  · rintro ⟨⟨before, rfl, hbefore⟩, rfl⟩
    refine ⟨?_, rfl⟩
    rw [hbefore, tailFrom_append, Nat.zero_add, ← hbefore]

/-- The text is cut from byte `n` on only if that is a boundary. -/
theorem from?_eq_some : from? text n = some after ↔ ∃ before, text = before ++ after ∧ byteLength before = n := by
  rw [from?, Option.map_eq_some_iff]
  constructor
  · rintro ⟨t, ht, rfl⟩
    obtain ⟨⟨before, htext, hbefore⟩, hoffset⟩ := tailAt?_eq_some.mp ht
    exact ⟨before, htext, hbefore.symm.trans hoffset⟩
  · rintro ⟨before, rfl, rfl⟩
    exact ⟨⟨byteLength before, after⟩, tailAt?_eq_some.mpr ⟨⟨before, rfl, rfl⟩, rfl⟩, rfl⟩

/-- A piece is cut out only if both of its ends are boundaries in this order. -/
theorem between?_eq_some : between? text start stop = some mid ↔
    ∃ before after, text = before ++ mid ++ after ∧ byteLength before = start ∧ start + byteLength mid = stop := by
  rw [between?, Option.bind_eq_some_iff]
  constructor
  · rintro ⟨upTo, hbefore, hfrom⟩
    obtain ⟨after, rfl, rfl⟩ := before?_eq_some.mp hbefore
    obtain ⟨before, rfl, rfl⟩ := from?_eq_some.mp hfrom
    exact ⟨before, after, rfl, rfl, (byteLength_append before mid).symm⟩
  · rintro ⟨before, after, rfl, rfl, rfl⟩
    exact ⟨before ++ mid, before?_eq_some.mpr ⟨after, rfl, byteLength_append before mid⟩,
      from?_eq_some.mpr ⟨before, rfl, rfl⟩⟩

namespace Tail.Of
variable {t : Tail}

theorem from?_offset (h : t.Of text) : from? text t.offset = some t.rest := by
  obtain ⟨before, htext, hoffset⟩ := h
  exact from?_eq_some.mpr ⟨before, htext, hoffset.symm⟩

theorem between?_ahead (h : t.Of text) (hrest : t.rest = mid ++ after) :
    between? text t.offset (t.offset + byteLength mid) = some mid := by
  obtain ⟨before, rfl, hoffset⟩ := h
  exact between?_eq_some.mpr ⟨before, after, by simp [hrest], hoffset.symm, rfl⟩

end Tail.Of

end SymbolGraph.Text
