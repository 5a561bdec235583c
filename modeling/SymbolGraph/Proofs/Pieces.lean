import Mathlib.Data.List.Infix
import SymbolGraph.Text.Split

/-! Texts in pieces. Cutting a text at a separator and joining the pieces undo each other, and a text that is put
    together at a separator is cut there. Tests for a start, an end or a part find what is written there. -/

namespace SymbolGraph.Text

/-! ### Cutting -/

section
variable {sep c : Char} {piece cs : List Char}

theorem splitChars_eq_splitOn (sep : Char) (cs : List Char) : splitChars sep cs = cs.splitOn sep := by
  induction cs with
  | nil => exact (List.splitOn_nil sep).symm
  | cons c cs ih =>
    rw [splitChars, ih, List.splitOn_cons_eq_if_modifyHead]
    by_cases hc : c = sep
    · simp [hc]
    · cases hcut : List.splitOn sep cs with
      | nil => exact absurd hcut (List.splitOn_ne_nil sep cs)
      | cons piece rest => simp [hc]

theorem joinChars_eq_intercalate (sep : Char) (pieces : List (List Char)) :
    joinChars sep pieces = [sep].intercalate pieces := by
  induction pieces with
  | nil => rfl
  | cons piece rest ih =>
    cases rest with
    | nil => exact List.intercalate_singleton.symm
    | cons next rest => simp [joinChars, ih]

theorem splitChars_ne_nil (sep : Char) (cs : List Char) : splitChars sep cs ≠ [] := by
  rw [splitChars_eq_splitOn]
  exact List.splitOn_ne_nil sep cs

theorem splitChars_append_cons (sep : Char) (before after : List Char) :
    splitChars sep (before ++ sep :: after) = splitChars sep before ++ splitChars sep after := by
  simp only [splitChars_eq_splitOn, List.splitOn_append_cons_self]

theorem splitChars_of_not_mem (h : sep ∉ piece) : splitChars sep piece = [piece] := by
  rw [splitChars_eq_splitOn, List.splitOn_eq_singleton h]

theorem splitChars_append (h : sep ∉ piece) (rest : List Char) :
    splitChars sep (piece ++ sep :: rest) = piece :: splitChars sep rest := by
  rw [splitChars_append_cons, splitChars_of_not_mem h, List.singleton_append]

/-- The pieces are made of the characters of the text but for the separator. -/
theorem mem_splitChars (h : piece ∈ splitChars sep cs) (hc : c ∈ piece) : c ∈ cs ∧ c ≠ sep := by
  induction cs generalizing piece with
  | nil => simp_all [splitChars]
  | cons d cs ih =>
    rw [splitChars] at h
    split at h
    · rcases List.mem_cons.mp h with rfl | h
      · cases hc
      · exact (ih h hc).imp_left (List.mem_cons_of_mem d)
    · next hd =>
      split at h
      · next hnil => exact absurd hnil (splitChars_ne_nil sep cs)
      · next first rest hfirst =>
        rw [hfirst] at ih
        rcases List.mem_cons.mp h with rfl | h
        · rcases List.mem_cons.mp hc with rfl | hc
          · exact ⟨List.mem_cons_self, hd⟩
          · exact (ih List.mem_cons_self hc).imp_left (List.mem_cons_of_mem d)
        · exact (ih (List.mem_cons_of_mem _ h) hc).imp_left (List.mem_cons_of_mem d)

theorem splitChars_joined {pieces : List (List Char)} (h : pieces ≠ []) :
    splitChars sep (joinChars sep pieces) = pieces.flatMap (splitChars sep) := by
  induction pieces with
  | nil => exact absurd rfl h
  | cons piece rest ih =>
    cases rest with
    | nil => simp [joinChars]
    | cons next rest => rw [joinChars, splitChars_append_cons, ih (by simp), List.flatMap_cons] <;> simp

theorem joinChars_splitChars (sep : Char) (cs : List Char) : joinChars sep (splitChars sep cs) = cs := by
  rw [splitChars_eq_splitOn, joinChars_eq_intercalate, List.intercalate_splitOn]

theorem joinChars_append {a b : List (List Char)} (ha : a ≠ []) (hb : b ≠ []) :
    joinChars sep (a ++ b) = joinChars sep a ++ sep :: joinChars sep b := by
  simp only [joinChars_eq_intercalate]
  induction a with
  | nil => exact absurd rfl ha
  | cons piece rest ih =>
    by_cases hrest : rest = []
    · simp [hrest, List.intercalate_cons_of_ne_nil hb]
    · rw [List.cons_append, List.intercalate_cons_of_ne_nil (by simp [hrest]), ih hrest,
        List.intercalate_cons_of_ne_nil hrest]
      simp

end

section
variable {sep c : Char} {s piece : String}

theorem split_ne_nil (sep : Char) (s : String) : split sep s ≠ [] := by
  simpa [split] using splitChars_ne_nil sep s.toList

theorem split_of_not_mem (h : sep ∉ s.toList) : split sep s = [s] := by
  rw [split, splitChars_of_not_mem h]
  simp

theorem mem_split (h : piece ∈ split sep s) (hc : c ∈ piece.toList) : c ∈ s.toList ∧ c ≠ sep := by
  obtain ⟨chars, hchars, rfl⟩ := List.mem_map.mp h
  exact mem_splitChars hchars (by simpa using hc)

theorem not_mem_split (h : piece ∈ split sep s) : sep ∉ piece.toList := fun hsep => (mem_split h hsep).2 rfl

theorem split_append_slash (a b : String) : split '/' (a ++ "/" ++ b) = split '/' a ++ split '/' b := by
  simp [split, splitChars_append_cons]

theorem split_leading_slash (s : String) : split '/' ("/" ++ s) = "" :: split '/' s := split_append_slash "" s

theorem split_final_slash (s : String) : split '/' (s ++ "/") = split '/' s ++ [""] := by
  rw [← String.append_empty (s := s ++ "/")]
  exact split_append_slash s ""

@[simp]
theorem join_singleton (sep : Char) (s : String) : join sep [s] = s := String.ofList_toList

theorem split_joined {pieces : List String} (h : pieces ≠ []) :
    split sep (join sep pieces) = pieces.flatMap (split sep) := by
  rw [split, join, String.toList_ofList, splitChars_joined (by simpa using h), List.flatMap_map, List.map_flatMap]
  rfl

theorem split_join {names : List String} (hne : names ≠ []) (h : ∀ n ∈ names, sep ∉ n.toList) :
    split sep (join sep names) = names := by
  rw [split_joined hne, List.flatMap_congr fun n hn => split_of_not_mem (h n hn)]
  simp

theorem join_split (sep : Char) (s : String) : join sep (split sep s) = s := by
  have hpieces : (split sep s).map String.toList = splitChars sep s.toList := by simp [split]
  rw [join, hpieces, joinChars_splitChars, String.ofList_toList]

theorem join_append {a b : List String} (ha : a ≠ []) (hb : b ≠ []) :
    join '/' (a ++ b) = join '/' a ++ "/" ++ join '/' b := by
  apply String.toList_injective
  simp only [join, List.map_append, String.toList_append, String.toList_ofList]
  rw [joinChars_append (by simpa using ha) (by simpa using hb)]
  simp

theorem join_cons (s : String) {more : List String} (h : more ≠ []) : join '/' (s :: more) = s ++ "/" ++ join '/' more := by
  rw [← List.singleton_append, join_append (by simp) h, join_singleton]

/-- The first piece is the whole text, or a separator follows it. -/
theorem head?_split (h : (split '/' s).head? = some piece) :
    s = piece ∧ '/' ∉ s.toList ∨ ∃ rest, s = piece ++ "/" ++ rest := by
  by_cases hslash : '/' ∈ s.toList
  · obtain ⟨before, after, hcut, hbefore⟩ := List.eq_append_cons_of_mem hslash
    rw [split, hcut, splitChars_append hbefore, List.map_cons, List.head?_cons, Option.some.injEq] at h
    exact .inr ⟨String.ofList after, String.toList_injective (by simp [hcut, ← h])⟩
  · rw [split_of_not_mem hslash] at h
    exact .inl ⟨by simpa using h, hslash⟩

end

/-! ### The last separator -/

theorem cutLastChars_of_not_mem {sep : Char} {cs : List Char} (h : sep ∉ cs) : cutLastChars sep cs = none := by
  induction cs with
  | nil => rfl
  | cons c cs ih =>
    rw [List.mem_cons, not_or] at h
    rw [cutLastChars, ih h.2]
    exact if_neg (Ne.symm h.1)

theorem cutLastChars_append {sep : Char} (before : List Char) {after : List Char} (h : sep ∉ after) :
    cutLastChars sep (before ++ sep :: after) = some (before, after) := by
  induction before with
  | nil => simp [cutLastChars, cutLastChars_of_not_mem h]
  | cons c cs ih => simp [cutLastChars, ih]

section
variable {sep : Char} {s : String}

theorem cutLast_of_not_mem (h : sep ∉ s.toList) : cutLast sep s = none := by
  rw [cutLast, cutLastChars_of_not_mem h]
  rfl

theorem cutLast_append (before : String) (h : sep ∉ s.toList) :
    cutLast sep (before ++ String.singleton sep ++ s) = some (before, s) := by
  have hchars : (before ++ String.singleton sep ++ s).toList = before.toList ++ sep :: s.toList := by simp
  rw [cutLast, hchars, cutLastChars_append _ h]
  simp

theorem cutLast_append_slash (before : String) (h : '/' ∉ s.toList) : cutLast '/' (before ++ "/" ++ s) = some (before, s) :=
  cutLast_append before h

theorem afterLast_of_not_mem (h : sep ∉ s.toList) : afterLast sep s = s := by
  rw [afterLast, cutLast_of_not_mem h]

end

theorem cutLast_cases (sep : Char) (text : String) :
    (∃ head tail, text = head ++ String.singleton sep ++ tail ∧ sep ∉ tail.toList ∧
      cutLast sep text = some (head, tail)) ∨
    sep ∉ text.toList ∧ cutLast sep text = none := by
  by_cases h : sep ∈ text.toList
  · -- The last separator is the first one from behind.
    obtain ⟨after, before, hcut, hafter⟩ := List.eq_append_cons_of_mem (List.mem_reverse.mpr h)
    have htext : text = String.ofList before.reverse ++ String.singleton sep ++ String.ofList after.reverse := by
      rw [← String.toList_inj, ← List.reverse_reverse text.toList, hcut]
      simp
    have hlast : sep ∉ (String.ofList after.reverse).toList := by simpa using hafter
    exact .inl ⟨_, _, htext, hlast, htext ▸ cutLast_append _ hlast⟩
  · exact .inr ⟨h, cutLast_of_not_mem h⟩

theorem afterLast_append_slash (a b : String) : afterLast '/' (a ++ "/" ++ b) = afterLast '/' b := by
  rcases cutLast_cases '/' b with ⟨head, tail, hb, htail, hcut⟩ | ⟨hnone, hcut⟩
  · have hcut' : cutLast '/' (a ++ "/" ++ b) = some (a ++ "/" ++ head, tail) := by
      rw [hb, ← String.append_assoc, ← String.append_assoc]
      exact cutLast_append _ htail
    rw [afterLast, afterLast, hcut, hcut']
  · rw [afterLast, afterLast, hcut, cutLast_append_slash a hnone]

/-- What follows the last separator is the last piece. -/
theorem split_eq_concat (sep : Char) (s : String) : ∃ front, split sep s = front ++ [afterLast sep s] := by
  rcases cutLast_cases sep s with ⟨head, tail, hs, htail, hcut⟩ | ⟨hnone, hcut⟩
  · refine ⟨split sep head, ?_⟩
    rw [afterLast, hcut, split, hs]
    simp [split, splitChars_append_cons, splitChars_of_not_mem htail]
  · exact ⟨[], by rw [afterLast_of_not_mem hnone, split_of_not_mem hnone, List.nil_append]⟩

/-! ### Starts, ends and parts -/

theorem dropStart?_append (start rest : List Char) : dropStart? start (start ++ rest) = some rest := by
  induction start with
  | nil => rfl
  | cons p ps ih => rw [List.cons_append, dropStart?, if_pos rfl, ih]

theorem dropStart?_isSome {start cs : List Char} : (dropStart? start cs).isSome ↔ start <+: cs := by
  induction start generalizing cs with
  | nil => simp [dropStart?]
  | cons p ps ih =>
    cases cs with
    | nil => simp [dropStart?]
    | cons c cs =>
      rw [dropStart?, List.cons_prefix_cons]
      by_cases hpc : p = c <;> simp [hpc, ih]

theorem occursIn_iff {part cs : List Char} : occursIn part cs = true ↔ part <:+: cs := by
  induction cs with
  | nil => simp [occursIn]
  | cons c cs ih => rw [occursIn, Bool.or_eq_true, dropStart?_isSome, ih, List.infix_cons_iff]

section
variable {start stop part s : String}

theorem hasStart_iff : hasStart start s = true ↔ start.toList <+: s.toList := dropStart?_isSome

theorem hasEnd_iff : hasEnd stop s = true ↔ stop.toList <:+ s.toList := by
  rw [hasEnd, dropStart?_isSome, List.reverse_prefix]

theorem hasPart_iff : hasPart part s = true ↔ part.toList <:+: s.toList := occursIn_iff

theorem exists_of_hasStart : hasStart start s = true ↔ ∃ rest, s = start ++ rest := by
  rw [hasStart_iff]
  constructor
  · rintro ⟨rest, hrest⟩
    exact ⟨String.ofList rest, String.toList_injective (by simp [hrest])⟩
  · rintro ⟨rest, rfl⟩
    exact ⟨rest.toList, by simp⟩

theorem exists_of_hasEnd : hasEnd stop s = true ↔ ∃ before, s = before ++ stop := by
  rw [hasEnd_iff]
  constructor
  · rintro ⟨before, hbefore⟩
    exact ⟨String.ofList before, String.toList_injective (by simp [← hbefore])⟩
  · rintro ⟨before, rfl⟩
    exact ⟨before.toList, by simp⟩

theorem exists_of_hasPart : hasPart part s = true ↔ ∃ before after, s = before ++ part ++ after := by
  rw [hasPart_iff]
  constructor
  · rintro ⟨before, after, hs⟩
    exact ⟨String.ofList before, String.ofList after, String.toList_injective (by simp [← hs])⟩
  · rintro ⟨before, after, rfl⟩
    exact ⟨before.toList, after.toList, by simp⟩

/-- What a text ends in behind a slash is its last piece, and not its only one. -/
theorem split_of_hasEnd {piece : String} (h : '/' ∉ piece.toList) (hend : hasEnd ("/" ++ piece) s = true) :
    ∃ front, front ≠ [] ∧ split '/' s = front ++ [piece] := by
  obtain ⟨before, rfl⟩ := exists_of_hasEnd.mp hend
  exact ⟨split '/' before, split_ne_nil '/' before, by
    rw [← String.append_assoc, split_append_slash, split_of_not_mem h]⟩

end
end SymbolGraph.Text
