import SymbolGraph.Proofs.Spellings

/-! A name below an absolute path. However the path is spelled, giving it a name adds one component, and of
    the paths on the way to the name its own is the last. -/

namespace SymbolGraph

open Text

namespace Path

variable {root n : String}

/-! ### A name below a path -/

section
variable (habs : isAbsolute root) (hn : Proper n)
include habs hn

theorem append_name :
    isAbsolute (append root n) = true ∧ components (append root n) = components root ++ [.name n] := by
  have happend := @components_append root [n] habs (by simp) (by simpa using hn)
  rwa [join_singleton] at happend

/-- Below a path stands its text, a slash and the name; a slash at the end of the path is not doubled. -/
theorem append_eq : ∃ base, append root n = base ++ "/" ++ n ∧ (root = base ∨ root = base ++ "/") := by
  have hrelative : isAbsolute n = false := by
    simpa using @isAbsolute_join [n] (by simp) (by simpa using hn.toPlain)
  have hsome : root.isEmpty = false := by
    rw [Bool.eq_false_iff, ne_eq, String.isEmpty_iff]
    rintro rfl
    cases habs
  rw [append, hrelative, hsome]
  simp only [Bool.or_self, Bool.false_eq_true, if_false]
  split
  · next hend =>
    obtain ⟨base, hroot⟩ := exists_of_hasEnd.mp hend
    exact ⟨base, by rw [hroot], .inr hroot⟩
  · exact ⟨root, rfl, .inl rfl⟩

theorem split_append : ∃ segments, split '/' (append root n) = segments ++ [n] := by
  obtain ⟨base, happend, -⟩ := append_eq habs hn
  exact ⟨split '/' base, by rw [happend, split_append_slash, split_of_not_mem hn.no_slash]⟩

/-- Of the paths on the way to a name below a path, its own is the last. -/
theorem prefixes_append : ∃ above, (prefixes (append root n)).reverse = append root n :: above := by
  have hlast : ∀ (segments : List String) (before : String), ∃ shorter,
      prefixesAfter before (segments ++ [n]) = shorter ++ [before ++ "/" ++ join '/' (segments ++ [n])] := by
    intro segments
    induction segments with
    | nil => intro before; exact ⟨[], by simp [prefixesAfter, hn.ofSegment?]⟩
    | cons s more ih =>
      intro before
      obtain ⟨shorter, hshorter⟩ := ih (before ++ "/" ++ s)
      have htext : before ++ "/" ++ join '/' (s :: (more ++ [n])) = before ++ "/" ++ s ++ "/" ++ join '/' (more ++ [n]) := by
        rw [join_cons s (by simp)]
        simp [String.append_assoc]
      rw [List.cons_append, prefixesAfter, hshorter, htext]
      split
      · exact ⟨_ :: shorter, rfl⟩
      · exact ⟨shorter, rfl⟩
  obtain ⟨segments, hsplit⟩ := split_append habs hn
  obtain ⟨path, hpath⟩ := exists_of_hasStart.mp (append_name habs hn).1
  -- An absolute path is cut into nothing, which stands before its first slash, and the segments after it.
  have hroot : split '/' (append root n) = "" :: split '/' path := by rw [hpath, split_leading_slash]
  cases segments with
  | nil =>
    rw [hroot, List.nil_append, List.cons.injEq] at hsplit
    exact absurd hsplit.1.symm hn.some_text
  | cons s more =>
    rw [hroot, List.cons_append, List.cons.injEq] at hsplit
    obtain ⟨shorter, hshorter⟩ := hlast more ""
    refine ⟨("/" :: shorter).reverse, ?_⟩
    rw [prefixes, hroot, List.drop_one, List.tail_cons, hsplit.2, hshorter, ← hsplit.2, join_split, String.empty_append,
      ← hpath, ← List.cons_append]
    exact List.reverse_append

end

end Path

end SymbolGraph
