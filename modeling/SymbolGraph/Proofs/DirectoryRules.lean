import SymbolGraph.Ignore.Rules
import SymbolGraph.Proofs.Pieces

/-! Rules for directories. Such a rule leaves out a path exactly if the components of the directory stand one after the
    other among those of the path that name directories, which are all but the last. A directory with one component is
    looked for among them, any other one in the text of the path, at its start or behind a slash, and before a slash.
    Both find the same: a text between slashes is made of whole components, empty ones as well. -/

namespace SymbolGraph

namespace Text

variable {dir path : String}

/-- All pieces but the last, where the text is cut behind a slash. -/
theorem dropLast_split (a b : String) : (split '/' (a ++ "/" ++ b)).dropLast = split '/' a ++ (split '/' b).dropLast := by
  rw [split_append_slash, List.dropLast_append_of_ne_nil (split_ne_nil '/' b)]

/-- The pieces of a text stand one after the other among those of another one, before its last piece, exactly if the
    text itself stands in the other one before a slash, and either at the start or behind a slash. -/
theorem split_infix_iff : split '/' dir <:+: (split '/' path).dropLast ↔
    (∃ rest, path = dir ++ "/" ++ rest) ∨ ∃ before rest, path = before ++ "/" ++ dir ++ "/" ++ rest := by
  constructor
  · rintro ⟨before, after, hblock⟩
    obtain ⟨front, hcut⟩ := split_eq_concat '/' path
    rw [hcut, List.dropLast_concat] at hblock
    have hrest : join '/' (split '/' dir ++ (after ++ [afterLast '/' path])) =
        dir ++ "/" ++ join '/' (after ++ [afterLast '/' path]) := by
      rw [join_append (split_ne_nil '/' dir) (by simp), join_split]
    -- Joined again, the block makes up the text, and what is before and behind it the rest of the path.
    have hpath : path = join '/' (before ++ (split '/' dir ++ (after ++ [afterLast '/' path]))) := by
      rw [← List.append_assoc, ← List.append_assoc, hblock, ← hcut, join_split]
    by_cases hbefore : before = []
    · rw [hbefore, List.nil_append, hrest] at hpath
      exact .inl ⟨_, hpath⟩
    · rw [join_append hbefore (by simp), hrest, ← String.append_assoc, ← String.append_assoc] at hpath
      exact .inr ⟨_, _, hpath⟩
  · rintro (⟨rest, rfl⟩ | ⟨before, rest, rfl⟩)
    · rw [dropLast_split]
      exact (List.prefix_append _ _).isInfix
    · rw [dropLast_split, split_append_slash]
      exact List.infix_append _ _ _

end Text

namespace Ignore

open Text

/-! ### The two ways to look for a directory -/

/-- In the text of the path. This way does for a directory with one component, too. -/
theorem searched_iff (dir path : String) : (hasStart (dir ++ "/") path || hasPart ("/" ++ dir ++ "/") path) = true ↔
    split '/' dir <:+: (split '/' path).dropLast := by
  rw [Bool.or_eq_true, exists_of_hasStart, exists_of_hasPart, split_infix_iff]
  simp only [String.append_assoc]

/-- Among the components of the path. A directory without a slash is a component of its own. -/
theorem contained_iff {dir : String} (h : '/' ∉ dir.toList) (path : String) :
    (split '/' path).dropLast.contains dir = true ↔ split '/' dir <:+: (split '/' path).dropLast := by
  rw [List.contains_iff_mem, split_of_not_mem h, List.singleton_infix_iff]

/-- A rule for a directory leaves out the paths in which its components stand one after the other before the last
    component, and no others. Without a text it leaves out nothing. -/
theorem directory_matched_by_components (dir path : String) :
    Rule.inDirectory dir path = true ↔ dir ≠ "" ∧ split '/' dir <:+: (split '/' path).dropLast := by
  unfold Rule.inDirectory
  split_ifs with hempty hslash
  · simp [String.isEmpty_iff.mp hempty]
  · rw [searched_iff]
    exact (and_iff_right (mt String.isEmpty_iff.mpr hempty)).symm
  · rw [contained_iff (by simpa using hslash)]
    exact (and_iff_right (mt String.isEmpty_iff.mpr hempty)).symm

/-- Neither a part of a component nor the last component counts, and empty components do. -/
example :
    Rule.inDirectory "src/gen" "pkg/src/gen/api.ts" = true ∧ Rule.inDirectory "src/gen" "pkg/xsrc/gen/api.ts" = false ∧
      Rule.inDirectory "src/gen" "pkg/src/gen" = false ∧ Rule.inDirectory "src//gen" "src//gen/" = true := by
  decide +kernel

end Ignore
end SymbolGraph
