import Mathlib.Data.Set.Card
import Mathlib.Data.Set.Finite.Lattice
import Mathlib.Order.Interval.Finset.Nat
import SymbolGraph.Proofs.Enclosing

/-! The damaged part of a tree. It is measured with a stack of nodes that are still to be looked at: a node that could
    not be parsed counts with all its bytes and is not gone into, and neither is a node that is marked as free of
    errors. The count is the number of bytes that lie under any node that could not be parsed. -/

namespace SymbolGraph.Tree

/-! ### Measuring with a stack -/

/-- How far the measuring has come. -/
structure Survey where
  /-- The nodes that are still to be looked at, the next one first. -/
  waiting : List Node
  /-- The bytes counted so far. -/
  counted : Nat

namespace Survey

/-- Looks at the next node, if there is one. Its children come before what was waiting, the last one first. -/
def step? : Survey → Option Survey
  | ⟨[], _⟩ => none
  | ⟨.mk label children :: waiting, counted⟩ =>
    if label.isError then some ⟨waiting, counted + label.span.length⟩
    else if label.hasError then some ⟨children.reverse ++ waiting, counted⟩
    else some ⟨waiting, counted⟩

/-- Step by step, no node is left and so many bytes are counted. -/
inductive Ends : Survey → Nat → Prop
  | done {s : Survey} (h : s.step? = none) : Ends s s.counted
  | step {s s' : Survey} {total : Nat} (h : s.step? = some s') (rest : Ends s' total) : Ends s total

variable {s : Survey} {waiting ns : List Node} {counted total total' : Nat}

theorem Ends.unique (h : s.Ends total) (h' : s.Ends total') : total = total' := by
  induction h with
  | done hnone =>
    cases h' with
    | done => rfl
    | step hsome => exact nomatch hnone.symm.trans hsome
  | step hsome _ ih =>
    cases h' with
    | done hnone => exact nomatch hnone.symm.trans hsome
    | step hsome' rest' =>
      obtain rfl := Option.some.inj (hsome.symm.trans hsome')
      exact ih rest'

/-- Siblings are counted one after the other if each of them is. -/
theorem ends_siblings
    (hns : ∀ n ∈ ns, ∀ waiting counted,
      Ends ⟨waiting, counted + n.errorBytes⟩ total → Ends ⟨n :: waiting, counted⟩ total)
    (h : Ends ⟨waiting, counted + Node.errorBytesAll ns⟩ total) : Ends ⟨ns.reverse ++ waiting, counted⟩ total := by
  induction ns generalizing waiting with
  | nil => exact h
  | cons n ns ih =>
    rw [List.reverse_cons, List.append_assoc, List.singleton_append]
    refine ih (fun m hm => hns m (List.mem_cons_of_mem n hm)) (hns n List.mem_cons_self _ _ ?_)
    rwa [Nat.add_assoc, Nat.add_comm (Node.errorBytesAll ns), ← Node.errorBytesAll]

/-- A node that waits first adds its damaged bytes, and then the rest is counted. -/
theorem ends_node : ∀ (n : Node) (waiting : List Node) (counted : Nat),
    Ends ⟨waiting, counted + n.errorBytes⟩ total → Ends ⟨n :: waiting, counted⟩ total := by
  refine Node.induct fun label children ih waiting counted h => ?_
  rw [Node.errorBytes] at h
  by_cases herror : label.isError = true
  · rw [if_pos herror] at h
    exact .step (if_pos herror) h
  · rw [if_neg herror] at h
    by_cases hmarked : label.hasError = true
    · rw [if_pos hmarked] at h
      have hstep : step? ⟨.mk label children :: waiting, counted⟩ = some ⟨children.reverse ++ waiting, counted⟩ := by
        rw [step?, if_neg herror, if_pos hmarked]
      exact .step hstep (ends_siblings ih h)
    · rw [if_neg hmarked] at h
      have hstep : step? ⟨.mk label children :: waiting, counted⟩ = some ⟨waiting, counted⟩ := by
        rw [step?, if_neg herror, if_neg hmarked]
      exact .step hstep h

theorem ends_root (root : Node) : Ends ⟨[root], 0⟩ total ↔ total = root.errorBytes := by
  have hdone : Ends ⟨[], root.errorBytes⟩ root.errorBytes := .done rfl
  have hends : Ends ⟨[root], 0⟩ root.errorBytes := ends_node root [] 0 (by simpa using hdone)
  constructor
  · intro h
    exact h.unique hends
  · rintro rfl
    exact hends

end Survey

/-! ### Damaged bytes -/

namespace Node

/-- The other node is this one or lies below it. -/
inductive Has : Node → Node → Prop
  | here (n : Node) : Has n n
  | under {n c m : Node} (hc : c ∈ n.children) (h : Has c m) : Has n m

/-- The offsets of the bytes under the nodes that could not be parsed. -/
def damaged (root : Node) : Set Nat :=
  {b | ∃ n, root.Has n ∧ n.label.isError = true ∧ n.span.start ≤ b ∧ b < n.span.stop}

/-- A node is marked exactly if it is or holds one that could not be parsed or is missing. -/
def Marked (missing : Node → Prop) (root : Node) : Prop :=
  ∀ n, root.Has n → (n.label.hasError = true ↔ ∃ m, n.Has m ∧ (m.label.isError = true ∨ missing m))

variable {missing : Node → Prop} {n m c : Node} {ns : List Node} {label : Label} {children : List Node}

theorem has_mk : (mk label children).Has m ↔ m = mk label children ∨ ∃ c ∈ children, c.Has m := by
  constructor
  · intro h
    cases h with
    | here => exact .inl rfl
    | under hc h => exact .inr ⟨_, hc, h⟩
  · rintro (rfl | ⟨c, hc, h⟩)
    · exact .here _
    · exact .under hc h

theorem Marked.child (h : n.Marked missing) (hc : c ∈ n.children) : c.Marked missing :=
  fun m hm => h m (.under hc hm)

theorem Nested.inside_of_has (h : n.Nested) (hm : n.Has m) : n.span.contains m.span = true := by
  induction hm with
  | here => exact Span.contains_refl _
  | under hc _ ih => exact Span.contains_trans (h.inside hc) (ih (h.child hc))

theorem damaged_subset (h : n.Nested) : n.damaged ⊆ Set.Ico n.span.start n.span.stop := by
  rintro b ⟨m, hm, -, hstart, hstop⟩
  have hinside := Span.contains_iff.mp (h.inside_of_has hm)
  exact ⟨by omega, by omega⟩

theorem finite_damaged (h : n.Nested) : n.damaged.Finite := (Set.finite_Ico _ _).subset (damaged_subset h)

/-- Errors in an error add nothing to it. -/
theorem damaged_of_error (h : n.Nested) (herror : n.label.isError = true) :
    n.damaged = Set.Ico n.span.start n.span.stop :=
  (damaged_subset h).antisymm fun _ hb => ⟨n, .here n, herror, hb⟩

/-- There is no error below a node that is not marked. -/
theorem damaged_of_unmarked (h : n.Marked missing) (hclean : ¬ n.label.hasError = true) : n.damaged = ∅ := by
  refine Set.eq_empty_of_forall_notMem ?_
  rintro b ⟨m, hm, herror, -⟩
  exact hclean ((h n (.here n)).mpr ⟨m, hm, .inl herror⟩)

theorem damaged_mk (herror : ¬ label.isError = true) :
    (mk label children).damaged = {b | ∃ c ∈ children, b ∈ c.damaged} := by
  ext b
  constructor
  · rintro ⟨m, hm, hm_error, hb⟩
    rcases has_mk.mp hm with rfl | ⟨c, hc, hcm⟩
    · exact absurd hm_error herror
    · exact ⟨c, hc, m, hcm, hm_error, hb⟩
  · rintro ⟨c, hc, m, hm, hb⟩
    exact ⟨m, .under hc hm, hb⟩

/-- Siblings share no byte, so their damaged bytes add up. -/
theorem errorBytesAll_eq (hordered : ns.Pairwise fun a b => a.span.stop ≤ b.span.start) (hnested : ∀ c ∈ ns, c.Nested)
    (hbytes : ∀ c ∈ ns, c.errorBytes = c.damaged.ncard) :
    errorBytesAll ns = {b | ∃ c ∈ ns, b ∈ c.damaged}.ncard := by
  induction ns with
  | nil => simp [errorBytesAll]
  | cons n ns ih =>
    obtain ⟨hfirst, hordered⟩ := List.pairwise_cons.mp hordered
    obtain ⟨hn, hns⟩ := List.forall_mem_cons.mp hnested
    obtain ⟨hnbytes, hnsbytes⟩ := List.forall_mem_cons.mp hbytes
    have hsplit : {b | ∃ c ∈ n :: ns, b ∈ c.damaged} = n.damaged ∪ {b | ∃ c ∈ ns, b ∈ c.damaged} := by
      ext b
      simp
    have hapart : Disjoint n.damaged {b | ∃ c ∈ ns, b ∈ c.damaged} := by
      refine Set.disjoint_left.mpr ?_
      rintro b hb ⟨c, hc, hcb⟩
      have hbefore : b < n.span.stop := (damaged_subset hn hb).2
      have hbehind : c.span.start ≤ b := (damaged_subset (hns c hc) hcb).1
      exact absurd (hfirst c hc) (by omega)
    have hfinite : {b | ∃ c ∈ ns, b ∈ c.damaged}.Finite := by
      have hunion : {b | ∃ c ∈ ns, b ∈ c.damaged} = ⋃ c ∈ {c | c ∈ ns}, c.damaged := by
        ext b
        simp
      rw [hunion]
      exact Set.Finite.biUnion ns.finite_toSet fun c hc => finite_damaged (hns c hc)
    rw [errorBytesAll, hnbytes, ih hordered hns hnsbytes, hsplit, Set.ncard_union_eq hapart (finite_damaged hn) hfinite]

theorem errorBytes_eq : ∀ n : Node, n.Nested → n.Marked missing → n.errorBytes = n.damaged.ncard := by
  refine Node.induct fun label children ih hnested hmarked => ?_
  rw [errorBytes]
  split
  · next herror =>
    rw [damaged_of_error hnested herror, ← Finset.coe_Ico, Set.ncard_coe_finset, Nat.card_Ico]
    rfl
  · next herror =>
    split
    · next =>
      rw [damaged_mk herror]
      exact errorBytesAll_eq hnested.ordered (fun c hc => hnested.child hc)
        fun c hc => ih c hc (hnested.child hc) (hmarked.child hc)
    · next hclean => rw [damaged_of_unmarked hmarked hclean, Set.ncard_empty]

end Node

/-- Where the ranges of a tree lie in one another and its marks are right, the measuring ends, and what it counts is the
    number of bytes under the nodes that could not be parsed: a byte under several of them counts once, and none is
    left out. These bytes lie in the range of the tree, and they decide whether most of a text is errors. -/
theorem damage_counted_once {missing : Node → Prop} {root : Node} (hnested : root.Nested)
    (hmarked : root.Marked missing) :
    (∀ total, Survey.Ends ⟨[root], 0⟩ total ↔ total = root.damaged.ncard) ∧ root.errorBytes = root.damaged.ncard ∧
      root.damaged ⊆ Set.Ico root.span.start root.span.stop ∧ root.damaged.ncard ≤ root.span.length ∧
      ∀ source, Extraction.mostlyErrors source root = true ↔ source.utf8ByteSize < 2 * root.damaged.ncard := by
  have hbytes : root.errorBytes = root.damaged.ncard := Node.errorBytes_eq root hnested hmarked
  have hsubset := Node.damaged_subset hnested
  refine ⟨fun total => ?_, hbytes, hsubset, ?_, fun source => ?_⟩
  · rw [Survey.ends_root, hbytes]
  · calc root.damaged.ncard ≤ (Set.Ico root.span.start root.span.stop).ncard :=
          Set.ncard_le_ncard hsubset (Set.finite_Ico _ _)
      _ = root.span.length := by rw [← Finset.coe_Ico, Set.ncard_coe_finset, Nat.card_Ico]; rfl
  · rw [Extraction.mostlyErrors, Bool.and_eq_true, decide_eq_true_iff, hbytes, Nat.mul_comm]
    refine ⟨fun h => h.2, fun h => ⟨?_, h⟩⟩
    -- A tree that is not marked has no damaged bytes.
    by_contra hclean
    rw [Node.damaged_of_unmarked hmarked hclean, Set.ncard_empty] at h
    exact Nat.not_lt_zero _ h

/-- A tree of twelve bytes: an error with another one in it, a statement that misses its end, a sound one and an
    error. -/
def damagedTree : Node :=
  .mk { kind := "program", span := ⟨0, 12⟩, hasError := true }
    [.mk { kind := "ERROR", span := ⟨0, 6⟩, isError := true, hasError := true }
      [.mk { kind := "ERROR", span := ⟨2, 4⟩, isError := true, hasError := true } []],
     .mk { kind := "statement", span := ⟨6, 8⟩, hasError := true }
      [.mk { kind := ";", span := ⟨8, 8⟩, hasError := true } []],
     .mk { kind := "statement", span := ⟨8, 10⟩ } [],
     .mk { kind := "ERROR", span := ⟨10, 12⟩, isError := true, hasError := true } []]

/-- The error in the other one does not count again, and the missing end has no bytes. -/
theorem nested_error_counted_once : damagedTree.Nested ∧ damagedTree.Marked (fun n => n.kind = ";") ∧
    Survey.Ends ⟨[damagedTree], 0⟩ 8 ∧ damagedTree.damaged.ncard = 8 ∧
    Extraction.mostlyErrors "f( \x7b\x7b a;b ]]" damagedTree = true := by
  have hleaf : ∀ label, Node.Nested (.mk label []) := fun _ => .mk nofun .nil nofun
  have hnested : damagedTree.Nested := by
    refine .mk (by decide) (by decide) ?_
    simp only [List.forall_mem_cons]
    refine ⟨.mk (by decide) (by decide) ?_, .mk (by decide) (by decide) ?_, hleaf _, hleaf _, nofun⟩
    · exact List.forall_mem_singleton.mpr (hleaf _)
    · exact List.forall_mem_singleton.mpr (hleaf _)
  have hmarked : damagedTree.Marked fun n => n.kind = ";" := by
    intro n hn
    simp only [damagedTree, Node.has_mk, List.mem_cons, List.not_mem_nil, or_false, exists_eq_or_imp, exists_eq_left,
      exists_false, false_and] at hn
    rcases hn with rfl | (rfl | rfl) | (rfl | rfl) | rfl | rfl
    all_goals simp [Node.has_mk, Node.label, Node.kind, or_and_right, exists_or]
  obtain ⟨hends, hbytes, -, -, hmostly⟩ := damage_counted_once hnested hmarked
  have hcount : damagedTree.damaged.ncard = 8 := hbytes.symm.trans (by decide)
  exact ⟨hnested, hmarked, (hends 8).mpr hcount.symm, hcount, (hmostly _).mpr (by rw [hcount]; decide)⟩

end SymbolGraph.Tree
