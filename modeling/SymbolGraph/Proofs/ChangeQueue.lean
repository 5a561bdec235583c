import Mathlib
import SymbolGraph.Index.Queue

/-! The queue of changes under any number of callers. A run is a list of moves: a caller pushes an
    element, a caller calls a drain, or a running drain takes its next atomic step. At most one drain is
    at work at a time, elements are taken and handled in the order in which they were pushed, and a run
    that has called a drain after every push and has no drain left that is still running has handled
    everything. -/

namespace SymbolGraph.Index

/-- Whether a drain in the phase holds the flag: it takes and handles elements, or is about to take the
    flag back. -/
def Phase.atWork {α : Type} : Phase α → Bool
  | take => true
  | handle _ => true
  | release => true
  | enter => false
  | check => false
  | enterAgain => false
  | done => false

/-- The element that a drain in the phase has taken and not yet handled. -/
def Phase.inHand? {α : Type} : Phase α → Option α
  | handle a => some a
  | _ => none

namespace ChangeQueue

/-- What happens next. -/
inductive Move (α : Type) where
  | push (a : α)
  /-- A drain is called. -/
  | call
  /-- The drain that was called as the `i`-th takes a step. -/
  | step (i : Nat)
  deriving Repr, DecidableEq

/-- The queue with all drains that were called, and what they have done so far. -/
structure System (α : Type) where
  shared : Shared α := {}
  /-- In the order in which they were called. -/
  drains : List (Drain α) := []
  /-- What was taken out of the queue, oldest first. -/
  taken : List α := []
  /-- What was handled, oldest first. -/
  handled : List α := []
  deriving Repr, BEq, DecidableEq

/-- The element that the drain takes out of the queue in its next step. -/
def takes? {α : Type} (d : Drain α) (s : Shared α) : Option α :=
  match d.phase with
  | .take => s.waiting.head?
  | _ => none

/-- The system after the drain at place `i` took a step. -/
def System.stepDrain {α : Type} (s : System α) (i : Nat) (d : Drain α) : System α where
  shared := (d.step s.shared).2
  drains := s.drains.set i (d.step s.shared).1
  taken := s.taken ++ (takes? d s.shared).toList
  handled := s.handled ++ d.phase.inHand?.toList

/-- The system after a move. A step of a drain that was not called is none. -/
def System.move {α : Type} (s : System α) : Move α → System α
  | .push a => { s with shared := s.shared.push a }
  | .call => { s with drains := s.drains ++ [{}] }
  | .step i =>
    match s.drains[i]? with
    | some d => s.stepDrain i d
    | none => s

/-- The system after the moves. -/
def run {α : Type} (moves : List (Move α)) : System α := moves.foldl System.move {}

/-- What the moves push, oldest first. -/
def pushes {α : Type} : List (Move α) → List α
  | [] => []
  | .push a :: rest => a :: pushes rest
  | .call :: rest => pushes rest
  | .step _ :: rest => pushes rest

/-- After every push a drain is called. -/
def Covered {α : Type} : List (Move α) → Prop
  | [] => True
  | .push _ :: rest => .call ∈ rest ∧ Covered rest
  | .call :: rest => Covered rest
  | .step _ :: rest => Covered rest

instance Covered.decidable {α : Type} [DecidableEq α] : (moves : List (Move α)) → Decidable (Covered moves)
  | [] => inferInstanceAs (Decidable True)
  | .push _ :: rest =>
    have : Decidable (Covered rest) := Covered.decidable rest
    inferInstanceAs (Decidable (.call ∈ rest ∧ Covered rest))
  | .call :: rest => Covered.decidable rest
  | .step _ :: rest => Covered.decidable rest

/-- No drain is running any more. -/
def System.Quiet {α : Type} (s : System α) : Prop := ∀ d ∈ s.drains, d.phase = .done

instance {α : Type} [DecidableEq α] (s : System α) : Decidable s.Quiet :=
  inferInstanceAs (Decidable (∀ d ∈ s.drains, d.phase = .done))

section
variable {α : Type} {s : System α} {d : Drain α} {moves : List (Move α)}

/-! ### Moves -/

theorem run_append (moves : List (Move α)) (m : Move α) : run (moves ++ [m]) = (run moves).move m := by
  simp [run]

theorem pushes_append (moves more : List (Move α)) : pushes (moves ++ more) = pushes moves ++ pushes more := by
  induction moves with
  | nil => rfl
  | cons m rest ih => cases m <;> simp [pushes, ih]

theorem not_covered_push (moves : List (Move α)) (a : α) : ¬Covered (moves ++ [.push a]) := by
  induction moves with
  | nil => simp [Covered]
  | cons m rest ih => cases m <;> simp [Covered, ih]

theorem Covered.of_step {i : Nat} (h : Covered (moves ++ [.step i])) : Covered moves := by
  induction moves with
  | nil => trivial
  | cons m rest ih =>
    cases m with
    | push a =>
      obtain ⟨hcall, hrest⟩ := h
      exact ⟨by simpa using hcall, ih hrest⟩
    | call => exact ih h
    | step j => exact ih h

/-! ### What every move keeps -/

/-- How many of the drains are at work. -/
def workers (drains : List (Drain α)) : Nat := drains.countP (·.phase.atWork)

/-- What the drains have in hand. -/
def inHand (drains : List (Drain α)) : List α := drains.filterMap (·.phase.inHand?)

/-- How many elements the drains have handled together. -/
def total (drains : List (Drain α)) : Nat := (drains.map (·.handled)).sum

theorem workers_split (before after : List (Drain α)) (d : Drain α) :
    workers (before ++ d :: after) = workers before + d.phase.atWork.toNat + workers after := by
  cases h : d.phase.atWork <;> simp [workers, h, Nat.add_assoc, Nat.add_comm 1]

theorem inHand_split (before after : List (Drain α)) (d : Drain α) :
    inHand (before ++ d :: after) = inHand before ++ d.phase.inHand?.toList ++ inHand after := by
  cases h : d.phase.inHand? <;> simp [inHand, h]

theorem total_split (before after : List (Drain α)) (d : Drain α) :
    total (before ++ d :: after) = total before + d.handled + total after := by
  simp [total, Nat.add_assoc]

theorem inHand_eq_nil {drains : List (Drain α)} (h : workers drains = 0) : inHand drains = [] := by
  simp only [inHand, List.filterMap_eq_nil_iff]
  intro d hd
  have hw := List.countP_eq_zero.mp h d hd
  cases hp : d.phase <;> simp_all [Phase.atWork, Phase.inHand?]

/-- The flag is set for the one drain that is at work; what was pushed was taken or waits, what was taken
    was handled or is in the hand of a drain, and the drains have counted what they handled. -/
structure Inv (pushed : List α) (s : System α) : Prop where
  owner : workers s.drains = s.shared.draining.toNat
  queue : s.taken ++ s.shared.waiting = pushed
  hand : s.handled ++ inHand s.drains = s.taken
  count : total s.drains = s.handled.length

/-- A drain at work is the only one, so the others have nothing in hand. -/
theorem Inv.alone {pushed : List α} (h : Inv pushed s) {before after : List (Drain α)}
    (hd : s.drains = before ++ d :: after) (hw : d.phase.atWork = true) :
    s.shared.draining = true ∧ workers before = 0 ∧ workers after = 0 := by
  have howner := h.owner
  rw [hd, workers_split, hw] at howner
  cases hflag : s.shared.draining
  · simp [hflag] at howner
  · simp only [hflag, Bool.toNat_true] at howner
    exact ⟨rfl, by omega, by omega⟩

theorem exists_split {drains : List (Drain α)} {i : Nat} (hd : drains[i]? = some d) :
    ∃ before after, drains = before ++ d :: after ∧ ∀ d', drains.set i d' = before ++ d' :: after := by
  obtain ⟨hi, hget⟩ := List.getElem?_eq_some_iff.mp hd
  refine ⟨drains.take i, drains.drop (i + 1), ?_, fun d' => ?_⟩
  · rw [← hget, List.getElem_cons_drop, List.take_append_drop]
  · rw [List.set_eq_take_append_cons_drop, if_pos hi]

/-- A step that takes and handles nothing keeps everything if the flag changes with the drain. -/
theorem Inv.of_quiet_step {pushed : List α} {t : System α} (h : Inv pushed s) {before after : List (Drain α)}
    {d' : Drain α} (hd : s.drains = before ++ d :: after) (ht : t.drains = before ++ d' :: after)
    (hflag : d'.phase.atWork.toNat + s.shared.draining.toNat = d.phase.atWork.toNat + t.shared.draining.toNat)
    (hwait : t.shared.waiting = s.shared.waiting) (htaken : t.taken = s.taken) (hhandled : t.handled = s.handled)
    (hhand : d'.phase.inHand? = d.phase.inHand?) (hcount : d'.handled = d.handled) : Inv pushed t where
  owner := by
    have := h.owner
    rw [hd, workers_split] at this
    rw [ht, workers_split]
    omega
  queue := by rw [htaken, hwait, h.queue]
  hand := by
    have := h.hand
    rw [hd, inHand_split] at this
    rw [ht, inHand_split, hhandled, htaken, hhand, this]
  count := by
    have := h.count
    rw [hd, total_split] at this
    rw [ht, total_split, hcount, hhandled, this]

/-- A step of a drain: what it takes comes from the front of the queue, and what it handles was in its
    hand. -/
theorem Inv.stepDrain {pushed : List α} (h : Inv pushed s) {i : Nat} (hd : s.drains[i]? = some d) :
    Inv pushed (s.stepDrain i d) := by
  obtain ⟨before, after, hsplit, hset⟩ := exists_split hd
  have alone := h.alone hsplit
  -- Elements move in two cases only: one leaves the queue, or one is handled. The others change the flag at most.
  have quiet := fun (t : System α) d' (ht : t.drains = before ++ d' :: after) => h.of_quiet_step hsplit ht
  obtain ⟨phase, n⟩ := d
  cases phase with
  | enter =>
    refine quiet _ _ (hset _) ?_ ?_ ?_ ?_ ?_ ?_ <;>
      cases hflag : s.shared.draining <;>
      simp [System.stepDrain, Drain.step, Drain.claim, takes?, Phase.inHand?, Phase.atWork, hflag]
  | take =>
    obtain ⟨hflag, hbefore, hafter⟩ := alone rfl
    cases hw : s.shared.waiting with
    | nil =>
      refine quiet _ _ (hset _) ?_ ?_ ?_ ?_ ?_ ?_ <;>
        simp [System.stepDrain, Drain.step, takes?, Phase.inHand?, Phase.atWork, hw]
    | cons a rest =>
      have hhand := h.hand
      rw [hsplit, inHand_split, inHand_eq_nil hbefore, inHand_eq_nil hafter] at hhand
      have hcount := h.count
      rw [hsplit, total_split] at hcount
      simp only [System.stepDrain, Drain.step, takes?, hw]
      refine ⟨?_, ?_, ?_, ?_⟩
      · simp [hset, workers_split, hbefore, hafter, hflag, Phase.atWork]
      · simp [← h.queue, hw]
      · simp [hset, inHand_split, inHand_eq_nil hbefore, inHand_eq_nil hafter, Phase.inHand?, ← hhand]
      · simp [hset, total_split, hcount, Phase.inHand?]
  | handle a =>
    obtain ⟨hflag, hbefore, hafter⟩ := alone rfl
    have hhand := h.hand
    rw [hsplit, inHand_split, inHand_eq_nil hbefore, inHand_eq_nil hafter] at hhand
    have hcount := h.count
    rw [hsplit, total_split] at hcount
    simp only [System.stepDrain, Drain.step, takes?]
    refine ⟨?_, ?_, ?_, ?_⟩
    · simp [hset, workers_split, hbefore, hafter, hflag, Phase.atWork]
    · simp [h.queue]
    · simpa [hset, inHand_split, inHand_eq_nil hbefore, inHand_eq_nil hafter, Phase.inHand?] using hhand
    · simp only [hset, total_split, Phase.inHand?, Option.toList_some, List.length_append, List.length_singleton]
      dsimp only at hcount
      omega
  | release =>
    obtain ⟨hflag, -, -⟩ := alone rfl
    refine quiet _ _ (hset _) ?_ ?_ ?_ ?_ ?_ ?_ <;>
      simp [System.stepDrain, Drain.step, takes?, Phase.inHand?, Phase.atWork, hflag]
  | check =>
    refine quiet _ _ (hset _) ?_ ?_ ?_ ?_ ?_ ?_ <;>
      cases hw : s.shared.waiting <;>
      simp [System.stepDrain, Drain.step, takes?, Phase.inHand?, Phase.atWork, hw]
  | enterAgain =>
    refine quiet _ _ (hset _) ?_ ?_ ?_ ?_ ?_ ?_ <;>
      cases hflag : s.shared.draining <;>
      simp [System.stepDrain, Drain.step, Drain.claim, takes?, Phase.inHand?, Phase.atWork, hflag]
  | done =>
    refine quiet _ _ (hset _) ?_ ?_ ?_ ?_ ?_ ?_ <;>
      simp [System.stepDrain, Drain.step, takes?, Phase.inHand?, Phase.atWork]

theorem Inv.push {pushed : List α} (h : Inv pushed s) (a : α) :
    Inv (pushed ++ [a]) { s with shared := s.shared.push a } :=
  ⟨h.owner, by simp [Shared.push, ← h.queue], h.hand, h.count⟩

theorem Inv.call {pushed : List α} (h : Inv pushed s) : Inv pushed { s with drains := s.drains ++ [{}] } where
  owner := by
    rw [workers_split]
    simpa [workers, Phase.atWork] using h.owner
  queue := h.queue
  hand := by
    rw [inHand_split]
    simpa [inHand, Phase.inHand?] using h.hand
  count := by
    rw [total_split]
    simpa [total] using h.count

theorem Inv.move {pushed : List α} (h : Inv pushed s) (m : Move α) : Inv (pushed ++ pushes [m]) (s.move m) := by
  cases m with
  | push a => exact h.push a
  | call =>
    rw [show pushes [Move.call] = ([] : List α) from rfl, List.append_nil]
    exact h.call
  | step i =>
    simp only [pushes, List.append_nil, System.move]
    cases hd : s.drains[i]? with
    | none => exact h
    | some d => exact h.stepDrain hd

theorem run_inv (moves : List (Move α)) : Inv (pushes moves) (run moves) := by
  induction moves using List.reverseRecOn with
  | nil => exact ⟨rfl, rfl, rfl, rfl⟩
  | append_singleton moves m ih =>
    rw [run_append, pushes_append]
    exact ih.move m

/-! ### Nothing is left behind -/

/-- A drain whose step ends it leaves nothing behind: the queue is empty, or the flag is set. -/
theorem step_done {d : Drain α} {s : Shared α} (hd : d.phase ≠ .done) (h : (d.step s).1.phase = .done) :
    (d.step s).2.waiting = [] ∨ (d.step s).2.draining = true ∧ d.phase.atWork = false := by
  obtain ⟨phase, n⟩ := d
  cases phase with
  | enter => cases hflag : s.draining <;> simp_all [Drain.step, Drain.claim, Phase.atWork]
  | take => cases hw : s.waiting <;> simp_all [Drain.step]
  | handle a => simp [Drain.step] at h
  | release => simp [Drain.step] at h
  | check => cases hw : s.waiting <;> simp_all [Drain.step]
  | enterAgain => cases hflag : s.draining <;> simp_all [Drain.step, Drain.claim, Phase.atWork]
  | done => exact absurd rfl hd

theorem Inv.running {pushed : List α} (h : Inv pushed s) (hflag : s.shared.draining = true) :
    ∃ d ∈ s.drains, d.phase ≠ .done := by
  have hpos : 0 < workers s.drains := by simp [h.owner, hflag]
  obtain ⟨d, hd, hw⟩ := List.countP_pos_iff.mp hpos
  refine ⟨d, hd, fun hdone => ?_⟩
  simp [hdone, Phase.atWork] at hw

/-- As long as something waits for which a drain was called, a drain is running. A drain ends only where
    nothing waits or another one holds the flag. -/
theorem running_of_waiting (hc : Covered moves) (hw : (run moves).shared.waiting ≠ []) :
    ∃ d ∈ (run moves).drains, d.phase ≠ .done := by
  induction moves using List.reverseRecOn with
  | nil => exact absurd rfl hw
  | append_singleton moves m ih =>
    cases m with
    | push a => exact absurd hc (not_covered_push moves a)
    | call =>
      rw [run_append]
      exact ⟨{}, by simp [System.move], by simp⟩
    | step i =>
      have inv := run_inv (moves ++ [.step i])
      rw [run_append] at hw inv ⊢
      cases hd : (run moves).drains[i]? with
      | none =>
        simp only [System.move, hd] at hw ⊢
        exact ih hc.of_step hw
      | some d =>
        obtain ⟨before, after, hsplit, hset⟩ := exists_split hd
        simp only [System.move, hd] at hw inv ⊢
        by_cases hend : (d.step (run moves).shared).1.phase = .done
        · by_cases hdone : d.phase = .done
          · -- A drain that has ended does nothing more, so the drain that was running still is.
            have hsame : d.step (run moves).shared = (d, (run moves).shared) := by simp [Drain.step, hdone]
            have := ih hc.of_step (by simpa [System.stepDrain, hsame] using hw)
            simpa [System.stepDrain, hsame, hset, ← hsplit] using this
          · rcases step_done hdone hend with hnil | ⟨hflag, -⟩
            · exact absurd hnil hw
            · -- It gave up because of another drain, which holds the flag.
              exact inv.running hflag
        · exact ⟨(d.step (run moves).shared).1, by simp [System.stepDrain, hset], hend⟩

/-- Whatever the callers do and however their steps interleave: at most one drain is at work, and what was
    taken from the queue, and what of it was handled, is the beginning of what was pushed, in that order.
    When a drain was called after every push and none is running any more, nothing waits, everything that
    was pushed was handled, the flag is down, and the counts of the drains add up to what was handled. -/
theorem drains_exclusive_in_order_complete (moves : List (Move α)) :
    ((run moves).drains.countP (·.phase.atWork) ≤ 1 ∧
      (run moves).taken ++ (run moves).shared.waiting = pushes moves ∧
      (run moves).handled <+: (run moves).taken) ∧
    (Covered moves → (run moves).Quiet →
      (run moves).shared.waiting = [] ∧ (run moves).handled = pushes moves ∧
      (run moves).shared.draining = false ∧
      ((run moves).drains.map (·.handled)).sum = (run moves).handled.length) := by
  have inv := run_inv moves
  refine ⟨⟨?_, inv.queue, ⟨_, inv.hand⟩⟩, fun hc hq => ?_⟩
  · exact (congrArg (· ≤ 1) inv.owner).mpr (Bool.toNat_le _)
  · have hwait : (run moves).shared.waiting = [] := by
      by_contra hw
      obtain ⟨d, hd, hrun⟩ := running_of_waiting hc hw
      exact hrun (hq d hd)
    have hflag : (run moves).shared.draining = false := by
      by_contra hflag
      obtain ⟨d, hd, hrun⟩ := inv.running (by simpa using hflag)
      exact hrun (hq d hd)
    have hidle : workers (run moves).drains = 0 := by rw [inv.owner, hflag]; rfl
    have hhand := inv.hand
    rw [inHand_eq_nil hidle, List.append_nil] at hhand
    have hqueue := inv.queue
    rw [hwait, List.append_nil] at hqueue
    exact ⟨hwait, hhand.trans hqueue, hflag, inv.count⟩

end

/-- The first drain finds the queue empty; before it takes the flag back, 2 is pushed and a further drain
    comes and leaves at once. The first drain looks again and handles 2. -/
def latePush : List (Move Nat) :=
  [.push 1, .call, .step 0, .step 0, .call, .step 1, .step 0, .step 0, .push 2, .call, .step 2, .step 0,
    .step 0, .step 0, .step 0, .step 0, .step 0, .step 0, .step 0]

theorem latePush_handled : Covered latePush ∧ (run latePush).Quiet ∧ (run latePush).handled = [1, 2] :=
  ⟨by decide, by decide,
    ((drains_exclusive_in_order_complete latePush).2 (by decide) (by decide)).2.1⟩

end ChangeQueue
end SymbolGraph.Index
