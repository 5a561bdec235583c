import SymbolGraph.Proofs.Action

/-! The moments of an action. An action that reaches the store through calls only is cut off after `n` calls by a
    gate that refuses every later one: from then on nothing changes in the store, so what the cut action leaves is
    the store as it was after the first `n` calls. The moments of two actions one after the other are those of the
    first followed by those of the second; so what each call does from one moment to the next can be shown call by
    call. -/

namespace SymbolGraph.Index

open Fallible

/-- The first `n` calls pass as before, and every other is refused. -/
def Gate.first (n : Nat) (g : Gate) : Gate := fun k call => if k < n then g k call else some (.database .cannotOpen)

/-- The session in which nothing is answered after the first `n` calls. -/
def Session.cut (s : Session) (n : Nat) : Session := { s with gate := s.gate.first n }

/-- The store after the first `n` calls, where the action starts in the session. -/
def Action.storeAt {α : Type} (x : Action α) (s : Session) (n : Nat) : Store := (x (s.cut n)).2.store

/-- It changes neither the store nor the gate nor the number of calls, and does not depend on the gate. -/
structure Aside (f : Session → Session) : Prop where
  store : ∀ s, (f s).store = s.store
  calls : ∀ s, (f s).calls = s.calls
  gate : ∀ s g, f { s with gate := g } = { f s with gate := g }

theorem Aside.gate_eq {f : Session → Session} (hf : Aside f) (s : Session) : (f s).gate = s.gate := by
  have h : (f { s with gate := s.gate }).gate = s.gate := by rw [hf.gate]
  exact h

theorem Aside.cut {f : Session → Session} (hf : Aside f) (s : Session) (n : Nat) : f (s.cut n) = (f s).cut n := by
  rw [Session.cut, Session.cut, hf.gate_eq]
  exact hf.gate s _

/-- The action reaches the store through calls only, and those that change it do what the relation says. -/
inductive Scripted (r : Store → Store → Prop) : {α : Type} → Action α → Prop where
  | pure {α : Type} (a : α) : Scripted r (Pure.pure a : Action α)
  | throw {α : Type} (e : Error) : Scripted r (MonadExcept.throw e : Action α)
  | bind {α β : Type} {x : Action α} {f : α → Action β} (hx : Scripted r x) (hf : ∀ a, Scripted r (f a)) :
      Scripted r (x >>= f)
  | attempt {α : Type} {x : Action α} (hx : Scripted r x) : Scripted r (Action.attempt x)
  | read {α : Type} {f : Session → Action α} (hf : ∀ s, Scripted r (f s)) (hg : ∀ s g, f { s with gate := g } = f s) :
      Scripted r (fun s => f s s)
  | aside {f : Session → Session} (hf : Aside f) : Scripted r (modify f : Action Unit)
  | query {α : Type} (call : Call) (f : Store → Except StoreError α) : Scripted r (Action.query call f)
  | change {call : Call} {f : Store → Except StoreError Store} (hf : ∀ st st', f st = .ok st' → r st st') :
      Scripted r (Action.change call f)

/-- No further call passes the gate. -/
def Session.Shut (s : Session) : Prop := ∀ k call, s.calls ≤ k → ∃ e, s.gate k call = some e

namespace Session
variable {s : Session} {n : Nat}

theorem cut_shut (h : n ≤ s.calls) : (s.cut n).Shut := fun _ _ hk =>
  ⟨.database .cannotOpen, if_neg (Nat.not_lt.mpr (Nat.le_trans h hk))⟩

theorem cut_gate (h : s.calls < n) (call : Call) : (s.cut n).gate (s.cut n).calls call = s.gate s.calls call := if_pos h

theorem Shut.after {s' : Session} (h : s.Shut) (hg : s'.gate = s.gate) (hc : s.calls ≤ s'.calls) : s'.Shut :=
  fun k call hk => hg ▸ h k call (Nat.le_trans hc hk)

end Session

/-! ### Calls -/

theorem Action.change_apply (call : Call) (f : Store → Except StoreError Store) (s : Session) :
    Action.change call f s = match s.gate s.calls call with
      | some e => (.error (.store e), { s with calls := s.calls + 1 })
      | none => match f s.store with
        | .ok store => (.ok (), { s with calls := s.calls + 1, store })
        | .error e => (.error (.store e), { s with calls := s.calls + 1 }) := by
  cases hg : s.gate s.calls call with
  | some e => exact change_of_some hg
  | none =>
    rw [change, bind_apply, pass_of_none hg]
    cases hf : f s.store <;> simp only [bind_apply, get_apply, hf] <;> rfl

theorem Action.query_apply {α : Type} (call : Call) (f : Store → Except StoreError α) (s : Session) :
    Action.query call f s = match s.gate s.calls call with
      | some e => (.error (.store e), { s with calls := s.calls + 1 })
      | none => ((f s.store).mapError .store, { s with calls := s.calls + 1 }) := by
  cases hg : s.gate s.calls call with
  | some e => rw [query, bind_error (pass_of_some hg)]
  | none =>
    rw [query, bind_apply, pass_of_none hg]
    cases hf : f s.store <;> simp only [look, bind_apply, get_apply, hf] <;> rfl

/-! ### Cutting off -/

/-- Cutting the action off after its last call makes no difference, and after an earlier one the store stays as it
    was then. -/
structure Gated {α : Type} (x : Action α) : Prop where
  gate : ∀ s, (x s).2.gate = s.gate
  calls : ∀ s, s.calls ≤ (x s).2.calls
  inside : ∀ s n, (x s).2.calls ≤ n → x (s.cut n) = ((x s).1, (x s).2.cut n)
  beyond : ∀ s n, n ≤ (x s).2.calls → n ≤ (x (s.cut n)).2.calls
  shut : ∀ s, s.Shut → (x s).2.store = s.store

namespace Gated
variable {α β : Type} {x : Action α} {f : α → Action β}

theorem bind (hx : Gated x) (hf : ∀ a, Gated (f a)) : Gated (x >>= f) where
  gate s := by
    rw [Fallible.bind_apply]
    have hgate := hx.gate s
    rcases hxs : x s with ⟨_ | a, s₁⟩ <;> rw [hxs] at hgate
    · exact hgate
    · exact ((hf a).gate s₁).trans hgate
  calls s := by
    rw [Fallible.bind_apply]
    have hcalls := hx.calls s
    rcases hxs : x s with ⟨_ | a, s₁⟩ <;> rw [hxs] at hcalls
    · exact hcalls
    · exact Nat.le_trans hcalls ((hf a).calls s₁)
  inside s n h := by
    rw [Fallible.bind_apply] at h ⊢
    rw [Fallible.bind_apply]
    rcases hxs : x s with ⟨e | a, s₁⟩ <;> rw [hxs] at h
    · rw [hx.inside s n (by rw [hxs]; exact h), hxs]
    · have hle : s₁.calls ≤ n := Nat.le_trans ((hf a).calls s₁) h
      rw [hx.inside s n (by rw [hxs]; exact hle), hxs]
      exact (hf a).inside s₁ n h
  beyond s n h := by
    rw [Fallible.bind_apply] at h ⊢
    have hcalls := hx.beyond s n
    have hinside := hx.inside s n
    rcases hxs : x s with ⟨e | a, s₁⟩ <;> rw [hxs] at h hcalls hinside
    · have hcut := hcalls h
      rcases hxc : x (s.cut n) with ⟨_ | b, s₂⟩ <;> rw [hxc] at hcut
      · exact hcut
      · exact Nat.le_trans hcut ((hf b).calls s₂)
    · -- The cut falls into the second action, or into the first.
      rcases Nat.le_total s₁.calls n with hle | hle
      · rw [hinside hle]
        exact (hf a).beyond s₁ n h
      · have hcut := hcalls hle
        rcases hxc : x (s.cut n) with ⟨_ | b, s₂⟩ <;> rw [hxc] at hcut
        · exact hcut
        · exact Nat.le_trans hcut ((hf b).calls s₂)
  shut s h := by
    rw [Fallible.bind_apply]
    have hstore := hx.shut s h
    have hafter := h.after (hx.gate s) (hx.calls s)
    rcases hxs : x s with ⟨_ | a, s₁⟩ <;> rw [hxs] at hstore hafter
    · exact hstore
    · exact ((hf a).shut s₁ hafter).trans hstore

theorem attempt (hx : Gated x) : Gated (Action.attempt x) where
  gate := hx.gate
  calls := hx.calls
  inside s n h := by
    rw [Action.attempt_apply, Action.attempt_apply, hx.inside s n h]
  beyond := hx.beyond
  shut := hx.shut

/-- An action that always makes one call, whose answer depends on the store alone. -/
theorem of_call (call : Call) (answer : Store → Except Error α × Store)
    (h : ∀ s, x s = match s.gate s.calls call with
      | some e => (.error (.store e), { s with calls := s.calls + 1 })
      | none => ((answer s.store).1, { s with calls := s.calls + 1, store := (answer s.store).2 })) : Gated x where
  gate s := by
    rw [h]
    split <;> rfl
  calls s := by
    rw [h]
    split <;> exact Nat.le_succ _
  inside s n hn := by
    have hcalls : (x s).2.calls = s.calls + 1 := by
      rw [h]
      split <;> rfl
    have hlt : s.calls < n := by
      rw [hcalls] at hn
      exact hn
    rw [h (s.cut n), s.cut_gate hlt, h s]
    split <;> rfl
  beyond s n hn := by
    have hcalls : ∀ s, (x s).2.calls = s.calls + 1 := fun s => by
      rw [h]
      split <;> rfl
    rw [hcalls] at hn ⊢
    exact hn
  shut s hs := by
    obtain ⟨e, he⟩ := hs s.calls call (Nat.le_refl _)
    rw [h, he]

end Gated

theorem Scripted.gated {r : Store → Store → Prop} {α : Type} {x : Action α} (h : Scripted r x) : Gated x := by
  induction h with
  | pure a => exact ⟨fun _ => rfl, fun _ => Nat.le_refl _, fun _ _ _ => rfl, fun _ _ h => h, fun _ _ => rfl⟩
  | throw e => exact ⟨fun _ => rfl, fun _ => Nat.le_refl _, fun _ _ _ => rfl, fun _ _ h => h, fun _ _ => rfl⟩
  | bind _ _ hx hf => exact hx.bind hf
  | attempt _ hx => exact hx.attempt
  | @read _ f _ hg hf =>
    refine ⟨fun s => (hf s).gate s, fun s => (hf s).calls s, fun s n h => ?_, fun s n h => ?_, fun s h => (hf s).shut s h⟩
    · exact (congrFun (hg s _) _).trans ((hf s).inside s n h)
    · exact Nat.le_trans ((hf s).beyond s n h) (Nat.le_of_eq (congrArg (fun y : Action _ => (y (s.cut n)).2.calls) (hg s _).symm))
  | @aside f hf =>
    refine ⟨hf.gate_eq, fun s => Nat.le_of_eq (hf.calls s).symm, fun s n _ => ?_, fun s n h => ?_, fun s _ => hf.store s⟩
    · exact congrArg (Prod.mk _) (hf.cut s n)
    · rw [Fallible.modify_apply, hf.cut s n]
      exact h
  | query call f =>
    refine .of_call call (fun st => ((f st).mapError .store, st)) fun s => ?_
    rw [Action.query_apply]
  | @change call f _ =>
    refine .of_call call (fun st => match f st with | .ok st' => (.ok (), st') | .error e => (.error (.store e), st))
      fun s => ?_
    rw [Action.change_apply]
    split
    · rfl
    · cases f s.store <;> rfl

theorem Scripted.mono {r q : Store → Store → Prop} {α : Type} {x : Action α} (h : Scripted r x)
    (hrq : ∀ st st', r st st' → q st st') : Scripted q x := by
  induction h with
  | pure a => exact .pure a
  | throw e => exact .throw e
  | bind _ _ hx hf => exact .bind hx hf
  | attempt _ hx => exact .attempt hx
  | read _ hg hf => exact .read hf hg
  | aside hf => exact .aside hf
  | query call f => exact .query call f
  | change hf => exact .change fun st st' h => hrq st st' (hf st st' h)

theorem Action.get_bind {α : Type} (f : Session → Action α) : (get >>= f) = fun s => f s s :=
  funext fun s => by rw [bind_apply, get_apply]

theorem Scripted.ofGet {r : Store → Store → Prop} {α : Type} {f : Session → Action α} (hf : ∀ s, Scripted r (f s))
    (hg : ∀ s g, f { s with gate := g } = f s) : Scripted r (get >>= f) :=
  Action.get_bind f ▸ .read hf hg

/-! ### From moment to moment -/

section
variable {α β : Type} {x : Action α} {f : α → Action β} {s s₁ : Session} {a : α} {n : Nat} {r : Store → Store → Prop}

theorem Gated.storeAt_start (hx : Gated x) (h : n ≤ s.calls) : x.storeAt s n = s.store := hx.shut _ (s.cut_shut h)

theorem Gated.storeAt_end (hx : Gated x) (h : (x s).2.calls ≤ n) : x.storeAt s n = (x s).2.store := by
  rw [Action.storeAt, hx.inside s n h]
  rfl

theorem Gated.storeAt_bind (hx : Gated x) (hf : ∀ a, Gated (f a)) (h : n ≤ (x s).2.calls) :
    (x >>= f).storeAt s n = x.storeAt s n := by
  have hcalls := hx.beyond s n h
  have hgate := hx.gate (s.cut n)
  unfold Action.storeAt
  rw [Fallible.bind_apply]
  rcases hxc : x (s.cut n) with ⟨e | b, s₂⟩
  · rfl
  · rw [hxc] at hcalls hgate
    -- The first action has made `n` calls, so what follows it changes nothing.
    have hshut : s₂.Shut := fun k call hk => ⟨.database .cannotOpen, by
      rw [hgate]
      exact if_neg (Nat.not_lt.mpr (Nat.le_trans hcalls hk))⟩
    exact (hf b).shut s₂ hshut

theorem Gated.storeAt_bind_late (hx : Gated x) (hs : x s = (.ok a, s₁)) (h : s₁.calls ≤ n) :
    (x >>= f).storeAt s n = (f a).storeAt s₁ n := by
  unfold Action.storeAt
  rw [Fallible.bind_apply, hx.inside s n (by rw [hs]; exact h), hs]

/-- Each call of the action, started in the session, does what the relation says, or nothing. -/
def Action.Chain (r : Store → Store → Prop) (x : Action α) (s : Session) : Prop :=
  ∀ n, r (x.storeAt s n) (x.storeAt s (n + 1))

theorem Action.Chain.bind (hr : ∀ st, r st st) (hx : Gated x) (hf : ∀ a, Gated (f a)) (hchain : x.Chain r s)
    (hrest : ∀ a s₁, x s = (.ok a, s₁) → (f a).Chain r s₁) : (x >>= f).Chain r s := by
  intro n
  -- Up to the last call of the first action the moments are those of the first, from then on those of the second.
  rcases Nat.lt_or_ge n (x s).2.calls with hn | hn
  · rw [hx.storeAt_bind hf (Nat.le_of_lt hn), hx.storeAt_bind hf hn]
    exact hchain n
  · rcases hxs : x s with ⟨e | a, s₁⟩ <;> rw [hxs] at hn
    · have hend : (x >>= f) s = (.error e, s₁) := by rw [Fallible.bind_apply, hxs]
      have hlast : ∀ m, n ≤ m → (x >>= f).storeAt s m = s₁.store := fun m hm => by
        rw [(hx.bind hf).storeAt_end (by rw [hend]; exact Nat.le_trans hn hm), hend]
      rw [hlast n (Nat.le_refl n), hlast (n + 1) (Nat.le_succ n)]
      exact hr _
    · rw [hx.storeAt_bind_late hxs hn, hx.storeAt_bind_late hxs (Nat.le_succ_of_le hn)]
      exact hrest a s₁ hxs n

/-- A chain with a transitive relation leads from the first moment to every other, and from there to the last. -/
theorem Action.Chain.ends (hr : ∀ st, r st st) (ht : ∀ st st₁ st₂, r st st₁ → r st₁ st₂ → r st st₂) (hx : Gated x)
    (h : x.Chain r s) (n : Nat) : r s.store (x.storeAt s n) ∧ r (x.storeAt s n) (x s).2.store := by
  have hlater : ∀ m k, r (x.storeAt s m) (x.storeAt s (m + k)) := fun m k => by
    induction k with
    | zero => exact hr _
    | succ k ih => exact ht _ _ _ ih (h (m + k))
  have hfirst := hlater 0 n
  have hlast := hlater n (x s).2.calls
  rw [hx.storeAt_start (Nat.zero_le _), Nat.zero_add] at hfirst
  rw [hx.storeAt_end (Nat.le_add_left _ n)] at hlast
  exact ⟨hfirst, hlast⟩

theorem Action.Chain.ofGet {f : Session → Action α} (hg : ∀ s g, f { s with gate := g } = f s) (h : (f s).Chain r s) :
    (get >>= f).Chain r s := by
  intro n
  have hcut : ∀ m, (get >>= f).storeAt s m = (f s).storeAt s m := fun m => by
    rw [Action.get_bind]
    exact congrArg (fun y : Action α => (y (s.cut m)).2.store) (hg s _)
  rw [hcut, hcut]
  exact h n

theorem Scripted.chain (hr : ∀ st, r st st) (h : Scripted r x) (s : Session) : x.Chain r s := by
  induction h generalizing s with
  | pure a => exact fun _ => hr _
  | throw e => exact fun _ => hr _
  | bind hx hf ihx ihf => exact .bind hr hx.gated (fun a => (hf a).gated) (ihx s) fun a s₁ _ => ihf a s₁
  | attempt _ ih => exact ih s
  | read _ hg ih => exact Action.get_bind _ ▸ Action.Chain.ofGet hg (ih s s)
  | aside hf =>
    intro n
    unfold Action.storeAt
    rw [Fallible.modify_apply, Fallible.modify_apply, hf.store, hf.store]
    exact hr _
  | query call f =>
    intro n
    have hkept : ∀ s : Session, (Action.query call f s).2.store = s.store := fun s => by
      rw [Action.query_apply]
      split <;> rfl
    unfold Action.storeAt
    rw [hkept, hkept]
    exact hr _
  | @change call f hf =>
    intro n
    have hscript : Scripted r (Action.change call f) := .change hf
    have hgated := hscript.gated
    have hmoves : r s.store (Action.change call f s).2.store ∧ (Action.change call f s).2.calls = s.calls + 1 := by
      rw [Action.change_apply]
      split
      · exact ⟨hr _, rfl⟩
      · cases h : f s.store with
        | error e => exact ⟨hr _, rfl⟩
        | ok st' => exact ⟨hf _ _ h, rfl⟩
    -- Its one call lies between the moment when it starts and the next.
    rcases Nat.lt_trichotomy n s.calls with hn | rfl | hn
    · rw [hgated.storeAt_start (Nat.le_of_lt hn), hgated.storeAt_start hn]
      exact hr _
    · rw [hgated.storeAt_start (Nat.le_refl _), hgated.storeAt_end (Nat.le_of_eq hmoves.2)]
      exact hmoves.1
    · have hend : (Action.change call f s).2.calls ≤ n := hmoves.2 ▸ hn
      rw [hgated.storeAt_end hend, hgated.storeAt_end (Nat.le_succ_of_le hend)]
      exact hr _

/-- What is scripted can come before any chain. -/
theorem Scripted.andThen (hr : ∀ st, r st st) (hx : Scripted r x) (hf : ∀ a, Gated (f a))
    (hrest : ∀ a s₁, x s = (.ok a, s₁) → (f a).Chain r s₁) : (x >>= f).Chain r s :=
  .bind hr hx.gated hf (hx.chain hr s) hrest

/-- What is scripted can follow any chain. -/
theorem Action.Chain.andThen (hr : ∀ st, r st st) (hx : Gated x) (hchain : x.Chain r s) (hf : ∀ a, Scripted r (f a)) :
    (x >>= f).Chain r s :=
  .bind hr hx (fun a => (hf a).gated) hchain fun a s₁ _ => (hf a).chain hr s₁

end

end SymbolGraph.Index
