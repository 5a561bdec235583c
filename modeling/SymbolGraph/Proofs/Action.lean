import SymbolGraph.Index.Run
import SymbolGraph.Proofs.Fallible

/-! What actions do to a session. `Became` says what a piece of work leaves behind: the tables of the
    store, the events that it told, and the gate as it was. How often the store was called and what the
    hook put into the queue are left open. Work in a transaction leaves its tables behind if it succeeds,
    and the tables from before if it fails. -/

namespace SymbolGraph.Index

open Fallible

namespace Action
variable {α β : Type} {s s' : Session}

/-! ### Running actions -/

theorem attempt_apply (x : Action α) (s : Session) : attempt x s = (.ok (x s).1, (x s).2) := rfl

theorem attempt_ok {x : Action α} {f : Except Error α → Action β} {a : α} (h : x s = (.ok a, s')) :
    (attempt x >>= f) s = f (.ok a) s' := by
  rw [bind_apply, attempt_apply, h]

theorem attempt_error {x : Action α} {f : Except Error α → Action β} {e : Error} (h : x s = (.error e, s')) :
    (attempt x >>= f) s = f (.error e) s' := by
  rw [bind_apply, attempt_apply, h]

end Action

/-! ### What work leaves behind -/

/-- After some work the store has the tables, the events were told, and the rest of the store and the
    gate are as before. -/
structure Session.Became (s : Session) (tables : Tables) (told : List Event) (s' : Session) : Prop where
  store : s'.store = { s.store with tables }
  gate : s'.gate = s.gate
  events : s'.events = s.events ++ told

namespace Session.Became
variable {s s₁ s₂ : Session} {t t₁ t₂ : Tables} {e₁ e₂ : List Event}

theorem refl (s : Session) : s.Became s.store.tables [] s := ⟨rfl, rfl, by simp⟩

theorem called (s : Session) : s.Became s.store.tables [] { s with calls := s.calls + 1 } := ⟨rfl, rfl, by simp⟩

theorem trans (h₁ : s.Became t₁ e₁ s₁) (h₂ : s₁.Became t₂ e₂ s₂) : s.Became t₂ (e₁ ++ e₂) s₂ where
  store := by rw [h₂.store, h₁.store]
  gate := h₂.gate.trans h₁.gate
  events := by rw [h₂.events, h₁.events, List.append_assoc]

/-- Two pieces of work of which the second tells nothing. -/
theorem quietly (h₁ : s.Became t₁ e₁ s₁) (h₂ : s₁.Became t₂ [] s₂) : s.Became t₂ e₁ s₂ := by
  simpa using h₁.trans h₂

theorem tables (h : s.Became t e₁ s₁) : s₁.store.tables = t := by rw [h.store]

theorem before? (h : s.Became t e₁ s₁) : s₁.store.before? = s.store.before? := by rw [h.store]

end Session.Became

namespace Action
variable {α : Type} {s s' : Session} {R : List String} {path : String}

theorem tell_became (e : Event) (s : Session) : ∃ s', tell e s = (.ok (), s') ∧ s.Became s.store.tables [e] s' :=
  ⟨_, rfl, rfl, rfl, rfl⟩

theorem report_became (p : Progress) (s : Session) :
    ∃ s', report p s = (.ok (), s') ∧ s.Became s.store.tables [] s' :=
  ⟨_, rfl, rfl, rfl, by simp⟩

/-! ### Calls that pass the gate, and calls that do not -/

theorem pass_of_none {call : Call} (h : s.gate s.calls call = none) :
    pass call s = (.ok (), { s with calls := s.calls + 1 }) := by
  simp only [pass, bind_apply, get_apply, set_apply, h, pure_apply]

theorem pass_of_some {call : Call} {e : StoreError} (h : s.gate s.calls call = some e) :
    pass call s = (.error (.store e), { s with calls := s.calls + 1 }) := by
  simp only [pass, bind_apply, get_apply, set_apply, h, throw_apply]

theorem change_of_none {call : Call} {f : Store → Except StoreError Store} {store : Store}
    (h : s.gate s.calls call = none) (hf : f s.store = .ok store) :
    change call f s = (.ok (), { s with calls := s.calls + 1, store }) := by
  simp only [change, bind_apply, pass_of_none h, get_apply, hf, set_apply]

theorem change_of_some {call : Call} {f : Store → Except StoreError Store} {e : StoreError}
    (h : s.gate s.calls call = some e) :
    change call f s = (.error (.store e), { s with calls := s.calls + 1 }) := by
  simp only [change, bind_apply, pass_of_some h]

/-- A change succeeds only past the gate, and if it fails, the store is as it was. -/
theorem change_cases (call : Call) (f : Store → Except StoreError Store) (s : Session) :
    (∃ store, s.gate s.calls call = none ∧ f s.store = .ok store ∧
      change call f s = (.ok (), { s with calls := s.calls + 1, store })) ∨
    ∃ e, change call f s = (.error e, { s with calls := s.calls + 1 }) := by
  cases hg : s.gate s.calls call with
  | some e => exact .inr ⟨_, change_of_some hg⟩
  | none =>
    cases hf : f s.store with
    | ok store => exact .inl ⟨store, rfl, rfl, change_of_none hg hf⟩
    | error e =>
      refine .inr ⟨.store e, ?_⟩
      simp only [change, bind_apply, pass_of_none hg, get_apply, hf, throw_apply]

theorem change_became (call : Call) (f : Tables → Tables) (h : s.gate s.calls call = none) :
    ∃ s', change call (fun st => .ok (st.change f)) s = (.ok (), s') ∧ s.Became (f s.store.tables) [] s' :=
  ⟨_, change_of_none h rfl, rfl, rfl, by simp⟩

theorem query_of_none (call : Call) (f : Store → Except StoreError α) (h : s.gate s.calls call = none) :
    ∃ s', query call f s = ((f s.store).mapError .store, s') ∧ s.Became s.store.tables [] s' := by
  refine ⟨{ s with calls := s.calls + 1 }, ?_, rfl, rfl, by simp⟩
  simp only [query, look, bind_apply, pass_of_none h, get_apply]
  cases f s.store <;> rfl

/-- Asking leaves the store as it was. -/
theorem query_cases (call : Call) (f : Store → Except StoreError α) (s : Session) :
    (∃ a, f s.store = .ok a ∧ query call f s = (.ok a, { s with calls := s.calls + 1 })) ∨
    ∃ e, query call f s = (.error e, { s with calls := s.calls + 1 }) := by
  cases hg : s.gate s.calls call with
  | some e => exact .inr ⟨.store e, bind_error (pass_of_some hg)⟩
  | none =>
    rw [query, bind_ok (pass_of_none hg)]
    simp only [look, bind_apply, get_apply]
    cases f s.store with
    | ok a => exact .inl ⟨a, rfl, rfl⟩
    | error e => exact .inr ⟨.store e, rfl⟩

theorem refusing_deleteNodes (h : path ∉ R) (n : Nat) : Gate.refusing R n (.deleteNodes path) = none := by
  simp [Gate.refusing, Gate.refusing.refusal, h]

theorem refusing_insertNode (h : path ∉ R) (n : Nat) : Gate.refusing R n (.insertNode path) = none := by
  simp [Gate.refusing, Gate.refusing.refusal, h]

theorem refused_deleteNodes (h : path ∈ R) (n : Nat) :
    Gate.refusing R n (.deleteNodes path) = some (.invalidRow (.writeRefused path)) := by
  simp [Gate.refusing, Gate.refusing.refusal, h]

end Action
end SymbolGraph.Index
