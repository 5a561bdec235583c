import Mathlib.Data.List.Forall2

/-! Work that can fail, by itself or on a state that it changes. Steps succeed together exactly if each of them does,
    and the first one that fails ends the whole. -/

namespace SymbolGraph.Fallible

/-! ### Results -/

section
variable {ε α β : Type} {f : α → Except ε β} {l : List α} {m : List β}

theorem exists_of_bind {x : Except ε α} {b : β} (h : (x >>= f) = .ok b) : ∃ a, x = .ok a ∧ f a = .ok b := by
  cases x with
  | error e => cases h
  | ok a => exact ⟨a, rfl, h⟩

theorem exists_of_map {x : Except ε α} {g : α → β} {b : β} (h : x.map g = .ok b) : ∃ a, x = .ok a ∧ g a = b := by
  cases x with
  | error e => cases h
  | ok a => exact ⟨a, rfl, Except.ok.inj h⟩

theorem forall₂_of_mapM (h : l.mapM f = .ok m) : List.Forall₂ (fun a b => f a = .ok b) l m := by
  induction l generalizing m with
  | nil => cases h; exact .nil
  | cons a l ih =>
    rw [List.mapM_cons] at h
    obtain ⟨b, hb, h⟩ := exists_of_bind h
    obtain ⟨bs, hbs, h⟩ := exists_of_bind h
    cases h
    exact .cons hb (ih hbs)

/-- Results that agree with what they are made of in some respect agree with it as lists. -/
theorem map_eq_of_mapM {γ : Type} {g : α → γ} {k : β → γ} (h : l.mapM f = .ok m)
    (hsame : ∀ a b, f a = .ok b → k b = g a) : m.map k = l.map g := by
  have hpairs := (forall₂_of_mapM h).imp hsame
  rw [← List.forall₂_eq_eq_eq, List.forall₂_map_left_iff, List.forall₂_map_right_iff]
  exact hpairs.flip

theorem exists_mapM (h : ∀ a ∈ l, ∃ b, f a = .ok b) : ∃ m, l.mapM f = .ok m := by
  induction l with
  | nil => exact ⟨[], rfl⟩
  | cons a l ih =>
    obtain ⟨b, hb⟩ := h a List.mem_cons_self
    obtain ⟨m, hm⟩ := ih fun c hc => h c (List.mem_cons_of_mem _ hc)
    exact ⟨b :: m, by rw [List.mapM_cons, hb, hm]; rfl⟩

theorem forM_ok {f : α → Except ε Unit} (h : ∀ a ∈ l, f a = .ok ()) : l.forM f = .ok () := by
  induction l with
  | nil => rfl
  | cons a l ih =>
    rw [show (a :: l).forM f = (f a >>= fun _ => l.forM f) from rfl, h a List.mem_cons_self]
    exact ih fun c hc => h c (List.mem_cons_of_mem _ hc)

end

/-! ### Work on a state -/

section
variable {ε σ α β : Type} {x : ExceptT ε (StateM σ) α} {f : α → ExceptT ε (StateM σ) β} {s s' : σ}

theorem pure_apply (a : α) (s : σ) : (pure a : ExceptT ε (StateM σ) α) s = (.ok a, s) := rfl

theorem throw_apply (e : ε) (s : σ) : (throw e : ExceptT ε (StateM σ) α) s = (.error e, s) := rfl

theorem get_apply (s : σ) : (get : ExceptT ε (StateM σ) σ) s = (.ok s, s) := rfl

theorem set_apply (s s' : σ) : (set s' : ExceptT ε (StateM σ) Unit) s = (.ok (), s') := rfl

theorem modify_apply (g : σ → σ) (s : σ) : (modify g : ExceptT ε (StateM σ) Unit) s = (.ok (), g s) := rfl

theorem bind_apply (x : ExceptT ε (StateM σ) α) (f : α → ExceptT ε (StateM σ) β) (s : σ) :
    (x >>= f) s = match x s with
      | (.ok a, s') => f a s'
      | (.error e, s') => (.error e, s') := by
  show (ExceptT.bind x f : ExceptT ε (StateM σ) β) s = _
  simp only [ExceptT.bind, ExceptT.mk]
  show (StateT.bind _ _) s = _
  simp only [StateT.bind]
  rcases x s with ⟨_ | _, _⟩ <;> rfl

theorem map_apply (g : α → β) (x : ExceptT ε (StateM σ) α) (s : σ) :
    (g <$> x) s = match x s with
      | (.ok a, s') => (.ok (g a), s')
      | (.error e, s') => (.error e, s') := by
  show (ExceptT.map g x : ExceptT ε (StateM σ) β) s = _
  simp only [ExceptT.map, ExceptT.mk]
  show (StateT.bind _ _) s = _
  simp only [StateT.bind]
  rcases x s with ⟨_ | _, _⟩ <;> rfl

theorem bind_ok {a : α} (h : x s = (.ok a, s')) : (x >>= f) s = f a s' := by
  rw [bind_apply, h]

theorem bind_error {e : ε} (h : x s = (.error e, s')) : (x >>= f) s = (.error e, s') := by
  rw [bind_apply, h]

/-- Work in steps succeeds only if both steps do. -/
theorem bind_eq_ok {b : β} (h : (x >>= f) s = (.ok b, s')) : ∃ a s₁, x s = (.ok a, s₁) ∧ f a s₁ = (.ok b, s') := by
  rcases hx : x s with ⟨_ | a, s₁⟩
  · rw [bind_error hx] at h
    cases h
  · rw [bind_ok hx] at h
    exact ⟨a, s₁, rfl, h⟩

/-- Work in steps fails where one of the steps does. -/
theorem bind_eq_error {e : ε} (h : (x >>= f) s = (.error e, s')) :
    x s = (.error e, s') ∨ ∃ a s₁, x s = (.ok a, s₁) ∧ f a s₁ = (.error e, s') := by
  rcases hx : x s with ⟨err | a, s₁⟩
  · rw [bind_error hx] at h
    cases h
    exact .inl rfl
  · rw [bind_ok hx] at h
    exact .inr ⟨a, s₁, rfl, h⟩

theorem map_eq_ok {g : α → β} {b : β} (h : (g <$> x) s = (.ok b, s')) : ∃ a, x s = (.ok a, s') ∧ g a = b := by
  rw [map_apply] at h
  rcases hx : x s with ⟨_ | a, s₁⟩
  · rw [hx] at h
    cases h
  · rw [hx] at h
    cases h
    exact ⟨a, rfl, rfl⟩

theorem pure_eq_ok {a b : α} (h : (pure a : ExceptT ε (StateM σ) α) s = (.ok b, s')) : a = b ∧ s = s' := by
  cases h
  exact ⟨rfl, rfl⟩

end
end SymbolGraph.Fallible
