import Mathlib.Data.List.Basic

namespace Wayjournal

variable {ε ε' α β : Type}

theorem except_bind_eq_ok {x : Except ε α} {f : α → Except ε β} {b : β} :
    (x >>= f) = .ok b ↔ ∃ a, x = .ok a ∧ f a = .ok b := by
  cases x with
  | error e => simp [bind, Except.bind]
  | ok a => simp [bind, Except.bind]

theorem mapError_ok {f : ε → ε'} {a : α} : (Except.ok a : Except ε α).mapError f = .ok a := rfl

theorem mapError_error {f : ε → ε'} {e : ε} : (Except.error e : Except ε α).mapError f = .error (f e) := rfl

theorem mapError_eq_ok {x : Except ε α} {f : ε → ε'} {a : α} : x.mapError f = .ok a ↔ x = .ok a := by
  cases x with
  | error e => simp only [mapError_error, reduceCtorEq]
  | ok b => simp only [mapError_ok, Except.ok.injEq]

theorem pure_eq_ok {a b : α} : (pure a : Except ε α) = .ok b ↔ b = a :=
  ⟨fun h => (Except.ok.inj h).symm, fun h => congrArg Except.ok h.symm⟩

theorem throw_eq_ok {e : ε} {a : α} : (throw e : Except ε α) = .ok a ↔ False := by
  constructor
  · intro h
    cases h
  · exact False.elim

/-- A check that refuses. -/
theorem guard_eq_ok {c : Prop} [Decidable c] {e : ε} {x : Except ε α} {a : α} :
    (if c then throw e else x) = .ok a ↔ ¬ c ∧ x = .ok a := by
  by_cases h : c
  · rw [if_pos h, throw_eq_ok]
    exact ⟨False.elim, fun heq => heq.1 h⟩
  · rw [if_neg h]
    exact ⟨fun heq => ⟨h, heq⟩, fun heq => heq.2⟩

theorem ok_bind {a : α} {f : α → Except ε β} : (Except.ok a >>= f) = f a := rfl

theorem guard_bind_eq_ok {c : Prop} [Decidable c] {e : ε} {f : β → Except ε α} {x : Except ε α} {a : α} :
    (if c then throw e >>= f else x) = .ok a ↔ ¬ c ∧ x = .ok a :=
  guard_eq_ok

theorem mapM_eq_ok {f : α → Except ε β} {l : List α} {r : List β} :
    l.mapM f = .ok r ↔ List.Forall₂ (fun a b => f a = .ok b) l r := by
  induction l generalizing r with
  | nil =>
    rw [List.mapM_nil, pure_eq_ok]
    constructor
    · rintro rfl
      exact .nil
    · rintro ⟨⟩
      rfl
  | cons a t ih =>
    simp only [List.mapM_cons, except_bind_eq_ok, pure_eq_ok, ih]
    constructor
    · rintro ⟨b, hb, bs, hbs, rfl⟩
      exact .cons hb hbs
    · rintro (_ | ⟨hb, hbs⟩)
      exact ⟨_, hb, _, hbs, rfl⟩

theorem exists_of_mapM {f : α → Except ε β} {l : List α} {r : List β} (h : l.mapM f = .ok r) {a : α} (ha : a ∈ l) :
    ∃ b ∈ r, f a = .ok b := by
  induction mapM_eq_ok.mp h with
  | nil => cases ha
  | cons hb hrest ih =>
    obtain rfl | ha := List.mem_cons.mp ha
    · exact ⟨_, List.mem_cons_self, hb⟩
    · obtain ⟨b, hmem, hb⟩ := ih (mapM_eq_ok.mpr hrest) ha
      exact ⟨b, List.mem_cons_of_mem _ hmem, hb⟩

/-- The rule for a loop that returned: an invariant of the elements still to come. -/
theorem foldlM_invariant {f : β → α → Except ε β} (inv : List α → β → Prop)
    (hstep : ∀ b a r b', inv (a :: r) b → f b a = .ok b' → inv r b') {l : List α} {b b' : β}
    (hb : inv l b) (h : l.foldlM f b = .ok b') : inv [] b' := by
  induction l generalizing b with
  | nil =>
    cases h
    exact hb
  | cons a r ih =>
    rw [List.foldlM_cons, except_bind_eq_ok] at h
    obtain ⟨c, hc, h⟩ := h
    exact ih (hstep b a r c hb hc) h

/-- A loop that mirrors another one step by step mirrors it to the end. -/
theorem foldlM_simulates {γ : Type} {f : β → α → Except ε β} {g : γ → α → Except ε γ} (φ : β → γ)
    (hstep : ∀ b a b', f b a = .ok b' → g (φ b) a = .ok (φ b')) {l : List α} {b b' : β} (h : l.foldlM f b = .ok b') :
    l.foldlM g (φ b) = .ok (φ b') := by
  induction l generalizing b with
  | nil =>
    cases h
    rfl
  | cons a r ih =>
    rw [List.foldlM_cons, except_bind_eq_ok] at h ⊢
    obtain ⟨c, hc, h⟩ := h
    exact ⟨φ c, hstep b a c hc, ih h⟩

theorem isOk_eq_true {r : Except ε Unit} : r.isOk = true ↔ r = .ok () := by
  cases r with
  | error e => simp [Except.isOk, Except.toBool]
  | ok u => simp [Except.isOk, Except.toBool]

theorem error_of_ne_ok {r : Except ε Unit} (h : r ≠ .ok ()) : ∃ e, r = .error e := by
  cases r with
  | error e => exact ⟨e, rfl⟩
  | ok u => exact absurd rfl h

/-- A loop fails when one of its steps does, whatever came before. -/
theorem foldlM_ne_ok {f : β → α → Except ε β} {l : List α} {a : α} (ha : a ∈ l)
    (h : ∀ b b', f b a ≠ .ok b') (b b' : β) : l.foldlM f b ≠ .ok b' := by
  induction l generalizing b with
  | nil => cases ha
  | cons x r ih =>
    intro hfold
    rw [List.foldlM_cons, except_bind_eq_ok] at hfold
    obtain ⟨c, hc, hrest⟩ := hfold
    obtain rfl | ha := List.mem_cons.mp ha
    · exact h b c hc
    · exact ih ha c hrest

/-- A loop returns when each of its steps does. -/
theorem foldlM_ok {f : β → α → Except ε β} (inv : List α → β → Prop)
    (hstep : ∀ b a r, inv (a :: r) b → ∃ b', f b a = .ok b' ∧ inv r b') {l : List α} {b : β}
    (hb : inv l b) : ∃ b', l.foldlM f b = .ok b' ∧ inv [] b' := by
  induction l generalizing b with
  | nil => exact ⟨b, rfl, hb⟩
  | cons a r ih =>
    obtain ⟨c, hc, hinv⟩ := hstep b a r hb
    obtain ⟨b', hb', hnil⟩ := ih hinv
    exact ⟨b', by rw [List.foldlM_cons, except_bind_eq_ok]; exact ⟨c, hc, hb'⟩, hnil⟩

/-- A loop that only checks returns when every check passes. -/
theorem forIn_eq_ok {f : α → PUnit.{1} → Except ε (ForInStep PUnit.{1})} {P : α → Prop} {l : List α}
    (h : ∀ a s, f a .unit = .ok s ↔ P a ∧ s = .yield .unit) :
    (∃ u, forIn l PUnit.unit.{1} f = .ok u) ↔ ∀ a ∈ l, P a := by
  induction l with
  | nil => simp [pure_eq_ok]
  | cons a t ih =>
    simp only [List.forIn_cons, except_bind_eq_ok, h, List.forall_mem_cons, ← ih]
    constructor
    · rintro ⟨u, _, ⟨ha, rfl⟩, hu⟩
      exact ⟨ha, u, hu⟩
    · rintro ⟨ha, u, hu⟩
      exact ⟨u, _, ⟨ha, rfl⟩, hu⟩

end Wayjournal
