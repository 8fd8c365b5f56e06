import Wayjournal.Control.Except

namespace Wayjournal

variable {σ ε α β : Type}

/-- A computation that returns from a state, and what holds of what it returns. -/
def Returns (x : StateT σ (Except ε) α) (s : σ) (post : α → σ → Prop) : Prop := ∃ a t, x.run s = .ok (a, t) ∧ post a t

namespace Returns

variable {x : StateT σ (Except ε) α} {f : α → StateT σ (Except ε) β} {s : σ} {post mid : α → σ → Prop} {post' : β → σ → Prop}

theorem mono (h : Returns x s mid) (hpost : ∀ a t, mid a t → post a t) : Returns x s post := by
  obtain ⟨a, t, hrun, ha⟩ := h
  exact ⟨a, t, hrun, hpost a t ha⟩

theorem pure {a : α} (h : post a s) : Returns (Pure.pure a : StateT σ (Except ε) α) s post := ⟨a, s, rfl, h⟩

theorem lift {y : Except ε α} {a : α} (hy : y = .ok a) (h : post a s) : Returns (liftM y : StateT σ (Except ε) α) s post := by
  subst hy
  exact ⟨a, s, rfl, h⟩

theorem bind (hx : Returns x s mid) (hf : ∀ a t, mid a t → Returns (f a) t post') : Returns (x >>= f) s post' := by
  obtain ⟨a, t, hrun, ha⟩ := hx
  obtain ⟨b, u, hrun', hb⟩ := hf a t ha
  refine ⟨b, u, ?_, hb⟩
  change (x.run s >>= fun r => (f r.1).run r.2) = _
  rw [hrun]
  exact hrun'

theorem ite {c : Prop} [Decidable c] {y : StateT σ (Except ε) α} (hx : c → Returns x s post) (hy : ¬c → Returns y s post) :
    Returns (if c then x else y) s post := by
  by_cases h : c
  · rw [if_pos h]
    exact hx h
  · rw [if_neg h]
    exact hy h

/-- A check that lets pass. -/
theorem guard {γ : Type} {c : Prop} [Decidable c] {e : ε} {g : γ → StateT σ (Except ε) α} (hc : ¬c) (hx : Returns x s post) :
    Returns (if c then MonadExcept.throw e >>= g else x) s post := by
  rw [if_neg hc]
  exact hx

/-- The rule of a loop: an invariant of the elements taken so far. -/
theorem foldlM {f : β → α → StateT σ (Except ε) β} {l : List α} {b : β} (inv : List α → β → σ → Prop) (h : inv [] b s)
    (hstep : ∀ done a rest b s, done ++ a :: rest = l → inv done b s → Returns (f b a) s (inv (done ++ [a]))) :
    Returns (l.foldlM f b) s (inv l) := by
  have hloop : ∀ done rest b s, done ++ rest = l → inv done b s → Returns (rest.foldlM f b) s (inv l) := by
    intro done rest
    induction rest generalizing done with
    | nil =>
      rintro b s rfl hdone
      rw [List.append_nil]
      exact pure hdone
    | cons a rest ih =>
      intro b s heq hdone
      rw [List.foldlM_cons]
      refine bind (hstep done a rest b s heq hdone) fun b' t hb' => ?_
      exact ih (done ++ [a]) b' t (by rw [← heq, List.append_assoc]; rfl) hb'
  exact hloop [] l b s rfl h

end Returns

end Wayjournal
