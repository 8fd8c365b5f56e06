import Wayjournal.Crash.Fault

namespace Wayjournal.Crash.Program

variable {σ τ σ' τ' υ ε ε' α β : Type} {R S : σ → τ → Prop}

/-- From related states both programs return the same and end in related states. -/
def Simulates (R S : σ → τ → Prop) (p : Program σ ε α) (q : Program τ ε α) : Prop :=
  ∀ s t, R s t → p.result s = q.result t ∧ S (p.final s) (q.final t)

namespace Simulates

theorem pure (a : α) : Simulates S S (Pure.pure a : Program σ ε α) (Pure.pure a) := fun _ _ h => ⟨rfl, h⟩

theorem throw (e : ε) : Simulates S S (MonadExcept.throw e : Program σ ε α) (MonadExcept.throw e) :=
  fun _ _ h => ⟨rfl, h⟩

theorem ofExcept (x : Except ε α) : Simulates S S (Program.ofExcept x : Program σ ε α) (Program.ofExcept x) :=
  fun _ _ h => ⟨rfl, h⟩

theorem mapError {p : Program σ ε α} {q : Program τ ε α} (h : Simulates R S p q) (f : ε → ε') :
    Simulates R S (p.mapError f) (q.mapError f) :=
  fun s t hst => ⟨congrArg (Except.mapError f) (h s t hst).1, (h s t hst).2⟩

theorem attempt {p : Program σ ε α} {q : Program τ ε α} (h : Simulates R S p q) :
    Simulates R S (p.attempt : Program σ ε' _) q.attempt :=
  fun s t hst => ⟨congrArg Except.ok (h s t hst).1, (h s t hst).2⟩

theorem bind {p : Program σ ε α} {q : Program τ ε α} {f : α → Program σ ε β} {g : α → Program τ ε β}
    (hp : Simulates R S p q) (hf : ∀ a, Simulates S S (f a) (g a)) : Simulates R S (p >>= f) (q >>= g) := by
  intro s t hst
  obtain ⟨hresult, hfinal⟩ := hp s t hst
  rw [show (p >>= f) = Program.bind p f from rfl, show (q >>= g) = Program.bind q g from rfl]
  cases hr : p.result s with
  | error e =>
    have hr' : q.result t = .error e := hresult ▸ hr
    unfold result final
    rw [bind_apply_error hr, bind_apply_error hr']
    exact ⟨rfl, hfinal⟩
  | ok a =>
    have hr' : q.result t = .ok a := hresult ▸ hr
    unfold result final
    rw [bind_apply_ok hr, bind_apply_ok hr', getLastD_append, getLastD_append]
    exact hf a _ _ hfinal

theorem ite {c : Prop} [Decidable c] {p p' : Program σ ε α} {q q' : Program τ ε α} (hp : Simulates R S p q)
    (hp' : Simulates R S p' q') : Simulates R S (if c then p else p') (if c then q else q') := by
  split
  · exact hp
  · exact hp'

/-- What follows a check that may end both programs. -/
theorem guard {c : Prop} [Decidable c] {e : ε} {f : β → Program σ ε α} {g : β → Program τ ε α} {p : Program σ ε α}
    {q : Program τ ε α} (h : Simulates S S p q) :
    Simulates S S (if c then MonadExcept.throw e >>= f else p) (if c then MonadExcept.throw e >>= g else q) := by
  split
  · exact fun _ _ hst => ⟨rfl, hst⟩
  · exact h

theorem reads {f : σ → Except ε α} {g : τ → Except ε α} (h : ∀ s t, S s t → f s = g t) :
    Simulates S S (Program.reads f) (Program.reads g) :=
  fun s t hst => ⟨h s t hst, hst⟩

/-- Programs over parts of the states that are related. -/
theorem zoomOf {T : σ' → τ' → Prop} {part : σ → σ'} {put : σ' → σ → σ} {part' : τ → τ'} {put' : τ' → τ → τ}
    {p : Program σ' ε α} {q : Program τ' ε α} (h : Simulates T T p q) (hput : ∀ s, put (part s) s = s)
    (hput' : ∀ t, put' (part' t) t = t) (hpart : ∀ s t, S s t → T (part s) (part' t))
    (hkeep : ∀ s t u v, S s t → T u v → S (put u s) (put' v t)) : Simulates S S (p.zoom part put) (q.zoom part' put') := by
  intro s t hst
  obtain ⟨hresult, hfinal⟩ := h _ _ (hpart s t hst)
  rw [result_zoom, result_zoom, final_zoom (hput s), final_zoom (hput' t)]
  exact ⟨hresult, hkeep s t _ _ hst hfinal⟩

/-- The same program over parts of the states that agree. -/
theorem zoom {part : σ → υ} {put : υ → σ → σ} {part' : τ → υ} {put' : υ → τ → τ} (p : Program υ ε α)
    (hput : ∀ s, put (part s) s = s) (hput' : ∀ t, put' (part' t) t = t) (hpart : ∀ s t, S s t → part s = part' t)
    (hkeep : ∀ s t u, S s t → S (put u s) (put' u t)) : Simulates S S (p.zoom part put) (p.zoom part' put') := by
  have hself : Simulates (· = ·) (· = ·) p p := fun _ _ h => ⟨h ▸ rfl, h ▸ rfl⟩
  refine hself.zoomOf hput hput' hpart fun s t u _ hst huv => ?_
  subst huv
  exact hkeep s t u hst

end Simulates

end Wayjournal.Crash.Program
