import Wayjournal.Crash.Guarantee

namespace Wayjournal.Crash

variable {σ τ ε ε' α β : Type}

/-- The part of the state that `view` shows stays as it is. -/
def Guarantee.same (view : σ → τ) : Guarantee σ where
  rel s t := view t = view s
  refl _ := rfl
  trans h₁ h₂ := h₂.trans h₁

namespace Program

variable {view : σ → τ} {s t : σ}

/-- The runs of a sequence agree where those of its parts do. -/
theorem bind_congr_at {p q : Program σ ε α} {f g : α → Program σ ε β} (hp : p s = q s)
    (hf : ∀ a, q.result s = .ok a → f a (q.final s) = g a (q.final s)) : (p >>= f) s = (q >>= g) s := by
  have hresult : p.result s = q.result s := by rw [result, hp, ← result]
  have hfinal : p.final s = q.final s := by rw [final, hp, ← final]
  rw [show (p >>= f) = bind p f from rfl, show (q >>= g) = bind q g from rfl]
  cases hr : q.result s with
  | error e => rw [bind_apply_error hr, bind_apply_error (hresult.trans hr), hp]
  | ok a => rw [bind_apply_ok hr, bind_apply_ok (hresult.trans hr), hp, hfinal, result, result, hf a hr]

/-- A program that reads no more than `view` shows. -/
structure Sees (view : σ → τ) (p : Program σ ε α) : Prop where
  readOnly : p.ReadOnly
  result_eq : ∀ {s t}, view s = view t → p.result s = p.result t

namespace Sees

theorem pure (a : α) : (Pure.pure a : Program σ ε α).Sees view := ⟨.pure a, fun _ => rfl⟩

theorem throw (e : ε) : (MonadExcept.throw e : Program σ ε α).Sees view := ⟨.throw e, fun _ => rfl⟩

theorem ofExcept (x : Except ε α) : (Program.ofExcept x : Program σ ε α).Sees view := ⟨.ofExcept x, fun _ => rfl⟩

theorem reads {f : τ → Except ε α} : (Program.reads fun s => f (view s)).Sees view :=
  ⟨.reads _, fun h => congrArg f h⟩

theorem mapError {p : Program σ ε α} (h : p.Sees view) (f : ε → ε') : (p.mapError f).Sees view :=
  ⟨h.readOnly.mapError f, fun heq => by rw [result_mapError, result_mapError, h.result_eq heq]⟩

theorem bindOf {p : Program σ ε α} {f : α → Program σ ε β} (hp : p.Sees view)
    (hf : ∀ s a, p.result s = .ok a → (f a).Sees view) : (p >>= f).Sees view := by
  refine ⟨fun s => ?_, fun {s t} heq => ?_⟩
  · rw [show (p >>= f) = Program.bind p f from rfl]
    cases hr : p.result s with
    | error e => rw [bind_apply_error hr, hp.readOnly s]
    | ok a => rw [bind_apply_ok hr, hp.readOnly s, (hf s a hr).readOnly, List.append_nil]
  · rw [result_bind hp.readOnly, result_bind hp.readOnly, hp.result_eq heq]
    cases hr : p.result t with
    | error e => rfl
    | ok a => exact (hf t a hr).result_eq heq

theorem bind {p : Program σ ε α} {f : α → Program σ ε β} (hp : p.Sees view) (hf : ∀ a, (f a).Sees view) :
    (p >>= f).Sees view :=
  bindOf hp fun _ a _ => hf a

theorem ite {c : Prop} [Decidable c] {p q : Program σ ε α} (hp : p.Sees view) (hq : q.Sees view) :
    (if c then p else q).Sees view := by
  split
  · exact hp
  · exact hq

theorem foldlM {f : β → α → Program σ ε β} (hf : ∀ b a, (f b a).Sees view) (l : List α) (b : β) :
    (l.foldlM f b).Sees view := by
  induction l generalizing b with
  | nil => exact pure b
  | cons a r ih =>
    rw [List.foldlM_cons]
    exact bind (hf b a) fun b' => ih b'

/-- The run in any state that shows the same is the value that was read. -/
theorem apply_eq {p : Program σ ε α} (h : p.Sees view) (heq : view t = view s) {a : α} (hr : p.result s = .ok a) :
    p t = (Pure.pure a : Program σ ε α) t := by
  have hresult : (p t).result = .ok a := (h.result_eq heq).trans hr
  have htrace : (p t).trace = [] := h.readOnly t
  cases hpt : p t with
  | mk trace result =>
    rw [hpt] at hresult htrace
    subst hresult htrace
    rfl

end Sees

end Program

end Wayjournal.Crash
