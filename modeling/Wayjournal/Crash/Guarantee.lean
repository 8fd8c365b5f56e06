import Wayjournal.Crash.ReadOnly

namespace Wayjournal.Crash

/-- What one state may become: a reflexive and transitive relation. -/
structure Guarantee (σ : Type) where
  rel : σ → σ → Prop
  refl : ∀ s, rel s s
  trans : ∀ {s t u}, rel s t → rel t u → rel s u

namespace Program

variable {σ ε ε' α β : Type} {G : Guarantee σ}

/-- Every state the program passes through is one its first state may become. -/
def Keeps (G : Guarantee σ) (p : Program σ ε α) : Prop := ∀ s, ∀ t ∈ (p s).trace, G.rel s t

namespace Keeps

theorem final {p : Program σ ε α} (h : p.Keeps G) (s : σ) : G.rel s (p.final s) := by
  obtain heq | hmem := getLastD_mem (p s).trace s
  · rw [Program.final, heq]
    exact G.refl s
  · exact h s _ hmem

theorem cut {p : Program σ ε α} (h : p.Keeps G) (s : σ) (n : Nat) : G.rel s (p.cut s n) := by
  obtain heq | hmem := p.cut_mem s n
  · rw [heq]
    exact G.refl s
  · exact h s _ hmem

theorem mono {G' : Guarantee σ} {p : Program σ ε α} (h : p.Keeps G) (hG : ∀ s t, G.rel s t → G'.rel s t) :
    p.Keeps G' :=
  fun s t ht => hG s t (h s t ht)

theorem readOnly {p : Program σ ε α} (h : p.ReadOnly) : p.Keeps G := by
  intro s t ht
  rw [h s] at ht
  cases ht

theorem pure (a : α) : (Pure.pure a : Program σ ε α).Keeps G := readOnly (.pure a)

theorem throw (e : ε) : (MonadExcept.throw e : Program σ ε α).Keeps G := readOnly (.throw e)

theorem reads (f : σ → Except ε α) : (Program.reads f).Keeps G := readOnly (.reads f)

theorem ofExcept (x : Except ε α) : (Program.ofExcept x : Program σ ε α).Keeps G := readOnly (.ofExcept x)

theorem mapError {p : Program σ ε α} (h : p.Keeps G) (f : ε → ε') : (p.mapError f).Keeps G := h

theorem attempt {p : Program σ ε α} (h : p.Keeps G) : (p.attempt : Program σ ε' _).Keeps G := h

/-- A program over a part of the state keeps to what may happen to that part. -/
theorem zoom {τ : Type} {part : σ → τ} {put : τ → σ → σ} (p : Program τ ε α) (h : ∀ s u, G.rel s (put u s)) :
    (p.zoom part put).Keeps G := by
  intro s t ht
  obtain ⟨u, -, rfl⟩ := List.mem_map.mp ht
  exact h s u

theorem update {f : σ → Except ε σ} (h : ∀ s t, f s = .ok t → G.rel s t) : (Program.update f).Keeps G := by
  intro s t ht
  unfold Program.update at ht
  split at ht
  · cases ht
  · rename_i u hu
    obtain rfl := List.mem_singleton.mp ht
    exact h s t hu

/-- What follows only has to keep to the relation for the values the first part can return. -/
theorem bindOf {p : Program σ ε α} {f : α → Program σ ε β} (hp : p.Keeps G)
    (hf : ∀ s a, p.result s = .ok a → (f a).Keeps G) : (p >>= f).Keeps G := by
  intro s t ht
  rw [show (p >>= f) = Program.bind p f from rfl] at ht
  cases hr : p.result s with
  | error e =>
    rw [bind_apply_error hr] at ht
    exact hp s t ht
  | ok a =>
    rw [bind_apply_ok hr] at ht
    obtain ht | ht := List.mem_append.mp ht
    · exact hp s t ht
    · exact G.trans (hp.final s) (hf s a hr _ t ht)

theorem bind {p : Program σ ε α} {f : α → Program σ ε β} (hp : p.Keeps G) (hf : ∀ a, (f a).Keeps G) :
    (p >>= f).Keeps G :=
  bindOf hp fun _ a _ => hf a

theorem throwBind {e : ε} {f : α → Program σ ε β} : (MonadExcept.throw e >>= f : Program σ ε β).Keeps G :=
  bindOf (.throw e) fun _ _ h => nomatch h

/-- What follows a check that may end the program. -/
theorem guard {c : Prop} [Decidable c] {e : ε} {f : α → Program σ ε β} {p : Program σ ε β} (hp : p.Keeps G) :
    (if c then MonadExcept.throw e >>= f else p).Keeps G := by
  split
  · exact throwBind
  · exact hp

theorem tryCatch {p : Program σ ε α} {handler : ε → Program σ ε α} (hp : p.Keeps G)
    (hhandler : ∀ e, (handler e).Keeps G) : (Program.tryCatch p handler).Keeps G := by
  intro s t ht
  unfold Program.tryCatch at ht
  split at ht
  · obtain ht | ht := List.mem_append.mp ht
    · exact hp s t ht
    · exact G.trans (hp.final s) (hhandler _ _ t ht)
  · exact hp s t ht

theorem ite {c : Prop} [Decidable c] {p q : Program σ ε α} (hp : p.Keeps G) (hq : q.Keeps G) :
    (if c then p else q).Keeps G := by
  split
  · exact hp
  · exact hq

theorem foldlM {f : β → α → Program σ ε β} (hf : ∀ b a, (f b a).Keeps G) (l : List α) (b : β) :
    (l.foldlM f b).Keeps G := by
  induction l generalizing b with
  | nil => exact pure b
  | cons a r ih =>
    rw [List.foldlM_cons]
    exact bind (hf b a) fun b' => ih b'

theorem forMOf {f : α → Program σ ε PUnit} {l : List α} (hf : ∀ a ∈ l, (f a).Keeps G) : (l.forM f).Keeps G := by
  induction l with
  | nil => exact pure _
  | cons a r ih => exact bind (hf a List.mem_cons_self) fun _ => ih fun b hb => hf b (List.mem_cons_of_mem _ hb)

theorem forM {f : α → Program σ ε PUnit} (hf : ∀ a, (f a).Keeps G) (l : List α) : (l.forM f).Keeps G :=
  forMOf fun a _ => hf a

theorem mapMOf {f : α → Program σ ε β} {l : List α} (hf : ∀ a ∈ l, (f a).Keeps G) : (l.mapM f).Keeps G := by
  induction l with
  | nil => exact pure _
  | cons a r ih =>
    rw [List.mapM_cons]
    exact bind (hf a List.mem_cons_self) fun _ =>
      bind (ih fun b hb => hf b (List.mem_cons_of_mem _ hb)) fun _ => pure _

theorem mapM {f : α → Program σ ε β} (hf : ∀ a, (f a).Keeps G) (l : List α) : (l.mapM f).Keeps G :=
  mapMOf fun a _ => hf a

/-- The rule of postconditions for what every state of the program satisfies. -/
theorem wp {p : Program σ ε α} (h : p.Keeps G) (s : σ) :
    p.wp (G.rel s) (fun _ => G.rel s) (fun _ => G.rel s) s := by
  refine ⟨h s, ?_⟩
  split
  · exact h.final s
  · exact h.final s

end Keeps

/-- A loop does not return when one of its steps is refused in every state the first one may become. -/
theorem foldlM_ne_ok {f : β → α → Program σ ε β} (hkeeps : ∀ b a, (f b a).Keeps G) {l : List α} {a : α} (ha : a ∈ l)
    {s : σ} (hfail : ∀ t b b', G.rel s t → (f b a).result t ≠ .ok b') (b b' : β) :
    (l.foldlM f b).result s ≠ .ok b' := by
  induction l generalizing s b with
  | nil => cases ha
  | cons x r ih =>
    intro h
    rw [List.foldlM_cons, bind_eq_ok] at h
    obtain ⟨c, hc, h⟩ := h
    obtain rfl | ha := List.mem_cons.mp ha
    · exact hfail s b c (G.refl s) hc
    · exact ih ha (fun t d d' ht => hfail t d d' (G.trans ((hkeeps b x).final s) ht)) c h

theorem forM_ne_ok {f : α → Program σ ε PUnit} (hkeeps : ∀ a, (f a).Keeps G) {l : List α} {a : α} (ha : a ∈ l) {s : σ}
    (hfail : ∀ t, G.rel s t → (f a).result t ≠ .ok ⟨⟩) : (l.forM f).result s ≠ .ok ⟨⟩ := by
  induction l generalizing s with
  | nil => cases ha
  | cons x r ih =>
    intro h
    obtain ⟨_, hx, h⟩ := bind_eq_ok.mp (show (f x >>= fun _ => r.forM f).result s = .ok ⟨⟩ from h)
    obtain rfl | ha := List.mem_cons.mp ha
    · exact hfail s (G.refl s) hx
    · exact ih ha (fun t ht => hfail t (G.trans ((hkeeps x).final s) ht)) h

end Program

end Wayjournal.Crash
