import Wayjournal.Crash.Program

namespace Wayjournal.Crash.Program

variable {σ ε ε' α β : Type} {s : σ}

/-- A program that makes no write, from whatever state it starts. -/
def ReadOnly (p : Program σ ε α) : Prop := ∀ s, (p s).trace = []

namespace ReadOnly

theorem final {p : Program σ ε α} (h : p.ReadOnly) (s : σ) : p.final s = s := by
  rw [Program.final, h s]
  rfl

theorem pure (a : α) : (Pure.pure a : Program σ ε α).ReadOnly := fun _ => rfl

theorem throw (e : ε) : (MonadExcept.throw e : Program σ ε α).ReadOnly := fun _ => rfl

theorem reads (f : σ → Except ε α) : (Program.reads f).ReadOnly := fun _ => rfl

theorem ofExcept (x : Except ε α) : (Program.ofExcept x : Program σ ε α).ReadOnly := fun _ => rfl

theorem mapError {p : Program σ ε α} (h : p.ReadOnly) (f : ε → ε') : (p.mapError f).ReadOnly := h

theorem attempt {p : Program σ ε α} (h : p.ReadOnly) : (p.attempt : Program σ ε' _).ReadOnly := h

theorem bind {p : Program σ ε α} {f : α → Program σ ε β} (hp : p.ReadOnly) (hf : ∀ a, (f a).ReadOnly) :
    (p >>= f).ReadOnly := by
  intro s
  rw [show (p >>= f) = Program.bind p f from rfl]
  cases hr : p.result s with
  | error e => rw [bind_apply_error hr, hp s]
  | ok a => rw [bind_apply_ok hr, hp s, hf a, List.append_nil]

theorem ite {c : Prop} [Decidable c] {p q : Program σ ε α} (hp : p.ReadOnly) (hq : q.ReadOnly) :
    (if c then p else q).ReadOnly := by
  split
  · exact hp
  · exact hq

theorem foldlM {f : β → α → Program σ ε β} (hf : ∀ b a, (f b a).ReadOnly) (l : List α) (b : β) :
    (l.foldlM f b).ReadOnly := by
  induction l generalizing b with
  | nil => exact pure b
  | cons a r ih =>
    rw [List.foldlM_cons]
    exact bind (hf b a) fun b' => ih b'

theorem forM {f : α → Program σ ε PUnit} (hf : ∀ a, (f a).ReadOnly) (l : List α) : (l.forM f).ReadOnly := by
  induction l with
  | nil => exact pure _
  | cons a r ih => exact bind (hf a) fun _ => ih

theorem mapM {f : α → Program σ ε β} (hf : ∀ a, (f a).ReadOnly) (l : List α) : (l.mapM f).ReadOnly := by
  induction l with
  | nil => exact pure _
  | cons a r ih =>
    rw [List.mapM_cons]
    exact bind (hf a) fun _ => bind ih fun _ => pure _

/-- What a program that only reads leaves behind is where it started. -/
theorem wp {p : Program σ ε α} (h : p.ReadOnly) {crash : σ → Prop} {post : α → σ → Prop} {fail : ε → σ → Prop} :
    p.wp crash post fail s ↔
      match p.result s with
      | .ok a => post a s
      | .error e => fail e s := by
  rw [Program.wp, h.final]
  constructor
  · exact fun hwp => hwp.2
  · refine fun hresult => ⟨fun t ht => ?_, hresult⟩
    rw [h s] at ht
    cases ht

end ReadOnly

@[simp] theorem result_pure (a : α) : (Pure.pure a : Program σ ε α).result s = .ok a := rfl

@[simp] theorem result_throw (e : ε) : (MonadExcept.throw e : Program σ ε α).result s = .error e := rfl

@[simp] theorem result_reads (f : σ → Except ε α) : (reads f).result s = f s := rfl

@[simp] theorem result_ofExcept (x : Except ε α) : (ofExcept x : Program σ ε α).result s = x := rfl

@[simp] theorem result_mapError (f : ε → ε') (p : Program σ ε α) : (p.mapError f).result s = (p.result s).mapError f :=
  rfl

/-- What follows a program that only reads runs from the same state. -/
theorem ReadOnly.bind_apply_ok {p : Program σ ε α} {f : α → Program σ ε β} (h : p.ReadOnly) {a : α}
    (hr : p.result s = .ok a) : (p >>= f) s = f a s := by
  rw [show (p >>= f) = Program.bind p f from rfl, Program.bind_apply_ok hr, h.final, h s]
  rfl

theorem ReadOnly.bind_apply_error {p : Program σ ε α} {f : α → Program σ ε β} (h : p.ReadOnly) {e : ε}
    (hr : p.result s = .error e) : (p >>= f) s = ⟨[], .error e⟩ := by
  rw [show (p >>= f) = Program.bind p f from rfl, Program.bind_apply_error hr, h s]

theorem ReadOnly.result_of_bind {p : Program σ ε α} {f : α → Program σ ε β} (h : p.ReadOnly) {a : α}
    (hr : p.result s = .ok a) : (p >>= f).result s = (f a).result s :=
  congrArg Run.result (h.bind_apply_ok hr)

/-- The results of programs that only read follow one another in the same state. -/
theorem result_bind {p : Program σ ε α} {f : α → Program σ ε β} (h : p.ReadOnly) :
    (p >>= f).result s = p.result s >>= fun a => (f a).result s := by
  rw [show (p >>= f) = Program.bind p f from rfl]
  cases hr : p.result s with
  | error e =>
    rw [result, bind_apply_error hr]
    rfl
  | ok a =>
    rw [result, bind_apply_ok hr, h.final]
    rfl

/-- A sequence returns when its parts do. -/
theorem bind_eq_ok {p : Program σ ε α} {f : α → Program σ ε β} {b : β} :
    (p >>= f).result s = .ok b ↔ ∃ a, p.result s = .ok a ∧ (f a).result (p.final s) = .ok b := by
  rw [show (p >>= f) = Program.bind p f from rfl]
  cases hr : p.result s with
  | error e => simp [result, bind_apply_error hr]
  | ok a => simp [result, bind_apply_ok hr]

theorem guard_eq_ok {c : Prop} [Decidable c] {e : ε} {f : β → Program σ ε α} {p : Program σ ε α} {a : α} :
    (if c then MonadExcept.throw e >>= f else p).result s = .ok a ↔ ¬c ∧ p.result s = .ok a := by
  split
  · rename_i hc
    constructor
    · intro h
      cases h
    · exact fun h => absurd hc h.1
  · rename_i hc
    exact ⟨fun h => ⟨hc, h⟩, fun h => h.2⟩

theorem result_bind_eq_ok {p : Program σ ε α} {f : α → Program σ ε β} {b : β} (h : p.ReadOnly) :
    (p >>= f).result s = .ok b ↔ ∃ a, p.result s = .ok a ∧ (f a).result s = .ok b := by
  rw [result_bind h]
  cases p.result s with
  | error e => simp [Bind.bind, Except.bind]
  | ok a => simp [Bind.bind, Except.bind]

theorem result_foldlM {f : β → α → Program σ ε β} (hf : ∀ b a, (f b a).ReadOnly) (l : List α) (b : β) :
    (l.foldlM f b).result s = l.foldlM (fun b a => (f b a).result s) b := by
  induction l generalizing b with
  | nil => rfl
  | cons a r ih =>
    rw [List.foldlM_cons, result_bind (hf b a), List.foldlM_cons]
    exact bind_congr fun b' => ih b'

theorem result_mapM {f : α → Program σ ε β} (hf : ∀ a, (f a).ReadOnly) (l : List α) :
    (l.mapM f).result s = l.mapM (fun a => (f a).result s) := by
  induction l with
  | nil => rfl
  | cons a r ih =>
    rw [List.mapM_cons, result_bind (hf a), List.mapM_cons]
    refine bind_congr fun b => ?_
    rw [result_bind (.mapM hf r), ih]
    rfl

end Wayjournal.Crash.Program
