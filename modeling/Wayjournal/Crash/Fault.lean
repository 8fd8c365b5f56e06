import Wayjournal.Crash.ReadOnly

namespace Wayjournal.Crash

/-- A call of the system that fails: the error, and the state it leaves if the
program was writing. -/
structure Fault (σ ε : Type) where
  leaves : σ
  error : ε

namespace Program

variable {σ τ ε ε' α β : Type} {s : σ} {fault : Option (Fault σ ε)}

/-- The program with at most one failing call. -/
def under (fault : Option (Fault σ ε)) (p : Program σ ε α) : Program σ ε α := fun s =>
  match fault with
  | none => p s
  | some f => ⟨if (p s).trace.isEmpty then [] else [f.leaves], .error f.error⟩

@[simp] theorem under_none (p : Program σ ε α) : p.under none = p := rfl

theorem ReadOnly.under {p : Program σ ε α} (h : p.ReadOnly) : (p.under fault).ReadOnly := by
  intro s
  cases fault with
  | none => exact h s
  | some f =>
    change (if (p s).trace.isEmpty then [] else [f.leaves]) = []
    rw [h s]
    rfl

/-- A program that returns met no fault. -/
theorem under_eq_ok {p : Program σ ε α} {a : α} (h : (p.under fault).result s = .ok a) : fault = none := by
  cases fault with
  | none => rfl
  | some f => cases h

theorem wp_under {p : Program σ ε α} {post : α → σ → Prop}
    (h : p.wp (fun _ => True) post (fun _ _ => True) s) :
    (p.under fault).wp (fun _ => True) post (fun _ _ => True) s := by
  cases fault with
  | none => exact h
  | some f => exact ⟨fun _ _ => trivial, trivial⟩

section Zoom

variable {part : τ → σ} {put : σ → τ → τ} {t : τ}

@[simp] theorem result_zoom (p : Program σ ε α) : (p.zoom part put).result t = p.result (part t) := rfl

theorem ReadOnly.zoom {p : Program σ ε α} (h : p.ReadOnly) : (p.zoom part put).ReadOnly := by
  intro t
  change (p (part t)).trace.map (put · t) = []
  rw [h (part t)]
  rfl

theorem final_zoom (hput : put (part t) t = t) (p : Program σ ε α) :
    (p.zoom part put).final t = put (p.final (part t)) t := by
  change ((p (part t)).trace.map (put · t)).getLastD t = put ((p (part t)).trace.getLastD (part t)) t
  rw [List.getLastD_eq_getLast?, List.getLastD_eq_getLast?, List.getLast?_map]
  cases (p (part t)).trace.getLast? with
  | none => exact hput.symm
  | some u => rfl

theorem wp_zoom (hput : put (part t) t = t) {p : Program σ ε α} {post : α → τ → Prop} {fail : ε → τ → Prop} :
    (p.zoom part put).wp (fun _ => True) post fail t ↔
      p.wp (fun _ => True) (fun a u => post a (put u t)) (fun e u => fail e (put u t)) (part t) := by
  rw [wp, wp, final_zoom hput, result_zoom]
  simp

end Zoom

/-- What follows a program that returned starts where it ended. -/
theorem final_bind {p : Program σ ε α} {f : α → Program σ ε β} {a : α} (h : p.result s = .ok a) :
    (p >>= f).final s = (f a).final (p.final s) := by
  rw [show (p >>= f) = bind p f from rfl, final, bind_apply_ok h, getLastD_append]
  rfl

theorem final_bind_pure (p : Program σ ε α) (g : α → β) : (p >>= fun a => Pure.pure (g a)).final s = p.final s := by
  cases h : p.result s with
  | error e =>
    rw [show (p >>= fun a => Pure.pure (g a)) = bind p (fun a => Pure.pure (g a)) from rfl, final, bind_apply_error h]
    rfl
  | ok a => exact final_bind h

/-- The turn of one element of a loop: where it starts, what it returns and where it ends. -/
theorem mapM_turn {f : α → Program σ ε β} {l : List α} {r : List β} (h : (l.mapM f).result s = .ok r) {i : Nat} {a : α}
    (ha : l[i]? = some a) : ∃ b, (f a).result (((l.take i).mapM f).final s) = .ok b ∧ r[i]? = some b ∧
      ((l.take (i + 1)).mapM f).final s = (f a).final (((l.take i).mapM f).final s) := by
  induction l generalizing s r i with
  | nil => cases ha
  | cons x l ih =>
    rw [List.mapM_cons, bind_eq_ok] at h
    obtain ⟨b, hb, h⟩ := h
    obtain ⟨bs, hbs, h⟩ := bind_eq_ok.mp h
    cases h
    cases i with
    | zero =>
      cases ha
      refine ⟨b, hb, rfl, ?_⟩
      change ((a :: []).mapM f).final s = (f a).final s
      rw [List.mapM_cons, final_bind hb]
      rfl
    | succ i =>
      obtain ⟨c, hc, hr, hfinal⟩ := ih hbs ha
      have htake : ∀ k, (((x :: l).take (k + 1)).mapM f).final s = ((l.take k).mapM f).final ((f x).final s) := by
        intro k
        rw [List.take_succ_cons, List.mapM_cons, final_bind hb, final_bind_pure]
      refine ⟨c, ?_, hr, ?_⟩
      · rw [htake]
        exact hc
      · rw [htake, htake]
        exact hfinal

end Program

end Wayjournal.Crash
