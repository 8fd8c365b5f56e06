import Wayjournal.Control.Except

namespace Wayjournal

variable {σ ε α β : Type}

/-- What holds of the value of a computation whenever it returns one. -/
def Ensures (x : StateT σ (Except ε) α) (post : α → Prop) : Prop := ∀ s a t, x.run s = .ok (a, t) → post a

namespace Ensures

variable {x : StateT σ (Except ε) α} {f : α → StateT σ (Except ε) β} {post : α → Prop} {post' : β → Prop}

theorem mono (h : Ensures x post) {weaker : α → Prop} (hpost : ∀ a, post a → weaker a) : Ensures x weaker :=
  fun s a t hrun => hpost a (h s a t hrun)

theorem run' (h : Ensures x post) {s : σ} {a : α} (hrun : x.run' s = .ok a) : post a := by
  have hmap : (x.run s).map Prod.fst = .ok a := hrun
  cases hx : x.run s with
  | error e =>
    rw [hx] at hmap
    cases hmap
  | ok r =>
    rw [hx] at hmap
    cases hmap
    exact h s r.1 r.2 hx

theorem pure {a : α} (h : post a) : Ensures (Pure.pure a : StateT σ (Except ε) α) post := by
  rintro s a t hrun
  cases hrun
  exact h

theorem throw (e : ε) : Ensures (MonadExcept.throw e : StateT σ (Except ε) α) post := by
  rintro s a t hrun
  cases hrun

theorem lift {y : Except ε α} (h : ∀ a, y = .ok a → post a) : Ensures (liftM y : StateT σ (Except ε) α) post := by
  intro s a t hrun
  cases y with
  | error e => cases hrun
  | ok b =>
    cases hrun
    exact h _ rfl

theorem bind (hx : Ensures x post) (hf : ∀ a, post a → Ensures (f a) post') : Ensures (x >>= f) post' := by
  intro s b t hrun
  have hrun : (x.run s >>= fun r => (f r.1).run r.2) = .ok (b, t) := hrun
  obtain ⟨⟨a, u⟩, ha, hb⟩ := except_bind_eq_ok.mp hrun
  exact hf a (hx s a u ha) u b t hb

/-- The same with what holds in between given. -/
theorem via (mid : α → Prop) (hx : Ensures x mid) (hf : ∀ a, mid a → Ensures (f a) post') : Ensures (x >>= f) post' :=
  bind hx hf

theorem skip (hf : ∀ a, Ensures (f a) post') : Ensures (x >>= f) post' :=
  via (fun _ => True) (fun _ _ _ _ => trivial) fun a _ => hf a

theorem ite {c : Prop} [Decidable c] {y : StateT σ (Except ε) α} (hx : c → Ensures x post)
    (hy : ¬c → Ensures y post) : Ensures (if c then x else y) post := by
  by_cases h : c
  · rw [if_pos h]
    exact hx h
  · rw [if_neg h]
    exact hy h

/-- A check that refuses, and what it guarantees from there on. -/
theorem guard {γ : Type} {c : Prop} [Decidable c] {e : ε} {g : γ → StateT σ (Except ε) α} (hx : ¬c → Ensures x post) :
    Ensures (if c then MonadExcept.throw e >>= g else x) post :=
  ite (fun _ => via (fun _ => False) (throw e) fun _ h => h.elim) hx

/-- The rule of a loop: an invariant of the elements taken so far. -/
theorem foldlM {f : β → α → StateT σ (Except ε) β} {l : List α} {b : β} (inv : List α → β → Prop) (h : inv [] b)
    (hstep : ∀ done a b, a ∈ l → inv done b → Ensures (f b a) (inv (done ++ [a]))) : Ensures (l.foldlM f b) (inv l) := by
  have hloop : ∀ done rest b, done ++ rest = l → inv done b → Ensures (rest.foldlM f b) (inv l) := by
    intro done rest
    induction rest generalizing done with
    | nil =>
      rintro b rfl hdone
      rw [List.append_nil]
      exact pure hdone
    | cons a rest ih =>
      intro b heq hdone
      rw [List.foldlM_cons]
      refine bind (hstep done a b (heq ▸ List.mem_append_right _ List.mem_cons_self) hdone) fun b' hb' => ?_
      exact ih (done ++ [a]) b' (by rw [← heq, List.append_assoc]; rfl) hb'
  exact hloop [] l b rfl h

end Ensures

end Wayjournal
