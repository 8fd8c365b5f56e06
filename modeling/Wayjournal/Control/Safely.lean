import Wayjournal.Control.Ensures

namespace Wayjournal

variable {σ ε α β : Type} {bad : ε → Prop}

/-- A result that is no failure of the bad kind. -/
def Avoids (bad : ε → Prop) (x : Except ε α) : Prop := ∀ e, x = .error e → ¬ bad e

namespace Avoids

variable {x : Except ε α} {f : α → Except ε β}

theorem ok (a : α) : Avoids bad (.ok a : Except ε α) := by
  rintro e ⟨⟩

theorem error {e : ε} (h : ¬ bad e) : Avoids bad (.error e : Except ε α) := by
  rintro e ⟨⟩
  exact h

theorem bind (hx : Avoids bad x) (hf : ∀ a, Avoids bad (f a)) : Avoids bad (x >>= f) := by
  cases x with
  | error e => exact error (hx e rfl)
  | ok a => exact hf a

theorem ite {c : Prop} [Decidable c] {y : Except ε α} (hx : Avoids bad x) (hy : Avoids bad y) :
    Avoids bad (if c then x else y) := by
  by_cases h : c
  · rwa [if_pos h]
  · rwa [if_neg h]

/-- A check that refuses in another way. -/
theorem guard {γ : Type} {c : Prop} [Decidable c] {e : ε} {g : γ → Except ε α} (he : ¬ bad e) (hx : Avoids bad x) :
    Avoids bad (if c then throw e >>= g else x) :=
  ite (error he) hx

theorem mapError {ε' : Type} {y : Except ε' α} {g : ε' → ε} (h : ∀ e, ¬ bad (g e)) : Avoids bad (y.mapError g) := by
  cases y with
  | error e => exact error (h e)
  | ok a => exact ok a

theorem mapM {f : α → Except ε β} (h : ∀ a, Avoids bad (f a)) (l : List α) : Avoids bad (l.mapM f) := by
  induction l with
  | nil => exact ok []
  | cons a l ih =>
    rw [List.mapM_cons]
    exact bind (h a) fun b => bind ih fun bs => ok _

theorem foldlM {f : β → α → Except ε β} (h : ∀ b a, Avoids bad (f b a)) (l : List α) (b : β) : Avoids bad (l.foldlM f b) := by
  induction l generalizing b with
  | nil => exact ok b
  | cons a l ih =>
    rw [List.foldlM_cons]
    exact bind (h b a) ih

theorem forM {f : α → Except ε PUnit} (h : ∀ a, Avoids bad (f a)) (l : List α) : Avoids bad (l.forM f) := by
  induction l with
  | nil => exact ok _
  | cons a l ih => exact bind (h a) fun _ => ih

end Avoids

/-- A computation that does not fail in the bad way, and what holds when it returns. -/
def Safely (bad : ε → Prop) (x : StateT σ (Except ε) α) (s : σ) (post : α → σ → Prop) : Prop :=
  Avoids bad (x.run s) ∧ ∀ a t, x.run s = .ok (a, t) → post a t

namespace Safely

variable {x : StateT σ (Except ε) α} {f : α → StateT σ (Except ε) β} {s : σ} {post mid : α → σ → Prop} {post' : β → σ → Prop}

theorem mono (h : Safely bad x s mid) (hpost : ∀ a t, mid a t → post a t) : Safely bad x s post :=
  ⟨h.1, fun a t hrun => hpost a t (h.2 a t hrun)⟩

theorem run' (h : Safely bad x s fun _ _ => True) : Avoids bad (x.run' s) := by
  have hrun : x.run' s = (x.run s).map Prod.fst := rfl
  rw [hrun]
  intro e he
  cases hx : x.run s with
  | error e' =>
    rw [hx] at he
    cases he
    exact h.1 _ hx
  | ok r =>
    rw [hx] at he
    cases he

theorem pure {a : α} (h : post a s) : Safely bad (Pure.pure a : StateT σ (Except ε) α) s post := by
  refine ⟨.ok _, ?_⟩
  rintro a t ⟨⟩
  exact h

theorem throw {e : ε} (h : ¬ bad e) : Safely bad (MonadExcept.throw e : StateT σ (Except ε) α) s post := by
  refine ⟨.error h, ?_⟩
  rintro a t ⟨⟩

theorem lift {y : Except ε α} (hy : Avoids bad y) (h : ∀ a, y = .ok a → post a s) :
    Safely bad (liftM y : StateT σ (Except ε) α) s post := by
  cases y with
  | error e => exact throw (hy e rfl)
  | ok a => exact pure (h a rfl)

theorem bind (hx : Safely bad x s mid) (hf : ∀ a t, mid a t → Safely bad (f a) t post') : Safely bad (x >>= f) s post' := by
  have hrun : (x >>= f).run s = (x.run s >>= fun r => (f r.1).run r.2) := rfl
  unfold Safely
  rw [hrun]
  cases hx' : x.run s with
  | error e => exact ⟨.error (hx.1 e hx'), fun _ _ h => by cases h⟩
  | ok r => exact hf r.1 r.2 (hx.2 r.1 r.2 hx')

theorem liftBind {y : Except ε α} (hy : Avoids bad y) (hf : ∀ a, y = .ok a → Safely bad (f a) s post') :
    Safely bad ((liftM y : StateT σ (Except ε) α) >>= f) s post' := by
  have hlift : Safely bad (liftM y : StateT σ (Except ε) α) s (fun a t => y = .ok a ∧ t = s) :=
    lift hy fun a ha => ⟨ha, rfl⟩
  refine bind hlift ?_
  rintro a t ⟨ha, rfl⟩
  exact hf a ha

theorem ite {c : Prop} [Decidable c] {y : StateT σ (Except ε) α} (hx : c → Safely bad x s post) (hy : ¬c → Safely bad y s post) :
    Safely bad (if c then x else y) s post := by
  by_cases h : c
  · rw [if_pos h]
    exact hx h
  · rw [if_neg h]
    exact hy h

/-- A check that refuses in another way. -/
theorem guard {γ : Type} {c : Prop} [Decidable c] {e : ε} {g : γ → StateT σ (Except ε) α} (he : ¬ bad e)
    (hx : ¬c → Safely bad x s post) : Safely bad (if c then MonadExcept.throw e >>= g else x) s post :=
  ite (fun _ => bind (throw he : Safely bad _ s fun _ _ => False) fun _ _ h => h.elim) hx

/-- What is known of the value anyway. -/
theorem ensures {known : α → Prop} (h : Safely bad x s post) (hknown : Ensures x known) :
    Safely bad x s (fun a t => known a ∧ post a t) :=
  ⟨h.1, fun a t hrun => ⟨hknown s a t hrun, h.2 a t hrun⟩⟩

/-- The rule of a loop: an invariant of the elements taken so far. -/
theorem foldlM {f : β → α → StateT σ (Except ε) β} {l : List α} {b : β} (inv : List α → β → σ → Prop) (h : inv [] b s)
    (hstep : ∀ done a rest b s, done ++ a :: rest = l → inv done b s → Safely bad (f b a) s (inv (done ++ [a]))) :
    Safely bad (l.foldlM f b) s (inv l) := by
  have hloop : ∀ done rest b s, done ++ rest = l → inv done b s → Safely bad (rest.foldlM f b) s (inv l) := by
    intro done rest
    induction rest generalizing done with
    | nil =>
      rintro b s rfl hdone
      rw [List.append_nil]
      exact pure hdone
    | cons a rest ih =>
      intro b s heq hdone
      rw [List.foldlM_cons]
      refine bind (hstep done a rest b s heq hdone) fun b' t hb' => ?_
      exact ih (done ++ [a]) b' t (by rw [← heq, List.append_assoc]; rfl) hb'
  exact hloop [] l b s rfl h

end Safely

end Wayjournal
