import Mathlib.Logic.Relation

namespace Wayjournal.Crash

/-- One execution: the durable states it passes through in order and its result. -/
structure Run (σ ε α : Type) where
  trace : List σ
  result : Except ε α

/-- A program over a durable state that can be cut off between its writes. -/
def Program (σ ε α : Type) := σ → Run σ ε α

namespace Program

variable {σ τ ε ε' α β γ : Type}

def final (p : Program σ ε α) (s : σ) : σ := (p s).trace.getLastD s

def result (p : Program σ ε α) (s : σ) : Except ε α := (p s).result

def pure (a : α) : Program σ ε α := fun _ => ⟨[], .ok a⟩

def bind (p : Program σ ε α) (f : α → Program σ ε β) : Program σ ε β := fun s =>
  match p.result s with
  | .error e => ⟨(p s).trace, .error e⟩
  | .ok a => ⟨(p s).trace ++ (f a (p.final s)).trace, (f a).result (p.final s)⟩

instance : Monad (Program σ ε) where
  pure := pure
  bind := bind

def throw (e : ε) : Program σ ε α := fun _ => ⟨[], .error e⟩

def tryCatch (p : Program σ ε α) (handler : ε → Program σ ε α) : Program σ ε α := fun s =>
  match p.result s with
  | .error e => ⟨(p s).trace ++ (handler e (p.final s)).trace, (handler e).result (p.final s)⟩
  | .ok a => ⟨(p s).trace, .ok a⟩

instance : MonadExceptOf ε (Program σ ε) where
  throw := throw
  tryCatch := tryCatch

/-- What the program computes from the state it reads. -/
def reads (f : σ → Except ε α) : Program σ ε α := fun s => ⟨[], f s⟩

def ofExcept (x : Except ε α) : Program σ ε α := reads (fun _ => x)

/-- One durable write that may be refused. -/
def update (f : σ → Except ε σ) : Program σ ε Unit := fun s =>
  match f s with
  | .error e => ⟨[], .error e⟩
  | .ok t => ⟨[t], .ok ()⟩

def mapError (f : ε → ε') (p : Program σ ε α) : Program σ ε' α := fun s =>
  ⟨(p s).trace, (p.result s).mapError f⟩

/-- The result of the program as a value. -/
def attempt (p : Program σ ε α) : Program σ ε' (Except ε α) := fun s => ⟨(p s).trace, .ok (p.result s)⟩

/-- A program over a part of the state. -/
def zoom (part : τ → σ) (put : σ → τ → τ) (p : Program σ ε α) : Program τ ε α := fun t =>
  ⟨(p (part t)).trace.map (put · t), p.result (part t)⟩

/-- The state a cut after `n` writes leaves. -/
def cut (p : Program σ ε α) (s : σ) (n : Nat) : σ := ((p s).trace.take n).getLastD s

/-- Any number of executions, each cut off after some writes. -/
def CutRuns (p : Program σ ε α) : σ → σ → Prop :=
  Relation.ReflTransGen (fun s t => ∃ n, t = p.cut s n)

theorem getLastD_mem (l : List σ) (s : σ) : l.getLastD s = s ∨ l.getLastD s ∈ l := by
  cases l with
  | nil => exact .inl rfl
  | cons a l =>
    rw [List.getLastD_eq_getLast?]
    right
    rw [List.getLast?_eq_some_getLast (List.cons_ne_nil a l)]
    exact List.getLast_mem _

theorem cut_mem (p : Program σ ε α) (s : σ) (n : Nat) : p.cut s n = s ∨ p.cut s n ∈ (p s).trace := by
  obtain h | h := getLastD_mem ((p s).trace.take n) s
  · exact .inl h
  · exact .inr (List.mem_of_mem_take h)

/-- From `s` every state after a write satisfies `crash`, a result satisfies `post`
and an error satisfies `fail`. -/
def wp (p : Program σ ε α) (crash : σ → Prop) (post : α → σ → Prop) (fail : ε → σ → Prop)
    (s : σ) : Prop :=
  (∀ t ∈ (p s).trace, crash t) ∧
    match p.result s with
    | .ok a => post a (p.final s)
    | .error e => fail e (p.final s)

variable {crash : σ → Prop} {post : α → σ → Prop} {fail : ε → σ → Prop} {s : σ}

theorem wp_mono {crash' : σ → Prop} {post' : α → σ → Prop} {fail' : ε → σ → Prop}
    {p : Program σ ε α} (h : p.wp crash post fail s) (hcrash : ∀ t, crash t → crash' t)
    (hpost : ∀ a t, post a t → post' a t) (hfail : ∀ e t, fail e t → fail' e t) :
    p.wp crash' post' fail' s := by
  obtain ⟨htrace, hresult⟩ := h
  refine ⟨fun t ht => hcrash t (htrace t ht), ?_⟩
  split at hresult
  · exact hpost _ _ hresult
  · exact hfail _ _ hresult

@[simp] theorem wp_pure {a : α} :
    (Pure.pure a : Program σ ε α).wp crash post fail s ↔ post a s := by
  constructor
  · exact fun h => h.2
  · exact fun h => ⟨fun t ht => absurd ht List.not_mem_nil, h⟩

@[simp] theorem wp_throw {e : ε} :
    (MonadExcept.throw e : Program σ ε α).wp crash post fail s ↔ fail e s := by
  constructor
  · exact fun h => h.2
  · exact fun h => ⟨fun t ht => absurd ht List.not_mem_nil, h⟩

theorem getLastD_append (l r : List σ) (s : σ) :
    (l ++ r).getLastD s = r.getLastD (l.getLastD s) := by
  cases r with
  | nil => simp
  | cons a r => simp [List.getLastD_eq_getLast?, List.getLast?_append]

theorem bind_apply_ok {p : Program σ ε α} {f : α → Program σ ε β} {a : α} (h : p.result s = .ok a) :
    bind p f s = ⟨(p s).trace ++ (f a (p.final s)).trace, (f a).result (p.final s)⟩ := by
  unfold bind
  rw [h]

theorem bind_apply_error {p : Program σ ε α} {f : α → Program σ ε β} {e : ε}
    (h : p.result s = .error e) : bind p f s = ⟨(p s).trace, .error e⟩ := by
  unfold bind
  rw [h]

theorem bind_pure_self (p : Program σ ε α) : bind p (fun a => pure a) = p := by
  funext s
  cases h : p.result s with
  | error e =>
    rw [bind_apply_error h, ← h]
    rfl
  | ok a =>
    rw [bind_apply_ok h]
    simp only [pure, List.append_nil, result]
    rw [← h]
    rfl

theorem bind_bind (p : Program σ ε α) (f : α → Program σ ε β) (g : β → Program σ ε γ) :
    bind (bind p f) g = bind p (fun a => bind (f a) g) := by
  funext s
  cases h : p.result s with
  | error e =>
    have hbind : (bind p f).result s = .error e := by rw [result, bind_apply_error h]
    rw [bind_apply_error hbind, bind_apply_error h, bind_apply_error h]
  | ok a =>
    have hfinal : (bind p f).final s = (f a).final (p.final s) := by
      rw [final, bind_apply_ok h, getLastD_append]
      rfl
    have hresult : (bind p f).result s = (f a).result (p.final s) := by rw [result, bind_apply_ok h]
    cases hf : (f a).result (p.final s) with
    | error e =>
      rw [bind_apply_error (hresult.trans hf), bind_apply_ok h, bind_apply_ok h]
      simp only [result, bind_apply_error hf]
    | ok b =>
      rw [bind_apply_ok (hresult.trans hf), bind_apply_ok h, bind_apply_ok h, hfinal]
      simp only [result, bind_apply_ok hf, List.append_assoc]

instance : LawfulMonad (Program σ ε) :=
  LawfulMonad.mk' _ (fun p => bind_pure_self p) (fun _ _ => rfl) (fun p f g => bind_bind p f g)

theorem wp_seq {l : List σ} {q : Run σ ε β} {t : σ} {post : β → σ → Prop} (ht : l.getLastD s = t) :
    ((∀ u ∈ l ++ q.trace, crash u) ∧
      match q.result with
      | .ok b => post b ((l ++ q.trace).getLastD s)
      | .error e => fail e ((l ++ q.trace).getLastD s)) ↔
    (∀ u ∈ l, crash u) ∧ (∀ u ∈ q.trace, crash u) ∧
      match q.result with
      | .ok b => post b (q.trace.getLastD t)
      | .error e => fail e (q.trace.getLastD t) := by
  simp only [getLastD_append, ht, List.mem_append, or_imp, forall_and, and_assoc]

@[simp] theorem wp_bind {p : Program σ ε α} {f : α → Program σ ε β} {post : β → σ → Prop} :
    (p >>= f).wp crash post fail s ↔
      p.wp crash (fun a t => (f a).wp crash post fail t) fail s := by
  rw [show (p >>= f) = bind p f from rfl]
  unfold wp result final bind
  cases hr : p.result s with
  | error e =>
    have hr' : (p s).result = .error e := hr
    simp only [hr']
  | ok a =>
    have hr' : (p s).result = .ok a := hr
    simp only [hr']
    exact wp_seq rfl

@[simp] theorem wp_tryCatch {p : Program σ ε α} {handler : ε → Program σ ε α} :
    (tryCatch p handler).wp crash post fail s ↔
      p.wp crash post (fun e t => (handler e).wp crash post fail t) s := by
  unfold wp result final tryCatch
  cases hr : p.result s with
  | error e =>
    have hr' : (p s).result = .error e := hr
    simp only [hr']
    exact wp_seq rfl
  | ok a =>
    have hr' : (p s).result = .ok a := hr
    simp only [hr']

theorem wp_reads {f : σ → Except ε α} :
    (reads f).wp crash post fail s ↔
      match f s with
      | .ok a => post a s
      | .error e => fail e s := by
  constructor
  · exact fun h => h.2
  · exact fun h => ⟨fun t ht => absurd ht List.not_mem_nil, h⟩

theorem wp_reads_ok {f : σ → Except ε α} {a : α} (h : f s = .ok a) :
    (reads f).wp crash post fail s ↔ post a s := by
  rw [wp_reads, h]

theorem wp_ofExcept_ok {x : Except ε α} {a : α} (h : x = .ok a) :
    (ofExcept x).wp crash post fail s ↔ post a s :=
  wp_reads_ok h

theorem wp_update {f : σ → Except ε σ} {post : Unit → σ → Prop} :
    (update f).wp crash post fail s ↔
      match f s with
      | .ok t => crash t ∧ post () t
      | .error e => fail e s := by
  unfold wp result final update
  cases f s with
  | error e => simp
  | ok t => simp [List.getLastD]

theorem wp_update_ok {f : σ → Except ε σ} {post : Unit → σ → Prop} {t : σ} (h : f s = .ok t) :
    (update f).wp crash post fail s ↔ crash t ∧ post () t := by
  rw [wp_update, h]

theorem wp_and {crash' : σ → Prop} {post' : α → σ → Prop} {fail' : ε → σ → Prop} {p : Program σ ε α}
    (h : p.wp crash post fail s) (h' : p.wp crash' post' fail' s) :
    p.wp (fun t => crash t ∧ crash' t) (fun a t => post a t ∧ post' a t) (fun e t => fail e t ∧ fail' e t) s := by
  refine ⟨fun t ht => ⟨h.1 t ht, h'.1 t ht⟩, ?_⟩
  have hresult := h.2
  have hresult' := h'.2
  split
  · rename_i a ha
    rw [ha] at hresult hresult'
    exact ⟨hresult, hresult'⟩
  · rename_i e he
    rw [he] at hresult hresult'
    exact ⟨hresult, hresult'⟩

/-- What is said of the end of a sequence alone. -/
theorem wp_last {p : Program σ ε α} {f : α → Program σ ε β} {post : β → σ → Prop}
    (h : ∀ a t, (f a).wp (fun _ => True) post (fun _ _ => True) t) :
    (p >>= f).wp (fun _ => True) post (fun _ _ => True) s := by
  refine wp_bind.mpr ⟨fun _ _ => trivial, ?_⟩
  split
  · exact h _ _
  · trivial

theorem post_of_wp {p : Program σ ε α} {a : α} (h : p.wp crash post fail s) (ha : p.result s = .ok a) :
    post a (p.final s) := by
  have hresult := h.2
  rw [ha] at hresult
  exact hresult

theorem wp_guard {c : Prop} [Decidable c] {e : ε} {f : β → Program σ ε α} {p : Program σ ε α} :
    (if c then MonadExcept.throw e >>= f else p).wp crash post fail s ↔
      (c → fail e s) ∧ (¬c → p.wp crash post fail s) := by
  by_cases h : c
  · rw [if_pos h, wp_bind, wp_throw]
    exact ⟨fun hfail => ⟨fun _ => hfail, fun hn => absurd h hn⟩, fun hboth => hboth.1 h⟩
  · rw [if_neg h]
    exact ⟨fun hp => ⟨fun hc => absurd hc h, fun _ => hp⟩, fun hboth => hboth.2 h⟩

/-- The rule for a loop: an invariant of the elements still to come. -/
theorem wp_forM {f : α → Program σ ε PUnit} {l : List α} {post : PUnit → σ → Prop}
    (inv : List α → σ → Prop)
    (hstep : ∀ a r t, inv (a :: r) t → (f a).wp crash (fun _ => inv r) fail t) (hs : inv l s)
    (hpost : ∀ t, inv [] t → post ⟨⟩ t) : (l.forM f).wp crash post fail s := by
  induction l generalizing s with
  | nil => exact wp_pure.mpr (hpost s hs)
  | cons a r ih =>
    change (f a >>= fun _ => r.forM f).wp crash post fail s
    exact wp_bind.mpr (wp_mono (hstep a r s hs) (fun _ h => h) (fun _ t ht => ih ht) (fun _ _ h => h))

theorem wp_foldlM {f : β → α → Program σ ε β} {l : List α} {b : β} {post : β → σ → Prop}
    (inv : List α → β → σ → Prop)
    (hstep : ∀ b a r t, inv (a :: r) b t → (f b a).wp crash (fun b => inv r b) fail t)
    (hs : inv l b s) (hpost : ∀ b t, inv [] b t → post b t) :
    (l.foldlM f b).wp crash post fail s := by
  induction l generalizing s b with
  | nil => exact wp_pure.mpr (hpost b s hs)
  | cons a r ih =>
    rw [List.foldlM_cons]
    exact wp_bind.mpr (wp_mono (hstep b a r s hs) (fun _ h => h) (fun _ t ht => ih ht) (fun _ _ h => h))

/-- A computation over the elements that only reads. -/
theorem wp_mapM {f : α → Program σ ε β} {l : List α} {post : List β → σ → Prop} {g : α → β}
    (hf : ∀ a ∈ l, ∀ post : β → σ → Prop, post (g a) s → (f a).wp crash post fail s)
    (hpost : post (l.map g) s) : (l.mapM f).wp crash post fail s := by
  induction l generalizing post with
  | nil => exact wp_pure.mpr hpost
  | cons a r ih =>
    rw [List.mapM_cons, wp_bind]
    apply hf a List.mem_cons_self
    rw [wp_bind]
    apply ih (fun b hb => hf b (List.mem_cons_of_mem _ hb))
    exact wp_pure.mpr hpost

theorem cut_of_wp {p : Program σ ε α} (h : p.wp crash post fail s) (hs : crash s) (n : Nat) :
    crash (p.cut s n) := by
  obtain hn | hn := p.cut_mem s n
  · rw [hn]
    exact hs
  · exact h.1 _ hn

theorem cutRuns_invariant {p : Program σ ε α} {inv : σ → Prop} {t : σ}
    (h : ∀ s, inv s → p.wp inv post fail s) (hs : inv s) (hrun : p.CutRuns s t) : inv t := by
  induction hrun with
  | refl => exact hs
  | tail _ hcut ih =>
    obtain ⟨n, rfl⟩ := hcut
    exact cut_of_wp (h _ ih) ih n

/-- A program that cannot fail returns. -/
theorem ok_of_wp {p : Program σ ε α} (h : p.wp crash post (fun _ _ => False) s) :
    ∃ a, p.result s = .ok a ∧ post a (p.final s) := by
  obtain ⟨-, hresult⟩ := h
  cases hr : p.result s with
  | error e =>
    rw [hr] at hresult
    exact hresult.elim
  | ok a =>
    rw [hr] at hresult
    exact ⟨a, rfl, hresult⟩

@[simp] theorem wp_mapError {f : ε → ε'} {p : Program σ ε α} {fail : ε' → σ → Prop} :
    (mapError f p).wp crash post fail s ↔ p.wp crash post (fun e => fail (f e)) s := by
  unfold wp result final mapError
  cases hr : p.result s with
  | error e =>
    have hr' : (p s).result = .error e := hr
    rw [hr']
    rfl
  | ok a =>
    have hr' : (p s).result = .ok a := hr
    rw [hr']
    rfl

@[simp] theorem wp_attempt {p : Program σ ε α} {post : Except ε α → σ → Prop} {fail : ε' → σ → Prop} :
    (attempt p).wp crash post fail s ↔ p.wp crash (fun a => post (.ok a)) (fun e => post (.error e)) s := by
  unfold wp result final attempt
  cases hr : p.result s with
  | error e =>
    have hr' : (p s).result = .error e := hr
    simp only [hr']
  | ok a =>
    have hr' : (p s).result = .ok a := hr
    simp only [hr']

section Phases

variable {before after linked : σ → Prop}

/-- Wherever the program is cut, either the event has not happened and the state is
one from before it, or it has and the state is one from after it. -/
def TwoPhase (p : Program σ ε α) (before after linked : σ → Prop) (s : σ) : Prop :=
  ∀ n, ((∀ t ∈ (p s).trace.take n, ¬ linked t) ∧ before (p.cut s n)) ∨
    ((∃ t ∈ (p s).trace.take n, linked t) ∧ after (p.cut s n))

/-- What stands before the event. -/
theorem twoPhase_bind {p : Program σ ε α} {f : α → Program σ ε β} (hs : before s)
    (hlinked : ∀ t, before t → ¬ linked t)
    (h : p.wp before (fun a t => (f a).TwoPhase before after linked t) (fun _ _ => False) s) :
    (p >>= f).TwoPhase before after linked s := by
  obtain ⟨a, hresult, hf⟩ := ok_of_wp h
  have hrun : (p >>= f) s = ⟨(p s).trace ++ (f a (p.final s)).trace, (f a).result (p.final s)⟩ :=
    bind_apply_ok hresult
  intro n
  have htake : ((p >>= f) s).trace.take n =
      (p s).trace.take n ++ (f a (p.final s)).trace.take (n - (p s).trace.length) := by
    rw [hrun, List.take_append]
  have hbefore : ∀ t ∈ (p s).trace.take n, ¬ linked t :=
    fun t ht => hlinked t (h.1 t (List.mem_of_mem_take ht))
  rw [cut, htake, getLastD_append]
  by_cases hn : n < (p s).trace.length
  · have hzero : n - (p s).trace.length = 0 := by omega
    rw [hzero, List.take_zero, List.append_nil]
    exact .inl ⟨hbefore, cut_of_wp h hs n⟩
  · have hwhole : (p s).trace.take n = (p s).trace := List.take_of_length_le (by omega)
    obtain ⟨hnot, hcut⟩ | ⟨⟨t, ht, hlink⟩, hcut⟩ := hf (n - (p s).trace.length)
    · left
      rw [hwhole] at hbefore ⊢
      refine ⟨fun t ht => ?_, hcut⟩
      obtain ht | ht := List.mem_append.mp ht
      · exact hbefore t ht
      · exact hnot t ht
    · right
      rw [hwhole]
      exact ⟨⟨t, List.mem_append_right _ ht, hlink⟩, hcut⟩

/-- The event is the first write. -/
theorem twoPhase_update {f : σ → Except ε σ} {g : Unit → Program σ ε β} {t : σ} {fail : ε → σ → Prop}
    {post : β → σ → Prop} (hf : f s = .ok t) (hs : before s) (ht : linked t) (hafter : after t)
    (h : (g ()).wp after post fail t) : (update f >>= g).TwoPhase before after linked s := by
  have hupdate : update f s = ⟨[t], .ok ()⟩ := by rw [update, hf]
  have hrun : (update f >>= g) s = ⟨[t] ++ (g () t).trace, (g ()).result t⟩ := by
    refine (bind_apply_ok (a := ()) ?_).trans ?_
    · rw [result, hupdate]
    · simp only [final, hupdate]
      rfl
  intro n
  cases n with
  | zero =>
    left
    rw [cut, List.take_zero]
    exact ⟨fun t ht => absurd ht List.not_mem_nil, hs⟩
  | succ n =>
    right
    rw [cut, hrun]
    refine ⟨⟨t, List.mem_cons_self, ht⟩, ?_⟩
    have htake : ([t] ++ (g () t).trace).take (n + 1) = [t] ++ (g () t).trace.take n := by simp
    rw [htake, getLastD_append]
    exact cut_of_wp h hafter n

end Phases

end Program

end Wayjournal.Crash
