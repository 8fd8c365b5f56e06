import Wayjournal.Crash.Fault
import Wayjournal.Crash.Guarantee

namespace Wayjournal.Crash

namespace Program

variable {σ ε ε' α β : Type} {G : Guarantee σ} {pre pre' : σ → Prop} {post post' : α → σ → Prop}
  {fail fail' : ε → σ → Prop}

/-- What is said of the value that is returned alone. -/
theorem wp_of_result {p : Program σ ε α} {s : σ} (h : ∀ a, p.result s = .ok a → post a (p.final s)) :
    p.wp (fun _ => True) post (fun _ _ => True) s := by
  refine ⟨fun _ _ => trivial, ?_⟩
  split
  · exact h _ ‹_›
  · trivial

/-- From every state of `pre` the program keeps to the guarantee, what it returns satisfies `post` and its errors satisfy
`fail`. -/
def Triple (G : Guarantee σ) (pre : σ → Prop) (p : Program σ ε α) (post : α → σ → Prop) (fail : ε → σ → Prop) : Prop :=
  ∀ s, pre s → p.wp (G.rel s) post fail s

namespace Triple

theorem mono {p : Program σ ε α} (h : p.Triple G pre post fail) (hpre : ∀ s, pre' s → pre s)
    (hpost : ∀ a s, post a s → post' a s) (hfail : ∀ e s, fail e s → fail' e s) : p.Triple G pre' post' fail' :=
  fun s hs => wp_mono (h s (hpre s hs)) (fun _ ht => ht) hpost hfail

theorem post_mono {p : Program σ ε α} (h : p.Triple G pre post fail) (hpost : ∀ a s, post a s → post' a s) :
    p.Triple G pre post' fail :=
  h.mono (fun _ hs => hs) hpost (fun _ _ hs => hs)

theorem pre_mono {p : Program σ ε α} (h : p.Triple G pre post fail) (hpre : ∀ s, pre' s → pre s) :
    p.Triple G pre' post fail :=
  h.mono hpre (fun _ _ hs => hs) (fun _ _ hs => hs)

theorem pure {a : α} (h : ∀ s, pre s → post a s) : (Pure.pure a : Program σ ε α).Triple G pre post fail :=
  fun s hs => wp_pure.mpr (h s hs)

theorem throw {e : ε} (h : ∀ s, pre s → fail e s) : (MonadExcept.throw e : Program σ ε α).Triple G pre post fail :=
  fun s hs => wp_throw.mpr (h s hs)

theorem final {p : Program σ ε α} {s : σ} (h : p.wp (G.rel s) post fail s) : G.rel s (p.final s) := by
  obtain heq | hmem := getLastD_mem (p s).trace s
  · rw [Program.final, heq]
    exact G.refl s
  · exact h.1 _ hmem

theorem bind {p : Program σ ε α} {f : α → Program σ ε β} {post : α → σ → Prop} {post' : β → σ → Prop}
    (hp : p.Triple G pre post fail) (hf : ∀ a, (f a).Triple G (post a) post' fail) :
    (p >>= f).Triple G pre post' fail := by
  intro s hs
  have hwp := hp s hs
  refine wp_bind.mpr ⟨hwp.1, ?_⟩
  have hresult := hwp.2
  split at hresult
  · exact wp_mono (hf _ _ hresult) (fun _ ht => G.trans (final hwp) ht) (fun _ _ ht => ht) (fun _ _ ht => ht)
  · exact hresult

theorem ite {c : Prop} [Decidable c] {p q : Program σ ε α} (hp : c → p.Triple G pre post fail)
    (hq : ¬c → q.Triple G pre post fail) : (if c then p else q).Triple G pre post fail := by
  split
  · exact hp ‹_›
  · exact hq ‹_›

theorem throwBind {e : ε} {f : α → Program σ ε β} {post : β → σ → Prop} (h : ∀ s, pre s → fail e s) :
    (MonadExcept.throw e >>= f : Program σ ε β).Triple G pre post fail :=
  have hthrow : (MonadExcept.throw e : Program σ ε α).Triple G pre (fun _ _ => False) fail := throw h
  hthrow.bind fun _ _ hs => hs.elim

theorem mapError {p : Program σ ε α} {f : ε → ε'} {fail : ε' → σ → Prop}
    (h : p.Triple G pre post fun e => fail (f e)) : (p.mapError f).Triple G pre post fail :=
  fun s hs => wp_mapError.mpr (h s hs)

end Triple

/-- The rule of postconditions for a program over a part of the state. -/
theorem wp_zoomed {τ : Type} {part : σ → τ} {put : τ → σ → σ} {s : σ} (hput : put (part s) s = s) {p : Program τ ε α}
    {crash : σ → Prop} : (p.zoom part put).wp crash post fail s ↔
      p.wp (fun t => crash (put t s)) (fun a t => post a (put t s)) (fun e t => fail e (put t s)) (part s) := by
  rw [wp, wp, final_zoom hput, result_zoom]
  exact and_congr_left fun _ => List.forall_mem_map

end Program

end Wayjournal.Crash
