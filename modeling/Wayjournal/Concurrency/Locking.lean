import Mathlib.Data.List.Pairwise
import Mathlib.Logic.Function.Basic
import Mathlib.Logic.Relation
import Mathlib.Order.Basic

universe u v w

namespace Wayjournal.Concurrency

structure Request (L : Type u) where
  lock : L
  exclusive : Bool
  deriving DecidableEq

namespace Request

variable {L : Type u}

def Conflicts (a b : Request L) : Prop := a.lock = b.lock ∧ (a.exclusive = true ∨ b.exclusive = true)

instance [DecidableEq L] (a b : Request L) : Decidable (a.Conflicts b) :=
  inferInstanceAs (Decidable (_ ∧ _))

end Request

/-- A caller holds locks, asks for further ones in order, and lets go of all of them before its next session. -/
structure Thread (L : Type u) where
  held : List (Request L)
  todo : List (Request L)
  sessions : List (List (Request L))

namespace Thread

variable {L : Type u} {ρ : Type w} [Preorder ρ]

def start (sessions : List (List (Request L))) : Thread L := ⟨[], [], sessions⟩

def Increasing (rank : L → ρ) (requests : List (Request L)) : Prop :=
  requests.Pairwise fun a b => rank a.lock < rank b.lock

/-- Every lock a caller asks for lies above all those it holds. -/
structure Ordered (rank : L → ρ) (t : Thread L) : Prop where
  sessions : ∀ session ∈ t.sessions, Increasing rank session
  todo : Increasing rank t.todo
  above : ∀ a ∈ t.held, ∀ b ∈ t.todo, rank a.lock < rank b.lock

variable {rank : L → ρ}

theorem Ordered.start {sessions : List (List (Request L))} (h : ∀ session ∈ sessions, Increasing rank session) :
    (start sessions).Ordered rank :=
  ⟨h, .nil, fun _ h => absurd h List.not_mem_nil⟩

end Thread

section

variable {ι : Type v} {L : Type u} {ρ : Type w} [Preorder ρ] {rank : L → ρ} {σ : ι → Thread L}

/-- The next lock of `i` is held by `j`; readers wait for readers too, since a queued writer keeps them out. -/
def WaitsFor (σ : ι → Thread L) (i j : ι) : Prop :=
  ∃ request rest, (σ i).todo = request :: rest ∧ ∃ other ∈ (σ j).held, other.lock = request.lock

def Deadlocked (σ : ι → Thread L) : Prop := ∃ i, Relation.TransGen (WaitsFor σ) i i

theorem WaitsFor.rank_lt (h : ∀ i, (σ i).Ordered rank) {i j : ι} (hwait : Relation.TransGen (WaitsFor σ) i j)
    {request : Request L} {rest : List (Request L)} (hj : (σ j).todo = request :: rest) :
    ∃ first rest', (σ i).todo = first :: rest' ∧ rank first.lock < rank request.lock := by
  induction hwait generalizing request rest with
  | @single k hk =>
    obtain ⟨first, rest', hi, other, hother, hlock⟩ := hk
    refine ⟨first, rest', hi, ?_⟩
    rw [← hlock]
    exact (h k).above other hother request (hj ▸ List.mem_cons_self)
  | @tail k l _ hk ih =>
    obtain ⟨middle, rest'', hk, other, hother, hlock⟩ := hk
    obtain ⟨first, rest', hi, hlt⟩ := ih hk
    refine ⟨first, rest', hi, hlt.trans ?_⟩
    rw [← hlock]
    exact (h l).above other hother request (hj ▸ List.mem_cons_self)

theorem ordered_update [DecidableEq ι] {t : Thread L} {i : ι} (h : ∀ i, (σ i).Ordered rank) (ht : t.Ordered rank) (j : ι) :
    (Function.update σ i t j).Ordered rank := by
  by_cases hj : j = i
  · subst hj
    rwa [Function.update_self]
  · rw [Function.update_of_ne hj]
    exact h j

/-- Callers that all take their locks upwards in one order never wait in a circle. -/
theorem not_deadlocked_of_ordered (h : ∀ i, (σ i).Ordered rank) : ¬Deadlocked σ := by
  rintro ⟨i, hcycle⟩
  obtain ⟨j, ⟨request, rest, htodo, -⟩, -⟩ := Relation.TransGen.head'_iff.mp hcycle
  obtain ⟨first, rest', hfirst, hlt⟩ := WaitsFor.rank_lt h hcycle htodo
  rw [htodo] at hfirst
  cases hfirst
  exact lt_irrefl _ hlt

end

section

variable {ι : Type v} {L : Type u} [DecidableEq ι] [DecidableEq L]

inductive Step (σ : ι → Thread L) : (ι → Thread L) → Prop
  | enter (i : ι) (session : List (Request L)) (rest : List (List (Request L))) :
      (σ i).held = [] → (σ i).todo = [] → (σ i).sessions = session :: rest →
        Step σ (Function.update σ i ⟨[], session, rest⟩)
  | acquire (i : ι) (request : Request L) (rest : List (Request L)) :
      (σ i).todo = request :: rest → (∀ j, ∀ other ∈ (σ j).held, ¬request.Conflicts other) →
        Step σ (Function.update σ i ⟨request :: (σ i).held, rest, (σ i).sessions⟩)
  | fail (i : ι) : Step σ (Function.update σ i ⟨(σ i).held, [], (σ i).sessions⟩)
  | release (i : ι) (request : Request L) : (σ i).todo = [] → request ∈ (σ i).held →
      Step σ (Function.update σ i ⟨(σ i).held.erase request, [], (σ i).sessions⟩)

def Reachable : (ι → Thread L) → (ι → Thread L) → Prop := Relation.ReflTransGen Step

variable {ρ : Type w} [Preorder ρ] {rank : L → ρ} {σ τ : ι → Thread L}

theorem Step.ordered (h : ∀ i, (σ i).Ordered rank) (hstep : Step σ τ) : ∀ j, (τ j).Ordered rank := by
  cases hstep with
  | enter i session rest _ _ hsessions =>
    have hordered := (h i).sessions
    rw [hsessions] at hordered
    apply ordered_update h
    exact ⟨fun s hs => hordered s (List.mem_cons_of_mem _ hs), hordered session List.mem_cons_self,
      fun _ ha => absurd ha List.not_mem_nil⟩
  | acquire i request rest htodo _ =>
    have hincreasing := (h i).todo
    have habove := (h i).above
    rw [htodo] at hincreasing habove
    rw [Thread.Increasing, List.pairwise_cons] at hincreasing
    apply ordered_update h
    refine ⟨(h i).sessions, hincreasing.2, fun a ha b hb => ?_⟩
    cases ha with
    | head => exact hincreasing.1 b hb
    | tail _ ha => exact habove a ha b (List.mem_cons_of_mem _ hb)
  | fail i =>
    apply ordered_update h
    exact ⟨(h i).sessions, .nil, fun _ _ _ hb => absurd hb List.not_mem_nil⟩
  | release i request _ _ =>
    apply ordered_update h
    exact ⟨(h i).sessions, .nil, fun _ _ _ hb => absurd hb List.not_mem_nil⟩

theorem Reachable.ordered (h : ∀ i, (σ i).Ordered rank) (hrun : Reachable σ τ) : ∀ j, (τ j).Ordered rank := by
  induction hrun with
  | refl => exact h
  | tail _ hstep ih => exact hstep.ordered ih

end

end Wayjournal.Concurrency
