import Mathlib.Data.List.Infix

namespace Wayjournal.Control

/-- A buffered reader. What it has not given out yet arrives in chunks of its own
choosing, of which only the one at the end of the stream is empty. -/
class BufRead (ρ : Type) (α : outParam Type) where
  unread : ρ → List α
  fillBuf : ρ → List α × ρ
  consume : Nat → ρ → ρ
  isPrefix_fillBuf : ∀ r, (fillBuf r).1 <+: unread r
  fillBuf_ne_nil : ∀ r, unread r ≠ [] → (fillBuf r).1 ≠ []
  unread_fillBuf : ∀ r, unread (fillBuf r).2 = unread r
  unread_consume : ∀ r n, n ≤ (fillBuf r).1.length → unread (consume n (fillBuf r).2) = (unread r).drop n

namespace BufRead

variable {ρ α : Type} [BufRead ρ α] {r : ρ} {n : Nat}

theorem fillBuf_eq_nil : (fillBuf r).1 = [] ↔ unread r = [] := by
  constructor
  · intro h
    by_contra hne
    exact fillBuf_ne_nil r hne h
  · intro h
    exact List.prefix_nil.mp (h ▸ isPrefix_fillBuf r)

/-- The chunk at hand and what comes after it. -/
theorem unread_eq (r : ρ) : ∃ rest, unread r = (fillBuf r).1 ++ rest ∧
    ∀ n, n ≤ (fillBuf r).1.length → unread (consume n (fillBuf r).2) = (fillBuf r).1.drop n ++ rest := by
  obtain ⟨rest, hrest⟩ := isPrefix_fillBuf r
  refine ⟨rest, hrest.symm, fun n hn => ?_⟩
  rw [unread_consume r n hn, ← hrest, List.drop_append_of_le_length hn]

/-- The loop of `read`: so much of the stream, or less where it ends. -/
def readUpTo (n : Nat) (r : ρ) : List α × ρ :=
  if n = 0 then ([], r)
  else if _h : (fillBuf r).1 = [] then ([], (fillBuf r).2)
  else
    let (bytes, r') :=
      readUpTo (n - min n (fillBuf r).1.length) (consume (min n (fillBuf r).1.length) (fillBuf r).2)
    ((fillBuf r).1.take n ++ bytes, r')
  termination_by n
  decreasing_by
    have := List.length_pos_of_ne_nil _h
    omega

/-- `read_exact`: `none` where the stream ends too early. -/
def readExact (n : Nat) (r : ρ) : Option (List α × ρ) :=
  if (readUpTo n r).1.length < n then none else some (readUpTo n r)

theorem readUpTo_spec (n : Nat) (r : ρ) :
    (readUpTo n r).1 = (unread r).take n ∧ unread (readUpTo n r).2 = (unread r).drop n := by
  induction n using Nat.strong_induction_on generalizing r with
  | _ n ih =>
    rw [readUpTo]
    by_cases hn : n = 0
    · subst hn
      exact ⟨by simp, by simp⟩
    rw [if_neg hn]
    by_cases hend : (fillBuf r).1 = []
    · rw [dif_pos hend, unread_fillBuf, fillBuf_eq_nil.mp hend]
      exact ⟨List.take_nil.symm, List.drop_nil.symm⟩
    rw [dif_neg hend]
    dsimp only
    obtain ⟨rest, hrest, hconsume⟩ := unread_eq r
    have hpos := List.length_pos_of_ne_nil hend
    obtain ⟨hbytes, hunread⟩ := ih (n - min n (fillBuf r).1.length) (by omega)
      (consume (min n (fillBuf r).1.length) (fillBuf r).2)
    rw [hbytes, hunread, hconsume _ (min_le_right _ _), hrest]
    obtain hle | hle := Nat.le_total n (fillBuf r).1.length
    · rw [min_eq_left hle, Nat.sub_self, List.take_zero, List.append_nil, List.drop_zero,
        List.take_append_of_le_length hle, List.drop_append_of_le_length hle]
      exact ⟨rfl, rfl⟩
    · rw [min_eq_right hle, List.drop_length, List.nil_append, List.take_append, List.drop_append,
        List.drop_eq_nil_of_le hle, List.nil_append]
      exact ⟨rfl, rfl⟩

theorem readExact_of_le (h : n ≤ (unread r).length) :
    ∃ r', readExact n r = some ((unread r).take n, r') ∧ unread r' = (unread r).drop n := by
  obtain ⟨hbytes, hunread⟩ := readUpTo_spec n r
  refine ⟨(readUpTo n r).2, ?_, hunread⟩
  rw [readExact, ← hbytes, if_neg (by rw [hbytes, List.length_take]; omega)]

theorem readExact_of_lt (h : (unread r).length < n) : readExact n r = none := by
  rw [readExact, (readUpTo_spec n r).1, if_pos (by rw [List.length_take]; omega)]

end BufRead

/-- What comes from calling a reading function until it has no more to give: the values and
the failure that ended them, if one did. -/
inductive Drains {ρ ε α : Type} (read : ρ → Except ε (Option α × ρ)) : ρ → List α → Option ε → Prop
  | done {r r' : ρ} (h : read r = .ok (none, r')) : Drains read r [] none
  | failed {r : ρ} {e : ε} (h : read r = .error e) : Drains read r [] (some e)
  | more {r r' : ρ} {a : α} {as : List α} {last : Option ε} (h : read r = .ok (some a, r')) (rest : Drains read r' as last) :
    Drains read r (a :: as) last

/-- Values that are read one by one are read off the stream of their encodings. -/
theorem Drains.of_encode {ρ ε α γ : Type} [BufRead ρ γ] {read : ρ → Except ε (Option α × ρ)} {encode : α → List γ} {as : List α}
    (hread : ∀ a ∈ as, ∀ r rest, BufRead.unread r = encode a ++ rest →
      ∃ r', read r = .ok (some a, r') ∧ BufRead.unread r' = rest)
    (hend : ∀ r, BufRead.unread r = [] → ∃ r', read r = .ok (none, r')) {r : ρ}
    (hr : BufRead.unread r = as.flatMap encode) : Drains read r as none := by
  induction as generalizing r with
  | nil =>
    obtain ⟨r', h⟩ := hend r hr
    exact .done h
  | cons a as ih =>
    obtain ⟨r', h, hr'⟩ := hread a List.mem_cons_self r _ hr
    exact .more h (ih (fun b hb => hread b (List.mem_cons_of_mem _ hb)) hr')

/-- A stream cut into non-empty chunks. -/
structure Chunks (α : Type) where
  chunks : List (List α)
  nonempty : ∀ chunk ∈ chunks, chunk ≠ []

namespace Chunks

variable {α : Type}

def advance [DecidableEq α] (n : Nat) : List (List α) → List (List α)
  | [] => []
  | chunk :: rest => if chunk.drop n = [] then rest else chunk.drop n :: rest

theorem advance_nonempty [DecidableEq α] (n : Nat) {chunks : List (List α)} (h : ∀ chunk ∈ chunks, chunk ≠ []) :
    ∀ chunk ∈ advance n chunks, chunk ≠ [] := by
  cases chunks with
  | nil => exact h
  | cons chunk rest =>
    rw [advance]
    split
    · exact fun c hc => h c (List.mem_cons_of_mem _ hc)
    · rename_i hne
      intro c hc
      obtain rfl | hc := List.mem_cons.mp hc
      · exact hne
      · exact h c (List.mem_cons_of_mem _ hc)

instance [DecidableEq α] : BufRead (Chunks α) α where
  unread r := r.chunks.flatten
  fillBuf r := (r.chunks.headD [], r)
  consume n r := ⟨advance n r.chunks, advance_nonempty n r.nonempty⟩
  isPrefix_fillBuf r := by
    obtain ⟨chunks, -⟩ := r
    cases chunks with
    | nil => exact List.nil_prefix
    | cons chunk rest => exact List.prefix_append _ _
  fillBuf_ne_nil r h := by
    obtain ⟨chunks, hchunks⟩ := r
    cases chunks with
    | nil => exact absurd rfl h
    | cons chunk rest => exact hchunks chunk List.mem_cons_self
  unread_fillBuf _ := rfl
  unread_consume r n hn := by
    obtain ⟨chunks, hchunks⟩ := r
    cases chunks with
    | nil => exact (List.drop_nil).symm
    | cons chunk rest =>
      change n ≤ chunk.length at hn
      change (advance n (chunk :: rest)).flatten = (chunk ++ rest.flatten).drop n
      rw [List.drop_append_of_le_length hn, advance]
      split
      · rename_i hnil
        rw [hnil, List.nil_append]
      · rfl

/-- Every element on its own. -/
def singles (stream : List α) : Chunks α := ⟨stream.map ([·]), by simp⟩

theorem unread_singles [DecidableEq α] (stream : List α) : BufRead.unread (singles stream) = stream := by
  change (stream.map ([·])).flatten = stream
  rw [← List.flatMap_def, List.flatMap_singleton']

end Chunks

end Wayjournal.Control
