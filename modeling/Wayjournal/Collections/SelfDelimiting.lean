import Mathlib.Data.Set.Prod

namespace Wayjournal.Collections

variable {α β γ : Type}

/-- Where a code word ends can be read off the word, for the elements of a set. -/
def SelfDelimiting (encode : α → List γ) (s : Set α) : Prop :=
  ∀ a ∈ s, ∀ b ∈ s, ∀ r t, encode a ++ r = encode b ++ t → a = b ∧ r = t

namespace SelfDelimiting

theorem injOn {encode : α → List γ} {s : Set α} (h : SelfDelimiting encode s) : Set.InjOn encode s :=
  fun a ha b hb heq => (h a ha b hb [] [] (congrArg (· ++ []) heq)).1

/-- Words of one length. -/
theorem ofLength {encode : α → List γ} {s : Set α} {n : Nat} (hlength : ∀ a ∈ s, (encode a).length = n)
    (hinj : Set.InjOn encode s) : SelfDelimiting encode s := by
  intro a ha b hb r t heq
  obtain ⟨hword, hrest⟩ := List.append_inj heq ((hlength a ha).trans (hlength b hb).symm)
  exact ⟨hinj ha hb hword, hrest⟩

theorem prod {encode : α → List γ} {encode' : β → List γ} {s : Set α} {t : Set β} (h : SelfDelimiting encode s)
    (h' : SelfDelimiting encode' t) : SelfDelimiting (fun p : α × β => encode p.1 ++ encode' p.2) (s ×ˢ t) := by
  rintro ⟨a, b⟩ ⟨ha, hb⟩ ⟨c, d⟩ ⟨hc, hd⟩ r u heq
  dsimp only at heq
  rw [List.append_assoc, List.append_assoc] at heq
  obtain ⟨rfl, hrest⟩ := h a ha c hc _ _ heq
  obtain ⟨rfl, rfl⟩ := h' b hb d hd _ _ hrest
  exact ⟨rfl, rfl⟩

/-- A word and then as many elements as it says. -/
theorem dependent {encode : β → List γ} {s : Set β} (h : SelfDelimiting encode s) {key : α → β} {body : α → List γ}
    {u : Set α} (hkey : ∀ a ∈ u, key a ∈ s)
    (hbody : ∀ a ∈ u, ∀ b ∈ u, key a = key b → ∀ r t, body a ++ r = body b ++ t → a = b ∧ r = t) :
    SelfDelimiting (fun a => encode (key a) ++ body a) u := by
  intro a ha b hb r t heq
  dsimp only at heq
  rw [List.append_assoc, List.append_assoc] at heq
  obtain ⟨hsame, hrest⟩ := h _ (hkey a ha) _ (hkey b hb) _ _ heq
  exact hbody a ha b hb hsame r t hrest

/-- Words that end at the first sign of one kind. -/
theorem terminated (z : γ) : SelfDelimiting (fun l : List γ => l ++ [z]) {l | z ∉ l} := by
  intro a ha b hb r t heq
  induction a generalizing b with
  | nil =>
    cases b with
    | nil => exact ⟨rfl, (List.cons.inj heq).2⟩
    | cons y b => exact absurd (List.cons.inj heq).1 fun h => hb (h ▸ List.mem_cons_self)
  | cons x a ih =>
    cases b with
    | nil => exact absurd (List.cons.inj heq).1 fun h => ha (h ▸ List.mem_cons_self)
    | cons y b =>
      obtain ⟨rfl, htail⟩ := List.cons.inj heq
      obtain ⟨rfl, rfl⟩ := ih (fun h => ha (List.mem_cons_of_mem _ h)) b (fun h => hb (List.mem_cons_of_mem _ h)) htail
      exact ⟨rfl, rfl⟩

variable {encode : α → List γ} {s : Set α}

/-- Lists of one length, word after word. -/
theorem flatMap_append (h : SelfDelimiting encode s) {l l' : List α} (hl : ∀ a ∈ l, a ∈ s) (hl' : ∀ a ∈ l', a ∈ s)
    (hlength : l.length = l'.length) {r t : List γ} (heq : l.flatMap encode ++ r = l'.flatMap encode ++ t) :
    l = l' ∧ r = t := by
  induction l generalizing l' with
  | nil =>
    obtain rfl := List.length_eq_zero_iff.mp hlength.symm
    exact ⟨rfl, heq⟩
  | cons a l ih =>
    cases l' with
    | nil => cases hlength
    | cons b l' =>
      rw [List.flatMap_cons, List.flatMap_cons, List.append_assoc, List.append_assoc] at heq
      obtain ⟨rfl, hrest⟩ := h a (hl a List.mem_cons_self) b (hl' b List.mem_cons_self) _ _ heq
      obtain ⟨rfl, rfl⟩ := ih (fun a ha => hl a (List.mem_cons_of_mem _ ha))
        (fun a ha => hl' a (List.mem_cons_of_mem _ ha)) (Nat.succ.inj hlength) hrest
      exact ⟨rfl, rfl⟩

/-- Lists of any length up to the end, if no word is empty. -/
theorem flatMap_injOn (h : SelfDelimiting encode s) (hne : ∀ a ∈ s, encode a ≠ []) :
    Set.InjOn (fun l : List α => l.flatMap encode) {l | ∀ a ∈ l, a ∈ s} := by
  intro l hl l' hl' heq
  induction l generalizing l' with
  | nil =>
    cases l' with
    | nil => rfl
    | cons b l' =>
      have hnil := List.append_eq_nil_iff.mp heq.symm
      exact absurd hnil.1 (hne b (hl' b List.mem_cons_self))
  | cons a l ih =>
    cases l' with
    | nil =>
      have hnil := List.append_eq_nil_iff.mp heq
      exact absurd hnil.1 (hne a (hl a List.mem_cons_self))
    | cons b l' =>
      obtain ⟨rfl, hrest⟩ := h a (hl a List.mem_cons_self) b (hl' b List.mem_cons_self) _ _ heq
      rw [ih (fun a ha => hl a (List.mem_cons_of_mem _ ha)) (fun a ha => hl' a (List.mem_cons_of_mem _ ha)) hrest]

end SelfDelimiting

end Wayjournal.Collections
