import Wayjournal.Json.Length
import Wayjournal.Json.RoundTrip

namespace Wayjournal.Json

open Collections Text

/-- The members of a compact object after the first. -/
def compactRest (members : List (String × Raw)) : List UInt8 :=
  members.flatMap (fun e => 0x2c :: compactMember e)

theorem intercalate_compactMember (e : String × Raw) (members : List (String × Raw)) :
    [0x2c].intercalate ((e :: members).map compactMember) = compactMember e ++ compactRest members := by
  induction members generalizing e with
  | nil => simp [compactRest]
  | cons m ms ih =>
    rw [List.map_cons, List.map_cons, List.intercalate_cons_cons, ← List.map_cons, ih m]
    simp [compactRest]

theorem delim_compactRest (members : List (String × Raw)) (t : List UInt8) :
    Delim (compactRest members ++ 0x7d :: t) := by
  cases members with
  | nil => exact .inr (.inr rfl)
  | cons e es => exact .inr (.inl rfl)

variable {element : List UInt8 → Except ParseError (Raw × List UInt8)}

theorem parseMembers_compactRest (es : List (String × Raw)) (hes : ∀ e ∈ es, ReadsBack element e.2)
    (hsorted : (es.map Prod.fst).Pairwise (· < ·)) (values : BTreeMap String Raw)
    (habove : ∀ a ∈ values.keys, ∀ e ∈ es, a < e.1) (fuel : Nat) (hfuel : es.length < fuel)
    (rest : List UInt8) :
    ∃ m, parseMembers element fuel false values (compactRest es ++ 0x7d :: rest) = .ok (m, rest) ∧
      m.entries = values.entries ++ es := by
  induction es generalizing fuel values with
  | nil =>
    obtain ⟨fuel, rfl⟩ : ∃ m, fuel = m + 1 := ⟨fuel - 1, by simp at hfuel; omega⟩
    exact ⟨values, parseMembers_close (skipWs_of_not_isWs rfl rest), by simp⟩
  | cons e es ih =>
    obtain ⟨key, v⟩ := e
    obtain ⟨fuel, rfl⟩ : ∃ m, fuel = m + 1 := ⟨fuel - 1, by simp at hfuel; omega⟩
    rw [List.map_cons, List.pairwise_cons] at hsorted
    obtain ⟨-, hread⟩ := hes _ List.mem_cons_self
    have hlt : ∀ a ∈ values.keys, a < key := fun a ha => habove a ha _ List.mem_cons_self
    have hkeys : ∀ a ∈ (values.insert key v).keys, ∀ e ∈ es, a < e.1 := by
      intro a ha e he
      obtain rfl | ha := BTreeMap.mem_keys_insert.mp ha
      · exact hsorted.1 e.1 (List.mem_map_of_mem he)
      · exact habove a ha e (List.mem_cons_of_mem _ he)
    obtain ⟨m, hm, hentries⟩ := ih (fun e he => hes e (List.mem_cons_of_mem _ he)) hsorted.2
      (values.insert key v) hkeys fuel (by simpa using hfuel)
    refine ⟨m, ?_, by rw [hentries, insert_entries_of_lt hlt, List.append_assoc, List.singleton_append]⟩
    have hv := hread 0 (compactRest es ++ 0x7d :: rest) (delim_compactRest es rest)
    have hcons : compactRest ((key, v) :: es) ++ 0x7d :: rest =
        0x2c :: 0x22 :: ((utf8 key).flatMap escapeByte ++ 0x22 :: 0x3a ::
          (print 0 v ++ (compactRest es ++ 0x7d :: rest))) := by
      simp [compactRest, compactMember, printString]
    rw [hcons]
    exact parseMembers_comma (skipWs_of_not_isWs rfl _) (skipWs_of_not_isWs rfl _)
      (parseString_utf8 key _) (containsKey_eq_false_of_lt hlt) (skipWs_of_not_isWs rfl _) hv hm

/-- A compact object reads back. -/
theorem parse_compactObject {members : List (String × Raw)} (hne : members ≠ [])
    (hsorted : (members.map Prod.fst).Pairwise (· < ·))
    (hread : ∀ e ∈ members, e.2.depth = 0 ∧ e.2.noFloats = true ∧ e.2.sorted = true) :
    parse (compactObject members) = .ok (.object members) := by
  obtain ⟨⟨key, v⟩, es, rfl⟩ := List.exists_cons_of_ne_nil hne
  have hback : ∀ e ∈ (key, v) :: es, ReadsBack (parseValue 126) e.2 := by
    intro e he
    obtain ⟨hdepth, hfloats, hsort⟩ := hread e he
    exact parseValue_print e.2 126 (by omega) hfloats hsort
  rw [List.map_cons, List.pairwise_cons] at hsorted
  have hkeys : ∀ a ∈ ((∅ : BTreeMap String Raw).insert key v).keys, ∀ e ∈ es, a < e.1 := by
    intro a ha e he
    obtain rfl | ha := BTreeMap.mem_keys_insert.mp ha
    · exact hsorted.1 e.1 (List.mem_map_of_mem he)
    · cases ha
  have hfuel : es.length < (compactMember (key, v) ++ compactRest es ++ [0x7d]).length := by
    have hlength : es.length ≤ (compactRest es).length :=
      length_le_flatMap _ (fun e => Nat.le_add_left 1 _) es
    simp only [List.length_append, List.length_singleton]
    omega
  obtain ⟨m, hm, hentries⟩ := parseMembers_compactRest es
    (fun e he => hback e (List.mem_cons_of_mem _ he)) hsorted.2 _ hkeys _ hfuel []
  have hv := (hback _ List.mem_cons_self).2 0 (compactRest es ++ [0x7d]) (delim_compactRest es [])
  have hobject : parseValue MAX_NESTING (compactObject ((key, v) :: es)) = .ok (.object ((key, v) :: es), []) := by
    rw [compactObject, intercalate_compactMember]
    change parseValue (126 + 1) _ = _
    rw [parseValue_object]
    have hcons : compactMember (key, v) ++ compactRest es ++ [0x7d] =
        0x22 :: ((utf8 key).flatMap escapeByte ++ 0x22 :: 0x3a ::
          (print 0 v ++ (compactRest es ++ [0x7d]))) := by
      simp [compactMember, printString]
    rw [hcons] at hm ⊢
    rw [parseMembers_first (skipWs_of_not_isWs rfl _) (parseString_utf8 key _) rfl
      (skipWs_of_not_isWs rfl _) hv hm]
    rw [Except.map, hentries]
    rfl
  simp [parse, hobject, skipWs]

end Wayjournal.Json
