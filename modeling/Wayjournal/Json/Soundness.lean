import Wayjournal.Json.Parse

namespace Wayjournal.Json

open Collections

/-- An element and those after it. -/
def nextItem (element : List UInt8 → Except ParseError (Raw × List UInt8)) (fuel : Nat) (bs : List UInt8) :
    Except ParseError (List Raw × List UInt8) :=
  match element bs with
  | .error e => .error e
  | .ok (v, rest) =>
    match parseItems element fuel false rest with
    | .error e => .error e
    | .ok (vs, rest) => .ok (v :: vs, rest)

/-- A member and those after it. -/
def nextMember (element : List UInt8 → Except ParseError (Raw × List UInt8)) (fuel : Nat) (values : BTreeMap String Raw)
    (bs : List UInt8) : Except ParseError (BTreeMap String Raw × List UInt8) :=
  match parseString bs with
  | .error e => .error e
  | .ok (key, rest) =>
    if values.containsKey key then .error (.duplicateKey key)
    else
      match skipWs rest with
      | [] => .error .invalid
      | c :: rest =>
        if c = 0x3a then
          match element rest with
          | .error e => .error e
          | .ok (v, rest) => parseMembers element fuel false (values.insert key v) rest
        else .error .invalid

theorem parseItems_forall {element : List UInt8 → Except ParseError (Raw × List UInt8)} {Q : Raw → Prop}
    (hQ : ∀ bs v rest, element bs = .ok (v, rest) → Q v) {fuel : Nat} {first : Bool}
    {bs rest : List UInt8} {vs : List Raw} (h : parseItems element fuel first bs = .ok (vs, rest)) :
    ∀ v ∈ vs, Q v := by
  induction fuel generalizing first bs vs with
  | zero => simp [parseItems] at h
  | succ fuel ih =>
    have hnext : ∀ bs, nextItem element fuel bs = .ok (vs, rest) → ∀ v ∈ vs, Q v := by
      intro bs hbs
      unfold nextItem at hbs
      split at hbs
      · cases hbs
      · rename_i v r hv
        split at hbs
        · cases hbs
        · rename_i ws r' hws
          cases hbs
          intro w hw
          obtain rfl | hw := List.mem_cons.mp hw
          · exact hQ _ _ _ hv
          · exact ih hws w hw
    simp only [parseItems] at h
    split at h
    · cases h
    · split at h
      · cases h
        simp
      · split at h
        · exact hnext _ h
        · split at h
          · split at h
            · cases h
            · split at h
              · cases h
              · exact hnext _ h
          · cases h

theorem parseMembers_forall {element : List UInt8 → Except ParseError (Raw × List UInt8)}
    {Q : Raw → Prop} (hQ : ∀ bs v rest, element bs = .ok (v, rest) → Q v) {fuel : Nat} {first : Bool}
    {values m : BTreeMap String Raw} {bs rest : List UInt8} (hvalues : ∀ e ∈ values.entries, Q e.2)
    (h : parseMembers element fuel first values bs = .ok (m, rest)) : ∀ e ∈ m.entries, Q e.2 := by
  induction fuel generalizing first values bs with
  | zero => simp [parseMembers] at h
  | succ fuel ih =>
    have hinsert : ∀ key v, Q v → ∀ e ∈ (values.insert key v).entries, Q e.2 := by
      rintro key v hv ⟨k, w⟩ he
      rw [BTreeMap.mem_entries_iff, BTreeMap.get?_insert] at he
      split at he
      · cases he
        exact hv
      · exact hvalues _ (BTreeMap.mem_entries_iff.mpr he)
    have hmember : ∀ bs, nextMember element fuel values bs = .ok (m, rest) → ∀ e ∈ m.entries, Q e.2 := by
      intro bs hbs
      unfold nextMember at hbs
      split at hbs
      · cases hbs
      · split at hbs
        · cases hbs
        · split at hbs
          · cases hbs
          · split at hbs
            · split at hbs
              · cases hbs
              · rename_i v r hv
                exact ih (hinsert _ _ (hQ _ _ _ hv)) hbs
            · cases hbs
    simp only [parseMembers] at h
    split at h
    · cases h
    · split at h
      · cases h
        exact hvalues
      · split at h
        · split at h
          · exact hmember _ h
          · cases h
        · split at h
          · split at h
            · cases h
            · split at h
              · exact hmember _ h
              · cases h
          · cases h

theorem parseScalar_sound {b : UInt8} {bs rest : List UInt8} {v : Raw}
    (h : parseScalar b bs = .ok (v, rest)) : v.depth = 0 ∧ v.sorted = true := by
  have hmap : ∀ {α : Type} {f : α → Raw} {x : Except ParseError (α × List UInt8)},
      (∀ a, (f a).depth = 0 ∧ (f a).sorted = true) →
      x.map (fun r => (f r.1, r.2)) = .ok (v, rest) → v.depth = 0 ∧ v.sorted = true := by
    intro α f x hf hx
    cases x with
    | error e => cases hx
    | ok r =>
      cases hx
      exact hf _
  have hident : ∀ {c : Raw} {x : Except ParseError (List UInt8)}, c.depth = 0 ∧ c.sorted = true →
      x.map (fun r => (c, r)) = .ok (v, rest) → v.depth = 0 ∧ v.sorted = true := by
    intro c x hc hx
    cases x with
    | error e => cases hx
    | ok r =>
      cases hx
      exact hc
  simp only [parseScalar] at h
  split at h
  · exact hident ⟨rfl, rfl⟩ h
  split at h
  · exact hident ⟨rfl, rfl⟩ h
  split at h
  · exact hident ⟨rfl, rfl⟩ h
  split at h
  · exact hmap (fun n => ⟨rfl, rfl⟩) h
  split at h
  · exact hmap (fun n => ⟨rfl, rfl⟩) h
  split at h
  · exact hmap (fun s => ⟨rfl, rfl⟩) h
  · cases h

/-- A value that was read is no deeper than allowed, and its objects are sorted. -/
theorem parseValue_sound (levels : Nat) {bs rest : List UInt8} {v : Raw}
    (h : parseValue levels bs = .ok (v, rest)) : v.depth ≤ levels ∧ v.sorted = true := by
  induction levels generalizing bs rest v with
  | zero =>
    simp only [parseValue] at h
    split at h
    · cases h
    · split at h
      · cases h
      · split at h
        · cases h
        · obtain ⟨hd, hs⟩ := parseScalar_sound h
          exact ⟨hd.le, hs⟩
  | succ levels ih =>
    simp only [parseValue] at h
    split at h
    · cases h
    · rename_i b t hskip
      split at h
      · cases hitems : parseItems (parseValue levels) (t.length + 1) true t with
        | error e =>
          rw [hitems] at h
          cases h
        | ok r =>
          rw [hitems] at h
          cases h
          have hall := parseItems_forall (fun bs v rest hv => ih hv) hitems
          rw [Raw.depth, Raw.sorted, Raw.sortedItems_iff, Nat.add_le_add_iff_right, Raw.depthItems_le]
          exact ⟨fun v hv => (hall v hv).1, fun v hv => (hall v hv).2⟩
      · split at h
        · cases hmem : parseMembers (parseValue levels) (t.length + 1) true ∅ t with
          | error e =>
            rw [hmem] at h
            cases h
          | ok r =>
            rw [hmem] at h
            cases h
            have hall := parseMembers_forall (fun bs v rest hv => ih hv)
              (fun e he => by cases he) hmem
            rw [Raw.depth, Raw.sorted, Bool.and_eq_true, ascending_iff, Raw.sortedMembers_iff,
              Nat.add_le_add_iff_right, Raw.depthMembers_le]
            exact ⟨fun e he => (hall e he).1, r.1.sorted, fun e he => (hall e he).2⟩
        · obtain ⟨hd, hs⟩ := parseScalar_sound h
          exact ⟨hd.le.trans (Nat.zero_le _), hs⟩

theorem parse_sound {bs : List UInt8} {v : Raw} (h : parse bs = .ok v) :
    v.depth ≤ MAX_NESTING ∧ v.sorted = true := by
  simp only [parse] at h
  split at h
  · cases h
  · rename_i w rest hw
    split at h
    · cases h
      exact parseValue_sound _ hw
    · cases h

end Wayjournal.Json
