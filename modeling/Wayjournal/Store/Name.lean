import Wayjournal.Json.RoundTrip
import Wayjournal.Layout

namespace Wayjournal

open Text

def SLASH : UInt8 := 0x2f

/-- The check of `validate_component`. -/
def validComponent (bytes : Bytes) : Bool :=
  !bytes.isEmpty && bytes ≠ asBytes "." && bytes ≠ asBytes ".." && !bytes.contains SLASH &&
    !bytes.contains 0

/-- A name in a directory. -/
structure Name where
  bytes : Bytes
  valid : validComponent bytes = true

namespace Name

theorem bytes_injective : Function.Injective bytes := by
  rintro ⟨a, _⟩ ⟨b, _⟩ h
  cases h
  rfl

instance : LinearOrder Name := LinearOrder.lift' bytes bytes_injective

def parse (bytes : Bytes) : Option Name := if h : validComponent bytes = true then some ⟨bytes, h⟩ else none

@[simp] theorem parse_bytes (n : Name) : parse n.bytes = some n := dif_pos n.valid

theorem bytes_of_parse {bytes : Bytes} {n : Name} (h : parse bytes = some n) : n.bytes = bytes := by
  unfold parse at h
  split at h
  · cases h
    rfl
  · cases h

theorem slash_notMem (n : Name) : SLASH ∉ n.bytes := by
  have h := n.valid
  simp only [validComponent, Bool.and_eq_true, Bool.not_eq_true', List.contains_eq_mem,
    decide_eq_false_iff_not] at h
  exact h.1.2

end Name

/-- A character that may stand anywhere in a name. -/
def isNameChar (c : Char) : Bool := 0x20 < c.toNat && c.toNat < 0x7f && c ≠ '/'

theorem encodeChar_nameChar {c : Char} (h : isNameChar c = true) :
    Utf8.encodeChar c = [UInt8.ofNat c.toNat] ∧ UInt8.ofNat c.toNat ≠ SLASH ∧
      UInt8.ofNat c.toNat ≠ 0 := by
  simp only [isNameChar, Bool.and_eq_true, decide_eq_true_eq, ne_eq] at h
  have hlt : c.toNat < 256 := by omega
  have hnat : (UInt8.ofNat c.toNat).toNat = c.toNat := Utf8.toNat_ofNat_of_lt hlt
  refine ⟨?_, ?_, ?_⟩
  · rw [Utf8.encodeChar, if_pos (by omega)]
  · intro heq
    rw [heq] at hnat
    apply h.2
    rw [← Char.ofNat_toNat c, ← hnat]
    rfl
  · intro heq
    rw [heq] at hnat
    have : c.toNat = 0 := hnat.symm
    omega

theorem encode_nameChars {cs : List Char} (h : ∀ a ∈ cs, isNameChar a = true) :
    Utf8.encode cs = cs.map (fun a => UInt8.ofNat a.toNat) := by
  induction cs with
  | nil => rfl
  | cons a t ih =>
    rw [Utf8.encode, List.flatMap_cons, (encodeChar_nameChar (h a List.mem_cons_self)).1, List.map_cons,
      List.singleton_append]
    congr 1
    exact ih (fun b hb => h b (List.mem_cons_of_mem _ hb))

theorem asBytes_nameChars {cs : List Char} (h : ∀ a ∈ cs, isNameChar a = true) {b : UInt8}
    (hb : b ∈ asBytes (String.ofList cs)) : b ≠ SLASH ∧ b ≠ 0 := by
  rw [asBytes, Json.utf8, String.toList_ofList, encode_nameChars h] at hb
  obtain ⟨a, ha, rfl⟩ := List.mem_map.mp hb
  exact (encodeChar_nameChar (h a ha)).2

theorem validComponent_iff {b : UInt8} {bs : Bytes} (hdot : b ≠ 0x2e)
    (h : ∀ a ∈ b :: bs, a ≠ SLASH ∧ a ≠ 0) : validComponent (b :: bs) = true := by
  have hone : asBytes "." = [0x2e] := by decide
  have htwo : asBytes ".." = [0x2e, 0x2e] := by decide
  simp only [validComponent, Bool.and_eq_true, Bool.not_eq_true', List.contains_eq_mem,
    decide_eq_false_iff_not, decide_eq_true_eq, ne_eq, hone, htwo, List.cons.injEq,
    List.isEmpty_cons]
  exact ⟨⟨⟨⟨trivial, fun h => hdot h.1⟩, fun h => hdot h.1⟩, fun hs => (h _ hs).1 rfl⟩,
    fun hs => (h _ hs).2 rfl⟩

/-- A text of name characters that does not start with a dot is a name. -/
theorem validComponent_asBytes {c : Char} {cs : List Char} (hc : c ≠ '.')
    (h : ∀ a ∈ c :: cs, isNameChar a = true) : validComponent (asBytes (String.ofList (c :: cs))) = true := by
  have hmem : ∀ b ∈ asBytes (String.ofList (c :: cs)), b ≠ SLASH ∧ b ≠ 0 := fun b => asBytes_nameChars h
  have hbytes : asBytes (String.ofList (c :: cs)) =
      UInt8.ofNat c.toNat :: cs.map (fun a => UInt8.ofNat a.toNat) := by
    rw [asBytes, Json.utf8, String.toList_ofList, encode_nameChars h, List.map_cons]
  have hdot : UInt8.ofNat c.toNat ≠ 0x2e := by
    intro heq
    have hname := h c List.mem_cons_self
    simp only [isNameChar, Bool.and_eq_true, decide_eq_true_eq] at hname
    have hnat : (UInt8.ofNat c.toNat).toNat = c.toNat := Utf8.toNat_ofNat_of_lt (by omega)
    rw [heq] at hnat
    apply hc
    rw [← Char.ofNat_toNat c, ← hnat]
    rfl
  rw [hbytes] at hmem ⊢
  exact validComponent_iff hdot hmem

theorem isNameChar_hexDigit (n : Fin 16) : isNameChar (hexDigit n) = true ∧ hexDigit n ≠ '.' := by
  revert n
  decide

theorem mem_hyphenate {c : Char} {cs : List Char} (h : c ∈ Uuid.hyphenate cs) : c = '-' ∨ c ∈ cs := by
  simp only [Uuid.hyphenate, List.mem_append, List.mem_cons] at h
  obtain h | rfl | h | rfl | h | rfl | h | rfl | h := h
  · exact .inr (List.mem_of_mem_take h)
  · exact .inl rfl
  · exact .inr (List.mem_of_mem_drop (List.mem_of_mem_take h))
  · exact .inl rfl
  · exact .inr (List.mem_of_mem_drop (List.mem_of_mem_take h))
  · exact .inl rfl
  · exact .inr (List.mem_of_mem_drop (List.mem_of_mem_take h))
  · exact .inl rfl
  · exact .inr (List.mem_of_mem_drop h)

/-- The text of a UUID, with or without an ending, is a name. -/
theorem validComponent_uuid (u : Uuid) (ending : List Char) (h : ∀ c ∈ ending, isNameChar c = true) :
    validComponent (asBytes (u.hyphenated ++ String.ofList ending)) = true := by
  have hchars : ∀ c ∈ Uuid.hyphenate u.toChars, isNameChar c = true := by
    intro c hc
    obtain rfl | hc := mem_hyphenate hc
    · decide
    · obtain ⟨n, -, rfl⟩ := List.mem_map.mp hc
      exact (isNameChar_hexDigit n).1
  have hlen := u.length_toChars
  have heq : u.hyphenated ++ String.ofList ending = String.ofList (Uuid.hyphenate u.toChars ++ ending) := by
    rw [Uuid.hyphenated, String.ofList_append]
  rw [heq]
  cases hu : u.toChars with
  | nil =>
    rw [hu] at hlen
    cases hlen
  | cons a t =>
    obtain ⟨n, -, ha⟩ : ∃ n, n ∈ u.nibbles ∧ hexDigit n = a := by
      have : a ∈ u.toChars := by
        rw [hu]
        exact List.mem_cons_self
      exact List.mem_map.mp this
    have hhead : ∃ r, Uuid.hyphenate (a :: t) ++ ending = a :: r := ⟨_, by
      rw [Uuid.hyphenate, List.take_succ_cons, List.cons_append, List.cons_append]⟩
    obtain ⟨r, hr⟩ := hhead
    rw [hr]
    apply validComponent_asBytes
    · rw [← ha]
      exact (isNameChar_hexDigit n).2
    · intro c hc
      rw [← hr, List.mem_append, ← hu] at hc
      exact hc.elim (hchars c) (h c)

def uuidName (u : Uuid) : Name :=
  ⟨asBytes u.hyphenated, by simpa using validComponent_uuid u [] (by simp)⟩

/-- `{uuid}.json`. -/
def uuidJsonName (u : Uuid) : Name :=
  ⟨asBytes (u.hyphenated ++ ".json"), validComponent_uuid u ".json".toList (List.all_eq_true.mp (by decide))⟩

/-- A file name after a prefix that starts with a dot and a letter. -/
theorem validComponent_dotted {start : String} (hstart : ∃ b t, asBytes start = 0x2e :: b :: t ∧ b ≠ 0x2e)
    (hsafe : SLASH ∉ asBytes start ∧ (0 : UInt8) ∉ asBytes start) (u : Uuid) :
    validComponent (asBytes (start ++ u.hyphenated)) = true := by
  have hu := (uuidName u).valid
  have hdots : asBytes "." = [0x2e] ∧ asBytes ".." = [0x2e, 0x2e] := by decide
  have happend : asBytes (start ++ u.hyphenated) = asBytes start ++ asBytes u.hyphenated := by
    simp [asBytes, Json.utf8, Utf8.encode]
  obtain ⟨b, t, ht, hb⟩ := hstart
  simp only [uuidName, validComponent, Bool.and_eq_true, Bool.not_eq_true', List.contains_eq_mem,
    decide_eq_false_iff_not] at hu
  rw [happend]
  have hslash : SLASH ∉ asBytes start ++ asBytes u.hyphenated := by simp [hsafe.1, hu.1.2]
  have hzero : (0 : UInt8) ∉ asBytes start ++ asBytes u.hyphenated := by simp [hsafe.2, hu.2]
  rw [ht, List.cons_append, List.cons_append] at hslash hzero ⊢
  simp only [validComponent, Bool.and_eq_true, Bool.not_eq_true', List.contains_eq_mem, ne_eq,
    decide_eq_false_iff_not, decide_eq_true_eq, hdots, List.cons.injEq, List.isEmpty_cons]
  exact ⟨⟨⟨⟨trivial, by simp⟩, fun h => hb h.2.1⟩, hslash⟩, hzero⟩

/-- `.pending.tmp-{uuid}`. -/
def temporaryName (u : Uuid) : Name :=
  ⟨asBytes (".pending.tmp-" ++ u.hyphenated),
    validComponent_dotted ⟨0x70, asBytes "ending.tmp-", by decide, by decide⟩ (by decide) u⟩

/-- `{i:0w$}` followed by an ending. -/
def paddedBytes (width i : Nat) (ending : String) : Bytes :=
  List.replicate (width - (Json.decimal i).length) 0x30 ++ Json.decimal i ++ asBytes ending

theorem mem_decimalAux (fuel n : Nat) (acc : Bytes) :
    (∃ d < 10, ∃ t, Json.decimalAux (fuel + 1) n acc = Json.digitByte d :: t) ∧
      ∀ b ∈ Json.decimalAux (fuel + 1) n acc, b ∈ acc ∨ ∃ d < 10, b = Json.digitByte d := by
  induction fuel generalizing n acc with
  | zero =>
    have hmod : n % 10 < 10 := Nat.mod_lt n (by omega)
    rw [Json.decimalAux]
    split
    · refine ⟨⟨_, hmod, _, rfl⟩, fun b hb => ?_⟩
      obtain rfl | hb := List.mem_cons.mp hb
      · exact .inr ⟨_, hmod, rfl⟩
      · exact .inl hb
    · rw [Json.decimalAux]
      refine ⟨⟨_, hmod, _, rfl⟩, fun b hb => ?_⟩
      obtain rfl | hb := List.mem_cons.mp hb
      · exact .inr ⟨_, hmod, rfl⟩
      · exact .inl hb
  | succ fuel ih =>
    have hmod : n % 10 < 10 := Nat.mod_lt n (by omega)
    rw [Json.decimalAux]
    split
    · refine ⟨⟨_, hmod, _, rfl⟩, fun b hb => ?_⟩
      obtain rfl | hb := List.mem_cons.mp hb
      · exact .inr ⟨_, hmod, rfl⟩
      · exact .inl hb
    · obtain ⟨hhead, hmem⟩ := ih (n / 10) (Json.digitByte (n % 10) :: acc)
      refine ⟨hhead, fun b hb => ?_⟩
      obtain hb | hb := hmem b hb
      · obtain rfl | hb := List.mem_cons.mp hb
        · exact .inr ⟨_, hmod, rfl⟩
        · exact .inl hb
      · exact .inr hb

theorem digitByte_name : ∀ d < 10, Json.digitByte d ≠ 0x2e ∧ Json.digitByte d ≠ SLASH ∧
    Json.digitByte d ≠ 0 := by decide

theorem validComponent_padded (width i : Nat) (ending : String)
    (h : ∀ c ∈ ending.toList, isNameChar c = true) :
    validComponent (paddedBytes width i ending) = true := by
  obtain ⟨⟨d, hd, t, ht⟩, hmem⟩ := mem_decimalAux 19 i []
  have hending : ∀ b ∈ asBytes ending, b ≠ SLASH ∧ b ≠ 0 := by
    intro b hb
    rw [← String.ofList_toList (s := ending)] at hb
    exact asBytes_nameChars h hb
  have hall : ∀ b ∈ paddedBytes width i ending, b ≠ SLASH ∧ b ≠ 0 := by
    intro b hb
    simp only [paddedBytes, List.mem_append] at hb
    obtain (hb | hb) | hb := hb
    · rw [(List.mem_replicate.mp hb).2]
      decide
    · obtain hb | ⟨d, hd, rfl⟩ := hmem b hb
      · cases hb
      · exact (digitByte_name d hd).2
    · exact hending b hb
  have hhead : ∃ b r, paddedBytes width i ending = b :: r ∧ b ≠ 0x2e := by
    unfold paddedBytes
    cases width - (Json.decimal i).length with
    | zero => exact ⟨_, _, by rw [Json.decimal, ht]; rfl, (digitByte_name d hd).1⟩
    | succ k => exact ⟨0x30, _, by rw [List.replicate_succ]; rfl, by decide⟩
  obtain ⟨b, r, hbr, hb⟩ := hhead
  rw [hbr] at hall ⊢
  exact validComponent_iff hb hall

/-- The ordinal of a staged record. -/
def ordinalJson (i : Nat) : Name := ⟨paddedBytes 8 i ".json", validComponent_padded 8 i _ (List.all_eq_true.mp (by decide))⟩

/-- The ordinal of a staged addition. -/
def ordinalBlob (i : Nat) : Name := ⟨paddedBytes 8 i ".blob", validComponent_padded 8 i _ (List.all_eq_true.mp (by decide))⟩

def chunkBin (i : Nat) : Name := ⟨paddedBytes 6 i ".bin", validComponent_padded 6 i _ (List.all_eq_true.mp (by decide))⟩

def chunkDir (i : Nat) : Name := ⟨paddedBytes 6 i "", validComponent_padded 6 i _ (List.all_eq_true.mp (by decide))⟩

theorem foldl_zeros (k : Nat) (ds : List Nat) :
    (List.replicate k 0 ++ ds).foldl (fun a x => a * 10 + x) 0 = ds.foldl (fun a x => a * 10 + x) 0 := by
  induction k with
  | zero => rfl
  | succ k ih =>
    rw [List.replicate_succ, List.cons_append, List.foldl_cons]
    exact ih

/-- The padded digits and what they say. -/
theorem paddedBytes_spec (width : Nat) {i : Nat} (h : i < 2 ^ 64) (ending : String) :
    ∃ ds : List Nat, paddedBytes width i ending = ds.map Json.digitByte ++ asBytes ending ∧
      (∀ x ∈ ds, x < 10) ∧ ds.foldl (fun a x => a * 10 + x) 0 = i := by
  obtain ⟨d, ds, heq, hds, hval, -⟩ := Json.decimal_spec h
  refine ⟨List.replicate (width - (Json.decimal i).length) 0 ++ d :: ds, ?_, ?_, ?_⟩
  · rw [paddedBytes, heq, List.map_append, List.map_replicate]
    rfl
  · intro x hx
    rw [List.mem_append] at hx
    obtain hx | hx := hx
    · rw [(List.mem_replicate.mp hx).2]
      omega
    · exact hds x hx
  · rw [foldl_zeros, hval]

theorem map_digitByte_injective {ds es : List Nat} (hds : ∀ x ∈ ds, x < 10) (hes : ∀ x ∈ es, x < 10)
    (h : ds.map Json.digitByte = es.map Json.digitByte) : ds = es := by
  induction ds generalizing es with
  | nil =>
    rw [List.map_nil, eq_comm, List.map_eq_nil_iff] at h
    exact h.symm
  | cons d ds ih =>
    cases es with
    | nil => cases h
    | cons e es =>
      rw [List.map_cons, List.map_cons, List.cons.injEq] at h
      have hd := Json.toNat_digitByte (hds d List.mem_cons_self)
      rw [h.1, Json.toNat_digitByte (hes e List.mem_cons_self)] at hd
      rw [ih (fun x hx => hds x (List.mem_cons_of_mem _ hx))
        (fun x hx => hes x (List.mem_cons_of_mem _ hx)) h.2]
      congr 1
      omega

theorem paddedBytes_injective {width i j : Nat} {ending : String} (hi : i < 2 ^ 64) (hj : j < 2 ^ 64)
    (h : paddedBytes width i ending = paddedBytes width j ending) : i = j := by
  obtain ⟨ds, hdseq, hds, hdsval⟩ := paddedBytes_spec width hi ending
  obtain ⟨es, heseq, hes, hesval⟩ := paddedBytes_spec width hj ending
  rw [hdseq, heseq, List.append_cancel_right_eq] at h
  rw [← hdsval, ← hesval, map_digitByte_injective hds hes h]

end Wayjournal
