import Wayjournal.Json.Parse

namespace Wayjournal.Json

open Collections Text

/-- What follows a value in printed text. -/
def Delim : List UInt8 → Prop
  | [] => True
  | b :: _ => b = 0x0a ∨ b = 0x2c ∨ b = 0x7d

theorem skipWs_of_not_isWs {b : UInt8} (h : isWs b = false) (t : List UInt8) :
    skipWs (b :: t) = b :: t := by
  simp [skipWs, h]

theorem skipWs_newline {b : UInt8} (h : isWs b = false) (k : Nat) (t : List UInt8) :
    skipWs (newline k ++ b :: t) = b :: t := by
  have hspaces : ∀ n, skipWs (List.replicate n 0x20 ++ b :: t) = b :: t := by
    intro n
    induction n with
    | zero => exact skipWs_of_not_isWs h t
    | succ n ih => simpa [List.replicate_succ, skipWs, isWs] using ih
  simpa [newline, skipWs, isWs] using hspaces (2 * k)

section Numbers

theorem decimalAux_spec (fuel n : Nat) (acc : List UInt8) (h : n < 10 ^ (fuel + 1)) :
    ∃ d ds, decimalAux (fuel + 1) n acc = (d :: ds).map digitByte ++ acc ∧
      (∀ x ∈ d :: ds, x < 10) ∧ (d :: ds).foldl (fun a x => a * 10 + x) 0 = n ∧
      (n = 0 → d :: ds = [0]) ∧ (n ≠ 0 → d ≠ 0) := by
  induction fuel generalizing n acc with
  | zero =>
    have hn : n / 10 = 0 := by omega
    have hm : n % 10 = n := by omega
    refine ⟨n, [], ?_, ?_, ?_, ?_, ?_⟩
    · simp [decimalAux, hn, hm]
    · simp only [List.mem_singleton, forall_eq]
      omega
    · simp
    · simp
    · simp
  | succ fuel ih =>
    rw [decimalAux]
    by_cases hn : n / 10 = 0
    · have hm : n % 10 = n := by omega
      refine ⟨n, [], ?_, ?_, ?_, ?_, ?_⟩
      · simp [hn, hm]
      · simp only [List.mem_singleton, forall_eq]
        omega
      · simp
      · simp
      · simp
    · have hlt : n / 10 < 10 ^ (fuel + 1) := by
        rw [pow_succ] at h
        omega
      obtain ⟨d, ds, heq, hlt10, hval, -, hhead⟩ := ih (n / 10) (digitByte (n % 10) :: acc) hlt
      refine ⟨d, ds ++ [n % 10], ?_, ?_, ?_, ?_, ?_⟩
      · simp [hn, heq]
      · intro x hx
        rw [← List.cons_append, List.mem_append, List.mem_singleton] at hx
        obtain hx | rfl := hx
        · exact hlt10 x hx
        · omega
      · rw [← List.cons_append, List.foldl_append, hval, List.foldl_cons, List.foldl_nil]
        omega
      · omega
      · exact fun _ => hhead hn

theorem decimal_spec {n : Nat} (h : n < 2 ^ 64) :
    ∃ d ds, decimal n = (d :: ds).map digitByte ∧ (∀ x ∈ d :: ds, x < 10) ∧
      (d :: ds).foldl (fun a x => a * 10 + x) 0 = n ∧ (n = 0 → d :: ds = [0]) ∧ (n ≠ 0 → d ≠ 0) := by
  obtain ⟨d, ds, heq, hrest⟩ := decimalAux_spec 19 n [] (by omega)
  exact ⟨d, ds, by rw [decimal, heq, List.append_nil], hrest⟩

theorem toNat_digitByte {d : Nat} (h : d < 10) : (digitByte d).toNat = 48 + d :=
  Utf8.toNat_ofNat_of_lt (by omega)

theorem isDigit_digitByte {d : Nat} (h : d < 10) : isDigit (digitByte d) = true := by
  simp only [isDigit, toNat_digitByte h, Bool.and_eq_true, decide_eq_true_eq]
  omega

theorem le_foldl_digits (ds : List Nat) (a : Nat) : a ≤ ds.foldl (fun a x => a * 10 + x) a := by
  induction ds generalizing a with
  | nil => exact le_rfl
  | cons d ds ih =>
    rw [List.foldl_cons]
    exact le_trans (by omega) (ih (a * 10 + d))

theorem Delim.not_isDigit {b : UInt8} {t : List UInt8} (h : Delim (b :: t)) : isDigit b = false := by
  obtain rfl | rfl | rfl := h <;> rfl

theorem parseDigits_map (positive : Bool) (ds : List Nat) (a : Nat) (rest : List UInt8)
    (hds : ∀ x ∈ ds, x < 10) (hlt : ds.foldl (fun a x => a * 10 + x) a < 2 ^ 64) (hrest : Delim rest) :
    parseDigits positive a (ds.map digitByte ++ rest) =
      finishNumber positive (ds.foldl (fun a x => a * 10 + x) a) rest := by
  induction ds generalizing a with
  | nil =>
    cases rest with
    | nil => simp [parseDigits]
    | cons b t => simp [parseDigits, hrest.not_isDigit]
  | cons d ds ih =>
    have hd : d < 10 := hds d List.mem_cons_self
    rw [List.foldl_cons] at hlt
    have hstep : a * 10 + d < 2 ^ 64 := lt_of_le_of_lt (le_foldl_digits ds _) hlt
    have hval : a * 10 + ((digitByte d).toNat - 48) = a * 10 + d := by
      rw [toNat_digitByte hd]
      omega
    rw [List.map_cons, List.cons_append, parseDigits, if_pos (isDigit_digitByte hd), hval,
      if_pos hstep, List.foldl_cons]
    exact ih _ (fun x hx => hds x (List.mem_cons_of_mem _ hx)) hlt

theorem finishNumber_delim (positive : Bool) (n : Nat) {rest : List UInt8} (h : Delim rest) :
    finishNumber positive n rest =
      if positive then
        if h : n < 2 ^ 64 then .ok (.posInt ⟨n, h⟩, rest) else .error .floatNotAllowed
      else if h : 1 ≤ n ∧ n ≤ 2 ^ 63 then .ok (.negInt ⟨n - 1, pred_lt_of_le h⟩, rest)
      else .error .floatNotAllowed := by
  cases rest with
  | nil => rfl
  | cons b t =>
    obtain rfl | rfl | rfl := h <;> rfl

/-- The digits of a number read back as the number. -/
theorem parseNumber_decimal (positive : Bool) {n : Nat} (hn : n < 2 ^ 64) {rest : List UInt8}
    (hrest : Delim rest) :
    parseNumber positive (decimal n ++ rest) = finishNumber positive n rest := by
  obtain ⟨d, ds, heq, hds, hval, hzero, hhead⟩ := decimal_spec hn
  rw [heq]
  by_cases h0 : n = 0
  · have hdd := hzero h0
    simp only [List.cons.injEq] at hdd
    obtain ⟨rfl, rfl⟩ := hdd
    subst h0
    cases rest with
    | nil => rfl
    | cons b t => simp [parseNumber, digitByte, hrest.not_isDigit]
  · have hd : d < 10 := hds d List.mem_cons_self
    have hne : digitByte d ≠ 0x30 := by
      intro h
      have := congrArg UInt8.toNat h
      rw [toNat_digitByte hd] at this
      have h48 : (0x30 : UInt8).toNat = 48 := rfl
      have := hhead h0
      omega
    have hfirst : (digitByte d).toNat - 48 = d := by
      rw [toNat_digitByte hd]
      omega
    rw [List.foldl_cons, Nat.zero_mul, Nat.zero_add] at hval
    have htail : ∀ x ∈ ds, x < 10 := fun x hx => hds x (List.mem_cons_of_mem _ hx)
    rw [List.map_cons, List.cons_append]
    unfold parseNumber
    simp only
    rw [if_neg hne, if_pos (isDigit_digitByte hd), hfirst,
      parseDigits_map positive ds d rest htail (by rw [hval]; exact hn) hrest, hval]

end Numbers

section Strings

theorem hexEscape?_control : ∀ k < 32,
    hexEscape? 0x30 0x30 (hexByte (k / 16)) (hexByte (k % 16)) = some k := by decide

theorem encodeChar_control : ∀ k < 32, Utf8.encodeChar (Char.ofNat k) = [UInt8.ofNat k] := by decide

theorem scanString_simple {e x : UInt8} (hu : e ≠ 0x75) (hx : simpleEscape? e = some x)
    (acc t : List UInt8) : scanString acc (0x5c :: e :: t) = scanString (x :: acc) t := by
  conv_lhs => unfold scanString
  rw [if_neg (by decide), if_pos rfl]
  simp only [if_neg hu, hx]

theorem scanString_escapeByte (b : UInt8) (acc t : List UInt8) :
    scanString acc (escapeByte b ++ t) = scanString (b :: acc) t := by
  unfold escapeByte
  split
  · rename_i h
    subst h
    exact scanString_simple (by decide) rfl acc t
  split
  · rename_i h
    subst h
    exact scanString_simple (by decide) rfl acc t
  split
  · rename_i h
    subst h
    exact scanString_simple (by decide) rfl acc t
  split
  · rename_i h
    subst h
    exact scanString_simple (by decide) rfl acc t
  split
  · rename_i h
    subst h
    exact scanString_simple (by decide) rfl acc t
  split
  · rename_i h
    subst h
    exact scanString_simple (by decide) rfl acc t
  split
  · rename_i h
    subst h
    exact scanString_simple (by decide) rfl acc t
  split
  · rename_i hq hb _ _ _ _ _ hc
    have hhex := hexEscape?_control b.toNat hc
    have henc := encodeChar_control b.toNat hc
    rw [UInt8.ofNat_toNat] at henc
    have h₁ : ¬(0xdc00 ≤ b.toNat ∧ b.toNat ≤ 0xdfff) := by omega
    have h₂ : ¬(0xd800 ≤ b.toNat ∧ b.toNat ≤ 0xdbff) := by omega
    simp only [List.cons_append, List.nil_append]
    conv_lhs => unfold scanString
    rw [if_neg (by decide), if_pos rfl]
    simp only [hhex, if_neg h₁, if_neg h₂, henc]
    rfl
  · rename_i hq hb _ _ _ _ _ hc
    rw [List.singleton_append]
    conv_lhs => unfold scanString
    rw [if_neg hq, if_neg hb, if_neg hc]

theorem scanString_flatMap (bs acc rest : List UInt8) :
    scanString acc (bs.flatMap escapeByte ++ 0x22 :: rest) = .ok (acc.reverse ++ bs, rest) := by
  induction bs generalizing acc with
  | nil =>
    rw [List.flatMap_nil, List.nil_append, List.append_nil]
    unfold scanString
    rw [if_pos rfl]
  | cons b bs ih =>
    rw [List.flatMap_cons, List.append_assoc, scanString_escapeByte, ih]
    simp

@[simp] theorem parseString_utf8 (s : String) (rest : List UInt8) :
    parseString ((utf8 s).flatMap escapeByte ++ 0x22 :: rest) = .ok (s, rest) := by
  simp [parseString, scanString_flatMap, utf8]

end Strings

section Values

theorem digitByte_start : ∀ d < 10, isWs (digitByte d) = false ∧ digitByte d ≠ 0x5d ∧
    digitByte d ≠ 0x5b ∧ digitByte d ≠ 0x7b ∧ digitByte d ≠ 0x6e ∧ digitByte d ≠ 0x74 ∧
    digitByte d ≠ 0x66 ∧ digitByte d ≠ 0x2d := by decide

/-- A printed value starts with a byte that is neither white space nor a closing
bracket. -/
theorem print_start (v : Raw) (hv : v.noFloats = true) (indent : Nat) :
    ∃ b t, print indent v = b :: t ∧ isWs b = false ∧ b ≠ 0x5d := by
  cases v with
  | null => exact ⟨_, _, by rw [print], rfl, by decide⟩
  | bool b =>
    cases b with
    | true => exact ⟨_, _, by rw [print], rfl, by decide⟩
    | false => exact ⟨_, _, by rw [print], rfl, by decide⟩
  | number n =>
    cases n with
    | posInt n =>
      obtain ⟨d, ds, heq, hds, -⟩ := decimal_spec n.isLt
      obtain ⟨h₁, h₂, -⟩ := digitByte_start d (hds d List.mem_cons_self)
      exact ⟨digitByte d, ds.map digitByte, by rw [print, printNumber, heq, List.map_cons], h₁, h₂⟩
    | negInt m => exact ⟨_, _, by rw [print, printNumber], rfl, by decide⟩
    | float bits => cases hv
  | string s => exact ⟨_, _, by rw [print, printString], rfl, by decide⟩
  | array items =>
    cases items with
    | nil => exact ⟨_, _, by rw [print], rfl, by decide⟩
    | cons v vs => exact ⟨_, _, by rw [print], rfl, by decide⟩
  | object members =>
    cases members with
    | nil => exact ⟨_, _, by rw [print], rfl, by decide⟩
    | cons e es => exact ⟨_, _, by rw [print], rfl, by decide⟩

theorem delim_newline (k : Nat) (t : List UInt8) : Delim (newline k ++ t) := .inl rfl

theorem delim_printItems (indent : Nat) (vs : List Raw) {t : List UInt8} (ht : Delim t) :
    Delim (printItems indent vs ++ t) := by
  cases vs with
  | nil =>
    rw [printItems]
    exact ht
  | cons v vs =>
    rw [printItems]
    exact .inr (.inl rfl)

theorem delim_printMembers (indent : Nat) (es : List (String × Raw)) {t : List UInt8} (ht : Delim t) :
    Delim (printMembers indent es ++ t) := by
  cases es with
  | nil =>
    rw [printMembers]
    exact ht
  | cons e es =>
    rw [printMembers]
    exact .inr (.inl rfl)

/-- `element` reads back whatever it reads of the printed `v`. -/
def ReadsBack (element : List UInt8 → Except ParseError (Raw × List UInt8)) (v : Raw) : Prop :=
  v.noFloats = true ∧ ∀ indent rest, Delim rest → element (print indent v ++ rest) = .ok (v, rest)

section Steps

variable {element : List UInt8 → Except ParseError (Raw × List UInt8)} {fuel : Nat} {first : Bool}
variable {bs rest tail : List UInt8}

theorem parseItems_close (h : skipWs bs = 0x5d :: rest) :
    parseItems element (fuel + 1) first bs = .ok ([], rest) := by
  simp [parseItems, h]

theorem parseItems_first {b : UInt8} {t : List UInt8} {v : Raw} {vs : List Raw}
    (h : skipWs bs = b :: t) (hb : b ≠ 0x5d) (hv : element (b :: t) = .ok (v, rest))
    (hvs : parseItems element fuel false rest = .ok (vs, tail)) :
    parseItems element (fuel + 1) true bs = .ok (v :: vs, tail) := by
  simp [parseItems, h, hb, hv, hvs]

theorem parseItems_comma {b : UInt8} {s t : List UInt8} {v : Raw} {vs : List Raw}
    (h : skipWs bs = 0x2c :: s) (hs : skipWs s = b :: t) (hb : b ≠ 0x5d)
    (hv : element (b :: t) = .ok (v, rest))
    (hvs : parseItems element fuel false rest = .ok (vs, tail)) :
    parseItems element (fuel + 1) false bs = .ok (v :: vs, tail) := by
  simp [parseItems, h, hs, hb, hv, hvs]

variable {values m : BTreeMap String Raw} {key : String}

theorem parseMembers_close (h : skipWs bs = 0x7d :: rest) :
    parseMembers element (fuel + 1) first values bs = .ok (values, rest) := by
  simp [parseMembers, h]

theorem parseMembers_first {s t u : List UInt8} {v : Raw} (h : skipWs bs = 0x22 :: s)
    (hkey : parseString s = .ok (key, t)) (hfresh : values.containsKey key = false)
    (hcolon : skipWs t = 0x3a :: u) (hv : element u = .ok (v, rest))
    (hm : parseMembers element fuel false (values.insert key v) rest = .ok (m, tail)) :
    parseMembers element (fuel + 1) true values bs = .ok (m, tail) := by
  simp [parseMembers, h, hkey, hfresh, hcolon, hv, hm]

theorem parseMembers_comma {r s t u : List UInt8} {v : Raw} (h : skipWs bs = 0x2c :: r)
    (hquote : skipWs r = 0x22 :: s) (hkey : parseString s = .ok (key, t))
    (hfresh : values.containsKey key = false) (hcolon : skipWs t = 0x3a :: u)
    (hv : element u = .ok (v, rest))
    (hm : parseMembers element fuel false (values.insert key v) rest = .ok (m, tail)) :
    parseMembers element (fuel + 1) false values bs = .ok (m, tail) := by
  simp [parseMembers, h, hquote, hkey, hfresh, hcolon, hv, hm]

end Steps

theorem parseItems_printItems {element : List UInt8 → Except ParseError (Raw × List UInt8)}
    (vs : List Raw) (hvs : ∀ v ∈ vs, ReadsBack element v) (indent k fuel : Nat)
    (hfuel : vs.length < fuel) (rest : List UInt8) :
    parseItems element fuel false (printItems indent vs ++ (newline k ++ 0x5d :: rest)) =
      .ok (vs, rest) := by
  induction vs generalizing fuel with
  | nil =>
    obtain ⟨fuel, rfl⟩ : ∃ m, fuel = m + 1 := ⟨fuel - 1, by simp at hfuel; omega⟩
    rw [printItems, List.nil_append]
    exact parseItems_close (skipWs_newline rfl k rest)
  | cons v vs ih =>
    obtain ⟨fuel, rfl⟩ : ∃ m, fuel = m + 1 := ⟨fuel - 1, by simp at hfuel; omega⟩
    obtain ⟨hnf, hread⟩ := hvs v List.mem_cons_self
    have htail := ih (fun w hw => hvs w (List.mem_cons_of_mem _ hw)) fuel (by simpa using hfuel)
    obtain ⟨b, t, hprint, hws, hne⟩ := print_start v hnf indent
    have hv := hread indent (printItems indent vs ++ (newline k ++ 0x5d :: rest))
      (delim_printItems indent vs (delim_newline k _))
    rw [hprint, List.cons_append] at hv
    simp only [printItems, List.cons_append, List.append_assoc, hprint]
    exact parseItems_comma (skipWs_of_not_isWs rfl _) (skipWs_newline hws indent _) hne hv htail

theorem insert_entries_of_lt {m : BTreeMap String Raw} {k : String} {v : Raw}
    (h : ∀ a ∈ m.keys, a < k) : (m.insert k v).entries = m.entries ++ [(k, v)] := by
  have hgen : ∀ l : List (String × Raw), (∀ e ∈ l, e.1 < k) →
      BTreeMap.insertEntry k v l = l ++ [(k, v)] := by
    intro l
    induction l with
    | nil => intro _; rfl
    | cons e t ih =>
      intro hl
      have he := hl e List.mem_cons_self
      rw [BTreeMap.insertEntry, if_neg he.asymm, if_neg he.ne', List.cons_append,
        ih (fun e he => hl e (List.mem_cons_of_mem _ he))]
  exact hgen _ (fun e he => h e.1 (List.mem_map_of_mem he))

theorem containsKey_eq_false_of_lt {m : BTreeMap String Raw} {k : String}
    (h : ∀ a ∈ m.keys, a < k) : m.containsKey k = false := by
  rw [← Bool.not_eq_true, BTreeMap.containsKey_iff]
  exact fun hk => lt_irrefl k (h k hk)

theorem parseMembers_printMembers {element : List UInt8 → Except ParseError (Raw × List UInt8)}
    (es : List (String × Raw)) (hes : ∀ e ∈ es, ReadsBack element e.2)
    (hspace : ∀ bs, element (0x20 :: bs) = element bs)
    (hsorted : (es.map Prod.fst).Pairwise (· < ·)) (values : BTreeMap String Raw)
    (habove : ∀ a ∈ values.keys, ∀ e ∈ es, a < e.1) (indent k fuel : Nat)
    (hfuel : es.length < fuel) (rest : List UInt8) :
    ∃ m, parseMembers element fuel false values
        (printMembers indent es ++ (newline k ++ 0x7d :: rest)) = .ok (m, rest) ∧
      m.entries = values.entries ++ es := by
  induction es generalizing fuel values with
  | nil =>
    obtain ⟨fuel, rfl⟩ : ∃ m, fuel = m + 1 := ⟨fuel - 1, by simp at hfuel; omega⟩
    refine ⟨values, ?_, by simp⟩
    rw [printMembers, List.nil_append]
    exact parseMembers_close (skipWs_newline rfl k rest)
  | cons e es ih =>
    obtain ⟨key, v⟩ := e
    obtain ⟨fuel, rfl⟩ : ∃ m, fuel = m + 1 := ⟨fuel - 1, by simp at hfuel; omega⟩
    rw [List.map_cons, List.pairwise_cons] at hsorted
    obtain ⟨hnf, hread⟩ := hes _ List.mem_cons_self
    have hlt : ∀ a ∈ values.keys, a < key := fun a ha => habove a ha _ List.mem_cons_self
    have hkeys : ∀ a ∈ (values.insert key v).keys, ∀ e ∈ es, a < e.1 := by
      intro a ha e he
      obtain rfl | ha := BTreeMap.mem_keys_insert.mp ha
      · exact hsorted.1 e.1 (List.mem_map_of_mem he)
      · exact habove a ha e (List.mem_cons_of_mem _ he)
    obtain ⟨m, hm, hentries⟩ := ih (fun e he => hes e (List.mem_cons_of_mem _ he)) hsorted.2
      (values.insert key v) hkeys fuel (by simpa using hfuel)
    refine ⟨m, ?_, by rw [hentries, insert_entries_of_lt hlt, List.append_assoc, List.singleton_append]⟩
    have hv := hread indent (printMembers indent es ++ (newline k ++ 0x7d :: rest))
      (delim_printMembers indent es (delim_newline k _))
    rw [← hspace] at hv
    simp only [printMembers, printString, List.cons_append, List.nil_append, List.append_assoc]
    exact parseMembers_comma (skipWs_of_not_isWs rfl _) (skipWs_newline rfl indent _)
      (parseString_utf8 key _) (containsKey_eq_false_of_lt hlt) (skipWs_of_not_isWs rfl _) hv hm

theorem parseValue_space (levels : Nat) (bs : List UInt8) :
    parseValue levels (0x20 :: bs) = parseValue levels bs := by
  cases levels <;> simp [parseValue, skipWs, isWs]

theorem parseValue_array (levels : Nat) (bs : List UInt8) :
    parseValue (levels + 1) (0x5b :: bs) =
      (parseItems (parseValue levels) (bs.length + 1) true bs).map (fun r => (.array r.1, r.2)) := rfl

theorem parseValue_object (levels : Nat) (bs : List UInt8) :
    parseValue (levels + 1) (0x7b :: bs) =
      (parseMembers (parseValue levels) (bs.length + 1) true ∅ bs).map
        (fun r => (.object r.1.entries, r.2)) := rfl

theorem parseValue_scalar (levels : Nat) {b : UInt8} (bs : List UInt8) (hws : isWs b = false)
    (ha : b ≠ 0x5b) (ho : b ≠ 0x7b) : parseValue levels (b :: bs) = parseScalar b bs := by
  cases levels <;> simp [parseValue, skipWs_of_not_isWs hws, ha, ho]

theorem length_le_printItems (indent : Nat) (vs : List Raw) :
    vs.length ≤ (printItems indent vs).length := by
  induction vs with
  | nil => simp
  | cons v vs ih =>
    simp only [printItems, List.length_cons, List.length_append]
    omega

theorem length_le_printMembers (indent : Nat) (es : List (String × Raw)) :
    es.length ≤ (printMembers indent es).length := by
  induction es with
  | nil => simp
  | cons e es ih =>
    simp only [printMembers, List.length_cons, List.length_append]
    omega

theorem printNumber_start {n : Number} {b : UInt8} {t : List UInt8} (h : printNumber n = b :: t) :
    isWs b = false ∧ b ≠ 0x5b ∧ b ≠ 0x7b := by
  cases n with
  | posInt n =>
    obtain ⟨d, ds, heq, hds, -⟩ := decimal_spec n.isLt
    rw [printNumber, heq, List.map_cons, List.cons.injEq] at h
    obtain ⟨h₁, -, h₂, h₃, -⟩ := digitByte_start d (hds d List.mem_cons_self)
    rw [← h.1]
    exact ⟨h₁, h₂, h₃⟩
  | negInt m =>
    rw [printNumber, List.cons.injEq] at h
    rw [← h.1]
    decide
  | float bits => cases h

theorem parseScalar_printNumber {n : Number} (hn : (Raw.number n).noFloats = true) {b : UInt8}
    {t rest : List UInt8} (hprint : printNumber n = b :: t) (hrest : Delim rest) :
    parseScalar b (t ++ rest) = .ok (.number n, rest) := by
  cases n with
  | posInt n =>
    have hparse := parseNumber_decimal true n.isLt hrest
    obtain ⟨d, ds, heq, hds, -⟩ := decimal_spec n.isLt
    have hd : d < 10 := hds d List.mem_cons_self
    rw [printNumber, heq, List.map_cons, List.cons.injEq] at hprint
    obtain ⟨rfl, rfl⟩ := hprint
    obtain ⟨-, -, -, -, h₁, h₂, h₃, h₄⟩ := digitByte_start d hd
    rw [heq, List.map_cons, List.cons_append, finishNumber_delim true n.val hrest] at hparse
    simp [parseScalar, h₁, h₂, h₃, h₄, isDigit_digitByte hd, hparse, Except.map]
  | negInt m =>
    have hlt : m.val + 1 < 2 ^ 64 := by omega
    have hparse := parseNumber_decimal false hlt hrest
    rw [printNumber, List.cons.injEq] at hprint
    obtain ⟨rfl, rfl⟩ := hprint
    have hrange : 1 ≤ m.val + 1 ∧ m.val + 1 ≤ 2 ^ 63 := by omega
    rw [finishNumber_delim false _ hrest] at hparse
    simp only [Bool.false_eq_true, if_false, dif_pos hrange] at hparse
    rw [parseScalar, if_neg (by decide), if_neg (by decide), if_neg (by decide), if_pos rfl, hparse]
    rfl
  | float bits => cases hn

/-- A printed value reads back when enough nesting is allowed. -/
theorem parseValue_print (v : Raw) : ∀ levels, v.depth ≤ levels → v.noFloats = true →
    v.sorted = true → ReadsBack (parseValue levels) v := by
  induction v using Raw.induction with
  | null =>
    intro levels _ _ _
    refine ⟨rfl, fun indent rest _ => ?_⟩
    cases levels <;> rfl
  | bool b =>
    intro levels _ _ _
    refine ⟨rfl, fun indent rest _ => ?_⟩
    cases b <;> cases levels <;> rfl
  | number n =>
    intro levels _ hnf _
    refine ⟨hnf, fun indent rest hrest => ?_⟩
    rw [print]
    cases hprint : printNumber n with
    | nil =>
      obtain ⟨b, t, h, -⟩ := print_start _ hnf indent
      rw [print, hprint] at h
      cases h
    | cons b t =>
      obtain ⟨hws, ha, ho⟩ := printNumber_start hprint
      rw [List.cons_append, parseValue_scalar levels _ hws ha ho]
      exact parseScalar_printNumber hnf hprint hrest
  | string s =>
    intro levels _ _ _
    refine ⟨rfl, fun indent rest _ => ?_⟩
    have hs : parseScalar 0x22 ((utf8 s).flatMap escapeByte ++ 0x22 :: rest) = .ok (.string s, rest) := by
      simp [parseScalar, isDigit, Except.map]
    cases levels <;> simpa [print, printString, parseValue, skipWs, isWs] using hs
  | array items ih =>
    intro levels hd hnf hs
    refine ⟨hnf, fun indent rest _ => ?_⟩
    obtain ⟨levels, rfl⟩ : ∃ m, levels = m + 1 := ⟨levels - 1, by rw [Raw.depth] at hd; omega⟩
    have hread : ∀ v ∈ items, ReadsBack (parseValue levels) v := by
      intro v hv
      apply ih v hv levels
      · rw [Raw.depth] at hd
        exact Raw.depthItems_le.mp (by omega) v hv
      · exact Raw.noFloatsItems_iff.mp hnf v hv
      · exact Raw.sortedItems_iff.mp hs v hv
    cases items with
    | nil => rfl
    | cons v vs =>
      obtain ⟨hvnf, hv⟩ := hread v List.mem_cons_self
      obtain ⟨b, t, hprint, hws, hne⟩ := print_start v hvnf (indent + 1)
      have hfirst := hv (indent + 1) (printItems (indent + 1) vs ++ (newline indent ++ 0x5d :: rest))
        (delim_printItems _ vs (delim_newline _ _))
      have htail : ∀ fuel, vs.length < fuel → _ := fun fuel hfuel =>
        parseItems_printItems vs (fun w hw => hread w (List.mem_cons_of_mem _ hw)) (indent + 1) indent
          fuel hfuel rest
      rw [print]
      simp only [List.cons_append, List.append_assoc, List.nil_append, parseValue_array]
      rw [hprint, List.cons_append] at hfirst ⊢
      rw [parseItems_first (skipWs_newline hws _ _) hne hfirst (htail _ ?_)]
      · rfl
      · have := length_le_printItems (indent + 1) vs
        simp only [List.length_append, List.length_cons, newline]
        omega
  | object members ih =>
    intro levels hd hnf hs
    refine ⟨hnf, fun indent rest _ => ?_⟩
    obtain ⟨levels, rfl⟩ : ∃ m, levels = m + 1 := ⟨levels - 1, by rw [Raw.depth] at hd; omega⟩
    rw [Raw.sorted, Bool.and_eq_true, ascending_iff] at hs
    have hread : ∀ e ∈ members, ReadsBack (parseValue levels) e.2 := by
      intro e he
      apply ih e he levels
      · rw [Raw.depth] at hd
        exact Raw.depthMembers_le.mp (by omega) e he
      · exact Raw.noFloatsMembers_iff.mp hnf e he
      · exact Raw.sortedMembers_iff.mp hs.2 e he
    cases members with
    | nil => rfl
    | cons e es =>
      obtain ⟨key, v⟩ := e
      have hsorted := hs.1
      rw [List.map_cons, List.pairwise_cons] at hsorted
      have hfirst := (hread _ List.mem_cons_self).2 (indent + 1)
        (printMembers (indent + 1) es ++ (newline indent ++ 0x7d :: rest))
        (delim_printMembers _ es (delim_newline _ _))
      rw [← parseValue_space] at hfirst
      have hempty : ∀ a ∈ (∅ : BTreeMap String Raw).keys, a < key := fun a ha => by cases ha
      have hkeys : ∀ a ∈ ((∅ : BTreeMap String Raw).insert key v).keys, ∀ e ∈ es, a < e.1 := by
        intro a ha e he
        obtain rfl | ha := BTreeMap.mem_keys_insert.mp ha
        · exact hsorted.1 e.1 (List.mem_map_of_mem he)
        · cases ha
      have htail : ∀ fuel, es.length < fuel → _ := fun fuel hfuel =>
        parseMembers_printMembers es (fun e he => hread e (List.mem_cons_of_mem _ he))
          (parseValue_space levels) hsorted.2 _ hkeys (indent + 1) indent fuel hfuel rest
      rw [print]
      simp only [printString, List.cons_append, List.append_assoc, List.nil_append, parseValue_object]
      obtain ⟨m, hm, hentries⟩ := htail (newline (indent + 1) ++ 0x22 :: ((utf8 key).flatMap escapeByte ++
        0x22 :: 0x3a :: 0x20 :: (print (indent + 1) v ++ (printMembers (indent + 1) es ++
          (newline indent ++ 0x7d :: rest))))).length (by
            have := length_le_printMembers (indent + 1) es
            simp only [List.length_append, List.length_cons, newline]
            omega)
      rw [parseMembers_first (skipWs_newline rfl _ _) (parseString_utf8 key _)
        (containsKey_eq_false_of_lt hempty) (skipWs_of_not_isWs rfl _) hfirst hm]
      simp only [Except.map, hentries, insert_entries_of_lt hempty]
      rfl

end Values

/-- No printed value is the start of another one. -/
theorem print_prefix_free {v w : Raw} {rest : List UInt8} (hv : v.depth ≤ MAX_NESTING) (hvf : v.noFloats = true)
    (hvs : v.sorted = true) (hw : w.depth ≤ MAX_NESTING) (hwf : w.noFloats = true) (hws : w.sorted = true)
    (h : print 0 v ++ [0x0a] = print 0 w ++ 0x0a :: rest) : rest = [] := by
  have hleft := (parseValue_print v MAX_NESTING hv hvf hvs).2 0 [0x0a] (.inl rfl)
  have hright := (parseValue_print w MAX_NESTING hw hwf hws).2 0 (0x0a :: rest) (.inl rfl)
  rw [h, hright] at hleft
  simp only [Except.ok.injEq, Prod.mk.injEq, List.cons.injEq, true_and] at hleft
  exact hleft.2

theorem parse_print {v : Raw} (hd : v.depth ≤ MAX_NESTING) (hnf : v.noFloats = true)
    (hs : v.sorted = true) : parse (print 0 v ++ [0x0a]) = .ok v := by
  have h := (parseValue_print v MAX_NESTING hd hnf hs).2 0 [0x0a] (.inl rfl)
  simp [parse, h, skipWs, isWs]

end Wayjournal.Json
