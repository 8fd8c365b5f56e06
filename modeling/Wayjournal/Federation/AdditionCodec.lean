import Mathlib.Data.Nat.Digits.Lemmas
import Wayjournal.Federation.Additions

namespace Wayjournal

open Collections Text

@[simp] theorem length_beBytes (width n : Nat) : (beBytes width n).length = width := by
  induction width with
  | zero => rfl
  | succ width ih => rw [beBytes, List.length_cons, ih]

theorem foldl_beBytes (width n m : Nat) :
    (beBytes width n).foldl (fun n b => n * 256 + b.toNat) m = m * 256 ^ width + n % 256 ^ width := by
  induction width generalizing m with
  | zero => simp [beBytes, Nat.mod_one]
  | succ width ih =>
    have hpow : 2 ^ (8 * width) = 256 ^ width := by rw [Nat.pow_mul]
    have hdigit : (UInt8.ofNat (n >>> (8 * width))).toNat = n / 256 ^ width % 256 := by
      rw [UInt8.toNat_ofNat', Nat.shiftRight_eq_div_pow, hpow]
    rw [beBytes, List.foldl_cons, ih, hdigit, Nat.mod_pow_succ, Nat.pow_succ]
    ring

/-- A number that fits its width is read back. -/
theorem fromBeBytes_beBytes {width n : Nat} (h : n < 256 ^ width) : fromBeBytes (beBytes width n) = n := by
  rw [fromBeBytes, foldl_beBytes, Nat.zero_mul, Nat.zero_add, Nat.mod_eq_of_lt h]

theorem fromBeBytes_lt (bytes : Bytes) : fromBeBytes bytes < 256 ^ bytes.length := by
  have hfold : ∀ (l : Bytes) (m : Nat), l.foldl (fun n b => n * 256 + b.toNat) m < (m + 1) * 256 ^ l.length := by
    intro l
    induction l with
    | nil => intro m; simp
    | cons b l ih =>
      intro m
      have hb := b.toNat_lt
      refine lt_of_lt_of_le (ih (m * 256 + b.toNat)) ?_
      rw [List.length_cons, Nat.pow_succ, Nat.mul_comm (256 ^ l.length), ← Nat.mul_assoc]
      exact Nat.mul_le_mul_right _ (by omega)
  exact lt_of_lt_of_eq (hfold bytes 0) (by rw [Nat.zero_add, Nat.one_mul])

theorem flatMap_nibblePairs {l : List (Fin 16)} (h : l.length % 2 = 0) : (nibblePairs l).flatMap byteNibbles = l := by
  induction l using nibblePairs.induct with
  | case1 a b t ih =>
    have ht : t.length % 2 = 0 := by
      rw [List.length_cons, List.length_cons] at h
      omega
    have hbyte : (UInt8.ofNat (a.val * 16 + b.val)).toNat = a.val * 16 + b.val := by
      rw [UInt8.toNat_ofNat']
      omega
    have ha : (a.val * 16 + b.val) / 16 = a.val := by omega
    have hb : (a.val * 16 + b.val) % 16 = b.val := by omega
    rw [nibblePairs, List.flatMap_cons, ih ht]
    simp only [byteNibbles, hbyte, ha, hb, Fin.eta, List.cons_append, List.nil_append]
  | case2 l hl =>
    match l, hl with
    | [], _ => rfl
    | [a], _ => simp at h
    | a :: b :: t, hl => exact absurd rfl (hl a b t)

@[simp] theorem Digest.ofBytes_toBytes (d : Digest) : Digest.ofBytes d.toBytes = some d := by
  obtain ⟨⟨nibbles, hlength⟩⟩ := d
  have hnibbles : (nibblePairs nibbles).flatMap byteNibbles = nibbles := flatMap_nibblePairs (by rw [hlength])
  rw [Digest.toBytes, Digest.ofBytes, dif_pos (by rw [hnibbles]; exact hlength)]
  simp only [hnibbles]

theorem Digest.toBytes_injective : Function.Injective Digest.toBytes := by
  intro a b h
  have ha := a.ofBytes_toBytes
  rw [h, b.ofBytes_toBytes] at ha
  exact (Option.some.inj ha).symm

@[simp] theorem Digest.length_toBytes (d : Digest) : d.toBytes.length = 32 := by
  have hpairs : ∀ l : List (Fin 16), (nibblePairs l).length = l.length / 2 := by
    intro l
    induction l using nibblePairs.induct with
    | case1 a b t ih =>
      rw [nibblePairs, List.length_cons, ih, List.length_cons, List.length_cons]
      omega
    | case2 l hl =>
      match l, hl with
      | [], _ => rfl
      | [a], _ => simp [nibblePairs]
      | a :: b :: t, hl => exact absurd rfl (hl a b t)
  rw [Digest.toBytes, hpairs, d.length_eq]

end Wayjournal
