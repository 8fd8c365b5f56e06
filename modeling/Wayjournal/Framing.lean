import Wayjournal.Collections.SelfDelimiting
import Wayjournal.Hash

namespace Wayjournal

open Collections

/-- The lengths a frame can hold. -/
def framable : Set Bytes := {bytes | bytes.length < 2 ^ 64}

theorem length_toBeBytes (n : Nat) : (toBeBytes n).length = 8 := rfl

theorem toBeBytes_injOn : Set.InjOn toBeBytes {n | n < 2 ^ 64} := by
  intro n hn m hm h
  have hbyte : ∀ k < 8, n / 256 ^ k % 256 = m / 256 ^ k % 256 := by
    intro k hk
    have hshift : 8 * k ∈ [56, 48, 40, 32, 24, 16, 8, 0] := by
      revert k
      decide
    have hnat := congrArg UInt8.toNat (List.map_inj_left.mp h (8 * k) hshift)
    rwa [UInt8.toNat_ofNat', UInt8.toNat_ofNat', Nat.shiftRight_eq_div_pow, Nat.shiftRight_eq_div_pow, Nat.pow_mul] at hnat
  have hlow : ∀ k ≤ 8, n % 256 ^ k = m % 256 ^ k := by
    intro k hk
    induction k with
    | zero => rw [Nat.pow_zero, Nat.mod_one, Nat.mod_one]
    | succ k ih => rw [Nat.mod_pow_succ, Nat.mod_pow_succ, ih (Nat.le_of_succ_le hk), hbyte k hk]
  have hsame := hlow 8 le_rfl
  rwa [Nat.mod_eq_of_lt (show n < 256 ^ 8 from hn), Nat.mod_eq_of_lt (show m < 256 ^ 8 from hm)] at hsame

theorem selfDelimiting_toBeBytes : SelfDelimiting toBeBytes {n | n < 2 ^ 64} :=
  .ofLength (fun n _ => length_toBeBytes n) toBeBytes_injOn

theorem selfDelimiting_frame : SelfDelimiting frame framable := by
  refine selfDelimiting_toBeBytes.dependent (fun _ h => h) fun a _ b _ hlength r t heq => ?_
  exact List.append_inj heq hlength

theorem frames_injective {a b c d : Bytes} (h : (a, b) ∈ framable ×ˢ framable) (h' : (c, d) ∈ framable ×ˢ framable)
    (heq : frame a ++ frame b = frame c ++ frame d) : a = c ∧ b = d :=
  Prod.mk.inj ((selfDelimiting_frame.prod selfDelimiting_frame).injOn h h' heq)

theorem frame_ne_nil (bytes : Bytes) : frame bytes ≠ [] :=
  List.append_ne_nil_of_left_ne_nil (List.cons_ne_nil _ _) _

/-- Frames one after the other determine what they hold. -/
theorem flatMap_frame_injOn : Set.InjOn (fun l : List Bytes => l.flatMap frame) {l | ∀ b ∈ l, b ∈ framable} :=
  selfDelimiting_frame.flatMap_injOn fun bytes _ => frame_ne_nil bytes

/-- The entries of `framed_hash`, each a pair of frames. -/
theorem flatMap_frames_injOn : Set.InjOn (fun l : List (Bytes × Bytes) => l.flatMap fun e => frame e.1 ++ frame e.2)
    {l | ∀ e ∈ l, e ∈ framable ×ˢ framable} :=
  (selfDelimiting_frame.prod selfDelimiting_frame).flatMap_injOn fun _ _ =>
    List.append_ne_nil_of_left_ne_nil (frame_ne_nil _) _

end Wayjournal
