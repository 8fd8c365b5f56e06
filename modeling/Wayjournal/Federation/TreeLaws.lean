import Mathlib.Data.Bool.AllAny
import Wayjournal.Collections.Separated
import Wayjournal.Control.Except
import Wayjournal.Crash.ReadOnly
import Wayjournal.Federation.DocumentLaws
import Wayjournal.Federation.GitObjects

namespace Wayjournal

open Collections Crash Fs Text

section Framing

variable {d : UInt8} {limit : Nat}

theorem splitRecords_piece (limit : Nat) {piece : Bytes} (rest record : Bytes) (h : d ∉ piece) :
    splitRecords d limit (piece ++ d :: rest) record =
        ((record ++ piece) :: (splitRecords d limit rest []).1, (splitRecords d limit rest []).2) ∨
      (splitRecords d limit (piece ++ d :: rest) record).2 = some .tooLong := by
  induction piece generalizing record with
  | nil =>
    left
    rw [List.nil_append, List.append_nil, splitRecords, if_pos rfl]
  | cons b piece ih =>
    obtain ⟨hb, hpiece⟩ := not_or.mp (List.mem_cons.not.mp h)
    rw [List.cons_append, splitRecords, if_neg (Ne.symm hb)]
    by_cases hlimit : record.length ≥ limit
    · right
      rw [if_pos hlimit]
    · rw [if_neg hlimit]
      obtain hrest | hrest := ih (record ++ [b]) hpiece
      · left
        rw [hrest, List.append_assoc, List.singleton_append]
      · exact .inr hrest

/-- A stream of delimited pieces that is read to its end is read as those pieces. -/
theorem splitRecords_pieces {pieces : List Bytes} (h : ∀ piece ∈ pieces, d ∉ piece)
    (hend : (splitRecords d limit (pieces.flatMap (· ++ [d])) []).2 = none) :
    (splitRecords d limit (pieces.flatMap (· ++ [d])) []).1 = pieces := by
  induction pieces with
  | nil => rfl
  | cons piece pieces ih =>
    rw [List.flatMap_cons, List.append_assoc, List.singleton_append] at hend ⊢
    obtain hpiece | hpiece := splitRecords_piece limit (pieces.flatMap (· ++ [d])) [] (h piece List.mem_cons_self)
    · rw [hpiece] at hend ⊢
      rw [ih (fun p hp => h p (List.mem_cons_of_mem _ hp)) hend, List.nil_append]
    · rw [hpiece] at hend
      cases hend

end Framing

section Entries

/-- The bytes of an object id are printable. -/
theorem GitOid.byte_hex {oid : GitOid} {b : UInt8} (h : b ∈ asBytes oid.hex) : 0x20 < b.toNat := by
  have hname : ∀ c ∈ oid.hex.toList, isNameChar c = true := fun c hc =>
    isNameChar_of_isLowerHex (List.all_eq_true.mp oid.lower c hc)
  rw [asBytes, Json.utf8, encode_nameChars hname] at h
  obtain ⟨c, hc, rfl⟩ := List.mem_map.mp h
  have hc := hname c hc
  simp only [isNameChar, Bool.and_eq_true, decide_eq_true_eq] at hc
  rw [Utf8.toNat_ofNat_of_lt (by omega)]
  exact hc.1.1

theorem GitOid.hexLen_injective {f g : GitObjectFormat} (h : f.hexLen = g.hexLen) : f = g := by
  cases f <;> cases g <;> first | rfl | cases h

theorem GitOid.parse_eq_some {format : GitObjectFormat} {oid parsed : GitOid}
    (h : GitOid.parse format oid.hex = some parsed) : parsed = oid := by
  unfold GitOid.parse at h
  split at h
  · rename_i hvalid
    cases h
    have hformat : format = oid.format := hexLen_injective (hvalid.1.symm.trans oid.length_eq)
    subst hformat
    rfl
  · cases h

theorem parseBlobOid_eq_ok {operation : String} {format : GitObjectFormat} {oid parsed : GitOid}
    (h : parseBlobOid operation format (asBytes oid.hex) = .ok parsed) : parsed = oid := by
  unfold parseBlobOid at h
  rw [fromUtf8_asBytes] at h
  dsimp only at h
  cases hparse : GitOid.parse format oid.hex with
  | none =>
    rw [hparse] at h
    cases h
  | some other =>
    rw [hparse] at h
    cases h
    exact GitOid.parse_eq_some hparse

theorem GitTree.byte_metadata {entry : TreeEntry} {field : Bytes} (hfield : field ∈ GitTree.metadata entry) {b : UInt8}
    (hb : b ∈ field) : 0x20 < b.toNat := by
  simp only [GitTree.metadata, List.mem_cons, List.not_mem_nil, or_false] at hfield
  obtain rfl | rfl | rfl := hfield
  · have hall : (asBytes entry.mode.text).all (fun b => decide (0x20 < b.toNat)) = true := by cases entry.mode <;> decide
    exact List.all_iff_forall_prop.mp hall b hb
  · have hall : (asBytes entry.mode.kind).all (fun b => decide (0x20 < b.toNat)) = true := by cases entry.mode <;> decide
    exact List.all_iff_forall_prop.mp hall b hb
  · exact GitOid.byte_hex hb

theorem splitTab_append {metadata path : Bytes} (h : TAB ∉ metadata) :
    splitTab (metadata ++ TAB :: path) = some (metadata, path) := by
  have hpos : ∀ b ∈ metadata, decide (b ≠ TAB) = true := fun b hb =>
    decide_eq_true fun hbt => h (hbt ▸ hb)
  unfold splitTab
  rw [List.dropWhile_append_of_pos hpos, List.takeWhile_append_of_pos hpos]
  simp

theorem GitTree.splitTab_record (e : Bytes × TreeEntry) :
    splitTab (GitTree.record e) = some ([SPACE].intercalate (GitTree.metadata e.2), e.1) := by
  apply splitTab_append
  intro h
  obtain h | ⟨field, hfield, h⟩ := mem_intercalate h
  · exact absurd h (by decide)
  · exact absurd (GitTree.byte_metadata hfield h) (by decide)

theorem GitTree.splitOn_metadata (entry : TreeEntry) :
    ([SPACE].intercalate (GitTree.metadata entry)).splitOn SPACE = GitTree.metadata entry := by
  apply List.splitOn_intercalate SPACE
  · intro field hfield h
    exact absurd (GitTree.byte_metadata hfield h) (by decide)
  · simp [GitTree.metadata]

/-- What a record of a listing is read as. -/
theorem nextEntry_record {cursor cursor' : TreeListingCursor} {format : GitObjectFormat} {e : Bytes × TreeEntry}
    {entry : TreeListingEntry} (h : cursor.nextEntry format (GitTree.record e) = .ok (entry, cursor')) :
    e.2.mode = .regular ∧ entry = ⟨e.1, e.2.oid, classifyPath e.1⟩ := by
  unfold TreeListingCursor.nextEntry at h
  rw [GitTree.splitTab_record] at h
  dsimp only at h
  rw [GitTree.splitOn_metadata] at h
  obtain ⟨hmode, h⟩ := guard_bind_eq_ok.mp h
  obtain ⟨-, h⟩ := guard_bind_eq_ok.mp h
  obtain ⟨-, h⟩ := guard_bind_eq_ok.mp h
  obtain ⟨blob, hblob, h⟩ := except_bind_eq_ok.mp h
  obtain rfl := parseBlobOid_eq_ok hblob
  refine ⟨?_, ?_⟩
  · have hregular : asBytes e.2.mode.text = asBytes "100644" := by
      by_contra hne
      exact hmode (by simp [GitTree.metadata, hne])
    revert hregular
    cases e.2.mode <;> decide
  · split at h
    · cases h
      rfl
    · cases h

end Entries

end Wayjournal
