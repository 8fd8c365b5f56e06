import Wayjournal.Domains.Convergence
import Wayjournal.Record.CodecLaws
import Wayjournal.Record.Length
import Mathlib.Tactic.Ring

namespace Wayjournal

open Collections

/-- Writing and reading records invert each other exactly on the payloads that
are nested less deeply than the reader allows. -/
theorem record_codec_bijection_iff [Jiff] (registry : DomainRegistry) :
    (∀ record bytes, encodeRecord record registry = .ok bytes →
      (decodeRecord bytes registry = .ok record ↔ record.payload.depth ≤ 126)) ∧
    (∀ bytes record, decodeRecord bytes registry = .ok record →
      encodeRecord record registry = .ok bytes) ∧
    (∀ bytes bytes' record, decodeRecord bytes registry = .ok record →
      decodeRecord bytes' registry = .ok record → bytes = bytes') := by
  refine ⟨?_, ?_, ?_⟩
  · intro record bytes h
    rw [decode_encode_iff h, Nat.lt_iff_le_pred (by decide)]
    rfl
  · intro bytes record h
    exact encode_decode h
  · intro bytes bytes' record h h'
    have hb := encode_decode h
    rw [encode_decode h'] at hb
    exact (Except.ok.inj hb).symm

namespace Sample

/-- The timestamp library on one instant. -/
@[reducible] def jiff : Jiff where
  Timestamp := Unit
  decEq := inferInstance
  parse s := if s = "2026-08-12T13:00:00Z" then some () else none
  toText _ := "2026-08-12T13:00:00Z"

attribute [local instance] jiff

def timestamp : RecordTimestamp := ⟨(), rfl, rfl⟩

def batchId : BatchId where
  uuid := ⟨[0, 1, 9, 1, 3, 15, 1, 13, 8, 14, 2, 10, 7, 12, 3, 0, 8, 15, 4, 10, 4, 2, 6, 6, 1, 4, 1, 7,
    4, 0, 9, 9], rfl⟩
  accepted := by decide

/-- A domain whose validator accepts every payload. -/
def registry : DomainRegistry where
  registrations := [⟨"example.notes", "example.notes/v1", ["note.created"], fun _ _ => .ok ()⟩]
  sealedBuiltins := false

theorem check_notes : TokenKind.domain.check "example.notes".toList = true := by decide

theorem validActor_robin : validActor "human:robin".toList = true := by decide

def record (payload : Json) : Record where
  recordSchema := ⟨"example.notes/v1", by decide⟩
  domain := ⟨"example.notes", check_notes⟩
  kind := ⟨"note.created", by decide⟩
  recordId := recordId 1
  entityId := entityId
  batchId := batchId
  actor := ⟨"human:robin", validActor_robin⟩
  occurredAt := timestamp
  recordedAt := timestamp
  parents := []
  payload := payload

theorem validateRecord_record (payload : Json) :
    validateRecord (record payload) registry = .ok () := rfl

def nested : Nat → Json
  | 0 => .null
  | n + 1 => .array [nested n]

theorem depth_nested (n : Nat) : (nested n).depth = n := by
  induction n with
  | zero => rfl
  | succ n ih =>
    change max (nested n).depth 0 + 1 = n + 1
    rw [ih, Nat.max_zero]

theorem noFloats_nested (n : Nat) : (nested n).noFloats = true := by
  induction n with
  | zero => rfl
  | succ n ih => simpa [nested, Json.noFloats_array] using ih

theorem length_print_nested (n indent : Nat) :
    (Json.print indent (nested n).raw).length = 4 + n * (4 * indent + 2 * n + 4) := by
  induction n generalizing indent with
  | zero =>
    change (Json.print indent .null).length = _
    simp only [Json.print, List.length_cons, List.length_nil, Nat.zero_mul]
  | succ n ih =>
    change (Json.print indent (.array [(nested n).raw])).length = _
    simp only [Json.print, Json.printItems, Json.newline, List.length_append, List.length_cons,
      List.length_replicate, List.length_nil, ih]
    ring

end Sample

attribute [local instance] Sample.jiff

theorem Sample.length_print_record_nested (n : Nat) :
    (Json.print 0 (envelope (record (nested n))).raw).length ≤ 17000 + n * (2 * n + 8) := by
  have hlength := length_print_envelope_le (show (record (nested n)).parents = [] from rfl)
  have hdisplay : timestamp.display.toList.length = 20 := by decide
  change _ ≤ 16000 + 24 * (timestamp.display.toList.length + timestamp.display.toList.length) +
    (Json.print 1 (nested n).raw).length at hlength
  rw [hdisplay, length_print_nested, show 4 * 1 + 2 * n + 4 = 2 * n + 8 by ring] at hlength
  omega

theorem Sample.encodeRecord_nested {n : Nat} (hn : n ≤ 127) :
    encodeRecord (record (nested n)) registry =
      .ok (Json.print 0 (envelope (record (nested n))).raw ++ [0x0a]) := by
  refine encodeRecord_eq_ok.mpr ⟨validateRecord_record _, encodePretty_eq_ok.mpr ⟨?_, rfl⟩, ?_⟩
  · rw [noFloats_envelope]
    exact noFloats_nested n
  · have hlen := Sample.length_print_record_nested n
    have hle : n * (2 * n + 8) ≤ 127 * 262 := Nat.mul_le_mul hn (by omega)
    rw [List.length_append, List.length_singleton, MAX_RECORD_BYTES]
    omega

theorem record_codec_bijection_iff_note :
    encodeRecord (Sample.record (Sample.nested 1)) Sample.registry =
        .ok (Json.print 0 (envelope (Sample.record (Sample.nested 1))).raw ++ [0x0a]) ∧
      decodeRecord (Json.print 0 (envelope (Sample.record (Sample.nested 1))).raw ++ [0x0a])
        Sample.registry = .ok (Sample.record (Sample.nested 1)) := by
  have h := Sample.encodeRecord_nested (n := 1) (by decide)
  refine ⟨h, ((record_codec_bijection_iff Sample.registry).1 _ _ h).mpr ?_⟩
  exact (Sample.depth_nested 1).trans_le (by decide)

/-- The encoder accepts a payload of 127 nested arrays, which the reader refuses. -/
theorem encoded_record_not_read_back :
    ∃ bytes, encodeRecord (Sample.record (Sample.nested 127)) Sample.registry = .ok bytes ∧
      decodeRecord bytes Sample.registry ≠ .ok (Sample.record (Sample.nested 127)) := by
  refine ⟨_, Sample.encodeRecord_nested (Nat.le_refl _), ?_⟩
  rw [Ne, decode_encode_iff (Sample.encodeRecord_nested (Nat.le_refl _))]
  change ¬ (Sample.nested 127).depth < Json.MAX_NESTING
  rw [Sample.depth_nested]
  decide

end Wayjournal
