import Mathlib.Algebra.BigOperators.Group.List.Basic
import Wayjournal.Batch.Singleton
import Wayjournal.Store.Name

namespace Wayjournal

open Collections Json Serde Text

theorem isUnescaped_hexDigit (n : Fin 16) : isUnescaped (hexDigit n) = true := by
  revert n
  decide

theorem length_printString_digest (d : Digest) : (printString d.display).length = 66 := by
  rw [length_printString, length_display]
  intro c hc
  rw [Digest.display, String.toList_ofList] at hc
  obtain ⟨n, -, rfl⟩ := List.mem_map.mp hc
  exact isUnescaped_hexDigit n

theorem length_printString_uuidId {k : UuidKind} (id : UuidId k) : (printString id.display).length = 38 := by
  rw [length_printString, id.length_display_chars]
  intro c hc
  rw [UuidId.display, Uuid.hyphenated, String.toList_ofList] at hc
  obtain rfl | hc := mem_hyphenate hc
  · decide
  · obtain ⟨n, -, rfl⟩ := List.mem_map.mp hc
    exact isUnescaped_hexDigit n

theorem length_print_ofList {indent : Nat} {l : List (String × Json)} (h : (l.map Prod.fst).Nodup) (hne : l ≠ []) :
    (print indent (Json.object (.ofList l)).raw).length = 2 * indent + 2 + (l.map fun e =>
      (printString e.1).length + (print (indent + 1) e.2.raw).length + (2 * indent + 6)).sum := by
  have hperm := BTreeMap.entries_ofList_perm h
  have hentries : (BTreeMap.ofList l).entries ≠ [] := fun hnil => hne (List.nil_perm.mp (hnil ▸ hperm))
  refine (length_print_object fun hnil => hentries (List.map_eq_nil_iff.mp hnil)).trans ?_
  rw [List.map_map, (hperm.map _).sum_eq]
  rfl

theorem length_asBytes_le_printString (s : String) : (asBytes s).length + 2 ≤ (printString s).length := by
  have hescape := length_le_flatMap escapeByte one_le_length_escapeByte (utf8 s)
  simp only [printString, List.length_cons, List.length_append, List.length_nil]
  exact Nat.succ_le_succ (Nat.succ_le_succ hescape)

theorem length_asBytes_digest_le (d : Digest) : (asBytes d.display).length ≤ 64 := by
  have h := length_asBytes_le_printString d.display
  rw [length_printString_digest] at h
  omega

theorem length_asBytes_uuidId_le {k : UuidKind} (id : UuidId k) : (asBytes id.display).length ≤ 36 := by
  have h := length_asBytes_le_printString id.display
  rw [length_printString_uuidId] at h
  omega

theorem length_asBytes_le (s : String) : (asBytes s).length ≤ 4 * s.toList.length :=
  length_flatMap_le _ 4 length_encodeChar_le _

theorem length_asBytes_actor_le (actor : ActorId) : (asBytes actor.asStr).length ≤ 516 := by
  have h := length_asBytes_le actor.asStr
  have hactor := actor.length_le
  omega

theorem length_asBytes_schema_le (schema : RecordSchemaId) : (asBytes schema.asStr).length ≤ 512 := by
  have h := length_asBytes_le schema.asStr
  have hschema := schema.length_le
  omega

end Wayjournal
