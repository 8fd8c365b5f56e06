import Mathlib.Algebra.Order.BigOperators.Group.List
import Wayjournal.Control.Except
import Wayjournal.Federation.Quarantine
import Wayjournal.Json.Length
import Wayjournal.Record.Length
import Wayjournal.Store.JournalLaws

namespace Wayjournal

open Collections

theorem depth_object_ofList_le {l : List (String × Json)} {n : Nat} (h : ∀ e ∈ l, e.2.depth ≤ n) :
    (Json.object (.ofList l)).depth ≤ n + 1 := by
  rw [Json.depth_object_le]
  exact fun e he => h e (BTreeMap.mem_of_mem_ofList he)

/-- A struct is one level deeper than its fields. -/
theorem depth_struct_le {fields : List String} {values : List Json} {n : Nat} (h : ∀ v ∈ values, v.depth ≤ n) :
    (Json.object (.ofList (fields.zip values))).depth ≤ n + 1 :=
  depth_object_ofList_le fun _ he => h _ (List.of_mem_zip he).2

theorem depth_string (s : String) : (Json.string s).depth = 0 := rfl

theorem depth_posInt (n : Fin (2 ^ 64)) : (Json.number (.posInt n)).depth = 0 := rfl

theorem GitOid.depth_toValue_le (oid : GitOid) (n : Nat) : oid.toValue.depth ≤ n + 1 := by
  refine depth_object_ofList_le ?_
  simp [depth_string]

section NoFloats

theorem noFloats_object_ofList {l : List (String × Json)} (h : ∀ e ∈ l, e.2.noFloats = true) :
    (Json.object (.ofList l)).noFloats = true :=
  Json.noFloats_object.mpr fun e he => h e (BTreeMap.mem_of_mem_ofList he)

theorem noFloats_texts {a b s t : String} :
    (Json.object (.ofList [(a, .string s), (b, .string t)])).noFloats = true := by
  refine noFloats_object_ofList fun e he => ?_
  simp only [List.mem_cons, List.not_mem_nil, or_false] at he
  obtain rfl | rfl := he <;> rfl

theorem noFloats_struct {fields : List String} {values : List Json} (h : ∀ v ∈ values, v.noFloats = true) :
    (Json.object (.ofList (fields.zip values))).noFloats = true :=
  noFloats_object_ofList fun _ he => h _ (List.of_mem_zip he).2

theorem noFloats_optionValue {α : Type} {value : α → Json} (h : ∀ a, (value a).noFloats = true) (o : Option α) :
    (PendingDocument.optionValue value o).noFloats = true := by
  cases o with
  | none => rfl
  | some a => exact h a

end NoFloats

section Length

open Json

theorem length_print_ofList_le (indent : Nat) {l : List (String × Json)} (h : (l.map Prod.fst).Nodup) :
    (print indent (Json.object (.ofList l)).raw).length ≤ 2 * indent + 3 + (l.map fun e =>
      (printString e.1).length + (print (indent + 1) e.2.raw).length + (2 * indent + 6)).sum := by
  refine (length_print_object_le indent _).trans_eq ?_
  rw [List.map_map, ((BTreeMap.entries_ofList_perm h).map _).sum_eq]
  rfl

/-- The length of a struct by its keys and its values. -/
theorem length_print_struct_le (indent : Nat) {fields : List String} {values : List Json}
    (h : ((fields.zip values).map Prod.fst).Nodup) :
    (print indent (Json.object (.ofList (fields.zip values))).raw).length ≤ 2 * indent + 3 +
      (fields.map fun k => (printString k).length).sum +
      (values.map fun v => (print (indent + 1) v.raw).length).sum + (2 * indent + 6) * values.length := by
  refine (length_print_ofList_le indent h).trans ?_
  rw [Nat.add_assoc (2 * indent + 3), Nat.add_assoc (2 * indent + 3)]
  refine Nat.add_le_add_left ?_ _
  clear h
  induction fields generalizing values with
  | nil => simp
  | cons k ks ih =>
    cases values with
    | nil => simp
    | cons v vs =>
      have htail := @ih vs
      rw [List.zip_cons_cons, List.map_cons, List.map_cons, List.map_cons, List.sum_cons, List.sum_cons, List.sum_cons,
        List.length_cons, Nat.mul_succ]
      dsimp only
      omega

theorem length_escapeByte_nameByte {b : UInt8} (h : 0x20 < b.toNat) : (escapeByte b).length ≤ 2 := by
  unfold escapeByte
  iterate 7 refine length_ite_le (Nat.le_refl 2) ?_
  rw [if_neg (by omega)]
  exact Nat.le_succ 1

theorem length_printString_nameChars {s : String} (h : ∀ c ∈ s.toList, isNameChar c = true) :
    (printString s).length ≤ 2 * s.toList.length + 2 := by
  have hbytes : ∀ cs : List Char, (∀ c ∈ cs, isNameChar c = true) →
      ((cs.map fun c => UInt8.ofNat c.toNat).flatMap escapeByte).length ≤ 2 * cs.length := by
    intro cs hcs
    induction cs with
    | nil => exact Nat.le_refl 0
    | cons c t ih =>
      have hc := hcs c List.mem_cons_self
      simp only [isNameChar, Bool.and_eq_true, decide_eq_true_eq, ne_eq] at hc
      have hnat : (UInt8.ofNat c.toNat).toNat = c.toNat := Text.Utf8.toNat_ofNat_of_lt (by omega)
      have hescape := length_escapeByte_nameByte (b := UInt8.ofNat c.toNat) (by omega)
      have htail := ih fun a ha => hcs a (List.mem_cons_of_mem c ha)
      rw [List.map_cons, List.flatMap_cons, List.length_append, List.length_cons]
      omega
  have hlength := hbytes s.toList h
  rw [printString, utf8, encode_nameChars h, List.length_cons, List.length_append, List.length_singleton]
  omega

theorem length_print_digest_le (indent : Nat) (d : Digest) : (print indent (Json.string d.display).raw).length ≤ 130 := by
  have h := length_printString_nameChars (isNameChar_digest d)
  rw [length_display] at h
  exact h

theorem length_print_uuid_le (indent : Nat) (u : Uuid) :
    (print indent (Json.string u.hyphenated).raw).length ≤ 74 := by
  have h := length_printString_nameChars (isNameChar_uuid u)
  rw [Uuid.hyphenated, String.toList_ofList, Uuid.length_hyphenate (Text.Hex.length_toChars _)] at h
  exact h

theorem isNameChar_of_isLowerHex {c : Char} (h : Digest.isLowerHex c = true) : isNameChar c = true := by
  simp only [Digest.isLowerHex, Bool.or_eq_true, Bool.and_eq_true, decide_eq_true_eq] at h
  have hle : ∀ a b : Char, a ≤ b → a.toNat ≤ b.toNat := fun _ _ h => h
  have hrange : (0x30 ≤ c.toNat ∧ c.toNat ≤ 0x39) ∨ (0x61 ≤ c.toNat ∧ c.toNat ≤ 0x66) :=
    h.imp (fun h => ⟨hle '0' c h.1, hle c '9' h.2⟩) fun h => ⟨hle 'a' c h.1, hle c 'f' h.2⟩
  have hne : c ≠ '/' := by
    rintro rfl
    revert hrange
    decide
  simp only [isNameChar, Bool.and_eq_true, decide_eq_true_eq]
  exact ⟨⟨by omega, by omega⟩, hne⟩

theorem length_print_oid_le (indent : Nat) (oid : GitOid) : (print indent oid.toValue.raw).length ≤ 6 * indent + 200 := by
  have hhex := length_printString_nameChars fun c (hc : c ∈ oid.hex.toList) =>
    isNameChar_of_isLowerHex (List.all_eq_true.mp oid.lower c hc)
  have hlength : oid.hex.toList.length ≤ 64 := by
    rw [oid.length_eq]
    cases oid.format <;> decide
  have hformat : (printString oid.format.asStr).length ≤ 8 := by
    cases oid.format <;> decide
  have k₁ : (printString "format").length = 8 := by decide
  have k₂ : (printString "hex").length = 5 := by decide
  refine (length_print_ofList_le indent ?_).trans ?_
  · simp only [List.map_cons, List.map_nil]
    decide
  · simp only [List.map_cons, List.map_nil, List.sum_cons, List.sum_nil, k₁, k₂, Json.string, print]
    omega

theorem length_print_revision_le (indent : Nat) (revision : StoreRevisionRef) :
    (print indent (PendingDocument.revisionValue revision).raw).length ≤ 6 * indent + 300 := by
  have hdigest := length_print_digest_le (indent + 1) revision.digest
  have halgorithm : (printString revision.algorithm.asStr).length ≤ 40 := by
    cases revision.algorithm <;> decide
  have k₁ : (printString "algorithm").length = 11 := by decide
  have k₂ : (printString "digest").length = 8 := by decide
  refine (length_print_ofList_le indent ?_).trans ?_
  · simp only [List.map_cons, List.map_nil]
    decide
  · simp only [List.map_cons, List.map_nil, List.sum_cons, List.sum_nil, k₁, k₂, Json.string, print] at hdigest ⊢
    omega

theorem length_print_logicalStoreId_le (indent : Nat) (id : LogicalStoreId) :
    (print indent (PendingDocument.logicalStoreIdValue id).raw).length ≤ 6 * indent + 300 := by
  have hdigest := length_print_digest_le (indent + 1) id.genesisFingerprint
  have huuid := length_print_uuid_le (indent + 1) id.storeUuid.uuid
  have k₁ : (printString "store_uuid").length = 12 := by decide
  have k₂ : (printString "genesis_fingerprint").length = 21 := by decide
  refine (length_print_ofList_le indent ?_).trans ?_
  · simp only [List.map_cons, List.map_nil]
    decide
  · simp only [List.map_cons, List.map_nil, List.sum_cons, List.sum_nil, k₁, k₂, Json.string, print,
      UuidId.display] at hdigest huuid ⊢
    omega

theorem length_print_remote_le [Url] (indent : Nat) (remote : ApprovedRemote) :
    (print indent (PendingDocument.remoteValue remote).raw).length ≤ 6 * indent + 100 +
      24 * (remote.locator.asStr.toList.length + remote.reference.asStr.toList.length) := by
  have hlocator := length_printString_le_chars remote.locator.asStr
  have hreference := length_printString_le_chars remote.reference.asStr
  have k₁ : (printString "locator").length = 9 := by decide
  have k₂ : (printString "reference").length = 11 := by decide
  refine (length_print_ofList_le indent ?_).trans ?_
  · simp only [List.map_cons, List.map_nil]
    decide
  · simp only [List.map_cons, List.map_nil, List.sum_cons, List.sum_nil, k₁, k₂, Json.string, print]
    omega

theorem length_print_oids_le (indent : Nat) (oids : List GitOid) :
    (print indent (Json.array (oids.map GitOid.toValue)).raw).length ≤
      2 * indent + 3 + oids.length * (8 * indent + 210) := by
  refine (length_print_array_le indent _).trans ?_
  refine Nat.add_le_add_left ?_ _
  induction oids with
  | nil => exact Nat.zero_le _
  | cons oid rest ih =>
    have hoid := length_print_oid_le (indent + 1) oid
    rw [List.map_cons, List.map_cons, List.map_cons, List.sum_cons, List.length_cons,
      Nat.succ_mul rest.length]
    omega

end Length

namespace PendingDocument

theorem depth_logicalStoreIdValue_le (id : LogicalStoreId) (n : Nat) : (logicalStoreIdValue id).depth ≤ n + 1 := by
  refine depth_object_ofList_le ?_
  simp [depth_string]

theorem depth_revisionValue_le (revision : StoreRevisionRef) (n : Nat) : (revisionValue revision).depth ≤ n + 1 := by
  refine depth_object_ofList_le ?_
  simp [depth_string]

theorem depth_optionValue_le {α : Type} {value : α → Json} {n : Nat} (h : ∀ a, (value a).depth ≤ n) (o : Option α) :
    (optionValue value o).depth ≤ n := by
  cases o with
  | none => exact Nat.zero_le n
  | some a => exact h a

variable [Url]

theorem depth_remoteValue_le (remote : ApprovedRemote) (n : Nat) : (remoteValue remote).depth ≤ n + 1 := by
  refine depth_object_ofList_le ?_
  simp [depth_string]

theorem depth_values_le (document : PendingDocument) : ∀ v ∈ document.values, v.depth ≤ 2 := by
  have hparents : (Json.array (document.candidateParents.map GitOid.toValue)).depth ≤ 2 := by
    rw [Json.depth_array_le]
    intro v hv
    obtain ⟨oid, -, rfl⟩ := List.mem_map.mp hv
    exact oid.depth_toValue_le 0
  have hpredecessor : (optionValue (fun id : GitSyncOperationId => Json.string id.display)
      document.predecessorOperationId).depth ≤ 2 := depth_optionValue_le (fun _ => Nat.zero_le 2) _
  have hstale : (optionValue GitOid.toValue document.staleRemoteOid).depth ≤ 2 :=
    depth_optionValue_le (fun oid => oid.depth_toValue_le 1) _
  simp [values, depth_string, depth_posInt, depth_logicalStoreIdValue_le _ 1, depth_revisionValue_le _ 1,
    depth_remoteValue_le _ 1, GitOid.depth_toValue_le _ 1, hparents, hpredecessor, hstale]

theorem depth_toValue_le (document : PendingDocument) : document.toValue.depth ≤ Json.MAX_NESTING :=
  (depth_struct_le document.depth_values_le).trans (by decide)

end PendingDocument

variable [Url]

theorem QuarantineIncident.depth_toValue_le (incident : QuarantineIncident) :
    incident.toValue.depth ≤ Json.MAX_NESTING := by
  refine (depth_struct_le (n := 1) ?_).trans (by decide)
  have hobserved : (PendingDocument.optionValue GitOid.toValue incident.observedCommit).depth ≤ 1 :=
    PendingDocument.depth_optionValue_le (fun oid => oid.depth_toValue_le 0) _
  simp [values, depth_string, PendingDocument.depth_logicalStoreIdValue_le _ 0,
    PendingDocument.depth_revisionValue_le _ 0, PendingDocument.depth_remoteValue_le _ 0,
    GitOid.depth_toValue_le _ 0, hobserved]

section Encode

open Json

variable {document : PendingDocument}

theorem PendingDocument.nodup_fields (document : PendingDocument) :
    ((PendingDocument.fields.zip document.values).map Prod.fst).Nodup := by
  have hfst : (PendingDocument.fields.zip document.values).map Prod.fst = PendingDocument.fields :=
    List.map_fst_zip (by simp [fields, values])
  rw [hfst]
  decide

theorem PendingDocument.noFloats_values (document : PendingDocument) : ∀ v ∈ document.values, v.noFloats = true := by
  have hparents : (Json.array (document.candidateParents.map GitOid.toValue)).noFloats = true := by
    rw [Json.noFloats_array]
    intro v hv
    obtain ⟨oid, -, rfl⟩ := List.mem_map.mp hv
    exact noFloats_texts
  have hpredecessor : (optionValue (fun id : GitSyncOperationId => Json.string id.display)
      document.predecessorOperationId).noFloats = true := noFloats_optionValue (fun _ => rfl) _
  have hstale : (optionValue GitOid.toValue document.staleRemoteOid).noFloats = true :=
    noFloats_optionValue (fun _ => noFloats_texts) _
  simp only [values, List.forall_mem_cons, List.not_mem_nil, false_implies, implies_true, and_true]
  exact ⟨rfl, rfl, rfl, noFloats_texts, rfl, noFloats_texts, rfl, noFloats_texts, noFloats_texts, noFloats_texts,
    noFloats_texts, noFloats_texts, noFloats_texts, noFloats_texts, noFloats_texts, hparents, rfl, rfl, rfl,
    hpredecessor, hstale⟩

theorem PendingDocument.noFloats_toValue (document : PendingDocument) : document.toValue.noFloats = true :=
  noFloats_struct document.noFloats_values

theorem PendingDocument.length_values_le (document : PendingDocument) (hschema : document.schema = PENDING_SCHEMA) :
    (document.values.map fun v => (print 1 v.raw).length).sum ≤
      4000 + 24 * (document.approvedRemote.locator.asStr.toList.length +
        document.approvedRemote.reference.asStr.toList.length) + document.candidateParents.length * 218 := by
  have hsum : ∀ remote parents : Nat, [40, 74, 30, 306, 130, 106 + 24 * remote, 8, 206, 306, 206, 306, 206, 206, 206,
      306, 5 + parents * 218, 20, 20, 130, 100, 206].sum ≤ 4000 + 24 * remote + parents * 218 := by
    intro remote parents
    simp only [List.sum_cons, List.sum_nil]
    omega
  have hphase : (print 1 (Json.string document.phase.asStr).raw).length ≤ 30 := by
    change (printString document.phase.asStr).length ≤ 30
    cases document.phase <;> decide
  have hformat : (print 1 (Json.string document.objectFormat.asStr).raw).length ≤ 8 := by
    change (printString document.objectFormat.asStr).length ≤ 8
    cases document.objectFormat <;> decide
  have hschema : (print 1 (Json.string document.schema).raw).length ≤ 40 := by
    rw [hschema]
    decide
  have hpredecessor : (print 1 (optionValue (fun id : GitSyncOperationId => Json.string id.display)
      document.predecessorOperationId).raw).length ≤ 100 := by
    cases document.predecessorOperationId with
    | none => decide
    | some id => exact (length_print_uuid_le 1 id.uuid).trans (by decide)
  have hstale : (print 1 (optionValue GitOid.toValue document.staleRemoteOid).raw).length ≤ 206 := by
    cases document.staleRemoteOid with
    | none => decide
    | some oid => exact length_print_oid_le 1 oid
  have hnumber : ∀ n : Fin (2 ^ 64), (print 1 (Json.number (.posInt n)).raw).length ≤ 20 :=
    fun n => length_decimal_le n
  have hall : List.Forall₂ (fun (v : Json) (bound : Nat) => (print 1 v.raw).length ≤ bound) document.values
      [40, 74, 30, 306, 130, 106 + 24 * (document.approvedRemote.locator.asStr.toList.length +
        document.approvedRemote.reference.asStr.toList.length), 8, 206, 306, 206, 306, 206, 206, 206, 306,
        5 + document.candidateParents.length * 218, 20, 20, 130, 100, 206] :=
    .cons hschema (.cons (length_print_uuid_le 1 _) (.cons hphase (.cons (length_print_logicalStoreId_le 1 _)
      (.cons (length_print_digest_le 1 _) (.cons (length_print_remote_le 1 _) (.cons hformat
      (.cons (length_print_oid_le 1 _) (.cons (length_print_revision_le 1 _) (.cons (length_print_oid_le 1 _)
      (.cons (length_print_revision_le 1 _) (.cons (length_print_oid_le 1 _) (.cons (length_print_oid_le 1 _)
      (.cons (length_print_oid_le 1 _) (.cons (length_print_revision_le 1 _) (.cons (length_print_oids_le 1 _)
      (.cons (hnumber _) (.cons (hnumber _) (.cons (length_print_digest_le 1 _) (.cons hpredecessor
      (.cons hstale .nil))))))))))))))))))))
  exact (List.Forall₂.sum_le_sum (List.forall₂_map_left_iff.mpr hall)).trans (hsum _ _)

/-- A document with few parents and a remote of reasonable length can be written. -/
theorem encodeDocument_ok (hvalid : document.validate = .ok ()) (hparents : document.candidateParents.length ≤ 8)
    (hremote : document.approvedRemote.locator.asStr.toList.length +
      document.approvedRemote.reference.asStr.toList.length ≤ 500) : ∃ bytes, encodeDocument document = .ok bytes := by
  have hschema : document.schema = PENDING_SCHEMA := by
    simp only [PendingDocument.validate, guard_bind_eq_ok, not_not] at hvalid
    exact hvalid.1
  have harith : ∀ total keys values remote parents : Nat, total ≤ 2 * 0 + 3 + keys + values + (2 * 0 + 6) * 21 →
      keys ≤ 9000 → values ≤ 4000 + 24 * remote + parents * 218 → remote ≤ 500 → parents ≤ 8 →
      ¬ total + 1 > MAX_PENDING_ROOT_BYTES := by
    intro total keys values remote parents h₁ h₂ h₃ h₄ h₅
    rw [MAX_PENDING_ROOT_BYTES]
    omega
  have hkeys : (PendingDocument.fields.map (fun k => (printString k).length)).sum ≤ 9000 :=
    (List.sum_le_sum fun k _ => length_printString_le_chars k).trans (by decide +kernel)
  have hlength := harith _ _ _ _ _ (length_print_struct_le 0 document.nodup_fields) hkeys
    (document.length_values_le hschema) hremote hparents
  refine ⟨print 0 document.toValue.raw ++ [0x0a], ?_⟩
  unfold encodeDocument
  refine except_bind_eq_ok.mpr ⟨(), hvalid, except_bind_eq_ok.mpr ⟨_, mapError_eq_ok.mpr
    (encodePretty_eq_ok.mpr ⟨document.noFloats_toValue, rfl⟩), guard_bind_eq_ok.mpr ⟨?_, rfl⟩⟩⟩
  rw [List.length_append, List.length_singleton]
  exact hlength

end Encode

/-- A document that was cut off while it was written is not one. -/
theorem decodeDocument_cut {document other : PendingDocument} {bytes cut : Bytes}
    (h : encodeDocument document = .ok bytes) (hcut : cut <+: bytes) (hne : cut ≠ bytes) :
    decodeDocument cut ≠ .ok other := by
  intro hdecode
  simp only [encodeDocument, except_bind_eq_ok, mapError_eq_ok, guard_bind_eq_ok, pure_eq_ok] at h
  obtain ⟨-, -, _, hencode, -, rfl⟩ := h
  simp only [decodeDocument, except_bind_eq_ok, mapError_eq_ok, guard_bind_eq_ok] at hdecode
  obtain ⟨-, value, hvalue, hdecode⟩ := hdecode
  split at hdecode
  · simp only [except_bind_eq_ok, mapError_eq_ok, guard_bind_eq_ok, not_not] at hdecode
    obtain ⟨-, -, canonical, hcanonical, rfl, -⟩ := hdecode
    exact encodePretty_ne_of_prefix hencode document.depth_toValue_le hcut hne hvalue hcanonical
  · cases hdecode

theorem decodeIncident_cut {incident other : QuarantineIncident} {bytes cut : Bytes}
    (h : encodeIncident incident = .ok bytes) (hcut : cut <+: bytes) (hne : cut ≠ bytes) :
    decodeIncident cut ≠ .ok other := by
  intro hdecode
  simp only [encodeIncident, except_bind_eq_ok, mapError_eq_ok, guard_bind_eq_ok, pure_eq_ok] at h
  obtain ⟨-, -, _, hencode, -, rfl⟩ := h
  simp only [decodeIncident, except_bind_eq_ok, mapError_eq_ok, guard_bind_eq_ok] at hdecode
  obtain ⟨-, value, hvalue, hdecode⟩ := hdecode
  split at hdecode
  · simp only [except_bind_eq_ok, mapError_eq_ok, guard_bind_eq_ok, not_not] at hdecode
    obtain ⟨-, -, canonical, hcanonical, rfl, -⟩ := hdecode
    exact encodePretty_ne_of_prefix hencode incident.depth_toValue_le hcut hne hvalue hcanonical
  · cases hdecode

end Wayjournal
