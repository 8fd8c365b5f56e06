import Wayjournal.Federation.Checkpoint
import Wayjournal.Federation.TornRoots
import Wayjournal.Json.SerdeLaws

namespace Wayjournal

open Collections Json Serde

section Texts

theorem Digest.parse_eq_some {s : String} {d : Digest} : Digest.parse s = some d ↔ s = d.display := by
  constructor
  · exact fun h => (Digest.display_of_parse h).symm
  · rintro rfl
    exact Digest.parse_display d

theorem toOption_fromStr_eq_some {α : Type} [FromStr α] {s : String} {a : α} :
    (FromStr.fromStr s : Except _ α).toOption = some a ↔ s = FromStr.toText a := by
  constructor
  · intro h
    cases hs : (FromStr.fromStr s : Except _ α) with
    | error e =>
      rw [hs] at h
      cases h
    | ok b =>
      rw [hs] at h
      cases h
      exact (FromStr.toText_of_fromStr hs).symm
  · rintro rfl
    rw [FromStr.fromStr_toText]
    rfl

theorem writtenAs_uuidId {k : UuidKind} : WrittenAs isAny (fun id : UuidId k => Json.string id.display) :=
  .text (fun s => (FromStr.fromStr s : Except _ (UuidId k)).toOption) (fun _ => rfl) fun _ _ => toOption_fromStr_eq_some

theorem writtenAs_digest : WrittenAs isAny (fun d : Digest => Json.string d.display) :=
  .text Digest.parse (fun _ => rfl) fun _ _ => Digest.parse_eq_some

theorem writtenAs_trust : WrittenAs isAny (fun t : LocalTrustBinding => Json.string t.asDigest.display) := by
  intro v t
  have hread : (fromValue v : Option LocalTrustBinding) = (fromValue v).map LocalTrustBinding.mk := rfl
  have hdigest := writtenAs_digest v t.asDigest
  rw [hread, Option.map_eq_some_iff, ← hdigest]
  constructor
  · rintro ⟨-, d, hd, rfl⟩
    exact ⟨rfl, hd⟩
  · rintro ⟨-, hd⟩
    exact ⟨rfl, t.asDigest, hd, rfl⟩

theorem writtenAs_localId {k : LocalIdKind} : WrittenAs isAny (fun id : LocalId k => Json.string id.display) := by
  refine .text (fun s => (LocalId.parse k s).toOption) (fun _ => rfl) fun s id => ?_
  constructor
  · intro h
    cases hs : LocalId.parse k s with
    | error e =>
      rw [hs] at h
      cases h
    | ok other =>
      rw [hs] at h
      cases h
      exact (LocalId.display_of_parse hs).symm
  · rintro rfl
    rw [LocalId.parse_display]
    rfl

theorem GitObjectFormat.parse_eq_some {s : String} {f : GitObjectFormat} : parse s = some f ↔ s = f.asStr := by
  constructor
  · intro h
    unfold parse at h
    split at h
    · cases h
      assumption
    · split at h
      · cases h
        assumption
      · cases h
  · rintro rfl
    exact parse_asStr f

theorem writtenAs_objectFormat : WrittenAs isAny (fun f : GitObjectFormat => Json.string f.asStr) :=
  .text GitObjectFormat.parse (fun _ => rfl) fun _ _ => GitObjectFormat.parse_eq_some

theorem RevisionAlgorithm.parse_eq_some {s : String} {a : RevisionAlgorithm} : parse s = some a ↔ s = a.asStr := by
  constructor
  · intro h
    unfold parse at h
    split at h
    · cases h
      assumption
    · split at h
      · cases h
        assumption
      · cases h
  · rintro rfl
    exact parse_asStr a

theorem writtenAs_algorithm : WrittenAs isAny (fun a : RevisionAlgorithm => Json.string a.asStr) :=
  .text RevisionAlgorithm.parse (fun _ => rfl) fun _ _ => RevisionAlgorithm.parse_eq_some

theorem writtenAs_locator [Url] : WrittenAs isAny (fun l : ApprovedRemoteLocator => Json.string l.asStr) := by
  refine .text (fun s => if h : validLocator s = true then some ⟨s, h⟩ else none) (fun _ => rfl) fun s l => ?_
  constructor
  · intro h
    split at h
    · cases h
      rfl
    · cases h
  · rintro rfl
    rw [dif_pos l.valid]

theorem writtenAs_ref [Url] : WrittenAs isAny (fun r : ApprovedRef => Json.string r.asStr) := by
  refine .text (fun s => if h : validRef s = true then some ⟨s, h⟩ else none) (fun _ => rfl) fun s r => ?_
  constructor
  · intro h
    split at h
    · cases h
      rfl
    · cases h
  · rintro rfl
    rw [dif_pos r.valid]

end Texts

section Structs

theorem GitOid.parse_format_eq_some {format : GitObjectFormat} {hex : String} {oid : GitOid} :
    GitOid.parse format hex = some oid ↔ format = oid.format ∧ hex = oid.hex := by
  constructor
  · intro h
    unfold GitOid.parse at h
    split at h
    · cases h
      exact ⟨rfl, rfl⟩
    · cases h
  · rintro ⟨rfl, rfl⟩
    exact oid.parse_hex

theorem writtenAs_oid : WrittenAs isObject GitOid.toValue :=
  .pair (by decide) GitOid.format GitOid.hex writtenAs_objectFormat .string GitOid.parse (fun _ => rfl)
    fun _ _ _ => GitOid.parse_format_eq_some

theorem StoreRevisionRef.parse_eq_some {algorithm digest : String} {r : StoreRevisionRef} :
    StoreRevisionRef.parse algorithm digest = some r ↔ algorithm = r.algorithm.asStr ∧ digest = r.digest.display := by
  constructor
  · intro h
    obtain ⟨a, ha, h⟩ := Option.bind_eq_some_iff.mp h
    obtain ⟨d, hd, h⟩ := Option.bind_eq_some_iff.mp h
    cases h
    exact ⟨RevisionAlgorithm.parse_eq_some.mp ha, Digest.parse_eq_some.mp hd⟩
  · rintro ⟨rfl, rfl⟩
    exact r.parse_display

theorem writtenAs_logicalStoreId : WrittenAs isObject PendingDocument.logicalStoreIdValue := by
  refine .pair (by decide) LogicalStoreId.storeUuid LogicalStoreId.genesisFingerprint writtenAs_uuidId writtenAs_digest
    (fun u g => some ⟨u, g⟩) (fun _ => rfl) fun u g id => ?_
  cases id
  simp

theorem writtenAs_revision : WrittenAs isObject PendingDocument.revisionValue := by
  refine .pair (by decide) StoreRevisionRef.algorithm StoreRevisionRef.digest writtenAs_algorithm writtenAs_digest
    (fun a d => some ⟨a, d⟩) (fun _ => rfl) fun a d r => ?_
  cases r
  simp

theorem writtenAs_remote [Url] : WrittenAs isObject PendingDocument.remoteValue := by
  refine .pair (by decide) ApprovedRemote.locator ApprovedRemote.reference writtenAs_locator writtenAs_ref
    (fun l r => some ⟨l, r⟩) (fun _ => rfl) fun l r remote => ?_
  cases remote
  simp

end Structs

section Variants

theorem GitSyncPendingPhase.parse_eq_some {s : String} {p : GitSyncPendingPhase} : parse s = some p ↔ s = p.asStr := by
  constructor
  · intro h
    exact (of_decide_eq_true (List.find?_some h :)).symm
  · rintro rfl
    exact parse_asStr p

theorem writtenAs_phase : WrittenAs isString (fun p : GitSyncPendingPhase => Json.string p.asStr) :=
  .variant (fun _ => rfl) fun _ _ => GitSyncPendingPhase.parse_eq_some

theorem GitQuarantineReason.parse_eq_some {s : String} {r : GitQuarantineReason} :
    parse s = some r ↔ s = r.reasonString := by
  constructor
  · intro h
    exact (of_decide_eq_true (List.find?_some h :)).symm
  · rintro rfl
    exact parse_reasonString r

theorem writtenAs_reason : WrittenAs isString (fun r : GitQuarantineReason => Json.string r.reasonString) :=
  .variant (fun _ => rfl) fun _ _ => GitQuarantineReason.parse_eq_some

theorem writtenAs_optionValue {α : Type} [Deserialize α] {plain : Json → Bool} {value : α → Json}
    (h : WrittenAs plain value) (hnull : ∀ a, (value a).view ≠ .null) :
    WrittenAs (isNullOr plain) (PendingDocument.optionValue value) := by
  have hvalue : PendingDocument.optionValue value = fun o : Option α => o.elim .null value := by
    funext o
    cases o <;> rfl
  rw [hvalue]
  exact h.option hnull

theorem GitOid.view_toValue_ne_null (oid : GitOid) : oid.toValue.view ≠ .null := by
  rw [toValue, view_object]
  exact nofun

end Variants

section Reading

@[simp] theorem required_string (s : String) : (required (some (Json.string s)) : Option String) = some s := rfl

@[simp] theorem required_posInt (n : Fin (2 ^ 64)) : (required (some (Json.number (.posInt n))) : Option (Fin (2 ^ 64))) = some n :=
  rfl

@[simp] theorem required_localId {k : LocalIdKind} (id : LocalId k) :
    (required (some (Json.string id.display)) : Option (LocalId k)) = some id :=
  writtenAs_localId.read id

@[simp] theorem required_phase (p : GitSyncPendingPhase) :
    (required (some (Json.string p.asStr)) : Option GitSyncPendingPhase) = some p :=
  writtenAs_phase.read p

@[simp] theorem required_reason (r : GitQuarantineReason) :
    (required (some (Json.string r.reasonString)) : Option GitQuarantineReason) = some r :=
  writtenAs_reason.read r

@[simp] theorem required_logicalStoreId (id : LogicalStoreId) :
    (required (some (PendingDocument.logicalStoreIdValue id)) : Option LogicalStoreId) = some id :=
  writtenAs_logicalStoreId.read id

@[simp] theorem required_digest (d : Digest) : (required (some (Json.string d.display)) : Option Digest) = some d :=
  writtenAs_digest.read d

@[simp] theorem required_trust (t : LocalTrustBinding) :
    (required (some (Json.string t.asDigest.display)) : Option LocalTrustBinding) = some t :=
  writtenAs_trust.read t

@[simp] theorem required_remote [Url] (remote : ApprovedRemote) :
    (required (some (PendingDocument.remoteValue remote)) : Option ApprovedRemote) = some remote :=
  writtenAs_remote.read remote

@[simp] theorem required_objectFormat (f : GitObjectFormat) :
    (required (some (Json.string f.asStr)) : Option GitObjectFormat) = some f :=
  writtenAs_objectFormat.read f

@[simp] theorem required_oid (oid : GitOid) : (required (some oid.toValue) : Option GitOid) = some oid :=
  writtenAs_oid.read oid

@[simp] theorem required_oids (oids : List GitOid) :
    (required (some (Json.array (oids.map GitOid.toValue))) : Option (List GitOid)) = some oids :=
  writtenAs_oid.array.read oids

@[simp] theorem required_revision (r : StoreRevisionRef) :
    (required (some (PendingDocument.revisionValue r)) : Option StoreRevisionRef) = some r :=
  writtenAs_revision.read r

@[simp] theorem fromValue_optionId {k : LocalIdKind} (id : Option (LocalId k)) :
    (fromValue (PendingDocument.optionValue (fun id : LocalId k => Json.string id.display) id)) = some id :=
  (writtenAs_optionValue writtenAs_localId nofun).read id

@[simp] theorem fromValue_optionOid (oid : Option GitOid) :
    (fromValue (PendingDocument.optionValue GitOid.toValue oid)) = some oid :=
  (writtenAs_optionValue writtenAs_oid GitOid.view_toValue_ne_null).read oid

end Reading

section Documents

variable [Url]

/-- How the fields of a document are written, in the order of the fields. -/
def PendingDocument.checks : List (Json → Bool) :=
  [isAny, isAny, isString, isObject, isAny, isObject, isAny, isObject, isObject, isObject, isObject, isObject, isObject,
    isObject, isObject, isArrayOf isObject, isAny, isAny, isAny, isNullOr isAny, isNullOr isObject]

theorem PendingDocument.forall₂_checks (document : PendingDocument) :
    List.Forall₂ (fun check w => check w = true) checks document.values :=
  .cons rfl (.cons rfl (.cons (writtenAs_phase.plain_value _) (.cons (writtenAs_logicalStoreId.plain_value _) (.cons rfl
    (.cons (writtenAs_remote.plain_value _) (.cons rfl (.cons (writtenAs_oid.plain_value _)
    (.cons (writtenAs_revision.plain_value _) (.cons (writtenAs_oid.plain_value _)
    (.cons (writtenAs_revision.plain_value _) (.cons (writtenAs_oid.plain_value _) (.cons (writtenAs_oid.plain_value _)
    (.cons (writtenAs_oid.plain_value _) (.cons (writtenAs_revision.plain_value _)
    (.cons (writtenAs_oid.array.plain_value _) (.cons rfl (.cons rfl (.cons rfl
    (.cons ((writtenAs_optionValue writtenAs_localId nofun).plain_value _)
    (.cons ((writtenAs_optionValue writtenAs_oid GitOid.view_toValue_ne_null).plain_value _) .nil))))))))))))))))))))

/-- The values of the fields are all that is read. -/
theorem PendingDocument.fromValue_of_slots {document : PendingDocument} {v : Json}
    (hslots : structFields fields v = some (document.values.map some)) : fromValue v = some document := by
  refine Option.bind_eq_some_iff.mpr ⟨_, hslots, ?_⟩
  simp only [values, List.map_cons, List.map_nil, Serde.optional, required_string, required_localId, required_phase,
    required_logicalStoreId, required_trust, required_remote, required_objectFormat, required_oid, required_revision, required_oids,
    required_posInt,
    required_digest, fromValue_optionOid, fromValue_optionId, Option.bind_eq_bind, Option.bind_some, Option.pure_def]

theorem PendingDocument.writtenAs : WrittenAs (plainStruct fields checks) toValue := by
  intro v document
  have hnodup : fields.Nodup := by decide
  constructor
  · rintro ⟨hplain, hv⟩
    obtain ⟨slots, hslots, hv⟩ := Option.bind_eq_some_iff.mp hv
    obtain ⟨values, hchecks, rfl, rfl⟩ := (plainStruct_iff hnodup rfl).mp ⟨hplain, hslots⟩
    simp only [checks, List.forall₂_cons_left_iff, List.forall₂_nil_left_iff] at hchecks
    obtain ⟨v₁, _, h₁, ⟨v₂, _, h₂, ⟨v₃, _, h₃, ⟨v₄, _, h₄, ⟨v₅, _, h₅, ⟨v₆, _, h₆, ⟨v₇, _, h₇, ⟨v₈, _, h₈,
      ⟨v₉, _, h₉, ⟨v₁₀, _, h₁₀, ⟨v₁₁, _, h₁₁, ⟨v₁₂, _, h₁₂, ⟨v₁₃, _, h₁₃, ⟨v₁₄, _, h₁₄, ⟨v₁₅, _, h₁₅,
      ⟨v₁₆, _, h₁₆, ⟨v₁₇, _, h₁₇, ⟨v₁₈, _, h₁₈, ⟨v₁₉, _, h₁₉, ⟨v₂₀, _, h₂₀, ⟨v₂₁, _, h₂₁, rfl, rfl⟩, rfl⟩, rfl⟩,
      rfl⟩, rfl⟩, rfl⟩, rfl⟩, rfl⟩, rfl⟩, rfl⟩, rfl⟩, rfl⟩, rfl⟩, rfl⟩, rfl⟩, rfl⟩, rfl⟩, rfl⟩, rfl⟩, rfl⟩, rfl⟩ := hchecks
    obtain ⟨a₁, e₁, hv⟩ := Option.bind_eq_some_iff.mp hv
    obtain ⟨a₂, e₂, hv⟩ := Option.bind_eq_some_iff.mp hv
    obtain ⟨a₃, e₃, hv⟩ := Option.bind_eq_some_iff.mp hv
    obtain ⟨a₄, e₄, hv⟩ := Option.bind_eq_some_iff.mp hv
    obtain ⟨a₅, e₅, hv⟩ := Option.bind_eq_some_iff.mp hv
    obtain ⟨a₆, e₆, hv⟩ := Option.bind_eq_some_iff.mp hv
    obtain ⟨a₇, e₇, hv⟩ := Option.bind_eq_some_iff.mp hv
    obtain ⟨a₈, e₈, hv⟩ := Option.bind_eq_some_iff.mp hv
    obtain ⟨a₉, e₉, hv⟩ := Option.bind_eq_some_iff.mp hv
    obtain ⟨a₁₀, e₁₀, hv⟩ := Option.bind_eq_some_iff.mp hv
    obtain ⟨a₁₁, e₁₁, hv⟩ := Option.bind_eq_some_iff.mp hv
    obtain ⟨a₁₂, e₁₂, hv⟩ := Option.bind_eq_some_iff.mp hv
    obtain ⟨a₁₃, e₁₃, hv⟩ := Option.bind_eq_some_iff.mp hv
    obtain ⟨a₁₄, e₁₄, hv⟩ := Option.bind_eq_some_iff.mp hv
    obtain ⟨a₁₅, e₁₅, hv⟩ := Option.bind_eq_some_iff.mp hv
    obtain ⟨a₁₆, e₁₆, hv⟩ := Option.bind_eq_some_iff.mp hv
    obtain ⟨a₁₇, e₁₇, hv⟩ := Option.bind_eq_some_iff.mp hv
    obtain ⟨a₁₈, e₁₈, hv⟩ := Option.bind_eq_some_iff.mp hv
    obtain ⟨a₁₉, e₁₉, hv⟩ := Option.bind_eq_some_iff.mp hv
    obtain ⟨a₂₀, e₂₀, hv⟩ := Option.bind_eq_some_iff.mp hv
    obtain ⟨a₂₁, e₂₁, hv⟩ := Option.bind_eq_some_iff.mp hv
    cases hv
    rw [WrittenAs.string.eq_value h₁ e₁, writtenAs_localId.eq_value h₂ e₂, writtenAs_phase.eq_value h₃ e₃,
      writtenAs_logicalStoreId.eq_value h₄ e₄, writtenAs_trust.eq_value h₅ e₅, writtenAs_remote.eq_value h₆ e₆,
      writtenAs_objectFormat.eq_value h₇ e₇, writtenAs_oid.eq_value h₈ e₈, writtenAs_revision.eq_value h₉ e₉,
      writtenAs_oid.eq_value h₁₀ e₁₀, writtenAs_revision.eq_value h₁₁ e₁₁, writtenAs_oid.eq_value h₁₂ e₁₂,
      writtenAs_oid.eq_value h₁₃ e₁₃, writtenAs_oid.eq_value h₁₄ e₁₄, writtenAs_revision.eq_value h₁₅ e₁₅,
      writtenAs_oid.array.eq_value h₁₆ e₁₆, WrittenAs.posInt.eq_value h₁₇ e₁₇, WrittenAs.posInt.eq_value h₁₈ e₁₈,
      writtenAs_digest.eq_value h₁₉ e₁₉, (writtenAs_optionValue writtenAs_localId nofun).eq_value h₂₀ e₂₀,
      (writtenAs_optionValue writtenAs_oid GitOid.view_toValue_ne_null).eq_value h₂₁ e₂₁]
    rfl
  · rintro rfl
    obtain ⟨hplain, hslots⟩ := (plainStruct_iff hnodup rfl).mpr ⟨_, document.forall₂_checks, rfl, rfl⟩
    exact ⟨hplain, fromValue_of_slots hslots⟩

/-- How the fields of an incident are written, in the order of the fields. -/
def QuarantineIncident.checks : List (Json → Bool) :=
  [isAny, isAny, isString, isObject, isAny, isObject, isObject, isObject, isNullOr isObject, isAny]

theorem QuarantineIncident.forall₂_checks (incident : QuarantineIncident) :
    List.Forall₂ (fun check w => check w = true) checks incident.values :=
  .cons rfl (.cons rfl (.cons (writtenAs_reason.plain_value _) (.cons (writtenAs_logicalStoreId.plain_value _) (.cons rfl
    (.cons (writtenAs_remote.plain_value _) (.cons (writtenAs_oid.plain_value _) (.cons (writtenAs_revision.plain_value _)
    (.cons ((writtenAs_optionValue writtenAs_oid GitOid.view_toValue_ne_null).plain_value _) (.cons rfl .nil)))))))))

/-- The values of the fields are all that is read. -/
theorem QuarantineIncident.fromValue_of_slots {incident : QuarantineIncident} {v : Json}
    (hslots : structFields fields v = some (incident.values.map some)) : fromValue v = some incident := by
  refine Option.bind_eq_some_iff.mpr ⟨_, hslots, ?_⟩
  simp only [values, List.map_cons, List.map_nil, Serde.optional, required_string, required_localId, required_reason,
    required_logicalStoreId, required_trust, required_remote, required_oid, required_revision,
    required_digest, fromValue_optionOid, Option.bind_eq_bind, Option.bind_some, Option.pure_def]

theorem QuarantineIncident.writtenAs : WrittenAs (plainStruct fields checks) toValue := by
  intro v incident
  have hnodup : fields.Nodup := by decide
  constructor
  · rintro ⟨hplain, hv⟩
    obtain ⟨slots, hslots, hv⟩ := Option.bind_eq_some_iff.mp hv
    obtain ⟨values, hchecks, rfl, rfl⟩ := (plainStruct_iff hnodup rfl).mp ⟨hplain, hslots⟩
    simp only [checks, List.forall₂_cons_left_iff, List.forall₂_nil_left_iff] at hchecks
    obtain ⟨v₁, _, h₁, ⟨v₂, _, h₂, ⟨v₃, _, h₃, ⟨v₄, _, h₄, ⟨v₅, _, h₅, ⟨v₆, _, h₆, ⟨v₇, _, h₇, ⟨v₈, _, h₈,
      ⟨v₉, _, h₉, ⟨v₁₀, _, h₁₀, rfl, rfl⟩, rfl⟩, rfl⟩, rfl⟩, rfl⟩, rfl⟩, rfl⟩, rfl⟩, rfl⟩, rfl⟩ := hchecks
    obtain ⟨a₁, e₁, hv⟩ := Option.bind_eq_some_iff.mp hv
    obtain ⟨a₂, e₂, hv⟩ := Option.bind_eq_some_iff.mp hv
    obtain ⟨a₃, e₃, hv⟩ := Option.bind_eq_some_iff.mp hv
    obtain ⟨a₄, e₄, hv⟩ := Option.bind_eq_some_iff.mp hv
    obtain ⟨a₅, e₅, hv⟩ := Option.bind_eq_some_iff.mp hv
    obtain ⟨a₆, e₆, hv⟩ := Option.bind_eq_some_iff.mp hv
    obtain ⟨a₇, e₇, hv⟩ := Option.bind_eq_some_iff.mp hv
    obtain ⟨a₈, e₈, hv⟩ := Option.bind_eq_some_iff.mp hv
    obtain ⟨a₉, e₉, hv⟩ := Option.bind_eq_some_iff.mp hv
    obtain ⟨a₁₀, e₁₀, hv⟩ := Option.bind_eq_some_iff.mp hv
    cases hv
    rw [WrittenAs.string.eq_value h₁ e₁, writtenAs_localId.eq_value h₂ e₂, writtenAs_reason.eq_value h₃ e₃,
      writtenAs_logicalStoreId.eq_value h₄ e₄, writtenAs_trust.eq_value h₅ e₅, writtenAs_remote.eq_value h₆ e₆,
      writtenAs_oid.eq_value h₇ e₇, writtenAs_revision.eq_value h₈ e₈,
      (writtenAs_optionValue writtenAs_oid GitOid.view_toValue_ne_null).eq_value h₉ e₉,
      writtenAs_digest.eq_value h₁₀ e₁₀]
    rfl
  · rintro rfl
    obtain ⟨hplain, hslots⟩ := (plainStruct_iff hnodup rfl).mpr ⟨_, incident.forall₂_checks, rfl, rfl⟩
    exact ⟨hplain, fromValue_of_slots hslots⟩

theorem encodeDocument_eq_ok {document : PendingDocument} {bytes : Bytes} :
    encodeDocument document = .ok bytes ↔ document.validate = .ok () ∧ encodePretty document.toValue = .ok bytes ∧
      bytes.length ≤ MAX_PENDING_ROOT_BYTES := by
  simp only [encodeDocument, except_bind_eq_ok, mapError_eq_ok, guard_bind_eq_ok, pure_eq_ok, not_lt]
  constructor
  · rintro ⟨_, hvalid, _, hencode, hlength, rfl⟩
    exact ⟨hvalid, hencode, hlength⟩
  · rintro ⟨hvalid, hencode, hlength⟩
    exact ⟨(), hvalid, bytes, hencode, hlength, rfl⟩

theorem decodeDocument_eq_ok {document : PendingDocument} {bytes : Bytes} :
    decodeDocument bytes = .ok document ↔ bytes.length ≤ MAX_PENDING_ROOT_BYTES ∧ document.validate = .ok () ∧
      ∃ value, decodeStrict bytes = .ok value ∧ fromValue value = some document ∧ encodePretty value = .ok bytes := by
  simp only [decodeDocument, except_bind_eq_ok, mapError_eq_ok, guard_bind_eq_ok, not_lt]
  refine and_congr_right fun _ => ?_
  constructor
  · rintro ⟨value, hvalue, h⟩
    split at h
    · rename_i read hread
      simp only [except_bind_eq_ok, mapError_eq_ok, guard_bind_eq_ok, not_not, pure_eq_ok] at h
      obtain ⟨_, hvalid, canonical, hcanonical, rfl, rfl⟩ := h
      exact ⟨hvalid, value, hvalue, hread, hcanonical⟩
    · cases h
  · rintro ⟨hvalid, value, hvalue, hread, hcanonical⟩
    refine ⟨value, hvalue, ?_⟩
    rw [hread]
    simp only [except_bind_eq_ok, mapError_eq_ok, guard_bind_eq_ok, not_not, pure_eq_ok]
    exact ⟨(), hvalid, bytes, hcanonical, rfl, trivial⟩

theorem encodeIncident_eq_ok {incident : QuarantineIncident} {bytes : Bytes} :
    encodeIncident incident = .ok bytes ↔ incident.validate = .ok () ∧ encodePretty incident.toValue = .ok bytes ∧
      bytes.length ≤ MAX_INCIDENT_BYTES := by
  simp only [encodeIncident, except_bind_eq_ok, mapError_eq_ok, guard_bind_eq_ok, pure_eq_ok, not_lt]
  constructor
  · rintro ⟨_, hvalid, _, hencode, hlength, rfl⟩
    exact ⟨hvalid, hencode, hlength⟩
  · rintro ⟨hvalid, hencode, hlength⟩
    exact ⟨(), hvalid, bytes, hencode, hlength, rfl⟩

theorem decodeIncident_eq_ok {incident : QuarantineIncident} {bytes : Bytes} :
    decodeIncident bytes = .ok incident ↔ bytes.length ≤ MAX_INCIDENT_BYTES ∧ incident.validate = .ok () ∧
      ∃ value, decodeStrict bytes = .ok value ∧ fromValue value = some incident ∧ encodePretty value = .ok bytes := by
  simp only [decodeIncident, except_bind_eq_ok, mapError_eq_ok, guard_bind_eq_ok, not_lt]
  refine and_congr_right fun _ => ?_
  constructor
  · rintro ⟨value, hvalue, h⟩
    split at h
    · rename_i read hread
      simp only [except_bind_eq_ok, mapError_eq_ok, guard_bind_eq_ok, not_not, pure_eq_ok] at h
      obtain ⟨_, hvalid, canonical, hcanonical, rfl, rfl⟩ := h
      exact ⟨hvalid, value, hvalue, hread, hcanonical⟩
    · cases h
  · rintro ⟨hvalid, value, hvalue, hread, hcanonical⟩
    refine ⟨value, hvalue, ?_⟩
    rw [hread]
    simp only [except_bind_eq_ok, mapError_eq_ok, guard_bind_eq_ok, not_not, pure_eq_ok]
    exact ⟨(), hvalid, bytes, hcanonical, rfl, trivial⟩

/-- Every structure is written as an object, the phase as a text and no field is left out. -/
def PlainDocument (bytes : Bytes) : Prop :=
  ∃ value, decodeStrict bytes = .ok value ∧ plainStruct PendingDocument.fields PendingDocument.checks value = true

def PlainIncident (bytes : Bytes) : Prop :=
  ∃ value, decodeStrict bytes = .ok value ∧ plainStruct QuarantineIncident.fields QuarantineIncident.checks value = true

theorem decodeDocument_encodeDocument {document : PendingDocument} {bytes : Bytes}
    (h : encodeDocument document = .ok bytes) : decodeDocument bytes = .ok document := by
  obtain ⟨hvalid, hencode, hlength⟩ := encodeDocument_eq_ok.mp h
  exact decodeDocument_eq_ok.mpr ⟨hlength, hvalid, document.toValue,
    decodeStrict_encodePretty hencode document.depth_toValue_le, PendingDocument.writtenAs.read document, hencode⟩

theorem encodeDocument_iff_plain {document : PendingDocument} {bytes : Bytes}
    (h : decodeDocument bytes = .ok document) : encodeDocument document = .ok bytes ↔ PlainDocument bytes := by
  obtain ⟨hlength, hvalid, value, hvalue, hread, hcanonical⟩ := decodeDocument_eq_ok.mp h
  constructor
  · intro hencode
    obtain ⟨-, hencode, -⟩ := encodeDocument_eq_ok.mp hencode
    exact ⟨document.toValue, decodeStrict_encodePretty hencode document.depth_toValue_le,
      PendingDocument.writtenAs.plain_value document⟩
  · rintro ⟨plain, hplain, hchecks⟩
    obtain rfl : value = plain := Except.ok.inj (hvalue.symm.trans hplain)
    obtain rfl := PendingDocument.writtenAs.eq_value hchecks hread
    exact encodeDocument_eq_ok.mpr ⟨hvalid, hcanonical, hlength⟩

theorem decodeIncident_encodeIncident {incident : QuarantineIncident} {bytes : Bytes}
    (h : encodeIncident incident = .ok bytes) : decodeIncident bytes = .ok incident := by
  obtain ⟨hvalid, hencode, hlength⟩ := encodeIncident_eq_ok.mp h
  exact decodeIncident_eq_ok.mpr ⟨hlength, hvalid, incident.toValue,
    decodeStrict_encodePretty hencode incident.depth_toValue_le, QuarantineIncident.writtenAs.read incident, hencode⟩

theorem encodeIncident_iff_plain {incident : QuarantineIncident} {bytes : Bytes}
    (h : decodeIncident bytes = .ok incident) : encodeIncident incident = .ok bytes ↔ PlainIncident bytes := by
  obtain ⟨hlength, hvalid, value, hvalue, hread, hcanonical⟩ := decodeIncident_eq_ok.mp h
  constructor
  · intro hencode
    obtain ⟨-, hencode, -⟩ := encodeIncident_eq_ok.mp hencode
    exact ⟨incident.toValue, decodeStrict_encodePretty hencode incident.depth_toValue_le,
      QuarantineIncident.writtenAs.plain_value incident⟩
  · rintro ⟨plain, hplain, hchecks⟩
    obtain rfl : value = plain := Except.ok.inj (hvalue.symm.trans hplain)
    obtain rfl := QuarantineIncident.writtenAs.eq_value hchecks hread
    exact encodeIncident_eq_ok.mpr ⟨hvalid, hcanonical, hlength⟩

theorem PendingDocument.length_sequence_le (document : PendingDocument) (hschema : document.schema = PENDING_SCHEMA) :
    (print 0 (Json.array document.values).raw).length ≤ 4087 +
      24 * (document.approvedRemote.locator.asStr.toList.length +
        document.approvedRemote.reference.asStr.toList.length) + document.candidateParents.length * 218 := by
  have harray := length_print_array_le 0 (document.values.map Json.raw)
  have hvalues := document.length_values_le hschema
  have hlength : document.values.length = 21 := rfl
  rw [List.map_map] at harray
  change (print 0 (Json.array document.values).raw).length ≤ 3 +
    (document.values.map fun v => (print 1 v.raw).length + 4).sum at harray
  rw [List.sum_map_add, List.map_const', List.sum_replicate, hlength, show 21 • 4 = 84 from rfl] at harray
  omega

/-- The values of a document in a sequence are read as that document, which is not how it is written. -/
theorem decodeDocument_sequence {document : PendingDocument} (hvalid : document.validate = .ok ())
    (hlength : (print 0 (Json.array document.values).raw).length + 1 ≤ MAX_PENDING_ROOT_BYTES) :
    ∃ bytes, decodeDocument bytes = .ok document ∧ ¬ PlainDocument bytes := by
  have hencode : encodePretty (Json.array document.values) = .ok (print 0 (Json.array document.values).raw ++ [0x0a]) :=
    encodePretty_eq_ok.mpr ⟨Json.noFloats_array.mpr document.noFloats_values, rfl⟩
  have hdepth : (Json.array document.values).depth ≤ 3 := Json.depth_array_le.mpr document.depth_values_le
  have hdecode := decodeStrict_encodePretty hencode (hdepth.trans (by decide))
  have hslots : structFields PendingDocument.fields (Json.array document.values) = some (document.values.map some) := by
    rw [structFields, view_array]
    rfl
  refine ⟨_, decodeDocument_eq_ok.mpr ⟨?_, hvalid, _, hdecode, PendingDocument.fromValue_of_slots hslots, hencode⟩, ?_⟩
  · rw [List.length_append]
    exact hlength
  · rintro ⟨value, hvalue, hplain⟩
    obtain rfl := Except.ok.inj (hdecode.symm.trans hvalue)
    rw [plainStruct, view_array] at hplain
    cases hplain

/-- What is written is read back, and what is read was written when its parts have the form they are written in. -/
theorem documents_have_one_encoding_iff :
    (∀ (document : PendingDocument) (bytes : Bytes), encodeDocument document = .ok bytes →
      decodeDocument bytes = .ok document) ∧
    (∀ (document : PendingDocument) (bytes : Bytes), decodeDocument bytes = .ok document →
      (encodeDocument document = .ok bytes ↔ PlainDocument bytes)) ∧
    (∀ (incident : QuarantineIncident) (bytes : Bytes), encodeIncident incident = .ok bytes →
      decodeIncident bytes = .ok incident) ∧
    ∀ (incident : QuarantineIncident) (bytes : Bytes), decodeIncident bytes = .ok incident →
      (encodeIncident incident = .ok bytes ↔ PlainIncident bytes) :=
  ⟨fun _ _ h => decodeDocument_encodeDocument h, fun _ _ h => encodeDocument_iff_plain h,
    fun _ _ h => decodeIncident_encodeIncident h, fun _ _ h => encodeIncident_iff_plain h⟩

end Documents

attribute [local instance] Sample.url

theorem sequence_read_as_document :
    ¬ ∀ (document : PendingDocument) (bytes : Bytes), decodeDocument bytes = .ok document →
      encodeDocument document = .ok bytes := by
  intro h
  have hremote : Sample.document.approvedRemote.locator.asStr.toList.length +
      Sample.document.approvedRemote.reference.asStr.toList.length = 38 := by decide
  have hparents : Sample.document.candidateParents.length = 2 := rfl
  have hlength := Sample.document.length_sequence_le rfl
  rw [hremote, hparents] at hlength
  have hlimit : (print 0 (Json.array Sample.document.values).raw).length + 1 ≤ MAX_PENDING_ROOT_BYTES := by
    rw [MAX_PENDING_ROOT_BYTES]
    omega
  obtain ⟨bytes, hdecode, hplain⟩ := decodeDocument_sequence rfl hlimit
  exact hplain ((encodeDocument_iff_plain hdecode).mp (h _ _ hdecode))

theorem documents_have_one_encoding_iff_prepared :
    ∃ bytes, encodeDocument Sample.document = .ok bytes ∧ decodeDocument bytes = .ok Sample.document ∧
      PlainDocument bytes := by
  obtain ⟨bytes, hbytes⟩ := Sample.encode_document
  have hread := documents_have_one_encoding_iff.1 Sample.document bytes hbytes
  exact ⟨bytes, hbytes, hread, (documents_have_one_encoding_iff.2.1 Sample.document bytes hread).mp hbytes⟩

end Wayjournal
