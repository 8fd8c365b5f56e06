import Wayjournal.Collections.Separated
import Wayjournal.Record.RoundTrip
import Wayjournal.Store.Paths

namespace Wayjournal

open Collections Text

/-- The entity of a frozen event: a UUID of one of three versions. -/
structure LegacyEntity where
  uuid : Uuid
  accepted : uuid.accepted [4, 5, 7] = true

theorem LegacyEntity.uuid_injective : Function.Injective LegacyEntity.uuid := by
  rintro ⟨a, _⟩ ⟨b, _⟩ h
  cases h
  rfl

/-- What a canonical path says: its class and its identifiers. -/
inductive CanonicalName
  | legacyEvent (entity : LegacyEntity) (id : RecordId)
  | legacyBatch (id : BatchId)
  | journalRecord (domain : DomainId) (entity : EntityId) (id : RecordId)
  | journalBatch (id : BatchId)

namespace CanonicalName

def pathClass : CanonicalName → PathClass
  | legacyEvent .. => .legacyEvent
  | legacyBatch .. => .legacyBatch
  | journalRecord .. => .journalRecord
  | journalBatch .. => .journalBatch

def parts : CanonicalName → List String
  | legacyEvent entity id => ["events", entity.uuid.hyphenated, id.display ++ ".json"]
  | legacyBatch id => ["batches", id.display ++ ".json"]
  | journalRecord domain entity id => ["journal", "records", domain.asStr, entity.display, id.display ++ ".json"]
  | journalBatch id => ["journal", "batches", id.display ++ ".json"]

def path (name : CanonicalName) : String := joinPath (name.parts.map String.toList)

theorem parts_ne_nil (name : CanonicalName) : name.parts ≠ [] := by
  cases name <;> exact List.cons_ne_nil _ _

theorem slash_notMem_parts (name : CanonicalName) : ∀ p ∈ name.parts, '/' ∉ p.toList := by
  cases name with
  | legacyEvent entity id =>
    simp only [parts, List.mem_cons, List.not_mem_nil, or_false, forall_eq_or_imp, forall_eq]
    exact ⟨by decide, slash_notMem_uuid _, slash_notMem_uuidJson _⟩
  | legacyBatch id =>
    simp only [parts, List.mem_cons, List.not_mem_nil, or_false, forall_eq_or_imp, forall_eq]
    exact ⟨by decide, slash_notMem_uuidJson _⟩
  | journalRecord domain entity id =>
    simp only [parts, List.mem_cons, List.not_mem_nil, or_false, forall_eq_or_imp, forall_eq]
    exact ⟨by decide, by decide, slash_notMem_domain _, slash_notMem_uuid _, slash_notMem_uuidJson _⟩
  | journalBatch id =>
    simp only [parts, List.mem_cons, List.not_mem_nil, or_false, forall_eq_or_imp, forall_eq]
    exact ⟨by decide, by decide, slash_notMem_uuidJson _⟩

theorem splitPath_path (name : CanonicalName) : splitPath name.path = name.parts :=
  splitPath_parts name.slash_notMem_parts name.parts_ne_nil

theorem display_of_json {k : UuidKind} {x y : UuidId k} (h : x.display ++ ".json" = y.display ++ ".json") : x = y :=
  FromStr.toText_injective ((String.append_left_inj _).mp h)

theorem parts_injective : Function.Injective parts := by
  intro a b h
  cases a <;> cases b <;> simp only [parts, List.cons.injEq, reduceCtorEq, and_false, and_true, false_and, true_and,
    String.reduceEq] at h
  · obtain rfl := LegacyEntity.uuid_injective (Uuid.hyphenated_injective h.1)
    rw [display_of_json h.2]
  · rw [display_of_json h]
  · rw [CheckedText.asStr_injective h.1, UuidId.uuid_injective (Uuid.hyphenated_injective h.2.1), display_of_json h.2.2]
  · rw [display_of_json h]

theorem path_injective : Function.Injective path := by
  intro a b h
  apply parts_injective
  rw [← a.splitPath_path, h, b.splitPath_path]

end CanonicalName

theorem exists_of_parses {α : Type} [FromStr α] {s : String} (h : parses α s = true) :
    ∃ x : α, FromStr.toText x = s := by
  rw [parses] at h
  cases hparse : (FromStr.fromStr s : Except _ α) with
  | error e =>
    rw [hparse] at h
    cases h
  | ok x => exact ⟨x, FromStr.toText_of_fromStr hparse⟩

theorem exists_of_stripJson {α : Type} [FromStr α] {file : String} (h : (stripJson file).any (parses α) = true) :
    ∃ x : α, file = FromStr.toText x ++ ".json" := by
  cases hstem : stripJson file with
  | none =>
    rw [hstem] at h
    cases h
  | some stem =>
    rw [hstem] at h
    obtain ⟨x, rfl⟩ := exists_of_parses h
    exact ⟨x, append_of_stripJson hstem⟩

theorem exists_of_validLegacyUuid {s : String} (h : validLegacyUuid s [4, 5, 7] = true) :
    ∃ entity : LegacyEntity, s = entity.uuid.hyphenated := by
  rw [validLegacyUuid] at h
  cases hparse : Uuid.parseStr s with
  | none =>
    rw [hparse] at h
    cases h
  | some u =>
    rw [hparse] at h
    simp only [Option.any_some, Bool.and_eq_true, decide_eq_true_eq] at h
    exact ⟨⟨u, h.2⟩, h.1⟩

namespace CanonicalName

theorem exists_of_splitPath {s : String} {name : CanonicalName} (h : splitPath s = name.parts) : s = name.path := by
  rw [← joinPath_splitPath s, h, path]

theorem validLegacyEvent_iff {s : String} :
    validLegacyEvent s = true ↔ ∃ entity id, s = (legacyEvent entity id).path := by
  constructor
  · intro h
    unfold validLegacyEvent at h
    split at h
    · rename_i root entity file hsplit
      simp only [Bool.and_eq_true, decide_eq_true_eq] at h
      obtain ⟨⟨rfl, hentity⟩, hfile⟩ := h
      obtain ⟨u, rfl⟩ := exists_of_validLegacyUuid hentity
      obtain ⟨id, rfl⟩ := exists_of_stripJson hfile
      exact ⟨u, id, exists_of_splitPath hsplit⟩
    · cases h
  · rintro ⟨entity, id, rfl⟩
    have hid : parses RecordId id.display = true := parses_toText id
    rw [validLegacyEvent, splitPath_path]
    simp [parts, validLegacyUuid, entity.accepted, stripJson_append, hid]

theorem validLegacyBatch_iff {s : String} :
    validLegacyBatch s = true ↔ ∃ id, s = (legacyBatch id).path := by
  constructor
  · intro h
    unfold validLegacyBatch at h
    split at h
    · rename_i root file hsplit
      simp only [Bool.and_eq_true, decide_eq_true_eq] at h
      obtain ⟨rfl, hfile⟩ := h
      obtain ⟨id, rfl⟩ := exists_of_stripJson hfile
      exact ⟨id, exists_of_splitPath hsplit⟩
    · cases h
  · rintro ⟨id, rfl⟩
    have hid : parses BatchId id.display = true := parses_toText id
    rw [validLegacyBatch, splitPath_path]
    simp [parts, stripJson_append, hid]

theorem validateJournalRecordPath_iff {s : String} :
    validateJournalRecordPath s = true ↔ ∃ domain entity id, s = (journalRecord domain entity id).path := by
  constructor
  · intro h
    unfold validateJournalRecordPath at h
    split at h
    · rename_i root records domain entity file hsplit
      simp only [Bool.and_eq_true, decide_eq_true_eq] at h
      obtain ⟨⟨⟨⟨rfl, rfl⟩, hdomain⟩, hentity⟩, hfile⟩ := h
      obtain ⟨d, rfl⟩ := exists_of_parses hdomain
      obtain ⟨e, rfl⟩ := exists_of_parses hentity
      obtain ⟨id, rfl⟩ := exists_of_stripJson hfile
      exact ⟨d, e, id, exists_of_splitPath hsplit⟩
    · cases h
  · rintro ⟨domain, entity, id, rfl⟩
    have hdomain : parses DomainId domain.asStr = true := parses_toText domain
    have hentity : parses EntityId entity.display = true := parses_toText entity
    have hid : parses RecordId id.display = true := parses_toText id
    rw [validateJournalRecordPath, splitPath_path]
    simp [parts, hdomain, hentity, stripJson_append, hid]

theorem validJournalBatch_iff {s : String} :
    validJournalBatch s = true ↔ ∃ id, s = (journalBatch id).path := by
  constructor
  · intro h
    unfold validJournalBatch at h
    split at h
    · rename_i root batches file hsplit
      simp only [Bool.and_eq_true, decide_eq_true_eq] at h
      obtain ⟨⟨rfl, rfl⟩, hfile⟩ := h
      obtain ⟨id, rfl⟩ := exists_of_stripJson hfile
      exact ⟨id, exists_of_splitPath hsplit⟩
    · cases h
  · rintro ⟨id, rfl⟩
    have hid : parses BatchId id.display = true := parses_toText id
    rw [validJournalBatch, splitPath_path]
    simp [parts, stripJson_append, hid]

end CanonicalName

theorem decode_encode_append (cs : List Char) (rest : Bytes) :
    Utf8.decode (Utf8.encode cs ++ rest) = (Utf8.decode rest).map (cs ++ ·) := by
  induction cs with
  | nil => simp [Utf8.encode]
  | cons c t ih =>
    have hencode : Utf8.encode (c :: t) ++ rest = Utf8.encodeChar c ++ (Utf8.encode t ++ rest) := by
      simp [Utf8.encode]
    rw [hencode, Utf8.decode_encodeChar, ih, Option.map_map]
    rfl

theorem isPrefix_asBytes_iff {t s : String} : asBytes t <+: asBytes s ↔ startsWith s t = true := by
  rw [startsWith, List.isPrefixOf_iff_prefix]
  constructor
  · rintro ⟨rest, h⟩
    have hdecode := decode_encode_append t.toList rest
    have hbytes : Utf8.encode t.toList ++ rest = Utf8.encode s.toList := h
    rw [hbytes, Utf8.decode_encode] at hdecode
    obtain ⟨cs, -, hcs⟩ := Option.map_eq_some_iff.mp hdecode.symm
    exact ⟨cs, hcs⟩
  · rintro ⟨cs, h⟩
    refine ⟨Utf8.encode cs, ?_⟩
    rw [asBytes, asBytes, Json.utf8, Json.utf8, ← h]
    simp [Utf8.encode]

/-- One of the reserved roots, or below one of them. -/
def Reserved (path : Bytes) : Prop :=
  ∃ root ∈ ["events", "batches", "journal"], path = asBytes root ∨ asBytes (root ++ "/") <+: path

theorem reservedPrefixBytes_iff {path : Bytes} : reservedPrefixBytes path = true ↔ Reserved path := by
  simp only [reservedPrefixBytes, List.any_eq_true, Bool.or_eq_true, decide_eq_true_eq, List.isPrefixOf_iff_prefix,
    Reserved]

theorem reserved_asBytes_iff {s : String} :
    Reserved (asBytes s) ↔ (s = "events" ∨ startsWith s "events/" = true) ∨
      (s = "batches" ∨ startsWith s "batches/" = true) ∨ s = "journal" ∨ startsWith s "journal/" = true := by
  simp only [Reserved, List.mem_cons, List.not_mem_nil, or_false, exists_eq_or_imp, exists_eq_left,
    asBytes_injective.eq_iff, isPrefix_asBytes_iff]
  rfl

theorem startsWith_append (s t : String) : startsWith (s ++ t) s = true := by
  rw [startsWith, List.isPrefixOf_iff_prefix, String.toList_append]
  exact List.prefix_append _ _

theorem startsWith_trans {s t u : String} (h : startsWith s (t ++ u) = true) : startsWith s t = true := by
  rw [startsWith, List.isPrefixOf_iff_prefix, String.toList_append] at h
  rw [startsWith, List.isPrefixOf_iff_prefix]
  exact (List.prefix_append _ _).trans h

theorem ite_ne_nonCanonical {c : Bool} {k : PathClass} (h : k ≠ .nonCanonical) :
    (if c = true then k else .invalidReserved) ≠ .nonCanonical := by
  cases c with
  | true => exact h
  | false => exact (nomatch ·)

theorem classifyPath_eq_nonCanonical {path : Bytes} : classifyPath path = .nonCanonical ↔ ¬Reserved path := by
  rw [classifyPath]
  cases hutf : fromUtf8 path with
  | none =>
    rw [← reservedPrefixBytes_iff]
    cases reservedPrefixBytes path <;> simp
  | some s =>
    obtain rfl := asBytes_of_fromUtf8 hutf
    have hrecords : startsWith s "journal/records/" = true → startsWith s "journal/" = true :=
      startsWith_trans (t := "journal/") (u := "records/")
    have hbatches : startsWith s "journal/batches/" = true → startsWith s "journal/" = true :=
      startsWith_trans (t := "journal/") (u := "batches/")
    rw [reserved_asBytes_iff]
    simp only
    split
    · rename_i h
      exact iff_of_false (ite_ne_nonCanonical (by decide)) (not_not.mpr (.inl (.inr h)))
    rename_i h₁
    split
    · rename_i h
      exact iff_of_false (by decide) (not_not.mpr (.inl (.inl h)))
    rename_i h₂
    split
    · rename_i h
      exact iff_of_false (ite_ne_nonCanonical (by decide)) (not_not.mpr (.inr (.inl (.inr h))))
    rename_i h₃
    split
    · rename_i h
      exact iff_of_false (by decide) (not_not.mpr (.inr (.inl (.inl h))))
    rename_i h₄
    split
    · rename_i h
      exact iff_of_false (ite_ne_nonCanonical (by decide)) (not_not.mpr (.inr (.inr (.inr (hrecords h)))))
    split
    · rename_i h
      exact iff_of_false (ite_ne_nonCanonical (by decide)) (not_not.mpr (.inr (.inr (.inr (hbatches h)))))
    split
    · rename_i h
      simp only [Bool.or_eq_true, decide_eq_true_eq] at h
      exact iff_of_false (by decide) (not_not.mpr (.inr (.inr h)))
    · rename_i h
      simp only [Bool.or_eq_true, decide_eq_true_eq] at h
      refine iff_of_true rfl ?_
      rintro ((h | h) | (h | h) | h)
      · exact h₂ h
      · exact h₁ h
      · exact h₄ h
      · exact h₃ h
      · exact absurd h ‹_›

namespace CanonicalName

theorem path_legacyEvent (entity : LegacyEntity) (id : RecordId) :
    (legacyEvent entity id).path = "events/" ++ (entity.uuid.hyphenated ++ "/" ++ id.display ++ ".json") := by
  simp only [path, parts, List.map_cons, List.map_nil, joinPath_cons_cons, joinPath_singleton, String.append_assoc]
  rfl

theorem path_legacyBatch (id : BatchId) : (legacyBatch id).path = "batches/" ++ (id.display ++ ".json") := by
  simp only [path, parts, List.map_cons, List.map_nil, joinPath_cons_cons, joinPath_singleton, String.append_assoc]
  rfl

theorem path_journalRecord (domain : DomainId) (entity : EntityId) (id : RecordId) :
    (journalRecord domain entity id).path =
      "journal/records/" ++ (domain.asStr ++ "/" ++ entity.display ++ "/" ++ id.display ++ ".json") := by
  simp only [path, parts, List.map_cons, List.map_nil, joinPath_cons_cons, joinPath_singleton, String.append_assoc]
  rfl

theorem path_journalBatch (id : BatchId) :
    (journalBatch id).path = "journal/batches/" ++ (id.display ++ ".json") := by
  simp only [path, parts, List.map_cons, List.map_nil, joinPath_cons_cons, joinPath_singleton, String.append_assoc]
  rfl

theorem not_events_batches (rest : String) :
    startsWith ("batches/" ++ rest) "events/" = false ∧ "batches/" ++ rest ≠ "events" := by
  have hlist : ("batches/" ++ rest).toList = "batches/".toList ++ rest.toList := String.toList_append
  refine ⟨?_, ?_⟩
  · rw [startsWith, hlist]
    simp [List.isPrefixOf]
  · intro h
    rw [h] at hlist
    simp at hlist

theorem inJournal_records (rest : String) : InJournal ("journal/records/" ++ rest) := by
  rw [show "journal/records/" = "journal/" ++ "records/" from rfl, String.append_assoc]
  exact inJournal_append _

theorem inJournal_batches (rest : String) : InJournal ("journal/batches/" ++ rest) := by
  rw [show "journal/batches/" = "journal/" ++ "batches/" from rfl, String.append_assoc]
  exact inJournal_append _

theorem not_records_batches (rest : String) : startsWith ("journal/batches/" ++ rest) "journal/records/" = false := by
  have hlist : ("journal/batches/" ++ rest).toList = "journal/batches/".toList ++ rest.toList :=
    String.toList_append
  rw [startsWith, hlist]
  simp [List.isPrefixOf]

theorem classifyPath_path (name : CanonicalName) : classifyPath (asBytes name.path) = name.pathClass := by
  cases name with
  | legacyEvent entity id =>
    have hvalid := validLegacyEvent_iff.mpr ⟨entity, id, rfl⟩
    have hstart : startsWith (legacyEvent entity id).path "events/" = true := by
      rw [path_legacyEvent]
      exact startsWith_append _ _
    rw [classifyPath, fromUtf8_asBytes]
    simp only [hstart, hvalid, if_true]
    rfl
  | legacyBatch id =>
    have hvalid := validLegacyBatch_iff.mpr ⟨id, rfl⟩
    have hevents := not_events_batches (id.display ++ ".json")
    have hstart := startsWith_append "batches/" (id.display ++ ".json")
    rw [← path_legacyBatch] at hevents hstart
    rw [classifyPath, fromUtf8_asBytes]
    simp only [hevents, hstart, hvalid, if_true, if_false, Bool.false_eq_true]
    rfl
  | journalRecord domain entity id =>
    have hvalid := validateJournalRecordPath_iff.mpr ⟨domain, entity, id, rfl⟩
    have hin := inJournal_records (domain.asStr ++ "/" ++ entity.display ++ "/" ++ id.display ++ ".json")
    have hstart := startsWith_append "journal/records/"
      (domain.asStr ++ "/" ++ entity.display ++ "/" ++ id.display ++ ".json")
    rw [← path_journalRecord] at hin hstart
    exact classifyPath_records hin hstart hvalid
  | journalBatch id =>
    have hvalid := validJournalBatch_iff.mpr ⟨id, rfl⟩
    have hin := inJournal_batches (id.display ++ ".json")
    have hrecords := not_records_batches (id.display ++ ".json")
    have hstart := startsWith_append "journal/batches/" (id.display ++ ".json")
    rw [← path_journalBatch] at hin hrecords hstart
    exact classifyPath_batches hin hrecords hstart hvalid

theorem isCanonical_ite {c : Bool} {k : PathClass} (h : (if c = true then k else .invalidReserved).isCanonical = true) :
    c = true ∧ (if c = true then k else .invalidReserved) = k := by
  cases c with
  | true => exact ⟨rfl, rfl⟩
  | false => cases h

theorem exists_of_classifyPath {path : Bytes} (h : (classifyPath path).isCanonical = true) :
    ∃ name : CanonicalName, path = asBytes name.path ∧ classifyPath path = name.pathClass := by
  suffices hname : ∃ name : CanonicalName, path = asBytes name.path by
    obtain ⟨name, rfl⟩ := hname
    exact ⟨name, rfl, name.classifyPath_path⟩
  rw [classifyPath] at h
  cases hutf : fromUtf8 path with
  | none =>
    rw [hutf] at h
    simp only at h
    split at h <;> cases h
  | some s =>
    obtain rfl := asBytes_of_fromUtf8 hutf
    rw [hutf] at h
    simp only at h
    split at h
    · obtain ⟨entity, id, rfl⟩ := validLegacyEvent_iff.mp (isCanonical_ite h).1
      exact ⟨_, rfl⟩
    split at h
    · cases h
    split at h
    · obtain ⟨id, rfl⟩ := validLegacyBatch_iff.mp (isCanonical_ite h).1
      exact ⟨_, rfl⟩
    split at h
    · cases h
    split at h
    · obtain ⟨domain, entity, id, rfl⟩ := validateJournalRecordPath_iff.mp (isCanonical_ite h).1
      exact ⟨_, rfl⟩
    split at h
    · obtain ⟨id, rfl⟩ := validJournalBatch_iff.mp (isCanonical_ite h).1
      exact ⟨_, rfl⟩
    split at h <;> cases h

theorem classifyPath_eq_iff {path : Bytes} {k : PathClass} (hk : k.isCanonical = true) :
    classifyPath path = k ↔ ∃ name : CanonicalName, path = asBytes name.path ∧ name.pathClass = k := by
  constructor
  · rintro rfl
    obtain ⟨name, hpath, hclass⟩ := exists_of_classifyPath hk
    exact ⟨name, hpath, hclass.symm⟩
  · rintro ⟨name, rfl, rfl⟩
    exact name.classifyPath_path

theorem ascii_part (name : CanonicalName) : ∀ p ∈ name.parts, ∀ c ∈ p.toList, isNameChar c = true := by
  have hjson : ∀ u : Uuid, ∀ c ∈ (u.hyphenated ++ ".json").toList, isNameChar c = true := by
    intro u c hc
    rw [String.toList_append, List.mem_append] at hc
    obtain hc | hc := hc
    · exact isNameChar_uuid u c hc
    · exact List.all_eq_true.mp (by decide) c hc
  have hconstant : ∀ s ∈ ["events", "batches", "journal", "records"], ∀ c ∈ s.toList, isNameChar c = true := by
    have hall : ["events", "batches", "journal", "records"].all (fun s => s.toList.all isNameChar) = true := by decide
    exact fun s hs => List.all_eq_true.mp (List.all_eq_true.mp hall s hs)
  cases name with
  | legacyEvent entity id =>
    simp only [parts, List.mem_cons, List.not_mem_nil, or_false, forall_eq_or_imp, forall_eq]
    exact ⟨hconstant _ (by decide), isNameChar_uuid _, hjson _⟩
  | legacyBatch id =>
    simp only [parts, List.mem_cons, List.not_mem_nil, or_false, forall_eq_or_imp, forall_eq]
    exact ⟨hconstant _ (by decide), hjson _⟩
  | journalRecord domain entity id =>
    simp only [parts, List.mem_cons, List.not_mem_nil, or_false, forall_eq_or_imp, forall_eq]
    exact ⟨hconstant _ (by decide), hconstant _ (by decide), (isNameChar_token domain).1, isNameChar_uuid _, hjson _⟩
  | journalBatch id =>
    simp only [parts, List.mem_cons, List.not_mem_nil, or_false, forall_eq_or_imp, forall_eq]
    exact ⟨hconstant _ (by decide), hconstant _ (by decide), hjson _⟩

theorem asBytes_path (name : CanonicalName) : asBytes name.path = [SLASH].intercalate (name.parts.map asBytes) :=
  asBytes_joinPath name.parts

theorem slash_notMem_asBytes (name : CanonicalName) : ∀ p ∈ name.parts.map asBytes, SLASH ∉ p := by
  intro p hp
  obtain ⟨s, hs, rfl⟩ := List.mem_map.mp hp
  intro hslash
  rw [← String.ofList_toList (s := s)] at hslash
  exact (asBytes_nameChars (name.ascii_part s hs) hslash).1 rfl

end CanonicalName

theorem encode_ascii {cs : List Char} (h : ∀ c ∈ cs, c.toNat < 128) :
    Utf8.encode cs = cs.map (fun c => UInt8.ofNat c.toNat) := by
  induction cs with
  | nil => rfl
  | cons c t ih =>
    have hc : Utf8.encodeChar c = [UInt8.ofNat c.toNat] := by
      rw [Utf8.encodeChar, if_pos (h c List.mem_cons_self)]
    rw [Utf8.encode, List.flatMap_cons, hc, List.map_cons, List.singleton_append]
    exact congrArg _ (ih (fun d hd => h d (List.mem_cons_of_mem _ hd)))

namespace CanonicalName

theorem ascii_path (name : CanonicalName) : ∀ c ∈ name.path.toList, c.toNat < 128 := by
  intro c hc
  rw [path, joinPath, String.toList_ofList] at hc
  obtain rfl | ⟨x, hx, hc⟩ := mem_intercalate hc
  · decide
  · obtain ⟨s, hs, rfl⟩ := List.mem_map.mp hx
    have hname := name.ascii_part s hs c hc
    simp only [isNameChar, Bool.and_eq_true, decide_eq_true_eq] at hname
    omega

theorem length_path_le (name : CanonicalName) : name.path.toList.length ≤ 223 := by
  have hjson : ".json".toList.length = 5 := by decide
  have huuid : ∀ u : Uuid, u.hyphenated.toList.length = 36 := by
    intro u
    rw [Uuid.hyphenated, String.toList_ofList, Uuid.length_hyphenate (Hex.length_toChars _)]
  have hid : ∀ {k : UuidKind} (x : UuidId k), (x.display ++ ".json").toList.length = 41 := by
    intro k x
    rw [String.toList_append, List.length_append, x.length_display_chars, hjson]
  cases name with
  | legacyEvent entity id =>
    have hroot : "events/".toList.length = 7 := by decide
    have hslash : "/".toList.length = 1 := by decide
    rw [path_legacyEvent, String.append_assoc, String.toList_append, List.length_append, hroot,
      String.toList_append, List.length_append, hid, String.toList_append, List.length_append, huuid, hslash]
    decide
  | legacyBatch id =>
    have hroot : "batches/".toList.length = 8 := by decide
    rw [path_legacyBatch, String.toList_append, List.length_append, hroot, hid]
    decide
  | journalRecord domain entity id =>
    have hle := length_recordPath_le domain entity id
    rw [path_journalRecord]
    simpa only [String.append_assoc] using hle
  | journalBatch id =>
    have hroot : "journal/batches/".toList.length = 16 := by decide
    rw [path_journalBatch, String.toList_append, List.length_append, hroot, hid]
    decide

theorem asBytes_path_bounds (name : CanonicalName) :
    (∀ b ∈ asBytes name.path, b.toNat < 128) ∧ (asBytes name.path).length ≤ 223 := by
  have hencode := encode_ascii name.ascii_path
  rw [asBytes, Json.utf8, hencode]
  refine ⟨?_, ?_⟩
  · intro b hb
    obtain ⟨c, hc, rfl⟩ := List.mem_map.mp hb
    have hlt := name.ascii_path c hc
    rw [Utf8.toNat_ofNat_of_lt (by omega)]
    exact hlt
  · rw [List.length_map]
    exact name.length_path_le

theorem directory_of_path {name : CanonicalName} {dir rest : Bytes} (h : asBytes name.path = dir ++ SLASH :: rest) :
    ∃ k, k + 1 < name.parts.length ∧ dir = asBytes (joinPath ((name.parts.take (k + 1)).map String.toList)) := by
  rw [asBytes_path] at h
  obtain ⟨k, hk, rfl⟩ := take_of_intercalate name.slash_notMem_asBytes h
  rw [List.length_map] at hk
  refine ⟨k, hk, ?_⟩
  rw [asBytes_joinPath, List.map_take]

theorem slash_notMem_take (name : CanonicalName) (k : Nat) : ∀ p ∈ name.parts.take k, '/' ∉ p.toList :=
  fun p hp => name.slash_notMem_parts p (List.mem_of_mem_take hp)

theorem take_ne_nil (name : CanonicalName) (k : Nat) : name.parts.take (k + 1) ≠ [] := by
  cases name <;> exact List.cons_ne_nil _ _

/-- No canonical path is a directory above another one. -/
theorem path_ne_directory (name other : CanonicalName) {k : Nat} (hk : k + 1 < other.parts.length) :
    name.path ≠ joinPath ((other.parts.take (k + 1)).map String.toList) := by
  intro heq
  have hparts : name.parts = other.parts.take (k + 1) := by
    rw [← name.splitPath_path, heq, splitPath_parts (other.slash_notMem_take _) (other.take_ne_nil _)]
  have hlength := congrArg List.length hparts
  rw [List.length_take_of_le hk.le] at hlength
  cases name <;> cases other <;> simp only [parts, List.length_cons, List.length_nil] at hk hlength <;>
    try omega
  all_goals
    obtain rfl : k = _ := (Nat.succ.inj hlength).symm
    simp only [parts, List.take_succ_cons, List.cons.injEq, String.reduceEq, false_and, and_false] at hparts

theorem validCanonicalDirectory_take (name : CanonicalName) {k : Nat} (hk : k + 2 < name.parts.length) :
    validCanonicalDirectory (asBytes (joinPath ((name.parts.take (k + 2)).map String.toList))) = true := by
  have hsplit := splitPath_parts (name.slash_notMem_take (k + 2)) (name.take_ne_nil (k + 1))
  rw [validCanonicalDirectory, fromUtf8_asBytes]
  simp only [hsplit]
  cases name with
  | legacyEvent entity id =>
    simp only [parts, List.length_cons, List.length_nil] at hk
    obtain rfl : k = 0 := by omega
    simp [parts, validLegacyUuid, entity.accepted]
  | legacyBatch id =>
    simp only [parts, List.length_cons, List.length_nil] at hk
    omega
  | journalRecord domain entity id =>
    have hdomain : parses DomainId domain.asStr = true := parses_toText domain
    have hentity : parses EntityId entity.display = true := parses_toText entity
    simp only [parts, List.length_cons, List.length_nil] at hk
    obtain rfl | rfl | rfl : k = 0 ∨ k = 1 ∨ k = 2 := by omega
    · simp [parts]
    · simp [parts, hdomain]
    · simp [parts, hdomain, hentity]
  | journalBatch id =>
    simp only [parts, List.length_cons, List.length_nil] at hk
    obtain rfl : k = 0 := by omega
    simp [parts]

end CanonicalName

/-- A directory above the path. -/
def DirectoryOf (dir path : Bytes) : Prop := ∃ rest, path = dir ++ SLASH :: rest

theorem exists_unique_name {P : CanonicalName → Prop} {path : Bytes} {ι : Type} (f : ι → CanonicalName)
    (hf : Function.Injective f) (hP : ∀ name, P name ↔ ∃ i, f i = name) :
    (∃ name, path = asBytes name.path ∧ P name) ↔ ∃! i, path = asBytes (f i).path := by
  constructor
  · rintro ⟨name, hpath, hname⟩
    obtain ⟨i, rfl⟩ := (hP name).mp hname
    refine ⟨i, hpath, fun j hj => ?_⟩
    exact hf (CanonicalName.path_injective (asBytes_injective (hj.symm.trans hpath)))
  · rintro ⟨i, hpath, -⟩
    exact ⟨f i, hpath, (hP _).mpr ⟨i, rfl⟩⟩

namespace CanonicalName

theorem classifyPath_eq_invalidReserved {path : Bytes} :
    classifyPath path = .invalidReserved ↔ Reserved path ∧ ¬∃ name : CanonicalName, path = asBytes name.path := by
  constructor
  · intro h
    refine ⟨?_, ?_⟩
    · by_contra hnot
      rw [classifyPath_eq_nonCanonical.mpr hnot] at h
      cases h
    · rintro ⟨name, rfl⟩
      rw [classifyPath_path] at h
      cases name <;> cases h
  · rintro ⟨hreserved, hnone⟩
    cases hclass : classifyPath path with
    | invalidReserved => rfl
    | nonCanonical => exact absurd hreserved (classifyPath_eq_nonCanonical.mp hclass)
    | _ =>
      have hcanonical : (classifyPath path).isCanonical = true := by rw [hclass]; rfl
      obtain ⟨name, hpath, -⟩ := exists_of_classifyPath hcanonical
      exact absurd ⟨name, hpath⟩ hnone

theorem canonical_bounds {path : Bytes} (h : (classifyPath path).isCanonical = true) :
    (∀ b ∈ path, b.toNat < 128) ∧ path.length ≤ 223 := by
  obtain ⟨name, rfl, -⟩ := exists_of_classifyPath h
  exact name.asBytes_path_bounds

theorem canonical_ne_directory {path other dir : Bytes} (h : (classifyPath path).isCanonical = true)
    (hother : (classifyPath other).isCanonical = true) (hdir : DirectoryOf dir other) : path ≠ dir := by
  obtain ⟨name, rfl, -⟩ := exists_of_classifyPath h
  obtain ⟨above, rfl, -⟩ := exists_of_classifyPath hother
  obtain ⟨rest, hrest⟩ := hdir
  obtain ⟨k, hk, rfl⟩ := directory_of_path hrest
  exact fun heq => path_ne_directory name above hk (asBytes_injective heq)

theorem canonical_directory {path dir : Bytes} (h : (classifyPath path).isCanonical = true)
    (hdir : DirectoryOf dir path) (hslash : SLASH ∈ dir) : validCanonicalDirectory dir = true := by
  obtain ⟨name, rfl, -⟩ := exists_of_classifyPath h
  obtain ⟨rest, hrest⟩ := hdir
  obtain ⟨k, hk, rfl⟩ := directory_of_path hrest
  cases k with
  | zero =>
    rw [asBytes_joinPath] at hslash
    cases hparts : name.parts with
    | nil => exact absurd hparts name.parts_ne_nil
    | cons a t =>
      rw [hparts, List.take_succ_cons, List.take_zero, List.map_singleton, List.intercalate_singleton] at hslash
      have ha : asBytes a ∈ name.parts.map asBytes := by simp [hparts]
      exact absurd hslash (name.slash_notMem_asBytes _ ha)
  | succ k => exact name.validCanonicalDirectory_take hk

end CanonicalName

/-- The grammar of canonical paths, as the classifier, the path constructors and
the directory walker share it. -/
theorem path_grammar_exact [Jiff] (path : Bytes) :
    (classifyPath path = .journalRecord ↔ ∃! x : DomainId × EntityId × RecordId, path = asBytes
      ("journal/records/" ++ (x.1.asStr ++ "/" ++ x.2.1.display ++ "/" ++ x.2.2.display ++ ".json"))) ∧
    (∀ record : Record, path = asBytes record.canonicalPath ↔ path = asBytes ("journal/records/" ++
      (record.domain.asStr ++ "/" ++ record.entityId.display ++ "/" ++ record.recordId.display ++ ".json"))) ∧
    (classifyPath path = .journalBatch ↔
      ∃! id : BatchId, path = asBytes ("journal/batches/" ++ (id.display ++ ".json"))) ∧
    (classifyPath path = .legacyEvent ↔ ∃! x : LegacyEntity × RecordId, path = asBytes
      ("events/" ++ (x.1.uuid.hyphenated ++ "/" ++ x.2.display ++ ".json"))) ∧
    (classifyPath path = .legacyBatch ↔
      ∃! id : BatchId, path = asBytes ("batches/" ++ (id.display ++ ".json"))) ∧
    (classifyPath path = .invalidReserved ↔
      Reserved path ∧ ¬∃ name : CanonicalName, path = asBytes name.path) ∧
    (classifyPath path = .nonCanonical ↔ ¬Reserved path) ∧
    ((classifyPath path).isCanonical = true →
      (∀ b ∈ path, b.toNat < 128) ∧ path.length ≤ 223 ∧
      (∀ other dir, (classifyPath other).isCanonical = true → DirectoryOf dir other → path ≠ dir) ∧
      ∀ dir, DirectoryOf dir path → SLASH ∈ dir → validCanonicalDirectory dir = true) := by
  refine ⟨?_, ?_, ?_, ?_, ?_, CanonicalName.classifyPath_eq_invalidReserved, classifyPath_eq_nonCanonical, ?_⟩
  · rw [CanonicalName.classifyPath_eq_iff rfl, exists_unique_name
      (fun x : DomainId × EntityId × RecordId => CanonicalName.journalRecord x.1 x.2.1 x.2.2)]
    · simp only [CanonicalName.path_journalRecord]
    · rintro ⟨d, e, r⟩ ⟨d', e', r'⟩ h
      cases h
      rfl
    · intro name
      cases name <;> simp [CanonicalName.pathClass]
  · intro record
    rw [← CanonicalName.path_journalRecord, CanonicalName.path, record.canonicalPath_eq]
    rfl
  · rw [CanonicalName.classifyPath_eq_iff rfl, exists_unique_name CanonicalName.journalBatch]
    · simp only [CanonicalName.path_journalBatch]
    · rintro a b h
      cases h
      rfl
    · intro name
      cases name <;> simp [CanonicalName.pathClass]
  · rw [CanonicalName.classifyPath_eq_iff rfl, exists_unique_name
      (fun x : LegacyEntity × RecordId => CanonicalName.legacyEvent x.1 x.2)]
    · simp only [CanonicalName.path_legacyEvent]
    · rintro ⟨e, r⟩ ⟨e', r'⟩ h
      cases h
      rfl
    · intro name
      cases name <;> simp [CanonicalName.pathClass]
  · rw [CanonicalName.classifyPath_eq_iff rfl, exists_unique_name CanonicalName.legacyBatch]
    · simp only [CanonicalName.path_legacyBatch]
    · rintro a b h
      cases h
      rfl
    · intro name
      cases name <;> simp [CanonicalName.pathClass]
  · intro h
    obtain ⟨hascii, hlength⟩ := CanonicalName.canonical_bounds h
    exact ⟨hascii, hlength, fun _ _ hother hdir => CanonicalName.canonical_ne_directory h hother hdir,
      fun _ hdir hslash => CanonicalName.canonical_directory h hdir hslash⟩

theorem batch_path_bounded :
    classifyPath (asBytes (CanonicalName.journalBatch Sample.batchId).path) = .journalBatch ∧
      (asBytes (CanonicalName.journalBatch Sample.batchId).path).length ≤ 223 := by
  have hclass := (CanonicalName.journalBatch Sample.batchId).classifyPath_path
  have hgrammar := @path_grammar_exact Sample.jiff (asBytes (CanonicalName.journalBatch Sample.batchId).path)
  exact ⟨hclass, (hgrammar.2.2.2.2.2.2.2 (by rw [hclass]; rfl)).2.1⟩

end Wayjournal
