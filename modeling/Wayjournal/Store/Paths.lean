import Wayjournal.Store.Visible

namespace Wayjournal

open Text

theorem asBytes_append (s t : String) : asBytes (s ++ t) = asBytes s ++ asBytes t := by
  simp [asBytes, Json.utf8, Utf8.encode]

theorem relative_injective {p q : List Name} (hp : p ≠ []) (hq : q ≠ [])
    (h : relative p = relative q) : p = q := by
  have hfree : ∀ r : List Name, ∀ l ∈ r.map Name.bytes, SLASH ∉ l := by
    intro r l hl
    obtain ⟨n, -, rfl⟩ := List.mem_map.mp hl
    exact n.slash_notMem
  have hsplit := congrArg (List.splitOn SLASH) h
  rw [relative, relative, List.splitOn_intercalate SLASH (hfree p) (by simpa using hp),
    List.splitOn_intercalate SLASH (hfree q) (by simpa using hq)] at hsplit
  exact List.map_injective_iff.mpr Name.bytes_injective hsplit

/-- A path as its parts. -/
def joinPath (parts : List (List Char)) : String := String.ofList (['/'].intercalate parts)

theorem splitPath_joinPath {parts : List (List Char)} (h : ∀ p ∈ parts, '/' ∉ p) (hne : parts ≠ []) :
    splitPath (joinPath parts) = parts.map String.ofList := by
  rw [splitPath, joinPath, String.toList_ofList, List.splitOn_intercalate '/' h hne]

theorem slash_notMem_of_isNameChar {cs : List Char} (h : ∀ c ∈ cs, isNameChar c = true) : '/' ∉ cs := by
  intro hs
  have := h _ hs
  revert this
  decide

theorem isNameChar_uuid (u : Uuid) : ∀ c ∈ u.hyphenated.toList, isNameChar c = true := by
  intro c hc
  rw [Uuid.hyphenated, String.toList_ofList] at hc
  obtain rfl | hc := mem_hyphenate hc
  · decide
  · obtain ⟨n, -, rfl⟩ := List.mem_map.mp hc
    exact (isNameChar_hexDigit n).1

theorem isNameChar_validSegmentByte {first : Bool} {c : Char} (h : validSegmentByte first c = true) :
    isNameChar c = true ∧ c ≠ '.' := by
  simp only [validSegmentByte, Bool.or_eq_true, Bool.and_eq_true, decide_eq_true_eq, Char.le_def,
    UInt32.le_iff_toNat_le] at h
  simp only [isNameChar, Bool.and_eq_true, decide_eq_true_eq]
  obtain ⟨ha, hz⟩ | ⟨-, (⟨h0, h9⟩ | rfl) | rfl⟩ := h
  · change 97 ≤ c.toNat at ha
    change c.toNat ≤ 122 at hz
    refine ⟨⟨⟨by omega, by omega⟩, ?_⟩, ?_⟩
    · rintro rfl
      revert ha
      decide
    · rintro rfl
      revert ha
      decide
  · change 48 ≤ c.toNat at h0
    change c.toNat ≤ 57 at h9
    refine ⟨⟨⟨by omega, by omega⟩, ?_⟩, ?_⟩
    · rintro rfl
      revert h0
      decide
    · rintro rfl
      revert h0
      decide
  · decide
  · decide

theorem isNameChar_token {k : TokenKind} (x : TokenId k) :
    (∀ c ∈ x.asStr.toList, isNameChar c = true) ∧
      ∃ c cs, x.asStr.toList = c :: cs ∧ c ≠ '.' := by
  have hvalid := x.valid
  simp only [TokenKind.check, validNamespacedToken, Bool.and_eq_true, decide_eq_true_eq,
    List.all_eq_true] at hvalid
  obtain ⟨⟨-, hlength⟩, hsegments⟩ := hvalid
  have hsep : k.separator = '.' := by cases k <;> rfl
  rw [hsep] at hlength hsegments
  have hsegment : ∀ s ∈ x.asStr.toList.splitOn '.', ∃ c cs, s = c :: cs ∧
      ∀ a ∈ s, isNameChar a = true ∧ a ≠ '.' := by
    intro s hs
    have h := hsegments s hs
    cases s with
    | nil => cases h
    | cons c cs =>
      simp only [validSegment, Bool.and_eq_true, List.all_eq_true] at h
      refine ⟨c, cs, rfl, fun a ha => ?_⟩
      obtain rfl | ha := List.mem_cons.mp ha
      · exact isNameChar_validSegmentByte h.1.2
      · exact isNameChar_validSegmentByte (h.2 a ha)
  have hjoin : ['.'].intercalate (x.asStr.toList.splitOn '.') = x.asStr.toList :=
    List.intercalate_splitOn '.'
  cases hsplit : x.asStr.toList.splitOn '.' with
  | nil =>
    rw [hsplit] at hlength
    simp at hlength
  | cons s r =>
    rw [hsplit] at hjoin hsegment
    rw [← hjoin]
    have hr : r ≠ [] := by
      rintro rfl
      rw [hsplit] at hlength
      simp at hlength
    constructor
    · have hall : ∀ l : List (List Char), (∀ s ∈ l, ∀ a ∈ s, isNameChar a = true) →
          ∀ c ∈ ['.'].intercalate l, isNameChar c = true := by
        intro l
        induction l with
        | nil => simp
        | cons a t ih =>
          intro hl c hc
          by_cases ht : t = []
          · subst ht
            rw [List.intercalate_singleton] at hc
            exact hl a List.mem_cons_self c hc
          · rw [List.intercalate_cons_of_ne_nil ht, List.append_assoc] at hc
            simp only [List.mem_append, List.mem_singleton] at hc
            obtain hc | rfl | hc := hc
            · exact hl a List.mem_cons_self c hc
            · decide
            · exact ih (fun s hs => hl s (List.mem_cons_of_mem _ hs)) c hc
      apply hall
      intro t ht a ha
      obtain ⟨-, -, -, hmem⟩ := hsegment t ht
      exact (hmem a ha).1
    · obtain ⟨c, cs, rfl, hmem⟩ := hsegment s List.mem_cons_self
      rw [List.intercalate_cons_of_ne_nil hr]
      exact ⟨c, _, rfl, (hmem c List.mem_cons_self).2⟩

theorem stripJson_append (s : String) : stripJson (s ++ ".json") = some s := by
  have h : (s.toList ++ ".json".toList).dropSuffix? ".json".toList = some s.toList :=
    List.dropSuffix?_eq_some_iff.mpr ⟨".json".toList, rfl, by simp⟩
  rw [stripJson, String.toList_append, h, Option.map_some, String.ofList_toList]

theorem append_of_stripJson {file stem : String} (h : stripJson file = some stem) : file = stem ++ ".json" := by
  obtain ⟨l, hl, rfl⟩ := Option.map_eq_some_iff.mp h
  obtain ⟨suffix, hfile, hsuffix⟩ := List.dropSuffix?_eq_some_iff.mp hl
  obtain rfl := eq_of_beq hsuffix
  rw [← String.ofList_toList (s := file), hfile, String.ofList_append]
  rfl

theorem parses_toText {α : Type} [FromStr α] (x : α) : parses α (FromStr.toText x) = true := by
  rw [parses, FromStr.fromStr_toText]
  rfl

def domainName (domain : DomainId) : Name :=
  ⟨asBytes domain.asStr, by
    obtain ⟨hchars, c, cs, heq, hc⟩ := isNameChar_token domain
    rw [← String.ofList_toList (s := domain.asStr), heq]
    rw [heq] at hchars
    exact validComponent_asBytes hc hchars⟩

theorem joinPath_splitPath (path : String) : joinPath ((splitPath path).map String.toList) = path := by
  rw [joinPath, splitPath, List.map_map]
  simp only [Function.comp_def, String.toList_ofList, List.map_id', List.intercalate_splitOn, String.ofList_toList]

theorem joinPath_singleton (a : String) : joinPath [a.toList] = a := by
  rw [joinPath, List.intercalate_singleton, String.ofList_toList]

theorem joinPath_cons_cons (a : String) (b : List Char) (t : List (List Char)) :
    joinPath (a.toList :: b :: t) = a ++ "/" ++ joinPath (b :: t) := by
  rw [joinPath, List.intercalate_cons_cons, String.ofList_append, String.ofList_append,
    String.ofList_toList]
  rfl

theorem joinPath_five (a b c d e : String) : joinPath ([a, b, c, d, e].map String.toList) =
    a ++ "/" ++ b ++ "/" ++ c ++ "/" ++ d ++ "/" ++ e := by
  simp only [List.map_cons, List.map_nil, joinPath_cons_cons, joinPath_singleton, String.append_assoc]

theorem asBytes_joinPath (parts : List String) :
    asBytes (joinPath (parts.map String.toList)) = [SLASH].intercalate (parts.map asBytes) := by
  induction parts with
  | nil => rfl
  | cons a t ih =>
    cases t with
    | nil =>
      simp only [List.map_cons, List.map_nil, List.intercalate_singleton, joinPath_singleton]
    | cons b t =>
      simp only [List.map_cons, List.intercalate_cons_cons, joinPath_cons_cons, asBytes_append] at ih ⊢
      rw [ih]
      rfl

theorem relative_eq_asBytes {p : List Name} {parts : List String}
    (h : p.map Name.bytes = parts.map asBytes) :
    relative p = asBytes (joinPath (parts.map String.toList)) := by
  rw [relative, h, asBytes_joinPath]

theorem splitPath_parts {parts : List String} (h : ∀ p ∈ parts, '/' ∉ p.toList) (hne : parts ≠ []) :
    splitPath (joinPath (parts.map String.toList)) = parts := by
  have hfree : ∀ p ∈ parts.map String.toList, '/' ∉ p := by
    intro p hp
    obtain ⟨q, hq, rfl⟩ := List.mem_map.mp hp
    exact h q hq
  rw [splitPath_joinPath hfree (by simpa using hne), List.map_map]
  simp [Function.comp_def]

theorem slash_notMem_uuid (u : Uuid) : '/' ∉ u.hyphenated.toList :=
  slash_notMem_of_isNameChar (isNameChar_uuid u)

theorem slash_notMem_uuidJson (u : Uuid) : '/' ∉ (u.hyphenated ++ ".json").toList := by
  rw [String.toList_append, List.mem_append]
  exact not_or.mpr ⟨slash_notMem_uuid u, by decide⟩

theorem slash_notMem_domain (domain : DomainId) : '/' ∉ domain.asStr.toList :=
  slash_notMem_of_isNameChar (isNameChar_token domain).1

/-- A path that starts below neither of the legacy roots. -/
def InJournal (path : String) : Prop :=
  startsWith path "events/" = false ∧ path ≠ "events" ∧ startsWith path "batches/" = false ∧
    path ≠ "batches"

theorem inJournal_append (rest : String) : InJournal ("journal/" ++ rest) := by
  have hlist : ("journal/" ++ rest).toList = "journal/".toList ++ rest.toList := String.toList_append
  refine ⟨?_, ?_, ?_, ?_⟩
  · rw [startsWith, hlist]
    simp [List.isPrefixOf]
  · intro h
    rw [h] at hlist
    simp at hlist
  · rw [startsWith, hlist]
    simp [List.isPrefixOf]
  · intro h
    rw [h] at hlist
    simp at hlist

theorem classifyPath_records {path : String} (h : InJournal path)
    (hrecords : startsWith path "journal/records/" = true) (hvalid : validateJournalRecordPath path = true) :
    classifyPath (asBytes path) = .journalRecord := by
  obtain ⟨h₁, h₂, h₃, h₄⟩ := h
  rw [classifyPath, fromUtf8_asBytes]
  simp only [h₁, h₂, h₃, h₄, hrecords, hvalid, if_true, if_false, Bool.false_eq_true]

theorem classifyPath_batches {path : String} (h : InJournal path)
    (hrecords : startsWith path "journal/records/" = false)
    (hbatches : startsWith path "journal/batches/" = true) (hvalid : validJournalBatch path = true) :
    classifyPath (asBytes path) = .journalBatch := by
  obtain ⟨h₁, h₂, h₃, h₄⟩ := h
  rw [classifyPath, fromUtf8_asBytes]
  simp only [h₁, h₂, h₃, h₄, hrecords, hbatches, hvalid, if_true, if_false, Bool.false_eq_true]

/-- A directory is judged by its parts. -/
theorem validCanonicalDirectory_parts (p : List Name) (parts : List String)
    (hp : p.map Name.bytes = parts.map asBytes) (h : ∀ s ∈ parts, '/' ∉ s.toList) (hne : parts ≠ []) :
    ∃ path, fromUtf8 (relative p) = some path ∧ splitPath path = parts :=
  ⟨_, by rw [relative_eq_asBytes hp, fromUtf8_asBytes], splitPath_parts h hne⟩

theorem validCanonicalDirectory_domain (domain : DomainId) :
    validCanonicalDirectory (relative [.journal, .records, domainName domain]) = true := by
  obtain ⟨path, hpath, hsplit⟩ := validCanonicalDirectory_parts
    [.journal, .records, domainName domain] ["journal", "records", domain.asStr] rfl
    (by
      simp only [List.mem_cons, List.not_mem_nil, or_false, forall_eq_or_imp, forall_eq]
      exact ⟨by decide, by decide, slash_notMem_domain _⟩) (by simp)
  rw [validCanonicalDirectory, hpath]
  simp only [hsplit, decide_true, Bool.true_and]
  exact parses_toText domain

theorem validCanonicalDirectory_entity (domain : DomainId) (entity : EntityId) :
    validCanonicalDirectory
      (relative [.journal, .records, domainName domain, uuidName entity.uuid]) = true := by
  obtain ⟨path, hpath, hsplit⟩ := validCanonicalDirectory_parts
    [.journal, .records, domainName domain, uuidName entity.uuid]
    ["journal", "records", domain.asStr, entity.display] rfl
    (by
      simp only [List.mem_cons, List.not_mem_nil, or_false, forall_eq_or_imp, forall_eq]
      exact ⟨by decide, by decide, slash_notMem_domain _, slash_notMem_uuid _⟩) (by simp)
  rw [validCanonicalDirectory, hpath]
  simp only [hsplit, decide_true, Bool.true_and, Bool.and_eq_true]
  exact ⟨parses_toText domain, parses_toText entity⟩

theorem validCanonicalDirectory_records :
    validCanonicalDirectory (relative [.journal, .records]) = true := by
  obtain ⟨path, hpath, hsplit⟩ := validCanonicalDirectory_parts
    [.journal, .records] ["journal", "records"] rfl (by decide) (by simp)
  rw [validCanonicalDirectory, hpath]
  simp [hsplit]

theorem validCanonicalDirectory_batches :
    validCanonicalDirectory (relative [.journal, .batches]) = true := by
  obtain ⟨path, hpath, hsplit⟩ := validCanonicalDirectory_parts
    [.journal, .batches] ["journal", "batches"] rfl (by decide) (by simp)
  rw [validCanonicalDirectory, hpath]
  simp [hsplit]

private theorem recordsPrefix_eq : "journal/records/" = "journal/" ++ "records/" := by decide

private theorem batchesPrefix_eq : "journal/batches/" = "journal/" ++ "batches/" := by decide

private theorem append_two {p q r : String} (h : p = q ++ r) (a b : String) :
    p ++ a ++ b = q ++ (r ++ (a ++ b)) := by
  rw [h]
  simp only [String.append_assoc]

private theorem append_split {p q r : String} (h : p = q ++ r) (a b c d e f : String) :
    p ++ a ++ b ++ c ++ d ++ e ++ f = q ++ (r ++ (a ++ b ++ c ++ d ++ e ++ f)) := by
  rw [h]
  simp only [String.append_assoc]

section

variable [Jiff]

/-- Where a record stands, by components. -/
def Record.key (record : Record) : List Name :=
  [.journal, .records, domainName record.domain, uuidName record.entityId.uuid,
    uuidJsonName record.recordId.uuid]

def Record.parts (record : Record) : List String :=
  ["journal", "records", record.domain.asStr, record.entityId.display,
    record.recordId.display ++ ".json"]

namespace Record

variable (record : Record)

theorem canonicalPath_eq : record.canonicalPath = joinPath (record.parts.map String.toList) := by
  have hbelow : "journal" ++ "/" ++ "records" ++ "/" = "journal/records/" := by decide
  rw [parts, joinPath_five, hbelow]
  exact String.append_assoc

theorem slash_notMem_parts : ∀ p ∈ record.parts, '/' ∉ p.toList := by
  simp only [parts, List.mem_cons, List.not_mem_nil, or_false, forall_eq_or_imp, forall_eq]
  exact ⟨by decide, by decide, slash_notMem_domain _, slash_notMem_uuid _, slash_notMem_uuidJson _⟩

theorem splitPath_canonicalPath : splitPath record.canonicalPath = record.parts := by
  rw [canonicalPath_eq]
  exact splitPath_parts record.slash_notMem_parts (by simp [parts])

theorem relative_key : relative record.key = asBytes record.canonicalPath := by
  rw [canonicalPath_eq]
  exact relative_eq_asBytes rfl

theorem canonicalPath_append : ∃ rest, record.canonicalPath = "journal/" ++ ("records/" ++ rest) := by
  refine ⟨record.domain.asStr ++ "/" ++ record.entityId.display ++ "/" ++ record.recordId.display ++
    ".json", ?_⟩
  unfold canonicalPath
  exact append_split recordsPrefix_eq ..

theorem validateJournalRecordPath_canonicalPath : validateJournalRecordPath record.canonicalPath = true := by
  rw [validateJournalRecordPath, record.splitPath_canonicalPath]
  simp only [parts, stripJson_append, Option.any_some, decide_true, Bool.true_and, Bool.and_eq_true]
  exact ⟨⟨parses_toText record.domain, parses_toText record.entityId⟩, parses_toText record.recordId⟩

theorem classifyPath_canonicalPath : classifyPath (asBytes record.canonicalPath) = .journalRecord := by
  have hvalid := record.validateJournalRecordPath_canonicalPath
  obtain ⟨rest, hrest⟩ := record.canonicalPath_append
  rw [hrest] at hvalid ⊢
  refine classifyPath_records (inJournal_append _) ?_ hvalid
  rw [startsWith, String.toList_append, String.toList_append]
  simp [List.isPrefixOf]

end Record

end

def BatchManifest.key (manifest : BatchManifest) : List Name :=
  [.journal, .batches, uuidJsonName manifest.batchId.uuid]

theorem BatchManifest.canonicalPath_append (manifest : BatchManifest) :
    manifest.canonicalPath = "journal/" ++ ("batches/" ++ (manifest.batchId.display ++ ".json")) := by
  unfold canonicalPath
  exact append_two batchesPrefix_eq ..

theorem BatchManifest.relative_key (manifest : BatchManifest) :
    relative manifest.key = asBytes manifest.canonicalPath := by
  have hrel : relative manifest.key =
      asBytes (joinPath (["journal", "batches", manifest.batchId.display ++ ".json"].map String.toList)) :=
    relative_eq_asBytes rfl
  have hjournal : "journal" ++ "/" = "journal/" := by decide
  have hbatches : "batches" ++ "/" = "batches/" := by decide
  rw [hrel, canonicalPath_append, List.map_cons, List.map_cons, List.map_cons, List.map_nil,
    joinPath_cons_cons, joinPath_cons_cons, joinPath_singleton, hjournal, hbatches]

theorem BatchManifest.splitPath_canonicalPath (manifest : BatchManifest) :
    splitPath manifest.canonicalPath = ["journal", "batches", manifest.batchId.display ++ ".json"] := by
  obtain ⟨path, hpath, hsplit⟩ := validCanonicalDirectory_parts manifest.key
    ["journal", "batches", manifest.batchId.display ++ ".json"] rfl
    (by
      simp only [List.mem_cons, List.not_mem_nil, or_false, forall_eq_or_imp, forall_eq]
      exact ⟨by decide, by decide, slash_notMem_uuidJson _⟩) (by simp)
  rw [manifest.relative_key, fromUtf8_asBytes] at hpath
  cases hpath
  exact hsplit

theorem BatchManifest.validJournalBatch_canonicalPath (manifest : BatchManifest) :
    validJournalBatch manifest.canonicalPath = true := by
  rw [validJournalBatch, manifest.splitPath_canonicalPath]
  simp only [stripJson_append, Option.any_some, decide_true, Bool.true_and]
  exact parses_toText manifest.batchId

theorem BatchManifest.classifyPath_canonicalPath (manifest : BatchManifest) :
    classifyPath (asBytes manifest.canonicalPath) = .journalBatch := by
  have hvalid := manifest.validJournalBatch_canonicalPath
  rw [canonicalPath_append] at hvalid ⊢
  refine classifyPath_batches (inJournal_append _) ?_ ?_ hvalid
  · rw [startsWith, String.toList_append, String.toList_append]
    simp [List.isPrefixOf]
  · rw [startsWith, String.toList_append, String.toList_append]
    simp [List.isPrefixOf]

end Wayjournal
