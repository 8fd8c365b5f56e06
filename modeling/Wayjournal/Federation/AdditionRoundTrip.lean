import Wayjournal.Federation.AdditionCodec

namespace Wayjournal

open Collections Text

section Take

variable {bytes rest : Bytes}

theorem take_append (bytes rest : Bytes) : take (bytes ++ rest) bytes.length = .ok (bytes, rest) := by
  rw [take, if_neg (by rw [List.length_append]; omega), List.take_left, List.drop_left]

theorem takeNat_append {width n : Nat} (h : n < 256 ^ width) (rest : Bytes) :
    takeNat (beBytes width n ++ rest) width = .ok (n, rest) := by
  have htake := take_append (beBytes width n) rest
  rw [length_beBytes] at htake
  rw [takeNat, htake]
  exact congrArg (fun n => Except.ok (n, rest)) (fromBeBytes_beBytes h)

theorem takeDigest_append (d : Digest) (rest : Bytes) : takeDigest (d.toBytes ++ rest) = .ok (d, rest) := by
  have htake := take_append d.toBytes rest
  rw [d.length_toBytes] at htake
  rw [takeDigest, htake, ok_bind]
  dsimp only
  rw [d.ofBytes_toBytes]
  rfl

theorem takeNat_lt {width n : Nat} (h : takeNat bytes width = .ok (n, rest)) : n < 256 ^ width := by
  obtain ⟨⟨value, tail⟩, htake, h⟩ := except_bind_eq_ok.mp h
  cases h
  rw [take] at htake
  split at htake
  · cases htake
  · cases htake
    refine lt_of_lt_of_le (fromBeBytes_lt _) (Nat.pow_le_pow_right (by omega) ?_)
    exact List.length_take_le _ _

end Take

section Chunk

variable {entries : List AdditionEntry} {previous : Option Bytes} {bytes body : Bytes} {number : Nat}

/-- The length of a blob is a number of eight bytes. -/
def AdditionEntry.Wide (entry : AdditionEntry) : Prop := entry.byteLength < 2 ^ 64

def additionBytes (entry : AdditionEntry) : Bytes :=
  beBytes 2 entry.path.length ++ entry.path ++ beBytes 8 entry.byteLength ++ entry.contentDigest.toBytes

theorem encodeEntries_cons {entry : AdditionEntry} (h : encodeEntries previous (entry :: entries) = .ok body) :
    additionPathOk previous entry.path = true ∧
      ∃ rest, encodeEntries (some entry.path) entries = .ok rest ∧ body = additionBytes entry ++ rest := by
  rw [encodeEntries] at h
  split at h
  · rename_i hpath
    obtain ⟨rest, hrest, h⟩ := except_bind_eq_ok.mp h
    cases h
    exact ⟨hpath, rest, hrest, rfl⟩
  · cases h

theorem length_of_additionPathOk {path : Bytes} (h : additionPathOk previous path = true) : 0 < path.length ∧ path.length ≤ 223 := by
  rw [additionPathOk] at h
  simp only [Bool.and_eq_true, decide_eq_true_eq, Bool.not_eq_true', List.isEmpty_eq_false_iff] at h
  exact ⟨List.length_pos_of_ne_nil h.1.1.1.1, h.1.1.1.2⟩

theorem decodeEntries_append (h : encodeEntries previous entries = .ok body) (hwide : ∀ entry ∈ entries, entry.Wide) (tail : Bytes) :
    decodeEntries entries.length (body ++ tail) = .ok (entries, tail) := by
  induction entries generalizing previous body with
  | nil =>
    cases h
    rfl
  | cons entry entries ih =>
    obtain ⟨hpath, rest, hrest, rfl⟩ := encodeEntries_cons h
    obtain ⟨hentry, hentries⟩ := List.forall_mem_cons.mp hwide
    obtain ⟨hpos, hle⟩ := length_of_additionPathOk hpath
    have hlength : entry.path.length < 256 ^ 2 := by omega
    rw [List.length_cons, decodeEntries, additionBytes]
    simp only [List.append_assoc]
    refine except_bind_eq_ok.mpr ⟨_, takeNat_append hlength _, guard_bind_eq_ok.mpr ⟨?_, ?_⟩⟩
    · simp only [Bool.or_eq_true, decide_eq_true_eq]
      rw [MAX_CANONICAL_PATH_BYTES]
      omega
    · refine except_bind_eq_ok.mpr ⟨_, take_append _ _, except_bind_eq_ok.mpr ⟨_, takeNat_append hentry _, ?_⟩⟩
      refine except_bind_eq_ok.mpr ⟨_, takeDigest_append _ _, except_bind_eq_ok.mpr ⟨_, ih hrest hentries, rfl⟩⟩

theorem wide_of_decodeEntries {count : Nat} {rest : Bytes} (h : decodeEntries count bytes = .ok (entries, rest)) :
    ∀ entry ∈ entries, entry.Wide := by
  induction count generalizing bytes entries with
  | zero =>
    cases h
    exact fun _ h => absurd h List.not_mem_nil
  | succ count ih =>
    rw [decodeEntries] at h
    obtain ⟨⟨pathLength, bytes₁⟩, -, h⟩ := except_bind_eq_ok.mp h
    obtain ⟨-, h⟩ := guard_bind_eq_ok.mp h
    obtain ⟨⟨path, bytes₂⟩, -, h⟩ := except_bind_eq_ok.mp h
    obtain ⟨⟨byteLength, bytes₃⟩, hlength, h⟩ := except_bind_eq_ok.mp h
    obtain ⟨⟨digest, bytes₄⟩, -, h⟩ := except_bind_eq_ok.mp h
    obtain ⟨⟨others, bytes₅⟩, hothers, h⟩ := except_bind_eq_ok.mp h
    cases h
    exact List.forall_mem_cons.mpr ⟨takeNat_lt hlength, ih hothers⟩

/-- The first bytes of a chunk. -/
def chunkHeader (number count : Nat) : Bytes :=
  ADDITION_MAGIC ++ beBytes 4 number ++ beBytes 4 count ++ List.replicate 27 0

theorem length_chunkHeader (number count : Nat) : (chunkHeader number count).length = ADDITION_HEADER_BYTES := by
  have hmagic : ADDITION_MAGIC.length = 29 := by decide
  simp only [chunkHeader, List.length_append, length_beBytes, List.length_replicate, hmagic, ADDITION_HEADER_BYTES]

theorem encodeChunk_eq_ok : encodeChunk number entries = .ok bytes ↔ number < MAX_ADDITION_CHUNKS ∧ entries ≠ [] ∧
    entries.length ≤ ADDITIONS_PER_CHUNK ∧ ∃ body, encodeEntries none entries = .ok body ∧
      bytes = chunkHeader number entries.length ++ body ∧ bytes.length ≤ MAX_CHUNK_BYTES := by
  have hpad : ADDITION_HEADER_BYTES - (ADDITION_MAGIC ++ beBytes 4 number ++ beBytes 4 entries.length).length = 27 := by
    have hmagic : ADDITION_MAGIC.length = 29 := by decide
    simp only [List.length_append, length_beBytes, hmagic, ADDITION_HEADER_BYTES]
  rw [encodeChunk, guard_bind_eq_ok]
  simp only [Bool.or_eq_true, decide_eq_true_eq, List.isEmpty_iff, not_or, Nat.not_le, Nat.not_lt, hpad, except_bind_eq_ok,
    guard_bind_eq_ok, pure_eq_ok, gt_iff_lt, ge_iff_le]
  constructor
  · rintro ⟨⟨⟨hnumber, hne⟩, hcount⟩, body, hbody, hlength, rfl⟩
    exact ⟨hnumber, hne, hcount, body, hbody, rfl, hlength⟩
  · rintro ⟨hnumber, hne, hcount, body, hbody, rfl, hlength⟩
    exact ⟨⟨⟨hnumber, hne⟩, hcount⟩, body, hbody, hlength, rfl⟩

/-- What was encoded is decoded. -/
theorem decodeChunk_of_encodeChunk (h : encodeChunk number entries = .ok bytes) (hwide : ∀ entry ∈ entries, entry.Wide) :
    decodeChunk bytes = .ok (number, entries) := by
  obtain ⟨hnumber, hne, hcount, body, hbody, rfl, hlength⟩ := encodeChunk_eq_ok.mp h
  have hheader := length_chunkHeader number entries.length
  have hmagic : ADDITION_MAGIC.length = 29 := by decide
  have htake : (chunkHeader number entries.length ++ body).take ADDITION_HEADER_BYTES = chunkHeader number entries.length :=
    List.take_left' hheader
  have hdrop : (chunkHeader number entries.length ++ body).drop ADDITION_HEADER_BYTES = body := List.drop_left' hheader
  have hname : (chunkHeader number entries.length).take ADDITION_MAGIC.length = ADDITION_MAGIC := by
    rw [chunkHeader, List.append_assoc, List.append_assoc, List.take_left]
  have hafter : (chunkHeader number entries.length).drop ADDITION_MAGIC.length =
      beBytes 4 number ++ (beBytes 4 entries.length ++ List.replicate 27 0) := by
    rw [chunkHeader, List.append_assoc, List.append_assoc, List.drop_left]
  have hcounted : (chunkHeader number entries.length).drop (ADDITION_MAGIC.length + 4) = beBytes 4 entries.length ++ List.replicate 27 0 := by
    rw [← List.drop_drop, hafter, List.drop_left' (length_beBytes ..)]
  have hzeros : (chunkHeader number entries.length).drop (ADDITION_MAGIC.length + 8) = List.replicate 27 0 := by
    rw [show ADDITION_MAGIC.length + 8 = ADDITION_MAGIC.length + 4 + 4 from rfl, ← List.drop_drop, hcounted,
      List.drop_left' (length_beBytes ..)]
  have hmaxChunks : MAX_ADDITION_CHUNKS = 245 := rfl
  have hperChunk : ADDITIONS_PER_CHUNK = 4096 := rfl
  have hpos := List.length_pos_of_ne_nil hne
  unfold decodeChunk
  refine guard_bind_eq_ok.mpr ⟨?_, ?_⟩
  · rw [List.length_append, hheader]
    rw [List.length_append, hheader] at hlength
    simp only [Bool.or_eq_true, decide_eq_true_eq]
    omega
  dsimp only
  rw [htake, hname, hzeros, hafter, hcounted, hdrop, List.take_left' (length_beBytes ..), List.take_left' (length_beBytes ..),
    fromBeBytes_beBytes (by omega), fromBeBytes_beBytes (by omega)]
  refine guard_bind_eq_ok.mpr ⟨by decide, guard_bind_eq_ok.mpr ⟨?_, ?_⟩⟩
  · simp only [Bool.or_eq_true, decide_eq_true_eq]
    omega
  · have hentries := decodeEntries_append hbody hwide []
    rw [List.append_nil] at hentries
    refine except_bind_eq_ok.mpr ⟨_, hentries, guard_bind_eq_ok.mpr ⟨by simp, ?_⟩⟩
    exact except_bind_eq_ok.mpr ⟨_, h, guard_bind_eq_ok.mpr ⟨not_not.mpr rfl, rfl⟩⟩

/-- What was decoded is encoded as it was. -/
theorem encodeChunk_of_decodeChunk (h : decodeChunk bytes = .ok (number, entries)) :
    encodeChunk number entries = .ok bytes ∧ ∀ entry ∈ entries, entry.Wide := by
  unfold decodeChunk at h
  obtain ⟨-, h⟩ := guard_bind_eq_ok.mp h
  obtain ⟨-, h⟩ := guard_bind_eq_ok.mp h
  obtain ⟨-, h⟩ := guard_bind_eq_ok.mp h
  obtain ⟨⟨decoded, rest⟩, hdecoded, h⟩ := except_bind_eq_ok.mp h
  obtain ⟨-, h⟩ := guard_bind_eq_ok.mp h
  obtain ⟨canonical, hcanonical, h⟩ := except_bind_eq_ok.mp h
  obtain ⟨heq, h⟩ := guard_bind_eq_ok.mp h
  cases h
  rw [not_not.mp heq] at hcanonical
  exact ⟨hcanonical, wide_of_decodeEntries hdecoded⟩

/-- Canonical paths in their order are encoded, within the bounds of a chunk. -/
theorem encodeEntries_ok (h : List.IsChain (· < ·) (previous.toList ++ entries.map AdditionEntry.path))
    (hpath : ∀ entry ∈ entries, additionPathOk none entry.path = true) :
    ∃ body, encodeEntries previous entries = .ok body ∧ body.length ≤ entries.length * MAX_ENCODED_ADDITION_BYTES := by
  induction entries generalizing previous with
  | nil => exact ⟨[], rfl, Nat.zero_le _⟩
  | cons entry entries ih =>
    obtain ⟨hentry, hentries⟩ := List.forall_mem_cons.mp hpath
    have hok : additionPathOk previous entry.path = true := by
      rw [additionPathOk, Bool.and_eq_true] at hentry ⊢
      refine ⟨hentry.1, ?_⟩
      cases previous with
      | none => rfl
      | some path =>
        rw [Option.toList_some, List.singleton_append, List.map_cons, List.isChain_cons_cons] at h
        exact decide_eq_true h.1
    have htail : List.IsChain (· < ·) ((some entry.path).toList ++ entries.map AdditionEntry.path) := by
      cases previous with
      | none => exact h
      | some path =>
        rw [Option.toList_some, List.singleton_append, List.map_cons, List.isChain_cons_cons] at h
        exact h.2
    obtain ⟨rest, hrest, hlength⟩ := ih htail hentries
    obtain ⟨-, hle⟩ := length_of_additionPathOk hok
    refine ⟨additionBytes entry ++ rest, ?_, ?_⟩
    · rw [encodeEntries, if_pos hok, hrest]
      rfl
    · rw [List.length_append, additionBytes, List.length_cons, Nat.succ_mul]
      simp only [List.length_append, length_beBytes, Digest.length_toBytes]
      rw [MAX_ENCODED_ADDITION_BYTES] at hlength ⊢
      omega

/-- Nothing else is encoded. -/
theorem isChain_of_encodeEntries (h : encodeEntries previous entries = .ok body) :
    List.IsChain (· < ·) (previous.toList ++ entries.map AdditionEntry.path) ∧
      ∀ entry ∈ entries, additionPathOk none entry.path = true := by
  induction entries generalizing previous body with
  | nil =>
    refine ⟨?_, fun _ hmem => by cases hmem⟩
    cases previous with
    | none => exact .nil
    | some path => exact .singleton path
  | cons entry entries ih =>
    obtain ⟨hok, rest, hrest, rfl⟩ := encodeEntries_cons h
    obtain ⟨hchain, hpath⟩ := ih hrest
    rw [additionPathOk, Bool.and_eq_true] at hok
    refine ⟨?_, List.forall_mem_cons.mpr ⟨?_, hpath⟩⟩
    · cases previous with
      | none => exact hchain
      | some path => exact List.isChain_cons_cons.mpr ⟨of_decide_eq_true hok.2, hchain⟩
    · rw [additionPathOk, Bool.and_eq_true]
      exact ⟨hok.1, rfl⟩

theorem encodeChunk_ok (hnumber : number < MAX_ADDITION_CHUNKS) (hne : entries ≠ []) (hcount : entries.length ≤ ADDITIONS_PER_CHUNK)
    (h : List.IsChain (· < ·) (entries.map AdditionEntry.path)) (hpath : ∀ entry ∈ entries, additionPathOk none entry.path = true) :
    ∃ bytes, encodeChunk number entries = .ok bytes := by
  have hchain : List.IsChain (· < ·) (Option.toList none ++ entries.map AdditionEntry.path) := h
  obtain ⟨body, hbody, hlength⟩ := encodeEntries_ok hchain hpath
  refine ⟨_, encodeChunk_eq_ok.mpr ⟨hnumber, hne, hcount, body, hbody, rfl, ?_⟩⟩
  rw [List.length_append, length_chunkHeader, MAX_CHUNK_BYTES]
  have hbound := Nat.mul_le_mul_right MAX_ENCODED_ADDITION_BYTES hcount
  omega

end Chunk

section Index

variable {entries : List IndexEntry} {bytes : Bytes} {count totalBytes : Nat}

/-- The entries are numbered from a number on, and each stands for a chunk. -/
def Numbered : Nat → List IndexEntry → Prop
  | _, [] => True
  | number, entry :: entries => entry.number = number ∧ 0 < entry.count ∧ entry.count ≤ ADDITIONS_PER_CHUNK ∧
    entry.encodedLength < 2 ^ 64 ∧ Numbered (number + 1) entries

def indexEntryBytes (entry : IndexEntry) : Bytes :=
  beBytes 4 entry.number ++ beBytes 4 entry.count ++ beBytes 8 entry.encodedLength ++ entry.digest.toBytes

theorem length_flatMap_indexEntryBytes (entries : List IndexEntry) :
    (entries.flatMap indexEntryBytes).length = entries.length * INDEX_ENTRY_BYTES := by
  induction entries with
  | nil => rfl
  | cons entry entries ih =>
    rw [List.flatMap_cons, List.length_append, ih, List.length_cons, Nat.succ_mul, indexEntryBytes]
    simp only [List.length_append, length_beBytes, Digest.length_toBytes, INDEX_ENTRY_BYTES]
    omega

theorem decodeIndexEntries_append {number : Nat} (h : Numbered number entries) (hnumber : number + entries.length ≤ MAX_ADDITION_CHUNKS) :
    decodeIndexEntries number entries.length (entries.flatMap indexEntryBytes) = .ok entries := by
  induction entries generalizing number with
  | nil => rfl
  | cons entry entries ih =>
    obtain ⟨rfl, hpos, hcount, hlength, hentries⟩ := h
    have hmaxChunks : MAX_ADDITION_CHUNKS = 245 := rfl
    have hperChunk : ADDITIONS_PER_CHUNK = 4096 := rfl
    rw [List.length_cons] at hnumber ⊢
    rw [decodeIndexEntries, List.flatMap_cons, indexEntryBytes]
    simp only [List.append_assoc]
    refine except_bind_eq_ok.mpr ⟨_, takeNat_append (by omega) _, except_bind_eq_ok.mpr ⟨_, takeNat_append (by omega) _, ?_⟩⟩
    refine except_bind_eq_ok.mpr ⟨_, takeNat_append hlength _, except_bind_eq_ok.mpr ⟨_, takeDigest_append _ _, ?_⟩⟩
    refine guard_bind_eq_ok.mpr ⟨?_, except_bind_eq_ok.mpr ⟨_, ih hentries (by omega), rfl⟩⟩
    simp only [Bool.or_eq_true, decide_eq_true_eq]
    omega

theorem numbered_of_decodeIndexEntries {number chunks : Nat} (h : decodeIndexEntries number chunks bytes = .ok entries) :
    Numbered number entries := by
  induction chunks generalizing number bytes entries with
  | zero =>
    cases h
    trivial
  | succ chunks ih =>
    rw [decodeIndexEntries] at h
    obtain ⟨⟨found, bytes₁⟩, -, h⟩ := except_bind_eq_ok.mp h
    obtain ⟨⟨count, bytes₂⟩, -, h⟩ := except_bind_eq_ok.mp h
    obtain ⟨⟨encodedLength, bytes₃⟩, hlength, h⟩ := except_bind_eq_ok.mp h
    obtain ⟨⟨digest, bytes₄⟩, -, h⟩ := except_bind_eq_ok.mp h
    obtain ⟨hentry, h⟩ := guard_bind_eq_ok.mp h
    obtain ⟨others, hothers, h⟩ := except_bind_eq_ok.mp h
    cases h
    simp only [Bool.or_eq_true, decide_eq_true_eq, not_or, ne_eq, not_not] at hentry
    exact ⟨hentry.1.1, Nat.pos_of_ne_zero hentry.1.2, Nat.le_of_not_lt hentry.2, takeNat_lt hlength, ih hothers⟩

/-- The first bytes of an index. -/
def indexHeader (count totalBytes chunks : Nat) : Bytes :=
  INDEX_MAGIC ++ beBytes 8 count ++ beBytes 8 totalBytes ++ beBytes 4 chunks ++ List.replicate 9 0

theorem length_indexHeader (count totalBytes chunks : Nat) : (indexHeader count totalBytes chunks).length = INDEX_HEADER_BYTES := by
  have hmagic : INDEX_MAGIC.length = 35 := by decide
  simp only [indexHeader, List.length_append, length_beBytes, List.length_replicate, hmagic, INDEX_HEADER_BYTES]

theorem encodeIndex_eq_ok : encodeIndex count totalBytes entries = .ok bytes ↔ entries.length ≤ MAX_ADDITION_CHUNKS ∧
    bytes = indexHeader count totalBytes entries.length ++ entries.flatMap indexEntryBytes ∧
      bytes.length ≤ MAX_ADDITION_INDEX_BYTES := by
  have hpad : INDEX_HEADER_BYTES -
      (INDEX_MAGIC ++ beBytes 8 count ++ beBytes 8 totalBytes ++ beBytes 4 entries.length).length = 9 := by
    have hmagic : INDEX_MAGIC.length = 35 := by decide
    simp only [List.length_append, length_beBytes, hmagic, INDEX_HEADER_BYTES]
  rw [encodeIndex, guard_bind_eq_ok]
  simp only [hpad, guard_bind_eq_ok, pure_eq_ok, gt_iff_lt, Nat.not_lt]
  constructor
  · rintro ⟨hcount, hlength, rfl⟩
    exact ⟨hcount, rfl, hlength⟩
  · rintro ⟨hcount, rfl, hlength⟩
    exact ⟨hcount, hlength, rfl⟩

theorem encodeIndex_ok (h : entries.length ≤ MAX_ADDITION_CHUNKS) : ∃ bytes, encodeIndex count totalBytes entries = .ok bytes := by
  refine ⟨_, encodeIndex_eq_ok.mpr ⟨h, rfl, ?_⟩⟩
  rw [List.length_append, length_indexHeader, length_flatMap_indexEntryBytes]
  have hbound := Nat.mul_le_mul_right INDEX_ENTRY_BYTES h
  have hfits : INDEX_HEADER_BYTES + MAX_ADDITION_CHUNKS * INDEX_ENTRY_BYTES ≤ MAX_ADDITION_INDEX_BYTES := by decide
  omega

theorem decodeIndex_of_encodeIndex (h : encodeIndex count totalBytes entries = .ok bytes) (hnumbered : Numbered 0 entries)
    (hcount : count < 2 ^ 64) (htotal : totalBytes < 2 ^ 64) : decodeIndex bytes = .ok (count, totalBytes, entries) := by
  obtain ⟨hchunks, rfl, hlength⟩ := encodeIndex_eq_ok.mp h
  have hheader := length_indexHeader count totalBytes entries.length
  have hbody := length_flatMap_indexEntryBytes entries
  have hmaxChunks : MAX_ADDITION_CHUNKS = 245 := rfl
  have htake : (indexHeader count totalBytes entries.length ++ entries.flatMap indexEntryBytes).take INDEX_HEADER_BYTES =
      indexHeader count totalBytes entries.length := List.take_left' hheader
  have hdrop : (indexHeader count totalBytes entries.length ++ entries.flatMap indexEntryBytes).drop INDEX_HEADER_BYTES =
      entries.flatMap indexEntryBytes := List.drop_left' hheader
  have hname : (indexHeader count totalBytes entries.length ++ entries.flatMap indexEntryBytes).take INDEX_MAGIC.length = INDEX_MAGIC := by
    simp only [indexHeader, List.append_assoc, List.take_left]
  have hafter : (indexHeader count totalBytes entries.length).drop INDEX_MAGIC.length =
      beBytes 8 count ++ (beBytes 8 totalBytes ++ (beBytes 4 entries.length ++ List.replicate 9 0)) := by
    simp only [indexHeader, List.append_assoc, List.drop_left]
  have hsecond : (beBytes 8 count ++ (beBytes 8 totalBytes ++ (beBytes 4 entries.length ++ List.replicate 9 (0 : UInt8)))).drop 8 =
      beBytes 8 totalBytes ++ (beBytes 4 entries.length ++ List.replicate 9 0) := List.drop_left' (length_beBytes ..)
  have hthird : (beBytes 8 count ++ (beBytes 8 totalBytes ++ (beBytes 4 entries.length ++ List.replicate 9 (0 : UInt8)))).drop 16 =
      beBytes 4 entries.length ++ List.replicate 9 0 := by
    rw [show 16 = 8 + 8 from rfl, ← List.drop_drop, hsecond, List.drop_left' (length_beBytes ..)]
  have hzeros : (beBytes 8 count ++ (beBytes 8 totalBytes ++ (beBytes 4 entries.length ++ List.replicate 9 (0 : UInt8)))).drop 20 =
      List.replicate 9 0 := by
    rw [show 20 = 16 + 4 from rfl, ← List.drop_drop, hthird, List.drop_left' (length_beBytes ..)]
  unfold decodeIndex
  refine guard_bind_eq_ok.mpr ⟨?_, guard_bind_eq_ok.mpr ⟨not_not.mpr hname, ?_⟩⟩
  · rw [List.length_append, hheader]
    rw [List.length_append, hheader] at hlength
    simp only [Bool.or_eq_true, decide_eq_true_eq]
    omega
  dsimp only
  rw [htake, hafter, hsecond, hthird, hzeros, hdrop, List.take_left' (length_beBytes ..), List.take_left' (length_beBytes ..),
    List.take_left' (length_beBytes ..), fromBeBytes_beBytes (n := count) hcount,
    fromBeBytes_beBytes (n := totalBytes) htotal, fromBeBytes_beBytes (n := entries.length) (by omega)]
  refine guard_bind_eq_ok.mpr ⟨?_, ?_⟩
  · rw [List.length_append, hheader, hbody]
    simp only [Bool.or_eq_true, decide_eq_true_eq, ne_eq, not_true_eq_false, or_false, not_or]
    exact ⟨by decide, Nat.not_lt.mpr hchunks⟩
  · refine except_bind_eq_ok.mpr ⟨_, decodeIndexEntries_append hnumbered (by omega), except_bind_eq_ok.mpr ⟨_, h, ?_⟩⟩
    exact guard_bind_eq_ok.mpr ⟨not_not.mpr rfl, rfl⟩

theorem encodeIndex_of_decodeIndex (h : decodeIndex bytes = .ok (count, totalBytes, entries)) :
    encodeIndex count totalBytes entries = .ok bytes ∧ Numbered 0 entries := by
  unfold decodeIndex at h
  obtain ⟨-, h⟩ := guard_bind_eq_ok.mp h
  obtain ⟨-, h⟩ := guard_bind_eq_ok.mp h
  obtain ⟨-, h⟩ := guard_bind_eq_ok.mp h
  obtain ⟨decoded, hdecoded, h⟩ := except_bind_eq_ok.mp h
  obtain ⟨canonical, hcanonical, h⟩ := except_bind_eq_ok.mp h
  obtain ⟨heq, h⟩ := guard_bind_eq_ok.mp h
  cases h
  rw [not_not.mp heq] at hcanonical
  exact ⟨hcanonical, numbered_of_decodeIndexEntries hdecoded⟩

theorem totals_of_decodeIndex (h : decodeIndex bytes = .ok (count, totalBytes, entries)) :
    count < 2 ^ 64 ∧ totalBytes < 2 ^ 64 := by
  have hwidth : ∀ part : Bytes, fromBeBytes (part.take 8) < 2 ^ 64 := fun part =>
    lt_of_lt_of_le (fromBeBytes_lt _) (Nat.pow_le_pow_right (by decide) (List.length_take_le _ _))
  unfold decodeIndex at h
  obtain ⟨-, h⟩ := guard_bind_eq_ok.mp h
  obtain ⟨-, h⟩ := guard_bind_eq_ok.mp h
  obtain ⟨-, h⟩ := guard_bind_eq_ok.mp h
  obtain ⟨decoded, -, h⟩ := except_bind_eq_ok.mp h
  obtain ⟨canonical, -, h⟩ := except_bind_eq_ok.mp h
  obtain ⟨-, h⟩ := guard_bind_eq_ok.mp h
  cases h
  exact ⟨hwidth _, hwidth _⟩

end Index

/-- Both formats are exact: what is decoded is what was encoded, and what can be encoded are the chunks of canonical paths
in their order and the indexes, each within its bounds. -/
theorem addition_formats_exact :
    (∀ bytes number entries, decodeChunk bytes = .ok (number, entries) ↔
      encodeChunk number entries = .ok bytes ∧ ∀ entry ∈ entries, entry.Wide) ∧
    (∀ number entries, (∃ bytes, encodeChunk number entries = .ok bytes) ↔
      number < MAX_ADDITION_CHUNKS ∧ entries ≠ [] ∧ entries.length ≤ ADDITIONS_PER_CHUNK ∧
        List.IsChain (· < ·) (entries.map AdditionEntry.path) ∧ ∀ entry ∈ entries, additionPathOk none entry.path = true) ∧
    (∀ bytes count totalBytes entries, decodeIndex bytes = .ok (count, totalBytes, entries) ↔
      encodeIndex count totalBytes entries = .ok bytes ∧ Numbered 0 entries ∧ count < 2 ^ 64 ∧ totalBytes < 2 ^ 64) ∧
    ∀ count totalBytes entries, (∃ bytes, encodeIndex count totalBytes entries = .ok bytes) ↔
      entries.length ≤ MAX_ADDITION_CHUNKS := by
  refine ⟨fun bytes number entries => ?_, fun number entries => ?_, fun bytes count totalBytes entries => ?_,
    fun count totalBytes entries => ?_⟩
  · exact ⟨encodeChunk_of_decodeChunk, fun h => decodeChunk_of_encodeChunk h.1 h.2⟩
  · constructor
    · rintro ⟨bytes, h⟩
      obtain ⟨hnumber, hne, hcount, body, hbody, -⟩ := encodeChunk_eq_ok.mp h
      exact ⟨hnumber, hne, hcount, isChain_of_encodeEntries hbody⟩
    · rintro ⟨hnumber, hne, hcount, hchain, hpath⟩
      exact encodeChunk_ok hnumber hne hcount hchain hpath
  · constructor
    · intro h
      obtain ⟨hencode, hnumbered⟩ := encodeIndex_of_decodeIndex h
      exact ⟨hencode, hnumbered, totals_of_decodeIndex h⟩
    · rintro ⟨hencode, hnumbered, hcount, htotal⟩
      exact decodeIndex_of_encodeIndex hencode hnumbered hcount htotal
  · refine ⟨?_, encodeIndex_ok⟩
    rintro ⟨bytes, h⟩
    exact (encodeIndex_eq_ok.mp h).1

end Wayjournal
