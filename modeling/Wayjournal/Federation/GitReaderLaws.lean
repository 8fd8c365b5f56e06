import Mathlib.Data.Bool.AllAny
import Mathlib.Data.List.TakeWhile
import Wayjournal.Collections.SelfDelimiting
import Wayjournal.Control.Except
import Wayjournal.Federation.GitReader
import Wayjournal.Federation.TornRoots
import Wayjournal.Federation.TreeLaws
import Wayjournal.Json.Length

namespace Wayjournal.GitReader

open Control BufRead Collections

section Records

variable {ρ ε : Type} [BufRead ρ UInt8] {fail : FramingProblem → ε} {d : UInt8} {limit : Nat} {record piece : Bytes} {r : ρ}

/-- The first delimiter of the stream lies in the chunk at hand, or the chunk has none. -/
theorem chunk_cases (d : UInt8) (r : ρ) :
    (∃ a tail, d ∉ a ∧ unread r = a ++ d :: tail ∧ (fillBuf r).1.findIdx? (· == d) = some a.length ∧
        (fillBuf r).1.take a.length = a ∧ unread (consume (a.length + 1) (fillBuf r).2) = tail) ∨
      ((fillBuf r).1.findIdx? (· == d) = none ∧ d ∉ (fillBuf r).1 ∧
        ∃ tail, unread r = (fillBuf r).1 ++ tail ∧ unread (consume (fillBuf r).1.length (fillBuf r).2) = tail) := by
  obtain ⟨tail, htail, hconsume⟩ := unread_eq r
  by_cases hmem : d ∈ (fillBuf r).1
  · left
    obtain ⟨a, b, hab, ha⟩ := List.eq_append_cons_of_mem hmem
    have hlength : a.length + 1 ≤ (fillBuf r).1.length := by
      rw [hab, List.length_append, List.length_cons]
      omega
    refine ⟨a, b ++ tail, ha, ?_, ?_, ?_, ?_⟩
    · rw [htail, hab, List.append_assoc, List.cons_append]
    · rw [hab, List.findIdx?_append, List.findIdx?_eq_none_iff.mpr fun x hx => ?_, List.findIdx?_cons]
      · simp
      · exact beq_eq_false_iff_ne.mpr fun h => ha (h ▸ hx)
    · rw [hab, List.take_left]
    · rw [hconsume _ hlength, hab, List.append_cons, List.drop_left' (by simp)]
  · right
    refine ⟨List.findIdx?_eq_none_iff.mpr fun x hx => ?_, hmem, tail, htail, ?_⟩
    · exact beq_eq_false_iff_ne.mpr fun h => hmem (h ▸ hx)
    · rw [hconsume _ le_rfl, List.drop_length, List.nil_append]

/-- A stream from its first delimiter on. -/
def ending (d : UInt8) : Option Bytes → Bytes
  | none => []
  | some rest => d :: rest

/-- The piece before the first delimiter, and what reading it comes to. -/
def Framed (fail : FramingProblem → ε) (limit : Nat) (piece : Bytes) (rest : Option Bytes)
    (result : Except ε (Option Bytes × ρ)) : Prop :=
  if limit < piece.length then result = .error (fail .tooLong)
  else
    match rest with
    | some rest => ∃ r', result = .ok (some piece, r') ∧ unread r' = rest
    | none => if piece = [] then ∃ r', result = .ok (none, r') ∧ unread r' = [] else result = .error (fail .truncated)

/-- A chunk without a delimiter lies before the first one. -/
theorem piece_of_chunk {chunk tail : Bytes} {rest : Option Bytes} (hmem : d ∉ chunk) (h : chunk ++ tail = piece ++ ending d rest) :
    ∃ more, piece = chunk ++ more ∧ tail = more ++ ending d rest := by
  obtain ⟨more, hpiece, hrest⟩ | ⟨more, hchunk, hrest⟩ := List.append_eq_append_iff.mp h
  · exact ⟨more, hpiece, hrest⟩
  · cases more with
    | nil => exact ⟨[], by rw [hchunk, List.append_nil, List.append_nil], hrest.symm⟩
    | cons b more =>
      cases rest with
      | none => cases hrest
      | some rest =>
        obtain ⟨rfl, -⟩ := List.cons.inj hrest
        exact absurd (hchunk ▸ List.mem_append_right _ List.mem_cons_self) hmem

theorem framed_readRecord {rest : Option Bytes} (hd : d ∉ piece) (hr : unread r = piece ++ ending d rest)
    (hrecord : record.length ≤ limit) :
    Framed fail limit (record ++ piece) rest (readRecord fail d limit record r) := by
  induction hn : (unread r).length using Nat.strong_induction_on generalizing r record piece with
  | _ n ih =>
    subst hn
    rw [readRecord]
    by_cases hend : (fillBuf r).1 = []
    · rw [dif_pos hend]
      rw [fillBuf_eq_nil.mp hend, eq_comm, List.append_eq_nil_iff] at hr
      obtain ⟨rfl, hrest⟩ := hr
      cases rest with
      | some rest => cases hrest
      | none =>
        rw [Framed, List.append_nil, if_neg (not_lt.mpr hrecord)]
        cases record with
        | nil => exact ⟨_, rfl, by rw [unread_fillBuf, fillBuf_eq_nil.mp hend]⟩
        | cons b record => rfl
    · rw [dif_neg hend]
      obtain ⟨a, tail, ha, htail, hposition, htake, hconsume⟩ | ⟨hposition, hmem, tail, htail, hconsume⟩ := chunk_cases d r
      · rw [hposition]
        dsimp only
        rw [htail] at hr
        cases rest with
        | none => exact absurd (by rw [ending, List.append_nil] at hr; rw [← hr]; simp) hd
        | some rest =>
          obtain ⟨rfl, rfl⟩ := SelfDelimiting.terminated d a ha piece hd tail rest (by simpa [ending] using hr)
          unfold Framed
          rw [List.length_append, htake]
          split
          · rfl
          · exact ⟨_, rfl, hconsume⟩
      · obtain ⟨more, rfl, hmore⟩ := piece_of_chunk hmem (htail.symm.trans hr)
        rw [hposition]
        dsimp only
        split
        · rename_i hlong
          unfold Framed
          rw [if_pos (by rw [List.length_append, List.length_append]; omega)]
        · rename_i hfits
          have hpos := List.length_pos_of_ne_nil hend
          have hless : (unread (consume (fillBuf r).1.length (fillBuf r).2)).length < (unread r).length := by
            rw [hconsume, htail, List.length_append]
            omega
          rw [← List.append_assoc]
          exact ih _ hless (fun h => hd (List.mem_append_right _ h)) (hconsume.trans hmore)
            (by rw [List.length_append]; omega) rfl

end Records

section Streams

variable {ρ ε : Type} [BufRead ρ UInt8] {fail : FramingProblem → ε} {d : UInt8} {limit : Nat} {r : ρ}

/-- The records of a stream that are read: those that a delimiter ends, up to one that is too long. -/
def records (d : UInt8) (limit : Nat) (stream : Bytes) : List Bytes :=
  (stream.splitOn d).dropLast.takeWhile (·.length ≤ limit)

/-- A record too long, or one at the end that nothing ends. -/
def problem (d : UInt8) (limit : Nat) (stream : Bytes) : Option FramingProblem :=
  if ∃ record ∈ stream.splitOn d, limit < record.length then some .tooLong
  else if (stream.splitOn d).getLastD [] = [] then none
  else some .truncated

theorem splitOn_cases (d : UInt8) (stream : Bytes) :
    ∃ piece rest, d ∉ piece ∧ stream = piece ++ ending d rest ∧
      stream.splitOn d = piece :: (rest.map (·.splitOn d)).getD [] := by
  by_cases h : d ∈ stream
  · obtain ⟨piece, rest, rfl, hd⟩ := List.eq_append_cons_of_mem h
    exact ⟨piece, some rest, hd, rfl, List.splitOn_append_cons_self_of_not_mem hd rest⟩
  · exact ⟨stream, none, h, (List.append_nil _).symm, List.splitOn_eq_singleton h⟩

section Pieces

variable {stream piece : Bytes} {pieces : List Bytes}

theorem records_of_long (h : stream.splitOn d = piece :: pieces) (hlong : limit < piece.length) : records d limit stream = [] := by
  rw [records, h]
  cases pieces with
  | nil => rfl
  | cons p pieces => rw [List.dropLast_cons_cons, List.takeWhile_cons_of_neg (by simpa using hlong)]

theorem problem_of_long (h : stream.splitOn d = piece :: pieces) (hlong : limit < piece.length) :
    problem d limit stream = some .tooLong := by
  rw [problem, h, if_pos ⟨piece, List.mem_cons_self, hlong⟩]

theorem records_of_fits (h : stream.splitOn d = piece :: pieces) (hpieces : pieces ≠ []) (hfits : piece.length ≤ limit) :
    records d limit stream = piece :: pieces.dropLast.takeWhile (·.length ≤ limit) := by
  rw [records, h, List.dropLast_cons_of_ne_nil hpieces, List.takeWhile_cons_of_pos (by simpa using hfits)]

theorem problem_of_fits {rest : Bytes} (h : stream.splitOn d = piece :: rest.splitOn d) (hfits : piece.length ≤ limit) :
    problem d limit stream = problem d limit rest := by
  have hlast : (piece :: rest.splitOn d).getLastD [] = (rest.splitOn d).getLastD [] := by
    rw [List.getLastD_eq_getLast?, List.getLastD_eq_getLast?, List.getLast?_cons_of_ne_nil (List.splitOn_ne_nil d rest)]
  rw [problem, problem, h, hlast]
  simp only [List.mem_cons, exists_eq_or_imp, not_lt.mpr hfits, false_or]

theorem intercalate_append_nil (l : List Bytes) : [d].intercalate (l ++ [[]]) = l.flatMap (· ++ [d]) := by
  induction l with
  | nil => rfl
  | cons x l ih =>
    rw [List.cons_append, List.intercalate_cons_of_ne_nil (by simp), ih, List.flatMap_cons]

/-- A stream without a problem is its records, each with the delimiter that ends it. -/
theorem stream_eq_records (h : problem d limit stream = none) : stream = (records d limit stream).flatMap (· ++ [d]) := by
  unfold problem at h
  split at h
  · cases h
  · rename_i hfits
    split at h
    · rename_i hlast
      have hne := List.splitOn_ne_nil d stream
      rw [List.getLastD_eq_getLast?, List.getLast?_eq_some_getLast hne, Option.getD_some] at hlast
      have hrecords : records d limit stream = (stream.splitOn d).dropLast := by
        refine List.takeWhile_eq_self_iff.mpr fun piece hpiece => decide_eq_true (not_lt.mp fun hlong => ?_)
        exact hfits ⟨piece, List.dropLast_subset _ hpiece, hlong⟩
      have hpieces : (stream.splitOn d).dropLast ++ [[]] = stream.splitOn d := hlast ▸ List.dropLast_append_getLast hne
      rw [hrecords, ← intercalate_append_nil, hpieces, List.intercalate_splitOn]
    · cases h

end Pieces

/-- A reader is drained of the records of its stream, however the stream is cut. -/
theorem drains_readRecord (fail : FramingProblem → ε) (d : UInt8) (limit : Nat) (r : ρ) :
    Drains (readRecord fail d limit []) r (records d limit (unread r)) ((problem d limit (unread r)).map fail) := by
  induction hn : (unread r).length using Nat.strong_induction_on generalizing r with
  | _ n ih =>
    subst hn
    obtain ⟨piece, rest, hd, hr, hsplit⟩ := splitOn_cases d (unread r)
    have hframed : Framed fail limit ([] ++ piece) rest (readRecord fail d limit [] r) :=
      framed_readRecord hd hr (Nat.zero_le limit)
    rw [List.nil_append] at hframed
    unfold Framed at hframed
    split at hframed
    · rename_i hlong
      rw [records_of_long hsplit hlong, problem_of_long hsplit hlong]
      exact .failed hframed
    · rename_i hfits
      rw [not_lt] at hfits
      cases rest with
      | none =>
        rw [Option.map_none, Option.getD_none] at hsplit
        have hrecords : records d limit (unread r) = [] := by rw [records, hsplit]; rfl
        have hproblem : problem d limit (unread r) = if piece = [] then none else some .truncated := by
          rw [problem, hsplit, if_neg (by simpa using hfits)]
          rfl
        rw [hrecords, hproblem]
        dsimp only at hframed
        split at hframed
        · rename_i hnil
          obtain ⟨r', hresult, -⟩ := hframed
          rw [if_pos hnil]
          exact .done hresult
        · rename_i hne
          rw [if_neg hne]
          exact .failed hframed
      | some rest =>
        obtain ⟨r', hresult, rfl⟩ := hframed
        rw [Option.map_some, Option.getD_some] at hsplit
        rw [records_of_fits hsplit (List.splitOn_ne_nil _ _) hfits, problem_of_fits hsplit hfits]
        refine .more hresult (ih _ ?_ r' rfl)
        rw [hr, ending, List.length_append, List.length_cons]
        omega

end Streams

section Responses

variable {ρ : Type} [BufRead ρ UInt8] {r : ρ} {request : CatFileRequest} {length : Nat} {rest : Bytes}

/-- A reader and the rest of its stream in the place of each other. -/
def Agrees (result : Except GitAdmissionError (Bytes × ρ)) : Except ResponseProblem (Bytes × Bytes) → Prop
  | .ok (bytes, rest) => ∃ r', result = .ok (bytes, r') ∧ unread r' = rest
  | .error problem => result = .error (hostileSnapshotError BLOB_BATCH (problemMessage problem))

theorem readSnapshotExact_of_le (h : length ≤ (unread r).length) (operation message : String) :
    ∃ r', readSnapshotExact length operation message r = .ok ((unread r).take length, r') ∧ unread r' = (unread r).drop length := by
  obtain ⟨r', hread, hr'⟩ := readExact_of_le h
  exact ⟨r', by rw [readSnapshotExact, hread], hr'⟩

theorem readSnapshotExact_of_lt (h : (unread r).length < length) (operation message : String) :
    readSnapshotExact length operation message r = .error (hostileSnapshotError operation message) := by
  rw [readSnapshotExact, readExact_of_lt h]

theorem takeWhile_ending {piece : Bytes} {rest : Option Bytes} {d : UInt8} (hd : d ∉ piece) :
    (piece ++ ending d rest).takeWhile (· ≠ d) = piece := by
  have hpiece : ∀ b ∈ piece, decide (b ≠ d) = true := fun b hb => decide_eq_true fun h => hd (h ▸ hb)
  rw [List.takeWhile_append_of_pos hpiece]
  cases rest <;> simp [ending]

theorem agrees_readBlob (length byteLimit : Nat) (r : ρ) :
    Agrees (readBlob length byteLimit r) (do
      if length > byteLimit then throw (.hostile "cat-file blob exceeds byte limit")
      if (unread r).length < length then throw (.incomplete "cat-file blob ended before its declared length")
      let terminator :: rest := (unread r).drop length | throw (.incomplete "cat-file blob ended before its terminator")
      if terminator ≠ NEWLINE then throw (.hostile "cat-file blob has an invalid terminator")
      return ((unread r).take length, rest)) := by
  unfold readBlob
  by_cases hlimit : length > byteLimit
  · rw [if_pos hlimit, if_pos hlimit]
    rfl
  rw [if_neg hlimit, if_neg hlimit]
  by_cases hshort : (unread r).length < length
  · rw [if_pos hshort, readSnapshotExact_of_lt hshort]
    rfl
  obtain ⟨r₂, hread, hr₂⟩ := readSnapshotExact_of_le (not_lt.mp hshort) BLOB_BATCH
    "cat-file blob ended before its declared length"
  rw [if_neg hshort, hread, ok_bind, ← hr₂]
  dsimp only
  cases hend : unread r₂ with
  | nil =>
    rw [readSnapshotExact_of_lt (by rw [hend]; exact Nat.one_pos)]
    rfl
  | cons b rest =>
    have hone : 1 ≤ (unread r₂).length := by
      rw [hend, List.length_cons]
      omega
    obtain ⟨r₃, hterminator, hr₃⟩ := readSnapshotExact_of_le hone BLOB_BATCH "cat-file blob ended before its terminator"
    rw [hend, List.take_succ_cons, List.take_zero] at hterminator
    rw [hterminator, ok_bind]
    by_cases hb : b = NEWLINE
    · subst hb
      exact ⟨r₃, rfl, by rw [hr₃, hend]; rfl⟩
    · have hbs : [b] ≠ [NEWLINE] := fun h => hb (List.singleton_inj.mp h)
      dsimp only
      rw [if_pos hbs, if_pos hb]
      rfl

/-- Reading a response from chunks is reading it from the whole stream. -/
theorem agrees_readCatFileResponse (request : CatFileRequest) (r : ρ) :
    Agrees (readCatFileResponse request r) (Wayjournal.readCatFileResponse (unread r) request.expected request.byteLimit) := by
  obtain ⟨piece, rest, hd, hr, -⟩ := splitOn_cases NEWLINE (unread r)
  have hframed : Framed (fun problem => hostileSnapshotError BLOB_BATCH (framingMessage "cat-file ended inside a response header"
      "cat-file response header exceeds byte limit" problem)) HEADER_LIMIT ([] ++ piece) rest
      (readSnapshotDelimitedRecord NEWLINE HEADER_LIMIT BLOB_BATCH "cat-file ended inside a response header"
        "cat-file response header exceeds byte limit" r) := framed_readRecord hd hr (Nat.zero_le _)
  rw [List.nil_append] at hframed
  unfold readCatFileResponse Wayjournal.readCatFileResponse
  rw [hr, takeWhile_ending hd]
  dsimp only
  rw [List.drop_left]
  unfold Framed at hframed
  split at hframed
  · rename_i hlong
    rw [if_pos hlong, hframed]
    rfl
  · rename_i hfits
    rw [if_neg hfits]
    cases rest with
    | none =>
      dsimp only at hframed
      split at hframed
      · rename_i hnil
        subst hnil
        obtain ⟨r', hresult, -⟩ := hframed
        rw [hresult]
        rfl
      · rename_i hne
        rw [hframed]
        cases piece with
        | nil => exact absurd rfl hne
        | cons b piece => rfl
    | some rest =>
      obtain ⟨r', hresult, rfl⟩ := hframed
      rw [hresult]
      rw [ok_bind]
      dsimp only [ending]
      unfold parseHeader
      dsimp only
      by_cases hmatch : (decide ((List.splitOn SPACE piece).getD 0 [] ≠ asBytes request.expected.hex) ||
            decide ((List.splitOn SPACE piece).getD 1 [] ≠ asBytes "blob") ||
          decide ((List.splitOn SPACE piece).length > 3)) = true
      · rw [if_pos hmatch, if_pos hmatch]
        rfl
      rw [if_neg hmatch, if_neg hmatch]
      cases hlength : parseBlobLength ((List.splitOn SPACE piece).getD 2 []) with
      | error problem => rfl
      | ok length =>
        rw [show Except.mapError (fun problem => hostileSnapshotError BLOB_BATCH (problemMessage problem))
          (Except.ok length) = .ok length from rfl, ok_bind, ok_bind]
        exact agrees_readBlob length request.byteLimit r'

/-- What `cat-file --batch` writes for a blob. -/
def catFileResponse (oid : GitOid) (blob : Bytes) : Bytes :=
  [SPACE].intercalate [asBytes oid.hex, asBytes "blob", Json.decimal blob.length] ++ NEWLINE :: (blob ++ [NEWLINE])

theorem parseDecimal_map {digits : List Nat} (hne : digits ≠ []) (h : ∀ x ∈ digits, x < 10) :
    parseDecimal (digits.map Json.digitByte) = some (digits.foldl (fun a x => a * 10 + x) 0) := by
  have hall : (digits.map Json.digitByte).all (fun b => 0x30 ≤ b.toNat && b.toNat ≤ 0x39) = true := by
    rw [List.all_map, List.all_eq_true]
    intro x hx
    exact Json.isDigit_digitByte (h x hx)
  have hempty : (digits.map Json.digitByte).isEmpty = false := by
    cases digits with
    | nil => exact absurd rfl hne
    | cons x xs => rfl
  rw [parseDecimal, hempty, hall, Bool.false_or, Bool.not_true, if_neg Bool.false_ne_true, List.foldl_map]
  congr 1
  refine List.foldl_ext _ _ _ fun a x hx => ?_
  rw [Json.toNat_digitByte (h x hx), Nat.add_sub_cancel_left]

theorem parseBlobLength_decimal {n : Nat} (h : n < 2 ^ 64) : parseBlobLength (Json.decimal n) = .ok n := by
  obtain ⟨digit, digits, hdecimal, hdigits, hvalue, hzero, hpositive⟩ := Json.decimal_spec h
  have hcanonical : ¬ ((Json.decimal n).length > 1 && (Json.decimal n).head? = some 0x30) = true := by
    rw [hdecimal, Bool.and_eq_true, decide_eq_true_eq, decide_eq_true_eq]
    rintro ⟨hlong, hhead⟩
    have hd : (Json.digitByte digit).toNat = 48 := congrArg UInt8.toNat (Option.some.inj hhead)
    rw [Json.toNat_digitByte (hdigits digit List.mem_cons_self)] at hd
    by_cases hn : n = 0
    · rw [hzero hn] at hlong
      exact absurd hlong (by decide)
    · exact hpositive hn (by omega)
  rw [parseBlobLength, if_neg hcanonical, hdecimal, parseDecimal_map (by simp) hdigits, hvalue]
  exact if_pos h

theorem byte_decimal {n : Nat} {b : UInt8} (h : n < 2 ^ 64) (hb : b ∈ Json.decimal n) : 0x20 < b.toNat := by
  obtain ⟨digit, digits, hdecimal, hdigits, -⟩ := Json.decimal_spec h
  rw [hdecimal] at hb
  obtain ⟨x, hx, rfl⟩ := List.mem_map.mp hb
  rw [Json.toNat_digitByte (hdigits x hx)]
  omega

/-- The fields of a header hold neither spaces nor line ends. -/
theorem byte_header {oid : GitOid} {n : Nat} (h : n < 2 ^ 64) {field : Bytes}
    (hfield : field ∈ [asBytes oid.hex, asBytes "blob", Json.decimal n]) {b : UInt8} (hb : b ∈ field) : 0x20 < b.toNat := by
  simp only [List.mem_cons, List.not_mem_nil, or_false] at hfield
  obtain rfl | rfl | rfl := hfield
  · exact GitOid.byte_hex hb
  · have hall : (asBytes "blob").all (fun b => decide (0x20 < b.toNat)) = true := by decide
    exact List.all_iff_forall_prop.mp hall b hb
  · exact byte_decimal h hb

theorem length_header_le (oid : GitOid) (n : Nat) :
    ([SPACE].intercalate [asBytes oid.hex, asBytes "blob", Json.decimal n]).length ≤ HEADER_LIMIT := by
  have hdecimal := Json.length_decimal_le n
  have hhex : (asBytes oid.hex).length ≤ 64 := by
    have hname : ∀ c ∈ oid.hex.toList, isNameChar c = true := fun c hc =>
      isNameChar_of_isLowerHex (List.all_eq_true.mp oid.lower c hc)
    rw [asBytes, Json.utf8, encode_nameChars hname, List.length_map, oid.length_eq]
    cases oid.format <;> decide
  have hblob : (asBytes "blob").length = 4 := by decide
  simp only [List.intercalate_cons_cons, List.intercalate_singleton, List.length_append, List.length_singleton, hblob]
  change _ ≤ 256
  omega

/-- The response to a request is read as its blob, whatever the blob holds. -/
theorem readCatFileResponse_append {oid : GitOid} {blob : Bytes} {limit : Nat} (rest : Bytes) (hlimit : blob.length ≤ limit)
    (husize : limit < 2 ^ 64) :
    Wayjournal.readCatFileResponse (catFileResponse oid blob ++ rest) oid limit = .ok (blob, rest) := by
  have hn : blob.length < 2 ^ 64 := lt_of_le_of_lt hlimit husize
  have hline : NEWLINE ∉ [SPACE].intercalate [asBytes oid.hex, asBytes "blob", Json.decimal blob.length] := fun h => by
    obtain h | ⟨field, hfield, h⟩ := mem_intercalate h
    · exact absurd h (by decide)
    · exact absurd (byte_header hn hfield h) (by decide)
  have hsplit : ([SPACE].intercalate [asBytes oid.hex, asBytes "blob", Json.decimal blob.length]).splitOn SPACE =
      [asBytes oid.hex, asBytes "blob", Json.decimal blob.length] :=
    List.splitOn_intercalate SPACE (fun field hfield h => absurd (byte_header hn hfield h) (by decide)) (by simp)
  have hlength := length_header_le oid blob.length
  unfold Wayjournal.readCatFileResponse catFileResponse
  rw [List.append_assoc, List.cons_append]
  rw [show NEWLINE :: (blob ++ [NEWLINE] ++ rest) = ending NEWLINE (some (blob ++ [NEWLINE] ++ rest)) from rfl]
  rw [takeWhile_ending hline]
  dsimp only
  rw [List.drop_left, if_neg (not_lt.mpr hlength)]
  dsimp only [ending]
  rw [hsplit]
  have hsize : [asBytes oid.hex, asBytes "blob", Json.decimal blob.length].getD 2 [] = Json.decimal blob.length := rfl
  rw [if_neg (by simp), hsize, parseBlobLength_decimal hn, ok_bind, if_neg (not_lt.mpr hlimit), List.append_assoc,
    if_neg (by simp), List.drop_left, List.take_left]
  rfl

/-- A request of a batch and the blob that answers it, within the limit that it asks for. -/
structure Answer where
  request : CatFileRequest
  blob : Bytes
  within : blob.length ≤ request.byteLimit
  usize : request.byteLimit < 2 ^ 64

def Answer.response (answer : Answer) : Bytes := catFileResponse answer.request.expected answer.blob

theorem readCatFileResponses_ok (answers : List Answer) {r : ρ} {rest : Bytes}
    (hr : unread r = answers.flatMap Answer.response ++ rest) :
    ∃ r', readCatFileResponses (answers.map Answer.request) r = .ok (answers.map Answer.blob, r') ∧ unread r' = rest := by
  induction answers generalizing r with
  | nil => exact ⟨r, rfl, hr⟩
  | cons answer answers ih =>
    rw [List.flatMap_cons, List.append_assoc] at hr
    have hagrees := agrees_readCatFileResponse answer.request r
    rw [hr, Answer.response, readCatFileResponse_append _ answer.within answer.usize] at hagrees
    obtain ⟨r₁, hresponse, hr₁⟩ := hagrees
    obtain ⟨r', hresponses, hr'⟩ := ih hr₁
    refine ⟨r', ?_, hr'⟩
    rw [List.map_cons, readCatFileResponses, hresponse, ok_bind]
    dsimp only
    rw [hresponses, ok_bind]
    rfl

/-- What comes of a stream depends on the stream alone and not on how a reader cuts it into chunks. -/
theorem stream_framing_independent_of_buffering (r : ρ) :
    (∀ delimiter limit operation truncatedMessage limitMessage,
      Drains (readDelimitedRecord delimiter limit operation truncatedMessage limitMessage) r
        (records delimiter limit (unread r))
        ((problem delimiter limit (unread r)).map fun problem =>
          ioFailure operation (framingMessage truncatedMessage limitMessage problem))) ∧
    (∀ delimiter limit operation truncatedMessage limitMessage,
      Drains (readSnapshotDelimitedRecord delimiter limit operation truncatedMessage limitMessage) r
        (records delimiter limit (unread r))
        ((problem delimiter limit (unread r)).map fun problem =>
          hostileSnapshotError operation (framingMessage truncatedMessage limitMessage problem))) ∧
    (∀ delimiter limit, problem delimiter limit (unread r) = none →
      unread r = (records delimiter limit (unread r)).flatMap (· ++ [delimiter])) ∧
    ∀ (answers : List Answer) (rest : Bytes), unread r = answers.flatMap Answer.response ++ rest →
      ∃ r', readCatFileResponses (answers.map Answer.request) r = .ok (answers.map Answer.blob, r') ∧ unread r' = rest :=
  ⟨fun _ _ _ _ _ => drains_readRecord _ _ _ r, fun _ _ _ _ _ => drains_readRecord _ _ _ r,
    fun _ _ h => stream_eq_records h, fun answers _ hr => readCatFileResponses_ok answers hr⟩

namespace Sample

/-- A blob that looks like the end of a response and the header of another. -/
def answer : Answer where
  request := ⟨Wayjournal.Sample.oid 1, 16⟩
  blob := asBytes "a\n11 blob 2\n"
  within := by decide +kernel
  usize := by decide

def reader : Chunks UInt8 := .singles answer.response

end Sample

/-- The response is read although every byte comes on its own. -/
theorem response_byte_by_byte :
    ∃ r', readCatFileResponses [Sample.answer.request] Sample.reader = .ok ([Sample.answer.blob], r') ∧ unread r' = [] := by
  refine (stream_framing_independent_of_buffering Sample.reader).2.2.2 [Sample.answer] [] ?_
  rw [Sample.reader, Chunks.unread_singles, List.append_nil, List.flatMap_cons, List.flatMap_nil, List.append_nil]

end Responses

end Wayjournal.GitReader
