import Mathlib.Data.List.SplitBy
import Wayjournal.Collections.Grouping
import Wayjournal.Federation.AdditionCodec
import Wayjournal.Store.SorterLaws

namespace Wayjournal

open Collections Fs Text

/-- A location that was written and can be read. -/
def Location.Fits (location : Location) : Prop := location.offset < 256 ^ 8 ∧ location.length < 256 ^ 4

theorem decodeLocation_encode {location : Location} (h : location.Fits) : decodeLocation location.encode = .ok location := by
  have hlength : location.encode.length = 12 := by simp [Location.encode]
  have htake : location.encode.take 8 = beBytes 8 location.offset :=
    List.take_left' (length_beBytes 8 location.offset)
  have hdrop : location.encode.drop 8 = beBytes 4 location.length :=
    List.drop_left' (length_beBytes 8 location.offset)
  rw [decodeLocation, if_neg (not_not.mpr hlength), htake, hdrop, fromBeBytes_beBytes h.1, fromBeBytes_beBytes h.2]

/-- A file that stands in the payloads at its location. -/
structure PlacedAt (payloads : Bytes) (placed : RawFile × Location) : Prop where
  length : placed.2.length = placed.1.bytes.length
  within : placed.2.offset + placed.2.length ≤ payloads.length
  bytes : (payloads.drop placed.2.offset).take placed.2.length = placed.1.bytes

theorem PlacedAt.append {payloads : Bytes} {placed : RawFile × Location} (h : PlacedAt payloads placed) (more : Bytes) :
    PlacedAt (payloads ++ more) placed := by
  refine ⟨h.length, ?_, ?_⟩
  · rw [List.length_append]
    exact h.within.trans (Nat.le_add_right _ _)
  · have hoffset : placed.2.offset ≤ payloads.length := (Nat.le_add_right _ _).trans h.within
    have hlength : placed.2.length ≤ (payloads.drop placed.2.offset).length := by
      rw [List.length_drop]
      have := h.within
      omega
    rw [List.drop_append_of_le_length hoffset, List.take_append_of_le_length hlength]
    exact h.bytes

namespace CanonicalReplayBuilder

def entryOf (placed : RawFile × Location) : Fact := (placed.1.path, placed.2.encode)

/-- The builder holds these files. -/
structure Builds (builder : CanonicalReplayBuilder) (placed : List (RawFile × Location)) : Prop where
  sorts : builder.entries.Sorts (placed.map entryOf)
  placed : ∀ p ∈ placed, PlacedAt builder.payloads p
  total : builder.payloads.length = builder.totalBytes
  bounded : builder.totalBytes ≤ MAX_TOTAL_CANONICAL_BYTES

theorem builds_new : Builds replayBuilder [] :=
  ⟨ExternalSorter.sorts_new, fun _ h => absurd h List.not_mem_nil, rfl, Nat.zero_le _⟩

theorem Builds.push {builder : CanonicalReplayBuilder} {placed : List (RawFile × Location)} (h : builder.Builds placed)
    (file : RawFile) :
    Ensures (builder.push file) (fun pushed => ∃ location, pushed.Builds (placed ++ [(file, location)])) := by
  unfold CanonicalReplayBuilder.push
  split
  · refine .guard fun _ => .guard fun htotal => .skip fun _ => ?_
    refine .bind (h.sorts.push _) fun entries hentries => .pure ⟨⟨builder.payloads.length, file.bytes.length⟩, ?_⟩
    constructor
    · rw [List.map_append]
      exact hentries
    · intro p hp
      obtain hp | hp := List.mem_append.mp hp
      · exact (h.placed p hp).append _
      · obtain rfl := List.mem_singleton.mp hp
        refine ⟨rfl, ?_, ?_⟩
        · rw [List.length_append]
        · rw [List.drop_left, List.take_length]
    · rw [List.length_append, h.total]
    · exact Nat.not_lt.mp htotal
  · exact .throw _

theorem Builds.foldlM {files : List RawFile} :
    Ensures (files.foldlM CanonicalReplayBuilder.push replayBuilder) (fun builder =>
      ∃ placed, placed.map Prod.fst = files ∧ builder.Builds placed) := by
  refine .foldlM (fun done (builder : CanonicalReplayBuilder) => ∃ placed, placed.map Prod.fst = done ∧ builder.Builds placed) ⟨[], rfl, builds_new⟩ ?_
  rintro done file builder - ⟨placed, rfl, hbuilder⟩
  refine (hbuilder.push file).mono ?_
  rintro pushed ⟨location, hpushed⟩
  exact ⟨placed ++ [(file, location)], by simp, hpushed⟩

/-- What the cursor over the finished builder yields are the files, in order. -/
theorem Builds.finish {builder : CanonicalReplayBuilder} {placed : List (RawFile × Location)} (h : builder.Builds placed) :
    Ensures builder.finish (fun replay => ∃ files, replay.cursor = .ok files ∧ files.Perm placed) := by
  refine .bind h.sorts.finish fun entries hentries => .skip fun _ => .pure ?_
  have hread : ∀ p ∈ placed, (do
      let location ← decodeLocation (entryOf p).2
      return ((⟨(entryOf p).1, CanonicalReplay.readAt ⟨builder.payloads, entries⟩ location⟩ : RawFile), location)) =
        (.ok p : Except StoreError _) := by
    intro p hp
    have hplaced := h.placed p hp
    have hfits : p.2.Fits := by
      have hwithin := hplaced.within
      have hbounded := h.bounded
      rw [h.total] at hwithin
      rw [MAX_TOTAL_CANONICAL_BYTES] at hbounded
      exact ⟨by omega, by omega⟩
    rw [entryOf, decodeLocation_encode hfits]
    exact congrArg Except.ok (Prod.ext (congrArg (RawFile.mk p.1.path) hplaced.bytes) rfl)
  have hall : List.Forall₂ (fun entry p => (do
      let location ← decodeLocation entry.2
      return ((⟨entry.1, CanonicalReplay.readAt ⟨builder.payloads, entries⟩ location⟩ : RawFile), location)) =
        (.ok p : Except StoreError _)) (placed.map entryOf) placed := by
    rw [List.forall₂_map_left_iff, List.forall₂_same]
    exact hread
  obtain ⟨files, hfiles, hperm⟩ := List.perm_comp_forall₂ hentries.2 hall
  exact ⟨files, mapM_eq_ok.mpr hfiles, hperm⟩

end CanonicalReplayBuilder

section

variable [Jiff]

/-- The manifest of a file of that class. -/
def replayedManifest (file : RawFile) : Option BatchManifest :=
  if classifyPath file.path = .journalBatch then (decodeManifestFile file).toOption else none

theorem ensures_collectFile {registry : DomainRegistry} {collector : ReplayCollector} {facts : List Fact}
    (h : collector.idempotency.Sorts facts) (file : RawFile × Location) :
    Ensures (collectFile registry collector file) (fun collected =>
      collected.idempotency.Sorts (facts ++ (replayedManifest file.1).toList.map idempotencyFact)) := by
  refine .skip fun revision => ?_
  rw [replayedManifest]
  split
  · rename_i hclass
    rw [hclass, if_neg (by decide), Option.toList_none, List.map_nil, List.append_nil]
    exact .pure h
  · rename_i hclass
    rw [hclass, if_neg (by decide), Option.toList_none, List.map_nil, List.append_nil]
    exact .pure h
  · rename_i hclass
    rw [hclass, if_pos rfl]
    refine .bind (Ensures.lift fun manifest hmanifest => hmanifest) fun manifest hmanifest => ?_
    rw [hmanifest]
    refine .bind (h.push _) fun idempotency hidempotency => .skip fun _ => .skip fun _ => .pure ?_
    exact hidempotency
  · rename_i hclass
    rw [hclass, if_neg (by decide), Option.toList_none, List.map_nil, List.append_nil]
    exact .skip fun _ => .skip fun _ => .skip fun _ => .pure h
  · exact .throw _
  · exact .throw _

/-- The idempotency facts of a replay are those of its manifests, in order. -/
theorem ensures_collectFacts {registry : DomainRegistry} {files : List (RawFile × Location)} :
    Ensures (collectFacts registry files) (fun collected => SortedFacts collected.2.idempotency ∧
      collected.2.idempotency.Perm ((files.filterMap (fun file => replayedManifest file.1)).map idempotencyFact)) := by
  refine .via (fun collector : ReplayCollector => collector.idempotency.Sorts
    ((files.filterMap (fun file => replayedManifest file.1)).map idempotencyFact)) ?_ fun collector hcollector => ?_
  · have hnew : ReplayCollector.new.idempotency.Sorts [] := ExternalSorter.sorts_new
    refine .foldlM (fun (done : List (RawFile × Location)) (collector : ReplayCollector) => collector.idempotency.Sorts
      ((done.filterMap (fun file => replayedManifest file.1)).map idempotencyFact)) hnew ?_
    intro done file collector _ hdone
    refine (ensures_collectFile hdone file).mono fun collected hcollected => ?_
    rw [List.filterMap_append, List.map_append]
    cases hmanifest : replayedManifest file.1 with
    | none => simpa [hmanifest] using hcollected
    | some manifest => simpa [hmanifest] using hcollected
  · refine .skip fun _ => .skip fun _ => .bind hcollector.finish fun idempotency hidempotency => ?_
    exact .skip fun _ => .skip fun _ => .pure hidempotency

end

theorem eq_map_singleton {α : Type} {groups : List (List α)} (h : ∀ group ∈ groups, ∃ a, group = [a]) :
    groups = groups.flatten.map ([·]) := by
  induction groups with
  | nil => rfl
  | cons group r ih =>
    obtain ⟨⟨a, rfl⟩, hr⟩ := List.forall_mem_cons.mp h
    rw [List.flatten_cons, List.map_append, ← ih hr]
    rfl

theorem keys_strict {facts : List Fact} (hsorted : SortedFacts facts) (hchain : facts.IsChain (fun a b => a.1 ≠ b.1)) :
    (facts.map Prod.fst).Pairwise (· < ·) := by
  induction facts with
  | nil => exact List.Pairwise.nil
  | cons a r ih =>
    obtain ⟨hle, hr⟩ := List.pairwise_cons.mp hsorted
    have hkeys := ih hr hchain.tail
    rw [List.map_cons, List.pairwise_cons]
    refine ⟨fun key hkey => ?_, hkeys⟩
    cases r with
    | nil => cases hkey
    | cons b r =>
      have hab : a.1 < b.1 := by
        have hne := (List.isChain_cons_cons.mp hchain).1
        have hlex := hle b List.mem_cons_self
        rw [Prod.Lex.toLex_le_toLex] at hlex
        obtain hlt | ⟨heq, -⟩ := hlex
        · exact hlt
        · exact absurd heq hne
      rw [List.map_cons, List.pairwise_cons] at hkeys
      rw [List.map_cons, List.mem_cons] at hkey
      obtain rfl | hkey := hkey
      · exact hab
      · exact hab.trans (hkeys.1 key hkey)

/-- Sorted facts whose groups are single have keys of their own. -/
theorem nodup_keys_of_groups {facts : List Fact} (hsorted : SortedFacts facts)
    (hgroups : ∀ group ∈ groupFacts facts, group.length ≤ 1) : (facts.map Prod.fst).Nodup := by
  have hsingle : ∀ group ∈ groupFacts facts, ∃ fact, group = [fact] := by
    intro group hgroup
    have hne : group ≠ [] := List.ne_nil_of_mem_splitBy hgroup
    match group, hne, hgroups group hgroup with
    | [fact], _, _ => exact ⟨fact, rfl⟩
    | fact :: second :: rest, _, hlength => simp at hlength
  have hmap := eq_map_singleton hsingle
  have hchain := List.isChain_getLast_head_splitBy (fun a b : Fact => decide (a.1 = b.1)) facts
  rw [groupFacts, List.flatten_splitBy] at hmap
  rw [hmap, List.isChain_map] at hchain
  refine (keys_strict hsorted (hchain.imp ?_)).imp ne_of_lt
  rintro a b ⟨ha, hb, hne⟩
  exact of_decide_eq_false hne

theorem forM_eq_ok {ε α : Type} {f : α → Except ε Unit} {l : List α} (h : l.forM f = .ok ()) {a : α} (ha : a ∈ l) :
    f a = .ok () := by
  induction l with
  | nil => cases ha
  | cons b r ih =>
    change (f b >>= fun _ => r.forM f) = .ok () at h
    obtain ⟨⟨⟩, hb, hr⟩ := except_bind_eq_ok.mp h
    obtain rfl | ha := List.mem_cons.mp ha
    · exact hb
    · exact ih hr ha

theorem nodup_of_validateDuplicateIdempotency {facts : List Fact} (hsorted : SortedFacts facts)
    (h : validateDuplicateIdempotency facts = .ok ()) : (facts.map Prod.fst).Nodup := by
  refine nodup_keys_of_groups hsorted fun group hgroup => ?_
  have hgroup := forM_eq_ok h hgroup
  obtain ⟨batchIds, hids, hcheck⟩ := except_bind_eq_ok.mp hgroup
  have hlength := (mapM_eq_ok.mp hids).length_eq
  rw [hlength]
  by_contra hlong
  rw [if_pos (by omega)] at hcheck
  cases hcheck

end Wayjournal
