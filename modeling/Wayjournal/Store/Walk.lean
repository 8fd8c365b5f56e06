import Wayjournal.Fs.Subtree
import Wayjournal.Store.VisibleLaws

namespace Wayjournal

open Collections Fs FileSystem Text

/-- The names in the order of the listing, each counted before its visit. -/
def forEachName {σ : Type} (path : StorePath) (limit : Nat) (visit : σ → Name → Except StoreError σ) :
    Nat → List Name → σ → Except StoreError σ
  | _, [], state => .ok state
  | count, name :: names, state => do
    if count + 1 > limit then throw (.invalidLayout path "directory exceeds entry-count limit")
    let state ← visit state name
    forEachName path limit visit (count + 1) names state

section

variable [ReadDir]

/-- The recursion over directories, into the canonical ones only. -/
def collectDirectory (limits : ScanLimits) (fs : FileSystem Name) (dir : List Name)
    (state : VisibleInventory × ScanBudget) : Except StoreError (VisibleInventory × ScanBudget) :=
  forEachName (dir.map Name.bytes) (limits.entries - state.2.entries) (fun state name => do
    match fs.get? (dir ++ [name]) with
    | none =>
      let _ ← state.2.entryWithin limits (dir.map Name.bytes)
      throw (.io "inspect directory entry" ((dir ++ [name]).map Name.bytes) .noent)
    | some e =>
      let state ← collectWithin limits state (dir ++ [name], e)
      if _h : fs.get? (dir ++ [name]) = some .directory ∧ validCanonicalDirectory (relative (dir ++ [name])) = true then
        collectDirectory limits fs (dir ++ [name]) state
      else return state) 0 (ReadDir.order dir (fs.names dir)) state
termination_by fs.depth - dir.length
decreasing_by
  have hdepth := length_le_depth _h.1
  rw [List.length_append, List.length_singleton] at hdepth ⊢
  omega

def collectVisibleInventory (limits : ScanLimits) (disk : Disk) :
    Except StoreError (VisibleInventory × ScanBudget) := do
  let (found, budget) ← canonicalRoots.foldlM
    (fun state root => collectDirectory limits (disk .canonical) [root] state) (⟨[], [], ∅⟩, ⟨0, 0⟩)
  return (⟨sortFiles found.files, found.nonregular.insertionSort (· ≤ ·), found.inventory⟩, budget)

/-- The entries below a directory in the order of the recursion. -/
def walkEntries (fs : FileSystem Name) (dir : List Name) : List (List Name × Entry) :=
  (ReadDir.order dir (fs.names dir)).flatMap fun name =>
    (fs.get? (dir ++ [name])).toList.flatMap fun e => (dir ++ [name], e) ::
      if _h : fs.get? (dir ++ [name]) = some .directory ∧ validCanonicalDirectory (relative (dir ++ [name])) = true then
        walkEntries fs (dir ++ [name])
      else []
termination_by fs.depth - dir.length
decreasing_by
  have hdepth := length_le_depth _h.1
  rw [List.length_append, List.length_singleton] at hdepth ⊢
  omega

end

/-- Both ways of saying that there are too many entries. -/
def asEntryCount : StoreError → StoreError
  | .invalidLayout path reason =>
    if reason = "directory exceeds entry-count limit" then
      .invalidLayout path "canonical store exceeds entry-count limit"
    else .invalidLayout path reason
  | e => e

/-- Below the directory, and otherwise only below canonical ones. -/
def ReachedFrom (dir p : List Name) : Prop :=
  dir <+: p ∧ dir ≠ p ∧
    ∀ q, q <+: p → dir.length < q.length → q ≠ p → validCanonicalDirectory (relative q) = true

theorem ReachedFrom.child {dir p : List Name} {name : Name} (h : ReachedFrom (dir ++ [name]) p)
    (hvalid : validCanonicalDirectory (relative (dir ++ [name])) = true) : ReachedFrom dir p := by
  obtain ⟨hbelow, hne, hall⟩ := h
  refine ⟨(List.prefix_append dir [name]).trans hbelow, ?_, ?_⟩
  · rintro rfl
    have := hbelow.length_le
    simp at this
  · intro q hq hlength hqp
    by_cases heq : q.length = (dir ++ [name]).length
    · rw [(List.prefix_of_prefix_length_le hq hbelow heq.le).eq_of_length heq]
      exact hvalid
    · rw [List.length_append, List.length_singleton] at heq
      exact hall q hq (by rw [List.length_append, List.length_singleton]; omega) hqp

theorem isReached_iff {p : List Name} :
    isReached p = true ↔ ∃ root ∈ canonicalRoots, ReachedFrom [root] p := by
  simp only [isReached, Bool.and_eq_true, decide_eq_true_eq, List.all_eq_true, List.mem_inits, Bool.or_eq_true,
    ReachedFrom]
  constructor
  · rintro ⟨⟨hlength, hroot⟩, hall⟩
    cases p with
    | nil => simp at hlength
    | cons root t =>
      refine ⟨root, by simpa using hroot, by simp, ?_, ?_⟩
      · rintro heq
        rw [← heq] at hlength
        simp at hlength
      · intro q hq hlong hne
        obtain (hshort | hsame) | hvalid := hall q hq
        · rw [List.length_singleton] at hlong
          omega
        · exact absurd (hq.eq_of_length hsame) hne
        · exact hvalid
  · rintro ⟨root, hroot, hbelow, hne, hall⟩
    obtain ⟨t, rfl⟩ := hbelow
    cases t with
    | nil => simp at hne
    | cons a t =>
      refine ⟨⟨by simp, by simpa using hroot⟩, fun q hq => ?_⟩
      by_cases hlong : q.length < 2
      · exact .inl (.inl hlong)
      · by_cases hself : q = [root] ++ a :: t
        · exact .inl (.inr (by rw [hself]))
        · exact .inr (hall q hq (by rw [List.length_singleton]; omega) hself)

/-- A budget that has not run out. -/
structure ScanBudget.Room (limits : ScanLimits) (budget : ScanBudget) : Prop where
  entries : budget.entries ≤ limits.entries
  bytes : budget.bytes ≤ limits.bytes

theorem mapError_bind {ε ε' α β : Type} (f : ε → ε') (x : Except ε α) (k : α → Except ε β) :
    (x >>= k).mapError f = x.mapError f >>= fun a => (k a).mapError f := by
  cases x with
  | error e => rfl
  | ok a => rfl

variable {limits : ScanLimits} {fs : FileSystem Name} {state state' : VisibleInventory × ScanBudget}

theorem mapError_collectWithin (state : VisibleInventory × ScanBudget) (e : List Name × Entry) :
    (collectWithin limits state e).mapError asEntryCount = collectWithin limits state e := by
  obtain ⟨found, budget⟩ := state
  obtain ⟨p, e⟩ := e
  rw [collectWithin]
  simp only [ScanBudget.entryWithin]
  split
  · rfl
  · cases e with
    | directory =>
      simp only [bind, Except.bind]
      split <;> rfl
    | other => rfl
    | regular bytes =>
      simp only [bind, Except.bind]
      split
      · rfl
      · simp only [ScanBudget.reserveWithin]
        by_cases hbytes : bytes.length > limits.bytes - budget.bytes
        · rw [if_pos hbytes]
          rfl
        · rw [if_neg hbytes]
          rfl

theorem budget_foldl_collected (entries : List (List Name × Entry)) (state : VisibleInventory × ScanBudget) :
    (entries.foldl collected state).2 =
      ⟨state.2.entries + entries.length, state.2.bytes + (entries.map (fun e => entrySize e.2)).sum⟩ := by
  induction entries generalizing state with
  | nil => rfl
  | cons e r ih =>
    rw [List.foldl_cons, ih, List.length_cons, List.map_cons, List.sum_cons, collected]
    simp only [ScanBudget.mk.injEq]
    omega

theorem room_collected {entries : List (List Name × Entry)} (hroom : state.2.Room limits)
    (h : entries.foldlM (collectWithin limits) state = .ok state') :
    state'.2.Room limits ∧ state'.2.entries = state.2.entries + entries.length := by
  obtain ⟨hcount, -, hsize, rfl⟩ := (foldlM_collectWithin hroom.entries hroom.bytes).mp h
  rw [budget_foldl_collected]
  exact ⟨⟨hcount, hsize⟩, rfl⟩

/-- A directory's own limit is reached only where that of the store is. -/
theorem mapError_forEachName {dir : List Name} {names : List Name}
    {visit : VisibleInventory × ScanBudget → Name → Except StoreError (VisibleInventory × ScanBudget)}
    {below : Name → List (List Name × Entry)} (hbelow : ∀ name ∈ names, ∃ e r, below name = (dir ++ [name], e) :: r)
    (hvisit : ∀ name ∈ names, ∀ state, state.2.Room limits →
      (visit state name).mapError asEntryCount = (below name).foldlM (collectWithin limits) state)
    {base count : Nat} (hcount : base + count ≤ state.2.entries) (hroom : state.2.Room limits) :
    (forEachName (dir.map Name.bytes) (limits.entries - base) visit count names state).mapError asEntryCount =
      (names.flatMap below).foldlM (collectWithin limits) state := by
  induction names generalizing count state with
  | nil => rfl
  | cons name names ih =>
    obtain ⟨e, r, hname⟩ := hbelow name List.mem_cons_self
    rw [forEachName, List.flatMap_cons, List.foldlM_append]
    by_cases hlimit : count + 1 > limits.entries - base
    · have hfull : state.2.entries + 1 > limits.entries := by omega
      rw [if_pos hlimit, hname, List.foldlM_cons, collectWithin, ScanBudget.entryWithin, if_pos hfull, List.map_append,
        List.map_singleton, List.dropLast_concat]
      rfl
    · rw [if_neg hlimit]
      refine (mapError_bind ..).trans ?_
      rw [hvisit name List.mem_cons_self state hroom]
      cases hrest : (below name).foldlM (collectWithin limits) state with
      | error e => rfl
      | ok next =>
        obtain ⟨hnext, hentries⟩ := room_collected hroom hrest
        rw [hname, List.length_cons] at hentries
        exact ih (fun x hx => hbelow x (List.mem_cons_of_mem _ hx))
          (fun x hx => hvisit x (List.mem_cons_of_mem _ hx)) (by omega) hnext

/-- The scan said that there are too many entries. -/
def StoreError.IsEntryCount (e : StoreError) : Prop :=
  ∃ path, asEntryCount e = .invalidLayout path "canonical store exceeds entry-count limit"

theorem isEntryCount_asEntryCount {e : StoreError} : (asEntryCount e).IsEntryCount ↔ e.IsEntryCount := by
  have hidem : asEntryCount (asEntryCount e) = asEntryCount e := by
    cases e with
    | invalidLayout path reason =>
      rw [asEntryCount]
      by_cases hreason : reason = "directory exceeds entry-count limit"
      · rw [if_pos hreason]
        rfl
      · rw [if_neg hreason, asEntryCount, if_neg hreason]
    | _ => rfl
  rw [StoreError.IsEntryCount, hidem]
  rfl

theorem isEntryCount_of_collectWithin {x : List Name × Entry} {e : StoreError} (hroom : state.2.Room limits)
    (h : collectWithin limits state x = .error e) :
    (e.IsEntryCount ↔ state.2.entries + 1 > limits.entries) ∧
      (FitsLimit x → state.2.bytes + entrySize x.2 ≤ limits.bytes → e.IsEntryCount) := by
  obtain ⟨found, budget⟩ := state
  obtain ⟨p, x⟩ := x
  have hbytes := hroom.bytes
  rw [collectWithin] at h
  simp only [ScanBudget.entryWithin] at h
  split at h
  · rename_i hfull
    cases h
    exact ⟨iff_of_true ⟨_, rfl⟩ hfull, fun _ _ => ⟨_, rfl⟩⟩
  · rename_i hfull
    cases x with
    | directory =>
      simp only [bind, Except.bind] at h
      split at h <;> cases h
    | other => cases h
    | regular bytes =>
      simp only [bind, Except.bind] at h
      split at h
      · rename_i hlong
        cases h
        refine ⟨iff_of_false ?_ hfull, fun hfits => absurd (hfits bytes rfl) (Nat.not_le.mpr hlong)⟩
        rintro ⟨path, hpath⟩
        simp [asEntryCount] at hpath
      · simp only [ScanBudget.reserveWithin] at h
        by_cases hreserve : bytes.length > limits.bytes - budget.bytes
        · rw [if_pos hreserve] at h
          cases h
          refine ⟨iff_of_false ?_ hfull, fun _ hsize => ?_⟩
          · rintro ⟨path, hpath⟩
            simp [asEntryCount] at hpath
          · simp only [entrySize] at hsize
            omega
        · rw [if_neg hreserve] at h
          cases h

theorem isEntryCount_of_foldlM {entries : List (List Name × Entry)} {e : StoreError} (hroom : state.2.Room limits)
    (h : entries.foldlM (collectWithin limits) state = .error e) :
    (e.IsEntryCount → state.2.entries + entries.length > limits.entries) ∧
      ((∀ x ∈ entries, FitsLimit x) →
        state.2.bytes + (entries.map (fun x => entrySize x.2)).sum ≤ limits.bytes → e.IsEntryCount) := by
  induction entries generalizing state with
  | nil => cases h
  | cons x r ih =>
    rw [List.foldlM_cons] at h
    rw [List.length_cons, List.map_cons, List.sum_cons, List.forall_mem_cons]
    cases hfirst : collectWithin limits state x with
    | error e' =>
      rw [hfirst] at h
      cases h
      obtain ⟨hcount, hother⟩ := isEntryCount_of_collectWithin hroom hfirst
      refine ⟨fun he => ?_, fun hfits hsize => hother hfits.1 (by omega)⟩
      have := hcount.mp he
      omega
    | ok next =>
      rw [hfirst] at h
      obtain ⟨hentries, -, hbytes, rfl⟩ := (collectWithin_eq_ok hroom.bytes).mp hfirst
      obtain ⟨hcount, hother⟩ := ih ⟨hentries, hbytes⟩ h
      refine ⟨fun he => ?_, fun hfits hsize => hother hfits.2 ?_⟩
      · have := hcount he
        simp only [collected] at this
        omega
      · simp only [collected]
        omega

theorem inventoryOf_perm {entries entries' : List (List Name × Entry)} (h : entries.Perm entries')
    (hnodup : (entries'.map (fun e => relative e.1)).Nodup) : inventoryOf entries = inventoryOf entries' := by
  rw [inventoryOf, inventoryOf, VisibleInventory.mk.injEq]
  refine ⟨sortFiles_congr (h.filterMap fileOf) (nodup_files hnodup), ?_, BTreeSet.ext_keys fun k => ?_⟩
  · have hperm := ((List.perm_insertionSort (· ≤ ·) _).trans (h.filterMap nonregularOf)).trans
      (List.perm_insertionSort (· ≤ ·) _).symm
    exact hperm.eq_of_pairwise (fun a b _ _ => le_antisymm) (List.pairwise_insertionSort _ _)
      (List.pairwise_insertionSort _ _)
  · simp only [mem_insertEntries, h.mem_iff]

theorem room_zero (limits : ScanLimits) : ScanBudget.Room limits ⟨0, 0⟩ := ⟨Nat.zero_le _, Nat.zero_le _⟩

section

variable [ReadDir]

/-- The entries the recursion takes at one name. -/
def namedEntries (fs : FileSystem Name) (dir : List Name) (name : Name) : List (List Name × Entry) :=
  (fs.get? (dir ++ [name])).toList.flatMap fun e => (dir ++ [name], e) ::
    if fs.get? (dir ++ [name]) = some .directory ∧ validCanonicalDirectory (relative (dir ++ [name])) = true then
      walkEntries fs (dir ++ [name])
    else []

theorem walkEntries_eq (fs : FileSystem Name) (dir : List Name) :
    walkEntries fs dir = (ReadDir.order dir (fs.names dir)).flatMap (namedEntries fs dir) := by
  rw [walkEntries]
  rfl

theorem namedEntries_eq {dir : List Name} {name : Name} {e : Entry} (h : fs.get? (dir ++ [name]) = some e) :
    namedEntries fs dir name = (dir ++ [name], e) ::
      if fs.get? (dir ++ [name]) = some .directory ∧ validCanonicalDirectory (relative (dir ++ [name])) = true then
        walkEntries fs (dir ++ [name])
      else [] := by
  rw [namedEntries, h]
  simp

/-- The recursion takes the entries one after the other. -/
theorem mapError_collectDirectory (dir : List Name) (hroom : state.2.Room limits) :
    (collectDirectory limits fs dir state).mapError asEntryCount =
      (walkEntries fs dir).foldlM (collectWithin limits) state := by
  induction hmeasure : fs.depth - dir.length using Nat.strong_induction_on generalizing dir state with
  | _ measure ih =>
    have hnames : ∀ name ∈ ReadDir.order dir (fs.names dir), ∃ e, fs.get? (dir ++ [name]) = some e :=
      fun name hname => mem_names.mp ((ReadDir.perm _ _).mem_iff.mp hname)
    rw [collectDirectory, walkEntries_eq]
    refine mapError_forEachName ?_ ?_ (Nat.le_refl _) hroom
    · intro name hname
      obtain ⟨e, he⟩ := hnames name hname
      exact ⟨e, _, namedEntries_eq he⟩
    · intro name hname state hroom
      obtain ⟨e, he⟩ := hnames name hname
      have hdepth := length_le_depth he
      rw [List.length_append, List.length_singleton] at hdepth
      rw [namedEntries_eq he, List.foldlM_cons]
      simp only [he]
      rw [mapError_bind, mapError_collectWithin]
      cases hfirst : collectWithin limits state (dir ++ [name], e) with
      | error e => rfl
      | ok next =>
        have hsingle : [(dir ++ [name], e)].foldlM (collectWithin limits) state = .ok next := by
          rw [List.foldlM_cons, hfirst]
          rfl
        have hnext := (room_collected hroom hsingle).1
        change Except.mapError _ _ = List.foldlM _ next _
        by_cases hdir : some e = some .directory ∧ validCanonicalDirectory (relative (dir ++ [name])) = true
        · rw [dif_pos hdir, if_pos hdir]
          refine ih _ ?_ (dir ++ [name]) hnext rfl
          rw [List.length_append, List.length_singleton]
          omega
        · rw [dif_neg hdir, if_neg hdir]
          rfl

theorem mem_walkEntries {dir : List Name} {x : List Name × Entry} :
    x ∈ walkEntries fs dir ↔ fs.get? x.1 = some x.2 ∧ ReachedFrom dir x.1 := by
  induction hmeasure : fs.depth - dir.length using Nat.strong_induction_on generalizing dir with
  | _ measure ih =>
    have hchild : ∀ {name e}, fs.get? (dir ++ [name]) = some e →
        fs.depth - (dir ++ [name]).length < measure := by
      intro name e he
      have hdepth := length_le_depth he
      rw [List.length_append, List.length_singleton] at hdepth ⊢
      omega
    rw [walkEntries_eq, List.mem_flatMap]
    constructor
    · rintro ⟨name, hname, hx⟩
      obtain ⟨e, he⟩ := mem_names.mp ((ReadDir.perm _ _).mem_iff.mp hname)
      rw [namedEntries_eq he, List.mem_cons] at hx
      obtain rfl | hx := hx
      · refine ⟨he, List.prefix_append dir [name], by simp, ?_⟩
        intro q hq hlength hne
        refine absurd (hq.eq_of_length ?_) hne
        have := hq.length_le
        rw [List.length_append, List.length_singleton] at this ⊢
        omega
      · split at hx
        · rename_i hdir
          obtain ⟨hget, hreached⟩ := (ih _ (hchild he) rfl).mp hx
          exact ⟨hget, hreached.child hdir.2⟩
        · cases hx
    · rintro ⟨hget, hbelow, hne, hall⟩
      obtain ⟨t, ht⟩ := hbelow
      cases t with
      | nil => exact absurd (by simpa using ht) hne
      | cons name t =>
        have hbelow : dir ++ [name] <+: x.1 := ⟨t, by rw [← ht]; simp⟩
        have hlength : dir.length < (dir ++ [name]).length := by simp
        by_cases hself : dir ++ [name] = x.1
        · rw [← hself] at hget
          refine ⟨name, (ReadDir.perm _ _).mem_iff.mpr (mem_names.mpr ⟨_, hget⟩), ?_⟩
          rw [namedEntries_eq hget, hself]
          exact List.mem_cons_self
        · have hdir := get?_directory_of_below hget hbelow hself (by simp)
          have hvalid := hall _ hbelow hlength hself
          refine ⟨name, (ReadDir.perm _ _).mem_iff.mpr (mem_names.mpr ⟨_, hdir⟩), ?_⟩
          rw [namedEntries_eq hdir, if_pos ⟨hdir, hvalid⟩]
          refine List.mem_cons_of_mem _ ((ih _ (hchild hdir) rfl).mpr ⟨hget, hbelow, hself, ?_⟩)
          exact fun q hq hlong hqx => hall q hq (hlength.trans hlong) hqx

theorem isPrefix_of_namedEntries {dir : List Name} {name : Name} {x : List Name × Entry}
    (h : x ∈ namedEntries fs dir name) : dir ++ [name] <+: x.1 := by
  rw [namedEntries] at h
  obtain ⟨e, -, hx⟩ := List.mem_flatMap.mp h
  obtain rfl | hx := List.mem_cons.mp hx
  · exact List.prefix_refl _
  · split at hx
    · exact (mem_walkEntries.mp hx).2.1
    · cases hx

theorem nodup_walkEntries (fs : FileSystem Name) (dir : List Name) : (walkEntries fs dir).Nodup := by
  induction hmeasure : fs.depth - dir.length using Nat.strong_induction_on generalizing dir with
  | _ measure ih =>
    rw [walkEntries_eq, List.nodup_flatMap]
    refine ⟨?_, ?_⟩
    · intro name hname
      obtain ⟨e, he⟩ := mem_names.mp ((ReadDir.perm _ _).mem_iff.mp hname)
      have hdepth := length_le_depth he
      rw [List.length_append, List.length_singleton] at hdepth
      rw [namedEntries_eq he, List.nodup_cons]
      split
      · refine ⟨fun hmem => (mem_walkEntries.mp hmem).2.2.1 rfl, ih _ ?_ _ rfl⟩
        rw [List.length_append, List.length_singleton]
        omega
      · exact ⟨List.not_mem_nil, List.nodup_nil⟩
    · refine ((ReadDir.perm _ _).nodup_iff.mpr (fs.nodup_names dir)).imp ?_
      intro a b hab x ha hb
      exact hab (prefix_child_inj (isPrefix_of_namedEntries ha) (isPrefix_of_namedEntries hb))

/-- The walk over the three roots takes every visible entry once. -/
theorem walk_perm_visible (disk : Disk) :
    (canonicalRoots.flatMap (fun root => walkEntries (disk .canonical) [root])).Perm (visibleEntries disk) := by
  refine (List.perm_ext_iff_of_nodup ?_ (nodup_visibleKeys disk).of_map).mpr ?_
  · refine List.nodup_flatMap.mpr ⟨fun root _ => nodup_walkEntries _ _, ?_⟩
    refine List.Pairwise.imp ?_ (show canonicalRoots.Nodup by decide)
    intro a b hab x ha hb
    have ha := (mem_walkEntries.mp ha).2.1
    have hb := (mem_walkEntries.mp hb).2.1
    exact hab (prefix_child_inj (d := []) ha hb)
  · intro x
    simp only [List.mem_flatMap, mem_walkEntries, mem_visibleEntries, isReached_iff]
    constructor
    · rintro ⟨root, hroot, hget, hreached⟩
      exact ⟨hget, root, hroot, hreached⟩
    · rintro ⟨hget, root, hroot, hreached⟩
      exact ⟨root, hroot, hget, hreached⟩

/-- The whole walk, up to the order of what it finds and the wording of its limit. -/
theorem mapError_foldlM_collectDirectory (disk : Disk) (roots : List Name) (hroom : state.2.Room limits) :
    (roots.foldlM (fun state root => collectDirectory limits (disk .canonical) [root] state) state).mapError
        asEntryCount =
      (roots.flatMap (fun root => walkEntries (disk .canonical) [root])).foldlM (collectWithin limits) state := by
  induction roots generalizing state with
  | nil => rfl
  | cons root roots ih =>
    rw [List.foldlM_cons, List.flatMap_cons, List.foldlM_append, mapError_bind, mapError_collectDirectory _ hroom]
    cases hfirst : (walkEntries (disk .canonical) [root]).foldlM (collectWithin limits) state with
    | error e => rfl
    | ok next => exact ih (room_collected hroom hfirst).1

theorem foldlM_collectDirectory_eq_ok {disk : Disk} :
    canonicalRoots.foldlM (fun state root => collectDirectory limits (disk .canonical) [root] state)
        (⟨[], [], ∅⟩, ⟨0, 0⟩) = .ok state' ↔
      (visibleEntries disk).length ≤ limits.entries ∧ (∀ e ∈ visibleEntries disk, FitsLimit e) ∧
        ((visibleEntries disk).map (fun e => entrySize e.2)).sum ≤ limits.bytes ∧
        state' = (canonicalRoots.flatMap (fun root => walkEntries (disk .canonical) [root])).foldl collected
          (⟨[], [], ∅⟩, ⟨0, 0⟩) := by
  have hperm := walk_perm_visible disk
  rw [← mapError_eq_ok (f := asEntryCount), mapError_foldlM_collectDirectory _ _ (room_zero limits),
    foldlM_collectWithin (room_zero limits).entries (room_zero limits).bytes, hperm.length_eq,
    (hperm.map _).sum_nat]
  simp only [hperm.mem_iff, Nat.zero_add]

/-- What the walk finds and counts is what is visible, in whatever order it goes. -/
theorem collectVisibleInventory_eq_ok {disk : Disk} {found : VisibleInventory} {budget : ScanBudget} :
    collectVisibleInventory limits disk = .ok (found, budget) ↔
      (visibleEntries disk).length ≤ limits.entries ∧ (∀ e ∈ visibleEntries disk, FitsLimit e) ∧
        ((visibleEntries disk).map (fun e => entrySize e.2)).sum ≤ limits.bytes ∧
        found = inventoryOf (visibleEntries disk) ∧
        budget = ⟨(visibleEntries disk).length, ((visibleEntries disk).map (fun e => entrySize e.2)).sum⟩ := by
  have hperm := walk_perm_visible disk
  have hinventory := inventoryOf_perm hperm (nodup_visible disk)
  have hlast : ∀ state : VisibleInventory × ScanBudget, state =
      (canonicalRoots.flatMap (fun root => walkEntries (disk .canonical) [root])).foldl collected
        (⟨[], [], ∅⟩, ⟨0, 0⟩) →
      (⟨sortFiles state.1.files, state.1.nonregular.insertionSort (· ≤ ·), state.1.inventory⟩ : VisibleInventory) =
          inventoryOf (visibleEntries disk) ∧
        state.2 = ⟨(visibleEntries disk).length, ((visibleEntries disk).map (fun e => entrySize e.2)).sum⟩ := by
    rintro _ rfl
    rw [← hinventory, foldl_collected, budget_foldl_collected, hperm.length_eq, (hperm.map _).sum_nat]
    simp [inventoryOf]
  simp only [collectVisibleInventory, except_bind_eq_ok, pure_eq_ok, foldlM_collectDirectory_eq_ok, Prod.mk.injEq]
  constructor
  · rintro ⟨state, ⟨hcount, hfits, hsize, hstate⟩, rfl, rfl⟩
    exact ⟨hcount, hfits, hsize, (hlast state hstate).1, (hlast state hstate).2⟩
  · rintro ⟨hcount, hfits, hsize, rfl, rfl⟩
    obtain ⟨hfound, hbudget⟩ := hlast _ rfl
    exact ⟨_, ⟨hcount, hfits, hsize, rfl⟩, hfound.symm, hbudget.symm⟩

/-- The walk complains of too many entries only when there are, and of nothing
else when each file and all of them together fit. -/
theorem isEntryCount_of_collectVisibleInventory {disk : Disk} {e : StoreError}
    (h : collectVisibleInventory limits disk = .error e) :
    (e.IsEntryCount → (visibleEntries disk).length > limits.entries) ∧
      ((∀ x ∈ visibleEntries disk, FitsLimit x) →
        ((visibleEntries disk).map (fun x => entrySize x.2)).sum ≤ limits.bytes → e.IsEntryCount) := by
  have hperm := walk_perm_visible disk
  cases hwalk : canonicalRoots.foldlM (fun state root => collectDirectory limits (disk .canonical) [root] state)
      ((⟨[], [], ∅⟩, ⟨0, 0⟩) : VisibleInventory × ScanBudget) with
  | ok state =>
    rw [collectVisibleInventory, hwalk] at h
    cases h
  | error e' =>
    rw [collectVisibleInventory, hwalk] at h
    cases h
    have hroom : ((⟨[], [], ∅⟩, ⟨0, 0⟩) : VisibleInventory × ScanBudget).2.Room limits := room_zero limits
    have hfold := mapError_foldlM_collectDirectory disk canonicalRoots hroom
    rw [hwalk] at hfold
    obtain ⟨hcount, hother⟩ := isEntryCount_of_foldlM hroom hfold.symm
    rw [isEntryCount_asEntryCount, hperm.length_eq] at hcount
    rw [isEntryCount_asEntryCount, (hperm.map _).sum_nat] at hother
    simp only [hperm.mem_iff, Nat.zero_add] at hcount hother
    exact ⟨hcount, hother⟩

end

end Wayjournal
