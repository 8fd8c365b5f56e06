import Wayjournal.Causal.GraphLaws
import Wayjournal.Domains.Fold

namespace Wayjournal

open Collections FoldAccumulator

namespace ActiveMap

variable {κ υ : Type} [LinearOrder κ]

theorem active_sorted (m : ActiveMap κ υ) (k : κ) : (m.active k).Pairwise (· < ·) := by
  unfold active
  cases m.get? k with
  | none => exact .nil
  | some ids => exact ids.keys_sorted

theorem mem_active_iff {m : ActiveMap κ υ} {k : κ} {id : RecordId} :
    id ∈ m.active k ↔ ∃ ids v, m.get? k = some ids ∧ ids.get? id = some v := by
  unfold active
  cases m.get? k with
  | none => simp
  | some ids => simp [BTreeMap.mem_keys_iff]

theorem mem_active_add {m : ActiveMap κ υ} {k k' : κ} {id id' : RecordId} {v : υ} :
    id' ∈ (m.add k id v).active k' ↔ (k' = k ∧ id' = id) ∨ id' ∈ m.active k' := by
  simp only [active, add, BTreeMap.get?_update]
  by_cases hk : k' = k
  · subst hk
    cases hm : m.get? k' with
    | none =>
      have hempty : id' ∉ (∅ : BTreeMap RecordId υ).keys := List.not_mem_nil
      simp [BTreeMap.mem_keys_insert, hempty]
    | some ids => simp [BTreeMap.mem_keys_insert]
  · simp [hk]

theorem mem_active_remove {m : ActiveMap κ υ} {k k' : κ} {id id' : RecordId} :
    id' ∈ (m.remove k id).active k' ↔ id' ∈ m.active k' ∧ ¬(k' = k ∧ id' = id) := by
  unfold remove
  cases hm : m.get? k with
  | none =>
    by_cases hk : k' = k
    · subst hk
      simp [active, hm]
    · simp [hk]
  | some ids =>
    simp only [active, BTreeMap.get?_insert]
    by_cases hk : k' = k
    · subst hk
      simp [hm, BTreeMap.mem_keys_erase]
    · simp [hk]

end ActiveMap

/-- An accumulator is determined, as far as the fold can see, by its active
identifiers. -/
class LawfulFoldAccumulator (S : Type) [FoldAccumulator S] : Prop where
  registerIds_sorted : ∀ (s : S) f, (registerIds s f).Pairwise (· < ·)
  addIds_sorted : ∀ (s : S) f k, (addIds s f k).Pairwise (· < ·)
  registerIds_default : ∀ f, registerIds (default : S) f = []
  addIds_default : ∀ f k, addIds (default : S) f k = []
  mem_insertRegister : ∀ (s : S) f id v f' id',
    id' ∈ registerIds (insertRegister s f id v) f' ↔ (f' = f ∧ id' = id) ∨ id' ∈ registerIds s f'
  mem_removeRegister : ∀ (s : S) f id f' id',
    id' ∈ registerIds (removeRegister s f id) f' ↔ id' ∈ registerIds s f' ∧ ¬(f' = f ∧ id' = id)
  addIds_insertRegister : ∀ (s : S) f id v g k, addIds (insertRegister s f id v) g k = addIds s g k
  addIds_removeRegister : ∀ (s : S) f id g k, addIds (removeRegister s f id) g k = addIds s g k
  mem_insertAdd : ∀ (s : S) f k id v f' k' id',
    id' ∈ addIds (insertAdd s f k id v) f' k' ↔
      ((f' = f ∧ k' = k) ∧ id' = id) ∨ id' ∈ addIds s f' k'
  mem_removeAdd : ∀ (s : S) f k id f' k' id',
    id' ∈ addIds (removeAdd s f k id) f' k' ↔
      id' ∈ addIds s f' k' ∧ ¬((f' = f ∧ k' = k) ∧ id' = id)
  registerIds_insertAdd : ∀ (s : S) f k id v g, registerIds (insertAdd s f k id v) g = registerIds s g
  registerIds_removeAdd : ∀ (s : S) f k id g, registerIds (removeAdd s f k id) g = registerIds s g

theorem toLex_pair_eq {f f' : SetField} {k k' : String} :
    (toLex (f', k') : SetField ×ₗ String) = toLex (f, k) ↔ f' = f ∧ k' = k := by
  rw [toLex_inj, Prod.mk.injEq]

instance : LawfulFoldAccumulator FoldState where
  registerIds_sorted s f := s.registers.active_sorted f
  addIds_sorted s f k := s.adds.active_sorted _
  registerIds_default _ := rfl
  addIds_default _ _ := rfl
  mem_insertRegister _ _ _ _ _ _ := ActiveMap.mem_active_add
  mem_removeRegister _ _ _ _ _ := ActiveMap.mem_active_remove
  addIds_insertRegister _ _ _ _ _ _ := rfl
  addIds_removeRegister _ _ _ _ _ := rfl
  mem_insertAdd _ _ _ _ _ _ _ _ := by rw [← toLex_pair_eq]; exact ActiveMap.mem_active_add
  mem_removeAdd _ _ _ _ _ _ _ := by rw [← toLex_pair_eq]; exact ActiveMap.mem_active_remove
  registerIds_insertAdd _ _ _ _ _ _ := rfl
  registerIds_removeAdd _ _ _ _ _ := rfl

instance : LawfulFoldAccumulator ValidationFoldState where
  registerIds_sorted s f := s.registers.active_sorted f
  addIds_sorted s f k := s.adds.active_sorted _
  registerIds_default _ := rfl
  addIds_default _ _ := rfl
  mem_insertRegister _ _ _ _ _ _ := ActiveMap.mem_active_add
  mem_removeRegister _ _ _ _ _ := ActiveMap.mem_active_remove
  addIds_insertRegister _ _ _ _ _ _ := rfl
  addIds_removeRegister _ _ _ _ _ := rfl
  mem_insertAdd _ _ _ _ _ _ _ _ := by rw [← toLex_pair_eq]; exact ActiveMap.mem_active_add
  mem_removeAdd _ _ _ _ _ _ _ := by rw [← toLex_pair_eq]; exact ActiveMap.mem_active_remove
  registerIds_insertAdd _ _ _ _ _ _ := rfl
  registerIds_removeAdd _ _ _ _ _ := rfl

section Accumulator

variable {S : Type} [FoldAccumulator S] [LawfulFoldAccumulator S]

open LawfulFoldAccumulator

theorem mem_registerIds_removeAll (s : S) (f f' : ScalarField) (ids : List RecordId) (id : RecordId) :
    id ∈ registerIds (ids.foldl (fun s c => removeRegister s f c) s) f' ↔
      id ∈ registerIds s f' ∧ ¬(f' = f ∧ id ∈ ids) := by
  induction ids generalizing s with
  | nil => simp
  | cons c t ih =>
    rw [List.foldl_cons, ih, mem_removeRegister]
    simp only [List.mem_cons]
    tauto

theorem addIds_removeAllRegister (s : S) (f : ScalarField) (ids : List RecordId) (g : SetField)
    (k : String) :
    addIds (ids.foldl (fun s c => removeRegister s f c) s) g k = addIds s g k := by
  induction ids generalizing s with
  | nil => rfl
  | cons c t ih => rw [List.foldl_cons, ih, addIds_removeRegister]

theorem mem_addIds_removeAll (s : S) (f f' : SetField) (k k' : String) (ids : List RecordId)
    (id : RecordId) :
    id ∈ addIds (ids.foldl (fun s c => removeAdd s f k c) s) f' k' ↔
      id ∈ addIds s f' k' ∧ ¬((f' = f ∧ k' = k) ∧ id ∈ ids) := by
  induction ids generalizing s with
  | nil => simp
  | cons c t ih =>
    rw [List.foldl_cons, ih, mem_removeAdd]
    simp only [List.mem_cons]
    tauto

theorem registerIds_removeAllAdd (s : S) (f : SetField) (k : String) (ids : List RecordId)
    (g : ScalarField) :
    registerIds (ids.foldl (fun s c => removeAdd s f k c) s) g = registerIds s g := by
  induction ids generalizing s with
  | nil => rfl
  | cons c t ih => rw [List.foldl_cons, ih, registerIds_removeAdd]

end Accumulator

section Specification

variable (P : RecordId → List RecordId)

/-- `id` writes `field` in `done` and nothing else of `done` that writes the
field descends from it. -/
def ActiveWrite (done : List DomainOperation) (field : ScalarField) (id : RecordId) : Prop :=
  (∃ x ∈ done, x.recordId = id ∧ x.Writes field) ∧
    ∀ y ∈ done, y.Writes field → ¬Dag.Ancestor P id y.recordId

/-- `id` adds to `(field, key)` in `done` and no remove of `done` names it. -/
def ActiveAdd (done : List DomainOperation) (field : SetField) (key : String) (id : RecordId) : Prop :=
  (∃ x ∈ done, x.recordId = id ∧ x.Adds field key) ∧ ∀ y ∈ done, id ∉ y.kind.removed

/-- The operation names exactly what it observes of the active identifiers. -/
def Accepts (done : List DomainOperation) (o : DomainOperation) : Prop :=
  match o.kind with
  | .scalarSet _ _ => True
  | .scalarResolve field _ candidates => candidates.Pairwise (· < ·) ∧
      ∀ id, id ∈ candidates ↔ ActiveWrite P done field id ∧ Dag.Ancestor P id o.recordId
  | .add _ _ _ => True
  | .remove field key adds => adds.Pairwise (· < ·) ∧
      ∀ id, id ∈ adds ↔ ActiveAdd done field key id ∧ Dag.Ancestor P id o.recordId

/-- What an accumulator holds after the operations of `done`. -/
structure Tracks {S : Type} [FoldAccumulator S] (done : List DomainOperation) (s : S) : Prop where
  register : ∀ field id, id ∈ registerIds s field ↔ ActiveWrite P done field id
  add : ∀ field key id, id ∈ addIds s field key ↔ ActiveAdd done field key id
  named : ∀ y ∈ done, ∀ field key adds, y.kind = .remove field key adds →
    ∀ id ∈ adds, ∃ x ∈ done, x.recordId = id ∧ x.Adds field key

/-- `o` comes after `done`: it is new and nothing up to it descends from it. -/
structure Fresh (done : List DomainOperation) (o : DomainOperation) : Prop where
  nodup : ((done ++ [o]).map DomainOperation.recordId).Nodup
  after : ∀ y ∈ done ++ [o], ¬Dag.Ancestor P o.recordId y.recordId

end Specification

section Step

variable {α S : Type} [CausalNode α] [FoldAccumulator S]
variable {P : RecordId → List RecordId} {done : List DomainOperation} {o : DomainOperation}

open LawfulFoldAccumulator

theorem observed_spec (graph : CausalGraph α) (observer : RecordId) (ids : List RecordId)
    (r : Reachability) (h : (observed graph observer ids r).2.exceeded = false) :
    (observed graph observer ids r).1.Sublist ids ∧
      ∀ id, id ∈ (observed graph observer ids r).1 ↔
        id ∈ ids ∧ Dag.Ancestor (CausalGraph.parentsOf graph.byId) id observer := by
  induction ids generalizing r with
  | nil => simp [observed]
  | cons c t ih =>
    simp only [observed] at h ⊢
    have hseen : (graph.observesBounded observer c r).2.exceeded = false := by
      clear ih
      generalize (graph.observesBounded observer c r).2 = r' at h
      induction t generalizing r' with
      | nil => exact h
      | cons d t ih =>
        simp only [observed] at h
        exact CausalGraph.exceeded_of_observesBounded (ih _ h)
    obtain ⟨hsub, hmem⟩ := ih _ h
    have hiff := CausalGraph.observesBounded_iff hseen
    by_cases hb : (graph.observesBounded observer c r).1 = true
    · simp only [hb, if_true]
      refine ⟨hsub.cons_cons c, ?_⟩
      intro id
      simp only [List.mem_cons, hmem]
      constructor
      · rintro (rfl | ⟨hid, hanc⟩)
        · exact ⟨.inl rfl, hiff.mp hb⟩
        · exact ⟨.inr hid, hanc⟩
      · rintro ⟨rfl | hid, hanc⟩
        · exact .inl rfl
        · exact .inr ⟨hid, hanc⟩
    · simp only [hb]
      refine ⟨hsub.cons c, ?_⟩
      intro id
      rw [if_neg (by decide), hmem, List.mem_cons]
      constructor
      · rintro ⟨hid, hanc⟩
        exact ⟨.inr hid, hanc⟩
      · rintro ⟨rfl | hid, hanc⟩
        · exact absurd (hiff.mpr hanc) hb
        · exact ⟨hid, hanc⟩

theorem Fresh.notMem (h : Fresh P done o) {x : DomainOperation} (hx : x ∈ done) :
    x.recordId ≠ o.recordId := by
  have hn := h.nodup
  rw [List.map_append, List.nodup_append] at hn
  exact hn.2.2 _ (List.mem_map_of_mem hx) _ (by simp)

theorem Fresh.eq_of_recordId (h : Fresh P done o) {x y : DomainOperation} (hx : x ∈ done)
    (hy : y ∈ done) (hid : x.recordId = y.recordId) : x = y :=
  List.inj_on_of_nodup_map h.nodup (List.mem_append_left _ hx) (List.mem_append_left _ hy) hid

theorem activeWrite_append_writer (h : Fresh P done o) {field : ScalarField} (ho : o.Writes field)
    {id : RecordId} :
    ActiveWrite P (done ++ [o]) field id ↔
      id = o.recordId ∨ (ActiveWrite P done field id ∧ ¬Dag.Ancestor P id o.recordId) := by
  constructor
  · rintro ⟨⟨x, hx, rfl, hw⟩, hmax⟩
    rw [List.mem_append, List.mem_singleton] at hx
    obtain hx | rfl := hx
    · refine .inr ⟨⟨⟨x, hx, rfl, hw⟩, ?_⟩, hmax o (by simp) ho⟩
      exact fun y hy => hmax y (List.mem_append_left _ hy)
    · exact .inl rfl
  · rintro (rfl | ⟨⟨⟨x, hx, rfl, hw⟩, hmax⟩, hanc⟩)
    · exact ⟨⟨o, by simp, rfl, ho⟩, fun y hy _ => h.after y hy⟩
    · refine ⟨⟨x, List.mem_append_left _ hx, rfl, hw⟩, ?_⟩
      intro y hy hyw
      rw [List.mem_append, List.mem_singleton] at hy
      obtain hy | rfl := hy
      · exact hmax y hy hyw
      · exact hanc

theorem activeWrite_append_other {field : ScalarField} (ho : ¬o.Writes field) {id : RecordId} :
    ActiveWrite P (done ++ [o]) field id ↔ ActiveWrite P done field id := by
  constructor
  · rintro ⟨⟨x, hx, rfl, hw⟩, hmax⟩
    rw [List.mem_append, List.mem_singleton] at hx
    obtain hx | rfl := hx
    · exact ⟨⟨x, hx, rfl, hw⟩, fun y hy => hmax y (List.mem_append_left _ hy)⟩
    · exact absurd hw ho
  · rintro ⟨⟨x, hx, rfl, hw⟩, hmax⟩
    refine ⟨⟨x, List.mem_append_left _ hx, rfl, hw⟩, ?_⟩
    intro y hy hyw
    rw [List.mem_append, List.mem_singleton] at hy
    obtain hy | rfl := hy
    · exact hmax y hy hyw
    · exact absurd hyw ho

theorem activeAdd_append (hnew : ∀ y ∈ done ++ [o], o.recordId ∉ y.kind.removed) {field : SetField}
    {key : String} {id : RecordId} :
    ActiveAdd (done ++ [o]) field key id ↔
      (id = o.recordId ∧ o.Adds field key) ∨
        (ActiveAdd done field key id ∧ id ∉ o.kind.removed) := by
  constructor
  · rintro ⟨⟨x, hx, rfl, ha⟩, hkeep⟩
    rw [List.mem_append, List.mem_singleton] at hx
    obtain hx | rfl := hx
    · refine .inr ⟨⟨⟨x, hx, rfl, ha⟩, ?_⟩, hkeep o (by simp)⟩
      exact fun y hy => hkeep y (List.mem_append_left _ hy)
    · exact .inl ⟨rfl, ha⟩
  · rintro (⟨rfl, ha⟩ | ⟨⟨⟨x, hx, rfl, ha⟩, hkeep⟩, hno⟩)
    · exact ⟨⟨o, by simp, rfl, ha⟩, hnew⟩
    · refine ⟨⟨x, List.mem_append_left _ hx, rfl, ha⟩, ?_⟩
      intro y hy
      rw [List.mem_append, List.mem_singleton] at hy
      obtain hy | rfl := hy
      · exact hkeep y hy
      · exact hno

theorem removed_of_kind {x : DomainOperation} {id : RecordId} (h : id ∈ x.kind.removed) :
    ∃ field key adds, x.kind = .remove field key adds ∧ id ∈ adds := by
  cases hk : x.kind with
  | remove field key adds =>
    rw [hk] at h
    exact ⟨field, key, adds, rfl, h⟩
  | _ => simp [hk, OperationKind.removed] at h

theorem Tracks.new_unnamed {s : S} (htr : Tracks P done s) (hf : Fresh P done o) {y : DomainOperation}
    (hy : y ∈ done) : o.recordId ∉ y.kind.removed := by
  intro hmem
  obtain ⟨field, key, adds, hk, hid⟩ := removed_of_kind hmem
  obtain ⟨x, hx, hxo, -⟩ := htr.named y hy field key adds hk _ hid
  exact hf.notMem hx hxo

theorem Tracks.named_append {s : S} (htr : Tracks P done s)
    (ho : ∀ field key adds, o.kind = .remove field key adds →
      ∀ id ∈ adds, ∃ x ∈ done, x.recordId = id ∧ x.Adds field key) :
    ∀ y ∈ done ++ [o], ∀ field key adds, y.kind = .remove field key adds →
      ∀ id ∈ adds, ∃ x ∈ done ++ [o], x.recordId = id ∧ x.Adds field key := by
  intro y hy field key adds hk id hid
  rw [List.mem_append, List.mem_singleton] at hy
  obtain hy | rfl := hy
  · obtain ⟨x, hx, h⟩ := htr.named y hy field key adds hk id hid
    exact ⟨x, List.mem_append_left _ hx, h⟩
  · obtain ⟨x, hx, h⟩ := ho field key adds hk id hid
    exact ⟨x, List.mem_append_left _ hx, h⟩

variable [LawfulFoldAccumulator S]

/-- A set or an accepted resolve replaces what it observes. -/
theorem Tracks.write {s : S} (htr : Tracks P done s) (hf : Fresh P done o) {field : ScalarField}
    {value : ScalarValue} (hw : o.kind.scalarWrite? = some (field, value)) {l : List RecordId}
    (hl : ∀ id, id ∈ l ↔ id ∈ registerIds s field ∧ Dag.Ancestor P id o.recordId) :
    Tracks P (done ++ [o])
      (insertRegister (l.foldl (fun s c => removeRegister s field c) s) field o.recordId value) := by
  have hadd : o.kind.add? = none ∧ o.kind.removed = [] := by
    cases hk : o.kind <;> simp [hk, OperationKind.scalarWrite?] at hw <;>
      simp [OperationKind.add?, OperationKind.removed]
  refine ⟨?_, ?_, ?_⟩
  · intro f id
    rw [mem_insertRegister, mem_registerIds_removeAll, htr.register]
    by_cases hff : f = field
    · subst hff
      rw [activeWrite_append_writer hf ⟨value, hw⟩, hl, htr.register]
      simp only [true_and]
      tauto
    · rw [activeWrite_append_other]
      · simp [hff]
      · rintro ⟨v, hv⟩
        rw [hw, Option.some.injEq, Prod.mk.injEq] at hv
        exact hff hv.1.symm
  · intro f k id
    rw [addIds_insertRegister, addIds_removeAllRegister, htr.add, activeAdd_append]
    · simp [DomainOperation.Adds, hadd]
    · intro y hy
      rw [List.mem_append, List.mem_singleton] at hy
      obtain hy | rfl := hy
      · exact htr.new_unnamed hf hy
      · simp [hadd]
  · apply htr.named_append
    intro f k adds hk
    simp [hk, OperationKind.scalarWrite?] at hw

theorem Tracks.insert {s : S} (htr : Tracks P done s) (hf : Fresh P done o) {field : SetField}
    {key : String} {value : SetValue} (hk : o.kind = .add field key value) :
    Tracks P (done ++ [o]) (insertAdd s field key o.recordId value) := by
  refine ⟨?_, ?_, ?_⟩
  · intro f id
    rw [registerIds_insertAdd, htr.register, activeWrite_append_other]
    simp [DomainOperation.Writes, hk, OperationKind.scalarWrite?]
  · intro f k id
    rw [mem_insertAdd, htr.add, activeAdd_append]
    · simp only [DomainOperation.Adds, hk, OperationKind.add?, OperationKind.removed,
        Option.some.injEq, Prod.mk.injEq, List.not_mem_nil, not_false_eq_true, and_true]
      constructor
      · rintro (⟨⟨rfl, rfl⟩, rfl⟩ | h)
        · exact .inl ⟨rfl, value, rfl, rfl, rfl⟩
        · exact .inr h
      · rintro (⟨rfl, v, rfl, rfl, -⟩ | h)
        · exact .inl ⟨⟨rfl, rfl⟩, rfl⟩
        · exact .inr h
    · intro y hy
      rw [List.mem_append, List.mem_singleton] at hy
      obtain hy | rfl := hy
      · exact htr.new_unnamed hf hy
      · simp [hk, OperationKind.removed]
  · apply htr.named_append
    intro f k adds hk'
    rw [hk] at hk'
    cases hk'

theorem Tracks.erase {s : S} (htr : Tracks P done s) (hf : Fresh P done o) {field : SetField}
    {key : String} {adds : List RecordId} (hk : o.kind = .remove field key adds)
    (hadds : ∀ id ∈ adds, id ∈ addIds s field key) :
    Tracks P (done ++ [o]) (adds.foldl (fun s c => removeAdd s field key c) s) := by
  have hin : ∀ id ∈ adds, ∃ x ∈ done, x.recordId = id ∧ x.Adds field key := by
    intro id hid
    exact ((htr.add field key id).mp (hadds id hid)).1
  refine ⟨?_, ?_, ?_⟩
  · intro f id
    rw [registerIds_removeAllAdd, htr.register, activeWrite_append_other]
    simp [DomainOperation.Writes, hk, OperationKind.scalarWrite?]
  · intro f k id
    rw [mem_addIds_removeAll, htr.add, activeAdd_append]
    · simp only [DomainOperation.Adds, hk, OperationKind.add?, OperationKind.removed, reduceCtorEq,
        exists_false, and_false, false_or]
      constructor
      · rintro ⟨hact, hno⟩
        refine ⟨hact, ?_⟩
        intro hid
        obtain ⟨x, hx, hxid, v, hxa⟩ := hin id hid
        obtain ⟨⟨y, hy, hyid, w, hya⟩, -⟩ := hact
        have hxy := hf.eq_of_recordId hx hy (hxid.trans hyid.symm)
        rw [hxy, hya, Option.some.injEq, Prod.mk.injEq, Prod.mk.injEq] at hxa
        exact hno ⟨⟨hxa.1, hxa.2.1⟩, hid⟩
      · rintro ⟨hact, hno⟩
        exact ⟨hact, fun h => hno h.2⟩
    · intro y hy
      rw [List.mem_append, List.mem_singleton] at hy
      obtain hy | rfl := hy
      · exact htr.new_unnamed hf hy
      · rw [hk]
        intro hid
        obtain ⟨x, hx, hxid, -⟩ := hin _ hid
        exact hf.notMem hx hxid
  · apply htr.named_append
    intro f k adds' hk'
    rw [hk] at hk'
    cases hk'
    exact hin

/-- One step: it fails on the budget, or it succeeds exactly when the operation
names what it observes, and then the state follows. -/
theorem applyOperation_spec {graph : CausalGraph α} (hP : CausalGraph.parentsOf graph.byId = P)
    {s : S} {r : Reachability} (htr : Tracks P done s) (hf : Fresh P done o)
    (hr : r.exceeded = false) :
    match applyOperation graph o s r with
    | .error e => e = .budget ∨ (e ≠ .budget ∧ ¬Accepts P done o)
    | .ok (s', r') => Accepts P done o ∧ Tracks P (done ++ [o]) s' ∧ r'.exceeded = false := by
  cases hk : o.kind with
  | scalarSet field value =>
    simp only [applyOperation, hk]
    cases hex : (observed graph o.recordId (registerIds s field) r).2.exceeded with
    | true => exact .inl rfl
    | false =>
      obtain ⟨-, hmem⟩ := observed_spec graph o.recordId _ r hex
      rw [hP] at hmem
      have hw : o.kind.scalarWrite? = some (field, value) := by rw [hk]; rfl
      exact ⟨by simp [Accepts, hk], htr.write hf hw hmem, hex⟩
  | scalarResolve field value candidates =>
    simp only [applyOperation, hk]
    cases hex : (observed graph o.recordId (registerIds s field) r).2.exceeded with
    | true => exact .inl rfl
    | false =>
      obtain ⟨hsub, hmem⟩ := observed_spec graph o.recordId _ r hex
      rw [hP] at hmem
      have hsorted := (registerIds_sorted s field).sublist hsub
      have hacc : Accepts P done o ↔
          (observed graph o.recordId (registerIds s field) r).1 = candidates := by
        simp only [Accepts, hk]
        constructor
        · rintro ⟨hcs, hcm⟩
          apply eq_of_sorted_of_mem_iff hsorted hcs
          intro id
          rw [hmem, hcm, htr.register]
        · rintro rfl
          refine ⟨hsorted, ?_⟩
          intro id
          rw [hmem, htr.register]
      by_cases heq : (observed graph o.recordId (registerIds s field) r).1 = candidates
      · have hw : o.kind.scalarWrite? = some (field, value) := by rw [hk]; rfl
        simp only [heq, ne_eq, not_true_eq_false, if_false]
        rw [heq] at hmem
        exact ⟨hacc.mpr heq, htr.write hf hw hmem, hex⟩
      · simp only [ne_eq, heq, not_false_eq_true, if_true]
        exact .inr ⟨by simp [FoldError.budget], mt hacc.mp heq⟩
  | add field key value =>
    simp only [applyOperation, hk]
    exact ⟨by simp [Accepts, hk], htr.insert hf hk, hr⟩
  | remove field key adds =>
    simp only [applyOperation, hk]
    cases hex : (observed graph o.recordId (addIds s field key) r).2.exceeded with
    | true => exact .inl rfl
    | false =>
      obtain ⟨hsub, hmem⟩ := observed_spec graph o.recordId _ r hex
      rw [hP] at hmem
      have hsorted := (addIds_sorted s field key).sublist hsub
      have hacc : Accepts P done o ↔
          (observed graph o.recordId (addIds s field key) r).1 = adds := by
        simp only [Accepts, hk]
        constructor
        · rintro ⟨hcs, hcm⟩
          apply eq_of_sorted_of_mem_iff hsorted hcs
          intro id
          rw [hmem, hcm, htr.add]
        · rintro rfl
          refine ⟨hsorted, ?_⟩
          intro id
          rw [hmem, htr.add]
      by_cases heq : (observed graph o.recordId (addIds s field key) r).1 = adds
      · simp only [heq, ne_eq, not_true_eq_false, if_false]
        rw [heq] at hmem
        exact ⟨hacc.mpr heq, htr.erase hf hk (fun id hid => ((hmem id).mp hid).1), hex⟩
      · simp only [ne_eq, heq, not_false_eq_true, if_true]
        exact .inr ⟨by simp [FoldError.budget], mt hacc.mp heq⟩

end Step

end Wayjournal
