import Wayjournal.Domains.Convergence

namespace Wayjournal

open Collections FoldAccumulator

/-- `union` is the set union of the operations of two replicas of one entity,
within the bounds on operations and edges. -/
structure Replicas (left right union : List DomainOperation) : Prop where
  nodup : union.Nodup
  mem : ∀ x, x ∈ union ↔ x ∈ left ∨ x ∈ right
  compatible : ∀ x ∈ union, ∀ y ∈ union, x.recordId = y.recordId → x = y
  entity : ∀ x ∈ union, ∀ y ∈ union, x.entityId = y.entityId
  operations : union.length ≤ MAX_CAUSAL_OPERATIONS
  edges : CausalGraph.edgeCount union ≤ MAX_CAUSAL_EDGES

/-- `y` stands before `r` in the topological order of the fold. -/
def Precedes (operations : List DomainOperation) (y r : DomainOperation) : Prop :=
  [y, r].Sublist (CausalGraph.order operations)

/-- No resolve comes after another write of its register that descends from one
of its candidates, and no two removes name a common add. -/
structure Unobstructed (operations : List DomainOperation) : Prop where
  resolve : ∀ r ∈ operations, ∀ field value candidates, r.kind = .scalarResolve field value candidates →
    ∀ y ∈ operations, y.target = r.target → y.Writes field → Precedes operations y r →
      ∀ c ∈ candidates, ¬Dag.Ancestor (CausalGraph.parentMap operations) c y.recordId
  remove : ∀ r ∈ operations, ∀ y ∈ operations, r ≠ y → ∀ a ∈ r.kind.removed, a ∉ y.kind.removed

theorem precedes_iff {operations : List DomainOperation} (h : CausalGraph.Valid operations)
    {l₁ l₂ : List DomainOperation} {y r : DomainOperation}
    (hl : CausalGraph.order operations = l₁ ++ r :: l₂) : Precedes operations y r ↔ y ∈ l₁ := by
  have hn : (l₁ ++ r :: l₂).Nodup := hl ▸ CausalGraph.nodup_order h.wellFormed.nodup
  rw [Precedes, hl]
  constructor
  · intro hs
    rw [List.sublist_append_iff] at hs
    obtain ⟨a, b, hab, ha, hb⟩ := hs
    cases a with
    | nil =>
      simp only [List.nil_append] at hab
      subst hab
      exfalso
      have hr : r ∈ l₂ := by
        cases hb with
        | cons _ h => exact h.subset (by simp)
        | cons_cons _ h => exact h.subset (by simp)
      simp only [List.nodup_append, List.nodup_cons] at hn
      exact hn.2.1.1 hr
    | cons z a =>
      simp only [List.cons_append, List.cons.injEq] at hab
      rw [hab.1]
      exact ha.subset List.mem_cons_self
  · intro hy
    have h₁ : [y].Sublist l₁ := List.singleton_sublist.mpr hy
    have h₂ : [r].Sublist (r :: l₂) := List.singleton_sublist.mpr List.mem_cons_self
    exact h₁.append h₂

section

variable {left right union : List DomainOperation}

theorem Replicas.nodup_ids (h : Replicas left right union) : (union.map recordId).Nodup :=
  h.nodup.map_on h.compatible

theorem Replicas.left_subset (h : Replicas left right union) : left ⊆ union :=
  fun x hx => (h.mem x).mpr (.inl hx)

theorem Replicas.right_subset (h : Replicas left right union) : right ⊆ union :=
  fun x hx => (h.mem x).mpr (.inr hx)

theorem Replicas.valid (h : Replicas left right union) (hleft : CausalGraph.Valid left)
    (hright : CausalGraph.Valid right) : CausalGraph.Valid union := by
  have hpart : ∀ part, CausalGraph.Valid part → part ⊆ union → ∀ n ∈ part,
      (parents n).Pairwise (· < ·) ∧ (∀ p ∈ parents n, p ∈ union.map recordId) ∧
        recordId n ∈ Dag.canonical (CausalGraph.parentMap union) (CausalGraph.ids union) := by
    intro part hv hsub n hn
    refine ⟨hv.wellFormed.sorted n hn, ?_, ?_⟩
    · intro p hp
      exact List.map_subset recordId hsub (hv.wellFormed.closed n hn p hp)
    · have hmem := hv.acyclic n hn
      rw [← CausalGraph.canonical_restrict h.nodup_ids hv.wellFormed hsub] at hmem
      exact List.mem_of_mem_filter hmem
  have hall : ∀ n ∈ union, (parents n).Pairwise (· < ·) ∧ (∀ p ∈ parents n, p ∈ union.map recordId) ∧
      recordId n ∈ Dag.canonical (CausalGraph.parentMap union) (CausalGraph.ids union) := by
    intro n hn
    obtain hn | hn := (h.mem n).mp hn
    · exact hpart left hleft h.left_subset n hn
    · exact hpart right hright h.right_subset n hn
  exact ⟨h.operations, h.edges, ⟨fun n hn => (hall n hn).1, h.nodup_ids, fun n hn => (hall n hn).2.1⟩,
    fun n hn => (hall n hn).2.2⟩

theorem mem_sameTarget {t : Option LogicalStoreId} {l : List DomainOperation} {x : DomainOperation} :
    x ∈ sameTarget t l ↔ x ∈ l ∧ x.target = t := by
  rw [sameTarget, List.mem_filter, decide_eq_true_eq]

/-- A run that accepts every operation is unobstructed. -/
theorem AcceptsFrom.unobstructed (hv : CausalGraph.Valid union)
    (hacc : AcceptsFrom (CausalGraph.parentMap union) [] (CausalGraph.order union)) :
    Unobstructed union := by
  have hsplit : ∀ r ∈ union, ∃ l₁ l₂, CausalGraph.order union = l₁ ++ r :: l₂ :=
    fun r hr => List.append_of_mem (hv.order_perm.mem_iff.mpr hr)
  have hunique : ∀ x ∈ union, ∀ y ∈ union, x.recordId = y.recordId → x = y :=
    fun x hx y hy hid => CausalGraph.eq_of_recordId_eq hv.wellFormed.nodup hx hy hid
  have hnamed : ∀ r ∈ union, ∀ a ∈ r.kind.removed, ∀ l₁ l₂,
      CausalGraph.order union = l₁ ++ r :: l₂ →
        (∃ x ∈ union, x.recordId = a ∧ x.target = r.target) ∧
        ∀ y ∈ sameTarget r.target l₁, a ∉ y.kind.removed := by
    intro r hr a ha l₁ l₂ hl
    obtain ⟨field, key, adds, hk, hid⟩ := removed_of_kind ha
    have h := hacc l₁ r l₂ hl
    simp only [Accepts, hk, List.nil_append] at h
    obtain ⟨⟨⟨x, hx, hxid, -⟩, hkeep⟩, -⟩ := (h.2 a).mp hid
    obtain ⟨hx₁, hxt⟩ := mem_sameTarget.mp hx
    refine ⟨⟨x, hv.order_perm.mem_iff.mp ?_, hxid, hxt⟩, hkeep⟩
    rw [hl]
    exact List.mem_append_left _ hx₁
  refine ⟨?_, ?_⟩
  · intro r hr field value candidates hk y hy hyt hyw hprec c hc
    obtain ⟨l₁, l₂, hl⟩ := hsplit r hr
    have h := hacc l₁ r l₂ hl
    simp only [Accepts, hk, List.nil_append] at h
    obtain ⟨⟨-, hmax⟩, -⟩ := (h.2 c).mp hc
    exact hmax y (mem_sameTarget.mpr ⟨(precedes_iff hv hl).mp hprec, hyt⟩) hyw
  · have hordered : ∀ r ∈ union, ∀ y ∈ union, ∀ l₁ l₂, CausalGraph.order union = l₁ ++ r :: l₂ →
        y ∈ l₁ → ∀ a ∈ r.kind.removed, a ∉ y.kind.removed := by
      intro r hr y hy l₁ l₂ hl hyl a ha hay
      obtain ⟨m₁, m₂, hm⟩ := hsplit y hy
      obtain ⟨⟨x, hx, hxid, hxt⟩, hkeep⟩ := hnamed r hr a ha l₁ l₂ hl
      obtain ⟨⟨x', hx', hxid', hxt'⟩, -⟩ := hnamed y hy a hay m₁ m₂ hm
      have hxx := hunique x hx x' hx' (hxid.trans hxid'.symm)
      have hyt : y.target = r.target := by rw [← hxt', ← hxx, hxt]
      exact hkeep y (mem_sameTarget.mpr ⟨hyl, hyt⟩) hay
    intro r hr y hy hne a ha hay
    obtain ⟨l₁, l₂, hl⟩ := hsplit r hr
    have hy' : y ∈ l₁ ++ r :: l₂ := hl ▸ hv.order_perm.mem_iff.mpr hy
    rw [List.mem_append, List.mem_cons] at hy'
    obtain hy' | rfl | hy' := hy'
    · exact hordered r hr y hy l₁ l₂ hl hy' a ha hay
    · exact hne rfl
    · obtain ⟨n₁, n₂, rfl⟩ := List.append_of_mem hy'
      have hl' : CausalGraph.order union = (l₁ ++ r :: n₁) ++ y :: n₂ := by simp [hl]
      exact hordered y hy r hr _ n₂ hl' (by simp) a hay ha

/-- An operation that a replica accepts stays accepted in the unobstructed union. -/
theorem accepts_of_part {part : List DomainOperation} (hv : CausalGraph.Valid union)
    (hvpart : CausalGraph.Valid part) (hsub : part ⊆ union) (hun : Unobstructed union)
    (hacc : AcceptsFrom (CausalGraph.parentMap part) [] (CausalGraph.order part))
    {l₁ l₂ : List DomainOperation} {o : DomainOperation}
    (hl : CausalGraph.order union = l₁ ++ o :: l₂) (ho : o ∈ part) :
    Accepts (CausalGraph.parentMap union) (sameTarget o.target l₁) o := by
  have hnodup := hv.wellFormed.nodup
  have hpartwf := hvpart.wellFormed
  have horder := CausalGraph.order_restrict hnodup hpartwf hsub
  have hoid : recordId o ∈ CausalGraph.ids part := CausalGraph.mem_ids.mpr ⟨o, ho, rfl⟩
  rw [hl, List.filter_append, List.filter_cons_of_pos (by simpa using hoid)] at horder
  have h := hacc _ o _ horder.symm
  rw [List.nil_append] at h
  have hanc : ∀ id, ∀ x ∈ part, (Dag.Ancestor (CausalGraph.parentMap union) id x.recordId ↔
      Dag.Ancestor (CausalGraph.parentMap part) id x.recordId) := fun id x hx =>
    CausalGraph.ancestor_restrict hnodup hpartwf hsub (CausalGraph.mem_ids.mpr ⟨x, hx, rfl⟩)
  have hunion : ∀ x ∈ l₁, x ∈ union := by
    intro x hx
    apply hv.order_perm.mem_iff.mp
    rw [hl]
    exact List.mem_append_left _ hx
  have hin : ∀ x ∈ l₁, x.recordId ∈ CausalGraph.ids part → x ∈ part := by
    intro x hx hid
    obtain ⟨x', hx', hxid⟩ := CausalGraph.mem_ids.mp hid
    rw [← CausalGraph.eq_of_recordId_eq hnodup (hsub hx') (hunion x hx) hxid]
    exact hx'
  have hpast : ∀ x, x ∈ sameTarget o.target (l₁.filter (fun n => recordId n ∈ CausalGraph.ids part)) ↔
      x ∈ sameTarget o.target l₁ ∧ x ∈ part := by
    intro x
    simp only [mem_sameTarget, List.mem_filter, decide_eq_true_eq]
    constructor
    · rintro ⟨⟨hx, hid⟩, ht⟩
      exact ⟨⟨hx, ht⟩, hin x hx hid⟩
    · rintro ⟨⟨hx, ht⟩, hp⟩
      exact ⟨⟨hx, CausalGraph.mem_ids.mpr ⟨x, hp, rfl⟩⟩, ht⟩
  have hseen : ∀ x ∈ sameTarget o.target l₁,
      Dag.Ancestor (CausalGraph.parentMap union) x.recordId o.recordId → x ∈ part := by
    intro x hx hxo
    have hclosed := CausalGraph.parentClosed_restrict hnodup hpartwf hsub
    exact hin x (mem_sameTarget.mp hx).1 (hclosed.ancestor hxo hoid)
  cases hk : o.kind with
  | scalarSet field value => simp [Accepts, hk]
  | add field key value => simp [Accepts, hk]
  | scalarResolve field value candidates =>
    simp only [Accepts, hk] at h ⊢
    refine ⟨h.1, ?_⟩
    intro id
    constructor
    · intro hid
      obtain ⟨⟨⟨x, hx, hxid, hw⟩, -⟩, hxo⟩ := (h.2 id).mp hid
      refine ⟨⟨⟨x, ((hpast x).mp hx).1, hxid, hw⟩, ?_⟩, (hanc id o ho).mpr hxo⟩
      intro y hy hyw
      obtain ⟨hyl, hyt⟩ := mem_sameTarget.mp hy
      exact hun.resolve o (hsub ho) field value candidates hk y (hunion y hyl) hyt hyw
        ((precedes_iff hv hl).mpr hyl) id hid
    · rintro ⟨⟨⟨x, hx, rfl, hw⟩, hmax⟩, hxo⟩
      refine (h.2 _).mpr ⟨⟨⟨x, (hpast x).mpr ⟨hx, hseen x hx hxo⟩, rfl, hw⟩, ?_⟩, (hanc _ o ho).mp hxo⟩
      intro y hy hyw
      obtain ⟨hyl, hyp⟩ := (hpast y).mp hy
      exact mt (hanc _ y hyp).mpr (hmax y hyl hyw)
  | remove field key adds =>
    simp only [Accepts, hk] at h ⊢
    refine ⟨h.1, ?_⟩
    intro id
    constructor
    · intro hid
      obtain ⟨⟨⟨x, hx, hxid, hw⟩, -⟩, hxo⟩ := (h.2 id).mp hid
      refine ⟨⟨⟨x, ((hpast x).mp hx).1, hxid, hw⟩, ?_⟩, (hanc id o ho).mpr hxo⟩
      intro y hy
      obtain ⟨hyl, -⟩ := mem_sameTarget.mp hy
      have hne : o ≠ y := by
        rintro rfl
        have hn := CausalGraph.nodup_order hnodup
        rw [hl, List.nodup_append] at hn
        exact hn.2.2 o hyl o List.mem_cons_self rfl
      exact hun.remove o (hsub ho) y (hunion y hyl) hne id (by rw [hk]; exact hid)
    · rintro ⟨⟨⟨x, hx, rfl, hw⟩, hkeep⟩, hxo⟩
      refine (h.2 _).mpr ⟨⟨⟨x, (hpast x).mpr ⟨hx, hseen x hx hxo⟩, rfl, hw⟩, ?_⟩, (hanc _ o ho).mp hxo⟩
      exact fun y hy => hkeep y ((hpast y).mp hy).1

theorem Replicas.acceptsFrom_iff (h : Replicas left right union) (hleft : CausalGraph.Valid left)
    (hright : CausalGraph.Valid right)
    (hacc_left : AcceptsFrom (CausalGraph.parentMap left) [] (CausalGraph.order left))
    (hacc_right : AcceptsFrom (CausalGraph.parentMap right) [] (CausalGraph.order right)) :
    AcceptsFrom (CausalGraph.parentMap union) [] (CausalGraph.order union) ↔ Unobstructed union := by
  have hv := h.valid hleft hright
  constructor
  · exact AcceptsFrom.unobstructed hv
  · intro hun l₁ o l₂ hl
    rw [List.nil_append]
    have ho : o ∈ union := by
      apply hv.order_perm.mem_iff.mp
      rw [hl]
      simp
    obtain ho | ho := (h.mem o).mp ho
    · exact accepts_of_part hv hleft h.left_subset hun hacc_left hl ho
    · exact accepts_of_part hv hright h.right_subset hun hacc_right hl ho

end

theorem foldProfile_eq_ok_iff {operations : List DomainOperation}
    (hbudget : foldProfile operations ≠ .error .budget) :
    (∃ profile, foldProfile operations = .ok profile) ↔
      CausalGraph.Valid operations ∧ wrongEntity operations PROFILE_DOMAIN = false ∧
        AcceptsFrom (CausalGraph.parentMap operations) [] (CausalGraph.order operations) := by
  have hT : wrongEntity operations PROFILE_DOMAIN = false → ∀ o ∈ operations, o.target = none :=
    fun hent o ho => DomainOperation.target_of_profile ((wrongEntity_eq_false.mp hent).1 o ho)
  constructor
  · rintro ⟨profile, h⟩
    obtain ⟨state, hs, -⟩ := foldProfile_cases h
    obtain ⟨graph, r, hnew, hent, hrun⟩ := fold_cases hs
    have hspec := foldLoop_ok (S := FoldState) hnew (routes_profile graph) (hT hent)
      (fun _ _ => rfl)
    rw [hrun] at hspec
    exact ⟨(CausalGraph.new_ok hnew).1, hent, hspec.1⟩
  · rintro ⟨hv, hent, hacc⟩
    obtain ⟨graph, hnew⟩ := hv.new_ok
    have hspec := foldLoop_ok (S := FoldState) hnew (routes_profile graph) (hT hent)
      (fun _ _ => rfl)
    cases hrun : foldLoop (applyOperation graph) graph.ordered
        (FoldAccumulator.default : FoldState) .initial with
    | error e =>
      rw [hrun] at hspec
      obtain rfl | ⟨-, hno⟩ := hspec
      · exact absurd (by simp [foldProfile, fold, hnew, hent, hrun]) hbudget
      · exact absurd hacc hno
    | ok res => simp [foldProfile, fold, hnew, hent, hrun]

theorem foldCatalogs_eq_ok_iff {operations : List DomainOperation}
    (hbudget : foldCatalogs operations ≠ .error .budget) :
    (∃ catalogs, foldCatalogs operations = .ok catalogs) ↔
      CausalGraph.Valid operations ∧ wrongEntity operations CATALOG_DOMAIN = false ∧
        AcceptsFrom (CausalGraph.parentMap operations) [] (CausalGraph.order operations) := by
  have hT : wrongEntity operations CATALOG_DOMAIN = false → ∀ o ∈ operations, o.target ≠ none := by
    intro hent o ho
    obtain ⟨t, ht⟩ := DomainOperation.target_of_catalog ((wrongEntity_eq_false.mp hent).1 o ho)
    simp [ht]
  have hinit : ∀ t : Option LogicalStoreId, t ≠ none →
      catalogView t (∅ : BTreeMap LogicalStoreId FoldState) = FoldAccumulator.default := by
    intro t _
    cases t <;> rfl
  constructor
  · rintro ⟨catalogs, h⟩
    obtain ⟨graph, states, r, hnew, hent, hrun, -⟩ := foldCatalogs_cases h
    have hspec := foldLoop_ok hnew (routes_catalog graph) (hT hent) hinit
    rw [hrun] at hspec
    exact ⟨(CausalGraph.new_ok hnew).1, hent, hspec.1⟩
  · rintro ⟨hv, hent, hacc⟩
    obtain ⟨graph, hnew⟩ := hv.new_ok
    have hspec := foldLoop_ok hnew (routes_catalog graph) (hT hent) hinit
    cases hrun : foldLoop (applyCatalogOperation (S := FoldState) graph) graph.ordered ∅ .initial with
    | error e =>
      rw [hrun] at hspec
      obtain rfl | ⟨-, hno⟩ := hspec
      · exact absurd (by simp [foldCatalogs, hnew, hent, hrun]) hbudget
      · exact absurd hacc hno
    | ok res => simp [foldCatalogs, hnew, hent, hrun]

theorem Replicas.wrongEntity {left right union : List DomainOperation} {domain : String}
    (h : Replicas left right union) (hleft : Wayjournal.wrongEntity left domain = false)
    (hright : Wayjournal.wrongEntity right domain = false) :
    Wayjournal.wrongEntity union domain = false := by
  rw [wrongEntity_eq_false] at hleft hright ⊢
  refine ⟨?_, h.entity⟩
  intro x hx
  obtain hx | hx := (h.mem x).mp hx
  · exact hleft.1 x hx
  · exact hright.1 x hx

/-- Both folds accept the union of two replicas they accept exactly when it is
unobstructed, as long as the reachability budget lasts. -/
theorem union_folds_iff_unobstructed (left right union : List DomainOperation)
    (h : Replicas left right union) :
    ((∃ profile, foldProfile left = .ok profile) → (∃ profile, foldProfile right = .ok profile) →
      foldProfile union ≠ .error .budget →
      ((∃ profile, foldProfile union = .ok profile) ↔ Unobstructed union)) ∧
    ((∃ catalogs, foldCatalogs left = .ok catalogs) →
      (∃ catalogs, foldCatalogs right = .ok catalogs) →
      foldCatalogs union ≠ .error .budget →
      ((∃ catalogs, foldCatalogs union = .ok catalogs) ↔ Unobstructed union)) := by
  refine ⟨?_, ?_⟩
  · rintro ⟨pl, hpl⟩ ⟨pr, hpr⟩ hbudget
    obtain ⟨hvl, hel, hal⟩ := (foldProfile_eq_ok_iff (by simp [hpl])).mp ⟨pl, hpl⟩
    obtain ⟨hvr, her, har⟩ := (foldProfile_eq_ok_iff (by simp [hpr])).mp ⟨pr, hpr⟩
    rw [foldProfile_eq_ok_iff hbudget, ← h.acceptsFrom_iff hvl hvr hal har]
    exact ⟨fun ⟨_, _, hacc⟩ => hacc, fun hacc => ⟨h.valid hvl hvr, h.wrongEntity hel her, hacc⟩⟩
  · rintro ⟨cl, hcl⟩ ⟨cr, hcr⟩ hbudget
    obtain ⟨hvl, hel, hal⟩ := (foldCatalogs_eq_ok_iff (by simp [hcl])).mp ⟨cl, hcl⟩
    obtain ⟨hvr, her, har⟩ := (foldCatalogs_eq_ok_iff (by simp [hcr])).mp ⟨cr, hcr⟩
    rw [foldCatalogs_eq_ok_iff hbudget, ← h.acceptsFrom_iff hvl hvr hal har]
    exact ⟨fun ⟨_, _, hacc⟩ => hacc, fun hacc => ⟨h.valid hvl hvr, h.wrongEntity hel her, hacc⟩⟩

namespace Sample

def nickname : DomainOperation := profileOperation 0 [] (.add .alias "k" (.text "v")) rfl

def removal (n : Fin 16) : DomainOperation :=
  profileOperation n [recordId 0] (.remove .alias "k" [recordId 0]) rfl

end Sample

/-- A concurrent rename of smaller identifier makes a resolution of the first
name fail, and a concurrent remove of the same add makes a remove fail. -/
theorem union_of_replicas_rejected :
    (Replicas [Sample.name, Sample.resolution] [Sample.name, Sample.rename]
        [Sample.name, Sample.rename, Sample.resolution] ∧
      (foldProfile [Sample.name, Sample.resolution]).isOk = true ∧
      (foldProfile [Sample.name, Sample.rename]).isOk = true ∧
      foldProfile [Sample.name, Sample.rename, Sample.resolution] =
        .error (.invalidResolution (Sample.recordId 2))) ∧
    (Replicas [Sample.nickname, Sample.removal 1] [Sample.nickname, Sample.removal 2]
        [Sample.nickname, Sample.removal 1, Sample.removal 2] ∧
      (foldProfile [Sample.nickname, Sample.removal 1]).isOk = true ∧
      (foldProfile [Sample.nickname, Sample.removal 2]).isOk = true ∧
      foldProfile [Sample.nickname, Sample.removal 1, Sample.removal 2] =
        .error (.invalidObservedRemove (Sample.recordId 2))) := by
  refine ⟨⟨?_, rfl, rfl, rfl⟩, ⟨?_, rfl, rfl, rfl⟩⟩
  · refine ⟨by decide, ?_, by decide, by decide, by decide, by decide⟩
    intro x
    simp only [List.mem_cons, List.not_mem_nil, or_false]
    tauto
  · refine ⟨by decide, ?_, by decide, by decide, by decide, by decide⟩
    intro x
    simp only [List.mem_cons, List.not_mem_nil, or_false]
    tauto

theorem union_folds_iff_unobstructed_siblings :
    (∃ profile, foldProfile [Sample.name, Sample.rename, Sample.sibling] = .ok profile) ↔
      Unobstructed [Sample.name, Sample.rename, Sample.sibling] := by
  have h : Replicas [Sample.name, Sample.rename] [Sample.name, Sample.sibling]
      [Sample.name, Sample.rename, Sample.sibling] := by
    refine ⟨by decide, ?_, by decide, by decide, by decide, by decide⟩
    intro x
    simp only [List.mem_cons, List.not_mem_nil, or_false]
    tauto
  refine (union_folds_iff_unobstructed _ _ _ h).1 ⟨_, rfl⟩ ⟨_, rfl⟩ ?_
  intro hbudget
  cases hbudget

end Wayjournal
