import Wayjournal.Causal.Relabel
import Wayjournal.Domains.Convergence
import Wayjournal.Domains.LoadedFold

namespace Wayjournal

open Collections FoldAccumulator LawfulFoldAccumulator

section Agreement

variable {S S' : Type} [FoldAccumulator S] [FoldAccumulator S']

/-- The same identifiers are active in both accumulators. -/
structure Agrees (s : S) (s' : S') : Prop where
  registers : ∀ f, registerIds s f = registerIds s' f
  adds : ∀ f k, addIds s f k = addIds s' f k

variable [LawfulFoldAccumulator S] [LawfulFoldAccumulator S']

theorem Agrees.default : Agrees (default : S) (default : S') where
  registers f := by rw [registerIds_default, registerIds_default]
  adds f k := by rw [addIds_default, addIds_default]

variable {s : S} {s' : S'} (h : Agrees s s')

include h

theorem Agrees.insertRegister (f : ScalarField) (id : RecordId) (v : ScalarValue) :
    Agrees (insertRegister s f id v) (insertRegister s' f id v) where
  registers g := by
    refine eq_of_sorted_of_mem_iff (registerIds_sorted _ _) (registerIds_sorted _ _) (fun a => ?_)
    rw [mem_insertRegister, mem_insertRegister, h.registers]
  adds g k := by rw [addIds_insertRegister, addIds_insertRegister, h.adds]

theorem Agrees.removeRegisters (f : ScalarField) (ids : List RecordId) :
    Agrees (ids.foldl (fun s c => removeRegister s f c) s) (ids.foldl (fun s c => removeRegister s f c) s') where
  registers g := by
    refine eq_of_sorted_of_mem_iff (registerIds_sorted _ _) (registerIds_sorted _ _) (fun a => ?_)
    rw [mem_registerIds_removeAll, mem_registerIds_removeAll, h.registers]
  adds g k := by rw [addIds_removeAllRegister, addIds_removeAllRegister, h.adds]

theorem Agrees.insertAdd (f : SetField) (k : String) (id : RecordId) (v : SetValue) :
    Agrees (insertAdd s f k id v) (insertAdd s' f k id v) where
  registers g := by rw [registerIds_insertAdd, registerIds_insertAdd, h.registers]
  adds g k' := by
    refine eq_of_sorted_of_mem_iff (addIds_sorted _ _ _) (addIds_sorted _ _ _) (fun a => ?_)
    rw [mem_insertAdd, mem_insertAdd, h.adds]

theorem Agrees.removeAdds (f : SetField) (k : String) (ids : List RecordId) :
    Agrees (ids.foldl (fun s c => removeAdd s f k c) s) (ids.foldl (fun s c => removeAdd s f k c) s') where
  registers g := by rw [registerIds_removeAllAdd, registerIds_removeAllAdd, h.registers]
  adds g k' := by
    refine eq_of_sorted_of_mem_iff (addIds_sorted _ _ _) (addIds_sorted _ _ _) (fun a => ?_)
    rw [mem_addIds_removeAll, mem_addIds_removeAll, h.adds]

end Agreement

/-- Two runs end alike: in related states with the same budget left, or in the
error the first one maps to. -/
inductive EndsAlike {ε ε' σ σ' : Type} (E : ε → ε') (R : σ → σ' → Prop) :
    Except ε (σ × Reachability) → Except ε' (σ' × Reachability) → Prop
  | ok {s s' r} : R s s' → EndsAlike E R (.ok (s, r)) (.ok (s', r))
  | error (e) : EndsAlike E R (.error e) (.error (E e))

theorem EndsAlike.outcome {E : ε → ε'} {R : σ → σ' → Prop} {x : Except ε (σ × Reachability)}
    {y : Except ε' (σ' × Reachability)} (h : EndsAlike E R x y) :
    y.map Prod.snd = (x.map Prod.snd).mapError E := by
  cases h <;> rfl

theorem EndsAlike.discard {E : ε → ε'} {R : σ → σ' → Prop} {x : Except ε (σ × Reachability)}
    {y : Except ε' (σ' × Reachability)} (h : EndsAlike E R x y) :
    y.map (fun _ => ()) = (x.map (fun _ => ())).mapError E := by
  cases h <;> rfl

section Step

variable {α β S S' : Type} [CausalNode α] [CausalNode β] [FoldAccumulator S] [FoldAccumulator S']
  {graph : CausalGraph α} {graph' : CausalGraph β}
  (hgraph : ∀ o c r, graph'.observesBounded o c r = graph.observesBounded o c r)

include hgraph

theorem observed_congr (o : RecordId) (ids : List RecordId) (r : Reachability) :
    observed graph' o ids r = observed graph o ids r := by
  induction ids generalizing r with
  | nil => rfl
  | cons c t ih => simp only [observed, hgraph, ih]

variable [LawfulFoldAccumulator S] [LawfulFoldAccumulator S']

theorem applyOperation_endsAlike (operation : DomainOperation) {s : S} {s' : S'} (h : Agrees s s')
    (r : Reachability) :
    EndsAlike (fun e => e) Agrees (applyOperation graph operation s r) (applyOperation graph' operation s' r) := by
  simp only [applyOperation, observed_congr hgraph, ← h.registers, ← h.adds]
  split
  · split
    · exact .error _
    · exact .ok ((h.removeRegisters _ _).insertRegister _ _ _)
  · split
    · exact .error _
    split
    · exact .error _
    · exact .ok ((h.removeRegisters _ _).insertRegister _ _ _)
  · exact .ok (h.insertAdd _ _ _ _)
  · split
    · exact .error _
    split
    · exact .error _
    · exact .ok (h.removeAdds _ _ _)

/-- The accumulators of every target agree. -/
def AgreesAt (states : BTreeMap LogicalStoreId S) (states' : BTreeMap LogicalStoreId S') : Prop :=
  ∀ t, Agrees ((states.get? t).getD default) ((states'.get? t).getD default)

theorem applyCatalogOperation_endsAlike (operation : DomainOperation) {states : BTreeMap LogicalStoreId S}
    {states' : BTreeMap LogicalStoreId S'} (h : AgreesAt states states') (r : Reachability) :
    EndsAlike (fun e => e) AgreesAt (applyCatalogOperation graph operation states r)
      (applyCatalogOperation graph' operation states' r) := by
  simp only [applyCatalogOperation]
  cases operation.target with
  | none => exact .error _
  | some target =>
    have hstep := applyOperation_endsAlike hgraph operation (h target) r
    simp only
    generalize applyOperation graph operation ((states.get? target).getD default) r = x at hstep ⊢
    generalize applyOperation graph' operation ((states'.get? target).getD default) r = y at hstep ⊢
    cases hstep with
    | error e => exact .error _
    | ok hagrees =>
      refine .ok (fun t => ?_)
      rw [BTreeMap.get?_insert, BTreeMap.get?_insert]
      split
      · exact hagrees
      · exact h t

end Step

section Loop

variable {ε σ σ' : Type} {load : Nat → Except ε DomainOperation} {R : σ → σ' → Prop}
  {step : DomainOperation → σ → Reachability → Except FoldError (σ × Reachability)}
  {step' : DomainOperation → σ' → Reachability → Except FoldError (σ' × Reachability)}
  (hstep : ∀ operation s s' r, R s s' → EndsAlike (fun e => e) R (step operation s r) (step' operation s' r))

include hstep

theorem loadedLoop_endsAlike {operations : List DomainOperation} {headers : List DomainOperationHeader}
    (hload : List.Forall₂ (fun operation header => load header.source = .ok operation) operations headers)
    {s : σ} {s' : σ'} (h : R s s') (r : Reachability) :
    EndsAlike FoldLoadError.fold R (foldLoop step operations s r) (loadedLoop load step' headers s' r) := by
  induction hload generalizing s s' r with
  | nil => exact .ok h
  | @cons operation header _ _ hhead _ ih =>
    simp only [foldLoop, loadedLoop, hhead]
    have hnext := hstep operation s s' r h
    generalize step operation s r = x at hnext ⊢
    generalize step' operation s' r = y at hnext ⊢
    cases hnext with
    | error e => exact .error _
    | ok hnext => exact ih hnext _

end Loop

/-- An operation with the place it is loaded from. -/
abbrev Sourced := DomainOperation × Nat

instance : CausalNode Sourced := ⟨fun x => x.1.recordId, fun x => x.1.parents⟩

def Sourced.header (x : Sourced) : DomainOperationHeader := x.1.intoHeader x.2

theorem relabels_operation : CausalGraph.Relabels (fun x : Sourced => x.1) := ⟨fun _ => rfl, fun _ => rfl⟩

theorem relabels_header : CausalGraph.Relabels Sourced.header := ⟨fun _ => rfl, fun _ => rfl⟩

/-- The header was taken from the operation, and the loader returns that operation. -/
def LoadsBack {ε : Type} (load : Nat → Except ε DomainOperation) (operation : DomainOperation)
    (header : DomainOperationHeader) : Prop :=
  header = operation.intoHeader header.source ∧ load header.source = .ok operation

theorem exists_sourced {ε : Type} {load : Nat → Except ε DomainOperation} {operations : List DomainOperation}
    {headers : List DomainOperationHeader} (h : List.Forall₂ (LoadsBack load) operations headers) :
    ∃ sourced : List Sourced, operations = sourced.map Prod.fst ∧ headers = sourced.map Sourced.header ∧
      ∀ x ∈ sourced, load x.2 = .ok x.1 := by
  induction h with
  | nil => exact ⟨[], rfl, rfl, by simp⟩
  | @cons operation header _ _ hhead _ ih =>
    obtain ⟨sourced, rfl, rfl, hload⟩ := ih
    refine ⟨(operation, header.source) :: sourced, rfl, ?_, List.forall_mem_cons.mpr ⟨hhead.2, hload⟩⟩
    rw [List.map_cons]
    exact congrArg (· :: _) hhead.1

section

variable {ε : Type} {load : Nat → Except ε DomainOperation} {sourced : List Sourced}
  (hload : ∀ x ∈ sourced, load x.2 = .ok x.1)

include hload

theorem forall₂_ordered {graph : CausalGraph Sourced} (hnew : CausalGraph.new sourced = .ok graph) (n : Nat) :
    List.Forall₂ (fun operation (header : DomainOperationHeader) => load header.source = .ok operation)
      ((graph.ordered.map Prod.fst).take n) ((graph.ordered.map Sourced.header).take n) := by
  obtain ⟨hv, -, hord⟩ := CausalGraph.new_ok hnew
  rw [← List.map_take, ← List.map_take, List.forall₂_map_left_iff, List.forall₂_map_right_iff, List.forall₂_same]
  intro x hx
  have hmem : x ∈ CausalGraph.order sourced := hord ▸ List.mem_of_mem_take hx
  exact hload x (hv.order_perm.mem_iff.mp hmem)

end

/-- All operations are of one domain and entity. -/
def Uniform (domain : DomainId) (entity : EntityId) (operations : List DomainOperation) : Prop :=
  ∀ operation ∈ operations, operation.domain = domain ∧ operation.entityId = entity

section

variable {ε : Type} {load : Nat → Except ε DomainOperation} {sourced : List Sourced} {domain : DomainId}
  {entity : EntityId} (huniform : Uniform domain entity (sourced.map Prod.fst))

include huniform

theorem Uniform.wrongEntity : wrongEntity (sourced.map Prod.fst) domain.asStr = false := by
  rw [wrongEntity_eq_false]
  refine ⟨fun x hx => congrArg _ (huniform x hx).1, fun x hx y hy => ?_⟩
  rw [(huniform x hx).2, (huniform y hy).2]

theorem Uniform.validateLoadedBuiltinFold (hne : sourced ≠ []) :
    validateLoadedBuiltinFold (sourced.map Sourced.header) load =
      match CausalGraph.new sourced with
      | .error e => .error (.fold (.causal e))
      | .ok graph =>
        if domain.asStr = CATALOG_DOMAIN then
          (loadedLoop load (applyCatalogOperation (S := ValidationFoldState) (graph.relabel Sourced.header))
            (graph.ordered.map Sourced.header) ∅ .initial).map (fun _ => ())
        else
          (loadedLoop load (applyOperation (S := ValidationFoldState) (graph.relabel Sourced.header))
            (graph.ordered.map Sourced.header) FoldAccumulator.default .initial).map (fun _ => ()) := by
  cases sourced with
  | nil => exact absurd rfl hne
  | cons x rest =>
    have hsame : ((x :: rest).map Sourced.header).any (fun op => op.domain ≠ x.header.domain ||
        op.entityId ≠ x.header.entityId) = false := by
      have hx := huniform x.1 (by simp)
      simp only [List.any_eq_false, Bool.or_eq_true, decide_eq_true_eq, not_or, not_not, List.mem_map]
      rintro _ ⟨y, hy, rfl⟩
      have hy := huniform y.1 (List.mem_map_of_mem hy)
      exact ⟨hy.1.trans hx.1.symm, hy.2.trans hx.2.symm⟩
    have hfirst : x.header.domain = domain := (huniform x.1 (by simp)).1
    have hnew := CausalGraph.new_map relabels_header (x :: rest)
    rw [List.map_cons] at hnew hsame ⊢
    simp only [Wayjournal.validateLoadedBuiltinFold, hnew, hsame]
    cases CausalGraph.new (x :: rest) with
    | error e => rfl
    | ok graph =>
      simp only [Except.map, hfirst]
      rfl

end

theorem foldProfile_outcome {operations : List DomainOperation}
    (h : wrongEntity operations PROFILE_DOMAIN = false) :
    (foldProfile operations).map (fun _ => ()) =
      match CausalGraph.new operations with
      | .error e => .error (.causal e)
      | .ok graph => (foldLoop (applyOperation (S := FoldState) graph) graph.ordered default .initial).map
          (fun _ => ()) := by
  simp only [foldProfile, fold, h]
  cases CausalGraph.new operations with
  | error e => rfl
  | ok graph =>
    simp only [Bool.false_eq_true, if_false]
    cases foldLoop (applyOperation (S := FoldState) graph) graph.ordered default .initial with
    | error e => rfl
    | ok s => rfl

theorem foldCatalogs_outcome {operations : List DomainOperation}
    (h : wrongEntity operations CATALOG_DOMAIN = false) :
    (foldCatalogs operations).map (fun _ => ()) =
      match CausalGraph.new operations with
      | .error e => .error (.causal e)
      | .ok graph => (foldLoop (applyCatalogOperation (S := FoldState) graph) graph.ordered ∅ .initial).map
          (fun _ => ()) := by
  simp only [foldCatalogs, h]
  cases CausalGraph.new operations with
  | error e => rfl
  | ok graph =>
    simp only [Bool.false_eq_true, if_false]
    cases foldLoop (applyCatalogOperation (S := FoldState) graph) graph.ordered ∅ .initial with
    | error e => rfl
    | ok s => rfl

theorem observesBounded_header (graph : CausalGraph Sourced) (o c : RecordId) (r : Reachability) :
    (graph.relabel Sourced.header).observesBounded o c r =
      (graph.relabel (fun x : Sourced => x.1)).observesBounded o c r := by
  rw [CausalGraph.observesBounded_relabel relabels_header, CausalGraph.observesBounded_relabel relabels_operation]

section

variable {ε : Type} {load : Nat → Except ε DomainOperation} {sourced : List Sourced}
  (hload : ∀ x ∈ sourced, load x.2 = .ok x.1)

include hload

theorem profile_endsAlike {graph : CausalGraph Sourced} (hnew : CausalGraph.new sourced = .ok graph) (n : Nat) :
    EndsAlike FoldLoadError.fold Agrees
      (foldLoop (applyOperation (S := FoldState) (graph.relabel Prod.fst)) ((graph.ordered.map Prod.fst).take n)
        default .initial)
      (loadedLoop load (applyOperation (S := ValidationFoldState) (graph.relabel Sourced.header))
        ((graph.ordered.map Sourced.header).take n) default .initial) :=
  loadedLoop_endsAlike (fun operation _ _ r h => applyOperation_endsAlike (observesBounded_header graph) operation h r)
    (forall₂_ordered hload hnew n) .default .initial

theorem catalog_endsAlike {graph : CausalGraph Sourced} (hnew : CausalGraph.new sourced = .ok graph) (n : Nat) :
    EndsAlike FoldLoadError.fold AgreesAt
      (foldLoop (applyCatalogOperation (S := FoldState) (graph.relabel Prod.fst))
        ((graph.ordered.map Prod.fst).take n) ∅ .initial)
      (loadedLoop load (applyCatalogOperation (S := ValidationFoldState) (graph.relabel Sourced.header))
        ((graph.ordered.map Sourced.header).take n) ∅ .initial) :=
  loadedLoop_endsAlike
    (fun operation _ _ r h => applyCatalogOperation_endsAlike (observesBounded_header graph) operation h r)
    (forall₂_ordered hload hnew n) (fun _ => .default) .initial

end

end Wayjournal
