import Wayjournal.Domains.Operation

namespace Wayjournal

open Collections

inductive FoldError
  | causal (error : CausalError)
  | wrongEntity
  | wrongTarget (expected actual : LogicalStoreId)
  | invalidResolution (recordId : RecordId)
  | invalidObservedRemove (recordId : RecordId)
  deriving DecidableEq

def FoldError.budget : FoldError := .causal (.reachabilityBudget MAX_REACHABILITY_STEPS)

/-- The active identifiers a fold keeps for each field and key. -/
class FoldAccumulator (S : Type) where
  default : S
  registerIds : S → ScalarField → List RecordId
  removeRegister : S → ScalarField → RecordId → S
  insertRegister : S → ScalarField → RecordId → ScalarValue → S
  addIds : S → SetField → String → List RecordId
  removeAdd : S → SetField → String → RecordId → S
  insertAdd : S → SetField → String → RecordId → SetValue → S

/-- A map of ordered maps, as both accumulators keep it. -/
abbrev ActiveMap (κ υ : Type) [LinearOrder κ] := BTreeMap κ (BTreeMap RecordId υ)

namespace ActiveMap

variable {κ υ : Type} [LinearOrder κ]

def active (m : ActiveMap κ υ) (k : κ) : List RecordId := ((m.get? k).map BTreeMap.keys).getD []

def remove (m : ActiveMap κ υ) (k : κ) (id : RecordId) : ActiveMap κ υ :=
  match m.get? k with
  | none => m
  | some ids => m.insert k (ids.erase id)

def add (m : ActiveMap κ υ) (k : κ) (id : RecordId) (v : υ) : ActiveMap κ υ :=
  m.update k ∅ (fun ids => ids.insert id v)

end ActiveMap

structure FoldState where
  registers : ActiveMap ScalarField ScalarValue
  adds : ActiveMap (SetField ×ₗ String) SetValue

instance : FoldAccumulator FoldState where
  default := ⟨∅, ∅⟩
  registerIds s field := s.registers.active field
  removeRegister s field id := { s with registers := s.registers.remove field id }
  insertRegister s field id value := { s with registers := s.registers.add field id value }
  addIds s field key := s.adds.active (toLex (field, key))
  removeAdd s field key id := { s with adds := s.adds.remove (toLex (field, key)) id }
  insertAdd s field key id value := { s with adds := s.adds.add (toLex (field, key)) id value }

structure ValidationFoldState where
  registers : ActiveMap ScalarField Unit
  adds : ActiveMap (SetField ×ₗ String) Unit

instance : FoldAccumulator ValidationFoldState where
  default := ⟨∅, ∅⟩
  registerIds s field := s.registers.active field
  removeRegister s field id := { s with registers := s.registers.remove field id }
  insertRegister s field id _ := { s with registers := s.registers.add field id () }
  addIds s field key := s.adds.active (toLex (field, key))
  removeAdd s field key id := { s with adds := s.adds.remove (toLex (field, key)) id }
  insertAdd s field key id _ := { s with adds := s.adds.add (toLex (field, key)) id () }

section

variable {α S : Type} [CausalNode α] [FoldAccumulator S]

open FoldAccumulator

/-- The identifiers of `ids` that `observer` observes, in order; the budget is
spent along the way. -/
def observed (graph : CausalGraph α) (observer : RecordId) :
    List RecordId → Reachability → List RecordId × Reachability
  | [], r => ([], r)
  | candidate :: rest, r =>
    let seen := graph.observesBounded observer candidate r
    let more := observed graph observer rest seen.2
    (if seen.1 then candidate :: more.1 else more.1, more.2)

def applyOperation (graph : CausalGraph α) (operation : DomainOperation) (state : S)
    (r : Reachability) : Except FoldError (S × Reachability) :=
  match operation.kind with
  | .scalarSet field value =>
    let seen := observed graph operation.recordId (registerIds state field) r
    if seen.2.exceeded then .error .budget
    else
      let cleared := seen.1.foldl (fun s candidate => removeRegister s field candidate) state
      .ok (insertRegister cleared field operation.recordId value, seen.2)
  | .scalarResolve field value candidates =>
    let seen := observed graph operation.recordId (registerIds state field) r
    if seen.2.exceeded then .error .budget
    else if seen.1 ≠ candidates then .error (.invalidResolution operation.recordId)
    else
      let cleared := candidates.foldl (fun s candidate => removeRegister s field candidate) state
      .ok (insertRegister cleared field operation.recordId value, seen.2)
  | .add field key value => .ok (insertAdd state field key operation.recordId value, r)
  | .remove field key adds =>
    let seen := observed graph operation.recordId (addIds state field key) r
    if seen.2.exceeded then .error .budget
    else if seen.1 ≠ adds then .error (.invalidObservedRemove operation.recordId)
    else .ok (adds.foldl (fun s add => removeAdd s field key add) state, seen.2)

def applyCatalogOperation (graph : CausalGraph α) (operation : DomainOperation)
    (states : BTreeMap LogicalStoreId S) (r : Reachability) :
    Except FoldError (BTreeMap LogicalStoreId S × Reachability) :=
  match operation.target with
  | none => .error .wrongEntity
  | some target =>
    match applyOperation graph operation ((states.get? target).getD default) r with
    | .error e => .error e
    | .ok (state, r) => .ok (states.insert target state, r)

end

/-- The loop of a fold over the ordered operations. -/
def foldLoop {σ : Type}
    (step : DomainOperation → σ → Reachability → Except FoldError (σ × Reachability)) :
    List DomainOperation → σ → Reachability → Except FoldError (σ × Reachability)
  | [], state, r => .ok (state, r)
  | operation :: rest, state, r =>
    match step operation state r with
    | .error e => .error e
    | .ok (state, r) => foldLoop step rest state r

/-- Some operation is of another domain or entity than the first one. -/
def wrongEntity (operations : List DomainOperation) (expectedDomain : String) : Bool :=
  operations.any (fun op => op.domain.asStr ≠ expectedDomain ||
    some op.entityId ≠ operations.head?.map DomainOperation.entityId)

def fold (operations : List DomainOperation) (expectedDomain : String) :
    Except FoldError FoldState :=
  match CausalGraph.new operations with
  | .error e => .error (.causal e)
  | .ok graph =>
    if wrongEntity operations expectedDomain then .error .wrongEntity
    else
      match foldLoop (applyOperation graph) graph.ordered FoldAccumulator.default .initial with
      | .error e => .error e
      | .ok (state, _) => .ok state

structure MvRegister (T : Type) where
  values : List T
  deriving DecidableEq

abbrev Values (T : Type) := BTreeMap String (List T)

def register {T : Type} [LinearOrder T] (state : FoldState) (field : ScalarField)
    (convert : ScalarValue → Option T) : MvRegister T :=
  ⟨sortDedup ((((state.registers.get? field).map BTreeMap.values).getD []).filterMap convert)⟩

def values {T : Type} [LinearOrder T] (state : FoldState) (field : SetField)
    (convert : SetValue → Option T) : Values T :=
  BTreeMap.ofList ((state.adds.entries.filter (fun e => (ofLex e.1).1 = field)).filterMap (fun e =>
    let values := sortDedup (e.2.values.filterMap convert)
    if values.isEmpty then none else some ((ofLex e.1).2, values)))

def ScalarValue.text? : ScalarValue → Option String
  | .text v => some v
  | _ => none

def ScalarValue.bool? : ScalarValue → Option Bool
  | .bool v => some v
  | _ => none

def ScalarValue.store? : ScalarValue → Option LogicalStoreId
  | .store v => some v
  | _ => none

def SetValue.text? : SetValue → Option String
  | .text v => some v
  | _ => none

def SetValue.remote? : SetValue → Option RemoteLocator
  | .remote v => some v
  | _ => none

def SetValue.qualified? : SetValue → Option QualifiedEntityRef
  | .qualified v => some v
  | _ => none

def SetValue.relation? : SetValue → Option CatalogRelation
  | .relation v => some v
  | _ => none

structure AdvisoryProfile where
  displayName : MvRegister String
  description : MvRegister String
  applicationIdentity : MvRegister String
  recommendedRemotes : Values RemoteLocator
  storeRelations : Values QualifiedEntityRef
  capabilityHints : Values String
  actorAliases : Values String
  advisoryPolicyHints : Values String
  deriving DecidableEq

def foldProfile (operations : List DomainOperation) : Except FoldError AdvisoryProfile :=
  match fold operations PROFILE_DOMAIN with
  | .error e => .error e
  | .ok state => .ok
    { displayName := register state .displayName ScalarValue.text?
      description := register state .description ScalarValue.text?
      applicationIdentity := register state .application ScalarValue.text?
      recommendedRemotes := values state .remote SetValue.remote?
      storeRelations := values state .relation SetValue.qualified?
      capabilityHints := values state .capability SetValue.text?
      actorAliases := values state .alias SetValue.text?
      advisoryPolicyHints := values state .policy SetValue.text? }

structure CatalogEntry where
  target : LogicalStoreId
  entryName : MvRegister String
  enabled : MvRegister Bool
  contextualDefaultStore : MvRegister LogicalStoreId
  aliases : Values String
  candidateRemotes : Values RemoteLocator
  groups : Values String
  storeRelations : Values CatalogRelation
  deriving DecidableEq

def catalogEntry (target : LogicalStoreId) (state : FoldState) : CatalogEntry where
  target
  entryName := register state .entryName ScalarValue.text?
  enabled := register state .enabled ScalarValue.bool?
  contextualDefaultStore := register state .defaultStore ScalarValue.store?
  aliases := values state .alias SetValue.text?
  candidateRemotes := values state .remote SetValue.remote?
  groups := values state .group SetValue.text?
  storeRelations := values state .relation SetValue.relation?

def foldCatalogs (operations : List DomainOperation) :
    Except FoldError (BTreeMap LogicalStoreId CatalogEntry) :=
  match CausalGraph.new operations with
  | .error e => .error (.causal e)
  | .ok graph =>
    if wrongEntity operations CATALOG_DOMAIN then .error .wrongEntity
    else
      match foldLoop (applyCatalogOperation (S := FoldState) graph) graph.ordered ∅ .initial with
      | .error e => .error e
      | .ok (states, _) => .ok (states.mapValues catalogEntry)

end Wayjournal
