import Wayjournal.Domains.Fold

namespace Wayjournal

open Collections

/-- An operation without its payload; `source` says where it is loaded from. -/
structure DomainOperationHeader where
  source : Nat
  recordId : RecordId
  entityId : EntityId
  parents : List RecordId
  domain : DomainId

instance : CausalNode DomainOperationHeader := ⟨DomainOperationHeader.recordId, DomainOperationHeader.parents⟩

def DomainOperation.intoHeader (operation : DomainOperation) (source : Nat) : DomainOperationHeader :=
  ⟨source, operation.recordId, operation.entityId, operation.parents, operation.domain⟩

inductive FoldLoadError (ε : Type)
  | load (error : ε)
  | fold (error : FoldError)

variable {ε σ : Type}

/-- The loop over the ordered headers, each loaded when its turn comes. -/
def loadedLoop (load : Nat → Except ε DomainOperation)
    (step : DomainOperation → σ → Reachability → Except FoldError (σ × Reachability)) :
    List DomainOperationHeader → σ → Reachability → Except (FoldLoadError ε) (σ × Reachability)
  | [], state, r => .ok (state, r)
  | header :: rest, state, r =>
    match load header.source with
    | .error e => .error (.load e)
    | .ok operation =>
      match step operation state r with
      | .error e => .error (.fold e)
      | .ok (state, r) => loadedLoop load step rest state r

def validateLoadedBuiltinFold (operations : List DomainOperationHeader) (load : Nat → Except ε DomainOperation) :
    Except (FoldLoadError ε) Unit :=
  match operations with
  | [] => .ok ()
  | first :: _ =>
    match CausalGraph.new operations with
    | .error e => .error (.fold (.causal e))
    | .ok graph =>
      if operations.any (fun op => op.domain ≠ first.domain || op.entityId ≠ first.entityId) then
        .error (.fold .wrongEntity)
      else if first.domain.asStr = CATALOG_DOMAIN then
        (loadedLoop load (applyCatalogOperation (S := ValidationFoldState) graph) graph.ordered ∅ .initial).map
          (fun _ => ())
      else
        (loadedLoop load (applyOperation (S := ValidationFoldState) graph) graph.ordered FoldAccumulator.default
          .initial).map (fun _ => ())

end Wayjournal
