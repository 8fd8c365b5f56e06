import Wayjournal.Projection

namespace Wayjournal

open Collections Serde Text

def PROOF_VECTOR_SCHEMA_V1 : String := "wayjournal.proof-vector/v1"
def MAX_PROOFS : Nat := 4096

variable [Jiff] [Blake3]

def validateProofs (proofs : List VerifiedProof) : Except ProjectionError Unit := do
  if proofs.length > MAX_PROOFS then throw .tooManyProofs
  if !ascending (proofs.map VerifiedProof.proofId) then throw .invalidProofOrder
  if proofs.any (fun proof => proof.proofId ≠ proof.recomputedProofId) then throw .proofIdMismatch

structure ProofVector where
  proofs : List VerifiedProof
  valid : validateProofs proofs = .ok ()

def ProofVector.new (proofs : List VerifiedProof) : Except ProjectionError ProofVector :=
  match h : validateProofs proofs with
  | .error e => .error e
  | .ok () => .ok ⟨proofs, h⟩

structure RawProofVector where
  proofs : List RawVerifiedProof
  schema : String

namespace RawProofVector

def fields : List String := ["proofs", "schema"]

def toValue (raw : RawProofVector) : Json :=
  .object (.ofList (fields.zip [.array (raw.proofs.map RawVerifiedProof.toValue), .string raw.schema]))

end RawProofVector

instance : Deserialize RawProofVector where
  fromValue v := do
    let [proofs, schema] ← structFields RawProofVector.fields v | none
    return ⟨← required proofs, ← required schema⟩

def encodeProofVector (vector : ProofVector) : Except ProjectionError Bytes := do
  validateProofs vector.proofs
  encodeRaw (RawProofVector.toValue ⟨vector.proofs.map RawVerifiedProof.ofProof, PROOF_VECTOR_SCHEMA_V1⟩)

def decodeProofVector (bytes : Bytes) : Except ProjectionError ProofVector := do
  requireSize bytes
  let value ← (decodeStrict bytes).mapError .ofStrict
  let some raw := (fromValue value : Option RawProofVector) | throw .invalidDocument
  if raw.schema ≠ PROOF_VECTOR_SCHEMA_V1 then throw .unsupportedSchema
  if raw.proofs.length > MAX_PROOFS then throw .tooManyProofs
  let proofs ← raw.proofs.mapM RawVerifiedProof.toProof
  let vector ← ProofVector.new proofs
  if (← encodeProofVector vector) ≠ bytes then throw .nonCanonical
  return vector

end Wayjournal
