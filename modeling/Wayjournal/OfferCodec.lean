import Wayjournal.Capability
import Wayjournal.Projection

namespace Wayjournal

open Collections Serde Text

def CAPABILITY_OFFER_SCHEMA_V1 : String := "wayjournal.capability-offer/v1"
def MAX_CAPABILITY_OFFER_BYTES : Nat := 64 * 1024

def CapabilityOfferError.ofStrict : StrictJsonError → CapabilityOfferError
  | .invalid => .invalidJson
  | .duplicateKey key => .duplicateKey key
  | .floatNotAllowed => .floatNotAllowed

instance {k : CapabilityKind} : Deserialize (CapabilityIdentifier k) where
  fromValue v := (fromValue v : Option String).bind fun text => (CapabilityIdentifier.parse k text).toOption

def CapabilityIdentifier.toValue {k : CapabilityKind} (id : CapabilityIdentifier k) : Json := .string id.asStr

structure RawCapabilityOffer extends CapabilitySets where
  logicalStoreId : LogicalStoreId
  schema : String

namespace RawCapabilityOffer

def fields : List String :=
  ["logical_store_id", "required_capabilities", "required_projections", "schema", "supported_capabilities",
    "supported_projections"]

def values (raw : RawCapabilityOffer) : List Json :=
  [raw.logicalStoreId.toValue, .array (raw.requiredCapabilities.map CapabilityIdentifier.toValue),
    .array (raw.requiredProjections.map CapabilityIdentifier.toValue), .string raw.schema,
    .array (raw.supportedCapabilities.map CapabilityIdentifier.toValue),
    .array (raw.supportedProjections.map CapabilityIdentifier.toValue)]

def toValue (raw : RawCapabilityOffer) : Json := .object (.ofList (fields.zip raw.values))

end RawCapabilityOffer

instance : Deserialize RawCapabilityOffer where
  fromValue v := do
    let [logicalStoreId, requiredCapabilities, requiredProjections, schema, supportedCapabilities,
      supportedProjections] ← structFields RawCapabilityOffer.fields v | none
    let logicalStoreId ← required logicalStoreId
    let requiredCapabilities ← required requiredCapabilities
    let requiredProjections ← required requiredProjections
    let schema ← required schema
    return ⟨⟨requiredCapabilities, requiredProjections, ← required supportedCapabilities,
      ← required supportedProjections⟩, logicalStoreId, schema⟩

def encodeCapabilityOffer (offer : CapabilityOffer) : Except CapabilityOfferError Bytes := do
  validateOfferSets offer.toCapabilitySets
  let raw : RawCapabilityOffer := ⟨offer.toCapabilitySets, offer.logicalStoreId, CAPABILITY_OFFER_SCHEMA_V1⟩
  let bytes ← (encodePretty raw.toValue).mapError .ofStrict
  if bytes.length > MAX_CAPABILITY_OFFER_BYTES then throw .tooLarge
  return bytes

def decodeCapabilityOffer (bytes : Bytes) : Except CapabilityOfferError CapabilityOffer := do
  if bytes.length > MAX_CAPABILITY_OFFER_BYTES then throw .tooLarge
  let value ← (decodeStrict bytes).mapError .ofStrict
  let some raw := (fromValue value : Option RawCapabilityOffer) | throw .invalidDocument
  if raw.schema ≠ CAPABILITY_OFFER_SCHEMA_V1 then throw .unsupportedSchema
  let offer ← CapabilityOffer.new raw.logicalStoreId raw.toCapabilitySets
  if (← encodeCapabilityOffer offer) ≠ bytes then throw .nonCanonical
  return offer

end Wayjournal
