import Wayjournal.Control.Except
import Wayjournal.Hash
import Wayjournal.Json.Soundness

namespace Wayjournal

open Collections

inductive StrictJsonError
  | invalid
  | duplicateKey (key : String)
  | floatNotAllowed
  deriving DecidableEq

def StrictJsonError.ofParse : Json.ParseError → StrictJsonError
  | .invalid => .invalid
  | .duplicateKey key => .duplicateKey key
  | .floatNotAllowed => .floatNotAllowed

def decodeStrict (bytes : Bytes) : Except StrictJsonError Json :=
  match h : Json.parse bytes with
  | .error e => .error (.ofParse e)
  | .ok raw => .ok ⟨raw, (Json.parse_sound h).2⟩

def encodePretty (value : Json) : Except StrictJsonError Bytes :=
  if value.noFloats then .ok (Json.print 0 value.raw ++ [0x0a]) else .error .floatNotAllowed

def RECORD_SCHEMA_V1 : String := "wayjournal.record/v1"
def MAX_RECORD_BYTES : Nat := 1024 * 1024

def ENVELOPE_FIELDS : List String :=
  ["actor", "batch_id", "domain", "entity_id", "kind", "occurred_at", "parents", "payload",
    "record_id", "record_schema", "recorded_at"]

structure DomainRegistration where
  domain : String
  schema : String
  kinds : List String
  validator : KindId → Json → Except String Unit

structure DomainRegistry where
  registrations : List DomainRegistration
  sealedBuiltins : Bool

inductive RecordCodecError
  | recordTooLarge
  | invalidJson
  | duplicateKey (key : String)
  | floatNotAllowed
  | envelopeNotObject
  | missingField (field : String)
  | unknownField (field : String)
  | invalidField (field message : String)
  | unsupportedSchema (schema : String)
  | unknownDomainSchema (domain schema : String)
  | unknownKind (schema kind : String)
  | invalidPayload (message : String)
  | invalidParents
  | nonCanonical
  deriving DecidableEq

def RecordCodecError.ofStrict : StrictJsonError → RecordCodecError
  | .invalid => .invalidJson
  | .duplicateKey key => .duplicateKey key
  | .floatNotAllowed => .floatNotAllowed

namespace DomainRegistry

def supports (registry : DomainRegistry) (domain schema : String) : Bool :=
  registry.registrations.any (fun r => r.domain = domain && r.schema = schema)

def validate (registry : DomainRegistry) (domain : DomainId) (schema : RecordSchemaId)
    (kind : KindId) (payload : Json) : Except RecordCodecError Unit :=
  match registry.registrations.find? (fun r => r.domain = domain.asStr && r.schema = schema.asStr) with
  | none => .error (.unknownDomainSchema domain.asStr schema.asStr)
  | some registration =>
    if !registration.kinds.contains kind.asStr then .error (.unknownKind schema.asStr kind.asStr)
    else (registration.validator kind payload).mapError .invalidPayload

end DomainRegistry

section

variable [Jiff]

structure Record where
  recordSchema : RecordSchemaId
  domain : DomainId
  kind : KindId
  recordId : RecordId
  entityId : EntityId
  batchId : BatchId
  actor : ActorId
  occurredAt : RecordTimestamp
  recordedAt : RecordTimestamp
  parents : List RecordId
  payload : Json

def Record.canonicalPath (record : Record) : String :=
  "journal/records/" ++ record.domain.asStr ++ "/" ++ record.entityId.display ++ "/" ++
    record.recordId.display ++ ".json"

def validateRecord (record : Record) (registry : DomainRegistry) : Except RecordCodecError Unit :=
  if !ascending record.parents || record.parents.contains record.recordId then .error .invalidParents
  else registry.validate record.domain record.recordSchema record.kind record.payload

/-- The members of the envelope; the map keeps them sorted. -/
def envelopeMembers (record : Record) : List (String × Json) :=
  [("actor", .string record.actor.asStr),
    ("batch_id", .string record.batchId.display),
    ("domain", .string record.domain.asStr),
    ("entity_id", .string record.entityId.display),
    ("kind", .string record.kind.asStr),
    ("occurred_at", .string record.occurredAt.display),
    ("parents", .array (record.parents.map (fun p => .string p.display))),
    ("payload", record.payload),
    ("record_id", .string record.recordId.display),
    ("record_schema", .string record.recordSchema.asStr),
    ("recorded_at", .string record.recordedAt.display),
    ("schema", .string RECORD_SCHEMA_V1)]

def envelope (record : Record) : Json := .object (BTreeMap.ofList (envelopeMembers record))

def encodeRecord (record : Record) (registry : DomainRegistry) : Except RecordCodecError Bytes := do
  validateRecord record registry
  let bytes ← (encodePretty (envelope record)).mapError .ofStrict
  if bytes.length > MAX_RECORD_BYTES then throw .recordTooLarge
  return bytes

/-- `object.remove(field)`. -/
def takeField (object : BTreeMap String Json) (field : String) :
    Except RecordCodecError (Json × BTreeMap String Json) :=
  match object.get? field with
  | none => .error (.missingField field)
  | some value => .ok (value, object.erase field)

def takeString (object : BTreeMap String Json) (field : String) :
    Except RecordCodecError (String × BTreeMap String Json) := do
  let (value, object) ← takeField object field
  match value.view with
  | .string s => return (s, object)
  | _ => throw (.invalidField field "expected a string")

def parseField (α : Type) [FromStr α] (object : BTreeMap String Json) (field : String) :
    Except RecordCodecError (α × BTreeMap String Json) := do
  let (s, object) ← takeString object field
  let x ← (FromStr.fromStr s).mapError (fun e => .invalidField field e.message)
  return (x, object)

def takeStringArray (object : BTreeMap String Json) (field : String) :
    Except RecordCodecError (List String × BTreeMap String Json) := do
  let (value, object) ← takeField object field
  match value.view with
  | .array items =>
    let strings ← items.mapM (fun item =>
      match item.view with
      | .string s => Except.ok s
      | _ => .error (.invalidField field "expected an array of strings"))
    return (strings, object)
  | _ => throw (.invalidField field "expected an array of strings")

def recordFromObject (object : BTreeMap String Json) : Except RecordCodecError Record := do
  let (recordSchema, object) ← parseField RecordSchemaId object "record_schema"
  let (domain, object) ← parseField DomainId object "domain"
  let (kind, object) ← parseField KindId object "kind"
  let (recordId, object) ← parseField RecordId object "record_id"
  let (entityId, object) ← parseField EntityId object "entity_id"
  let (batchId, object) ← parseField BatchId object "batch_id"
  let (actor, object) ← parseField ActorId object "actor"
  let (occurredAt, object) ← parseField RecordTimestamp object "occurred_at"
  let (recordedAt, object) ← parseField RecordTimestamp object "recorded_at"
  let (strings, object) ← takeStringArray object "parents"
  let parents ← strings.mapM (fun s =>
    (FromStr.fromStr s).mapError (fun e => RecordCodecError.invalidField "parents" e.message))
  let (payload, _) ← takeField object "payload"
  return ⟨recordSchema, domain, kind, recordId, entityId, batchId, actor, occurredAt, recordedAt,
    parents, payload⟩

def recordFromValue (value : Json) : Except RecordCodecError Record :=
  match value.view with
  | .object object => do
    let (schema, object) ← takeString object "schema"
    if schema ≠ RECORD_SCHEMA_V1 then throw (.unsupportedSchema schema)
    if let some field := object.keys.find? (fun f => !ENVELOPE_FIELDS.contains f && f ≠ "schema") then
      throw (.unknownField field)
    recordFromObject object
  | _ => .error .envelopeNotObject

def decodeRecord (bytes : Bytes) (registry : DomainRegistry) : Except RecordCodecError Record := do
  if bytes.length > MAX_RECORD_BYTES then throw .recordTooLarge
  let value ← (decodeStrict bytes).mapError .ofStrict
  let record ← recordFromValue value
  validateRecord record registry
  let encoded ← encodeRecord record registry
  if encoded ≠ bytes then throw .nonCanonical
  return record

end

end Wayjournal
