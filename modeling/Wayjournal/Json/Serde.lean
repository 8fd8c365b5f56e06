import Wayjournal.Json.Value
import Wayjournal.LogicalStore

namespace Wayjournal

open Collections

/-- `serde_json::from_value`; the text of its errors is left out. -/
class Deserialize (α : Type) where
  fromValue : Json → Option α

export Deserialize (fromValue)

namespace Serde

instance : Deserialize String where
  fromValue v :=
    match v.view with
    | .string s => some s
    | _ => none

instance : Deserialize Bool where
  fromValue v :=
    match v.view with
    | .bool b => some b
    | _ => none

instance [Deserialize α] : Deserialize (List α) where
  fromValue v :=
    match v.view with
    | .array items => items.mapM fromValue
    | _ => none

instance [Deserialize α] : Deserialize (Option α) where
  fromValue v :=
    match v.view with
    | .null => some none
    | _ => (fromValue v).map some

def fromText [FromStr α] (v : Json) : Option α := do
  let s ← (fromValue v : Option String)
  (FromStr.fromStr s).toOption

/-- The values of the fields of a derived struct that denies unknown fields, in
the order of their declaration; a sequence gives them by position. -/
def structFields (fields : List String) (v : Json) : Option (List (Option Json)) :=
  match v.view with
  | .object members =>
    if members.keys.all (fields.contains ·) then some (fields.map members.get?) else none
  | .array items =>
    if items.length ≤ fields.length then
      some (items.map some ++ List.replicate (fields.length - items.length) none)
    else none
  | _ => none

def required [Deserialize α] (field : Option Json) : Option α := field.bind fromValue

/-- A field with `#[serde(default)]`. -/
def defaulted [Deserialize α] (default : α) : Option Json → Option α
  | none => some default
  | some v => fromValue v

/-- A field of type `Option` without a default: only an object may leave it out. -/
def optional [Deserialize α] (whole : Json) : Option Json → Option (Option α)
  | some v => fromValue v
  | none =>
    match whole.view with
    | .object _ => some none
    | _ => none

/-- An object with exactly the fields of the struct gives their values. -/
theorem structFields_members {members : List (String × Json)} (h : (members.map Prod.fst).Nodup) :
    structFields (members.map Prod.fst) (.object (.ofList members)) =
      some (members.map (fun e => some e.2)) := by
  have hkeys : (BTreeMap.ofList members).keys.all ((members.map Prod.fst).contains ·) = true := by
    rw [List.all_eq_true]
    intro k hk
    obtain ⟨v, hv⟩ := BTreeMap.mem_keys_iff.mp hk
    rw [List.contains_iff_mem]
    exact List.mem_map.mpr ⟨_, (BTreeMap.get?_ofList h).mp hv, rfl⟩
  rw [structFields, Json.view_object]
  simp only [hkeys, if_true, List.map_map, Option.some.injEq]
  refine List.map_congr_left fun e he => ?_
  exact (BTreeMap.get?_ofList h).mpr he

@[simp] theorem fromValue_string (s : String) : (fromValue (Json.string s) : Option String) = some s := rfl

instance : Deserialize (Fin (2 ^ 64)) where
  fromValue v :=
    match v.view with
    | .number (.posInt n) => some n
    | _ => none

end Serde

open Serde

instance {k : UuidKind} : Deserialize (UuidId k) := ⟨fromText⟩

instance {k : TokenKind} : Deserialize (TokenId k) := ⟨fromText⟩

instance : Deserialize Digest where
  fromValue v := (fromValue v : Option String).bind Digest.parse

instance : Deserialize LogicalStoreId where
  fromValue v := do
    let [storeUuid, genesisFingerprint] ← structFields ["store_uuid", "genesis_fingerprint"] v | none
    return ⟨← required storeUuid, ← required genesisFingerprint⟩

instance : Deserialize QualifiedEntityRef where
  fromValue v := do
    let [store, domain, entityId] ← structFields ["store", "domain", "entity_id"] v | none
    return ⟨← required store, ← required domain, ← required entityId⟩

end Wayjournal
