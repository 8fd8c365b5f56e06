import Wayjournal.Collections.BTreeMap
import Mathlib.Algebra.GroupWithZero.Nat
import Mathlib.Data.String.Basic

namespace Wayjournal.Json

open Collections

instance neZeroWord : NeZero (2 ^ 64) := ⟨by decide⟩

/-- A JSON number: `u64`, a negative `i64` (`negInt m` is `-(m + 1)`), or a
double given by its bits. -/
inductive Number
  | posInt (n : Fin (2 ^ 64))
  | negInt (m : Fin (2 ^ 63))
  | float (bits : UInt64)
  deriving DecidableEq

/-- The tree of a JSON value; the members of an object come as a list. -/
inductive Raw
  | null
  | bool (b : Bool)
  | number (n : Number)
  | string (s : String)
  | array (items : List Raw)
  | object (members : List (String × Raw))

namespace Raw

theorem induction {P : Raw → Prop} (null : P .null) (bool : ∀ b, P (.bool b))
    (number : ∀ n, P (.number n)) (string : ∀ s, P (.string s))
    (array : ∀ items, (∀ v ∈ items, P v) → P (.array items))
    (object : ∀ members, (∀ e ∈ members, P e.2) → P (.object members)) (v : Raw) : P v := by
  apply @Raw.rec P (fun items => ∀ v ∈ items, P v) (fun members => ∀ e ∈ members, P e.2)
    (fun e => P e.2)
  · exact null
  · exact bool
  · exact number
  · exact string
  · exact array
  · exact object
  · simp
  · intro head tail hhead htail v hv
    obtain rfl | hv := List.mem_cons.mp hv
    · exact hhead
    · exact htail v hv
  · simp
  · intro head tail hhead htail e he
    obtain rfl | he := List.mem_cons.mp he
    · exact hhead
    · exact htail e he
  · exact fun _ _ h => h

mutual

/-- How many containers are nested. -/
def depth : Raw → Nat
  | .array items => depthItems items + 1
  | .object members => depthMembers members + 1
  | _ => 0

def depthItems : List Raw → Nat
  | [] => 0
  | v :: vs => max v.depth (depthItems vs)

def depthMembers : List (String × Raw) → Nat
  | [] => 0
  | (_, v) :: es => max v.depth (depthMembers es)

end

mutual

/-- Every object's keys increase strictly. -/
def sorted : Raw → Bool
  | .array items => sortedItems items
  | .object members => ascending (members.map Prod.fst) && sortedMembers members
  | _ => true

def sortedItems : List Raw → Bool
  | [] => true
  | v :: vs => v.sorted && sortedItems vs

def sortedMembers : List (String × Raw) → Bool
  | [] => true
  | (_, v) :: es => v.sorted && sortedMembers es

end

mutual

def noFloats : Raw → Bool
  | .number (.float _) => false
  | .array items => noFloatsItems items
  | .object members => noFloatsMembers members
  | _ => true

def noFloatsItems : List Raw → Bool
  | [] => true
  | v :: vs => v.noFloats && noFloatsItems vs

def noFloatsMembers : List (String × Raw) → Bool
  | [] => true
  | (_, v) :: es => v.noFloats && noFloatsMembers es

end

theorem depthItems_le {items : List Raw} {n : Nat} :
    depthItems items ≤ n ↔ ∀ v ∈ items, v.depth ≤ n := by
  induction items with
  | nil => simp [depthItems]
  | cons v vs ih => simp [depthItems, ih]

theorem depthMembers_le {members : List (String × Raw)} {n : Nat} :
    depthMembers members ≤ n ↔ ∀ e ∈ members, e.2.depth ≤ n := by
  induction members with
  | nil => simp [depthMembers]
  | cons e es ih => simp [depthMembers, ih]

theorem sortedItems_iff {items : List Raw} :
    sortedItems items = true ↔ ∀ v ∈ items, v.sorted = true := by
  induction items with
  | nil => simp [sortedItems]
  | cons v vs ih => simp [sortedItems, ih]

theorem sortedMembers_iff {members : List (String × Raw)} :
    sortedMembers members = true ↔ ∀ e ∈ members, e.2.sorted = true := by
  induction members with
  | nil => simp [sortedMembers]
  | cons e es ih => simp [sortedMembers, ih]

theorem noFloatsItems_iff {items : List Raw} :
    noFloatsItems items = true ↔ ∀ v ∈ items, v.noFloats = true := by
  induction items with
  | nil => simp [noFloatsItems]
  | cons v vs ih => simp [noFloatsItems, ih]

theorem noFloatsMembers_iff {members : List (String × Raw)} :
    noFloatsMembers members = true ↔ ∀ e ∈ members, e.2.noFloats = true := by
  induction members with
  | nil => simp [noFloatsMembers]
  | cons e es ih => simp [noFloatsMembers, ih]

end Raw

end Wayjournal.Json

namespace Wayjournal

open Collections

/-- A JSON value: an object is an ordered map. -/
structure Json where
  raw : Json.Raw
  sorted : raw.sorted = true

namespace Json

theorem raw_injective : Function.Injective raw := by
  rintro ⟨a, _⟩ ⟨b, _⟩ h
  cases h
  rfl

def null : Json := ⟨.null, rfl⟩
def bool (b : Bool) : Json := ⟨.bool b, rfl⟩
def number (n : Number) : Json := ⟨.number n, rfl⟩
def string (s : String) : Json := ⟨.string s, rfl⟩

def array (items : List Json) : Json :=
  ⟨.array (items.map raw), by
    rw [Raw.sorted, Raw.sortedItems_iff]
    intro v hv
    obtain ⟨j, -, rfl⟩ := List.mem_map.mp hv
    exact j.sorted⟩

def object (members : BTreeMap String Json) : Json :=
  ⟨.object (members.entries.map (fun e => (e.1, e.2.raw))), by
    rw [Raw.sorted, Bool.and_eq_true, ascending_iff, Raw.sortedMembers_iff]
    refine ⟨?_, ?_⟩
    · simpa [List.map_map, Function.comp_def] using members.sorted
    · intro e he
      obtain ⟨m, -, rfl⟩ := List.mem_map.mp he
      exact m.2.sorted⟩

/-- One layer of a JSON value. -/
inductive View
  | null
  | bool (b : Bool)
  | number (n : Number)
  | string (s : String)
  | array (items : List Json)
  | object (members : BTreeMap String Json)

def attachItems : (items : List Raw) → Raw.sortedItems items = true → List Json
  | [], _ => []
  | v :: vs, h => ⟨v, (Bool.and_eq_true_iff.mp h).1⟩ :: attachItems vs (Bool.and_eq_true_iff.mp h).2

def attachMembers : (members : List (String × Raw)) → Raw.sortedMembers members = true →
    List (String × Json)
  | [], _ => []
  | (k, v) :: es, h =>
    (k, ⟨v, (Bool.and_eq_true_iff.mp h).1⟩) :: attachMembers es (Bool.and_eq_true_iff.mp h).2

theorem map_raw_attachItems (items : List Raw) (h : Raw.sortedItems items = true) :
    (attachItems items h).map raw = items := by
  induction items with
  | nil => rfl
  | cons v vs ih => rw [attachItems, List.map_cons, ih]

theorem map_raw_attachMembers (members : List (String × Raw))
    (h : Raw.sortedMembers members = true) :
    (attachMembers members h).map (fun e => (e.1, e.2.raw)) = members := by
  induction members with
  | nil => rfl
  | cons e es ih => rw [attachMembers, List.map_cons, ih]

theorem map_fst_attachMembers (members : List (String × Raw))
    (h : Raw.sortedMembers members = true) :
    (attachMembers members h).map Prod.fst = members.map Prod.fst := by
  induction members with
  | nil => rfl
  | cons e es ih => rw [attachMembers, List.map_cons, ih, List.map_cons]

def view : Json → View
  | ⟨.null, _⟩ => .null
  | ⟨.bool b, _⟩ => .bool b
  | ⟨.number n, _⟩ => .number n
  | ⟨.string s, _⟩ => .string s
  | ⟨.array items, h⟩ => .array (attachItems items h)
  | ⟨.object members, h⟩ => .object ⟨attachMembers members (Bool.and_eq_true_iff.mp h).2, by
      rw [map_fst_attachMembers]
      exact ascending_iff.mp (Bool.and_eq_true_iff.mp h).1⟩

/-- The value one layer stands for. -/
def ofView : View → Json
  | .null => null
  | .bool b => bool b
  | .number n => number n
  | .string s => string s
  | .array items => array items
  | .object members => object members

@[simp] theorem ofView_view (j : Json) : ofView j.view = j := by
  apply raw_injective
  obtain ⟨v, h⟩ := j
  cases v with
  | array items => exact congrArg Raw.array (map_raw_attachItems items h)
  | object members => exact congrArg Raw.object (map_raw_attachMembers members _)
  | _ => rfl

theorem map_raw_injective : Function.Injective (List.map raw) :=
  List.map_injective_iff.mpr raw_injective

@[simp] theorem view_ofView (w : View) : (ofView w).view = w := by
  cases w with
  | array items =>
    simp only [ofView, array, view, View.array.injEq]
    apply map_raw_injective
    exact map_raw_attachItems _ _
  | object members =>
    simp only [ofView, object, view, View.object.injEq]
    apply BTreeMap.entries_inj
    have hinj : Function.Injective (fun e : String × Json => (e.1, e.2.raw)) := by
      rintro ⟨a, x⟩ ⟨b, y⟩ h
      simp only [Prod.mk.injEq] at h
      rw [h.1, raw_injective h.2]
    apply List.map_injective_iff.mpr hinj
    exact map_raw_attachMembers _ _
  | _ => rfl

@[simp] theorem view_object (m : BTreeMap String Json) : (object m).view = .object m :=
  view_ofView (.object m)

@[simp] theorem view_array (l : List Json) : (array l).view = .array l := view_ofView (.array l)

@[simp] theorem view_string (s : String) : (string s).view = .string s := rfl

def depth (j : Json) : Nat := j.raw.depth

def noFloats (j : Json) : Bool := j.raw.noFloats

theorem depth_array_le {items : List Json} {n : Nat} :
    (array items).depth ≤ n + 1 ↔ ∀ v ∈ items, v.depth ≤ n := by
  rw [depth, array, Raw.depth, Nat.add_le_add_iff_right, Raw.depthItems_le, List.forall_mem_map]
  rfl

theorem depth_object_le {members : BTreeMap String Json} {n : Nat} :
    (object members).depth ≤ n + 1 ↔ ∀ e ∈ members.entries, e.2.depth ≤ n := by
  rw [depth, object, Raw.depth, Nat.add_le_add_iff_right, Raw.depthMembers_le, List.forall_mem_map]
  rfl

theorem noFloats_array {items : List Json} :
    (array items).noFloats = true ↔ ∀ v ∈ items, v.noFloats = true := by
  rw [noFloats, array, Raw.noFloats, Raw.noFloatsItems_iff, List.forall_mem_map]
  rfl

theorem noFloats_object {members : BTreeMap String Json} :
    (object members).noFloats = true ↔ ∀ e ∈ members.entries, e.2.noFloats = true := by
  rw [noFloats, object, Raw.noFloats, Raw.noFloatsMembers_iff, List.forall_mem_map]
  rfl

end Json

end Wayjournal
