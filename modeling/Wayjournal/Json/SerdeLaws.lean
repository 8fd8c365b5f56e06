import Wayjournal.Json.Serde

namespace Wayjournal

open Collections

namespace Json

theorem eq_ofView {v : Json} {w : View} (h : v.view = w) : v = ofView w := by
  rw [← h, ofView_view]

def isObject (v : Json) : Bool :=
  match v.view with
  | .object _ => true
  | _ => false

def isString (v : Json) : Bool :=
  match v.view with
  | .string _ => true
  | _ => false

def isAny (_ : Json) : Bool := true

def isArrayOf (plain : Json → Bool) (v : Json) : Bool :=
  match v.view with
  | .array items => items.all plain
  | _ => false

def isNullOr (plain : Json → Bool) (v : Json) : Bool :=
  match v.view with
  | .null => true
  | _ => plain v

theorem isObject_iff {v : Json} : v.isObject = true ↔ ∃ members, v = .object members := by
  constructor
  · intro h
    unfold isObject at h
    split at h
    · rename_i members hview
      exact ⟨members, eq_ofView hview⟩
    · cases h
  · rintro ⟨members, rfl⟩
    rw [isObject, view_object]

theorem isString_iff {v : Json} : v.isString = true ↔ ∃ s, v = .string s := by
  constructor
  · intro h
    unfold isString at h
    split at h
    · rename_i s hview
      exact ⟨s, eq_ofView hview⟩
    · cases h
  · rintro ⟨s, rfl⟩
    rfl

end Json

namespace Serde

open Json

variable {α : Type} [Deserialize α]

/-- Among the values a type is read from, the plain ones are those it is written as. -/
def WrittenAs (plain : Json → Bool) (value : α → Json) : Prop :=
  ∀ v a, plain v = true ∧ fromValue v = some a ↔ v = value a

namespace WrittenAs

variable {plain : Json → Bool} {value : α → Json}

theorem read (h : WrittenAs plain value) (a : α) : fromValue (value a) = some a := ((h _ a).mpr rfl).2

theorem plain_value (h : WrittenAs plain value) (a : α) : plain (value a) = true := ((h _ a).mpr rfl).1

theorem eq_value (h : WrittenAs plain value) {v : Json} {a : α} (hplain : plain v = true)
    (hv : fromValue v = some a) : v = value a :=
  (h v a).mp ⟨hplain, hv⟩

/-- A field that is always written the same way. -/
theorem required_eq (h : WrittenAs isAny value) {slot : Option Json} {a : α} (hslot : required slot = some a) :
    slot = some (value a) := by
  obtain ⟨v, rfl, hv⟩ := Option.bind_eq_some_iff.mp hslot
  rw [h.eq_value rfl hv]

theorem string : WrittenAs isAny Json.string := by
  intro v s
  constructor
  · rintro ⟨-, h⟩
    simp only [fromValue] at h
    split at h
    · rename_i t hview
      cases h
      exact eq_ofView hview
    · cases h
  · rintro rfl
    exact ⟨rfl, rfl⟩

/-- A type that is read from its canonical text. -/
theorem text {toText : α → String} (parse : String → Option α)
    (hread : ∀ v : Json, fromValue v = (fromValue v : Option String).bind parse)
    (hparse : ∀ s a, parse s = some a ↔ s = toText a) : WrittenAs isAny (fun a => Json.string (toText a)) := by
  intro v a
  rw [hread, Option.bind_eq_some_iff]
  constructor
  · rintro ⟨-, s, hs, ha⟩
    rw [string.eq_value rfl hs, (hparse s a).mp ha]
  · rintro rfl
    exact ⟨rfl, toText a, rfl, (hparse _ a).mpr rfl⟩

theorem posInt : WrittenAs isAny (fun n : Fin (2 ^ 64) => Json.number (.posInt n)) := by
  intro v n
  constructor
  · rintro ⟨-, h⟩
    simp only [fromValue] at h
    split at h
    · rename_i m hview
      cases h
      exact eq_ofView hview
    · cases h
  · rintro rfl
    exact ⟨rfl, rfl⟩

theorem map_eq (h : WrittenAs plain value) {items : List Json} {l : List α} :
    items.all plain = true ∧ items.mapM fromValue = some l ↔ items = l.map value := by
  induction items generalizing l with
  | nil => cases l <;> simp
  | cons v items ih =>
    rw [List.mapM_cons, List.all_cons, Bool.and_eq_true]
    constructor
    · rintro ⟨⟨hv, hitems⟩, hread⟩
      obtain ⟨a, ha, hread⟩ := Option.bind_eq_some_iff.mp hread
      obtain ⟨rest, hrest, hread⟩ := Option.bind_eq_some_iff.mp hread
      cases hread
      rw [List.map_cons, ← h.eq_value hv ha, ← ih.mp ⟨hitems, hrest⟩]
    · intro heq
      cases l with
      | nil => cases heq
      | cons a l =>
        obtain ⟨rfl, hrest⟩ := List.cons.inj heq
        obtain ⟨hall, hread⟩ := ih.mpr hrest
        refine ⟨⟨h.plain_value a, hall⟩, ?_⟩
        rw [h.read, hread]
        rfl

theorem array (h : WrittenAs plain value) : WrittenAs (isArrayOf plain) (fun l : List α => Json.array (l.map value)) := by
  intro v l
  constructor
  · rintro ⟨hplain, hread⟩
    unfold isArrayOf at hplain
    simp only [fromValue] at hread
    split at hplain
    · rename_i items hview
      rw [hview] at hread
      have hitems : items = l.map value := h.map_eq.mp ⟨hplain, hread⟩
      rw [eq_ofView hview, hitems]
      rfl
    · cases hplain
  · rintro rfl
    obtain ⟨hall, hread⟩ := h.map_eq.mpr (rfl : l.map value = l.map value)
    refine ⟨?_, ?_⟩
    · rw [isArrayOf, view_array]
      exact hall
    · simp only [fromValue, view_array]
      exact hread

theorem option (h : WrittenAs plain value) (hnull : ∀ a, (value a).view ≠ .null) :
    WrittenAs (isNullOr plain) (fun o : Option α => o.elim .null value) := by
  intro v o
  by_cases hview : v.view = .null
  · obtain rfl : v = .null := eq_ofView hview
    cases o with
    | none => exact ⟨fun _ => rfl, fun _ => ⟨rfl, rfl⟩⟩
    | some a =>
      constructor
      · rintro ⟨-, hread⟩
        cases hread
      · intro heq
        exact absurd (congrArg view heq).symm (hnull a)
  · have hplain : isNullOr plain v = plain v := by
      unfold isNullOr
      split
      · rename_i hv
        exact absurd hv hview
      · rfl
    have hread : (fromValue v : Option (Option α)) = (fromValue v).map some := by
      simp only [fromValue]
    rw [hplain, hread]
    cases o with
    | none =>
      constructor
      · rintro ⟨-, hnone⟩
        obtain ⟨a, -, ha⟩ := Option.map_eq_some_iff.mp hnone
        cases ha
      · rintro rfl
        exact absurd rfl hview
    | some a => simpa using h v a

end WrittenAs

/-- An object with no other fields than those of the struct is made up of them. -/
theorem object_eq_of_fields {fields : List String} {values : List Json} {members : BTreeMap String Json}
    (hnodup : fields.Nodup) (hkeys : members.keys.all (fields.contains ·) = true)
    (hvalues : fields.map members.get? = values.map some) : members = .ofList (fields.zip values) := by
  have hlength : fields.length = values.length := by
    simpa only [List.length_map] using congrArg List.length hvalues
  have hfst : (fields.zip values).map Prod.fst = fields := List.map_fst_zip hlength.le
  apply BTreeMap.ext_get?
  intro k
  have hmem : ∀ v, members.get? k = some v ↔ (k, v) ∈ fields.zip values := by
    intro v
    have hzip : fields.zip (fields.map members.get?) = fields.map (fun f => (f, members.get? f)) := by
      exact List.zip_eq_zipWith.trans (List.zipWith_map_right.trans (List.zipWith_self ..))
    have hsome : (k, v) ∈ fields.zip values ↔ (k, some v) ∈ fields.zip (values.map some) := by
      rw [List.zip_map_right]
      simp
    rw [hsome, ← hvalues, hzip, List.mem_map]
    constructor
    · intro hget
      have hfield := List.all_eq_true.mp hkeys k (BTreeMap.mem_keys_iff.mpr ⟨v, hget⟩)
      exact ⟨k, List.contains_iff_mem.mp hfield, by rw [hget]⟩
    · rintro ⟨f, -, hf⟩
      obtain ⟨rfl, hget⟩ := Prod.mk.inj hf
      exact hget
  rw [← hfst] at hnodup
  refine Option.ext fun v => ?_
  rw [hmem, BTreeMap.get?_ofList hnodup]

theorem structFields_object_eq_some {fields : List String} {members : BTreeMap String Json} {slots : List (Option Json)} :
    structFields fields (.object members) = some slots ↔
      members.keys.all (fields.contains ·) = true ∧ fields.map members.get? = slots := by
  rw [structFields, view_object]
  dsimp only
  by_cases hkeys : members.keys.all (fields.contains ·) = true
  · rw [if_pos hkeys, Option.some.injEq]
    exact ⟨fun h => ⟨hkeys, h⟩, fun h => h.2⟩
  · rw [if_neg hkeys]
    constructor
    · rintro ⟨⟩
    · rintro ⟨h, -⟩
      exact absurd h hkeys

theorem object_or_array_of_structFields {fields : List String} {v : Json} {slots : List (Option Json)}
    (h : structFields fields v = some slots) : (∃ members, v = .object members) ∨ ∃ items, v = .array items := by
  unfold structFields at h
  split at h
  · rename_i members hview
    exact .inl ⟨members, eq_ofView hview⟩
  · rename_i items hview
    exact .inr ⟨items, eq_ofView hview⟩
  · cases h

theorem structFields_zip {fields : List String} {values : List Json} (hnodup : fields.Nodup)
    (hlength : fields.length = values.length) :
    structFields fields (.object (.ofList (fields.zip values))) = some (values.map some) := by
  have hfst : (fields.zip values).map Prod.fst = fields := List.map_fst_zip hlength.le
  have hsnd : (fields.zip values).map Prod.snd = values := List.map_snd_zip hlength.ge
  have hmembers := structFields_members (hfst.symm ▸ hnodup : ((fields.zip values).map Prod.fst).Nodup)
  rw [hfst] at hmembers
  rw [hmembers]
  conv_rhs => rw [← hsnd, List.map_map]
  rfl

/-- A struct of two fields that are always written the same way. -/
theorem WrittenAs.pair {α β γ : Type} [Deserialize α] [Deserialize β] [Deserialize γ] {a b : String} (hab : a ≠ b)
    (first : α → β) (second : α → γ) {valueB : β → Json} {valueC : γ → Json} (hb : WrittenAs isAny valueB)
    (hc : WrittenAs isAny valueC) (make : β → γ → Option α)
    (hread : ∀ v : Json, fromValue v = (structFields [a, b] v).bind fun slots =>
      match slots with
      | [x, y] => (required x).bind fun x => (required y).bind fun y => make x y
      | _ => none)
    (hmake : ∀ x y o, make x y = some o ↔ x = first o ∧ y = second o) :
    WrittenAs isObject (fun o => Json.object (.ofList [(a, valueB (first o)), (b, valueC (second o))])) := by
  have hnodup : [a, b].Nodup := by simp [hab]
  intro v o
  rw [hread]
  constructor
  · rintro ⟨hobject, hv⟩
    obtain ⟨members, rfl⟩ := isObject_iff.mp hobject
    obtain ⟨slots, hslots, hv⟩ := Option.bind_eq_some_iff.mp hv
    obtain ⟨hkeys, rfl⟩ := structFields_object_eq_some.mp hslots
    obtain ⟨x, hx, hv⟩ := Option.bind_eq_some_iff.mp hv
    obtain ⟨y, hy, hv⟩ := Option.bind_eq_some_iff.mp hv
    obtain ⟨p, hp, hx⟩ := Option.bind_eq_some_iff.mp hx
    obtain ⟨q, hq, hy⟩ := Option.bind_eq_some_iff.mp hy
    obtain ⟨rfl, rfl⟩ := (hmake x y o).mp hv
    have hmembers : members = .ofList ([a, b].zip [p, q]) :=
      object_eq_of_fields hnodup hkeys (by simp [hp, hq])
    rw [hmembers, hb.eq_value rfl hx, hc.eq_value rfl hy]
    rfl
  · rintro rfl
    refine ⟨isObject_iff.mpr ⟨_, rfl⟩, ?_⟩
    have hlength : [a, b].length = [valueB (first o), valueC (second o)].length := rfl
    have hslots := structFields_zip hnodup hlength
    refine Option.bind_eq_some_iff.mpr ⟨_, hslots, ?_⟩
    refine Option.bind_eq_some_iff.mpr ⟨first o, hb.read _, ?_⟩
    exact Option.bind_eq_some_iff.mpr ⟨second o, hc.read _, (hmake _ _ o).mpr ⟨rfl, rfl⟩⟩

/-- An enumeration of names is written as the name itself. -/
theorem WrittenAs.variant {name : α → String} {parse : String → Option α}
    (hread : ∀ s, fromValue (Json.string s) = parse s) (hparse : ∀ s a, parse s = some a ↔ s = name a) :
    WrittenAs isString (fun a => Json.string (name a)) := by
  intro v a
  constructor
  · rintro ⟨hstring, hv⟩
    obtain ⟨s, rfl⟩ := isString_iff.mp hstring
    rw [hread, hparse] at hv
    rw [hv]
  · rintro rfl
    exact ⟨rfl, (hread _).trans ((hparse _ a).mpr rfl)⟩

/-- An object with all of the fields, each of which passes its check. -/
def plainStruct (fields : List String) (checks : List (Json → Bool)) (v : Json) : Bool :=
  match v.view with
  | .object members => (fields.zip checks).all (fun e => (members.get? e.1).any e.2)
  | _ => false

theorem exists_values {fields : List String} {checks : List (Json → Bool)} {get : String → Option Json}
    (hlength : fields.length = checks.length) (h : (fields.zip checks).all (fun e => (get e.1).any e.2) = true) :
    ∃ values, List.Forall₂ (fun check w => check w = true) checks values ∧ fields.map get = values.map some := by
  induction fields generalizing checks with
  | nil =>
    cases checks with
    | nil => exact ⟨[], .nil, rfl⟩
    | cons => cases hlength
  | cons field fields ih =>
    cases checks with
    | nil => cases hlength
    | cons check checks =>
      rw [List.zip_cons_cons, List.all_cons, Bool.and_eq_true, Option.any_eq_true] at h
      obtain ⟨⟨w, hget, hw⟩, hrest⟩ := h
      obtain ⟨values, hchecks, hvalues⟩ := ih (Nat.succ.inj hlength) hrest
      refine ⟨w :: values, .cons hw hchecks, ?_⟩
      rw [List.map_cons, List.map_cons, hget, hvalues]

theorem plainStruct_iff {fields : List String} {checks : List (Json → Bool)} (hnodup : fields.Nodup)
    (hlength : fields.length = checks.length) {v : Json} {slots : List (Option Json)} :
    plainStruct fields checks v = true ∧ structFields fields v = some slots ↔
      ∃ values, List.Forall₂ (fun check w => check w = true) checks values ∧
        v = .object (.ofList (fields.zip values)) ∧ slots = values.map some := by
  constructor
  · rintro ⟨hplain, hslots⟩
    unfold plainStruct at hplain
    split at hplain
    · rename_i members hview
      obtain rfl : v = .object members := eq_ofView hview
      obtain ⟨hkeys, rfl⟩ := structFields_object_eq_some.mp hslots
      obtain ⟨values, hchecks, hvalues⟩ := exists_values hlength hplain
      exact ⟨values, hchecks, congrArg Json.object (object_eq_of_fields hnodup hkeys hvalues), hvalues⟩
    · cases hplain
  · rintro ⟨values, hchecks, rfl, rfl⟩
    have hlength' : fields.length = values.length := hlength.trans hchecks.length_eq
    have hslots := structFields_zip hnodup hlength'
    refine ⟨?_, hslots⟩
    obtain ⟨-, hget⟩ := structFields_object_eq_some.mp hslots
    rw [plainStruct, view_object]
    dsimp only
    rw [List.all_eq_true]
    rintro ⟨field, check⟩ he
    obtain ⟨i, hi, heq⟩ := List.getElem_of_mem he
    rw [List.getElem_zip] at heq
    obtain ⟨hfield, hcheck⟩ := Prod.mk.inj heq
    have hifields : i < fields.length := by
      rw [List.length_zip] at hi
      omega
    have hw := congrArg (fun l : List (Option Json) => l[i]?) hget
    rw [List.getElem?_map, List.getElem?_map, List.getElem?_eq_getElem hifields,
      List.getElem?_eq_getElem (hlength' ▸ hifields)] at hw
    rw [Option.any_eq_true]
    refine ⟨_, (hfield ▸ Option.some.inj hw :), ?_⟩
    rw [← hcheck]
    exact List.Forall₂.get hchecks _ _

end Serde

end Wayjournal
