import Mathlib.Data.String.Basic
import Mathlib.Data.Rat.Defs
import Tqsdk.Lib.OrdMap

/-!
# JSON documents

`Value` is `serde_json::Value`: an object is a map in key order (`serde_json::Map` is a
`BTreeMap` here, no `preserve_order` feature), and equality is the derived `PartialEq`.

A `Number` keeps the three representations of `serde_json::Number`.  A finite `f64` is
identified with the rational it denotes, so `0.0` and `-0.0` are one value, as they are
for `PartialEq`.
-/

namespace Tqsdk

/-- `serde_json::Number`: a `u64`, a negative `i64`, or a finite `f64`. -/
inductive Number
  | posInt (n : Nat)
  | negInt (n : Int)
  | float (value : Rat)
  deriving DecidableEq

/-- `serde_json::Value`. -/
inductive Value
  | null
  | bool (b : Bool)
  | number (n : Number)
  | string (s : String)
  | array (items : List Value)
  | object (fields : List (String × Value))
  deriving Inhabited

/-- `serde_json::Map<String, Value>`. -/
abbrev Fields := List (String × Value)

namespace Value

mutual

/-- Structural equality of documents is decidable. -/
def decEq : (a b : Value) → Decidable (a = b)
  | .null, .null => isTrue rfl
  | .bool a, .bool b => decidable_of_iff (a = b) (by simp)
  | .number a, .number b => decidable_of_iff (a = b) (by simp)
  | .string a, .string b => decidable_of_iff (a = b) (by simp)
  | .array a, .array b =>
    match decEqItems a b with
    | isTrue h => isTrue (by rw [h])
    | isFalse h => isFalse (by simpa using h)
  | .object a, .object b =>
    match decEqFields a b with
    | isTrue h => isTrue (by rw [h])
    | isFalse h => isFalse (by simpa using h)
  | .null, .bool _ | .null, .number _ | .null, .string _ | .null, .array _ | .null, .object _
  | .bool _, .null | .bool _, .number _ | .bool _, .string _ | .bool _, .array _
  | .bool _, .object _ | .number _, .null | .number _, .bool _ | .number _, .string _
  | .number _, .array _ | .number _, .object _ | .string _, .null | .string _, .bool _
  | .string _, .number _ | .string _, .array _ | .string _, .object _ | .array _, .null
  | .array _, .bool _ | .array _, .number _ | .array _, .string _ | .array _, .object _
  | .object _, .null | .object _, .bool _ | .object _, .number _ | .object _, .string _
  | .object _, .array _ => isFalse (by simp)

def decEqItems : (a b : List Value) → Decidable (a = b)
  | [], [] => isTrue rfl
  | [], _ :: _ | _ :: _, [] => isFalse (by simp)
  | x :: xs, y :: ys =>
    match decEq x y, decEqItems xs ys with
    | isTrue h, isTrue h' => isTrue (by rw [h, h'])
    | isFalse h, _ => isFalse (by simp [h])
    | _, isFalse h => isFalse (by simp [h])

def decEqFields : (a b : List (String × Value)) → Decidable (a = b)
  | [], [] => isTrue rfl
  | [], _ :: _ | _ :: _, [] => isFalse (by simp)
  | (j, x) :: xs, (k, y) :: ys =>
    match decEq x y, decEqFields xs ys with
    | isTrue h, isTrue h' => decidable_of_iff (j = k) (by simp [h, h'])
    | isFalse h, _ => isFalse (by simp [h])
    | _, isFalse h => isFalse (by simp [h])

end

instance : DecidableEq Value := decEq

/-! ## Accessors of `serde_json` -/

def isNull : Value → Bool
  | .null => true
  | _ => false

def isObject : Value → Bool
  | .object _ => true
  | _ => false

def asObject : Value → Option Fields
  | .object fields => some fields
  | _ => none

def asArray : Value → Option (List Value)
  | .array items => some items
  | _ => none

def asStr : Value → Option String
  | .string s => some s
  | _ => none

def asBool : Value → Option Bool
  | .bool b => some b
  | _ => none

/-- `Value::as_i64`: an integer in the `i64` range, never a float. -/
def asI64 : Value → Option Int
  | .number (.posInt n) => if n < 2 ^ 63 then some n else none
  | .number (.negInt n) => some n
  | _ => none

/-- `Value::get` with a string index. -/
def get (key : String) (v : Value) : Option Value :=
  v.asObject.bind (OrdMap.get? key)

/-- `Value::from(i64)`. -/
def ofI64 (n : Int) : Value :=
  .number (if 0 ≤ n then .posInt n.toNat else .negInt n)

/-- The entries of an object, none of anything else. -/
def entries (v : Value) : Fields := v.asObject.getD []

@[simp] theorem isObject_object (m : Fields) : (object m).isObject = true := rfl

@[simp] theorem asObject_object (m : Fields) : (object m).asObject = some m := rfl

@[simp] theorem entries_object (m : Fields) : (object m).entries = m := rfl

variable {v : Value} {fields : Fields}

theorem isNull_iff : v.isNull = true ↔ v = .null := by
  cases v <;> simp [isNull]

theorem isObject_iff : v.isObject = true ↔ ∃ m, v = .object m := by
  cases v <;> simp [isObject]

/-! ## Reading along a path -/

/-- `get_at_path`: follow object keys; anything else on the way reads as absent. -/
def getAtPath : Value → List String → Option Value
  | v, [] => some v
  | v, segment :: rest => (v.get segment).bind fun child => getAtPath child rest

@[simp] theorem getAtPath_nil (v : Value) : v.getAtPath [] = some v := by
  simp [getAtPath]

theorem getAtPath_cons (v : Value) (seg : String) (rest : List String) :
    v.getAtPath (seg :: rest) = (v.get seg).bind fun child => child.getAtPath rest := by
  rw [getAtPath]

@[simp] theorem get_object (key : String) (m : Fields) :
    (object m).get key = OrdMap.get? key m := rfl

theorem get_of_not_object (scalar : v.isObject = false) (key : String) :
    v.get key = none := by
  cases v <;> simp_all [get, asObject, isObject]

theorem getAtPath_append (v : Value) (path rest : List String) :
    v.getAtPath (path ++ rest) = (v.getAtPath path).bind fun child => child.getAtPath rest := by
  induction path generalizing v with
  | nil => simp
  | cons seg path ih =>
    rw [List.cons_append, getAtPath_cons, getAtPath_cons]
    cases v.get seg with
    | none => rfl
    | some child => exact ih child

/-! ## Well-formed documents -/

mutual

/-- Every object of the document lists its members in strictly increasing key order.  This
is the `BTreeMap` invariant of `serde_json::Map`. -/
def Wf : Value → Prop
  | .array items => WfItems items
  | .object fields => OrdMap.Sorted fields ∧ WfFields fields
  | _ => True

def WfItems : List Value → Prop
  | [] => True
  | v :: rest => Wf v ∧ WfItems rest

def WfFields : List (String × Value) → Prop
  | [] => True
  | (_, v) :: rest => Wf v ∧ WfFields rest

end

theorem wfItems_iff {its : List Value} : WfItems its ↔ ∀ v ∈ its, v.Wf := by
  induction its with
  | nil => simp [WfItems]
  | cons v its ih => simp [WfItems, ih]

theorem wfFields_iff : WfFields fields ↔ ∀ e ∈ fields, e.2.Wf := by
  induction fields with
  | nil => simp [WfFields]
  | cons e fields ih =>
    obtain ⟨k, v⟩ := e
    simp [WfFields, ih]

theorem wf_object :
    (object fields).Wf ↔ OrdMap.Sorted fields ∧ ∀ e ∈ fields, e.2.Wf := by
  rw [Wf, wfFields_iff]

theorem wf_array {its : List Value} : (array its).Wf ↔ ∀ v ∈ its, v.Wf := by
  rw [Wf, wfItems_iff]

mutual

def decWf : (v : Value) → Decidable v.Wf
  | .array items =>
    match decWfItems items with
    | isTrue h => isTrue (by rw [Wf]; exact h)
    | isFalse h => isFalse (by rw [Wf]; exact h)
  | .object fields =>
    match (inferInstance : Decidable (fields.Pairwise fun a b => a.1 < b.1)),
      decWfFields fields with
    | isTrue h, isTrue h' => isTrue (by rw [Wf]; exact ⟨h, h'⟩)
    | isFalse h, _ => isFalse (by rw [Wf]; exact fun wf => h wf.1)
    | _, isFalse h => isFalse (by rw [Wf]; exact fun wf => h wf.2)
  | .null | .bool _ | .number _ | .string _ => isTrue trivial

def decWfItems : (items : List Value) → Decidable (WfItems items)
  | [] => isTrue trivial
  | v :: rest =>
    match decWf v, decWfItems rest with
    | isTrue h, isTrue h' => isTrue ⟨h, h'⟩
    | isFalse h, _ => isFalse fun wf => h wf.1
    | _, isFalse h => isFalse fun wf => h wf.2

def decWfFields : (fields : List (String × Value)) → Decidable (WfFields fields)
  | [] => isTrue trivial
  | (_, v) :: rest =>
    match decWf v, decWfFields rest with
    | isTrue h, isTrue h' => isTrue ⟨h, h'⟩
    | isFalse h, _ => isFalse fun wf => h wf.1
    | _, isFalse h => isFalse fun wf => h wf.2

end

instance : DecidablePred Wf := decWf

theorem Wf.get? {fields : Fields} (wf : (object fields).Wf) {key : String} {v : Value}
    (got : OrdMap.get? key fields = some v) : v.Wf :=
  (wf_object.mp wf).2 _ (OrdMap.mem_of_get? got)

theorem Wf.insert (wf : (object fields).Wf) (key : String) (val : v.Wf) :
    (object (OrdMap.insert key v fields)).Wf := by
  obtain ⟨srt, mems⟩ := wf_object.mp wf
  refine wf_object.mpr ⟨srt.insert key v, fun e mem => ?_⟩
  rcases OrdMap.mem_insert mem with rfl | old
  · exact val
  · exact mems e old

theorem Wf.erase (wf : (object fields).Wf) (key : String) :
    (object (OrdMap.erase key fields)).Wf := by
  obtain ⟨srt, mems⟩ := wf_object.mp wf
  exact wf_object.mpr ⟨srt.erase key, fun e mem => mems e (OrdMap.mem_erase mem)⟩

theorem wf_empty : (object []).Wf :=
  wf_object.mpr ⟨OrdMap.sorted_nil, fun _ mem => absurd mem (List.not_mem_nil)⟩

end Value

/-- A parsed document: a value whose objects are maps. -/
structure Document where
  value : Value
  wf : value.Wf

end Tqsdk
