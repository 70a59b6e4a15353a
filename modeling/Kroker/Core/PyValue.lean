import Kroker.Core.FullLines
import Kroker.Library.Members
import Kroker.Library.Returns

/-!
# The values of Python that `json.loads` returns

A text that `json.loads` returns need not be one that can be encoded: an escape may leave half of a
surrogate pair in it.  So a Python string is here the list of its code points, and the values are made
of such strings.  The numbers are a parameter, with what `PyNumber` asks of them.

`get`, `or` and the fields of a model raise or return as Python has them; beside each stands what it
returns where it does not raise, and when that is.
-/

namespace Kroker

/-- A Python string: its code points. -/
abbrev PyStr := List ℕ

/-- The code points of a text. -/
def pyStr (s : String) : PyStr := s.toList.map Char.toNat

/-- The string has no surrogate, so that it can be encoded. -/
def encodable (s : PyStr) : Bool := s.all fun c => c.isValidChar

/-- The text of a string that can be encoded. -/
def decode (s : PyStr) : String := String.ofList (s.map Char.ofNat)

theorem encodable_pyStr (s : String) : encodable (pyStr s) = true := by
  rw [encodable, pyStr, List.all_eq_true]
  intro n hn
  obtain ⟨c, -, rfl⟩ := List.mem_map.mp hn
  exact decide_eq_true c.valid

theorem pyStr_decode {s : PyStr} (h : encodable s = true) : pyStr (decode s) = s := by
  rw [encodable, List.all_eq_true] at h
  rw [pyStr, decode, String.toList_ofList, List.map_map]
  refine (List.map_congr_left fun c hc => ?_).trans (List.map_id s)
  have hvalid : c.isValidChar := of_decide_eq_true (h c hc)
  rw [Function.comp_apply, Char.ofNat, dif_pos hvalid]
  rfl

theorem encodable_take {s : PyStr} (h : encodable s = true) (n : ℕ) :
    encodable (s.take n) = true := by
  rw [encodable, List.all_eq_true] at h ⊢
  exact fun c hc => h c (List.mem_of_mem_take hc)

/-- What Python raises. -/
inductive PyError where
  | attribute
  | type
  | value
  | key
  | overflow
  | recursion
  | unicode
  | validation
  deriving DecidableEq

/-- The numbers that `json.loads` returns: integers of any size, and floating-point numbers. -/
class PyNumber (N : Type) where
  /-- `0`. -/
  zero : N
  /-- `0.0`. -/
  zeroFloat : N
  ofBool : Bool → N
  nonzero : N → Bool
  /-- `+`, where it does not overflow. -/
  add : N → N → Option N
  /-- The number, if it is an `int`. -/
  int? : N → Option ℤ

/-- A value that `json.loads` returns. -/
inductive PyValue (N : Type) where
  | none
  | bool (b : Bool)
  | number (n : N)
  | text (s : PyStr)
  | list (items : List (PyValue N))
  | dict (members : List (PyStr × PyValue N))

namespace PyValue

variable {N : Type}

def isDict : PyValue N → Bool
  | .dict _ => true
  | _ => false

/-- `isinstance(v, list)`. -/
def isList : PyValue N → Bool
  | .list _ => true
  | _ => false

def isText (v : PyValue N) (s : String) : Bool :=
  match v with
  | .text t => t = pyStr s
  | _ => false

theorem not_isText {v : PyValue N} {s t : String} (h : v.isText s = true) (hne : pyStr s ≠ pyStr t) :
    ¬v.isText t = true := by
  cases v with
  | text u =>
    rw [isText, decide_eq_true_eq] at h ⊢
    exact h ▸ hne
  | _ => exact nomatch h

/-- `v.get(key)`. -/
def get (v : PyValue N) (key : String) : Except PyError (PyValue N) :=
  match v with
  | .dict members => .ok ((Members.get? members (pyStr key)).getD .none)
  | _ => .error .attribute

/-- What a dictionary has under a key; `None` of a value that is none. -/
def field (v : PyValue N) (key : String) : PyValue N :=
  match v with
  | .dict members => (Members.get? members (pyStr key)).getD .none
  | _ => .none

theorem returns_get (v : PyValue N) (key : String) :
    Returns (v.get key) (v.isDict = true) (v.field key) := by
  cases v with
  | dict members => exact (Returns.pure _).congr (iff_of_true trivial rfl) fun _ => rfl
  | _ => exact Returns.raises rfl Bool.false_ne_true

theorem get_of_not_isDict {v : PyValue N} (h : ¬v.isDict = true) (key : String) :
    v.get key = .error .attribute := by
  cases v with
  | dict members => exact absurd rfl h
  | _ => rfl

def text? : PyValue N → Option PyStr
  | .text s => some s
  | _ => Option.none

/-- `bool(v)`. -/
def truthy [PyNumber N] : PyValue N → Bool
  | .none => false
  | .bool b => b
  | .number n => PyNumber.nonzero n
  | .text s => s ≠ []
  | .list items => !items.isEmpty
  | .dict members => !members.isEmpty

section

variable [PyNumber N]

/-- `v or w`. -/
def orElse (v w : PyValue N) : PyValue N := if v.truthy then v else w

/-- `v or {}`. -/
def orEmpty (v : PyValue N) : PyValue N := v.orElse (.dict [])

/-- `v or w.get(key)`. -/
def orGet (v w : PyValue N) (key : String) : Except PyError (PyValue N) :=
  if v.truthy then .ok v else w.get key

theorem returns_orGet {v w : PyValue N} (hw : w.isDict = true) (key : String) :
    Returns (v.orGet w key) True (v.orElse (w.field key)) := by
  rw [orGet, orElse]
  refine ((Returns.pure v).ite (returns_get w key)).congr ?_ fun _ => rfl
  exact iff_of_true ⟨fun _ => trivial, fun _ => hw⟩ trivial

/-- The number, if `isinstance(v, (int, float))`: `bool` is a subclass of `int`. -/
def amount? : PyValue N → Option N
  | .number n => some n
  | .bool b => some (PyNumber.ofBool b)
  | _ => Option.none

/-- The integer, if `isinstance(v, int) and not isinstance(v, bool)`. -/
def int? : PyValue N → Option ℤ
  | .number n => PyNumber.int? n
  | _ => Option.none

/-- The first that is true of these, and else the last: what `acc = acc or v` leaves of them. -/
def firstTruthy (vs : List (PyValue N)) : PyValue N :=
  (vs.find? truthy).getD (vs.getLast?.getD .none)

theorem foldl_orElse_of_truthy {v : PyValue N} (h : v.truthy = true) (vs : List (PyValue N)) :
    vs.foldl orElse v = v := by
  induction vs with
  | nil => rfl
  | cons w vs ih => rw [List.foldl_cons, orElse, if_pos h, ih]

theorem foldl_orElse_of_not_truthy {v : PyValue N} (h : ¬v.truthy = true) (vs : List (PyValue N)) :
    vs.foldl orElse v = (vs.find? truthy).getD (vs.getLast?.getD v) := by
  induction vs generalizing v with
  | nil => rfl
  | cons w vs ih =>
    rw [List.foldl_cons, orElse, if_neg h, List.getLast?_cons, Option.getD_some]
    by_cases hw : w.truthy = true
    · rw [foldl_orElse_of_truthy hw, List.find?_cons_of_pos hw, Option.getD_some]
    · rw [ih hw, List.find?_cons_of_neg hw]

theorem foldl_orElse (vs : List (PyValue N)) : vs.foldl orElse .none = firstTruthy vs :=
  foldl_orElse_of_not_truthy (v := .none) Bool.false_ne_true vs

end

/-! ## The fields of a model -/

/-- The value is a text that a `str` field takes. -/
def isStr (v : PyValue N) : Bool := v.text?.any encodable

/-- The value is one that a `str | None` field takes. -/
def isOptionalStr : PyValue N → Bool
  | .none => true
  | v => v.isStr

/-- A `str` field. -/
def strField (v : PyValue N) : Except PyError String :=
  match v with
  | .text s => if encodable s then .ok (decode s) else .error .validation
  | _ => .error .validation

/-- A field that may be `None`. -/
def optionalField {α : Type} (f : PyValue N → Except PyError α) :
    PyValue N → Except PyError (Option α)
  | .none => .ok Option.none
  | v => (f v).map some

theorem returns_strField (v : PyValue N) :
    Returns v.strField (v.isStr = true) (decode (v.text?.getD [])) := by
  cases v with
  | text s =>
    rw [strField]
    by_cases h : encodable s = true
    · rw [if_pos h]
      exact (Returns.pure (decode s)).congr (iff_of_true trivial h) fun _ => rfl
    · rw [if_neg h]
      exact Returns.raises rfl h
  | _ => exact Returns.raises rfl Bool.false_ne_true

theorem returns_optionalStr (v : PyValue N) :
    Returns (optionalField strField v) (v.isOptionalStr = true) (v.text?.map decode) := by
  cases v with
  | none => exact (Returns.pure _).congr (iff_of_true trivial rfl) fun _ => rfl
  | text s => exact ((returns_strField (.text s)).map some).congr Iff.rfl fun _ => rfl
  | _ => exact Returns.raises rfl Bool.false_ne_true

end PyValue

end Kroker
