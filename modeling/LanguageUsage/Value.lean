import LanguageUsage.Number.Basic

/-!
# Values

Data that comes from outside and may be of any kind: the arguments of a request, the contents of a
settings document, the answer of a detector.

* `Value`, with decidable equality;
* `Value.isTruthy`: which values count as present when a setting or a key is asked for;
* `Value.number?`: the number that a value stands for, truth values being one and zero;
* `Value.Fields`: the fields of an object, in the order in which they were first written.
-/

namespace LanguageUsage

/-- A value of any kind. -/
inductive Value
  | null
  | bool (b : Bool)
  | number (n : Number)
  | text (s : String)
  | list (items : List Value)
  | object (fields : List (String × Value))
  deriving Repr, Inhabited

namespace Value

/-- The fields of an object. -/
abbrev Fields := List (String × Value)

def whole (n : Int) : Value := .number (.whole n)

def real (x : Binary64) : Value := .number (.real x)

/-! ### Equality -/

mutual

protected def decEq : (a b : Value) → Decidable (a = b)
  | .null, .null => isTrue rfl
  | .bool a, .bool b => decidable_of_iff (a = b) (by simp)
  | .number a, .number b => decidable_of_iff (a = b) (by simp)
  | .text a, .text b => decidable_of_iff (a = b) (by simp)
  | .list a, .list b => match Value.decEqList a b with
    | isTrue h => isTrue (by rw [h])
    | isFalse h => isFalse (by simpa using h)
  | .object a, .object b => match Value.decEqFields a b with
    | isTrue h => isTrue (by rw [h])
    | isFalse h => isFalse (by simpa using h)
  | .null, .bool _ | .null, .number _ | .null, .text _ | .null, .list _ | .null, .object _
  | .bool _, .null | .bool _, .number _ | .bool _, .text _ | .bool _, .list _ | .bool _, .object _
  | .number _, .null | .number _, .bool _ | .number _, .text _ | .number _, .list _
  | .number _, .object _
  | .text _, .null | .text _, .bool _ | .text _, .number _ | .text _, .list _ | .text _, .object _
  | .list _, .null | .list _, .bool _ | .list _, .number _ | .list _, .text _ | .list _, .object _
  | .object _, .null | .object _, .bool _ | .object _, .number _ | .object _, .text _
  | .object _, .list _ => isFalse (by simp)

protected def decEqList : (a b : List Value) → Decidable (a = b)
  | [], [] => isTrue rfl
  | [], _ :: _ | _ :: _, [] => isFalse (by simp)
  | a :: as, b :: bs => match Value.decEq a b, Value.decEqList as bs with
    | isTrue h, isTrue h' => isTrue (by rw [h, h'])
    | isFalse h, _ => isFalse (by simp [h])
    | _, isFalse h => isFalse (by simp [h])

protected def decEqFields : (a b : List (String × Value)) → Decidable (a = b)
  | [], [] => isTrue rfl
  | [], _ :: _ | _ :: _, [] => isFalse (by simp)
  | (k, a) :: as, (l, b) :: bs => match decEq k l, Value.decEq a b, Value.decEqFields as bs with
    | isTrue h, isTrue h', isTrue h'' => isTrue (by rw [h, h', h''])
    | isFalse h, _, _ => isFalse (by simp [h])
    | _, isFalse h, _ => isFalse (by simp [h])
    | _, _, isFalse h => isFalse (by simp [h])

end

instance : DecidableEq Value := Value.decEq

/-! ### Kinds -/

/-- The name of a value's kind in messages. -/
def kindName : Value → String
  | .null => "NoneType"
  | .bool _ => "bool"
  | .number (.whole _) => "int"
  | .number (.real _) => "float"
  | .text _ => "str"
  | .list _ => "list"
  | .object _ => "dict"

/-- Absent, false, zero and empty values count as missing; not-a-number does not. -/
def isTruthy : Value → Bool
  | .null => false
  | .bool b => b
  | .number n => !n.isZero
  | .text s => s != ""
  | .list items => !items.isEmpty
  | .object fields => !fields.isEmpty

/-- The number a value stands for; truth values stand for one and zero. -/
def number? : Value → Option Number
  | .bool b => some (.whole (if b then 1 else 0))
  | .number n => some n
  | _ => none

/-! ### Fields -/

namespace Fields

/-- The value of a field. -/
def get? (fields : Fields) (key : String) : Option Value := fields.lookup key

/-- Write a field: a new one at the end, one that is there already in its place. -/
def set (fields : Fields) (key : String) (v : Value) : Fields :=
  if fields.any (·.1 == key) then fields.map fun f => if f.1 == key then (key, v) else f
  else fields ++ [(key, v)]

/-- The fields written one after another. -/
def ofList (fields : List (String × Value)) : Fields :=
  fields.foldl (fun fs f => fs.set f.1 f.2) []

end Fields

/-- The members one meets when going through a value: the items of a list, the characters of a
text, the keys of an object. Other values have none to go through. -/
def elements? : Value → Option (List Value)
  | .list items => some items
  | .text s => some (s.toList.map fun c => .text c.toString)
  | .object fields => some (fields.map fun f => .text f.1)
  | _ => none

end Value

end LanguageUsage
