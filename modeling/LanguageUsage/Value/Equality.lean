import LanguageUsage.Value

/-!
# Equality of values

`Value.equals` compares by meaning and not by form: numbers by their exact value, truth values as one
and zero, objects without regard to the order of their fields. Not-a-number equals nothing.
-/

namespace LanguageUsage.Value

mutual

/-- Equality of meaning. -/
def equals : Value → Value → Bool
  | .null, .null => true
  | .text s, .text t => s == t
  | .list as, .list bs => equalsItems as bs
  | .object as, .object bs => as.length == bs.length && equalsFields as bs
  | a, b => match a.number?, b.number? with
    | some m, some n => m.eq n
    | _, _ => false

def equalsItems : List Value → List Value → Bool
  | [], [] => true
  | a :: as, b :: bs => equals a b && equalsItems as bs
  | _, _ => false

/-- Every field of the first list has an equal in the second. -/
def equalsFields : List (String × Value) → List (String × Value) → Bool
  | [], _ => true
  | (k, a) :: as, bs =>
    (match Fields.get? bs k with
      | some b => equals a b
      | none => false) && equalsFields as bs

end

end LanguageUsage.Value
