import LanguageUsage.Fault

/-!
# The replay memory

For each notification the memory holds the newest time that was counted under it, the notification
that was counted last at the end. It is bounded: when there are too many, the oldest are forgotten.

* `ReplayMemory`, `ReplayMemory.get?`;
* `ReplayMemory.isReplay`: nothing in a request is newer than what was counted;
* `ReplayMemory.note`, `ReplayMemory.trim`, `ReplayMemory.remember`.

Trimming compares the number of entries with the capacity before each removal. Below a capacity of
zero it therefore ends only when there is nothing left to remove, which is a fault.
-/

namespace LanguageUsage

/-- Times by notification, the notification counted longest ago first. -/
abbrev ReplayMemory := List (Value × Int)

/-- A value that can be a key. -/
def Value.isKey : Value → Bool
  | .list _ | .object _ => false
  | _ => true

namespace ReplayMemory

/-- The time that is remembered for a notification. -/
def get? (m : ReplayMemory) (key : Value) : Option Int :=
  (m.find? fun e => e.1 = key).map (·.2)

/-- The time is not newer than the one that is remembered. Without a time nothing is a replay. -/
def isReplay (m : ReplayMemory) (key : Value) (latest : Option Int) : Bool :=
  match latest, m.get? key with
  | some t, some last => decide (t ≤ last)
  | _, _ => false

/-- Remember a time for a notification, as the most recent entry. A newer time stays. -/
def note (m : ReplayMemory) (key : Value) (t : Int) : ReplayMemory :=
  let newest := match m.get? key with
    | some last => if last < t then t else last
    | none => t
  m.filter (fun e => e.1 ≠ key) ++ [(key, newest)]

/-- Forget the oldest entries while there are more than `capacity`. -/
def trimTo (capacity : Number) : ReplayMemory → ReplayMemory × Except Fault Unit
  | [] => ([], if capacity.lt (.whole 0) then .error .memoryEmpty else .ok ())
  | e :: es =>
    if capacity.lt (.whole (es.length + 1)) then trimTo capacity es else (e :: es, .ok ())

/-- Forget the oldest entries; a capacity that is no number bounds nothing and is a fault. -/
def trim (capacity : Value) (m : ReplayMemory) : ReplayMemory × Except Fault Unit :=
  match capacity.number? with
  | some n => trimTo n m
  | none => (m, .error (.incomparableCapacity capacity))

/-- Remember a time and forget what is then too much. -/
def remember (m : ReplayMemory) (key : Value) (t : Int) (capacity : Value) :
    ReplayMemory × Except Fault Unit :=
  trim capacity (m.note key t)

end ReplayMemory

end LanguageUsage
