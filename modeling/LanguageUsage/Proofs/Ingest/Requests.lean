import LanguageUsage.Proofs.Ingest.Report
import LanguageUsage.Proofs.Store.Log

/-!
# The requests of a call

A store checks what it is asked to count. What a call asks for passes this check: a tag is found in a list, or among
the answers of a detector, exactly if the store would take it, and each tag is asked for once. So a store that can be
written refuses nothing, and a call that fails has been given something that it cannot use. Apart from this stand
numbers with too many digits to be written, be it the count of a key or what names a notification.

* `Addition.once`, `Addition.passes_iff`: what may be a tag is the same for the check and for those who look for tags;
* `requests`, `ProperRequests`: what a store is asked for in the course of a call;
* `Updater.requested_perform`: the requests of a call, and what the store makes of them;
* `Granted`, `Store.Writable`: results without a fault, and stores that give them;
* `Updater.category_of_result`: the faults of a call if the store can be written.
-/

namespace LanguageUsage

variable {k : SignalKind} {s : Store} {ts : List String}

/-! ### Requests -/

namespace Addition

/-- The request to count a tag once. -/
def once (k : SignalKind) (tag : String) : Addition := ⟨.text tag, .kind k, .whole 1⟩

/-- A request passes the check: its tag is a text that is not blank, its kind is proper, and its amount is one. -/
def Passes (a : Addition) : Prop := ∃ i, a.checked = .ok i ∧ a = once i.kind i.tag

/-- **What may be a tag.** The check takes a value as a tag exactly if it is taken for one where tags are looked for. -/
theorem passes_iff (v : Value) (k : SignalKind) : Passes ⟨v, .kind k, .whole 1⟩ ↔ (usableTag? v).isSome := by
  cases v with
  | text t =>
    cases hblank : Text.isBlank t with
    | true =>
      have hrefused : checked ⟨.text t, .kind k, .whole 1⟩ = .error .blankTag := by
        rw [checked, Increment.ofGiven, dif_pos hblank]
      simp [Passes, hrefused, usableTag?, hblank]
    | false =>
      obtain ⟨i, hi, hkey, -⟩ := Increment.ofGiven_once hblank k
      obtain ⟨rfl, rfl⟩ := Prod.mk.inj hkey
      exact iff_of_true ⟨i, hi, rfl⟩ (by simp [usableTag?, hblank])
  | _ => simp [Passes, checked, Increment.ofGiven, usableTag?]

theorem passes_once {tag : String} (htag : Text.isBlank tag = false) : (once k tag).Passes :=
  (passes_iff (.text tag) k).2 (by simp [usableTag?, htag])

theorem tag_once_injective (k : SignalKind) : Function.Injective fun t => (once k t).tag :=
  fun _ _ h => Value.text.inj h

end Addition

/-- What the store is asked for by an event. -/
def Event.addition? : Event → Option Addition
  | .consulted _ => none
  | .requested tag k => some (.once k tag)

/-- What the store is asked for. -/
def requests (es : List Event) : List Addition := es.filterMap Event.addition?

/-- All requests pass the check, and no two of them have the same tag. -/
structure ProperRequests (es : List Event) : Prop where
  passes : ∀ a ∈ requests es, a.Passes
  nodup : ((requests es).map Addition.tag).Nodup

theorem requests_consulted (texts : List String) : requests (texts.map .consulted) = [] := by
  simp [requests, Event.addition?]

theorem requests_requested (texts us : List String) :
    requests (texts.map .consulted ++ us.map (.requested · k)) = us.map (.once k) := by
  have hrequested : requests (us.map (.requested · k)) = us.map (.once k) := by
    rw [requests, List.filterMap_map, ← List.filterMap_eq_map]
    rfl
  rw [requests, List.filterMap_append, ← requests, ← requests, requests_consulted, hrequested, List.nil_append]

/-- Requests are proper if they are for tags that are not blank, each once. -/
theorem ProperRequests.of_eq {es : List Event} {us : List String} (h : requests es = us.map (.once k))
    (hnodup : us.Nodup) (hus : ∀ t ∈ us, Text.isBlank t = false) : ProperRequests es := by
  constructor
  · intro a ha
    rw [h] at ha
    obtain ⟨t, ht, rfl⟩ := List.mem_map.1 ha
    exact Addition.passes_once (hus t ht)
  · rw [h, List.map_map]
    exact hnodup.map (Addition.tag_once_injective k)

/-- Who asks a detector asks for nothing of the store. -/
theorem ProperRequests.of_consulted (texts : List String) : ProperRequests (texts.map .consulted) := by
  constructor <;> rw [requests_consulted]
  · exact List.forall_mem_nil _
  · exact List.nodup_nil

/-- A call that is in progress has made some of its requests. -/
theorem ProperRequests.of_begun {es es' : List Event} (h : ProperRequests es) (hes : es' <+: es) :
    ProperRequests es' := by
  have hrequests : requests es' <+: requests es := hes.filterMap _
  exact ⟨fun a ha => h.passes a (hrequests.subset ha), h.nodup.sublist (hrequests.map _).sublist⟩

namespace Updater

/-- Of the tags that are to be counted the first ones are asked for; the store is left as these requests leave it. -/
theorem requested_incrementEach (k : SignalKind) (s : Store) (ts : List String) :
    ∃ us, us <+: ts ∧ (incrementEach k s ts).2.1 = us.map (.requested · k) ∧
      (incrementEach k s ts).1 = (s.performAll ((us.map (.once k)).map Addition.operation)).1 := by
  induction ts generalizing s with
  | nil => exact ⟨[], List.nil_prefix, rfl, rfl⟩
  | cons t ts ih =>
    have hperform : (s.perform (Addition.once k t).operation).1 = (s.upsert (.text t) (.kind k) (.whole 1)).1 := rfl
    rcases hup : s.upsert (.text t) (.kind k) (.whole 1) with ⟨s', f | n⟩
    · refine ⟨[t], by simp, by rw [incrementEach, hup]; rfl, ?_⟩
      rw [incrementEach, hup]
      exact (hperform.trans (by rw [hup])).symm
    · obtain ⟨us, hbegun, hevents, hstore⟩ := ih s'
      refine ⟨t :: us, List.cons_prefix_cons.2 ⟨rfl, hbegun⟩, ?_, ?_⟩
      · rw [incrementEach, hup]
        exact congrArg (Event.requested t k :: ·) hevents
      · have hrest : (s.performAll (((t :: us).map (.once k)).map Addition.operation)).1 =
            ((s.perform (Addition.once k t).operation).1.performAll ((us.map (.once k)).map Addition.operation)).1 := rfl
        rw [incrementEach, hup, hrest, hperform, hup]
        exact hstore

/-- **The requests of a call** are for tags that are not blank, each once, and make of the store what becomes of it. -/
theorem requested_perform (u : Updater) (c : Call) : ∃ us : List String, us.Nodup ∧ (∀ t ∈ us, Text.isBlank t = false) ∧
    requests (u.perform c).events = us.map (.once c.kind) ∧
    (u.perform c).updater.store = (u.store.performAll ((us.map (.once c.kind)).map Addition.operation)).1 := by
  rw [perform_eq]
  cases u.replay? c with
  | error f => exact ⟨[], List.nodup_nil, List.forall_mem_nil _, rfl, rfl⟩
  | ok replay =>
    cases replay with
    | true => exact ⟨[], List.nodup_nil, List.forall_mem_nil _, rfl, rfl⟩
    | false =>
      cases htags : c.found.2 with
      | error f => exact ⟨[], List.nodup_nil, List.forall_mem_nil _, requests_consulted _, rfl⟩
      | ok tags =>
        obtain ⟨us, hbegun, hevents, hstore⟩ := requested_incrementEach c.kind u.store (firstOccurrences tags)
        have hnodup : us.Nodup := (nodup_firstOccurrences tags).sublist hbegun.sublist
        refine ⟨us, hnodup, fun t ht => c.isBlank_of_found htags t (hbegun.subset ht), ?_⟩
        have hrequests := requests_requested (k := c.kind) c.found.1 us
        rw [← hevents] at hrequests
        dsimp only
        split
        · exact ⟨hrequests, hstore⟩
        · exact ⟨hrequests, (store_note _ c).trans hstore⟩

theorem properRequests_perform (u : Updater) (c : Call) : ProperRequests (u.perform c).events := by
  obtain ⟨us, hnodup, hus, hrequests, -⟩ := u.requested_perform c
  exact .of_eq hrequests hnodup hus

end Updater

/-! ### Stores that can be written -/

/-- A result without a fault, unless a number cannot be written in digits. -/
def Granted {α : Type} (r : Except Fault α) : Prop := ∀ f, r = .error f → f = .unwritable

theorem Granted.ok {α : Type} (a : α) : Granted (.ok a : Except Fault α) := by
  rintro f ⟨⟩

theorem Granted.of_isOk {α : Type} {r : Except Fault α} (h : r.isOk = true) : Granted r := by
  rintro f rfl
  cases h

/-- A store that can be written: one in memory that refuses nothing, or an open database with a table. -/
def Store.Writable : Store → Prop
  | .memory s => s.refused = []
  | .database s => s.connected = true ∧ ∃ t, s.medium = .table t

namespace Store.Writable

/-- A tag that is not blank is counted. -/
theorem upsert {tag : String} (h : s.Writable) (htag : Text.isBlank tag = false) (k : SignalKind) :
    Granted (s.upsert (.text tag) (.kind k) (.whole 1)).2 ∧
      (s.upsert (.text tag) (.kind k) (.whole 1)).1.Writable := by
  cases s with
  | memory s =>
    have hrefused : s.refused = [] := h
    obtain ⟨n, -, hn⟩ := MemoryStore.upsert_taken (s := s) (k := k) (by rw [hrefused]; exact List.not_mem_nil) htag
    simp only [Store.upsert, hn]
    exact ⟨fun f hf => (MemoryStore.logged_eq_error_iff.1 hf).2, hrefused⟩
  | database s =>
    obtain ⟨hconnected, t, hmedium⟩ := h
    obtain ⟨i, hi, -, hdelta⟩ := Increment.ofGiven_once htag k
    have hcolumn : columnDelta i = .ok (.whole 1) := columnDelta_whole hdelta (by decide)
    simp only [Store.upsert, DatabaseStore.upsert, hi, if_pos hconnected, hmedium, Medium.add, Medium.table?, hcolumn]
    exact ⟨.ok _, hconnected, _, rfl⟩

/-- So are several ones, one after another. -/
theorem performAll (h : s.Writable) (hts : ∀ t ∈ ts, Text.isBlank t = false) (k : SignalKind) :
    (s.performAll ((ts.map (.once k)).map Addition.operation)).1.Writable ∧
      ∀ r ∈ (s.performAll ((ts.map (.once k)).map Addition.operation)).2, Granted r := by
  induction ts generalizing s with
  | nil => exact ⟨h, List.forall_mem_nil _⟩
  | cons t ts ih =>
    obtain ⟨ht, hts⟩ := List.forall_mem_cons.1 hts
    obtain ⟨hfirst, hwritable⟩ := h.upsert ht k
    obtain ⟨hrest, hall⟩ := ih hwritable hts
    refine ⟨hrest, List.forall_mem_cons.2 ⟨fun f hf => ?_, hall⟩⟩
    replace hf : (s.upsert (.text t) (.kind k) (.whole 1)).2.map Reply.count = .error f := hf
    cases hup : (s.upsert (.text t) (.kind k) (.whole 1)).2 with
    | ok n =>
      rw [hup] at hf
      cases hf
    | error g =>
      rw [hup] at hf
      cases hf
      exact hfirst f hup

theorem incrementEach (h : s.Writable) (hts : ∀ t ∈ ts, Text.isBlank t = false) (k : SignalKind) :
    Granted (Updater.incrementEach k s ts).2.2 := by
  induction ts generalizing s with
  | nil => exact .ok ()
  | cons t ts ih =>
    obtain ⟨ht, hts⟩ := List.forall_mem_cons.1 hts
    obtain ⟨hfirst, hwritable⟩ := h.upsert ht k
    rw [Updater.incrementEach]
    rcases hup : s.upsert (.text t) (.kind k) (.whole 1) with ⟨s', f | n⟩
    · rintro g ⟨⟩
      exact hfirst f (congrArg Prod.snd hup)
    · rw [hup] at hwritable
      exact ih hwritable hts

end Store.Writable

namespace Call

/-- What a call may fail for if the store can be written: a detector fails or is interrupted, or a tag, a notification or
the capacity is something that cannot be used as such. -/
def faults : List Fault.Category := [.missingMember, .detectionFailure, .interruption, .wrongType, .missingKey]

theorem category_of_found {c : Call} {f : Fault} (h : c.found.2 = .error f) : f.category ∈ faults := by
  cases c with
  | classify tags => simp [faults, Updater.category_of_usableTags h]
  | converse request d =>
    rcases Updater.category_of_consult h with hcategory | hcategory <;> simp [faults, hcategory]

/-- These are other faults than those of the check and of the store. -/
theorem ne_of_mem_faults {k : Fault.Category} (h : k ∈ faults) : k ≠ .invalidValue ∧ k ≠ .storeFailure := by
  constructor <;> rintro rfl <;> simp [faults] at h

end Call

namespace Updater

variable {u : Updater} {c : Call} {f : Fault}

theorem writable_perform (h : u.store.Writable) (c : Call) : (u.perform c).updater.store.Writable := by
  obtain ⟨us, -, hus, -, hstore⟩ := u.requested_perform c
  rw [hstore]
  exact (h.performAll hus c.kind).1

theorem writable_occasions (h : u.store.Writable) (cs : List Call) : ∀ o ∈ u.occasions cs, o.1.store.Writable := by
  induction cs generalizing u with
  | nil => exact List.forall_mem_nil _
  | cons c cs ih => exact List.forall_mem_cons.2 ⟨h, ih (writable_perform h c)⟩

/-- **Why a call fails** if the store can be written. -/
theorem category_of_result (h : u.store.Writable) (hf : (u.perform c).result = .error f) :
    f = .unwritable ∨ f.category ∈ Call.faults := by
  rw [perform_eq] at hf
  cases hreplay : u.replay? c with
  | error g =>
    rw [hreplay] at hf
    cases hf
    cases c with
    | classify tags => cases hreplay
    | converse request d => exact (category_of_isReplay hreplay).imp_right fun h => by simp [Call.faults, h]
  | ok replay =>
    rw [hreplay] at hf
    cases replay with
    | true => cases hf
    | false =>
      cases htags : c.found.2 with
      | error g =>
        rw [htags] at hf
        cases hf
        exact .inr (Call.category_of_found htags)
      | ok tags =>
        have hgranted := h.incrementEach (c.isBlank_of_found htags) c.kind
        rw [htags] at hf
        cases hcount : (incrementEach c.kind u.store (firstOccurrences tags)).2.2 with
        | error g =>
          simp only [hcount] at hf
          cases hf
          exact .inl (hgranted f hcount)
        | ok _ =>
          -- the tags are counted, so it is noted that they were
          simp only [hcount] at hf
          cases c with
          | classify tags => cases hf
          | converse request d =>
            rcases category_of_remember hf with hcategory | hcategory <;> simp [Call.faults, hcategory]

end Updater

end LanguageUsage
