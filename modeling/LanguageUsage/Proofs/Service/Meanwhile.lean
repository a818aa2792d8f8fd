import LanguageUsage.Proofs.Ingest.Requests
import LanguageUsage.Proofs.Service.Write

/-!
# Calls while the store is used

While a call is performed, others may use the store: they read and write it, open and close it. So a call may find
another store whenever it goes on. What it asks for passes the check all the same; and if the others leave the store so
that it can be written, it takes all that it is asked for.

* `World.Writable`: the store can be written, and over which connection;
* `World.Onward`: what may have become of a state; `World.sharedTerms`: on which terms others use the store;
* `Work.leads_upsert_shared`, `Work.leads_incrementEach_shared`: requests on these terms;
* `Call.leads_part_shared`: the requests of a call, and how it ends.
-/

namespace LanguageUsage

namespace World

variable {w v u : World} {n : Nat} {link : Option Nat} {kept : Prop} {es ds : List Event}

/-! ### Stores that can be written -/

/-- The database has a table, also if a change that is not committed is taken back. -/
structure Tabled (w : World) : Prop where
  medium : ∀ s, w.store = .database s → ∃ t, s.medium = .table t
  unsaved : ∀ m medium, w.unsaved = some (m, medium) → ∃ t, medium = .table t

/-- The store can be written: one in memory that refuses nothing, or a database over a connection. -/
inductive Writable (w : World) : Option Nat → Prop
  | memory {s : MemoryStore} (store : w.store = .memory s) (refused : s.refused = []) : Writable w none
  | database {n : Nat} (link : w.link? = .ok n) (live : w.link n = .live) (tabled : w.Tabled) : Writable w (some n)

theorem tabled_onDatabase {f : DatabaseStore → DatabaseStore} (hw : w.Tabled) (hf : ∀ s, ∃ t, (f s).medium = .table t) :
    (w.onDatabase f).Tabled := by
  unfold onDatabase
  split
  · exact ⟨fun s hs => Store.database.inj hs ▸ hf _, hw.unsaved⟩
  · exact hw

theorem tabled_insert (hw : w.Tabled) (n : Nat) (i : Increment) : (World.insert n i w).1.Tabled := by
  unfold World.insert
  split
  · next s hs hlink =>
    rcases s.medium.add_cases i with ⟨f, hadd⟩ | ⟨t, c, hmedium, hadd⟩
    · rw [hadd]
      exact hw
    · rw [hadd]
      refine ⟨fun s' hs' => ?_, fun m medium hm => ?_⟩
      · obtain rfl := Store.database.inj hs'
        exact ⟨_, rfl⟩
      · obtain ⟨-, rfl⟩ := Prod.mk.inj (Option.some.inj hm)
        exact ⟨t, hmedium⟩
  · exact hw
  · exact hw

theorem tabled_commit (hw : w.Tabled) (n : Nat) (f : Fault) : (World.commit n f w).1.Tabled := by
  unfold World.commit
  split
  · exact ⟨hw.medium, nofun⟩
  · exact hw

theorem tabled_rollBack (hw : w.Tabled) (n : Nat) : (World.rollBack n w).1.Tabled := by
  unfold World.rollBack takeBack
  split
  · split
    · next m medium hm =>
      split
      · obtain ⟨t, ht⟩ := hw.unsaved m medium hm
        exact ⟨(tabled_onDatabase hw fun s => ⟨t, ht⟩).medium, nofun⟩
      · exact hw
    · exact hw
  · exact hw

theorem Writable.of_memory {s : MemoryStore} (hw : w.Writable link) (hs : w.store = .memory s) :
    link = none ∧ s.refused = [] := by
  cases hw with
  | memory store refused =>
    obtain rfl := Store.memory.inj (hs.symm.trans store)
    exact ⟨rfl, refused⟩
  | database hlink hlive tabled =>
    rw [link?, hs] at hlink
    cases hlink

/-- A database is written over the connection in use. -/
theorem Writable.of_database {s : DatabaseStore} (hw : w.Writable link) (hs : w.store = .database s) :
    ∃ n, link = some n ∧ w.link? = .ok n := by
  cases hw with
  | memory store refused =>
    rw [hs] at store
    cases store
  | database hlink hlive tabled => exact ⟨_, rfl, hlink⟩

/-- A database that can be written takes a request to count once. -/
theorem Writable.insert {i : Increment} (hw : w.Writable (some n)) (hi : i.delta = .whole 1) :
    (World.insert n i w).2.isOk = true := by
  cases hs : w.store with
  | memory s => cases (hw.of_memory hs).1
  | database s =>
    cases hw with
    | database hlink hlive tabled =>
      obtain ⟨t, ht⟩ := tabled.medium s hs
      have hcolumn : columnDelta i = .ok (.whole 1) := columnDelta_whole hi (by decide)
      simp only [World.insert, hs, hlive, ht, Medium.add, Medium.table?, hcolumn]
      rfl

theorem Writable.commit (hw : w.Writable (some n)) (f : Fault) : (World.commit n f w).2 = .ok () := by
  cases hw with
  | database hlink hlive tabled => rw [World.commit, hlive]

theorem Writable.hasEnded (hw : w.Writable (some n)) : w.hasEnded n = false := by
  cases hw with
  | database hlink hlive tabled =>
    rw [World.hasEnded, hlive]
    rfl

/-! ### What may have become of a state -/

/-- One state comes after another: meanwhile the given was asked for, and if it is `kept` that the store can be written,
this is still so. -/
structure Onward (kept : Prop) (es : List Event) (w v : World) : Prop where
  events : v.events = w.events ++ es
  writable : kept → ∀ link, w.Writable link → v.Writable link

theorem Onward.refl (w : World) : Onward kept [] w w := ⟨(List.append_nil _).symm, fun _ _ => id⟩

theorem Onward.trans (h : Onward kept es w v) (h' : Onward kept ds v u) : Onward kept (es ++ ds) w u where
  events := by rw [h'.events, h.events, List.append_assoc]
  writable hkept link hw := h'.writable hkept link (h.writable hkept link hw)

/-- A store that can be written still can be if it is the same but for the rows. -/
theorem Onward.of_frame (hevents : v.events = w.events ++ es) (hstore : v.store.frame = w.store.frame)
    (hlinks : v.links = w.links) (htabled : w.Tabled → v.Tabled) : Onward kept es w v := by
  refine ⟨hevents, fun _ link hw => ?_⟩
  cases hw with
  | memory store refused =>
    cases hs : v.store with
    | memory s =>
      rw [store, hs] at hstore
      obtain rfl := Store.memory.inj hstore
      exact .memory hs refused
    | database s =>
      rw [store, hs] at hstore
      cases hstore
  | database hlink hlive tabled =>
    have hframe : v.frame.store = w.frame.store := hstore
    have hcount : v.frame.links = w.frame.links := hlinks
    have hsame : v.link? = w.link? := by
      rw [← link?_frame v, ← link?_frame w]
      unfold link?
      rw [hframe, hcount]
    exact .database (hsame.trans hlink) (by rw [World.link, hlinks]; exact hlive) (htabled tabled)

theorem onward_of_frame_eq (h : v.frame = w.frame) (htabled : w.Tabled → v.Tabled) : Onward kept [] w v := by
  obtain ⟨-, hevents, hlinks, -⟩ := eq_of_frame_eq h
  exact .of_frame (hevents.trans (List.append_nil _).symm) (congrArg World.store h) hlinks htabled

theorem onward_insert (n : Nat) (i : Increment) (w : World) : Onward kept [] w (World.insert n i w).1 :=
  onward_of_frame_eq (frame_insert n i w) fun hw => tabled_insert hw n i

theorem onward_commit (n : Nat) (f : Fault) (w : World) : Onward kept [] w (World.commit n f w).1 :=
  onward_of_frame_eq (frame_commit n f w) fun hw => tabled_commit hw n f

theorem onward_rollBack (n : Nat) (w : World) : Onward kept [] w (World.rollBack n w).1 :=
  onward_of_frame_eq (frame_rollBack n w) fun hw => tabled_rollBack hw n

theorem onward_log (e : Event) (w : World) : Onward kept [e] w (w.log e) :=
  .of_frame rfl rfl rfl fun hw => ⟨hw.medium, hw.unsaved⟩

theorem onward_remember (key : Value) (latest : Option Int) (w : World) :
    Onward kept [] w { w with updater := (w.updater.remember key latest).1 } := by
  have hstore : (w.updater.remember key latest).1.store = w.updater.store := (w.updater.remember_fst key latest).1
  refine .of_frame (List.append_nil _).symm (congrArg Store.frame hstore) rfl fun hw => ⟨fun s hs => ?_, hw.unsaved⟩
  exact hw.medium s (hstore.symm.trans hs)

/-- In memory a tag is counted at once. -/
theorem onward_upsert {s : MemoryStore} (hs : w.store = .memory s) {tag : String} (htag : Text.isBlank tag = false)
    (k : SignalKind) : Onward kept [] w (w.withStore (w.store.upsert (.text tag) (.kind k) (.whole 1)).1) := by
  refine ⟨(List.append_nil _).symm, fun _ link hw => ?_⟩
  obtain ⟨rfl, hrefused⟩ := hw.of_memory hs
  have hwritable : (Store.memory s).Writable := hrefused
  rw [hs]
  exact .memory rfl (hwritable.upsert htag k).2

/-- On which terms the store is used while a call is performed. The others ask for nothing; if it is `kept` that the
store can be written, they leave it so. All that the call asks for passes the check. -/
def sharedTerms (kept : Prop) : Terms World where
  rely := Onward kept []
  guarantee w v := ∃ es, Onward kept es w v ∧ ∀ a ∈ requests es, a.Passes
  locks := [.writes]
  rely_refl := .refl
  rely_trans := .trans
  guarantee_refl w := ⟨[], .refl w, List.forall_mem_nil _⟩
  guarantee_trans := by
    rintro w v u ⟨es, hes, hpasses⟩ ⟨ds, hds, hpasses'⟩
    refine ⟨es ++ ds, hes.trans hds, fun a ha => ?_⟩
    rw [requests, List.filterMap_append] at ha
    exact (List.mem_append.1 ha).elim (hpasses a) (hpasses' a)

theorem Onward.guarantee (h : Onward kept [] w v) : (sharedTerms kept).guarantee w v := ⟨[], h, List.forall_mem_nil _⟩

end World

namespace Work

open World

variable {α : Type} {kept : Prop} {held : List Lock} {w : World} {n : Nat} {i : Increment} {k : SignalKind}
  {tag : String}

/-! ### Writing -/

/-- An errand that asks for nothing. -/
theorem leads_later_shared {post : List Lock → World → Except Fault α → Prop} {brief : World → Bool}
    {f : World → World × Except Fault α} (hf : ∀ v, Onward kept [] v (f v).1)
    (h : ∀ v u, Onward kept [] w v → Onward kept [] w u → post held u (f v).2) :
    (later brief f).run.Leads (sharedTerms kept) post held w :=
  (leads_later _ _).2 fun v hv => ⟨(hf v).guarantee, fun u hu => h v u hv ((hv.trans (hf v)).trans hu)⟩

theorem leads_unlessEnded_shared {post : List Lock → World → Except Fault Unit → Prop} {f : Fault}
    (hended : w.hasEnded n = true → post held w (.error f)) (h : post held w (.ok ())) :
    (unlessEnded n f).run.Leads (sharedTerms kept) post held w := by
  rw [unlessEnded, leads_bind, leads_look]
  cases he : w.hasEnded n with
  | true => exact hended he
  | false => exact h

variable {post : List Lock → World → Except Fault Number → Prop}

theorem leads_insert_shared (hi : i.delta = .whole 1)
    (h : ∀ v r, Onward kept [] w v → (kept → w.Writable (some n) → r.isOk = true) → post held v r) :
    (insert n i).run.Leads (sharedTerms kept) post held w := by
  rw [insert, leads_bind]
  refine leads_later_shared (onward_insert n i) fun v u hv hu => ?_
  have hinsert (hkept : kept) (hw : w.Writable (some n)) := (hv.writable hkept _ hw).insert hi
  cases hcount : (World.insert n i v).2 with
  | error f =>
    exact h u _ hu fun hkept hw => by simpa [hcount] using hinsert hkept hw
  | ok c =>
    -- the database may be closed before the change is committed
    refine (leads_bind _ _).2 (leads_unlessEnded_shared (fun hended => h u _ hu fun hkept hw => ?_) ?_)
    · rw [(hu.writable hkept _ hw).hasEnded] at hended
      cases hended
    · refine (leads_bind _ _).2 (leads_later_shared (onward_commit n _) fun v' u' hv' hu' => ?_)
      cases hcommit : (World.commit n (.cannotIncrement i.tag i.kind) v').2 with
      | error f =>
        refine h u' _ (hu.trans hu') fun hkept hw => ?_
        rw [((hu.trans hv').writable hkept _ hw).commit] at hcommit
        cases hcommit
      | ok _ => exact h u' _ (hu.trans hu') fun _ _ => rfl

theorem leads_write_shared (hi : i.delta = .whole 1)
    (h : ∀ v r, Onward kept [] w v → (kept → w.Writable (some n) → r.isOk = true) → post held v r) :
    (write n i).run.Leads (sharedTerms kept) post held w := by
  rw [write, leads_tryCatch]
  refine leads_insert_shared hi fun v r hv hr => ?_
  cases r with
  | ok c => exact h v _ hv fun _ _ => rfl
  | error f =>
    have hfails (u : World) (g : Fault) (hu : Onward kept [] w u) : post held u (.error g) :=
      h u _ hu fun hkept hw => absurd (hr hkept hw) Bool.false_ne_true
    by_cases hf : f = .cannotIncrement i.tag i.kind
    · simp only [if_pos hf]
      refine (leads_bind _ _).2 (leads_unlessEnded_shared (fun _ => hfails v _ hv) ((leads_bind _ _).2 ?_))
      refine leads_later_shared (onward_rollBack n) fun v' u' hv' hu' => ?_
      cases (World.rollBack n v').2 <;> exact hfails u' _ (hv.trans hu')
    · simp only [if_neg hf]
      exact hfails v f hv

/-- A checked request is carried out by a database, or is not. -/
theorem leads_increment_shared {s : DatabaseStore} (hs : w.store = .database s) (hi : i.delta = .whole 1)
    (hheld : Lock.writes ∉ held)
    (h : ∀ v r, Onward kept [] w v → (kept → ∀ link, w.Writable link → r.isOk = true) → post held v r) :
    (increment i).run.Leads (sharedTerms kept) post held w := by
  refine (leads_bind _ _).2 ((leads_bind _ _).2 ((leads_look _).2 ?_))
  cases hlink : w.link? with
  | error f =>
    refine h w (.error f) (.refl w) fun _ link hw => ?_
    obtain ⟨n, -, hn⟩ := hw.of_database hs
    rw [hlink] at hn
    cases hn
  | ok n =>
    -- if the store can be written, it is written over the connection in use, which is the `n`th one
    have hend (v : World) (r : Except Fault Number) (hv : Onward kept [] w v)
        (hr : kept → w.Writable (some n) → r.isOk = true) : post held v r := by
      refine h v r hv fun hkept link hw => ?_
      obtain ⟨m, rfl, hm⟩ := hw.of_database hs
      obtain rfl := Except.ok.inj (hlink.symm.trans hm)
      exact hr hkept hw
    have hlock : Lock.writes ∈ (sharedTerms kept).locks := List.mem_singleton_self _
    have hrelease : (Lock.writes :: held).erase .writes = held := List.erase_cons_head _ _
    refine (leads_holding _ _).2 ⟨hlock, hheld, (leads_bind _ _).2 (leads_unlessEnded_shared (fun hended => ?_) ?_)⟩
    · refine ⟨hlock, List.mem_cons_self, hrelease.symm ▸ hend w _ (.refl w) fun _ hw => ?_⟩
      rw [hw.hasEnded] at hended
      cases hended
    · exact leads_write_shared hi fun v r hv hr => ⟨hlock, List.mem_cons_self, hrelease.symm ▸ hend v r hv hr⟩

/-- **A request to count a tag**, whatever has become of the store. -/
theorem leads_upsert_shared (htag : Text.isBlank tag = false) (hheld : Lock.writes ∉ held)
    (h : ∀ v r, Onward kept [] w v → (kept → ∀ link, w.Writable link → Granted r) → post held v r) :
    (upsert (.text tag) (.kind k) (.whole 1)).run.Leads (sharedTerms kept) post held w := by
  refine (leads_bind _ _).2 ((leads_look _).2 ?_)
  cases hs : w.store with
  | memory s =>
    have hcalm : Onward kept [] w _ := onward_upsert hs htag k
    refine (leads_atOnce _).2 ⟨hcalm.guarantee, h _ _ hcalm fun _ link hw => ?_⟩
    have hwritable : w.store.Writable := by
      rw [hs]
      exact (hw.of_memory hs).2
    exact (hwritable.upsert htag k).1
  | database s =>
    obtain ⟨i, hi, -, hdelta⟩ := Increment.ofGiven_once htag k
    refine (leads_bind _ _).2 ?_
    rw [hi]
    exact leads_increment_shared hs hdelta hheld fun v r hv hr => h v r hv fun hkept link hw =>
      .of_isOk (hr hkept link hw)

/-! ### Detecting and counting -/

theorem leads_log_shared {post : List Lock → World → Except Fault Unit → Prop} {e : Event}
    (he : ∀ a ∈ e.addition?, a.Passes) (h : post held (w.log e) (.ok ())) :
    (change (·.log e)).run.Leads (sharedTerms kept) post held w := by
  refine (leads_change _).2 ⟨⟨[e], onward_log e w, fun a ha => ?_⟩, h⟩
  obtain ⟨e', he', ha'⟩ := List.mem_filterMap.1 ha
  obtain rfl := List.mem_singleton.1 he'
  exact he a ha'

theorem leads_ask_shared {d : Detector} {text : String} {post : List Lock → World → Except Fault (List Value) → Prop}
    (h : ∀ v, Onward kept [.consulted text] w v → post held v (d.answer text).tags) :
    (ask d text).run.Leads (sharedTerms kept) post held w := by
  unfold ask
  by_cases hp : d.pausing = true
  · simp only [if_pos hp]
    refine (leads_bind _ _).2 (leads_rest.2 fun v hv => (leads_bind _ _).2 (leads_log_shared nofun ?_))
    exact h _ (hv.trans (onward_log _ v))
  · simp only [if_neg hp]
    exact (leads_bind _ _).2 (leads_log_shared nofun (h _ (onward_log _ w)))

/-- A detector is asked for the texts in turn. -/
theorem leads_consult_shared {d : Detector} {texts : List String}
    {post : List Lock → World → Except Fault (List String) → Prop}
    (h : ∀ v, Onward kept ((d.consult texts).1.map .consulted) w v → post held v (d.consult texts).2) :
    (consult d texts).run.Leads (sharedTerms kept) post held w := by
  induction texts generalizing w post with
  | nil => exact h w (.refl w)
  | cons t ts ih =>
    refine (leads_bind _ _).2 (leads_ask_shared fun v hv => ?_)
    cases htags : (d.answer t).tags with
    | error f =>
      simp only [Detector.consult, htags] at h
      exact h v hv
    | ok tags =>
      simp only [Detector.consult, htags, List.map_cons] at h
      refine (leads_bind _ _).2 (ih fun u hu => ?_)
      have hend := h u (hv.trans hu)
      cases hfound : (d.consult ts).2 with
      | error f => simpa [hfound, Except.map] using hend
      | ok found =>
        show post held _ (.ok ((topTag tags).toList ++ found))
        simpa [hfound, Except.map] using hend

/-- Of the tags the first ones are asked for, and all of them if the store can be written. -/
theorem leads_incrementEach_shared {ts : List String} {post : List Lock → World → Except Fault Unit → Prop}
    (hts : ∀ t ∈ ts, Text.isBlank t = false) (hheld : Lock.writes ∉ held)
    (h : ∀ us v r, us <+: ts → Onward kept (us.map (.requested · k)) w v →
      (kept → ∀ link, w.Writable link → Granted r) → post held v r) :
    (incrementEach k ts).run.Leads (sharedTerms kept) post held w := by
  induction ts generalizing w post with
  | nil => exact h [] w (.ok ()) List.nil_prefix (.refl w) fun _ _ _ => .ok ()
  | cons t ts ih =>
    obtain ⟨ht, hts⟩ := List.forall_mem_cons.1 hts
    have hpasses : ∀ a ∈ (Event.requested t k).addition?, a.Passes := by
      rintro a ⟨⟩
      exact Addition.passes_once ht
    have hlog : Onward kept [.requested t k] w _ := onward_log (.requested t k) w
    refine (leads_bind _ _).2 (leads_log_shared hpasses ((leads_bind _ _).2 ((leads_discard _).2 ?_)))
    refine leads_upsert_shared ht hheld fun v r hv hr => ?_
    cases r with
    | error f =>
      refine h [t] v (.error f) (by simp) (hlog.trans hv) fun hkept link hw => ?_
      have hf := hr hkept link (hlog.writable hkept link hw) f rfl
      rintro g ⟨⟩
      exact hf
    | ok c =>
      refine ih hts fun us u r hus hu hr => ?_
      refine h (t :: us) u r (List.cons_prefix_cons.2 ⟨rfl, hus⟩) ((hlog.trans hv).trans hu) fun hkept link hw => ?_
      exact hr hkept link ((hlog.trans hv).writable hkept link hw)

/-- The tags that a call has found are counted. -/
theorem leads_counted_shared {c : Call} {tags : List String} {v : World}
    {post : List Lock → World → Except Fault Unit → Prop} (htags : c.found.2 = .ok tags)
    (hv : Onward kept (c.found.1.map .consulted) w v) (hheld : Lock.writes ∉ held)
    (h : ∀ es u r, Onward kept es w u → ProperRequests es → (kept → ∀ link, w.Writable link → Granted r) →
      post held u r) : (incrementEach c.kind (firstOccurrences tags)).run.Leads (sharedTerms kept) post held v := by
  refine leads_incrementEach_shared (c.isBlank_of_found htags) hheld fun us u r hus hu hr => ?_
  refine h _ u r (hv.trans hu) (.of_eq (requests_requested c.found.1 us) ?_ ?_) fun hkept link hw => ?_
  · exact (nodup_firstOccurrences tags).sublist hus.sublist
  · exact fun t ht => c.isBlank_of_found htags t (hus.subset ht)
  · exact hr hkept link (hv.writable hkept link hw)

end Work

/-- **A call while the store is used.** Whatever others do with the store meanwhile, all that the call asks for passes
the check, each time for another tag. If they leave it so that it can be written, no request is refused, unless its
count has too many digits. -/
theorem Call.leads_part_shared (c : Call) {kept : Prop} {w : World} {held : List Lock} (hheld : Lock.writes ∉ held) :
    c.part.run.Leads (World.sharedTerms kept) (fun _ v r => ∃ es, World.Onward kept es w v ∧ ProperRequests es ∧
      (kept → ∀ link, w.Writable link → ∀ f, r = .error f → f ≠ .unwritable →
        f.category ≠ .invalidValue ∧ f.category ≠ .storeFailure)) held w := by
  have hown {f : Fault} (hf : f.category ∈ faults) (g : Fault) (hg : (.error f : Except Fault Unit) = .error g)
      (_ : g ≠ .unwritable) : g.category ≠ .invalidValue ∧ g.category ≠ .storeFailure :=
    Except.error.inj hg ▸ ne_of_mem_faults hf
  cases c with
  | classify tags =>
    refine (Work.leads_bind _ _).2 ((Work.leads_given _).2 ?_)
    cases htags : usableTags tags with
    | error f =>
      have hf : f.category ∈ faults := category_of_found (c := .classify tags) htags
      exact ⟨[], .refl w, .of_consulted [], fun _ _ _ => hown hf⟩
    | ok ts =>
      refine Work.leads_counted_shared (c := .classify tags) htags (.refl w) hheld fun es u r hu hes hr => ?_
      exact ⟨es, hu, hes, fun hkept link hw f hf hne => absurd (hr hkept link hw f hf) hne⟩
  | converse request d =>
    refine (Work.leads_bind _ _).2 ((Work.leads_look _).2 ((Work.leads_bind _ _).2 ((Work.leads_given _).2 ?_)))
    cases hreplay : w.updater.isReplay (request.key w.updater.policy.defaultKey) request with
    | error f =>
      refine ⟨[], .refl w, .of_consulted [], fun _ _ _ g hg hne => ?_⟩
      obtain rfl := Except.error.inj hg
      refine ne_of_mem_faults ?_
      have hcategory := (Updater.category_of_isReplay hreplay).resolve_left hne
      simp [faults, hcategory]
    | ok replay =>
      cases replay with
      | true =>
        refine ⟨[], .refl w, .of_consulted [], fun _ _ _ f hf => ?_⟩
        cases hf
      | false =>
        refine (Work.leads_bind _ _).2 (Work.leads_consult_shared fun v hv => ?_)
        cases hfound : (d.consult request.texts).2 with
        | error f =>
          have hf : f.category ∈ faults := category_of_found (c := .converse request d) hfound
          exact ⟨_, hv, .of_consulted _, fun _ _ _ => hown hf⟩
        | ok tags =>
          refine (Work.leads_bind _ _).2 ?_
          refine Work.leads_counted_shared (c := .converse request d) hfound hv hheld fun es u r hu hes hr => ?_
          cases r with
          | error f =>
            exact ⟨es, hu, hes, fun hkept link hw g hg hne => absurd (hr hkept link hw g hg) hne⟩
          | ok _ =>
            -- what was counted is remembered, whether or not that fails
            let latest := request.latest.map Moment.instant
            have hnote : World.Onward kept [] u _ :=
              World.onward_remember (request.key w.updater.policy.defaultKey) latest u
            refine (Work.leads_atOnce _).2 ⟨hnote.guarantee, es ++ [], hu.trans hnote, ?_, fun _ _ _ f hf _ => ?_⟩
            · rwa [List.append_nil]
            · refine ne_of_mem_faults ?_
              rcases Updater.category_of_remember hf with hcategory | hcategory <;> simp [faults, hcategory]

end LanguageUsage
