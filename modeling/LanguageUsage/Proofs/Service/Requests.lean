import LanguageUsage.Proofs.Service.Meanwhile
import LanguageUsage.Proofs.Service.Serial

/-!
# The requests of calls

Whoever goes on first, and whatever is done with the store meanwhile, what the calls of a service ask it for passes
its check.

* `Serial.exists_parts`, `Serial.exists_of_answer`: what was asked for since, and the answers, call by call;
* `requests_pass_check`: calls that are performed one by one, while the store is used, or submitted to a service.
-/

namespace LanguageUsage

namespace Serial

variable {w : World} {cs : List Call} {tasks : List Nat} {n : Nat} {l : Loop World Task Completion}

/-- What was asked for since is divided among the first calls, the last of which may be in progress. -/
theorem exists_parts (h : Serial w cs tasks n l) : ∃ parts : List (List Event),
    l.state.events = w.events ++ parts.flatten ∧ ∀ (i : Nat) es, parts[i]? = some es →
      ∃ o : Updater × Call, (w.updater.occasions cs)[i]? = some o ∧ es <+: (o.1.perform o.2).events := by
  obtain ⟨es, hes, hbegun⟩ := h.events
  let asked (o : Updater × Call) : List Event := (o.1.perform o.2).events
  have hpast : (w.updater.performAll (cs.take n)).2.1 = (((w.updater.occasions cs).take n).map asked).flatten := by
    rw [Updater.performAll_snd, Updater.reports, Updater.occasions_take, List.flatMap_map]
    rfl
  have hask : ∀ (i : Nat) es', (((w.updater.occasions cs).take n).map asked)[i]? = some es' →
      ∃ o : Updater × Call, (w.updater.occasions cs)[i]? = some o ∧ es' <+: asked o := by
    intro i es' hi
    rw [List.getElem?_map] at hi
    obtain ⟨o, ho, rfl⟩ := Option.map_eq_some_iff.1 hi
    rw [List.getElem?_take] at ho
    split at ho
    · exact ⟨o, ho, List.prefix_refl _⟩
    · cases ho
  rw [hpast] at hes
  cases hnext : cs[n]? with
  | none =>
    rw [hnext] at hbegun
    rw [List.prefix_nil.1 hbegun, List.append_nil] at hes
    exact ⟨_, hes, hask⟩
  | some c =>
    rw [hnext] at hbegun
    have hoccasion : (w.updater.occasions cs)[n]? = some ((w.updater.performAll (cs.take n)).1, c) := by
      rw [Updater.getElem?_occasions, hnext]
      rfl
    have hlength : (((w.updater.occasions cs).take n).map asked).length = n := by
      have hlt := (List.getElem?_eq_some_iff.1 hoccasion).1
      rw [List.length_map, List.length_take, Nat.min_eq_left (Nat.le_of_lt hlt)]
    refine ⟨((w.updater.occasions cs).take n).map asked ++ [es], by simpa using hes, fun i es' hi => ?_⟩
    rcases Nat.lt_or_ge i n with hlt | hge
    · rw [List.getElem?_append_left (by rwa [hlength])] at hi
      exact hask i es' hi
    · rw [List.getElem?_append_right (by rwa [hlength]), hlength, List.getElem?_singleton] at hi
      split at hi
      · obtain rfl : i = n := by omega
        obtain rfl := Option.some.inj hi
        exact ⟨_, hoccasion, hbegun⟩
      · cases hi

/-- A call that has ended is answered with its result. -/
theorem exists_of_answer {task : Nat} {r : Completion} (h : Serial w cs tasks n l) (htask : task ∈ tasks)
    (hr : l.answer? task = some r) : ∃ o ∈ w.updater.occasions cs, r = .ofCall (o.1.perform o.2).result := by
  have hmem : some r ∈ tasks.map l.answer? := List.mem_map.2 ⟨task, htask, hr⟩
  rw [h.answers] at hmem
  rcases List.mem_append.1 hmem with hended | hnone
  · obtain ⟨x, hx, heq⟩ := List.mem_map.1 hended
    have hresult := List.mem_of_mem_take hx
    rw [Updater.performAll_snd, Updater.reports, List.map_map] at hresult
    obtain ⟨o, ho, rfl⟩ := List.mem_map.1 hresult
    exact ⟨o, ho, (Option.some.inj heq).symm⟩
  · cases List.eq_of_mem_replicate hnone

end Serial

/-- **No request is refused by the check.** A call may be given anything as tags, any request and any detector, and the
updater may be in any state. All that the call asks the store for passes the check of the store, each time for another
tag, and what becomes of the store is what these requests make of it. If the store can be written, none of them is
refused, and the call does not fail for an invalid value or for the store. Numbers with too many digits to be written
stand apart, in the name of a notification as in a count.

The same holds of a call whose store is used by others meanwhile. They may do with it whatever they like, only that they
have to leave it so that it can be written for the last of this to hold.

Of a service with which nothing is going on, to which calls are submitted in any number and at any moments, it holds
whoever goes on first: what was asked for since is divided among the first calls, and no call that has ended has failed
for one of these reasons if the store could be written. -/
theorem requests_pass_check (call : Call) :
    (∀ u : Updater, let o := u.perform call
      ProperRequests o.events ∧
      o.updater.store = (u.store.performAll ((requests o.events).map Addition.operation)).1 ∧
      (u.store.Writable → o.updater.store.Writable ∧
        (∀ r ∈ (u.store.performAll ((requests o.events).map Addition.operation)).2, Granted r) ∧
        ∀ f, o.result = .error f → f ≠ .unwritable →
          f.category ≠ .invalidValue ∧ f.category ≠ .storeFailure)) ∧
    (∀ (kept : Prop) (w : World) (held : List Lock), Lock.writes ∉ held →
      call.part.run.Leads (World.sharedTerms kept) (fun _ v r => ∃ es, World.Onward kept es w v ∧ ProperRequests es ∧
        (kept → ∀ link, w.Writable link → ∀ f, r = .error f → f ≠ .unwritable →
          f.category ≠ .invalidValue ∧ f.category ≠ .storeFailure)) held w) ∧
    ∀ (l : Loop World Task Completion) (steps : List Step) (c : Course World Task Completion), l.Quiescent →
      Serves ⟨l, []⟩ steps c →
      (∃ parts : List (List Event), c.loop.state.events = l.state.events ++ parts.flatten ∧
        ∀ (i : Nat) es, parts[i]? = some es → ProperRequests es ∧
          ∃ o : Updater × Call, (l.state.updater.occasions (steps.flatMap Step.accepted))[i]? = some o ∧
            es <+: (o.1.perform o.2).events) ∧
      ∃ tasks, c.loop.state.calls = l.state.calls ++ tasks ∧ (l.state.store.Writable →
        ∀ n ∈ tasks, ∀ f, c.loop.answer? n = some (.error f) → f ≠ .unwritable →
          f.category ≠ .invalidValue ∧ f.category ≠ .storeFailure) := by
  have hown : ∀ {u : Updater} {c : Call} {f : Fault}, u.store.Writable → (u.perform c).result = .error f →
      f ≠ .unwritable → f.category ≠ .invalidValue ∧ f.category ≠ .storeFailure :=
    fun h hf hne => Call.ne_of_mem_faults ((Updater.category_of_result h hf).resolve_left hne)
  refine ⟨fun u => ?_, fun kept w held hheld => call.leads_part_shared hheld, fun l steps c hl hserves => ?_⟩
  · obtain ⟨us, -, hus, hrequests, hstore⟩ := u.requested_perform call
    dsimp only
    rw [hrequests]
    refine ⟨u.properRequests_perform call, hstore, fun h => ?_⟩
    exact ⟨Updater.writable_perform h call, (h.performAll hus call.kind).2, fun f hf => hown h hf⟩
  · obtain ⟨tasks, k, hcalls, hserial, -⟩ := (Serves.serial_equivalence hl hserves).1
    obtain ⟨parts, hevents, hparts⟩ := hserial.exists_parts
    refine ⟨⟨parts, hevents, fun i es hi => ?_⟩, tasks, hcalls, fun h n hn f hf hne => ?_⟩
    · obtain ⟨o, ho, hbegun⟩ := hparts i es hi
      exact ⟨(o.1.properRequests_perform o.2).of_begun hbegun, o, ho, hbegun⟩
    · obtain ⟨o, ho, hanswer⟩ := hserial.exists_of_answer hn hf
      refine hown (c := o.2) (Updater.writable_occasions h _ o ho) ?_ hne
      cases hresult : (o.1.perform o.2).result with
      | ok _ =>
        rw [hresult] at hanswer
        cases hanswer
      | error g =>
        rw [hresult] at hanswer
        cases hanswer
        rfl

/-- A list of tags that is partly blank, and one that holds a number, are given to a store in memory, and the first one
to an open database that others use. -/
theorem requests_pass_check_of_mixed_tags :
    let u : Updater := { store := .memory {} }
    let c := Call.classify [.text "en", .null, .text " ", .text "EN", .text "en"]
    let w : World :=
      { updater := { store := .database { DatabaseStore.volatile with connected := true } }, links := [.live] }
    let l := (Service.ofUpdater u).loop
    let step := Step.batch [.ok c, .ok (.classify [.whole 3])]
    (u.store.Writable ∧ requests (u.perform c).events = [.once .classifyText "en", .once .classifyText "EN"] ∧
      ProperRequests (u.perform c).events ∧ (u.perform c).updater.store.Writable) ∧
    (Lock.writes ∉ [Lock.calls] ∧ w.Writable (some 0) ∧ ∃ v es, ∃ r : Except Fault Unit, World.Onward True es w v ∧
      ProperRequests es ∧ ∀ f, r = .error f → f ≠ .unwritable →
        f.category ≠ .invalidValue ∧ f.category ≠ .storeFailure) ∧
    ∃ d, l.Quiescent ∧ Serves ⟨l, []⟩ [step] d ∧ d.loop = (l.perform Task.activity 32 step.work.run).1 ∧
      (∃ parts : List (List Event), d.loop.state.events = parts.flatten ∧
        ∀ (i : Nat) es, parts[i]? = some es → ProperRequests es) ∧
      ∃ tasks, d.loop.state.calls = tasks ∧ ∀ n ∈ tasks, ∀ f, d.loop.answer? n = some (.error f) →
        f ≠ .unwritable → f.category ≠ .invalidValue ∧ f.category ≠ .storeFailure := by
  intro u c w l step
  have hu : u.store.Writable := rfl
  have hasked : (u.perform c).events = [.requested "en" .classifyText, .requested "EN" .classifyText] := by
    decide +kernel
  have hrequests : requests (u.perform c).events = [.once .classifyText "en", .once .classifyText "EN"] := by
    rw [hasked]
    rfl
  have hcall := (requests_pass_check c).1 u
  generalize u.perform c = o at hrequests hcall ⊢
  refine ⟨⟨hu, hrequests, hcall.1, (hcall.2.2 hu).1⟩, ?_, ?_⟩
  · have hlock : Lock.writes ∉ [Lock.calls] := by decide
    have hw : w.Writable (some 0) := .database rfl rfl ⟨by rintro s ⟨⟩; exact ⟨[], rfl⟩, nofun⟩
    obtain ⟨-, v, r, -, es, hes, hproper, hr⟩ := ((requests_pass_check c).2.1 True w [.calls] hlock).ends
    exact ⟨hlock, hw, v, es, r, hes, hproper, hr trivial _ hw⟩
  · have hl : l.Quiescent := Service.quiescent_ofUpdater _ (by rintro s ⟨⟩)
    obtain ⟨begun, hserves, -⟩ := (Serves.start (c := ⟨l, []⟩)).perform (hl.orderly []) step trivial 32
    generalize (l.perform Task.activity 32 step.work.run).1 = m at hserves ⊢
    obtain ⟨⟨parts, hevents, hparts⟩, tasks, hcalls, hanswers⟩ := (requests_pass_check c).2.2 l [step] _ hl hserves
    refine ⟨⟨m, begun⟩, hl, hserves, rfl, ⟨parts, hevents, fun i es hi => (hparts i es hi).1⟩, tasks, hcalls, ?_⟩
    exact hanswers hu

/-- A database is closed while a call waits for it, and then opened again. The call asked for its increment while the
database was open. When it learns that it was closed there is no connection left on which to take a change back: so it
ends for an invalid value, and nothing is counted. -/
theorem call_fails_as_store_closes :
    let d : DatabaseStore := { path := "profile.db", medium := .table [], connected := true }
    let l : Loop World Task Completion := { state := { updater := { store := .database d }, links := [.live] } }
    let steps : List Step :=
      [.submit (.ok (.classify [.text "en"])), .operation .close, .operation .connect, .settle]
    let m := steps.foldl (fun l step => (l.perform Task.activity 32 step.work.run).1) l
    l.state.store.Writable ∧ m.state.calls = [1] ∧ m.state.events = [.requested "en" .classifyText] ∧
      m.answer? 1 = some (.error .connectionLost) ∧ Fault.connectionLost.category = .invalidValue ∧
      m.state.store = .database d := by
  intro d l steps m
  have hanswer : (m.answer? 1).any (fun r => match r with
      | .error f => f = .connectionLost
      | .ok _ => false) = true := by decide +kernel
  refine ⟨⟨rfl, [], rfl⟩, by decide +kernel, by decide +kernel, ?_, rfl, by decide +kernel⟩
  generalize m.answer? 1 = answer at hanswer ⊢
  cases answer with
  | none => cases hanswer
  | some r =>
    cases r with
    | ok _ => cases hanswer
    | error f => rw [show f = .connectionLost by simpa using hanswer]

end LanguageUsage
