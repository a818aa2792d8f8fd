import LanguageUsage.Proofs.Command.Settings
import LanguageUsage.Proofs.Ingest.Fresh

/-!
# Command lines and a session

Every command line is run by a process of its own, which loads the settings, opens the database, makes its call on an
updater that remembers nothing, and closes the database again. What they leave in the database is what one updater
leaves there that stays, skips no replays and is given the calls one after another.

* `Command.Makes`: the calls that a command makes;
* `Run.commandLines`, `Tree.opened`: the files after some command lines, and the database in them;
* `Tree.Asks`: a command line that is understood, and finds settings under which the database is used;
* `Tree.Ready`: a database that is opened as a medium, now and later;
* `Tree.Ready.commandLine`, `Tree.Ready.commandLines`: it is ready after a command line, and after some;
* `Run.commandLines_eq_session`: what is in it then.
-/

namespace LanguageUsage

/-! ### Calls of commands -/

/-- The calls that a command makes. Nothing is said of the notification, but that it can be written, and of the times
of the messages. -/
inductive Command.Makes : Command → List Call → Prop
  | classify (tags : List String) : Makes (.classify tags) [.classify (tags.map .text)]
  | converse {texts : List String} {request : Request} (notification : Option String)
      (h : request.messages.map Message.text = texts.map some) (hkey : request.isKeyWritable = true) :
      Makes (.converse texts notification) [.converse request .byScript]
  | detect (text : String) : Makes (.detect text) []
  | counters (kind : Option SignalKind) : Makes (.counters kind) []
  | status : Makes .status []
  | help : Makes .help []

theorem Command.Makes.isKeyWritable {c : Command} {calls : List Call} (h : c.Makes calls) :
    ∀ call ∈ calls, call.isKeyWritable = true := by
  cases h with
  | classify tags => exact List.forall_mem_singleton.2 rfl
  | converse notification h hkey => exact List.forall_mem_singleton.2 hkey
  | _ => exact List.forall_mem_nil _

namespace Run

/-- The files that some command lines leave, each run at its own time by a process of its own. -/
def commandLines (t : Tree) (e : Environment) : List (Moment × List String) → Tree
  | [] => t
  | line :: lines => commandLines (commandLine t e line.1 line.2).1 e lines

/-- A notification that is given by an option is a text. -/
theorem isKeyWritable_requestOf (now : Moment) (texts : List String) (notification : Option String) :
    (requestOf now texts notification).isKeyWritable = true := by
  have hmessages : ((requestOf now texts notification).messages.findSome? fun m => declaredKey m.extras) = none := by
    rw [List.findSome?_eq_none_iff]
    intro m hm
    obtain ⟨text, -, rfl⟩ := List.mem_map.1 hm
    rfl
  rw [Request.isKeyWritable, Request.declared, hmessages]
  cases notification with
  | none => rfl
  | some k =>
    by_cases hk : k = ""
    · simp [requestOf, hk, declaredKey, Value.Fields.get?]
    · simp [requestOf, hk, declaredKey, Value.Fields.get?, Value.isTruthy, Value.isWritable]

/-- What a command does to the store of an updater that remembers nothing. -/
theorem store_act {c : Command} {calls : List Call} (hc : c.Makes calls) {policy : Policy}
    (hkey : policy.defaultKey.isKey = true) (store : Store) (minShare : Value) (now : Moment) :
    (act ⟨store, policy, []⟩ minShare now c).1.store = calls.foldl Call.addTo store := by
  have hcount : ∀ call line, call.isKeyWritable = true →
      (count ⟨store, policy, []⟩ call line).1.store = call.addTo store := by
    intro call line hcall
    have hstore := Updater.store_perform_of_not_replay (u := ⟨store, policy, []⟩) (c := call)
      (Updater.replay?_of_memory_eq_nil rfl hkey hcall)
    rw [← hstore, count]
    split <;> rfl
  cases hc with
  | classify tags => exact hcount _ _ rfl
  | @converse texts request notification h _ =>
    have htexts : (requestOf now texts notification).messages.map Message.text = texts.map some := by
      simp [requestOf]
    have hcall : Call.isKeyWritable (.converse (requestOf now texts notification) .byScript) = true :=
      isKeyWritable_requestOf now texts notification
    exact (hcount _ _ hcall).trans (Call.addTo_converse_congr (htexts.trans h.symm) _ _)
  | _ => rfl

end Run

/-! ### Databases that stay -/

namespace Tree

variable {t t' : Tree} {path : String} {l : Location} {a : Address} {parent : Location} {name : String} {m m' : Medium}
  {home : String} {calls : List Call}

/-- The database at a path as a store that is open. -/
def opened (t : Tree) (path : String) : Store := (Store.database (t.openDatabase path).2).connect.1

theorem connect_of_table (h : m.table?.isSome = true) : (Store.database { path := path, medium := m }).connect =
    (.database { path := path, medium := m, connected := true }, .ok ()) := by
  cases m <;> first | rfl | cases h

/-- Keeping a database in which something was counted leaves a tree that hosts it as it is then. -/
theorem Hosts.keep_of_becomes (h : t.Hosts path a parent name m) (hm : m.Becomes m') :
    let kept := t.keep { path := path, medium := m', connected := true }
    kept.Hosts path a parent name m' ∧
      ∀ l s, t.entry? l = some (.file (.text s)) → ¬ t.IsJournal path l → t.Spares kept l := by
  cases hm with
  | table rows rows' => exact h.keep rows' true
  | same =>
    have htable := h.rests.table?
    cases m with
    | table rows => exact h.keep rows true
    | sealed rows => exact ⟨h, fun l s _ _ => .refl t l⟩
    | _ => cases htable

/-- The database at a path is opened as a medium, and is found again. The file at a location is spared. -/
structure Ready (t : Tree) (path : String) (l : Location) (a : Address) (parent : Location) (name : String)
    (m : Medium) : Prop where
  hosts : (t.openDatabase path).1.Hosts path a parent name m
  store : (t.openDatabase path).2 = { path := path, medium := m }
  spares : t.Spares (t.openDatabase path).1 l
  noJournal : ¬ (t.openDatabase path).1.IsJournal path l

theorem Hosts.ready (h : t.Hosts path a parent name m) (hl : ¬ t.IsJournal path l) :
    t.Ready path l a parent name m := by
  refine ⟨?_, ?_, ?_, ?_⟩ <;> rw [h.openDatabase]
  · exact h
  · exact .refl t l
  · exact hl

theorem Ready.opened (h : t.Ready path l a parent name m) :
    t.opened path = .database { path := path, medium := m, connected := true } := by
  rw [Tree.opened, h.store, connect_of_table h.hosts.rests.table?]

/-- **A command on the database** leaves it ready, with its calls counted in it. -/
theorem Ready.onStore (h : t.Ready path l a parent name m) {text : String} (hl : t.entry? l = some (.file (.text text)))
    {s : Settings} (hstore : s.storeChoice = .ok (.database path)) (hkey : s.defaultKey.isKey = true) {c : Command}
    (hc : c.Makes calls) (now : Moment) : ∃ m', (Run.onStore t s now c).1.Ready path l a parent name m' ∧
      (Run.onStore t s now c).1.opened path = calls.foldl Call.addTo (t.opened path) ∧
      t.Spares (Run.onStore t s now c).1 l := by
  have hpolicy : s.policy.defaultKey.isKey = true := hkey
  have hact := Run.store_act hc hpolicy
    (.database { path := path, medium := m, connected := true }) s.minShare now
  obtain ⟨m', hm', hbecomes⟩ := Call.foldl_addTo_database { path := path, medium := m, connected := true } calls
  rw [hm'] at hact
  have htree : (Run.onStore t s now c).1 =
      (t.openDatabase path).1.keep { path := path, medium := m', connected := true } := by
    rw [Run.onStore, Run.openStore, hstore]
    simp only [h.store, connect_of_table h.hosts.rests.table?, hact, Run.keepStore]
  obtain ⟨hhosts, hspares⟩ := h.hosts.keep_of_becomes hbecomes
  have hentry : Tree.entry? (t.openDatabase path).1 l = some (.file (.text text)) := h.spares.entry.trans hl
  have hready : (Run.onStore t s now c).1.Ready path l a parent name m' := by
    rw [htree]
    exact hhosts.ready (by rw [hhosts.isJournal_iff, ← h.hosts.isJournal_iff]; exact h.noJournal)
  refine ⟨m', hready, ?_, ?_⟩
  · rw [hready.opened, h.opened, hm']
  · rw [htree]
    exact h.spares.trans (hspares l text hentry h.noJournal)

/-! ### Command lines -/

/-- A command line that is understood and makes some calls. Its settings are in the file at a location, and the database
at a path is used under them. -/
inductive Asks (t : Tree) (e : Environment) (path : String) (l : Location) (arguments : List String)
    (calls : List Call) : Prop
  | intro {asked : Option String} {command : CommandName} {rest : List String} {c : Command} {s : Settings}
      (hread : Invocation.read arguments = .command asked command rest) (hcommand : Command.read command rest = some c)
      (hcalls : c.Makes calls) (hsettings : t.SettingsAt e asked l s)
      (hstore : s.storeChoice = .ok (.database path)) (hkey : s.defaultKey.isKey = true)

theorem Asks.spared {e : Environment} {arguments : List String} (h : t.Asks e path l arguments calls)
    (hspares : t.Spares t' l) : t'.Asks e path l arguments calls := by
  obtain ⟨hread, hcommand, hcalls, hsettings, hstore, hkey⟩ := h
  exact ⟨hread, hcommand, hcalls, hsettings.spared hspares, hstore, hkey⟩

theorem isKeyWritable_of_asks {e : Environment} {lines : List (Moment × List String)} {calls : List (List Call)}
    (h : List.Forall₂ (fun line calls => t.Asks e path l line.2 calls) lines calls) :
    ∀ call ∈ calls.flatten, call.isKeyWritable = true := by
  induction h with
  | nil => exact List.forall_mem_nil _
  | cons hfirst _ ih =>
    obtain ⟨-, -, hmakes, -, -, -⟩ := hfirst
    rw [List.flatten_cons, List.forall_mem_append]
    exact ⟨hmakes.isKeyWritable, ih⟩

/-- **A command line** leaves the database ready, with its calls counted in it. -/
theorem Ready.commandLine (h : t.Ready path l a parent name m) {arguments : List String}
    (hasks : t.Asks { home := home } path l arguments calls) (now : Moment) :
    ∃ m', (Run.commandLine t { home := home } now arguments).1.Ready path l a parent name m' ∧
      (Run.commandLine t { home := home } now arguments).1.opened path = calls.foldl Call.addTo (t.opened path) ∧
      t.Spares (Run.commandLine t { home := home } now arguments).1 l := by
  obtain ⟨hread, hcommand, hcalls, hsettings, hstore, hkey⟩ := hasks
  obtain ⟨text, hl, -⟩ := hsettings.exists_text
  rw [Run.commandLine, hread]
  simp only [hsettings.checkSettings, Run.loaded, hsettings.load, hcommand]
  -- the variables are not set
  have hvariables : ∀ s : Settings, s.overridden { home := home } = s := fun s => rfl
  rw [hvariables]
  have honStore := h.onStore hl hstore hkey hcalls now
  cases hcalls with
  | classify tags => exact honStore
  | converse notification htexts _ => exact honStore
  | counters kind => exact honStore
  | detect text => exact ⟨m, h, rfl, .refl t l⟩
  | status => exact ⟨m, h, rfl, .refl t l⟩
  | help => exact ⟨m, h, rfl, .refl t l⟩

/-- **Command lines** leave the database ready, with all their calls counted in it. -/
theorem Ready.commandLines (h : t.Ready path l a parent name m) {lines : List (Moment × List String)}
    {calls : List (List Call)}
    (hlines : List.Forall₂ (fun line calls => t.Asks { home := home } path l line.2 calls) lines calls) :
    (Run.commandLines t { home := home } lines).opened path = calls.flatten.foldl Call.addTo (t.opened path) := by
  induction lines generalizing t m calls with
  | nil =>
    cases hlines
    rfl
  | cons line lines ih =>
    cases hlines with
    | cons hfirst hrest =>
      obtain ⟨m', hready, hopened, hspares⟩ := h.commandLine hfirst line.1
      rw [Run.commandLines, ih hready (hrest.imp fun _ _ hasks => hasks.spared hspares), hopened, List.flatten_cons,
        List.foldl_append]

end Tree

/-! ### Sessions -/

namespace Run

variable {t : Tree} {home path : String} {l : Location} {u : Updater}

/-- **Command lines are one session.** What is in the database after command lines that all use it is what an updater
leaves in it that is given their calls one after another, and skips no replays. The settings say otherwise without an
effect, and so do the notifications of the requests; a command that makes no call changes nothing. Two things must not
happen when the database is opened for the first time: the settings must not have the name of a journal of it or of the
index of a log, which are removed with it, and it must still be found where it then is, which could only fail for an
address with options. -/
theorem commandLines_eq_session {lines : List (Moment × List String)} {calls : List (List Call)} (hplace : t.HasPlace)
    (hopens : (t.openDatabase path).2.Keeps)
    (hagain : path.startsWith Address.heading = true → ((t.openDatabase path).1.openDatabase path).2.Keeps)
    (hsettings : ¬ (t.openDatabase path).1.IsJournal path l)
    (hlines : List.Forall₂ (fun line calls => t.Asks { home := home } path l line.2 calls) lines calls)
    (hstore : u.store = t.opened path) (hs : u.suppresses = false) :
    (commandLines t { home := home } lines).opened path = (u.performAll calls.flatten).1.store := by
  rw [Updater.store_performAll_of_not_suppresses hs (Tree.isKeyWritable_of_asks hlines), hstore]
  cases hlines with
  | nil => rfl
  | cons hfirst hrest =>
    obtain ⟨text, hl, htext⟩ : ∃ text, t.entry? l = some (.file (.text text)) ∧ text ≠ "" := by
      obtain ⟨-, -, -, hfound, -, -⟩ := hfirst
      exact hfound.exists_text
    obtain ⟨a, parent, name, m, hhosts, hmedium, hspares⟩ := Tree.hosts_of_openDatabase hplace hopens hagain
    have hready : t.Ready path l a parent name m := ⟨hhosts, hmedium, hspares l text hl htext hsettings, hsettings⟩
    exact hready.commandLines (.cons hfirst hrest)

/-- Four command lines under settings that ask for replays to be skipped, where the database is not there at first and
its directory neither. -/
theorem commandLines_eq_session_of_four :
    let t : Tree := ⟨["home"], .directory [("home", .directory [("settings.json", .file (.text
      ("\x7b\"storage\": \x7b\"database\": \"data/counts.db\"\x7d, " ++
        "\"updater\": \x7b\"suppress_replays\": true\x7d\x7d")))])]⟩
    let path := "data/counts.db"
    let converse := ["--config", "settings.json", "converse", "-k", "inbox", "Привет"]
    let lines : List (Moment × List String) := [(default, converse), (default, ["--config", "settings.json", "show"]),
      (default, converse), (default, ["--config", "/home/settings.json", "classify", "en", "en"])]
    let converseCall : Call := .converse { messages := [{ text := some "Привет" }] } .byScript
    let calls : List (List Call) := [[converseCall], [], [converseCall], [.classify [.text "en", .text "en"]]]
    let u : Updater := { store := t.opened path }
    t.HasPlace ∧ (t.openDatabase path).2.Keeps ∧
      (path.startsWith Address.heading = true → ((t.openDatabase path).1.openDatabase path).2.Keeps) ∧
      ¬ (t.openDatabase path).1.IsJournal path ["home", "settings.json"] ∧
      List.Forall₂ (fun line calls => t.Asks {} path ["home", "settings.json"] line.2 calls) lines calls ∧
      u.suppresses = false ∧ (commandLines t {} lines).opened path = (u.performAll calls.flatten).1.store ∧
      (commandLines t {} lines).opened path = .database
        ⟨path, .table [(("ru", "suggest_conversation_actions"), .whole 2), (("en", "classify_text"), .whole 1)],
          true, true⟩ := by
  intro t path converse lines converseCall calls u
  have hplace : t.HasPlace := by
    unfold Tree.HasPlace
    decide +kernel
  have hopens : (t.openDatabase path).2.Keeps := ⟨by decide +kernel, by decide +kernel⟩
  have hagain : path.startsWith Address.heading = true → ((t.openDatabase path).1.openDatabase path).2.Keeps := fun h =>
    absurd h (by decide +kernel)
  have hsettings : ¬ (t.openDatabase path).1.IsJournal path ["home", "settings.json"] := by
    rintro ⟨site, hsite, hjournal⟩
    have hfound : (t.openDatabase path).1.site? path = some ["home", "data", "counts.db"] := by decide +kernel
    obtain rfl := Option.some.inj (hfound.symm.trans hsite)
    exact absurd hjournal (by decide +kernel)
  let s : Settings :=
    { Settings.new ⟨.here, []⟩ with database := .text "data/counts.db", suppressReplays := .bool true }
  have hhere : t.SettingsAt {} (some "settings.json") ["home", "settings.json"] s :=
    ⟨⟨.here, ["settings.json"]⟩, ⟨.here, []⟩, by decide +kernel, by decide +kernel, by decide +kernel⟩
  have hroot : t.SettingsAt {} (some "/home/settings.json") ["home", "settings.json"]
      { s with directory := ⟨.root, ["home"]⟩ } :=
    ⟨⟨.root, ["home", "settings.json"]⟩, ⟨.root, ["home"]⟩, by decide +kernel, by decide +kernel, by decide +kernel⟩
  have hconverse : t.Asks {} path ["home", "settings.json"] converse [converseCall] := by
    have hread : Invocation.read converse = .command (some "settings.json") .converse ["-k", "inbox", "Привет"] := by
      decide +kernel
    have hcommand : Command.read .converse ["-k", "inbox", "Привет"] = some (.converse ["Привет"] (some "inbox")) := by
      decide +kernel
    exact .intro hread hcommand (.converse _ rfl rfl) hhere (by decide +kernel) (by decide +kernel)
  have hshow : t.Asks {} path ["home", "settings.json"] ["--config", "settings.json", "show"] [] := by
    have hread : Invocation.read ["--config", "settings.json", "show"] =
        .command (some "settings.json") .counters [] := by
      decide +kernel
    have hcommand : Command.read .counters [] = some (.counters none) := by decide +kernel
    exact .intro hread hcommand (.counters none) hhere (by decide +kernel) (by decide +kernel)
  have hclassify : t.Asks {} path ["home", "settings.json"] ["--config", "/home/settings.json", "classify", "en", "en"]
      [.classify [.text "en", .text "en"]] := by
    have hread : Invocation.read ["--config", "/home/settings.json", "classify", "en", "en"] =
        .command (some "/home/settings.json") .classify ["en", "en"] := by decide +kernel
    have hcommand : Command.read .classify ["en", "en"] = some (.classify ["en", "en"]) := by decide +kernel
    exact .intro hread hcommand (.classify ["en", "en"]) hroot (by decide +kernel) (by decide +kernel)
  have hlines : List.Forall₂ (fun line calls => t.Asks {} path ["home", "settings.json"] line.2 calls) lines calls :=
    .cons hconverse (.cons hshow (.cons hconverse (.cons hclassify .nil)))
  exact ⟨hplace, hopens, hagain, hsettings, hlines, by decide +kernel,
    commandLines_eq_session hplace hopens hagain hsettings hlines rfl (by decide +kernel), by decide +kernel⟩

/-- Settings in a file with the name of a journal of the database are removed by the first command line. The second one
finds none, and counts in a database of its own. -/
theorem commandLines_remove_settings :
    let t : Tree := ⟨[], .directory [("counts.db-journal",
      .file (.text "\x7b\"storage\": \x7b\"database\": \"counts.db\"\x7d\x7d"))]⟩
    let line : Moment × List String := (default, ["--config", "counts.db-journal", "classify", "en"])
    let call : Call := .classify [.text "en"]
    t.HasPlace ∧ (t.openDatabase "counts.db").2.Keeps ∧ t.Asks {} "counts.db" ["counts.db-journal"] line.2 [call] ∧
      (commandLines t {} [line, line]).opened "counts.db" ≠
        (({ store := t.opened "counts.db" } : Updater).performAll [call, call]).1.store := by
  intro t line call
  refine ⟨?_, ⟨by decide +kernel, by decide +kernel⟩, ?_, by decide +kernel⟩
  · unfold Tree.HasPlace
    decide +kernel
  · have hfound : t.SettingsAt {} (some "counts.db-journal") ["counts.db-journal"]
        { Settings.new ⟨.here, []⟩ with database := .text "counts.db" } :=
      ⟨⟨.here, ["counts.db-journal"]⟩, ⟨.here, []⟩, by decide +kernel, by decide +kernel, by decide +kernel⟩
    have hread : Invocation.read line.2 = .command (some "counts.db-journal") .classify ["en"] := by decide +kernel
    exact .intro hread (by decide +kernel) (.classify ["en"]) hfound (by decide +kernel) (by decide +kernel)

/-- A database is found under an address with options that leads through what is not there, but not through itself. -/
example :
    let t : Tree := ⟨[], .directory []⟩
    let path := "file:counts.db/in/../../counts.db"
    (t.openDatabase path).2.Keeps ∧ ¬ ((t.openDatabase path).1.openDatabase path).2.Keeps := by
  intro t path
  exact ⟨⟨by decide +kernel, by decide +kernel⟩, fun h => absurd h.table (by decide +kernel)⟩

end Run

end LanguageUsage
