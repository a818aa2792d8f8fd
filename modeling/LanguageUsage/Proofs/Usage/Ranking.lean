import LanguageUsage.Proofs.Store.Log
import LanguageUsage.Proofs.Usage.Profile
import Mathlib.Algebra.Order.BigOperators.Group.List
import Mathlib.Algebra.Order.Group.Int

/-!
# Ranking of a kind

What a profile shows of one kind of signal is found in the log of the requests for this kind, and in nothing else.

* `pairwise_idxOf_eraseDups`: members that are told apart stand in the order in which they came first;
* `Log.ofKind`, `Log.rows_ofKind`, `Log.ofAdditions_filter`: the part of a log that is about a kind;
* `Log.Outranks`, `Log.pairwise_outranks`: the order of a profile;
* `Store.IsNew`, `Store.IsNew.usage`: what is shown after requests to a new store;
* `Store.IsNew.usage_ranks_kind`: the profile of a kind.
-/

namespace LanguageUsage

theorem pairwise_idxOf_eraseDups {κ : Type} [BEq κ] [LawfulBEq κ] (ks : List κ) :
    ks.eraseDups.Pairwise fun a b => ks.idxOf a < ks.idxOf b := by
  induction ks using List.reverseRecOn with
  | nil => exact List.Pairwise.nil
  | append_singleton ks k ih =>
    -- whoever came before stays in place
    have hplace : ∀ a ∈ ks.eraseDups, (ks ++ [k]).idxOf a = ks.idxOf a := fun a ha =>
      List.idxOf_append_of_mem (List.mem_eraseDups.1 ha)
    have hold : ks.eraseDups.Pairwise fun a b => (ks ++ [k]).idxOf a < (ks ++ [k]).idxOf b :=
      ih.imp_of_mem fun ha hb hab => by rwa [hplace _ ha, hplace _ hb]
    rw [eraseDups_concat]
    split
    · exact hold
    · next hk =>
      refine List.pairwise_append.2 ⟨hold, List.pairwise_singleton _ k, fun a ha b hb => ?_⟩
      obtain rfl := List.mem_singleton.1 hb
      have hlast : (ks ++ [b]).idxOf b = ks.length := by
        rw [List.idxOf_append_of_notMem hk, List.idxOf_cons_self, Nat.add_zero]
      rw [hplace a ha, hlast]
      exact List.idxOf_lt_length_iff.2 (List.mem_eraseDups.1 ha)

/-! ### The log of a kind -/

theorem Addition.kind_of_added?_eq_some {a : Addition} {key : String × SignalKind} {n : Int}
    (h : a.added? = some (key, n)) : a.kind = .kind key.2 := by
  unfold added? at h
  split at h
  · next tag k m htag hkind hdelta =>
    split at h
    · cases h
      exact hkind
    · cases h
  · cases h

namespace Log

variable {L : Log} {k : SignalKind} {key : String × SignalKind}

/-- The entries for keys of a kind. -/
def ofKind (L : Log) (k : SignalKind) : Log := L.filter fun e => e.1.2 = k

theorem total_ofKind (L : Log) (hkey : key.2 = k) : (L.ofKind k).total key = L.total key := by
  have hboth : (L.ofKind k).filter (fun e => e.1 = key) = L.filter fun e => e.1 = key := by
    rw [ofKind, List.filter_filter]
    refine List.filter_congr fun e _ => ?_
    by_cases he : e.1 = key
    · simp [he, hkey]
    · simp [he]
  rw [total, hboth, total]

theorem keys_ofKind (L : Log) (k : SignalKind) : (L.ofKind k).keys = L.keys.filter fun key => key.2 = k := by
  rw [keys, keys, ← eraseDups_filter, List.filter_map]
  rfl

/-- The rows of a kind are the rows of its entries. -/
theorem rows_ofKind (L : Log) (k : SignalKind) : (L.ofKind k).rows = L.rows.filter fun r => r.kind = k := by
  rw [rows, keys_ofKind, rows, List.filter_map]
  refine List.map_congr_left fun key hkey => ?_
  rw [total_ofKind L (of_decide_eq_true (List.mem_filter.1 hkey).2)]

/-- The entries for a kind come from the requests for it. -/
theorem ofAdditions_filter (as : List Addition) (k : SignalKind) :
    ofAdditions (as.filter fun a => a.kind = .kind k) = (ofAdditions as).ofKind k := by
  rw [ofAdditions, List.filterMap_filter, ofKind, ofAdditions, List.filter_filterMap]
  refine List.filterMap_congr fun a _ => ?_
  cases hadded : a.added? with
  | none => simp
  | some e =>
    have hkind := Addition.kind_of_added?_eq_some hadded
    by_cases hk : e.1.2 = k
    · simp [Option.filter, hkind, hk]
    · simp [Option.filter, hkind, hk]

/-- What was added to a key that is there is at least one. -/
theorem Positive.one_le_total (h : L.Positive) (hkey : key ∈ L.map Prod.fst) : 1 ≤ L.total key := by
  obtain ⟨e, he, rfl⟩ := List.mem_map.1 hkey
  have hnonneg : ∀ n ∈ (L.filter fun e' => e'.1 = e.1).map Prod.snd, 0 ≤ n := by
    intro n hn
    obtain ⟨e', he', rfl⟩ := List.mem_map.1 hn
    exact Int.le_trans (by decide) (h e' (List.mem_of_mem_filter he'))
  have hmem : e.2 ∈ (L.filter fun e' => e'.1 = e.1).map Prod.snd :=
    List.mem_map_of_mem (List.mem_filter.2 ⟨he, decide_eq_true rfl⟩)
  exact Int.le_trans (h e he) (List.single_le_sum hnonneg _ hmem)

/-- The tag goes before another one in a profile: more was added to it, or as much and it came first. -/
def Outranks (L : Log) (k : SignalKind) (tag tag' : String) : Prop :=
  L.total (tag', k) < L.total (tag, k) ∨
    L.total (tag', k) = L.total (tag, k) ∧ (L.map Prod.fst).idxOf (tag, k) < (L.map Prod.fst).idxOf (tag', k)

instance {tag tag' : String} : Decidable (L.Outranks k tag tag') := inferInstanceAs (Decidable (_ ∨ _))

theorem Outranks.asymm {tag tag' : String} (h : L.Outranks k tag tag') : ¬ L.Outranks k tag' tag := by
  rcases h with hlt | ⟨heq, hlt⟩
  · rintro (hlt' | ⟨heq', -⟩) <;> omega
  · rintro (hlt' | ⟨-, hlt'⟩) <;> omega

/-- The rows of a kind are whole, and something was added to each. -/
theorem isWhole_of_mem_rows (h : L.Positive) : ∀ r ∈ L.rows.filter fun r => r.kind = k,
    r.IsWhole ∧ r.kind = k ∧ r.amount = L.total (r.tag, k) ∧ 1 ≤ r.amount := by
  intro r hr
  obtain ⟨hrow, hkind⟩ := List.mem_filter.1 hr
  obtain ⟨key, hkey, rfl⟩ := List.mem_map.1 hrow
  obtain rfl := of_decide_eq_true hkind
  exact ⟨rfl, rfl, rfl, h.one_le_total (mem_keys.1 hkey)⟩

/-- The rows of a kind stand in the order in which their keys came first. -/
theorem pairwise_rows (L : Log) (k : SignalKind) : (L.rows.filter fun r => r.kind = k).Pairwise fun a b =>
    (L.map Prod.fst).idxOf (a.tag, k) < (L.map Prod.fst).idxOf (b.tag, k) := by
  have hall : L.rows.Pairwise fun a b => (L.map Prod.fst).idxOf a.key < (L.map Prod.fst).idxOf b.key :=
    List.pairwise_map.2 (pairwise_idxOf_eraseDups _)
  refine (hall.filter _).imp_of_mem fun {a b} ha hb hab => ?_
  obtain rfl := of_decide_eq_true (List.mem_filter.1 ha).2
  have hb : b.kind = a.kind := of_decide_eq_true (List.mem_filter.1 hb).2
  rwa [Row.key, Row.key, hb] at hab

/-- The profile of a kind. -/
def profile (L : Log) (k : SignalKind) : List Usage :=
  let rows := L.rows.filter fun r => r.kind = k
  (Usage.ranked rows).map (Usage.entryOf (Usage.total rows))

theorem ofRows_eq_profile (h : L.Positive) (k : SignalKind) :
    Usage.ofRows (L.rows.filter fun r => r.kind = k) = .ok (L.profile k) :=
  Usage.ofRows_of_pos (fun r hr => (isWhole_of_mem_rows h r hr).1) fun r hr => (isWhole_of_mem_rows h r hr).2.2.2

/-- **A profile is ranked.** -/
theorem pairwise_outranks (h : L.Positive) (k : SignalKind) :
    (L.profile k).Pairwise fun u v => L.Outranks k u.tag v.tag := by
  have hrows := isWhole_of_mem_rows (k := k) h
  have hnodup : (L.rows.filter fun r => r.kind = k).Nodup := (L.pairwise_rows k).imp fun hab heq => by
    rw [heq] at hab
    exact Nat.lt_irrefl _ hab
  have hwhole : ∀ r ∈ L.rows.filter fun r => r.kind = k, r.IsWhole := fun r hr => (hrows r hr).1
  refine List.pairwise_map.2 ((Usage.pairwise_ranked hwhole hnodup (L.pairwise_rows k)).imp_of_mem ?_)
  intro a b ha hb hab
  obtain ⟨-, -, ha, -⟩ := hrows a ((Usage.mem_ranked hwhole).1 ha)
  obtain ⟨-, -, hb, -⟩ := hrows b ((Usage.mem_ranked hwhole).1 hb)
  rwa [ha, hb] at hab

/-- A profile has the rows of its kind. -/
theorem profile_perm (h : L.Positive) (k : SignalKind) :
    ((L.profile k).map fun u => (⟨u.tag, k, u.count⟩ : Row)).Perm (L.rows.filter fun r => r.kind = k) := by
  have hrows := isWhole_of_mem_rows (k := k) h
  have hperm := Usage.ranked_perm fun r hr => (hrows r hr).1
  have hsame : (L.profile k).map (fun u => (⟨u.tag, k, u.count⟩ : Row)) =
      Usage.ranked (L.rows.filter fun r => r.kind = k) := by
    rw [profile, List.map_map]
    refine (List.map_congr_left fun r hr => ?_).trans (List.map_id _)
    obtain ⟨-, rfl, -⟩ := hrows r (hperm.mem_iff.1 hr)
    rfl
  rw [hsame]
  exact hperm

/-- An entry has the sum for its key, and its share of all sums of the kind. -/
theorem profile_shares (h : L.Positive) {u : Usage} (hu : u ∈ L.profile k) :
    u.count = .whole (L.total (u.tag, k)) ∧
      u.share = .ofQuotient (L.total (u.tag, k)) ((L.profile k).map fun v => L.total (v.tag, k)).sum := by
  have hrows := isWhole_of_mem_rows (k := k) h
  have hperm := Usage.ranked_perm fun r hr => (hrows r hr).1
  have hsum : ((L.profile k).map fun v => L.total (v.tag, k)).sum =
      Usage.total (L.rows.filter fun r => r.kind = k) := by
    rw [Usage.total, ← (hperm.map Row.amount).sum_eq, profile, List.map_map]
    refine congrArg List.sum (List.map_congr_left fun r hr => ?_)
    exact (hrows r (hperm.mem_iff.1 hr)).2.2.1.symm
  obtain ⟨r, hr, rfl⟩ := List.mem_map.1 hu
  obtain ⟨hwhole, -, hamount, -⟩ := hrows r (hperm.mem_iff.1 hr)
  rw [hsum, Usage.entryOf, hamount]
  exact ⟨by rw [hwhole, hamount], rfl⟩

/-- A profile is the one of the entries of its kind. -/
theorem profile_ofKind (L : Log) (k : SignalKind) : (L.ofKind k).profile k = L.profile k := by
  have hrows : (L.ofKind k).rows.filter (fun r => r.kind = k) = L.rows.filter fun r => r.kind = k := by
    rw [rows_ofKind, List.filter_filter]
    exact List.filter_congr fun r _ => Bool.and_self _
  rw [profile, hrows, profile]

end Log

/-! ### New stores -/

namespace Store

/-- The store is in memory, or an open database, and has no rows. -/
def IsNew : Store → Prop
  | .memory m => m.counters = [] ∧ m.refused = []
  | .database d => d.connected = true ∧ d.medium = .table []

variable {s : Store} {L : Log} {as : List Addition}

theorem IsNew.holds (h : s.IsNew) : s.Holds [] := by
  cases s with
  | memory m =>
    have hnew : m = .ofLog m.digits [] := by
      obtain ⟨counters, refused, digits⟩ := m
      obtain ⟨rfl, rfl⟩ := h
      rfl
    rw [hnew]
    exact .memory
  | database d => exact .database ⟨rfl, by simp [MemoryStore.ofLog], h.1, h.2⟩

theorem Holds.byKind (h : s.Holds L) (k : SignalKind) :
    s.byKind (.kind k) = .ok (L.rows.filter fun r => r.kind = k) := by
  have hmemory : ∀ limit, (MemoryStore.ofLog limit L).byKind (.kind k) = L.rows.filter fun r => r.kind = k := by
    intro limit
    rw [MemoryStore.byKind, MemoryStore.rows_ofLog]
    refine List.filter_congr fun r _ => ?_
    rw [GivenKind.denotes, Bool.beq_comm]
    rfl
  cases h with
  | memory => exact congrArg Except.ok (hmemory _)
  | database h => exact (h.byKind k).trans (congrArg Except.ok (hmemory _))

theorem Holds.usage (h : s.Holds L) (hL : L.Positive) (k : SignalKind) : s.usage (.kind k) = .ok (L.profile k) := by
  rw [Store.usage, h.byKind]
  exact Log.ofRows_eq_profile hL k

/-- What a new store shows after requests is found in their log. -/
theorem IsNew.usage (h : s.IsNew) (hexact : ∀ a ∈ as, a.Exact) (hwithin : s.Within (.ofAdditions as)) (k : SignalKind) :
    (s.performAll (as.map Addition.operation)).1.rows = .ok (Log.ofAdditions as).rows ∧
      (s.performAll (as.map Addition.operation)).1.usage (.kind k) = .ok ((Log.ofAdditions as).profile k) := by
  obtain ⟨s', rs, hperform, hholds, -⟩ := h.holds.additions (List.forall_mem_nil _) hexact hwithin
  rw [hperform]
  exact ⟨hholds.rows, hholds.usage (Log.positive_ofAdditions as) k⟩

/-- **A profile ranks the rows of its kind, and sees nothing else.** A new store, in memory or an open database, is asked
to add to counts by one request after another, in which all amounts are whole numbers or no numbers at all. If the store
is a database, what the valid requests add to each key is at most `2 ^ 63 - 1`. Then the profile of a kind has each row
of this kind once, with its count, and every share is the quotient of this count by the sum of all of them. An entry
stands before another one exactly if its count is larger, or the counts are equal and the key was written first.

Requests for other kinds do not matter: whichever there are, and wherever they come in between, the profile of the kind
and its frequent languages are the same. -/
theorem IsNew.usage_ranks_kind (h : s.IsNew) (hexact : ∀ a ∈ as, a.Exact) (hwithin : s.Within (.ofAdditions as))
    (k : SignalKind) :
    let L := Log.ofAdditions as
    let s' := (s.performAll (as.map Addition.operation)).1
    s'.rows = .ok L.rows ∧ ∃ us, s'.usage (.kind k) = .ok us ∧
      (us.map fun u => (⟨u.tag, k, u.count⟩ : Row)).Perm (L.rows.filter fun r => r.kind = k) ∧
      (us.map (·.tag)).Nodup ∧
      (∀ u ∈ us, u.count = .whole (L.total (u.tag, k)) ∧
        u.share = .ofQuotient (L.total (u.tag, k)) (us.map fun v => L.total (v.tag, k)).sum) ∧
      (∀ i j, ∀ (hi : i < us.length) (hj : j < us.length), i < j ↔ L.Outranks k us[i].tag us[j].tag) ∧
      ∀ as' : List Addition, (∀ a ∈ as', a.Exact) → s.Within (.ofAdditions as') →
        as'.filter (fun a => a.kind = .kind k) = as.filter (fun a => a.kind = .kind k) →
        let s'' := (s.performAll (as'.map Addition.operation)).1
        s''.usage (.kind k) = .ok us ∧ ∀ v, s''.frequent (.kind k) v = s'.frequent (.kind k) v := by
  intro L s'
  have hL := Log.positive_ofAdditions as
  obtain ⟨hrows, husage⟩ := h.usage hexact hwithin k
  have hranked := Log.pairwise_outranks hL k
  refine ⟨hrows, _, husage, Log.profile_perm hL k, ?_, fun u hu => Log.profile_shares hL hu, ?_, ?_⟩
  · refine List.pairwise_map.2 (hranked.imp fun {u v} huv heq => ?_)
    rw [heq] at huv
    exact huv.asymm huv
  · intro i j hi hj
    refine ⟨List.pairwise_iff_getElem.1 hranked i j hi hj, fun hij => ?_⟩
    rcases Nat.lt_trichotomy i j with hlt | rfl | hgt
    · exact hlt
    · exact absurd hij hij.asymm
    · exact absurd (List.pairwise_iff_getElem.1 hranked j i hj hi hgt) hij.asymm
  · intro as' hexact' hwithin' hsame s''
    have hlog : (Log.ofAdditions as').ofKind k = (Log.ofAdditions as).ofKind k := by
      rw [← Log.ofAdditions_filter, hsame, Log.ofAdditions_filter]
    have husage' : s''.usage (.kind k) = .ok ((Log.ofAdditions as).profile k) := by
      rw [← Log.profile_ofKind, ← hlog, Log.profile_ofKind]
      exact (h.usage hexact' hwithin' k).2
    refine ⟨husage', fun v => ?_⟩
    rw [frequent, frequent, husage', husage]

/-- Two tags of equal count in a database, with a refused request and one for the other kind in between. -/
theorem IsNew.usage_ranks_kind_of_equal_counts :
    let s : Store := .database { DatabaseStore.volatile with connected := true }
    let as : List Addition := [⟨.text "en", .kind .classifyText, .whole 1⟩, ⟨.text "de", .kind .classifyText, .whole 3⟩,
      ⟨.text " ", .kind .classifyText, .whole 1⟩, ⟨.text "en", .kind .classifyText, .whole 2⟩]
    let as' := ⟨.text "de", .kind .conversationActions, .whole 7⟩ :: as
    s.IsNew ∧ (∀ a ∈ as', a.Exact) ∧ s.Within (.ofAdditions as') ∧
      ∃ us, us.map (fun u => (⟨u.tag, .classifyText, u.count⟩ : Row)) =
          [⟨"en", .classifyText, .whole 3⟩, ⟨"de", .classifyText, .whole 3⟩] ∧
        (s.performAll (as.map Addition.operation)).1.usage (.kind .classifyText) = .ok us ∧
        (s.performAll (as'.map Addition.operation)).1.usage (.kind .classifyText) = .ok us := by
  intro s as as'
  have hnew : s.IsNew := ⟨rfl, rfl⟩
  have hexact : ∀ a ∈ as', a.Exact := by
    intro a ha x
    simp only [as', as, List.mem_cons, List.not_mem_nil, or_false] at ha
    rcases ha with rfl | rfl | rfl | rfl | rfl <;> simp [Value.number?, Value.whole]
  have hexact' : ∀ a ∈ as, a.Exact := fun a ha => hexact a (List.mem_cons_of_mem _ ha)
  have hlog : Log.ofAdditions as =
      [(("en", .classifyText), 1), (("de", .classifyText), 3), (("en", .classifyText), 2)] := by decide +kernel
  have hlog' : Log.ofAdditions as' = (("de", .conversationActions), 7) :: Log.ofAdditions as := by decide +kernel
  have hwithin' : s.Within (.ofAdditions as') := by
    intro key
    rw [hlog', hlog]
    simp only [Log.total, List.filter_cons, List.filter_nil]
    split_ifs <;> simp
  have hwithin : s.Within (.ofAdditions as) := by
    intro key
    rw [hlog]
    simp only [Log.total, List.filter_cons, List.filter_nil]
    split_ifs <;> simp
  obtain ⟨-, us, husage, hperm, -, -, hranked, hframe⟩ := hnew.usage_ranks_kind hexact' hwithin .classifyText
  refine ⟨hnew, hexact, hwithin', us, ?_, husage, (hframe as' hexact hwithin' rfl).1⟩
  have hrows : (Log.ofAdditions as).rows.filter (fun r => r.kind = .classifyText) =
      [⟨"en", .classifyText, .whole 3⟩, ⟨"de", .classifyText, .whole 3⟩] := by decide +kernel
  rw [hrows] at hperm
  rcases List.perm_pair.1 hperm with hus | hus
  · exact hus
  · -- the key that was written first goes first
    obtain ⟨u, vs, rfl, hu, hvs⟩ := List.map_eq_cons_iff.1 hus
    obtain ⟨v, ws, rfl, hv, hws⟩ := List.map_eq_cons_iff.1 hvs
    obtain rfl := List.map_eq_nil_iff.1 hws
    have hde : u.tag = "de" := congrArg Row.tag hu
    have hen : v.tag = "en" := congrArg Row.tag hv
    have hfirst : (Log.ofAdditions as).Outranks .classifyText u.tag v.tag :=
      (hranked 0 1 Nat.two_pos Nat.one_lt_two).1 Nat.one_pos
    rw [hde, hen] at hfirst
    exact absurd hfirst (by decide +kernel)

end Store

end LanguageUsage
