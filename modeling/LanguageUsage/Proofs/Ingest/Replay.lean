import LanguageUsage.Ingest.Replay
import Mathlib.Data.List.Dedup
import Mathlib.Data.List.DropRight
import Mathlib.Tactic.Common

/-!
# The replay memory and its history

A memory of capacity `N` holds what was remembered last under each of the last `N` keys. This is read off
the list of all that was ever to be remembered.

* `lastEntries`: for each key its last entry;
* `Remembered`: an entry of the list is still in the memory;
* `ReplayMemory.remember_lastEntries`: remembering one more entry;
* `ReplayMemory.isReplay_iff`: what counts as a replay.
-/

namespace LanguageUsage

variable {h xs ys : List (Value × Int)} {k : Value} {t : Int} {N : Nat}

/-! ### The last entries of a list -/

/-- For each key its last entry, in the order of these entries. -/
def lastEntries : List (Value × Int) → ReplayMemory
  | [] => []
  | e :: es => if e.1 ∈ es.map Prod.fst then lastEntries es else e :: lastEntries es

/-- The entry under the key `k` was the last one, and fewer than `N` keys occur after it. -/
def Remembered (N : Nat) (h : List (Value × Int)) (k : Value) (t : Int) : Prop :=
  ∃ before after, h = before ++ (k, t) :: after ∧ k ∉ after.map Prod.fst ∧
    (after.map Prod.fst).dedup.length < N

theorem map_fst_lastEntries (h : List (Value × Int)) :
    (lastEntries h).map Prod.fst = (h.map Prod.fst).dedup := by
  induction h with
  | nil => rfl
  | cons e es ih =>
    by_cases he : e.1 ∈ es.map Prod.fst
    · rw [lastEntries, if_pos he, List.map_cons, List.dedup_cons_of_mem he, ih]
    · rw [lastEntries, if_neg he, List.map_cons, List.map_cons, List.dedup_cons_of_notMem he, ih]

theorem nodup_lastEntries (h : List (Value × Int)) : ((lastEntries h).map Prod.fst).Nodup := by
  rw [map_fst_lastEntries]
  exact List.nodup_dedup _

theorem length_lastEntries (h : List (Value × Int)) :
    (lastEntries h).length = (h.map Prod.fst).dedup.length := by
  rw [← map_fst_lastEntries, List.length_map]

/-- What comes later counts. -/
theorem lastEntries_append (xs ys : List (Value × Int)) : lastEntries (xs ++ ys) =
    (lastEntries xs).filter (fun e => e.1 ∉ ys.map Prod.fst) ++ lastEntries ys := by
  induction xs with
  | nil => rfl
  | cons e es ih =>
    rw [List.cons_append, lastEntries, lastEntries, ih, List.map_append]
    by_cases hes : e.1 ∈ es.map Prod.fst
    · rw [if_pos hes, if_pos (List.mem_append_left _ hes)]
    · by_cases hys : e.1 ∈ ys.map Prod.fst
      · rw [if_neg hes, if_pos (List.mem_append_right _ hys), List.filter_cons_of_neg (by simpa using hys)]
      · have hnot : e.1 ∉ es.map Prod.fst ++ ys.map Prod.fst := by
          rw [List.mem_append]
          exact not_or.2 ⟨hes, hys⟩
        rw [if_neg hes, if_neg hnot, List.filter_cons_of_pos (by simpa using hys), List.cons_append]

theorem lastEntries_concat (xs : List (Value × Int)) (e : Value × Int) :
    lastEntries (xs ++ [e]) = (lastEntries xs).filter (fun d => d.1 ≠ e.1) ++ [e] := by
  rw [lastEntries_append]
  simp [lastEntries]

theorem exists_of_mem_lastEntries (hmem : (k, t) ∈ lastEntries h) :
    ∃ before after, h = before ++ (k, t) :: after ∧ k ∉ after.map Prod.fst := by
  induction h with
  | nil => cases hmem
  | cons e es ih =>
    have hlater : (k, t) ∈ lastEntries es →
        ∃ before after, e :: es = before ++ (k, t) :: after ∧ k ∉ after.map Prod.fst := by
      intro hes
      obtain ⟨before, after, rfl, hk⟩ := ih hes
      exact ⟨e :: before, after, rfl, hk⟩
    unfold lastEntries at hmem
    by_cases he : e.1 ∈ es.map Prod.fst
    · rw [if_pos he] at hmem
      exact hlater hmem
    · rw [if_neg he] at hmem
      rcases List.mem_cons.1 hmem with rfl | hes
      · exact ⟨[], es, rfl, he⟩
      · exact hlater hes

/-! ### The last part of a list -/

section rtake

variable {α : Type} {l m : List α} {n : Nat}

theorem rtake_of_length_le (hn : l.length ≤ n) : l.rtake n = l := by
  rw [List.rtake, Nat.sub_eq_zero_of_le hn, List.drop_zero]

theorem rtake_append_of_le (l : List α) (hn : n ≤ m.length) : (l ++ m).rtake n = m.rtake n := by
  rw [List.rtake, List.rtake, List.length_append, Nat.add_sub_assoc hn, List.drop_append]
  simp

theorem length_rtake_of_le (hn : n ≤ l.length) : (l.rtake n).length = n := by
  rw [List.rtake, List.length_drop]
  omega

/-- An element that occurs once is among the last `n` if fewer than `n` come after it. -/
theorem mem_rtake_append_cons {a : α} (ha : a ∉ m) : a ∈ (l ++ a :: m).rtake n ↔ m.length < n := by
  by_cases hn : m.length < n
  · have hdrop : (l ++ a :: m).rtake n = l.drop ((l ++ a :: m).length - n) ++ a :: m := by
      rw [List.rtake, List.drop_append_of_le_length]
      simp only [List.length_append, List.length_cons]
      omega
    rw [hdrop]
    simp [hn]
  · have hmem : (l ++ a :: m).rtake n = m.rtake n := by
      rw [List.append_cons]
      exact rtake_append_of_le _ (Nat.not_lt.1 hn)
    rw [hmem]
    exact ⟨fun hr => absurd (List.drop_subset _ _ hr) ha, fun hlt => absurd hlt hn⟩

end rtake

/-- What is among the last `N` entries is still remembered. -/
theorem mem_rtake_lastEntries : (k, t) ∈ (lastEntries h).rtake N ↔ Remembered N h k t := by
  have hsplit : ∀ before after, k ∉ after.map Prod.fst →
      ((k, t) ∈ (lastEntries (before ++ (k, t) :: after)).rtake N ↔
        (after.map Prod.fst).dedup.length < N) := by
    intro before after hk
    have hnot : (k, t) ∉ lastEntries after := by
      intro hmem
      have hkey := List.mem_map_of_mem (f := Prod.fst) hmem
      rw [map_fst_lastEntries, List.mem_dedup] at hkey
      exact hk hkey
    rw [lastEntries_append, lastEntries, if_neg hk, mem_rtake_append_cons hnot, length_lastEntries]
  constructor
  · intro hmem
    obtain ⟨before, after, rfl, hk⟩ := exists_of_mem_lastEntries (List.drop_subset _ _ hmem)
    exact ⟨before, after, rfl, hk, (hsplit before after hk).1 hmem⟩
  · rintro ⟨before, after, rfl, hk, hlt⟩
    exact (hsplit before after hk).2 hlt

namespace ReplayMemory

variable {m : ReplayMemory}

/-! ### Looking up -/

theorem get?_eq_some_iff (hm : (m.map Prod.fst).Nodup) : m.get? k = some t ↔ (k, t) ∈ m := by
  induction m with
  | nil => simp [get?]
  | cons e es ih =>
    obtain ⟨hnot, hes⟩ := List.nodup_cons.1 hm
    by_cases he : e.1 = k
    · have hget : get? (e :: es) k = some e.2 := by simp [get?, he]
      have hk : (k, t) ∉ es := fun hmem => hnot (he ▸ List.mem_map_of_mem (f := Prod.fst) hmem)
      rw [hget, List.mem_cons, or_iff_left hk, Option.some.injEq, ← he, Prod.ext_iff]
      exact ⟨fun ht => ⟨rfl, ht.symm⟩, fun ht => ht.2.symm⟩
    · have hget : get? (e :: es) k = get? es k := by simp [get?, he]
      have hne : (k, t) ≠ e := fun heq => he (heq ▸ rfl)
      rw [hget, ih hes, List.mem_cons, or_iff_right hne]

theorem nodup_rtake_lastEntries (h : List (Value × Int)) (N : Nat) :
    (((lastEntries h).rtake N).map Prod.fst).Nodup :=
  (nodup_lastEntries h).sublist ((List.drop_sublist _ _).map _)

/-- Nothing in a request is newer than the last entry under its key, and this is still remembered. -/
theorem isReplay_iff {latest : Option Int} :
    ReplayMemory.isReplay ((lastEntries h).rtake N) k latest = true ↔
      ∃ t last, latest = some t ∧ Remembered N h k last ∧ t ≤ last := by
  have hget : ∀ last, get? ((lastEntries h).rtake N) k = some last ↔ Remembered N h k last := fun last =>
    (get?_eq_some_iff (nodup_rtake_lastEntries h N)).trans mem_rtake_lastEntries
  cases latest with
  | none => simp [isReplay]
  | some t =>
    cases hlast : get? ((lastEntries h).rtake N) k with
    | none =>
      have hnone : ∀ last, ¬ Remembered N h k last := by
        intro last hrem
        rw [(hget last).2 hrem] at hlast
        cases hlast
      simp [isReplay, hlast, hnone]
    | some last =>
      have hrem := (hget last).1 hlast
      have huniq : ∀ last', Remembered N h k last' → last' = last := by
        intro last' hrem'
        rw [(hget last').2 hrem'] at hlast
        exact Option.some.inj hlast
      simp only [isReplay, hlast, decide_eq_true_eq]
      constructor
      · intro hle
        exact ⟨t, last, rfl, hrem, hle⟩
      · rintro ⟨_, last', ⟨⟩, hrem', hle⟩
        exact huniq last' hrem' ▸ hle

/-! ### Remembering -/

/-- Where a time is newer than the one that is remembered, it takes its place. -/
theorem note_of_isReplay_eq_false (hm : m.isReplay k (some t) = false) :
    m.note k t = m.filter (fun e => e.1 ≠ k) ++ [(k, t)] := by
  unfold note
  cases hlast : m.get? k with
  | none => rfl
  | some last =>
    have hlt : last < t := by simpa [isReplay, hlast] using hm
    simp only [if_pos hlt]

theorem trimTo_whole (N : Nat) (m : ReplayMemory) : trimTo (.whole N) m = (m.rtake N, .ok ()) := by
  induction m with
  | nil =>
    have hneg : ¬ (N : Int) < 0 := by omega
    simp [trimTo, hneg]
  | cons e es ih =>
    rw [trimTo, Number.lt_whole]
    by_cases hN : (N : Int) < es.length + 1
    · have hdrop : (e :: es).rtake N = es.rtake N := by
        exact rtake_append_of_le [e] (by omega)
      rw [if_pos (by simpa using hN), ih, hdrop]
    · have hall : (e :: es).rtake N = e :: es := rtake_of_length_le (by simp only [List.length_cons]; omega)
      rw [if_neg (by simpa using hN), hall]

/-- A key occurs at most once, so at most one entry is taken out. -/
theorem length_le_length_filter_ne (hm : (m.map Prod.fst).Nodup) (k : Value) :
    m.length ≤ (m.filter fun e => e.1 ≠ k).length + 1 := by
  induction m with
  | nil => simp
  | cons e es ih =>
    obtain ⟨hnot, hes⟩ := List.nodup_cons.1 hm
    by_cases he : e.1 = k
    · have hall : es.filter (fun e => e.1 ≠ k) = es := by
        apply List.filter_eq_self.2
        intro d hd
        have hdk : d.1 ≠ k := fun hdk => hnot (he ▸ hdk ▸ List.mem_map_of_mem hd)
        simpa using hdk
      rw [List.filter_cons_of_neg (by simpa using he), hall, List.length_cons]
    · rw [List.filter_cons_of_pos (by simpa using he), List.length_cons, List.length_cons]
      have hle := ih hes
      omega

/-- Forgetting before an entry is added makes no difference. -/
theorem rtake_filter_concat (hm : (m.map Prod.fst).Nodup) (e : Value × Int) :
    ((m.rtake N).filter (fun d => d.1 ≠ e.1) ++ [e]).rtake N =
      (m.filter (fun d => d.1 ≠ e.1) ++ [e]).rtake N := by
  by_cases hN : m.length ≤ N
  · rw [rtake_of_length_le hN]
  · -- one entry at most is taken out, so the last ones are still there
    have hlength : (m.rtake N).length = N := length_rtake_of_le (by omega)
    have hnodup : ((m.rtake N).map Prod.fst).Nodup := hm.sublist ((List.drop_sublist _ _).map _)
    have hle := length_le_length_filter_ne hnodup e.1
    have hm' : m.filter (fun d => d.1 ≠ e.1) ++ [e] =
        (m.take (m.length - N)).filter (fun d => d.1 ≠ e.1) ++
          ((m.rtake N).filter (fun d => d.1 ≠ e.1) ++ [e]) := by
      rw [← List.append_assoc, ← List.filter_append, List.rtake, List.take_append_drop]
    rw [hm']
    refine (rtake_append_of_le _ ?_).symm
    rw [List.length_append, List.length_singleton]
    omega

/-- **Remembering one more entry.** -/
theorem remember_lastEntries {capacity : Value} (hN : capacity.number? = some (.whole N))
    (hnew : ReplayMemory.isReplay ((lastEntries h).rtake N) k (some t) = false) :
    ReplayMemory.remember ((lastEntries h).rtake N) k t capacity =
      ((lastEntries (h ++ [(k, t)])).rtake N, .ok ()) := by
  rw [remember, trim, hN]
  simp only
  rw [trimTo_whole, note_of_isReplay_eq_false hnew, lastEntries_concat]
  rw [rtake_filter_concat (nodup_lastEntries h) (k, t)]

end ReplayMemory

end LanguageUsage
