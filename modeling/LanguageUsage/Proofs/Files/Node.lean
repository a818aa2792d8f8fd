import LanguageUsage.Files.Tree
import Mathlib.Tactic.Common

/-!
# What is where below a node

A change in one place below a node leaves the other places as they are.

* `Node.entryAt?`: what is found at a location below a node;
* `Node.entryAt?_setChild`, `Node.entryAt?_filter`: what is found after a change of one child;
* `Node.entryAt?_put`, `Node.entryAt?_remove`: what is found after one change;
* `Node.put_of_entryAt?`: what is there already.
-/

namespace LanguageUsage

namespace Node

variable {n : Node} {e : Entry} {l l' : Location} {name : String}

/-- What is found at a location below a node. -/
def entryAt? (n : Node) (l : Location) : Option Entry := (n.at? l).map Node.entry

@[simp] theorem at?_nil (n : Node) : n.at? [] = some n := by cases n <;> rfl

theorem at?_cons (n : Node) (name : String) (l : Location) : n.at? (name :: l) = (n.child? name).bind (·.at? l) := by
  rw [at?]
  cases n.child? name <;> rfl

theorem at?_append (n : Node) (l l' : Location) : n.at? (l ++ l') = (n.at? l).bind (·.at? l') := by
  induction l generalizing n with
  | nil => simp
  | cons name l ih =>
    rw [List.cons_append, at?_cons, at?_cons, Option.bind_assoc]
    exact Option.bind_congr fun m _ => ih m

@[simp] theorem entryAt?_nil (n : Node) : n.entryAt? [] = some n.entry := by rw [entryAt?, at?_nil]; rfl

@[simp] theorem entryAt?_file_cons (c : Content) (name : String) (l : Location) :
    entryAt? (.file c) (name :: l) = none := by
  rw [entryAt?, at?_cons]
  rfl

theorem entryAt?_directory_cons (children : List (String × Node)) (name : String) (l : Location) :
    entryAt? (.directory children) (name :: l) = (children.lookup name).bind (·.entryAt? l) := by
  rw [entryAt?, at?_cons, child?]
  cases children.lookup name <;> rfl

theorem lookup_cons (c : String × Node) (cs : List (String × Node)) (name : String) :
    (c :: cs).lookup name = if name = c.1 then some c.2 else cs.lookup name := by
  obtain ⟨first, m⟩ := c
  rw [List.lookup_cons]
  by_cases h : name = first
  · rw [if_pos h, h, beq_self_eq_true]
  · rw [if_neg h, beq_false_of_ne h]

theorem lookup_setChild (name : String) (m : Node) (children : List (String × Node)) (name' : String) :
    (setChild name m children).lookup name' = if name' = name then some m else children.lookup name' := by
  induction children with
  | nil => rw [setChild, lookup_cons]
  | cons c cs ih =>
    rw [setChild]
    by_cases hc : c.1 = name
    · rw [if_pos hc, lookup_cons, lookup_cons, hc]
      split <;> rfl
    · rw [if_neg hc, lookup_cons, lookup_cons, ih]
      by_cases h : name' = name
      · rw [if_pos h, if_pos h, if_neg (h ▸ Ne.symm hc)]
      · rw [if_neg h, if_neg h]

theorem setChild_of_lookup {m : Node} {children : List (String × Node)} (h : children.lookup name = some m) :
    setChild name m children = children := by
  induction children with
  | nil => cases h
  | cons c cs ih =>
    rw [lookup_cons] at h
    rw [setChild]
    split at h
    · next heq =>
      obtain rfl := Option.some.inj h
      rw [if_pos heq.symm, heq]
    · next hne => rw [if_neg (Ne.symm hne), ih h]

theorem lookup_filter (name : String) (children : List (String × Node)) (name' : String) :
    (children.filter (·.1 ≠ name)).lookup name' = if name' = name then none else children.lookup name' := by
  induction children with
  | nil => simp
  | cons c cs ih =>
    by_cases hc : c.1 = name
    · rw [List.filter_cons_of_neg (by simpa using hc), ih, lookup_cons, hc]
      split <;> rfl
    · rw [List.filter_cons_of_pos (by simpa using hc), lookup_cons, lookup_cons, ih]
      by_cases h : name' = name
      · rw [if_pos h, if_pos h, if_neg (h ▸ Ne.symm hc)]
      · rw [if_neg h, if_neg h]

theorem entry_become (e : Entry) (n : Node) : (n.become e).entry = e := by
  cases e <;> cases n <;> rfl

/-- A change of what has a name in a directory is a change below this name. -/
theorem entryAt?_setChild {children : List (String × Node)} {m : Node} {x : Option Entry}
    (hm : ∀ l', m.entryAt? l' = if l' = l then x else (children.lookup name).bind (·.entryAt? l')) (l' : Location) :
    entryAt? (.directory (setChild name m children)) l' =
      if l' = name :: l then x else entryAt? (.directory children) l' := by
  cases l' with
  | nil => rfl
  | cons name' l' =>
    rw [entryAt?_directory_cons, entryAt?_directory_cons, lookup_setChild]
    by_cases hname : name' = name
    · rw [if_pos hname, hname, Option.bind_some, hm]
      simp
    · rw [if_neg hname, if_neg (by simp [hname])]

/-- What takes the place of no directory has nothing below it. -/
theorem entryAt?_become {child : Option Node} (h : ∀ m, child = some m → m.entry ≠ .directory) (e : Entry)
    (l : Location) : ((child.getD emptyDirectory).become e).entryAt? l =
      if l = [] then some e else child.bind (·.entryAt? l) := by
  cases l with
  | nil => simp [entry_become]
  | cons name l =>
    rw [if_neg (List.cons_ne_nil name l)]
    have hempty : emptyDirectory.entryAt? (name :: l) = none := entryAt?_directory_cons [] name l
    cases child with
    | none =>
      cases e with
      | file c => exact entryAt?_file_cons c name l
      | directory => exact hempty
    | some m =>
      cases m with
      | directory children => exact absurd rfl (h _ rfl)
      | file c' =>
        rw [Option.bind_some, entryAt?_file_cons]
        cases e with
        | file c => exact entryAt?_file_cons c name l
        | directory => exact hempty

/-- What is there already is put there without a change. -/
theorem put_of_entryAt? (h : n.entryAt? l = some e) : n.put e l = n := by
  induction l generalizing n with
  | nil =>
    rw [entryAt?_nil] at h
    obtain rfl := Option.some.inj h
    cases n <;> rfl
  | cons name l ih =>
    cases n with
    | file c => rfl
    | directory children =>
      rw [entryAt?_directory_cons] at h
      obtain ⟨m, hm, he⟩ := Option.bind_eq_some_iff.1 h
      rw [put, hm, Option.getD_some, ih he, setChild_of_lookup hm]

/-- **What is put somewhere is there**, in a directory and in the place of no other, and nothing else is changed. -/
theorem entryAt?_put (hparent : n.entryAt? l = some .directory) (hnone : n.entryAt? (l ++ [name]) ≠ some .directory)
    (e : Entry) (l' : Location) :
    (n.put e (l ++ [name])).entryAt? l' = if l' = l ++ [name] then some e else n.entryAt? l' := by
  induction l generalizing n l' with
  | nil =>
    cases n with
    | file c => cases hparent
    | directory children =>
      have hput : ∀ m : Node, m.put e [] = m.become e := fun m => by cases m <;> rfl
      rw [List.nil_append, entryAt?_directory_cons] at hnone
      rw [List.nil_append, put, hput]
      refine entryAt?_setChild (entryAt?_become (fun m hm hdirectory => hnone ?_) e) l'
      rw [hm, Option.bind_some, entryAt?_nil, hdirectory]
  | cons first l ih =>
    cases n with
    | file c => simp at hparent
    | directory children =>
      rw [entryAt?_directory_cons] at hparent
      obtain ⟨m, hm, hparent⟩ := Option.bind_eq_some_iff.1 hparent
      rw [List.cons_append, entryAt?_directory_cons, hm, Option.bind_some] at hnone
      rw [List.cons_append, put, hm, Option.getD_some]
      refine entryAt?_setChild (fun l' => ?_) l'
      rw [ih hparent hnone, hm, Option.bind_some]

theorem entryAt?_of_absent (h : n.entryAt? l = none) (l' : Location) :
    n.entryAt? l' = if l' = l then none else n.entryAt? l' := by
  split
  · next hl => rw [hl, h]
  · rfl

/-- A name that is no directory takes nothing with it. -/
theorem entryAt?_filter {children : List (String × Node)} (h : entryAt? (.directory children) [name] ≠ some .directory)
    (l' : Location) : entryAt? (.directory (children.filter (·.1 ≠ name))) l' =
      if l' = [name] then none else entryAt? (.directory children) l' := by
  cases l' with
  | nil => rfl
  | cons name' l' =>
    rw [entryAt?_directory_cons, entryAt?_directory_cons, lookup_filter]
    by_cases hname : name' = name
    · rw [if_pos hname, Option.bind_none, hname]
      cases l' with
      | nil => simp
      | cons next l' =>
        rw [if_neg (by simp)]
        rw [entryAt?_directory_cons] at h
        cases hchild : children.lookup name with
        | none => rfl
        | some m =>
          rw [hchild] at h
          cases m with
          | file c => exact (entryAt?_file_cons c next l').symm
          | directory _ => exact absurd rfl h
    · rw [if_neg hname, if_neg (by simp [hname])]

/-- **What is removed is gone**, if it is no directory, and nothing else is changed. -/
theorem entryAt?_remove (hnone : n.entryAt? (l ++ [name]) ≠ some .directory) (l' : Location) :
    (n.remove (l ++ [name])).entryAt? l' = if l' = l ++ [name] then none else n.entryAt? l' := by
  induction l generalizing n l' with
  | nil =>
    cases n with
    | file c => exact entryAt?_of_absent (entryAt?_file_cons c name []) l'
    | directory children => exact entryAt?_filter hnone l'
  | cons first l ih =>
    cases n with
    | file c => exact entryAt?_of_absent (entryAt?_file_cons c first (l ++ [name])) l'
    | directory children =>
      cases hm : children.lookup first with
      | none =>
        have hremove : (Node.directory children).remove (first :: l ++ [name]) = .directory children := by
          cases l <;> simp [remove, hm]
        rw [hremove]
        refine entryAt?_of_absent ?_ l'
        rw [List.cons_append, entryAt?_directory_cons, hm, Option.bind_none]
      | some m =>
        have hremove : (Node.directory children).remove (first :: l ++ [name]) =
            .directory (setChild first (m.remove (l ++ [name])) children) := by
          cases l <;> simp [remove, hm]
        rw [List.cons_append, entryAt?_directory_cons, hm, Option.bind_some] at hnone
        rw [hremove, List.cons_append]
        refine entryAt?_setChild (fun l' => ?_) l'
        rw [ih hnone, hm, Option.bind_some]

end Node

end LanguageUsage
