import LanguageUsage.Document.Reader
import LanguageUsage.Document.Writer
import LanguageUsage.Proofs.Number.Shortest

/-!
# Numbers are read back

A number that is written in front of a text that does not go on with it is read back: a whole number exactly, a double
as the same double, whichever of the layouts its digits are set in.

* `Document.Ends`: a text in front of which a number ends;
* `Document.splitDigits_append`, `Document.splitExponent_exponentText`: the parts of a number;
* `Document.readUnsigned_ofDecimal`: the digits of a double;
* `Document.readNumber_number`: a number.
-/

namespace LanguageUsage.Document

variable {c : Char} {cs ds rest rest' whole fraction : List Char} {exponent : Option Int} {negative : Bool} {n k : Nat}

/-! ### Digits -/

theorem ofDigits_eq (ds : List Char) : ofDigits ds = Nat.ofDigitChars 10 ds 0 := by
  simp only [ofDigits, Nat.ofDigitChars_eq_foldl, Nat.mul_comm]

@[simp] theorem ofDigits_toDigits (n : Nat) : ofDigits (Nat.toDigits 10 n) = n := by
  rw [ofDigits_eq, Nat.ofDigitChars_ten_toDigits]

theorem ofDigits_zeros_append (k : Nat) (ds : List Char) : ofDigits (List.replicate k '0' ++ ds) = ofDigits ds := by
  rw [ofDigits_eq, ofDigits_eq, Nat.ofDigitChars_append, Nat.ofDigitChars_replicate_zero, Nat.mul_zero]

theorem ofDigits_append_zeros (ds : List Char) (k : Nat) :
    ofDigits (ds ++ List.replicate k '0') = ofDigits ds * 10 ^ k := by
  rw [ofDigits_eq, ofDigits_eq, Nat.ofDigitChars_append, Nat.ofDigitChars_replicate_zero, Nat.mul_comm]

theorem isDigit_toDigits (n : Nat) : ∀ d ∈ Nat.toDigits 10 n, d.isDigit = true := fun _ hd =>
  Nat.isDigit_of_mem_toDigits (by decide) (by decide) hd

theorem isDigit_zeros (k : Nat) : ∀ d ∈ List.replicate k '0', d.isDigit = true := fun _ hd =>
  List.eq_of_mem_replicate hd ▸ rfl

/-- The first digit is not zero. -/
theorem head?_toDigits_ne_zero (hn : 0 < n) : (Nat.toDigits 10 n).head? ≠ some '0' := by
  induction n using Nat.strongRecOn with
  | ind n ih =>
    by_cases hsmall : n < 10
    · rw [Nat.toDigits_of_lt_base hsmall, List.head?_cons, Ne, Option.some.injEq, Nat.digitChar_eq_zero]
      omega
    · obtain ⟨d, ds, hcons⟩ := List.exists_cons_of_ne_nil (Nat.toDigits_ne_nil (n := n / 10) (b := 10))
      have hhead := ih (n / 10) (by omega) (by omega)
      rw [hcons] at hhead
      rw [Nat.toDigits_of_base_le (by decide) (by omega), hcons]
      exact hhead

/-! ### Parts of a number -/

/-- No digit is in front. -/
def NoDigit (rest : List Char) : Prop := ∀ c ∈ rest.head?, c.isDigit = false

/-- Nothing that a number could go on with is in front. -/
def Ends (rest : List Char) : Prop := ∀ c ∈ rest.head?, c.isDigit = false ∧ c ≠ '.' ∧ c ≠ 'e' ∧ c ≠ 'E'

theorem Ends.noDigit (h : Ends rest) : NoDigit rest := fun c hc => (h c hc).1

theorem noDigit_cons (h : c.isDigit = false) : NoDigit (c :: rest) := fun _ hd => Option.some.inj hd ▸ h

theorem splitDigits_of_noDigit (h : NoDigit rest) : splitDigits rest = ([], rest) := by
  cases rest with
  | nil => rfl
  | cons c rest =>
    have hc : ¬c.isDigit = true := by simp [h c rfl]
    rw [splitDigits, List.takeWhile_cons_of_neg hc, List.dropWhile_cons_of_neg hc]

theorem splitDigits_append (hds : ∀ d ∈ ds, d.isDigit = true) (h : NoDigit rest) :
    splitDigits (ds ++ rest) = (ds, rest) := by
  obtain ⟨htake, hdrop⟩ := Prod.mk.inj (splitDigits_of_noDigit h)
  rw [splitDigits, List.takeWhile_append_of_pos hds, List.dropWhile_append_of_pos hds, htake, hdrop, List.append_nil]

theorem splitWhole_append (hds : ∀ d ∈ ds, d.isDigit = true) (hne : ds ≠ []) (hzero : ds.head? ≠ some '0')
    (h : NoDigit rest) : splitWhole (ds ++ rest) = (ds, rest) := by
  cases ds with
  | nil => exact absurd rfl hne
  | cons d ds =>
    rw [splitWhole]
    · exact splitDigits_append hds h
    · intro rest' heq
      obtain ⟨rfl, -⟩ := List.cons.inj heq
      exact hzero rfl

theorem splitFraction_point (hds : ∀ d ∈ ds, d.isDigit = true) (hne : ds ≠ []) (h : NoDigit rest) :
    splitFraction ('.' :: (ds ++ rest)) = (ds, rest) := by
  rw [splitFraction, splitDigits_append hds h, if_neg hne]

theorem splitFraction_none (h : rest.head? ≠ some '.') : splitFraction rest = ([], rest) := by
  rw [splitFraction]
  intro rest' heq
  exact h (heq ▸ rfl)

theorem splitExponent_none (h : ∀ c ∈ rest.head?, c ≠ 'e' ∧ c ≠ 'E') : splitExponent rest = (none, rest) := by
  have hnone : ∀ c cs, rest = c :: cs → ¬(c = 'e' ∨ c = 'E') := fun c cs heq =>
    not_or.2 (h c (heq ▸ rfl))
  unfold splitExponent
  dsimp only
  split
  · exact if_neg (hnone _ _ rfl)
  · exact if_neg (hnone _ _ rfl)
  · exact if_neg (hnone _ _ rfl)
  · rfl

/-- An exponent is read back. -/
theorem splitExponent_exponentText (e : Int) (h : NoDigit rest) :
    splitExponent (Layout.exponentText e ++ rest) = (some e, rest) := by
  let ds := List.replicate (2 - (Nat.toDigits 10 e.natAbs).length) '0' ++ Nat.toDigits 10 e.natAbs
  have hds : ∀ d ∈ ds, d.isDigit = true := fun d hd =>
    (List.mem_append.1 hd).elim (isDigit_zeros _ d) (isDigit_toDigits _ d)
  have hne : ds ≠ [] := List.append_ne_nil_of_right_ne_nil _ Nat.toDigits_ne_nil
  have hvalue : ofDigits ds = e.natAbs := by rw [ofDigits_zeros_append, ofDigits_toDigits]
  have hsplit := splitDigits_append hds h
  obtain ⟨d, ds', hcons⟩ := List.exists_cons_of_ne_nil hne
  by_cases hneg : e < 0
  · have htext : Layout.exponentText e ++ rest = 'e' :: '-' :: (ds ++ rest) := by
      simp only [Layout.exponentText, if_pos hneg]
      rfl
    rw [htext, splitExponent]
    simp only [true_or, if_true, hsplit]
    rw [hcons] at hvalue ⊢
    simp only [hvalue]
    have hvalue' : -(e.natAbs : Int) = e := by omega
    rw [hvalue']
  · have htext : Layout.exponentText e ++ rest = 'e' :: '+' :: (ds ++ rest) := by
      simp only [Layout.exponentText, if_neg hneg]
      rfl
    rw [htext, splitExponent]
    simp only [true_or, if_true, hsplit]
    rw [hcons] at hvalue ⊢
    simp only [hvalue, Bool.false_eq_true, if_false]
    have hvalue' : (e.natAbs : Int) = e := by omega
    rw [hvalue']

/-! ### Doubles -/

/-- A number with a fraction or an exponent, by its parts. -/
theorem readUnsigned_of_parts (negative : Bool) {rest₂ : List Char} (hwhole : splitWhole cs = (whole, rest'))
    (hne : whole ≠ []) (hfraction : splitFraction rest' = (fraction, rest₂))
    (hexponent : splitExponent rest₂ = (exponent, rest)) (hreal : fraction ≠ [] ∨ exponent ≠ none) :
    readUnsigned negative cs =
      .ok (.real (.ofDecimal negative (ofDigits (whole ++ fraction)) (exponent.getD 0 - fraction.length)), rest) := by
  rw [readUnsigned, hwhole]
  simp only [hne, if_false, hfraction, hexponent]
  rw [if_neg]
  rintro ⟨hnil, hnone⟩
  exact hreal.elim (absurd hnil) (absurd hnone)

theorem Ends.splitFraction (h : Ends rest) : splitFraction rest = ([], rest) :=
  splitFraction_none fun hhead => (h _ hhead).2.1 rfl

theorem Ends.splitExponent (h : Ends rest) : splitExponent rest = (none, rest) :=
  splitExponent_none fun c hc => (h c hc).2.2

/-- Digits around a point. -/
theorem readUnsigned_point (negative : Bool) (hwhole : whole = ['0'] ∨ whole.head? ≠ some '0') (hne : whole ≠ [])
    (hds : ∀ d ∈ whole, d.isDigit = true) (hds' : ∀ d ∈ fraction, d.isDigit = true) (hne' : fraction ≠ [])
    (h : Ends rest) : readUnsigned negative (whole ++ '.' :: (fraction ++ rest)) =
      .ok (.real (.ofDecimal negative (ofDigits (whole ++ fraction)) (-fraction.length)), rest) := by
  have hsplit : splitWhole (whole ++ '.' :: (fraction ++ rest)) = (whole, '.' :: (fraction ++ rest)) := by
    rcases hwhole with rfl | hzero
    · rfl
    · exact splitWhole_append hds hne hzero (noDigit_cons rfl)
  have hread := readUnsigned_of_parts negative hsplit hne (splitFraction_point hds' hne' h.noDigit)
    h.splitExponent (.inl hne')
  rwa [Option.getD_none, Int.zero_sub] at hread

/-- The digits of a decimal below one, behind the point and `k` zeros. -/
theorem readUnsigned_zeros (k : Nat) (h : Ends rest) :
    readUnsigned negative ('0' :: '.' :: (List.replicate k '0' ++ Nat.toDigits 10 n) ++ rest) =
      .ok (.real (.ofDecimal negative n (-k - (Nat.toDigits 10 n).length)), rest) := by
  have hfraction : ∀ d ∈ List.replicate k '0' ++ Nat.toDigits 10 n, d.isDigit = true := fun d hd =>
    (List.mem_append.1 hd).elim (isDigit_zeros _ d) (isDigit_toDigits n d)
  have hread := readUnsigned_point negative (.inl rfl) (List.cons_ne_nil '0' []) (isDigit_zeros 1) hfraction
    (List.append_ne_nil_of_right_ne_nil _ Nat.toDigits_ne_nil) h
  have hcoefficient : ofDigits (['0'] ++ (List.replicate k '0' ++ Nat.toDigits 10 n)) = n :=
    (ofDigits_zeros_append (k + 1) _).trans (ofDigits_toDigits n)
  have hexponent : -((List.replicate k '0' ++ Nat.toDigits 10 n).length : Int) = -k - (Nat.toDigits 10 n).length := by
    rw [List.length_append, List.length_replicate]
    omega
  rw [hcoefficient, hexponent] at hread
  exact hread

/-- All digits of a decimal in front of the point, with `k` zeros after them. -/
theorem readUnsigned_padded (hn : 0 < n) (k : Nat) (h : Ends rest) :
    readUnsigned negative (Nat.toDigits 10 n ++ List.replicate k '0' ++ '.' :: '0' :: rest) =
      .ok (.real (.ofDecimal negative n k), rest) := by
  have hwhole : ∀ d ∈ Nat.toDigits 10 n ++ List.replicate k '0', d.isDigit = true := fun d hd =>
    (List.mem_append.1 hd).elim (isDigit_toDigits n d) (isDigit_zeros k d)
  have hzero : (Nat.toDigits 10 n ++ List.replicate k '0').head? ≠ some '0' := by
    rw [List.head?_append, Option.or_of_isSome (List.isSome_head?.2 Nat.toDigits_ne_nil)]
    exact head?_toDigits_ne_zero hn
  have hread := readUnsigned_point negative (.inr hzero) (List.append_ne_nil_of_left_ne_nil Nat.toDigits_ne_nil _) hwhole
    (isDigit_zeros 1) (List.cons_ne_nil _ _) h
  have hcoefficient : ofDigits (Nat.toDigits 10 n ++ List.replicate k '0' ++ List.replicate 1 '0') =
      n * 10 ^ (k + 1) := by
    rw [List.append_assoc, List.replicate_append_replicate, ofDigits_append_zeros, ofDigits_toDigits]
  have hexponent : -((List.replicate 1 '0').length : Int) = k - (k + 1 : Nat) := by
    rw [List.length_replicate]
    omega
  rw [hcoefficient, hexponent, Binary64.ofDecimal_mul_pow hn] at hread
  exact hread

/-- The point after the first `p + 1` of the digits of a decimal. -/
theorem readUnsigned_between (hn : 0 < n) {p : Nat} (hp : p + 1 < (Nat.toDigits 10 n).length) (h : Ends rest) :
    readUnsigned negative ((Nat.toDigits 10 n).take (p + 1) ++ '.' :: ((Nat.toDigits 10 n).drop (p + 1) ++ rest)) =
      .ok (.real (.ofDecimal negative n ((p + 1 : Nat) - (Nat.toDigits 10 n).length)), rest) := by
  have hzero : ((Nat.toDigits 10 n).take (p + 1)).head? ≠ some '0' := by
    rw [List.head?_take, if_neg (Nat.succ_ne_zero p)]
    exact head?_toDigits_ne_zero hn
  have hne : (Nat.toDigits 10 n).take (p + 1) ≠ [] := fun h =>
    (List.take_eq_nil_iff.1 h).elim (Nat.succ_ne_zero p) Nat.toDigits_ne_nil
  have hdrop : (Nat.toDigits 10 n).drop (p + 1) ≠ [] := fun h => Nat.not_le.2 hp (List.drop_eq_nil_iff.1 h)
  have hread := readUnsigned_point negative (.inr hzero) hne
    (fun d hd => isDigit_toDigits n d (List.mem_of_mem_take hd))
    (fun d hd => isDigit_toDigits n d (List.mem_of_mem_drop hd)) hdrop h
  have hexponent : -(((Nat.toDigits 10 n).drop (p + 1)).length : Int) = (p + 1 : Nat) - (Nat.toDigits 10 n).length := by
    rw [List.length_drop]
    omega
  rwa [List.take_append_drop, ofDigits_toDigits, hexponent] at hread

/-- The digits of a decimal of which the first `p + 1` are in front of the point, with zeros if there are fewer. -/
theorem readUnsigned_positional_succ (hn : 0 < n) (p : Nat) (h : Ends rest) :
    readUnsigned negative (Layout.positional (Nat.toDigits 10 n) (.ofNat (p + 1)) ++ rest) =
      .ok (.real (.ofDecimal negative n ((p + 1 : Nat) - (Nat.toDigits 10 n).length)), rest) := by
  have hpositional : ∀ ds, Layout.positional ds (.ofNat (p + 1)) = ds.take (p + 1) ++
      List.replicate (p + 1 - ds.length) '0' ++ '.' :: (if ds.drop (p + 1) = [] then ['0'] else ds.drop (p + 1)) :=
    fun _ => rfl
  rw [hpositional, List.append_assoc, List.cons_append]
  rcases Nat.lt_or_ge (p + 1) (Nat.toDigits 10 n).length with hlt | hle
  · have hdrop : (Nat.toDigits 10 n).drop (p + 1) ≠ [] := fun h => Nat.not_le.2 hlt (List.drop_eq_nil_iff.1 h)
    rw [if_neg hdrop, Nat.sub_eq_zero_of_le (Nat.le_of_lt hlt), List.replicate_zero, List.append_nil]
    exact readUnsigned_between hn hlt h
  · rw [if_pos (List.drop_eq_nil_iff.2 hle), List.take_of_length_le hle, ← Int.natCast_sub hle]
    exact readUnsigned_padded hn _ h

/-- The digits of a decimal without an exponent. -/
theorem readUnsigned_positional (hn : 0 < n) (p : Int) (h : Ends rest) :
    readUnsigned negative (Layout.positional (Nat.toDigits 10 n) p ++ rest) =
      .ok (.real (.ofDecimal negative n (p - (Nat.toDigits 10 n).length)), rest) := by
  match p with
  | .negSucc p => exact readUnsigned_zeros (p + 1) h
  | .ofNat 0 => exact readUnsigned_zeros 0 h
  | .ofNat (p + 1) => exact readUnsigned_positional_succ hn p h

section FirstDigit

variable {d : Char}

/-- The first digit of a decimal, in front of a point or an exponent. -/
theorem splitWhole_firstDigit (hn : 0 < n) (hdigits : Nat.toDigits 10 n = d :: ds) (hcs : NoDigit cs) :
    splitWhole (d :: cs) = ([d], cs) := by
  have hd : d.isDigit = true := isDigit_toDigits n d (hdigits ▸ List.mem_cons_self)
  have hzero : ([d] : List Char).head? ≠ some '0' := by
    have hhead := head?_toDigits_ne_zero hn
    rwa [hdigits] at hhead
  exact splitWhole_append (List.forall_mem_singleton.2 hd) (List.cons_ne_nil d []) hzero hcs

/-- A decimal of one digit with an exponent, whether a point is between them or not. -/
theorem readUnsigned_scientific_single (l : Layout) (hn : 0 < n) (hdigits : Nat.toDigits 10 n = [d]) (p : Int)
    (h : Ends rest) : readUnsigned negative (l.scientific [d] p ++ rest) =
      .ok (.real (.ofDecimal negative n (p - 1)), rest) := by
  have hexponent := splitExponent_exponentText (p - 1) h.noDigit
  have hnone : NoDigit (Layout.exponentText (p - 1) ++ rest) := noDigit_cons (c := 'e') rfl
  have hvalue : ofDigits [d] = n := by rw [← hdigits, ofDigits_toDigits]
  cases hpoint : l.pointBeforeExponent with
  | false =>
    have hread := readUnsigned_of_parts negative (splitWhole_firstDigit hn hdigits hnone) (List.cons_ne_nil _ _)
      (splitFraction_none nofun) hexponent (.inr nofun)
    have htext : l.scientific [d] p ++ rest = d :: (Layout.exponentText (p - 1) ++ rest) := by
      simp [Layout.scientific, hpoint]
    rw [List.append_nil, hvalue, Option.getD_some, List.length_nil, Int.natCast_zero, Int.sub_zero] at hread
    rw [htext, hread]
  | true =>
    have hread := readUnsigned_of_parts negative (splitWhole_firstDigit hn hdigits (noDigit_cons rfl))
      (List.cons_ne_nil _ _) (splitFraction_point (isDigit_zeros 1) (List.cons_ne_nil _ _) hnone) hexponent
      (.inl (List.cons_ne_nil _ _))
    have hcoefficient : ofDigits ([d] ++ List.replicate 1 '0') = n * 10 ^ 1 := by rw [ofDigits_append_zeros, hvalue]
    have htext : l.scientific [d] p ++ rest = d :: '.' :: ('0' :: (Layout.exponentText (p - 1) ++ rest)) := by
      simp [Layout.scientific, hpoint]
    rw [hcoefficient, Option.getD_some, List.length_replicate, Binary64.ofDecimal_mul_pow hn] at hread
    rw [htext]
    exact hread

/-- A decimal of several digits with an exponent: the point is after the first. -/
theorem readUnsigned_scientific_several (l : Layout) {d' : Char} (hn : 0 < n)
    (hdigits : Nat.toDigits 10 n = d :: d' :: ds) (p : Int) (h : Ends rest) :
    readUnsigned negative (l.scientific (d :: d' :: ds) p ++ rest) =
      .ok (.real (.ofDecimal negative n (p - (d :: d' :: ds).length)), rest) := by
  have hexponent := splitExponent_exponentText (p - 1) h.noDigit
  have hnone : NoDigit (Layout.exponentText (p - 1) ++ rest) := noDigit_cons (c := 'e') rfl
  have hfraction : ∀ c ∈ d' :: ds, c.isDigit = true := fun c hc =>
    isDigit_toDigits n c (hdigits ▸ List.mem_cons_of_mem d hc)
  have hread := readUnsigned_of_parts negative (splitWhole_firstDigit hn hdigits (noDigit_cons rfl))
    (List.cons_ne_nil _ _) (splitFraction_point hfraction (List.cons_ne_nil d' ds) hnone) hexponent
    (.inl (List.cons_ne_nil _ _))
  have hlength : (some (p - 1)).getD 0 - ((d' :: ds).length : Int) = p - ((d :: d' :: ds).length : Nat) := by
    simp only [Option.getD_some, List.length_cons]
    omega
  have htext : l.scientific (d :: d' :: ds) p ++ rest =
      d :: '.' :: (d' :: ds ++ (Layout.exponentText (p - 1) ++ rest)) := by
    simp [Layout.scientific]
  rw [List.singleton_append, ← hdigits, ofDigits_toDigits, hlength] at hread
  rw [htext, hread]

end FirstDigit

/-- The digits of a decimal with an exponent. -/
theorem readUnsigned_scientific (l : Layout) (hn : 0 < n) (p : Int) (h : Ends rest) :
    readUnsigned negative (l.scientific (Nat.toDigits 10 n) p ++ rest) =
      .ok (.real (.ofDecimal negative n (p - (Nat.toDigits 10 n).length)), rest) := by
  match hdigits : Nat.toDigits 10 n with
  | [] => exact absurd hdigits Nat.toDigits_ne_nil
  | [d] => exact readUnsigned_scientific_single l hn hdigits p h
  | d :: d' :: ds => exact readUnsigned_scientific_several l hn hdigits p h

/-- **The digits of a double are read back**, whatever the layout. -/
theorem readUnsigned_ofDecimal (l : Layout) {d : Decimal} (hd : 0 < d.coefficient) (h : Ends rest) :
    readUnsigned negative (l.ofDecimal d ++ rest) =
      .ok (.real (.ofDecimal negative d.coefficient d.exponent), rest) := by
  have hpoint : d.point - (Nat.toDigits 10 d.coefficient).length = d.exponent := Int.add_sub_cancel _ _
  rw [Layout.ofDecimal]
  split
  · rw [Decimal.digits, readUnsigned_positional hd _ h, hpoint]
  · rw [Decimal.digits, readUnsigned_scientific l hd _ h, hpoint]

/-! ### Numbers -/

/-- A whole number of no more digits than are read. -/
def FitsDigits : Number → Prop
  | .whole n => Binary64.decimalLength n.natAbs ≤ digitLimit
  | .real _ => True

/-- The sign in front of a number. -/
def signOf (negative : Bool) : List Char := if negative then ['-'] else []

/-- A digit is in front. -/
def StartsWithDigit (cs : List Char) : Prop := ∃ c cs', cs = c :: cs' ∧ c.isDigit = true

theorem startsWithDigit_toDigits (n : Nat) : StartsWithDigit (Nat.toDigits 10 n) := by
  obtain ⟨d, ds, hcons⟩ := List.exists_cons_of_ne_nil (Nat.toDigits_ne_nil (n := n) (b := 10))
  exact ⟨d, ds, hcons, isDigit_toDigits n d (hcons ▸ List.mem_cons_self)⟩

theorem StartsWithDigit.append (h : StartsWithDigit cs) (rest : List Char) : StartsWithDigit (cs ++ rest) := by
  obtain ⟨c, cs, rfl, hc⟩ := h
  exact ⟨c, cs ++ rest, rfl, hc⟩

theorem startsWithDigit_ofDecimal (l : Layout) (d : Decimal) : StartsWithDigit (l.ofDecimal d) := by
  obtain ⟨c, cs, hcons, hc⟩ := startsWithDigit_toDigits d.coefficient
  rw [Layout.ofDecimal, Decimal.digits, hcons]
  split
  · match d.point with
    | .negSucc p => exact ⟨'0', _, rfl, rfl⟩
    | .ofNat 0 => exact ⟨'0', _, rfl, rfl⟩
    | .ofNat (p + 1) => exact ⟨c, _, rfl, hc⟩
  · exact ⟨c, _, rfl, hc⟩

/-- With a digit in front, after a sign or not, the number is read by its digits. -/
theorem readNumber_signOf (h : StartsWithDigit cs) (negative : Bool) :
    readNumber (signOf negative ++ cs) = readUnsigned negative cs := by
  obtain ⟨c, cs, rfl, hc⟩ := h
  have hdigit : ∀ {d ds}, c :: cs = d :: ds → d.isDigit = true := fun h => (List.cons.inj h).1 ▸ hc
  cases negative with
  | false =>
    show readNumber (c :: cs) = _
    rw [readNumber]
    · exact fun _ h => nomatch hdigit h
    · exact fun _ h => nomatch hdigit h
    · exact fun _ h => nomatch hdigit h
    · exact fun _ h => nomatch hdigit h
  | true =>
    show readNumber ('-' :: c :: cs) = _
    rw [readNumber]
    exact fun _ h => nomatch hdigit h

theorem readUnsigned_toDigits (hlength : Binary64.decimalLength n ≤ digitLimit) (h : Ends rest) :
    readUnsigned negative (Nat.toDigits 10 n ++ rest) = .ok (.whole (if negative then -(n : Int) else n), rest) := by
  have hsplit : splitWhole (Nat.toDigits 10 n ++ rest) = (Nat.toDigits 10 n, rest) := by
    rcases Nat.eq_zero_or_pos n with rfl | hn
    · rfl
    · exact splitWhole_append (isDigit_toDigits n) Nat.toDigits_ne_nil (head?_toDigits_ne_zero hn) h.noDigit
  rw [readUnsigned, hsplit]
  simp only [Nat.toDigits_ne_nil, if_false, h.splitFraction, h.splitExponent, and_self, if_true, ofDigits_toDigits]
  exact if_neg (Nat.not_lt.2 hlength)

theorem number_whole (n : Int) : number (.whole n) = signOf (decide (n < 0)) ++ Nat.toDigits 10 n.natAbs := by
  cases n with
  | ofNat n =>
    have hsign : signOf (decide (Int.ofNat n < 0)) = [] := rfl
    have htext : toString (Int.ofNat n) = toString n := rfl
    rw [number, hsign, htext, Nat.toString_eq_ofList_toDigits, String.toList_ofList]
    rfl
  | negSucc n =>
    have hsign : signOf (decide (Int.negSucc n < 0)) = ['-'] := by rw [decide_eq_true (Int.negSucc_lt_zero n)]; rfl
    have htext : toString (Int.negSucc n) = "-" ++ toString (n + 1) := rfl
    simp only [number, hsign, htext, Nat.toString_eq_ofList_toDigits, String.toList_append, String.toList_ofList,
      Int.natAbs_negSucc]
    rfl

/-- A double is written by its sign, and a word, a zero or the digits that are chosen for it. -/
theorem number_real (negative : Bool) (m : Magnitude) : number (.real (.signed negative m)) = signOf negative ++
    if m.isInfinite then "Infinity".toList else if m.rank = 0 then "0.0".toList else layout.ofDecimal m.shortest := by
  have hsign : (if negative && (layout.signedZero || m.rank != 0) then "-" else "").toList = signOf negative := by
    cases negative <;> simp [signOf, layout, displayLayout]
  simp only [number, Layout.render]
  rw [← hsign]
  split_ifs <;> simp only [String.toList_append, String.toList_ofList] <;> rfl

/-- **A number is read back.** -/
theorem readNumber_number {x : Number} (hx : FitsDigits x) (h : Ends rest) :
    readNumber (number x ++ rest) = .ok (x, rest) := by
  match x with
  | .whole n =>
    have hvalue : (if decide (n < 0) = true then -(n.natAbs : Int) else n.natAbs) = n := by
      simp only [decide_eq_true_eq]
      split <;> omega
    rw [number_whole, List.append_assoc, readNumber_signOf ((startsWithDigit_toDigits _).append rest),
      readUnsigned_toDigits hx h, hvalue]
  | .real .nan => rfl
  | .real (.signed negative ⟨rank, hrank⟩) =>
    rw [number_real, List.append_assoc]
    split
    · next hinfinite =>
      obtain rfl : rank = infinityRank := beq_iff_eq.1 hinfinite
      cases negative <;> rfl
    · next hfinite =>
      have hfinite : rank < infinityRank := Nat.lt_of_le_of_ne hrank fun h => hfinite (beq_iff_eq.2 h)
      split
      · next hzero =>
        obtain rfl : rank = 0 := hzero
        have hread := readUnsigned_point negative (.inl rfl) (List.cons_ne_nil _ _) (isDigit_zeros 1)
          (isDigit_zeros 1) (List.cons_ne_nil _ _) h
        exact (readNumber_signOf ⟨'0', _, rfl, rfl⟩ negative).trans hread
      · next hpos =>
        obtain ⟨hcoefficient, hread⟩ :=
          Magnitude.ofDecimal_shortest (m := ⟨rank, hrank⟩) (Nat.pos_of_ne_zero hpos) hfinite negative
        rw [readNumber_signOf ((startsWithDigit_ofDecimal _ _).append rest), readUnsigned_ofDecimal _ hcoefficient h,
          hread]

/-- The characters with which numbers start. -/
def startsNumber (c : Char) : Bool := c.isDigit || c == '-' || c == 'N' || c == 'I'

theorem ne_of_startsNumber {d : Char} (hc : startsNumber c = true) (hd : startsNumber d = false) : c ≠ d := by
  rintro rfl
  rw [hc] at hd
  cases hd

theorem exists_number_eq_cons (x : Number) : ∃ c cs, number x = c :: cs ∧ startsNumber c = true := by
  have hsigned : ∀ negative {cs}, StartsWithDigit cs →
      ∃ c cs', signOf negative ++ cs = c :: cs' ∧ startsNumber c = true := by
    rintro (- | -) cs ⟨c, cs, rfl, hc⟩
    · exact ⟨c, cs, rfl, by rw [startsNumber, hc]; rfl⟩
    · exact ⟨'-', c :: cs, rfl, rfl⟩
  match x with
  | .whole n =>
    rw [number_whole]
    exact hsigned _ (startsWithDigit_toDigits _)
  | .real .nan => exact ⟨'N', _, rfl, rfl⟩
  | .real (.signed negative m) =>
    rw [number_real]
    split
    · cases negative with
      | false => exact ⟨'I', _, rfl, rfl⟩
      | true => exact ⟨'-', _, rfl, rfl⟩
    · split
      · exact hsigned negative ⟨'0', _, rfl, rfl⟩
      · exact hsigned negative (startsWithDigit_ofDecimal _ _)

end LanguageUsage.Document
