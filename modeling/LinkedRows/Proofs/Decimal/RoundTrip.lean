/-
# A double's text reads back

Every layout writes a decimal as a numeral: digits, then perhaps a point and digits, then perhaps an
exponent (`decimalText_spells`).  The numeral stands for the decimal, wherever the point is, so the
text of a finite double is read as the double (`readBinary64_text`).
-/

import LinkedRows.Decimal.Layout
import LinkedRows.Proofs.Decimal.Shortest

namespace LinkedRows
namespace Decimal

open Binary64

/-! ## Numerals -/

/-- A number in digits, taken apart. -/
structure Numeral where
  whole : List Char
  fraction : Option (List Char)
  /-- The sign, if there is one, and the digits. -/
  exponent : Option (Option Char × List Char)
deriving DecidableEq, Repr

namespace Numeral

/-- The characters from the exponent's mark on. -/
def exponentText : Option (Option Char × List Char) → List Char
  | none => []
  | some (sign, digits) => 'e' :: sign.toList ++ digits

/-- The characters from the point on. -/
def tail (n : Numeral) : List Char :=
  match n.fraction with
  | none => exponentText n.exponent
  | some fraction => '.' :: fraction ++ exponentText n.exponent

/-- The numeral put together. -/
def text (n : Numeral) : List Char := n.whole ++ n.tail

def exponentValue : Option (Option Char × List Char) → Int
  | none => 0
  | some (sign, digits) =>
    if sign = some '-' then -natOfDigits 0 digits else natOfDigits 0 digits

/-- The decimal that a numeral stands for. -/
def toDecimal (n : Numeral) : Decimal where
  digits := natOfDigits 0 (n.whole ++ n.fraction.getD [])
  exponent := exponentValue n.exponent - (n.fraction.getD []).length

/-- Digits where digits belong, and at least one of them before the point and in an exponent. -/
structure WellFormed (n : Numeral) : Prop where
  whole_ne_nil : n.whole ≠ []
  whole : ∀ c ∈ n.whole, c.isDigit = true
  fraction : ∀ digits, n.fraction = some digits → ∀ c ∈ digits, c.isDigit = true
  exponent : ∀ sign digits, n.exponent = some (sign, digits) →
    digits ≠ [] ∧ (∀ c ∈ digits, c.isDigit = true) ∧
      (sign = none ∨ sign = some '-' ∨ sign = some '+')

end Numeral

/-- Characters of a class are found again, if what follows does not begin with one. -/
theorem span_append {p : Char → Bool} {cs rest : List Char} (hcs : ∀ c ∈ cs, p c = true)
    (hrest : ∀ c ∈ rest.head?, p c = false) :
    (cs ++ rest).takeWhile p = cs ∧ (cs ++ rest).dropWhile p = rest := by
  have hnone : rest.takeWhile p = [] ∧ rest.dropWhile p = rest := by
    cases rest with
    | nil => exact ⟨rfl, rfl⟩
    | cons c rest =>
      have hc := hrest c rfl
      exact ⟨List.takeWhile_cons_of_neg (by simp [hc]), List.dropWhile_cons_of_neg (by simp [hc])⟩
  rw [List.takeWhile_append_of_pos hcs, List.dropWhile_append_of_pos hcs, hnone.1, hnone.2,
    List.append_nil]
  exact ⟨rfl, rfl⟩

theorem readSign_of_isDigit {c : Char} (hc : c.isDigit = true) (cs : List Char) :
    readSign (c :: cs) = (false, c :: cs) := by
  unfold readSign
  split
  · rename_i heq
    obtain ⟨rfl, rfl⟩ := List.cons.inj heq
    cases hc
  · rename_i heq
    obtain ⟨rfl, rfl⟩ := List.cons.inj heq
    cases hc
  · rfl

theorem readSign_digits {digits : List Char} (hdigits : ∀ c ∈ digits, c.isDigit = true) :
    readSign digits = (false, digits) := by
  cases digits with
  | nil => rfl
  | cons c cs => exact readSign_of_isDigit (hdigits c List.mem_cons_self) cs

namespace Numeral

variable {n : Numeral}

theorem readExponent_text (hn : n.WellFormed) :
    readExponent (exponentText n.exponent) = some (exponentValue n.exponent) := by
  cases hexponent : n.exponent with
  | none => rfl
  | some e =>
    obtain ⟨sign, digits⟩ := e
    obtain ⟨hne, hdigits, hsign⟩ := hn.exponent sign digits hexponent
    have hall : (digits.isEmpty || !digits.all Char.isDigit) = false := by
      simpa [List.isEmpty_eq_false_iff.2 hne] using hdigits
    obtain rfl | rfl | rfl := hsign
    · simp [readExponent, exponentText, exponentValue, readSign_digits hdigits, hall]
    · simp [readExponent, exponentText, exponentValue, readSign, hall]
    · simp [readExponent, exponentText, exponentValue, readSign, hall]

theorem readUnsigned_text (hn : n.WellFormed) (negative : Bool) :
    readUnsigned negative n.text =
      some (nearestBinary64 negative n.toDecimal.digits n.toDecimal.exponent) := by
  have hexponent : ∀ c ∈ (exponentText n.exponent).head?, c.isDigit = false := by
    cases n.exponent with
    | none => simp [exponentText]
    | some e => simp [exponentText]
  have htail : ∀ c ∈ n.tail.head?, c.isDigit = false := by
    unfold tail
    cases n.fraction with
    | none => exact hexponent
    | some fraction => simp
  obtain ⟨hwhole, hrest⟩ := span_append hn.whole htail
  have hne := hn.whole_ne_nil
  unfold readUnsigned
  rw [text, hwhole, hrest, tail]
  cases hfraction : n.fraction with
  | none =>
    cases hmark : n.exponent with
    | none => simp [hne, toDecimal, hfraction, hmark, exponentText, readExponent, exponentValue]
    | some e =>
      have h := readExponent_text hn
      simp only [hmark, exponentText, List.cons_append] at h ⊢
      simp [hne, toDecimal, hfraction, hmark, h]
  | some fraction =>
    obtain ⟨htake, hdrop⟩ := span_append (hn.fraction fraction hfraction) hexponent
    simp only [List.cons_append, htake, hdrop, readExponent_text hn]
    simp [hne, toDecimal, hfraction]

/-- A numeral for the decimal with these digits, of which the leading one has the exponent `e`. -/
structure Spells (n : Numeral) (digits : List Char) (e : ℤ) : Prop where
  wellFormed : n.WellFormed
  toRat : n.toDecimal.toRat = natOfDigits 0 digits * 10 ^ (e - (digits.length - 1 : ℕ))

end Numeral

/-! ## Layouts write numerals -/

theorem natOfDigits_toDigits (n : Nat) : natOfDigits 0 (Nat.toDigits 10 n) = n :=
  Nat.ofDigitChars_ten_toDigits

theorem natOfDigits_append (k : Nat) (cs ds : List Char) :
    natOfDigits k (cs ++ ds) = natOfDigits (natOfDigits k cs) ds := List.foldl_append

theorem natOfDigits_zeros (k n : Nat) : natOfDigits k (List.replicate n '0') = 10 ^ n * k :=
  Nat.ofDigitChars_replicate_zero

namespace Layout

variable {digits : List Char} {e : ℤ}

theorem isDigit_zeros (n : Nat) : ∀ c ∈ List.replicate n '0', c.isDigit = true := by
  intro c hc
  rw [List.eq_of_mem_replicate hc]
  rfl

theorem isDigit_append {cs ds : List Char} (hcs : ∀ c ∈ cs, c.isDigit = true)
    (hds : ∀ c ∈ ds, c.isDigit = true) : ∀ c ∈ cs ++ ds, c.isDigit = true := by
  intro c hc
  obtain hc | hc := List.mem_append.1 hc
  · exact hcs c hc
  · exact hds c hc

/-- Zeros and all the digits after the point. -/
theorem spells_belowOne (hne : digits ≠ []) (hdigits : ∀ c ∈ digits, c.isDigit = true)
    (he : e < 0) : Numeral.Spells
      ⟨['0'], some (List.replicate ((-e).toNat - 1) '0' ++ digits), none⟩ digits e := by
  have hlength : 0 < digits.length := List.length_pos_iff.2 hne
  refine ⟨⟨by simp, by simp, ?_, by simp⟩, ?_⟩
  · rintro _ ⟨⟩
    exact isDigit_append (isDigit_zeros _) hdigits
  · have hleading : natOfDigits 0 (['0'] ++ (List.replicate ((-e).toNat - 1) '0' ++ digits)) =
        natOfDigits 0 digits := by
      rw [natOfDigits_append, natOfDigits_append, natOfDigits_zeros]
      simp [natOfDigits]
    have hplaces : (0 : ℤ) - (List.replicate ((-e).toNat - 1) '0' ++ digits).length =
        e - (digits.length - 1 : ℕ) := by
      rw [List.length_append, List.length_replicate]
      omega
    simp only [toRat, Numeral.toDecimal, Numeral.exponentValue, Option.getD_some, hleading, hplaces]

/-- The point between two digits. -/
theorem spells_inside (hne : digits ≠ []) (hdigits : ∀ c ∈ digits, c.isDigit = true)
    (he : ¬e < 0) (hinside : e.toNat + 1 < digits.length) : Numeral.Spells
      ⟨digits.take (e.toNat + 1), some (digits.drop (e.toNat + 1)), none⟩ digits e := by
  refine ⟨⟨by simpa using hne, fun c hc => hdigits c (List.mem_of_mem_take hc), ?_, by simp⟩, ?_⟩
  · rintro _ ⟨⟩ c hc
    exact hdigits c (List.mem_of_mem_drop hc)
  · have hplaces : (0 : ℤ) - (digits.drop (e.toNat + 1)).length = e - (digits.length - 1 : ℕ) := by
      rw [List.length_drop]
      omega
    simp only [toRat, Numeral.toDecimal, Numeral.exponentValue, Option.getD_some,
      List.take_append_drop, hplaces]

/-- All the digits and zeros before the point, if there is a point. -/
theorem spells_whole (hne : digits ≠ []) (hdigits : ∀ c ∈ digits, c.isDigit = true)
    (he : ¬e < 0) (hwhole : ¬e.toNat + 1 < digits.length) (point : Bool) : Numeral.Spells
      ⟨digits ++ List.replicate (e.toNat + 1 - digits.length) '0',
        if point then some ['0'] else none, none⟩ digits e := by
  have hlength : 0 < digits.length := List.length_pos_iff.2 hne
  refine ⟨⟨by simp [hne], isDigit_append hdigits (isDigit_zeros _), ?_, by simp⟩, ?_⟩
  · cases point with
    | false => simp
    | true =>
      rintro _ ⟨⟩
      exact isDigit_zeros 1
  · have hplaces : e - (digits.length - 1 : ℕ) = (e.toNat + 1 - digits.length : ℕ) := by omega
    rw [hplaces, zpow_natCast]
    generalize e.toNat + 1 - digits.length = zeros
    have hdigits : natOfDigits 0 (digits ++ List.replicate zeros '0') =
        10 ^ zeros * natOfDigits 0 digits := by
      rw [natOfDigits_append, natOfDigits_zeros]
    cases point with
    | false =>
      simp only [toRat, Numeral.toDecimal, Numeral.exponentValue, Bool.false_eq_true, if_false,
        Option.getD_none, List.append_nil, hdigits, List.length_nil]
      push_cast
      ring
    | true =>
      have hpoint : natOfDigits (10 ^ zeros * natOfDigits 0 digits) ['0'] =
          10 * (10 ^ zeros * natOfDigits 0 digits) := rfl
      simp only [toRat, Numeral.toDecimal, Numeral.exponentValue, if_true, Option.getD_some,
        natOfDigits_append _ (_ ++ _), hdigits, hpoint, List.length_singleton]
      push_cast
      rw [zpow_neg_one]
      field_simp

/-- Without an exponent, a numeral has a point, except that some layouts leave it out of a whole
number. -/
theorem positionalText_spells (layout : Layout) (hne : digits ≠ [])
    (hdigits : ∀ c ∈ digits, c.isDigit = true) (e : ℤ) :
    ∃ n : Numeral, layout.positionalText digits e = n.text ∧ n.Spells digits e ∧
      (layout.wholePoint = true → n.fraction.isSome = true) := by
  unfold positionalText
  split
  case isTrue hnegative =>
    refine ⟨_, ?_, spells_belowOne hne hdigits hnegative, fun _ => rfl⟩
    simp [Numeral.text, Numeral.tail, Numeral.exponentText]
  case isFalse hnonnegative =>
    dsimp only
    split
    case isTrue hinside =>
      refine ⟨_, ?_, spells_inside hne hdigits hnonnegative hinside, fun _ => rfl⟩
      simp [Numeral.text, Numeral.tail, Numeral.exponentText]
    case isFalse hwhole =>
      refine ⟨_, ?_, spells_whole hne hdigits hnonnegative hwhole layout.wholePoint, ?_⟩
      · cases layout.wholePoint <;> simp [Numeral.text, Numeral.tail, Numeral.exponentText]
      · intro h
        simp [h]

/-- With an exponent. -/
theorem exponentText_spells (layout : Layout) (hne : digits ≠ [])
    (hdigits : ∀ c ∈ digits, c.isDigit = true) (e : ℤ) :
    ∃ n : Numeral, layout.exponentText digits e = n.text ∧ n.Spells digits e ∧
      n.exponent.isSome = true := by
  obtain ⟨d, rest, rfl⟩ := List.exists_cons_of_ne_nil hne
  have hrest : ∀ c ∈ rest, c.isDigit = true := fun c hc => hdigits c (List.mem_cons_of_mem _ hc)
  set sign := if e < 0 then some '-' else if layout.plusSign then some '+' else none with hsign
  have hvalue : Numeral.exponentValue (some (sign, Nat.toDigits 10 e.natAbs)) = e := by
    unfold Numeral.exponentValue
    dsimp only
    rw [natOfDigits_toDigits, hsign]
    by_cases hnegative : e < 0
    · rw [if_pos hnegative, if_pos rfl]
      omega
    · have hminus : (if e < 0 then some '-' else if layout.plusSign then some '+' else none) ≠
          some '-' := by
        rw [if_neg hnegative]
        split <;> simp
      rw [if_neg hminus]
      omega
  have hexponent : sign = none ∨ sign = some '-' ∨ sign = some '+' := by
    rw [hsign]
    split_ifs <;> simp
  refine ⟨⟨[d], if rest = [] then none else some rest, some (sign, Nat.toDigits 10 e.natAbs)⟩, ?_,
    ⟨⟨by simp, ?_, ?_, ?_⟩, ?_⟩, rfl⟩
  · have : (if e < 0 then ['-'] else if layout.plusSign then ['+'] else []) = sign.toList := by
      rw [hsign]
      split_ifs <;> rfl
    unfold exponentText
    dsimp only
    rw [this]
    cases rest <;> simp [Numeral.text, Numeral.tail, Numeral.exponentText]
  · simpa using hdigits d List.mem_cons_self
  · intro fraction hfraction
    split at hfraction
    · cases hfraction
    · obtain rfl := Option.some.inj hfraction
      exact hrest
  · rintro _ _ ⟨⟩
    exact ⟨Nat.toDigits_ne_nil, fun c hc => Nat.isDigit_of_mem_toDigits (by norm_num) le_rfl hc,
      hexponent⟩
  · have hfraction : (if rest = [] then none else some rest).getD [] = rest := by
      split
      · rename_i h
        rw [h, Option.getD_none]
      · rfl
    simp only [toRat, Numeral.toDecimal, hvalue, hfraction, List.singleton_append, List.length_cons,
      Nat.add_sub_cancel]

/-- **A decimal is written as a numeral that stands for it.** -/
theorem decimalText_spells (layout : Layout) (d : Decimal) :
    ∃ n : Numeral, layout.decimalText d = n.text ∧ n.WellFormed ∧ n.toDecimal.toRat = d.toRat ∧
      (layout.wholePoint = true → n.fraction.isSome = true ∨ n.exponent.isSome = true) := by
  have hne : Nat.toDigits 10 d.digits ≠ [] := Nat.toDigits_ne_nil
  have hdigits : ∀ c ∈ Nat.toDigits 10 d.digits, c.isDigit = true := fun c hc =>
    Nat.isDigit_of_mem_toDigits (by norm_num) le_rfl hc
  have hvalue {n : Numeral} (h : n.Spells (Nat.toDigits 10 d.digits)
      (d.exponent + ((Nat.toDigits 10 d.digits).length - 1 : ℕ))) :
      n.toDecimal.toRat = d.toRat := by
    rw [h.toRat, natOfDigits_toDigits, add_sub_cancel_right, toRat]
  have hpositional := layout.positionalText_spells hne hdigits
    (d.exponent + ((Nat.toDigits 10 d.digits).length - 1 : ℕ))
  have hexponent := layout.exponentText_spells hne hdigits
    (d.exponent + ((Nat.toDigits 10 d.digits).length - 1 : ℕ))
  obtain hform | hform : layout.decimalText d = layout.positionalText (Nat.toDigits 10 d.digits)
      (d.exponent + ((Nat.toDigits 10 d.digits).length - 1 : ℕ)) ∨
      layout.decimalText d = layout.exponentText (Nat.toDigits 10 d.digits)
        (d.exponent + ((Nat.toDigits 10 d.digits).length - 1 : ℕ)) := ite_eq_or_eq _ _ _
  · obtain ⟨n, htext, hn, hpoint⟩ := hpositional
    exact ⟨n, hform.trans htext, hn.wellFormed, hvalue hn, fun h => .inl (hpoint h)⟩
  · obtain ⟨n, htext, hn, hmark⟩ := hexponent
    exact ⟨n, hform.trans htext, hn.wellFormed, hvalue hn, fun _ => .inr hmark⟩

end Layout

/-! ## Doubles -/

theorem toLower_of_isDigit {c : Char} (hc : c.isDigit = true) : c.toLower = c := by
  simp only [Char.isDigit, Bool.and_eq_true, decide_eq_true_eq] at hc
  unfold Char.toLower
  rw [dif_neg]
  rintro ⟨h, -⟩
  exact absurd (UInt32.le_trans h hc.2) (by decide)

/-- The numeral of a finite double. -/
theorem Layout.text_spells (layout : Layout) {x : Binary64} (hx : x.isFinite = true) :
    ∃ n : Numeral, (layout.text x).toList = (if x.isNegative then ['-'] else []) ++ n.text ∧
      n.WellFormed ∧
      nearestBinary64 x.isNegative n.toDecimal.digits n.toDecimal.exponent = x ∧
      (layout.wholePoint = true → n.fraction.isSome = true ∨ n.exponent.isSome = true) := by
  have hnumber : x.isNaN = false := by
    simpa [isNaN, isFinite] using fun h => absurd h (by simpa [isFinite] using hx)
  by_cases hzero : x.isZero = true
  · obtain ⟨n, htext, hn, hvalue, hpoint⟩ := layout.decimalText_spells ⟨0, 0⟩
    refine ⟨n, ?_, hn, ?_, hpoint⟩
    · simp [text, hnumber, hx, hzero, htext]
    · have hdigits : n.toDecimal.digits = 0 := by
        simpa [toRat, zpow_ne_zero] using hvalue
      have hbits : x.unsignedBits = 0 := by
        simp only [isZero, Bool.and_eq_true, beq_iff_eq] at hzero
        simp [unsignedBits, hzero]
      rw [nearestBinary64, if_pos (.inl hdigits), zero, ← hbits, ofSigned_unsignedBits]
  · have hsignificand : 0 < x.significand := by
      simp only [isZero, Bool.and_eq_true, beq_iff_eq] at hzero
      unfold significand
      split
      · omega
      · rw [pow2_eq]
        positivity
    obtain ⟨n, htext, hn, hvalue, hpoint⟩ := layout.decimalText_spells (shortest layout.tie x)
    refine ⟨n, ?_, hn, nearestBinary64_of_encloses hx hsignificand ?_, hpoint⟩
    · simp [text, hnumber, hx, hzero, htext]
    · rw [hvalue]
      exact shortest_encloses layout.tie hsignificand

/-- **The text of a finite double reads as the double**, in every layout. -/
theorem readBinary64_text (layout : Layout) {x : Binary64} (hx : x.isFinite = true) :
    readBinary64 (layout.text x).toList = some x := by
  obtain ⟨n, htext, hn, hvalue, -⟩ := layout.text_spells hx
  obtain ⟨c, cs, hdigit, hcs⟩ : ∃ c cs, c.isDigit = true ∧ n.text = c :: cs := by
    obtain ⟨c, cs, hwhole⟩ := List.exists_cons_of_ne_nil hn.whole_ne_nil
    exact ⟨c, cs ++ n.tail, hn.whole c (by simp [hwhole]), by simp [Numeral.text, hwhole]⟩
  have hsign : readSign (layout.text x).toList = (x.isNegative, n.text) := by
    rw [htext]
    cases x.isNegative with
    | true => rfl
    | false =>
      rw [hcs]
      exact readSign_of_isDigit hdigit cs
  have hword {word : String} (hhead : word.toList.head?.any Char.isDigit = false) :
      String.ofList (n.text.map Char.toLower) ≠ word := by
    rintro rfl
    rw [String.toList_ofList, hcs, List.map_cons, toLower_of_isDigit hdigit] at hhead
    exact absurd (hdigit.symm.trans hhead) (by decide)
  unfold readBinary64
  rw [hsign]
  dsimp only
  rw [if_neg, if_neg (hword rfl), n.readUnsigned_text hn, hvalue]
  rintro (h | h)
  · exact hword rfl h
  · exact hword rfl h

end Decimal
end LinkedRows
