/-
# How numbers are spelled

The texts that read as numbers, as a grammar apart from the readers:

```
integer  := sign? digit+                                        IntegerText
number   := sign? (digit+ | digit* "." digit*) exponent?        RealText
exponent := ("e" | "E") sign? digit+                            ExponentText
```

with at least one digit beside the point.  Each reader takes exactly its texts, as what they stand
for.  The one that reads doubles also takes three words, which are no numbers (`SpecialText`).
-/

import LinkedRows.Proofs.Decimal.RoundTrip
import LinkedRows.Proofs.Lexis.Literal

namespace LinkedRows
namespace Decimal

variable {cs ds rest : List Char} {negative : Bool} {d : Decimal}

/-- Nothing but decimal digits. -/
def Digits (cs : List Char) : Prop := ∀ c ∈ cs, c.isDigit = true

/-- A number with a sign. -/
def signed (negative : Bool) (n : ℤ) : ℤ := if negative then -n else n

/-- A sign, if there is one; true is minus. -/
inductive SignText : List Char → Bool → Prop
  | none : SignText [] false
  | plus : SignText ['+'] false
  | minus : SignText ['-'] true

/-- A whole number. -/
inductive IntegerText : List Char → ℤ → Prop
  | intro {sign digits : List Char} {negative : Bool} : SignText sign negative → digits ≠ [] →
      Digits digits → IntegerText (sign ++ digits) (signed negative (natOfDigits 0 digits))

/-- An exponent with its mark, if there is one. -/
inductive ExponentText : List Char → ℤ → Prop
  | none : ExponentText [] 0
  | some {mark : Char} {cs : List Char} {e : ℤ} : mark = 'e' ∨ mark = 'E' → IntegerText cs e →
      ExponentText (mark :: cs) e

/-- A number without a sign, and the decimal that it stands for. -/
inductive NumberText : List Char → Decimal → Prop
  | whole {digits exponent : List Char} {e : ℤ} : digits ≠ [] → Digits digits →
      ExponentText exponent e → NumberText (digits ++ exponent) ⟨natOfDigits 0 digits, e⟩
  | point {whole fraction exponent : List Char} {e : ℤ} : whole ++ fraction ≠ [] → Digits whole →
      Digits fraction → ExponentText exponent e →
      NumberText (whole ++ '.' :: (fraction ++ exponent))
        ⟨natOfDigits 0 (whole ++ fraction), e - fraction.length⟩

/-- A number, whether it is negative, and the decimal without its sign. -/
inductive RealText : List Char → Bool → Decimal → Prop
  | intro {sign cs : List Char} {negative : Bool} {d : Decimal} : SignText sign negative →
      NumberText cs d → RealText (sign ++ cs) negative d

/-- A word, in small letters, and the double that it names after a sign. -/
inductive Names (negative : Bool) : List Char → Binary64 → Prop
  | inf : Names negative ['i', 'n', 'f'] (.infinity negative)
  | infinity : Names negative ['i', 'n', 'f', 'i', 'n', 'i', 't', 'y'] (.infinity negative)
  | nan : Names negative ['n', 'a', 'n'] .nan

/-- A word that reads as a double without being a number. -/
inductive SpecialText : List Char → Binary64 → Prop
  | intro {sign word : List Char} {negative : Bool} {x : Binary64} : SignText sign negative →
      Names negative (word.map Char.toLower) x → SpecialText (sign ++ word) x

/-! ## Signs and digits -/

/-- A sign is found again, if none follows it. -/
theorem SignText.readSign (h : SignText ds negative) (hrest : ∀ c ∈ rest.head?, c ≠ '-' ∧ c ≠ '+') :
    readSign (ds ++ rest) = (negative, rest) := by
  cases h with
  | plus => rfl
  | minus => rfl
  | none =>
    cases rest with
    | nil => rfl
    | cons c rest =>
      obtain ⟨hminus, hplus⟩ := hrest c rfl
      unfold Decimal.readSign
      split
      · rename_i heq
        exact absurd (List.cons.inj heq).1 hminus
      · rename_i heq
        exact absurd (List.cons.inj heq).1 hplus
      · rfl

theorem exists_readSign (cs : List Char) : ∃ sign negative rest, cs = sign ++ rest ∧
    SignText sign negative ∧ readSign cs = (negative, rest) := by
  unfold readSign
  split
  · exact ⟨_, _, _, rfl, .minus, rfl⟩
  · exact ⟨_, _, _, rfl, .plus, rfl⟩
  · exact ⟨_, _, _, rfl, .none, rfl⟩

/-- No sign begins what begins in a way that signs do not. -/
theorem ne_sign_of_head {P : Char → Prop} (h : ∀ c ∈ cs.head?, P c) (hminus : ¬P '-')
    (hplus : ¬P '+') : ∀ c ∈ cs.head?, c ≠ '-' ∧ c ≠ '+' := by
  intro c hc
  constructor
  · rintro rfl
    exact hminus (h _ hc)
  · rintro rfl
    exact hplus (h _ hc)

theorem Digits.ne_sign (h : Digits cs) : ∀ c ∈ cs.head?, c ≠ '-' ∧ c ≠ '+' :=
  ne_sign_of_head (fun c hc => h c (List.mem_of_mem_head? hc)) (by decide) (by decide)

theorem digits_iff : (cs.isEmpty || !cs.all Char.isDigit) = false ↔ cs ≠ [] ∧ Digits cs := by
  simp [Digits]

theorem digits_takeWhile (cs : List Char) : Digits (cs.takeWhile Char.isDigit) := by
  intro c hc
  exact List.all_eq_true.1 List.all_takeWhile c hc

/-! ## Whole numbers -/

/-- A whole number is what is all digits after its sign. -/
theorem integerText_iff {z : ℤ} : IntegerText cs z ↔
    (readSign cs).2 ≠ [] ∧ Digits (readSign cs).2 ∧
      z = signed (readSign cs).1 (natOfDigits 0 (readSign cs).2) := by
  constructor
  · rintro ⟨hsign, hne, hdigits⟩
    rw [hsign.readSign hdigits.ne_sign]
    exact ⟨hne, hdigits, rfl⟩
  · rintro ⟨hne, hdigits, rfl⟩
    obtain ⟨sign, negative, rest, rfl, hsign, hread⟩ := exists_readSign cs
    rw [hread] at hne hdigits ⊢
    exact .intro hsign hne hdigits

theorem int64?_eq_some {z : ℤ} {n : Int64} : int64? z = some n ↔ z = n.toInt := by
  constructor
  · intro h
    unfold int64? at h
    split at h
    · rename_i hfits
      obtain rfl := Option.some.inj h
      rw [fits, Bool.and_eq_true, decide_eq_true_eq, decide_eq_true_eq] at hfits
      exact (Int64.toInt_ofInt_of_le hfits.1 hfits.2).symm
    · cases h
  · rintro rfl
    exact Lexis.int64?_toInt n

/-- **An integer is read from exactly the texts of whole numbers in its range.** -/
theorem readInt64_eq_some {n : Int64} : readInt64 cs = some n ↔ IntegerText cs n.toInt := by
  rw [integerText_iff]
  unfold readInt64
  dsimp only
  split
  case isTrue hnone =>
    refine iff_of_false nofun ?_
    rintro ⟨hne, hdigits, -⟩
    rw [digits_iff.2 ⟨hne, hdigits⟩] at hnone
    cases hnone
  case isFalse hsome =>
    obtain ⟨hne, hdigits⟩ := digits_iff.1 (Bool.eq_false_iff.2 hsome)
    rw [int64?_eq_some, signed, eq_comm]
    exact ⟨fun h => ⟨hne, hdigits, h⟩, fun h => h.2.2⟩

/-! ## Numbers -/

theorem readExponent_eq_some {e : ℤ} : readExponent cs = some e ↔ ExponentText cs e := by
  cases cs with
  | nil =>
    constructor
    · intro h
      obtain rfl := Option.some.inj h
      exact .none
    · rintro ⟨⟩
      rfl
  | cons c cs =>
    have hinteger : ExponentText (c :: cs) e ↔ (c = 'e' ∨ c = 'E') ∧ IntegerText cs e := by
      constructor
      · rintro ⟨⟩
        exact ⟨‹_›, ‹_›⟩
      · rintro ⟨hmark, he⟩
        exact .some hmark he
    rw [hinteger, integerText_iff]
    unfold readExponent
    dsimp only
    split
    case isTrue hmark =>
      split
      case isTrue hnone =>
        refine iff_of_false nofun ?_
        rintro ⟨-, hne, hdigits, -⟩
        rw [digits_iff.2 ⟨hne, hdigits⟩] at hnone
        cases hnone
      case isFalse hsome =>
        obtain ⟨hne, hdigits⟩ := digits_iff.1 (Bool.eq_false_iff.2 hsome)
        rw [← apply_ite some, Option.some.injEq, ← signed, eq_comm]
        exact ⟨fun h => ⟨hmark, hne, hdigits, h⟩, fun h => h.2.2.2⟩
    case isFalse hmark => exact iff_of_false nofun fun h => hmark h.1

theorem ExponentText.head {e : ℤ} (h : ExponentText cs e) :
    ∀ c ∈ cs.head?, c.isDigit = false ∧ c ≠ '.' := by
  cases h with
  | none => exact nofun
  | some hmark _ =>
    rintro _ ⟨⟩
    obtain rfl | rfl := hmark
    all_goals exact ⟨rfl, by decide⟩

/-- Digits and then neither a digit nor a point. -/
theorem readUnsigned_whole (hcs : Digits cs)
    (hrest : ∀ c ∈ rest.head?, c.isDigit = false ∧ c ≠ '.') : readUnsigned negative (cs ++ rest) =
      if cs = [] then none
      else (readExponent rest).map fun e => nearestBinary64 negative (natOfDigits 0 cs) e := by
  obtain ⟨htake, hdrop⟩ := span_append hcs fun c hc => (hrest c hc).1
  unfold readUnsigned
  rw [htake, hdrop]
  cases rest with
  | nil => simp
  | cons c rest =>
    have hpoint : c ≠ '.' := (hrest c rfl).2
    simp [hpoint]

/-- Digits, a point, digits and then no digit. -/
theorem readUnsigned_point (hcs : Digits cs) (hds : Digits ds)
    (hrest : ∀ c ∈ rest.head?, c.isDigit = false) :
    readUnsigned negative (cs ++ '.' :: (ds ++ rest)) =
      if cs ++ ds = [] then none
      else (readExponent rest).map fun e =>
        nearestBinary64 negative (natOfDigits 0 (cs ++ ds)) (e - ds.length) := by
  have hpoint : ∀ c ∈ ('.' :: (ds ++ rest)).head?, c.isDigit = false := by
    rintro _ ⟨⟩
    rfl
  obtain ⟨htake, hdrop⟩ := span_append hcs hpoint
  obtain ⟨htake', hdrop'⟩ := span_append hds hrest
  unfold readUnsigned
  rw [htake, hdrop]
  simp [htake', hdrop']

/-- What is left of a text after its digits. -/
theorem exists_digits (cs : List Char) : ∃ digits rest, cs = digits ++ rest ∧ Digits digits ∧
    ∀ c ∈ rest.head?, c.isDigit = false := by
  refine ⟨_, _, List.takeWhile_append_dropWhile.symm, digits_takeWhile cs, ?_⟩
  intro c hc
  have hhead := List.head?_dropWhile_not Char.isDigit cs
  rw [hc] at hhead
  exact hhead

theorem readUnsigned_eq_some {x : Binary64} : readUnsigned negative cs = some x ↔
    ∃ d, NumberText cs d ∧ nearestBinary64 negative d.digits d.exponent = x := by
  constructor
  · intro h
    obtain ⟨whole, rest, rfl, hwhole, hrest⟩ := exists_digits cs
    by_cases hpoint : rest.head? = some '.'
    · obtain ⟨tail, rfl⟩ := List.head?_eq_some_iff.1 hpoint
      obtain ⟨fraction, exponent, rfl, hfraction, hexponent⟩ := exists_digits tail
      rw [readUnsigned_point hwhole hfraction hexponent] at h
      split at h
      · cases h
      · rename_i hne
        obtain ⟨e, he, rfl⟩ := Option.map_eq_some_iff.1 h
        exact ⟨_, .point hne hwhole hfraction (readExponent_eq_some.1 he), rfl⟩
    · rw [readUnsigned_whole hwhole fun c hc => ⟨hrest c hc, by rintro rfl; exact hpoint hc⟩] at h
      split at h
      · cases h
      · rename_i hne
        obtain ⟨e, he, rfl⟩ := Option.map_eq_some_iff.1 h
        exact ⟨_, .whole hne hwhole (readExponent_eq_some.1 he), rfl⟩
  · rintro ⟨d, hd, rfl⟩
    cases hd with
    | whole hne hdigits hexponent =>
      rw [readUnsigned_whole hdigits hexponent.head, if_neg hne, readExponent_eq_some.2 hexponent]
      rfl
    | point hne hwhole hfraction hexponent =>
      rw [readUnsigned_point hwhole hfraction fun c hc => (hexponent.head c hc).1, if_neg hne,
        readExponent_eq_some.2 hexponent]
      rfl

/-! ## Doubles -/

/-- A number without a sign begins with a digit or the point. -/
theorem NumberText.head (h : NumberText cs d) :
    ∃ c rest, cs = c :: rest ∧ (c.isDigit = true ∨ c = '.') := by
  cases h with
  | @whole digits exponent e hne hdigits hexponent =>
    obtain ⟨c, rest, rfl⟩ := List.exists_cons_of_ne_nil hne
    exact ⟨c, _, rfl, .inl (hdigits c List.mem_cons_self)⟩
  | @point whole fraction exponent e hne hwhole hfraction hexponent =>
    cases whole with
    | nil => exact ⟨'.', _, rfl, .inr rfl⟩
    | cons c rest => exact ⟨c, _, rfl, .inl (hwhole c List.mem_cons_self)⟩

theorem NumberText.ne_sign (h : NumberText cs d) : ∀ c ∈ cs.head?, c ≠ '-' ∧ c ≠ '+' := by
  obtain ⟨c, rest, rfl, hc⟩ := h.head
  refine ne_sign_of_head (P := fun c => c.isDigit = true ∨ c = '.') ?_ (by decide) (by decide)
  rintro _ ⟨⟩
  exact hc

/-- A name begins with a letter. -/
theorem Names.head {x : Binary64} (h : Names negative (cs.map Char.toLower) x) :
    ∃ c rest, cs = c :: rest ∧ (c.toLower = 'i' ∨ c.toLower = 'n') := by
  cases cs with
  | nil => cases h
  | cons c rest =>
    refine ⟨c, rest, rfl, ?_⟩
    rw [List.map_cons] at h
    generalize hword : c.toLower :: rest.map Char.toLower = word at h
    cases h
    · exact .inl (List.cons.inj hword).1
    · exact .inl (List.cons.inj hword).1
    · exact .inr (List.cons.inj hword).1

theorem Names.ne_sign {x : Binary64} (h : Names negative (cs.map Char.toLower) x) :
    ∀ c ∈ cs.head?, c ≠ '-' ∧ c ≠ '+' := by
  obtain ⟨c, rest, rfl, hletter⟩ := h.head
  refine ne_sign_of_head (P := fun c => c.toLower = 'i' ∨ c.toLower = 'n') ?_ (by decide)
    (by decide)
  rintro _ ⟨⟩
  exact hletter

/-- No number is a name. -/
theorem NumberText.not_names {x : Binary64} (h : NumberText cs d) :
    ¬Names negative (cs.map Char.toLower) x := by
  intro hnames
  obtain ⟨c, rest, rfl, hletter⟩ := hnames.head
  obtain ⟨_, _, ⟨⟩, hdigit | rfl⟩ := h.head
  · rw [toLower_of_isDigit hdigit] at hletter
    obtain rfl | rfl := hletter
    all_goals cases hdigit
  · revert hletter
    decide

theorem names_iff {x : Binary64} : Names negative cs x ↔
    (String.ofList cs = "inf" ∨ String.ofList cs = "infinity") ∧ x = .infinity negative ∨
      String.ofList cs = "nan" ∧ x = .nan := by
  simp only [← String.toList_inj, String.toList_ofList]
  constructor
  · rintro ⟨⟩
    · exact .inl ⟨.inl rfl, rfl⟩
    · exact .inl ⟨.inr rfl, rfl⟩
    · exact .inr ⟨rfl, rfl⟩
  · rintro (⟨rfl | rfl, rfl⟩ | ⟨rfl, rfl⟩)
    · exact .inf
    · exact .infinity
    · exact .nan

theorem realText_iff : RealText cs negative d ↔
    (readSign cs).1 = negative ∧ NumberText (readSign cs).2 d := by
  constructor
  · rintro ⟨hsign, hd⟩
    rw [hsign.readSign hd.ne_sign]
    exact ⟨rfl, hd⟩
  · rintro ⟨rfl, hd⟩
    obtain ⟨sign, negative, rest, rfl, hsign, hread⟩ := exists_readSign cs
    rw [hread] at hd ⊢
    exact .intro hsign hd

/-- A number begins with a digit, the point or a sign. -/
theorem RealText.head (h : RealText cs negative d) :
    ∃ c rest, cs = c :: rest ∧ (c.isDigit = true ∨ c ∈ ['.', '+', '-']) := by
  obtain ⟨hsign, hnumber⟩ := h
  cases hsign with
  | none =>
    obtain ⟨c, rest, rfl, hdigit | rfl⟩ := hnumber.head
    · exact ⟨c, rest, rfl, .inl hdigit⟩
    · exact ⟨'.', rest, rfl, .inr List.mem_cons_self⟩
  | plus => exact ⟨'+', _, rfl, .inr (by decide)⟩
  | minus => exact ⟨'-', _, rfl, .inr (by decide)⟩

theorem specialText_iff {x : Binary64} : SpecialText cs x ↔
    Names (readSign cs).1 ((readSign cs).2.map Char.toLower) x := by
  constructor
  · rintro ⟨hsign, hnames⟩
    rwa [hsign.readSign hnames.ne_sign]
  · intro hnames
    obtain ⟨sign, negative, rest, rfl, hsign, hread⟩ := exists_readSign cs
    rw [hread] at hnames
    exact .intro hsign hnames

theorem RealText.not_special {x : Binary64} (h : RealText cs negative d) : ¬SpecialText cs x := by
  rw [specialText_iff]
  exact (realText_iff.1 h).2.not_names

theorem Names.unique {x y : Binary64} (hx : Names negative cs x) (hy : Names negative cs y) :
    x = y := by
  cases hx <;> cases hy <;> rfl

/-- Names are looked for first, but no text is both a name and a number. -/
theorem readBinary64_iff {x : Binary64} : readBinary64 cs = some x ↔
    Names (readSign cs).1 ((readSign cs).2.map Char.toLower) x ∨
      readUnsigned (readSign cs).1 (readSign cs).2 = some x := by
  have hone {y : Binary64} (hnames : Names (readSign cs).1 ((readSign cs).2.map Char.toLower) y) :
      some y = some x ↔ Names (readSign cs).1 ((readSign cs).2.map Char.toLower) x ∨
        readUnsigned (readSign cs).1 (readSign cs).2 = some x := by
    rw [or_iff_left, Option.some.injEq]
    · exact ⟨fun h => h ▸ hnames, hnames.unique⟩
    · intro h
      obtain ⟨d, hd, -⟩ := readUnsigned_eq_some.1 h
      exact hd.not_names hnames
  unfold readBinary64
  dsimp only
  split
  case isTrue hinfinity => exact hone (names_iff.2 (.inl ⟨hinfinity, rfl⟩))
  case isFalse hinfinity =>
    split
    case isTrue hnan => exact hone (names_iff.2 (.inr ⟨hnan, rfl⟩))
    case isFalse hnan =>
      refine (or_iff_right ?_).symm
      rw [names_iff]
      tauto

/-- **A double is read from exactly the texts of numbers and three words**, from a number as the
double nearest to it. -/
theorem readBinary64_eq_some {x : Binary64} : readBinary64 cs = some x ↔ SpecialText cs x ∨
    ∃ negative d, RealText cs negative d ∧
      nearestBinary64 negative d.digits d.exponent = x := by
  have hreal : (∃ negative d, RealText cs negative d ∧
      nearestBinary64 negative d.digits d.exponent = x) ↔
      readUnsigned (readSign cs).1 (readSign cs).2 = some x := by
    rw [readUnsigned_eq_some]
    constructor
    · rintro ⟨negative, d, htext, hx⟩
      obtain ⟨rfl, hd⟩ := realText_iff.1 htext
      exact ⟨d, hd, hx⟩
    · rintro ⟨d, hd, hx⟩
      exact ⟨_, d, realText_iff.2 ⟨rfl, hd⟩, hx⟩
  rw [hreal, specialText_iff, readBinary64_iff]

/-- A whole number is a number. -/
theorem IntegerText.realText {z : ℤ} (h : IntegerText cs z) : ∃ negative n,
    RealText cs negative ⟨n, 0⟩ ∧ z = signed negative n := by
  obtain @⟨sign, digits, negative, hsign, hne, hdigits⟩ := h
  refine ⟨negative, natOfDigits 0 digits, .intro hsign ?_, rfl⟩
  have hwhole := NumberText.whole hne hdigits .none
  rwa [List.append_nil] at hwhole

/-! ## The characters of numbers -/

theorem SignText.mem (h : SignText cs negative) : ∀ c ∈ cs, c ∈ ['+', '-'] := by
  cases h <;> simp

theorem IntegerText.mem {z : ℤ} (h : IntegerText cs z) :
    ∀ c ∈ cs, c.isDigit = true ∨ c ∈ ['+', '-'] := by
  obtain ⟨hsign, -, hdigits⟩ := h
  intro c hc
  obtain hc | hc := List.mem_append.1 hc
  · exact .inr (hsign.mem c hc)
  · exact .inl (hdigits c hc)

theorem ExponentText.mem {e : ℤ} (h : ExponentText cs e) :
    ∀ c ∈ cs, c.isDigit = true ∨ c ∈ ['+', '-', 'e', 'E'] := by
  cases h with
  | none => exact fun _ h => absurd h List.not_mem_nil
  | some hmark he =>
    intro c hc
    obtain rfl | hc := List.mem_cons.1 hc
    · obtain rfl | rfl := hmark
      all_goals exact .inr (by decide)
    · exact (he.mem c hc).imp_right fun h => List.mem_append_left ['e', 'E'] h

theorem NumberText.mem (h : NumberText cs d) :
    ∀ c ∈ cs, c.isDigit = true ∨ c ∈ ['+', '-', 'e', 'E', '.'] := by
  intro c hc
  cases h with
  | whole _ hdigits hexponent =>
    obtain hc | hc := List.mem_append.1 hc
    · exact .inl (hdigits c hc)
    · exact (hexponent.mem c hc).imp_right fun h => List.mem_append_left ['.'] h
  | point _ hwhole hfraction hexponent =>
    rw [List.mem_append, List.mem_cons, List.mem_append] at hc
    obtain hc | rfl | hc | hc := hc
    · exact .inl (hwhole c hc)
    · exact .inr (by decide)
    · exact .inl (hfraction c hc)
    · exact (hexponent.mem c hc).imp_right fun h => List.mem_append_left ['.'] h

theorem isBlank_of_isDigit {c : Char} (h : c.isDigit = true) : Text.isBlank c = false := by
  simp only [Char.isDigit, Bool.and_eq_true, decide_eq_true_eq, ge_iff_le,
    UInt32.le_iff_toNat_le] at h
  have hlow : 48 ≤ c.toNat := h.1
  have hhigh : c.toNat ≤ 57 := h.2
  simp only [Text.isBlank, Bool.or_eq_false_iff, Bool.and_eq_false_iff, decide_eq_false_iff_not,
    beq_eq_false_iff_ne]
  omega

/-- No blanks are in a number. -/
theorem RealText.not_isBlank (h : RealText cs negative d) : ∀ c ∈ cs, Text.isBlank c = false := by
  obtain ⟨hsign, hnumber⟩ := h
  intro c hc
  have hchar : c.isDigit = true ∨ c ∈ ['+', '-', 'e', 'E', '.'] := by
    obtain hc | hc := List.mem_append.1 hc
    · exact .inr (List.mem_append_left ['e', 'E', '.'] (hsign.mem c hc))
    · exact hnumber.mem c hc
  obtain hdigit | hmark := hchar
  · exact isBlank_of_isDigit hdigit
  · simp only [List.mem_cons, List.not_mem_nil, or_false] at hmark
    obtain rfl | rfl | rfl | rfl | rfl := hmark
    all_goals rfl

end Decimal
end LinkedRows
