/-
# Names and literals are single tokens

A name, as a dialect writes it, is read as one token that is the name (`reads_name`), and a literal
as one that is the value (`reads_literal`), whatever characters they hold.  SQLite has no literals
for truth values, so there they are read as one and zero (`Dialect.known`).
-/

import LinkedRows.Proofs.Lexis

namespace LinkedRows
namespace Lexis

variable {dialect : Dialect} {cs rest : List Char}

/-! ## Quotes -/

/-- Writes the characters of a text so that each is read as itself. -/
def Encodes (quote : Char) (escapes : Bool) (encode : Char → List Char) : Prop :=
  ∀ c rest, rest ≠ [] →
    quoted? quote escapes (encode c ++ rest) =
      (quoted? quote escapes rest).map fun p => (c :: p.1, p.2)

theorem quoted?_of_ne {quote c : Char} {escapes : Bool} (hquote : c ≠ quote)
    (hescape : (escapes && c == '\\') = false) (hrest : rest ≠ []) :
    quoted? quote escapes (c :: rest) =
      (quoted? quote escapes rest).map fun p => (c :: p.1, p.2) := by
  obtain ⟨d, rest, rfl⟩ := List.exists_cons_of_ne_nil hrest
  rw [quoted?, if_neg hquote, hescape, if_neg Bool.false_ne_true]

theorem quoted?_quote (quote : Char) (escapes : Bool) (rest : List Char) :
    quoted? quote escapes (quote :: quote :: rest) =
      (quoted? quote escapes rest).map fun p => (quote :: p.1, p.2) := by
  rw [quoted?, if_pos rfl, if_pos rfl]

theorem quoted?_escape {quote d c : Char} (hquote : quote ≠ '\\') (hd : escaped d = [c])
    (rest : List Char) :
    quoted? quote true ('\\' :: d :: rest) =
      (quoted? quote true rest).map fun p => (c :: p.1, p.2) := by
  rw [quoted?, if_neg hquote.symm, hd]
  rfl

/-- A text written character by character is read again, up to a quote that no quote follows. -/
theorem quoted?_flatMap {quote : Char} {escapes : Bool} {encode : Char → List Char}
    (h : Encodes quote escapes encode) (text : List Char) (hrest : rest.head? ≠ some quote) :
    quoted? quote escapes (text.flatMap encode ++ quote :: rest) = some (text, rest) := by
  induction text with
  | nil =>
    cases rest with
    | nil => simp [quoted?]
    | cons d rest =>
      have hd : d ≠ quote := fun h => hrest (congrArg some h)
      simp [quoted?, hd]
  | cons c text ih =>
    rw [List.flatMap_cons, List.append_assoc, h _ _ (by simp), ih, Option.map_some]

theorem encodes_double (quote : Char) :
    Encodes quote false fun c => if c = quote then [c, c] else [c] := by
  intro c rest hrest
  dsimp only
  by_cases h : c = quote
  · subst h
    rw [if_pos rfl]
    exact quoted?_quote _ _ _
  · rw [if_neg h]
    exact quoted?_of_ne h rfl hrest

/-- Texts are written in MySQL with escapes and elsewhere without. -/
theorem encodes_textChar (dialect : Dialect) :
    Encodes '\'' (dialect = .mysql) dialect.textChar := by
  intro c rest hrest
  unfold Dialect.textChar
  split
  case isTrue h =>
    subst h
    exact quoted?_quote _ _ _
  case isFalse hquote =>
    split
    case isFalse hother =>
      rw [decide_eq_false hother]
      exact quoted?_of_ne hquote rfl hrest
    case isTrue hmysql =>
      rw [decide_eq_true hmysql]
      have hne : '\'' ≠ '\\' := by decide
      split
      case isTrue h => subst h; exact quoted?_escape hne rfl rest
      case isFalse hescape =>
        split
        case isTrue h => subst h; exact quoted?_escape hne rfl rest
        split
        case isTrue h => subst h; exact quoted?_escape hne rfl rest
        split
        case isTrue h => subst h; exact quoted?_escape hne rfl rest
        split
        case isTrue h => subst h; exact quoted?_escape hne rfl rest
        case isFalse => exact quoted?_of_ne hquote (by simpa using hescape) hrest

theorem Follows.head?_ne (h : Follows rest) {quote : Char}
    (hquote : quote ≠ ' ' ∧ quote ≠ ',' ∧ quote ≠ ')') : rest.head? ≠ some quote := by
  intro hhead
  obtain rfl | rfl | rfl := h quote hhead
  · exact hquote.1 rfl
  · exact hquote.2.1 rfl
  · exact hquote.2.2 rfl

/-- **A name reads as itself.** -/
theorem reads_name (dialect : Dialect) (name : String) :
    Reads dialect (dialect.name name).toList [.name name] := by
  rw [Dialect.toList_name, Text.quoted, List.cons_append]
  refine reads_lexeme (by cases dialect <;> rfl) (by cases dialect <;> rfl) fun rest hrest => ?_
  have hquote : dialect.quote ≠ '\'' := by cases dialect <;> decide
  have hread := quoted?_flatMap (encodes_double dialect.quote) name.toList
    (hrest.head?_ne (by cases dialect <;> decide))
  rw [lexeme?, if_neg hquote, if_pos rfl, Text.double, List.append_assoc, List.singleton_append,
    hread, Option.map_some, String.ofList_toList]

theorem reads_text (dialect : Dialect) (text : String) :
    Reads dialect (dialect.textLiteral text.toList) [.value (.text text)] := by
  rw [Dialect.textLiteral, List.cons_append]
  refine reads_lexeme rfl rfl fun rest hrest => ?_
  have hread := quoted?_flatMap (encodes_textChar dialect) text.toList
    (hrest.head?_ne (by decide))
  rw [lexeme?, if_pos rfl, List.append_assoc, List.singleton_append, hread, Option.map_some,
    String.ofList_toList]

/-! ## Bytes -/

theorem hexValue?_digitChar :
    ∀ d < 16, hexValue? (Nat.digitChar d).toUpper = some d ∧ (Nat.digitChar d).toUpper ≠ '\'' := by
  decide

theorem bytes?_hexDigits (bytes : List UInt8) :
    bytes? (Dialect.hexDigits bytes) = some bytes := by
  induction bytes with
  | nil => rfl
  | cons b bytes ih =>
    have hb := b.toNat_lt
    have hhigh := (hexValue?_digitChar (b.toNat / 16) (by omega)).1
    have hlow := (hexValue?_digitChar (b.toNat % 16) (by omega)).1
    have hbyte : 16 * (b.toNat / 16) + b.toNat % 16 = b.toNat := Nat.div_add_mod _ _
    have hcons : Dialect.hexDigits (b :: bytes) = (Nat.digitChar (b.toNat / 16)).toUpper ::
        (Nat.digitChar (b.toNat % 16)).toUpper :: Dialect.hexDigits bytes := rfl
    simp only [hcons, bytes?, hhigh, hlow, ih, Option.bind_eq_bind, Option.bind_some, hbyte,
      UInt8.ofNat_toNat]
    rfl

theorem hexDigits_ne_quote (bytes : List UInt8) : ∀ c ∈ Dialect.hexDigits bytes, c ≠ '\'' := by
  intro c hc
  obtain ⟨b, -, hc⟩ := List.mem_flatMap.1 hc
  have hb := b.toNat_lt
  obtain ⟨d, hd, rfl⟩ := List.mem_map.1 hc
  obtain rfl | rfl : d = Nat.digitChar (b.toNat / 16) ∨ d = Nat.digitChar (b.toNat % 16) := by
    simpa using hd
  · exact (hexValue?_digitChar _ (by omega)).2
  · exact (hexValue?_digitChar _ (by omega)).2

theorem reads_bytes (dialect : Dialect) (bytes : List UInt8) :
    Reads dialect (Dialect.bytesLiteral bytes) [.value (.bytes bytes)] := by
  rw [Dialect.bytesLiteral, List.cons_append, List.cons_append]
  refine reads_lexeme rfl rfl fun rest hrest => ?_
  have hquote : 'X' ≠ dialect.quote := by cases dialect <;> decide
  have hplain : (Dialect.hexDigits bytes).flatMap (fun c => if c = '\'' then [c, c] else [c]) =
      Dialect.hexDigits bytes := by
    rw [List.flatMap_congr fun c hc => if_neg (hexDigits_ne_quote bytes c hc)]
    simp
  have hread := quoted?_flatMap (encodes_double '\'') (Dialect.hexDigits bytes)
    (hrest.head?_ne (by decide))
  rw [hplain] at hread
  rw [lexeme?, if_neg (by decide), if_neg hquote, if_pos ⟨rfl, rfl⟩]
  simp only [List.append_assoc, List.nil_append, List.cons_append, List.tail_cons, hread,
    Option.bind_some, bytes?_hexDigits, Option.map_some]

/-! ## Words -/

theorem isDigit_of_isAlpha {c : Char} (h : c.isAlpha = true) : c.isDigit = false := by
  change (decide ('A'.val ≤ c.val ∧ c.val ≤ 'Z'.val) ||
    decide ('a'.val ≤ c.val) && decide (c.val ≤ 'z'.val)) = true at h
  simp only [Char.isDigit, Bool.or_eq_true, Bool.and_eq_true, decide_eq_true_eq,
    UInt32.le_iff_toNat_le, ge_iff_le, Bool.and_eq_false_iff, decide_eq_false_iff_not] at h ⊢
  have : '0'.val.toNat = 48 := rfl
  have : '9'.val.toNat = 57 := rfl
  have : 'A'.val.toNat = 65 := rfl
  have : 'a'.val.toNat = 97 := rfl
  omega

theorem ne_of_class {p : Char → Bool} {c d : Char} (hc : p c = true) (hd : p d = false) :
    c ≠ d := by
  rintro rfl
  rw [hc] at hd
  cases hd

/-- A character of a class that has no blanks and no marks. -/
theorem plain_of_class {p : Char → Bool} {c : Char}
    (hp : [' ', '\t', '\n', '\r', '(', ')', ',', '='].any p = false) (hc : p c = true) :
    isBlank c = false ∧ isMark c = false := by
  have hne : ∀ d ∈ [' ', '\t', '\n', '\r', '(', ')', ',', '='], c ≠ d :=
    fun d hd => ne_of_class hc (Bool.eq_false_iff.2 (List.any_eq_false.1 hp d hd))
  simp only [List.forall_mem_cons, List.not_mem_nil, false_implies, implies_true, and_true] at hne
  simp [isBlank, isMark, hne]

/-- A word reads as itself, or as the value it names. -/
theorem reads_word {c : Char} (hc : c.isAlpha = true) (hcs : cs.all isWordChar = true) :
    Reads dialect (c :: cs) [wordToken (c :: cs)] := by
  have hne {d : Char} (hd : d.isAlpha = false) : c ≠ d := ne_of_class hc hd
  obtain ⟨hblank, hmark⟩ := plain_of_class rfl hc
  refine reads_lexeme hblank hmark fun rest hrest => ?_
  have hrestWord : ∀ d ∈ rest.head?, isWordChar d = false := by
    intro d hd
    obtain rfl | rfl | rfl := hrest d hd
    all_goals rfl
  obtain ⟨htake, hdrop⟩ := Decimal.span_append (List.all_eq_true.1 hcs) hrestWord
  have hbytes : ¬(c = 'X' ∧ (cs ++ rest).head? = some '\'') := by
    rintro ⟨-, hhead⟩
    cases cs with
    | nil => exact hrest.head?_ne (by decide) hhead
    | cons d cs =>
      have := List.all_eq_true.1 hcs d List.mem_cons_self
      rw [Option.some.inj hhead] at this
      cases this
  have hquote : c ≠ dialect.quote := hne (by cases dialect <;> rfl)
  rw [lexeme?, if_neg (hne rfl), if_neg hquote, if_neg hbytes, isDigit_of_isAlpha hc,
    if_neg Bool.false_ne_true, if_neg fun h => hne rfl h.1, if_pos hc, htake, hdrop]

/-! ## Numbers -/

variable {n : Decimal.Numeral}

theorem Follows.isDigit (h : Follows rest) : ∀ c ∈ rest.head?, c.isDigit = false := by
  intro c hc
  obtain rfl | rfl | rfl := h c hc
  all_goals rfl

theorem takeExponent_text (hn : n.WellFormed) (hrest : Follows rest) :
    takeExponent (Decimal.Numeral.exponentText n.exponent ++ rest) = (n.exponent, rest) := by
  cases hexponent : n.exponent with
  | none =>
    rw [Decimal.Numeral.exponentText, List.nil_append]
    cases rest with
    | nil => rfl
    | cons c rest =>
      obtain rfl | rfl | rfl := hrest c rfl
      all_goals rfl
  | some e =>
    obtain ⟨sign, digits⟩ := e
    obtain ⟨hne, hdigits, hsign⟩ := hn.exponent sign digits hexponent
    obtain ⟨d, ds, rfl⟩ := List.exists_cons_of_ne_nil hne
    have hd : d.isDigit = true := hdigits d List.mem_cons_self
    have htakeSign : takeSign (sign.toList ++ (d :: ds ++ rest)) = (sign, d :: ds ++ rest) := by
      obtain rfl | rfl | rfl := hsign
      · unfold takeSign
        split
        · rename_i heq
          cases heq
          cases hd
        · rename_i heq
          cases heq
          cases hd
        · rfl
      · rfl
      · rfl
    obtain ⟨htake, hdrop⟩ := Decimal.span_append hdigits hrest.isDigit
    rw [Decimal.Numeral.exponentText, List.cons_append, List.cons_append, List.append_assoc,
      takeExponent, htakeSign]
    dsimp only
    rw [htake, hdrop, if_pos ⟨.inl rfl, by simpa using hd⟩]

theorem exponentText_head (hrest : Follows rest) :
    ∀ c ∈ (Decimal.Numeral.exponentText n.exponent ++ rest).head?, c.isDigit = false ∧ c ≠ '.' := by
  cases n.exponent with
  | none =>
    intro c hc
    obtain rfl | rfl | rfl := hrest c hc
    all_goals decide
  | some e =>
    rintro _ ⟨⟩
    decide

theorem takeFraction_text (hn : n.WellFormed) (hrest : Follows rest) :
    takeFraction (n.tail ++ rest) =
      (n.fraction, Decimal.Numeral.exponentText n.exponent ++ rest) := by
  have hhead := exponentText_head (n := n) hrest
  unfold Decimal.Numeral.tail
  cases hfraction : n.fraction with
  | none =>
    dsimp only
    unfold takeFraction
    split
    · rename_i heq
      rw [heq] at hhead
      exact absurd rfl (hhead '.' rfl).2
    · rfl
  | some fraction =>
    obtain ⟨htake, hdrop⟩ := Decimal.span_append (hn.fraction fraction hfraction)
      fun c hc => (hhead c hc).1
    dsimp only
    rw [List.cons_append, List.cons_append, List.append_assoc, takeFraction, htake, hdrop]

theorem takeNumeral_text (hn : n.WellFormed) (hrest : Follows rest) :
    takeNumeral (n.text ++ rest) = (n, rest) := by
  have htail : ∀ c ∈ (n.tail ++ rest).head?, c.isDigit = false := by
    unfold Decimal.Numeral.tail
    cases n.fraction with
    | none => exact fun c hc => (exponentText_head hrest c hc).1
    | some fraction =>
      rintro _ ⟨⟩
      rfl
  obtain ⟨htake, hdrop⟩ := Decimal.span_append hn.whole htail
  rw [takeNumeral, Decimal.Numeral.text, List.append_assoc, hdrop, takeFraction_text hn hrest]
  dsimp only
  rw [takeExponent_text hn hrest, htake]

/-- A numeral, with a minus sign or without, reads as the number it stands for. -/
theorem reads_number (dialect : Dialect) (hn : n.WellFormed) {negative : Bool} {v : Value}
    (hv : numberValue? negative n = some v) :
    Reads dialect ((if negative then ['-'] else []) ++ n.text) [.value v] := by
  obtain ⟨c, cs, hwhole⟩ := List.exists_cons_of_ne_nil hn.whole_ne_nil
  have hc : c.isDigit = true := hn.whole c (by simp [hwhole])
  have htext : n.text = c :: (cs ++ n.tail) := by simp [Decimal.Numeral.text, hwhole]
  have hnumber {rest : List Char} (hrest : Follows rest) :
      number? negative (n.text ++ rest) = some (.value v, rest) := by
    rw [number?, takeNumeral_text hn hrest]
    dsimp only
    rw [hv, Option.map_some]
  have hne {d : Char} (hd : d.isDigit = false) : c ≠ d := ne_of_class hc hd
  cases negative with
  | true =>
    refine reads_lexeme rfl rfl fun rest hrest => ?_
    rw [lexeme?, if_neg (by decide), if_neg (by cases dialect <;> decide),
      if_neg fun h => absurd h.1 (by decide), if_neg (by decide),
      if_pos ⟨rfl, by simp [htext, hc]⟩]
    exact hnumber hrest
  | false =>
    obtain ⟨hblank, hmark⟩ := plain_of_class rfl hc
    rw [if_neg Bool.false_ne_true, List.nil_append, htext]
    refine reads_lexeme hblank hmark fun rest hrest => ?_
    rw [lexeme?, if_neg (hne rfl), if_neg (hne (by cases dialect <;> rfl)),
      if_neg fun h => hne rfl h.1, if_pos hc, ← List.cons_append, ← htext]
    exact hnumber hrest

theorem int64?_toInt (n : Int64) : int64? n.toInt = some n := by
  have hlow := n.le_toInt
  have hhigh := n.toInt_lt
  have hfits : fits 63 n.toInt = true := by
    rw [fits, Bool.and_eq_true, decide_eq_true_eq, decide_eq_true_eq]
    exact ⟨hlow, hhigh⟩
  rw [int64?, if_pos hfits, Int64.ofInt_toInt]

theorem toList_toString_int (i : ℤ) :
    (toString i).toList = (if i < 0 then ['-'] else []) ++ Nat.toDigits 10 i.natAbs := by
  cases i with
  | ofNat n =>
    rw [if_neg (by simp)]
    exact Nat.toList_repr
  | negSucc n =>
    rw [if_pos (Int.negSucc_lt_zero n)]
    change ("-" ++ (n + 1).repr).toList = _
    rw [String.toList_append, Nat.toList_repr]
    rfl

theorem reads_int (dialect : Dialect) (i : Int64) :
    Reads dialect (toString i.toInt).toList [.value (.int i)] := by
  have hn : Decimal.Numeral.WellFormed ⟨Nat.toDigits 10 i.toInt.natAbs, none, none⟩ :=
    ⟨Nat.toDigits_ne_nil, fun c hc => Nat.isDigit_of_mem_toDigits (by decide) le_rfl hc, by simp,
      by simp⟩
  have hv : numberValue? (decide (i.toInt < 0)) ⟨Nat.toDigits 10 i.toInt.natAbs, none, none⟩ =
      some (.int i) := by
    have hsize : (if i.toInt < 0 then -(i.toInt.natAbs : ℤ) else i.toInt.natAbs) = i.toInt := by
      split <;> omega
    simp only [numberValue?, Option.isNone_none, Bool.and_self, if_true,
      Decimal.natOfDigits_toDigits, decide_eq_true_eq, hsize, int64?_toInt, Option.map_some]
  have := reads_number dialect hn hv
  rw [toList_toString_int]
  simpa [Decimal.Numeral.text, Decimal.Numeral.tail, Decimal.Numeral.exponentText] using this

theorem reads_double (dialect : Dialect) {x : Binary64} (hx : x.isFinite = true) :
    Reads dialect (Dialect.doubleLayout.text x).toList [.value (.double x)] := by
  obtain ⟨n, htext, hn, hvalue, hpoint⟩ := Dialect.doubleLayout.text_spells hx
  have hv : numberValue? x.isNegative n = some (.double x) := by
    rw [numberValue?, if_neg, hvalue]
    rw [Bool.and_eq_true, Option.isNone_iff_eq_none, Option.isNone_iff_eq_none]
    rintro ⟨hfraction, hexponent⟩
    simpa [hfraction, hexponent] using hpoint rfl
  rw [htext]
  exact reads_number dialect hn hv

end Lexis

/-! ## Literals -/

open Lexis

namespace Dialect

/-- The value as which a literal is read. -/
def known (dialect : Dialect) : Value → Value
  | .bool b => if dialect = .sqlite then .int (if b then 1 else 0) else .bool b
  | v => v

/-- Does a value have a literal? -/
def hasLiteral : Value → Bool
  | .double x => x.isFinite
  | _ => true

theorem literal_eq_error (dialect : Dialect) {v : Value} (hv : hasLiteral v = false) :
    ∃ x : Binary64, v = .double x ∧ x.isFinite = false ∧ dialect.literal v =
      .error (.type ⟨"finite double", Decimal.plainLayout.text x, none⟩) := by
  cases v with
  | double x =>
    have hx : x.isFinite = false := hv
    refine ⟨x, rfl, hx, ?_⟩
    rw [literal, hx, if_neg Bool.false_ne_true]
  | _ => cases hv

end Dialect

/-- **A literal reads as its value.** -/
theorem reads_literal (dialect : Dialect) {v : Value} (hv : Dialect.hasLiteral v = true) :
    ∃ text, dialect.literal v = .ok text ∧
      Reads dialect text.toList [.value (dialect.known v)] := by
  cases v with
  | null => exact ⟨_, rfl, reads_word rfl rfl⟩
  | bool b =>
    cases dialect with
    | sqlite =>
      cases b with
      | false => exact ⟨_, rfl, reads_int .sqlite 0⟩
      | true => exact ⟨_, rfl, reads_int .sqlite 1⟩
    | postgres => cases b <;> exact ⟨_, rfl, reads_word rfl rfl⟩
    | mysql => cases b <;> exact ⟨_, rfl, reads_word rfl rfl⟩
  | int i => exact ⟨_, rfl, reads_int dialect i⟩
  | double x => exact ⟨_, if_pos hv, reads_double dialect hv⟩
  | text s =>
    refine ⟨_, rfl, ?_⟩
    rw [String.toList_ofList]
    exact reads_text dialect s
  | bytes bytes =>
    refine ⟨_, rfl, ?_⟩
    rw [String.toList_ofList]
    exact reads_bytes dialect bytes

end LinkedRows
