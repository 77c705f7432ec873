/-
# Quoted texts

A text between two quotes, in which every quote is written twice.  Taking the quotes off and reading
pairs of them as one gives the text again (`undouble_double`).
-/

namespace LinkedRows
namespace Text

/-- Every quote twice. -/
def double (quote : Char) (cs : List Char) : List Char :=
  cs.flatMap fun c => if c = quote then [c, c] else [c]

/-- The text between two quotes. -/
def quoted (quote : Char) (cs : List Char) : List Char := quote :: double quote cs ++ [quote]

/-- Pairs of quotes become single ones, from the left. -/
def undouble (quote : Char) : List Char → List Char
  | c :: d :: cs =>
    if c = quote ∧ d = quote then c :: undouble quote cs else c :: undouble quote (d :: cs)
  | cs => cs

theorem undouble_cons_of_ne {quote c : Char} (h : c ≠ quote) (cs : List Char) :
    undouble quote (c :: cs) = c :: undouble quote cs := by
  cases cs with
  | nil => rfl
  | cons d cs => simp [undouble, h]

theorem undouble_double (quote : Char) (cs : List Char) :
    undouble quote (double quote cs) = cs := by
  induction cs with
  | nil => rfl
  | cons c cs ih =>
    by_cases h : c = quote
    · subst h
      simpa [double, undouble] using ih
    · simpa [double, h, undouble_cons_of_ne h] using ih

end Text
end LinkedRows
