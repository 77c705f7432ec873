/-
# Magnitudes

Powers of two and ten, and the ranges of machine integers: `fits k` holds of the whole numbers
that a signed integer of `k + 1` bits can be.
-/

namespace LinkedRows

/-- The `n`-th power of two. -/
def pow2 (n : Nat) : Nat := Nat.pow 2 n

/-- The `n`-th power of ten. -/
def pow10 (n : Nat) : Nat := Nat.pow 10 n

/-- Is a number within one sign bit and `k` further bits? -/
def fits (k : Nat) (n : Int) : Bool := -pow2 k ≤ n && n < pow2 k

/-- The 64-bit integer with a value, if there is one. -/
def int64? (n : Int) : Option Int64 := if fits 63 n then some (Int64.ofInt n) else none

end LinkedRows
