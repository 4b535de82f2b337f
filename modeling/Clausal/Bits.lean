/-! # Bits of a number

The least significant bit comes first, so the bit of place `i` has the weight `2 ^ i`. -/

namespace Clausal.Bits

/-- The number whose bits are given. -/
def toNat : List Bool → Nat
  | [] => 0
  | b :: bs => b.toNat + 2 * toNat bs

/-- The number of vectors with `n` bits. -/
def count (n : Nat) : Nat := Nat.pow 2 n

/-- Each bit of the number is the one given for its place. -/
theorem testBit_toNat (bs : List Bool) (i : Nat) :
    (toNat bs).testBit i = (bs[i]?).getD false := by
  induction bs generalizing i with
  | nil => simp [toNat]
  | cons b bs ih =>
    cases i with
    | zero => cases b <;> simp [toNat, Nat.testBit_zero]
    | succ i =>
      have : (b.toNat + 2 * toNat bs) / 2 = toNat bs := by
        have := Bool.toNat_lt b
        omega
      simp [toNat, Nat.testBit_succ, this, ih]

end Clausal.Bits
