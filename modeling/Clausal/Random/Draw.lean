import Clausal.Literal

/-! # Random draws

A draw takes words from a stream, beginning at some place, and says at which place the next draw
begins.

An index below `n` is the high half of a word times `n`.  This favours some indices slightly
unless a second word corrects it, which is taken if the low half is too close to its end. -/

namespace Clausal.Random

/-- A drawn value, and the place in the stream after it. -/
structure Draw (α : Type) where
  value : α
  next : Nat

/-- The number of different 32-bit words. -/
def wordCount : Nat := 0x100000000

/-- An index below `n`. -/
def drawIndex (stream : Nat → UInt32) (n place : Nat) : Draw Nat :=
  let product := (stream place).toNat * n
  let high := product / wordCount
  let low := product % wordCount
  if wordCount - n < low then
    let carry := (stream (place + 1)).toNat * n / wordCount
    ⟨if wordCount ≤ low + carry then high + 1 else high, place + 2⟩
  else ⟨high, place + 1⟩

/-- A drawn index stays below its bound: where the high half is the greatest possible, the low
half is never close enough to its end to be corrected. -/
theorem drawIndex_lt (stream : Nat → UInt32) {n : Nat} (hn : 0 < n) (place : Nat) :
    (drawIndex stream n place).value < n := by
  have hword : (stream place).toNat ≤ 4294967295 :=
    Nat.le_of_lt_succ (UInt32.toNat_lt (stream place))
  have hproduct := Nat.mul_le_mul_right n hword
  have hcount : wordCount = 4294967296 := rfl
  unfold drawIndex
  generalize (stream place).toNat * n = product at hproduct
  dsimp only
  split
  · next hlow =>
    rw [hcount] at hlow
    dsimp only
    split <;> rw [hcount] <;> omega
  · dsimp only
    rw [hcount]
    omega

/-- A sign; the top bit of a word stands for a positive one. -/
def drawPositive (stream : Nat → UInt32) (place : Nat) : Draw Bool :=
  ⟨wordCount / 2 ≤ (stream place).toNat, place + 1⟩

/-- A literal over one of the given atoms. -/
def drawLiteral (stream : Nat → UInt32) (atoms : List Atom) (h : 0 < atoms.length)
    (place : Nat) : Draw Literal :=
  let index := drawIndex stream atoms.length place
  let positive := drawPositive stream index.next
  ⟨⟨atoms.get ⟨index.value, drawIndex_lt stream h place⟩, !positive.value⟩, positive.next⟩

/-- Several draws, one after the other. -/
def drawMany {α : Type} (draw : Nat → Draw α) : Nat → Nat → Draw (List α)
  | 0, place => ⟨[], place⟩
  | count + 1, place =>
    let first := draw place
    let rest := drawMany draw count first.next
    ⟨first.value :: rest.value, rest.next⟩

/-- Three literals over the given atoms. -/
def drawTriple (stream : Nat → UInt32) (atoms : List Atom) (h : 0 < atoms.length)
    (place : Nat) : Draw (List Literal) :=
  drawMany (drawLiteral stream atoms h) 3 place

end Clausal.Random
