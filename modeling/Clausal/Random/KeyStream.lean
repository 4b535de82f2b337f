/-! # The ChaCha key stream with eight rounds

A stream of 32-bit words that depends on a 64-bit seed.  The seed is expanded to a key of eight
words; the key and a block counter fill a matrix of four rows of four words; eight rounds mix
the matrix, which is then added to its initial state and gives the next sixteen words of the
stream. -/

namespace Clausal.Random

/-- A word rotated to the left. -/
def rotateLeft (x n : UInt32) : UInt32 := (x <<< n) ||| (x >>> (32 - n))

/-- A word rotated to the right. -/
def rotateRight (x n : UInt32) : UInt32 := (x >>> n) ||| (x <<< (32 - n))

/-! ### Rows and matrices -/

/-- Four words side by side. -/
structure Row where
  w0 : UInt32
  w1 : UInt32
  w2 : UInt32
  w3 : UInt32
deriving DecidableEq

namespace Row

/-- Combines two rows word by word. -/
def zipWith (f : UInt32 → UInt32 → UInt32) (r s : Row) : Row :=
  ⟨f r.w0 s.w0, f r.w1 s.w1, f r.w2 s.w2, f r.w3 s.w3⟩

/-- The sum, word by word. -/
def add (r s : Row) : Row := zipWith (· + ·) r s

/-- The exclusive or, word by word, with every word rotated to the left. -/
def xorRotate (n : UInt32) (r s : Row) : Row := zipWith (fun x y => rotateLeft (x ^^^ y) n) r s

/-- The row whose first word has become the last. -/
def shift (r : Row) : Row := ⟨r.w1, r.w2, r.w3, r.w0⟩

/-- The words of a row. -/
def words (r : Row) : List UInt32 := [r.w0, r.w1, r.w2, r.w3]

end Row

/-- Four rows of four words. -/
structure Matrix where
  a : Row
  b : Row
  c : Row
  d : Row
deriving DecidableEq

namespace Matrix

/-- The sum, word by word. -/
def add (m n : Matrix) : Matrix := ⟨m.a.add n.a, m.b.add n.b, m.c.add n.c, m.d.add n.d⟩

/-- Mixes each column. -/
def mixColumns (m : Matrix) : Matrix :=
  let a₁ := m.a.add m.b
  let d₁ := m.d.xorRotate 16 a₁
  let c₁ := m.c.add d₁
  let b₁ := m.b.xorRotate 12 c₁
  let a₂ := a₁.add b₁
  let d₂ := d₁.xorRotate 8 a₂
  let c₂ := c₁.add d₂
  let b₂ := b₁.xorRotate 7 c₂
  ⟨a₂, b₂, c₂, d₂⟩

/-- Moves the diagonals into the columns. -/
def slant (m : Matrix) : Matrix := ⟨m.a, m.b.shift, m.c.shift.shift, m.d.shift.shift.shift⟩

/-- Moves the columns back into the diagonals. -/
def unslant (m : Matrix) : Matrix := ⟨m.a, m.b.shift.shift.shift, m.c.shift.shift, m.d.shift⟩

/-- Two rounds: the columns are mixed, and then the diagonals. -/
def doubleRound (m : Matrix) : Matrix := m.mixColumns.slant.mixColumns.unslant

/-- The words of a matrix, row after row. -/
def words (m : Matrix) : List UInt32 := m.a.words ++ m.b.words ++ m.c.words ++ m.d.words

end Matrix

/-! ### Key and stream -/

/-- A key of eight words, in two rows. -/
structure Key where
  low : Row
  high : Row
deriving DecidableEq

namespace Key

/-- The next state of the generator that expands a seed. -/
def nextState (s : UInt64) : UInt64 := s * 6364136223846793005 + 11634580027462260723

/-- The word that a state of this generator gives. -/
def wordOf (s : UInt64) : UInt32 :=
  rotateRight (((s >>> 18) ^^^ s) >>> 27).toUInt32 (s >>> 59).toUInt32

/-- The row of the words that the four states after `s` give. -/
def rowAfter (s : UInt64) : Row :=
  let s₁ := nextState s
  let s₂ := nextState s₁
  let s₃ := nextState s₂
  let s₄ := nextState s₃
  ⟨wordOf s₁, wordOf s₂, wordOf s₃, wordOf s₄⟩

/-- The key of a seed. -/
def ofSeed (seed : UInt64) : Key :=
  ⟨rowAfter seed, rowAfter (nextState (nextState (nextState (nextState seed))))⟩

/-- The matrix before the rounds: four constants, the key, the counter of blocks and zeros. -/
def initial (key : Key) (block : UInt64) : Matrix :=
  ⟨⟨0x61707865, 0x3320646E, 0x79622D32, 0x6B206574⟩, key.low, key.high,
    ⟨block.toUInt32, (block >>> 32).toUInt32, 0, 0⟩⟩

/-- The words of a block. -/
def block (key : Key) (number : UInt64) : List UInt32 :=
  let start := key.initial number
  (start.doubleRound.doubleRound.doubleRound.doubleRound.add start).words

/-- The word at a place of the stream. -/
def wordAt (key : Key) (place : Nat) : UInt32 :=
  (key.block (UInt64.ofNat (place / 16)))[place % 16]?.getD 0

end Key

/-- The key stream of a seed. -/
def keyStream (seed : UInt64) : Nat → UInt32 := (Key.ofSeed seed).wordAt

end Clausal.Random
