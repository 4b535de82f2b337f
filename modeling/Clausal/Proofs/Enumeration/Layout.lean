import Mathlib
import Clausal.Proofs.Enumeration.Search
import Clausal.Proofs.MachineWord

/-! # The layout of the words

Place `i` of a space is bit `i % 31` of word `i / 31`.  The words of a space have the bits of all
its places and no others (`testBit_of_words`); so their set bits are the atoms, one bit for each
(`bijOn_position?`).

The same words come about bit by bit, in machine words that begin with zero (`layOut?`).  Each place
finds its word there, and setting its bit adds this place to those that are set (`exists_setBit?`);
after all places the machine words are those of the space (`layOut?_eq_some`). -/

namespace Clausal.Space

variable {space : Space} {words : List UInt32} {place bound : ℕ} {a : Atom}

/-! ### Places -/

theorem div_place {w j : ℕ} (hj : j < wordBits) : (wordBits * w + j) / wordBits = w := by
  rw [Nat.mul_add_div (by decide), Nat.div_eq_of_lt hj, Nat.add_zero]

theorem mod_place {w j : ℕ} (hj : j < wordBits) : (wordBits * w + j) % wordBits = j := by
  rw [Nat.mul_add_mod, Nat.mod_eq_of_lt hj]

/-- The word of each place is there. -/
theorem div_lt_wordCount (h : place < space.atoms.size) : place / wordBits < space.wordCount := by
  rw [wordCount]
  unfold wordBits
  omega

/-! ### Bits of the words -/

theorem length_words (space : Space) : space.words.length = space.wordCount := by
  rw [words, List.length_map, List.length_range]

theorem wordCount_eq (space : Space) : space.wordCount = max 1 (space.atoms.size ⌈/⌉ wordBits) := by
  rw [wordCount, Nat.ceilDiv_eq_add_pred_div]
  rfl

/-- The bits that are set in the words of a space are those of its places. -/
theorem testBit_of_words {w word : ℕ} (h : space.words[w]? = some word) (j : ℕ) :
    word.testBit j = decide (j < wordBits ∧ wordBits * w + j < space.atoms.size) := by
  rw [words, List.getElem?_map] at h
  obtain ⟨v, hv, rfl⟩ := Option.map_eq_some_iff.mp h
  obtain ⟨-, rfl⟩ := List.getElem?_eq_some_iff.mp hv
  rw [List.getElem_range, Bits.count, Nat.pow_eq, Nat.testBit_two_pow_sub_one, decide_eq_decide]
  omega

/-! ### Atoms and their bits -/

/-- The number of the word that has the bit of an atom, and the place of the bit in it. -/
def position? (space : Space) (a : Atom) : Option (ℕ × ℕ) :=
  (space.bit? a).map fun place => (place / wordBits, place % wordBits)

/-- The bits that are set, as numbers of words and places in them. -/
def setBits (space : Space) : Set (ℕ × ℕ) :=
  {p | ∃ word, space.words[p.1]? = some word ∧ word.testBit p.2 = true}

theorem bit?_eq_some_iff : space.bit? a = some place ↔ space.atoms.toList[place]? = some a := by
  rw [bit?, OrderedSet.indexOf?, List.idxOf?_eq_some_iff, List.getElem?_eq_some_iff]
  constructor
  · rintro ⟨hlt, ha, -⟩
    exact ⟨hlt, ha⟩
  · rintro ⟨hlt, ha⟩
    refine ⟨hlt, ha, fun j hj hja => ?_⟩
    have hsame := (space.atoms.nodup.getElem_inj_iff).mp (hja.trans ha.symm)
    omega

theorem mem_setBits_iff {w j : ℕ} :
    (w, j) ∈ space.setBits ↔ j < wordBits ∧ wordBits * w + j < space.atoms.size := by
  constructor
  · rintro ⟨word, hword, hbit⟩
    rw [testBit_of_words hword] at hbit
    exact of_decide_eq_true hbit
  · rintro ⟨hj, hplace⟩
    have hw : w < space.words.length := by
      have hlt := div_lt_wordCount hplace
      rwa [div_place hj, ← length_words] at hlt
    have hword : space.words[w]? = some space.words[w] := List.getElem?_eq_getElem hw
    exact ⟨_, hword, by rw [testBit_of_words hword]; exact decide_eq_true ⟨hj, hplace⟩⟩

/-- An atom of the space is at some place, which has a bit. -/
theorem exists_position? (ha : a ∈ space.atoms) :
    ∃ place, space.atoms.toList[place]? = some a ∧
      space.position? a = some (place / wordBits, place % wordBits) ∧
      (place / wordBits, place % wordBits) ∈ space.setBits := by
  obtain ⟨place, hplace⟩ := List.mem_iff_getElem?.mp ha
  have hlt : place < space.atoms.size := (List.getElem?_eq_some_iff.mp hplace).1
  refine ⟨place, hplace, by rw [position?, bit?_eq_some_iff.mpr hplace]; rfl, ?_⟩
  rw [mem_setBits_iff, Nat.div_add_mod]
  exact ⟨Nat.mod_lt _ (by decide), hlt⟩

/-- The atoms of a space are in bijection with the bits that are set in its words. -/
theorem bijOn_position? (space : Space) :
    Set.BijOn space.position? {a | a ∈ space.atoms} (some '' space.setBits) := by
  refine ⟨fun a ha => ?_, fun a ha b hb hab => ?_, ?_⟩
  · obtain ⟨place, -, hposition, hset⟩ := exists_position? ha
    exact ⟨_, hset, hposition.symm⟩
  · obtain ⟨i, hi, hposition, -⟩ := exists_position? ha
    obtain ⟨k, hk, hposition', -⟩ := exists_position? hb
    rw [hposition, hposition', Option.some.injEq, Prod.mk.injEq] at hab
    have hik : i = k := by rw [← Nat.div_add_mod i wordBits, hab.1, hab.2, Nat.div_add_mod]
    rw [hik, hk] at hi
    exact (Option.some.inj hi).symm
  · rintro _ ⟨⟨w, j⟩, hset, rfl⟩
    obtain ⟨hj, hlt⟩ := mem_setBits_iff.mp hset
    obtain ⟨a, hplace⟩ : ∃ a, space.atoms.toList[wordBits * w + j]? = some a :=
      ⟨_, List.getElem?_eq_getElem hlt⟩
    refine ⟨a, List.mem_of_getElem? hplace, ?_⟩
    rw [position?, bit?_eq_some_iff.mpr hplace, Option.map_some, div_place hj, mod_place hj]

/-! ### Laying out bit by bit -/

/-- Sets the bit of a place, if the word of the place is there. -/
def setBit? (words : List UInt32) (place : ℕ) : Option (List UInt32) :=
  words[place / wordBits]?.map fun word =>
    words.set (place / wordBits) (word ||| 1 <<< UInt32.ofNat (place % wordBits))

/-- The machine words of a space: zeros in which the bits of all its places are set in turn. -/
def layOut? (space : Space) : Option (List UInt32) :=
  (List.range space.atoms.size).foldlM setBit? (List.replicate space.wordCount 0)

/-- The bits that are set in machine words are those of the places below a bound. -/
def Filled (words : List UInt32) (bound : ℕ) : Prop :=
  ∀ w word, words[w]? = some word →
    ∀ j, word.toNat.testBit j = decide (j < wordBits ∧ wordBits * w + j < bound)

theorem filled_zeros (count : ℕ) : Filled (List.replicate count 0) 0 := by
  intro w word hword j
  rw [List.eq_of_mem_replicate (List.mem_of_getElem? hword)]
  simp

/-- Setting the bit of the next place fills the words one place further. -/
theorem exists_setBit? (hlt : bound / wordBits < words.length) (hfilled : Filled words bound) :
    ∃ next, setBit? words bound = some next ∧ next.length = words.length ∧
      Filled next (bound + 1) := by
  have hword : words[bound / wordBits]? = some words[bound / wordBits] :=
    List.getElem?_eq_getElem hlt
  refine ⟨_, by rw [setBit?, hword]; rfl, List.length_set, ?_⟩
  intro w word hset j
  have hplace := Nat.div_add_mod bound wordBits
  rw [List.getElem?_set] at hset
  -- the word of the place gains its bit, and any other is left as it is
  split at hset
  · next hw =>
    subst hw
    obtain rfl := Option.some.inj hset
    have hmod : bound % wordBits < wordBits := Nat.mod_lt _ (by decide)
    rw [UInt32.toNat_or, Nat.testBit_or, MachineWord.toNat_mask (hmod.trans (by decide)),
      Nat.testBit_two_pow, hfilled _ _ hword, ← Bool.decide_or, decide_eq_decide]
    omega
  · next hw =>
    rw [hfilled w word hset, decide_eq_decide]
    refine and_congr_right fun hj => ?_
    have hne : wordBits * w + j ≠ bound := by
      rintro rfl
      exact hw (div_place hj)
    omega

/-- Each of the places finds its word, and after the first of them the words are filled so far. -/
theorem exists_foldlM_setBit? (hbound : bound ≤ space.atoms.size) :
    ∃ words, (List.range bound).foldlM setBit? (List.replicate space.wordCount 0) = some words ∧
      words.length = space.wordCount ∧ Filled words bound := by
  induction bound with
  | zero => exact ⟨_, rfl, List.length_replicate, filled_zeros _⟩
  | succ bound ih =>
    obtain ⟨words, hwords, hlen, hfilled⟩ := ih (Nat.le_of_succ_le hbound)
    have hlt : bound / wordBits < words.length := hlen ▸ div_lt_wordCount hbound
    obtain ⟨next, hnext, hlen', hfilled'⟩ := exists_setBit? hlt hfilled
    refine ⟨next, ?_, hlen'.trans hlen, hfilled'⟩
    rw [List.range_succ, List.foldlM_append, hwords]
    simpa using hnext

theorem Filled.map_toNat (h : Filled words space.atoms.size)
    (hlen : words.length = space.wordCount) : words.map UInt32.toNat = space.words := by
  refine List.ext_getElem (by rw [List.length_map, hlen, length_words]) fun w hw hw' => ?_
  rw [List.getElem_map]
  refine Nat.eq_of_testBit_eq fun j => ?_
  rw [h w _ (List.getElem?_eq_getElem (List.length_map _ ▸ hw)),
    testBit_of_words (List.getElem?_eq_getElem hw')]

theorem layOut?_eq_some (space : Space) :
    ∃ words, space.layOut? = some words ∧ words.map UInt32.toNat = space.words := by
  obtain ⟨words, hwords, hlen, hfilled⟩ := exists_foldlM_setBit? (Nat.le_refl space.atoms.size)
  exact ⟨words, hwords, hfilled.map_toNat hlen⟩

/-- The words of a space, at least one, have a bit for each of its atoms: bit `j` of word `w` is set
exactly for the place `31 * w + j`, if there is an atom at it.  Setting the bits one after the other
never misses a word, and gives the same machine words.  The first word holds all atoms exactly if
they are at most 31. -/
theorem words_lay_out_atoms (space : Space) :
    space.words.length = max 1 (space.atoms.size ⌈/⌉ 31) ∧
    (∀ w word, space.words[w]? = some word →
      ∀ j, word.testBit j = decide (j < 31 ∧ 31 * w + j < space.atoms.size)) ∧
    Set.BijOn space.position? {a | a ∈ space.atoms} (some '' space.setBits) ∧
    (∃ words, space.layOut? = some words ∧ words.map UInt32.toNat = space.words) ∧
    (space.firstWord = .ok (2 ^ space.atoms.size - 1) ↔ space.atoms.size ≤ 31) ∧
    (space.firstWord = .error ⟨space.atoms.size, 31⟩ ↔ 31 < space.atoms.size) := by
  refine ⟨space.length_words.trans space.wordCount_eq, fun w word => testBit_of_words,
    space.bijOn_position?, space.layOut?_eq_some, ⟨fun hok => ?_, firstWord_eq_ok⟩,
    ⟨fun herror => ?_, firstWord_eq_error⟩⟩
  · by_contra hlarge
    rw [firstWord_eq_error (Nat.lt_of_not_le hlarge)] at hok
    cases hok
  · by_contra hsmall
    rw [firstWord_eq_ok (Nat.le_of_not_lt hsmall)] at herror
    cases herror

end Clausal.Space
