import Mathlib
import Clausal.Proofs.Enumeration.Refinement

/-! # Vectors in machine words

In a machine word of 32 bits a vector comes about by setting one bit after the other, and a bit is
read by shifting it to the last place.  Within the capacity no bit is lost on the way
(`testBit_setPlaces`, `isSet_eq_testBit`), so the words are the vectors: an interpretation is
encoded by the word with the bits of its true atoms (`Interpretation.toNat_wordOver`) and decoded
from the bits of a word (`Interpretation.entries_ofVector_toNat`); and a template is filled in by
scattering the bits of a counter over its free places (`Template.toNat_fillWord`).  So the forced
search is the same if it counts down through machine words, from the greatest counter
(`Enumeration.searchForced_eq_searchWords`). -/

namespace Clausal

/-! ### Bits of a machine word -/

namespace MachineWord

variable {places : List ℕ} {place : ℕ}

/-- A word with the bits of several places set in turn. -/
def setPlaces (places : List ℕ) (word : UInt32) : UInt32 :=
  places.foldl (fun word place => word ||| 1 <<< UInt32.ofNat place) word

/-- Whether the bit of a place is set. -/
def isSet (word : UInt32) (place : ℕ) : Bool := (word >>> UInt32.ofNat place) &&& 1 == 1

theorem toNat_ofNat_place (h : place < 32) : (UInt32.ofNat place).toNat = place :=
  UInt32.toNat_ofNat_of_lt' (h.trans (by decide))

theorem toNat_mask (h : place < 32) : ((1 : UInt32) <<< UInt32.ofNat place).toNat = 2 ^ place := by
  have hpow : 2 ^ place < 2 ^ 32 := Nat.pow_lt_pow_right (by decide) h
  rw [UInt32.toNat_shiftLeft, toNat_ofNat_place h, Nat.mod_eq_of_lt h, UInt32.toNat_one,
    Nat.one_shiftLeft, Nat.mod_eq_of_lt hpow]

/-- The bits that are set are the former ones and those of the places. -/
theorem testBit_setPlaces (h : ∀ place ∈ places, place < 32) (word : UInt32) (k : ℕ) :
    (setPlaces places word).toNat.testBit k = (word.toNat.testBit k || decide (k ∈ places)) := by
  induction places generalizing word with
  | nil => simp [setPlaces]
  | cons place places ih =>
    obtain ⟨hplace, hplaces⟩ := List.forall_mem_cons.mp h
    have hstep : setPlaces (place :: places) word =
        setPlaces places (word ||| 1 <<< UInt32.ofNat place) := rfl
    rw [hstep, ih hplaces, UInt32.toNat_or, Nat.testBit_or, toNat_mask hplace, Nat.testBit_two_pow,
      Bool.or_assoc, ← Bool.decide_or]
    simp only [List.mem_cons, eq_comm]

/-- The bits of the elements with a property are set in a word that had none. -/
theorem testBit_setPlaces_findIdxs {α : Type} {as : List α} (h : as.length ≤ wordBits)
    (p : α → Bool) (k : ℕ) :
    (setPlaces (as.findIdxs p) 0).toNat.testBit k = as[k]?.any p := by
  have hplaces : ∀ place ∈ as.findIdxs p, place < 32 := by
    intro place hplace
    have hlt : place < as.length := List.lt_add_of_mem_findIdxs place hplace
    unfold wordBits at h
    omega
  apply Bool.eq_iff_iff.mpr
  rw [testBit_setPlaces hplaces, UInt32.toNat_zero, Nat.zero_testBit, Bool.false_or,
    decide_eq_true_eq]
  by_cases hk : k < as.length
  · rw [List.getElem?_eq_getElem hk, Option.any_some]
    exact List.mem_findIdxs_iff_pos_getElem hk
  · have hnot : k ∉ as.findIdxs p := fun hmem => hk (List.lt_add_of_mem_findIdxs k hmem)
    rw [List.getElem?_eq_none (Nat.le_of_not_lt hk)]
    exact iff_of_false hnot Bool.false_ne_true

theorem isSet_eq_testBit (h : place < 32) (word : UInt32) :
    isSet word place = word.toNat.testBit place := by
  apply Bool.eq_iff_iff.mpr
  rw [isSet, beq_iff_eq, ← UInt32.toNat_inj, UInt32.toNat_and, UInt32.toNat_shiftRight,
    toNat_ofNat_place h, Nat.mod_eq_of_lt h, UInt32.toNat_one, Nat.and_one_is_mod,
    Nat.shiftRight_eq_div_pow, Nat.testBit_eq_decide_div_mod_eq, decide_eq_true_eq]

end MachineWord

open MachineWord

/-! ### Interpretations -/

namespace Interpretation

variable {i : Interpretation} {atoms : OrderedSet Atom}

/-- The word in which the bits of the true atoms are set. -/
def wordOver (i : Interpretation) (atoms : OrderedSet Atom) : UInt32 :=
  setPlaces (atoms.toList.findIdxs fun a => i.get? a == some true) 0

theorem toNat_wordOver (h : atoms.size ≤ wordBits) :
    (i.wordOver atoms).toNat = i.vectorOver atoms := by
  apply Nat.eq_of_testBit_eq
  intro k
  rw [wordOver, testBit_setPlaces_findIdxs h, vectorOver, Bits.testBit_toNat, List.getElem?_map]
  cases atoms.toList[k]? <;> rfl

theorem entries_ofVector_toNat (h : atoms.size ≤ wordBits) (word : UInt32) :
    (ofVector atoms word.toNat).entries =
      atoms.toList.zipIdx.map fun (a, place) => (a, isSet word place) := by
  refine List.map_congr_left fun e he => ?_
  obtain ⟨a, place⟩ := e
  have hlt : place < atoms.size := (List.mem_zipIdx' he).1
  have hplace : place < 32 := by
    unfold wordBits at h
    omega
  show (a, word.toNat.testBit place) = (a, isSet word place)
  rw [isSet_eq_testBit hplace]

end Interpretation

/-! ### Templates -/

namespace Template

variable {t : Template} {place n : ℕ}

/-- The places of the template that are not forced. -/
def freePlaces (t : Template) : List ℕ := t.findIdxs (·.isNone)

/-- The word in which the bits that are forced to be true are set. -/
def trueWord (t : Template) : UInt32 := setPlaces (t.findIdxs (· == some true)) 0

/-- Of the given places those whose bit in a counter is set, the first bit being that of the first
place. -/
def chosen (counter : UInt32) (places : List ℕ) : List ℕ :=
  (places.zipIdx.filter fun e => isSet counter e.2).map Prod.fst

/-- The word in which the bits of a counter stand at the given places. -/
def scatter (counter : UInt32) (places : List ℕ) : UInt32 := setPlaces (chosen counter places) 0

/-- The word with the forced bits of the template, and the bits of a counter at the free places. -/
def fillWord (t : Template) (counter : UInt32) : UInt32 :=
  scatter counter t.freePlaces ||| t.trueWord

/-- The counter in which a bit is set for each free place. -/
def greatestCounter (t : Template) : UInt32 := (1 <<< UInt32.ofNat t.freePlaces.length) - 1

theorem length_freePlaces (t : Template) : t.freePlaces.length = t.free := List.length_findIdxs

theorem fill_cons_some (b : Bool) (rest : Template) (counter : ℕ) :
    fill (some b :: rest) counter = Nat.bit b (fill rest counter) := by
  rw [fill, Nat.bit_val, Nat.add_comm]

theorem fill_cons_none (rest : Template) (counter : ℕ) :
    fill (none :: rest) counter = Nat.bit (counter.testBit 0) (fill rest (counter / 2)) := by
  rw [fill, Nat.bit_val, Nat.add_comm, Nat.toNat_testBit, Nat.pow_zero, Nat.div_one]

/-- The bit of a forced place is the forced one, and that of a free place is the bit of the counter
that is numbered by the free places before it. -/
theorem testBit_fill (t : Template) (counter k : ℕ) :
    (t.fill counter).testBit k =
      match t[k]? with
      | none => false
      | some (some b) => b
      | some none => counter.testBit ((t.take k).countP (·.isNone)) := by
  induction t generalizing counter k with
  | nil => simp [fill]
  | cons o rest ih =>
    cases o with
    | some b =>
      rw [fill_cons_some]
      cases k with
      | zero => simp
      | succ k => simp [Nat.testBit_bit_succ, ih]
    | none =>
      rw [fill_cons_none]
      cases k with
      | zero => simp
      | succ k => simp [ih, Nat.testBit_succ]

theorem freePlaces_cons_some (b : Bool) (rest : Template) :
    freePlaces (some b :: rest) = rest.freePlaces.map (· + 1) := by
  rw [freePlaces, List.findIdxs_cons, if_neg (by simp), List.findIdxs_start]
  rfl

theorem freePlaces_cons_none (rest : Template) :
    freePlaces (none :: rest) = 0 :: rest.freePlaces.map (· + 1) := by
  rw [freePlaces, List.findIdxs_cons, if_pos Option.isNone_none, List.findIdxs_start]
  rfl

/-- Each free place is numbered by the free places before it. -/
theorem getElem?_freePlaces_iff :
    t.freePlaces[n]? = some place ↔
      t[place]? = some none ∧ n = (t.take place).countP (·.isNone) := by
  induction t generalizing n place with
  | nil => simp [freePlaces]
  | cons o rest ih =>
    cases o with
    | some b =>
      rw [freePlaces_cons_some, List.getElem?_map]
      cases place with
      | zero => simp
      | succ place => simp [ih]
    | none =>
      rw [freePlaces_cons_none]
      cases n with
      | zero => cases place <;> simp
      | succ n => cases place <;> simp [ih]

/-- A free place and its number are bits of a machine word. -/
theorem lt_of_getElem?_eq_none (h : t.length ≤ wordBits) (hfree : t[place]? = some none) :
    place < 32 ∧ (t.take place).countP (·.isNone) < 32 := by
  have hlt : place < t.length := (List.getElem?_eq_some_iff.mp hfree).1
  have hle : (t.take place).countP (·.isNone) ≤ (t.take place).length := List.countP_le_length
  rw [List.length_take] at hle
  unfold wordBits at h
  omega

theorem mem_chosen_freePlaces_iff (h : t.length ≤ wordBits) {counter : UInt32} :
    place ∈ chosen counter t.freePlaces ↔
      t[place]? = some none ∧
        counter.toNat.testBit ((t.take place).countP (·.isNone)) = true := by
  simp only [chosen, List.mem_map, List.mem_filter, Prod.exists, exists_and_right, exists_eq_right,
    List.mem_zipIdx_iff_getElem?, getElem?_freePlaces_iff]
  constructor
  · rintro ⟨n, ⟨hfree, rfl⟩, hset⟩
    rw [isSet_eq_testBit (lt_of_getElem?_eq_none h hfree).2] at hset
    exact ⟨hfree, hset⟩
  · rintro ⟨hfree, hset⟩
    rw [← isSet_eq_testBit (lt_of_getElem?_eq_none h hfree).2] at hset
    exact ⟨_, ⟨hfree, rfl⟩, hset⟩

theorem testBit_scatter_freePlaces (h : t.length ≤ wordBits) (counter : UInt32) (k : ℕ) :
    (scatter counter t.freePlaces).toNat.testBit k =
      (decide (t[k]? = some none) && counter.toNat.testBit ((t.take k).countP (·.isNone))) := by
  have hplaces : ∀ place ∈ chosen counter t.freePlaces, place < 32 := fun place hplace =>
    (lt_of_getElem?_eq_none h ((mem_chosen_freePlaces_iff h).mp hplace).1).1
  apply Bool.eq_iff_iff.mpr
  rw [scatter, testBit_setPlaces hplaces, UInt32.toNat_zero, Nat.zero_testBit, Bool.false_or,
    decide_eq_true_eq, mem_chosen_freePlaces_iff h, Bool.and_eq_true, decide_eq_true_eq]

theorem testBit_trueWord (h : t.length ≤ wordBits) (k : ℕ) :
    t.trueWord.toNat.testBit k = t[k]?.any (· == some true) :=
  testBit_setPlaces_findIdxs h _ k

theorem toNat_fillWord (h : t.length ≤ wordBits) (counter : UInt32) :
    (t.fillWord counter).toNat = t.fill counter.toNat := by
  apply Nat.eq_of_testBit_eq
  intro k
  rw [fillWord, UInt32.toNat_or, Nat.testBit_or, testBit_scatter_freePlaces h, testBit_trueWord h,
    testBit_fill]
  match t[k]? with
  | none => simp
  | some none => simp
  | some (some b) => simp

theorem free_lt (h : t.length ≤ wordBits) : t.free < 32 := by
  have hle : t.free ≤ t.length := List.countP_le_length
  unfold wordBits at h
  omega

/-- The counters down from the greatest are the numbers below the count of the free bits. -/
theorem toNat_greatestCounter (h : t.length ≤ wordBits) :
    t.greatestCounter.toNat + 1 = 2 ^ t.free := by
  have hfree : t.freePlaces.length < 32 := t.length_freePlaces ▸ free_lt h
  have hpos : 0 < 2 ^ t.freePlaces.length := Nat.two_pow_pos _
  have hle : (1 : UInt32) ≤ 1 <<< UInt32.ofNat t.freePlaces.length := by
    rw [UInt32.le_iff_toNat_le, toNat_mask hfree]
    exact hpos
  rw [greatestCounter, UInt32.toNat_sub_of_le _ _ hle, toNat_mask hfree, UInt32.toNat_one,
    Nat.sub_add_cancel hpos, length_freePlaces]

theorem toNat_fillWord_ofNat (h : t.length ≤ wordBits) {counter : ℕ}
    (hcounter : counter < 2 ^ t.free) :
    (t.fillWord (UInt32.ofNat counter)).toNat = t.fill counter := by
  have hword : counter < 2 ^ 32 := hcounter.trans (Nat.pow_lt_pow_right (by decide) (free_lt h))
  rw [toNat_fillWord h, UInt32.toNat_ofNat_of_lt' hword]

end Template

/-! ### The forced search -/

/-- Countdowns agree if below the bound they accept the same numbers, and give them the same
names. -/
theorem Countdown.below_congr {α : Type} {p q : ℕ → Bool} {f g : ℕ → α} {bound : ℕ}
    (haccepts : ∀ n < bound, p n = q n) (hname : ∀ n < bound, f n = g n) (visited : ℕ) :
    (below p bound visited).found.map f = (below q bound visited).found.map g ∧
      (below p bound visited).visited = (below q bound visited).visited := by
  induction bound generalizing visited with
  | zero => exact ⟨rfl, rfl⟩
  | succ n ih =>
    unfold below
    rw [haccepts n (Nat.lt_succ_self n)]
    split
    · exact ⟨congrArg some (hname n (Nat.lt_succ_self n)), rfl⟩
    · exact ih (fun m hm => haccepts m (Nat.lt_succ_of_lt hm))
        (fun m hm => hname m (Nat.lt_succ_of_lt hm)) (visited + 1)

namespace Enumeration

variable {s : ClauseSet} {space : Space}

/-- The forced search that counts down through machine words. -/
def searchWords (s : ClauseSet) (space : Space) : Enumeration :=
  let t := Template.ofClauseSet s space
  let vector := fun counter => (t.fillWord (UInt32.ofNat counter)).toNat
  let c := Countdown.below (fun counter => s.accepts space (vector counter))
    (t.greatestCounter.toNat + 1) 0
  ⟨c.found.map vector, c.visited⟩

theorem searchForced_eq_searchWords (h : space.atoms.size ≤ wordBits) :
    searchForced s space = .ok (searchWords s space) := by
  obtain ⟨t, ht⟩ : ∃ t, Template.ofClauseSet s space = t := ⟨_, rfl⟩
  have hlen : t.length ≤ wordBits := by
    rw [← ht, ClauseSet.length_ofClauseSet]
    exact h
  have hvector : ∀ counter < 2 ^ t.free,
      t.fill counter = (t.fillWord (UInt32.ofNat counter)).toNat := fun counter hcounter =>
    (Template.toNat_fillWord_ofNat hlen hcounter).symm
  obtain ⟨hfound, hvisited⟩ := Countdown.below_congr
    (fun counter hcounter => congrArg (s.accepts space) (hvector counter hcounter)) hvector 0
  rw [searchForced_eq_ok h ht rfl, searchWords, ht, hfound, hvisited,
    Template.toNat_greatestCounter hlen]

end Enumeration
end Clausal
