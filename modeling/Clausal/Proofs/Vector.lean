import Mathlib
import Clausal.Proofs.Satisfaction

/-! # Vectors and interpretations

The interpretation of a vector gives the atom at place `k` the bit `k` of the vector
(`get?_ofVector`), and the vector of an interpretation has the bit `k` that the interpretation gives
to that atom (`testBit_vectorOver`).  So an interpretation is regained from its vector
(`ofVector_vectorOver`), and whatever satisfies a clause set has a vector that does
(`satisfies_ofVector_vectorOver`).

Over other atoms than its own an interpretation is regained as far as they go: without the values
of further atoms, and with false where it has none (`ofVector_vectorOver_eq_totalOn`).  In the other
direction a vector is regained without the bits that no atom has (`vectorOver_ofVector_eq_mod`).
`encode_inverts_ofVector` says so of the encoding, which exists within the capacity only. -/

namespace Clausal

theorem Bits.toNat_lt (bs : List Bool) : Bits.toNat bs < 2 ^ bs.length := by
  induction bs with
  | nil => exact Nat.one_pos
  | cons b bs ih =>
    have hb := Bool.toNat_lt b
    rw [Bits.toNat, List.length_cons, pow_succ]
    omega

namespace Interpretation

theorem lookup_zipIdx_map {as : List Atom} (hnodup : as.Nodup) (f : ℕ → Bool) (start : ℕ)
    {a : Atom} {k : ℕ} (h : as[k]? = some a) :
    ((as.zipIdx start).map (fun (b, j) => (b, f j))).lookup a = some (f (start + k)) := by
  induction as generalizing start k with
  | nil => simp at h
  | cons b bs ih =>
    obtain ⟨hnot, hrest⟩ := List.nodup_cons.mp hnodup
    rw [List.zipIdx_cons, List.map_cons]
    cases k with
    | zero =>
      obtain rfl : b = a := by simpa using h
      exact lookup_cons_self b (f start) _
    | succ k =>
      have hmem : bs[k]? = some a := by simpa using h
      have hne : a ≠ b := by
        rintro rfl
        exact hnot (List.mem_of_getElem? hmem)
      rw [lookup_cons_of_ne hne, ih hrest (start + 1) hmem]
      congr 2
      omega

theorem get?_ofVector {atoms : OrderedSet Atom} {a : Atom} {k : ℕ} (v : ℕ)
    (h : atoms.toList[k]? = some a) : (ofVector atoms v).get? a = some (v.testBit k) := by
  have hlookup := lookup_zipIdx_map atoms.nodup v.testBit 0 h
  rw [Nat.zero_add] at hlookup
  exact hlookup

theorem atoms_ofVector (atoms : OrderedSet Atom) (v : ℕ) : (ofVector atoms v).atoms = atoms := by
  refine OrderedSet.ext ?_
  simp [Interpretation.atoms, ofVector, Function.comp_def, List.zipIdx_map_fst]

/-! ### The vector of an interpretation -/

theorem vectorOver_lt (i : Interpretation) (atoms : OrderedSet Atom) :
    i.vectorOver atoms < 2 ^ atoms.size := by
  have hlt := Bits.toNat_lt (atoms.toList.map (fun a => i.get? a == some true))
  rwa [List.length_map] at hlt

theorem testBit_vectorOver (i : Interpretation) {atoms : OrderedSet Atom} {a : Atom} {k : ℕ}
    (h : atoms.toList[k]? = some a) :
    (i.vectorOver atoms).testBit k = (i.get? a == some true) := by
  rw [vectorOver, Bits.testBit_toNat, List.getElem?_map, h]
  rfl

theorem lookup_of_mem {entries : List (Atom × Bool)} {a : Atom} {b : Bool}
    (hnodup : (entries.map Prod.fst).Nodup) (h : (a, b) ∈ entries) :
    entries.lookup a = some b := by
  induction entries with
  | nil => cases h
  | cons e rest ih =>
    obtain ⟨c, value⟩ := e
    obtain ⟨hnot, hrest⟩ := List.nodup_cons.mp hnodup
    rcases List.mem_cons.mp h with heq | hmem
    · cases heq
      exact lookup_cons_self a b rest
    · have hne : a ≠ c := by
        rintro rfl
        exact hnot (List.mem_map.mpr ⟨(a, b), hmem, rfl⟩)
      rw [lookup_cons_of_ne hne]
      exact ih hrest hmem

theorem isSome_get?_iff {i : Interpretation} {a : Atom} :
    (i.get? a).isSome = true ↔ a ∈ i.atoms := by
  rw [OrderedSet.mem_def, Interpretation.atoms]
  constructor
  · intro hsome
    by_contra hnot
    have hnone : i.get? a = none := by
      rw [get?, List.lookup_eq_none_iff]
      intro e he
      rw [bne_iff_ne]
      rintro rfl
      exact hnot (List.mem_map_of_mem he)
    rw [hnone] at hsome
    cases hsome
  · intro hmem
    obtain ⟨e, he, rfl⟩ := List.mem_map.mp hmem
    have hvalue : i.get? e.1 = some e.2 := lookup_of_mem i.nodup he
    rw [hvalue]
    rfl

/-- The bit of each place is the value that the interpretation lists at it. -/
theorem testBit_of_getElem? {i : Interpretation} {a : Atom} {b : Bool} {k : ℕ}
    (h : i.entries[k]? = some (a, b)) : (i.vectorOver i.atoms).testBit k = b := by
  have hplace : i.atoms.toList[k]? = some a := by
    rw [Interpretation.atoms, List.getElem?_map, h]
    rfl
  have hvalue : i.get? a = some b := lookup_of_mem i.nodup (List.mem_of_getElem? h)
  rw [testBit_vectorOver i hplace, hvalue]
  simp

/-- Over its own atoms an interpretation is that of its vector. -/
theorem ofVector_vectorOver (i : Interpretation) :
    ofVector i.atoms (i.vectorOver i.atoms) = i := by
  refine Interpretation.ext (List.ext_getElem? fun k => ?_)
  have hplace : i.atoms.toList[k]? = i.entries[k]?.map Prod.fst := List.getElem?_map
  rw [ofVector, List.getElem?_map, List.getElem?_zipIdx, hplace]
  cases hk : i.entries[k]? with
  | none => rfl
  | some e => simp [testBit_of_getElem? hk]

/-- A vector without bits beyond the atoms is the vector of its interpretation. -/
theorem vectorOver_ofVector {atoms : OrderedSet Atom} {v : ℕ} (h : v < 2 ^ atoms.size) :
    (ofVector atoms v).vectorOver atoms = v := by
  apply Nat.eq_of_testBit_eq
  intro k
  rcases Nat.lt_or_ge k atoms.size with hk | hk
  · have hplace : atoms.toList[k]? = some atoms.toList[k] := List.getElem?_eq_getElem hk
    rw [testBit_vectorOver _ hplace, get?_ofVector v hplace]
    cases v.testBit k <;> rfl
  · have hbound : 2 ^ atoms.size ≤ 2 ^ k := Nat.pow_le_pow_right Nat.two_pos hk
    rw [Nat.testBit_lt_two_pow (h.trans_le hbound),
      Nat.testBit_lt_two_pow ((vectorOver_lt _ atoms).trans_le hbound)]

/-- Bits beyond the atoms are not looked at. -/
theorem ofVector_mod (atoms : OrderedSet Atom) (v : ℕ) :
    ofVector atoms (v % 2 ^ atoms.size) = ofVector atoms v := by
  refine Interpretation.ext (List.map_congr_left fun e he => ?_)
  obtain ⟨a, k⟩ := e
  have hk : k < atoms.size := (List.mem_zipIdx' he).1
  show (a, (v % 2 ^ atoms.size).testBit k) = (a, v.testBit k)
  rw [Nat.testBit_mod_two_pow, decide_eq_true hk, Bool.true_and]

theorem vectorOver_ofVector_eq_mod (atoms : OrderedSet Atom) (v : ℕ) :
    (ofVector atoms v).vectorOver atoms = v % 2 ^ atoms.size := by
  have hmod : v % 2 ^ atoms.size < 2 ^ atoms.size := Nat.mod_lt v (Nat.two_pow_pos atoms.size)
  rw [← ofVector_mod, vectorOver_ofVector hmod]

/-- The values that an interpretation does not have count as false in its vector. -/
theorem vectorOver_totalOn (i : Interpretation) (atoms : OrderedSet Atom) :
    (i.totalOn atoms).vectorOver atoms = i.vectorOver atoms := by
  unfold vectorOver
  congr 1
  refine List.map_congr_left fun a ha => ?_
  rw [get?_totalOn ha]
  cases i.get? a with
  | none => rfl
  | some b => rfl

theorem ofVector_vectorOver_eq_totalOn (i : Interpretation) (atoms : OrderedSet Atom) :
    ofVector atoms (i.vectorOver atoms) = i.totalOn atoms := by
  have hown := ofVector_vectorOver (i.totalOn atoms)
  rwa [atoms_totalOn, vectorOver_totalOn] at hown

theorem makesTrue_ofVector_vectorOver {i : Interpretation} {atoms : OrderedSet Atom} {l : Literal}
    (hatom : l.atom ∈ atoms) (h : i.makesTrue l = true) :
    (ofVector atoms (i.vectorOver atoms)).makesTrue l = true := by
  obtain ⟨k, hk⟩ := List.mem_iff_getElem?.mp hatom
  rw [makesTrue_iff] at h ⊢
  rw [get?_ofVector _ hk, testBit_vectorOver i hk, h]
  simp

/-- An atom without a value makes no literal true, so its bit may be zero. -/
theorem satisfies_ofVector_vectorOver {i : Interpretation} {s : ClauseSet}
    {atoms : OrderedSet Atom} (hatoms : ∀ a ∈ s.atoms, a ∈ atoms) (h : i.satisfies s = true) :
    (ofVector atoms (i.vectorOver atoms)).satisfies s = true := by
  refine satisfies_of_makesTrue (fun l hl => ?_) h
  have hatom : l.atom ∈ atoms := hatoms _ (ClauseSet.mem_atoms.mpr ⟨l, hl, rfl⟩)
  exact makesTrue_ofVector_vectorOver hatom

/-! ### The encoding -/

theorem encode_eq_ok {i : Interpretation} {atoms : OrderedSet Atom} (h : atoms.size ≤ wordBits) :
    i.encode atoms = .ok (i.vectorOver atoms) :=
  if_pos h

theorem encode_eq_error {i : Interpretation} {atoms : OrderedSet Atom} (h : wordBits < atoms.size) :
    i.encode atoms = .error ⟨atoms.size, 31⟩ :=
  if_neg (Nat.not_le.mpr h)

/-- Over at most 31 atoms, decoding a vector and encoding it again drops the bits beyond the atoms
and nothing else, and encoding any interpretation and decoding it again completes it over the atoms,
in their order.  Over more atoms nothing is encoded. -/
theorem encode_inverts_ofVector (atoms : OrderedSet Atom) :
    (atoms.size ≤ 31 →
      (∀ v, (ofVector atoms v).encode atoms = .ok (v % 2 ^ atoms.size)) ∧
      ∀ i : Interpretation, ∃ v, i.encode atoms = .ok v ∧ v < 2 ^ atoms.size ∧
        ofVector atoms v = i.totalOn atoms) ∧
    (31 < atoms.size → ∀ i : Interpretation, i.encode atoms = .error ⟨atoms.size, 31⟩) := by
  refine ⟨fun hsmall => ⟨fun v => ?_, fun i => ?_⟩, fun hlarge i => encode_eq_error hlarge⟩
  · rw [encode_eq_ok hsmall, vectorOver_ofVector_eq_mod]
  · exact ⟨i.vectorOver atoms, encode_eq_ok hsmall, i.vectorOver_lt atoms,
      i.ofVector_vectorOver_eq_totalOn atoms⟩

end Interpretation
end Clausal
