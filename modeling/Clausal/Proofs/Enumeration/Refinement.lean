import Mathlib
import Clausal.Proofs.Enumeration.Search
import Clausal.Proofs.Enumeration.Template
import Clausal.Proofs.Vector

/-! # The forced search refines the plain one

The forced values are those of the unit clauses (`isSome_get?_forced_iff`), of which the last over
an atom decides (`get?_forced`).  A vector whose interpretation satisfies a clause set agrees with
the unit clauses of the set (`agrees_of_accepts`), so the forced search skips none that the plain
search would stop at.  Both therefore stop at the same vector, and the forced search has tried
exactly the agreeing vectors from there upwards (`searchForced_refines_search`). -/

namespace Clausal

/-! ### Forced values -/

namespace Interpretation

/-- Of several assumptions over one atom the last decides. -/
theorem get?_assumeAll (i : Interpretation) (ls : List Literal) (a : Atom) :
    (i.assumeAll ls).get? a =
      ((ls.filter (·.atom = a)).getLast?.map (·.asserted)).or (i.get? a) := by
  induction ls using List.reverseRecOn with
  | nil => rfl
  | append_singleton ls l ih =>
    have hlast : i.assumeAll (ls ++ [l]) = (i.assumeAll ls).assume l := List.foldl_append
    rw [hlast, get?_assume, List.filter_append]
    by_cases hatom : a = l.atom
    · subst hatom
      simp
    · have hother : [l].filter (·.atom = a) = [] := by simp [Ne.symm hatom]
      rw [if_neg hatom, hother, List.append_nil, ih]

end Interpretation

namespace ClauseSet

variable {s : ClauseSet} {space : Space} {w : ℕ}

/-- The forced value of an atom is that of the last unit clause over it. -/
theorem get?_forced (s : ClauseSet) (a : Atom) :
    s.forced.get? a = (s.units.filter (·.atom = a)).getLast?.map (·.asserted) := by
  rw [forced, Interpretation.get?_assumeAll]
  exact Option.or_none

/-- The atoms of the unit clauses have forced values, and no others. -/
theorem isSome_get?_forced_iff {a : Atom} :
    (s.forced.get? a).isSome = true ↔ ∃ l ∈ s.units, l.atom = a := by
  rw [get?_forced, Option.isSome_map, List.getLast?_isSome, Ne, List.filter_eq_nil_iff]
  simp

theorem mem_units_of_get?_forced {a : Atom} {b : Bool} (h : s.forced.get? a = some b) :
    ∃ l ∈ s.units, l.atom = a ∧ l.asserted = b := by
  rw [get?_forced, Option.map_eq_some_iff] at h
  obtain ⟨l, hlast, hb⟩ := h
  obtain ⟨hl, hatom⟩ := List.mem_filter.mp (List.mem_of_getLast? hlast)
  exact ⟨l, hl, of_decide_eq_true hatom, hb⟩

/-- Each atom of the space that has a forced value has it in the interpretation of the vector. -/
def Agrees (s : ClauseSet) (space : Space) (w : ℕ) : Prop :=
  ∀ a ∈ space.atoms.toList, ∀ b, s.forced.get? a = some b →
    (Interpretation.ofVector space.atoms w).get? a = some b

instance (s : ClauseSet) (space : Space) : DecidablePred (s.Agrees space) := fun w =>
  inferInstanceAs (Decidable (∀ a ∈ space.atoms.toList, ∀ b, s.forced.get? a = some b →
    (Interpretation.ofVector space.atoms w).get? a = some b))

theorem agrees_of_accepts (h : s.accepts space w = true) : s.Agrees space w := by
  intro a _ b hb
  obtain ⟨l, hl, rfl, rfl⟩ := mem_units_of_get?_forced hb
  exact Interpretation.makesTrue_iff.mp (Interpretation.makesTrue_of_mem_units h hl)

/-- The template of a set has one place for each atom of the space. -/
theorem length_ofClauseSet (s : ClauseSet) (space : Space) :
    (Template.ofClauseSet s space).length = space.atoms.size :=
  List.length_map _

/-- Agreeing with the forced values is fitting the template. -/
theorem agrees_iff_fits (hw : w < 2 ^ space.atoms.size) :
    s.Agrees space w ↔ (Template.ofClauseSet s space).Fits w := by
  rw [Template.fits_iff, length_ofClauseSet, and_iff_right hw]
  constructor
  · intro h k b hk
    obtain ⟨a, ha, hb⟩ : ∃ a, space.atoms.toList[k]? = some a ∧ s.forced.get? a = some b := by
      simpa [Template.ofClauseSet] using hk
    have hvalue := h a (List.mem_of_getElem? ha) b hb
    rw [Interpretation.get?_ofVector w ha] at hvalue
    exact Option.some.inj hvalue
  · intro h a ha b hb
    obtain ⟨k, hk⟩ := List.mem_iff_getElem?.mp ha
    rw [Interpretation.get?_ofVector w hk]
    have hplace : (Template.ofClauseSet s space)[k]? = some (some b) := by
      simp [Template.ofClauseSet, hk, hb]
    rw [h k b hplace]

end ClauseSet

namespace Enumeration

variable {s : ClauseSet} {space : Space}

theorem free_ofClauseSet (s : ClauseSet) (space : Space) :
    (Template.ofClauseSet s space).free =
      space.atoms.toList.countP (fun a => (s.forced.get? a).isNone) :=
  List.countP_map

/-- The agreeing vectors from a given vector upwards; all of them, if none is given. -/
def agreeing (s : ClauseSet) (space : Space) (from? : Option ℕ) : Finset ℕ :=
  (Finset.range (2 ^ space.atoms.size)).filter
    (fun w => s.Agrees space w ∧ ∀ v ∈ from?, v ≤ w)

/-- No vector is accepted that the template does not produce from a counter. -/
theorem exists_counter {w : ℕ} (hw : w < 2 ^ space.atoms.size) (h : s.accepts space w = true) :
    ∃ c < 2 ^ (Template.ofClauseSet s space).free, (Template.ofClauseSet s space).fill c = w :=
  Template.exists_fill ((ClauseSet.agrees_iff_fits hw).mp (ClauseSet.agrees_of_accepts h))

theorem card_agreeing_some {c : ℕ} (hc : c < 2 ^ (Template.ofClauseSet s space).free) :
    (agreeing s space (some ((Template.ofClauseSet s space).fill c))).card =
      2 ^ (Template.ofClauseSet s space).free - c := by
  rw [← Template.card_fits hc, ClauseSet.length_ofClauseSet]
  apply congrArg Finset.card
  apply Finset.filter_congr
  intro w hw
  rw [ClauseSet.agrees_iff_fits (Finset.mem_range.mp hw)]
  simp

theorem card_agreeing_none :
    (agreeing s space none).card = 2 ^ (Template.ofClauseSet s space).free := by
  have hpos := Nat.two_pow_pos (Template.ofClauseSet s space).free
  have hall : agreeing s space none =
      agreeing s space (some ((Template.ofClauseSet s space).fill 0)) := by
    refine Finset.filter_congr fun w hw => and_congr_right fun hagrees => ?_
    obtain ⟨d, hd, rfl⟩ :=
      Template.exists_fill ((ClauseSet.agrees_iff_fits (Finset.mem_range.mp hw)).mp hagrees)
    simpa using (Template.fill_le_fill_iff hpos hd).mpr (Nat.zero_le d)
  rw [hall, card_agreeing_some hpos, Nat.sub_zero]

theorem card_agreeing_le (s : ClauseSet) (space : Space) (from? : Option ℕ) :
    (agreeing s space from?).card ≤ 2 ^ space.atoms.size - from?.getD 0 := by
  rw [← Nat.card_Ico]
  refine Finset.card_le_card fun w hw => ?_
  obtain ⟨hrange, -, hfrom⟩ := Finset.mem_filter.mp hw
  rw [Finset.mem_Ico]
  refine ⟨?_, Finset.mem_range.mp hrange⟩
  cases from? with
  | none => exact Nat.zero_le w
  | some v => exact hfrom v rfl

/-- Within the capacity both searches find the same vector. -/
theorem searches_agree (h : space.atoms.size ≤ wordBits) :
    ∃ found : Option ℕ, (∀ v ∈ found, v < 2 ^ space.atoms.size) ∧
      search s space = .ok ⟨found, 2 ^ space.atoms.size - found.getD 0⟩ ∧
      searchForced s space = .ok ⟨found, (agreeing s space found).card⟩ := by
  generalize ht : Template.ofClauseSet s space = t
  have hbits : ∀ c, t.fill c < 2 ^ space.atoms.size := fun c =>
    ClauseSet.length_ofClauseSet s space ▸ ht ▸ Template.fill_lt _ c
  rcases Countdown.below_cases (fun c => s.accepts space (t.fill c)) (2 ^ t.free)
    with ⟨hnone, hforced⟩ | ⟨c, hc, haccepts, hgreatest, hforced⟩
  · have hplain : ∀ v < 2 ^ space.atoms.size, s.accepts space v = false := by
      intro v hv
      rw [Bool.eq_false_iff]
      intro hv'
      obtain ⟨c, hc, rfl⟩ := exists_counter hv hv'
      rw [ht] at hc hv'
      rw [hnone c hc] at hv'
      cases hv'
    refine ⟨none, by simp, ?_, ?_⟩
    · rw [search_eq_ok h (Countdown.below_of_none hplain 0)]
      simp
    · rw [searchForced_eq_ok h ht hforced, card_agreeing_none, ht]
      rfl
  · have hplain : ∀ v < 2 ^ space.atoms.size, t.fill c < v → s.accepts space v = false := by
      intro v hv hlt
      rw [Bool.eq_false_iff]
      intro hv'
      obtain ⟨d, hd, rfl⟩ := exists_counter hv hv'
      rw [ht] at hd hlt hv'
      have hcd : c < d := by
        by_contra hle
        have := (Template.fill_le_fill_iff hd hc).mpr (Nat.le_of_not_lt hle)
        omega
      rw [hgreatest d hd hcd] at hv'
      cases hv'
    refine ⟨some (t.fill c), by simp [hbits c], ?_, ?_⟩
    · rw [search_eq_ok h (Countdown.below_of_greatest (hbits c) haccepts hplain 0)]
      simp
    · subst ht
      rw [searchForced_eq_ok h rfl hforced, card_agreeing_some hc]
      rfl

/-- The forced search fails exactly like the plain one, or finds the same vector.  It has then
tried the vectors that agree with the forced values, from the greatest to the one found: at most
as many as the plain search tried, and at most one for each way to fill the free places. -/
theorem searchForced_refines_search (s : ClauseSet) (space : Space) :
    (wordBits < space.atoms.size ∧
      search s space = .error ⟨space.atoms.size, 31⟩ ∧
      searchForced s space = .error ⟨space.atoms.size, 31⟩) ∨
    ∃ plain forced : Enumeration,
      search s space = .ok plain ∧ searchForced s space = .ok forced ∧
      forced.vector = plain.vector ∧ (∀ v ∈ plain.vector, v < 2 ^ space.atoms.size) ∧
      forced.visited = (agreeing s space forced.vector).card ∧
      forced.visited ≤ plain.visited ∧
      forced.visited ≤ 2 ^ space.atoms.toList.countP (fun a => (s.forced.get? a).isNone) := by
  rcases Nat.lt_or_ge wordBits space.atoms.size with hlarge | hsmall
  · exact .inl ⟨hlarge, search_eq_error hlarge, searchForced_eq_error hlarge⟩
  · obtain ⟨found, hbits, hplain, hforced⟩ := searches_agree (s := s) hsmall
    have hfree : (agreeing s space found).card ≤
        2 ^ space.atoms.toList.countP (fun a => (s.forced.get? a).isNone) := by
      rw [← free_ofClauseSet, ← card_agreeing_none]
      refine Finset.card_le_card fun w hw => ?_
      obtain ⟨hrange, hagrees, -⟩ := Finset.mem_filter.mp hw
      exact Finset.mem_filter.mpr ⟨hrange, hagrees, by simp⟩
    exact .inr ⟨_, _, hplain, hforced, rfl, hbits, rfl, card_agreeing_le s space found, hfree⟩

end Enumeration
end Clausal
