import Mathlib
import Clausal.Enumeration

/-! # Templates

A template describes the vectors that have the forced bits at their places (`Fits`).  Filling it
with the counters `0, …, 2 ^ free - 1` yields exactly these vectors (`fits_fill`, `exists_fill`),
and in ascending order (`fill_lt_fill`), so counting the counters down visits them from the
greatest to the smallest (`card_fits`). -/

namespace Clausal.Template

variable {t : Template} {b : Bool} {c d v w : ℕ}

/-- The vector has the forced bits of the template, and no bit beyond it. -/
def Fits : Template → ℕ → Prop
  | [], w => w = 0
  | some b :: rest, w => w % 2 = b.toNat ∧ Fits rest (w / 2)
  | none :: rest, w => Fits rest (w / 2)

instance decidableFits : (t : Template) → DecidablePred t.Fits
  | [], w => inferInstanceAs (Decidable (w = 0))
  | some b :: rest, w =>
    have := decidableFits rest (w / 2)
    inferInstanceAs (Decidable (w % 2 = b.toNat ∧ Fits rest (w / 2)))
  | none :: rest, w => decidableFits rest (w / 2)

@[simp]
theorem free_nil : free [] = 0 := rfl

@[simp]
theorem free_cons_some (b : Bool) (t : Template) : free (some b :: t) = free t := by
  simp [free]

@[simp]
theorem free_cons_none (t : Template) : free (none :: t) = free t + 1 := by
  simp [free]

/-- The fitting vectors, place by place. -/
theorem fits_iff : t.Fits w ↔
    w < 2 ^ t.length ∧ ∀ k b, t[k]? = some (some b) → w.testBit k = b := by
  induction t generalizing w with
  | nil => simp [Fits]
  | cons o rest ih =>
    have hbound : w / 2 < 2 ^ rest.length ↔ w < 2 ^ (o :: rest).length := by
      rw [List.length_cons, pow_succ]
      omega
    have hplaces : (∀ k b, (o :: rest)[k]? = some (some b) → w.testBit k = b) ↔
        (∀ b, o = some b → w.testBit 0 = b) ∧
          ∀ k b, rest[k]? = some (some b) → (w / 2).testBit k = b := by
      constructor
      · intro h
        refine ⟨fun b hb => h 0 b (by simp [hb]), fun k b hb => ?_⟩
        rw [← Nat.testBit_succ]
        exact h (k + 1) b (by simpa using hb)
      · rintro ⟨hzero, hsucc⟩ k b hb
        cases k with
        | zero => exact hzero b (by simpa using hb)
        | succ k =>
          rw [Nat.testBit_succ]
          exact hsucc k b (by simpa using hb)
    rw [hplaces, ← hbound]
    cases o with
    | none => simp [Fits, ih]
    | some b =>
      have hbit : w % 2 = b.toNat ↔ w.testBit 0 = b := by
        rw [Nat.testBit_zero]
        cases b <;> simp
      simp only [Fits, ih, hbit, Option.some.injEq, forall_eq']
      tauto

theorem fits_fill (t : Template) (c : ℕ) : t.Fits (t.fill c) := by
  induction t generalizing c with
  | nil => rfl
  | cons o rest ih =>
    cases o with
    | none =>
      have hhalf : (c % 2 + 2 * fill rest (c / 2)) / 2 = fill rest (c / 2) := by omega
      rw [fill, Fits, hhalf]
      exact ih (c / 2)
    | some b =>
      have hb := Bool.toNat_lt b
      have hhalf : (b.toNat + 2 * fill rest c) / 2 = fill rest c := by omega
      rw [fill, Fits, hhalf]
      exact ⟨by omega, ih c⟩

/-- Every fitting vector is filled in by some counter. -/
theorem exists_fill (h : t.Fits w) : ∃ c < 2 ^ t.free, t.fill c = w := by
  induction t generalizing w with
  | nil => exact ⟨0, by simp, h.symm⟩
  | cons o rest ih =>
    cases o with
    | none =>
      obtain ⟨c, hc, hfill⟩ := ih h
      refine ⟨w % 2 + 2 * c, ?_, ?_⟩
      · rw [free_cons_none, pow_succ]
        omega
      · have hhalf : (w % 2 + 2 * c) / 2 = c := by omega
        rw [fill, hhalf, hfill]
        omega
    | some b =>
      obtain ⟨hbit, hrest⟩ := h
      obtain ⟨c, hc, hfill⟩ := ih hrest
      refine ⟨c, by simpa using hc, ?_⟩
      rw [fill, hfill]
      omega

/-- A greater counter fills in a greater vector. -/
theorem fill_lt_fill (hcd : c < d) (hd : d < 2 ^ t.free) : t.fill c < t.fill d := by
  induction t generalizing c d with
  | nil =>
    rw [free_nil, pow_zero] at hd
    omega
  | cons o rest ih =>
    cases o with
    | none =>
      rw [free_cons_none, pow_succ] at hd
      rw [fill, fill]
      rcases Nat.lt_or_ge (c / 2) (d / 2) with hlt | hge
      · have := ih hlt (by omega)
        omega
      · have heq : c / 2 = d / 2 := by omega
        rw [heq]
        omega
    | some b =>
      rw [free_cons_some] at hd
      have := ih hcd hd
      rw [fill, fill]
      omega

theorem fill_le_fill_iff (hc : c < 2 ^ t.free) (hd : d < 2 ^ t.free) :
    t.fill c ≤ t.fill d ↔ c ≤ d := by
  constructor
  · intro hle
    by_contra hlt
    have := fill_lt_fill (Nat.lt_of_not_le hlt) hc
    omega
  · intro hle
    rcases Nat.lt_or_eq_of_le hle with hlt | rfl
    · exact (fill_lt_fill hlt hd).le
    · exact le_rfl

theorem fill_lt (t : Template) (c : ℕ) : t.fill c < 2 ^ t.length :=
  (fits_iff.mp (fits_fill t c)).1

/-- The fitting vectors from a given one upwards are as many as the counters from its counter
upwards. -/
theorem card_fits (hc : c < 2 ^ t.free) :
    ((Finset.range (2 ^ t.length)).filter (fun w => t.Fits w ∧ t.fill c ≤ w)).card =
      2 ^ t.free - c := by
  have himage : (Finset.range (2 ^ t.length)).filter (fun w => t.Fits w ∧ t.fill c ≤ w) =
      (Finset.Ico c (2 ^ t.free)).image t.fill := by
    ext w
    simp only [Finset.mem_filter, Finset.mem_range, Finset.mem_image, Finset.mem_Ico]
    constructor
    · rintro ⟨-, hfits, hle⟩
      obtain ⟨d, hd, rfl⟩ := exists_fill hfits
      exact ⟨d, ⟨(fill_le_fill_iff hc hd).mp hle, hd⟩, rfl⟩
    · rintro ⟨d, ⟨hle, hd⟩, rfl⟩
      exact ⟨fill_lt t d, fits_fill t d, (fill_le_fill_iff hc hd).mpr hle⟩
  rw [himage, Finset.card_image_of_injOn, Nat.card_Ico]
  intro d hd e he heq
  simp only [Finset.coe_Ico, Set.mem_Ico] at hd he
  exact le_antisymm ((fill_le_fill_iff hd.2 he.2).mp heq.le)
    ((fill_le_fill_iff he.2 hd.2).mp heq.ge)

end Clausal.Template
