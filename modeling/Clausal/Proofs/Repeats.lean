import Mathlib
import Clausal.Proofs.Restriction

/-! # Repeated clauses

A clause set *repeats* another if it has further clauses, each with the literals of a clause of the
other set that stands before it, in any order.  Everything that is read off a clause set by first
occurrences is the same then: its atoms, its pure literals, its first literal, its consistent units
(`Repeats.atoms_eq`, `Repeats.pureLiterals_eq`, `Repeats.first?_eq`, `Repeats.consistentUnits?_eq`),
and restrictions of the two sets repeat each other again (`Repeats.restrict`). -/

namespace Clausal

/-! ### Lists with echoes -/

/-- The second list is the first one with further elements.  Each of these is an echo, by the
relation `r`, of an element of the first list that stands before it, or of one already `seen`. -/
inductive Echoes {α : Type} (r : α → α → Prop) : List α → List α → List α → Prop
  | nil (seen : List α) : Echoes r seen [] []
  | keep {seen xs ys : List α} {a : α} (h : Echoes r (seen ++ [a]) xs ys) :
      Echoes r seen (a :: xs) (a :: ys)
  | echo {seen xs ys : List α} {a b : α} (ha : a ∈ seen) (hab : r a b) (h : Echoes r seen xs ys) :
      Echoes r seen xs (b :: ys)

namespace Echoes

variable {α β : Type} {r : α → α → Prop} {r' : β → β → Prop} {seen xs ys zs : List α} {a b : α}

theorem mem (h : Echoes r seen xs ys) (ha : a ∈ xs) : a ∈ ys := by
  induction h with
  | nil => exact ha
  | keep _ ih => exact List.mem_cons.mpr ((List.mem_cons.mp ha).imp_right ih)
  | echo _ _ _ ih => exact List.mem_cons_of_mem _ (ih ha)

/-- Each element is an echo of one that is seen or one of the first list. -/
theorem exists_mem (hrefl : ∀ a, r a a) (h : Echoes r seen xs ys) (hb : b ∈ ys) :
    ∃ a, (a ∈ seen ∨ a ∈ xs) ∧ r a b := by
  induction h with
  | nil => cases hb
  | @keep seen xs ys a _ ih =>
    rcases List.mem_cons.mp hb with rfl | hb
    · exact ⟨b, .inr List.mem_cons_self, hrefl b⟩
    · obtain ⟨c, hc, hcb⟩ := ih hb
      refine ⟨c, ?_, hcb⟩
      simp only [List.mem_append, List.mem_singleton, or_assoc] at hc
      exact hc.imp_right List.mem_cons.mpr
  | echo ha hab _ ih =>
    rcases List.mem_cons.mp hb with rfl | hb
    · exact ⟨_, .inl ha, hab⟩
    · exact ih hb

theorem append_left (h : Echoes r (seen ++ zs) xs ys) : Echoes r seen (zs ++ xs) (zs ++ ys) := by
  induction zs generalizing seen with
  | nil => rwa [List.append_nil] at h
  | cons z zs ih => exact .keep (ih (by rwa [List.append_assoc]))

theorem of_subset {seen' : List α} (h : Echoes r seen xs ys) (hseen : seen ⊆ seen') :
    Echoes r seen' xs ys := by
  induction h generalizing seen' with
  | nil => exact .nil seen'
  | @keep seen xs ys a _ ih =>
    have hmore : seen ++ [a] ⊆ seen' ++ [a] := List.append_subset.mpr
      ⟨List.subset_append_of_subset_left [a] hseen, List.subset_append_right seen' [a]⟩
    exact .keep (ih hmore)
  | echo ha hab _ ih => exact .echo (hseen ha) hab (ih hseen)

theorem append {xs' ys' : List α} (h : Echoes r seen xs ys) (h' : Echoes r (seen ++ xs) xs' ys') :
    Echoes r seen (xs ++ xs') (ys ++ ys') := by
  induction h with
  | nil => rwa [List.append_nil] at h'
  | keep _ ih => exact .keep (ih (by rwa [List.append_assoc]))
  | echo ha hab _ ih => exact .echo ha hab (ih h')

theorem append_echoes (h : Echoes r seen xs ys) (hzs : ∀ b ∈ zs, ∃ a ∈ seen, r a b) :
    Echoes r seen xs (zs ++ ys) := by
  induction zs with
  | nil => exact h
  | cons z zs ih =>
    obtain ⟨⟨a, ha, haz⟩, hzs⟩ := List.forall_mem_cons.mp hzs
    exact .echo ha haz (ih hzs)

theorem flatMap {f : α → List β} (hf : ∀ a b, r a b → ∀ y ∈ f b, ∃ x ∈ f a, r' x y)
    (h : Echoes r seen xs ys) : Echoes r' (seen.flatMap f) (xs.flatMap f) (ys.flatMap f) := by
  induction h with
  | nil => exact .nil _
  | @keep seen xs ys a _ ih =>
    rw [List.flatMap_append, List.flatMap_singleton] at ih
    exact ih.append_left
  | @echo seen xs ys a b ha hab _ ih =>
    refine ih.append_echoes fun y hy => ?_
    obtain ⟨x, hx, hxy⟩ := hf a b hab y hy
    exact ⟨x, List.mem_flatMap.mpr ⟨a, ha, hx⟩, hxy⟩

theorem filterMap {f : α → Option β}
    (hf : ∀ a b, r a b → ∀ y, f b = some y → ∃ x, f a = some x ∧ r' x y)
    (h : Echoes r seen xs ys) : Echoes r' (seen.filterMap f) (xs.filterMap f) (ys.filterMap f) := by
  simp only [List.filterMap_eq_flatMap_toList]
  refine h.flatMap fun a b hab y hy => ?_
  obtain ⟨x, hx, hxy⟩ := hf a b hab y (Option.mem_toList.mp hy)
  exact ⟨x, Option.mem_toList.mpr hx, hxy⟩

theorem map {f : α → β} (hf : ∀ a b, r a b → r' (f a) (f b)) (h : Echoes r seen xs ys) :
    Echoes r' (seen.map f) (xs.map f) (ys.map f) := by
  simp only [List.map_eq_flatMap]
  refine h.flatMap fun a b hab y hy => ⟨f a, List.mem_singleton_self _, ?_⟩
  rw [List.mem_singleton.mp hy]
  exact hf a b hab

/-- The first value found is not an echo. -/
theorem findSome?_eq {f : α → Option β} (hf : ∀ a b, r a b → f a = none → f b = none)
    (h : Echoes r seen xs ys) (hseen : ∀ a ∈ seen, f a = none) :
    ys.findSome? f = xs.findSome? f := by
  induction h with
  | nil => rfl
  | @keep seen xs ys a _ ih =>
    rw [List.findSome?_cons, List.findSome?_cons]
    cases ha : f a with
    | some => rfl
    | none => exact ih (List.forall_mem_append.mpr ⟨hseen, List.forall_mem_singleton.mpr ha⟩)
  | @echo seen xs ys a b ha hab _ ih =>
    rw [List.findSome?_cons, hf a b hab (hseen a ha)]
    exact ih hseen

section Equal

variable [DecidableEq α]

/-- Elements that are repeated later do not count among the first occurrences. -/
theorem eraseDups_append (h : Echoes Eq seen xs ys) :
    (seen ++ ys).eraseDups = (seen ++ xs).eraseDups := by
  induction h with
  | nil => rfl
  | @keep seen xs ys a _ ih =>
    rw [List.append_cons, ih, List.append_cons seen a xs]
  | @echo seen xs ys a b ha hab _ ih =>
    subst hab
    have hskip : (a :: ys).removeAll seen = ys.removeAll seen := by
      rw [List.cons_removeAll, if_neg (by simpa using ha)]
    rw [← ih, List.eraseDups_append, List.eraseDups_append, hskip]

theorem ofList_eq (h : Echoes Eq [] xs ys) : OrderedSet.ofList ys = OrderedSet.ofList xs :=
  OrderedSet.ext h.eraseDups_append

theorem mem_iff (h : Echoes Eq [] xs ys) : a ∈ ys ↔ a ∈ xs := by
  rw [← OrderedSet.mem_ofList, h.ofList_eq, OrderedSet.mem_ofList]

theorem eraseDups_removeAll (seen xs : List α) :
    Echoes Eq seen (xs.removeAll seen).eraseDups xs := by
  induction xs generalizing seen with
  | nil => exact .nil seen
  | cons a xs ih =>
    by_cases ha : a ∈ seen
    · have hskip : (a :: xs).removeAll seen = xs.removeAll seen := by
        rw [List.cons_removeAll, if_neg (by simpa using ha)]
      rw [hskip]
      exact .echo ha rfl (ih seen)
    · have hkeep : (a :: xs).removeAll seen = a :: xs.removeAll seen := by
        rw [List.cons_removeAll, if_pos (by simpa using ha)]
      have hrest : (xs.removeAll seen).filter (fun b => !b == a) = xs.removeAll (seen ++ [a]) := by
        rw [List.removeAll, List.removeAll, List.filter_filter]
        refine List.filter_congr fun b _ => ?_
        rw [Bool.eq_iff_iff]
        simp [and_comm]
      rw [hkeep, List.eraseDups_cons, hrest]
      exact .keep (ih (seen ++ [a]))

/-- A list has the elements of an ordered set, and echoes of them. -/
theorem toList_ofList (seen xs : List α) : Echoes Eq seen (OrderedSet.ofList xs).toList xs := by
  have h := eraseDups_removeAll [] xs
  rw [List.removeAll_nil] at h
  exact h.of_subset (List.nil_subset seen)

theorem flatMap_toList_ofList (seen : List α) (f : β → List α) (bs : List β) :
    Echoes Eq seen (bs.flatMap fun b => (OrderedSet.ofList (f b)).toList) (bs.flatMap f) := by
  induction bs generalizing seen with
  | nil => exact .nil seen
  | cons b bs ih =>
    rw [List.flatMap_cons, List.flatMap_cons]
    exact (toList_ofList seen (f b)).append (ih _)

end Equal

end Echoes

/-! ### Clauses with the same literals -/

namespace Clause

variable {c d d' : Clause} {l : Literal}

/-- The clauses have the same literals, in whatever order. -/
def SameLiterals (c d : Clause) : Prop := ∀ l, l ∈ c ↔ l ∈ d

theorem SameLiterals.refl (c : Clause) : c.SameLiterals c := fun _ => Iff.rfl

theorem SameLiterals.symm (h : c.SameLiterals d) : d.SameLiterals c := fun l => (h l).symm

theorem SameLiterals.unit? (h : c.SameLiterals d) (hd : d.unit? = some l) : c.unit? = some l := by
  rw [unit?_eq_some_iff, eq_unit_iff] at hd ⊢
  exact fun m => (h m).trans (hd m)

theorem SameLiterals.first?_eq_none (h : c.SameLiterals d) (hc : c.first? = none) :
    d.first? = none := by
  have hnone : ∀ l, l ∉ d := by
    intro l hl
    have hmem : l ∈ c.literals.toList := (h l).mpr hl
    rw [List.head?_eq_none_iff.mp hc] at hmem
    cases hmem
  exact List.head?_eq_none_iff.mpr (List.eq_nil_iff_forall_not_mem.mpr hnone)

theorem SameLiterals.restrict (h : c.SameLiterals d) (hd : d.restrict l = some d') :
    ∃ c', c.restrict l = some c' ∧ c'.SameLiterals d' := by
  have hkept : c.restrict l ≠ none := by
    rw [Ne, restrict_eq_none_iff, h l, ← restrict_eq_none_iff, hd]
    exact Option.some_ne_none d'
  obtain ⟨c', hc'⟩ := Option.ne_none_iff_exists'.mp hkept
  refine ⟨c', hc', fun m => ?_⟩
  rw [mem_of_restrict hc', mem_of_restrict hd, h m]

end Clause

/-! ### Repeated clauses -/

namespace ClauseSet

theorem mapM_unit?_eq_ite (cs : List Clause) :
    cs.mapM Clause.unit? =
      if ∀ c ∈ cs, c.unit?.isSome then some (cs.filterMap Clause.unit?) else none := by
  induction cs with
  | nil => rfl
  | cons c cs ih =>
    rw [List.mapM_cons, ih]
    simp only [List.forall_mem_cons]
    cases hc : c.unit? with
    | none => rfl
    | some l =>
      rw [List.filterMap_cons_some hc]
      by_cases hcs : ∀ c ∈ cs, c.unit?.isSome
      · rw [if_pos hcs, if_pos ⟨rfl, hcs⟩]
        rfl
      · rw [if_neg hcs, if_neg fun h => hcs h.2]
        rfl

theorem consistentUnits?_eq_ite (s : ClauseSet) :
    s.consistentUnits? =
      if ∀ c ∈ s.clauses, c.unit?.isSome then
        if s.units.any (fun l => l.neg ∈ s.units) then none
        else some (OrderedSet.ofList s.units).toList
      else none := by
  rw [consistentUnits?, mapM_unit?_eq_ite]
  by_cases hall : ∀ c ∈ s.clauses, c.unit?.isSome
  · rw [if_pos hall, if_pos hall]
    rfl
  · rw [if_neg hall, if_neg hall]

/-- The set `t` is `s` with further clauses, each with the literals of a clause of `s` that stands
before it. -/
def Repeats (t s : ClauseSet) : Prop := Echoes Clause.SameLiterals [] s.clauses t.clauses

namespace Repeats

variable {s t : ClauseSet}

theorem restrict (h : t.Repeats s) (l : Literal) : (t.restrict l).Repeats (s.restrict l) :=
  Echoes.filterMap (fun _ _ hcd _ hd => hcd.restrict hd) h

theorem exists_mem {d : Clause} (h : t.Repeats s) (hd : d ∈ t.clauses) :
    ∃ c ∈ s.clauses, c.SameLiterals d := by
  obtain ⟨c, hc | hc, hcd⟩ := Echoes.exists_mem Clause.SameLiterals.refl h hd
  · cases hc
  · exact ⟨c, hc, hcd⟩

theorem hasEmptyClause_eq (h : t.Repeats s) : t.hasEmptyClause = s.hasEmptyClause := by
  rw [Bool.eq_iff_iff, hasEmptyClause_iff, hasEmptyClause_iff]
  constructor
  · rintro ⟨d, hd, hnone⟩
    obtain ⟨c, hc, hcd⟩ := h.exists_mem hd
    exact ⟨c, hc, fun l hl => hnone l ((hcd l).mp hl)⟩
  · rintro ⟨c, hc, hnone⟩
    exact ⟨c, h.mem hc, hnone⟩

theorem first?_eq (h : t.Repeats s) : t.first? = s.first? :=
  Echoes.findSome?_eq (fun _ _ hcd hc => hcd.first?_eq_none hc) h (List.forall_mem_nil _)

theorem literals (h : t.Repeats s) : Echoes Eq [] s.literals t.literals :=
  Echoes.flatMap (fun _ _ hcd l hl => ⟨l, (hcd l).mpr hl, rfl⟩) h

theorem units (h : t.Repeats s) : Echoes Eq [] s.units t.units :=
  Echoes.filterMap (fun _ _ hcd l hl => ⟨l, hcd.unit? hl, rfl⟩) h

theorem isEmpty_units (h : t.Repeats s) : t.units.isEmpty = s.units.isEmpty := by
  rw [Bool.eq_iff_iff, List.isEmpty_iff, List.isEmpty_iff]
  simp only [List.eq_nil_iff_forall_not_mem, h.units.mem_iff]

theorem atoms_eq (h : t.Repeats s) : t.atoms = s.atoms := by
  have hatoms : Echoes Eq [] (s.literals.map (·.atom)) (t.literals.map (·.atom)) :=
    h.literals.map fun _ _ hlm => hlm ▸ rfl
  exact hatoms.ofList_eq

theorem pureLiterals_eq (h : t.Repeats s) : t.pureLiterals = s.pureLiterals := by
  simp only [pureLiterals, h.literals.ofList_eq, h.literals.mem_iff]

theorem consistentUnits?_eq (h : t.Repeats s) : t.consistentUnits? = s.consistentUnits? := by
  have hall : (∀ d ∈ t.clauses, d.unit?.isSome) ↔ ∀ c ∈ s.clauses, c.unit?.isSome := by
    refine ⟨fun ht c hc => ht c (h.mem hc), fun hs d hd => ?_⟩
    obtain ⟨c, hc, hcd⟩ := h.exists_mem hd
    obtain ⟨l, hl⟩ := Option.isSome_iff_exists.mp (hs c hc)
    exact Option.isSome_iff_exists.mpr ⟨l, hcd.symm.unit? hl⟩
  have hany : t.units.any (fun l => l.neg ∈ t.units) = s.units.any (fun l => l.neg ∈ s.units) := by
    rw [Bool.eq_iff_iff]
    simp only [List.any_eq_true, decide_eq_true_eq, h.units.mem_iff]
  rw [consistentUnits?_eq_ite, consistentUnits?_eq_ite, hany, h.units.ofList_eq]
  exact if_congr hall rfl rfl

end Repeats
end ClauseSet

end Clausal
