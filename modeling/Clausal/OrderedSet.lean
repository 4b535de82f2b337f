/-! # Ordered sets

A finite set that remembers the order in which its elements first appeared.  Clauses are
ordered sets of literals, and the atoms of a clause set form an ordered set whose positions
number the bits of a vector. -/

namespace Clausal

/-- A list in which no element is repeated. -/
@[ext]
structure OrderedSet (α : Type) where
  toList : List α
  nodup : toList.Nodup
deriving DecidableEq

namespace OrderedSet

variable {α : Type}

theorem nodup_eraseDups [DecidableEq α] (l : List α) : l.eraseDups.Nodup := by
  match l with
  | [] => simp [List.eraseDups, List.eraseDupsBy, List.eraseDupsBy.loop]
  | a :: rest =>
    rw [List.eraseDups_cons, List.nodup_cons]
    refine ⟨?_, nodup_eraseDups _⟩
    simp [List.mem_eraseDups, List.mem_filter]
termination_by l.length
decreasing_by simpa using Nat.lt_succ_of_le (List.length_filter_le _ _)

instance : Membership α (OrderedSet α) := ⟨fun s a => a ∈ s.toList⟩

theorem mem_def {s : OrderedSet α} {a : α} : a ∈ s ↔ a ∈ s.toList := Iff.rfl

instance [DecidableEq α] (s : OrderedSet α) (a : α) : Decidable (a ∈ s) :=
  inferInstanceAs (Decidable (a ∈ s.toList))

/-- The elements of a list, each at the place of its first occurrence. -/
def ofList [DecidableEq α] (l : List α) : OrderedSet α := ⟨l.eraseDups, nodup_eraseDups l⟩

@[simp]
theorem mem_ofList [DecidableEq α] {l : List α} {a : α} : a ∈ ofList l ↔ a ∈ l :=
  List.mem_eraseDups

/-- A list without repetition is kept as it is. -/
theorem toList_ofList_of_nodup [DecidableEq α] {l : List α} (h : l.Nodup) :
    (ofList l).toList = l := by
  induction l with
  | nil => rfl
  | cons a rest ih =>
    obtain ⟨hnot, hrest⟩ := List.nodup_cons.mp h
    have hkeep : rest.filter (fun b => !b == a) = rest :=
      List.filter_eq_self.mpr fun b hb => by
        simpa using fun hba : b = a => hnot (hba ▸ hb)
    show (a :: rest).eraseDups = a :: rest
    rw [List.eraseDups_cons, hkeep]
    exact congrArg (a :: ·) (ih hrest)

/-- The number of elements. -/
def size (s : OrderedSet α) : Nat := s.toList.length

/-- Whether there is no element. -/
def isEmpty (s : OrderedSet α) : Bool := s.toList.isEmpty

/-- The earliest element. -/
def first? (s : OrderedSet α) : Option α := s.toList.head?

/-- The elements that satisfy `p`, in their order. -/
def filter (s : OrderedSet α) (p : α → Bool) : OrderedSet α :=
  ⟨s.toList.filter p, s.nodup.sublist List.filter_sublist⟩

@[simp]
theorem mem_filter {s : OrderedSet α} {p : α → Bool} {a : α} :
    a ∈ s.filter p ↔ a ∈ s ∧ p a = true :=
  List.mem_filter

/-- The place of an element, counted from zero. -/
def indexOf? [DecidableEq α] (s : OrderedSet α) (a : α) : Option Nat := s.toList.idxOf? a

end OrderedSet
end Clausal
