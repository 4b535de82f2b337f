import Mathlib
import Clausal.Proofs.Algorithm
import Clausal.Proofs.Text.Lines
import Clausal.Report

/-! # Reports are right and agree

The blocks of a report stand in the order of its algorithms, and each is right about the clause
set: an enumeration of too many atoms says only that, and every other block says SAT exactly if
the set is satisfiable, with a model and its vector (`lines_describe`).  So no two verdicts of one
report disagree.

The model is written between braces, with one entry for each atom of the set (`entries_render`), and
bit `k` of the vector is the value in entry `k` (`vector_text`). -/

namespace Clausal.Report

/-- The entry of an atom with its value, in the written form of an interpretation. -/
inductive Entry : Atom → Bool → String → Prop
  | true (a : Atom) : Entry a true (String.ofList [a.name] ++ "=true")
  | false (a : Atom) : Entry a false (String.ofList [a.name] ++ "=false")

/-- The rest of a verdict line, after the name of the algorithm, is true of the clause set. -/
structure Verdict (s : ClauseSet) (line : String) : Prop where
  sat_iff : (∃ rest, line = "SAT " ++ rest) ↔ s.IsSatisfiable
  unsat_iff : line = "UNSAT result=-1" ↔ ¬ s.IsSatisfiable
  /-- A model is printed with an entry for each atom in order, and its vector if it has one. -/
  model : s.IsSatisfiable → ∃ (i : Interpretation) (vector : String) (entries : List String),
    line = "SAT vector=" ++ vector ++ " interpretation=\x7b" ++ ", ".intercalate entries ++
      "\x7d" ∧
    List.Forall₂ (fun a entry => ∃ value, i.get? a = some value ∧ Entry a value entry)
      s.atoms.toList entries ∧
    i.atoms = s.atoms ∧ i.satisfies s = true ∧
    (vector = "-" ↔ 31 < s.atoms.size) ∧
    (s.atoms.size ≤ 31 → ∃ v : ℕ, vector = toString v ∧ v < 2 ^ s.atoms.size ∧
      ∀ (k : ℕ) a, s.atoms.toList[k]? = some a → i.get? a = some (v.testBit k))

/-- The names under which the algorithms report. -/
inductive Titled : Algorithm → String → Prop
  | enumeration : Titled .enumeration "brute-force"
  | forcedEnumeration : Titled .forcedEnumeration "brute-force-unit"
  | dpll : Titled .dpll "dpll"

/-- The lines of the block of an algorithm are true of the clause set. -/
structure Describes (s : ClauseSet) (a : Algorithm) (block : List String) : Prop where
  titled : Titled a a.title
  capacity_iff :
    block = [a.title ++ ": capacity exceeded (" ++ toString s.atoms.size ++
      " atoms exceed the enumeration limit of 31)"] ↔ a ≠ .dpll ∧ 31 < s.atoms.size
  verdict : a = .dpll ∨ s.atoms.size ≤ 31 → ∃ line answer work,
    a.run s = .ok (answer, work) ∧ Verdict s line ∧
      block = [a.title ++ ": " ++ line,
        "  candidates=" ++ toString work.candidates ++
          " decisions=" ++ toString work.search.decisions ++
          " propagations=" ++ toString work.search.propagations ++
          " pure=" ++ toString work.search.pureLiterals ++
          " conflicts=" ++ toString work.search.conflicts]

variable {s : ClauseSet} {a : Algorithm} {i : Interpretation}

/-! ### Written models -/

theorem titled (a : Algorithm) : Titled a a.title := by
  cases a with
  | enumeration => exact .enumeration
  | forcedEnumeration => exact .forcedEnumeration
  | dpll => exact .dpll

theorem entry_renderEntry (e : Atom × Bool) : Entry e.1 e.2 (Interpretation.renderEntry e) := by
  obtain ⟨a, value⟩ := e
  unfold Interpretation.renderEntry
  rw [String.append_assoc]
  cases value with
  | true => exact .true a
  | false => exact .false a

/-- An interpretation is written with one entry for each of its atoms, in order. -/
theorem entries_render (i : Interpretation) :
    ∃ entries, i.render = "\x7b" ++ ", ".intercalate entries ++ "\x7d" ∧
      List.Forall₂ (fun a entry => ∃ value, i.get? a = some value ∧ Entry a value entry)
        i.atoms.toList entries := by
  refine ⟨i.entries.map Interpretation.renderEntry, rfl, ?_⟩
  unfold Interpretation.atoms
  rw [List.forall₂_map_left_iff, List.forall₂_map_right_iff, List.forall₂_same]
  intro e he
  exact ⟨e.2, Interpretation.lookup_of_mem i.nodup he, entry_renderEntry e⟩

/-! ### Verdicts -/

theorem toString_ne_hyphen (v : ℕ) : toString v ≠ "-" := by
  intro h
  have hmem : '-' ∈ (toString v).toList := by
    rw [h]
    decide
  exact absurd (Text.isDigit_of_mem_toString hmem) (by decide)

theorem not_sat_prefix_unsat (rest : String) : "UNSAT result=-1" ≠ "SAT " ++ rest := by
  intro h
  have hlists := congrArg String.toList h
  simp at hlists

theorem verdict_unsat (h : ¬ s.IsSatisfiable) : Verdict s "UNSAT result=-1" where
  sat_iff := by
    refine iff_of_false ?_ h
    rintro ⟨rest, hrest⟩
    exact not_sat_prefix_unsat rest hrest
  unsat_iff := iff_of_true rfl h
  model := fun hsat => absurd hsat h

/-- The vector of a model over the atoms of the set, as printed. -/
theorem vector_text (hatoms : i.atoms = s.atoms) :
    ∃ vector, (((i.encode s.atoms).toOption.map toString).getD "-") = vector ∧
      (vector = "-" ↔ 31 < s.atoms.size) ∧
      (s.atoms.size ≤ 31 → ∃ v : ℕ, vector = toString v ∧ v < 2 ^ s.atoms.size ∧
        ∀ (k : ℕ) a, s.atoms.toList[k]? = some a → i.get? a = some (v.testBit k)) := by
  rcases Nat.lt_or_ge 31 s.atoms.size with hlarge | hsmall
  · refine ⟨"-", ?_, iff_of_true rfl hlarge, fun hsmall => absurd hlarge (Nat.not_lt.mpr hsmall)⟩
    rw [Interpretation.encode_eq_error hlarge]
    rfl
  · refine ⟨toString (i.vectorOver s.atoms), ?_, ?_, fun _ => ⟨_, rfl, ?_, ?_⟩⟩
    · rw [Interpretation.encode_eq_ok hsmall]
      rfl
    · exact iff_of_false (toString_ne_hyphen _) (Nat.not_lt.mpr hsmall)
    · exact i.vectorOver_lt s.atoms
    · intro k a hk
      have hown := i.ofVector_vectorOver
      rw [hatoms] at hown
      rw [← Interpretation.get?_ofVector _ hk, hown]

theorem verdict_sat (hatoms : i.atoms = s.atoms)
    (hsat : i.satisfies s = true) :
    Verdict s (Block.renderAnswer ⟨some i, (i.encode s.atoms).toOption⟩) := by
  have hsatisfiable : s.IsSatisfiable := ⟨i, hsat⟩
  obtain ⟨vector, hvector, hhyphen, hbits⟩ := vector_text hatoms
  have hline : Block.renderAnswer ⟨some i, (i.encode s.atoms).toOption⟩ =
      "SAT vector=" ++ vector ++ " interpretation=" ++ i.render := by
    rw [← hvector]
    rfl
  obtain ⟨entries, hrender, hentries⟩ := entries_render i
  have hsplit : "SAT vector=" ++ vector ++ " interpretation=" ++ i.render =
      "SAT " ++ ("vector=" ++ vector ++ " interpretation=" ++ i.render) := by
    rw [← String.append_assoc, ← String.append_assoc, ← String.append_assoc]
    rfl
  rw [hline]
  refine ⟨iff_of_true ⟨_, hsplit⟩ hsatisfiable, iff_of_false ?_ (not_not_intro hsatisfiable), ?_⟩
  · intro hunsat
    exact not_sat_prefix_unsat _ (hunsat.symm.trans hsplit)
  · intro _
    have htext : "SAT vector=" ++ vector ++ " interpretation=" ++ i.render =
        "SAT vector=" ++ vector ++ " interpretation=\x7b" ++ ", ".intercalate entries ++
          "\x7d" := by
      have hopening : " interpretation=\x7b" = " interpretation=" ++ "\x7b" := rfl
      rw [hrender, hopening]
      simp only [String.append_assoc]
    rw [hatoms] at hentries
    exact ⟨i, vector, entries, htext, hentries, hatoms, hsat, hhyphen, hbits⟩

theorem verdict_of_decides {answer : Answer} (h : answer.Decides s) :
    Verdict s (Block.renderAnswer answer) := by
  cases h with
  | sat hatoms hsat => exact verdict_sat hatoms hsat
  | unsat hunsat => exact verdict_unsat hunsat

/-! ### Blocks -/

theorem describes_block (s : ClauseSet) (a : Algorithm) : Describes s a (Block.of s a).lines := by
  rcases a.run_cases s with ⟨hdpll, hlarge, hrun⟩ | ⟨hwithin, answer, work, hrun, hdecides⟩
  · have hblock : (Block.of s a).lines = [a.title ++ ": capacity exceeded (" ++
        toString s.atoms.size ++ " atoms exceed the enumeration limit of 31)"] := by
      rw [Block.of, hrun]
      have hmessage : (CapacityExceeded.mk s.atoms.size 31).message =
          toString s.atoms.size ++ " atoms exceed the enumeration limit of 31" := by
        have hlimit : " atoms exceed the enumeration limit of 31" =
            " atoms exceed the enumeration limit of " ++ toString 31 := by decide
        rw [CapacityExceeded.message, hlimit, String.append_assoc]
      simp only [Block.lines, hmessage, String.append_assoc]
      rfl
    refine ⟨titled a, iff_of_true hblock ⟨hdpll, hlarge⟩, fun hwithin => ?_⟩
    rcases hwithin with rfl | hsmall
    · exact absurd rfl hdpll
    · exact absurd hlarge (Nat.not_lt.mpr hsmall)
  · have hblock : (Block.of s a).lines =
        [a.title ++ ": " ++ Block.renderAnswer answer, Block.renderWork work] := by
      rw [Block.of, hrun]
      rfl
    rw [hblock]
    refine ⟨titled a, iff_of_false (by simp) ?_, fun _ =>
      ⟨_, answer, work, hrun, verdict_of_decides hdecides, rfl⟩⟩
    rintro ⟨hdpll, hlarge⟩
    rcases hwithin with rfl | hsmall
    · exact hdpll rfl
    · exact absurd hlarge (Nat.not_lt.mpr hsmall)

/-- The lines of a report are one block for each algorithm, in order, and each block is true of the
clause set. -/
theorem lines_describe (s : ClauseSet) (algorithms : List Algorithm) :
    ∃ blocks, lines s algorithms = blocks.flatten ∧
      List.Forall₂ (Describes s) algorithms blocks := by
  refine ⟨algorithms.map fun a => (Block.of s a).lines, ?_, ?_⟩
  · rw [lines, blocks, List.flatMap_map, List.flatMap_def]
  · rw [List.forall₂_map_right_iff, List.forall₂_same]
    intro a _
    exact describes_block s a

end Clausal.Report
