import Mathlib
import Clausal.Proofs.ClauseSet.BraceForm

/-! # The grammar of clause sets in braces

Whatever is read as a clause set is one of its written forms: a literal is read from its own form
only (`Literal.render_of_parse`), the pieces between the commas of a clause are its places
(`Clause.exists_writtenBody_of_parseBody`), and the braces and the commas between clauses stand
where they should (`ClauseSet.exists_written_of_parseClauses`).  So the texts that are read are
exactly the written forms with blanks inserted, and every other text is refused
(`ClauseSet.parse_decides_written`). -/

namespace Clausal

/-! ### Literals and clauses -/

theorem Atom.ofText?_eq_some_iff {text : List Char} {a : Atom} :
    ofText? text = some a ↔ text = [a.name] := by
  constructor
  · intro h
    unfold ofText? at h
    split at h
    · rw [ofChar?_eq_some_iff.mp h]
    · cases h
  · rintro rfl
    exact ofText?_name a

/-- Only the written form of a literal is read as the literal. -/
theorem Literal.render_of_parse {text : List Char} {l : Literal} (h : parse text = .ok l) :
    l.render = text := by
  unfold parse at h
  split at h
  · next m hread =>
    cases h
    unfold parse? at hread
    split at hread
    · obtain ⟨a, ha, rfl⟩ := Option.map_eq_some_iff.mp hread
      rw [Atom.ofText?_eq_some_iff.mp ha]
      rfl
    · obtain ⟨a, ha, rfl⟩ := Option.map_eq_some_iff.mp hread
      rw [Atom.ofText?_eq_some_iff.mp ha]
      rfl
  · cases h

/-- Pieces of which the nonempty ones are read as literals are places. -/
theorem Literal.exists_places {pieces : List (List Char)} {ls : List Literal}
    (h : (pieces.filter (fun piece => !piece.isEmpty)).mapM parse = .ok ls) :
    ∃ places : List (Option Literal),
      pieces = places.map renderPlace ∧ ls = places.reduceOption := by
  induction pieces generalizing ls with
  | nil =>
    cases h
    exact ⟨[], rfl, rfl⟩
  | cons piece pieces ih =>
    cases piece with
    | nil =>
      obtain ⟨places, rfl, rfl⟩ := ih h
      exact ⟨none :: places, rfl, rfl⟩
    | cons c piece =>
      rw [List.filter_cons_of_pos rfl, List.mapM_cons] at h
      cases hl : parse (c :: piece) with
      | error fault =>
        rw [hl] at h
        cases h
      | ok l =>
        cases hls : (pieces.filter (fun piece => !piece.isEmpty)).mapM parse with
        | error fault =>
          rw [hl, hls] at h
          cases h
        | ok ls =>
          rw [hl, hls] at h
          cases h
          obtain ⟨places, rfl, rfl⟩ := ih hls
          exact ⟨some l :: places, by rw [← render_of_parse hl]; rfl, rfl⟩

/-- The text between two braces that is read as a clause consists of the places of the clause. -/
theorem Clause.exists_writtenBody_of_parseBody {body : List Char} {c : Clause}
    (h : parseBody body = .ok c) :
    ∃ places, body = writtenBody places ∧ c = ofList places.reduceOption := by
  have hjoin : [','].intercalate (body.splitOn ',') = body := List.intercalate_splitOn ','
  rw [parseBody, Text.runs, ← List.splitOn_eq_splitOnP] at h
  cases hls : ((body.splitOn ',').filter (fun piece => !piece.isEmpty)).mapM Literal.parse with
  | error fault =>
    rw [hls] at h
    cases h
  | ok ls =>
    rw [hls] at h
    cases h
    obtain ⟨places, hpieces, rfl⟩ := Literal.exists_places hls
    exact ⟨places, by rw [writtenBody, ← hpieces, hjoin], rfl⟩

/-! ### Clause sets -/

namespace ClauseSet

variable {text : List Char} {cs : List Clause}

theorem exists_written_of_parseClauses (h : parseClauses text = .ok cs) :
    ∃ rows, text = written rows ∧ cs = clausesOf rows := by
  induction text using parseClauses.induct generalizing cs with
  | case1 =>
    rw [parseClauses] at h
    cases h
    exact ⟨[], rfl, rfl⟩
  | case2 text hclose =>
    rw [parseClauses] at h
    split at h
    · cases h
    · next hopen =>
      rw [hclose] at hopen
      cases hopen
  | case3 text close rest hclose ih =>
    -- the first closing brace cuts the text into the body of the first clause and the rest
    have hbody : ∀ ch ∈ text.takeWhile (· != '}'), ch ≠ '}' := fun ch hch => by
      simpa using List.mem_takeWhile_imp hch
    have hnot := List.head?_dropWhile_not (· != '}') text
    rw [hclose] at hnot
    obtain rfl : close = '}' := by simpa using hnot
    have htext : text = text.takeWhile (· != '}') ++ '}' :: rest := by
      rw [← hclose, List.takeWhile_append_dropWhile]
    rw [htext] at h ⊢
    rw [parseClauses_brace hbody] at h
    cases hc : Clause.parseBody (text.takeWhile (· != '}')) with
    | error fault =>
      rw [hc] at h
      cases h
    | ok c =>
      obtain ⟨places, hplaces, rfl⟩ := Clause.exists_writtenBody_of_parseBody hc
      simp only [hc, bind, Except.bind] at h
      rw [hplaces]
      split at h
      · cases h
        exact ⟨[places], (written_singleton places).symm, rfl⟩
      · cases h
      · next d more =>
        cases hcs : parseClauses (d :: more) with
        | error fault =>
          rw [hcs] at h
          cases h
        | ok cs =>
          rw [hcs] at h
          cases h
          obtain ⟨rows, hrows, rfl⟩ := ih d more rfl hcs
          have hne : rows ≠ [] := by
            rintro rfl
            cases hrows
          exact ⟨places :: rows, by rw [written_cons hne, hrows], rfl⟩
      · cases h
  | case4 text hnil hbrace =>
    rw [parseClauses] at h
    · cases h
    · exact hnil
    · exact hbrace

theorem parseClauses_eq_ok_iff :
    parseClauses text = .ok cs ↔ ∃ rows, text = written rows ∧ cs = clausesOf rows := by
  refine ⟨exists_written_of_parseClauses, ?_⟩
  rintro ⟨rows, rfl, rfl⟩
  exact parseClauses_written rows

theorem parse_eq_ok_iff {text : List Char} {s : ClauseSet} :
    parse text = .ok s ↔
      ∃ rows, Text.withoutBlanks text = written rows ∧ s = ⟨clausesOf rows⟩ := by
  obtain ⟨cs⟩ := s
  have hclauses : parse text = .ok ⟨cs⟩ ↔ parseClauses (Text.withoutBlanks text) = .ok cs := by
    unfold parse
    cases parseClauses (Text.withoutBlanks text) <;> simp [Except.map]
  simp only [hclauses, parseClauses_eq_ok_iff, mk.injEq]

/-- A text is read as a clause set exactly if, apart from its blanks, it is a written form: clauses
in braces with single commas between them, and in each clause, between single commas, places that
hold a literal or nothing.  The set has one clause for each of them in order, made up of the
literals in its places.  Any other text is refused. -/
theorem parse_decides_written (text : List Char) :
    (∀ s, parse text = .ok s ↔
      ∃ rows, Text.withoutBlanks text = written rows ∧ s = ⟨clausesOf rows⟩) ∧
    ((∃ fault, parse text = .error fault) ↔
      ¬ ∃ rows, Text.withoutBlanks text = written rows) := by
  refine ⟨fun s => parse_eq_ok_iff, ?_, ?_⟩
  · rintro ⟨fault, hfault⟩ ⟨rows, hrows⟩
    have hok := parse_eq_ok_iff.mpr ⟨rows, hrows, rfl⟩
    rw [hfault] at hok
    cases hok
  · intro hnone
    cases hparse : parse text with
    | error fault => exact ⟨fault, rfl⟩
    | ok s =>
      obtain ⟨rows, hrows, -⟩ := parse_eq_ok_iff.mp hparse
      exact absurd ⟨rows, hrows⟩ hnone

-- empty places do not matter, but a comma behind the last clause does
example :
    let a : Atom := ⟨'A', by decide⟩
    ClauseSet.parse "{,A,, -A}, { }".toList =
        .ok ⟨[Clause.ofList [Literal.positive a, Literal.negative a], Clause.ofList []]⟩ ∧
      ClauseSet.parse "{A},".toList = .error .trailingComma := by
  decide +kernel

end ClauseSet
end Clausal
