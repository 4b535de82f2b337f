import Mathlib
import Clausal.ClauseSet.BraceForm
import Clausal.Proofs.Text.Blank

/-! # Reading back what was written

A clause may be written with empty places between its commas (`Clause.written`), which reading
ignores (`ClauseSet.parseClauses_written`).  The usual written form of a clause set has none, and is
read as the clause set it was written from, clause by clause and literal by literal, also after
blanks were inserted into it (`ClauseSet.render_round_trip`).  The name of an atom is alphanumeric,
so it is neither a blank nor one of the characters that the form is made of. -/

namespace Clausal

/-! ### Literals -/

namespace Atom

@[simp]
theorem ofText?_name (a : Atom) : ofText? [a.name] = some a := ofChar?_name a

end Atom

namespace Literal

theorem mem_render {l : Literal} {c : Char} (h : c ∈ l.render) : c = '-' ∨ c = l.atom.name := by
  unfold render at h
  split at h
  · simpa using h
  · exact .inr (by simpa using h)

theorem render_ne_nil (l : Literal) : l.render ≠ [] := by
  unfold render
  split <;> simp

/-- A character that is no hyphen and names no atom does not occur in a literal. -/
theorem ne_of_mem_render {l : Literal} {c d : Char} (hd : Text.isAlphanumeric d = false)
    (hhyphen : d ≠ '-') (h : c ∈ l.render) : c ≠ d := by
  rcases mem_render h with rfl | rfl
  · exact hhyphen.symm
  · exact Atom.name_ne hd l.atom

theorem isBlank_of_mem_render {l : Literal} {c : Char} (h : c ∈ l.render) :
    Text.isBlank c = false := by
  rcases mem_render h with rfl | rfl
  · decide
  · exact Text.isBlank_name l.atom

theorem parse_render (l : Literal) : parse l.render = .ok l := by
  have hread : parse? l.render = some l := by
    obtain ⟨a, negated⟩ := l
    cases negated with
    | true => simp [render, parse?, negative]
    | false =>
      have hname : a.name ≠ '-' := Atom.name_ne (Text.isAlphanumeric_eq_false (by simp)) a
      unfold render parse?
      split
      · next text htext =>
        simp at htext
        exact absurd htext.1 hname
      · simp [positive]
  rw [parse, hread]

theorem mapM_parse_render (ls : List Literal) : (ls.map render).mapM parse = .ok ls := by
  induction ls with
  | nil => rfl
  | cons l ls ih =>
    rw [List.map_cons, List.mapM_cons, parse_render, ih]
    rfl

end Literal

/-! ### Clauses -/

/-- The runs between separators are the pieces that were joined, without the empty ones. -/
theorem Text.runs_intercalate {sep : Char} {pieces : List (List Char)}
    (hsep : ∀ piece ∈ pieces, sep ∉ piece) :
    runs (· == sep) ([sep].intercalate pieces) = pieces.filter (fun piece => !piece.isEmpty) := by
  by_cases hempty : pieces = []
  · subst hempty
    exact runs_nil _
  · have hsplit := List.splitOn_intercalate sep hsep hempty
    rw [List.splitOn_eq_splitOnP] at hsplit
    rw [runs, hsplit]

theorem Text.mem_intercalate {c sep : Char} {pieces : List (List Char)}
    (h : c ∈ [sep].intercalate pieces) : c = sep ∨ ∃ piece ∈ pieces, c ∈ piece := by
  induction pieces with
  | nil => simp at h
  | cons piece pieces ih =>
    cases pieces with
    | nil => exact .inr ⟨piece, List.mem_singleton_self piece, by simpa using h⟩
    | cons next pieces =>
      rw [List.intercalate_cons_cons, List.append_assoc, List.mem_append, List.mem_append,
        List.mem_singleton] at h
      rcases h with h | h | h
      · exact .inr ⟨piece, List.mem_cons_self, h⟩
      · exact .inl h
      · obtain hsep | ⟨other, hother, h⟩ := ih h
        · exact .inl hsep
        · exact .inr ⟨other, List.mem_cons_of_mem piece hother, h⟩

/-- The written form of a place between the commas of a clause: a literal, or nothing. -/
def Literal.renderPlace : Option Literal → List Char
  | some l => l.render
  | none => []

theorem Literal.mem_renderPlace {place : Option Literal} {c : Char} (h : c ∈ renderPlace place) :
    ∃ l : Literal, c ∈ l.render := by
  cases place with
  | none => cases h
  | some l => exact ⟨l, h⟩

theorem Literal.filter_renderPlace (places : List (Option Literal)) :
    (places.map renderPlace).filter (fun piece => !piece.isEmpty) =
      places.reduceOption.map render := by
  induction places with
  | nil => rfl
  | cons place places ih =>
    cases place with
    | none => exact ih
    | some l =>
      rw [List.map_cons, List.filter_cons_of_pos (by simpa [renderPlace] using l.render_ne_nil), ih,
        List.reduceOption_cons_of_some, List.map_cons]
      rfl

namespace Clause

variable {places : List (Option Literal)}

/-- The written form of the places of a clause, without the braces. -/
def writtenBody (places : List (Option Literal)) : List Char :=
  [','].intercalate (places.map Literal.renderPlace)

/-- The written form of a clause with the given places. -/
def written (places : List (Option Literal)) : List Char := '{' :: (writtenBody places ++ ['}'])

theorem render_eq_written (c : Clause) : c.render = written (c.literals.toList.map some) := by
  rw [written, writtenBody, List.map_map]
  rfl

theorem ofList_toList (c : Clause) : ofList c.literals.toList = c :=
  Clause.ext (OrderedSet.ext (OrderedSet.toList_ofList_of_nodup c.literals.nodup))

/-- Empty places are ignored. -/
theorem parseBody_writtenBody (places : List (Option Literal)) :
    parseBody (writtenBody places) = .ok (ofList places.reduceOption) := by
  have hruns : Text.runs (· == ',') (writtenBody places) =
      places.reduceOption.map Literal.render := by
    rw [writtenBody, Text.runs_intercalate, Literal.filter_renderPlace]
    intro piece hpiece hcomma
    obtain ⟨place, -, rfl⟩ := List.mem_map.mp hpiece
    obtain ⟨l, hl⟩ := Literal.mem_renderPlace hcomma
    exact Literal.ne_of_mem_render (Text.isAlphanumeric_eq_false (by simp)) (by decide) hl rfl
  rw [parseBody, hruns, Literal.mapM_parse_render, Except.map]

theorem mem_writtenBody {ch : Char} (h : ch ∈ writtenBody places) :
    ch = ',' ∨ ∃ l : Literal, ch ∈ l.render := by
  obtain rfl | ⟨piece, hpiece, hch⟩ := Text.mem_intercalate h
  · exact .inl rfl
  · obtain ⟨place, -, rfl⟩ := List.mem_map.mp hpiece
    exact .inr (Literal.mem_renderPlace hch)

theorem ne_of_mem_writtenBody {d : Char} (hd : Text.isAlphanumeric d = false)
    (hhyphen : d ≠ '-') (hcomma : d ≠ ',') : ∀ ch ∈ writtenBody places, ch ≠ d := by
  intro ch hch
  obtain rfl | ⟨l, hl⟩ := mem_writtenBody hch
  · exact hcomma.symm
  · exact Literal.ne_of_mem_render hd hhyphen hl

theorem isBlank_of_mem_written (places : List (Option Literal)) :
    ∀ ch ∈ written places, Text.isBlank ch = false := by
  have hbody : ∀ ch ∈ writtenBody places, Text.isBlank ch = false := by
    intro ch hch
    obtain rfl | ⟨l, hl⟩ := mem_writtenBody hch
    · decide
    · exact Literal.isBlank_of_mem_render hl
  rw [written, List.forall_mem_cons, List.forall_mem_append, List.forall_mem_singleton]
  exact ⟨by decide, hbody, by decide⟩

end Clause

/-! ### Clause sets -/

/-- The first closing brace ends the first clause. -/
theorem parseClauses_brace {body : List Char} (hbody : ∀ c ∈ body, c ≠ '}') (rest : List Char) :
    parseClauses ('{' :: (body ++ '}' :: rest)) = (do
      let c ← Clause.parseBody body
      match rest with
      | [] => return [c]
      | [','] => throw .trailingComma
      | ',' :: d :: more => return c :: (← parseClauses (d :: more))
      | _ => throw (.missingComma rest)) := by
  have hpass : ∀ c ∈ body, (c != '}') = true := fun c hc => by simpa using hbody c hc
  have htake : (body ++ '}' :: rest).takeWhile (· != '}') = body := by
    rw [List.takeWhile_append_of_pos hpass]
    simp
  have hdrop : (body ++ '}' :: rest).dropWhile (· != '}') = '}' :: rest := by
    rw [List.dropWhile_append_of_pos hpass]
    simp
  rw [parseClauses]
  split
  · next hclose =>
    rw [hdrop] at hclose
    cases hclose
  · next ch tail hclose =>
    rw [hdrop] at hclose
    cases hclose
    rw [htake]
    refine congrArg (Clause.parseBody body >>= ·) (funext fun c => ?_)
    split
    · rfl
    · rfl
    · rfl
    · next hnil hcomma hmore =>
      split
      · exact absurd rfl hnil
      · exact absurd rfl hcomma
      · exact absurd rfl (hmore _ _)
      · rfl

namespace ClauseSet

/-- The written form of a clause set, given the places of each clause. -/
def written (rows : List (List (Option Literal))) : List Char :=
  [','].intercalate (rows.map Clause.written)

/-- The clauses that are written with the given places. -/
def clausesOf (rows : List (List (Option Literal))) : List Clause :=
  rows.map fun places => Clause.ofList places.reduceOption

theorem written_singleton (places : List (Option Literal)) :
    written [places] = '{' :: (Clause.writtenBody places ++ ['}']) :=
  List.intercalate_singleton

theorem written_cons {rows : List (List (Option Literal))} (hne : rows ≠ [])
    (places : List (Option Literal)) :
    written (places :: rows) = '{' :: (Clause.writtenBody places ++ '}' :: ',' :: written rows) := by
  have hwritten : rows.map Clause.written ≠ [] := List.map_eq_nil_iff.not.mpr hne
  rw [written, List.map_cons, List.intercalate_cons_of_ne_nil hwritten, Clause.written]
  simp only [List.cons_append, List.append_assoc]
  rfl

/-- The written form of a set with clauses begins with a brace. -/
theorem exists_written_eq_cons {rows : List (List (Option Literal))} (hne : rows ≠ []) :
    ∃ more, written rows = '{' :: more := by
  induction rows, hne using List.recNeNil with
  | singleton places => exact ⟨_, written_singleton places⟩
  | cons places rows hrows => exact ⟨_, written_cons hrows places⟩

theorem parseClauses_written (rows : List (List (Option Literal))) :
    parseClauses (written rows) = .ok (clausesOf rows) := by
  have hbody : ∀ places, ∀ c ∈ Clause.writtenBody places, c ≠ '}' := fun _ =>
    Clause.ne_of_mem_writtenBody (Text.isAlphanumeric_eq_false (by simp)) (by decide) (by decide)
  by_cases hempty : rows = []
  · subst hempty
    show parseClauses [] = .ok []
    rw [parseClauses]
  induction rows, hempty using List.recNeNil with
  | singleton places =>
    rw [written_singleton, parseClauses_brace (hbody places), Clause.parseBody_writtenBody]
    rfl
  | cons places rows hrows ih =>
    obtain ⟨more, hmore⟩ := exists_written_eq_cons hrows
    rw [hmore] at ih
    rw [written_cons hrows, hmore, parseClauses_brace (hbody places), Clause.parseBody_writtenBody]
    show (do return Clause.ofList places.reduceOption :: (← parseClauses ('{' :: more))) =
      Except.ok (Clause.ofList places.reduceOption :: clausesOf rows)
    rw [ih]
    rfl

/-- The places of a clause set that is written without empty ones. -/
def rows (s : ClauseSet) : List (List (Option Literal)) :=
  s.clauses.map fun c => c.literals.toList.map some

theorem render_eq_written (s : ClauseSet) : s.render = written s.rows := by
  rw [written, rows, List.map_map, render]
  exact congrArg _ (List.map_congr_left fun c _ => c.render_eq_written)

theorem clausesOf_rows (s : ClauseSet) : clausesOf s.rows = s.clauses := by
  rw [clausesOf, rows, List.map_map]
  refine List.map_id'' (fun c => ?_) s.clauses
  rw [Function.comp_apply, List.reduceOption, List.filterMap_map, Function.comp_def]
  exact (congrArg Clause.ofList (List.filterMap_some)).trans c.ofList_toList

theorem parseClauses_render (cs : List Clause) : parseClauses (mk cs).render = .ok cs := by
  rw [render_eq_written, parseClauses_written, clausesOf_rows]

theorem isBlank_of_mem_render (s : ClauseSet) : ∀ ch ∈ s.render, Text.isBlank ch = false := by
  intro ch hch
  rw [render_eq_written] at hch
  obtain rfl | ⟨piece, hpiece, hch⟩ := Text.mem_intercalate hch
  · decide
  · obtain ⟨places, -, rfl⟩ := List.mem_map.mp hpiece
    exact Clause.isBlank_of_mem_written places ch hch

/-- A written clause set is read as the set that was written, with its clauses and their literals
in the same order, also after blanks were inserted anywhere. -/
theorem render_round_trip (s : ClauseSet) :
    parse s.render = .ok s ∧ ∀ text, Text.WithBlanks s.render text → parse text = .ok s := by
  have hread : ∀ text, Text.WithBlanks s.render text → parse text = .ok s := by
    intro text htext
    have hblanks : Text.withoutBlanks text = s.render := by
      rw [htext.withoutBlanks, Text.withoutBlanks_eq_self s.isBlank_of_mem_render]
    rw [parse, hblanks, parseClauses_render]
    rfl
  exact ⟨hread s.render (.refl s.render), hread⟩

end ClauseSet
end Clausal
