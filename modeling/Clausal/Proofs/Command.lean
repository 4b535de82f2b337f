import Mathlib
import Clausal.Command
import Clausal.Proofs.ClauseSet.BraceForm
import Clausal.Proofs.Formula.Accepted
import Clausal.Proofs.Formula.Messages

/-! # Checking agrees with solving

Checking goes by the text itself and solving by its formula, but a text yields the same clauses
either way (`Command.Yields`).  So `check` confirms the clauses of exactly the texts that `solve`
gets to solve, and both print them in the same way.  What they print is one text; as no message of
`check` has a line break, its lines are regained from this text (`Command.lines_output_runCheck`).

How a command line is told apart does not matter, as long as the argument behind `--` becomes the
formula (`Command.TakesOperand`); the commands then agree (`Command.check_agrees_with_solve`). -/

namespace Clausal

namespace Command

variable {text choice : List Char} {lines : List String}

/-! ### Reading the command lines -/

/-- The arguments that choose algorithms: none for all of them, or the option with its value.  A
value that is an argument of its own does not begin with a hyphen. -/
inductive Chooses : List Char → List (List Char) → Prop
  | default : Chooses defaultChoice []
  | joined (choice : List Char) : Chooses choice ["--algorithm=".toList ++ choice]
  | apart {choice : List Char} : choice.head? ≠ some '-' →
    Chooses choice ["--algorithm".toList, choice]

/-- Command lines are read so that the argument behind `--` is the formula, whatever it begins
with. -/
structure TakesOperand (read : List (List Char) → Option Command) : Prop where
  check : ∀ text, read ["check".toList, "--".toList, text] = some (.check text)
  solve : ∀ {choice options}, Chooses choice options → ∀ text,
    read ("solve".toList :: "--show-clauses".toList :: options ++ ["--".toList, text]) =
      some (.solve text choice true)

theorem read_separator (form : Form) (a : Arguments) (texts : List (List Char)) :
    Arguments.read form a ("--".toList :: texts) =
      some { a with operands := a.operands ++ texts } := by
  have hshape : Shape.of "--".toList = .separator := rfl
  rw [Arguments.read, hshape]

/-- The reading of a flag that has not been given yet. -/
theorem read_flag {form : Form} {a : Arguments} {t name : List Char} {texts : List (List Char)}
    (hshape : Shape.of t = .long name none) (hknown : name ∈ form.flags)
    (hnew : name ∉ a.flags) :
    Arguments.read form a (t :: texts) =
      Arguments.read form { a with flags := a.flags ++ [name] } texts := by
  rw [Arguments.read, hshape]
  dsimp only
  rw [if_pos hknown, Arguments.addFlag, if_neg hnew, Option.bind_some]

/-- The reading of an option that has not been given yet, with its value behind an equals sign. -/
theorem read_joined {form : Form} {a : Arguments} {t name value : List Char}
    {texts : List (List Char)} (hshape : Shape.of t = .long name (some value))
    (hknown : name ∈ form.options) (hnew : a.options.lookup name = none) :
    Arguments.read form a (t :: texts) =
      Arguments.read form { a with options := a.options ++ [(name, value)] } texts := by
  rw [Arguments.read, hshape]
  dsimp only
  rw [if_pos hknown, Arguments.addOption, hnew]
  rfl

/-- The reading of an option that has not been given yet, with its value as the next argument. -/
theorem read_apart {form : Form} {a : Arguments} {t name value : List Char}
    {texts : List (List Char)} (hshape : Shape.of t = .long name none)
    (hflag : name ∉ form.flags) (hknown : name ∈ form.options)
    (hnew : a.options.lookup name = none) (hvalue : Shape.of value = .plain) :
    Arguments.read form a (t :: value :: texts) =
      Arguments.read form { a with options := a.options ++ [(name, value)] } texts := by
  rw [Arguments.read, hshape]
  dsimp only
  rw [if_neg hflag, if_pos hknown, if_pos hvalue, Arguments.addOption, hnew]
  rfl

theorem read?_check (text : List Char) :
    read? ["check".toList, "--".toList, text] = some (check text) := by
  have hread : readCheck ["--".toList, text] = some (check text) := by
    rw [readCheck, read_separator]
    rfl
  rw [read?, if_neg (by decide), readNamed, if_pos rfl, hread]

theorem shape_algorithm_joined (choice : List Char) :
    Shape.of ("--algorithm=".toList ++ choice) = .long "algorithm".toList (some choice) := by
  have hname : "--algorithm=".toList ++ choice =
      '-' :: '-' :: ("algorithm".toList ++ '=' :: choice) := rfl
  rw [hname]
  simp [Shape.of]

theorem shape_of_head_ne (h : choice.head? ≠ some '-') : Shape.of choice = .plain := by
  cases choice with
  | nil => rfl
  | cons c rest =>
    have hc : c ≠ '-' := fun hc => h (congrArg some hc)
    simp [Shape.of, hc]

theorem read?_solve {options : List (List Char)} (h : Chooses choice options) (text : List Char) :
    read? ("solve".toList :: "--show-clauses".toList :: options ++ ["--".toList, text]) =
      some (solve text choice true) := by
  have hflag : Shape.of "--show-clauses".toList = .long "show-clauses".toList none := by decide
  have hread : readSolve ("--show-clauses".toList :: (options ++ ["--".toList, text])) =
      some (solve text choice true) := by
    rw [readSolve, read_flag hflag (by decide) (by decide)]
    cases h with
    | default =>
      rw [List.nil_append, read_separator]
      rfl
    | joined =>
      rw [List.singleton_append, read_joined (shape_algorithm_joined choice) (by decide) rfl,
        read_separator]
      rfl
    | apart hhyphen =>
      have hplain := shape_of_head_ne hhyphen
      have hoption : Shape.of "--algorithm".toList = .long "algorithm".toList none := by decide
      rw [List.cons_append, List.singleton_append,
        read_apart hoption (by decide) (by decide) rfl hplain, read_separator]
      rfl
  have hline : "solve".toList :: "--show-clauses".toList :: options ++ ["--".toList, text] =
      "solve".toList :: ("--show-clauses".toList :: (options ++ ["--".toList, text])) := rfl
  rw [hline, read?, if_neg (by decide), readNamed, if_neg (by decide), if_pos rfl, hread]

/-- The project's own reading of command lines takes the formula from behind `--`. -/
theorem takesOperand_read? : TakesOperand read? where
  check := read?_check
  solve := fun h text => read?_solve h text

/-! ### What the commands print -/

/-- The text is accepted and propositional, and has the clauses. -/
structure Yields (text : List Char) (s : ClauseSet) : Prop where
  accepted : Formula.faults text = .ok []
  propositional : isPropositional text = true
  clauses : clausesOfText text = .ok s

/-- The line that shows a clause set. -/
def clausesLine (s : ClauseSet) : String := "clauses: " ++ String.ofList s.render

/-- What is printed says on two lines that the formula is a conjunction of the clauses. -/
def Confirms (printed : String) (s : ClauseSet) : Prop :=
  ["cnf: yes", clausesLine s] <:+: Text.lines printed

/-- The one outcome confirms the clauses that the text yields, and the other is then a success that
prints them first.  If the one confirms none, the other is a failure without any print. -/
structure Agree (text : List Char) (checked solved : Outcome) : Prop where
  confirms_iff_yields : ∀ s, Confirms checked.output s ↔ Yields text s
  confirms_iff : ∀ s, Confirms checked.output s ↔
    exitCode (some solved) = 0 ∧ (Text.lines solved.output).head? = some (clausesLine s)
  fails : (∀ s, ¬ Confirms checked.output s) →
    exitCode (some solved) = 1 ∧ solved.output = ""

variable {s : ClauseSet} {list : List Algorithm}

theorem clausesLine_inj {s' : ClauseSet} : clausesLine s = clausesLine s' ↔ s = s' := by
  refine ⟨fun h => ?_, congrArg _⟩
  have hrender : s.render = s'.render := String.ofList_injective ((String.append_right_inj _).mp h)
  have hparse := ClauseSet.parseClauses_render s.clauses
  rw [hrender, ClauseSet.parseClauses_render] at hparse
  exact (ClauseSet.ext (Except.ok.inj hparse)).symm

theorem isLine_clausesLine (s : ClauseSet) : Text.IsLine (clausesLine s) := by
  have hname : Text.IsLine "clauses: " := by decide
  have hset : Text.IsLine (String.ofList s.render) :=
    Text.isLine_ofList.mpr (Text.notMem_of_isBlank s.isBlank_of_mem_render)
  exact Text.isLine_append.mpr ⟨hname, hset⟩

/-- A first line is there whatever is printed after it. -/
theorem head?_lines_output {o : Outcome} {line : String} (hline : Text.IsLine line)
    (h : o.lines = line :: lines) : (Text.lines o.output).head? = some line := by
  rw [Outcome.output, h, List.map_cons, String.join_cons, Text.lines_append hline, List.head?_cons]

theorem isLine_indented {α : Type} {message : α → String} {found : List α}
    (h : ∀ fault ∈ found, Text.IsLine (message fault)) :
    ∀ line ∈ found.map fun fault => "  " ++ message fault, Text.IsLine line := by
  have hindent : Text.IsLine "  " := by decide
  exact List.forall_mem_map.mpr fun fault hfault => Text.isLine_append.mpr ⟨hindent, h fault hfault⟩

theorem isLine_of_mem_clauseLines (text : List Char) :
    ∀ line ∈ clauseLines text, Text.IsLine line := by
  unfold clauseLines
  split
  · next s _ =>
    have hyes : Text.IsLine "cnf: yes" := by decide
    exact List.forall_mem_cons.mpr ⟨hyes, List.forall_mem_singleton.mpr (isLine_clausesLine s)⟩
  · next found hfound =>
    have hno : Text.IsLine "cnf: no" := by decide
    have hviolations : violations text = found := by rw [violations, hfound]
    refine List.forall_mem_cons.mpr ⟨hno, isLine_indented fun fault hfault => ?_⟩
    rw [← hviolations] at hfault
    exact isLine_of_mem_violations hfault

/-- Nothing that `check` prints has a line break inside. -/
theorem isLine_of_mem_runCheck (text : List Char) :
    ∀ line ∈ (runCheck text).lines, Text.IsLine line := by
  have hvalid : Text.IsLine "syntax: valid" := by decide
  have hinvalid : Text.IsLine "syntax: invalid" := by decide
  have hyes : Text.IsLine "propositional: yes" := by decide
  have hno : Text.IsLine "propositional: no" := by decide
  unfold runCheck
  split
  · exact List.forall_mem_nil _
  · refine List.forall_mem_cons.mpr ⟨hvalid, ?_⟩
    split_ifs
    · exact List.forall_mem_cons.mpr ⟨hyes, isLine_of_mem_clauseLines text⟩
    · exact List.forall_mem_singleton.mpr hno
  · next found _ hfound =>
    refine List.forall_mem_cons.mpr ⟨hinvalid, isLine_indented fun fault hfault => ?_⟩
    unfold Formula.faults at hfound
    dsimp only at hfound
    split_ifs at hfound
    cases hfound
    exact isLine_of_mem_syntaxFaults hfault

theorem lines_output_runCheck (text : List Char) :
    Text.lines (runCheck text).output = (runCheck text).lines :=
  Text.lines_join (isLine_of_mem_runCheck text)

theorem confirms_iff_of_yields {s' : ClauseSet} :
    ["cnf: yes", clausesLine s'] <:+:
      ["syntax: valid", "propositional: yes", "cnf: yes", clausesLine s] ↔ s' = s := by
  constructor
  · intro hconfirms
    have hmem := hconfirms.subset (List.mem_cons_of_mem _ List.mem_cons_self)
    simp only [List.mem_cons, List.not_mem_nil, or_false] at hmem
    obtain h | h | h | h := hmem
    · exact absurd (congrArg String.toList h) (by simp [clausesLine])
    · exact absurd (congrArg String.toList h) (by simp [clausesLine])
    · exact absurd (congrArg String.toList h) (by simp [clausesLine])
    · exact clausesLine_inj.mp h
  · rintro rfl
    exact ⟨["syntax: valid", "propositional: yes"], [], by simp⟩

theorem runCheck_of_yields (h : Yields text s) :
    runCheck text =
      .printed ["syntax: valid", "propositional: yes", "cnf: yes", clausesLine s] := by
  rw [runCheck, h.accepted]
  dsimp only
  rw [if_pos h.propositional, clauseLines, h.clauses]
  rfl

theorem not_mem_indented {α : Type} (message : α → String) (found : List α) :
    "cnf: yes" ∉ found.map fun fault => "  " ++ message fault := by
  intro hmem
  obtain ⟨fault, -, hline⟩ := List.mem_map.mp hmem
  exact absurd (congrArg String.toList hline) (by simp)

theorem not_mem_runCheck (h : ∀ s, ¬ Yields text s) : "cnf: yes" ∉ (runCheck text).lines := by
  unfold runCheck
  split
  · exact List.not_mem_nil
  · next haccepted =>
    show "cnf: yes" ∉ "syntax: valid" :: _
    split_ifs with hpropositional
    · cases hclauses : clausesOfText text with
      | ok s => exact absurd ⟨haccepted, hpropositional, hclauses⟩ (h s)
      | error found => simp [clauseLines, hclauses, not_mem_indented]
    · simp
  · next found _ _ =>
    show "cnf: yes" ∉ "syntax: invalid" :: _
    simp [not_mem_indented]

/-- An accepted choice is one of some algorithm at least. -/
theorem ne_nil_of_algorithms (h : algorithms choice = .ok list) : list ≠ [] := by
  unfold algorithms at h
  split_ifs at h
  · cases h
    decide
  · obtain ⟨word, words, hsplit⟩ := List.exists_cons_of_ne_nil (List.splitOn_ne_nil ',' choice)
    rw [hsplit, List.mapM_cons] at h
    cases hfirst : Algorithm.ofWord (Text.trim word) with
    | error message =>
      rw [hfirst] at h
      cases h
    | ok a =>
      cases hrest : words.mapM fun word => Algorithm.ofWord (Text.trim word) with
      | error message =>
        rw [hfirst, hrest] at h
        cases h
      | ok rest =>
        rw [hfirst, hrest] at h
        cases h
        exact List.cons_ne_nil a rest

theorem runChoice_of_yields (h : Yields text s) (hchoice : algorithms choice = .ok list) :
    runChoice text choice true = .printed (clausesLine s :: Report.lines s list) := by
  obtain ⟨f, hparse⟩ := Formula.parse_isOk_iff.mpr h.accepted
  have hreading := (Formula.represents_of_parse hparse).reading_eq h.propositional
  rw [h.clauses] at hreading
  have hclauses : f.toClauseSet = .ok s := by rw [Formula.toClauseSet, hreading]
  rw [runChoice, hchoice]
  dsimp only
  rw [runSolve, hparse]
  dsimp only
  rw [hclauses]
  dsimp only
  rw [if_pos rfl, if_neg (ne_nil_of_algorithms hchoice)]
  rfl

theorem runChoice_of_not_yields (h : ∀ s, ¬ Yields text s)
    (hchoice : algorithms choice = .ok list) :
    ∃ message, runChoice text choice true = .failed message := by
  rw [runChoice, hchoice]
  dsimp only
  unfold runSolve
  split
  · exact ⟨_, rfl⟩
  · next f hparse =>
    split
    · exact ⟨_, rfl⟩
    · next s hclauses =>
      have hread : clausesOfText text = .ok s := by
        rw [clausesOfText, ← Formula.stripOuterParens_text hparse]
        exact Formula.clausesOfText_of_toClauseSet hclauses
      have hpropositional : isPropositional text = true := by
        by_contra hnot
        have hfails := (Formula.represents_of_parse hparse).requireFragment_eq
        rw [if_neg hnot] at hfails
        rw [Formula.toClauseSet, Formula.reading, hfails] at hclauses
        cases hclauses
      exact absurd ⟨Formula.parse_isOk_iff.mp ⟨f, hparse⟩, hpropositional, hread⟩ (h s)

theorem agree_check_solve (text : List Char) (hchoice : algorithms choice = .ok list) :
    Agree text (run (check text)) (run (solve text choice true)) := by
  have hlines := lines_output_runCheck text
  by_cases h : ∃ s, Yields text s
  · obtain ⟨s, hs⟩ := h
    have hchecked : (runCheck text).lines = _ := congrArg Outcome.lines (runCheck_of_yields hs)
    have hsolved : run (solve text choice true) = _ := runChoice_of_yields hs hchoice
    have hconfirms : ∀ s', Confirms (run (check text)).output s' ↔ s' = s := by
      intro s'
      show _ <:+: Text.lines (runCheck text).output ↔ _
      rw [hlines, hchecked]
      exact confirms_iff_of_yields
    have hyields : ∀ s', Yields text s' ↔ s' = s := by
      refine fun s' => ⟨fun hs' => ?_, fun heq => heq ▸ hs⟩
      exact Except.ok.inj (hs'.clauses.symm.trans hs.clauses)
    have hhead := head?_lines_output (isLine_clausesLine s)
      (o := .printed (clausesLine s :: Report.lines s list)) rfl
    rw [hsolved]
    refine ⟨fun s' => (hconfirms s').trans (hyields s').symm, fun s' => ?_,
      fun hnone => absurd ((hconfirms s).mpr rfl) (hnone s)⟩
    rw [hconfirms, hhead, Option.some.injEq, clausesLine_inj, eq_comm]
    exact ⟨fun heq => ⟨rfl, heq⟩, fun hshown => hshown.2⟩
  · rw [not_exists] at h
    obtain ⟨message, hfailed⟩ := runChoice_of_not_yields h hchoice
    have hsolved : run (solve text choice true) = .failed message := hfailed
    have hnone : ∀ s, ¬ Confirms (run (check text)).output s := by
      intro s hconfirms
      have hmem := hconfirms.subset List.mem_cons_self
      rw [show run (check text) = runCheck text from rfl, hlines] at hmem
      exact not_mem_runCheck h hmem
    rw [hsolved]
    refine ⟨fun s => iff_of_false (hnone s) (h s), fun s => iff_of_false (hnone s) ?_,
      fun _ => ⟨rfl, rfl⟩⟩
    rintro ⟨hexit, -⟩
    cases hexit

/-- The formula of a text is there exactly if the text has no fault, and then answers like the
text.  So with the text behind `--`, for every accepted choice of algorithms `check` confirms the
clauses that `solve` prints before it solves them, and where it confirms none `solve` fails. -/
theorem check_agrees_with_solve (text : List Char) :
    ((∃ f, Formula.parse text = .ok f) ↔ Formula.faults text = .ok []) ∧
    (∀ f, Formula.parse text = .ok f → f.Represents text) ∧
    ∀ read, TakesOperand read →
      ∃ checked, (read ["check".toList, "--".toList, text]).map run = some checked ∧
        ∀ choice options list, Chooses choice options → algorithms choice = .ok list →
          ∃ solved, (read ("solve".toList :: "--show-clauses".toList :: options ++
            ["--".toList, text])).map run = some solved ∧ Agree text checked solved := by
  refine ⟨Formula.parse_isOk_iff, fun f hf => Formula.represents_of_parse hf, fun read hread => ?_⟩
  refine ⟨run (check text), by rw [hread.check]; rfl, ?_⟩
  intro choice options list hoptions hchoice
  refine ⟨run (solve text choice true), by rw [hread.solve hoptions]; rfl, ?_⟩
  exact agree_check_solve text hchoice

/-- Two clauses behind `--`, solved with two of the algorithms. -/
theorem check_agrees_with_solve_of_two_clauses :
    let text := "(B or not A) and C".toList
    let choice := "dpll, unit".toList
    let line := ["solve".toList, "--show-clauses".toList, "--algorithm".toList, choice, "--".toList,
      text]
    TakesOperand read? ∧ Chooses choice ["--algorithm".toList, choice] ∧
      algorithms choice = .ok [.dpll, .forcedEnumeration] ∧
      ∃ checked solved, (read? ["check".toList, "--".toList, text]).map run = some checked ∧
        (read? line).map run = some solved ∧ Agree text checked solved ∧
        checked.output =
          "syntax: valid\npropositional: yes\ncnf: yes\nclauses: \x7bB,-A\x7d,\x7bC\x7d\n" := by
  intro text choice line
  have hoptions : Chooses choice ["--algorithm".toList, choice] := .apart (by decide)
  have hchoice : algorithms choice = .ok [.dpll, .forcedEnumeration] := by decide +kernel
  obtain ⟨-, -, hagree⟩ := check_agrees_with_solve text
  obtain ⟨checked, hchecked, hsolve⟩ := hagree read? takesOperand_read?
  obtain ⟨solved, hsolved, hboth⟩ := hsolve _ _ _ hoptions hchoice
  refine ⟨takesOperand_read?, hoptions, hchoice, checked, solved, hchecked, hsolved, hboth, ?_⟩
  rw [takesOperand_read?.check, Option.map_some, Option.some.injEq] at hchecked
  rw [← hchecked]
  decide +kernel

example : algorithms defaultChoice = .ok Algorithm.all := rfl

end Command
end Clausal
