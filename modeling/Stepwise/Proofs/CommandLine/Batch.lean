/-
# Problems one a line

A run that reads its standard input does for each line what a run for that problem alone does, with
the same other options.  The line break counts as a character of the problem, so that a line of the
greatest length is refused which would be solved without its line break.

* `CommandLine.Options.ReadsInput` : options without a problem of their own;
* `CommandLine.ofArguments_eval` : one more argument sets the problem and nothing else;
* `CommandLine.solveLines_join` : the problems of an input;
* `CommandLine.run_join` : a run for all lines is made up of runs for each of them.
-/
import Stepwise.CommandLine.Run
import Stepwise.Proofs.Polynomial.Cut

namespace Stepwise

/-! ## Problems and the white space after them -/

namespace Problem

variable {settings : Settings} {text text' : String}

/-- A problem is solved by what is accepted of it. -/
theorem solve_congr (h : accept settings text.toList = accept settings text'.toList) :
    solve settings text = solve settings text' := by
  rw [solve, solve, h]

/-- White space after a text counts only for its length. -/
theorem accept_append {s t : List Char} (hblank : ∀ c ∈ t, Text.isBlank c = true)
    (hlength : settings.maxInputLength < (s.length : Int) ↔
      settings.maxInputLength < ((s ++ t).length : Int)) :
    accept settings (s ++ t) = accept settings s := by
  simp only [accept, hlength, normalize, Text.trim_append hblank]
  rfl

end Problem

namespace CommandLine

variable {settings : Settings} {format : Answer.Format}

/-- A line is solved as the problem without the line break, unless it is as long as it may be. -/
theorem solveOne_line {line : String}
    (h : (line.toList.length : Int) ≠ settings.maxInputLength) :
    solveOne settings format (line ++ "\n") = solveOne settings format line := by
  have haccept : Problem.accept settings (line ++ "\n").toList =
      Problem.accept settings line.toList := by
    rw [String.toList_append]
    refine Problem.accept_append (List.forall_mem_singleton.mpr rfl) ?_
    rw [List.length_append, show "\n".toList.length = 1 by rfl]
    omega
  rw [solveOne, solveOne, Problem.solve_congr haccept]

/-! ## Arguments -/

/-- Nothing else than the problems of the standard input is asked for. -/
def Options.ReadsInput (o : Options) : Prop :=
  o.version = false ∧ o.check = none ∧ o.eval = none

/-- The options with a problem to solve. -/
def Options.withProblem (o : Options) (problem : String) : Options :=
  { o with eval := some problem }

section Arguments

variable {o o' : Options} (problem : String)

/-- Whatever is set, a problem that it does not replace stays. -/
theorem Options.set_withProblem {flag : Flag} {value : String}
    (h : (o.set flag value).eval = none) : o.eval = none ∧
      (o.withProblem problem).set flag value = (o.set flag value).withProblem problem := by
  cases flag with
  | eval => cases h
  | _ => exact ⟨h, rfl⟩

theorem applyAll_withProblem {assignments : List (Flag × String)}
    (h : applyAll o assignments = .ok o') (heval : o'.eval = none) :
    o.eval = none ∧
      applyAll (o.withProblem problem) assignments = .ok (o'.withProblem problem) := by
  induction assignments generalizing o with
  | nil =>
    cases h
    exact ⟨heval, rfl⟩
  | cons assignment rest ih =>
    obtain ⟨flag, value⟩ := assignment
    unfold applyAll at h ⊢
    split at h
    · cases h
    · next hhelp =>
      split at h
      · next haccepts =>
        obtain ⟨hset, hrest⟩ := ih h
        obtain ⟨hunset, hcomm⟩ := o.set_withProblem problem hset
        refine ⟨hunset, ?_⟩
        rw [if_neg hhelp, if_pos haccepts, hcomm, hrest]
      · cases h

/-- What ends the setting of options is no run. -/
theorem ne_run_of_applyAll {assignments : List (Flag × String)} {request : Request}
    (h : applyAll o assignments = .error request) (o' : Options) : request ≠ .run o' := by
  induction assignments generalizing o with
  | nil => cases h
  | cons assignment rest ih =>
    obtain ⟨flag, value⟩ := assignment
    unfold applyAll at h
    split at h
    · cases h
      simp
    · split at h
      · exact ih h
      · cases h
        simp

/-- Arguments that do not ask for a problem leave one that is set. -/
theorem readFrom_withProblem {clean : Bool} {arguments : List Argument}
    (h : readFrom o clean arguments = .run o') (heval : o'.eval = none) :
    o.eval = none ∧
      readFrom (o.withProblem problem) clean arguments = .run (o'.withProblem problem) := by
  fun_induction readFrom o clean arguments with
  | case1 o =>
    cases h
    exact ⟨heval, rfl⟩
  | case2 | case3 | case6 | case7 | case14 => cases h
  | case4 o clean text rest ih => exact ih h
  | case5 o clean rest ih => exact ih h
  | case8 _ _ _ _ _ _ _ _ _ happly | case10 _ _ _ _ _ _ _ _ _ happly
  | case12 _ _ _ _ _ _ _ _ _ _ _ happly => exact absurd h (ne_run_of_applyAll happly o')
  -- an option complete in itself, one with a rest left over, and one completed by the next argument
  | case9 _ _ _ _ _ _ _ hread _ happly ih | case11 _ _ _ _ _ _ _ hread _ happly ih
  | case13 _ _ _ _ _ _ _ hread _ _ _ happly ih =>
    obtain ⟨hset, hrest⟩ := ih h
    obtain ⟨hunset, hsame⟩ := applyAll_withProblem problem happly hset
    refine ⟨hunset, ?_⟩
    simp only [readFrom, hread, hsame]
    exact hrest

theorem classify_eval :
    classify ("--eval=" ++ problem) = .option .eval false (some ⟨true, problem.toList⟩) := by
  have htext : ("--eval=" ++ problem).toList = "--eval".toList ++ '=' :: problem.toList := by simp
  have hpart := Text.partitionAt_append (s := "--eval".toList) (a := '=') (by decide) problem.toList
  have hequals : ("--eval".toList ++ '=' :: problem.toList).contains '=' = true := by simp
  have hexact : Flag.named? ("--eval".toList ++ '=' :: problem.toList) = none := by
    simp [Flag.named?, Flag.names]
  have hname : Flag.named? "--eval".toList = some .eval := by decide
  rw [classify, htext]
  simp only [hexact, classifyDashed, attachedAfterEquals, hpart, hequals, if_true, hname]
  simp

/-- **One more argument sets the problem** and nothing else. -/
theorem ofArguments_eval {arguments : List String} (h : Request.ofArguments arguments = .run o)
    (heval : o.eval = none) :
    Request.ofArguments (("--eval=" ++ problem) :: arguments) = .run (o.withProblem problem) := by
  unfold Request.ofArguments at h ⊢
  dsimp only at h ⊢
  split at h
  · cases h
  · next hclear =>
    obtain ⟨-, hread⟩ := readFrom_withProblem problem h heval
    have hset : readOption .eval false (some ⟨true, problem.toList⟩) =
        .complete [(.eval, problem)] := by
      rw [readOption, if_neg (by decide), if_pos (by decide), String.ofList_toList]
    rw [classifyAll, classify_eval]
    dsimp only
    rw [List.any_cons, if_neg (by simpa using hclear), readFrom, hset]
    exact hread

end Arguments

/-! ## Lines -/

theorem inputLines_append {line : List Char} (h : '\n' ∉ line) (rest : List Char) :
    inputLines (line ++ '\n' :: rest) = (line ++ ['\n']) :: inputLines rest := by
  induction line with
  | nil => exact if_pos rfl
  | cons c line ih =>
    rw [List.mem_cons, not_or] at h
    rw [List.cons_append, inputLines, if_neg (Ne.symm h.1), ih h.2]
    rfl

theorem inputLines_last {last : List Char} (h : '\n' ∉ last) (hne : last ≠ []) :
    inputLines last = [last] := by
  induction last with
  | nil => exact absurd rfl hne
  | cons c last ih =>
    rw [List.mem_cons, not_or] at h
    rw [inputLines, if_neg (Ne.symm h.1)]
    by_cases hlast : last = []
    · subst hlast
      rfl
    · rw [ih h.2 hlast]

/-- The problem is more than white space. -/
def isProblem (line : String) : Bool := !line.toList.all Text.isBlank

/-- A line break does not make a line a problem. -/
theorem isProblem_line (line : String) : isProblem (line ++ "\n") = isProblem line := by
  have hblank : Text.isBlank '\n' = true := by decide
  simp [isProblem, hblank]

/-- The lines that are no problems are passed over, and the others keep their line breaks. -/
theorem filter_inputLines {lines : List String} {last : String}
    (hlines : ∀ line ∈ lines, '\n' ∉ line.toList) (hlast : '\n' ∉ last.toList) :
    (inputLines (String.join (lines.map (· ++ "\n")) ++ last).toList).filter
        (fun line => !line.all Text.isBlank) =
      ((lines.filter isProblem).map (· ++ "\n") ++ [last].filter isProblem).map String.toList := by
  induction lines with
  | nil =>
    rw [List.map_nil, String.join_nil, String.empty_append]
    by_cases hempty : last.toList = []
    · simp [isProblem, hempty, inputLines]
    · rw [inputLines_last hlast hempty]
      by_cases hblank : last.toList.all Text.isBlank = true <;> simp [isProblem, hblank]
  | cons line lines ih =>
    have hrest := ih fun line' hmem => hlines line' (List.mem_cons_of_mem _ hmem)
    have htext : (String.join ((line :: lines).map (· ++ "\n")) ++ last).toList =
        line.toList ++ '\n' :: (String.join (lines.map (· ++ "\n")) ++ last).toList := by
      simp [String.join_cons]
    have hsame := isProblem_line line
    rw [isProblem, String.toList_append] at hsame
    rw [htext, inputLines_append (hlines line List.mem_cons_self), List.filter_cons,
      List.filter_cons, hrest]
    simp only [show "\n".toList = ['\n'] from rfl] at hsame
    rw [hsame]
    by_cases hproblem : isProblem line = true <;> simp [hproblem]

/-! ## Runs -/

/-- Several runs one after the other. -/
theorem Outcome.foldl_append (outcomes : List Outcome) (total : Outcome) :
    outcomes.foldl Outcome.append total =
      ⟨(outcomes.map exitCode).foldl max total.exitCode,
        total.output ++ String.join (outcomes.map output),
        total.events ++ outcomes.flatMap events⟩ := by
  induction outcomes generalizing total with
  | nil => simp
  | cons outcome outcomes ih =>
    rw [List.foldl_cons, ih]
    simp [append, String.join_cons, String.append_assoc]

section Lines

variable {lines : List String} {last : String} (hlines : ∀ line ∈ lines, '\n' ∉ line.toList)
  (hlast : '\n' ∉ last.toList)

include hlines hlast

/-- The problems of an input keep their line breaks. -/
theorem solveLines_eq :
    solveLines settings format (String.join (lines.map (· ++ "\n")) ++ last) =
      (((lines.filter isProblem).map (· ++ "\n") ++ [last].filter isProblem).map
        (solveOne settings format)).foldl Outcome.append { exitCode := 0 } := by
  rw [solveLines, filter_inputLines hlines hlast, List.foldl_map, List.foldl_map]
  simp only [String.ofList_toList]

/-- **The lines of an input are solved as problems of their own.**  Only those with a line break
must not be as long as they may be. -/
theorem solveLines_join (hlength : ∀ line ∈ lines, isProblem line = true →
      (line.toList.length : Int) ≠ settings.maxInputLength) :
    solveLines settings format (String.join (lines.map (· ++ "\n")) ++ last) =
      (((lines ++ [last]).filter isProblem).map (solveOne settings format)).foldl Outcome.append
        { exitCode := 0 } := by
  -- the last line has no line break to be dropped
  have hsolve : ((lines.filter isProblem).map (· ++ "\n")).map (solveOne settings format) =
      (lines.filter isProblem).map (solveOne settings format) := by
    rw [List.map_map]
    refine List.map_congr_left fun line hline => ?_
    obtain ⟨hmem, hproblem⟩ := List.mem_filter.mp hline
    exact solveOne_line (hlength line hmem hproblem)
  rw [solveLines_eq hlines hlast, List.filter_append, List.map_append, hsolve, List.map_append]

end Lines

section Run

variable {session : Session} {o : Options}

theorem settings_prepare (session : Session) (o : Options) :
    (prepare session o).settings.maxInputLength = session.settings.maxInputLength := by
  unfold prepare
  split <;> split <;> rfl

/-- The records of several runs. -/
theorem records_flatMap (session : Session) (outcomes : List Outcome) :
    session.records (outcomes.flatMap Outcome.events) =
      outcomes.flatMap fun outcome => session.records outcome.events := by
  simp [Session.records, List.map_flatMap, List.filter_flatMap]

/-- What a run with an outcome leaves behind. -/
def Outcome.report (outcome : Outcome) (session : Session) (logFile : Option String) : Report where
  exitCode := outcome.exitCode
  output := outcome.output
  records := session.records outcome.events
  logFile := logFile

variable {arguments : List String} (h : Request.ofArguments arguments = .run o)
  (hreads : o.ReadsInput)

include h hreads

theorem run_of_readsInput (session : Session) (input : String) :
    (run session arguments input).2 =
      (solveLines (prepare session o).settings o.format input).report (prepare session o)
        o.logFile := by
  obtain ⟨hversion, hcheck, heval⟩ := hreads
  have hperform (settings : Settings) :
      perform settings o input = solveLines settings o.format input := by
    simp [perform, hversion, hcheck, heval]
  simp only [run, h, hperform]
  rfl

theorem run_of_eval (session : Session) (problem input : String) :
    (run session (("--eval=" ++ problem) :: arguments) input).2 =
      (solveOne (prepare session o).settings o.format problem).report (prepare session o)
        o.logFile := by
  obtain ⟨hversion, hcheck, heval⟩ := hreads
  have hperform (settings : Settings) :
      perform settings (o.withProblem problem) input = solveOne settings o.format problem := by
    simp [perform, Options.withProblem, hversion, hcheck]
  simp only [run, ofArguments_eval problem h heval, hperform]
  rfl

/-- A problem of the greatest length is refused in a line with a line break. -/
theorem exitCode_of_longest {line : String} (hbreak : '\n' ∉ line.toList)
    (hproblem : isProblem line = true)
    (hlength : (line.toList.length : Int) = session.settings.maxInputLength) :
    (run session arguments (line ++ "\n")).2.exitCode = 1 := by
  have htext : String.join ([line].map (· ++ "\n")) ++ "" = line ++ "\n" := by
    simp [String.join_cons]
  have hlong : (prepare session o).settings.maxInputLength <
      ((line ++ "\n").toList.length : Int) := by
    rw [settings_prepare, ← hlength, String.toList_append, List.length_append,
      show "\n".toList.length = 1 by rfl]
    omega
  have hrefused : (solveOne (prepare session o).settings o.format (line ++ "\n")).exitCode = 1 := by
    rw [solveOne, Problem.solve, Problem.accept, if_pos hlong]
    rfl
  have hbreaks : ∀ line' ∈ [line], '\n' ∉ line'.toList := by simpa using hbreak
  have hlines : solveLines (prepare session o).settings o.format
      (String.join ([line].map (· ++ "\n")) ++ "") = _ := solveLines_eq hbreaks (by simp)
  have hempty : isProblem "" = false := by decide
  rw [htext, List.filter_cons_of_pos hproblem, List.filter_cons_of_neg (by simp [hempty])] at hlines
  rw [run_of_readsInput h hreads, hlines]
  exact (Nat.zero_max _).trans hrefused

/-- **A run for the lines of its input is made up of runs for each of them.**  It prints what they
print, keeps the records that they keep, and has the greatest of their exit codes. -/
theorem run_join (session : Session) {lines : List String} {last : String}
    (hlines : ∀ line ∈ lines, '\n' ∉ line.toList) (hlast : '\n' ∉ last.toList)
    (hlength : ∀ line ∈ lines, isProblem line = true →
      (line.toList.length : Int) ≠ session.settings.maxInputLength) (unread : String) :
    let alone := ((lines ++ [last]).filter isProblem).map fun problem =>
      (run session (("--eval=" ++ problem) :: arguments) unread).2
    let together := (run session arguments (String.join (lines.map (· ++ "\n")) ++ last)).2
    together.output = String.join (alone.map Report.output) ∧
      together.exitCode = (alone.map Report.exitCode).foldl max 0 ∧
      together.records = alone.flatMap Report.records := by
  have hlength' : ∀ line ∈ lines, isProblem line = true →
      (line.toList.length : Int) ≠ (prepare session o).settings.maxInputLength := by
    rw [settings_prepare]
    exact hlength
  have hsolve : solveLines (prepare session o).settings o.format
      (String.join (lines.map (· ++ "\n")) ++ last) = _ := solveLines_join hlines hlast hlength'
  rw [Outcome.foldl_append] at hsolve
  dsimp only
  rw [run_of_readsInput h hreads, hsolve]
  simp only [run_of_eval h hreads]
  refine ⟨?_, ?_, ?_⟩
  · simp [Outcome.report, Function.comp_def]
  · simp [Outcome.report, Function.comp_def]
  · simp only [Outcome.report, List.nil_append]
    rw [records_flatMap, List.flatMap_map, List.flatMap_map]

end Run

/-- A text that is no expression between two sums. -/
theorem run_join_mixed :
    let alone := ["1 + 1", "1 +", "2"].map fun problem =>
      (run { settings := {} } ["--eval=" ++ problem, "--format=json"] "").2
    let together := (run { settings := {} } ["--format=json"] "1 + 1\n\n1 +\n2").2
    together.output = String.join (alone.map Report.output) ∧ together.exitCode = 1 := by
  have hrequest : Request.ofArguments ["--format=json"] = .run { format := .json } := by rfl
  have hlines : ∀ line ∈ ["1 + 1", "", "1 +"], '\n' ∉ line.toList := by decide
  have hproblems : (["1 + 1", "", "1 +"] ++ ["2"]).filter isProblem = ["1 + 1", "1 +", "2"] := by
    decide
  have hlast : '\n' ∉ "2".toList := by decide
  obtain ⟨houtput, hexit, -⟩ := run_join hrequest ⟨rfl, rfl, rfl⟩ { settings := {} } hlines hlast
    (by decide) ""
  rw [hproblems] at houtput hexit
  refine ⟨houtput, hexit.trans ?_⟩
  decide +kernel

/-- A sum with `n` blanks after it. -/
def padded (n : Nat) : String := "2+2" ++ String.ofList (List.replicate n ' ')

theorem toList_padded (n : Nat) : (padded n).toList = "2+2".toList ++ List.replicate n ' ' := by
  rw [padded, String.toList_append]
  exact congrArg ("2+2".toList ++ ·) String.toList_ofList

theorem length_padded (n : Nat) : (padded n).toList.length = n + 3 := by
  rw [toList_padded, List.length_append, List.length_replicate, Nat.add_comm]
  rfl

theorem lineBreak_notMem_padded (n : Nat) : '\n' ∉ (padded n).toList := by
  simp [toList_padded, List.mem_replicate]

/-- Blanks do not change the sum. -/
theorem solve_padded {n : Nat} (h : ((n + 3 : Nat) : Int) ≤ settings.maxInputLength) :
    Problem.solve settings (padded n) = Problem.solve settings "2+2" := by
  have hblank : ∀ c ∈ List.replicate n ' ', Text.isBlank c = true := by
    intro c hc
    rw [(List.mem_replicate.mp hc).2]
    decide
  refine Problem.solve_congr ?_
  rw [toList_padded]
  refine Problem.accept_append hblank ?_
  rw [← toList_padded, length_padded]
  show _ < ((3 : Nat) : Int) ↔ _
  omega

theorem exitCode_padded {n : Nat} (h : ((n + 3 : Nat) : Int) ≤ ({} : Settings).maxInputLength) :
    (run { settings := {} } ["--eval=" ++ padded n] "").2.exitCode = 0 := by
  have hrequest : Request.ofArguments [] = .run {} := rfl
  rw [run_of_eval hrequest ⟨rfl, rfl, rfl⟩]
  show (solveOne {} .human (padded n)).exitCode = 0
  rw [solveOne, solve_padded h]
  decide +kernel

/-- **A line of the greatest length is refused** because of its line break, while the same problem
alone is solved. -/
theorem longest_line_refused :
    ((padded 9997).toList.length : Int) = ({} : Settings).maxInputLength ∧
      '\n' ∉ (padded 9997).toList ∧
      (run { settings := {} } [] (padded 9997 ++ "\n")).2.exitCode = 1 ∧
      (run { settings := {} } ["--eval=" ++ padded 9997] "").2.exitCode = 0 := by
  have hlength : ((padded 9997).toList.length : Int) = ({} : Settings).maxInputLength := by
    rw [length_padded]
    rfl
  have hproblem : isProblem (padded 9997) = true := by
    rw [isProblem, toList_padded, List.all_append]
    rfl
  exact ⟨hlength, lineBreak_notMem_padded _,
    exitCode_of_longest rfl ⟨rfl, rfl, rfl⟩ (lineBreak_notMem_padded _) hproblem hlength,
    exitCode_padded (by decide)⟩

end CommandLine

end Stepwise
