import BorrowLang.CommandLine.Report
import BorrowLang.Proofs.Answers

/-!
# Files of a command line

Options that name no file can be followed by any files.  Files do not influence each other: what is
reported on several files is what is reported on the first ones, followed by what is reported on the
others.
-/

set_option autoImplicit false

namespace BorrowLang.CommandLine

variable {opts : List String} {options : Options} {settings : Settings} {r : Reading}
  {read : String → Except Unreadable String}

/-! ### Words -/

/-- After the separator every word is an argument. -/
theorem words?_append_of_mem (separated : "--" ∈ opts) (rest : List String) :
    words? (opts ++ rest) = (words? opts).map (· ++ rest.map .argument) := by
  induction opts with
  | nil => cases separated
  | cons text opts ih =>
      rw [List.cons_append, words?, words?]
      split
      · simp
      · rename_i other
        have later : "--" ∈ opts :=
          (List.mem_cons.mp separated).resolve_left fun same => other same.symm
        rw [ih later]
        cases word? text <;> cases words? opts <;> rfl

theorem words?_append_of_notMem (plain : "--" ∉ opts) (rest : List String) :
    words? (opts ++ rest) = (words? opts).bind fun first => (words? rest).map (first ++ ·) := by
  induction opts with
  | nil => simp [words?]
  | cons text opts ih =>
      have other : text ≠ "--" := fun same => plain (same ▸ List.mem_cons_self)
      have later : "--" ∉ opts := fun member => plain (List.mem_cons_of_mem _ member)
      rw [List.cons_append, words?, words?, if_neg other, if_neg other, ih later]
      cases word? text <;> cases words? opts <;> cases words? rest <;> rfl

theorem Flag.word_ne_argument (flag : Flag) (value : Option (List Char)) (text : String) :
    flag.word value ≠ .argument text := by
  cases flag <;> cases value <;> simp [Flag.word]

/-- A word that is an argument is one as it stands. -/
theorem eq_of_word?_argument {path text : String} (isArgument : word? path = some (.argument text)) :
    text = path := by
  have stray : ∀ chars, strayWord chars = .argument text → text = String.ofList chars := by
    intro chars isStray
    unfold strayWord at isStray
    split at isStray
    · exact (Word.argument.inj isStray).symm
    · cases isStray
  unfold word? at isArgument
  split at isArgument
  · rename_i letter rest same
    rw [← String.ofList_toList (s := path), same]
    simp only at isArgument
    split at isArgument
    · exact absurd (Option.some.inj isArgument) (Flag.word_ne_argument _ _ _)
    split at isArgument
    · exact absurd (Option.some.inj isArgument) (Flag.word_ne_argument _ _ _)
    split at isArgument
    · unfold longWord? at isArgument
      simp only at isArgument
      split at isArgument
      · exact absurd (Option.some.inj isArgument) (Flag.word_ne_argument _ _ _)
      · exact stray _ (Option.some.inj isArgument)
      · cases isArgument
    · have isShort := Option.some.inj isArgument
      unfold shortWord at isShort
      split at isShort
      · exact stray _ isShort
      · split at isShort <;> cases isShort
  · exact (Word.argument.inj (Option.some.inj isArgument)).symm

/-! ### Reading options -/

/-- The files that the first words of a command line name. -/
def filesNamed (words : List String) : List String :=
  ((words? words).bind fun all => (({} : Reading).all all).toOption).elim [] (·.options.files)

theorem Reading.all_cons {word : Word} {next : Reading} (reads : r.next word = .ok next)
    (rest : List Word) : r.all (word :: rest) = next.all rest := by
  rw [all, reads]

theorem Reading.all_append (first rest : List Word) :
    r.all (first ++ rest) = (r.all first).bind (·.all rest) := by
  induction first generalizing r with
  | nil => rfl
  | cons word first ih =>
      rw [List.cons_append, all, all]
      cases r.next word with
      | error stop => rfl
      | ok next => exact ih

theorem Options.give_files {k : Key} {value : String} {given : Options}
    (gives : options.give k value = .ok given) : given.files = options.files := by
  unfold give at gives
  split at gives
  · obtain rfl := Except.ok.inj gives
    rfl
  · split at gives
    · obtain rfl := Except.ok.inj gives
      rfl
    · cases gives
  · split at gives
    · obtain rfl := Except.ok.inj gives
      rfl
    · cases gives

theorem Options.switchOn_files {s : Switch} {switched : Options}
    (switches : options.switchOn s = .ok switched) : switched.files = options.files := by
  cases s with
  | help => cases switches
  | json | checkOnly | verify | verbose =>
      obtain rfl := Except.ok.inj switches
      rfl

theorem Options.switchAllOn_files {all : List Switch} {switched : Options}
    (switches : options.switchAllOn all = .ok switched) : switched.files = options.files := by
  induction all generalizing options with
  | nil =>
      obtain rfl := Except.ok.inj switches
      rfl
  | cons s rest ih =>
      rw [switchAllOn] at switches
      split at switches
      · cases switches
      · rename_i first
        exact (ih switches).trans (switchOn_files first)

/-- A word that adds a file is an argument. -/
theorem Reading.next_files {word : Word} {after : Reading} (reads : r.next word = .ok after)
    (adds : after.options.files ≠ r.options.files) : ∃ text, word = .argument text := by
  cases awaiting : r.awaiting with
  | some k =>
      cases word with
      | argument text => exact ⟨text, rfl⟩
      | _ => simp [next, awaiting] at reads
  | none =>
      cases word with
      | argument text => exact ⟨text, rfl⟩
      | separator | unknown =>
          simp only [next, awaiting, Except.ok.injEq] at reads
          exact absurd (reads ▸ rfl) adds
      | refused => simp [next, awaiting] at reads
      | switches all stray =>
          simp only [next, awaiting] at reads
          split at reads
          · cases reads
          · rename_i switched
            obtain rfl := Except.ok.inj reads
            exact absurd (Options.switchAllOn_files switched) adds
      | key k value =>
          cases value with
          | none =>
              simp only [next, awaiting, Except.ok.injEq] at reads
              exact absurd (reads ▸ rfl) adds
          | some value =>
              simp only [next, awaiting] at reads
              split at reads
              · cases reads
              · rename_i given
                obtain rfl := Except.ok.inj reads
                exact absurd (Options.give_files given) adds

/-- Arguments after the first file are files. -/
theorem Reading.all_arguments (awaiting : r.awaiting = none) (gathering : r.gathering = true)
    (paths : List String) :
    r.all (paths.map .argument) =
      .ok { r with options := { r.options with files := r.options.files ++ paths } } := by
  induction paths generalizing r with
  | nil => simp [all]
  | cons path rest ih =>
      have first : r.next (.argument path) =
          .ok { r with options := { r.options with files := r.options.files ++ [path] } } := by
        simp [next, argument, awaiting, gathering]
      rw [List.map_cons, all_cons first]
      refine Eq.trans (ih ?_ ?_) ?_
      · exact awaiting
      · exact gathering
      · simp

/-- Options that can be followed by files. -/
structure ReadsOptions (opts : List String) (r : Reading) (settings : Settings) : Prop where
  reads : ∃ words, words? opts = some words ∧ ({} : Reading).all words = .ok r
  files : r.options.files = []
  awaiting : r.awaiting = none
  stray : r.stray = false
  settings : Settings.ofOptions? r.options.entry r.options.maxCallDepth r.options.lifetimes =
    .ok settings

/-- A path that is an argument where it comes after some options. -/
def IsArgument (opts : List String) (path : String) : Prop :=
  "--" ∈ opts ∨ path ≠ "--" ∧ word? path = some (.argument path)

theorem words?_arguments {paths : List String}
    (each : ∀ path ∈ paths, path ≠ "--" ∧ word? path = some (.argument path)) :
    words? paths = some (paths.map .argument) := by
  induction paths with
  | nil => rfl
  | cons path rest ih =>
      obtain ⟨other, isArgument⟩ := each path List.mem_cons_self
      rw [words?, if_neg other, isArgument, ih fun later member => each later (.tail _ member)]
      rfl

theorem words?_files {words : List Word} (reads : words? opts = some words) {paths : List String}
    (each : ∀ path ∈ paths, IsArgument opts path) :
    words? (opts ++ paths) = some (words ++ paths.map .argument) := by
  by_cases separated : "--" ∈ opts
  · rw [words?_append_of_mem separated, reads]
    rfl
  · rw [words?_append_of_notMem separated, reads,
      words?_arguments fun path member => (each path member).resolve_left separated]
    rfl

/-- Options, and the files after them. -/
theorem ReadsOptions.readOptions (reads : ReadsOptions opts r settings) {paths : List String}
    (each : ∀ path ∈ paths, IsArgument opts path) (someFile : paths ≠ []) :
    readOptions (opts ++ paths) = .ok ({ r.options with files := paths }, settings) := by
  obtain ⟨words, isWords, readsWords⟩ := reads.reads
  obtain ⟨path, rest, rfl⟩ := List.exists_cons_of_ne_nil someFile
  have first : r.next (.argument path) =
      .ok { r with options := { r.options with files := [path] }, gathering := true } := by
    simp [Reading.next, Reading.argument, reads.awaiting, reads.files]
  have all : ({} : Reading).all (words ++ (path :: rest).map .argument) =
      .ok { r with options := { r.options with files := path :: rest }, gathering := true } := by
    rw [Reading.all_append, readsWords]
    refine (Reading.all_cons first _).trans (Eq.trans (Reading.all_arguments ?_ ?_ rest) ?_)
    · exact reads.awaiting
    · rfl
    · rfl
  have asked : Options.ofWords (words ++ (path :: rest).map .argument) =
      .ok { r.options with files := path :: rest } := by
    rw [Options.ofWords, all]
    simp [reads.awaiting, reads.stray]
  rw [CommandLine.readOptions, words?_files isWords each]
  simp only [asked, reads.settings]

theorem parts_of_readOptions {argv : List String}
    (understood : readOptions argv = .ok (options, settings)) :
    ∃ words r, words? argv = some words ∧ ({} : Reading).all words = .ok r ∧ r.awaiting = none ∧
      r.stray = false ∧ r.options.files ≠ [] ∧ r.options = options ∧
      Settings.ofOptions? options.entry options.maxCallDepth options.lifetimes = .ok settings := by
  unfold readOptions at understood
  split at understood
  · cases understood
  rename_i words isWords
  split at understood
  · cases understood
  rename_i asked isAsked
  split at understood
  · rename_i given isGiven
    obtain ⟨rfl, rfl⟩ := Prod.mk.inj (Except.ok.inj understood)
    unfold Options.ofWords at isAsked
    split at isAsked
    · cases isAsked
    rename_i r reads
    split at isAsked
    · cases isAsked
    rename_i inOrder
    obtain rfl := Except.ok.inj isAsked
    simp only [Bool.or_eq_true, not_or, Option.isSome_iff_ne_none, ne_eq, Decidable.not_not,
      Bool.not_eq_true, List.isEmpty_iff] at inOrder
    exact ⟨words, r, isWords, reads, inOrder.1.1, inOrder.1.2, by simpa using inOrder.2, rfl, isGiven⟩
  · cases understood

/-- The last word of a command line, and the words before it. -/
theorem words?_concat {path : String} {words : List Word}
    (isWords : words? (opts ++ [path]) = some words) :
    ∃ first word, words? opts = some first ∧ words = first ++ [word] ∧
      ∀ text, word = .argument text → IsArgument opts path ∧ text = path := by
  by_cases separated : "--" ∈ opts
  · rw [words?_append_of_mem separated] at isWords
    obtain ⟨first, isFirst, rfl⟩ := Option.map_eq_some_iff.mp isWords
    refine ⟨first, .argument path, isFirst, rfl, ?_⟩
    rintro text isText
    exact ⟨Or.inl separated, (Word.argument.inj isText).symm⟩
  · rw [words?_append_of_notMem separated] at isWords
    obtain ⟨first, isFirst, more⟩ := Option.bind_eq_some_iff.mp isWords
    obtain ⟨last, isLast, rfl⟩ := Option.map_eq_some_iff.mp more
    rw [words?] at isLast
    split at isLast
    · obtain rfl := Option.some.inj isLast
      refine ⟨first, .separator, isFirst, rfl, ?_⟩
      rintro text ⟨⟩
    · rename_i other
      split at isLast
      · rename_i word none isWord ends
        obtain rfl := Option.some.inj isLast
        obtain rfl := Option.some.inj ends
        refine ⟨first, word, isFirst, rfl, ?_⟩
        rintro text rfl
        obtain rfl := eq_of_word?_argument isWord
        exact ⟨Or.inr ⟨other, isWord⟩, rfl⟩
      · cases isLast

/-- Where some options and one path are understood, the path is the only file. -/
theorem readsOptions_of_alone (noFile : filesNamed opts = []) {path : String}
    (understood : readOptions (opts ++ [path]) = .ok (options, settings)) :
    ∃ r, ReadsOptions opts r settings ∧ IsArgument opts path := by
  obtain ⟨words, last, isWords, reads, awaiting, stray, someFile, rfl, settled⟩ :=
    parts_of_readOptions understood
  obtain ⟨first, word, isFirst, rfl, isArgument⟩ := words?_concat isWords
  rw [Reading.all_append] at reads
  obtain ⟨r, readsFirst, readsLast⟩ := bind_eq_ok.mp reads
  have files : r.options.files = [] := by
    simpa [filesNamed, isFirst, readsFirst, Except.toOption] using noFile
  have step : r.next word = .ok last := by
    rw [Reading.all] at readsLast
    split at readsLast
    · cases readsLast
    · rename_i next stepped
      rw [stepped, ← readsLast]
      rfl
  obtain ⟨text, rfl⟩ := Reading.next_files step (files ▸ someFile)
  obtain ⟨isPath, rfl⟩ := isArgument text rfl
  refine ⟨r, ?_, isPath⟩
  cases awaits : r.awaiting with
  | some k =>
      simp only [Reading.next, Reading.argument, awaits] at step
      split at step
      · cases step
      · rename_i given gives
        obtain rfl := Except.ok.inj step
        exact absurd ((Options.give_files gives).trans files) someFile
  | none =>
      have read : r.next (.argument text) =
          .ok { r with options := { r.options with files := [text] }, gathering := true } := by
        simp [Reading.next, Reading.argument, awaits, files]
      obtain rfl := Except.ok.inj (read.symm.trans step)
      exact ⟨⟨first, isFirst, readsFirst⟩, files, awaits, stray, settled⟩

/-! ### Reports -/

theorem linesText_append (first rest : List String) :
    linesText (first ++ rest) = linesText first ++ linesText rest := by
  simp [linesText]

theorem Report.append_assoc (a b c : Report) : (a.append b).append c = a.append (b.append c) := by
  simp [append, Nat.max_assoc]

theorem Report.nil_append (a : Report) : ({} : Report).append a = a := by
  simp [append]

theorem comparisonReport_code (json : Bool) (name : String) (problems : List String) :
    (comparisonReport json name problems).code ≤ 1 := by
  have code : (comparisonReport json name problems).code = if problems.isEmpty then 0 else 1 := by
    cases json <;> rfl
  rw [code]
  split <;> decide

theorem runReport_code (json : Bool) (name : String) (outcome : FileOutcome) :
    (runReport json name outcome).code ≤ 1 := by
  have code : (runReport json name outcome).code = if outcome.isOk then 0 else 1 := by
    cases json <;> cases outcome <;> rfl
  rw [code]
  split <;> decide

/-- The exit code of one file is zero or one. -/
theorem fileReport_code {name : String} {content : Except Unreadable String} {report : Report}
    (reports : fileReport options settings name content = .ok report) : report.code ≤ 1 := by
  unfold fileReport at reports
  split at reports
  · obtain rfl := Except.ok.inj reports
    exact Nat.le_refl 1
  · simp only at reports
    split at reports
    · cases reports
    · rename_i outcome log _
      obtain rfl := Except.ok.inj reports
      refine Nat.max_le.mpr ⟨?_, ?_⟩
      · split <;> exact Nat.zero_le 1
      · split
        · exact comparisonReport_code _ _ _
        · exact runReport_code _ _ _

/-- Reports on files, of which each has one. -/
theorem reportAll_ok {paths : List String}
    (each : ∀ path ∈ paths, ∃ report,
      fileReport options settings (pathText path) (read path) = .ok report) :
    ∃ report, reportAll options settings read paths = .ok report ∧ report.code ≤ 1 := by
  induction paths with
  | nil => exact ⟨{}, rfl, Nat.zero_le 1⟩
  | cons path rest ih =>
      obtain ⟨first, reports⟩ := each path List.mem_cons_self
      obtain ⟨more, reportsMore, few⟩ := ih fun later member => each later (.tail _ member)
      refine ⟨first.append more, ?_, Nat.max_le.mpr ⟨fileReport_code reports, few⟩⟩
      rw [reportAll, reports, reportsMore]

/-- The reports on some files, followed by the reports on others. -/
theorem reportAll_append {paths others : List String} {first rest : Report}
    (reports : reportAll options settings read paths = .ok first)
    (reportsOthers : reportAll options settings read others = .ok rest) :
    reportAll options settings read (paths ++ others) = .ok (first.append rest) := by
  induction paths generalizing first with
  | nil =>
      obtain rfl := Except.ok.inj reports
      rw [List.nil_append, reportsOthers, Report.nil_append]
  | cons path paths ih =>
      rw [reportAll] at reports
      split at reports
      · cases reports
      rename_i one isOne
      split at reports
      · cases reports
      rename_i more isMore
      obtain rfl := Except.ok.inj reports
      rw [List.cons_append, reportAll, isOne, ih isMore]
      simp only [Report.append_assoc]

/-- Which files are named makes no difference to the report on one of them. -/
theorem reportAll_files (named paths : List String) :
    reportAll { options with files := named } settings read paths =
      reportAll options settings read paths := by
  induction paths with
  | nil => rfl
  | cons path rest ih =>
      rw [reportAll, reportAll, ih]
      rfl

/-- What is reported on files, where there are options before them. -/
theorem ReadsOptions.reports (reads : ReadsOptions opts r settings) {paths : List String}
    (each : ∀ path ∈ paths, IsArgument opts path) (someFile : paths ≠ []) {report : Report}
    (isReport : reportAll r.options settings read paths = .ok report) :
    command read (opts ++ paths) = .reported report := by
  rw [command, reads.readOptions each someFile]
  simp only [reportAll_files, isReport]

/-- Where a command reports on one file, it is understood, and there is a report on the file. -/
theorem ReadsOptions.of_reported (noFile : filesNamed opts = []) {path : String} {report : Report}
    (alone : command read (opts ++ [path]) = .reported report) :
    ∃ r settings, ReadsOptions opts r settings ∧ IsArgument opts path ∧
      ∃ report, fileReport r.options settings (pathText path) (read path) = .ok report := by
  unfold command at alone
  split at alone
  · cases alone
  rename_i options settings understood
  split at alone
  · cases alone
  rename_i whole reports
  obtain ⟨r, reads, isPath⟩ := readsOptions_of_alone noFile understood
  refine ⟨r, settings, reads, isPath, ?_⟩
  rw [reads.readOptions (by simpa using isPath) (List.cons_ne_nil _ _)] at understood
  obtain ⟨rfl, -⟩ := Prod.mk.inj (Except.ok.inj understood)
  rw [reportAll_files] at reports
  rw [reportAll] at reports
  split at reports
  · cases reports
  · rename_i one isOne
    exact ⟨one, isOne⟩

/-- Options are read in one way. -/
theorem ReadsOptions.unique {q : Reading} {others : Settings} (reads : ReadsOptions opts r settings)
    (also : ReadsOptions opts q others) : r = q ∧ settings = others := by
  obtain ⟨words, isWords, all⟩ := reads.reads
  obtain ⟨_, same, allSame⟩ := also.reads
  obtain rfl := Option.some.inj (isWords.symm.trans same)
  obtain rfl := Except.ok.inj (all.symm.trans allSame)
  exact ⟨rfl, Except.ok.inj (reads.settings.symm.trans also.settings)⟩

/-- After options that name no file, with files for each of which by itself there is a report, what is
printed on some of them and then others is what is printed on the first, followed by what is printed
on the others.  The greater exit code counts, and is zero or one. -/
theorem command_append (noFile : filesNamed opts = []) {files others : List String}
    (someFile : files ≠ []) (someOther : others ≠ [])
    (alone : ∀ path ∈ files ++ others, ∃ report,
      command read (opts ++ [path]) = .reported report) :
    ∃ first second whole, command read (opts ++ files) = .reported first ∧
      command read (opts ++ others) = .reported second ∧
      command read (opts ++ (files ++ others)) = .reported whole ∧
      linesText whole.out = linesText first.out ++ linesText second.out ∧
      linesText whole.err = linesText first.err ++ linesText second.err ∧
      whole.code = max first.code second.code ∧ (whole.code = 0 ∨ whole.code = 1) := by
  obtain ⟨path, rest, same⟩ := List.exists_cons_of_ne_nil someFile
  obtain ⟨_, aloneFirst⟩ := alone path (by simp [same])
  obtain ⟨r, settings, reads, -⟩ := ReadsOptions.of_reported noFile aloneFirst
  have each : ∀ path ∈ files ++ others, IsArgument opts path ∧ ∃ report,
      fileReport r.options settings (pathText path) (read path) = .ok report := by
    intro path member
    obtain ⟨_, alonePath⟩ := alone path member
    obtain ⟨q, others, also, isPath, report⟩ := ReadsOptions.of_reported noFile alonePath
    obtain ⟨rfl, rfl⟩ := reads.unique also
    exact ⟨isPath, report⟩
  have here := fun path (member : path ∈ files) => each path (List.mem_append_left _ member)
  have there := fun path (member : path ∈ others) => each path (List.mem_append_right _ member)
  obtain ⟨first, reports, few⟩ := reportAll_ok fun path member => (here path member).2
  obtain ⟨second, reportsOthers, fewOthers⟩ := reportAll_ok fun path member => (there path member).2
  refine ⟨first, second, first.append second,
    reads.reports (fun path member => (here path member).1) someFile reports,
    reads.reports (fun path member => (there path member).1) someOther reportsOthers,
    reads.reports (fun path member => (each path member).1) (by simp [someFile])
      (reportAll_append reports reportsOthers),
    linesText_append .., linesText_append .., rfl, ?_⟩
  exact Nat.le_one_iff_eq_zero_or_eq_one.mp (Nat.max_le.mpr ⟨few, fewOthers⟩)

/-- One file, with a program. -/
def shelf (path : String) : Except Unreadable String :=
  if path = "one" then .ok "fn main()\x7bdisplayi32(1);\x7d" else .error .missing

def Ending.report? : Ending → Option Report
  | .reported report => some report
  | _ => none

theorem reported_of_report? {ending : Ending} {code : Nat}
    (reports : ending.report?.map (·.code) = some code) :
    ∃ report, ending = .reported report ∧ report.code = code := by
  cases ending with
  | reported report => exact ⟨report, rfl, Option.some.inj reports⟩
  | stopped stop => cases reports
  | broken fault => cases reports

/-- A missing file makes the exit code one, and the program after it still runs. -/
theorem command_append_goneOne :
    filesNamed ["--json", "--max-call-depth=9"] = [] ∧
      (∀ path ∈ ["gone"] ++ ["one"], ∃ report,
        command shelf (["--json", "--max-call-depth=9"] ++ [path]) = .reported report) ∧
      ∃ first second whole,
        command shelf ["--json", "--max-call-depth=9", "gone"] = .reported first ∧
        command shelf ["--json", "--max-call-depth=9", "one"] = .reported second ∧
        command shelf ["--json", "--max-call-depth=9", "gone", "one"] = .reported whole ∧
        linesText whole.out = linesText first.out ++ linesText second.out ∧
        linesText whole.err = linesText first.err ++ linesText second.err ∧
        first.code = 1 ∧ second.code = 0 ∧ whole.code = 1 := by
  have noFile : filesNamed ["--json", "--max-call-depth=9"] = [] := by decide +kernel
  obtain ⟨gone, isGone, goneCode⟩ := reported_of_report? (by decide +kernel :
    (command shelf (["--json", "--max-call-depth=9"] ++ ["gone"])).report?.map (·.code) = some 1)
  obtain ⟨one, isOne, oneCode⟩ := reported_of_report? (by decide +kernel :
    (command shelf (["--json", "--max-call-depth=9"] ++ ["one"])).report?.map (·.code) = some 0)
  have alone : ∀ path ∈ ["gone"] ++ ["one"], ∃ report,
      command shelf (["--json", "--max-call-depth=9"] ++ [path]) = .reported report := by
    simpa using ⟨⟨gone, isGone⟩, one, isOne⟩
  obtain ⟨first, second, whole, isFirst, isSecond, isWhole, out, err, code, -⟩ :=
    command_append noFile (List.cons_ne_nil _ _) (List.cons_ne_nil _ _) alone
  obtain rfl := Ending.reported.inj (isGone.symm.trans isFirst)
  obtain rfl := Ending.reported.inj (isOne.symm.trans isSecond)
  refine ⟨noFile, alone, gone, one, whole, isFirst, isSecond, isWhole, out, err, goneCode, oneCode, ?_⟩
  rw [code, goneCode, oneCode]
  rfl

end BorrowLang.CommandLine
