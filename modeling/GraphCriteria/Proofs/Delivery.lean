import GraphCriteria.CommandLine.Run
import GraphCriteria.Proofs.Files

/-!
# What a run delivers

A run reads its request, compiles it and delivers the answer.  When one of these fails, the exit code is
one and nothing else tells of it but the log; files change only in the last step.  What is delivered
depends on the text of the request, on the output path and on the form of the answer: not on how much is
logged, nor on how the text was given.

Main definitions:

- Definition `outcome`: what a run leaves behind besides its log.
- Definition `FileTree.textOf`: the text that a request stands for.

Main results:

- Theorems `outcome_of_unreadable`, `outcome_of_faulty` and `outcome_of_compiled`: how a run ends.
- Theorem `outcome_congr`: what an outcome depends on.
- Theorem `outcome_delivers`: what a run prints and writes.
-/

namespace GraphCriteria.CommandLine

/-- What a run leaves behind besides its log. -/
structure Outcome where
  exitCode : Nat
  stdout : String
  tree : FileTree
deriving DecidableEq

/-- The outcome of what ends in a report. -/
def outcomeOf (tree : FileTree) (action : StateM FileTree Report) : Outcome :=
  let (report, after) := action.run tree
  ⟨report.exitCode, report.stdout, after⟩

/-- The outcome of a run on some arguments. -/
def outcome (tree : FileTree) (args : List String) : Outcome :=
  outcomeOf tree (run FileTree.access args)

/-- The text that a request stands for: the contents of the file that it names, or else itself. -/
def FileTree.textOf (tree : FileTree) (request : String) : Except FileError String :=
  if tree.pathExists request then tree.readFile request else .ok request

/-- An answer on standard output, or in a file if there is a path. -/
def delivered (tree : FileTree) (answer : String) : Option String → Outcome
  | none => ⟨0, answer ++ "\n", tree⟩
  | some path =>
    match tree.writeFile path answer with
    | (after, .ok ()) => ⟨0, "", after⟩
    | (after, .error _) => ⟨1, "", after⟩

/-! ## The steps of a run -/

section

variable {tree after : FileTree}

theorem outcomeOf_bind {α : Type} {action : StateM FileTree α} {next : α → StateM FileTree Report}
    {a : α} (h : action.run tree = (a, after)) :
    outcomeOf tree (action >>= next) = outcomeOf after (next a) := by
  rw [outcomeOf, StateT.run_bind, h]
  rfl

theorem requestText_access (tree : FileTree) (request : String) :
    (requestText FileTree.access request).run tree = (tree.textOf request, tree) := by
  unfold FileTree.textOf
  cases h : tree.pathExists request <;> simp [requestText, FileTree.access, h] <;> rfl

theorem outcomeOf_deliver (tree : FileTree) (args : Arguments) (log : List LogLine)
    (answer : String) :
    outcomeOf tree (deliver FileTree.access args log answer) = delivered tree answer args.output := by
  unfold deliver delivered
  cases args.output with
  | none => rfl
  | some path =>
      dsimp only
      rcases hwrite : tree.writeFile path answer with ⟨after, result⟩
      have hrun : (FileTree.access.writeFile path answer).run tree = (result, after) := by
        change ((tree.writeFile path answer).2, (tree.writeFile path answer).1) = _
        rw [hwrite]
      rw [outcomeOf_bind hrun]
      cases result <;> rfl

end

section

variable {args : List String} {parsed : Arguments} {tree : FileTree}

/-- A run starts by looking for the text of its request. -/
theorem outcome_of_read (h : Arguments.read args = .ok parsed) :
    outcome tree args = outcomeOf tree (parsed.run FileTree.access) := by
  unfold outcome run
  rw [h]

/-- A run whose request cannot be read. -/
theorem outcome_of_unreadable {e : FileError} (h : Arguments.read args = .ok parsed)
    (htext : tree.textOf parsed.request = .error e) : outcome tree args = ⟨1, "", tree⟩ := by
  rw [outcome_of_read h, Arguments.run, outcomeOf_bind (requestText_access tree _), htext]
  rfl

/-- A run whose request does not compile. -/
theorem outcome_of_faulty {text : String} {e : ConditionError}
    (h : Arguments.read args = .ok parsed) (htext : tree.textOf parsed.request = .ok text)
    (hcompile : (compileText text []).1 = .error e) : outcome tree args = ⟨1, "", tree⟩ := by
  rw [outcome_of_read h, Arguments.run, outcomeOf_bind (requestText_access tree _), htext]
  dsimp only
  rcases hresult : compileText text [] with ⟨result, trace⟩
  rw [hresult] at hcompile
  cases hcompile
  rfl

/-- A run that compiles its request. -/
theorem outcome_of_compiled {text : String} {output : CompileOutput}
    (h : Arguments.read args = .ok parsed) (htext : tree.textOf parsed.request = .ok text)
    (hcompile : (compileText text []).1 = .ok output) :
    outcome tree args = delivered tree (parsed.answer output) parsed.output := by
  rw [outcome_of_read h, Arguments.run, outcomeOf_bind (requestText_access tree _), htext]
  dsimp only
  rcases hresult : compileText text [] with ⟨result, trace⟩
  rw [hresult] at hcompile
  cases hcompile
  exact outcomeOf_deliver tree parsed _ _

/-- The outcome depends on the text of the request, the output path and the form of the answer only. -/
theorem outcome_congr {args' : List String} {parsed' : Arguments}
    (h : Arguments.read args = .ok parsed) (h' : Arguments.read args' = .ok parsed')
    (houtput : parsed'.output = parsed.output) (hjson : parsed'.asJson = parsed.asJson)
    (htext : tree.textOf parsed'.request = tree.textOf parsed.request) :
    outcome tree args' = outcome tree args := by
  cases hcase : tree.textOf parsed.request with
  | error e => rw [outcome_of_unreadable h hcase, outcome_of_unreadable h' (htext.trans hcase)]
  | ok text =>
      cases hcompile : (compileText text []).1 with
      | error e =>
          rw [outcome_of_faulty h hcase hcompile,
            outcome_of_faulty h' (htext.trans hcase) hcompile]
      | ok output =>
          have hanswer : parsed'.answer output = parsed.answer output := by
            rw [Arguments.answer, Arguments.answer, hjson]
          rw [outcome_of_compiled h hcase hcompile,
            outcome_of_compiled h' (htext.trans hcase) hcompile, hanswer, houtput]

end

/-! ## Outcomes -/

/-- A run on arguments that make sense delivers the answer to its request or fails, whatever files there
are.  When the text of the request cannot be read or does not compile, the exit code is one, nothing is
printed and no file changes.  Otherwise the answer is printed and no file changes; or, with an output path
below the working directory, nothing is printed and the answer is the contents of that file if the exit
code is zero, and no file has changed if it is one.  At most, directories on the way to the file are made;
where these stand and the file can take its place, the exit code is zero.  The outcome depends on the text
of the request, the output path and the form of the answer only. -/
theorem outcome_delivers {args : List String} {parsed : Arguments}
    (h : Arguments.read args = .ok parsed) :
    (∀ files, (FileTree.ofFiles files).Plain) ∧
    ∀ tree : FileTree, tree.Plain →
      ((∃ e, tree.textOf parsed.request = .error e) ∨
          (∃ text e, tree.textOf parsed.request = .ok text ∧ (compileText text []).1 = .error e) →
        outcome tree args = ⟨1, "", tree⟩) ∧
      (∀ text output answer, tree.textOf parsed.request = .ok text →
        (compileText text []).1 = .ok output →
        answer = (if parsed.asJson then output.json.pretty else output.fragment) →
        (parsed.output = none → outcome tree args = ⟨0, answer ++ "\n", tree⟩) ∧
        ∀ path, parsed.output = some path → (placeOf path).anchor = .above 0 →
          (outcome tree args).stdout = "" ∧
          ((outcome tree args).exitCode = 0 ∧
              (outcome tree args).tree.node? (placeOf path) = some (.file answer) ∧
              (outcome tree args).tree.readFile path = .ok answer ∧
              (∀ place, place ≠ placeOf path →
                FileTree.Keeps (components path).dropLast tree (outcome tree args).tree place) ∨
            (outcome tree args).exitCode = 1 ∧
              FileTree.Grows (components path).dropLast tree (outcome tree args).tree) ∧
          ((tree.placeToWrite path).isOk = true → (outcome tree args).exitCode = 0)) ∧
      ∀ args' parsed', Arguments.read args' = .ok parsed' → parsed'.output = parsed.output →
        parsed'.asJson = parsed.asJson →
        (parsed'.request = parsed.request ∨ tree.pathExists parsed.request = false ∧
          tree.pathExists parsed'.request = true ∧
            tree.readFile parsed'.request = .ok parsed.request) →
        outcome tree args' = outcome tree args := by
  refine ⟨FileTree.plain_ofFiles, fun tree hplain => ⟨?_, ?_, ?_⟩⟩
  · rintro (⟨e, htext⟩ | ⟨text, e, htext, hcompile⟩)
    · exact outcome_of_unreadable h htext
    · exact outcome_of_faulty h htext hcompile
  · intro text output answer htext hcompile hanswer
    have heq : outcome tree args = delivered tree answer parsed.output := by
      rw [outcome_of_compiled h htext hcompile, hanswer]
      rfl
    refine ⟨fun hnone => by rw [heq, hnone]; rfl, fun path hsome hbelow => ?_⟩
    have hwritten := FileTree.writeFile_written hplain hbelow answer
    rw [heq, hsome, delivered]
    rcases hwrite : tree.writeFile path answer with ⟨after, result⟩
    rw [hwrite] at hwritten
    cases hwritten with
    | ok hothers hplace hread => exact ⟨rfl, .inl ⟨rfl, hplace, hread, hothers⟩, fun _ => rfl⟩
    | error e hgrows =>
        refine ⟨rfl, .inr ⟨rfl, hgrows⟩, fun hfree => ?_⟩
        cases hplace : tree.placeToWrite path with
        | error =>
            rw [hplace] at hfree
            cases hfree
        | ok place =>
            have hok := FileTree.writeFile_ok hplace answer
            rw [hwrite] at hok
            cases hok
  · intro args' parsed' h' houtput hjson hrequest
    refine outcome_congr h h' houtput hjson ?_
    rcases hrequest with hrequest | ⟨habsent, hpresent, hread⟩
    · rw [hrequest]
    · simp [FileTree.textOf, habsent, hpresent, hread]

namespace Sample

/-- A request for one node. -/
def nodeText : String :=
  "\x7b\"entity_type\":\"node\",\"keys\":\x7b\"id\":\"nid\",\"bundle\":\"type\"\x7d," ++
    "\"conditions\":\x7b\"entries\":[\x7b\"field\":\"nid\",\"value\":\"1\"\x7d]\x7d\x7d"

/-- A tree with the request in a file, and another file. -/
def nodeTree : FileTree :=
  .ofFiles [("request.json", nodeText), ("out/old.txt", "")]

/-- Arguments that give the request itself. -/
def inlineArgs : List String :=
  ["-vr", nodeText, "-o", "out/new/../where.rq"]

/-- Arguments that give the request by its file. -/
def fileArgs : List String :=
  ["--request=./request.json", "-qqo", "out/new/../where.rq"]

end Sample

/-- A run that writes a file and makes a directory on the way to it, and the run on the file of the
request; a request that is a directory. -/
theorem outcome_delivers_where :
    (outcome Sample.nodeTree Sample.inlineArgs).exitCode = 0 ∧
      (outcome Sample.nodeTree Sample.inlineArgs).tree.node? ⟨.above 0, ["out", "where.rq"]⟩ =
        some (.file ("?entity <http://www.w3.org/1999/02/22-rdf-syntax-ns#type> ?type . " ++
          "VALUES ?entity \x7b 1 \x7d")) ∧
      FileTree.Keeps (components "out/new/../where.rq").dropLast Sample.nodeTree
        (outcome Sample.nodeTree Sample.inlineArgs).tree ⟨.above 0, ["out", "new"]⟩ ∧
      outcome Sample.nodeTree Sample.fileArgs = outcome Sample.nodeTree Sample.inlineArgs ∧
      outcome Sample.nodeTree ["-rout"] = ⟨1, "", Sample.nodeTree⟩ := by
  have hinline : Arguments.read Sample.inlineArgs =
      .ok ⟨Sample.nodeText, some "out/new/../where.rq", false, 1, 0⟩ :=
    eq_ok_of_toOption (by decide +kernel)
  have hfile : Arguments.read Sample.fileArgs =
      .ok ⟨"./request.json", some "out/new/../where.rq", false, 0, 2⟩ :=
    eq_ok_of_toOption (by decide +kernel)
  have hout : Arguments.read ["-rout"] = .ok ⟨"out", none, false, 0, 0⟩ :=
    eq_ok_of_toOption (by decide +kernel)
  have hplain : Sample.nodeTree.Plain := (outcome_delivers hinline).1 _
  obtain ⟨-, hdelivered, hsame⟩ := (outcome_delivers hinline).2 Sample.nodeTree hplain
  obtain ⟨output, hcompile, hfragment⟩ : ∃ output,
      (compileText Sample.nodeText []).1 = .ok output ∧ output.fragment =
        "?entity <http://www.w3.org/1999/02/22-rdf-syntax-ns#type> ?type . " ++
          "VALUES ?entity \x7b 1 \x7d" := by
    have h : (compileText Sample.nodeText []).1.toOption.map CompileOutput.fragment =
        some ("?entity <http://www.w3.org/1999/02/22-rdf-syntax-ns#type> ?type . " ++
          "VALUES ?entity \x7b 1 \x7d") := by
      decide +kernel
    obtain ⟨output, houtput, hfragment⟩ := Option.map_eq_some_iff.1 h
    exact ⟨output, eq_ok_of_toOption houtput, hfragment⟩
  have hzero : (outcome Sample.nodeTree Sample.inlineArgs).exitCode = 0 := by decide +kernel
  have habsent : Sample.nodeTree.pathExists Sample.nodeText = false := by decide +kernel
  have htext : Sample.nodeTree.textOf Sample.nodeText = .ok Sample.nodeText := by
    rw [FileTree.textOf, habsent]
    rfl
  obtain ⟨-, hpath⟩ := hdelivered Sample.nodeText output output.fragment htext hcompile rfl
  obtain ⟨-, hwritten, -⟩ := hpath "out/new/../where.rq" rfl (by decide +kernel)
  rcases hwritten with ⟨-, hplace, -, hothers⟩ | ⟨hone, -⟩
  · refine ⟨hzero, ?_, hothers _ (by decide +kernel), ?_, ?_⟩
    · rw [← hfragment]
      exact hplace
    · exact hsame Sample.fileArgs _ hfile rfl rfl
        (.inr ⟨habsent, by decide +kernel, eq_ok_of_toOption (by decide +kernel)⟩)
    · refine ((outcome_delivers hout).2 Sample.nodeTree hplain).1 (.inl ?_)
      have hnone : (Sample.nodeTree.textOf "out").toOption = none := by decide +kernel
      cases hcase : Sample.nodeTree.textOf "out" with
      | error e => exact ⟨e, rfl⟩
      | ok text =>
          rw [hcase] at hnone
          cases hnone
  · rw [hzero] at hone
    cases hone

end GraphCriteria.CommandLine
