import Mathlib.Algebra.Order.Field.Rat
import DockyardRL.Executor.TestResults
import DockyardRL.Lib.Shell

/-! The reward of a solution that is scored by the required tests, from the command line to the
verdict, and the summary line that the test framework prints for them. -/
namespace DockyardRL
namespace Rewards

open Pattern Executor

inductive RewardStatus
  | ok | integrityFailure | executionError
  deriving DecidableEq

structure RewardVerificationResult where
  reward : ℚ
  status : RewardStatus
  evidenceHash : Option String
  failureReason : Option (List Char)
  deriving DecidableEq

/-- The keys of a trajectory that are read here; those that are read with `get` may be missing. -/
structure Trajectory where
  sandboxUrl : String
  repoUrl : String
  baseCommit : Option String
  patch : Option (List Char)
  testPatch : Option (List Char)
  goldPatch : Option (List Char)
  failToPass : Option (List String)
  passToPass : Option (List String)
  timeout : Option ℤ

structure TaskSpec where
  repoUrl : String
  baseCommit : String
  patch : List Char
  testPatch : List Char
  testCommand : List Char
  referencePatch : List Char
  captureDiff : Bool
  timeout : ℤ

inductive RewardMode
  | binary | testPassRate
  deriving DecidableEq

def quote (text : List Char) : List Char :=
  if text = [] then "''".toList
  else if text.all Shell.plain then text
  else '\'' :: text.flatMap Shell.escapeSingle ++ ['\'']

variable (classes : CharClasses)

def buildPytestCommand (nodeIds : List String) : List Char :=
  Words.strip classes.isSpace ("python3 -m pytest -p no:cacheprovider -q ".toList ++
    [' '].intercalate (nodeIds.map fun id => quote id.toList))

def Trajectory.nodeIds (trajectory : Trajectory) : List String :=
  trajectory.failToPass.getD [] ++ trajectory.passToPass.getD []

def Trajectory.spec (trajectory : Trajectory) : TaskSpec where
  repoUrl := trajectory.repoUrl
  baseCommit := trajectory.baseCommit.getD "HEAD"
  patch := trajectory.patch.getD []
  testPatch := trajectory.testPatch.getD []
  testCommand := buildPytestCommand classes trajectory.nodeIds
  referencePatch := trajectory.goldPatch.getD []
  captureDiff := true
  timeout := trajectory.timeout.getD 300

variable (sha256 : List Char → String)

def evidenceHash (text : List Char) : Option String := if text = [] then none else some (sha256 text)

def executionError (reason : List Char) : RewardVerificationResult :=
  ⟨0,.executionError,none,some reason⟩

/-- `TestRunnerReward.__call__`; `runTask` is `run_task` with the error of the client. -/
def testRunnerReward (rewardMode : RewardMode)
    (runTask : String → TaskSpec → Except (List Char) TaskResult) (trajectory : Trajectory) :
    RewardVerificationResult :=
  let nodeIds := trajectory.nodeIds
  if nodeIds = [] then
    executionError "trajectory has no fail_to_pass/pass_to_pass node IDs".toList
  else match runTask trajectory.sandboxUrl (trajectory.spec classes) with
  | .error exc => executionError exc
  | .ok result =>
    if result.status ≠ .completed then
      executionError ((if result.stderr = [] then "task did not complete".toList
        else result.stderr).take 512)
    else if !result.testPatchApplied.getD true then
      executionError "gold test_patch failed to apply".toList
    else
      let evidence := evidenceHash sha256 (result.patchDiff.getD [])
      if !result.patchApplied.getD true then
        ⟨0,.ok,evidence,some "agent patch did not apply".toList⟩
      else
        let passed := result.testsPassed.getD 0
        let failed := result.testsFailed.getD 0
        let exitCode := result.exitCode.getD (-1)
        let expected := nodeIds.length
        let resolved := exitCode = 0 ∧ failed = 0 ∧ expected ≤ passed
        let reward : ℚ := match rewardMode with
          | .binary => if resolved then 1 else 0
          | .testPassRate => max 0 (min 1 (passed / expected))
        ⟨reward,.ok,evidence,if resolved then none else
          some s!"unresolved: passed={passed}/{expected} failed={failed} exit={exitCode}".toList⟩

/-- How a test ends. -/
inductive Outcome
  | passed | failed | error | skipped | xfailed
  deriving DecidableEq

/-- A run of the required tests: how each ends, and what else the summary shows. The clock is
shown from a minute on. -/
structure PytestRun where
  outcome : String → Outcome
  warnings : ℕ
  hundredths : ℕ
  clock : Option ℕ

variable (run : PytestRun) (nodeIds : List String)

def PytestRun.count (outcome : Outcome) : ℕ := nodeIds.countP fun id => run.outcome id = outcome

def twoDigits (n : ℕ) : List Char := if n < 10 then '0' :: Nat.toDigits 10 n else Nat.toDigits 10 n

/-- `str(timedelta(seconds=s))`. -/
def clockText (s : ℕ) : List Char :=
  (if s / 86400 = 0 then []
    else Nat.toDigits 10 (s / 86400) ++ (if s / 86400 = 1 then " day, " else " days, ").toList) ++
    (Nat.toDigits 10 (s % 86400 / 3600) ++ [':']) ++
    (twoDigits (s % 3600 / 60) ++ [':']) ++ twoDigits (s % 60)

def PytestRun.duration : List Char :=
  Nat.toDigits 10 (run.hundredths / 100) ++ ['.'] ++ (twoDigits (run.hundredths % 100) ++ ['s']) ++
    match run.clock with
    | none => []
    | some s => " (".toList ++ (clockText s ++ [')'])

/-- The nouns that take an `s`. -/
def plural (noun : String) (n : ℕ) : List Char := (if n = 1 then noun else noun ++ "s").toList

def PytestRun.summaryParts : List (ℕ × List Char) :=
  [(run.count nodeIds .failed,"failed".toList),(run.count nodeIds .passed,"passed".toList),
    (run.count nodeIds .skipped,"skipped".toList),(run.count nodeIds .xfailed,"xfailed".toList),
    (run.warnings,plural "warning" run.warnings),
    (run.count nodeIds .error,plural "error" (run.count nodeIds .error))].filter fun part =>
      part.1 ≠ 0

/-- The last line that `pytest -q` prints. -/
def PytestRun.summaryLine : List Char :=
  ", ".toList.intercalate ((run.summaryParts nodeIds).map countOf) ++ " in ".toList ++ run.duration

/-- The exit code of `pytest`. -/
def PytestRun.exitCode : ℤ :=
  if run.count nodeIds .failed + run.count nodeIds .error = 0 then 0 else 1

/-- What is printed around the summary line: by the commands before the tests, on lines before
it and behind it by the test command, and on stderr. -/
structure Surroundings where
  gitOut : List (List Char)
  linesBefore : List (List Char)
  printedAfter : List Char
  gitErr : List (List Char)
  testErr : List Char

def lines (texts : List (List Char)) : List Char := texts.flatMap (· ++ ['\n'])

namespace Surroundings

variable (around : Surroundings)

def stdoutParts : List (List Char) :=
  around.gitOut ++ [lines around.linesBefore ++ run.summaryLine nodeIds ++
    '\n' :: around.printedAfter]

def stderrParts : List (List Char) := around.gitErr ++ [around.testErr]

def before : List Char := lines (around.gitOut.filter (· ≠ [])) ++ lines around.linesBefore

def behind : List Char := around.printedAfter ++ '\n' :: joinParts around.stderrParts

def runTask (patchDiff : Option (List Char)) (_ : String) (spec : TaskSpec) :
    Except (List Char) TaskResult :=
  .ok (countTests classes spec.testCommand (around.stdoutParts run nodeIds) around.stderrParts
    (run.exitCode nodeIds) patchDiff true)

end Surroundings

end Rewards
end DockyardRL
