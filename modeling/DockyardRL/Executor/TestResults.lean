import DockyardRL.Lib.Pattern

/-! What a clone task of the executor reports of its test run: the counts that are read off the
output of all its steps. -/
namespace DockyardRL
namespace Executor

open Pattern

inductive TaskStatus
  | pending | running | completed | failed
  deriving DecidableEq

/-- The fields of a task's record that its consumers read. -/
structure TaskResult where
  status : TaskStatus
  exitCode : Option ℤ
  stdout : List Char
  stderr : List Char
  testsPassed : Option ℕ
  testsFailed : Option ℕ
  patchDiff : Option (List Char)
  patchApplied : Option Bool
  testPatchApplied : Option Bool
  deriving DecidableEq

variable (classes : CharClasses)

/-- The interpreter's limit on the digits of a number that is read from a text. -/
def maxStrDigits : ℕ := 4300

/-- `int(m.group(k))`, or the text of its `ValueError`. -/
def int (digits : List Char) : Except String ℕ :=
  if maxStrDigits < digits.length then
    .error (s!"Exceeds the limit ({maxStrDigits} digits) for integer string conversion: " ++
      s!"value has {digits.length} digits; use sys.set_int_max_str_digits() to increase the limit")
  else .ok (classes.number digits)

def groupNumber : Option (List (List Char)) → Except String ℕ
  | some [digits] => int classes digits
  | _ => .ok 0

/-- `_parse_pytest`: the numbers passed and failed. -/
def parsePytest (text : List Char) : Except String (ℕ × ℕ) := do
  let passed ← groupNumber classes ((counted classes "passed".toList).search text)
  let failed ← groupNumber classes ((counted classes "failed".toList).search text)
  let errors ← groupNumber classes ((counted classes "error".toList).search text)
  return (passed,failed + errors)

/-- `test result:.*?(\d+)\s+passed;\s*(\d+)\s+failed`. -/
def cargoPattern : Pattern :=
  ⟨false,[.literal "test result:".toList,.run dot 0 true false,group1 classes.isDigit,
    some1 classes.isSpace,.literal "passed;".toList,many classes.isSpace,group1 classes.isDigit,
    some1 classes.isSpace,.literal "failed".toList]⟩

def parseCargo (text : List Char) : Except String (ℕ × ℕ) :=
  ((cargoPattern classes).findAll text).foldlM (fun total groups =>
    match groups with
    | [passed,failed] => do return (total.1 + (← int classes passed),total.2 + (← int classes failed))
    | _ => .ok total) (0,0)

def lineStart (word : String) : Pattern := ⟨true,[.literal word.toList]⟩

/-- `^word\s+\S+`. -/
def wordThenName (word : String) : Pattern :=
  ⟨true,[.literal word.toList,some1 classes.isSpace,some1 fun c => !classes.isSpace c]⟩

def parseGo (text : List Char) : Except String (ℕ × ℕ) :=
  let passed := ((lineStart "--- PASS:").findAll text).length
  let failed := ((lineStart "--- FAIL:").findAll text).length
  if passed = 0 ∧ failed = 0 then
    .ok (((wordThenName classes "ok").findAll text).length,
      ((wordThenName classes "FAIL").findAll text).length)
  else .ok (passed,failed)

def parseJest (text : List Char) : Except String (ℕ × ℕ) :=
  match Pattern.search ⟨true,[.literal "Tests:".toList,some1 classes.isSpace,group1 dot,.lineEnd]⟩
    text with
  | some [summary] => do
    let passed ← groupNumber classes ((counted classes "passed".toList).search summary)
    let failed ← groupNumber classes ((counted classes "failed".toList).search summary)
    return (passed,failed)
  | _ => .ok (0,0)

def parseDotnet (text : List Char) : Except String (ℕ × ℕ) :=
  match Pattern.search ⟨false,[.literal "Failed:".toList,many classes.isSpace,
    group1 classes.isDigit,.literal ",".toList,many classes.isSpace,.literal "Passed:".toList,
    many classes.isSpace,group1 classes.isDigit]⟩ text with
  | some [failedDigits,passedDigits] => do
    let failed ← int classes failedDigits
    let passed ← int classes passedDigits
    return (passed,failed)
  | _ => .ok (0,0)

/-- `Tests run:\s*(\d+),\s*Failures:\s*(\d+),\s*Errors:\s*(\d+)`. -/
def junitPattern : Pattern :=
  ⟨false,[.literal "Tests run:".toList,many classes.isSpace,group1 classes.isDigit,
    .literal ",".toList,many classes.isSpace,.literal "Failures:".toList,many classes.isSpace,
    group1 classes.isDigit,.literal ",".toList,many classes.isSpace,.literal "Errors:".toList,
    many classes.isSpace,group1 classes.isDigit]⟩

def parseJunit (text : List Char) : Except String (ℕ × ℕ) :=
  ((junitPattern classes).findAll text).foldlM (fun total groups =>
    match groups with
    | [runDigits,failureDigits,errorDigits] => do
      let run ← int classes runDigits
      let failures ← int classes failureDigits
      let errors ← int classes errorDigits
      return (total.1 + (run - failures - errors),total.2 + (failures + errors))
    | _ => .ok total) (0,0)

def firstCounting (text : List Char) :
    List (List Char → Except String (ℕ × ℕ)) → Except String (ℕ × ℕ)
  | [] => .ok (0,0)
  | parser :: parsers => do
    let found ← parser text
    if found.1 ≠ 0 ∨ found.2 ≠ 0 then return found else firstCounting text parsers

/-- `_dispatch_test_parser`. As none of the words looked for has a `k`, and none an `i` that a
combining dot could follow, the lower case of ASCII letters is all that matters. -/
def dispatchTestParser (testCommand text : List Char) : Except String (ℕ × ℕ) :=
  let cmd := testCommand.map Char.toLower
  let has (word : String) : Bool := decide (word.toList <:+: cmd)
  if has "pytest" || has "py.test" then parsePytest classes text
  else if has "cargo" then parseCargo classes text
  else if has "go test" then parseGo classes text
  else if has "jest" || (has "npm" && has "test") || (has "yarn" && has "test") ||
    (has "pnpm" && has "test") then parseJest classes text
  else if has "dotnet" then parseDotnet classes text
  else if has "mvn" || has "gradle" || has "sbt" || has "junit" then parseJunit classes text
  else firstCounting text [parsePytest classes,parseCargo classes,parseGo classes,
    parseJest classes,parseDotnet classes,parseJunit classes]

/-- `"\n".join(filter(None, parts))`. -/
def joinParts (parts : List (List Char)) : List Char :=
  ['\n'].intercalate (parts.filter (· ≠ []))

def combinedOutput (stdoutParts stderrParts : List (List Char)) : List Char :=
  joinParts stdoutParts ++ '\n' :: joinParts stderrParts

/-- The last part of `_execute_clone`, from the end of the test command on. -/
def countTests (testCommand : List Char) (stdoutParts stderrParts : List (List Char))
    (exitCode : ℤ) (patchDiff : Option (List Char)) (patchApplied : Bool) : TaskResult :=
  match dispatchTestParser classes testCommand (combinedOutput stdoutParts stderrParts) with
  | .ok (passed,failed) =>
    { status := .completed, exitCode := some exitCode,
      stdout := joinParts stdoutParts, stderr := joinParts stderrParts,
      testsPassed := some passed, testsFailed := some failed, patchDiff := patchDiff,
      patchApplied := some patchApplied, testPatchApplied := some true }
  | .error exc =>
    { status := .failed, exitCode := some (-1),
      stdout := joinParts stdoutParts, stderr := joinParts (stderrParts ++ [exc.toList]),
      testsPassed := some 0, testsFailed := some 0, patchDiff := none,
      patchApplied := some false, testPatchApplied := some false }

end Executor
end DockyardRL
