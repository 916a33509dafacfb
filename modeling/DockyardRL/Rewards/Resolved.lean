import Mathlib.Algebra.Order.Field.Basic
import Mathlib.Data.Nat.Cast.Order.Ring
import DockyardRL.Rewards.TestRunner

/-! When the verdict on a solution follows from how its required tests end. The counts are those
that stand first in all of the output. -/
namespace DockyardRL
namespace Rewards

open Pattern Executor

variable (classes : CharClasses) (sha256 : List Char → String)

theorem dispatch_buildPytestCommand (nodeIds : List String) (text : List Char) :
    dispatchTestParser classes (buildPytestCommand classes nodeIds) text =
      parsePytest classes text := by
  have hpytest : "pytest".toList <:+: (buildPytestCommand classes nodeIds).map Char.toLower := by
    let front := "python3 -m pytest".toList
    have hp : classes.isSpace 'p' = false := not_isSpace_of_isAlpha rfl
    have ht : classes.isSpace 't' = false := not_isSpace_of_isAlpha rfl
    have hkept : ∀ text, front <+: Words.strip classes.isSpace (front ++ text) := by
      intro text
      have hstart : (front ++ text).dropWhile classes.isSpace = front ++ text := by
        show ('p' :: ("ython3 -m pytest".toList ++ text)).dropWhile classes.isSpace = _
        rw [List.dropWhile_cons_of_neg (by simp [hp])]
        rfl
      have hend : front.rdropWhile classes.isSpace = front := by
        refine List.rdropWhile_eq_self_iff.mpr fun hne => ?_
        have hlast : front.getLast hne = 't' := rfl
        simp [hlast,ht]
      rw [Words.strip,hstart,Words.rdropWhile_append,hend]
      split_ifs
      · exact List.prefix_rfl
      · exact List.prefix_append _ _
    have hcommand : "python3 -m pytest -p no:cacheprovider -q ".toList =
        front ++ " -p no:cacheprovider -q ".toList := by decide
    have hfront : "pytest".toList <:+: front.map Char.toLower := by decide
    rw [buildPytestCommand,hcommand,List.append_assoc]
    exact hfront.trans ((hkept _).map Char.toLower).isInfix
  unfold dispatchTestParser
  simp only [hpytest,decide_true,Bool.true_or,if_true]

theorem parsePytest_eq_ok_iff {text : List Char} {passed failed : ℕ} :
    parsePytest classes text = .ok (passed,failed) ↔
      groupNumber classes ((counted classes "passed".toList).search text) = .ok passed ∧
      ∃ f e, groupNumber classes ((counted classes "failed".toList).search text) = .ok f ∧
        groupNumber classes ((counted classes "error".toList).search text) = .ok e ∧
        f + e = failed := by
  rw [parsePytest]
  cases groupNumber classes ((counted classes "passed".toList).search text) with
  | error exc => simp [bind,Except.bind]
  | ok p =>
    cases groupNumber classes ((counted classes "failed".toList).search text) with
    | error exc => simp [bind,Except.bind]
    | ok f =>
      cases groupNumber classes ((counted classes "error".toList).search text) with
      | error exc => simp [bind,Except.bind]
      | ok e => simp [bind,Except.bind,pure,Except.pure]

theorem lines_append (texts texts' : List (List Char)) :
    lines (texts ++ texts') = lines texts ++ lines texts' := List.flatMap_append

theorem joinParts_concat (parts : List (List Char)) {last : List Char} (hlast : last ≠ []) :
    joinParts (parts ++ [last]) = lines (parts.filter (· ≠ [])) ++ last := by
  have hkept : (parts ++ [last]).filter (· ≠ []) = parts.filter (· ≠ []) ++ [last] := by
    simp [hlast]
  rw [joinParts,hkept]
  induction parts.filter (· ≠ []) with
  | nil => simp [lines]
  | cons part parts ih =>
    cases parts with
    | nil => simp [lines]
    | cons next parts =>
      rw [List.cons_append,List.cons_append,List.intercalate_cons_cons,← List.cons_append,ih]
      simp [lines]

theorem countIn_lines {word : List Char} (hword : Letters word) (texts : List (List Char))
    {digit : Char} (hdigit : classes.isDigit digit = true) (rest : List Char) :
    countIn classes word (lines texts ++ digit :: rest) =
      (countIn classes word (lines texts)).or (countIn classes word (digit :: rest)) := by
  rcases List.eq_nil_or_concat' texts with rfl | ⟨front,last,rfl⟩
  · rfl
  · have hend : lines (front ++ [last]) = (lines front ++ last) ++ ['\n'] := by simp [lines]
    have hblank : classes.isSpace '\n' = true := by
      rw [isSpace_ascii (by decide)]
      rfl
    rw [hend,List.append_assoc,List.singleton_append]
    exact countIn_append hword hblank hdigit _ rest

variable (run : PytestRun) (nodeIds : List String)

theorem letters_plural {noun : String} (hnoun : Letters noun.toList) (n : ℕ) :
    Letters (plural noun n) := by
  rw [plural]
  split_ifs
  · exact hnoun
  · have hs : (noun ++ "s").toList = noun.toList ++ ['s'] := by simp
    rw [hs]
    refine ⟨by simp,?_⟩
    rw [List.all_append,hnoun.2]
    rfl

theorem letters_summaryParts {part : ℕ × List Char} (hpart : part ∈ run.summaryParts nodeIds) :
    Letters part.2 := by
  have hmem := List.mem_of_mem_filter hpart
  have hwarnings := @letters_plural "warning" (by decide) run.warnings
  have herrors := @letters_plural "error" (by decide) (run.count nodeIds .error)
  simp only [List.mem_cons,List.not_mem_nil,or_false] at hmem
  rcases hmem with rfl | rfl | rfl | rfl | rfl | rfl
  · exact (by decide : Letters "failed".toList)
  · exact (by decide : Letters "passed".toList)
  · exact (by decide : Letters "skipped".toList)
  · exact (by decide : Letters "xfailed".toList)
  · exact hwarnings
  · exact herrors

theorem summaryParts_ne_nil (hids : nodeIds ≠ []) : run.summaryParts nodeIds ≠ [] := by
  obtain ⟨id,hid⟩ := List.exists_mem_of_ne_nil nodeIds hids
  have hcount : run.count nodeIds (run.outcome id) ≠ 0 := by
    refine Nat.pos_iff_ne_zero.mp (List.countP_pos_iff.mpr ⟨id,hid,?_⟩)
    exact decide_eq_true rfl
  rw [PytestRun.summaryParts]
  intro hnone
  rw [List.filter_eq_nil_iff] at hnone
  cases hout : run.outcome id <;> rw [hout] at hcount <;> simp [hcount] at hnone

def starts (word : String) (noun : List Char) : Bool := decide (word.toList <+: noun)

theorem starts_plural {word noun : String} {b : Bool} (hone : starts word noun.toList = b)
    (hmany : starts word (noun ++ "s").toList = b) (n : ℕ) : starts word (plural noun n) = b := by
  rw [plural]
  split_ifs
  · exact hone
  · exact hmany

theorem find_summaryParts {outcome : Outcome} {word : String}
    (h : (outcome,word) ∈ [(Outcome.passed,"passed"),(.failed,"failed"),(.error,"error")]) :
    ((run.summaryParts nodeIds).find? fun part => starts word part.2).map Prod.fst =
      if run.count nodeIds outcome = 0 then none else some (run.count nodeIds outcome) := by
  simp only [List.mem_cons,Prod.mk.injEq,List.not_mem_nil,or_false] at h
  rw [PytestRun.summaryParts,List.find?_filter]
  have hnouns : ["failed","passed","skipped","xfailed"].map (fun noun => starts word noun.toList) =
        [decide (word = "failed"),decide (word = "passed"),false,false] ∧
      starts word "warning".toList = false ∧ starts word ("warning" ++ "s").toList = false ∧
      starts word "error".toList = decide (word = "error") ∧
      starts word ("error" ++ "s").toList = decide (word = "error") := by
    rcases h with ⟨-,rfl⟩ | ⟨-,rfl⟩ | ⟨-,rfl⟩ <;> decide
  obtain ⟨hfour,hwarning,hwarnings,herror,herrors⟩ := hnouns
  simp only [List.map_cons,List.map_nil,List.cons.injEq,and_true] at hfour
  obtain ⟨hfailed,hpassed,hskipped,hxfailed⟩ := hfour
  simp only [List.find?_cons,hfailed,hpassed,hskipped,hxfailed,
    starts_plural hwarning hwarnings,starts_plural herror herrors,List.find?_nil]
  rcases h with ⟨rfl,rfl⟩ | ⟨rfl,rfl⟩ | ⟨rfl,rfl⟩
  · by_cases hzero : run.count nodeIds .passed = 0 <;> simp [hzero]
  · by_cases hzero : run.count nodeIds .failed = 0 <;> simp [hzero]
  · by_cases hzero : run.count nodeIds .error = 0 <;> simp [hzero]

theorem passes_literal {word piece : List Char}
    (h : piece.all (fun c => decide (c.toNat < 128) && !c.isDigit) = true) :
    Passes classes word piece := by
  refine passes_of_not_isDigit fun c hc => ?_
  have hascii := List.all_eq_true.mp h c hc
  rw [Bool.and_eq_true,decide_eq_true_eq,Bool.not_eq_true'] at hascii
  rw [isDigit_ascii hascii.1]
  exact hascii.2

theorem isDigit_of_mem_twoDigits {n : ℕ} {c : Char} (hc : c ∈ twoDigits n) :
    classes.isDigit c = true := by
  have hzero : classes.isDigit '0' = true := by
    rw [isDigit_ascii (by decide)]
    rfl
  rw [twoDigits] at hc
  split_ifs at hc
  · rcases List.mem_cons.mp hc with rfl | hc
    · exact hzero
    · exact isDigit_of_mem_toDigits hc
  · exact isDigit_of_mem_toDigits hc

theorem passes_mark {word digits : List Char} (hdigits : ∀ c ∈ digits, classes.isDigit c = true)
    {c : Char} (hc : c ∈ ['.',':','s',')']) : Passes classes word (digits ++ [c]) := by
  have hmark : c.toNat < 128 ∧ c.isDigit = false ∧
      ¬ (9 ≤ c.toNat ∧ c.toNat ≤ 13 ∨ 28 ≤ c.toNat ∧ c.toNat ≤ 32) := by
    simp only [List.mem_cons,List.not_mem_nil,or_false] at hc
    rcases hc with rfl | rfl | rfl | rfl <;> decide
  refine passes_digits hdigits ((isDigit_ascii hmark.1).trans hmark.2.1) ?_
  rw [isSpace_ascii hmark.1]
  exact decide_eq_false hmark.2.2

theorem passes_clockText {word : List Char} (hword : Letters word) (hday : word.head? ≠ some 'd')
    (s : ℕ) : Passes classes word (clockText s ++ [')']) := by
  have hdays : Passes classes word (if s / 86400 = 0 then []
      else Nat.toDigits 10 (s / 86400) ++ (if s / 86400 = 1 then " day, " else " days, ").toList) := by
    have hnumber := @passes_digits_blank classes word _
      (fun c hc => @isDigit_of_mem_toDigits classes (s / 86400) c hc) ' ' 'd' isSpace_space
      (by decide) hday hword
    split_ifs
    · exact fun rest => rfl
    · have hrest := hnumber.append (@passes_literal classes word "ay, ".toList rfl)
      simpa using hrest
    · have hrest := hnumber.append (@passes_literal classes word "ays, ".toList rfl)
      simpa using hrest
  have hhours := @passes_mark classes word _ (fun c hc =>
    @isDigit_of_mem_toDigits classes (s % 86400 / 3600) c hc) ':' (by decide)
  have hminutes := @passes_mark classes word _ (fun c hc =>
    @isDigit_of_mem_twoDigits classes (s % 3600 / 60) c hc) ':' (by decide)
  have hseconds := @passes_mark classes word _ (fun c hc =>
    @isDigit_of_mem_twoDigits classes (s % 60) c hc) ')' (by decide)
  rw [clockText,List.append_assoc]
  exact ((hdays.append hhours).append hminutes).append hseconds

theorem passes_duration {word : List Char} (hword : Letters word) (hday : word.head? ≠ some 'd') :
    Passes classes word run.duration := by
  have hwhole := @passes_mark classes word _ (fun c hc =>
    @isDigit_of_mem_toDigits classes (run.hundredths / 100) c hc) '.' (by decide)
  have hpart := @passes_mark classes word _ (fun c hc =>
    @isDigit_of_mem_twoDigits classes (run.hundredths % 100) c hc) 's' (by decide)
  rw [PytestRun.duration]
  cases run.clock with
  | none =>
    rw [List.append_nil]
    exact hwhole.append hpart
  | some s =>
    have hopen : Passes classes word " (".toList := passes_literal classes (by decide)
    exact (hwhole.append hpart).append (hopen.append (passes_clockText classes hword hday s))

variable (around : Surroundings)

theorem combinedOutput_eq :
    combinedOutput (around.stdoutParts run nodeIds) around.stderrParts =
      around.before ++ (run.summaryLine nodeIds ++ '\n' :: around.behind) := by
  have hne : lines around.linesBefore ++ run.summaryLine nodeIds ++ '\n' :: around.printedAfter ≠ [] := by
    simp
  rw [combinedOutput,Surroundings.stdoutParts,joinParts_concat _ hne,Surroundings.before,
    Surroundings.behind]
  simp [List.append_assoc]

theorem summaryLine_cons (hids : nodeIds ≠ []) : ∃ digit rest,
    run.summaryLine nodeIds = digit :: rest ∧ classes.isDigit digit = true := by
  obtain ⟨part,parts,hparts⟩ := List.exists_cons_of_ne_nil (summaryParts_ne_nil run nodeIds hids)
  cases hdigits : Nat.toDigits 10 part.1 with
  | nil => exact absurd hdigits Nat.toDigits_ne_nil
  | cons digit digits =>
    have hdigit := @isDigit_of_mem_toDigits classes part.1 digit (hdigits ▸ List.mem_cons_self)
    have hstart : ∃ rest, ", ".toList.intercalate ((part :: parts).map countOf) = digit :: rest := by
      rw [List.map_cons,countOf,hdigits]
      cases parts with
      | nil => exact ⟨_,List.intercalate_singleton⟩
      | cons next parts => exact ⟨_,List.intercalate_cons_cons⟩
    obtain ⟨rest,hrest⟩ := hstart
    rw [PytestRun.summaryLine,hparts,hrest]
    exact ⟨digit,_,rfl,hdigit⟩

theorem countIn_output (hids : nodeIds ≠ []) {outcome : Outcome} {word : String}
    (h : (outcome,word) ∈ [(Outcome.passed,"passed"),(.failed,"failed"),(.error,"error")]) :
    countIn classes word.toList
        (combinedOutput (around.stdoutParts run nodeIds) around.stderrParts) =
      (countIn classes word.toList around.before).or
        (if run.count nodeIds outcome = 0 then countIn classes word.toList around.behind
          else some (Nat.toDigits 10 (run.count nodeIds outcome))) := by
  have hword : Letters word.toList ∧ word.toList.head? ≠ some 'd' := by
    simp only [List.mem_cons,Prod.mk.injEq,List.not_mem_nil,or_false] at h
    rcases h with ⟨-,rfl⟩ | ⟨-,rfl⟩ | ⟨-,rfl⟩ <;> decide
  obtain ⟨digit,rest,hline,hdigit⟩ := summaryLine_cons classes run nodeIds hids
  have hsummary : countIn classes word.toList (run.summaryLine nodeIds ++ '\n' :: around.behind) =
      if run.count nodeIds outcome = 0 then countIn classes word.toList around.behind
      else some (Nat.toDigits 10 (run.count nodeIds outcome)) := by
    have hparts : ∀ part ∈ run.summaryParts nodeIds, Letters part.2 :=
      fun part hpart => letters_summaryParts run nodeIds hpart
    have hpass : countIn classes word.toList (' ' :: ("in ".toList ++ run.duration ++
        '\n' :: around.behind)) = countIn classes word.toList around.behind := by
      have hin : Passes classes word.toList " in ".toList := passes_literal classes (by decide)
      have hfeed : Passes classes word.toList ['\n'] := passes_literal classes (by decide)
      have hall := (hin.append (passes_duration classes run hword.1 hword.2)).append hfeed
      simpa using hall around.behind
    have hfound := @countIn_intercalate classes _ hword.1 ' ' rfl _ hparts
      (summaryParts_ne_nil run nodeIds hids) ("in ".toList ++ run.duration ++ '\n' :: around.behind)
    have hfirst := congrArg (Option.map (Nat.toDigits 10)) (find_summaryParts run nodeIds h)
    have hline : run.summaryLine nodeIds ++ '\n' :: around.behind =
        [',',' '].intercalate ((run.summaryParts nodeIds).map countOf) ++
          ' ' :: ("in ".toList ++ run.duration ++ '\n' :: around.behind) := by
      simp [PytestRun.summaryLine]
    rw [Option.map_map] at hfirst
    rw [hline,hfound,hpass]
    refine (congrArg (Option.or · _) hfirst).trans ?_
    by_cases hzero : run.count nodeIds outcome = 0 <;> simp [hzero]
  rw [combinedOutput_eq,Surroundings.before,← lines_append,hline,List.cons_append,
    countIn_lines classes hword.1 _ hdigit,← List.cons_append,← hline,hsummary]

/-- The number that the search meets in place of the summary's, before the summary line or, when
that shows no such number, behind it. -/
def stray (word : String) (n : ℕ) : Option (List (List Char)) :=
  ((counted classes word.toList).search around.before).or
    (if n = 0 then (counted classes word.toList).search around.behind else none)

/-- Where the summary counts `n` of a word, the number `m` is read. -/
def Reads (word : String) (n m : ℕ) : Prop :=
  match stray classes around word n with
  | some groups => groupNumber classes (some groups) = .ok m
  | none => m = n ∧ (Nat.toDigits 10 n).length ≤ maxStrDigits

theorem reads_of_stray_eq_none {word : String} {n : ℕ} (h : stray classes around word n = none)
    (hshort : (Nat.toDigits 10 n).length ≤ maxStrDigits) : Reads classes around word n n := by
  rw [Reads,h]
  exact ⟨rfl,hshort⟩

theorem int_toDigits_eq_ok_iff {n m : ℕ} : int classes (Nat.toDigits 10 n) = .ok m ↔
    m = n ∧ (Nat.toDigits 10 n).length ≤ maxStrDigits := by
  rw [int]
  by_cases hlong : maxStrDigits < (Nat.toDigits 10 n).length
  · rw [if_pos hlong]
    simp [Nat.not_le.mpr hlong]
  · rw [if_neg hlong,number_toDigits]
    simp [Nat.not_lt.mp hlong,eq_comm]

theorem groupNumber_eq_ok_iff (hids : nodeIds ≠ []) {outcome : Outcome} {word : String}
    (h : (outcome,word) ∈ [(Outcome.passed,"passed"),(.failed,"failed"),(.error,"error")]) (m : ℕ) :
    groupNumber classes ((counted classes word.toList).search
        (combinedOutput (around.stdoutParts run nodeIds) around.stderrParts)) = .ok m ↔
      Reads classes around word (run.count nodeIds outcome) m := by
  have hword : Letters word.toList := by
    simp only [List.mem_cons,Prod.mk.injEq,List.not_mem_nil,or_false] at h
    rcases h with ⟨-,rfl⟩ | ⟨-,rfl⟩ | ⟨-,rfl⟩ <;> decide
  rw [Reads,stray,search_counted hword,search_counted hword,search_counted hword,
    countIn_output classes run nodeIds around hids h]
  cases countIn classes word.toList around.before with
  | some digits => exact Iff.rfl
  | none =>
    by_cases hzero : run.count nodeIds outcome = 0
    · rw [if_pos hzero,if_pos hzero,hzero]
      cases countIn classes word.toList around.behind with
      | some digits => exact Iff.rfl
      | none =>
        have hlimit : 1 ≤ maxStrDigits := by decide
        simp [groupNumber,hlimit,eq_comm]
    · rw [if_neg hzero,if_neg hzero]
      exact int_toDigits_eq_ok_iff classes

variable (patchDiff : Option (List Char)) (trajectory : Trajectory)

def rewardOf (rewardMode : RewardMode) : ℚ :=
  (testRunnerReward classes sha256 rewardMode
    (around.runTask classes run trajectory.nodeIds patchDiff) trajectory).reward

/-- The counts are those of the tests, and so the rewards are what the tests deserve. -/
def VerdictExact : Prop :=
  dispatchTestParser classes (buildPytestCommand classes trajectory.nodeIds)
      (combinedOutput (around.stdoutParts run trajectory.nodeIds) around.stderrParts) =
    .ok (run.count trajectory.nodeIds .passed,
      run.count trajectory.nodeIds .failed + run.count trajectory.nodeIds .error) ∧
  (rewardOf classes sha256 run around patchDiff trajectory .binary = 1 ↔
    ∀ id ∈ trajectory.nodeIds, run.outcome id = .passed) ∧
  rewardOf classes sha256 run around patchDiff trajectory .testPassRate =
    run.count trajectory.nodeIds .passed / trajectory.nodeIds.length

/-- The numbers that are met in place of the summary's make no difference: the number of passed
tests is the same, and those of failed tests and of errors have the same sum. -/
def CountsStand : Prop :=
  Reads classes around "passed" (run.count nodeIds .passed) (run.count nodeIds .passed) ∧
  ∃ failed errors, Reads classes around "failed" (run.count nodeIds .failed) failed ∧
    Reads classes around "error" (run.count nodeIds .error) errors ∧
    failed + errors = run.count nodeIds .failed + run.count nodeIds .error

theorem count_passed_eq_length_iff :
    run.count nodeIds .passed = nodeIds.length ↔ ∀ id ∈ nodeIds, run.outcome id = .passed := by
  rw [PytestRun.count,List.countP_eq_length]
  simp

theorem count_eq_zero_of_passed (h : ∀ id ∈ nodeIds, run.outcome id = .passed) {outcome : Outcome}
    (hne : outcome ≠ .passed) : run.count nodeIds outcome = 0 := by
  refine List.countP_eq_zero.mpr fun id hid => ?_
  rw [h id hid]
  simpa using hne.symm

theorem runTask_of_counts {passed failed : ℕ}
    (h : dispatchTestParser classes (buildPytestCommand classes trajectory.nodeIds)
        (combinedOutput (around.stdoutParts run trajectory.nodeIds) around.stderrParts) =
      .ok (passed,failed)) (url : String) :
    around.runTask classes run trajectory.nodeIds patchDiff url (trajectory.spec classes) =
      .ok { status := .completed, exitCode := some (run.exitCode trajectory.nodeIds),
            stdout := joinParts (around.stdoutParts run trajectory.nodeIds),
            stderr := joinParts around.stderrParts, testsPassed := some passed,
            testsFailed := some failed, patchDiff := patchDiff, patchApplied := some true,
            testPatchApplied := some true } := by
  have hcommand : (trajectory.spec classes).testCommand =
      buildPytestCommand classes trajectory.nodeIds := rfl
  rw [Surroundings.runTask,countTests,hcommand,h]

theorem rewards_of_counts (hids : trajectory.nodeIds ≠ [])
    (h : dispatchTestParser classes (buildPytestCommand classes trajectory.nodeIds)
        (combinedOutput (around.stdoutParts run trajectory.nodeIds) around.stderrParts) =
      .ok (run.count trajectory.nodeIds .passed,
        run.count trajectory.nodeIds .failed + run.count trajectory.nodeIds .error)) :
    (rewardOf classes sha256 run around patchDiff trajectory .binary = 1 ↔
      ∀ id ∈ trajectory.nodeIds, run.outcome id = .passed) ∧
    rewardOf classes sha256 run around patchDiff trajectory .testPassRate =
      run.count trajectory.nodeIds .passed / trajectory.nodeIds.length := by
  have hanswer := runTask_of_counts classes run around patchDiff trajectory h
  have hle : run.count trajectory.nodeIds .passed ≤ trajectory.nodeIds.length := List.countP_le_length
  have hall := count_passed_eq_length_iff run trajectory.nodeIds
  constructor
  · have hreward : rewardOf classes sha256 run around patchDiff trajectory .binary =
        if run.exitCode trajectory.nodeIds = 0 ∧
          run.count trajectory.nodeIds .failed + run.count trajectory.nodeIds .error = 0 ∧
          trajectory.nodeIds.length ≤ run.count trajectory.nodeIds .passed then 1 else 0 := by
      simp [rewardOf,testRunnerReward,hids,hanswer]
    have hone : ∀ p : Prop, [Decidable p] → ((if p then (1 : ℚ) else 0) = 1 ↔ p) := by
      intro p _
      by_cases hp : p <;> simp [hp]
    rw [hreward,hone]
    constructor
    · rintro ⟨-,-,hge⟩
      exact hall.mp (Nat.le_antisymm hle hge)
    · intro hpassed
      have hzero : run.count trajectory.nodeIds .failed + run.count trajectory.nodeIds .error = 0 := by
        rw [count_eq_zero_of_passed run _ hpassed (by decide),
          count_eq_zero_of_passed run _ hpassed (by decide)]
      exact ⟨if_pos hzero,hzero,Nat.le_of_eq (hall.mpr hpassed).symm⟩
  · have hreward : rewardOf classes sha256 run around patchDiff trajectory .testPassRate =
        max 0 (min 1 ((run.count trajectory.nodeIds .passed : ℚ) / trajectory.nodeIds.length)) := by
      simp [rewardOf,testRunnerReward,hids,hanswer]
    have hpos : (0 : ℚ) < trajectory.nodeIds.length :=
      Nat.cast_pos.mpr (List.length_pos_iff.mpr hids)
    have hone : (run.count trajectory.nodeIds .passed : ℚ) / trajectory.nodeIds.length ≤ 1 :=
      (div_le_one hpos).mpr (Nat.cast_le.mpr hle)
    have hnonneg : (0 : ℚ) ≤ (run.count trajectory.nodeIds .passed : ℚ) / trajectory.nodeIds.length :=
      div_nonneg (Nat.cast_nonneg _) hpos.le
    rw [hreward,min_eq_right hone,max_eq_right hnonneg]

/-- The verdict is right if and only if the numbers that are met around the summary line make no
difference. -/
theorem verdictExact_iff (hids : trajectory.nodeIds ≠ []) :
    VerdictExact classes sha256 run around patchDiff trajectory ↔
      CountsStand classes run trajectory.nodeIds around := by
  have hcounts := @parsePytest_eq_ok_iff classes
    (combinedOutput (around.stdoutParts run trajectory.nodeIds) around.stderrParts)
    (run.count trajectory.nodeIds .passed)
    (run.count trajectory.nodeIds .failed + run.count trajectory.nodeIds .error)
  simp only [groupNumber_eq_ok_iff classes run _ around hids
      (by simp : (Outcome.passed,"passed") ∈ _),
    groupNumber_eq_ok_iff classes run _ around hids (by simp : (Outcome.failed,"failed") ∈ _),
    groupNumber_eq_ok_iff classes run _ around hids (by simp : (Outcome.error,"error") ∈ _)]
    at hcounts
  have hrewards := rewards_of_counts classes sha256 run around patchDiff trajectory hids
  rw [VerdictExact,CountsStand,← hcounts,← dispatch_buildPytestCommand classes trajectory.nodeIds]
  exact ⟨fun h => h.1,fun h => ⟨h,hrewards h⟩⟩

/-- A required test, and a solution that prints a line when the interpreter ends. -/
def oneTest : Trajectory where
  sandboxUrl := "executor"
  repoUrl := "repo.git"
  baseCommit := none
  patch := none
  testPatch := none
  goldPatch := none
  failToPass := some ["t.py::test_a"]
  passToPass := none
  timeout := none

def allWith (outcome : Outcome) : PytestRun := ⟨fun _ => outcome,0,1,none⟩

def printing (text : String) : Surroundings := ⟨[],[],text.toList,[],[]⟩

theorem verdictExact_plain :
    VerdictExact .ascii (fun _ => "") (allWith .passed) (printing "bye") none oneTest := by
  refine (verdictExact_iff .ascii _ _ _ none oneTest (by decide)).mpr ⟨?_,0,0,?_,?_,by decide⟩
  · exact reads_of_stray_eq_none _ _ (by decide) (by decide)
  · exact reads_of_stray_eq_none _ _ (by decide) (by decide)
  · exact reads_of_stray_eq_none _ _ (by decide) (by decide)

/-- A skipped test counts as passed when the program prints so at its end. -/
theorem printed_count_is_taken :
    rewardOf .ascii (fun _ => "") (allWith .skipped) (printing "1 passed") none oneTest .binary = 1 ∧
    ¬ VerdictExact .ascii (fun _ => "") (allWith .skipped) (printing "1 passed") none oneTest := by
  have hreward : rewardOf .ascii (fun _ => "") (allWith .skipped) (printing "1 passed") none oneTest
      .binary = 1 := by decide
  refine ⟨hreward,fun h => ?_⟩
  exact absurd (h.2.1.mp hreward) (by decide)

end Rewards
end DockyardRL
