import DockyardRL.ToolProtocol.Conformance
import Mathlib.Data.Rat.Defs

/-! Verdicts on an assistant turn: environment flags, the schema of its tool calls, and detectors on
the text.

Which thinking tags `detect_malformed_thinking` counts. The opening tags are counted in the text
without the closing tags, where the halves around a closing tag can make an opening tag. -/
namespace DockyardRL
namespace Rewards

section

open Text ToolProtocol

inductive Locus
  | reward | advantage
  deriving DecidableEq

inductive ViolationType
  | unexecutedPattern
  | malformedToolCall
  | schemaUnknownTool
  | schemaArgs
  | malformedThinking
  | envInvalidAction
  | envMalformedThinking
  deriving DecidableEq

namespace ViolationType

/-- `_DEFAULT_LOCUS`. -/
def defaultLocus : ViolationType → Locus
  | .envInvalidAction => .reward
  | _ => .advantage

/-- `_DEFAULT_SEVERITY`. -/
def defaultSeverity : ViolationType → ℚ
  | .schemaArgs => 1 / 2
  | .malformedThinking => 1 / 2
  | .envMalformedThinking => 1 / 2
  | _ => 1

end ViolationType

structure Violation where
  type : ViolationType
  severity : ℚ
  locus : Locus
  detail : Option String
  deriving DecidableEq

/-- The part of the configuration that a verdict depends on; every key may be left out. -/
structure InvalidActionPenaltyConfig where
  useEnvironmentFlags : Option Bool
  severityWeights : Option (List (ViolationType × ℚ))
  locusOverrides : Option (List (ViolationType × Locus))
  enableSchemaValidation : Option Bool

/-- `text.count(needle)`. -/
def count (needle text : List Char) : ℕ :=
  if needle = [] then text.length + 1 else (pieces needle text.length text).length - 1

/-- `text.replace(needle, "")`. -/
def removeAll (needle text : List Char) : List Char :=
  if needle = [] then text else (pieces needle text.length text).flatten

variable {φ : Type} (host : Host φ)

def detectMalformedThinking (text : String) (thinkingTags : List String) (style : String) :
    Except Raised Bool :=
  match thinkingTags with
  | [openTag,closeTag] =>
    let nClose := count closeTag.toList text.toList
    let nOpen := count openTag.toList (removeAll closeTag.toList text.toList)
    if style = "closing_only" then .ok (0 < nOpen || 1 < nClose)
    else if style ≠ "paired" then
      .error (.valueError s!"style must be 'paired' or 'closing_only', got {host.repr (.str style)}")
    else if nOpen = 0 ∧ nClose = 0 then .ok false
    else .ok (nOpen ≠ nClose || 1 < nOpen)
  | _ => .error (.valueError ("thinking_tags must be an (open, close) pair, got " ++
      host.repr (.arr (thinkingTags.map .str))))

variable (cfg : InvalidActionPenaltyConfig)

def resolveSeverity (vtype : ViolationType) : ℚ :=
  ((cfg.severityWeights.getD []).lookup vtype).getD vtype.defaultSeverity

def resolveLocus (vtype : ViolationType) : Locus :=
  ((cfg.locusOverrides.getD []).lookup vtype).getD vtype.defaultLocus

def makeViolation (vtype : ViolationType) (detail : Option String) : Violation :=
  ⟨vtype,resolveSeverity cfg vtype,resolveLocus cfg vtype,detail⟩

/-- `head.lower().startswith(prefix)` for a prefix of ASCII letters and spaces. The only other
characters whose lower case has ASCII letters are the Kelvin sign and the dotted capital I;
the first gives a `k` and the second an `i` with a combining dot behind it. -/
def lowerStartsWith (head start : List Char) : Bool :=
  decide (start <+: head.map Char.toLower)

def unknownTool : List Char := "unknown tool".toList

/-- `"unknown tool" in reason`. -/
def mentionsUnknownTool (reason : List Char) : Bool := decide (unknownTool <:+: reason)

/-- `head.lower().startswith(("invalid", "could not", "no "))`. -/
def excluded (head : List Char) : Bool :=
  ["invalid","could not","no "].any fun start => lowerStartsWith head start.toList

/-- The head of a reason looks like `<tool>: <errors>`. -/
def looksLikeArgs (head : List Char) : Bool := decide (": ".toList <:+: head) && !excluded head

/-- `_classify_schema_failure`: the cause is read off the text of the reason. -/
def classifySchemaFailure (reason : String) : ViolationType :=
  if mentionsUnknownTool reason.toList then .schemaUnknownTool
  else if looksLikeArgs (before ';' reason.toList) then .schemaArgs
  else .malformedToolCall

/-- The keys a verdict reads from the metadata of the environment. -/
structure EnvMetadata where
  invalidAction : Option Bool

def envFlag (flag : EnvMetadata → Option Bool) (envMetadata : Option EnvMetadata) : Bool :=
  cfg.useEnvironmentFlags.getD true && (envMetadata.bind flag).getD false

/-- The schema tier: what it adds to the violations of a turn. -/
def schemaTier (assistantText : String) (invalidDetected : Bool)
    (registry : Option (ToolRegistry φ)) : Except Raised (List Violation) :=
  match registry with
  | none => .ok []
  | some registry =>
    if !invalidDetected && cfg.enableSchemaValidation.getD true then
      (assessToolCalls host assistantText registry).map fun assessment =>
        if assessment.attempted && assessment.malformed then
          let reason := assessment.reason.getD ""
          [makeViolation cfg (classifySchemaFailure reason) (if reason = "" then none else some reason)]
        else []
    else .ok []

end

open Text ToolProtocol

/-- `DEFAULT_THINKING_TAGS`. -/
def defaultThinkingTags : List String := ["<think>","</think>"]

def openTag : List Char := "<think>".toList

def closeTag : List Char := "</think>".toList

/-- Somewhere the opening tag is spelled with closing tags behind its bracket or between its letters. -/
def SplicesOpenTag (text : List Char) : Prop :=
  ∃ front rest, text = front ++ '<' :: rest ∧ Interrupted closeTag "think>".toList rest ∧
    ¬ "think>".toList <+: rest

theorem count_tag {mark : Char} {body : List Char} (hbody : mark ∉ body) (text : List Char) :
    count (mark :: body) text = occurrences (mark :: body) text := by
  rw [count,if_neg (List.cons_ne_nil _ _),length_pieces hbody le_rfl,Nat.add_sub_cancel]

theorem closeTag_apart (rest : List Char) :
    ¬Interrupted closeTag "think>".toList ("/think>".toList ++ rest) := by
  intro h
  generalize heq : "/think>".toList ++ rest = text at h
  cases h with
  | letter c _ => cases (List.cons.inj heq).1
  | tag _ => cases (List.cons.inj heq).1

theorem occurrences_removeAll (text : List Char) :
    occurrences openTag text ≤ occurrences openTag (removeAll closeTag text) ∧
      (occurrences openTag (removeAll closeTag text) = occurrences openTag text ↔
        ¬SplicesOpenTag text) := by
  have hcount := occurrences_removed (by decide : '<' ∉ "think>".toList)
    (by decide : '<' ∉ "/think>".toList) closeTag_apart text
  have hunspliced : Unspliced '<' "think>".toList closeTag text ↔ ¬SplicesOpenTag text := by
    simp only [Unspliced,SplicesOpenTag,not_exists,not_and,not_not]
  exact ⟨hcount.1,hcount.2.trans hunspliced⟩

variable {φ : Type} (host : Host φ)

/-- The tags that are really there decide both verdicts, unless the text splices an opening tag. -/
theorem detectMalformedThinking_exact_iff (text : String) :
    ((detectMalformedThinking host text defaultThinkingTags "paired" = .ok false ↔
          (¬ openTag <:+: text.toList ∧ ¬ closeTag <:+: text.toList) ∨
            (occurrences openTag text.toList = 1 ∧ occurrences closeTag text.toList = 1)) ∧
        (detectMalformedThinking host text defaultThinkingTags "closing_only" = .ok false ↔
          ¬ openTag <:+: text.toList ∧ occurrences closeTag text.toList ≤ 1) ∧
        occurrences openTag (removeAll closeTag text.toList) = occurrences openTag text.toList) ↔
      ¬SplicesOpenTag text.toList := by
  have hkept := (occurrences_removeAll text.toList).2
  rw [← hkept]
  refine ⟨fun h => h.2.2,fun hsame => ?_⟩
  have hopen : count openTag (removeAll closeTag text.toList) = occurrences openTag text.toList :=
    (count_tag (by decide : '<' ∉ "think>".toList) _).trans hsame
  have hclose : count closeTag text.toList = occurrences closeTag text.toList :=
    count_tag (by decide : '<' ∉ "/think>".toList) _
  have hpaired : detectMalformedThinking host text defaultThinkingTags "paired" =
      if occurrences openTag text.toList = 0 ∧ occurrences closeTag text.toList = 0 then .ok false
      else .ok (occurrences openTag text.toList ≠ occurrences closeTag text.toList ||
        1 < occurrences openTag text.toList) := by
    rw [← hopen,← hclose]
    rfl
  have hclosing : detectMalformedThinking host text defaultThinkingTags "closing_only" =
      .ok (0 < occurrences openTag text.toList || 1 < occurrences closeTag text.toList) := by
    rw [← hopen,← hclose]
    rfl
  rw [hpaired,hclosing,← occurrences_eq_zero_iff,← occurrences_eq_zero_iff]
  refine ⟨?_,?_,hsame⟩
  · split_ifs with hnone
    · simp [hnone]
    · simp
      omega
  · simp

/-- A closing tag between the halves of an opening tag passes for a pair. -/
theorem halves_pass_for_a_pair :
    detectMalformedThinking silentHost "<th</think>ink>" defaultThinkingTags "paired" = .ok false ∧
      ¬(detectMalformedThinking silentHost "<th</think>ink>" defaultThinkingTags "paired" = .ok false ↔
        (¬ openTag <:+: "<th</think>ink>".toList ∧ ¬ closeTag <:+: "<th</think>ink>".toList) ∨
          (occurrences openTag "<th</think>ink>".toList = 1 ∧
            occurrences closeTag "<th</think>ink>".toList = 1)) := by
  have hpasses : detectMalformedThinking silentHost "<th</think>ink>" defaultThinkingTags "paired" =
      .ok false := by decide
  refine ⟨hpasses,fun h => ?_⟩
  obtain ⟨-,hclose⟩ | ⟨hopen,-⟩ := h.mp hpasses
  · exact hclose (by decide)
  · exact absurd hopen (by decide)

end Rewards
end DockyardRL
