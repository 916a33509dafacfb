import DockyardRL.Lib.Dict
import DockyardRL.Lib.Enclosed

/-! How the desktop environment reads a turn: the code in its first fence, and the first line of the
whole text that is a bare control token, be it prose or code.

One turn of the desktop environment: the action is executed and recorded, and the episode goes on or
is graded and ends. -/
namespace DockyardRL
namespace Cua
namespace ActionParsing

open Pattern Words

inductive Control
  | wait | fail | done
  deriving DecidableEq

def Control.token : Control → List Char
  | .wait => "WAIT".toList
  | .fail => "FAIL".toList
  | .done => "DONE".toList

/-- The controls in the order of `_TOKEN_RE`. -/
def controls : List Control := [.wait,.fail,.done]

@[ext] structure ParsedAction where
  code : List Char
  control : Option Control
  raw : List Char
  deriving DecidableEq

def ParsedAction.isTerminal (action : ParsedAction) : Bool :=
  action.control = some .fail || action.control = some .done

def ParsedAction.isNoop (action : ParsedAction) : Bool := action.code = [] && action.control = none

/-- The tags of `_CODE_FENCE_RE`; the last is no tag. -/
def codeTags : List (List Char) := ["python".toList,"py".toList,"pyautogui".toList,[]]

variable (classes : CharClasses)

/-- `_CODE_FENCE_RE`, by the alternatives in it. -/
def codeFence : List (List Item) := codeTags.map (fenceItems classes)

def parseAction (text : List Char) : ParsedAction where
  code := match searchAny (codeFence classes) text with
    | some groups => strip classes.isSpace (groups.headD [])
    | none => []
  control := findWord classes.isSpace Control.token controls true text
  raw := text

/-- A fence with a tag and blanks up to a line break, and the text around and in it. -/
structure Turn where
  before : List Char
  tag : List Char
  gap : List Char
  body : List Char
  after : List Char

def Turn.text (turn : Turn) : List Char :=
  turn.before ++ ("```".toList ++ (turn.tag ++ (turn.gap ++ '\n' ::
    (turn.body ++ ("```".toList ++ turn.after)))))

/-- No other triple backtick, and a tag that the fence accepts. -/
structure Turn.WellFormed (turn : Turn) : Prop where
  before : ¬"```".toList <:+: turn.before
  tag : turn.tag ∈ codeTags
  gap : ∀ c ∈ turn.gap, classes.isSpace c = true
  body : ¬"```".toList <:+: turn.body
  after : ¬"```".toList <:+: turn.after

/-- The bare tokens on lines in front of the fence, on lines of the code and on lines behind. -/
def Turn.leading (turn : Turn) : List Control :=
  wordsBefore classes.isSpace Control.token controls turn.before

def Turn.inner (turn : Turn) : List Control :=
  wordsBefore classes.isSpace Control.token controls turn.body

def Turn.trailing (turn : Turn) : List Control :=
  wordsBehind classes.isSpace Control.token controls turn.after

/-- The prose has this bare token and no other, or none. -/
def Turn.Carries (turn : Turn) (token : Option Control) : Prop :=
  turn.leading classes ++ turn.trailing classes = token.toList

instance (turn : Turn) (token : Option Control) : Decidable (turn.Carries classes token) :=
  inferInstanceAs (Decidable (_ = _))

def Turn.meant (turn : Turn) (token : Option Control) : ParsedAction :=
  ⟨strip classes.isSpace turn.body,token,turn.text⟩

variable {classes}

theorem isWord_token (control : Control) : IsWord classes.isSpace control.token := by
  cases control <;> exact ⟨by decide,fun c hc => by
    simp only [Control.token] at hc
    exact not_isSpace_of_isAlpha (List.all_eq_true.mp (by decide) c hc)⟩

theorem fenceTag_codeTags : ∀ tag ∈ codeTags, FenceTag classes tag := by
  intro tag htag
  refine fenceTag_of_letters ?_
  simp only [codeTags,List.mem_cons,List.not_mem_nil,or_false] at htag
  rcases htag with rfl | rfl | rfl | rfl <;> decide

theorem isSpace_backtick : classes.isSpace '`' = false := not_isSpace (by decide)

theorem apart_fence : Apart classes.isSpace Control.token controls "```".toList := by
  refine ⟨by decide,fun front back => List.find?_eq_none.mpr fun control _ heq => ?_⟩
  have htick : '`' ∈ strip classes.isSpace (front ++ ("```".toList ++ back)) :=
    (mem_strip isSpace_backtick).mpr (by simp)
  rw [of_decide_eq_true heq] at htick
  cases control <;> exact absurd htick (by decide)

variable {turn : Turn} {token : Option Control}

theorem control_text (hturn : turn.WellFormed classes) : (parseAction classes turn.text).control =
    (turn.leading classes ++ (turn.inner classes ++ turn.trailing classes)).head? := by
  have htag : '\n' ∉ turn.tag := fun h => by
    have hblank := (@fenceTag_codeTags classes _ hturn.tag _ h).1
    rw [isSpace_feed] at hblank
    cases hblank
  have hwords : ∀ control ∈ controls, IsWord classes.isSpace control.token :=
    fun control _ => isWord_token control
  have hsplit : turn.text = (turn.before ++ ("```".toList ++ (turn.tag ++ turn.gap))) ++ '\n' ::
      (turn.body ++ ("```".toList ++ turn.after)) := by
    simp [Turn.text]
  have hgap := wordsBehind_blank hwords htag (List.all_eq_true.mpr hturn.gap)
  show findWord _ _ _ true turn.text = _
  rw [findWord_eq hwords isSpace_feed,hsplit,wordsAlone_append,wordsAlone_mark apart_fence,
    wordsAlone_mark apart_fence,hgap,List.append_nil]
  rfl

theorem control_eq_iff (hturn : turn.WellFormed classes) (hcarries : turn.Carries classes token) :
    (parseAction classes turn.text).control = token ↔
      turn.leading classes ≠ [] ∨ ∀ control, (turn.inner classes).head? = some control →
        token = some control := by
  rw [control_text hturn]
  unfold Turn.Carries at hcarries
  cases hleading : turn.leading classes with
  | cons control leading =>
    rw [hleading] at hcarries
    have htoken : token = some control := by
      cases token with
      | none => cases hcarries
      | some token => exact congrArg some (List.cons.inj hcarries).1.symm
    exact iff_of_true htoken.symm (.inl (List.cons_ne_nil _ _))
  | nil =>
    rw [hleading,List.nil_append] at hcarries
    rw [hcarries,List.nil_append,List.head?_append]
    cases (turn.inner classes).head? with
    | none => cases token <;> simp
    | some control => simp [eq_comm]

theorem code_of_next (hturn : turn.WellFormed classes) {body after : List Char}
    (hbody : ¬"```".toList <:+: body) (hend : ∀ c, body.getLast? = some c → c ≠ '`')
    (htext : turn.body ++ ("```".toList ++ turn.after) = body ++ ("```".toList ++ after)) :
    (parseAction classes turn.text).code = strip classes.isSpace body := by
  obtain ⟨group,hstrip,hsearch⟩ :=
    searchAny_fence fenceTag_codeTags hturn.tag hturn.before hturn.gap hbody hend after
  rw [← htext] at hsearch
  show (match searchAny (codeFence classes) turn.text with
    | some groups => strip classes.isSpace (groups.headD [])
    | none => []) = _
  rw [Turn.text,codeFence,hsearch]
  exact hstrip

theorem exists_ticks {text : List Char} (hlast : text.getLast? = some '`') : ∃ core n,
    text = core ++ List.replicate (n + 1) '`' ∧ ∀ c, core.getLast? = some c → c ≠ '`' := by
  have hsplit := @List.rdropWhile_append_rtakeWhile _ (fun c => decide (c = '`')) text
  have hends := List.rdropWhile_last_not (fun c => decide (c = '`')) text
  have hticks : ∀ c ∈ text.rtakeWhile (fun c => decide (c = '`')), c = '`' :=
    fun c hc => by simpa using List.mem_rtakeWhile_imp hc
  have hne : text.rtakeWhile (fun c => decide (c = '`')) ≠ [] := fun hnil => by
    obtain ⟨front,hfront⟩ := List.getLast?_eq_some_iff.mp hlast
    have hnone := List.rtakeWhile_eq_nil_iff.mp hnil (by simp [hfront])
    simp [hfront] at hnone
  generalize text.rdropWhile (fun c => decide (c = '`')) = core at hsplit hends
  generalize text.rtakeWhile (fun c => decide (c = '`')) = ticks at hsplit hticks hne
  refine ⟨core,ticks.length - 1,?_,fun c hc => ?_⟩
  · rw [Nat.sub_add_cancel (List.length_pos_iff.mpr hne),← List.eq_replicate_of_mem hticks,hsplit]
  · have hnonempty : core ≠ [] := by
      rintro rfl
      cases hc
    rw [List.getLast?_eq_some_getLast hnonempty] at hc
    exact Option.some.inj hc ▸ by simpa using hends hnonempty

theorem code_eq_iff (hturn : turn.WellFormed classes) : (parseAction classes turn.text).code =
    strip classes.isSpace turn.body ↔ turn.body.getLast? ≠ some '`' := by
  constructor
  · intro heq hlast
    obtain ⟨core,n,hsplit,hend⟩ := exists_ticks hlast
    have hcommute : List.replicate (n + 1) '`' ++ "```".toList =
        "```".toList ++ List.replicate (n + 1) '`' := by
      rw [show "```".toList = List.replicate 3 '`' from rfl,List.replicate_append_replicate,
        List.replicate_append_replicate,Nat.add_comm]
    have hcore : ¬"```".toList <:+: core := fun h =>
      hturn.body (h.trans (hsplit ▸ (List.prefix_append core _).isInfix))
    have hcode := code_of_next hturn hcore hend (by
      rw [hsplit,List.append_assoc,← List.append_assoc (List.replicate (n + 1) '`'),hcommute,
        List.append_assoc])
    have hfilter := congrArg (List.filter fun c => !classes.isSpace c) (hcode.symm.trans heq)
    rw [filter_strip,filter_strip,hsplit,List.filter_append,List.self_eq_append_right,
      List.filter_eq_nil_iff] at hfilter
    refine hfilter '`' (by simp) ?_
    rw [isSpace_backtick]
    rfl
  · intro hlast
    exact code_of_next hturn hturn.body (fun c hc heq => hlast (heq ▸ hc)) rfl

end ActionParsing

namespace DesktopTurn

open ActionParsing Fallible Pattern Words

structure Observation (β : Type) where
  screenshot : Option β
  accessibilityTree : Option String

/-- What a backend does in a turn: `pyautogui_to_xdotool`, each `execute` of the turn, `observe`,
`evaluate` and each `stop`. All of it may raise. -/
structure Desktop (ε ρ β : Type) where
  toXdotool : List Char → Except ε (List String)
  execute : ℕ → String → Except ε Bool
  observe : Except ε (Observation β)
  evaluate : List (List Char) → Except ε ρ
  stop : ℕ → Except ε Unit

variable {ε ρ β : Type}

/-- `ControlCenterBackend.act`: the action history behind it. -/
def act (desktop : Desktop ε ρ β) (history : List (List Char)) (action : ParsedAction) :
    Except ε (List (List Char)) :=
  if action.control = some .fail then .ok (history ++ ["FAIL".toList])
  else if action.code ≠ [] then do
    let commands ← desktop.toXdotool action.code
    commands.zipIdx.forM fun command => discard (desktop.execute command.2 command.1)
    return history ++ [action.code]
  else match action.control with
    | some .wait => .ok (history ++ ["WAIT".toList])
    | some .done => .ok (history ++ ["DONE".toList])
    | _ => .ok history

/-- The configuration, and how rewards and exceptions are written. -/
structure Settings (ε ρ : Type) where
  defaultMaxTurns : ℤ
  includeA11yText : Bool
  a11yTextLimit : ℕ
  noReward : ρ
  solved : ρ → Bool
  spell : ρ → String
  errorText : ε → String

structure Metadata (β : Type) where
  episodeId : Option String
  turn : Option ℤ
  maxTurns : Option ℤ
  screenshot : Option β

structure Outcome (ρ β : Type) where
  reward : ρ
  content : String
  metadata : Metadata β
  done : Bool

/-- `_episodes`, with the action history of each handle. -/
abbrev Episodes := Dict String (List (List Char))

/-- `_NOOP_REPROMPT`. -/
def noopReprompt : String :=
  "No action found. Reply with exactly one ```python pyautogui code block, or a " ++
    "single bare WAIT / DONE / FAIL line."

variable (settings : Settings ε ρ)

def a11yText (obs : Observation β) : String :=
  match settings.includeA11yText, obs.accessibilityTree with
  | true, some tree =>
    if tree = "" then ""
    else if settings.a11yTextLimit < tree.length then
      "\n[accessibility tree]\n" ++ String.ofList (tree.toList.take settings.a11yTextLimit) ++
        "\n... [a11y truncated]"
    else "\n[accessibility tree]\n" ++ tree
  | _, _ => ""

/-- `_get(episode_id) if episode_id else None`. -/
def live (episodes : Episodes) (metadata : Metadata β) : Option (String × List (List Char)) :=
  metadata.episodeId.bind fun id => if id = "" then none else (episodes.get? id).map (id,·)

/-- `(turn + 1) >= max_turns`. -/
def LastTurn (metadata : Metadata β) : Prop :=
  metadata.maxTurns.getD settings.defaultMaxTurns ≤ metadata.turn.getD 0 + 1

instance (metadata : Metadata β) : Decidable (LastTurn settings metadata) :=
  inferInstanceAs (Decidable (_ ≤ _))

def finish (desktop : Desktop ε ρ β) (history : List (List Char)) :
    Except ε (Observation β × ρ) := do
  let obs ← desktop.observe
  let reward ← desktop.evaluate history
  desktop.stop 0
  return (obs,reward)

def failed (desktop : Desktop ε ρ β) (episodes : Episodes) (id : String) (metadata : Metadata β)
    (exc : ε) : Episodes × Except ε (Outcome ρ β) :=
  match desktop.stop 1 with
  | .ok () => (episodes.erase id,.ok ⟨settings.noReward,
      "[environment error: " ++ settings.errorText exc ++ "]",{ metadata with screenshot := none },true⟩)
  | .error e => (episodes,.error e)

def processOne (classes : CharClasses) (desktop : Desktop ε ρ β) (episodes : Episodes)
    (responseText : List Char) (metadata : Metadata β) : Episodes × Except ε (Outcome ρ β) :=
  match live episodes metadata with
  | none => (episodes,.ok ⟨settings.noReward,"[environment error: no live episode]",
      { metadata with screenshot := none },true⟩)
  | some (id,history) =>
    let action := parseAction classes responseText
    match act desktop history action with
    | .error exc => failed settings desktop episodes id metadata exc
    | .ok history =>
      let episodes := episodes.set id history
      if action.isTerminal || decide (LastTurn settings metadata) then
        match finish desktop history with
        | .error exc => failed settings desktop episodes id metadata exc
        | .ok (obs,reward) => (episodes.erase id,.ok ⟨reward,
            "[task " ++ (if settings.solved reward then "solved" else "graded") ++ ": reward=" ++
              settings.spell reward ++ "]",{ metadata with screenshot := obs.screenshot },true⟩)
      else
        let metadata := { metadata with turn := some (metadata.turn.getD 0 + 1) }
        match desktop.observe with
        | .error exc => failed settings desktop episodes id metadata exc
        | .ok obs => (episodes,.ok ⟨settings.noReward,
            if action.isNoop then noopReprompt else a11yText settings obs,
            { metadata with screenshot := obs.screenshot },false⟩)

/-- Acting or looking at the screen raises. -/
def Disturbed (desktop : Desktop ε ρ β) (history : List (List Char)) (action : ParsedAction) : Prop :=
  (∃ exc, act desktop history action = .error exc) ∨ ∃ exc, desktop.observe = .error exc

variable {settings} {classes : CharClasses} {desktop : Desktop ε ρ β} {episodes : Episodes}
  {metadata : Metadata β}

theorem done_failed {id : String} {exc : ε} {outcome : Outcome ρ β}
    (h : (failed settings desktop episodes id metadata exc).2 = .ok outcome) : outcome.done = true := by
  rw [failed] at h
  split at h
  · rw [← Except.ok.inj h]
  · cases h

theorem done_processOne {text : List Char} {id : String} {history : List (List Char)}
    (hlive : live episodes metadata = some (id,history)) {outcome : Outcome ρ β}
    (h : (processOne settings classes desktop episodes text metadata).2 = .ok outcome) :
    outcome.done = true ↔ (parseAction classes text).isTerminal = true ∨ LastTurn settings metadata ∨
      Disturbed desktop history (parseAction classes text) := by
  rw [processOne,hlive] at h
  dsimp only at h
  cases hact : act desktop history (parseAction classes text) with
  | error exc =>
    rw [hact] at h
    exact iff_of_true (done_failed h) (.inr (.inr (.inl ⟨exc,hact⟩)))
  | ok history' =>
    rw [hact] at h
    dsimp only at h
    by_cases hends : ((parseAction classes text).isTerminal || decide (LastTurn settings metadata)) = true
    · rw [if_pos hends] at h
      have hdone : outcome.done = true := by
        split at h
        · exact done_failed h
        · rw [← Except.ok.inj h]
      rw [Bool.or_eq_true,decide_eq_true_iff] at hends
      exact iff_of_true hdone (hends.imp_right .inl)
    · rw [if_neg hends] at h
      rw [Bool.or_eq_true,decide_eq_true_iff,not_or] at hends
      cases hobserve : desktop.observe with
      | error exc =>
        rw [hobserve] at h
        exact iff_of_true (done_failed h) (.inr (.inr (.inr ⟨exc,hobserve⟩)))
      | ok obs =>
        rw [hobserve] at h
        rw [← Except.ok.inj h]
        refine iff_of_false Bool.false_ne_true ?_
        rintro (hterminal | hlast | ⟨exc,hexc⟩ | ⟨exc,hexc⟩)
        · exact hends.1 hterminal
        · exact hends.2 hlast
        · rw [hact] at hexc
          cases hexc
        · rw [hobserve] at hexc
          cases hexc

theorem act_eq_ok {history history' : List (List Char)} {action : ParsedAction}
    (h : act desktop history action = .ok history') : history' = history ++
      if action.control = some .fail then ["FAIL".toList]
      else if action.code ≠ [] then [action.code]
      else (action.control.map Control.token).toList := by
  rw [act] at h
  split_ifs at h ⊢ with hfail hcode
  · exact (Except.ok.inj h).symm
  · obtain ⟨commands,-,h⟩ := bind_eq_ok.mp h
    obtain ⟨-,-,h⟩ := bind_eq_ok.mp h
    exact (Except.ok.inj h).symm
  · cases hcontrol : action.control with
    | none =>
      rw [hcontrol] at h
      rw [← Except.ok.inj h]
      exact (List.append_nil history).symm
    | some control =>
      rw [hcontrol] at h hfail
      cases control with
      | wait => exact (Except.ok.inj h).symm
      | fail => exact absurd rfl hfail
      | done => exact (Except.ok.inj h).symm

theorem recorded_fail_iff {history history' : List (List Char)} {action : ParsedAction}
    (h : act desktop history action = .ok history') : history' = history ++ ["FAIL".toList] ↔
      action.control = some .fail ∨ action.code = "FAIL".toList := by
  rw [act_eq_ok h,List.append_cancel_left_eq]
  split_ifs with hfail hcode
  · exact iff_of_true rfl (.inl hfail)
  · simp [hfail]
  · have hnil : action.code = [] := not_not.mp hcode
    refine iff_of_false (fun hrecord => hfail ?_) (fun hor => ?_)
    · obtain ⟨control,hcontrol,htoken⟩ := Option.map_eq_some_iff.mp (Option.toList_eq_singleton_iff.mp hrecord)
      cases control with
      | fail => exact hcontrol
      | wait => exact absurd htoken (by decide)
      | done => exact absurd htoken (by decide)
    · rw [hnil] at hor
      exact hor.elim hfail fun heq => absurd heq (by decide)

/-- The turn is read as it is meant, and so the environment does what it says: it ends the episode, or
records `FAIL`, for a token outside of the code only. -/
structure SplitByPosition (classes : CharClasses) (turn : Turn) (token : Option Control) : Prop where
  code : (parseAction classes turn.text).code = strip classes.isSpace turn.body
  control : (parseAction classes turn.text).control = token
  ended : ∀ (ε ρ β : Type) (settings : Settings ε ρ) (desktop : Desktop ε ρ β) (episodes : Episodes)
    (metadata : Metadata β) (id : String) (history : List (List Char)),
    live episodes metadata = some (id,history) → ∀ outcome : Outcome ρ β,
      (processOne settings classes desktop episodes turn.text metadata).2 = .ok outcome →
      (outcome.done = true ↔ token = some .done ∨ token = some .fail ∨ LastTurn settings metadata ∨
        Disturbed desktop history (turn.meant classes token))
  recorded : ∀ (ε ρ β : Type) (desktop : Desktop ε ρ β) (history history' : List (List Char)),
    act desktop history (parseAction classes turn.text) = .ok history' →
      (history' = history ++ ["FAIL".toList] ↔ token = some .fail)

/-- A turn is split by position exactly when no backtick of its code touches the closing fence, its
token comes before the first token of the code or is the same, and the code is not the word `FAIL`,
or the token is it too. -/
theorem splitByPosition_iff {turn : Turn} {token : Option Control} (hturn : turn.WellFormed classes)
    (hcarries : turn.Carries classes token) : SplitByPosition classes turn token ↔
      turn.body.getLast? ≠ some '`' ∧
      (turn.leading classes ≠ [] ∨ ∀ control, (turn.inner classes).head? = some control →
        token = some control) ∧
      (strip classes.isSpace turn.body = "FAIL".toList → token = some .fail) := by
  constructor
  · intro h
    refine ⟨(code_eq_iff hturn).mp h.code,(control_eq_iff hturn hcarries).mp h.control,fun hword => ?_⟩
    let desktop : Desktop Unit Unit Unit :=
      ⟨fun _ => .ok [],fun _ _ => .ok true,.ok ⟨none,none⟩,fun _ => .ok (),fun _ => .ok ()⟩
    have hact : ∃ history', act desktop [] (parseAction classes turn.text) = .ok history' := by
      rw [act]
      split_ifs
      · exact ⟨_,rfl⟩
      · exact ⟨_,rfl⟩
      · split <;> exact ⟨_,rfl⟩
    obtain ⟨history',hhistory⟩ := hact
    exact (h.recorded _ _ _ desktop [] history' hhistory).mp
      ((recorded_fail_iff hhistory).mpr (.inr (h.code.trans hword)))
  · rintro ⟨hcode,hcontrol,hword⟩
    have hparse : parseAction classes turn.text = turn.meant classes token :=
      ParsedAction.ext ((code_eq_iff hturn).mpr hcode) ((control_eq_iff hturn hcarries).mpr hcontrol) rfl
    refine ⟨congrArg ParsedAction.code hparse,congrArg ParsedAction.control hparse,?_,?_⟩
    · intro ε ρ β settings desktop episodes metadata id history hlive outcome houtcome
      have hterminal : (turn.meant classes token).isTerminal = true ↔
          token = some .fail ∨ token = some .done := by
        rw [ParsedAction.isTerminal,Bool.or_eq_true,decide_eq_true_iff,decide_eq_true_iff]
        rfl
      rw [done_processOne hlive houtcome,hparse,hterminal,or_comm (a := token = some .fail),or_assoc]
    · intro ε ρ β desktop history history' hact
      rw [recorded_fail_iff hact,hparse]
      exact ⟨fun hor => hor.elim id hword,.inl⟩

def clickAndDone : Turn :=
  ⟨"Click it.\n".toList,"python".toList,[],"click(1)\n".toList,"\nDONE".toList⟩

theorem splitByPosition_iff_click : SplitByPosition .ascii clickAndDone (some .done) ↔
    clickAndDone.body.getLast? ≠ some '`' ∧
    (clickAndDone.leading .ascii ≠ [] ∨ ∀ control, (clickAndDone.inner .ascii).head? = some control →
      some Control.done = some control) ∧
    (strip CharClasses.ascii.isSpace clickAndDone.body = "FAIL".toList →
      some Control.done = some .fail) :=
  splitByPosition_iff ⟨by decide,by decide,List.forall_mem_nil _,by decide,by decide⟩ (by decide)

/-- A string over several lines, of which one is the word `DONE`. -/
def typesDone : Turn :=
  ⟨"Type it.\n".toList,"python".toList,[],"write(\"\"\"\nDONE\n\"\"\")\n".toList,[]⟩

/-- The turn ends the episode, though the prose has no token. -/
theorem typesDone_not_split : typesDone.WellFormed .ascii ∧ typesDone.Carries .ascii none ∧
    ¬SplitByPosition .ascii typesDone none := by
  have hturn : typesDone.WellFormed .ascii := ⟨by decide,by decide,List.forall_mem_nil _,by decide,by decide⟩
  refine ⟨hturn,by decide,fun h => ?_⟩
  have hcontrol := h.control
  rw [control_text hturn] at hcontrol
  exact absurd hcontrol (by decide)

end DesktopTurn
end Cua
end DockyardRL
