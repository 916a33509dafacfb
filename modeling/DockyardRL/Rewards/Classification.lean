import DockyardRL.Rewards.InvalidAction

/-! The schema tier recovers the cause of a bad tool call from the text of a reason. What
the text allows to recover, and when that is the cause. -/
namespace DockyardRL
namespace Rewards

open Text ToolProtocol Fallible

variable {φ : Type} {host : Host φ} {registry : ToolRegistry φ} {text : String}

def argumentErrors (host : Host φ) (registry : ToolRegistry φ) (call : ParsedToolCall φ) :
    Except Raised (List String) :=
  match call.name with
  | .str name => validateArguments host call.arguments (registry.parameters name)
  | _ => .ok []

def Known (registry : ToolRegistry φ) (call : ParsedToolCall φ) : Prop :=
  registry.contains call.name = true

def Conforms (host : Host φ) (registry : ToolRegistry φ) (call : ParsedToolCall φ) : Prop :=
  Known registry call ∧ argumentErrors host registry call = .ok []

def Fails (host : Host φ) (registry : ToolRegistry φ) (call : ParsedToolCall φ) : Prop :=
  ∃ errs, argumentErrors host registry call = .ok errs ∧ errs ≠ []

/-- The types of what the schema tier adds are those of the real cause. -/
structure ByCause (host : Host φ) (registry : ToolRegistry φ) (text : String)
    (added : Except Raised (List ViolationType)) : Prop where
  valid : ∀ ext, parseHermesToolCalls host text = .ok ext → ext.error = none →
    (∀ call ∈ ext.toolCalls, Conforms host registry call) → added = .ok []
  malformed : ∀ ext, parseHermesToolCalls host text = .ok ext → ext.error ≠ none →
    added = .ok [.malformedToolCall]
  unknown : ∀ ext, parseHermesToolCalls host text = .ok ext → ext.error = none →
    (∃ call ∈ ext.toolCalls, ¬ Known registry call) → added = .ok [.schemaUnknownTool]
  args : ∀ ext, parseHermesToolCalls host text = .ok ext → ext.error = none →
    (∀ call ∈ ext.toolCalls, Known registry call) →
    (∃ call ∈ ext.toolCalls, Fails host registry call) → added = .ok [.schemaArgs]

theorem parse_cases {ext : HermesExtraction φ} (h : parseHermesToolCalls host text = .ok ext) :
    (ext.toolCalls = [] ∧ ext.attempted = false ∧ ext.error = none) ∨
    (ext.attempted = true ∧ ext.error = none) ∨
    (ext.attempted = true ∧ ∃ exc, ext.error = some ("tool-call JSON decode error: " ++ exc) ∨
      ext.error = some ("tool-call missing/invalid name or arguments: " ++ exc)) := by
  rw [parseHermesToolCalls] at h
  split at h
  · cases h
    exact .inl ⟨rfl,rfl,rfl⟩
  · split at h
    · cases h
    · rename_i exc _
      cases h
      exact .inr (.inr ⟨rfl,exc,.inl rfl⟩)
    · split at h
      · rename_i exc _
        cases h
        exact .inr (.inr ⟨rfl,exc,.inr rfl⟩)
      · cases h
        exact .inr (.inl ⟨rfl,rfl⟩)

theorem classify_eq_unknown_iff (reason : String) :
    classifySchemaFailure reason = .schemaUnknownTool ↔ mentionsUnknownTool reason.toList = true := by
  rw [classifySchemaFailure]
  by_cases hunknown : mentionsUnknownTool reason.toList = true
  · simp [hunknown]
  · by_cases hargs : looksLikeArgs (before ';' reason.toList) = true <;> simp [hunknown,hargs]

theorem classify_eq_args_iff (reason : String) :
    classifySchemaFailure reason = .schemaArgs ↔ mentionsUnknownTool reason.toList = false ∧
      looksLikeArgs (before ';' reason.toList) = true := by
  rw [classifySchemaFailure]
  by_cases hunknown : mentionsUnknownTool reason.toList = true
  · simp [hunknown]
  · by_cases hargs : looksLikeArgs (before ';' reason.toList) = true <;> simp [hunknown,hargs]

theorem classify_ne_malformed {reason : String}
    (h : looksLikeArgs (before ';' reason.toList) = true) :
    classifySchemaFailure reason ≠ .malformedToolCall := by
  rw [classifySchemaFailure]
  by_cases hunknown : mentionsUnknownTool reason.toList = true <;> simp [hunknown,h]

theorem excluded_append_colon (name rest : List Char) :
    excluded (name ++ ':' :: rest) = excluded name := by
  have hlower : (name ++ ':' :: rest).map Char.toLower =
      name.map Char.toLower ++ ':' :: rest.map Char.toLower := by
    rw [List.map_append,List.map_cons]
    rfl
  have hstart (start : String) (hcolon : ':' ∉ start.toList) :
      lowerStartsWith (name ++ ':' :: rest) start.toList = lowerStartsWith name start.toList := by
    rw [lowerStartsWith,lowerStartsWith,hlower,decide_eq_decide,prefix_append_cons_iff hcolon]
  simp only [excluded,List.any_cons,List.any_nil,hstart "invalid" (by decide),
    hstart "could not" (by decide),hstart "no " (by decide)]

def nameText (call : ParsedToolCall φ) : List Char :=
  match call.name with
  | .str name => name.toList
  | _ => []

/-- A report that begins with the name is read as one: the part of the name before a semicolon
shows the separator of a report and is not taken for another kind of reason. -/
def Readable (name : List Char) : Prop :=
  (';' ∉ name ∨ ": ".toList <:+: before ';' name) ∧ excluded (before ';' name) = false

theorem looksLikeArgs_iff (name rest : List Char) :
    looksLikeArgs (before ';' (name ++ ':' :: ' ' :: rest)) = true ↔ Readable name := by
  rw [looksLikeArgs,Bool.and_eq_true,decide_eq_true_eq,Bool.not_eq_true']
  by_cases hmem : ';' ∈ name
  · rw [before_of_mem hmem,Readable]
    simp only [hmem,not_true,false_or]
  · have hhead : before ';' (':' :: ' ' :: rest) = ':' :: ' ' :: before ';' rest := by
      simp [before]
    have hname : before ';' name = name := by
      have happ := before_of_notMem (b := []) hmem
      rw [List.append_nil] at happ
      simpa [before] using happ
    have hsep : ": ".toList <:+: name ++ ':' :: ' ' :: before ';' rest :=
      ⟨name,before ';' rest,by simp⟩
    rw [before_of_notMem hmem,hhead,excluded_append_colon,Readable,hname]
    simp only [hmem,hsep,not_false_eq_true,true_and,true_or]

def reasonTypes (reasons : List String) : List ViolationType :=
  if reasons.isEmpty then [] else [classifySchemaFailure ("; ".intercalate reasons)]

def addedTypes (host : Host φ) (cfg : InvalidActionPenaltyConfig) (text : String)
    (envInvalid : Bool) (registry : ToolRegistry φ) : Except Raised (List ViolationType) :=
  (schemaTier host cfg text envInvalid (some registry)).map (List.map Violation.type)

section Tier

variable {cfg : InvalidActionPenaltyConfig} (hcfg : cfg.enableSchemaValidation.getD true = true)

include hcfg

theorem addedTypes_eq : addedTypes host cfg text false registry =
    (assessToolCalls host text registry).map fun assessment =>
      if assessment.attempted && assessment.malformed then
        [classifySchemaFailure (assessment.reason.getD "")] else [] := by
  simp only [addedTypes,schemaTier,hcfg,Bool.not_false,Bool.and_self,if_true]
  cases assessToolCalls host text registry with
  | error e => rfl
  | ok assessment =>
    simp only [Except.map]
    split <;> rfl

theorem addedTypes_of_error {ext : HermesExtraction φ} {error : String}
    (hparse : parseHermesToolCalls host text = .ok ext) (hatt : ext.attempted = true)
    (herror : ext.error = some error) :
    addedTypes host cfg text false registry = .ok [classifySchemaFailure error] := by
  rw [addedTypes_eq hcfg,assessToolCalls,hparse]
  simp [Except.bind,hatt,herror,Except.map]

theorem addedTypes_of_calls {ext : HermesExtraction φ}
    (hparse : parseHermesToolCalls host text = .ok ext) (herror : ext.error = none) :
    addedTypes host cfg text false registry =
      (ext.toolCalls.mapM (assessCall host registry)).map fun verdicts =>
        reasonTypes verdicts.reduceOption := by
  rw [addedTypes_eq hcfg,assessToolCalls,hparse]
  rcases parse_cases hparse with ⟨hcalls,hatt,-⟩ | ⟨hatt,-⟩ | ⟨-,exc,herr | herr⟩
  · simp [Except.bind,hatt,hcalls,Except.map,pure,Except.pure,reasonTypes,List.reduceOption]
  · simp only [Except.bind,hatt,herror,Bool.not_true,Bool.false_eq_true,if_false]
    cases ext.toolCalls.mapM (assessCall host registry) with
    | error e => rfl
    | ok verdicts =>
      simp only [Except.map,reasonTypes]
      by_cases hempty : verdicts.reduceOption.isEmpty = true
      · simp [hempty]
      · simp [hempty]
  · rw [herror] at herr
    cases herr
  · rw [herror] at herr
    cases herr

end Tier

def report (call : ParsedToolCall φ) (errs : List String) : String :=
  String.ofList (nameText call) ++ ": " ++ "; ".intercalate errs

theorem assessCall_of_unknown {call : ParsedToolCall φ} (h : ¬ Known registry call) :
    assessCall host registry call = .ok (some s!"unknown tool {host.repr call.name}") :=
  if_neg h

theorem assessCall_of_known {call : ParsedToolCall φ} (h : Known registry call) :
    assessCall host registry call = (argumentErrors host registry call).map fun errs =>
      if errs = [] then none else some (report call errs) := by
  have hcontains : registry.contains call.name = true := h
  rw [assessCall,if_pos hcontains,argumentErrors]
  cases hname : call.name with
  | str name =>
    have hreport (errs : List String) :
        s!"{name}: " ++ "; ".intercalate errs = report call errs := by
      rw [report,nameText,hname,String.ofList_toList]
      rfl
    simp only [hreport]
  | _ => simp [Except.map]

theorem report_toList (call : ParsedToolCall φ) (errs : List String) :
    (report call errs).toList = nameText call ++ ':' :: ' ' :: ("; ".intercalate errs).toList := by
  simp [report]

theorem mentions_append_iff {c : Char} (hc : c ∉ unknownTool) (front rest : List Char) :
    mentionsUnknownTool (front ++ c :: ' ' :: rest) = true ↔
      mentionsUnknownTool front = true ∨ mentionsUnknownTool rest = true := by
  have hne : unknownTool ≠ [] := by decide
  have hhead : unknownTool.head? ≠ some ' ' := by decide
  simp only [mentionsUnknownTool,decide_eq_true_eq]
  exact infix_append_cons_cons_iff hc hne hhead

theorem mentions_intercalate_iff (parts : List String) :
    mentionsUnknownTool ("; ".intercalate parts).toList = true ↔
      ∃ part ∈ parts, mentionsUnknownTool part.toList = true := by
  have hc : ';' ∉ unknownTool := by decide
  have hne : unknownTool ≠ [] := by decide
  have hhead : unknownTool.head? ≠ some ' ' := by decide
  have hsep : "; ".toList = [';',' '] := by decide
  simp only [mentionsUnknownTool,decide_eq_true_eq,String.toList_intercalate]
  rw [hsep,infix_intercalate_iff hc hne hhead]
  simp only [List.mem_map,exists_exists_and_eq_and]

theorem mentions_report_iff (call : ParsedToolCall φ) (errs : List String) :
    mentionsUnknownTool (report call errs).toList = true ↔
      mentionsUnknownTool (nameText call) = true ∨
        ∃ err ∈ errs, mentionsUnknownTool err.toList = true := by
  have hc : ':' ∉ unknownTool := by decide
  rw [← mentions_intercalate_iff,report_toList,mentions_append_iff hc]

/-- The first call whose arguments fail. -/
def FirstFailing (host : Host φ) (registry : ToolRegistry φ) (calls : List (ParsedToolCall φ))
    (call : ParsedToolCall φ) : Prop :=
  ∃ front behind, calls = front ++ call :: behind ∧ (∀ c ∈ front, ¬ Fails host registry c) ∧
    Fails host registry call

theorem exists_firstFailing {calls : List (ParsedToolCall φ)}
    (h : ∃ call ∈ calls, Fails host registry call) :
    ∃ call, FirstFailing host registry calls call := by
  induction calls with
  | nil => simp at h
  | cons c calls ih =>
    by_cases hc : Fails host registry c
    · exact ⟨c,[],calls,rfl,by simp,hc⟩
    · obtain ⟨call,hmem,hfails⟩ := h
      have hrest : call ∈ calls := by
        rcases List.mem_cons.mp hmem with rfl | hmem
        · exact absurd hfails hc
        · exact hmem
      obtain ⟨first,front,behind,rfl,hfront,hfirst⟩ := ih ⟨call,hrest,hfails⟩
      refine ⟨first,c :: front,behind,rfl,?_,hfirst⟩
      rw [List.forall_mem_cons]
      exact ⟨hc,hfront⟩

theorem reasons_of_firstFailing {calls : List (ParsedToolCall φ)} {call : ParsedToolCall φ}
    (h : FirstFailing host registry calls call) (hknown : ∀ c ∈ calls, Known registry c)
    {verdicts : List (Option String)}
    (hrun : calls.mapM (assessCall host registry) = .ok verdicts) :
    ∃ errs reasons, verdicts.reduceOption = report call errs :: reasons := by
  obtain ⟨front,behind,rfl,hfront,errs,herrs,hne⟩ := h
  rw [mapM_eq_ok] at hrun
  induction front generalizing verdicts with
  | nil =>
    rcases hrun with _ | ⟨hverdict,-⟩
    rw [assessCall_of_known (hknown call (by simp)),herrs] at hverdict
    simp only [Except.map,if_neg hne,Except.ok.injEq] at hverdict
    rw [← hverdict]
    exact ⟨errs,_,rfl⟩
  | cons c front ih =>
    rcases hrun with _ | ⟨hverdict,hrest⟩
    rw [assessCall_of_known (hknown c (by simp))] at hverdict
    obtain ⟨errs',herrs',heq⟩ := map_eq_ok.mp hverdict
    have hempty : errs' = [] := by
      by_contra hne'
      exact hfront c (by simp) ⟨errs',herrs',hne'⟩
    rw [← heq,if_pos hempty]
    have hfirst := ih (fun c' hc' => hknown c' (List.mem_cons_of_mem _ hc')) hrest
      fun c' hc' => hfront c' (List.mem_cons_of_mem _ hc')
    exact hfirst

/-- No known call of the list meets a malformed schema. -/
def SchemasHold (host : Host φ) (registry : ToolRegistry φ) (calls : List (ParsedToolCall φ)) : Prop :=
  ∀ call ∈ calls, Known registry call → ∃ errs, argumentErrors host registry call = .ok errs

/-- The words for an unknown tool occur in no failing call's name or errors. -/
def Unmentioned (host : Host φ) (registry : ToolRegistry φ) (calls : List (ParsedToolCall φ)) : Prop :=
  ∀ call ∈ calls, ∀ errs, argumentErrors host registry call = .ok errs → errs ≠ [] →
    mentionsUnknownTool (nameText call) = false ∧
      ∀ err ∈ errs, mentionsUnknownTool err.toList = false

/-- The turns whose cause the schema tier names. -/
structure Diagnosable (host : Host φ) (registry : ToolRegistry φ)
    (ext : HermesExtraction φ) : Prop where
  extracted : ext.error = none
  unknown : (∃ call ∈ ext.toolCalls, ¬ Known registry call) → SchemasHold host registry ext.toolCalls
  args : (∀ call ∈ ext.toolCalls, Known registry call) →
    (∃ call ∈ ext.toolCalls, Fails host registry call) →
    SchemasHold host registry ext.toolCalls ∧ Unmentioned host registry ext.toolCalls ∧
      ∀ call, FirstFailing host registry ext.toolCalls call → Readable (nameText call)

theorem exists_verdicts_iff {calls : List (ParsedToolCall φ)} :
    (∃ verdicts, calls.mapM (assessCall host registry) = .ok verdicts) ↔
      SchemasHold host registry calls := by
  rw [exists_mapM_iff]
  refine forall₂_congr fun call _ => ?_
  by_cases hknown : Known registry call
  · rw [assessCall_of_known hknown]
    constructor
    · rintro ⟨verdict,hverdict⟩ -
      obtain ⟨errs,herrs,-⟩ := map_eq_ok.mp hverdict
      exact ⟨errs,herrs⟩
    · intro h
      obtain ⟨errs,herrs⟩ := h hknown
      exact ⟨_,by rw [herrs]; rfl⟩
  · rw [assessCall_of_unknown hknown]
    exact ⟨fun _ hk => absurd hk hknown,fun _ => ⟨_,rfl⟩⟩

theorem mem_reasons_iff {calls : List (ParsedToolCall φ)} {verdicts : List (Option String)}
    (hrun : calls.mapM (assessCall host registry) = .ok verdicts) {reason : String} :
    reason ∈ verdicts.reduceOption ↔
      ∃ call ∈ calls, assessCall host registry call = .ok (some reason) := by
  rw [List.reduceOption_mem_iff,mem_mapM_iff hrun]

theorem excluded_tool (rest : List Char) : excluded ('t' :: rest) = false := by
  simp [excluded,lowerStartsWith,List.cons_prefix_cons]

theorem classify_failure (front : List Char) (hsemi : ';' ∉ 't' :: front)
    (hsep : ": ".toList <:+: 't' :: front) {reason : String} {exc : List Char}
    (hreason : reason.toList = 't' :: front ++ exc) :
    classifySchemaFailure reason ≠ .malformedToolCall := by
  refine classify_ne_malformed ?_
  rw [hreason,before_of_notMem hsemi,looksLikeArgs,Bool.and_eq_true,decide_eq_true_eq,
    Bool.not_eq_true',List.cons_append]
  exact ⟨hsep.trans (List.prefix_append _ _).isInfix,excluded_tool _⟩

theorem classify_decodeError (exc : String) :
    classifySchemaFailure ("tool-call JSON decode error: " ++ exc) ≠ .malformedToolCall :=
  classify_failure "ool-call JSON decode error: ".toList (by decide) (by decide) (by rw [String.toList_append]; rfl)

theorem classify_missing (exc : String) :
    classifySchemaFailure ("tool-call missing/invalid name or arguments: " ++ exc) ≠
      .malformedToolCall :=
  classify_failure "ool-call missing/invalid name or arguments: ".toList (by decide) (by decide) (by rw [String.toList_append]; rfl)

theorem intercalate_cons_toList (sep part : String) (parts : List String) :
    ∃ rest, (sep.intercalate (part :: parts)).toList = part.toList ++ rest := by
  cases parts with
  | nil => exact ⟨[],by simp⟩
  | cons next parts =>
    refine ⟨sep.toList ++ (sep.intercalate (next :: parts)).toList,?_⟩
    rw [String.intercalate_cons_cons,String.toList_append,String.toList_append,List.append_assoc]

theorem mentions_reasons_iff {calls : List (ParsedToolCall φ)}
    (hknown : ∀ c ∈ calls, Known registry c) {verdicts : List (Option String)}
    (hrun : calls.mapM (assessCall host registry) = .ok verdicts) :
    mentionsUnknownTool ("; ".intercalate verdicts.reduceOption).toList = false ↔
      Unmentioned host registry calls := by
  rw [← Bool.not_eq_true,mentions_intercalate_iff,not_exists]
  constructor
  · intro h call hcall errs herrs hne
    have hreason : report call errs ∈ verdicts.reduceOption := by
      rw [mem_reasons_iff hrun]
      refine ⟨call,hcall,?_⟩
      rw [assessCall_of_known (hknown call hcall),herrs]
      simp only [Except.map,if_neg hne]
    have hquiet : ¬ mentionsUnknownTool (report call errs).toList = true :=
      fun hmention => h (report call errs) ⟨hreason,hmention⟩
    rw [mentions_report_iff,not_or] at hquiet
    refine ⟨by simpa using hquiet.1,fun err herr => ?_⟩
    by_contra hmention
    exact hquiet.2 ⟨err,herr,by simpa using hmention⟩
  · rintro h reason ⟨hreason,hmention⟩
    obtain ⟨call,hcall,hverdict⟩ := (mem_reasons_iff hrun).mp hreason
    rw [assessCall_of_known (hknown call hcall)] at hverdict
    obtain ⟨errs,herrs,heq⟩ := map_eq_ok.mp hverdict
    by_cases hne : errs = []
    · rw [if_pos hne] at heq
      cases heq
    · rw [if_neg hne] at heq
      obtain ⟨hname,herr⟩ := h call hcall errs herrs hne
      rw [← Option.some.inj heq,mentions_report_iff,hname] at hmention
      rcases hmention with hmention | ⟨err,hmem,hmention⟩
      · cases hmention
      · rw [herr err hmem] at hmention
        cases hmention

theorem classify_args_iff {calls : List (ParsedToolCall φ)}
    (hknown : ∀ c ∈ calls, Known registry c) {verdicts : List (Option String)}
    (hrun : calls.mapM (assessCall host registry) = .ok verdicts) {call : ParsedToolCall φ}
    (hfirst : FirstFailing host registry calls call) :
    reasonTypes verdicts.reduceOption = [.schemaArgs] ↔
      Unmentioned host registry calls ∧ Readable (nameText call) := by
  obtain ⟨errs,reasons,hreasons⟩ := reasons_of_firstFailing hfirst hknown hrun
  obtain ⟨rest,htext⟩ := intercalate_cons_toList "; " (report call errs) reasons
  rw [report_toList,List.append_assoc] at htext
  have hhead : looksLikeArgs (before ';' ("; ".intercalate verdicts.reduceOption).toList) = true ↔
      Readable (nameText call) := by
    rw [hreasons,htext]
    exact looksLikeArgs_iff _ _
  have htypes : reasonTypes verdicts.reduceOption =
      [classifySchemaFailure ("; ".intercalate verdicts.reduceOption)] := by
    rw [reasonTypes,hreasons]
    rfl
  rw [htypes,List.singleton_inj,classify_eq_args_iff,mentions_reasons_iff hknown hrun,hhead]

theorem classify_unknown {calls : List (ParsedToolCall φ)} {verdicts : List (Option String)}
    (hrun : calls.mapM (assessCall host registry) = .ok verdicts)
    (hunknown : ∃ call ∈ calls, ¬ Known registry call) :
    reasonTypes verdicts.reduceOption = [.schemaUnknownTool] := by
  obtain ⟨call,hcall,hnot⟩ := hunknown
  have hreason := (mem_reasons_iff hrun).mpr ⟨call,hcall,assessCall_of_unknown hnot⟩
  have hmention : mentionsUnknownTool s!"unknown tool {host.repr call.name}".toList = true := by
    rw [mentionsUnknownTool,decide_eq_true_eq]
    have htext : s!"unknown tool {host.repr call.name}".toList =
        unknownTool ++ ' ' :: (host.repr call.name).toList := String.toList_append
    rw [htext]
    exact (List.prefix_append _ _).isInfix
  have hne : verdicts.reduceOption.isEmpty = false := by
    cases hlist : verdicts.reduceOption with
    | nil => simp [hlist] at hreason
    | cons reason reasons => rfl
  have hclassify := (classify_eq_unknown_iff ("; ".intercalate verdicts.reduceOption)).mpr
    ((mentions_intercalate_iff _).mpr ⟨_,hreason,hmention⟩)
  rw [reasonTypes,hne,hclassify]
  rfl

theorem classify_valid {calls : List (ParsedToolCall φ)}
    (h : ∀ call ∈ calls, Conforms host registry call) :
    (calls.mapM (assessCall host registry)).map (fun verdicts => reasonTypes verdicts.reduceOption) =
      .ok [] := by
  have hrun : calls.mapM (assessCall host registry) = .ok (calls.map fun _ => none) :=
    mapM_ok fun call hcall => by
      rw [assessCall_of_known (h call hcall).1,(h call hcall).2]
      rfl
  have hnone : (calls.map fun _ => (none : Option String)).reduceOption = [] := by
    simp [List.reduceOption]
  rw [hrun]
  simp only [Except.map,hnone]
  rfl

/-- The schema tier names the real cause of every turn exactly when the turn is diagnosable. -/
theorem schemaTier_byCause_iff {cfg : InvalidActionPenaltyConfig}
    {envMetadata : Option EnvMetadata} (hcfg : cfg.enableSchemaValidation.getD true = true)
    (henv : envFlag cfg EnvMetadata.invalidAction envMetadata = false) :
    ByCause host registry text
        (addedTypes host cfg text (envFlag cfg EnvMetadata.invalidAction envMetadata) registry) ↔
      ∀ ext, parseHermesToolCalls host text = .ok ext → Diagnosable host registry ext := by
  rw [henv]
  constructor
  · intro h ext hparse
    have herror : ext.error = none := by
      by_contra hne
      have hadded := h.malformed ext hparse hne
      rcases parse_cases hparse with ⟨-,-,hnone⟩ | ⟨-,hnone⟩ | ⟨hatt,exc,herr | herr⟩
      · exact hne hnone
      · exact hne hnone
      · rw [addedTypes_of_error hcfg hparse hatt herr] at hadded
        exact classify_decodeError exc (List.singleton_inj.mp (Except.ok.inj hadded))
      · rw [addedTypes_of_error hcfg hparse hatt herr] at hadded
        exact classify_missing exc (List.singleton_inj.mp (Except.ok.inj hadded))
    refine ⟨herror,?_,?_⟩
    · intro hunknown
      have hadded := h.unknown ext hparse herror hunknown
      rw [addedTypes_of_calls hcfg hparse herror] at hadded
      obtain ⟨verdicts,hrun,-⟩ := map_eq_ok.mp hadded
      exact exists_verdicts_iff.mp ⟨verdicts,hrun⟩
    · intro hknown hfails
      have hadded := h.args ext hparse herror hknown hfails
      rw [addedTypes_of_calls hcfg hparse herror] at hadded
      obtain ⟨verdicts,hrun,htypes⟩ := map_eq_ok.mp hadded
      obtain ⟨first,hfirst⟩ := exists_firstFailing hfails
      refine ⟨exists_verdicts_iff.mp ⟨verdicts,hrun⟩,
        ((classify_args_iff hknown hrun hfirst).mp htypes).1,fun call hcall => ?_⟩
      exact ((classify_args_iff hknown hrun hcall).mp htypes).2
  · intro h
    refine ⟨?_,?_,?_,?_⟩
    · intro ext hparse herror hconforms
      rw [addedTypes_of_calls hcfg hparse herror]
      exact classify_valid hconforms
    · intro ext hparse hne
      exact absurd (h ext hparse).extracted hne
    · intro ext hparse herror hunknown
      obtain ⟨verdicts,hrun⟩ := exists_verdicts_iff.mpr ((h ext hparse).unknown hunknown)
      rw [addedTypes_of_calls hcfg hparse herror,hrun]
      exact congrArg Except.ok (classify_unknown hrun hunknown)
    · intro ext hparse herror hknown hfails
      obtain ⟨hschemas,hquiet,hreadable⟩ := (h ext hparse).args hknown hfails
      obtain ⟨verdicts,hrun⟩ := exists_verdicts_iff.mpr hschemas
      obtain ⟨first,hfirst⟩ := exists_firstFailing hfails
      rw [addedTypes_of_calls hcfg hparse herror,hrun]
      exact congrArg Except.ok
        ((classify_args_iff hknown hrun hfirst).mpr ⟨hquiet,hreadable first hfirst⟩)

/-- An interpreter on the inputs below. -/
def sampleHost : Host Unit where
  floatEq _ _ := true
  floatEqInt _ _ := false
  repr v := match v with
    | .str s => "'" ++ s ++ "'"
    | _ => ""
  loads s :=
    if s = "\x7b\"name\": \"submit_patch\", \"arguments\": \x7b\x7d\x7d" then
      .ok (.obj [("name",.str "submit_patch"),("arguments",.obj [])])
    else .error (.decode "Expecting value: line 1 column 1 (char 0)")
  dumps _ := "\x7b\x7d"
  subscriptError _ := ""

def submitPatch : Tool Unit := ⟨"submit_patch","Submit the unified-diff patch that solves the task.",
  .dict (some (.str "object")) none (some (.arr [.str "patch"]))
    (some [("patch",.dict (some (.str "string")) none none (some []) none)]) none⟩

def codeTools : ToolRegistry Unit := ⟨[submitPatch],by simp⟩

def defaultConfig : InvalidActionPenaltyConfig := ⟨none,none,none,none⟩

def emptyPatchText : String :=
  "<tool_call>\x7b\"name\": \"submit_patch\", \"arguments\": \x7b\x7d\x7d</tool_call>"

def emptyPatch : ParsedToolCall Unit := ⟨.str "submit_patch",.obj [],"\x7b\x7d"⟩

theorem emptyPatch_errors : argumentErrors sampleHost codeTools emptyPatch =
    .ok ["$: missing required property 'patch'"] := by decide

theorem emptyPatch_diagnosable : Diagnosable sampleHost codeTools ⟨true,[emptyPatch],none,none⟩ := by
  have hschemas : SchemasHold sampleHost codeTools [emptyPatch] := fun call hcall _ => by
    rw [List.mem_singleton.mp hcall]
    exact ⟨_,emptyPatch_errors⟩
  refine ⟨rfl,fun _ => hschemas,fun _ _ => ⟨hschemas,?_,?_⟩⟩
  · intro call hcall errs herrs _
    rw [List.mem_singleton.mp hcall,emptyPatch_errors] at herrs
    obtain rfl := Except.ok.inj herrs
    rw [List.mem_singleton.mp hcall]
    decide
  · rintro call ⟨front,behind,hsplit,-⟩
    have hcall : call ∈ [emptyPatch] := by
      rw [show [emptyPatch] = front ++ call :: behind from hsplit]
      simp
    rw [List.mem_singleton.mp hcall]
    exact ⟨.inl (by decide),by decide⟩

theorem schemaTier_byCause_iff_patch :
    parseHermesToolCalls sampleHost emptyPatchText = .ok ⟨true,[emptyPatch],none,none⟩ ∧
      ByCause sampleHost codeTools emptyPatchText
        (addedTypes sampleHost defaultConfig emptyPatchText
          (envFlag defaultConfig EnvMetadata.invalidAction none) codeTools) := by
  have hparse : parseHermesToolCalls sampleHost emptyPatchText =
      .ok ⟨true,[emptyPatch],none,none⟩ := rfl
  refine ⟨hparse,(schemaTier_byCause_iff rfl rfl).mpr fun ext hext => ?_⟩
  rw [← Except.ok.inj (hparse.symm.trans hext)]
  exact emptyPatch_diagnosable

/-- A truncated call does not decode, and the tier blames the arguments. -/
theorem truncated_blames_args :
    addedTypes sampleHost defaultConfig "<tool_call>"
        (envFlag defaultConfig EnvMetadata.invalidAction none) codeTools = .ok [.schemaArgs] ∧
      ¬ ByCause sampleHost codeTools "<tool_call>"
        (addedTypes sampleHost defaultConfig "<tool_call>"
          (envFlag defaultConfig EnvMetadata.invalidAction none) codeTools) := by
  have hparse : parseHermesToolCalls sampleHost "<tool_call>" = .ok (.failed "<tool_call>"
      "tool-call JSON decode error: Expecting value: line 1 column 1 (char 0)") := rfl
  have hclassify : classifySchemaFailure
      "tool-call JSON decode error: Expecting value: line 1 column 1 (char 0)" = .schemaArgs := by
    decide +kernel
  have hadded : addedTypes sampleHost defaultConfig "<tool_call>" false codeTools =
      .ok [.schemaArgs] := by
    rw [addedTypes_of_error rfl hparse rfl rfl,hclassify]
  have henv : envFlag defaultConfig EnvMetadata.invalidAction none = false := rfl
  rw [henv]
  refine ⟨hadded,fun h => ?_⟩
  have hmalformed := h.malformed _ hparse (by simp [HermesExtraction.failed])
  rw [hadded] at hmalformed
  cases hmalformed

end Rewards
end DockyardRL
