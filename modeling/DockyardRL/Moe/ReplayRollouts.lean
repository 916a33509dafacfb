import DockyardRL.Lib.Numerals
import DockyardRL.Moe.RouterReplay

/-! Where captured routes land. The alignment takes the first route for that of the first position,
also where the engine returned routes for the generated tokens alone.

Rollouts with routes: what a run appends to the logs, and which runs leave a batch that is replayed
exactly as recorded. -/
namespace DockyardRL
namespace Moe
namespace RouterReplay

open Numerals

section

variable {layers topK : ℕ}

/-- `routed_experts_from_vllm_output` with its defaults, where the prompt has routes of its own. -/
def routedExpertsWithPrompt (prompt : List (Route layers topK))
    (routed : Option (List (Route layers topK))) (validLength paddedLength : ℕ) :
    Except CaptureError (Option (List (Route layers topK))) :=
  alignRoutedExpertIndices routed (some prompt) validLength paddedLength false true

theorem routedExpertsWithPrompt_eq (prompt : List (Route layers topK))
    (routed : Option (List (Route layers topK))) (valid padded : ℕ) :
    routedExpertsWithPrompt prompt routed valid padded =
      .ok (aligned (some (prompt ++ routed.getD [])) valid padded) := by
  rw [← capture_eq]
  cases routed with
  | none => rw [Option.getD_none,List.append_nil]; rfl
  | some routes => rfl

theorem aligned_some (routes : List (Route layers topK)) (valid padded : ℕ) :
    aligned (some routes) valid padded = some ((List.range padded).map fun q =>
      if q < valid - 1 then (routes[q]?).getD sentinelRoute else identityRoute) := rfl

/-- With a prompt of `p` tokens and `g` generated ones: the default route at every position of the prompt
and from the last token on, and the route of a generated token at the position of the token. -/
structure LandsOnTokens (p g padded : ℕ) (rows tensor : List (Route layers topK)) : Prop where
  length : tensor.length = padded
  prompt : ∀ q < p, tensor[q]? = some identityRoute
  behind : ∀ q, p + g - 1 ≤ q → q < padded → tensor[q]? = some identityRoute
  generated : ∀ k, p + k < p + g - 1 → tensor[p + k]? = rows[k]?

theorem identityRoute_ne_sentinelRoute (hlayers : 0 < layers) (htop : 0 < topK) :
    (identityRoute : Route layers topK) ≠ sentinelRoute := by
  intro h
  have hentry := congrFun (congrFun h ⟨0,hlayers⟩) ⟨0,htop⟩
  simp [identityRoute,sentinelRoute,missingRouteSentinel] at hentry

theorem route_eq (h : layers = 0 ∨ topK = 0) (r r' : Route layers topK) : r = r' := by
  funext l k
  obtain rfl | rfl := h
  · exact l.elim0
  · exact k.elim0

variable {p g padded : ℕ} {rows : List (Route layers topK)}

theorem rows_of_landsOnTokens (hlayers : 0 < layers) (htop : 0 < topK) (hp : 1 ≤ p)
    (hrows : rows.length = g ∨ rows.length + 1 = g) (hpadded : p + g ≤ padded)
    (h : LandsOnTokens p g padded rows ((List.range padded).map fun q =>
      if q < p + g - 1 then (rows[q]?).getD sentinelRoute else identityRoute)) :
    p = 1 ∧ rows.length = g ∧ ∀ row ∈ rows, row = identityRoute := by
  have hread : ∀ q < p + g - 1, ((List.range padded).map fun q =>
      if q < p + g - 1 then (rows[q]?).getD sentinelRoute else identityRoute)[q]? =
        some ((rows[q]?).getD sentinelRoute) := by
    intro q hq
    rw [List.getElem?_map,List.getElem?_range (by omega),Option.map_some,if_pos hq]
  have hall : ∀ q < p + g - 1, (rows[q]?).getD sentinelRoute = identityRoute := by
    intro q
    induction q using Nat.strong_induction_on with
    | _ q ih =>
    intro hq
    by_cases hprompt : q < p
    · exact Option.some.inj ((hread q hq).symm.trans (h.prompt q hprompt))
    · obtain ⟨k,rfl⟩ := Nat.exists_eq_add_of_le (Nat.le_of_not_lt hprompt)
      have hk : k < rows.length := by omega
      have hrow : rows[k]? = some rows[k] := List.getElem?_eq_getElem hk
      have hsame := (hread _ hq).symm.trans (h.generated k hq)
      rw [hrow] at hsame
      have hearlier := ih k (by omega) (by omega)
      rw [hrow,Option.getD_some] at hearlier
      exact (Option.some.inj hsame).trans hearlier
  have hlength : p + g - 1 ≤ rows.length := by
    by_contra hlt
    have hlast := hall rows.length (Nat.lt_of_not_le hlt)
    rw [List.getElem?_eq_none le_rfl] at hlast
    exact identityRoute_ne_sentinelRoute hlayers htop hlast.symm
  refine ⟨by omega,by omega,fun row hrow => ?_⟩
  obtain ⟨k,hk,rfl⟩ := List.mem_iff_getElem.mp hrow
  have hentry := hall k (by omega)
  rwa [List.getElem?_eq_getElem hk,Option.getD_some] at hentry

/-- Routes of the generated tokens alone land on their tokens only where all of them are the default and
the prompt is one token; with routes of the prompt all of them do. -/
theorem captured_routes_land_iff (hp : 1 ≤ p) (hrows : rows.length = g ∨ rows.length + 1 = g)
    (hpadded : p + g ≤ padded) :
    ((∃ tensor, routedExpertsFromVllmOutput (some rows) (p + g) padded = .ok (some tensor) ∧
        LandsOnTokens p g padded rows tensor) ∧
      ∀ (prompt : List (Route layers topK)) (routed : Option (List (Route layers topK))),
        ∃ tensor, routedExpertsWithPrompt prompt routed (p + g) padded = .ok (some tensor) ∧
          tensor.length = padded ∧ ∀ i < p + g - 1,
            tensor[i]? = some (((prompt ++ routed.getD [])[i]?).getD sentinelRoute)) ↔
      layers = 0 ∨ topK = 0 ∨ (p = 1 ∧ rows.length = g ∧ ∀ row ∈ rows, row = identityRoute) := by
  have hwith : ∀ (prompt : List (Route layers topK)) (routed : Option (List (Route layers topK))),
      ∃ tensor, routedExpertsWithPrompt prompt routed (p + g) padded = .ok (some tensor) ∧
        tensor.length = padded ∧ ∀ i < p + g - 1,
          tensor[i]? = some (((prompt ++ routed.getD [])[i]?).getD sentinelRoute) := by
    intro prompt routed
    refine ⟨_,(routedExpertsWithPrompt_eq prompt routed _ _).trans (by rw [aligned_some]),by simp,?_⟩
    intro i hi
    rw [List.getElem?_map,List.getElem?_range (by omega),Option.map_some,if_pos hi]
  rw [and_iff_left hwith,capture_eq,aligned_some]
  constructor
  · rintro ⟨tensor,htensor,hlands⟩
    obtain rfl := Option.some.inj (Except.ok.inj htensor)
    by_cases hlayers : layers = 0
    · exact .inl hlayers
    · by_cases htop : topK = 0
      · exact .inr (.inl htop)
      · exact .inr (.inr (rows_of_landsOnTokens (Nat.pos_of_ne_zero hlayers) (Nat.pos_of_ne_zero htop)
          hp hrows hpadded hlands))
  · intro h
    have hrow : ∀ row ∈ rows, row = identityRoute := by
      intro row hrow
      obtain hlayers | htop | ⟨-,-,hall⟩ := h
      · exact route_eq (.inl hlayers) _ _
      · exact route_eq (.inr htop) _ _
      · exact hall row hrow
    have hdefault : ∀ q < p + g - 1, (rows[q]?).getD sentinelRoute = identityRoute := by
      intro q hq
      obtain hlayers | htop | ⟨hone,hlength,-⟩ := h
      · exact route_eq (.inl hlayers) _ _
      · exact route_eq (.inr htop) _ _
      · have hlt : q < rows.length := by omega
        rw [List.getElem?_eq_getElem hlt,Option.getD_some]
        exact hrow _ (List.getElem_mem hlt)
    have hread : ∀ q < padded, ((List.range padded).map fun q =>
        if q < p + g - 1 then (rows[q]?).getD sentinelRoute else identityRoute)[q]? =
          some identityRoute := by
      intro q hq
      rw [List.getElem?_map,List.getElem?_range hq,Option.map_some]
      split_ifs with hlt
      · rw [hdefault q hlt]
      · rfl
    refine ⟨_,rfl,by simp,fun q hq => hread q (by omega),fun q _ hlt => hread q hlt,fun k hk => ?_⟩
    have hlt : k < rows.length := by omega
    rw [hread _ (by omega),List.getElem?_eq_getElem hlt,hrow _ (List.getElem_mem hlt)]

def lateRoute : Route 1 2 := fun _ k => if k = 0 then 4 else 7

theorem captured_routes_land_iff_one :
    ((∃ tensor, routedExpertsFromVllmOutput (some [lateRoute]) (2 + 1) 3 = .ok (some tensor) ∧
        LandsOnTokens 2 1 3 [lateRoute] tensor) ∧
      ∀ (prompt : List (Route 1 2)) (routed : Option (List (Route 1 2))),
        ∃ tensor, routedExpertsWithPrompt prompt routed (2 + 1) 3 = .ok (some tensor) ∧
          tensor.length = 3 ∧ ∀ i < 2 + 1 - 1,
            tensor[i]? = some (((prompt ++ routed.getD [])[i]?).getD sentinelRoute)) ↔
      1 = 0 ∨ 2 = 0 ∨ (2 = 1 ∧ [lateRoute].length = 1 ∧ ∀ row ∈ [lateRoute], row = identityRoute) :=
  captured_routes_land_iff (by decide) (.inl rfl) le_rfl

/-- The route of the one generated token is written to the first position of the prompt. -/
theorem lateRoute_lands_on_prompt :
    routedExpertsFromVllmOutput (some [lateRoute]) 3 3 =
        .ok (some [lateRoute,sentinelRoute,identityRoute]) ∧
      ¬LandsOnTokens 2 1 3 [lateRoute] [lateRoute,sentinelRoute,identityRoute] := by
  refine ⟨rfl,fun h => ?_⟩
  have hfirst := Option.some.inj (h.prompt 0 (by decide))
  exact absurd (congrFun (congrFun hfirst 0) 0) (by decide)

end

open Padding

variable {layers topK n : ℕ}

def answerRoutes (routed : Option (List (Route layers topK))) (history generated padded : ℕ) :
    List (Route layers topK) :=
  (((aligned routed (history + generated) padded).getD (routedExpertsEmpty padded)).drop history).take
    generated

def answerReturned (routed : Option (List (Route layers topK))) (history generated : ℕ) :
    List (Option (Route layers topK)) :=
  (List.range generated).map fun t => routed.bind fun routes => routes[history + t]?

variable {routed : Option (List (Route layers topK))} {history generated padded : ℕ}

@[simp] theorem length_answerReturned :
    (answerReturned routed history generated).length = generated := by
  simp [answerReturned]

theorem answerRoutes_eq (h : history + generated ≤ padded) :
    answerRoutes routed history generated padded = (List.range generated).map fun t =>
      if t + 1 < generated then
        routed.elim identityRoute fun routes => (routes[history + t]?).getD sentinelRoute
      else identityRoute := by
  refine List.ext_getElem? fun t => ?_
  rw [answerRoutes,List.getElem?_take,List.getElem?_map]
  split_ifs with ht
  · rw [List.getElem?_drop,List.getElem?_range ht]
    cases routed with
    | none =>
      simp only [aligned,Option.map_none,Option.getD_none,routedExpertsEmpty,Option.elim_none,ite_self]
      rw [List.getElem?_replicate,if_pos (by omega)]
      rfl
    | some routes =>
      simp only [aligned,Option.map_some,Option.getD_some,Option.elim_some]
      rw [List.getElem?_map,List.getElem?_range (by omega),Option.map_some]
      exact congrArg some (if_congr (by omega) rfl rfl)
  · rw [List.getElem?_eq_none (by simpa using ht)]
    rfl

theorem length_answerRoutes (h : history + generated ≤ padded) :
    (answerRoutes routed history generated padded).length = generated := by
  simp [answerRoutes_eq h]

theorem identityRoute_ne (hlayers : 0 < layers) :
    ¬EntryExact (identityRoute : Route layers topK) none := by
  intro hmissing
  obtain ⟨k,hk⟩ := hmissing ⟨0,hlayers⟩
  simp only [identityRoute,missingRouteSentinel] at hk
  omega

theorem answerRoutes_exact_iff (hlayers : 0 < layers) (htop : 0 < topK)
    (h : history + generated ≤ padded) :
    List.Forall₂ EntryExact (answerRoutes routed history generated padded)
      (answerReturned routed history generated) ↔
      generated = 0 ∨ ∃ routes, routed = some routes ∧
        routes[history + generated - 1]? = some identityRoute := by
  rw [answerRoutes_eq h,answerReturned,List.forall₂_map_left_iff,List.forall₂_map_right_iff,
    List.forall₂_same]
  simp only [List.mem_range]
  constructor
  · intro hall
    rcases Nat.eq_zero_or_pos generated with hzero | hpos
    · exact .inl hzero
    · have hlast := hall (generated - 1) (by omega)
      rw [if_neg (by omega),← Nat.add_sub_assoc hpos] at hlast
      refine .inr ?_
      cases hreturned : routed.bind fun routes => routes[history + generated - 1]? with
      | none =>
        rw [hreturned] at hlast
        exact absurd hlast (identityRoute_ne hlayers)
      | some route =>
        rw [hreturned] at hlast
        obtain ⟨routes,hroutes,hroute⟩ := Option.bind_eq_some_iff.mp hreturned
        exact ⟨routes,hroutes,hroute.trans (congrArg some hlast.symm)⟩
  · rintro (hzero | ⟨routes,hroutes,hlast⟩) t ht
    · omega
    · rw [hroutes,Option.bind_some,Option.elim_some]
      split_ifs with hinner
      · cases routes[history + t]? with
        | none => exact fun l => ⟨⟨0,htop⟩,rfl⟩
        | some route => exact rfl
      · have ht' : history + t = history + generated - 1 := by omega
        rw [ht',hlast]
        exact rfl

variable (logs : Logs n layers topK) (call : Call n layers topK)

/-- The engine returned routes for some sample of the call. -/
def Call.HasRoutes : Prop := ∃ b ∈ call.answers, b.routed ≠ none

def callColumn : Option (List (List (Route layers topK))) :=
  stackRoutedExperts (call.answers.map fun a =>
    aligned a.routed (validLength logs a) (paddedLength logs call)) (paddedLength logs call)

theorem generateResponses_eq : generateResponses logs call = .ok fun j =>
    logs j ++ (call.answers.zipIdx.filter (·.1.sample = j)).map
      fun p => assistantMessage logs (callColumn logs call) p.2 p.1 := by
  rw [generateResponses,Fallible.mapM_ok fun a _ => capture_eq a.routed (validLength logs a)
    (paddedLength logs call)]
  rfl

theorem callColumn_of_plain (h : ¬call.HasRoutes) : callColumn logs call = none := by
  have hnone : ∀ a ∈ call.answers, a.routed = none := by
    intro a ha
    by_contra hne
    exact h ⟨a,ha,hne⟩
  rw [callColumn,stackRoutedExperts,if_pos]
  simp only [List.all_map,List.all_eq_true,Function.comp_apply]
  intro a ha
  rw [hnone a ha]
  rfl

theorem callColumn_of_routes (h : call.HasRoutes) :
    callColumn logs call = some (call.answers.map fun a =>
      (aligned a.routed (validLength logs a) (paddedLength logs call)).getD
        (routedExpertsEmpty (paddedLength logs call))) := by
  obtain ⟨b,hb,hrouted⟩ := h
  rw [callColumn,stackRoutedExperts,if_neg,List.map_map]
  · rfl
  · simp only [List.all_map,List.all_eq_true,Function.comp_apply,not_forall]
    refine ⟨b,hb,?_⟩
    obtain ⟨routes,hroutes⟩ := Option.ne_none_iff_exists'.mp hrouted
    simp [hroutes,aligned]

theorem validLength_le {a : Answer n layers topK} (ha : a ∈ call.answers) :
    logLength (logs a.sample) + a.generated ≤ paddedLength logs call :=
  Nat.le_trans (le_longest (List.mem_map_of_mem (f := validLength logs) ha)) (Nat.le_add_right _ _)

theorem assistantMessage_of_plain (h : ¬call.HasRoutes) (i : ℕ) (a : Answer n layers topK) :
    (assistantMessage logs (callColumn logs call) i a).routedExperts = none := by
  rw [callColumn_of_plain logs call h]
  rfl

theorem assistantMessage_of_routes (h : call.HasRoutes) {i : ℕ} {a : Answer n layers topK}
    (ha : call.answers[i]? = some a) :
    (assistantMessage logs (callColumn logs call) i a).routedExperts =
      some (answerRoutes a.routed (logLength (logs a.sample)) a.generated (paddedLength logs call)) := by
  rw [callColumn_of_routes logs call h]
  simp only [assistantMessage,Option.map_some,List.getD_eq_getElem?_getD,List.getElem?_map,ha,
    Option.getD_some,answerRoutes,validLength]

theorem assistantMessage_returned (i : ℕ) (a : Answer n layers topK) :
    (assistantMessage logs (callColumn logs call) i a).returned =
      answerReturned a.routed (logLength (logs a.sample)) a.generated := rfl

variable {logs call}

theorem assistantMessage_wellSized {i : ℕ} {a : Answer n layers topK}
    (ha : call.answers[i]? = some a) :
    (assistantMessage logs (callColumn logs call) i a).WellSized where
  returned := length_answerReturned
  routes := by
    intro routes hroutes
    by_cases h : call.HasRoutes
    · rw [assistantMessage_of_routes logs call h ha,Option.some.injEq] at hroutes
      rw [← hroutes]
      exact length_answerRoutes (validLength_le logs call (List.mem_of_getElem? ha))
    · rw [assistantMessage_of_plain logs call h] at hroutes
      cases hroutes
  plain := by
    intro hplain
    by_cases h : call.HasRoutes
    · rw [assistantMessage_of_routes logs call h ha] at hplain
      cases hplain
    · have hrouted : a.routed = none := by
        by_contra hne
        exact h ⟨a,List.mem_of_getElem? ha,hne⟩
      rw [assistantMessage_returned,answerReturned,hrouted]
      simp [assistantMessage,List.map_const']
  experts := by
    intro route hroute
    rw [assistantMessage_returned] at hroute
    obtain ⟨t,-,ht⟩ := List.mem_map.mp hroute
    obtain ⟨routes,hroutes,hget⟩ := Option.bind_eq_some_iff.mp ht
    exact a.experts routes hroutes route (List.mem_of_getElem? hget)

/-- The default route of the last token of an answer is what the engine returned there, or no sample
of the call has routes. -/
def AnswerExact (call : Call n layers topK) (history : ℕ) (a : Answer n layers topK) : Prop :=
  call.HasRoutes → a.generated = 0 ∨ ∃ routes, a.routed = some routes ∧
    routes[history + a.generated - 1]? = some identityRoute

theorem assistantMessage_exact_iff (hlayers : 0 < layers) (htop : 0 < topK) {i : ℕ}
    {a : Answer n layers topK} (ha : call.answers[i]? = some a) :
    (assistantMessage logs (callColumn logs call) i a).Exact ↔
      AnswerExact call (logLength (logs a.sample)) a := by
  rw [Message.Exact,AnswerExact,← answerRoutes_exact_iff hlayers htop
    (validLength_le logs call (List.mem_of_getElem? ha)),assistantMessage_returned]
  by_cases h : call.HasRoutes
  · simp [assistantMessage_of_routes logs call h ha,h]
  · simp [assistantMessage_of_plain logs call h,h]

def lengthsAfter (lengths : Fin n → ℕ) : Event n layers topK → Fin n → ℕ
  | .generate call => fun j =>
    lengths j + ((call.answers.filter (·.sample = j)).map Answer.generated).sum
  | .environment sample tokens => Function.update lengths sample (lengths sample + tokens)

def EventExact (lengths : Fin n → ℕ) : Event n layers topK → Prop
  | .generate call => ∀ a ∈ call.answers, AnswerExact call (lengths a.sample) a
  | .environment _ _ => True

def RunExact : (Fin n → ℕ) → List (Event n layers topK) → Prop
  | _,[] => True
  | lengths,event :: events => EventExact lengths event ∧ RunExact (lengthsAfter lengths event) events

def RoutesFor (j : Fin n) : Event n layers topK → Prop
  | .generate call => (∃ a ∈ call.answers, a.sample = j) ∧ call.HasRoutes
  | .environment _ _ => False

theorem logLength_append (log log' : List (Message layers topK)) :
    logLength (log ++ log') = logLength log + logLength log' := by
  simp [logLength]

/-- What a step leaves behind. -/
structure Stepped (logs logs' : Logs n layers topK) (event : Event n layers topK) : Prop where
  lengths : ∀ j, logLength (logs' j) = lengthsAfter (fun j => logLength (logs j)) event j
  wellSized : WellSized logs → WellSized logs'
  exact : Exact logs' ↔ Exact logs ∧ EventExact (fun j => logLength (logs j)) event
  routed : ∀ j, Routed (logs' j) ↔ Routed (logs j) ∨ RoutesFor j event

theorem mem_answered {log : List (Message layers topK)} {column : Option (List (List (Route layers topK)))}
    {j : Fin n} {message : Message layers topK} :
    message ∈ log ++ (call.answers.zipIdx.filter (·.1.sample = j)).map
      (fun p => assistantMessage logs column p.2 p.1) ↔
      message ∈ log ∨ ∃ i a, call.answers[i]? = some a ∧ a.sample = j ∧
        assistantMessage logs column i a = message := by
  simp only [List.mem_append,List.mem_map,List.mem_filter,decide_eq_true_eq,Prod.exists,
    List.mem_zipIdx_iff_getElem?]
  constructor
  · rintro (hlog | ⟨a,i,⟨ha,hsample⟩,hmessage⟩)
    · exact .inl hlog
    · exact .inr ⟨i,a,ha,hsample,hmessage⟩
  · rintro (hlog | ⟨i,a,ha,hsample,hmessage⟩)
    · exact .inl hlog
    · exact .inr ⟨a,i,⟨ha,hsample⟩,hmessage⟩

theorem sum_answered (column : Option (List (List (Route layers topK)))) (j : Fin n) (i : ℕ)
    (answers : List (Answer n layers topK)) :
    logLength (((answers.zipIdx i).filter (·.1.sample = j)).map
      fun p => assistantMessage logs column p.2 p.1) =
      ((answers.filter (·.sample = j)).map Answer.generated).sum := by
  induction answers generalizing i with
  | nil => rfl
  | cons a answers ih =>
    by_cases hsample : a.sample = j
    · simpa [List.zipIdx_cons,hsample,logLength,assistantMessage] using ih (i + 1)
    · simpa [List.zipIdx_cons,hsample] using ih (i + 1)

theorem generate_stepped (hlayers : 0 < layers) (htop : 0 < topK) :
    Stepped logs (fun j => logs j ++ (call.answers.zipIdx.filter (·.1.sample = j)).map
      fun p => assistantMessage logs (callColumn logs call) p.2 p.1) (.generate call) where
  lengths := fun j => by
    rw [logLength_append,sum_answered]
    rfl
  wellSized := by
    intro h j message hmem
    rcases mem_answered.mp hmem with hlog | ⟨i,a,ha,-,rfl⟩
    · exact h j message hlog
    · exact assistantMessage_wellSized ha
  exact := by
    constructor
    · intro h
      refine ⟨fun j message hlog => h j message (mem_answered.mpr (.inl hlog)),fun a ha => ?_⟩
      obtain ⟨i,hi⟩ := List.getElem?_of_mem ha
      exact (assistantMessage_exact_iff hlayers htop hi).mp
        (h a.sample _ (mem_answered.mpr (.inr ⟨i,a,hi,rfl,rfl⟩)))
    · rintro ⟨hlogs,hevent⟩ j message hmem
      rcases mem_answered.mp hmem with hlog | ⟨i,a,ha,-,rfl⟩
      · exact hlogs j message hlog
      · exact (assistantMessage_exact_iff hlayers htop ha).mpr (hevent a (List.mem_of_getElem? ha))
  routed := by
    intro j
    constructor
    · rintro ⟨message,hmem,hrouted⟩
      rcases mem_answered.mp hmem with hlog | ⟨i,a,ha,hsample,rfl⟩
      · exact .inl ⟨message,hlog,hrouted⟩
      · refine .inr ⟨⟨a,List.mem_of_getElem? ha,hsample⟩,?_⟩
        by_contra hplain
        exact hrouted (assistantMessage_of_plain logs call hplain i a)
    · rintro (⟨message,hlog,hrouted⟩ | ⟨⟨a,ha,hsample⟩,hroutes⟩)
      · exact ⟨message,mem_answered.mpr (.inl hlog),hrouted⟩
      · obtain ⟨i,hi⟩ := List.getElem?_of_mem ha
        refine ⟨_,mem_answered.mpr (.inr ⟨i,a,hi,hsample,rfl⟩),?_⟩
        rw [assistantMessage_of_routes logs call hroutes hi]
        exact Option.some_ne_none _

theorem mem_environment {sample j : Fin n} {tokens : ℕ} {message : Message layers topK} :
    message ∈ Function.update logs sample (logs sample ++ [plainMessage tokens]) j ↔
      message ∈ logs j ∨ j = sample ∧ message = plainMessage tokens := by
  by_cases hj : j = sample
  · subst hj
    simp
  · simp [hj]

theorem environment_stepped (sample : Fin n) (tokens : ℕ) :
    Stepped logs (Function.update logs sample (logs sample ++ [plainMessage tokens]))
      (.environment sample tokens) where
  lengths := by
    intro j
    by_cases hj : j = sample
    · subst hj
      simp [lengthsAfter,logLength,plainMessage]
    · simp [lengthsAfter,hj]
  wellSized := by
    intro h j message hmem
    rcases mem_environment.mp hmem with hlog | ⟨-,rfl⟩
    · exact h j message hlog
    · exact plainMessage_wellSized tokens
  exact := by
    refine ⟨fun h => ⟨fun j message hlog => h j message (mem_environment.mpr (.inl hlog)),trivial⟩,?_⟩
    rintro ⟨hlogs,-⟩ j message hmem
    rcases mem_environment.mp hmem with hlog | ⟨-,rfl⟩
    · exact hlogs j message hlog
    · exact plainMessage_exact tokens
  routed := by
    intro j
    constructor
    · rintro ⟨message,hmem,hrouted⟩
      rcases mem_environment.mp hmem with hlog | ⟨-,rfl⟩
      · exact .inl ⟨message,hlog,hrouted⟩
      · exact absurd rfl hrouted
    · rintro (⟨message,hlog,hrouted⟩ | hfalse)
      · exact ⟨message,mem_environment.mpr (.inl hlog),hrouted⟩
      · cases hfalse

theorem step_stepped (hlayers : 0 < layers) (htop : 0 < topK) (event : Event n layers topK) :
    ∃ logs', step logs event = .ok logs' ∧ Stepped logs logs' event := by
  cases event with
  | generate call => exact ⟨_,generateResponses_eq logs call,generate_stepped hlayers htop⟩
  | environment sample tokens => exact ⟨_,rfl,environment_stepped sample tokens⟩

theorem rollout_spec (hlayers : 0 < layers) (htop : 0 < topK) (events : List (Event n layers topK))
    (h : WellSized logs) :
    ∃ logs', rollout logs events = .ok logs' ∧ WellSized logs' ∧
      (Exact logs' ↔ Exact logs ∧ RunExact (fun j => logLength (logs j)) events) ∧
      ∀ j, Routed (logs' j) ↔ Routed (logs j) ∨ ∃ event ∈ events, RoutesFor j event := by
  induction events generalizing logs with
  | nil => exact ⟨logs,rfl,h,by simp [RunExact],by simp⟩
  | cons event events ih =>
    obtain ⟨mid,hmid,hstep⟩ := step_stepped hlayers htop event
    obtain ⟨logs',hrun,hsized,hexact,hrouted⟩ := ih (hstep.wellSized h)
    have hlengths : (fun j => logLength (mid j)) = lengthsAfter (fun j => logLength (logs j)) event :=
      funext hstep.lengths
    refine ⟨logs',?_,hsized,?_,fun j => ?_⟩
    · rw [rollout,List.foldlM_cons,hmid]
      exact hrun
    · rw [hexact,hstep.exact,hlengths,RunExact,and_assoc]
    · rw [hrouted,hstep.routed,or_assoc]
      simp only [List.mem_cons,exists_eq_or_imp]

theorem promptLogs_wellSized (prompts : Fin n → List ℕ) :
    WellSized (promptLogs prompts : Logs n layers topK) := by
  intro j message hmem
  obtain ⟨tokens,-,rfl⟩ := List.mem_map.mp hmem
  exact plainMessage_wellSized tokens

theorem promptLogs_exact (prompts : Fin n → List ℕ) :
    Exact (promptLogs prompts : Logs n layers topK) := by
  intro j message hmem
  obtain ⟨tokens,-,rfl⟩ := List.mem_map.mp hmem
  exact plainMessage_exact tokens

theorem promptLogs_not_routed (prompts : Fin n → List ℕ) (j : Fin n) :
    ¬Routed ((promptLogs prompts : Logs n layers topK) j) := by
  rintro ⟨message,hmem,hrouted⟩
  obtain ⟨tokens,-,rfl⟩ := List.mem_map.mp hmem
  exact hrouted rfl

theorem logLength_promptLogs (prompts : Fin n → List ℕ) (j : Fin n) :
    logLength ((promptLogs prompts : Logs n layers topK) j) = (prompts j).sum := by
  simp [logLength,promptLogs,plainMessage,Function.comp_def]

/-- Generation is replayed exactly, whatever the scores of the router, when the default route of the
last tokens hurts in no call, and either no sample or every sample is answered by a call with
routes. -/
theorem replays_rollout_iff (hlayers : 0 < layers) (htop : 0 < topK) {divisibleBy : ℕ}
    (hdiv : 0 < divisibleBy) (prompts : Fin n → List ℕ) (events : List (Event n layers topK)) :
    ∃ logs, rollout (promptLogs prompts) events = .ok logs ∧
      ((∀ own, Replays logs divisibleBy own) ↔ RunExact (fun j => (prompts j).sum) events ∧
        ((∀ j, ∀ event ∈ events, ¬RoutesFor j event) ∨
          ∀ j, ∃ event ∈ events, RoutesFor j event)) := by
  obtain ⟨logs,hrun,hsized,hexact,hrouted⟩ :=
    rollout_spec hlayers htop events (promptLogs_wellSized prompts)
  refine ⟨logs,hrun,?_⟩
  simp only [logLength_promptLogs,promptLogs_exact,true_and] at hexact
  simp only [promptLogs_not_routed,false_or] at hrouted
  rw [replays_iff htop hdiv hsized,hexact]
  simp only [hrouted,not_exists,not_and]

theorem answered_nonneg (experts : List ℕ) :
    ∀ routes : List (Route 1 1), some (experts.map fun (k : ℕ) _ _ => (k : ℤ)) = some routes →
      ∀ route ∈ routes, ∀ l k, 0 ≤ route l k := by
  rintro _ ⟨rfl⟩ route hroute l k
  obtain ⟨expert,-,rfl⟩ := List.mem_map.mp hroute
  exact Int.natCast_nonneg _

def answered (sample : Fin 2) (generated : ℕ) (experts : List ℕ) : Answer 2 1 1 :=
  ⟨sample,generated,some (experts.map fun (k : ℕ) _ _ => (k : ℤ)),answered_nonneg experts⟩

/-- Two samples are answered in one call; the environment adds two tokens to the log of the first, which
is answered once more, and the engine returns these experts. -/
def twoTurns (experts : List ℕ) : List (Event 2 1 1) :=
  [.generate ⟨[answered 0 2 [3,5,0],answered 1 1 [4,6,0]],0⟩,.environment 0 2,
    .generate ⟨[answered 0 1 experts],0⟩]

def twoPrompts (j : Fin 2) : List ℕ := [j + 1]

theorem replays_rollout_twoTurns :
    ∃ logs, rollout (promptLogs twoPrompts) (twoTurns [3,5,0,2,9,0]) = .ok logs ∧
      ∀ own, Replays logs 1 own := by
  obtain ⟨logs,hrun,hiff⟩ := replays_rollout_iff Nat.one_pos Nat.one_pos Nat.one_pos twoPrompts
    (twoTurns [3,5,0,2,9,0])
  have hidentity : (identityRoute : Route 1 1) = fun _ _ => 0 := by
    funext l k
    simp [identityRoute]
  refine ⟨logs,hrun,hiff.mpr ⟨?_,.inr fun j => ?_⟩⟩
  · simp [twoTurns,twoPrompts,answered,RunExact,EventExact,AnswerExact,lengthsAfter,hidentity]
  · refine ⟨_,List.mem_cons_self,?_,_,List.mem_cons_self,Option.some_ne_none _⟩
    fin_cases j
    · exact ⟨_,List.mem_cons_self,rfl⟩
    · exact ⟨_,List.mem_cons_of_mem _ List.mem_cons_self,rfl⟩

/-- In the last turn the routes of all positions but the last are returned, and the router is forced to
the default route there. -/
theorem twoTurns_forced :
    ∃ logs, rollout (promptLogs twoPrompts) (twoTurns [3,5,0,2,9]) = .ok logs ∧
      ¬∀ own, Replays logs 1 own := by
  refine ⟨_,rfl,fun hall => ?_⟩
  obtain ⟨column,hcolumn,hreplays⟩ := hall fun _ _ _ _ => 7
  cases hcolumn
  have hlast := congrFun (hreplays 0 5 0 (by decide)) 0
  exact absurd hlast (by decide)

end RouterReplay
end Moe
end DockyardRL
