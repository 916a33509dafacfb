import DockyardRL.Data.MessageLog
import Mathlib

/-! Router replay: the experts that generation chose are captured with every answer, travel with the
messages of a rollout, and are forced in the training model.

Which routes reach the router. The default route of an aligned answer is forced like a recorded one,
so it may stand at no position of a generated message. -/
namespace DockyardRL
namespace Moe
namespace RouterReplay

open Padding

abbrev Route (layers topK : ℕ) : Type := Fin layers → Fin topK → ℤ

def missingRouteSentinel : ℤ := -1

section Routes

variable {layers topK : ℕ}

def sentinelRoute : Route layers topK := fun _ _ => missingRouteSentinel

/-- `arange(top_k)` in every layer. -/
def identityRoute : Route layers topK := fun _ k => (k : ℕ)

def routedExpertsEmpty (paddedLength : ℕ) : List (Route layers topK) :=
  List.replicate paddedLength identityRoute

inductive CaptureError
  | incomplete (routes expectedAtLeast validLength paddedLength : ℕ)
  | tooMany (routes expected maxAllowed validLength paddedLength : ℕ)
  deriving DecidableEq, Repr

def alignRoutedExpertIndices (routed promptRouted : Option (List (Route layers topK)))
    (validLength paddedLength : ℕ) (requireComplete allowMissingFallback : Bool) :
    Except CaptureError (Option (List (Route layers topK))) :=
  let routedT := match promptRouted,routed with
    | some prompt,some routed => some (prompt ++ routed)
    | some prompt,none => some prompt
    | none,routed => routed
  let expectedRoutes := min (validLength - 1) paddedLength
  match routedT with
  | none => .ok none
  | some routes =>
    let actual := routes.length
    let missingRoutes := expectedRoutes - actual
    if requireComplete ∧ 0 < missingRoutes ∧ ¬allowMissingFallback then
      .error (.incomplete actual expectedRoutes validLength paddedLength)
    else if requireComplete ∧ expectedRoutes + 1 < actual then
      .error (.tooMany actual expectedRoutes (expectedRoutes + 1) validLength paddedLength)
    else
      let routesToCopy := min expectedRoutes actual
      let full := routes.take routesToCopy ++
        (routedExpertsEmpty paddedLength).drop routesToCopy
      .ok (some (if 0 < missingRoutes then
        full.take routesToCopy ++ List.replicate (expectedRoutes - routesToCopy) sentinelRoute ++
          full.drop expectedRoutes
      else full))

/-- `routed_experts_from_vllm_output` with its defaults, where the prompt has no routes of its own. -/
def routedExpertsFromVllmOutput (routed : Option (List (Route layers topK)))
    (validLength paddedLength : ℕ) : Except CaptureError (Option (List (Route layers topK))) :=
  alignRoutedExpertIndices routed none validLength paddedLength false true

def stackRoutedExperts (perSample : List (Option (List (Route layers topK)))) (paddedLength : ℕ) :
    Option (List (List (Route layers topK))) :=
  if perSample.all (·.isNone) then none
  else some (perSample.map (·.getD (routedExpertsEmpty paddedLength)))

/-- The tokens of a message and its routes; `returned` remembers what the engine returned for each of
the tokens. -/
structure Message (layers topK : ℕ) where
  tokens : ℕ
  routedExperts : Option (List (Route layers topK))
  returned : List (Option (Route layers topK))

def plainMessage (tokens : ℕ) : Message layers topK := ⟨tokens,none,List.replicate tokens none⟩

def logLength (log : List (Message layers topK)) : ℕ := (log.map Message.tokens).sum

/-- What the engine answers for a sample: the number of tokens, and the routes of the positions of
the sequence, from the first one on. -/
structure Answer (n layers topK : ℕ) where
  sample : Fin n
  generated : ℕ
  routed : Option (List (Route layers topK))
  experts : ∀ routes, routed = some routes → ∀ route ∈ routes, ∀ l k, 0 ≤ route l k

/-- A batch of answers, padded beyond the longest of the sequences. -/
structure Call (n layers topK : ℕ) where
  answers : List (Answer n layers topK)
  padding : ℕ

abbrev Logs (n layers topK : ℕ) : Type := Fin n → List (Message layers topK)

variable {n : ℕ} (logs : Logs n layers topK)

/-- `unpadded_sequence_lengths`. -/
def validLength (a : Answer n layers topK) : ℕ := logLength (logs a.sample) + a.generated

def paddedLength (call : Call n layers topK) : ℕ :=
  longest (call.answers.map (validLength logs)) + call.padding

/-- The assistant message of `generate_responses`. -/
def assistantMessage (column : Option (List (List (Route layers topK)))) (i : ℕ)
    (a : Answer n layers topK) : Message layers topK where
  tokens := a.generated
  routedExperts := column.map fun rows =>
    ((rows.getD i []).drop (logLength (logs a.sample))).take a.generated
  returned := (List.range a.generated).map fun t =>
    a.routed.bind fun routes => routes[logLength (logs a.sample) + t]?

/-- A call of `generate_responses`: the answer `i` is appended to the log of its sample. -/
def generateResponses (call : Call n layers topK) : Except CaptureError (Logs n layers topK) := do
  let perSample ← call.answers.mapM fun a =>
    routedExpertsFromVllmOutput a.routed (validLength logs a) (paddedLength logs call)
  let column := stackRoutedExperts perSample (paddedLength logs call)
  .ok fun j => logs j ++ (call.answers.zipIdx.filter (·.1.sample = j)).map
    fun p => assistantMessage logs column p.2 p.1

inductive Event (n layers topK : ℕ)
  | generate (call : Call n layers topK)
  | environment (sample : Fin n) (tokens : ℕ)

def step : Event n layers topK → Except CaptureError (Logs n layers topK)
  | .generate call => generateResponses logs call
  | .environment sample tokens =>
    .ok (Function.update logs sample (logs sample ++ [plainMessage tokens]))

def rollout (logs : Logs n layers topK) (events : List (Event n layers topK)) :
    Except CaptureError (Logs n layers topK) :=
  events.foldlM step logs

def promptLogs (prompts : Fin n → List ℕ) : Logs n layers topK :=
  fun j => (prompts j).map plainMessage

/-- `backfill_routed_experts` on a message log. -/
def backfillRoutedExperts (log : List (Message layers topK)) : List (Message layers topK) :=
  match log.findSome? Message.routedExperts with
  | none => log
  | some _ => log.map fun message => match message.routedExperts with
    | some _ => message
    | none => { message with
        routedExperts := some (List.replicate message.tokens sentinelRoute) }

def flatRoutes (log : List (Message layers topK)) : Option (List (Route layers topK)) :=
  let values := log.filterMap Message.routedExperts
  if values = [] then none else some values.flatten

inductive FlattenError
  | stack
  deriving DecidableEq, Repr

def maxLength (divisibleBy : ℕ) : ℕ :=
  Data.roundUp (longest ((List.finRange n).map fun j =>
    max (logLength (logs j)) (((flatRoutes (backfillRoutedExperts (logs j))).map List.length).getD 0)))
    divisibleBy

/-- The column `routed_experts` of `batched_message_log_to_flat_message`. A log without routes is
filled by an empty tensor of one dimension, which cannot be stacked with the others. -/
def batchRoutes (divisibleBy : ℕ) :
    Except FlattenError (Option (List (List (Route layers topK)))) :=
  let values := (List.finRange n).map fun j => flatRoutes (backfillRoutedExperts (logs j))
  if values.all (·.isNone) then .ok none
  else if values.any (·.isNone) then .error .stack
  else .ok (some (values.map fun routes =>
    padTo (maxLength logs divisibleBy) sentinelRoute (routes.getD [])))

abbrev Choice (n layers topK : ℕ) : Type := Fin n → ℕ → Fin layers → Fin topK → ℤ

/-- `_replayed_topk_ids` in a layer, on the routes that are bound to its block; without a column
nothing is bound. -/
def selectedExperts (own : Choice n layers topK) (column : Option (List (List (Route layers topK))))
    (j : Fin n) (p : ℕ) (l : Fin layers) : Fin topK → ℤ :=
  match column with
  | none => own j p l
  | some rows =>
    let replay := (rows.getD j []).getD p sentinelRoute l
    if ∃ row ∈ rows, ∃ route ∈ row, ∃ k, route l k = missingRouteSentinel then
      if ∃ k, replay k = missingRouteSentinel then own j p l else replay
    else replay

def recordedExperts (own : Choice n layers topK) (j : Fin n) (p : ℕ) (l : Fin layers) :
    Fin topK → ℤ :=
  match ((logs j).flatMap Message.returned)[p]? with
  | some (some route) => route l
  | _ => own j p l

/-- The batch is built, and every position has the experts that were recorded for it. -/
def Replays (divisibleBy : ℕ) (own : Choice n layers topK) : Prop :=
  ∃ column, batchRoutes logs divisibleBy = .ok column ∧
    ∀ j p l, p < maxLength logs divisibleBy →
      selectedExperts own column j p l = recordedExperts logs own j p l

end Routes

variable {layers topK n : ℕ}

def aligned (routed : Option (List (Route layers topK))) (valid padded : ℕ) :
    Option (List (Route layers topK)) :=
  routed.map fun routes => (List.range padded).map fun q =>
    if q < valid - 1 then (routes[q]?).getD sentinelRoute else identityRoute

theorem capture_eq (routed : Option (List (Route layers topK))) (valid padded : ℕ) :
    routedExpertsFromVllmOutput routed valid padded = .ok (aligned routed valid padded) := by
  cases routed with
  | none => rfl
  | some routes =>
    simp only [routedExpertsFromVllmOutput,alignRoutedExpertIndices,aligned,Option.map_some,
      Bool.false_eq_true,false_and,if_false]
    refine congrArg (Except.ok ∘ some) (List.ext_getElem? fun q => ?_)
    split_ifs with hmissing
    · simp only [routedExpertsEmpty]
      grind
    · simp only [routedExpertsEmpty]
      grind

def forced (entry : Route layers topK) (own : Fin layers → Fin topK → ℤ) (l : Fin layers) :
    Fin topK → ℤ :=
  if ∃ k, entry l k = missingRouteSentinel then own l else entry l

def EntryExact (entry : Route layers topK) : Option (Route layers topK) → Prop
  | some route => entry = route
  | none => ∀ l, ∃ k, entry l k = missingRouteSentinel

theorem exists_ne (htop : 0 < topK) (experts : Fin topK → ℤ) : ∃ other : Fin topK → ℤ, other ≠ experts :=
  ⟨fun k => experts k + 1,fun h => by
    have hzero : experts ⟨0,htop⟩ + 1 = experts ⟨0,htop⟩ := congrFun h ⟨0,htop⟩
    omega⟩

theorem forced_iff (htop : 0 < topK) {entry : Route layers topK}
    {returned : Option (Route layers topK)}
    (hexperts : ∀ route, returned = some route → ∀ l k, 0 ≤ route l k) :
    (∀ own l, forced entry own l = (returned.getD own) l) ↔ EntryExact entry returned := by
  cases returned with
  | none =>
    simp only [Option.getD_none,EntryExact]
    constructor
    · intro hforced l
      by_contra hno
      obtain ⟨other,hother⟩ := exists_ne htop (entry l)
      have hl := hforced (fun _ => other) l
      rw [forced,if_neg hno] at hl
      exact hother hl.symm
    · intro hmissing own l
      exact if_pos (hmissing l)
  | some route =>
    simp only [Option.getD_some,EntryExact]
    constructor
    · intro hforced
      funext l
      by_cases hmissing : ∃ k, entry l k = missingRouteSentinel
      · obtain ⟨other,hother⟩ := exists_ne htop (route l)
        have hl := hforced (fun _ => other) l
        rw [forced,if_pos hmissing] at hl
        exact absurd hl hother
      · have hl := hforced route l
        rwa [forced,if_neg hmissing] at hl
    · rintro rfl own l
      refine if_neg ?_
      rintro ⟨k,hk⟩
      have hpos := hexperts entry rfl l k
      rw [hk] at hpos
      exact absurd hpos (by decide)

/-- The routes of a message are as many as its tokens, and a message without routes is one for which
nothing was returned. -/
structure Message.WellSized (message : Message layers topK) : Prop where
  returned : message.returned.length = message.tokens
  routes : ∀ routes, message.routedExperts = some routes → routes.length = message.tokens
  plain : message.routedExperts = none → message.returned = List.replicate message.tokens none
  experts : ∀ route, some route ∈ message.returned → ∀ l k, 0 ≤ route l k

def Message.Exact (message : Message layers topK) : Prop :=
  ∀ routes, message.routedExperts = some routes → List.Forall₂ EntryExact routes message.returned

theorem plainMessage_wellSized (tokens : ℕ) :
    (plainMessage tokens : Message layers topK).WellSized where
  returned := List.length_replicate
  routes := by simp [plainMessage]
  plain := fun _ => rfl
  experts := by simp [plainMessage]

theorem plainMessage_exact (tokens : ℕ) : (plainMessage tokens : Message layers topK).Exact := by
  simp [Message.Exact,plainMessage]

def Message.column (message : Message layers topK) : List (Route layers topK) :=
  message.routedExperts.getD (List.replicate message.tokens sentinelRoute)

theorem Message.WellSized.length_column {message : Message layers topK} (h : message.WellSized) :
    message.column.length = message.returned.length := by
  rw [h.returned,Message.column]
  cases hroutes : message.routedExperts with
  | none => simp
  | some routes => exact h.routes routes hroutes

theorem Message.WellSized.exact_iff {message : Message layers topK} (htop : 0 < topK)
    (h : message.WellSized) :
    List.Forall₂ EntryExact message.column message.returned ↔ message.Exact := by
  rw [Message.column,Message.Exact]
  cases hroutes : message.routedExperts with
  | some routes => simp
  | none =>
    rw [h.plain hroutes]
    simp only [Option.getD_none,reduceCtorEq,false_implies,implies_true,iff_true]
    refine List.forall₂_iff_get.mpr ⟨by simp,fun i h₁ h₂ => ?_⟩
    simp only [List.get_eq_getElem,List.getElem_replicate]
    exact fun l => ⟨⟨0,htop⟩,rfl⟩

theorem forall₂_append_iff {α β : Type} {R : α → β → Prop} {as as' : List α} {bs bs' : List β}
    (h : as.length = bs.length) :
    List.Forall₂ R (as ++ as') (bs ++ bs') ↔ List.Forall₂ R as bs ∧ List.Forall₂ R as' bs' := by
  induction as generalizing bs with
  | nil =>
    rw [List.eq_nil_of_length_eq_zero h.symm]
    simp
  | cons a as ih =>
    cases bs with
    | nil => simp at h
    | cons b bs =>
      simp only [List.cons_append,List.forall₂_cons]
      rw [ih (by simpa using h),and_assoc]

theorem forall₂_flatMap_iff {α β γ : Type} {R : β → γ → Prop} {f : α → List β} {g : α → List γ}
    {l : List α} (h : ∀ a ∈ l, (f a).length = (g a).length) :
    List.Forall₂ R (l.flatMap f) (l.flatMap g) ↔ ∀ a ∈ l, List.Forall₂ R (f a) (g a) := by
  induction l with
  | nil => simp
  | cons a l ih =>
    rw [List.flatMap_cons,List.flatMap_cons,forall₂_append_iff (h a List.mem_cons_self),
      ih fun b hb => h b (List.mem_cons_of_mem a hb),List.forall_mem_cons]

/-- Some message of the log has routes. -/
def Routed (log : List (Message layers topK)) : Prop := ∃ message ∈ log, message.routedExperts ≠ none

theorem backfill_of_routed {log : List (Message layers topK)} {routes : List (Route layers topK)}
    (h : log.findSome? Message.routedExperts = some routes) :
    backfillRoutedExperts log =
      log.map fun message => { message with routedExperts := some message.column } := by
  simp only [backfillRoutedExperts,h]
  refine List.map_congr_left fun message _ => ?_
  rw [Message.column]
  split
  · rename_i own hown
    rw [hown,Option.getD_some,← hown]
  · rename_i hnone
    rw [hnone,Option.getD_none]

theorem flatRoutes_backfill (log : List (Message layers topK)) :
    (¬Routed log ∧ flatRoutes (backfillRoutedExperts log) = none) ∨
      (Routed log ∧ flatRoutes (backfillRoutedExperts log) = some (log.flatMap Message.column)) := by
  cases hfind : log.findSome? Message.routedExperts with
  | none =>
    have hplain := List.findSome?_eq_none_iff.mp hfind
    refine .inl ⟨fun ⟨message,hmem,hrouted⟩ => hrouted (hplain message hmem),?_⟩
    have hnil : log.filterMap Message.routedExperts = [] :=
      List.filterMap_eq_nil_iff.mpr hplain
    simp [backfillRoutedExperts,hfind,flatRoutes,hnil]
  | some routes =>
    obtain ⟨message,hmem,hroutes⟩ := List.exists_of_findSome?_eq_some hfind
    refine .inr ⟨⟨message,hmem,by simp [hroutes]⟩,?_⟩
    have hcolumns : (log.map fun message =>
        { message with routedExperts := some message.column }).filterMap Message.routedExperts =
        log.map Message.column := by
      simp [List.filterMap_map]
    have hne : log.map Message.column ≠ [] := by
      simp [List.ne_nil_of_mem hmem]
    simp only [backfill_of_routed hfind,flatRoutes,hcolumns,List.flatMap_def]
    exact if_neg hne

theorem row_iff (htop : 0 < topK) {entries : List (Route layers topK)}
    {returned : List (Option (Route layers topK))} {width : ℕ}
    (hlength : entries.length = returned.length) (hwidth : entries.length ≤ width)
    (hexperts : ∀ route, some route ∈ returned → ∀ l k, 0 ≤ route l k) :
    (∀ own : ℕ → Fin layers → Fin topK → ℤ, ∀ p l, p < width →
      forced ((padTo width sentinelRoute entries).getD p sentinelRoute) (own p) l =
        (returned[p]?.join.getD (own p)) l) ↔ List.Forall₂ EntryExact entries returned := by
  rw [List.forall₂_iff_get]
  constructor
  · refine fun hrow => ⟨hlength,fun i h₁ h₂ => ?_⟩
    refine (forced_iff htop fun route hroute => hexperts route ?_).mp fun own l => ?_
    · exact hroute ▸ List.get_mem returned ⟨i,h₂⟩
    · have hi := hrow (fun _ => own) i l (by omega)
      rw [padTo,List.getD_append _ _ _ _ h₁,List.getD_eq_getElem _ _ h₁,
        List.getElem?_eq_getElem h₂,Option.join_some] at hi
      exact hi
  · rintro ⟨-,hexact⟩ own p l hp
    rcases Nat.lt_or_ge p entries.length with h₁ | h₁
    · have h₂ : p < returned.length := by omega
      rw [padTo,List.getD_append _ _ _ _ h₁,List.getD_eq_getElem _ _ h₁,
        List.getElem?_eq_getElem h₂,Option.join_some]
      exact (forced_iff htop fun route hroute => hexperts route
        (hroute ▸ List.getElem_mem h₂)).mpr (hexact p h₁ h₂) (own p) l
    · rw [padTo,List.getD_append_right _ _ _ _ h₁,
        List.getElem?_eq_none (by omega : returned.length ≤ p)]
      have hsentinel : (List.replicate (width - entries.length) (sentinelRoute : Route layers topK)).getD
          (p - entries.length) sentinelRoute = sentinelRoute := by
        simp
      rw [hsentinel]
      exact if_pos ⟨⟨0,htop⟩,rfl⟩

variable {logs : Logs n layers topK} {divisibleBy : ℕ}

theorem selectedExperts_eq {rows : List (List (Route layers topK))} (own : Choice n layers topK)
    {j : Fin n} {p : ℕ} (hj : (j : ℕ) < rows.length) (hp : p < (rows.getD j []).length)
    (l : Fin layers) :
    selectedExperts own (some rows) j p l =
      forced ((rows.getD j []).getD p sentinelRoute) (own j p) l := by
  simp only [selectedExperts,forced]
  split_ifs with hany hreplay hreplay
  · rfl
  · rfl
  · obtain ⟨k,hk⟩ := hreplay
    refine absurd ⟨rows.getD j [],?_,(rows.getD j []).getD p sentinelRoute,?_,k,hk⟩ hany
    · rw [List.getD_eq_getElem _ _ hj]
      exact List.getElem_mem hj
    · rw [List.getD_eq_getElem _ _ hp]
      exact List.getElem_mem hp
  · rfl

theorem recordedExperts_eq (own : Choice n layers topK) (j : Fin n) (p : ℕ) (l : Fin layers) :
    recordedExperts logs own j p l =
      ((((logs j).flatMap Message.returned)[p]?.join).getD (own j p)) l := by
  rw [recordedExperts]
  cases ((logs j).flatMap Message.returned)[p]? with
  | none => rfl
  | some returned => cases returned <;> rfl

def WellSized (logs : Logs n layers topK) : Prop := ∀ j, ∀ message ∈ logs j, message.WellSized

def Exact (logs : Logs n layers topK) : Prop := ∀ j, ∀ message ∈ logs j, message.Exact

theorem length_columns (h : WellSized logs) (j : Fin n) :
    ((logs j).flatMap Message.column).length = ((logs j).flatMap Message.returned).length := by
  rw [List.length_flatMap,List.length_flatMap]
  exact congrArg List.sum (List.map_congr_left fun message hm => (h j message hm).length_column)

theorem length_le_maxLength (hdiv : 0 < divisibleBy) {j : Fin n} {routes : List (Route layers topK)}
    (hroutes : flatRoutes (backfillRoutedExperts (logs j)) = some routes) :
    routes.length ≤ maxLength logs divisibleBy := by
  refine Nat.le_trans (Nat.le_trans ?_ (le_longest (List.mem_map_of_mem (List.mem_finRange j))))
    (Data.le_roundUp hdiv)
  rw [hroutes]
  exact Nat.le_max_right _ _

theorem experts_nonneg (h : WellSized logs) {j : Fin n} {route : Route layers topK}
    (hroute : some route ∈ (logs j).flatMap Message.returned) (l : Fin layers) (k : Fin topK) :
    0 ≤ route l k := by
  obtain ⟨message,hmem,hreturned⟩ := List.mem_flatMap.mp hroute
  exact (h j message hmem).experts route hreturned l k

theorem replays_of_plain (h : WellSized logs) (hplain : ∀ j, ¬Routed (logs j))
    (own : Choice n layers topK) : Replays logs divisibleBy own := by
  have hnone : ∀ j, flatRoutes (backfillRoutedExperts (logs j)) = none := fun j =>
    (flatRoutes_backfill (logs j)).elim And.right fun hrouted => absurd hrouted.1 (hplain j)
  refine ⟨none,?_,fun j p l _ => ?_⟩
  · simp [batchRoutes,hnone]
  · rw [recordedExperts_eq]
    have hreturned : ((logs j).flatMap Message.returned)[p]?.join = none := by
      cases hp : ((logs j).flatMap Message.returned)[p]? with
      | none => rfl
      | some returned =>
        obtain ⟨message,hmem,hret⟩ := List.mem_flatMap.mp (List.mem_of_getElem? hp)
        have hm : message.routedExperts = none := by
          by_contra hne
          exact hplain j ⟨message,hmem,hne⟩
        rw [(h j message hmem).plain hm] at hret
        rw [List.eq_of_mem_replicate hret]
        rfl
    rw [hreturned]
    rfl

theorem batchRoutes_of_routed (hrouted : ∀ j, Routed (logs j)) (j₀ : Fin n) :
    batchRoutes logs divisibleBy = .ok (some ((List.finRange n).map fun j =>
      padTo (maxLength logs divisibleBy) sentinelRoute ((logs j).flatMap Message.column))) := by
  have hsome : ∀ j, flatRoutes (backfillRoutedExperts (logs j)) =
      some ((logs j).flatMap Message.column) := fun j =>
    (flatRoutes_backfill (logs j)).elim (fun hplain => absurd (hrouted j) hplain.1) And.right
  simp only [batchRoutes,hsome]
  rw [if_neg (by simpa using ⟨j₀⟩),if_neg (by simp)]
  simp

theorem replays_of_routed (htop : 0 < topK) (hdiv : 0 < divisibleBy) (h : WellSized logs)
    (hrouted : ∀ j, Routed (logs j)) (j₀ : Fin n) :
    (∀ own, Replays logs divisibleBy own) ↔ Exact logs := by
  have hsome : ∀ j, flatRoutes (backfillRoutedExperts (logs j)) =
      some ((logs j).flatMap Message.column) := fun j =>
    (flatRoutes_backfill (logs j)).elim (fun hplain => absurd (hrouted j) hplain.1) And.right
  have hreplays : ∀ own, Replays logs divisibleBy own ↔ ∀ j p l, p < maxLength logs divisibleBy →
      forced ((padTo (maxLength logs divisibleBy) sentinelRoute
        ((logs j).flatMap Message.column)).getD p sentinelRoute) (own j p) l =
        (((logs j).flatMap Message.returned)[p]?.join.getD (own j p)) l := by
    intro own
    simp only [Replays,batchRoutes_of_routed hrouted j₀,Except.ok.injEq,exists_eq_left',
      recordedExperts_eq]
    refine forall_congr' fun j => forall_congr' fun p => forall_congr' fun l =>
      forall_congr' fun hp => ?_
    have hrow : ((List.finRange n).map fun j => padTo (maxLength logs divisibleBy) sentinelRoute
        ((logs j).flatMap Message.column)).getD j [] = padTo (maxLength logs divisibleBy)
          sentinelRoute ((logs j).flatMap Message.column) := by
      rw [List.getD_eq_getElem _ _ (by simp)]
      simp
    rw [selectedExperts_eq own (by simp) (by rw [hrow,length_padTo]; omega),hrow]
  simp only [hreplays]
  constructor
  · intro hall j message hmem
    have hrow := (row_iff htop (length_columns h j) (length_le_maxLength hdiv (hsome j))
      fun route hroute => experts_nonneg h hroute).mp fun own p l hp => hall (fun _ => own) j p l hp
    exact ((h j message hmem).exact_iff htop).mp ((forall₂_flatMap_iff fun m hm =>
      (h j m hm).length_column).mp hrow message hmem)
  · intro hexact own j p l hp
    refine (row_iff htop (length_columns h j) (length_le_maxLength hdiv (hsome j))
      fun route hroute => experts_nonneg h hroute).mpr ?_ (own j) p l hp
    exact (forall₂_flatMap_iff fun m hm => (h j m hm).length_column).mpr fun message hmem =>
      ((h j message hmem).exact_iff htop).mpr (hexact j message hmem)

theorem exact_of_plain (hplain : ∀ j, ¬Routed (logs j)) : Exact logs := by
  intro j message hmem routes hroutes
  exact absurd ⟨message,hmem,by simp [hroutes]⟩ (hplain j)

theorem not_replays_of_mixed {j₀ j₁ : Fin n} (h₀ : ¬Routed (logs j₀)) (h₁ : Routed (logs j₁))
    (own : Choice n layers topK) : ¬Replays logs divisibleBy own := by
  rintro ⟨column,hcolumn,-⟩
  have hnone : flatRoutes (backfillRoutedExperts (logs j₀)) = none :=
    (flatRoutes_backfill (logs j₀)).elim And.right fun hrouted => absurd hrouted.1 h₀
  have hsome : flatRoutes (backfillRoutedExperts (logs j₁)) =
      some ((logs j₁).flatMap Message.column) :=
    (flatRoutes_backfill (logs j₁)).elim (fun hplain => absurd h₁ hplain.1) And.right
  simp only [batchRoutes] at hcolumn
  rw [if_neg,if_pos] at hcolumn
  · cases hcolumn
  · simp only [List.any_eq_true,List.mem_map]
    exact ⟨_,⟨j₀,List.mem_finRange j₀,rfl⟩,by simp [hnone]⟩
  · simp only [List.all_eq_true,List.mem_map,not_forall]
    exact ⟨_,⟨j₁,List.mem_finRange j₁,rfl⟩,by simp [hsome]⟩

theorem replays_iff (htop : 0 < topK) (hdiv : 0 < divisibleBy) (h : WellSized logs) :
    (∀ own, Replays logs divisibleBy own) ↔
      Exact logs ∧ ((∀ j, ¬Routed (logs j)) ∨ ∀ j, Routed (logs j)) := by
  by_cases hplain : ∀ j, ¬Routed (logs j)
  · simp only [hplain,not_false_eq_true,implies_true,true_or,and_true,exact_of_plain hplain,iff_true]
    exact replays_of_plain h hplain
  · obtain ⟨j₁,h₁⟩ := not_forall.mp hplain
    by_cases hrouted : ∀ j, Routed (logs j)
    · rw [replays_of_routed htop hdiv h hrouted j₁]
      simp [hrouted]
    · obtain ⟨j₀,h₀⟩ := not_forall.mp hrouted
      refine iff_of_false (fun hall => ?_) fun hboth => hboth.2.elim hplain hrouted
      exact not_replays_of_mixed h₀ (not_not.mp h₁) (fun _ _ _ _ => 0) (hall _)

end RouterReplay
end Moe
end DockyardRL
