import DockyardRL.ToolProtocol.Conformance

/-! Extraction is the inverse of rendering a turn with tool calls, and all or nothing. -/
namespace DockyardRL
namespace ToolProtocol

open Fallible Text

variable {φ : Type} (host : Host φ)

def startTag : List Char := hermesToolCallStart.toList

def endTag : List Char := hermesToolCallEnd.toList

def renderFrom (leading : List Char) : List (List Char × List Char) → List Char → Option (List Char) →
    List Char
  | [],last,none => leading ++ (startTag ++ last)
  | [],last,some behind => leading ++ (startTag ++ (last ++ (endTag ++ behind)))
  | (closed,gap) :: front,last,ending =>
    leading ++ (startTag ++ (closed ++ (endTag ++ renderFrom gap front last ending)))

theorem cut_startTag {leading : List Char} (h : ¬ startTag <:+: leading) (rest : List Char) :
    cut startTag (leading ++ (startTag ++ rest)) = some (leading,rest) :=
  cut_tag (by decide : '<' ∉ "tool_call>".toList) h

theorem cut_endTag {closed : List Char} (h : ¬ endTag <:+: closed) (rest : List Char) :
    cut endTag (closed ++ (endTag ++ rest)) = some (closed,rest) :=
  cut_tag (by decide : '<' ∉ "/tool_call>".toList) h

theorem exists_cut_renderFrom {leading last : List Char} {front : List (List Char × List Char)}
    {ending : Option (List Char)} (h : ¬ startTag <:+: leading) :
    ∃ rest, cut startTag (renderFrom leading front last ending) = some (leading,rest) := by
  cases front with
  | nil =>
    cases ending with
    | none => exact ⟨_,cut_startTag h _⟩
    | some behind => exact ⟨_,cut_startTag h _⟩
  | cons entry front => exact ⟨_,cut_startTag h _⟩

theorem findRegions_closed {leading closed : List Char} (hleading : ¬ startTag <:+: leading)
    (hclosed : ¬ endTag <:+: closed) (fuel : ℕ) (rest : List Char) :
    findRegions (fuel + 1) (leading ++ (startTag ++ (closed ++ (endTag ++ rest)))) =
      closed :: findRegions fuel rest := by
  have hstart : cut hermesToolCallStart.toList (leading ++ (startTag ++ (closed ++ (endTag ++ rest)))) =
      some (leading,closed ++ (endTag ++ rest)) := cut_startTag hleading _
  have hend : cut hermesToolCallEnd.toList (closed ++ (endTag ++ rest)) = some (closed,rest) :=
    cut_endTag hclosed rest
  rw [findRegions,hstart]
  dsimp only
  rw [hend]

theorem findRegions_open {leading last : List Char} (hleading : ¬ startTag <:+: leading)
    (hlast : ¬ endTag <:+: last) (fuel : ℕ) :
    findRegions (fuel + 1) (leading ++ (startTag ++ last)) = [last] := by
  have hstart : cut hermesToolCallStart.toList (leading ++ (startTag ++ last)) = some (leading,last) :=
    cut_startTag hleading last
  have hend : cut hermesToolCallEnd.toList last = none := cut_eq_none_iff.mpr hlast
  rw [findRegions,hstart]
  dsimp only
  rw [hend]

theorem findRegions_free {text : List Char} (h : ¬ startTag <:+: text) (fuel : ℕ) :
    findRegions fuel text = [] := by
  have hstart : cut hermesToolCallStart.toList text = none := cut_eq_none_iff.mpr h
  cases fuel with
  | zero => rfl
  | succ fuel => rw [findRegions,hstart]

theorem findRegions_renderFrom {leading last : List Char} {front : List (List Char × List Char)}
    {ending : Option (List Char)} {fuel : ℕ} (hleading : ¬ startTag <:+: leading)
    (hfront : ∀ entry ∈ front, ¬ endTag <:+: entry.1 ∧ ¬ startTag <:+: entry.2)
    (hlast : ¬ endTag <:+: last) (hending : ∀ behind ∈ ending, ¬ startTag <:+: behind)
    (hfuel : front.length < fuel) :
    findRegions fuel (renderFrom leading front last ending) = front.map Prod.fst ++ [last] := by
  induction front generalizing leading fuel with
  | nil =>
    obtain ⟨n,rfl⟩ := Nat.exists_eq_succ_of_ne_zero (Nat.ne_zero_of_lt hfuel)
    cases ending with
    | none => exact findRegions_open hleading hlast n
    | some behind =>
      rw [renderFrom,findRegions_closed hleading hlast,findRegions_free (hending behind rfl)]
      rfl
  | cons entry front ih =>
    obtain ⟨closed,gap⟩ := entry
    obtain ⟨n,rfl⟩ := Nat.exists_eq_succ_of_ne_zero (Nat.ne_zero_of_lt hfuel)
    obtain ⟨⟨hclosed,hgap⟩,hrest⟩ := List.forall_mem_cons.mp hfront
    rw [renderFrom,findRegions_closed hleading hclosed,ih hgap hrest (Nat.lt_of_succ_lt_succ hfuel)]
    rfl

theorem length_renderFrom (leading last : List Char) (front : List (List Char × List Char))
    (ending : Option (List Char)) : front.length < (renderFrom leading front last ending).length := by
  have hstart : 0 < startTag.length := by decide
  induction front generalizing leading with
  | nil => cases ending <;> simp only [renderFrom,List.length_append,List.length_nil] <;> omega
  | cons entry front ih =>
    have hrest := ih entry.2
    simp only [renderFrom,List.length_append,List.length_cons]
    omega

def callObject (call : String × Json φ) : Json φ :=
  .obj [("name",.str call.1),("arguments",call.2)]

/-- A turn with calls: the text in front of them, every call but the last with the text behind it, and
the last, whose closing tag is there with the text behind it or is missing. -/
structure Turn (serialise : Json φ → String) where
  leading : List Char
  front : List ((String × Json φ) × List Char)
  last : String × Json φ
  ending : Option (List Char)
  leading_free : ¬ startTag <:+: leading
  gaps_free : ∀ entry ∈ front, ¬ startTag <:+: entry.2
  ending_free : ∀ behind ∈ ending, ¬ startTag <:+: behind
  front_open : ∀ entry ∈ front, ¬ endTag <:+: (serialise (callObject entry.1)).toList
  last_open : ¬ endTag <:+: (serialise (callObject last)).toList

namespace Turn

variable {serialise : Json φ → String} (turn : Turn serialise)

def calls : List (String × Json φ) := turn.front.map Prod.fst ++ [turn.last]

def text : String := String.ofList (renderFrom turn.leading
  (turn.front.map fun entry => ((serialise (callObject entry.1)).toList,entry.2))
  (serialise (callObject turn.last)).toList turn.ending)

theorem regions_text : regions turn.text = turn.calls.map fun call => serialise (callObject call) := by
  rw [regions,text,String.toList_ofList,findRegions_renderFrom turn.leading_free ?_ turn.last_open
    turn.ending_free (length_renderFrom _ _ _ _)]
  · simp [calls]
  · intro entry hentry
    obtain ⟨source,hsource,rfl⟩ := List.mem_map.mp hentry
    exact ⟨turn.front_open source hsource,turn.gaps_free source hsource⟩

end Turn

def parsedCall (call : String × Json φ) : ParsedToolCall φ :=
  ⟨.str call.1,call.2,host.dumps call.2⟩

theorem toolCall_callObject (call : String × Json φ) :
    toolCall host (callObject call) = .ok (parsedCall host call) := rfl

/-- The text of a region is that of an object with both keys. -/
def DecodesToCall (region : String) : Prop :=
  ∃ fields name arguments, host.loads region = .ok (.obj fields) ∧
    fields.lookup "name" = some name ∧ fields.lookup "arguments" = some arguments

theorem exists_fields_of_toolCall {value : Json φ} {call : ParsedToolCall φ}
    (h : toolCall host value = .ok call) : ∃ fields name arguments, value = .obj fields ∧
      fields.lookup "name" = some name ∧ fields.lookup "arguments" = some arguments := by
  obtain ⟨name,hname,hcall⟩ := bind_eq_ok.mp h
  obtain ⟨arguments,harguments,-⟩ := map_eq_ok.mp hcall
  cases value with
  | obj fields =>
    refine ⟨fields,name,arguments,rfl,?_,?_⟩
    · cases hlookup : fields.lookup "name" with
      | none => simp [subscript,hlookup] at hname
      | some found => simpa [subscript,hlookup] using hname
    · cases hlookup : fields.lookup "arguments" with
      | none => simp [subscript,hlookup] at harguments
      | some found => simpa [subscript,hlookup] using harguments
  | _ => cases hname

theorem decodesToCall_of_mapM {texts : List String} {rawCalls : List (Json φ)}
    {toolCalls : List (ParsedToolCall φ)} (hraw : texts.mapM host.loads = .ok rawCalls)
    (hcalls : rawCalls.mapM (toolCall host) = .ok toolCalls) :
    ∀ region ∈ texts, DecodesToCall host region := by
  intro region hregion
  obtain ⟨value,hvalue⟩ := exists_mapM_iff.mp ⟨rawCalls,hraw⟩ region hregion
  have hmem := (mem_mapM_iff hraw).mpr ⟨region,hregion,hvalue⟩
  obtain ⟨call,hcall⟩ := exists_mapM_iff.mp ⟨toolCalls,hcalls⟩ value hmem
  obtain ⟨fields,name,arguments,rfl,hname,harguments⟩ := exists_fields_of_toolCall host hcall
  exact ⟨fields,name,arguments,hvalue,hname,harguments⟩

theorem mapM_ne_other {texts : List String} (h : ∀ region ∈ texts, host.loads region ≠ .error .other) :
    texts.mapM host.loads ≠ .error .other := by
  induction texts with
  | nil => exact fun heq => by cases heq
  | cons text texts ih =>
    obtain ⟨hfirst,hrest⟩ := List.forall_mem_cons.mp h
    rw [List.mapM_cons]
    cases htext : host.loads text with
    | error e =>
      rintro ⟨⟩
      exact hfirst htext
    | ok value =>
      intro heq
      cases htexts : texts.mapM host.loads with
      | error e =>
        rw [htexts] at heq
        exact ih hrest (htexts.trans heq)
      | ok values =>
        rw [htexts] at heq
        cases heq

theorem parseHermesToolCalls_text {serialise : Json φ → String} (turn : Turn serialise)
    (hinverse : ∀ call ∈ turn.calls, host.loads (serialise (callObject call)) = .ok (callObject call)) :
    parseHermesToolCalls host turn.text = .ok ⟨true,turn.calls.map (parsedCall host),
      if turn.leading = [] then none else some (String.ofList turn.leading),none⟩ := by
  obtain ⟨rest,hcut⟩ : ∃ rest, cut hermesToolCallStart.toList turn.text.toList =
      some (turn.leading,rest) := by
    rw [Turn.text,String.toList_ofList]
    exact exists_cut_renderFrom turn.leading_free
  have hraw : (regions turn.text).mapM host.loads = .ok (turn.calls.map callObject) := by
    rw [turn.regions_text,List.mapM_map]
    exact mapM_ok hinverse
  have hcalls : (turn.calls.map callObject).mapM (toolCall host) =
      .ok (turn.calls.map (parsedCall host)) := by
    rw [List.mapM_map]
    exact mapM_ok fun call _ => toolCall_callObject host call
  rw [parseHermesToolCalls,hcut]
  dsimp only
  rw [hraw]
  dsimp only
  rw [hcalls]

theorem parseHermesToolCalls_failed {text : String}
    (hloads : ∀ region ∈ regions text, host.loads region ≠ .error .other)
    (hregion : ∃ region ∈ regions text, ¬DecodesToCall host region) :
    ∃ error, parseHermesToolCalls host text = .ok (.failed text error) := by
  obtain ⟨region,hmem,hnot⟩ := hregion
  cases hcut : cut hermesToolCallStart.toList text.toList with
  | none =>
    rw [regions,findRegions_free (cut_eq_none_iff.mp hcut)] at hmem
    cases hmem
  | some parts =>
    rw [parseHermesToolCalls,hcut]
    dsimp only
    cases hraw : (regions text).mapM host.loads with
    | error exc =>
      cases exc with
      | decode message => exact ⟨_,rfl⟩
      | other => exact absurd hraw (mapM_ne_other host hloads)
    | ok rawCalls =>
      dsimp only
      cases hcalls : rawCalls.mapM (toolCall host) with
      | error exc => exact ⟨_,rfl⟩
      | ok toolCalls => exact absurd (decodesToCall_of_mapM host hraw hcalls region hmem) hnot

/-- Extraction reads back what was rendered, and is all or nothing. -/
theorem hermes_inverse_or_nothing :
    (∀ (serialise : Json φ → String) (turn : Turn serialise),
      (∀ call ∈ turn.calls, host.loads (serialise (callObject call)) = .ok (callObject call)) →
        parseHermesToolCalls host turn.text = .ok ⟨true,turn.calls.map (parsedCall host),
          if turn.leading = [] then none else some (String.ofList turn.leading),none⟩) ∧
      ∀ text, (∀ region ∈ regions text, host.loads region ≠ .error .other) →
        (∃ region ∈ regions text, ¬DecodesToCall host region) →
          ∃ error, parseHermesToolCalls host text = .ok (.failed text error) :=
  ⟨fun _ turn => parseHermesToolCalls_text host turn,
    fun _ hloads hregion => parseHermesToolCalls_failed host hloads hregion⟩

def listCall : String × Json ℚ := ("ls",.obj [])

def listText : String := "\x7b\"name\": \"ls\", \"arguments\": \x7b\x7d\x7d"

/-- A `json` module that knows one text. -/
def listHost : Host ℚ :=
  { silentHost with
    loads := fun text => if text = listText then .ok (callObject listCall) else
      .error (.decode "Expecting value")
    dumps := fun _ => "\x7b\x7d" }

/-- The call twice, the second cut off. -/
def listTurn : Turn fun _ : Json ℚ => listText where
  leading := "Look.\n".toList
  front := [(listCall,"\n".toList)]
  last := listCall
  ending := none
  leading_free := by decide
  gaps_free := by decide
  ending_free := by simp
  front_open := by decide
  last_open := by decide

theorem loads_listText : listHost.loads listText = .ok (callObject listCall) := by
  simp [listHost]

theorem hermes_inverse_or_nothing_ls :
    parseHermesToolCalls listHost listTurn.text = .ok ⟨true,listTurn.calls.map (parsedCall listHost),
        if listTurn.leading = [] then none else some (String.ofList listTurn.leading),none⟩ ∧
      ∃ error, parseHermesToolCalls listHost "<tool_call>[]" = .ok (.failed "<tool_call>[]" error) := by
  have hregions : regions "<tool_call>[]" = ["[]"] := by decide
  have hloads : listHost.loads "[]" = .error (.decode "Expecting value") := by
    simp [listHost,listText]
  refine ⟨(hermes_inverse_or_nothing listHost).1 _ listTurn ?_,
    (hermes_inverse_or_nothing listHost).2 _ ?_ ⟨"[]",?_,?_⟩⟩
  · intro call hcall
    obtain rfl : call = listCall := by simpa [Turn.calls,listTurn] using hcall
    exact loads_listText
  · intro region hregion
    obtain rfl : region = "[]" := by simpa [hregions] using hregion
    rw [hloads]
    simp
  · rw [hregions]
    exact List.mem_singleton_self _
  · rintro ⟨fields,name,arguments,heq,-⟩
    rw [hloads] at heq
    cases heq

/-- A call with nothing in front of it. -/
def bareTurn : Turn fun _ : Json ℚ => listText where
  leading := []
  front := []
  last := listCall
  ending := some []
  leading_free := by decide
  gaps_free := by simp
  ending_free := by decide
  front_open := by simp
  last_open := by decide

/-- Without text in front of the calls there is no content, rather than an empty one. -/
theorem bareTurn_content :
    ¬((∀ call ∈ bareTurn.calls, listHost.loads listText = .ok (callObject call)) →
      parseHermesToolCalls listHost bareTurn.text = .ok ⟨true,bareTurn.calls.map (parsedCall listHost),
        some (String.ofList bareTurn.leading),none⟩) := by
  have hinverse : ∀ call ∈ bareTurn.calls, listHost.loads listText = .ok (callObject call) := by
    intro call hcall
    obtain rfl : call = listCall := by simpa [Turn.calls,bareTurn] using hcall
    exact loads_listText
  have hparsed := parseHermesToolCalls_text listHost bareTurn hinverse
  intro h
  have hcontent := (Except.ok.inj ((h hinverse).symm.trans hparsed))
  cases hcontent

end ToolProtocol
end DockyardRL
