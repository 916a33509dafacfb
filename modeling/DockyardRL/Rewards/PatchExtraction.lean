import DockyardRL.Lib.Enclosed
import DockyardRL.Rewards.Classification
import DockyardRL.Rewards.PatchReading
import DockyardRL.ToolProtocol.Extraction

/-! How the coding environment takes a patch out of a message: from a fence, from tags, from the bare
text, or from the argument of a tool call. All but the last strip the patch, also of blanks that belong to
its last line. -/
namespace DockyardRL
namespace Rewards
namespace PatchExtraction

open Pattern Words ToolProtocol

variable (classes : CharClasses)

/-- `_DIFF_FENCE_RE`, by the alternatives in it. -/
def diffFence : List (List Item) :=
  ["diff".toList,"patch".toList].map fun tag =>
    .literal "```".toList :: .literal tag :: many classes.isSpace :: .literal ['\n'] ::
      upTo "```".toList

/-- `_PATCH_TAG_RE`. -/
def patchTag : List (List Item) := [.literal "<patch>".toList :: upTo "</patch>".toList]

/-- What the text of a message starts with when it is taken for a diff itself. -/
def LooksLikeDiff (text : List Char) : Prop := "diff --git".toList <+: text ∨ "--- ".toList <+: text

instance (text : List Char) : Decidable (LooksLikeDiff text) := inferInstanceAs (Decidable (_ ∨ _))

def extractPatch (text : List Char) : List Char :=
  match searchAny (diffFence classes) text with
  | some groups => strip classes.isSpace (groups.headD [])
  | none =>
    match searchAny patchTag text with
    | some groups => strip classes.isSpace (groups.headD [])
    | none =>
      let stripped := strip classes.isSpace text
      if LooksLikeDiff stripped then stripped else []

variable {φ : Type} (host : Host φ)

/-- `CODE_TOOLS`. -/
def codeTools : ToolRegistry φ :=
  ⟨[⟨"submit_patch","Submit the unified-diff patch that solves the task.",
    .dict (some (.str "object")) none (some (.arr [.str "patch"]))
      (some [("patch",.dict (some (.str "string")) none none (some []) none)]) none⟩],by simp⟩

/-- `str(value)`. -/
def pyStr : Json φ → String
  | .str s => s
  | value => host.repr value

/-- `_extract_patch_structured`. A `KeyError` leaves the turn without a verdict. -/
def extractPatchStructured (text : String) : Except Raised (List Char × Bool) :=
  (assessToolCalls host text codeTools).bind fun assessment =>
    if assessment.malformed then .ok ([],true)
    else match assessment.validCalls with
      | [⟨.str "submit_patch",arguments,_⟩] =>
        ((subscript host arguments "patch").mapError fun _ => Raised.other).map fun value =>
          let patch := (pyStr host value).toList
          (patch,strip classes.isSpace patch = [])
      | _ => .ok ([],true)

def withoutFeed (text : List Char) : List Char :=
  if text.getLast? = some '\n' then text.dropLast else text

/-- The same lines in the same order, up to the final line break. -/
def SameLines (text text' : List Char) : Prop := withoutFeed text = withoutFeed text'

/-- No code fence and no patch tag. -/
structure MarkerFree (text : List Char) : Prop where
  fence : ¬"```".toList <:+: text
  opening : ¬"<patch>".toList <:+: text
  closing : ¬"</patch>".toList <:+: text

def inFence (tag before patch after : List Char) : List Char :=
  before ++ ("```".toList ++ (tag ++ '\n' :: (withoutFeed patch ++ '\n' :: ("```".toList ++ after))))

def inTags (lead tail before patch after : List Char) : List Char :=
  before ++ ("<patch>".toList ++ (lead ++ (withoutFeed patch ++ tail) ++ ("</patch>".toList ++ after)))

/-- Every way to hand in a patch yields it. -/
structure Preserved (patch : List Char) : Prop where
  fence : ∀ tag ∈ ["diff".toList,"patch".toList], ∀ before after, MarkerFree before →
    MarkerFree after → SameLines (extractPatch classes (inFence tag before patch after)) patch
  tags : ∀ lead ∈ [[],['\n']], ∀ tail ∈ [[],['\n']], ∀ before after, MarkerFree before →
    MarkerFree after → SameLines (extractPatch classes (inTags lead tail before patch after)) patch
  alone : SameLines (extractPatch classes patch) patch
  call : ∀ text fields argumentsJson reason, assessToolCalls host text codeTools =
      .ok ⟨true,[⟨.str "submit_patch",.obj fields,argumentsJson⟩],false,reason⟩ →
    fields.lookup "patch" = some (.str (String.ofList patch)) →
      ∃ invalid extracted, extractPatchStructured classes host text = .ok (extracted,invalid) ∧
        SameLines extracted patch

variable {classes}

theorem isSpace_of_mem_feed {feed : List Char} (h : feed ∈ [[],['\n']]) :
    ∀ c ∈ feed, classes.isSpace c = true := by
  intro c hc
  rcases List.mem_pair.mp h with rfl | rfl
  · cases hc
  · rw [List.mem_singleton.mp hc]
    exact isSpace_feed

theorem eq_withoutFeed (text : List Char) :
    text = withoutFeed text ∨ text = withoutFeed text ++ ['\n'] := by
  rw [withoutFeed]
  split_ifs with h
  · right
    obtain ⟨front,rfl⟩ := List.getLast?_eq_some_iff.mp h
    rw [List.dropLast_concat]
  · exact .inl rfl

theorem withoutFeed_strip (text : List Char) :
    withoutFeed (strip classes.isSpace text) = strip classes.isSpace text := by
  refine if_neg fun h => ?_
  have hlast := getLast?_strip h
  rw [isSpace_feed] at hlast
  cases hlast

theorem strip_feeds {lead tail : List Char} (hlead : lead ∈ [[],['\n']]) (htail : tail ∈ [[],['\n']])
    (text : List Char) :
    strip classes.isSpace (lead ++ (text ++ tail)) = strip classes.isSpace text :=
  strip_append_blanks (isSpace_of_mem_feed hlead) (isSpace_of_mem_feed htail) text

theorem strip_withoutFeed (text : List Char) :
    strip classes.isSpace (withoutFeed text) = strip classes.isSpace text := by
  rcases eq_withoutFeed text with htext | htext
  · rw [← htext]
  · have hstrip := @strip_feeds classes [] ['\n'] (by simp) (by simp) (withoutFeed text)
    exact ((congrArg _ htext).trans hstrip).symm

theorem infix_of_withoutFeed {needle text : List Char} (h : needle <:+: withoutFeed text) :
    needle <:+: text := by
  rcases eq_withoutFeed text with htext | htext
  · rwa [htext]
  · rw [htext]
    exact h.trans (List.prefix_append _ _).isInfix

theorem MarkerFree.withoutFeed {text : List Char} (h : MarkerFree text) :
    MarkerFree (withoutFeed text) :=
  ⟨fun hin => h.fence (infix_of_withoutFeed hin),fun hin => h.opening (infix_of_withoutFeed hin),
    fun hin => h.closing (infix_of_withoutFeed hin)⟩

theorem infix_feeds {needle lead tail text : List Char} (hfeed : '\n' ∉ needle) (hne : needle ≠ [])
    (hlead : lead ∈ [[],['\n']]) (htail : tail ∈ [[],['\n']]) :
    needle <:+: lead ++ (text ++ tail) ↔ needle <:+: text := by
  have hback : needle <:+: text ++ tail ↔ needle <:+: text := by
    rcases List.mem_pair.mp htail with rfl | rfl
    · rw [List.append_nil]
    · rw [Text.infix_append_cons_iff hfeed]
      simp [hne]
  rcases List.mem_pair.mp hlead with rfl | rfl
  · exact hback
  · have hfront := Text.infix_append_cons_iff (a := []) (b := text ++ tail) hfeed
    rw [List.singleton_append,← List.nil_append ('\n' :: (text ++ tail)),hfront,hback]
    simp [hne]

section Routes

variable {patch before after : List Char}

theorem fenceTag_diff : ∀ tag ∈ ["diff".toList,"patch".toList], FenceTag classes tag := by
  intro tag htag
  rcases List.mem_pair.mp htag with rfl | rfl <;> exact fenceTag_of_letters (by decide)

theorem searchAny_diffFence_none {text : List Char} (h : ¬"```".toList <:+: text) :
    searchAny (diffFence classes) text = none := searchAny_fenceItems_none fenceTag_diff h

theorem extractPatch_fence (hbefore : MarkerFree before) (hpatch : MarkerFree patch) {tag : List Char}
    (htag : tag ∈ ["diff".toList,"patch".toList]) :
    extractPatch classes (inFence tag before patch after) = strip classes.isSpace patch := by
  have hbody : ¬"```".toList <:+: withoutFeed patch ++ ['\n'] := by
    have hfeeds := @infix_feeds "```".toList [] ['\n'] (withoutFeed patch) (by decide) (by decide)
      (by simp) (by simp)
    exact fun h => hpatch.withoutFeed.fence (hfeeds.mp h)
  have hend : ∀ c, (withoutFeed patch ++ ['\n']).getLast? = some c → c ≠ '`' := by
    intro c hc
    rw [List.getLast?_concat] at hc
    exact Option.some.inj hc ▸ by decide
  have htext : inFence tag before patch after = before ++ ("```".toList ++ (tag ++ ([] ++ '\n' ::
      (withoutFeed patch ++ ['\n'] ++ ("```".toList ++ after))))) := by
    simp [inFence]
  have hnone : ∀ c ∈ ([] : List Char), classes.isSpace c = true := isSpace_of_mem_feed (by simp)
  obtain ⟨group,hstrip,hsearch⟩ :=
    searchAny_fence fenceTag_diff htag hbefore.fence hnone hbody hend after
  have hfound : searchAny (diffFence classes) (inFence tag before patch after) = some [group] := by
    rw [htext]
    exact hsearch
  have hfeeds := @strip_feeds classes [] ['\n'] (by simp) (by simp) (withoutFeed patch)
  rw [extractPatch,hfound]
  show strip classes.isSpace group = _
  rw [hstrip,← strip_withoutFeed patch,← hfeeds]
  rfl

theorem extractPatch_tags (hbefore : MarkerFree before) (hpatch : MarkerFree patch)
    (hafter : MarkerFree after) {lead tail : List Char} (hlead : lead ∈ [[],['\n']])
    (htail : tail ∈ [[],['\n']]) :
    extractPatch classes (inTags lead tail before patch after) = strip classes.isSpace patch := by
  have hinner : ∀ needle : List Char, '\n' ∉ needle → needle ≠ [] → ¬needle <:+: patch →
      ¬needle <:+: lead ++ (withoutFeed patch ++ tail) := fun needle hfeed hne hno h =>
    hno (infix_of_withoutFeed ((infix_feeds hfeed hne hlead htail).mp h))
  have htext : inTags lead tail before patch after = before ++ '<' :: ("patch".toList ++ '>' ::
      (lead ++ (withoutFeed patch ++ tail) ++ '<' :: ("/patch".toList ++ '>' :: after))) := rfl
  have hfence : searchAny (diffFence classes) (inTags lead tail before patch after) = none := by
    refine searchAny_diffFence_none ?_
    rw [htext,Text.infix_append_cons_iff (by decide),Text.infix_append_cons_iff (by decide),
      Text.infix_append_cons_iff (by decide),Text.infix_append_cons_iff (by decide)]
    rintro (h | h | h | h | h)
    · exact hbefore.fence h
    · exact absurd h (by decide)
    · exact hinner _ (by decide) (by decide) hpatch.fence h
    · exact absurd h (by decide)
    · exact hafter.fence h
  have hcut : Text.cut "</patch>".toList (lead ++ (withoutFeed patch ++ tail) ++
      ("</patch>".toList ++ after)) = some (lead ++ (withoutFeed patch ++ tail),after) :=
    @Text.cut_tag _ _ _ after "/patch>".toList '<' (by decide)
      (hinner _ (by decide) (by decide) hpatch.closing)
  have hsearch : searchAny patchTag (inTags lead tail before patch after) =
      some [lead ++ (withoutFeed patch ++ tail)] := by
    rw [inTags,searchAny,leftmost_append]
    · refine leftmost_of_some ?_
      rw [patchTag,List.findSome?_singleton,first_literal_append,first_upTo,hcut]
      rfl
    · intro s hs hsuffix
      have hno : ¬"<patch>".toList <+: s ++ ("<patch>".toList ++
          (lead ++ (withoutFeed patch ++ tail) ++ ("</patch>".toList ++ after))) := fun h =>
        hbefore.opening (((Text.prefix_tag_iff (by decide) hs).mp h).isInfix.trans hsuffix.isInfix)
      rw [patchTag,List.findSome?_singleton,first_literal,if_neg hno]
      rfl
  rw [extractPatch,hfence,hsearch]
  show strip classes.isSpace (lead ++ (withoutFeed patch ++ tail)) = _
  rw [strip_feeds hlead htail,strip_withoutFeed]

theorem extractPatch_alone (hpatch : MarkerFree patch) : extractPatch classes patch =
    if LooksLikeDiff (strip classes.isSpace patch) then strip classes.isSpace patch else [] := by
  have htag : searchAny patchTag patch = none :=
    leftmost_eq_none fun s hs => by
      rw [patchTag,List.findSome?_singleton,first_literal,
        if_neg fun h => hpatch.opening (h.isInfix.trans hs.isInfix)]
      rfl
  rw [extractPatch,searchAny_diffFence_none hpatch.fence,htag]

end Routes

theorem extractPatchStructured_call {text argumentsJson : String} {fields : List (String × Json φ)}
    {reason : Option String} {patch : List Char}
    (h : assessToolCalls host text codeTools =
      .ok ⟨true,[⟨.str "submit_patch",.obj fields,argumentsJson⟩],false,reason⟩)
    (hpatch : fields.lookup "patch" = some (.str (String.ofList patch))) :
    extractPatchStructured classes host text =
      .ok (patch,decide (strip classes.isSpace patch = [])) := by
  have hsubscript : subscript host (.obj fields) "patch" = .ok (.str (String.ofList patch)) := by
    rw [subscript,hpatch]
  rw [extractPatchStructured,h]
  show ((subscript host (.obj fields) "patch").mapError fun _ => Raised.other).map _ = _
  rw [hsubscript]
  show Except.ok ((String.ofList patch).toList,_) = _
  rw [pyStr,String.toList_ofList]

theorem head_of_looksLikeDiff {text : List Char} (h : LooksLikeDiff text) {c : Char}
    (hc : text.head? = some c) : classes.isSpace c = false := by
  have hmark : c = 'd' ∨ c = '-' := by
    rcases h with ⟨rest,rfl⟩ | ⟨rest,rfl⟩
    · exact .inl (Option.some.inj hc).symm
    · exact .inr (Option.some.inj hc).symm
  rcases hmark with rfl | rfl <;> exact not_isSpace (by decide)

theorem sameLines_strip_iff (text : List Char) :
    SameLines (strip classes.isSpace text) text ↔
      strip classes.isSpace (withoutFeed text) = withoutFeed text := by
  rw [SameLines,withoutFeed_strip,strip_withoutFeed]

/-- All routes preserve a patch that looks like a diff and whose last line ends in no blank, and no
other. -/
theorem preserved_iff {patch : List Char} (hpatch : MarkerFree patch) :
    Preserved classes host patch ↔ (withoutFeed patch = [] ∨ LooksLikeDiff (withoutFeed patch)) ∧
      ∀ c, (withoutFeed patch).getLast? = some c → classes.isSpace c = false := by
  constructor
  · intro h
    have halone := h.alone
    rw [extractPatch_alone hpatch] at halone
    split_ifs at halone with hdiff
    · have hstrip := (sameLines_strip_iff patch).mp halone
      rw [← strip_withoutFeed,hstrip] at hdiff
      exact ⟨.inr hdiff,(strip_eq_self_iff.mp hstrip).2⟩
    · have hnil : withoutFeed patch = [] := halone.symm
      refine ⟨.inl hnil,fun c hc => ?_⟩
      rw [hnil] at hc
      cases hc
  · rintro ⟨hdiff,hlast⟩
    have hstrip : strip classes.isSpace (withoutFeed patch) = withoutFeed patch := by
      refine strip_eq_self_iff.mpr ⟨fun c hc => ?_,hlast⟩
      rcases hdiff with hnil | hdiff
      · rw [hnil] at hc
        cases hc
      · exact head_of_looksLikeDiff hdiff hc
    have hsame := (sameLines_strip_iff patch).mpr hstrip
    refine ⟨fun tag htag before after hbefore _ => ?_,fun lead hlead tail htail before after hbefore
      hafter => ?_,?_,fun text fields argumentsJson reason hassess hlookup => ?_⟩
    · rwa [extractPatch_fence hbefore hpatch htag]
    · rwa [extractPatch_tags hbefore hpatch hafter hlead htail]
    · rw [extractPatch_alone hpatch]
      split_ifs with hlooks
      · exact hsame
      · rw [← strip_withoutFeed,hstrip] at hlooks
        have hnil := hdiff.resolve_right hlooks
        rw [SameLines,hnil]
        rfl
    · exact ⟨_,_,extractPatchStructured_call host hassess hlookup,rfl⟩

def shortPatch : String := "--- a/x\n+++ b/x\n@@ -1,1 +1,1 @@\n-a\n+b\n"

/-- The JSON text of a call that submits the patch. -/
def submitText : String := "\x7b\"name\": \"submit_patch\", \"arguments\": \x7b\"patch\": " ++
  "\"--- a/x\\n+++ b/x\\n@@ -1,1 +1,1 @@\\n-a\\n+b\\n\"\x7d\x7d"

def submitCall : String × Json Unit := ("submit_patch",.obj [("patch",.str shortPatch)])

def submitHost : Host Unit :=
  { sampleHost with
    loads := fun text => if text = submitText then .ok (callObject submitCall) else
      .error (.decode "Expecting value") }

def submitTurn : Turn fun _ : Json Unit => submitText where
  leading := "Fixed.\n".toList
  front := []
  last := submitCall
  ending := some "\n".toList
  leading_free := by decide
  gaps_free := by simp
  ending_free := by decide
  front_open := by simp
  last_open := by decide +kernel

theorem submitTurn_parsed : parseHermesToolCalls submitHost submitTurn.text =
    .ok ⟨true,[parsedCall submitHost submitCall],some (String.ofList "Fixed.\n".toList),none⟩ := by
  refine parseHermesToolCalls_text submitHost submitTurn fun call hcall => ?_
  obtain rfl : call = submitCall := by simpa [Turn.calls,submitTurn] using hcall
  simp [submitHost]

theorem submitTurn_assessed : assessToolCalls submitHost submitTurn.text codeTools =
    .ok ⟨true,[parsedCall submitHost submitCall],false,none⟩ := by
  have hverdict : assessCall submitHost codeTools (parsedCall submitHost submitCall) = .ok none := by
    decide
  have hverdicts : [parsedCall submitHost submitCall].mapM (assessCall submitHost codeTools) =
      .ok [none] := by
    rw [List.mapM_cons,hverdict]
    rfl
  rw [assessToolCalls,submitTurn_parsed]
  dsimp only [Except.bind]
  rw [hverdicts]
  rfl

/-- The patch arrives, also as the argument of a call. -/
theorem preserved_iff_shortPatch : Preserved CharClasses.ascii submitHost shortPatch.toList ∧
    ∃ invalid extracted, extractPatchStructured CharClasses.ascii submitHost submitTurn.text =
        .ok (extracted,invalid) ∧
      SameLines extracted shortPatch.toList := by
  have hlast : (withoutFeed shortPatch.toList).getLast? = some 'b' := by decide
  have hmarkers : MarkerFree shortPatch.toList := ⟨by decide,by decide,by decide⟩
  have hpreserved : Preserved CharClasses.ascii submitHost shortPatch.toList := by
    refine (preserved_iff submitHost hmarkers).mpr ⟨.inr (by decide),fun c hc => ?_⟩
    rw [hlast] at hc
    obtain rfl := Option.some.inj hc
    decide
  refine ⟨hpreserved,hpreserved.call _ _ _ _ submitTurn_assessed ?_⟩
  rw [String.ofList_toList]
  rfl

def shortPath : DiffPath := ⟨"x".toList,by decide,by decide⟩

theorem blank_noFeed : '\n' ∉ ([] : List Char) := List.not_mem_nil

theorem old_noFeed : '\n' ∉ ['a'] := List.not_mem_cons_of_ne_of_not_mem (by decide) List.not_mem_nil

theorem new_noFeed : '\n' ∉ ['b'] := List.not_mem_cons_of_ne_of_not_mem (by decide) List.not_mem_nil

def blankContext : Patch :=
  [⟨.modify shortPath,.git (plainHeader shortPath (by decide)),
    [⟨1,1,⟨[],blank_noFeed⟩,[⟨.removed,⟨['a'],old_noFeed⟩⟩,⟨.added,⟨['b'],new_noFeed⟩⟩,
      ⟨.context,⟨[],blank_noFeed⟩⟩]⟩],fun h => absurd h (List.cons_ne_nil _ _)⟩]

/-- The blank line is lost on its way through a fence. -/
theorem blankContext_lost : MarkerFree blankContext.render ∧
    ¬SameLines (extractPatch CharClasses.ascii (inFence "diff".toList [] blankContext.render []))
      blankContext.render := by
  have hmarkers : MarkerFree blankContext.render :=
    ⟨by decide +kernel,by decide +kernel,by decide +kernel⟩
  have hempty : MarkerFree [] := ⟨by decide,by decide,by decide⟩
  refine ⟨hmarkers,?_⟩
  rw [extractPatch_fence hempty hmarkers List.mem_cons_self,sameLines_strip_iff]
  decide

end PatchExtraction
end Rewards
end DockyardRL
