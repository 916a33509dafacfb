import DockyardRL.Lib.Shell
import DockyardRL.Cua.Scaling

/-! Typed text on its way through the shell. The blanks around it are lost with the grammar
command, and between double quotes the shell expands what the escaping leaves alone. -/
namespace DockyardRL
namespace Cua

open Emitter Fallible Words

theorem escape_eq (text : List Char) : escape text = text.flatMap Shell.escapeDouble := by
  have hone : replace "\\" "\\\\" text = text.flatMap fun d => if d = '\\' then ['\\','\\'] else [d] :=
    Text.replaceAll_singleton '\\' ['\\','\\'] text
  have htwo : ∀ text : List Char,
      replace "\"" "\\\"" text = text.flatMap fun d => if d = '"' then ['\\','"'] else [d] :=
    Text.replaceAll_singleton '"' ['\\','"']
  rw [escape,hone,htwo,List.flatMap_assoc]
  refine congrArg (fun f => text.flatMap f) (funext fun c => ?_)
  rw [Shell.escapeDouble]
  by_cases hbackslash : c = '\\'
  · subst hbackslash
    rfl
  · by_cases hquote : c = '"'
    · subst hquote
      rfl
    · simp [hbackslash,hquote]

theorem quote_eq (text : List Char) : replace "'" "'\"'\"'" text = text.flatMap Shell.escapeSingle :=
  Text.replaceAll_singleton '\'' "'\"'\"'".toList text

/-- The string literal of AppleScript behind its opening quote, and what follows it. -/
def readLiteral : List Char → Option (List Char × List Char)
  | [] => none
  | '"' :: rest => some ([],rest)
  | '\\' :: c :: rest =>
    match [('\\','\\'),('"','"'),('n','\n'),('r','\r'),('t','\t')].lookup c with
    | some d => (readLiteral rest).map fun r => (d :: r.1,r.2)
    | none => none
  | c :: rest => if c = '\\' then none else (readLiteral rest).map fun r => (c :: r.1,r.2)

theorem readLiteral_cons {c : Char} (hbackslash : c ≠ '\\') (hquote : c ≠ '"') (rest : List Char) :
    readLiteral (c :: rest) = (readLiteral rest).map fun r => (c :: r.1,r.2) := by
  rw [readLiteral.eq_def]
  split
  · next h => cases h
  · next h => exact absurd (List.cons.inj h).1 hquote
  · next h => exact absurd (List.cons.inj h).1 hbackslash
  · next h =>
    obtain ⟨rfl,rfl⟩ := List.cons.inj h
    rw [if_neg hbackslash]

theorem readLiteral_escape (text rest : List Char) :
    readLiteral (escape text ++ '"' :: rest) = some (text,rest) := by
  rw [escape_eq]
  induction text with
  | nil => rfl
  | cons c text ih =>
    rw [List.flatMap_cons,List.append_assoc,Shell.escapeDouble]
    by_cases h : c = '\\' ∨ c = '"'
    · rw [if_pos h]
      have hread : readLiteral ('\\' :: c :: (text.flatMap Shell.escapeDouble ++ '"' :: rest)) =
          (readLiteral (text.flatMap Shell.escapeDouble ++ '"' :: rest)).map
            fun r => (c :: r.1,r.2) := by
        rcases h with rfl | rfl <;> rfl
      refine hread.trans ?_
      rw [ih]
      rfl
    · rw [if_neg h]
      rw [not_or] at h
      refine (readLiteral_cons h.1 h.2 (text.flatMap Shell.escapeDouble ++ '"' :: rest)).trans ?_
      rw [ih]
      rfl

def typed (text : String) : List Char := strip blank text.toList

theorem typeCommand (text : String) : ("type " ++ text).toList = "type".toList ++ ' ' :: text.toList := by
  simp

theorem isPart_type : IsWord blank "type".toList := isWord_iff.mp (by decide)

theorem splitOnce_type (text : String) :
    splitOnce blank (strip blank ("type " ++ text).toList) =
      if typed text = [] then ["type".toList] else ["type".toList,typed text] := by
  rw [typeCommand]
  exact splitOnce_strip isPart_type blank_space text.toList

theorem strip_type (text : String) : strip blank (strip blank ("type " ++ text).toList) =
    strip blank ("type " ++ text).toList := by
  rw [typeCommand]
  exact strip_strip_word isPart_type blank_space text.toList

theorem keyboardToXdotool_type (text : String) :
    keyboardToXdotool (strip blank ("type " ++ text).toList) =
      if typed text = [] then none else some (typeArguments (typed text)) := by
  rw [keyboardToXdotool,strip_type,splitOnce_type]
  split_ifs <;> rfl

theorem grammarToXdotool_type (display text : String) :
    grammarToXdotool display ("type " ++ text) = .ok (if typed text = [] then none else
      some ("DISPLAY=".toList ++ display.toList ++ " xdotool ".toList ++ typeArguments (typed text))) := by
  rw [grammarToXdotool,xdotoolArguments,splitOnce_type,keyboardToXdotool_type]
  split_ifs <;> rfl

theorem typeToMacos_type (text : String) : typeToMacos ("type " ++ text) =
    if typed text = [] then none else some (macType (typed text)) := by
  rw [typeToMacos,strip_type,splitOnce_type]
  split_ifs <;> rfl

theorem split_typeArguments {display : String} (hdisplay : display.toList.all Shell.plain = true)
    (text : List Char) :
    Shell.split ("DISPLAY=".toList ++ display.toList ++ " xdotool ".toList ++ typeArguments text) =
      if Shell.expands text then none
      else some ["DISPLAY=".toList ++ display.toList,"xdotool".toList,"type".toList,text] := by
  have hline : "DISPLAY=".toList ++ display.toList ++ " xdotool ".toList ++ typeArguments text =
      ("DISPLAY=".toList ++ display.toList) ++ ' ' :: ("xdotool".toList ++ ' ' :: ("type".toList ++
        ' ' :: ('"' :: (escape text ++ '"' :: [])))) := by
    have hxdotool : " xdotool ".toList = ' ' :: ("xdotool".toList ++ [' ']) := by decide
    change _ ++ ("type \"".toList ++ escape text ++ ['"']) = _
    rw [hxdotool]
    simp only [List.append_assoc,List.cons_append,List.nil_append]
    rfl
  have hassign : ("DISPLAY=".toList ++ display.toList).all Shell.plain = true := by
    rw [List.all_append,hdisplay]
    decide
  have hquoted : Shell.split ('"' :: (escape text ++ '"' :: [])) =
      if Shell.expands text then none else some [text] := by
    rw [Shell.split_openDouble,escape_eq,Shell.words_double]
    rfl
  rw [hline,Shell.split_word (by simp) hassign,Shell.split_word (by decide) (by decide)]
  rw [Shell.split_word (by decide) (by decide),hquoted]
  split_ifs <;> rfl

def keystroke : List Char := "tell application \"System Events\" to keystroke ".toList

theorem macType_eq (text : List Char) : macType text = "osascript".toList ++ ' ' :: ("-e".toList ++
    ' ' :: ('\'' :: ((keystroke ++ '"' :: (escape text ++ ['"'])).flatMap Shell.escapeSingle ++
      '\'' :: []))) := by
  have hhead : "osascript -e 'tell application \"System Events\" to keystroke \"".toList =
      "osascript".toList ++ ' ' :: ("-e".toList ++ ' ' :: '\'' :: (keystroke ++ ['"'])) := by decide
  have htail : "\"'".toList = ['"','\''] := by decide
  have hkeystroke : keystroke.flatMap Shell.escapeSingle = keystroke := by decide
  have hscript : (keystroke ++ '"' :: (escape text ++ ['"'])).flatMap Shell.escapeSingle =
      keystroke ++ '"' :: ((escape text).flatMap Shell.escapeSingle ++ ['"']) := by
    rw [List.flatMap_append,hkeystroke,List.flatMap_cons,List.flatMap_append]
    rfl
  have hquoted : macType text = _ ++ (escape text).flatMap Shell.escapeSingle ++ _ :=
    congrArg (fun t => _ ++ t ++ _) (quote_eq (escape text))
  have hparts := hquoted.trans
    (congrArg₂ (fun a b => a ++ (escape text).flatMap Shell.escapeSingle ++ b) hhead htail)
  rw [hparts,hscript]
  simp only [List.append_assoc,List.cons_append,List.nil_append]

theorem split_macType (text : List Char) : Shell.split (macType text) =
    if '\x00' ∈ text then none
    else some ["osascript".toList,"-e".toList,keystroke ++ '"' :: (escape text ++ ['"'])] := by
  have hnull : '\x00' ∈ keystroke ++ '"' :: (escape text ++ ['"']) ↔ '\x00' ∈ text := by
    have hkey : '\x00' ∉ keystroke := by decide
    rw [escape_eq]
    simp only [List.mem_append,List.mem_cons,List.mem_flatMap,List.not_mem_nil,or_false,hkey]
    constructor
    · rintro (h | h | ⟨c,hc,h⟩ | h)
      · exact h.elim
      · exact absurd h (by decide)
      · rw [Shell.escapeDouble] at h
        split_ifs at h with hescaped
        · rcases List.mem_cons.mp h with h | h
          · exact absurd h (by decide)
          · exact (List.mem_singleton.mp h) ▸ hc
        · exact (List.mem_singleton.mp h) ▸ hc
      · exact absurd h (by decide)
    · exact fun h => .inr (.inr (.inl ⟨'\x00',h,by decide⟩))
  have hquoted : ∀ script : List Char,
      Shell.split ('\'' :: (script.flatMap Shell.escapeSingle ++ '\'' :: [])) =
        if '\x00' ∈ script then none else some [script] := by
    intro script
    rw [Shell.split_openSingle,Shell.words_single]
    rfl
  rw [macType_eq,Shell.split_word (by decide) (by decide),Shell.split_word (by decide) (by decide)]
  rw [hquoted]
  by_cases h : '\x00' ∈ text
  · rw [if_pos (hnull.mpr h),if_pos h]
    rfl
  · rw [if_neg (fun hn => h (hnull.mp hn)),if_neg h]
    rfl

section Verbatim

variable {F E : Type} (py : Interpreter F E) (sizes : Sizes)

/-- A call that types a literal text. -/
def Types (call : Call E) (text : String) : Prop :=
  ∃ info, actionOf py call = .ok (some (.write,info)) ∧
    info.arg 0 "message" .none = some (.str text)

/-- One xdotool process is run, and its last argument is the text. -/
def XdotoolVerbatim (display : String) (call : Call E) (text : String) : Prop :=
  ∃ line, pyautoguiToXdotool py sizes display (some [call]) = .ok [line] ∧
    Shell.split line = some ["DISPLAY=".toList ++ display.toList,"xdotool".toList,"type".toList,
      text.toList]

/-- One osascript process is run, and the string literal of its script denotes the text. -/
def MacosVerbatim (call : Call E) (text : String) : Prop :=
  ∃ commands line script, pyautoguiToGrammar py sizes (some [call]) = .ok commands ∧
    commands.filterMap typeToMacos = [line] ∧
    Shell.split line = some ["osascript".toList,"-e".toList,keystroke ++ '"' :: script] ∧
    readLiteral script = some (text.toList,[])

variable {py sizes}

theorem pyautoguiToGrammar_type {call : Call E} {text : String} (h : Types py call text) :
    pyautoguiToGrammar py sizes (some [call]) = .ok ["type " ++ text] := by
  obtain ⟨info,haction,hmessage⟩ := h
  have hstep : step py sizes none call = .ok (["type " ++ text],none) := by
    rw [(step_of_action haction).2]
    change Except.ok (type (info.arg 0 "message" .none),none) = _
    rw [hmessage]
    rfl
  have hrun : emit (step py sizes) none [call] = .ok ([["type " ++ text]],none) :=
    emit_cons_ok.mpr ⟨_,none,[],hstep,rfl,rfl⟩
  rw [pyautoguiToGrammar]
  change (emit (step py sizes) none [call]).map _ = _
  rw [hrun]
  rfl

/-- A typed text arrives as it is, on both systems, exactly when there are no blanks around it
and nothing in it is expanded between double quotes. -/
theorem typed_verbatim_iff (py : Interpreter F E) (sizes : Sizes) {display : String}
    (hdisplay : display.toList.all Shell.plain = true) {call : Call E} {text : String}
    (hcall : Types py call text) (hne : text ≠ "") :
    XdotoolVerbatim py sizes display call text ∧ MacosVerbatim py sizes call text ↔
      typed text = text.toList ∧ Shell.expands text.toList = false := by
  have hgrammar := @pyautoguiToGrammar_type F E py sizes call text hcall
  have htoList : text.toList ≠ [] := fun h => hne (String.toList_inj.mp h)
  have hlines : pyautoguiToXdotool py sizes display (some [call]) =
      .ok (if typed text = [] then [] else
        ["DISPLAY=".toList ++ display.toList ++ " xdotool ".toList ++ typeArguments (typed text)]) := by
    rw [pyautoguiToXdotool,hgrammar]
    change ((["type " ++ text] : List String).mapM (grammarToXdotool display)).map _ = _
    simp only [List.mapM_cons,List.mapM_nil,grammarToXdotool_type]
    split_ifs <;> rfl
  have hnull : ∀ t : List Char, Shell.expands t = false → '\x00' ∉ t := by
    intro t
    induction t with
    | nil => simp
    | cons c t ih =>
      intro h
      simp only [Shell.expands,Bool.or_eq_false_iff,decide_eq_false_iff_not] at h
      obtain ⟨⟨⟨-,hc⟩,-⟩,ht⟩ := h
      simp [Ne.symm hc,ih ht]
  constructor
  · rintro ⟨⟨line,hline,hsplit⟩,-⟩
    rw [hlines] at hline
    split_ifs at hline with hempty
    · cases hline
    · obtain ⟨rfl,-⟩ := List.cons.inj (Except.ok.inj hline)
      rw [split_typeArguments hdisplay] at hsplit
      split_ifs at hsplit with hexpands
      · have heq : typed text = text.toList := by simpa using hsplit
        rw [Bool.not_eq_true,heq] at hexpands
        exact ⟨heq,hexpands⟩
  · rintro ⟨heq,hexpands⟩
    have hnonempty : typed text ≠ [] := heq ▸ htoList
    rw [if_neg hnonempty,heq] at hlines
    refine ⟨⟨_,hlines,?_⟩,["type " ++ text],macType text.toList,escape text.toList ++ ['"'],
      hgrammar,?_,?_,readLiteral_escape text.toList []⟩
    · rw [split_typeArguments hdisplay,hexpands]
      rfl
    · rw [List.filterMap_cons,typeToMacos_type,if_neg hnonempty,heq]
      rfl
    · rw [split_macType,if_neg (hnull _ hexpands)]

end Verbatim

def textInterpreter : Interpreter ℤ String := { sampleInterpreter with
  literalEval := fun text => .ok (.str text) }

/-- `write("$HOME")`. -/
def writeHome : Call String := ⟨1,0,some "write",[.plain "$HOME"],[]⟩

/-- The variable is expanded on its way. -/
theorem writeHome_expanded :
    pyautoguiToXdotool textInterpreter ⟨none,none⟩ ":0" (some [writeHome]) =
        .ok ["DISPLAY=:0 xdotool type \"$HOME\"".toList] ∧
      ¬ (XdotoolVerbatim textInterpreter ⟨none,none⟩ ":0" writeHome "$HOME" ∧
        MacosVerbatim textInterpreter ⟨none,none⟩ writeHome "$HOME") := by
  have hlines : pyautoguiToXdotool textInterpreter ⟨none,none⟩ ":0" (some [writeHome]) =
      .ok ["DISPLAY=:0 xdotool type \"$HOME\"".toList] := by decide
  refine ⟨hlines,?_⟩
  rintro ⟨⟨line,hline,hsplit⟩,-⟩
  rw [hlines] at hline
  obtain ⟨rfl,-⟩ := List.cons.inj (Except.ok.inj hline)
  have hnone : Shell.split "DISPLAY=:0 xdotool type \"$HOME\"".toList = none := by decide
  rw [hnone] at hsplit
  cases hsplit

theorem typed_verbatim_iff_writeHome :
    XdotoolVerbatim textInterpreter ⟨none,none⟩ ":0" writeHome "$HOME" ∧
        MacosVerbatim textInterpreter ⟨none,none⟩ writeHome "$HOME" ↔
      typed "$HOME" = "$HOME".toList ∧ Shell.expands "$HOME".toList = false :=
  typed_verbatim_iff textInterpreter ⟨none,none⟩ (by decide) ⟨_,rfl,rfl⟩ (by decide)

end Cua
end DockyardRL
