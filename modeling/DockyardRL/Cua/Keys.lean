import DockyardRL.Lib.Shell
import DockyardRL.Cua.Scaling
import Mathlib.Data.Rat.Cast.Defs

/-! Pressed keys on their way to xdotool. Modifiers and key are one text in the grammar, where a key
that is the symbol of a modifier is taken for the modifier. -/
namespace DockyardRL
namespace Cua

open Words

/-- A key: the one that types a character, or the one with a name of X. -/
inductive Key
  | char (c : Char)
  | named (name : String)
  deriving DecidableEq

def modifierAliases : List (String × String) :=
  [("ctrl","Control_L"),("shift","Shift_L"),("alt","Alt_L"),("super","Super_L")]

/-- What xdotool makes of one name in a chord. It knows the names of X and its own aliases. -/
structure Xdotool where
  keyOf : List Char → Option Key
  aliases : ∀ entry ∈ modifierAliases, keyOf entry.1.toList = some (.named entry.2)
  keysyms : ∀ entry ∈ specialKeysMap, keyOf entry.2.toList = some (.named entry.2)

/-- The keys that `xdotool` presses when the shell has read its arguments; `none` when they are no chord
of known names. -/
def Xdotool.pressed (xdo : Xdotool) (arguments : List Char) : Option (List Key) :=
  match Shell.literalWords arguments with
  | some [action,chord] =>
    if action = "key".toList then (chord.splitOn '+').mapM xdo.keyOf else none
  | _ => none

section Meaning

variable {F E : Type} (py : Interpreter F E)

def symbolKeys : List (String × String) :=
  [("^","Control_L"),("+","Shift_L"),("!","Alt_L"),("#","Super_L")]

def modifierKey (modifier : String) : Option Key :=
  ((modifierToSymbol.lookup (py.lower modifier)).bind fun symbol => symbolKeys.lookup symbol).map .named

def keyMeant (key : String) : Option Key :=
  match keyToGrammar.lookup (py.lower key) with
  | some token => (specialKeysMap.lookup token).map .named
  | none => key.toList.head?.map .char

def chordMeant (modifiers : List String) (key : String) : List Key :=
  modifiers.filterMap (modifierKey py) ++ (keyMeant py key).toList

/-- A mapped name, or one character that is no blank. -/
def IsKey (key : String) : Prop :=
  (keyToGrammar.lookup (py.lower key)).isSome = true ∨ ∃ c, key = String.singleton c ∧ blank c = false

/-- A character gets through when it is no symbol of a modifier, when the shell leaves it alone and when
xdotool knows its key by it. -/
def GetsThrough (xdo : Xdotool) (modifiers : List String) (key : String) : Prop :=
  keyToGrammar.lookup (py.lower key) = none → ∀ c, key = String.singleton c →
    isModifier c = false ∧ c ∉ Shell.special ∧
      (c = '~' → modifiers.filterMap (modifierKey py) ≠ []) ∧ xdo.keyOf [c] = some (.char c)

end Meaning

def braced (text : List Char) : Bool :=
  text = '\x7b' :: (text.tail.dropLast ++ ['\x7d']) && '\x7b' ∉ text.tail.dropLast &&
    '\x7d' ∉ text.tail.dropLast

theorem braced_specialKeys : ∀ entry ∈ specialKeysMap,
    braced entry.1.toList = true ∧ '\x7b' ∉ entry.2.toList := by decide +kernel

theorem isSome_lookup_token : ∀ entry ∈ keyToGrammar,
    (specialKeysMap.lookup entry.2).isSome = true := by decide +kernel

theorem exists_of_braced {text : List Char} (h : braced text = true) :
    ∃ body, text = '\x7b' :: (body ++ ['\x7d']) ∧ '\x7b' ∉ body ∧ '\x7d' ∉ body := by
  simp only [braced,Bool.and_eq_true,decide_eq_true_eq] at h
  exact ⟨_,h.1.1,h.1.2,h.2⟩

theorem eq_of_braced_infix {text other : List Char} (htext : braced text = true)
    (hother : braced other = true) (h : text <:+: other) : text = other := by
  obtain ⟨body,rfl,-,hclose⟩ := exists_of_braced htext
  obtain ⟨body',rfl,hopen',hclose'⟩ := exists_of_braced hother
  obtain hstart | hin := List.infix_cons_iff.mp h
  · obtain ⟨rest,hrest⟩ := (List.cons_prefix_cons.mp hstart).2
    have hbefore := congrArg (Text.before '\x7d') hrest
    rw [List.append_assoc,Text.before_of_notMem hclose,Text.before_of_notMem hclose'] at hbefore
    have hbody : body = body' := by simpa [Text.before] using hbefore
    rw [hbody]
  · have hmem : '\x7b' ∈ body' ++ ['\x7d'] := hin.subset List.mem_cons_self
    simp [hopen'] at hmem

theorem foldl_replace_of_not_infix {table : List (String × String)} {text : List Char}
    (h : ∀ entry ∈ table, ¬ entry.1.toList <:+: text) :
    table.foldl (fun key entry => replace entry.1 entry.2 key) text = text := by
  induction table with
  | nil => rfl
  | cons entry table ih =>
    obtain ⟨hentry,hrest⟩ := List.forall_mem_cons.mp h
    rw [List.foldl_cons,replace,Text.replaceAll_of_not_infix _ hentry]
    exact ih hrest

theorem foldl_replace_lookup {table : List (String × String)} {token name : String}
    (htable : ∀ entry ∈ table, braced entry.1.toList = true ∧ '\x7b' ∉ entry.2.toList)
    (h : table.lookup token = some name) :
    table.foldl (fun key entry => replace entry.1 entry.2 key) token.toList = name.toList := by
  obtain ⟨front,behind,rfl,hfront⟩ := List.lookup_eq_some_iff.mp h
  obtain ⟨htoken,hname⟩ := htable (token,name) (by simp)
  have hbefore : front.foldl (fun key entry => replace entry.1 entry.2 key) token.toList =
      token.toList := by
    refine foldl_replace_of_not_infix fun entry hentry hin => ?_
    have heq := eq_of_braced_infix (htable entry (by simp [hentry])).1 htoken hin
    have hne := hfront entry hentry
    rw [String.toList_inj.mp heq] at hne
    simp at hne
  have hself : replace token name token.toList = name.toList := by
    refine Text.replaceAll_self ?_ _
    obtain ⟨body,hbody,-⟩ := exists_of_braced htoken
    rw [hbody]
    exact List.cons_ne_nil _ _
  rw [List.foldl_append,hbefore,List.foldl_cons,hself]
  refine foldl_replace_of_not_infix fun entry hentry hin => hname (hin.subset ?_)
  obtain ⟨body,hbody,-⟩ := exists_of_braced (htable entry (by simp [hentry])).1
  rw [hbody]
  exact List.mem_cons_self

theorem exists_name {key token : String} (h : keyToGrammar.lookup key = some token) :
    ∃ name, specialKeysMap.lookup token = some name ∧ (token,name) ∈ specialKeysMap ∧
      specialKeysMap.foldl (fun key entry => replace entry.1 entry.2 key) token.toList =
        name.toList := by
  have hmem : (key,token) ∈ keyToGrammar := by
    obtain ⟨front,behind,heq,-⟩ := List.lookup_eq_some_iff.mp h
    simp [heq]
  obtain ⟨name,hname⟩ := Option.isSome_iff_exists.mp (isSome_lookup_token _ hmem)
  refine ⟨name,hname,?_,foldl_replace_lookup braced_specialKeys hname⟩
  obtain ⟨front,behind,heq,-⟩ := List.lookup_eq_some_iff.mp hname
  simp [heq]

theorem foldl_replace_singleton (c : Char) :
    specialKeysMap.foldl (fun key entry => replace entry.1 entry.2 key) [c] = [c] := by
  refine foldl_replace_of_not_infix fun entry hentry hin => ?_
  obtain ⟨body,hbody,-⟩ := exists_of_braced (braced_specialKeys entry hentry).1
  have hlength := hin.length_le
  rw [hbody] at hlength
  simp at hlength

section Grammar

variable {F E : Type} (py : Interpreter F E)

def symbols (modifiers : List String) : List Char :=
  (String.join (modifiers.map fun m => (modifierToSymbol.lookup (py.lower m)).getD "")).toList

def modifierWords (symbols : List Char) : List (List Char) :=
  symbols.filterMap fun c => (modifierNames.lookup c).map String.toList

theorem hotkey_concat (modifiers : List String) (key : String) : ∃ grammar,
    hotkey py ((modifiers ++ [key]).map fun k => some (.str k)) = [grammar] ∧
      grammar.toList = "press".toList ++ ' ' :: (symbols py modifiers ++ (keyToken py key).toList) := by
  have hkeys : literalKeys ((modifiers ++ [key]).map fun k => some (.str k : PyValue F)) =
      modifiers ++ [key] := by
    rw [literalKeys,List.filterMap_map]
    exact List.filterMap_some
  refine ⟨_,by rw [hotkey,hkeys,List.getLast?_concat],?_⟩
  rw [List.dropLast_concat,symbols]
  simp

theorem press_eq_hotkey (key : String) : press py (some (.str key)) = hotkey py [some (.str key)] := by
  simp [press,pressKey,hotkey,literalKeys]

theorem symbol_cases : ∀ entry ∈ modifierToSymbol, ∃ c name key, entry.2 = String.singleton c ∧
    modifierNames.lookup c = some name ∧ symbolKeys.lookup entry.2 = some key ∧
      (name,key) ∈ modifierAliases := by
  have hsymbol : ∀ entry ∈ modifierToSymbol,
      entry.2 = "^" ∨ entry.2 = "+" ∨ entry.2 = "!" ∨ entry.2 = "#" := by decide
  intro entry hentry
  obtain h | h | h | h := hsymbol entry hentry <;> rw [h]
  · exact ⟨'^',"ctrl","Control_L",rfl,rfl,rfl,by decide⟩
  · exact ⟨'+',"shift","Shift_L",rfl,rfl,rfl,by decide⟩
  · exact ⟨'!',"alt","Alt_L",rfl,rfl,rfl,by decide⟩
  · exact ⟨'#',"super","Super_L",rfl,rfl,rfl,by decide⟩

theorem symbols_spec (xdo : Xdotool) (modifiers : List String) :
    (∀ c ∈ symbols py modifiers, isModifier c = true) ∧
      (modifierWords (symbols py modifiers)).mapM xdo.keyOf =
        some (modifiers.filterMap (modifierKey py)) := by
  induction modifiers with
  | nil => exact ⟨by simp [symbols],by simp [symbols,modifierWords]⟩
  | cons modifier modifiers ih =>
    obtain ⟨ihsymbols,ihwords⟩ := ih
    have hcons : symbols py (modifier :: modifiers) =
        ((modifierToSymbol.lookup (py.lower modifier)).getD "").toList ++ symbols py modifiers := by
      simp [symbols]
    rw [hcons,List.filterMap_cons,modifierKey]
    cases hlookup : modifierToSymbol.lookup (py.lower modifier) with
    | none => simpa using ⟨ihsymbols,ihwords⟩
    | some symbol =>
      have hmem : (py.lower modifier,symbol) ∈ modifierToSymbol := by
        obtain ⟨front,behind,heq,-⟩ := List.lookup_eq_some_iff.mp hlookup
        simp [heq]
      obtain ⟨c,name,key,rfl,hname,hkey,halias⟩ := symbol_cases _ hmem
      have hword := xdo.aliases _ halias
      refine ⟨?_,?_⟩
      · have hc : isModifier c = true := by rw [isModifier,hname]; rfl
        simpa [hc] using ihsymbols
      · simp [modifierWords,hname,hkey,hword] at ihwords ⊢
        simp [ihwords]

theorem mem_modifierWords {symbols : List Char} {word : List Char} (h : word ∈ modifierWords symbols) :
    word.all Shell.plain = true ∧ '+' ∉ word ∧ word ≠ [] := by
  have hall : ∀ entry ∈ modifierNames, entry.2.toList.all Shell.plain = true ∧ '+' ∉ entry.2.toList ∧
      entry.2.toList ≠ [] := by decide
  obtain ⟨c,-,hword⟩ := List.mem_filterMap.mp h
  obtain ⟨name,hname,rfl⟩ := Option.map_eq_some_iff.mp hword
  obtain ⟨front,behind,heq,-⟩ := List.lookup_eq_some_iff.mp hname
  exact hall (c,name) (by simp [heq])

theorem modifierWords_eq_nil {symbols : List Char} (h : ∀ c ∈ symbols, isModifier c = true) :
    modifierWords symbols = [] ↔ symbols = [] := by
  rw [modifierWords,List.filterMap_eq_nil_iff]
  constructor
  · intro hnone
    refine List.eq_nil_iff_forall_not_mem.mpr fun c hc => ?_
    obtain ⟨name,hname⟩ := Option.isSome_iff_exists.mp (h c hc)
    have := hnone c hc
    rw [hname] at this
    cases this
  · rintro rfl
    simp

theorem translateModifierKeys_append {symbols text keyPart : List Char}
    (hsymbols : ∀ c ∈ symbols, isModifier c = true) (htext : ∀ c ∈ text.head?, isModifier c = false)
    (hkeyPart : specialKeysMap.foldl (fun key entry => replace entry.1 entry.2 key) text = keyPart)
    (hne : symbols ≠ [] ∨ keyPart ≠ []) :
    translateModifierKeys (symbols ++ text) =
      join '+' (modifierWords symbols ++ if keyPart = [] then [] else [keyPart]) := by
  have htake : (symbols ++ text).takeWhile isModifier = symbols := by
    rw [List.takeWhile_append_of_pos hsymbols]
    cases text with
    | nil => simp
    | cons c text => simp [htext c rfl]
  have hdrop : (symbols ++ text).dropWhile isModifier = text := by
    rw [List.dropWhile_append_of_pos hsymbols]
    cases text with
    | nil => rfl
    | cons c text => simp [htext c rfl]
  have hwords := modifierWords_eq_nil hsymbols
  rw [translateModifierKeys,htake,hdrop,hkeyPart]
  change (if !(modifierWords symbols).isEmpty && !keyPart.isEmpty then
    join '+' (modifierWords symbols ++ [keyPart]) else if !keyPart.isEmpty then keyPart else
      if !(modifierWords symbols).isEmpty then join '+' (modifierWords symbols) else symbols ++ text) = _
  by_cases hsyms : symbols = []
  · have hpart := hne.resolve_left fun h => h hsyms
    rw [hwords.mpr hsyms]
    simp [hpart]
  · have hnonempty : modifierWords symbols ≠ [] := fun h => hsyms (hwords.mp h)
    by_cases hpart : keyPart = [] <;> simp [hnonempty,hpart]

theorem grammarToXdotool_press (display : String) {grammar : String} {text : List Char}
    (hgrammar : grammar.toList = "press".toList ++ ' ' :: text) (hne : text ≠ [])
    (hblank : ∀ c ∈ text, blank c = false) : grammarToXdotool display grammar =
      .ok (some ("DISPLAY=".toList ++ display.toList ++ " xdotool ".toList ++
        ("key".toList ++ ' ' :: translateModifierKeys text))) := by
  have hword : IsWord blank "press".toList := isWord_iff.mp (by decide)
  have hstrip : strip blank text = text := strip_of_forall hblank
  have hsplit : splitOnce blank (strip blank grammar.toList) = ["press".toList,text] := by
    rw [hgrammar,splitOnce_strip hword blank_space,hstrip,if_neg hne]
  have hagain : strip blank (strip blank grammar.toList) = strip blank grammar.toList := by
    rw [hgrammar]
    exact strip_strip_word hword blank_space text
  have hkeyboard : keyboardToXdotool (strip blank grammar.toList) =
      some ("key".toList ++ ' ' :: translateModifierKeys text) := by
    rw [keyboardToXdotool,hagain,hsplit]
    rfl
  rw [grammarToXdotool,xdotoolArguments,hsplit]
  dsimp only
  rw [if_pos (Or.inr rfl),hkeyboard]
  rfl

theorem pressed_chord (xdo : Xdotool) {words : List (List Char)} {last : List Char}
    (hwords : ∀ word ∈ words, word.all Shell.plain = true ∧ '+' ∉ word) (hlast : last ≠ [])
    (hblank : ∀ c ∈ last, Shell.blank c = false) (hplus : '+' ∉ last) :
    xdo.pressed ("key".toList ++ ' ' :: join '+' (words ++ [last])) =
      if (if words = [] then Shell.literalWord last else Shell.literal last) then
        (words ++ [last]).mapM xdo.keyOf else none := by
  have hfront : (words.flatMap fun word => word ++ ['+']).all Shell.plain = true := by
    rw [List.all_flatMap,List.all_eq_true]
    intro word hword
    rw [List.all_append,(hwords word hword).1]
    rfl
  have hempty : (words.flatMap fun word => word ++ ['+']) = [] ↔ words = [] := by
    cases words <;> simp
  have hchord : IsWord Shell.blank (join '+' (words ++ [last])) := by
    rw [join_concat]
    refine ⟨by simp [hlast],fun c hc => ?_⟩
    obtain hc | hc := List.mem_append.mp hc
    · have hplain := List.all_eq_true.mp hfront c hc
      have hne := Shell.plain_ne hplain
      simp [Shell.blank,hne]
    · exact hblank c hc
  have hsplit : Words.split Shell.blank ("key".toList ++ ' ' :: join '+' (words ++ [last])) =
      ["key".toList,join '+' (words ++ [last])] := by
    rw [split_append (by decide) (isWord_iff.mp (by decide)),split_singleton hchord]
  have hnames : (join '+' (words ++ [last])).splitOn '+' = words ++ [last] := by
    refine List.splitOn_intercalate '+' (fun word hword => ?_) (by simp)
    obtain hword | hword := List.mem_append.mp hword
    · exact (hwords word hword).2
    · rwa [List.mem_singleton.mp hword]
  have hliteral : Shell.literalWord (join '+' (words ++ [last])) =
      if words = [] then Shell.literalWord last else Shell.literal last := by
    rw [join_concat,Shell.literalWord_append hfront]
    simp only [hempty]
  have hread : Shell.literalWords ("key".toList ++ ' ' :: join '+' (words ++ [last])) =
      if (if words = [] then Shell.literalWord last else Shell.literal last) then
        some ["key".toList,join '+' (words ++ [last])] else none := by
    have hkey : Shell.literalWord "key".toList = true := by decide
    rw [Shell.literalWords,hsplit,List.all_cons,List.all_cons,List.all_nil,hkey,hliteral]
    simp
  rw [Xdotool.pressed,hread]
  split_ifs <;> simp [hnames]

theorem mapM_concat {xdo : Xdotool} {words : List (List Char)} {keys : List Key}
    (h : words.mapM xdo.keyOf = some keys) (last : List Char) :
    (words ++ [last]).mapM xdo.keyOf = (xdo.keyOf last).map fun key => keys ++ [key] := by
  rw [List.mapM_append,h]
  cases hlast : xdo.keyOf last <;> simp [hlast]

theorem plain_specialKeys : ∀ entry ∈ specialKeysMap, entry.2.toList.all Shell.plain = true ∧
    '+' ∉ entry.2.toList ∧ entry.2.toList ≠ [] := by decide +kernel

theorem plain_modifierAliases : ∀ entry ∈ modifierAliases, entry.1.toList.all Shell.plain = true ∧
    '+' ∉ entry.1.toList ∧ entry.1.toList ≠ [] := by decide

theorem pressed_plain (xdo : Xdotool) {words : List (List Char)} {last : List Char}
    (hwords : ∀ word ∈ words, word.all Shell.plain = true ∧ '+' ∉ word)
    (hlast : last.all Shell.plain = true ∧ '+' ∉ last ∧ last ≠ []) :
    xdo.pressed ("key".toList ++ ' ' :: join '+' (words ++ [last])) =
      (words ++ [last]).mapM xdo.keyOf := by
  obtain ⟨hplain,hplus,hne⟩ := hlast
  have hliteral : Shell.literal last = true := by
    have happend := Shell.literal_append hplain []
    rwa [List.append_nil] at happend
  have hword : Shell.literalWord last = true := by
    have happend := Shell.literalWord_append hplain []
    rw [List.append_nil,if_neg hne] at happend
    exact happend
  have hblank : ∀ c ∈ last, Shell.blank c = false := fun c hc => by
    have hother := Shell.plain_ne (List.all_eq_true.mp hplain c hc)
    simp [Shell.blank,hother]
  rw [pressed_chord xdo hwords hne hblank hplus,hliteral,hword]
  simp

theorem blank_token : ∀ entry ∈ keyToGrammar, entry.2.toList.all (fun c => !blank c) = true ∧
    entry.2.toList.head?.any isModifier = false ∧ entry.2.toList ≠ [] := by decide +kernel

theorem blank_symbol {c : Char} (h : isModifier c = true) : blank c = false := by
  have hsymbols : ∀ entry ∈ modifierNames, blank entry.1 = false := by decide
  obtain ⟨name,hname⟩ := Option.isSome_iff_exists.mp h
  obtain ⟨front,behind,heq,-⟩ := List.lookup_eq_some_iff.mp hname
  exact hsymbols (c,name) (by simp [heq])

theorem keyToken_word {key : String} (hkey : IsKey py key) :
    (keyToken py key).toList ≠ [] ∧ ∀ c ∈ (keyToken py key).toList, blank c = false := by
  rw [keyToken]
  cases hlookup : keyToGrammar.lookup (py.lower key) with
  | some token =>
    obtain ⟨front,behind,heq,-⟩ := List.lookup_eq_some_iff.mp hlookup
    obtain ⟨hblank,-,hne⟩ := blank_token (py.lower key,token) (by simp [heq])
    refine ⟨hne,fun c hc => ?_⟩
    simpa using List.all_eq_true.mp hblank c hc
  | none =>
    rw [IsKey,hlookup] at hkey
    obtain ⟨c,rfl,hc⟩ := hkey.resolve_left Bool.false_ne_true
    simpa using hc

theorem pressed_token (xdo : Xdotool) (modifiers : List String) {key token : String}
    (hlookup : keyToGrammar.lookup (py.lower key) = some token) :
    xdo.pressed ("key".toList ++ ' ' :: translateModifierKeys (symbols py modifiers ++ token.toList)) =
      some (chordMeant py modifiers key) := by
  obtain ⟨hsymbols,hkeys⟩ := symbols_spec py xdo modifiers
  obtain ⟨name,hname,hmem,hreplaced⟩ := exists_name hlookup
  have hmeant : keyMeant py key = some (.named name) := by
    rw [keyMeant,hlookup]
    exact congrArg (Option.map Key.named) hname
  have hplain := plain_specialKeys _ hmem
  have hhead : ∀ c ∈ token.toList.head?, isModifier c = false := by
    obtain ⟨front,behind,heq,-⟩ := List.lookup_eq_some_iff.mp hlookup
    intro c hc
    have hany := (blank_token (py.lower key,token) (by simp [heq])).2.1
    rw [hc] at hany
    exact hany
  rw [translateModifierKeys_append hsymbols hhead hreplaced (.inr hplain.2.2),if_neg hplain.2.2]
  rw [pressed_plain xdo (fun word hword => ⟨(mem_modifierWords hword).1,(mem_modifierWords hword).2.1⟩)
    hplain,mapM_concat hkeys,xdo.keysyms _ hmem,chordMeant,hmeant]
  rfl

theorem pressed_symbol (xdo : Xdotool) (modifiers : List String) {c : Char}
    (hc : isModifier c = true) : ∃ name,
      xdo.pressed ("key".toList ++ ' ' :: translateModifierKeys (symbols py modifiers ++ [c])) =
        some (modifiers.filterMap (modifierKey py) ++ [.named name]) := by
  obtain ⟨hsymbols,hkeys⟩ := symbols_spec py xdo modifiers
  obtain ⟨word,hword⟩ := Option.isSome_iff_exists.mp hc
  obtain ⟨name,halias⟩ : ∃ name, (word,name) ∈ modifierAliases := by
    have hall : ∀ entry ∈ modifierNames, ∃ other ∈ modifierAliases, other.1 = entry.2 := by decide
    obtain ⟨front,behind,heq,-⟩ := List.lookup_eq_some_iff.mp hword
    obtain ⟨⟨_,name⟩,hmem,rfl⟩ := hall (c,word) (by simp [heq])
    exact ⟨name,hmem⟩
  have hall : ∀ d ∈ symbols py modifiers ++ [c], isModifier d = true := by
    intro d hd
    obtain hd | hd := List.mem_append.mp hd
    · exact hsymbols d hd
    · rwa [List.mem_singleton.mp hd]
  have hwords : modifierWords (symbols py modifiers ++ [c]) =
      modifierWords (symbols py modifiers) ++ [word.toList] := by
    simp [modifierWords,hword]
  have hnothing : specialKeysMap.foldl (fun key entry => replace entry.1 entry.2 key) [] = [] := by
    refine foldl_replace_of_not_infix fun entry hentry hin => ?_
    obtain ⟨body,hbody,-⟩ := exists_of_braced (braced_specialKeys entry hentry).1
    rw [hbody,List.infix_nil] at hin
    cases hin
  have htranslate : translateModifierKeys (symbols py modifiers ++ [c] ++ []) =
      join '+' (modifierWords (symbols py modifiers) ++ [word.toList]) := by
    rw [translateModifierKeys_append hall (by simp) hnothing (.inl (by simp)),if_pos rfl,
      List.append_nil,hwords]
  rw [List.append_nil] at htranslate
  refine ⟨name,?_⟩
  rw [htranslate,pressed_plain xdo (fun word hword =>
    ⟨(mem_modifierWords hword).1,(mem_modifierWords hword).2.1⟩) (plain_modifierAliases _ halias),
    mapM_concat hkeys,xdo.aliases _ halias]
  rfl

theorem pressed_character (xdo : Xdotool) (modifiers : List String) {c : Char}
    (hc : isModifier c = false) (hblank : blank c = false) :
    xdo.pressed ("key".toList ++ ' ' :: translateModifierKeys (symbols py modifiers ++ [c])) =
      if c ∉ Shell.special ∧ (c = '~' → modifiers.filterMap (modifierKey py) ≠ []) then
        (xdo.keyOf [c]).map fun key => modifiers.filterMap (modifierKey py) ++ [key]
      else none := by
  obtain ⟨hsymbols,hkeys⟩ := symbols_spec py xdo modifiers
  have hshell : ∀ d ∈ [c], Shell.blank d = false := by
    intro d hd
    obtain rfl := List.mem_singleton.mp hd
    have hother : d ≠ ' ' ∧ d ≠ '\t' := by
      refine ⟨?_,?_⟩ <;> rintro rfl <;> exact absurd hblank (by decide)
    simp [Shell.blank,hother]
  have hplus : '+' ∉ [c] := by
    rintro hmem
    obtain rfl := List.mem_singleton.mp hmem
    exact absurd hc (by decide)
  have hhash : c ≠ '#' := by
    rintro rfl
    exact absurd hc (by decide)
  have hempty : modifierWords (symbols py modifiers) = [] ↔
      modifiers.filterMap (modifierKey py) = [] := by
    constructor
    · intro h
      rw [h] at hkeys
      exact (Option.some.inj hkeys).symm
    · intro h
      rw [h] at hkeys
      cases hwords : modifierWords (symbols py modifiers) with
      | nil => rfl
      | cons word words =>
        rw [hwords,List.mapM_cons] at hkeys
        obtain ⟨first,-,hrest⟩ := Option.bind_eq_some_iff.mp hkeys
        obtain ⟨rest,-,hnil⟩ := Option.bind_eq_some_iff.mp hrest
        cases hnil
  rw [translateModifierKeys_append hsymbols (by simpa using hc) (foldl_replace_singleton c)
    (.inr (List.cons_ne_nil _ _)),if_neg (List.cons_ne_nil _ _)]
  rw [pressed_chord xdo (fun word hword => ⟨(mem_modifierWords hword).1,(mem_modifierWords hword).2.1⟩)
    (List.cons_ne_nil _ _) hshell hplus,mapM_concat hkeys]
  have hliteral : (if modifierWords (symbols py modifiers) = [] then Shell.literalWord [c]
      else Shell.literal [c]) = decide (c ∉ Shell.special ∧
        (c = '~' → modifiers.filterMap (modifierKey py) ≠ [])) := by
    rw [Shell.literalWord,Shell.literal_singleton]
    by_cases hnil : modifierWords (symbols py modifiers) = []
    · rw [if_pos hnil,hempty.mp hnil,Bool.and_comm]
      simp [hhash]
    · have hsome : modifiers.filterMap (modifierKey py) ≠ [] := fun h => hnil (hempty.mpr h)
      simp [hnil,hsome]
  rw [hliteral]
  simp only [decide_eq_true_eq]

/-- The command for a chord, and when the keys that it presses are those that are meant. -/
theorem hotkey_presses_iff (xdo : Xdotool) (display : String) (modifiers : List String) {key : String}
    (hkey : IsKey py key) :
    press py (some (.str key)) = hotkey py [some (.str key)] ∧
      ∃ grammar arguments,
        hotkey py ((modifiers ++ [key]).map fun k => some (.str k)) = [grammar] ∧
          grammarToXdotool display grammar = .ok (some ("DISPLAY=".toList ++ display.toList ++
            " xdotool ".toList ++ arguments)) ∧
          (xdo.pressed arguments = some (chordMeant py modifiers key) ↔
            GetsThrough py xdo modifiers key) := by
  obtain ⟨grammar,hhotkey,hgrammar⟩ := hotkey_concat py modifiers key
  obtain ⟨hsymbols,hkeys⟩ := symbols_spec py xdo modifiers
  obtain ⟨htoken,hblank⟩ := keyToken_word py hkey
  refine ⟨press_eq_hotkey py key,grammar,_,hhotkey,grammarToXdotool_press display hgrammar ?_ ?_,?_⟩
  · exact fun h => htoken (List.append_eq_nil_iff.mp h).2
  · intro c hc
    obtain hc | hc := List.mem_append.mp hc
    · exact blank_symbol (hsymbols c hc)
    · exact hblank c hc
  · rw [keyToken]
    cases hlookup : keyToGrammar.lookup (py.lower key) with
    | some token =>
      refine iff_of_true (pressed_token py xdo modifiers hlookup) fun hnone => ?_
      rw [hlookup] at hnone
      cases hnone
    | none =>
      rw [IsKey,hlookup] at hkey
      obtain ⟨c,rfl,hc⟩ := hkey.resolve_left Bool.false_ne_true
      have hmeant : chordMeant py modifiers (String.singleton c) =
          modifiers.filterMap (modifierKey py) ++ [.char c] := by
        rw [chordMeant,keyMeant,hlookup]
        simp
      have hthrough : GetsThrough py xdo modifiers (String.singleton c) ↔ isModifier c = false ∧
          c ∉ Shell.special ∧ (c = '~' → modifiers.filterMap (modifierKey py) ≠ []) ∧
            xdo.keyOf [c] = some (.char c) := by
        refine ⟨fun h => h hlookup c rfl,fun h _ d hd => ?_⟩
        obtain rfl := String.singleton_inj.mp hd
        exact h
      have htext : ((none : Option String).getD (String.singleton c)).toList = [c] := by simp
      rw [htext,hmeant,hthrough]
      cases hmodifier : isModifier c with
      | true =>
        obtain ⟨name,hname⟩ := pressed_symbol py xdo modifiers hmodifier
        rw [hname]
        simp
      | false =>
        rw [pressed_character py xdo modifiers hmodifier hc]
        by_cases hpasses : c ∉ Shell.special ∧ (c = '~' → modifiers.filterMap (modifierKey py) ≠ [])
        · rw [if_pos hpasses]
          cases hkeyOf : xdo.keyOf [c] with
          | none => simp
          | some found =>
            rw [Option.map_some,Option.some.injEq,Option.some.injEq,List.append_cancel_left_eq,
              List.singleton_inj]
            exact ⟨fun h => ⟨rfl,hpasses.1,hpasses.2,h⟩,fun h => h.2.2.2⟩
        · rw [if_neg hpasses]
          exact iff_of_false (by simp) fun h => hpasses ⟨h.2.1,h.2.2.1⟩

end Grammar

def plainKeyOf (name : List Char) : Option Key :=
  match (modifierAliases ++ specialKeysMap.map fun entry => (entry.2,entry.2)).lookup
      (String.ofList name) with
  | some keysym => some (.named keysym)
  | none => match name with
    | [c] => if c.isAlphanum then some (.char c) else none
    | _ => none

def plainXdotool : Xdotool where
  keyOf := plainKeyOf
  aliases := by decide +kernel
  keysyms := by decide +kernel

/-- An interpreter for texts in lower case. -/
def lowerInterpreter : Interpreter ℚ Unit where
  literalEval _ := .error .other
  floatOfInt n := .ok n
  floatOfText _ := .error .valueError
  floatOfBytes _ := .error .valueError
  intOfText _ := .error .valueError
  intOfBytes _ := .error .valueError
  truncate _ := .error .other
  round _ := .error .other
  add x y := x + y
  mul x y := x * y
  div x y := x / y
  isZero x := x = 0
  str _ := .error .other
  formatInt _ := .error .other
  lower text := text

theorem hotkey_presses_iff_enter :
    press lowerInterpreter (some (.str "enter")) = hotkey lowerInterpreter [some (.str "enter")] ∧
      ∃ grammar arguments,
        hotkey lowerInterpreter ((["ctrl"] ++ ["enter"]).map fun k => some (.str k)) = [grammar] ∧
          grammarToXdotool ":0" grammar = .ok (some ("DISPLAY=".toList ++ ":0".toList ++
            " xdotool ".toList ++ arguments)) ∧
          (plainXdotool.pressed arguments = some (chordMeant lowerInterpreter ["ctrl"] "enter") ↔
            GetsThrough lowerInterpreter plainXdotool ["ctrl"] "enter") :=
  hotkey_presses_iff lowerInterpreter plainXdotool ":0" ["ctrl"] (.inl (by decide))

/-- A plus sign is pressed as the shift key. -/
theorem plus_presses_shift :
    IsKey lowerInterpreter "+" ∧ press lowerInterpreter (some (.str "+")) = ["press +"] ∧
      grammarToXdotool ":0" "press +" = .ok (some "DISPLAY=:0 xdotool key shift".toList) ∧
        plainXdotool.pressed "key shift".toList = some [.named "Shift_L"] ∧
          plainXdotool.pressed "key shift".toList ≠ some (chordMeant lowerInterpreter [] "+") := by
  refine ⟨.inr ⟨'+',rfl,by decide⟩,?_,?_,?_,?_⟩
  · decide
  · decide +kernel
  · decide +kernel
  · decide

end Cua
end DockyardRL
