import DockyardRL.Lib.Words
import DockyardRL.XToken.Canonical
import DockyardRL.Cua.Transpile

/-! Grammar commands as shell commands: xdotool for the mouse and the keyboard on Linux, and
osascript for typing on macOS. -/
namespace DockyardRL
namespace Cua

open Words

/-- `str.isspace` of one character. -/
def blank (c : Char) : Bool := decide (c.toNat ∈ XToken.whitespace)

/-- `text.split()`. -/
def parts (text : String) : List String := (split blank text.toList).map String.ofList

/-- `int(part)` of the decimal texts that the builder writes. -/
def readPart (part : String) : Option ℤ := readInt part.toList

/-- One action of an xdotool command line. -/
inductive XdoAction
  | getmouselocation
  | mousemove (x y : ℤ)
  | click (repeats : Option String) (button : ℕ)
  | mousedown
  | mouseup
  deriving DecidableEq

def XdoAction.text : XdoAction → String
  | .getmouselocation => "getmouselocation --shell"
  | .mousemove x y => s!"mousemove {x} {y}"
  | .click none button => s!"click {button}"
  | .click (some count) button => s!"click --repeat {count} {button}"
  | .mousedown => "mousedown 1"
  | .mouseup => "mouseup 1"

def isScroll (action : String) : Bool := action = "scroll_up" || action = "scroll_down"

def wheelButton (action : String) : ℕ := if action = "scroll_up" then 4 else 5

/-- What `here` is followed by, apart from scrolling. -/
def hereActions : List (String × List XdoAction) :=
  [("left",[.click none 1]),("right",[.click none 3]),("middle",[.click none 2]),
    ("double",[.click (some "2") 1]),("hold",[.mousedown]),("release",[.mouseup])]

def positionActions : List (String × List XdoAction) :=
  [("move",[]),("left",[.click none 1]),("right",[.click none 3]),("middle",[.click none 2]),
    ("double",[.click (some "2") 1])]

/-- The commands with `here`. -/
def hereToXdotool : List String → Option (List XdoAction)
  | [] => none
  | action :: rest =>
    if isScroll action then rest.head?.map fun count => [.click (some count) (wheelButton action)]
    else hereActions.lookup action

/-- The commands with a position. -/
def positionToXdotool (x y : ℤ) : List String → Except Raised (Option (List XdoAction))
  | [] => .ok (some [.mousemove x y])
  | action :: rest =>
    match positionActions.lookup action with
    | some actions => .ok (some (.mousemove x y :: actions))
    | none =>
      if action = "drag" then
        match rest with
        | x2 :: y2 :: _ =>
          match readPart x2, readPart y2 with
          | some x2, some y2 =>
            .ok (some [.mousemove x y,.mousedown,.mousemove x2 y2,.mouseup])
          | _, _ => .error .valueError
        | _ => .ok none
      else if isScroll action then
        .ok (some [.mousemove x y,.click (some (rest.head?.getD "5")) (wheelButton action)])
      else .ok none

def mouseToXdotool : List String → Except Raised (Option (List XdoAction))
  | [] => .error .other
  | first :: rest =>
    if first = "position" then .ok (some [.getmouselocation])
    else if first = "here" then .ok (hereToXdotool rest)
    else
      match readPart first, rest with
      | some x, y :: behind =>
        match readPart y with
        | some y => positionToXdotool x y behind
        | none => .ok none
      | _, _ =>
        if isScroll first then
          .ok (rest.head?.map fun count => [.click (some count) (wheelButton first)])
        else .ok none

/-- `_SPECIAL_KEYS_MAP`. -/
def specialKeysMap : List (String × String) :=
  [("\x7bEnter\x7d","Return"),("\x7bEsc\x7d","Escape"),("\x7bTab\x7d","Tab"),
    ("\x7bBackspace\x7d","BackSpace"),("\x7bBS\x7d","BackSpace"),("\x7bDelete\x7d","Delete"),
    ("\x7bDel\x7d","Delete"),("\x7bSpace\x7d","space"),("\x7bUp\x7d","Up"),("\x7bDown\x7d","Down"),
    ("\x7bLeft\x7d","Left"),("\x7bRight\x7d","Right"),("\x7bHome\x7d","Home"),("\x7bEnd\x7d","End"),
    ("\x7bPgUp\x7d","Prior"),("\x7bPgDn\x7d","Next")] ++
  (List.range' 1 12).map (fun i => ("\x7b" ++ s!"F{i}" ++ "\x7d",s!"F{i}")) ++
  [("\x7bLWin\x7d","Super_L"),("\x7bRWin\x7d","Super_R"),("\x7bLCtrl\x7d","Control_L"),
    ("\x7bRCtrl\x7d","Control_R"),("\x7bLAlt\x7d","Alt_L"),("\x7bRAlt\x7d","Alt_R"),
    ("\x7bLShift\x7d","Shift_L"),("\x7bRShift\x7d","Shift_R"),("\x7bInsert\x7d","Insert"),
    ("\x7bCapsLock\x7d","Caps_Lock"),("\x7bNumLock\x7d","Num_Lock"),
    ("\x7bScrollLock\x7d","Scroll_Lock"),("\x7bPrintScreen\x7d","Print"),("\x7bPause\x7d","Pause")]

/-- `text.replace(old, new)` of a nonempty text. -/
def replace (old new : String) (text : List Char) : List Char :=
  Text.replaceAll old.toList new.toList text

def modifierNames : List (Char × String) := [('^',"ctrl"),('+',"shift"),('!',"alt"),('#',"super")]

def isModifier (c : Char) : Bool := (modifierNames.lookup c).isSome

def translateModifierKeys (text : List Char) : List Char :=
  let modifiers := (text.takeWhile isModifier).filterMap fun c =>
    (modifierNames.lookup c).map String.toList
  let keyPart := specialKeysMap.foldl (fun key entry => replace entry.1 entry.2 key)
    (text.dropWhile isModifier)
  if !modifiers.isEmpty && !keyPart.isEmpty then join '+' (modifiers ++ [keyPart])
  else if !keyPart.isEmpty then keyPart
  else if !modifiers.isEmpty then join '+' modifiers
  else text

def escape (text : List Char) : List Char := replace "\"" "\\\"" (replace "\\" "\\\\" text)

/-- What follows `xdotool`. -/
def typeArguments (text : List Char) : List Char := "type \"".toList ++ escape text ++ ['"']

def keyboardToXdotool (command : List Char) : Option (List Char) :=
  match splitOnce blank (strip blank command) with
  | [action,text] =>
    if action = "type".toList then some (typeArguments text)
    else if action = "press".toList then some ("key ".toList ++ translateModifierKeys text)
    else none
  | _ => none

def mouseFirstTokens : List String := ["here","position","scroll_up","scroll_down"]

/-- `first.lstrip("-").isdigit()`. -/
def isNumber (first : List Char) : Bool :=
  let digits := first.dropWhile (· = '-')
  !digits.isEmpty && digits.all Char.isDigit

/-- What follows `xdotool` for a mouse command. -/
def mouseArguments (actions : List XdoAction) : List Char :=
  join ' ' (actions.map fun action => action.text.toList)

def isMouse (first : String) : Bool := first ∈ mouseFirstTokens || isNumber first.toList

/-- What `grammar_to_xdotool` writes behind `DISPLAY=... xdotool `. -/
def xdotoolArguments (grammar : String) : Except Raised (Option (List Char)) :=
  let command := strip blank grammar.toList
  match splitOnce blank command with
  | [] => .ok none
  | first :: _ =>
    if first = "type".toList ∨ first = "press".toList then .ok (keyboardToXdotool command)
    else if isMouse (String.ofList first) then
      (mouseToXdotool (parts grammar)).map fun actions => actions.map mouseArguments
    else .ok none

def grammarToXdotool (display grammar : String) : Except Raised (Option (List Char)) :=
  (xdotoolArguments grammar).map fun arguments => arguments.map fun arguments =>
    "DISPLAY=".toList ++ display.toList ++ " xdotool ".toList ++ arguments

/-- The typing of `_mac_parse_keyboard`. -/
def macType (text : List Char) : List Char :=
  "osascript -e 'tell application \"System Events\" to keystroke \"".toList ++
    replace "'" "'\"'\"'" (escape text) ++ "\"'".toList

/-- `grammar_to_macos` of a `type` command, which `_mac_parse_keyboard` turns into osascript. -/
def typeToMacos (grammar : String) : Option (List Char) :=
  match splitOnce blank (strip blank (strip blank grammar.toList)) with
  | [action,text] => if action = "type".toList then some (macType text) else none
  | _ => none

section Program

variable {F E : Type} (py : Interpreter F E) (sizes : Sizes)

/-- `pyautogui_to_xdotool`; commands without xdotool are left out. -/
def pyautoguiToXdotool (display : String) (calls : Option (List (Call E))) :
    Except Raised (List (List Char)) :=
  (pyautoguiToGrammar py sizes calls).bind fun commands =>
    (commands.mapM (grammarToXdotool display)).map fun shell => shell.filterMap id

end Program

end Cua
end DockyardRL
