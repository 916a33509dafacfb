import Mathlib.Data.List.Sort
import DockyardRL.Lib.Emitter

/-! The transpiler from pyautogui calls to the commands of the control-center grammar. Every
method of the builder is the list of commands it appends and the cursor it leaves behind. -/
namespace DockyardRL
namespace Cua

open Emitter

/-- What `ast.literal_eval` returns, over a type of floats; `seq` is a list or a tuple and
`other` a complex number, a set, a dictionary or `...`. -/
inductive PyValue (F : Type)
  | none
  | bool (b : Bool)
  | int (n : ℤ)
  | float (x : F)
  | str (s : String)
  | bytes (b : List UInt8)
  | seq (items : List (PyValue F))
  | other (truthy : Bool)

inductive Raised
  | typeError | valueError | overflowError | other
  deriving DecidableEq

/-- `literal_eval` fails with `ValueError` or `SyntaxError`, or with something else. -/
inductive LiteralError
  | malformed | other
  deriving DecidableEq

/-- A value, or `none` for the marker `_UNRESOLVED`. -/
abbrev Slot (F : Type) := Option (PyValue F)

/-- The interpreter: literals, the conversions `float`, `int` and `str`, and float arithmetic. -/
structure Interpreter (F E : Type) where
  literalEval : E → Except LiteralError (PyValue F)
  floatOfInt : ℤ → Except Raised F
  floatOfText : String → Except Raised F
  floatOfBytes : List UInt8 → Except Raised F
  intOfText : String → Except Raised ℤ
  intOfBytes : List UInt8 → Except Raised ℤ
  truncate : F → Except Raised ℤ
  round : F → Except Raised ℤ
  add : F → F → F
  mul : F → F → F
  div : F → F → F
  isZero : F → Bool
  str : PyValue F → Except Raised String
  formatInt : ℤ → Except Raised String
  lower : String → String

namespace PyValue

def isNone {F : Type} : PyValue F → Bool
  | .none => true
  | _ => false

end PyValue

section Conversions

variable {F E : Type} (py : Interpreter F E)

def intOfBool (b : Bool) : ℤ := if b then 1 else 0

/-- `bool(value)`; the marker is an object and true. -/
def truthy : Slot F → Bool
  | none => true
  | some .none => false
  | some (.bool b) => b
  | some (.int n) => n ≠ 0
  | some (.float x) => !py.isZero x
  | some (.str s) => s ≠ ""
  | some (.bytes b) => !b.isEmpty
  | some (.seq items) => !items.isEmpty
  | some (.other truthy) => truthy

/-- `float(value)`. -/
def toFloat : Slot F → Except Raised F
  | some (.bool b) => py.floatOfInt (intOfBool b)
  | some (.int n) => py.floatOfInt n
  | some (.float x) => .ok x
  | some (.str s) => py.floatOfText s
  | some (.bytes b) => py.floatOfBytes b
  | _ => .error .typeError

/-- `int(value)`. -/
def toInt : Slot F → Except Raised ℤ
  | some (.bool b) => .ok (intOfBool b)
  | some (.int n) => .ok n
  | some (.float x) => py.truncate x
  | some (.str s) => py.intOfText s
  | some (.bytes b) => py.intOfBytes b
  | _ => .error .typeError

/-- `str(value)`; the text of the marker is no name of a button. -/
def toText : Slot F → Except Raised String
  | none => .ok "<object object>"
  | some v => py.str v

end Conversions

/-- `_KEY_TO_GRAMMAR`. -/
def keyToGrammar : List (String × String) :=
  [("enter","\x7bEnter\x7d"),("return","\x7bEnter\x7d"),("\n","\x7bEnter\x7d"),("tab","\x7bTab\x7d"),
    ("esc","\x7bEsc\x7d"),("escape","\x7bEsc\x7d"),("backspace","\x7bBackspace\x7d"),
    ("delete","\x7bDelete\x7d"),("del","\x7bDelete\x7d"),("space","\x7bSpace\x7d"),
    (" ","\x7bSpace\x7d"),("up","\x7bUp\x7d"),("down","\x7bDown\x7d"),("left","\x7bLeft\x7d"),
    ("right","\x7bRight\x7d"),("home","\x7bHome\x7d"),("end","\x7bEnd\x7d"),
    ("pageup","\x7bPgUp\x7d"),("pgup","\x7bPgUp\x7d"),("pagedown","\x7bPgDn\x7d"),
    ("pgdn","\x7bPgDn\x7d"),("insert","\x7bInsert\x7d"),("capslock","\x7bCapsLock\x7d"),
    ("printscreen","\x7bPrintScreen\x7d"),("prtsc","\x7bPrintScreen\x7d"),
    ("pause","\x7bPause\x7d")] ++
  (List.range' 1 12).map (fun i => (s!"f{i}","\x7b" ++ s!"F{i}" ++ "\x7d")) ++
  [("ctrl","\x7bLCtrl\x7d"),("control","\x7bLCtrl\x7d"),("ctrlleft","\x7bLCtrl\x7d"),
    ("ctrlright","\x7bRCtrl\x7d"),("alt","\x7bLAlt\x7d"),("altleft","\x7bLAlt\x7d"),
    ("altright","\x7bRAlt\x7d"),("option","\x7bLAlt\x7d"),("shift","\x7bLShift\x7d"),
    ("shiftleft","\x7bLShift\x7d"),("shiftright","\x7bRShift\x7d"),("win","\x7bLWin\x7d"),
    ("winleft","\x7bLWin\x7d"),("winright","\x7bRWin\x7d"),("super","\x7bLWin\x7d"),
    ("command","\x7bLWin\x7d"),("cmd","\x7bLWin\x7d"),("meta","\x7bLWin\x7d")]

/-- `_MODIFIER_TO_SYMBOL`. -/
def modifierToSymbol : List (String × String) :=
  [("ctrl","^"),("control","^"),("ctrlleft","^"),("ctrlright","^"),("shift","+"),
    ("shiftleft","+"),("shiftright","+"),("alt","!"),("altleft","!"),("altright","!"),
    ("option","!"),("win","#"),("winleft","#"),("winright","#"),("super","#"),("command","#"),
    ("cmd","#"),("meta","#")]

abbrev Cursor := Option (ℤ × ℤ)

/-- The screen the coordinates are in and the desktop they are for. -/
structure Sizes where
  screen : Option (ℤ × ℤ)
  target : Option (ℤ × ℤ)

def Sizes.axes (sizes : Sizes) : Option ((ℤ × ℤ) × (ℤ × ℤ)) :=
  match sizes.screen, sizes.target with
  | some screen, some target =>
    if screen.1 ≠ 0 ∧ screen.2 ≠ 0 then some ((target.1,screen.1),(target.2,screen.2)) else none
  | _, _ => none

section Builder

variable {F E : Type} (py : Interpreter F E) (sizes : Sizes)

/-- One axis of `_scale`, before rounding. -/
def scaleAxis (axis : Option (ℤ × ℤ)) (x : F) : Except Raised F :=
  match axis with
  | none => .ok x
  | some (target,screen) => (py.floatOfInt target).bind fun t =>
    (py.floatOfInt screen).map fun s => py.div (py.mul x t) s

/-- `_scale`: the position is also the new cursor. -/
def scale (x y : Slot F) : Except Raised (ℤ × ℤ) :=
  (toFloat py x).bind fun fx => (toFloat py y).bind fun fy =>
    (scaleAxis py (sizes.axes.map Prod.fst) fx).bind fun sx =>
      (scaleAxis py (sizes.axes.map Prod.snd) fy).bind fun sy =>
        (py.round sx).bind fun xi => (py.round sy).map fun yi => (xi,yi)

/-- `x is not None and y is not None`. -/
def given (x y : Slot F) : Bool :=
  !(x.map PyValue.isNone == some true) && !(y.map PyValue.isNone == some true)

def pointed (x y : Slot F) (cursor : Cursor) (emission : Option (ℤ × ℤ) → List String) :
    Except Raised (List String × Cursor) :=
  if given x y then (scale py sizes x y).map fun p => (emission (some p),some p)
  else .ok (emission none,cursor)

def buttons : List (String × String) := [("left","left"),("right","right"),("middle","middle")]

/-- The commands of `_click`. -/
def clickCommands (button : String) (clicks : ℤ) : Option (ℤ × ℤ) → List String
  | none =>
    if 2 ≤ clicks then "here double" :: List.replicate (clicks - 2).toNat "here left"
    else ["here " ++ (buttons.lookup button).getD "left"]
  | some (x,y) =>
    if clicks ≤ 1 then [s!"{x} {y} " ++ (buttons.lookup button).getD "left"]
    else s!"{x} {y} double" :: List.replicate (clicks - 2).toNat "here left"

def click (x y : Slot F) (button : String) (clicks : ℤ) (cursor : Cursor) :
    Except Raised (List String × Cursor) :=
  pointed py sizes x y cursor (clickCommands button clicks)

def move (x y : Slot F) : Except Raised (List String × Cursor) :=
  (scale py sizes x y).map fun p => ([s!"{p.1} {p.2} move"],some p)

def dragTo (x y : Slot F) (cursor : Cursor) : Except Raised (List String × Cursor) :=
  (scale py sizes x y).map fun p => match cursor with
    | some start => ([s!"{start.1} {start.2} drag {p.1} {p.2}"],some p)
    | none => (["here hold",s!"{p.1} {p.2} move","here release"],some p)

/-- `self._cur[i] + float(offset)`. -/
def offsetFrom (start : ℤ) (offset : Slot F) : Except Raised F :=
  (toFloat py offset).bind fun f => (py.floatOfInt start).map fun s => py.add s f

def dragRel (dx dy : Slot F) (cursor : Cursor) : Except Raised (List String × Cursor) :=
  match cursor with
  | none => .ok ([],none)
  | some start => (offsetFrom py start.1 dx).bind fun x => (offsetFrom py start.2 dy).bind fun y =>
    dragTo py sizes (some (.float x)) (some (.float y)) cursor

/-- The commands of `_scroll`. -/
def scrollCommands (n : ℤ) (count : String) : Option (ℤ × ℤ) → List String
  | some (x,y) => [s!"{x} {y} " ++ (if 0 ≤ n then "scroll_up " else "scroll_down ") ++ count]
  | none => ["here " ++ (if 0 ≤ n then "scroll_up " else "scroll_down ") ++ count]

/-- `_scroll`; only a `TypeError` or a `ValueError` of `int` is caught. -/
def scroll (clicks x y : Slot F) (cursor : Cursor) : Except Raised (List String × Cursor) :=
  match toInt py clicks with
  | .error .typeError => .ok ([],cursor)
  | .error .valueError => .ok ([],cursor)
  | .error e => .error e
  | .ok n =>
    let format := py.formatInt (if n = 0 then 1 else n.natAbs)
    if given x y then
      (scale py sizes x y).bind fun p =>
        format.map fun count => (scrollCommands n count (some p),some p)
    else format.map fun count => (scrollCommands n count none,cursor)

def holdCommands (command : String) : Option (ℤ × ℤ) → List String
  | some p => [s!"{p.1} {p.2} move",command]
  | none => [command]

/-- `mouseDown` and `mouseUp`. -/
def hold (x y : Slot F) (command : String) (cursor : Cursor) :
    Except Raised (List String × Cursor) :=
  pointed py sizes x y cursor (holdCommands command)

def type : Slot F → List String
  | some (.str text) => ["type " ++ text]
  | _ => []

def keyToken (key : String) : String := (keyToGrammar.lookup (py.lower key)).getD key

/-- `_press` of one key. -/
def pressKey : Slot F → List String
  | some (.str key) => ["press " ++ keyToken py key]
  | _ => []

def press : Slot F → List String
  | some (.seq keys) => keys.flatMap fun key => pressKey py (some key)
  | key => pressKey py key

def literalKeys (keys : List (Slot F)) : List String :=
  keys.filterMap fun
    | some (.str key) => some key
    | _ => none

def hotkey (keys : List (Slot F)) : List String :=
  match (literalKeys keys).getLast? with
  | none => []
  | some last =>
    let mods := (literalKeys keys).dropLast.map fun m =>
      (modifierToSymbol.lookup (py.lower m)).getD ""
    ["press " ++ String.join mods ++ keyToken py last]

end Builder

/-- What a call does; calls that differ in a button or a command share an action. -/
inductive Action
  | click
  | fixedClick (button : String) (clicks : ℤ)
  | move
  | dragTo
  | drag
  | scroll
  | hold (command : String)
  | write
  | press
  | hotkey
  | pause
  deriving DecidableEq

/-- The names `dispatch` knows. -/
def actions : List (String × Action) :=
  [("click",.click),("leftClick",.click),("rightClick",.fixedClick "right" 1),
    ("middleClick",.fixedClick "middle" 1),("doubleClick",.fixedClick "left" 2),
    ("tripleClick",.fixedClick "left" 3),("moveTo",.move),("move",.move),("dragTo",.dragTo),
    ("drag",.drag),("scroll",.scroll),("vscroll",.scroll),("mouseDown",.hold "here hold"),
    ("mouseUp",.hold "here release"),("write",.write),("typewrite",.write),("press",.press),
    ("hotkey",.hotkey),("sleep",.pause),("PAUSE",.pause)]

/-- Name, positional and keyword arguments of a call; later keywords stand first. -/
structure CallInfo (F : Type) where
  name : String
  args : List (Slot F)
  kwargs : List (String × Slot F)

def CallInfo.arg {F : Type} (info : CallInfo F) (index : ℕ) (name : String)
    (default : PyValue F) : Slot F :=
  match info.args[index]? with
  | some (some v) => some v
  | _ => (info.kwargs.lookup name).getD (some default)

section Calls

variable {F E : Type} (py : Interpreter F E) (sizes : Sizes)

/-- The branches of `dispatch`. -/
def perform (action : Action) (info : CallInfo F) (cursor : Cursor) :
    Except Raised (List String × Cursor) :=
  match action with
  | .click =>
    let clicks := info.arg 2 "clicks" (.int 1)
    (toText py (info.arg 4 "button" (.str "left"))).bind fun button =>
      (toInt py (if truthy py clicks then clicks else some (.int 1))).bind fun n =>
        click py sizes (info.arg 0 "x" .none) (info.arg 1 "y" .none) button n cursor
  | .fixedClick button n =>
    click py sizes (info.arg 0 "x" .none) (info.arg 1 "y" .none) button n cursor
  | .move => move py sizes (info.arg 0 "x" .none) (info.arg 1 "y" .none)
  | .dragTo => dragTo py sizes (info.arg 0 "x" .none) (info.arg 1 "y" .none) cursor
  | .drag => dragRel py sizes (info.arg 0 "xOffset" .none) (info.arg 1 "yOffset" .none) cursor
  | .scroll => scroll py sizes (info.arg 0 "clicks" (.int 0)) (info.arg 1 "x" .none)
      (info.arg 2 "y" .none) cursor
  | .hold command => hold py sizes (info.arg 0 "x" .none) (info.arg 1 "y" .none) command cursor
  | .write => .ok (type (info.arg 0 "message" .none),cursor)
  | .press => .ok (press py (info.arg 0 "keys" .none),cursor)
  | .hotkey => .ok (hotkey py info.args,cursor)
  | .pause => .ok ([],cursor)

/-- `dispatch`; an unknown name is skipped. -/
def dispatch (info : CallInfo F) (cursor : Cursor) : Except Raised (List String × Cursor) :=
  match actions.lookup info.name with
  | some action => perform py sizes action info cursor
  | none => .ok ([],cursor)

inductive Argument (E : Type)
  | plain (e : E)
  | starred (e : E)

/-- A call node: where it stands, the name it calls if it calls one, and its arguments. -/
structure Call (E : Type) where
  line : ℕ
  column : ℕ
  func : Option String
  args : List (Argument E)
  keywords : List (Option String × E)

/-- `literal_eval`, with the marker for what is no literal. -/
def evaluate (e : E) : Except Raised (Slot F) :=
  match py.literalEval e with
  | .ok v => .ok (some v)
  | .error .malformed => .ok none
  | .error .other => .error .other

def positionals : List (Argument E) → Except Raised (Option (List (Slot F)))
  | [] => .ok (some [])
  | .starred _ :: _ => .ok none
  | .plain e :: rest => (evaluate py e).bind fun v =>
    (positionals rest).map fun vs => vs.map (v :: ·)

def keywordArgs (found : List (String × Slot F)) :
    List (Option String × E) → Except Raised (List (String × Slot F))
  | [] => .ok found
  | (none,_) :: rest => keywordArgs found rest
  | (some name,e) :: rest => (evaluate py e).bind fun v => keywordArgs ((name,v) :: found) rest

def callInfo (call : Call E) : Except Raised (Option (CallInfo F)) :=
  match call.func with
  | none => .ok none
  | some name => (positionals py call.args).bind fun
    | none => .ok (some ⟨name,[none],[]⟩)
    | some args => (keywordArgs py [] call.keywords).map fun kwargs => some ⟨name,args,kwargs⟩

def step (cursor : Cursor) (call : Call E) : Except Raised (List String × Cursor) :=
  (callInfo py call).bind fun
    | none => .ok ([],cursor)
    | some info => dispatch py sizes info cursor

def before (a b : Call E) : Prop := a.line < b.line ∨ (a.line = b.line ∧ a.column ≤ b.column)

instance (a b : Call E) : Decidable (before a b) := inferInstanceAs (Decidable (_ ∨ _))

def sortCalls (calls : List (Call E)) : List (Call E) := calls.insertionSort before

/-- `pyautogui_to_grammar` of the calls that `ast.walk` finds; `none` is code that does not parse. -/
def pyautoguiToGrammar (calls : Option (List (Call E))) : Except Raised (List String) :=
  match calls with
  | none => .ok []
  | some calls => (emit (step py sizes) none (sortCalls calls)).map fun r => r.1.flatten

end Calls

end Cua
end DockyardRL
