import DockyardRL.Cua.Scaling

/-! What a program of pointer calls means, and what its commands do. -/
namespace DockyardRL
namespace Cua

open Emitter Fallible Words

/-- A button going down or up; 1 is the left, 2 the middle and 3 the right button, 4 and 5 are
one notch of the wheel. -/
structure Event where
  position : ℤ × ℤ
  button : ℕ
  down : Bool
  deriving DecidableEq

structure Pointer where
  position : ℤ × ℤ
  events : List Event
  deriving DecidableEq

namespace Pointer

def move (s : Pointer) (p : ℤ × ℤ) : Pointer := { s with position := p }

def press (s : Pointer) (button : ℕ) : Pointer :=
  { s with events := s.events ++ [⟨s.position,button,true⟩] }

def release (s : Pointer) (button : ℕ) : Pointer :=
  { s with events := s.events ++ [⟨s.position,button,false⟩] }

def clicks (s : Pointer) (pressed : List ℕ) : Pointer :=
  pressed.foldl (fun s button => (s.press button).release button) s

def drag (s : Pointer) (p : ℤ × ℤ) : Pointer := ((s.press 1).move p).release 1

end Pointer

/-- What xdotool does to the pointer; a count that is no number fails. -/
def XdoAction.run (s : Pointer) : XdoAction → Pointer
  | .getmouselocation => s
  | .mousemove x y => s.move (x,y)
  | .click none button => s.clicks [button]
  | .click (some count) button =>
    match readPart count with
    | some n => s.clicks (List.replicate n.toNat button)
    | none => s
  | .mousedown => s.press 1
  | .mouseup => s.release 1

/-- The mouse actions of a grammar command. -/
def mouseActions (grammar : String) : List XdoAction :=
  match parts grammar with
  | [] => []
  | first :: rest =>
    if isMouse first then
      match mouseToXdotool (first :: rest) with
      | .ok (some actions) => actions
      | _ => []
    else []

def runCommand (s : Pointer) (grammar : String) : Pointer :=
  (mouseActions grammar).foldl XdoAction.run s

abbrev Place := Option ℤ × Option ℤ

/-- The calls of pyautogui that act on the pointer. -/
inductive PointerCall
  | moveTo (place : Place)
  | move (offset : Place)
  | click (place : Place) (clicks : ℤ) (button : ℕ)
  | dragTo (place : Place)
  | drag (offset : Place)
  | mouseDown (place : Place)
  | mouseUp (place : Place)
  | scroll (place : Place) (notches : ℤ)
  deriving DecidableEq

/-- Where a call goes from a position. -/
def PointerCall.target (p : ℤ × ℤ) : PointerCall → ℤ × ℤ
  | .move offset => (p.1 + offset.1.getD 0,p.2 + offset.2.getD 0)
  | .drag offset => (p.1 + offset.1.getD 0,p.2 + offset.2.getD 0)
  | .moveTo place => (place.1.getD p.1,place.2.getD p.2)
  | .click place _ _ => (place.1.getD p.1,place.2.getD p.2)
  | .dragTo place => (place.1.getD p.1,place.2.getD p.2)
  | .mouseDown place => (place.1.getD p.1,place.2.getD p.2)
  | .mouseUp place => (place.1.getD p.1,place.2.getD p.2)
  | .scroll place _ => (place.1.getD p.1,place.2.getD p.2)

def PointerCall.notches : PointerCall → Option ℤ
  | .scroll _ n => some n
  | _ => none

/-- What a call does to the pointer. -/
def PointerCall.act (s : Pointer) (call : PointerCall) : Pointer :=
  let p := call.target s.position
  match call with
  | .moveTo _ => s.move p
  | .move _ => s.move p
  | .click _ clicks button => (s.move p).clicks (List.replicate clicks.toNat button)
  | .dragTo _ => s.drag p
  | .drag _ => s.drag p
  | .mouseDown _ => (s.move p).press 1
  | .mouseUp _ => (s.move p).release 1
  | .scroll _ notches =>
    (s.move p).clicks (List.replicate notches.natAbs (if 0 ≤ notches then 4 else 5))

section Meaning

variable {F E : Type} (py : Interpreter F E)

def coordinate : Slot F → Option (Option ℤ)
  | some .none => some none
  | some (.int n) => some (some n)
  | _ => none

def place (x y : Slot F) : Option Place :=
  (coordinate x).bind fun a => (coordinate y).map fun b => (a,b)

def integer : Slot F → Option ℤ
  | some (.int n) => some n
  | _ => none

def buttonNumbers : List (String × ℕ) :=
  [("left",1),("middle",2),("right",3),("primary",1),("secondary",3)]

def button : Slot F → Option ℕ
  | some (.str name) => buttonNumbers.lookup name
  | _ => none

/-- The pointer call that a call of pyautogui with literal arguments is. -/
def pointerCall (info : CallInfo F) : Option PointerCall :=
  let position := place (info.arg 0 "x" .none) (info.arg 1 "y" .none)
  let offset := place (info.arg 0 "xOffset" .none) (info.arg 1 "yOffset" .none)
  match info.name with
  | "moveTo" => position.map .moveTo
  | "move" => offset.map .move
  | "click" => position.bind fun p => (integer (info.arg 2 "clicks" (.int 1))).bind fun n =>
      (button (info.arg 4 "button" (.str "left"))).map fun b => .click p n b
  | "leftClick" => position.map fun p => .click p 1 1
  | "middleClick" => position.map fun p => .click p 1 2
  | "rightClick" => position.map fun p => .click p 1 3
  | "doubleClick" => position.map fun p => .click p 2 1
  | "tripleClick" => position.map fun p => .click p 3 1
  | "dragTo" => position.map .dragTo
  | "drag" => offset.map .drag
  | "mouseDown" => position.map .mouseDown
  | "mouseUp" => position.map .mouseUp
  | "scroll" => (place (info.arg 1 "x" .none) (info.arg 2 "y" .none)).bind fun p =>
      (integer (info.arg 0 "clicks" .none)).map fun n => .scroll p n
  | "vscroll" => (place (info.arg 1 "x" .none) (info.arg 2 "y" .none)).bind fun p =>
      (integer (info.arg 0 "clicks" .none)).map fun n => .scroll p n
  | _ => none

def pointerCallOf (call : Call E) : Option PointerCall :=
  match callInfo py call with
  | .ok (some info) => pointerCall info
  | _ => none

def meaning (s : Pointer) (call : Call E) : Pointer :=
  match pointerCallOf py call with
  | some m => m.act s
  | none => s

/-- Counts are written in decimal. -/
def WritesDecimals : Prop := ∀ n t, py.formatInt n = .ok t → t = toString n

/-- `round(float(v))` gives a number. -/
def Lands (v : Slot F) (n : ℤ) : Prop := (toFloat py v).bind py.round = .ok n

def LandsAt (x y : Slot F) (p : ℤ × ℤ) : Prop := Lands py x p.1 ∧ Lands py y p.2

/-- An action that stays at the cursor unless both coordinates are given. -/
def Placed (p target : ℤ × ℤ) (x y : Slot F) : Prop :=
  if given x y then LandsAt py x y target else target = p

/-- The button of `_click`. -/
def clickedButton (text : String) : ℕ :=
  (buttonNumbers.lookup ((buttons.lookup text).getD "left")).getD 1

/-- `_click` clicks any button once, and the left one more than once. -/
def ClickedAs (text : String) (n : ℤ) : PointerCall → Prop
  | .click _ clicks button =>
    (n ≤ 1 ∧ clicks = 1 ∧ button = clickedButton text) ∨ (2 ≤ n ∧ clicks = n ∧ button = 1)
  | _ => False

/-- When an action does what the call means, with the cursor and the pointer where they are. -/
def FineAction (cursor : Cursor) (p : ℤ × ℤ) (info : CallInfo F) (m : PointerCall) :
    Action → Prop
  | .click => Placed py p (m.target p) (info.arg 0 "x" .none) (info.arg 1 "y" .none) ∧
      ∃ text n, toText py (info.arg 4 "button" (.str "left")) = .ok text ∧
        toInt py (if truthy py (info.arg 2 "clicks" (.int 1)) then
          info.arg 2 "clicks" (.int 1) else some (.int 1)) = .ok n ∧ ClickedAs text n m
  | .move => LandsAt py (info.arg 0 "x" .none) (info.arg 1 "y" .none) (m.target p)
  | .dragTo => LandsAt py (info.arg 0 "x" .none) (info.arg 1 "y" .none) (m.target p)
  | .drag => ∃ start, cursor = some start ∧
      (offsetFrom py start.1 (info.arg 0 "xOffset" .none)).bind py.round = .ok (m.target p).1 ∧
      (offsetFrom py start.2 (info.arg 1 "yOffset" .none)).bind py.round = .ok (m.target p).2
  | .scroll => Placed py p (m.target p) (info.arg 1 "x" .none) (info.arg 2 "y" .none) ∧
      ∃ n, m.notches = some n ∧ n ≠ 0 ∧ ∃ count, py.formatInt n.natAbs = .ok count
  | _ => Placed py p (m.target p) (info.arg 0 "x" .none) (info.arg 1 "y" .none)

/-- When a call of the program does what it means. -/
def Fine (cursor : Cursor) (p : ℤ × ℤ) (call : Call E) : Prop :=
  ∀ action info m, actionOf py call = .ok (some (action,info)) → pointerCall info = some m →
    FineAction py cursor p info m action

end Meaning

namespace Pointer

@[simp] theorem move_position (s : Pointer) (p : ℤ × ℤ) : (s.move p).position = p := rfl
@[simp] theorem move_events (s : Pointer) (p : ℤ × ℤ) : (s.move p).events = s.events := rfl
@[simp] theorem move_self (s : Pointer) : s.move s.position = s := rfl

theorem clicks_append (s : Pointer) (as bs : List ℕ) : s.clicks (as ++ bs) = (s.clicks as).clicks bs :=
  List.foldl_append

@[simp] theorem clicks_nil (s : Pointer) : s.clicks [] = s := rfl

theorem clicks_cons (s : Pointer) (a : ℕ) (as : List ℕ) :
    s.clicks (a :: as) = ((s.press a).release a).clicks as := rfl

@[simp] theorem clicks_position (s : Pointer) (as : List ℕ) : (s.clicks as).position = s.position := by
  induction as generalizing s with
  | nil => rfl
  | cons a as ih =>
    rw [clicks_cons,ih]
    rfl

theorem clicks_events (s : Pointer) (as : List ℕ) : (s.clicks as).events =
    s.events ++ as.flatMap fun a => [⟨s.position,a,true⟩,⟨s.position,a,false⟩] := by
  induction as generalizing s with
  | nil => simp
  | cons a as ih =>
    rw [clicks_cons,ih]
    simp [press,release]

theorem flatMap_click_inj {p : ℤ × ℤ} {as bs : List ℕ}
    (h : (as.flatMap fun a => [(⟨p,a,true⟩ : Event),⟨p,a,false⟩]) =
      bs.flatMap fun a => [⟨p,a,true⟩,⟨p,a,false⟩]) : as = bs := by
  induction as generalizing bs with
  | nil =>
    cases bs with
    | nil => rfl
    | cons b bs => simp at h
  | cons a as ih =>
    cases bs with
    | nil => simp at h
    | cons b bs =>
      simp only [List.flatMap_cons,List.cons_append,List.nil_append,List.cons.injEq,Event.mk.injEq] at h
      obtain ⟨⟨-,rfl,-⟩,-,h⟩ := h
      rw [ih h]

theorem clicks_inj {s : Pointer} {p q : ℤ × ℤ} {as bs : List ℕ} :
    (s.move p).clicks as = (s.move q).clicks bs ↔ p = q ∧ as = bs := by
  constructor
  · intro h
    have hp : p = q := by simpa using congrArg position h
    subst hp
    refine ⟨rfl,?_⟩
    have hevents := congrArg events h
    rw [clicks_events,clicks_events,move_events] at hevents
    exact flatMap_click_inj (List.append_cancel_left hevents)
  · rintro ⟨rfl,rfl⟩
    rfl

theorem drag_inj {s : Pointer} {p q : ℤ × ℤ} : s.drag p = s.drag q ↔ p = q :=
  ⟨fun h => congrArg position h,fun h => h ▸ rfl⟩

theorem move_inj {s : Pointer} {p q : ℤ × ℤ} : s.move p = s.move q ↔ p = q :=
  ⟨fun h => congrArg position h,fun h => h ▸ rfl⟩

theorem press_inj {s : Pointer} {p q : ℤ × ℤ} {b : ℕ} :
    (s.move p).press b = (s.move q).press b ↔ p = q :=
  ⟨fun h => congrArg position h,fun h => h ▸ rfl⟩

theorem release_inj {s : Pointer} {p q : ℤ × ℤ} {b : ℕ} :
    (s.move p).release b = (s.move q).release b ↔ p = q :=
  ⟨fun h => congrArg position h,fun h => h ▸ rfl⟩

end Pointer

theorem toString_ne_of_readPart {text : String} (h : readPart text = none) (x : ℤ) :
    toString x ≠ text := by
  rintro rfl
  rw [readPart_toString] at h
  cases h

theorem mouseActions_position (x y : ℤ) {rest : List String} (hrest : ∀ p ∈ rest, IsPart p)
    {acts : List XdoAction} (hacts : positionToXdotool x y rest = .ok (some acts)) :
    mouseActions (joinParts (toString x :: toString y :: rest)) = acts := by
  have hparts : ∀ p ∈ toString x :: toString y :: rest, IsPart p :=
    List.forall_mem_cons.mpr ⟨isPart_toString x,List.forall_mem_cons.mpr ⟨isPart_toString y,hrest⟩⟩
  have hposition : toString x ≠ "position" := toString_ne_of_readPart (by decide) x
  have hhere : toString x ≠ "here" := toString_ne_of_readPart (by decide) x
  have hmouse : mouseToXdotool (toString x :: toString y :: rest) = .ok (some acts) := by
    dsimp only [mouseToXdotool]
    rw [if_neg hposition,if_neg hhere,readPart_toString]
    dsimp only
    rw [readPart_toString]
    exact hacts
  rw [mouseActions,parts_joinParts hparts]
  dsimp only
  rw [if_pos (isMouse_toString x),hmouse]

theorem runCommand_act (s : Pointer) (x y : ℤ) {action : String} (haction : IsPart action)
    {acts : List XdoAction} (hacts : positionActions.lookup action = some acts) :
    runCommand s (toString x ++ " " ++ toString y ++ " " ++ action) =
      acts.foldl XdoAction.run (s.move (x,y)) := by
  have htext : toString x ++ " " ++ toString y ++ " " ++ action =
      joinParts [toString x,toString y,action] := by
    simp only [joinParts_cons_cons,joinParts_singleton,String.append_assoc]
  have hposition : positionToXdotool x y [action] = .ok (some (.mousemove x y :: acts)) := by
    dsimp only [positionToXdotool]
    rw [hacts]
  rw [runCommand,htext,mouseActions_position x y (by simpa using haction) hposition]
  rfl

theorem runCommand_suffix (s : Pointer) (x y : ℤ) {action suffix : String} (haction : IsPart action)
    {acts : List XdoAction} (hacts : positionActions.lookup action = some acts)
    (hsuffix : suffix = " " ++ action) :
    runCommand s (toString x ++ " " ++ toString y ++ suffix) =
      acts.foldl XdoAction.run (s.move (x,y)) := by
  rw [← runCommand_act s x y haction hacts,hsuffix]
  simp only [String.append_assoc]

theorem runCommand_move (s : Pointer) (p : ℤ × ℤ) : runCommand s s!"{p.1} {p.2} move" = s.move p :=
  @runCommand_suffix s p.1 p.2 "move" " move" (by decide) [] rfl rfl

theorem runCommand_drag (s : Pointer) (p q : ℤ × ℤ) :
    runCommand s (dragCommand p q) = (s.move p).drag q := by
  have hposition : positionToXdotool p.1 p.2 ["drag",toString q.1,toString q.2] =
      .ok (some [.mousemove p.1 p.2,.mousedown,.mousemove q.1 q.2,.mouseup]) := by
    have hdrag : positionActions.lookup "drag" = none := by decide
    rw [positionToXdotool,hdrag]
    dsimp only
    rw [if_pos rfl,readPart_toString,readPart_toString]
  rw [runCommand,dragCommand_eq,mouseActions_position p.1 p.2 (isPart_drag q) hposition]
  rfl

theorem runCommand_hereLeft (s : Pointer) : runCommand s "here left" = s.clicks [1] := by
  have hacts : mouseActions "here left" = [.click none 1] := by decide
  rw [runCommand,hacts]
  rfl

theorem runCommand_hereDouble (s : Pointer) : runCommand s "here double" = s.clicks [1,1] := by
  have hacts : mouseActions "here double" = [.click (some "2") 1] := by decide
  have htwo : readPart "2" = some 2 := by decide
  rw [runCommand,hacts,List.foldl_cons,XdoAction.run,htwo]
  rfl

theorem runCommand_hold (s : Pointer) : runCommand s "here hold" = s.press 1 := by
  have hacts : mouseActions "here hold" = [.mousedown] := by decide
  rw [runCommand,hacts]
  rfl

theorem runCommand_release (s : Pointer) : runCommand s "here release" = s.release 1 := by
  have hacts : mouseActions "here release" = [.mouseup] := by decide
  rw [runCommand,hacts]
  rfl

theorem foldl_hereLeft (s : Pointer) (n : ℕ) :
    (List.replicate n "here left").foldl runCommand s = s.clicks (List.replicate n 1) := by
  induction n generalizing s with
  | zero => rfl
  | succ n ih =>
    rw [List.replicate_succ,List.foldl_cons,runCommand_hereLeft,ih,List.replicate_succ]
    rfl

/-- The clicks of `_click`. -/
def clickedButtons (text : String) (n : ℤ) : List ℕ :=
  if n ≤ 1 then [clickedButton text] else List.replicate n.toNat 1

theorem clickedAs_iff (text : String) (n : ℤ) (place : Place) (clicks : ℤ) (button : ℕ) :
    ClickedAs text n (.click place clicks button) ↔
      clickedButtons text n = List.replicate clicks.toNat button := by
  rw [ClickedAs,clickedButtons]
  by_cases hn : n ≤ 1
  · rw [if_pos hn]
    constructor
    · rintro (⟨-,rfl,rfl⟩ | ⟨htwo,-,-⟩)
      · rfl
      · omega
    · intro h
      have hlen := congrArg List.length h
      rw [List.length_singleton,List.length_replicate] at hlen
      rw [← hlen] at h
      exact .inl ⟨hn,by omega,(List.cons.inj h).1.symm⟩
  · rw [if_neg hn]
    constructor
    · rintro (⟨hone,-,-⟩ | ⟨-,rfl,rfl⟩)
      · omega
      · rfl
    · intro h
      have hlen := congrArg List.length h
      rw [List.length_replicate,List.length_replicate] at hlen
      have hmem : 1 ∈ List.replicate clicks.toNat button :=
        h ▸ List.mem_replicate.mpr ⟨by omega,rfl⟩
      exact .inr ⟨by omega,by omega,(List.mem_replicate.mp hmem).2.symm⟩

theorem clickedButton_spec (text : String) :
    ∃ name, (buttons.lookup text).getD "left" = name ∧ IsPart name ∧
      positionActions.lookup name = some [.click none (clickedButton text)] ∧
      mouseActions ("here " ++ name) = [.click none (clickedButton text)] := by
  have hmem := mem_buttons text
  rw [List.mem_cons,List.mem_cons,List.mem_singleton] at hmem
  rw [clickedButton]
  rcases hmem with h | h | h
  · rw [h]
    exact ⟨"left",rfl,by decide,by decide,by decide⟩
  · rw [h]
    exact ⟨"right",rfl,by decide,by decide,by decide⟩
  · rw [h]
    exact ⟨"middle",rfl,by decide,by decide,by decide⟩

theorem clicks_two_append (n : ℤ) (hn : 2 ≤ n) :
    [1,1] ++ List.replicate (n - 2).toNat 1 = List.replicate n.toNat 1 := by
  rw [show ([1,1] : List ℕ) = List.replicate 2 1 from rfl,List.replicate_append_replicate]
  congr 1
  omega

theorem foldl_clickCommands (s : Pointer) (text : String) (n : ℤ) (p : Option (ℤ × ℤ)) :
    (clickCommands text n p).foldl runCommand s =
      (s.move (p.getD s.position)).clicks (clickedButtons text n) := by
  obtain ⟨name,hname,hpart,hposition,hhere⟩ := clickedButton_spec text
  cases p with
  | none =>
    rw [Option.getD_none,Pointer.move_self,clickCommands,clickedButtons,hname]
    by_cases hn : 2 ≤ n
    · rw [if_pos hn,if_neg (by omega),List.foldl_cons,runCommand_hereDouble,foldl_hereLeft]
      rw [← Pointer.clicks_append,clicks_two_append n hn]
    · rw [if_neg hn,if_pos (by omega),List.foldl_cons,List.foldl_nil,runCommand,hhere]
      rfl
  | some p =>
    have hone := runCommand_act s p.1 p.2 hpart hposition
    have htwo := @runCommand_suffix s p.1 p.2 "double" " double" (by decide)
      [.click (some "2") 1] rfl rfl
    have hread : readPart "2" = some 2 := by decide
    rw [Option.getD_some,clickCommands,clickedButtons,hname]
    by_cases hn : n ≤ 1
    · rw [if_pos hn,if_pos hn]
      exact hone
    · rw [if_neg hn,if_neg hn,List.foldl_cons,foldl_hereLeft]
      have hdouble : runCommand s s!"{p.1} {p.2} double" = (s.move p).clicks [1,1] := by
        refine htwo.trans ?_
        rw [List.foldl_cons,XdoAction.run,hread]
        rfl
      rw [hdouble,← Pointer.clicks_append,clicks_two_append n (by omega)]

theorem foldl_holdCommands_hold (s : Pointer) (p : Option (ℤ × ℤ)) :
    (holdCommands "here hold" p).foldl runCommand s = (s.move (p.getD s.position)).press 1 := by
  cases p with
  | none => exact runCommand_hold s
  | some p =>
    rw [holdCommands,List.foldl_cons,runCommand_move]
    exact runCommand_hold (s.move p)

theorem foldl_holdCommands_release (s : Pointer) (p : Option (ℤ × ℤ)) :
    (holdCommands "here release" p).foldl runCommand s = (s.move (p.getD s.position)).release 1 := by
  cases p with
  | none => exact runCommand_release s
  | some p =>
    rw [holdCommands,List.foldl_cons,runCommand_move]
    exact runCommand_release (s.move p)

theorem foldl_scrollCommands (s : Pointer) (n : ℤ) (p : Option (ℤ × ℤ)) {count : String} {c : ℤ}
    (hcount : IsPart count) (hread : readPart count = some c) :
    (scrollCommands n count p).foldl runCommand s =
      (s.move (p.getD s.position)).clicks (List.replicate c.toNat (if 0 ≤ n then 4 else 5)) := by
  have hdirection : ∃ action, IsPart action ∧ isScroll action = true ∧
      wheelButton action = (if 0 ≤ n then 4 else 5) ∧ positionActions.lookup action = none ∧
      action ≠ "drag" ∧ (if 0 ≤ n then "scroll_up " else "scroll_down ") = action ++ " " := by
    split_ifs
    · exact ⟨"scroll_up",by decide,by decide,by decide,by decide,by decide,rfl⟩
    · exact ⟨"scroll_down",by decide,by decide,by decide,by decide,by decide,rfl⟩
  obtain ⟨action,hpart,hscroll,hwheel,hlookup,hdrag,htext⟩ := hdirection
  have hclick : ∀ s : Pointer, XdoAction.run s (.click (some count) (wheelButton action)) =
      s.clicks (List.replicate c.toNat (if 0 ≤ n then 4 else 5)) := fun s => by
    rw [XdoAction.run,hread,hwheel]
  cases p with
  | none =>
    have hparts : ∀ p ∈ ["here",action,count], IsPart p := by
      simp only [List.forall_mem_cons]
      exact ⟨by decide,hpart,hcount,by simp⟩
    have hcommand : "here " ++ (action ++ " ") ++ count = joinParts ["here",action,count] := by
      rw [joinParts_cons_cons,joinParts_cons_cons,joinParts_singleton]
      rw [show ("here " : String) = "here" ++ " " from rfl]
      simp only [String.append_assoc]
    have hacts : mouseActions (joinParts ["here",action,count]) =
        [.click (some count) (wheelButton action)] := by
      rw [mouseActions,parts_joinParts hparts]
      dsimp only [mouseToXdotool,hereToXdotool]
      rw [if_pos (by decide),if_neg (by decide),if_pos rfl,if_pos hscroll]
      rfl
    rw [scrollCommands,htext,hcommand,List.foldl_cons,runCommand,hacts]
    exact hclick s
  | some p =>
    have hposition : positionToXdotool p.1 p.2 [action,count] =
        .ok (some [.mousemove p.1 p.2,.click (some count) (wheelButton action)]) := by
      dsimp only [positionToXdotool]
      rw [hlookup]
      dsimp only
      rw [if_neg hdrag,if_pos hscroll]
      rfl
    have hcommand : s!"{p.1} {p.2} " ++ (action ++ " ") ++ count =
        joinParts [toString p.1,toString p.2,action,count] := by
      rw [joinParts_cons_cons,joinParts_cons_cons,joinParts_cons_cons,joinParts_singleton]
      simp only [String.append_assoc]
      rfl
    rw [scrollCommands,htext,hcommand,List.foldl_cons,runCommand]
    rw [mouseActions_position p.1 p.2 (by simp [hpart,hcount]) hposition]
    exact hclick (s.move p)

section Calls

variable {F E : Type} {py : Interpreter F E}

theorem scale_plain_iff {x y : Slot F} {p : ℤ × ℤ} :
    scale py ⟨none,none⟩ x y = .ok p ↔ LandsAt py x y p := by
  have haxis : ∀ f : F, scaleAxis py none f = .ok f := fun _ => rfl
  simp only [LandsAt,Lands,bind_eq_ok]
  constructor
  · intro h
    obtain ⟨fx,hfx,h⟩ := bind_eq_ok.mp h
    obtain ⟨fy,hfy,h⟩ := bind_eq_ok.mp h
    obtain ⟨sx,hsx,h⟩ := bind_eq_ok.mp h
    obtain ⟨sy,hsy,h⟩ := bind_eq_ok.mp h
    obtain ⟨xi,hxi,h⟩ := bind_eq_ok.mp h
    obtain ⟨yi,hyi,rfl⟩ := map_eq_ok.mp h
    obtain rfl := Except.ok.inj hsx
    obtain rfl := Except.ok.inj hsy
    exact ⟨⟨fx,hfx,hxi⟩,⟨fy,hfy,hyi⟩⟩
  · rintro ⟨⟨fx,hfx,hxi⟩,⟨fy,hfy,hyi⟩⟩
    exact bind_eq_ok.mpr ⟨fx,hfx,bind_eq_ok.mpr ⟨fy,hfy,bind_eq_ok.mpr ⟨fx,rfl,
      bind_eq_ok.mpr ⟨fy,rfl,bind_eq_ok.mpr ⟨p.1,hxi,map_eq_ok.mpr ⟨p.2,hyi,rfl⟩⟩⟩⟩⟩⟩

theorem pointed_agrees {x y : Slot F} {cursor : Cursor} {emission : Option (ℤ × ℤ) → List String}
    {s : Pointer} {t : ℤ × ℤ} {after after' : Pointer → Pointer}
    (hemission : ∀ p, (emission p).foldl runCommand s = after (s.move (p.getD s.position)))
    {same : Prop} (hafter : ∀ p, after (s.move p) = after' (s.move t) ↔ p = t ∧ same) :
    (∃ out v, pointed py ⟨none,none⟩ x y cursor emission = .ok (out,v) ∧
        out.foldl runCommand s = after' (s.move t)) ↔ Placed py s.position t x y ∧ same := by
  rw [pointed,Placed]
  by_cases hgiven : given x y = true
  · rw [if_pos hgiven,if_pos hgiven]
    constructor
    · rintro ⟨out,v,hout,heq⟩
      obtain ⟨p,hp,hpair⟩ := map_eq_ok.mp hout
      obtain ⟨rfl,-⟩ := Prod.mk.inj hpair
      obtain ⟨rfl,hsame⟩ := (hafter p).mp ((hemission (some p)).symm.trans heq)
      exact ⟨scale_plain_iff.mp hp,hsame⟩
    · rintro ⟨hlands,hsame⟩
      refine ⟨_,_,map_eq_ok.mpr ⟨t,scale_plain_iff.mpr hlands,rfl⟩,?_⟩
      exact (hemission (some t)).trans ((hafter t).mpr ⟨rfl,hsame⟩)
  · rw [if_neg hgiven,if_neg hgiven]
    constructor
    · rintro ⟨out,v,hout,heq⟩
      obtain ⟨rfl,-⟩ := Prod.mk.inj (Except.ok.inj hout)
      obtain ⟨hp,hsame⟩ := (hafter s.position).mp ((hemission none).symm.trans heq)
      exact ⟨hp.symm,hsame⟩
    · rintro ⟨rfl,hsame⟩
      exact ⟨_,_,rfl,(hemission none).trans ((hafter s.position).mpr ⟨rfl,hsame⟩)⟩

/-- The cursor of the builder, when it is known, is where the pointer is. -/
def Coupled (cursor : Cursor) (s : Pointer) : Prop := ∀ p, cursor = some p → p = s.position

theorem move_agrees {x y : Slot F} {s : Pointer} {t : ℤ × ℤ} :
    (∃ out v, move py ⟨none,none⟩ x y = .ok (out,v) ∧ out.foldl runCommand s = s.move t) ↔
      LandsAt py x y t := by
  rw [← scale_plain_iff]
  constructor
  · rintro ⟨out,v,hout,heq⟩
    obtain ⟨p,hp,hpair⟩ := map_eq_ok.mp hout
    obtain ⟨rfl,-⟩ := Prod.mk.inj hpair
    obtain rfl := Pointer.move_inj.mp ((runCommand_move s p).symm.trans heq)
    exact hp
  · exact fun h => ⟨_,_,map_eq_ok.mpr ⟨t,h,rfl⟩,runCommand_move s t⟩

def dragCommands (cursor : Cursor) (p : ℤ × ℤ) : List String :=
  match cursor with
  | some start => [dragCommand start p]
  | none => ["here hold",s!"{p.1} {p.2} move","here release"]

theorem dragTo_eq (x y : Slot F) (cursor : Cursor) : dragTo py ⟨none,none⟩ x y cursor =
    (scale py ⟨none,none⟩ x y).map fun p => (dragCommands cursor p,some p) := by
  cases cursor <;> rfl

theorem foldl_dragCommands {cursor : Cursor} {s : Pointer} (hcursor : Coupled cursor s)
    (p : ℤ × ℤ) : (dragCommands cursor p).foldl runCommand s = s.drag p := by
  cases cursor with
  | none =>
    rw [dragCommands,List.foldl_cons,List.foldl_cons,List.foldl_cons,List.foldl_nil]
    rw [runCommand_hold,runCommand_move,runCommand_release]
    rfl
  | some start =>
    obtain rfl := hcursor start rfl
    rw [dragCommands,List.foldl_cons,List.foldl_nil,runCommand_drag,Pointer.move_self]

theorem dragTo_agrees {x y : Slot F} {cursor : Cursor} {s : Pointer} {t : ℤ × ℤ}
    (hcursor : Coupled cursor s) :
    (∃ out v, dragTo py ⟨none,none⟩ x y cursor = .ok (out,v) ∧
        out.foldl runCommand s = s.drag t) ↔ LandsAt py x y t := by
  rw [← scale_plain_iff,dragTo_eq]
  constructor
  · rintro ⟨out,v,hout,heq⟩
    obtain ⟨p,hp,hpair⟩ := map_eq_ok.mp hout
    obtain ⟨rfl,-⟩ := Prod.mk.inj hpair
    obtain rfl := Pointer.drag_inj.mp ((foldl_dragCommands hcursor p).symm.trans heq)
    exact hp
  · exact fun h => ⟨_,_,map_eq_ok.mpr ⟨t,h,rfl⟩,foldl_dragCommands hcursor t⟩

theorem dragRel_agrees {dx dy : Slot F} {cursor : Cursor} {s : Pointer} {t : ℤ × ℤ}
    (hcursor : Coupled cursor s) :
    (∃ out v, dragRel py ⟨none,none⟩ dx dy cursor = .ok (out,v) ∧
        out.foldl runCommand s = s.drag t) ↔
      ∃ start, cursor = some start ∧ (offsetFrom py start.1 dx).bind py.round = .ok t.1 ∧
        (offsetFrom py start.2 dy).bind py.round = .ok t.2 := by
  cases cursor with
  | none =>
    constructor
    · rintro ⟨out,v,hout,heq⟩
      obtain ⟨rfl,-⟩ := Prod.mk.inj (Except.ok.inj hout)
      have hlen := congrArg (fun s => s.events.length) heq
      simp [Pointer.drag,Pointer.press,Pointer.release,Pointer.move] at hlen
    · rintro ⟨start,hstart,-⟩
      cases hstart
  | some start =>
    have hrel : dragRel py ⟨none,none⟩ dx dy (some start) =
        (offsetFrom py start.1 dx).bind fun x => (offsetFrom py start.2 dy).bind fun y =>
          dragTo py ⟨none,none⟩ (some (.float x)) (some (.float y)) (some start) := rfl
    rw [hrel]
    constructor
    · rintro ⟨out,v,hout,heq⟩
      obtain ⟨x,hx,hout⟩ := bind_eq_ok.mp hout
      obtain ⟨y,hy,hout⟩ := bind_eq_ok.mp hout
      obtain ⟨hlx,hly⟩ := (dragTo_agrees hcursor).mp ⟨out,v,hout,heq⟩
      exact ⟨start,rfl,bind_eq_ok.mpr ⟨x,hx,hlx⟩,bind_eq_ok.mpr ⟨y,hy,hly⟩⟩
    · rintro ⟨start',hstart,hx,hy⟩
      obtain rfl := Option.some.inj hstart
      obtain ⟨x,hx,hlx⟩ := bind_eq_ok.mp hx
      obtain ⟨y,hy,hly⟩ := bind_eq_ok.mp hy
      have hlands : LandsAt py (some (.float x)) (some (.float y)) t := ⟨hlx,hly⟩
      obtain ⟨out,v,hout,heq⟩ := (dragTo_agrees hcursor).mpr hlands
      exact ⟨out,v,bind_eq_ok.mpr ⟨x,hx,bind_eq_ok.mpr ⟨y,hy,hout⟩⟩,heq⟩

theorem click_agrees {x y : Slot F} {cursor : Cursor} {s : Pointer} {text : String} {n : ℤ}
    {pl : Place} {clicks : ℤ} {button : ℕ} :
    (∃ out v, click py ⟨none,none⟩ x y text n cursor = .ok (out,v) ∧
        out.foldl runCommand s = (PointerCall.click pl clicks button).act s) ↔
      Placed py s.position ((PointerCall.click pl clicks button).target s.position) x y ∧
        ClickedAs text n (.click pl clicks button) := by
  rw [clickedAs_iff]
  exact @pointed_agrees F E py x y cursor (clickCommands text n) s _
    (fun s => s.clicks (clickedButtons text n))
    (fun s => s.clicks (List.replicate clicks.toNat button)) (foldl_clickCommands s text n) _
    fun p => Pointer.clicks_inj

theorem hold_agrees {x y : Slot F} {cursor : Cursor} {s : Pointer} {t : ℤ × ℤ} {command : String}
    {after : Pointer → Pointer}
    (hrun : ∀ p, (holdCommands command p).foldl runCommand s = after (s.move (p.getD s.position)))
    (hafter : ∀ p, after (s.move p) = after (s.move t) ↔ p = t) :
    (∃ out v, hold py ⟨none,none⟩ x y command cursor = .ok (out,v) ∧
        out.foldl runCommand s = after (s.move t)) ↔ Placed py s.position t x y := by
  rw [← and_true (Placed py s.position t x y)]
  exact @pointed_agrees F E py x y cursor (holdCommands command) s t after after hrun True
    fun p => (hafter p).trans (and_iff_left trivial).symm

theorem scroll_agrees (hdecimal : WritesDecimals py) {clicks x y : Slot F} {cursor : Cursor}
    {s : Pointer} {pl : Place} {n : ℤ} (hclicks : clicks = some (.int n)) :
    (∃ out v, scroll py ⟨none,none⟩ clicks x y cursor = .ok (out,v) ∧
        out.foldl runCommand s = (PointerCall.scroll pl n).act s) ↔
      Placed py s.position ((PointerCall.scroll pl n).target s.position) x y ∧
        ∃ m, (PointerCall.scroll pl n).notches = some m ∧ m ≠ 0 ∧
          ∃ count, py.formatInt m.natAbs = .ok count := by
  subst hclicks
  cases hcount : py.formatInt (if n = 0 then 1 else n.natAbs) with
  | error e =>
    have herror : ∀ out v, scroll py ⟨none,none⟩ (some (.int n)) x y cursor ≠ .ok (out,v) := by
      intro out v
      simp only [scroll,toInt,hcount]
      split
      · intro h
        obtain ⟨p,-,h⟩ := bind_eq_ok.mp h
        cases h
      · intro h
        cases h
    constructor
    · rintro ⟨out,v,hout,-⟩
      exact absurd hout (herror out v)
    · rintro ⟨-,m,hm,hne,count,hformat⟩
      obtain rfl := Option.some.inj hm
      rw [if_neg hne,hformat] at hcount
      cases hcount
  | ok count =>
    have hscroll : scroll py ⟨none,none⟩ (some (.int n)) x y cursor =
        pointed py ⟨none,none⟩ x y cursor (scrollCommands n count) := by
      simp only [scroll,toInt,hcount]
      rfl
    have htext := hdecimal _ _ hcount
    have hrun := fun p => foldl_scrollCommands s n p (htext ▸ isPart_toString _)
      (htext ▸ readPart_toString _)
    rw [hscroll]
    refine (@pointed_agrees F E py x y cursor (scrollCommands n count) s _
      (fun s => s.clicks (List.replicate (if n = 0 then 1 else (n.natAbs : ℤ)).toNat
        (if 0 ≤ n then 4 else 5)))
      (fun s => s.clicks (List.replicate n.natAbs (if 0 ≤ n then 4 else 5))) hrun (n ≠ 0)
      fun p => ?_).trans (and_congr_right fun _ => ?_)
    · rw [Pointer.clicks_inj]
      refine and_congr_right fun _ => ?_
      by_cases hn : n = 0
      · simp [hn]
      · rw [if_neg hn,Int.toNat_natCast]
        exact ⟨fun _ => hn,fun _ => rfl⟩
    · constructor
      · intro hn
        rw [if_neg hn] at hcount
        exact ⟨n,rfl,hn,count,hcount⟩
      · rintro ⟨m,hm,hne,-⟩
        obtain rfl := Option.some.inj hm
        exact hne

theorem action_of_name {info : CallInfo F} {action action' : Action} {name : String}
    (hname : info.name = name) (haction : actions.lookup info.name = some action)
    (htable : actions.lookup name = some action') : action = action' := by
  rw [hname,htable] at haction
  exact (Option.some.inj haction).symm

theorem integer_eq_some {v : Slot F} {n : ℤ} (h : integer v = some n) : v = some (.int n) := by
  unfold integer at h
  split at h
  · rw [Option.some.inj h]
  · cases h

theorem arg_eq_int {info : CallInfo F} {index : ℕ} {name : String} {n : ℤ}
    (h : info.arg index name .none = some (.int n)) (default : PyValue F) :
    info.arg index name default = some (.int n) := by
  unfold CallInfo.arg at h ⊢
  split
  · rename_i v hv
    simp only [hv] at h
    exact h
  · rename_i hnot
    split at h
    · rename_i v hv
      exact absurd hv (hnot v)
    · cases hkey : info.kwargs.lookup name with
      | none =>
        rw [hkey] at h
        cases h
      | some v =>
        rw [hkey] at h
        exact h

theorem fixedClick_agrees {info : CallInfo F} {cursor : Cursor} {s : Pointer} {text : String}
    {n : ℤ} {pl : Place} {clicks : ℤ} {b : ℕ} (hclicked : ClickedAs text n (.click pl clicks b)) :
    FineAction py cursor s.position info (.click pl clicks b) (.fixedClick text n) ↔
      ∃ out v, perform py ⟨none,none⟩ (.fixedClick text n) info cursor = .ok (out,v) ∧
        out.foldl runCommand s = (PointerCall.click pl clicks b).act s :=
  (and_iff_left hclicked).symm.trans click_agrees.symm

theorem countedClick_agrees {info : CallInfo F} {cursor : Cursor} {s : Pointer} {pl : Place}
    {clicks : ℤ} {b : ℕ} : FineAction py cursor s.position info (.click pl clicks b) .click ↔
      ∃ out v, perform py ⟨none,none⟩ .click info cursor = .ok (out,v) ∧
        out.foldl runCommand s = (PointerCall.click pl clicks b).act s := by
  constructor
  · rintro ⟨hplaced,text,n,htext,hn,hclicked⟩
    obtain ⟨out,v,hout,heq⟩ := click_agrees.mpr ⟨hplaced,hclicked⟩
    exact ⟨out,v,bind_eq_ok.mpr ⟨text,htext,bind_eq_ok.mpr ⟨n,hn,hout⟩⟩,heq⟩
  · rintro ⟨out,v,hout,heq⟩
    obtain ⟨text,htext,hout⟩ := bind_eq_ok.mp hout
    obtain ⟨n,hn,hout⟩ := bind_eq_ok.mp hout
    obtain ⟨hplaced,hclicked⟩ := click_agrees.mp ⟨out,v,hout,heq⟩
    exact ⟨hplaced,text,n,htext,hn,hclicked⟩

theorem fineAction_iff (hdecimal : WritesDecimals py) {info : CallInfo F} {action : Action}
    {m : PointerCall} (haction : actions.lookup info.name = some action)
    (hm : pointerCall info = some m) {cursor : Cursor} {s : Pointer} (hcursor : Coupled cursor s) :
    FineAction py cursor s.position info m action ↔
      ∃ out v, perform py ⟨none,none⟩ action info cursor = .ok (out,v) ∧
        out.foldl runCommand s = m.act s := by
  unfold pointerCall at hm
  dsimp only at hm
  split at hm
  · rename_i hname
    obtain rfl := action_of_name hname haction (show _ = some .move by decide)
    obtain ⟨pl,-,rfl⟩ := Option.map_eq_some_iff.mp hm
    exact move_agrees.symm
  · rename_i hname
    obtain rfl := action_of_name hname haction (show _ = some .move by decide)
    obtain ⟨pl,-,rfl⟩ := Option.map_eq_some_iff.mp hm
    exact move_agrees.symm
  · rename_i hname
    obtain rfl := action_of_name hname haction (show _ = some .click by decide)
    obtain ⟨pl,-,hm⟩ := Option.bind_eq_some_iff.mp hm
    obtain ⟨n,-,hm⟩ := Option.bind_eq_some_iff.mp hm
    obtain ⟨b,-,rfl⟩ := Option.map_eq_some_iff.mp hm
    exact countedClick_agrees
  · rename_i hname
    obtain rfl := action_of_name hname haction (show _ = some .click by decide)
    obtain ⟨pl,-,rfl⟩ := Option.map_eq_some_iff.mp hm
    exact countedClick_agrees
  · rename_i hname
    obtain rfl := action_of_name hname haction (show _ = some (.fixedClick "middle" 1) by decide)
    obtain ⟨pl,-,rfl⟩ := Option.map_eq_some_iff.mp hm
    exact fixedClick_agrees (.inl ⟨by decide,rfl,by decide⟩)
  · rename_i hname
    obtain rfl := action_of_name hname haction (show _ = some (.fixedClick "right" 1) by decide)
    obtain ⟨pl,-,rfl⟩ := Option.map_eq_some_iff.mp hm
    exact fixedClick_agrees (.inl ⟨by decide,rfl,by decide⟩)
  · rename_i hname
    obtain rfl := action_of_name hname haction (show _ = some (.fixedClick "left" 2) by decide)
    obtain ⟨pl,-,rfl⟩ := Option.map_eq_some_iff.mp hm
    exact fixedClick_agrees (.inr ⟨by decide,rfl,rfl⟩)
  · rename_i hname
    obtain rfl := action_of_name hname haction (show _ = some (.fixedClick "left" 3) by decide)
    obtain ⟨pl,-,rfl⟩ := Option.map_eq_some_iff.mp hm
    exact fixedClick_agrees (.inr ⟨by decide,rfl,rfl⟩)
  · rename_i hname
    obtain rfl := action_of_name hname haction (show _ = some .dragTo by decide)
    obtain ⟨pl,-,rfl⟩ := Option.map_eq_some_iff.mp hm
    exact (dragTo_agrees hcursor).symm
  · rename_i hname
    obtain rfl := action_of_name hname haction (show _ = some .drag by decide)
    obtain ⟨pl,-,rfl⟩ := Option.map_eq_some_iff.mp hm
    exact (dragRel_agrees hcursor).symm
  · rename_i hname
    obtain rfl := action_of_name hname haction (show _ = some (.hold "here hold") by decide)
    obtain ⟨pl,-,rfl⟩ := Option.map_eq_some_iff.mp hm
    exact (@hold_agrees F E py _ _ cursor s _ _ (fun s => s.press 1) (foldl_holdCommands_hold s)
      fun p => Pointer.press_inj).symm
  · rename_i hname
    obtain rfl := action_of_name hname haction (show _ = some (.hold "here release") by decide)
    obtain ⟨pl,-,rfl⟩ := Option.map_eq_some_iff.mp hm
    exact (@hold_agrees F E py _ _ cursor s _ _ (fun s => s.release 1)
      (foldl_holdCommands_release s) fun p => Pointer.release_inj).symm
  · rename_i hname
    obtain rfl := action_of_name hname haction (show _ = some .scroll by decide)
    obtain ⟨pl,-,hm⟩ := Option.bind_eq_some_iff.mp hm
    obtain ⟨n,hn,rfl⟩ := Option.map_eq_some_iff.mp hm
    exact (scroll_agrees hdecimal (arg_eq_int (integer_eq_some hn) (.int 0))).symm
  · rename_i hname
    obtain rfl := action_of_name hname haction (show _ = some .scroll by decide)
    obtain ⟨pl,-,hm⟩ := Option.bind_eq_some_iff.mp hm
    obtain ⟨n,hn,rfl⟩ := Option.map_eq_some_iff.mp hm
    exact (scroll_agrees hdecimal (arg_eq_int (integer_eq_some hn) (.int 0))).symm
  · cases hm

theorem pointed_coupled {x y : Slot F} {cursor v : Cursor} {emission : Option (ℤ × ℤ) → List String}
    {s : Pointer} {out : List String}
    (hemission : ∀ p, ((emission p).foldl runCommand s).position = p.getD s.position)
    (hcursor : Coupled cursor s) (h : pointed py ⟨none,none⟩ x y cursor emission = .ok (out,v)) :
    Coupled v (out.foldl runCommand s) := by
  intro q hq
  rw [pointed] at h
  split at h
  · obtain ⟨p,-,hpair⟩ := map_eq_ok.mp h
    obtain ⟨rfl,rfl⟩ := Prod.mk.inj hpair
    obtain rfl := Option.some.inj hq
    exact (hemission (some p)).symm
  · obtain ⟨rfl,rfl⟩ := Prod.mk.inj (Except.ok.inj h)
    exact (hcursor q hq).trans (hemission none).symm

theorem dragTo_coupled {x y : Slot F} {cursor v : Cursor} {s : Pointer} {out : List String}
    (hcursor : Coupled cursor s) (h : dragTo py ⟨none,none⟩ x y cursor = .ok (out,v)) :
    Coupled v (out.foldl runCommand s) := by
  rw [dragTo_eq] at h
  obtain ⟨p,-,hpair⟩ := map_eq_ok.mp h
  obtain ⟨rfl,rfl⟩ := Prod.mk.inj hpair
  intro q hq
  obtain rfl := Option.some.inj hq
  rw [foldl_dragCommands hcursor]
  rfl

theorem scroll_coupled (hdecimal : WritesDecimals py) {clicks x y : Slot F} {cursor v : Cursor}
    {s : Pointer} {out : List String} (hcursor : Coupled cursor s)
    (h : scroll py ⟨none,none⟩ clicks x y cursor = .ok (out,v)) :
    Coupled v (out.foldl runCommand s) := by
  rw [scroll] at h
  split at h
  · obtain ⟨rfl,rfl⟩ := Prod.mk.inj (Except.ok.inj h)
    exact hcursor
  · obtain ⟨rfl,rfl⟩ := Prod.mk.inj (Except.ok.inj h)
    exact hcursor
  · cases h
  · rename_i n _
    have hposition : ∀ count, py.formatInt (if n = 0 then 1 else n.natAbs) = .ok count → ∀ p,
        ((scrollCommands n count p).foldl runCommand s).position = p.getD s.position := by
      intro count hcount p
      have htext := hdecimal _ _ hcount
      rw [foldl_scrollCommands s n p (htext ▸ isPart_toString _) (htext ▸ readPart_toString _)]
      rw [Pointer.clicks_position]
      rfl
    dsimp only at h
    split at h
    · obtain ⟨p,-,h⟩ := bind_eq_ok.mp h
      obtain ⟨count,hcount,hpair⟩ := map_eq_ok.mp h
      obtain ⟨rfl,rfl⟩ := Prod.mk.inj hpair
      intro q hq
      obtain rfl := Option.some.inj hq
      exact (hposition count hcount (some p)).symm
    · obtain ⟨count,hcount,hpair⟩ := map_eq_ok.mp h
      obtain ⟨rfl,rfl⟩ := Prod.mk.inj hpair
      exact fun q hq => (hcursor q hq).trans (hposition count hcount none).symm

theorem pointerCall_eq_none {info : CallInfo F} {action : Action}
    (haction : actions.lookup info.name = some action)
    (hother : action ∈ [Action.write,.press,.hotkey,.pause]) : pointerCall info = none := by
  obtain ⟨front,behind,hsplit,-⟩ := List.lookup_eq_some_iff.mp haction
  have hmem : (info.name,action) ∈ actions := by simp [hsplit]
  have hnames : ∀ entry ∈ actions, entry.2 ∈ [Action.write,.press,.hotkey,.pause] →
      entry.1 ∈ ["write","typewrite","press","hotkey","sleep","PAUSE"] := by decide
  have hname := hnames _ hmem hother
  simp only [List.mem_cons,List.not_mem_nil,or_false] at hname
  rw [pointerCall]
  rcases hname with h | h | h | h | h | h <;> simp [h]

theorem perform_coupled (hdecimal : WritesDecimals py) {info : CallInfo F} {action : Action}
    (haction : actions.lookup info.name = some action) {cursor v : Cursor} {s : Pointer}
    {out : List String} (hcursor : Coupled cursor s)
    (h : perform py ⟨none,none⟩ action info cursor = .ok (out,v))
    (hpointer : (pointerCall info).isSome = true) : Coupled v (out.foldl runCommand s) := by
  have hclick : ∀ text n p, ((clickCommands text n p).foldl runCommand s).position =
      p.getD s.position := fun text n p => by
    rw [foldl_clickCommands,Pointer.clicks_position]
    rfl
  cases action with
  | click =>
    obtain ⟨text,-,h⟩ := bind_eq_ok.mp h
    obtain ⟨n,-,h⟩ := bind_eq_ok.mp h
    exact pointed_coupled (hclick text n) hcursor h
  | fixedClick text n => exact pointed_coupled (hclick text n) hcursor h
  | move =>
    obtain ⟨p,-,hpair⟩ := map_eq_ok.mp h
    obtain ⟨rfl,rfl⟩ := Prod.mk.inj hpair
    intro q hq
    obtain rfl := Option.some.inj hq
    exact (congrArg Pointer.position (runCommand_move s p)).symm
  | dragTo => exact dragTo_coupled hcursor h
  | drag =>
    cases cursor with
    | none =>
      obtain ⟨rfl,rfl⟩ := Prod.mk.inj (Except.ok.inj h)
      exact hcursor
    | some start =>
      obtain ⟨x,-,h⟩ := bind_eq_ok.mp h
      obtain ⟨y,-,h⟩ := bind_eq_ok.mp h
      exact dragTo_coupled hcursor h
  | scroll => exact scroll_coupled hdecimal hcursor h
  | hold command =>
    rcases holdCommand_of_lookup haction with rfl | rfl
    · refine pointed_coupled (fun p => ?_) hcursor h
      rw [foldl_holdCommands_hold]
      rfl
    · refine pointed_coupled (fun p => ?_) hcursor h
      rw [foldl_holdCommands_release]
      rfl
  | write => simp [pointerCall_eq_none haction (by decide)] at hpointer
  | press => simp [pointerCall_eq_none haction (by decide)] at hpointer
  | hotkey => simp [pointerCall_eq_none haction (by decide)] at hpointer
  | pause => simp [pointerCall_eq_none haction (by decide)] at hpointer

theorem exists_action {info : CallInfo F} {m : PointerCall} (h : pointerCall info = some m) :
    ∃ action, actions.lookup info.name = some action := by
  unfold pointerCall at h
  dsimp only at h
  split at h
  all_goals first
    | cases h
    | exact ⟨_,by rw [‹info.name = _›]; rfl⟩

theorem isSome_pointerCallOf {call : Call E} (h : (pointerCallOf py call).isSome = true) :
    ∃ action info m, actionOf py call = .ok (some (action,info)) ∧ pointerCall info = some m ∧
      pointerCallOf py call = some m := by
  unfold pointerCallOf at h
  split at h
  · rename_i info hinfo
    obtain ⟨m,hm⟩ := Option.isSome_iff_exists.mp h
    obtain ⟨action,haction⟩ := exists_action hm
    refine ⟨action,info,m,?_,hm,?_⟩
    · rw [actionOf,hinfo]
      simp [Except.map,haction]
    · rw [pointerCallOf,hinfo]
      exact hm
  · cases h

theorem fine_iff (hdecimal : WritesDecimals py) {call : Call E}
    (hcall : (pointerCallOf py call).isSome = true) {cursor : Cursor} {s : Pointer}
    (hcursor : Coupled cursor s) : Fine py cursor s.position call ↔
      Agrees runCommand (meaning py) (step py ⟨none,none⟩) cursor s call := by
  obtain ⟨action,info,m,haction,hm,hmeaning⟩ := isSome_pointerCallOf hcall
  obtain ⟨hname,hstep⟩ := step_of_action haction
  have hfine : Fine py cursor s.position call ↔ FineAction py cursor s.position info m action := by
    constructor
    · exact fun h => h action info m haction hm
    · intro h action' info' m' haction' hm'
      rw [haction] at haction'
      obtain ⟨rfl,rfl⟩ := Prod.mk.inj (Option.some.inj (Except.ok.inj haction'))
      rw [hm] at hm'
      obtain rfl := Option.some.inj hm'
      exact h
  rw [hfine,fineAction_iff hdecimal hname hm hcursor,Agrees,hstep,meaning,hmeaning]

theorem step_coupled (hdecimal : WritesDecimals py) {call : Call E}
    (hcall : (pointerCallOf py call).isSome = true) {cursor v : Cursor} {s : Pointer}
    {out : List String} (hcursor : Coupled cursor s)
    (h : step py ⟨none,none⟩ cursor call = .ok (out,v)) : Coupled v (out.foldl runCommand s) := by
  obtain ⟨action,info,m,haction,hm,-⟩ := isSome_pointerCallOf hcall
  obtain ⟨hname,hstep⟩ := step_of_action haction
  rw [hstep] at h
  exact perform_coupled hdecimal hname hcursor h (by rw [hm]; rfl)

theorem before_total (a b : Call E) : before a b ∨ before b a := by
  simp only [before]
  omega

theorem before_trans {a b c : Call E} (hab : before a b) (hbc : before b c) : before a c := by
  simp only [before] at *
  omega

instance : Std.Total (before : Call E → Call E → Prop) := ⟨before_total⟩

instance : IsTrans (Call E) before := ⟨fun _ _ _ => before_trans⟩

theorem sortCalls_front {calls front behind : List (Call E)}
    (h : sortCalls calls = front ++ behind) : sortCalls front = front := by
  have hsorted : (front ++ behind).Pairwise before := h ▸ List.pairwise_insertionSort before calls
  exact List.Pairwise.insertionSort_eq (hsorted.sublist (List.sublist_append_left front behind))

/-- The commands of every beginning of a program of pointer calls do to the pointer what the
calls mean exactly when every call is fine where it is met. -/
theorem pyautoguiToGrammar_simulates_iff (py : Interpreter F E) (hdecimal : WritesDecimals py)
    {calls : List (Call E)} (hcalls : ∀ call ∈ calls, (pointerCallOf py call).isSome = true)
    (s : Pointer) :
    (∀ front behind, sortCalls calls = front ++ behind →
        ∃ commands, pyautoguiToGrammar py ⟨none,none⟩ (some front) = .ok commands ∧
          commands.foldl runCommand s = front.foldl (meaning py) s) ↔
      ∀ front call behind entries cursor, sortCalls calls = front ++ call :: behind →
        emit (step py ⟨none,none⟩) none front = .ok (entries,cursor) →
          Fine py cursor (front.foldl (meaning py) s).position call := by
  have hmem : ∀ call ∈ sortCalls calls, (pointerCallOf py call).isSome = true := fun call hcall =>
    hcalls call ((List.mem_insertionSort before).mp hcall)
  have hstart : Coupled none s := fun p hp => by cases hp
  rw [← simulates_iff
    (fun call hcall u v huv => @fine_iff F E py hdecimal call (hmem call hcall) u v huv)
    (fun call hcall u v out w huv hstep hout => hout ▸ step_coupled hdecimal (hmem call hcall) huv hstep)
    hstart]
  refine forall₃_congr fun front behind hsplit => ?_
  rw [pyautoguiToGrammar,sortCalls_front hsplit]
  constructor
  · rintro ⟨commands,hcommands,heq⟩
    obtain ⟨⟨entries,t⟩,hrun,rfl⟩ := map_eq_ok.mp hcommands
    exact ⟨entries,t,hrun,heq⟩
  · rintro ⟨entries,t,hrun,heq⟩
    exact ⟨_,map_eq_ok.mpr ⟨(entries,t),hrun,rfl⟩,heq⟩

end Calls

/-- `moveTo(10, 10)` and `move(5, 5)` on the next line. -/
def moveTwice : List (Call (Option ℤ)) :=
  [⟨1,0,some "moveTo",[.plain (some 10),.plain (some 10)],[]⟩,
    ⟨2,0,some "move",[.plain (some 5),.plain (some 5)],[]⟩]

theorem sampleInterpreter_writesDecimals : WritesDecimals sampleInterpreter :=
  fun _ _ h => (Except.ok.inj h).symm

theorem pyautoguiToGrammar_simulates_iff_moveTwice :
    (∀ front behind, sortCalls moveTwice = front ++ behind →
        ∃ commands, pyautoguiToGrammar sampleInterpreter ⟨none,none⟩ (some front) = .ok commands ∧
          commands.foldl runCommand ⟨(0,0),[]⟩ =
            front.foldl (meaning sampleInterpreter) ⟨(0,0),[]⟩) ↔
      ∀ front call behind entries cursor, sortCalls moveTwice = front ++ call :: behind →
        emit (step sampleInterpreter ⟨none,none⟩) none front = .ok (entries,cursor) →
          Fine sampleInterpreter cursor
            (front.foldl (meaning sampleInterpreter) ⟨(0,0),[]⟩).position call :=
  pyautoguiToGrammar_simulates_iff sampleInterpreter sampleInterpreter_writesDecimals (by decide)
    ⟨(0,0),[]⟩

/-- The relative move ends at (15, 15), and its commands end at (5, 5). -/
theorem moveTwice_absolute :
    pyautoguiToGrammar sampleInterpreter ⟨none,none⟩ (some moveTwice) =
        .ok ["10 10 move","5 5 move"] ∧
      moveTwice.foldl (meaning sampleInterpreter) ⟨(0,0),[]⟩ = ⟨(15,15),[]⟩ ∧
      ¬ ∃ commands, pyautoguiToGrammar sampleInterpreter ⟨none,none⟩ (some moveTwice) = .ok commands ∧
        commands.foldl runCommand ⟨(0,0),[]⟩ =
          moveTwice.foldl (meaning sampleInterpreter) ⟨(0,0),[]⟩ := by
  have hcommands : pyautoguiToGrammar sampleInterpreter ⟨none,none⟩ (some moveTwice) =
      .ok ["10 10 move","5 5 move"] := by decide
  refine ⟨hcommands,by decide,?_⟩
  rintro ⟨commands,h,heq⟩
  rw [hcommands] at h
  obtain rfl := Except.ok.inj h
  revert heq
  decide

end Cua
end DockyardRL
