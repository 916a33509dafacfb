import Mathlib.Algebra.Order.Group.Int
import DockyardRL.Cua.Safety
import DockyardRL.Cua.Xdotool

/-! What scaling the coordinates does to the commands of a program. A relative drag adds an
offset of the screen to a cursor of the desktop and scales the sum, so its end is scaled
twice. -/
namespace DockyardRL
namespace Cua

open Emitter Fallible Words

def joinParts (ps : List String) : String := String.ofList (join ' ' (ps.map String.toList))

def scaleTarget (k : ℤ × ℤ) : List String → List String
  | "drag" :: x :: y :: rest =>
    match readPart x, readPart y with
    | some a, some b => "drag" :: toString (k.1 * a) :: toString (k.2 * b) :: rest
    | _, _ => "drag" :: x :: y :: rest
  | ps => ps

def scaleParts (k : ℤ × ℤ) : List String → List String
  | x :: y :: rest =>
    match readPart x, readPart y with
    | some a, some b => toString (k.1 * a) :: toString (k.2 * b) :: scaleTarget k rest
    | _, _ => x :: y :: rest
  | ps => ps

def scaleText (k : ℤ × ℤ) (text : String) : String :=
  match parts text with
  | first :: rest => if isMouse first then joinParts (scaleParts k (first :: rest)) else text
  | [] => text

def IsPart (part : String) : Prop := IsWord blank part.toList

instance (part : String) : Decidable (IsPart part) := decidable_of_iff _ isWord_iff

theorem blank_space : blank ' ' = true := by decide

theorem parts_joinParts {ps : List String} (hps : ∀ p ∈ ps, IsPart p) : parts (joinParts ps) = ps := by
  have hwords : ∀ word ∈ ps.map String.toList, IsWord blank word := by
    intro word hword
    obtain ⟨p,hp,rfl⟩ := List.mem_map.mp hword
    exact hps p hp
  rw [parts,joinParts,String.toList_ofList,split_join blank_space hwords,List.map_map]
  simp [Function.comp_def]

theorem isPart_of_digits {part : String} (hne : part.toList ≠ [])
    (h : ∀ c ∈ part.toList, c.isDigit = true ∨ c = '-') : IsPart part := by
  refine ⟨hne,fun c hc => ?_⟩
  rw [blank,decide_eq_false_iff_not]
  rcases h c hc with hdigit | rfl
  · intro hmem
    rw [Char.isDigit,Bool.and_eq_true,decide_eq_true_eq,decide_eq_true_eq] at hdigit
    have hlo : 48 ≤ c.toNat := hdigit.1
    have hhi : c.toNat ≤ 57 := hdigit.2
    have houtside : ∀ n ∈ XToken.whitespace, n < 48 ∨ 57 < n := by decide
    have := houtside _ hmem
    omega
  · decide

theorem isPart_toString (n : ℤ) : IsPart (toString n) :=
  isPart_of_digits (spell_ne_nil n) fun _ hc => mem_spell hc

@[simp] theorem readPart_toString (n : ℤ) : readPart (toString n) = some n := readInt_spell n

theorem isNumber_toString (n : ℤ) : isNumber (toString n).toList = true := by
  have hdigits : ∀ m, isNumber (Nat.toDigits 10 m) = true := by
    intro m
    cases hm : Nat.toDigits 10 m with
    | nil => exact absurd hm Nat.toDigits_ne_nil
    | cons c word =>
      have hall : ∀ d ∈ c :: word, d.isDigit = true := fun d hd =>
        isDigit_of_mem_toDigits (hm ▸ hd)
      have hc : c ≠ '-' := by
        rintro rfl
        exact absurd (hall '-' List.mem_cons_self) (by decide)
      rw [isNumber,List.dropWhile_cons_of_neg (by simpa using hc)]
      simpa using hall
  change isNumber (spell n) = true
  cases n with
  | ofNat m =>
    rw [spell_ofNat]
    exact hdigits m
  | negSucc m =>
    rw [spell_negSucc]
    exact hdigits (m + 1)

theorem isMouse_toString (n : ℤ) : isMouse (toString n) = true := by
  rw [isMouse,isNumber_toString,Bool.or_true]

theorem scaleText_position (k : ℤ × ℤ) (x y : ℤ) {rest : List String} (hrest : ∀ p ∈ rest, IsPart p) :
    scaleText k (joinParts (toString x :: toString y :: rest)) =
      joinParts (toString (k.1 * x) :: toString (k.2 * y) :: scaleTarget k rest) := by
  have hparts : ∀ p ∈ toString x :: toString y :: rest, IsPart p :=
    List.forall_mem_cons.mpr ⟨isPart_toString x,List.forall_mem_cons.mpr ⟨isPart_toString y,hrest⟩⟩
  rw [scaleText,parts_joinParts hparts]
  dsimp only [scaleParts]
  rw [if_pos (isMouse_toString x),readPart_toString,readPart_toString]

theorem scaleText_here (k : ℤ × ℤ) {action : String} {rest : List String} (haction : IsPart action)
    (hrest : ∀ p ∈ rest, IsPart p) :
    scaleText k (joinParts ("here" :: action :: rest)) = joinParts ("here" :: action :: rest) := by
  have hhere : IsPart "here" := by decide
  have hparts : ∀ p ∈ "here" :: action :: rest, IsPart p := by
    simpa [hhere,haction] using hrest
  have hread : readPart "here" = none := by decide
  rw [scaleText,parts_joinParts hparts]
  simp [scaleParts,hread]

theorem scaleTarget_of_ne (k : ℤ × ℤ) {action : String} (haction : action ≠ "drag")
    (rest : List String) : scaleTarget k (action :: rest) = action :: rest := by
  rw [scaleTarget]
  intro x y rest' h
  exact haction (List.cons.inj h).1

theorem scaleText_keyboard (k : ℤ × ℤ) {verb : String} (hverb : IsPart verb)
    (hkey : isMouse verb = false) (text : String) : scaleText k (verb ++ " " ++ text) = verb ++ " " ++ text := by
  have hparts : parts (verb ++ " " ++ text) = verb :: parts text := by
    rw [parts,String.toList_append,String.toList_append]
    have hsplit := split_append blank_space hverb text.toList
    rw [show (" " : String).toList = [' '] from rfl,List.append_assoc,List.singleton_append,hsplit]
    simp [parts]
  rw [scaleText,hparts]
  simp [hkey]

theorem joinParts_cons_cons (p q : String) (ps : List String) :
    joinParts (p :: q :: ps) = p ++ " " ++ joinParts (q :: ps) := by
  rw [← String.toList_inj]
  simp [joinParts,join]

theorem joinParts_singleton (p : String) : joinParts [p] = p := by
  rw [← String.toList_inj]
  simp [joinParts,join]

theorem mem_buttons (button : String) :
    (buttons.lookup button).getD "left" ∈ ["left","right","middle"] := by
  cases hlookup : buttons.lookup button with
  | none => simp
  | some action =>
    obtain ⟨front,behind,hsplit,-⟩ := List.lookup_eq_some_iff.mp hlookup
    have hmem : (button,action) ∈ buttons := by simp [hsplit]
    have hall : ∀ entry ∈ buttons, entry.2 ∈ ["left","right","middle"] := by decide
    exact hall _ hmem

/-- The actions that take no position behind them. -/
def IsPlain (action : String) : Prop := IsPart action ∧ action ≠ "drag"

instance (action : String) : Decidable (IsPlain action) := inferInstanceAs (Decidable (_ ∧ _))

theorem isPlain_button (button : String) : IsPlain ((buttons.lookup button).getD "left") := by
  have hall : ∀ action ∈ ["left","right","middle"], IsPlain action := by decide
  exact hall _ (mem_buttons button)

theorem scaleText_rest (k : ℤ × ℤ) (x y : ℤ) {action : String} {rest : List String}
    (hrest : ∀ p ∈ action :: rest, IsPart p) :
    scaleText k (toString x ++ " " ++ toString y ++ " " ++ joinParts (action :: rest)) =
      joinParts (toString (k.1 * x) :: toString (k.2 * y) :: scaleTarget k (action :: rest)) := by
  rw [← scaleText_position k x y hrest,joinParts_cons_cons,joinParts_cons_cons]
  simp only [String.append_assoc]

theorem scaleText_act (k : ℤ × ℤ) (x y : ℤ) {action : String} (haction : IsPlain action) :
    scaleText k (toString x ++ " " ++ toString y ++ " " ++ action) =
      toString (k.1 * x) ++ " " ++ toString (k.2 * y) ++ " " ++ action := by
  have h := @scaleText_rest k x y action [] (by simpa using haction.1)
  rw [joinParts_singleton,scaleTarget_of_ne k haction.2] at h
  rw [h,joinParts_cons_cons,joinParts_cons_cons,joinParts_singleton]
  simp only [String.append_assoc]

theorem scaleText_suffix (k : ℤ × ℤ) (x y : ℤ) {action suffix : String} (haction : IsPlain action)
    (hsuffix : suffix = " " ++ action) :
    scaleText k (toString x ++ " " ++ toString y ++ suffix) =
      toString (k.1 * x) ++ " " ++ toString (k.2 * y) ++ suffix := by
  have h := scaleText_act k x y haction
  simp only [String.append_assoc] at h ⊢
  rwa [hsuffix]

theorem scaleText_hereAct (k : ℤ × ℤ) {action : String} (haction : IsPart action) :
    scaleText k ("here" ++ " " ++ action) = "here" ++ " " ++ action := by
  have htext : "here" ++ " " ++ action = joinParts ["here",action] := by
    rw [joinParts_cons_cons,joinParts_singleton]
  rw [htext,scaleText_here k haction (by simp)]

def scalePosition (k p : ℤ × ℤ) : ℤ × ℤ := (k.1 * p.1,k.2 * p.2)

theorem clickCommands_scale (k : ℤ × ℤ) (button : String) (clicks : ℤ) (p : Option (ℤ × ℤ)) :
    (clickCommands button clicks p).map (scaleText k) =
      clickCommands button clicks (p.map (scalePosition k)) := by
  have hleft : scaleText k "here left" = "here left" := @scaleText_hereAct k "left" (by decide)
  have hdouble : scaleText k "here double" = "here double" :=
    @scaleText_hereAct k "double" (by decide)
  have hbutton := isPlain_button button
  cases p with
  | none =>
    have hhere := scaleText_hereAct k hbutton.1
    rw [Option.map_none,clickCommands]
    split_ifs
    · simp [hleft,hdouble]
    · exact congrArg (fun text => [text]) hhere
  | some p =>
    have hposition := scaleText_act k p.1 p.2 hbutton
    have htwice := @scaleText_suffix k p.1 p.2 "double" " double" (by decide) rfl
    rw [Option.map_some,clickCommands,scalePosition,clickCommands]
    split_ifs
    · exact congrArg (fun text => [text]) hposition
    · rw [List.map_cons,List.map_replicate,hleft]
      exact congrArg (fun text => text :: List.replicate (clicks - 2).toNat "here left") htwice

theorem holdCommands_scale (k : ℤ × ℤ) {command : String} (hcommand : scaleText k command = command)
    (p : Option (ℤ × ℤ)) :
    (holdCommands command p).map (scaleText k) = holdCommands command (p.map (scalePosition k)) := by
  cases p with
  | none => simp [holdCommands,hcommand]
  | some p =>
    have hmove := @scaleText_suffix k p.1 p.2 "move" " move" (by decide) rfl
    rw [Option.map_some,holdCommands,holdCommands,List.map_cons,List.map_singleton,hcommand]
    exact congrArg (fun text => [text,command]) hmove

theorem scrollCommands_scale (k : ℤ × ℤ) (n : ℤ) {count : String} (hcount : IsPart count)
    (p : Option (ℤ × ℤ)) :
    (scrollCommands n count p).map (scaleText k) =
      scrollCommands n count (p.map (scalePosition k)) := by
  have hdirection : ∃ action, IsPlain action ∧
      (if 0 ≤ n then "scroll_up " else "scroll_down ") = action ++ " " := by
    split_ifs
    · exact ⟨"scroll_up",by decide,rfl⟩
    · exact ⟨"scroll_down",by decide,rfl⟩
  obtain ⟨action,haction,htext⟩ := hdirection
  cases p with
  | none =>
    have h := @scaleText_here k action [count] haction.1 (by simpa using hcount)
    rw [joinParts_cons_cons,joinParts_cons_cons,joinParts_singleton] at h
    rw [Option.map_none,scrollCommands,htext,List.map_singleton]
    have hleft : "here " ++ (action ++ " ") ++ count = "here" ++ " " ++ (action ++ " " ++ count) := by
      rw [show ("here " : String) = "here" ++ " " from rfl]
      simp only [String.append_assoc]
    rw [hleft,h]
  | some p =>
    have h := @scaleText_rest k p.1 p.2 action [count] (by simp [haction.1,hcount])
    rw [joinParts_cons_cons,joinParts_singleton,scaleTarget_of_ne k haction.2] at h
    rw [joinParts_cons_cons,joinParts_cons_cons,joinParts_cons_cons,joinParts_singleton] at h
    rw [Option.map_some,scrollCommands,scrollCommands,htext,List.map_singleton]
    simp only [String.append_assoc] at h ⊢
    exact congrArg (fun text => [text]) h

def dragCommand (p q : ℤ × ℤ) : String := s!"{p.1} {p.2} drag {q.1} {q.2}"

theorem dragCommand_eq (p q : ℤ × ℤ) : dragCommand p q =
    joinParts [toString p.1,toString p.2,"drag",toString q.1,toString q.2] := by
  rw [joinParts_cons_cons,joinParts_cons_cons,joinParts_cons_cons,joinParts_cons_cons]
  rw [joinParts_singleton,dragCommand,show toString " drag " = " " ++ "drag" ++ " " from rfl]
  simp only [String.append_assoc]
  rfl

theorem isPart_drag (q : ℤ × ℤ) : ∀ part ∈ ["drag",toString q.1,toString q.2], IsPart part := by
  simp only [List.forall_mem_cons]
  exact ⟨by decide,isPart_toString q.1,isPart_toString q.2,by simp⟩

theorem scaleText_drag (k p q : ℤ × ℤ) :
    scaleText k (dragCommand p q) = dragCommand (scalePosition k p) (scalePosition k q) := by
  rw [dragCommand_eq p q,scaleText_position k p.1 p.2 (isPart_drag q),scaleTarget,readPart_toString]
  rw [readPart_toString]
  exact (dragCommand_eq (scalePosition k p) (scalePosition k q)).symm

theorem dragCommand_inj {p q p' q' : ℤ × ℤ} (h : dragCommand p q = dragCommand p' q') : q = q' := by
  have hparts : ∀ p q : ℤ × ℤ, parts (dragCommand p q) =
      [toString p.1,toString p.2,"drag",toString q.1,toString q.2] := fun p q => by
    rw [dragCommand_eq,parts_joinParts]
    exact List.forall_mem_cons.mpr ⟨isPart_toString p.1,
      List.forall_mem_cons.mpr ⟨isPart_toString p.2,isPart_drag q⟩⟩
  have heq := (hparts p q).symm.trans ((congrArg parts h).trans (hparts p' q'))
  have hread : ∀ {m n : ℤ}, toString m = toString n → m = n := fun {m n} hmn => by
    have hsome := (readPart_toString m).symm.trans ((congrArg readPart hmn).trans (readPart_toString n))
    exact Option.some.inj hsome
  injection heq with _ heq
  injection heq with _ heq
  injection heq with _ heq
  injection heq with hx heq
  injection heq with hy _
  exact Prod.ext (hread hx) (hread hy)

section Exact

variable {F E : Type} (py : Interpreter F E)

/-- Float arithmetic is exact as long as all numbers are integers of at most the limit, and
counts are written in decimal. -/
structure ExactFloats (embed : ℤ → F) (limit : ℕ) : Prop where
  float : ∀ n : ℤ, n.natAbs ≤ limit → py.floatOfInt n = .ok (embed n)
  round : ∀ n : ℤ, n.natAbs ≤ limit → py.round (embed n) = .ok n
  add : ∀ m n : ℤ, m.natAbs ≤ limit → n.natAbs ≤ limit → (m + n).natAbs ≤ limit →
    py.add (embed m) (embed n) = embed (m + n)
  mul : ∀ m n : ℤ, m.natAbs ≤ limit → n.natAbs ≤ limit → (m * n).natAbs ≤ limit →
    py.mul (embed m) (embed n) = embed (m * n)
  div : ∀ m n : ℤ, n ≠ 0 → m.natAbs ≤ limit → n.natAbs ≤ limit → (m * n).natAbs ≤ limit →
    py.div (embed (m * n)) (embed n) = embed m
  formatInt : ∀ n t, py.formatInt n = .ok t → t = toString n

/-- The slots with the coordinates of an action. -/
def point (action : Action) (info : CallInfo F) : Slot F × Slot F :=
  match action with
  | .drag => (info.arg 0 "xOffset" .none,info.arg 1 "yOffset" .none)
  | .scroll => (info.arg 1 "x" .none,info.arg 2 "y" .none)
  | .write => (some .none,some .none)
  | .press => (some .none,some .none)
  | .hotkey => (some .none,some .none)
  | .pause => (some .none,some .none)
  | _ => (info.arg 0 "x" .none,info.arg 1 "y" .none)

/-- An integer, or no coordinate. -/
def IsInteger (v : Slot F) : Prop := v = some .none ∨ ∃ n, v = some (.int n)

def magnitude : Slot F → ℕ
  | some (.int n) => n.natAbs
  | _ => 0

def actionOf (call : Call E) : Except Raised (Option (Action × CallInfo F)) :=
  (callInfo py call).map fun info => info.bind fun info =>
    (actions.lookup info.name).map fun action => (action,info)

def IntegerCoordinates (call : Call E) : Prop :=
  ∀ action info, actionOf py call = .ok (some (action,info)) →
    IsInteger (point action info).1 ∧ IsInteger (point action info).2

def callReach (call : Call E) : ℕ :=
  match actionOf py call with
  | .ok (some (action,info)) => magnitude (point action info).1 + magnitude (point action info).2
  | _ => 0

def reach (calls : List (Call E)) : ℕ := (calls.map (callReach py)).sum

def IsDrag (call : Call E) : Prop := ∃ info, actionOf py call = .ok (some (.drag,info))

/-- Scaling twice does as scaling once. -/
def ScalesOnce (k p : ℤ × ℤ) : Prop := (k.1 = 0 ∨ k.1 = 1 ∨ p.1 = 0) ∧ (k.2 = 0 ∨ k.2 = 1 ∨ p.2 = 0)

variable {py} {embed : ℤ → F} {limit : ℕ}

/-- Both axes multiply coordinates up to a bound, without an error. -/
structure Multiplies (py : Interpreter F E) (embed : ℤ → F) (sizes : Sizes) (k : ℤ × ℤ) (bound : ℕ) :
    Prop where
  float : ∀ n : ℤ, n.natAbs ≤ bound → py.floatOfInt n = .ok (embed n)
  add : ∀ m n : ℤ, m.natAbs ≤ bound → n.natAbs ≤ bound → (m + n).natAbs ≤ bound →
    py.add (embed m) (embed n) = embed (m + n)
  fst : ∀ n : ℤ, n.natAbs ≤ bound → scaleAxis py (sizes.axes.map Prod.fst) (embed n) =
    .ok (embed (k.1 * n)) ∧ py.round (embed (k.1 * n)) = .ok (k.1 * n)
  snd : ∀ n : ℤ, n.natAbs ≤ bound → scaleAxis py (sizes.axes.map Prod.snd) (embed n) =
    .ok (embed (k.2 * n)) ∧ py.round (embed (k.2 * n)) = .ok (k.2 * n)

theorem ExactFloats.plain (h : ExactFloats py embed limit) {bound : ℕ} (hbound : bound ≤ limit) :
    Multiplies py embed ⟨none,none⟩ (1,1) bound where
  float n hn := h.float n (hn.trans hbound)
  add m n hm hn hsum := h.add m n (hm.trans hbound) (hn.trans hbound) (hsum.trans hbound)
  fst n hn := by
    rw [Int.one_mul]
    exact ⟨rfl,h.round n (hn.trans hbound)⟩
  snd n hn := by
    rw [Int.one_mul]
    exact ⟨rfl,h.round n (hn.trans hbound)⟩

theorem ExactFloats.axis (h : ExactFloats py embed limit) {screen target k n : ℤ} {bound : ℕ}
    (hscreen : screen ≠ 0) (htarget : target = k * screen) (hn : n.natAbs ≤ bound)
    (hbound : bound ≤ limit) (hsizes : screen.natAbs ≤ limit ∧ target.natAbs ≤ limit)
    (hproduct : bound * target.natAbs ≤ limit) :
    scaleAxis py (some (target,screen)) (embed n) = .ok (embed (k * n)) ∧
      py.round (embed (k * n)) = .ok (k * n) := by
  have hnt : (n * target).natAbs ≤ limit := by
    rw [Int.natAbs_mul]
    exact (Nat.mul_le_mul_right _ hn).trans hproduct
  have hcross : n * target = k * n * screen := by
    rw [htarget,← Int.mul_assoc,Int.mul_comm n k]
  have hkn : (k * n).natAbs ≤ limit := by
    rw [hcross,Int.natAbs_mul] at hnt
    exact (Nat.le_mul_of_pos_right _ (Int.natAbs_pos.mpr hscreen)).trans hnt
  refine ⟨?_,h.round _ hkn⟩
  rw [scaleAxis,h.float target hsizes.2,h.float screen hsizes.1]
  change Except.ok (py.div (py.mul (embed n) (embed target)) (embed screen)) = _
  rw [h.mul n target (hn.trans hbound) hsizes.2 hnt,hcross]
  rw [h.div (k * n) screen hscreen hkn hsizes.1 (hcross ▸ hnt)]

theorem ExactFloats.multiplies (h : ExactFloats py embed limit) {screen target k : ℤ × ℤ} {bound : ℕ}
    (hscreen : screen.1 ≠ 0 ∧ screen.2 ≠ 0)
    (htarget : target.1 = k.1 * screen.1 ∧ target.2 = k.2 * screen.2) (hbound : bound ≤ limit)
    (hfst : screen.1.natAbs ≤ limit ∧ target.1.natAbs ≤ limit)
    (hsnd : screen.2.natAbs ≤ limit ∧ target.2.natAbs ≤ limit)
    (hproduct : bound * target.1.natAbs ≤ limit ∧ bound * target.2.natAbs ≤ limit) :
    Multiplies py embed ⟨some screen,some target⟩ k bound := by
  have haxes : (Sizes.mk (some screen) (some target)).axes =
      some ((target.1,screen.1),(target.2,screen.2)) := if_pos hscreen
  refine ⟨fun n hn => h.float n (hn.trans hbound),fun m n hm hn hsum =>
    h.add m n (hm.trans hbound) (hn.trans hbound) (hsum.trans hbound),fun n hn => ?_,fun n hn => ?_⟩
  · rw [haxes]
    exact h.axis hscreen.1 htarget.1 hn hbound hfst hproduct.1
  · rw [haxes]
    exact h.axis hscreen.2 htarget.2 hn hbound hsnd hproduct.2

variable {sizes : Sizes} {k : ℤ × ℤ} {bound : ℕ}

theorem Multiplies.scale (h : Multiplies py embed sizes k bound) {x y : Slot F} {a b : ℤ}
    (hx : toFloat py x = .ok (embed a)) (hy : toFloat py y = .ok (embed b))
    (ha : a.natAbs ≤ bound) (hb : b.natAbs ≤ bound) :
    Cua.scale py sizes x y = .ok (k.1 * a,k.2 * b) := by
  rw [Cua.scale,hx,hy]
  change ((scaleAxis py (sizes.axes.map Prod.fst) (embed a)).bind fun sx =>
    (scaleAxis py (sizes.axes.map Prod.snd) (embed b)).bind fun sy =>
      (py.round sx).bind fun xi => (py.round sy).map fun yi => (xi,yi)) = _
  rw [(h.fst a ha).1,(h.snd b hb).1]
  change ((py.round (embed (k.1 * a))).bind fun xi =>
    (py.round (embed (k.2 * b))).map fun yi => (xi,yi)) = _
  rw [(h.fst a ha).2,(h.snd b hb).2]
  rfl

theorem Multiplies.scale_eq (hplain : Multiplies py embed ⟨none,none⟩ (1,1) bound)
    (h : Multiplies py embed sizes k bound) {x y : Slot F} (hx : IsInteger x) (hy : IsInteger y)
    (hbound : magnitude x + magnitude y ≤ bound) :
    Cua.scale py sizes x y = (Cua.scale py ⟨none,none⟩ x y).map (scalePosition k) := by
  rcases hx with rfl | ⟨a,rfl⟩
  · rfl
  · have ha : a.natAbs ≤ bound := le_trans (Nat.le_add_right _ _) hbound
    have hfa : toFloat py (some (.int a)) = .ok (embed a) := hplain.float a ha
    rcases hy with rfl | ⟨b,rfl⟩
    · rw [Cua.scale,Cua.scale,hfa]
      rfl
    · have hb : b.natAbs ≤ bound := le_trans (Nat.le_add_left _ _) hbound
      have hfb : toFloat py (some (.int b)) = .ok (embed b) := hplain.float b hb
      rw [h.scale hfa hfb ha hb,hplain.scale hfa hfb ha hb,Int.one_mul,Int.one_mul]
      rfl

def image (k : ℤ × ℤ) (r : List String × Cursor) : List String × Cursor :=
  (r.1.map (scaleText k),r.2.map (scalePosition k))

theorem Multiplies.pointed_eq (hplain : Multiplies py embed ⟨none,none⟩ (1,1) bound)
    (h : Multiplies py embed sizes k bound) {x y : Slot F} (hx : IsInteger x) (hy : IsInteger y)
    (hbound : magnitude x + magnitude y ≤ bound) {emission : Option (ℤ × ℤ) → List String}
    (hemission : ∀ p, (emission p).map (scaleText k) = emission (p.map (scalePosition k)))
    (cursor : Cursor) : pointed py sizes x y (cursor.map (scalePosition k)) emission =
      (pointed py ⟨none,none⟩ x y cursor emission).map (image k) := by
  rw [pointed,pointed]
  by_cases hgiven : given x y = true
  · rw [if_pos hgiven,if_pos hgiven,hplain.scale_eq h hx hy hbound]
    cases Cua.scale py ⟨none,none⟩ x y with
    | error e => rfl
    | ok p => simp [Except.map,image,hemission]
  · rw [if_neg hgiven,if_neg hgiven]
    simp [Except.map,image,hemission]

theorem scaleText_type (k : ℤ × ℤ) (text : String) : scaleText k ("type " ++ text) = "type " ++ text :=
  @scaleText_keyboard k "type" (by decide) (by decide) text

theorem scaleText_press (k : ℤ × ℤ) (text : String) :
    scaleText k ("press " ++ text) = "press " ++ text :=
  @scaleText_keyboard k "press" (by decide) (by decide) text

theorem type_scale (k : ℤ × ℤ) (message : Slot F) :
    (type message).map (scaleText k) = type message := by
  unfold type
  split <;> simp [scaleText_type]

theorem pressKey_scale (k : ℤ × ℤ) (key : Slot F) :
    (pressKey py key).map (scaleText k) = pressKey py key := by
  unfold pressKey
  split <;> simp [scaleText_press]

theorem press_scale (k : ℤ × ℤ) (keys : Slot F) :
    (press py keys).map (scaleText k) = press py keys := by
  unfold press
  split
  · rw [List.map_flatMap]
    exact congrArg (fun f => List.flatMap f _) (funext fun key => pressKey_scale k (some key))
  · exact pressKey_scale k _

theorem hotkey_scale (k : ℤ × ℤ) (keys : List (Slot F)) :
    (hotkey py keys).map (scaleText k) = hotkey py keys := by
  rw [hotkey]
  split
  · rfl
  · simp [String.append_assoc,scaleText_press]

theorem holdCommand_of_lookup {name command : String} (h : actions.lookup name = some (.hold command)) :
    command = "here hold" ∨ command = "here release" := by
  obtain ⟨front,behind,hsplit,-⟩ := List.lookup_eq_some_iff.mp h
  have hmem : (name,Action.hold command) ∈ actions := by simp [hsplit]
  have hnames : name = "mouseDown" ∧ command = "here hold" ∨
      name = "mouseUp" ∧ command = "here release" := by simpa [actions] using hmem
  exact hnames.imp And.right And.right

theorem scaleText_hold (k : ℤ × ℤ) {name command : String}
    (h : actions.lookup name = some (.hold command)) : scaleText k command = command := by
  rcases holdCommand_of_lookup h with rfl | rfl
  · exact @scaleText_hereAct k "hold" (by decide)
  · exact @scaleText_hereAct k "release" (by decide)

theorem Multiplies.dragTo_eq (hplain : Multiplies py embed ⟨none,none⟩ (1,1) bound)
    (h : Multiplies py embed sizes k bound) {x y : Slot F} (hx : IsInteger x) (hy : IsInteger y)
    (hbound : magnitude x + magnitude y ≤ bound) (cursor : Cursor) :
    dragTo py sizes x y (cursor.map (scalePosition k)) =
      (dragTo py ⟨none,none⟩ x y cursor).map (image k) := by
  have hhold : scaleText k "here hold" = "here hold" := @scaleText_hereAct k "hold" (by decide)
  have hrelease : scaleText k "here release" = "here release" :=
    @scaleText_hereAct k "release" (by decide)
  rw [dragTo,dragTo,hplain.scale_eq h hx hy hbound]
  cases Cua.scale py ⟨none,none⟩ x y with
  | error e => rfl
  | ok p =>
    cases cursor with
    | none =>
      have hmove := @scaleText_suffix k p.1 p.2 "move" " move" (by decide) rfl
      change Except.ok _ = Except.ok _
      simp only [image,List.map_cons,List.map_nil,hhold,hrelease]
      exact congrArg (fun text => Except.ok (["here hold",text,"here release"],some _)) hmove.symm
    | some start =>
      have hdrag := scaleText_drag k start p
      exact congrArg (fun text => Except.ok ([text],some (scalePosition k p))) hdrag.symm

theorem Multiplies.perform_eq (hplain : Multiplies py embed ⟨none,none⟩ (1,1) bound)
    (h : Multiplies py embed sizes k bound) (hformat : ∀ n t, py.formatInt n = .ok t → IsPart t)
    {action : Action} {info : CallInfo F} (hname : actions.lookup info.name = some action)
    (hdrag : action ≠ .drag) (hx : IsInteger (point action info).1)
    (hy : IsInteger (point action info).2)
    (hbound : magnitude (point action info).1 + magnitude (point action info).2 ≤ bound)
    (cursor : Cursor) : perform py sizes action info (cursor.map (scalePosition k)) =
      (perform py ⟨none,none⟩ action info cursor).map (image k) := by
  cases action with
  | click =>
    have hclick := fun button n => hplain.pointed_eq h hx hy hbound
      (clickCommands_scale k button n) cursor
    simp only [perform]
    cases toText py (info.arg 4 "button" (.str "left")) with
    | error e => rfl
    | ok button =>
      change Except.bind _ _ = (Except.bind _ _).map (image k)
      cases toInt py (if truthy py (info.arg 2 "clicks" (.int 1)) then
          info.arg 2 "clicks" (.int 1) else some (.int 1)) with
      | error e => rfl
      | ok n => exact hclick button n
  | fixedClick button n =>
    exact hplain.pointed_eq h hx hy hbound (clickCommands_scale k button n) cursor
  | move =>
    dsimp only [point] at hx hy hbound
    change Except.map _ _ = (Except.map _ _).map (image k)
    rw [hplain.scale_eq h hx hy hbound]
    cases Cua.scale py ⟨none,none⟩ (info.arg 0 "x" .none) (info.arg 1 "y" .none) with
    | error e => rfl
    | ok p =>
      have hmove := @scaleText_suffix k p.1 p.2 "move" " move" (by decide) rfl
      exact congrArg (fun text => Except.ok ([text],some (scalePosition k p))) hmove.symm
  | dragTo => exact hplain.dragTo_eq h hx hy hbound cursor
  | drag => exact absurd rfl hdrag
  | scroll =>
    dsimp only [point] at hx hy hbound
    simp only [perform,scroll]
    cases toInt py (info.arg 0 "clicks" (.int 0)) with
    | error e => cases e <;> rfl
    | ok n =>
      dsimp only
      cases hcount : py.formatInt (if n = 0 then 1 else n.natAbs) with
      | error e =>
        by_cases hgiven : given (info.arg 1 "x" .none) (info.arg 2 "y" .none) = true
        · rw [if_pos hgiven,if_pos hgiven,hplain.scale_eq h hx hy hbound]
          cases Cua.scale py ⟨none,none⟩ (info.arg 1 "x" .none) (info.arg 2 "y" .none) <;> rfl
        · rw [if_neg hgiven,if_neg hgiven]
          rfl
      | ok count =>
        have hscroll := scrollCommands_scale k n (hformat _ _ hcount)
        by_cases hgiven : given (info.arg 1 "x" .none) (info.arg 2 "y" .none) = true
        · rw [if_pos hgiven,if_pos hgiven,hplain.scale_eq h hx hy hbound]
          cases Cua.scale py ⟨none,none⟩ (info.arg 1 "x" .none) (info.arg 2 "y" .none) with
          | error e => rfl
          | ok p =>
            exact congrArg (fun out => Except.ok (out,some (scalePosition k p))) (hscroll (some p)).symm
        · rw [if_neg hgiven,if_neg hgiven]
          exact congrArg (fun out => Except.ok (out,cursor.map (scalePosition k))) (hscroll none).symm
  | hold command =>
    exact hplain.pointed_eq h hx hy hbound (holdCommands_scale k (scaleText_hold k hname)) cursor
  | write => simp [perform,Except.map,image,type_scale]
  | press => simp [perform,Except.map,image,press_scale]
  | hotkey => simp [perform,Except.map,image,hotkey_scale]
  | pause => simp [perform,Except.map,image]

theorem Multiplies.dragRel_eq (h : Multiplies py embed sizes k bound) {start : ℤ × ℤ} {a b : ℤ}
    (hstart : start.1.natAbs ≤ bound ∧ start.2.natAbs ≤ bound) (ha : a.natAbs ≤ bound)
    (hb : b.natAbs ≤ bound) (hsum : (start.1 + a).natAbs ≤ bound ∧ (start.2 + b).natAbs ≤ bound) :
    dragRel py sizes (some (.int a)) (some (.int b)) (some start) =
      .ok ([dragCommand start (scalePosition k (start.1 + a,start.2 + b))],
        some (scalePosition k (start.1 + a,start.2 + b))) := by
  have hoffset : ∀ s d : ℤ, s.natAbs ≤ bound → d.natAbs ≤ bound → (s + d).natAbs ≤ bound →
      offsetFrom py s (some (.int d)) = .ok (embed (s + d)) := by
    intro s d hs hd hsd
    have hfloat : toFloat py (some (.int d)) = .ok (embed d) := h.float d hd
    rw [offsetFrom,hfloat]
    change (py.floatOfInt s).map _ = _
    rw [h.float s hs,← h.add s d hs hd hsd]
    rfl
  rw [dragRel]
  change (offsetFrom py start.1 (some (.int a))).bind _ = _
  rw [hoffset _ _ hstart.1 ha hsum.1]
  change (offsetFrom py start.2 (some (.int b))).bind _ = _
  rw [hoffset _ _ hstart.2 hb hsum.2]
  change dragTo py sizes (some (.float (embed (start.1 + a)))) (some (.float (embed (start.2 + b))))
    (some start) = _
  rw [dragTo,h.scale rfl rfl hsum.1 hsum.2]
  rfl

/-- The cursor is no farther out than a distance. -/
def Within (m : ℕ) (cursor : Cursor) : Prop :=
  ∀ p, cursor = some p → p.1.natAbs ≤ m ∧ p.2.natAbs ≤ m

theorem Within.mono {m n : ℕ} {cursor : Cursor} (h : Within m cursor) (hle : m ≤ n) :
    Within n cursor := fun p hp => ⟨(h p hp).1.trans hle,(h p hp).2.trans hle⟩

theorem Multiplies.scale_within (h : Multiplies py embed ⟨none,none⟩ (1,1) bound) {x y : Slot F}
    (hx : IsInteger x) (hy : IsInteger y) {m : ℕ} (hm : magnitude x + magnitude y ≤ m)
    (hbound : m ≤ bound) {p : ℤ × ℤ} (hp : Cua.scale py ⟨none,none⟩ x y = .ok p) :
    p.1.natAbs ≤ m ∧ p.2.natAbs ≤ m := by
  rcases hx with rfl | ⟨a,rfl⟩
  · cases hp
  · have ha : a.natAbs ≤ m := le_trans (Nat.le_add_right _ _) hm
    have hfa : toFloat py (some (.int a)) = .ok (embed a) := h.float a (ha.trans hbound)
    rcases hy with rfl | ⟨b,rfl⟩
    · rw [Cua.scale,hfa] at hp
      cases hp
    · have hb : b.natAbs ≤ m := le_trans (Nat.le_add_left _ _) hm
      have hfb : toFloat py (some (.int b)) = .ok (embed b) := h.float b (hb.trans hbound)
      rw [h.scale hfa hfb (ha.trans hbound) (hb.trans hbound),Int.one_mul,Int.one_mul] at hp
      obtain rfl := Except.ok.inj hp
      exact ⟨ha,hb⟩

theorem Multiplies.pointed_within (h : Multiplies py embed ⟨none,none⟩ (1,1) bound) {x y : Slot F}
    (hx : IsInteger x) (hy : IsInteger y) {m : ℕ} (hm : magnitude x + magnitude y ≤ m)
    (hbound : m ≤ bound) {emission : Option (ℤ × ℤ) → List String} {cursor v : Cursor}
    {out : List String} (hcursor : Within m cursor)
    (hp : pointed py ⟨none,none⟩ x y cursor emission = .ok (out,v)) : Within m v := by
  rw [pointed] at hp
  split at hp
  · obtain ⟨p,hscaled,heq⟩ := map_eq_ok.mp hp
    obtain ⟨-,rfl⟩ := Prod.mk.inj heq
    intro q hq
    obtain rfl := Option.some.inj hq
    exact h.scale_within hx hy hm hbound hscaled
  · obtain ⟨-,rfl⟩ := Prod.mk.inj (Except.ok.inj hp)
    exact hcursor

theorem Multiplies.perform_within (h : Multiplies py embed ⟨none,none⟩ (1,1) bound)
    {action : Action} {info : CallInfo F} (hdrag : action ≠ .drag)
    (hx : IsInteger (point action info).1) (hy : IsInteger (point action info).2) {m : ℕ}
    (hm : magnitude (point action info).1 + magnitude (point action info).2 ≤ m) (hbound : m ≤ bound)
    {cursor v : Cursor} {out : List String} (hcursor : Within m cursor)
    (hp : perform py ⟨none,none⟩ action info cursor = .ok (out,v)) : Within m v := by
  have hscale : ∀ {p : ℤ × ℤ},
      Cua.scale py ⟨none,none⟩ (point action info).1 (point action info).2 = .ok p →
        Within m (some p) := by
    intro p hp q hq
    obtain rfl := Option.some.inj hq
    exact h.scale_within hx hy hm hbound hp
  cases action with
  | click =>
    obtain ⟨button,-,hp⟩ := bind_eq_ok.mp hp
    obtain ⟨n,-,hp⟩ := bind_eq_ok.mp hp
    exact h.pointed_within hx hy hm hbound hcursor hp
  | fixedClick button n => exact h.pointed_within hx hy hm hbound hcursor hp
  | move =>
    obtain ⟨p,hscaled,heq⟩ := map_eq_ok.mp hp
    obtain ⟨-,rfl⟩ := Prod.mk.inj heq
    exact hscale hscaled
  | dragTo =>
    obtain ⟨p,hscaled,heq⟩ := map_eq_ok.mp hp
    cases cursor <;>
    · obtain ⟨-,rfl⟩ := Prod.mk.inj heq
      exact hscale hscaled
  | drag => exact absurd rfl hdrag
  | scroll =>
    rw [perform,scroll] at hp
    split at hp
    · obtain ⟨-,rfl⟩ := Prod.mk.inj (Except.ok.inj hp)
      exact hcursor
    · obtain ⟨-,rfl⟩ := Prod.mk.inj (Except.ok.inj hp)
      exact hcursor
    · cases hp
    · dsimp only at hp
      split at hp
      · obtain ⟨p,hscaled,hcount⟩ := bind_eq_ok.mp hp
        obtain ⟨count,-,heq⟩ := map_eq_ok.mp hcount
        obtain ⟨-,rfl⟩ := Prod.mk.inj heq
        exact hscale hscaled
      · obtain ⟨count,-,heq⟩ := map_eq_ok.mp hp
        obtain ⟨-,rfl⟩ := Prod.mk.inj heq
        exact hcursor
  | hold command => exact h.pointed_within hx hy hm hbound hcursor hp
  | write =>
    obtain ⟨-,rfl⟩ := Prod.mk.inj (Except.ok.inj hp)
    exact hcursor
  | press =>
    obtain ⟨-,rfl⟩ := Prod.mk.inj (Except.ok.inj hp)
    exact hcursor
  | hotkey =>
    obtain ⟨-,rfl⟩ := Prod.mk.inj (Except.ok.inj hp)
    exact hcursor
  | pause =>
    obtain ⟨-,rfl⟩ := Prod.mk.inj (Except.ok.inj hp)
    exact hcursor

theorem offsets_of_dragRel {dx dy : Slot F} (hx : IsInteger dx) (hy : IsInteger dy)
    {start : ℤ × ℤ} {r : List String × Cursor}
    (h : dragRel py sizes dx dy (some start) = .ok r) :
    ∃ a b, dx = some (.int a) ∧ dy = some (.int b) := by
  obtain ⟨x,hoffset,h⟩ := bind_eq_ok.mp h
  obtain ⟨y,hoffset',-⟩ := bind_eq_ok.mp h
  rcases hx with rfl | ⟨a,rfl⟩
  · cases hoffset
  · rcases hy with rfl | ⟨b,rfl⟩
    · cases hoffset'
    · exact ⟨a,b,rfl,rfl⟩

theorem scale_twice_iff (k s a : ℤ) : k * (k * s + a) = k * (s + a) ↔ k = 0 ∨ k = 1 ∨ s = 0 := by
  constructor
  · intro h
    by_cases hk : k = 0
    · exact .inl hk
    · have hsum : k * s + a = s + a := Int.eq_of_mul_eq_mul_left hk h
      have hprod : (k - 1) * s = 0 := by
        rw [Int.sub_mul]
        omega
      rcases Int.mul_eq_zero.mp hprod with h | h
      · exact .inr (.inl (by omega))
      · exact .inr (.inr h)
  · rintro (rfl | rfl | rfl)
    · simp
    · simp
    · simp

theorem step_of_action {call : Call E} {action : Action} {info : CallInfo F}
    (h : actionOf py call = .ok (some (action,info))) :
    actions.lookup info.name = some action ∧
      ∀ sizes cursor, step py sizes cursor call = perform py sizes action info cursor := by
  obtain ⟨found,hinfo,hfound⟩ := map_eq_ok.mp h
  cases found with
  | none => cases hfound
  | some info' =>
    obtain ⟨action',haction,heq⟩ := Option.map_eq_some_iff.mp hfound
    obtain ⟨rfl,rfl⟩ := Prod.mk.inj heq
    refine ⟨haction,fun sizes cursor => ?_⟩
    rw [step,hinfo]
    change dispatch py sizes info' cursor = _
    rw [dispatch,haction]

theorem step_of_no_action {call : Call E} (h : actionOf py call = .ok none) (sizes : Sizes)
    (cursor : Cursor) : step py sizes cursor call = .ok ([],cursor) := by
  obtain ⟨found,hinfo,hfound⟩ := map_eq_ok.mp h
  rw [step,hinfo]
  cases found with
  | none => rfl
  | some info =>
    change dispatch py sizes info cursor = _
    rw [dispatch,Option.map_eq_none_iff.mp hfound]

theorem step_of_error {call : Call E} {e : Raised} (h : actionOf py call = .error e) (sizes : Sizes)
    (cursor : Cursor) : step py sizes cursor call = .error e := by
  rw [actionOf] at h
  rw [step]
  cases hinfo : callInfo py call with
  | error e' =>
    rw [hinfo] at h
    cases h
    rfl
  | ok info =>
    rw [hinfo] at h
    cases h

/-- A call that does not scale an end twice. -/
def Steady (py : Interpreter F E) (k : ℤ × ℤ) (cursor : Cursor) (call : Call E) : Prop :=
  ∀ start, cursor = some start → IsDrag py call → ScalesOnce k start

theorem natAbs_add_le_room {k s a : ℤ} {κ m r room : ℕ} (hk : k.natAbs + 1 ≤ κ) (hs : s.natAbs ≤ m)
    (ha : a.natAbs ≤ r) (hroom : κ * (m + r) ≤ room) :
    (k * s).natAbs ≤ room ∧ (k * s + a).natAbs ≤ room := by
  have hprod : (k * s).natAbs ≤ k.natAbs * m := by
    rw [Int.natAbs_mul]
    exact Nat.mul_le_mul_left _ hs
  have hgrow : (k.natAbs + 1) * (m + r) ≤ room := (Nat.mul_le_mul_right _ hk).trans hroom
  have hexpand : (k.natAbs + 1) * (m + r) = k.natAbs * m + k.natAbs * r + m + r := by
    rw [Nat.add_mul,Nat.mul_add]
    omega
  have hsum := Int.natAbs_add_le (k * s) a
  omega

theorem Multiplies.dragRel_image (hplain : Multiplies py embed ⟨none,none⟩ (1,1) bound)
    (h : Multiplies py embed sizes k bound) {start : ℤ × ℤ} {a b : ℤ} {m r : ℕ}
    (hstart : start.1.natAbs ≤ m ∧ start.2.natAbs ≤ m) (hab : a.natAbs + b.natAbs ≤ r)
    (hroom : (k.1.natAbs + k.2.natAbs + 1) * (m + r) ≤ bound) :
    dragRel py ⟨none,none⟩ (some (.int a)) (some (.int b)) (some start) =
        .ok ([dragCommand start (start.1 + a,start.2 + b)],some (start.1 + a,start.2 + b)) ∧
      dragRel py sizes (some (.int a)) (some (.int b)) (some (scalePosition k start)) =
        .ok ([dragCommand (scalePosition k start)
            (scalePosition k (k.1 * start.1 + a,k.2 * start.2 + b))],
          some (scalePosition k (k.1 * start.1 + a,k.2 * start.2 + b))) := by
  have ha : a.natAbs ≤ r := le_trans (Nat.le_add_right _ _) hab
  have hb : b.natAbs ≤ r := le_trans (Nat.le_add_left _ _) hab
  have hsmall : m + r ≤ bound := (Nat.le_mul_of_pos_left _ (Nat.succ_pos _)).trans hroom
  have hsum := Int.natAbs_add_le start.1 a
  have hsum' := Int.natAbs_add_le start.2 b
  have hfst := natAbs_add_le_room (show k.1.natAbs + 1 ≤ _ by omega) hstart.1 ha hroom
  have hsnd := natAbs_add_le_room (show k.2.natAbs + 1 ≤ _ by omega) hstart.2 hb hroom
  refine ⟨?_,h.dragRel_eq ⟨hfst.1,hsnd.1⟩ (by omega) (by omega) ⟨hfst.2,hsnd.2⟩⟩
  have hrel := hplain.dragRel_eq (show start.1.natAbs ≤ bound ∧ start.2.natAbs ≤ bound by omega)
    (show a.natAbs ≤ bound by omega) (show b.natAbs ≤ bound by omega) (by omega)
  rwa [scalePosition,Int.one_mul,Int.one_mul] at hrel

/-- What one call with its coordinates scaled has to do with the same call unscaled. -/
def StepImage (py : Interpreter F E) (sizes : Sizes) (k : ℤ × ℤ) (cursor : Cursor) (call : Call E)
    (out : List String) (v : Cursor) : Prop :=
  (Steady py k cursor call → step py sizes (cursor.map (scalePosition k)) call =
      .ok (out.map (scaleText k),v.map (scalePosition k))) ∧
    (¬ Steady py k cursor call → ∀ out' v',
      step py sizes (cursor.map (scalePosition k)) call = .ok (out',v') →
        out'.length = out.length ∧ out' ≠ out.map (scaleText k))

theorem stepImage_of_steady {cursor v : Cursor} {call : Call E} {out : List String}
    (hsteady : Steady py k cursor call)
    (h : step py sizes (cursor.map (scalePosition k)) call =
      .ok (out.map (scaleText k),v.map (scalePosition k))) : StepImage py sizes k cursor call out v :=
  ⟨fun _ => h,fun hn => absurd hsteady hn⟩

theorem Multiplies.step_drag (hplain : Multiplies py embed ⟨none,none⟩ (1,1) bound)
    (h : Multiplies py embed sizes k bound) {call : Call E} {info : CallInfo F}
    (haction : actionOf py call = .ok (some (.drag,info))) (hx : IsInteger (point .drag info).1)
    (hy : IsInteger (point .drag info).2) {m : ℕ} {start : ℤ × ℤ}
    (hstart : start.1.natAbs ≤ m ∧ start.2.natAbs ≤ m)
    (hroom : (k.1.natAbs + k.2.natAbs + 1) * (m + callReach py call) ≤ bound)
    {out : List String} {v : Cursor} (hstep : step py ⟨none,none⟩ (some start) call = .ok (out,v)) :
    Within (m + callReach py call) v ∧ StepImage py sizes k (some start) call out v := by
  have hperform := (step_of_action haction).2
  rw [hperform] at hstep
  obtain ⟨a,b,ha,hb⟩ := offsets_of_dragRel hx hy hstep
  have hreach : callReach py call = a.natAbs + b.natAbs := by
    rw [callReach,haction]
    exact congrArg₂ (fun x y => magnitude x + magnitude y) ha hb
  obtain ⟨hrel,hrel'⟩ := hplain.dragRel_image h hstart hreach.ge hroom
  have hcall : perform py ⟨none,none⟩ .drag info (some start) = _ :=
    (congrArg₂ (fun x y => dragRel py ⟨none,none⟩ x y (some start)) ha hb).trans hrel
  have hcall' : step py sizes (some (scalePosition k start)) call = _ :=
    (hperform sizes (some (scalePosition k start))).trans
      ((congrArg₂ (fun x y => dragRel py sizes x y (some (scalePosition k start))) ha hb).trans hrel')
  have hsteady : Steady py k (some start) call ↔
      scalePosition k (k.1 * start.1 + a,k.2 * start.2 + b) =
        scalePosition k (start.1 + a,start.2 + b) := by
    rw [scalePosition,scalePosition,Prod.mk.injEq,scale_twice_iff,scale_twice_iff]
    constructor
    · exact fun hs => hs start rfl ⟨info,haction⟩
    · rintro hs start' hstart' -
      obtain rfl := Option.some.inj hstart'
      exact hs
  rw [hcall] at hstep
  obtain ⟨rfl,rfl⟩ := Prod.mk.inj (Except.ok.inj hstep)
  have hscaled := scaleText_drag k start (start.1 + a,start.2 + b)
  refine ⟨fun p hp => ?_,fun hs => ?_,fun hs out' v' hout => ?_⟩
  · obtain rfl := Option.some.inj hp
    have hsum := Int.natAbs_add_le start.1 a
    have hsum' := Int.natAbs_add_le start.2 b
    constructor <;> omega
  · rw [Option.map_some,hcall',List.map_singleton,hscaled,hsteady.mp hs]
    rfl
  · rw [Option.map_some,hcall'] at hout
    obtain ⟨rfl,-⟩ := Prod.mk.inj (Except.ok.inj hout)
    refine ⟨rfl,fun heq => hs (hsteady.mpr ?_)⟩
    rw [List.map_singleton,hscaled] at heq
    exact dragCommand_inj (List.cons.inj heq).1

theorem Multiplies.step_image (hplain : Multiplies py embed ⟨none,none⟩ (1,1) bound)
    (h : Multiplies py embed sizes k bound) (hformat : ∀ n t, py.formatInt n = .ok t → IsPart t)
    {call : Call E} (hint : IntegerCoordinates py call) {m : ℕ} {cursor : Cursor}
    (hcursor : Within m cursor)
    (hroom : (k.1.natAbs + k.2.natAbs + 1) * (m + callReach py call) ≤ bound)
    {out : List String} {v : Cursor} (hstep : step py ⟨none,none⟩ cursor call = .ok (out,v)) :
    Within (m + callReach py call) v ∧ StepImage py sizes k cursor call out v := by
  cases haction : actionOf py call with
  | error e =>
    rw [step_of_error haction] at hstep
    cases hstep
  | ok found =>
    cases found with
    | none =>
      have hsteady : Steady py k cursor call := by
        rintro start - ⟨info,hdrag⟩
        simp [haction] at hdrag
      rw [step_of_no_action haction] at hstep
      obtain ⟨rfl,rfl⟩ := Prod.mk.inj (Except.ok.inj hstep)
      refine ⟨hcursor.mono (Nat.le_add_right _ _),stepImage_of_steady hsteady ?_⟩
      rw [step_of_no_action haction,List.map_nil]
    | some found =>
      obtain ⟨action,info⟩ := found
      obtain ⟨hname,hperform⟩ := step_of_action haction
      obtain ⟨hx,hy⟩ := hint action info haction
      by_cases hdrag : action = .drag
      · subst hdrag
        cases cursor with
        | none =>
          rw [hperform] at hstep
          obtain ⟨rfl,rfl⟩ := Prod.mk.inj (Except.ok.inj hstep)
          refine ⟨fun p hp => by simp at hp,stepImage_of_steady (fun p hp => by simp at hp) ?_⟩
          rw [hperform]
          rfl
        | some start => exact hplain.step_drag h haction hx hy (hcursor start rfl) hroom hstep
      · have hreach : callReach py call =
            magnitude (point action info).1 + magnitude (point action info).2 := by
          rw [callReach,haction]
        have hsmall : m + callReach py call ≤ bound :=
          (Nat.le_mul_of_pos_left _ (Nat.succ_pos _)).trans hroom
        have hmag : magnitude (point action info).1 + magnitude (point action info).2 ≤
            m + callReach py call := hreach ▸ Nat.le_add_left _ _
        have hsteady : Steady py k cursor call := by
          rintro start - ⟨info',hdrag'⟩
          simp only [haction,Except.ok.injEq,Option.some.injEq,Prod.mk.injEq] at hdrag'
          exact absurd hdrag'.1 hdrag
        have heq := hplain.perform_eq h hformat hname hdrag hx hy (hmag.trans hsmall) cursor
        rw [hperform] at hstep
        rw [hstep] at heq
        refine ⟨hplain.perform_within hdrag hx hy hmag hsmall
          (hcursor.mono (Nat.le_add_right _ _)) hstep,stepImage_of_steady hsteady ?_⟩
        rw [hperform]
        exact heq

theorem Multiplies.throughout_image (hplain : Multiplies py embed ⟨none,none⟩ (1,1) bound)
    (h : Multiplies py embed sizes k bound) (hformat : ∀ n t, py.formatInt n = .ok t → IsPart t)
    {calls : List (Call E)} (hint : ∀ call ∈ calls, IntegerCoordinates py call) {m : ℕ}
    {cursor : Cursor} (hcursor : Within m cursor)
    (hroom : (k.1.natAbs + k.2.natAbs + 1) * (m + reach py calls) ≤ bound) :
    Throughout (step py ⟨none,none⟩) (fun u call => ∀ out v,
      step py ⟨none,none⟩ u call = .ok (out,v) → StepImage py sizes k u call out v) cursor calls := by
  induction calls generalizing m cursor with
  | nil => exact throughout_nil cursor
  | cons call calls ih =>
    have hreach : reach py (call :: calls) = callReach py call + reach py calls := List.sum_cons
    rw [hreach,← Nat.add_assoc] at hroom
    have hhere : (k.1.natAbs + k.2.natAbs + 1) * (m + callReach py call) ≤ bound :=
      (Nat.mul_le_mul_left _ (Nat.le_add_right _ _)).trans hroom
    have hcall := fun out v => @Multiplies.step_image F E py embed sizes k bound hplain h hformat call
      (hint call List.mem_cons_self) m cursor hcursor hhere out v
    cases hstep : step py ⟨none,none⟩ cursor call with
    | error e => exact (throughout_cons_error hstep).mpr fun out v hout => (hcall out v hout).2
    | ok r =>
      obtain ⟨out,u⟩ := r
      rw [throughout_cons hstep]
      refine ⟨fun out v hout => (hcall out v hout).2,?_⟩
      exact ih (fun c hc => hint c (List.mem_cons_of_mem _ hc)) (hcall out u hstep).1 hroom

theorem reach_sortCalls (calls : List (Call E)) : reach py (sortCalls calls) = reach py calls :=
  ((List.perm_insertionSort before calls).map (callReach py)).sum_nat

/-- With sizes whose quotient is a pair of integers, a program of integer coordinates has its
commands scaled exactly when no relative drag starts where scaling twice is not scaling once. -/
theorem pyautoguiToGrammar_scaled_iff (py : Interpreter F E) {embed : ℤ → F} {limit : ℕ}
    (hexact : ExactFloats py embed limit) {screen target k : ℤ × ℤ}
    (hscreen : screen.1 ≠ 0 ∧ screen.2 ≠ 0) (htarget : target = scalePosition k screen)
    {calls : List (Call E)} (hint : ∀ call ∈ calls, IntegerCoordinates py call)
    (hlimit : (k.1.natAbs + k.2.natAbs + 1) * (reach py calls + 1) *
      (screen.1.natAbs + screen.2.natAbs + target.1.natAbs + target.2.natAbs + 1) ≤ limit)
    {commands : List String}
    (hcommands : pyautoguiToGrammar py ⟨none,none⟩ (some calls) = .ok commands) :
    pyautoguiToGrammar py ⟨some screen,some target⟩ (some calls) =
        .ok (commands.map (scaleText k)) ↔
      Throughout (step py ⟨none,none⟩) (Steady py k) none (sortCalls calls) := by
  obtain ⟨⟨entries,t⟩,hrun,rfl⟩ := map_eq_ok.mp hcommands
  have hpos : 1 ≤ (k.1.natAbs + k.2.natAbs + 1) * (reach py calls + 1) :=
    Nat.mul_pos (Nat.succ_pos _) (Nat.succ_pos _)
  have hsize := (Nat.le_mul_of_pos_left
    (screen.1.natAbs + screen.2.natAbs + target.1.natAbs + target.2.natAbs + 1) hpos).trans hlimit
  have hbound := (Nat.le_mul_of_pos_right ((k.1.natAbs + k.2.natAbs + 1) * (reach py calls + 1))
    (Nat.succ_pos (screen.1.natAbs + screen.2.natAbs + target.1.natAbs + target.2.natAbs))).trans hlimit
  have hproduct : ∀ d, d ≤ screen.1.natAbs + screen.2.natAbs + target.1.natAbs + target.2.natAbs + 1 →
      (k.1.natAbs + k.2.natAbs + 1) * (reach py calls + 1) * d ≤ limit := fun d hd =>
    (Nat.mul_le_mul_left _ hd).trans hlimit
  have hplain := hexact.plain hbound
  have hscaled := hexact.multiplies hscreen (Prod.mk.inj htarget) hbound (by omega) (by omega)
    ⟨hproduct _ (by omega),hproduct _ (by omega)⟩
  have hformat : ∀ n t, py.formatInt n = .ok t → IsPart t := fun n t ht => by
    rw [hexact.formatInt n t ht]
    exact isPart_toString n
  have hroom : (k.1.natAbs + k.2.natAbs + 1) * (0 + reach py (sortCalls calls)) ≤
      (k.1.natAbs + k.2.natAbs + 1) * (reach py calls + 1) := by
    rw [reach_sortCalls,Nat.zero_add]
    exact Nat.mul_le_mul_left _ (Nat.le_succ _)
  have himage := hplain.throughout_image hscaled hformat
    (fun call hcall => hint call ((List.mem_insertionSort before).mp hcall))
    (show Within 0 none from fun p hp => by simp at hp) hroom
  have hiff := emit_image_iff (scaleText k) (Option.map (scalePosition k)) hrun
    (fun front call behind x u hsplit hfront hsteady out v hout =>
      (himage front call behind x u hsplit hfront out v hout).1 hsteady)
    (fun front call behind x u hsplit hfront hsteady out v hout =>
      (himage front call behind x u hsplit hfront out v hout).2 hsteady)
  rw [← hiff]
  constructor
  · intro h
    obtain ⟨⟨entries',t'⟩,hrun',heq⟩ := map_eq_ok.mp h
    exact ⟨entries',t',hrun',heq⟩
  · rintro ⟨entries',t',hrun',heq⟩
    exact map_eq_ok.mpr ⟨(entries',t'),hrun',heq⟩

end Exact

/-- `moveTo(10, 10)` and `drag(5, 5)` on the next line. -/
def moveThenDrag : List (Call (Option ℤ)) :=
  [⟨1,0,some "moveTo",[.plain (some 10),.plain (some 10)],[]⟩,
    ⟨2,0,some "drag",[.plain (some 5),.plain (some 5)],[]⟩]

theorem sampleInterpreter_exact (limit : ℕ) : ExactFloats sampleInterpreter id limit where
  float _ _ := rfl
  round _ _ := rfl
  add _ _ _ _ _ := rfl
  mul _ _ _ _ _ := rfl
  div m _ hn _ _ _ := Int.mul_tdiv_cancel m hn
  formatInt _ _ h := (Except.ok.inj h).symm

theorem moveThenDrag_integers : ∀ call ∈ moveThenDrag, IntegerCoordinates sampleInterpreter call := by
  have hmove : actionOf sampleInterpreter ⟨1,0,some "moveTo",[.plain (some 10),.plain (some 10)],[]⟩ =
      .ok (some (.move,⟨"moveTo",[some (.int 10),some (.int 10)],[]⟩)) := rfl
  have hdrag : actionOf sampleInterpreter ⟨2,0,some "drag",[.plain (some 5),.plain (some 5)],[]⟩ =
      .ok (some (.drag,⟨"drag",[some (.int 5),some (.int 5)],[]⟩)) := rfl
  intro call hcall action info haction
  rcases List.mem_cons.mp hcall with rfl | hcall
  · rw [hmove] at haction
    simp only [Except.ok.injEq,Option.some.injEq,Prod.mk.injEq] at haction
    obtain ⟨rfl,rfl⟩ := haction
    exact ⟨.inr ⟨10,rfl⟩,.inr ⟨10,rfl⟩⟩
  · obtain rfl := List.mem_singleton.mp hcall
    rw [hdrag] at haction
    simp only [Except.ok.injEq,Option.some.injEq,Prod.mk.injEq] at haction
    obtain ⟨rfl,rfl⟩ := haction
    exact ⟨.inr ⟨5,rfl⟩,.inr ⟨5,rfl⟩⟩

theorem pyautoguiToGrammar_scaled_iff_moveThenDrag :
    pyautoguiToGrammar sampleInterpreter ⟨some (100,100),some (200,200)⟩ (some moveThenDrag) =
        .ok (["10 10 move","10 10 drag 15 15"].map (scaleText (2,2))) ↔
      Throughout (step sampleInterpreter ⟨none,none⟩) (Steady sampleInterpreter (2,2)) none
        (sortCalls moveThenDrag) :=
  pyautoguiToGrammar_scaled_iff sampleInterpreter (sampleInterpreter_exact 100000)
    ⟨by decide,by decide⟩ (by decide) moveThenDrag_integers (by decide) (by decide)

/-- On a desktop twice as large the drag should end at 30 and ends at 50. -/
theorem moveThenDrag_scaled_twice :
    pyautoguiToGrammar sampleInterpreter ⟨none,none⟩ (some moveThenDrag) =
        .ok ["10 10 move","10 10 drag 15 15"] ∧
      pyautoguiToGrammar sampleInterpreter ⟨some (100,100),some (200,200)⟩ (some moveThenDrag) =
        .ok ["20 20 move","20 20 drag 50 50"] ∧
      ["20 20 move","20 20 drag 50 50"] ≠ ["10 10 move","10 10 drag 15 15"].map (scaleText (2,2)) := by
  refine ⟨by decide,by decide,by decide⟩

end Cua
end DockyardRL
