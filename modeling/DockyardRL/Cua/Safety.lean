import DockyardRL.Cua.Transpile

/-! When a pyautogui program is transpiled to the end, with its unsupported and
unresolvable calls skipped. -/
namespace DockyardRL
namespace Cua

open Emitter Fallible

variable {F E : Type} (py : Interpreter F E) (sizes : Sizes)

/-- The arguments an action reads, by position and by keyword. -/
def readSlots : Action → List (ℕ × String)
  | .click => [(0,"x"),(1,"y"),(2,"clicks"),(4,"button")]
  | .drag => [(0,"xOffset"),(1,"yOffset")]
  | .scroll => [(0,"clicks"),(1,"x"),(2,"y")]
  | .write => [(0,"message")]
  | .press => [(0,"keys")]
  | .hotkey => []
  | .pause => []
  | _ => [(0,"x"),(1,"y")]

/-- The argument is there and no literal. -/
def SlotUnresolved (info : CallInfo F) (slot : ℕ × String) : Prop :=
  (∀ v, info.args[slot.1]? ≠ some (some v)) ∧
    (info.kwargs.lookup slot.2 = some none ∨
      (info.args[slot.1]? = some none ∧ info.kwargs.lookup slot.2 = none))

/-- A call of a known name that reads an argument which is no literal. -/
def Unresolvable (action : Action) (info : CallInfo F) : Prop :=
  (∃ slot ∈ readSlots action, SlotUnresolved info slot) ∨ (action = .hotkey ∧ none ∈ info.args)

/-- The calls that should be skipped: unsupported or unresolvable ones. -/
def Skipped (call : Call E) : Prop :=
  callInfo py call = .ok none ∨ ∃ info, callInfo py call = .ok (some info) ∧
    ∀ action, actions.lookup info.name = some action → Unresolvable action info

/-- `float(v)` is defined and can be scaled and rounded. -/
def Coordinate (axis : Option (ℤ × ℤ)) (v : Slot F) : Prop :=
  ∃ f g n, toFloat py v = .ok f ∧ scaleAxis py axis f = .ok g ∧ py.round g = .ok n

def Coordinates (x y : Slot F) : Prop :=
  Coordinate py (sizes.axes.map Prod.fst) x ∧ Coordinate py (sizes.axes.map Prod.snd) y

/-- What an action needs of its arguments and of the cursor. -/
def Harmless (cursor : Cursor) (info : CallInfo F) : Action → Prop
  | .click => ¬ Unresolvable .click info ∧
      (∃ t, toText py (info.arg 4 "button" (.str "left")) = .ok t) ∧
      (∃ n, toInt py (if truthy py (info.arg 2 "clicks" (.int 1)) then
        info.arg 2 "clicks" (.int 1) else some (.int 1)) = .ok n) ∧
      (given (info.arg 0 "x" .none) (info.arg 1 "y" .none) = true →
        Coordinates py sizes (info.arg 0 "x" .none) (info.arg 1 "y" .none))
  | .scroll => match toInt py (info.arg 0 "clicks" (.int 0)) with
    | .ok n => ¬ Unresolvable .scroll info ∧
        (∃ t, py.formatInt (if n = 0 then 1 else n.natAbs) = .ok t) ∧
        (given (info.arg 1 "x" .none) (info.arg 2 "y" .none) = true →
          Coordinates py sizes (info.arg 1 "x" .none) (info.arg 2 "y" .none))
    | .error e => e = .typeError ∨ e = .valueError
  | .move => Coordinates py sizes (info.arg 0 "x" .none) (info.arg 1 "y" .none)
  | .dragTo => Coordinates py sizes (info.arg 0 "x" .none) (info.arg 1 "y" .none)
  | .drag => ∀ start, cursor = some start →
      ∃ x y, offsetFrom py start.1 (info.arg 0 "xOffset" .none) = .ok x ∧
        offsetFrom py start.2 (info.arg 1 "yOffset" .none) = .ok y ∧
        Coordinates py sizes (some (.float x)) (some (.float y))
  | .hotkey => none ∈ info.args → literalKeys info.args = []
  | .write => True
  | .press => True
  | .pause => True
  | action => ¬ Unresolvable action info ∧
      (given (info.arg 0 "x" .none) (info.arg 1 "y" .none) = true →
        Coordinates py sizes (info.arg 0 "x" .none) (info.arg 1 "y" .none))

def plainArgs : List (Argument E) → List E
  | .plain e :: rest => e :: plainArgs rest
  | _ => []

def hasStar (args : List (Argument E)) : Bool :=
  args.any fun
    | .plain _ => false
    | .starred _ => true

def namedKeywords (keywords : List (Option String × E)) : List E :=
  keywords.filterMap fun keyword => keyword.1.map fun _ => keyword.2

def evaluated (call : Call E) : List E :=
  plainArgs call.args ++ if hasStar call.args then [] else namedKeywords call.keywords

/-- A call that the transpiler treats as it should. -/
def Clean (cursor : Cursor) (call : Call E) : Prop :=
  (call.func.isSome → ∀ e ∈ evaluated call, py.literalEval e ≠ .error .other) ∧
    ∀ info, callInfo py call = .ok (some info) →
      ∀ action, actions.lookup info.name = some action → Harmless py sizes cursor info action

variable {py sizes}

theorem scale_ok_iff {x y : Slot F} :
    (∃ p, scale py sizes x y = .ok p) ↔ Coordinates py sizes x y := by
  simp only [scale,Coordinates,Coordinate,bind_eq_ok,map_eq_ok]
  constructor
  · rintro ⟨_,fx,hfx,fy,hfy,sx,hsx,sy,hsy,xi,hxi,yi,hyi,-⟩
    exact ⟨⟨fx,sx,xi,hfx,hsx,hxi⟩,⟨fy,sy,yi,hfy,hsy,hyi⟩⟩
  · rintro ⟨⟨fx,sx,xi,hfx,hsx,hxi⟩,⟨fy,sy,yi,hfy,hsy,hyi⟩⟩
    exact ⟨(xi,yi),fx,hfx,fy,hfy,sx,hsx,sy,hsy,xi,hxi,yi,hyi,rfl⟩

theorem pointed_ok_iff {x y : Slot F} {cursor : Cursor} {emission : Option (ℤ × ℤ) → List String} :
    (∃ r, pointed py sizes x y cursor emission = .ok r) ↔
      (given x y = true → Coordinates py sizes x y) := by
  rw [pointed]
  by_cases hgiven : given x y = true
  · rw [if_pos hgiven,exists_map_ok,scale_ok_iff]
    simp [hgiven]
  · rw [if_neg hgiven]
    simp [hgiven]

theorem pointed_loud {x y : Slot F} {cursor : Cursor} {emission : Option (ℤ × ℤ) → List String}
    (hemission : ∀ p, emission p ≠ []) {r : List String × Cursor}
    (h : pointed py sizes x y cursor emission = .ok r) : r.1 ≠ [] := by
  rw [pointed] at h
  split at h
  · obtain ⟨p,-,rfl⟩ := map_eq_ok.mp h
    exact hemission _
  · rw [← Except.ok.inj h]
    exact hemission _

theorem clickCommands_ne_nil (button : String) (clicks : ℤ) (p : Option (ℤ × ℤ)) :
    clickCommands button clicks p ≠ [] := by
  cases p with
  | none =>
    rw [clickCommands]
    split_ifs <;> simp
  | some p =>
    rw [clickCommands]
    split_ifs <;> simp

theorem holdCommands_ne_nil (command : String) (p : Option (ℤ × ℤ)) :
    holdCommands command p ≠ [] := by
  cases p <;> simp [holdCommands]

theorem arg_of_unresolved {info : CallInfo F} {index : ℕ} {name : String}
    (h : SlotUnresolved info (index,name)) (default : PyValue F) :
    info.arg index name default = none ∨ info.arg index name default = some default := by
  obtain ⟨hpos,hkey⟩ := h
  have harg : info.arg index name default = (info.kwargs.lookup name).getD (some default) := by
    rw [CallInfo.arg]
    split
    · rename_i v hv
      exact absurd hv (hpos v)
    · rfl
  rcases hkey with hkey | ⟨-,hkey⟩
  · exact .inl (by rw [harg,hkey]; rfl)
  · exact .inr (by rw [harg,hkey]; rfl)

theorem toFloat_of_unresolved {info : CallInfo F} {index : ℕ} {name : String}
    (h : SlotUnresolved info (index,name)) :
    toFloat py (info.arg index name .none) = .error .typeError := by
  rcases arg_of_unresolved h .none with harg | harg <;> rw [harg] <;> rfl

theorem loud_iff {α : Type*} {x : Except Raised (List String × α)} {p : Prop}
    (hloud : ∀ r, x = .ok r → r.1 ≠ []) :
    ((∃ r, x = .ok r) ∧ (p → ∃ t, x = .ok ([],t))) ↔ ¬ p ∧ ∃ r, x = .ok r := by
  constructor
  · rintro ⟨hok,hsilent⟩
    refine ⟨fun hp => ?_,hok⟩
    obtain ⟨t,ht⟩ := hsilent hp
    exact hloud _ ht rfl
  · rintro ⟨hp,hok⟩
    exact ⟨hok,fun h => absurd h hp⟩

theorem Coordinates.resolved {info : CallInfo F} {action : Action}
    (hslots : readSlots action = [(0,"x"),(1,"y")])
    (h : Coordinates py sizes (info.arg 0 "x" .none) (info.arg 1 "y" .none)) :
    ¬ Unresolvable action info := by
  rintro (⟨slot,hslot,hunresolved⟩ | ⟨rfl,-⟩)
  · rw [hslots,List.mem_cons,List.mem_singleton] at hslot
    rcases hslot with rfl | rfl
    · obtain ⟨f,-,-,hf,-⟩ := h.1
      rw [toFloat_of_unresolved hunresolved] at hf
      cases hf
    · obtain ⟨f,-,-,hf,-⟩ := h.2
      rw [toFloat_of_unresolved hunresolved] at hf
      cases hf
  · cases hslots

theorem harmless_click_iff (cursor : Cursor) (info : CallInfo F) :
    Harmless py sizes cursor info .click ↔ (∃ r, perform py sizes .click info cursor = .ok r) ∧
      (Unresolvable .click info → ∃ t, perform py sizes .click info cursor = .ok ([],t)) := by
  have hloud : ∀ r, perform py sizes .click info cursor = .ok r → r.1 ≠ [] := by
    intro r hr
    obtain ⟨button,-,hr⟩ := bind_eq_ok.mp hr
    obtain ⟨n,-,hr⟩ := bind_eq_ok.mp hr
    exact pointed_loud (clickCommands_ne_nil button n) hr
  rw [loud_iff hloud,Harmless]
  refine and_congr_right fun _ => ?_
  constructor
  · rintro ⟨⟨button,hbutton⟩,⟨n,hn⟩,hpoint⟩
    obtain ⟨r,hr⟩ := pointed_ok_iff.mpr hpoint
    exact ⟨r,bind_eq_ok.mpr ⟨button,hbutton,bind_eq_ok.mpr ⟨n,hn,hr⟩⟩⟩
  · rintro ⟨r,hr⟩
    obtain ⟨button,hbutton,hr⟩ := bind_eq_ok.mp hr
    obtain ⟨n,hn,hr⟩ := bind_eq_ok.mp hr
    exact ⟨⟨button,hbutton⟩,⟨n,hn⟩,pointed_ok_iff.mp ⟨r,hr⟩⟩

theorem harmless_pointed_iff {cursor : Cursor} {info : CallInfo F} {action : Action}
    {emission : Option (ℤ × ℤ) → List String} (hemission : ∀ p, emission p ≠ [])
    (hperform : perform py sizes action info cursor =
      pointed py sizes (info.arg 0 "x" .none) (info.arg 1 "y" .none) cursor emission) :
    (¬ Unresolvable action info ∧ (given (info.arg 0 "x" .none) (info.arg 1 "y" .none) = true →
        Coordinates py sizes (info.arg 0 "x" .none) (info.arg 1 "y" .none))) ↔
      (∃ r, perform py sizes action info cursor = .ok r) ∧
        (Unresolvable action info → ∃ t, perform py sizes action info cursor = .ok ([],t)) := by
  rw [hperform,loud_iff fun r hr => pointed_loud hemission hr,pointed_ok_iff]

theorem harmless_located_iff {cursor : Cursor} {info : CallInfo F} {action : Action}
    (hslots : readSlots action = [(0,"x"),(1,"y")]) {emission : ℤ × ℤ → List String × Cursor}
    (hemission : ∀ p, (emission p).1 ≠ [])
    (hperform : perform py sizes action info cursor =
      (scale py sizes (info.arg 0 "x" .none) (info.arg 1 "y" .none)).map emission) :
    Coordinates py sizes (info.arg 0 "x" .none) (info.arg 1 "y" .none) ↔
      (∃ r, perform py sizes action info cursor = .ok r) ∧
        (Unresolvable action info → ∃ t, perform py sizes action info cursor = .ok ([],t)) := by
  have hloud : ∀ r, (scale py sizes (info.arg 0 "x" .none) (info.arg 1 "y" .none)).map emission =
      .ok r → r.1 ≠ [] := by
    intro r hr
    obtain ⟨p,-,rfl⟩ := map_eq_ok.mp hr
    exact hemission p
  rw [hperform,loud_iff hloud,exists_map_ok,scale_ok_iff]
  exact ⟨fun h => ⟨h.resolved hslots,h⟩,And.right⟩

theorem harmless_drag_iff (cursor : Cursor) (info : CallInfo F) :
    Harmless py sizes cursor info .drag ↔ (∃ r, perform py sizes .drag info cursor = .ok r) ∧
      (Unresolvable .drag info → ∃ t, perform py sizes .drag info cursor = .ok ([],t)) := by
  cases cursor with
  | none =>
    have hskip : perform py sizes .drag info none = .ok ([],none) := rfl
    rw [hskip,Harmless]
    simp
  | some start =>
    have hloud : ∀ r, perform py sizes .drag info (some start) = .ok r → r.1 ≠ [] := by
      intro r hr
      obtain ⟨x,-,hr⟩ := bind_eq_ok.mp hr
      obtain ⟨y,-,hr⟩ := bind_eq_ok.mp hr
      obtain ⟨p,-,rfl⟩ := map_eq_ok.mp hr
      simp
    have hresolved : (∃ r, perform py sizes .drag info (some start) = .ok r) →
        ¬ Unresolvable .drag info := by
      rintro ⟨r,hr⟩ (⟨slot,hslot,hunresolved⟩ | ⟨hname,-⟩)
      · obtain ⟨x,hx,hr⟩ := bind_eq_ok.mp hr
        obtain ⟨y,hy,-⟩ := bind_eq_ok.mp hr
        rw [readSlots,List.mem_cons,List.mem_singleton] at hslot
        rcases hslot with rfl | rfl
        · rw [offsetFrom,toFloat_of_unresolved hunresolved] at hx
          cases hx
        · rw [offsetFrom,toFloat_of_unresolved hunresolved] at hy
          cases hy
      · cases hname
    have hok : (∃ r, perform py sizes .drag info (some start) = .ok r) ↔
        Harmless py sizes (some start) info .drag := by
      constructor
      · rintro ⟨r,hr⟩ start' hstart
        obtain rfl := Option.some.inj hstart
        obtain ⟨x,hx,hr⟩ := bind_eq_ok.mp hr
        obtain ⟨y,hy,hr⟩ := bind_eq_ok.mp hr
        exact ⟨x,y,hx,hy,scale_ok_iff.mp (exists_map_ok.mp ⟨r,hr⟩)⟩
      · intro h
        obtain ⟨x,y,hx,hy,hcoords⟩ := h start rfl
        obtain ⟨p,hp⟩ := scale_ok_iff.mpr hcoords
        obtain ⟨r,hr⟩ := exists_map_ok.mpr ⟨p,hp⟩
        exact ⟨r,bind_eq_ok.mpr ⟨x,hx,bind_eq_ok.mpr ⟨y,hy,hr⟩⟩⟩
    rw [loud_iff hloud,hok]
    exact ⟨fun h => ⟨hresolved (hok.mpr h),h⟩,And.right⟩

theorem scrollCommands_ne_nil (n : ℤ) (count : String) (p : Option (ℤ × ℤ)) :
    scrollCommands n count p ≠ [] := by
  cases p <;> simp [scrollCommands]

theorem harmless_scroll_iff (cursor : Cursor) (info : CallInfo F) :
    Harmless py sizes cursor info .scroll ↔ (∃ r, perform py sizes .scroll info cursor = .ok r) ∧
      (Unresolvable .scroll info → ∃ t, perform py sizes .scroll info cursor = .ok ([],t)) := by
  have hperform : perform py sizes .scroll info cursor = scroll py sizes
      (info.arg 0 "clicks" (.int 0)) (info.arg 1 "x" .none) (info.arg 2 "y" .none) cursor := rfl
  rw [hperform,Harmless,scroll]
  cases hint : toInt py (info.arg 0 "clicks" (.int 0)) with
  | error e => cases e <;> simp
  | ok n =>
    dsimp only
    by_cases hgiven : given (info.arg 1 "x" .none) (info.arg 2 "y" .none) = true
    · rw [if_pos hgiven,loud_iff]
      · refine and_congr_right fun _ => ?_
        rw [← scale_ok_iff]
        constructor
        · rintro ⟨⟨count,hcount⟩,hscale⟩
          obtain ⟨p,hp⟩ := hscale hgiven
          exact ⟨_,bind_eq_ok.mpr ⟨p,hp,map_eq_ok.mpr ⟨count,hcount,rfl⟩⟩⟩
        · rintro ⟨r,hr⟩
          obtain ⟨p,hp,hr⟩ := bind_eq_ok.mp hr
          exact ⟨exists_map_ok.mp ⟨r,hr⟩,fun _ => ⟨p,hp⟩⟩
      · intro r hr
        obtain ⟨p,-,hr⟩ := bind_eq_ok.mp hr
        obtain ⟨count,-,rfl⟩ := map_eq_ok.mp hr
        exact scrollCommands_ne_nil n count (some p)
    · rw [if_neg hgiven,loud_iff]
      · rw [exists_map_ok]
        simp [hgiven]
      · intro r hr
        obtain ⟨count,-,rfl⟩ := map_eq_ok.mp hr
        exact scrollCommands_ne_nil n count none

theorem type_of_unresolved {info : CallInfo F} {index : ℕ} {name : String}
    (h : SlotUnresolved info (index,name)) : type (info.arg index name .none) = [] := by
  rcases arg_of_unresolved h .none with harg | harg <;> rw [harg] <;> rfl

theorem press_of_unresolved {info : CallInfo F} {index : ℕ} {name : String}
    (h : SlotUnresolved info (index,name)) : press py (info.arg index name .none) = [] := by
  rcases arg_of_unresolved h .none with harg | harg <;> rw [harg] <;> rfl

theorem hotkey_eq_nil_iff (keys : List (Slot F)) : hotkey py keys = [] ↔ literalKeys keys = [] := by
  rw [hotkey]
  cases hkeys : literalKeys keys with
  | nil => simp
  | cons key rest => simp [List.getLast?_cons]

theorem harmless_iff (cursor : Cursor) (info : CallInfo F) (action : Action) :
    Harmless py sizes cursor info action ↔ (∃ r, perform py sizes action info cursor = .ok r) ∧
      (Unresolvable action info → ∃ t, perform py sizes action info cursor = .ok ([],t)) := by
  cases action with
  | click => exact harmless_click_iff cursor info
  | fixedClick button n => exact harmless_pointed_iff (clickCommands_ne_nil button n) rfl
  | move => exact harmless_located_iff rfl (by simp) rfl
  | dragTo =>
    refine harmless_located_iff rfl (fun p => ?_) rfl
    cases cursor <;> simp
  | drag => exact harmless_drag_iff cursor info
  | scroll => exact harmless_scroll_iff cursor info
  | hold command => exact harmless_pointed_iff (holdCommands_ne_nil command) rfl
  | write =>
    have hsilent : Unresolvable .write info → type (info.arg 0 "message" .none) = [] := by
      rintro (⟨slot,hslot,hunresolved⟩ | ⟨hname,-⟩)
      · rw [readSlots,List.mem_singleton] at hslot
        subst hslot
        exact type_of_unresolved hunresolved
      · cases hname
    simpa [Harmless,perform] using hsilent
  | press =>
    have hsilent : Unresolvable .press info → press py (info.arg 0 "keys" .none) = [] := by
      rintro (⟨slot,hslot,hunresolved⟩ | ⟨hname,-⟩)
      · rw [readSlots,List.mem_singleton] at hslot
        subst hslot
        exact press_of_unresolved hunresolved
      · cases hname
    simpa [Harmless,perform] using hsilent
  | hotkey => simp [Harmless,perform,Unresolvable,readSlots,hotkey_eq_nil_iff]
  | pause => simp [Harmless,perform]

theorem evaluate_ok_iff {e : E} :
    (∃ v, evaluate py e = .ok v) ↔ py.literalEval e ≠ .error .other := by
  rw [evaluate]
  cases py.literalEval e with
  | ok v => simp
  | error err => cases err <;> simp

theorem positionals_ok_iff {args : List (Argument E)} :
    (∃ vs, positionals py args = .ok vs) ↔ ∀ e ∈ plainArgs args, py.literalEval e ≠ .error .other := by
  induction args with
  | nil => simp [positionals,plainArgs]
  | cons arg args ih =>
    cases arg with
    | starred e => simp [positionals,plainArgs]
    | plain e =>
      rw [plainArgs,List.forall_mem_cons,← ih,← evaluate_ok_iff]
      constructor
      · rintro ⟨vs,hvs⟩
        obtain ⟨v,hv,hvs⟩ := bind_eq_ok.mp hvs
        exact ⟨⟨v,hv⟩,exists_map_ok.mp ⟨vs,hvs⟩⟩
      · rintro ⟨⟨v,hv⟩,hrest⟩
        obtain ⟨vs,hvs⟩ := exists_map_ok.mpr hrest
        exact ⟨vs,bind_eq_ok.mpr ⟨v,hv,hvs⟩⟩

theorem isNone_positionals {args : List (Argument E)} {vs : Option (List (Slot F))}
    (h : positionals py args = .ok vs) : vs.isNone = hasStar args := by
  induction args generalizing vs with
  | nil =>
    obtain rfl := Except.ok.inj h
    rfl
  | cons arg args ih =>
    cases arg with
    | starred e =>
      obtain rfl := Except.ok.inj h
      rfl
    | plain e =>
      obtain ⟨v,-,h⟩ := bind_eq_ok.mp h
      obtain ⟨rest,hrest,rfl⟩ := map_eq_ok.mp h
      rw [Option.isNone_map,ih hrest]
      rfl

theorem keywordArgs_ok_iff {found : List (String × Slot F)} {keywords : List (Option String × E)} :
    (∃ kwargs, keywordArgs py found keywords = .ok kwargs) ↔
      ∀ e ∈ namedKeywords keywords, py.literalEval e ≠ .error .other := by
  induction keywords generalizing found with
  | nil => simp [keywordArgs,namedKeywords]
  | cons keyword keywords ih =>
    obtain ⟨name,e⟩ := keyword
    cases name with
    | none => simpa [keywordArgs,namedKeywords] using ih
    | some name =>
      have hcons : namedKeywords ((some name,e) :: keywords) = e :: namedKeywords keywords := rfl
      rw [hcons,List.forall_mem_cons,← evaluate_ok_iff]
      constructor
      · rintro ⟨kwargs,h⟩
        obtain ⟨v,hv,h⟩ := bind_eq_ok.mp h
        exact ⟨⟨v,hv⟩,ih.mp ⟨kwargs,h⟩⟩
      · rintro ⟨⟨v,hv⟩,hrest⟩
        obtain ⟨kwargs,h⟩ := (@ih ((name,v) :: found)).mpr hrest
        exact ⟨kwargs,bind_eq_ok.mpr ⟨v,hv,h⟩⟩

theorem callInfo_ok_iff {call : Call E} : (∃ info, callInfo py call = .ok info) ↔
    (call.func.isSome → ∀ e ∈ evaluated call, py.literalEval e ≠ .error .other) := by
  rw [callInfo]
  cases call.func with
  | none => simp
  | some name =>
    simp only [Option.isSome_some,forall_const,evaluated,List.forall_mem_append]
    rw [← positionals_ok_iff]
    constructor
    · rintro ⟨info,h⟩
      obtain ⟨vs,hvs,h⟩ := bind_eq_ok.mp h
      refine ⟨⟨vs,hvs⟩,?_⟩
      rw [← isNone_positionals hvs]
      cases vs with
      | none => simp
      | some args => exact keywordArgs_ok_iff.mp (exists_map_ok.mp ⟨info,h⟩)
    · rintro ⟨⟨vs,hvs⟩,hkeywords⟩
      rw [← isNone_positionals hvs] at hkeywords
      cases vs with
      | none => exact ⟨_,bind_eq_ok.mpr ⟨none,hvs,rfl⟩⟩
      | some args =>
        obtain ⟨info,h⟩ := exists_map_ok.mpr (keywordArgs_ok_iff.mpr hkeywords)
        exact ⟨info,bind_eq_ok.mpr ⟨some args,hvs,h⟩⟩

theorem clean_iff (cursor : Cursor) (call : Call E) :
    Clean py sizes cursor call ↔ (∃ r, step py sizes cursor call = .ok r) ∧
      (Skipped py call → ∃ t, step py sizes cursor call = .ok ([],t)) := by
  rw [Clean,← callInfo_ok_iff]
  cases hinfo : callInfo py call with
  | error e => simp [step,hinfo,Except.bind]
  | ok info =>
    cases info with
    | none => simp [step,hinfo,Except.bind]
    | some info =>
      have hstep : step py sizes cursor call = dispatch py sizes info cursor := by
        rw [step,hinfo]
        rfl
      rw [hstep,dispatch]
      cases haction : actions.lookup info.name with
      | none => simp [haction]
      | some action =>
        have hskipped : Skipped py call ↔ Unresolvable action info := by
          simp [Skipped,hinfo,haction]
        rw [hskipped,← harmless_iff]
        simp [haction]

theorem pointed_still {x y : Slot F} {cursor t : Cursor} {emission : Option (ℤ × ℤ) → List String}
    (hemission : ∀ p, emission p ≠ []) (h : pointed py sizes x y cursor emission = .ok ([],t)) :
    t = cursor := absurd rfl (pointed_loud hemission h)

theorem step_still (cursor : Cursor) (call : Call E) (t : Cursor)
    (h : step py sizes cursor call = .ok ([],t)) : t = cursor := by
  obtain ⟨info,-,h⟩ := bind_eq_ok.mp h
  cases info with
  | none => exact (Prod.mk.inj (Except.ok.inj h)).2.symm
  | some info =>
    change dispatch py sizes info cursor = .ok ([],t) at h
    rw [dispatch] at h
    split at h
    · rename_i action _
      cases action with
      | click =>
        obtain ⟨button,-,h⟩ := bind_eq_ok.mp h
        obtain ⟨n,-,h⟩ := bind_eq_ok.mp h
        exact pointed_still (clickCommands_ne_nil button n) h
      | fixedClick button n => exact pointed_still (clickCommands_ne_nil button n) h
      | move =>
        obtain ⟨p,-,h⟩ := map_eq_ok.mp h
        simp at h
      | dragTo =>
        obtain ⟨p,-,h⟩ := map_eq_ok.mp h
        cases cursor <;> simp at h
      | drag =>
        cases cursor with
        | none => exact (Prod.mk.inj (Except.ok.inj h)).2.symm
        | some start =>
          obtain ⟨x,-,h⟩ := bind_eq_ok.mp h
          obtain ⟨y,-,h⟩ := bind_eq_ok.mp h
          obtain ⟨p,-,h⟩ := map_eq_ok.mp h
          simp at h
      | scroll =>
        rw [perform,scroll] at h
        split at h
        · exact (Prod.mk.inj (Except.ok.inj h)).2.symm
        · exact (Prod.mk.inj (Except.ok.inj h)).2.symm
        · cases h
        · rename_i n _
          dsimp only at h
          split at h
          · obtain ⟨p,-,h⟩ := bind_eq_ok.mp h
            obtain ⟨count,-,h⟩ := map_eq_ok.mp h
            exact absurd (Prod.mk.inj h).1 (scrollCommands_ne_nil n count (some p))
          · obtain ⟨count,-,h⟩ := map_eq_ok.mp h
            exact absurd (Prod.mk.inj h).1 (scrollCommands_ne_nil n count none)
      | hold command => exact pointed_still (holdCommands_ne_nil command) h
      | write => exact (Prod.mk.inj (Except.ok.inj h)).2.symm
      | press => exact (Prod.mk.inj (Except.ok.inj h)).2.symm
      | hotkey => exact (Prod.mk.inj (Except.ok.inj h)).2.symm
      | pause => exact (Prod.mk.inj (Except.ok.inj h)).2.symm
    · exact (Prod.mk.inj (Except.ok.inj h)).2.symm

/-- A program is transpiled with its unsupported and unresolvable calls skipped exactly when every
call, at the cursor it meets, is clean. -/
theorem pyautoguiToGrammar_undisturbed_iff (py : Interpreter F E) (sizes : Sizes)
    (calls : List (Call E)) :
    ((∃ commands, pyautoguiToGrammar py sizes (some calls) = .ok commands) ∧
        Undisturbed (step py sizes) (Skipped py) none (sortCalls calls)) ↔
      ∀ front call behind entries cursor, sortCalls calls = front ++ call :: behind →
        emit (step py sizes) none front = .ok (entries,cursor) → Clean py sizes cursor call := by
  rw [← undisturbed_iff clean_iff step_still]
  refine ⟨And.right,fun h => ⟨?_,h⟩⟩
  obtain ⟨entries,t,hrun,-⟩ := h
  exact exists_map_ok.mpr ⟨(entries,t),hrun⟩

/-- An interpreter on integer literals, with names as the expressions that are no literal. -/
def sampleInterpreter : Interpreter ℤ (Option ℤ) where
  literalEval e := match e with
    | some n => .ok (.int n)
    | none => .error .malformed
  floatOfInt n := .ok n
  floatOfText _ := .error .valueError
  floatOfBytes _ := .error .valueError
  intOfText _ := .error .valueError
  intOfBytes _ := .error .valueError
  truncate n := .ok n
  round n := .ok n
  add := (· + ·)
  mul := (· * ·)
  div := Int.tdiv
  isZero n := n = 0
  str v := match v with
    | .str s => .ok s
    | _ => .ok ""
  formatInt n := .ok (toString n)
  lower s := s

/-- `pyautogui.click(1, 2)` and `pyautogui.moveTo(x, y)` on the next line. -/
def moveToNames : List (Call (Option ℤ)) :=
  [⟨1,0,some "click",[.plain (some 1),.plain (some 2)],[]⟩,
    ⟨2,0,some "moveTo",[.plain none,.plain none],[]⟩]

/-- Moving to coordinates that are names aborts the program. -/
theorem moveTo_names_aborts :
    pyautoguiToGrammar sampleInterpreter ⟨none,none⟩ (some moveToNames) = .error .typeError ∧
      ¬ ((∃ commands, pyautoguiToGrammar sampleInterpreter ⟨none,none⟩ (some moveToNames) =
          .ok commands) ∧
        Undisturbed (step sampleInterpreter ⟨none,none⟩) (Skipped sampleInterpreter) none
          (sortCalls moveToNames)) := by
  have habort : pyautoguiToGrammar sampleInterpreter ⟨none,none⟩ (some moveToNames) =
      .error .typeError := by decide
  refine ⟨habort,?_⟩
  rintro ⟨⟨commands,hcommands⟩,-⟩
  rw [habort] at hcommands
  cases hcommands

end Cua
end DockyardRL
