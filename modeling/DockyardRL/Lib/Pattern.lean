import Mathlib.Data.List.TakeDrop
import DockyardRL.Lib.Text

/-! Regular expressions without alternatives, as far as they are a row of literals and of runs of
characters, with the order in which a backtracking matcher tries the ways to match. -/
namespace DockyardRL
namespace Pattern

/-- One item of a pattern. A run takes characters of a class, as many as it can or as few as it
can, and keeps them where it stands in a group. -/
inductive Item
  | literal (word : List Char)
  | optional (word : List Char)
  | run (inClass : Char → Bool) (least : ℕ) (lazy : Bool) (group : Bool)
  | lineEnd

/-- `\p+` and `(\p+)`. -/
def some1 (inClass : Char → Bool) : Item := .run inClass 1 false false

def group1 (inClass : Char → Bool) : Item := .run inClass 1 false true

/-- `\p*`. -/
def many (inClass : Char → Bool) : Item := .run inClass 0 false false

def dot (c : Char) : Bool := c ≠ '\n'

/-- The ways to cut a text behind a run, the longest run first. -/
def cuts (inClass : Char → Bool) : List Char → List (List Char × List Char)
  | [] => [([],[])]
  | c :: text =>
    if inClass c then
      (cuts inClass text).map (fun cut => (c :: cut.1,cut.2)) ++ [([],c :: text)]
    else [([],c :: text)]

def Item.ways : Item → List Char → List (List (List Char) × List Char)
  | .literal word, text => if word <+: text then [([],text.drop word.length)] else []
  | .optional word, text =>
    if word <+: text then [([],text.drop word.length),([],text)] else [([],text)]
  | .run inClass least lazy group, text =>
    let long := (cuts inClass text).filter fun cut => least ≤ cut.1.length
    (if lazy then long.reverse else long).map fun cut => (if group then [cut.1] else [],cut.2)
  | .lineEnd, text => if text.head?.all (· = '\n') then [([],text)] else []

def ways : List Item → List Char → List (List (List Char) × List Char)
  | [], text => [([],text)]
  | item :: items, text => (item.ways text).flatMap fun way =>
    (ways items way.2).map fun rest => (way.1 ++ rest.1,rest.2)

end Pattern

/-- A pattern; `atLineStart` is a `^` in front, which holds after a line feed too. -/
structure Pattern where
  atLineStart : Bool
  items : List Pattern.Item

namespace Pattern

variable (pattern : Pattern)

def matchAt (start : Bool) (text : List Char) : Option (List (List Char) × List Char) :=
  if pattern.atLineStart && !start then none else (ways pattern.items text).head?

def findFrom : Bool → List Char → Option (List (List Char))
  | start, [] => (pattern.matchAt start []).map Prod.fst
  | start, c :: text => ((pattern.matchAt start (c :: text)).map Prod.fst).or
      (findFrom (c = '\n') text)

def search (text : List Char) : Option (List (List Char)) := pattern.findFrom true text

/-- The groups of all matches from left to right, where the next `skip` characters belong to the
last one. -/
def findAllFrom : ℕ → Bool → List Char → List (List (List Char))
  | 0, start, [] => ((pattern.matchAt start []).map Prod.fst).toList
  | _ + 1, _, [] => []
  | skip + 1, _, c :: text => findAllFrom skip (c = '\n') text
  | 0, start, c :: text =>
    match pattern.matchAt start (c :: text) with
    | none => findAllFrom 0 (c = '\n') text
    | some found => found.1 :: findAllFrom (text.length - found.2.length) (c = '\n') text

/-- `re.findall` and `re.finditer`. -/
def findAll (text : List Char) : List (List (List Char)) := pattern.findAllFrom 0 true text

theorem cuts_of_notMem {inClass : Char → Bool} {c : Char} (hc : inClass c = false)
    (text : List Char) : cuts inClass (c :: text) = [([],c :: text)] := by
  simp [cuts,hc]

theorem flatMap_cuts {β : Type*} {inClass : Char → Bool} {next : List Char → List Char → List β}
    (hnext : ∀ taken c text, inClass c = true → next taken (c :: text) = []) (text : List Char) :
    (cuts inClass text).flatMap (fun cut => next cut.1 cut.2) =
      next (text.takeWhile inClass) (text.dropWhile inClass) := by
  induction text generalizing next with
  | nil => simp [cuts]
  | cons c text ih =>
    by_cases hc : inClass c = true
    · have hrest := ih fun taken => hnext (c :: taken)
      rw [cuts,if_pos hc,List.flatMap_append,List.flatMap_map,
        List.takeWhile_cons_of_pos hc,List.dropWhile_cons_of_pos hc,← hrest]
      simp [hnext [] c text hc]
    · rw [cuts_of_notMem (by simpa using hc),List.takeWhile_cons_of_neg hc,
        List.dropWhile_cons_of_neg hc]
      simp

theorem flatMap_filter {α β : Type*} (keep : α → Bool) (f : α → List β) (list : List α) :
    (list.filter keep).flatMap f = list.flatMap fun a => if keep a then f a else [] := by
  induction list with
  | nil => rfl
  | cons a list ih => by_cases ha : keep a = true <;> simp [ha,ih]

theorem ways_run {inClass : Char → Bool} {items : List Item}
    (hstop : ∀ c text, inClass c = true → ways items (c :: text) = []) (group : Bool)
    (text : List Char) : ways (.run inClass 1 false group :: items) text =
      if text.takeWhile inClass = [] then []
      else (ways items (text.dropWhile inClass)).map fun rest =>
        ((if group then [text.takeWhile inClass] else []) ++ rest.1,rest.2) := by
  let next (taken rest : List Char) : List (List (List Char) × List Char) :=
    if taken = [] then []
    else (ways items rest).map fun way => ((if group then [taken] else []) ++ way.1,way.2)
  have hnext : ∀ taken c text, inClass c = true → next taken (c :: text) = [] := by
    intro taken c text hc
    simp [next,hstop c text hc]
  have hways : ways (.run inClass 1 false group :: items) text =
      (cuts inClass text).flatMap fun cut => next cut.1 cut.2 := by
    rw [ways,Item.ways,List.flatMap_map]
    simp only [Bool.false_eq_true,if_false]
    rw [flatMap_filter]
    congr 1
    funext cut
    cases hcut : cut.1 <;> simp [next]
  rw [hways,flatMap_cuts hnext]

/-- What `\d` and `\s` stand for in texts, of which the ASCII part is fixed here. -/
structure CharClasses where
  digitValue : Char → Option ℕ
  isSpace : Char → Bool
  digitValue_ascii : ∀ c : Char, c.toNat < 128 →
    digitValue c = if c.isDigit then some (c.toNat - '0'.toNat) else none
  isSpace_ascii : ∀ c : Char, c.toNat < 128 →
    isSpace c = decide (9 ≤ c.toNat ∧ c.toNat ≤ 13 ∨ 28 ≤ c.toNat ∧ c.toNat ≤ 32)
  isSpace_of_digit : ∀ c, (digitValue c).isSome → isSpace c = false

/-- The classes of a program that knows ASCII only. -/
def CharClasses.ascii : CharClasses where
  digitValue c := if c.isDigit then some (c.toNat - '0'.toNat) else none
  isSpace c := decide (9 ≤ c.toNat ∧ c.toNat ≤ 13 ∨ 28 ≤ c.toNat ∧ c.toNat ≤ 32)
  digitValue_ascii _ _ := rfl
  isSpace_ascii _ _ := rfl
  isSpace_of_digit c h := by
    have hdigit : c.isDigit = true := by
      by_contra hno
      simp [hno] at h
    have hle := Char.isDigit_iff_toNat.mp hdigit
    have hzero : '0'.toNat = 48 := rfl
    simp
    omega

variable (classes : CharClasses)

/-- `\d`. -/
def CharClasses.isDigit (c : Char) : Bool := (classes.digitValue c).isSome

def CharClasses.number (digits : List Char) : ℕ :=
  digits.foldl (fun n c => 10 * n + (classes.digitValue c).getD 0) 0

/-- `(\d+)\s+word`. -/
def counted (word : List Char) : Pattern :=
  ⟨false,[group1 classes.isDigit,some1 classes.isSpace,.literal word]⟩

/-- A word of ASCII letters. -/
def Letters (word : List Char) : Prop := word ≠ [] ∧ word.all Char.isAlpha = true

instance (word : List Char) : Decidable (Letters word) := inferInstanceAs (Decidable (_ ∧ _))

variable {classes} {word : List Char}

theorem Letters.isAlpha {c : Char} (h : Letters word) (hc : c ∈ word) : c.isAlpha = true :=
  List.all_eq_true.mp h.2 c hc

theorem isSpace_of_isDigit {c : Char} (hc : classes.isDigit c = true) : classes.isSpace c = false :=
  classes.isSpace_of_digit c hc

theorem not_isDigit_of_isSpace {c : Char} (hc : classes.isSpace c = true) :
    classes.isDigit c = false := by
  by_contra h
  rw [Bool.not_eq_false] at h
  simp [isSpace_of_isDigit h] at hc

theorem isDigit_ascii {c : Char} (hc : c.toNat < 128) : classes.isDigit c = c.isDigit := by
  rw [CharClasses.isDigit,classes.digitValue_ascii c hc]
  by_cases h : c.isDigit = true <;> simp [h]

theorem isSpace_ascii {c : Char} (hc : c.toNat < 128) : classes.isSpace c =
    decide (9 ≤ c.toNat ∧ c.toNat ≤ 13 ∨ 28 ≤ c.toNat ∧ c.toNat ≤ 32) :=
  classes.isSpace_ascii c hc

theorem toNat_of_isAlpha {c : Char} (hc : c.isAlpha = true) :
    65 ≤ c.toNat ∧ c.toNat ≤ 90 ∨ 97 ≤ c.toNat ∧ c.toNat ≤ 122 := by
  have hcases : (c.isUpper || c.isLower) = true := hc
  rw [Bool.or_eq_true] at hcases
  refine hcases.imp (fun hupper => ?_) fun hlower => ?_
  · have hrange : decide (c.val ≥ 'A'.val ∧ c.val ≤ 'Z'.val) = true := hupper
    exact of_decide_eq_true hrange
  · have hrange : (decide (c.val ≥ 'a'.val) && decide (c.val ≤ 'z'.val)) = true := hlower
    rw [Bool.and_eq_true] at hrange
    exact ⟨of_decide_eq_true hrange.1,of_decide_eq_true hrange.2⟩

theorem not_isDigit_of_isAlpha {c : Char} (hc : c.isAlpha = true) : classes.isDigit c = false := by
  have hnum := toNat_of_isAlpha hc
  have hzero : '0'.toNat = 48 := rfl
  have hnine : '9'.toNat = 57 := rfl
  rw [isDigit_ascii (by omega)]
  by_contra hdigit
  rw [Bool.not_eq_false,Char.isDigit_iff_toNat] at hdigit
  omega

theorem not_isSpace_of_isAlpha {c : Char} (hc : c.isAlpha = true) : classes.isSpace c = false := by
  have hnum := toNat_of_isAlpha hc
  rw [isSpace_ascii (by omega),decide_eq_false_iff_not]
  omega

/-- Blanks and then the word. -/
def Behind (classes : CharClasses) (word rest : List Char) : Prop :=
  rest.takeWhile classes.isSpace ≠ [] ∧ word <+: rest.dropWhile classes.isSpace

instance (rest : List Char) : Decidable (Behind classes word rest) :=
  inferInstanceAs (Decidable (_ ∧ _))

def countAt (classes : CharClasses) (word text : List Char) : Option (List Char) :=
  let digits := text.takeWhile classes.isDigit
  if digits ≠ [] ∧ Behind classes word (text.dropWhile classes.isDigit) then some digits else none

def countIn (classes : CharClasses) (word : List Char) : List Char → Option (List Char)
  | [] => none
  | c :: text => (countAt classes word (c :: text)).or (countIn classes word text)

theorem ways_literal (word text : List Char) :
    ways [.literal word] text = if word <+: text then [([],text.drop word.length)] else [] := by
  rw [ways,Item.ways]
  split <;> simp [ways]

theorem ways_blanks (hword : Letters word) (text : List Char) :
    ways [some1 classes.isSpace,.literal word] text =
      if Behind classes word text then [([],(text.dropWhile classes.isSpace).drop word.length)]
      else [] := by
  have hstop : ∀ c rest, classes.isSpace c = true → ways [.literal word] (c :: rest) = [] := by
    intro c rest hc
    rw [ways_literal,if_neg]
    cases word with
    | nil => exact absurd rfl hword.1
    | cons d word =>
      intro hmatch
      have hd := @not_isSpace_of_isAlpha classes _ (hword.isAlpha List.mem_cons_self)
      rw [(List.cons_prefix_cons.mp hmatch).1] at hd
      exact absurd hc (by simp [hd])
  rw [some1,ways_run hstop,ways_literal]
  by_cases hblank : text.takeWhile classes.isSpace = []
  · rw [if_pos hblank]
    exact (if_neg fun h => h.1 hblank).symm
  · by_cases hmatch : word <+: text.dropWhile classes.isSpace
    · rw [if_neg hblank,if_pos hmatch]
      exact (if_pos ⟨hblank,hmatch⟩).symm
    · rw [if_neg hblank,if_neg hmatch]
      exact (if_neg fun h => hmatch h.2).symm

theorem ways_counted (hword : Letters word) (text : List Char) :
    (ways (counted classes word).items text).head?.map Prod.fst =
      (countAt classes word text).map fun digits => [digits] := by
  have hstop : ∀ c rest, classes.isDigit c = true →
      ways [some1 classes.isSpace,.literal word] (c :: rest) = [] := by
    intro c rest hc
    rw [ways_blanks hword,if_neg]
    exact fun h => h.1 (List.takeWhile_cons_of_neg (by simp [isSpace_of_isDigit hc]))
  rw [counted,group1,ways_run hstop,ways_blanks hword,countAt]
  by_cases hdigits : text.takeWhile classes.isDigit = []
  · simp [hdigits]
  · by_cases hbehind : Behind classes word (text.dropWhile classes.isDigit) <;> simp [hdigits,hbehind]

theorem search_counted (hword : Letters word) (text : List Char) :
    (counted classes word).search text = (countIn classes word text).map fun digits => [digits] := by
  have hplace : ∀ start text, ((counted classes word).matchAt start text).map Prod.fst =
      (countAt classes word text).map fun digits => [digits] :=
    fun start text => ways_counted hword text
  have hfrom : ∀ start, (counted classes word).findFrom start text =
      (countIn classes word text).map fun digits => [digits] := by
    induction text with
    | nil => exact fun start => hplace start []
    | cons c text ih =>
      intro start
      rw [findFrom,countIn,hplace,ih]
      cases countAt classes word (c :: text) <;> rfl
  exact hfrom true

theorem takeWhile_stop {p : Char → Bool} {c : Char} (hc : p c = false) (front rest : List Char) :
    (front ++ c :: rest).takeWhile p = front.takeWhile p := by
  induction front with
  | nil => simp [hc]
  | cons d front ih => by_cases hd : p d = true <;> simp [hd,ih]

theorem dropWhile_stop {p : Char → Bool} {c : Char} (hc : p c = false) (front rest : List Char) :
    (front ++ c :: rest).dropWhile p = front.dropWhile p ++ c :: rest := by
  induction front with
  | nil => simp [hc]
  | cons d front ih => by_cases hd : p d = true <;> simp [hd,ih]

theorem countIn_cons_of_not_isDigit {c : Char} (hc : classes.isDigit c = false) (text : List Char) :
    countIn classes word (c :: text) = countIn classes word text := by
  rw [countIn,countAt,if_neg]
  · rfl
  · simp [hc]

theorem countIn_append_of_not_isDigit {front : List Char}
    (hfront : ∀ c ∈ front, classes.isDigit c = false) (text : List Char) :
    countIn classes word (front ++ text) = countIn classes word text := by
  induction front with
  | nil => rfl
  | cons c front ih =>
    rw [List.cons_append,countIn_cons_of_not_isDigit (hfront c List.mem_cons_self)]
    exact ih fun d hd => hfront d (List.mem_cons_of_mem _ hd)

theorem countIn_digits {digits rest : List Char} (hdigits : ∀ c ∈ digits, classes.isDigit c = true)
    (hrest : ∀ c ∈ rest.head?, classes.isDigit c = false) :
    countIn classes word (digits ++ rest) =
      if digits ≠ [] ∧ Behind classes word rest then some digits else countIn classes word rest := by
  have htake : ∀ run : List Char, (∀ c ∈ run, classes.isDigit c = true) →
      (run ++ rest).takeWhile classes.isDigit = run ∧
        (run ++ rest).dropWhile classes.isDigit = rest := by
    intro run hrun
    rw [List.takeWhile_append_of_pos hrun,List.dropWhile_append_of_pos hrun]
    cases rest with
    | nil => simp
    | cons c rest => simp [hrest c rfl]
  induction digits with
  | nil => simp
  | cons c digits ih =>
    obtain ⟨htaken,hleft⟩ := htake (c :: digits) hdigits
    rw [List.cons_append] at htaken hleft
    rw [List.cons_append,countIn,countAt,htaken,hleft]
    by_cases hbehind : Behind classes word rest
    · simp [hbehind]
    · simp [hbehind,ih fun d hd => hdigits d (List.mem_cons_of_mem _ hd)]

theorem behind_append_iff (hword : Letters word) {blank digit : Char}
    (hblank : classes.isSpace blank = true) (hdigit : classes.isDigit digit = true)
    (front rest : List Char) : Behind classes word (front ++ blank :: digit :: rest) ↔
      Behind classes word (front ++ [blank]) := by
  have hnotMem : blank ∉ word := by
    intro hmem
    have h := @not_isSpace_of_isAlpha classes _ (hword.isAlpha hmem)
    simp [hblank] at h
  have hstart : ¬ word <+: digit :: rest := by
    cases word with
    | nil => exact absurd rfl hword.1
    | cons c word =>
      intro hmatch
      have h := @not_isDigit_of_isAlpha classes _ (hword.isAlpha List.mem_cons_self)
      rw [(List.cons_prefix_cons.mp hmatch).1] at h
      simp [hdigit] at h
  have hspace : classes.isSpace digit = false := isSpace_of_isDigit hdigit
  have hmatch : ∀ front : List Char,
      word <+: (front ++ blank :: digit :: rest).dropWhile classes.isSpace ↔
        word <+: (front ++ [blank]).dropWhile classes.isSpace := by
    intro front
    induction front with
    | nil => simp [hblank,hspace,hstart,hword.1]
    | cons c front ih =>
      by_cases hc : classes.isSpace c = true
      · simpa [hc] using ih
      · have hinside : ∀ x, word <+: (c :: front) ++ blank :: x ↔ word <+: c :: front :=
          fun x => Text.prefix_append_cons_iff hnotMem
        rw [List.cons_append,List.cons_append,List.dropWhile_cons_of_neg hc,
          List.dropWhile_cons_of_neg hc,← List.cons_append,← List.cons_append]
        exact (hinside _).trans (hinside _).symm
  rw [Behind,Behind,hmatch front]
  cases front with
  | nil => simp [hblank]
  | cons c front => by_cases hc : classes.isSpace c = true <;> simp [hc]

theorem countAt_append (hword : Letters word) {blank digit : Char}
    (hblank : classes.isSpace blank = true) (hdigit : classes.isDigit digit = true)
    (front rest : List Char) : countAt classes word (front ++ blank :: digit :: rest) =
      countAt classes word (front ++ [blank]) := by
  have hno : classes.isDigit blank = false := not_isDigit_of_isSpace hblank
  rw [countAt,countAt,takeWhile_stop hno,takeWhile_stop hno,dropWhile_stop hno,dropWhile_stop hno]
  simp only [behind_append_iff hword hblank hdigit]

/-- The first number of two texts between which a blank stands. -/
theorem countIn_append (hword : Letters word) {blank digit : Char}
    (hblank : classes.isSpace blank = true) (hdigit : classes.isDigit digit = true)
    (front rest : List Char) : countIn classes word (front ++ blank :: digit :: rest) =
      (countIn classes word (front ++ [blank])).or (countIn classes word (digit :: rest)) := by
  have hat := countAt_append hword hblank hdigit
  have hno : classes.isDigit blank = false := not_isDigit_of_isSpace hblank
  induction front with
  | nil =>
    have hnone : countIn classes word [blank] = none := by
      rw [countIn_cons_of_not_isDigit hno]
      rfl
    rw [List.nil_append,List.nil_append,countIn_cons_of_not_isDigit hno,hnone,Option.none_or]
  | cons c front ih =>
    have hplace := hat (c :: front) rest
    rw [List.cons_append,List.cons_append] at hplace
    rw [List.cons_append,List.cons_append,countIn,countIn,ih,hplace,Option.or_assoc]

/-- A piece of text that the search passes, whatever follows it. -/
def Passes (classes : CharClasses) (word piece : List Char) : Prop :=
  ∀ rest, countIn classes word (piece ++ rest) = countIn classes word rest

theorem Passes.append {front back : List Char} (hfront : Passes classes word front)
    (hback : Passes classes word back) : Passes classes word (front ++ back) := by
  intro rest
  rw [List.append_assoc,hfront,hback]

theorem passes_of_not_isDigit {piece : List Char} (h : ∀ c ∈ piece, classes.isDigit c = false) :
    Passes classes word piece := countIn_append_of_not_isDigit h

/-- A number with something else than a blank behind it. -/
theorem passes_digits {digits : List Char} (hdigits : ∀ c ∈ digits, classes.isDigit c = true)
    {c : Char} (hc : classes.isDigit c = false) (hblank : classes.isSpace c = false) :
    Passes classes word (digits ++ [c]) := by
  intro rest
  have hno : ¬ Behind classes word (c :: rest) := fun h => h.1 (by simp [hblank])
  rw [List.append_assoc,List.singleton_append,countIn_digits hdigits (by simpa using hc),if_neg]
  · exact countIn_cons_of_not_isDigit hc rest
  · exact fun h => hno h.2

/-- A number with a blank and another letter than the first of the word behind it. -/
theorem passes_digits_blank {digits : List Char}
    (hdigits : ∀ c ∈ digits, classes.isDigit c = true) {blank c : Char}
    (hblank : classes.isSpace blank = true) (hc : c.isAlpha = true) (hhead : word.head? ≠ some c)
    (hword : Letters word) : Passes classes word (digits ++ [blank,c]) := by
  intro rest
  have hdigit := @not_isDigit_of_isAlpha classes _ hc
  have hno : ¬ Behind classes word (blank :: c :: rest) := by
    intro h
    have hmatch := h.2
    rw [List.dropWhile_cons_of_pos hblank,
      List.dropWhile_cons_of_neg (by simp [@not_isSpace_of_isAlpha classes _ hc])] at hmatch
    cases word with
    | nil => exact hword.1 rfl
    | cons d word => exact hhead (congrArg some (List.cons_prefix_cons.mp hmatch).1)
  have hstart : classes.isDigit blank = false := not_isDigit_of_isSpace hblank
  rw [List.append_assoc,countIn_digits hdigits (by simpa using hstart),if_neg fun h => hno h.2]
  exact countIn_append_of_not_isDigit (by simp [hstart,hdigit]) rest

def countOf (part : ℕ × List Char) : List Char := Nat.toDigits 10 part.1 ++ ' ' :: part.2

theorem isSpace_space : classes.isSpace ' ' = true := by
  rw [isSpace_ascii (by decide)]
  rfl

theorem isDigit_of_mem_toDigits {n : ℕ} {c : Char} (hc : c ∈ Nat.toDigits 10 n) :
    classes.isDigit c = true := by
  have hdigit : c.isDigit = true := Nat.isDigit_of_mem_toDigits (by omega) (by omega) hc
  have hle := Char.isDigit_iff_toNat.mp hdigit
  have hnine : '9'.toNat = 57 := rfl
  rw [isDigit_ascii (by omega)]
  exact hdigit

theorem number_toDigits (n : ℕ) : classes.number (Nat.toDigits 10 n) = n := by
  have hvalue : ∀ digits : List Char, (∀ c ∈ digits, c.isDigit = true) → ∀ init,
      digits.foldl (fun n c => 10 * n + (classes.digitValue c).getD 0) init =
        Nat.ofDigitChars 10 digits init := by
    intro digits hdigits
    induction digits with
    | nil => exact fun init => rfl
    | cons c digits ih =>
      intro init
      have hc := hdigits c List.mem_cons_self
      have hle := Char.isDigit_iff_toNat.mp hc
      have hnine : '9'.toNat = 57 := rfl
      rw [List.foldl_cons,ih fun d hd => hdigits d (List.mem_cons_of_mem _ hd),
        classes.digitValue_ascii c (by omega),if_pos hc,Nat.ofDigitChars_cons]
      rfl
  rw [CharClasses.number,hvalue _ fun c hc => Nat.isDigit_of_mem_toDigits (by omega) (by omega) hc]
  exact Nat.ofDigitChars_toDigits (by omega) (by omega)

theorem countIn_countOf {part : ℕ × List Char} (hnoun : Letters part.2)
    {c : Char} (hc : c ∉ word) (rest : List Char) :
    countIn classes word (countOf part ++ c :: rest) =
      if word <+: part.2 then some (Nat.toDigits 10 part.1)
      else countIn classes word (c :: rest) := by
  have hdigits : ∀ d ∈ Nat.toDigits 10 part.1, classes.isDigit d = true :=
    fun d hd => isDigit_of_mem_toDigits hd
  have hspace := not_isDigit_of_isSpace (@isSpace_space classes)
  have hbehind : Behind classes word (' ' :: (part.2 ++ c :: rest)) ↔ word <+: part.2 := by
    cases hpart : part.2 with
    | nil => exact absurd hpart hnoun.1
    | cons d noun =>
      have hd := @not_isSpace_of_isAlpha classes d (hnoun.isAlpha (hpart ▸ List.mem_cons_self))
      rw [Behind,List.dropWhile_cons_of_pos isSpace_space,List.cons_append,
        List.dropWhile_cons_of_neg (by simp [hd]),← List.cons_append,
        Text.prefix_append_cons_iff hc]
      simp [isSpace_space]
  rw [countOf,List.append_assoc,List.cons_append,
    countIn_digits hdigits (by simpa using hspace)]
  simp only [hbehind,ne_eq,Nat.toDigits_ne_nil,not_false_eq_true,true_and]
  congr 1
  rw [countIn_cons_of_not_isDigit hspace]
  exact countIn_append_of_not_isDigit (fun d hd => not_isDigit_of_isAlpha (hnoun.isAlpha hd)) _

/-- Among counted nouns with commas between them the first that starts with the word is found. -/
theorem countIn_intercalate (hword : Letters word) {c : Char} (hc : c.isAlpha = false)
    {parts : List (ℕ × List Char)} (hparts : ∀ part ∈ parts, Letters part.2)
    (hne : parts ≠ []) (rest : List Char) :
    countIn classes word ([',',' '].intercalate (parts.map countOf) ++ c :: rest) =
      ((parts.find? fun part => decide (word <+: part.2)).map fun part =>
        Nat.toDigits 10 part.1).or (countIn classes word (c :: rest)) := by
  have hnotMem : ∀ {d : Char}, d.isAlpha = false → d ∉ word := by
    intro d hd hmem
    simp [hword.isAlpha hmem] at hd
  induction parts with
  | nil => exact absurd rfl hne
  | cons part parts ih =>
    have hfirst : Letters part.2 := hparts part List.mem_cons_self
    cases parts with
    | nil =>
      rw [List.map_singleton,List.intercalate_singleton,
        countIn_countOf hfirst (hnotMem hc)]
      by_cases hmatch : word <+: part.2 <;> simp [hmatch]
    | cons next parts =>
      have hrest := ih (fun p hp => hparts p (List.mem_cons_of_mem _ hp)) (List.cons_ne_nil _ _)
      have hcomma : ∀ d ∈ [',',' '], classes.isDigit d = false := by
        intro d hd
        have hd : d = ',' ∨ d = ' ' := by simpa using hd
        rcases hd with rfl | rfl <;> rw [isDigit_ascii (by decide)] <;> rfl
      rw [List.map_cons,List.map_cons,List.intercalate_cons_cons,← List.map_cons,
        List.append_assoc,List.append_assoc,List.cons_append,
        countIn_countOf hfirst (hnotMem (by decide))]
      by_cases hmatch : word <+: part.2
      · simp [hmatch]
      · rw [if_neg hmatch,List.find?_cons_of_neg (by simpa using hmatch),← hrest]
        exact countIn_append_of_not_isDigit hcomma _

end Pattern
end DockyardRL
