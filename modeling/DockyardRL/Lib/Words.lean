import Mathlib.Data.List.DropRight
import Mathlib.Tactic.Common
import Mathlib.Data.List.Nodup

/-! Texts that are words with blanks between them, and words that spell integers.

Names that are paths joined by dots: a path whose parts have no dot is read off its name. -/
namespace DockyardRL
namespace Words

section Split

variable {α : Type*} (blank : α → Bool)

def split (text : List α) : List (List α) := (text.splitOnP blank).filter fun word => !word.isEmpty

def strip (text : List α) : List α := (text.dropWhile blank).rdropWhile blank

def splitOnce (text : List α) : List (List α) :=
  let text := text.dropWhile blank
  let behind := (text.dropWhile fun a => !blank a).dropWhile blank
  if text.isEmpty then []
  else if behind.isEmpty then [text.takeWhile fun a => !blank a]
  else [text.takeWhile fun a => !blank a,behind]

def join (sep : α) (words : List (List α)) : List α := (words.intersperse [sep]).flatten

/-- A text that splits into itself. -/
def IsWord (word : List α) : Prop := word ≠ [] ∧ ∀ a ∈ word, blank a = false

def isWord (word : List α) : Bool := !word.isEmpty && word.all fun a => !blank a

variable {blank}

theorem isWord_iff {word : List α} : isWord blank word = true ↔ IsWord blank word := by
  simp [isWord,IsWord]

theorem join_cons_cons (sep : α) (word next : List α) (words : List (List α)) :
    join sep (word :: next :: words) = word ++ sep :: join sep (next :: words) := by
  simp [join]

@[simp] theorem join_singleton (sep : α) (word : List α) : join sep [word] = word := by simp [join]

theorem join_concat (sep : α) (words : List (List α)) (last : List α) :
    join sep (words ++ [last]) = (words.flatMap fun word => word ++ [sep]) ++ last := by
  induction words with
  | nil => simp
  | cons word words ih =>
    rw [List.flatMap_cons,List.append_assoc,← ih]
    cases words <;> simp [join]

theorem split_singleton {word : List α} (hword : IsWord blank word) : split blank word = [word] := by
  rw [split,List.splitOnP_eq_singleton hword.2]
  simp [hword.1]

theorem split_append {sep : α} (hsep : blank sep = true) {word : List α} (hword : IsWord blank word)
    (text : List α) : split blank (word ++ sep :: text) = word :: split blank text := by
  rw [split,List.splitOnP_append_cons_of_forall_mem hword.2 sep hsep]
  simp [split,hword.1]

theorem split_join {sep : α} (hsep : blank sep = true) {words : List (List α)}
    (hwords : ∀ word ∈ words, IsWord blank word) : split blank (join sep words) = words := by
  induction words with
  | nil => simp [split,join]
  | cons word words ih =>
    cases words with
    | nil =>
      rw [join_singleton]
      exact split_singleton (hwords word List.mem_cons_self)
    | cons next words =>
      rw [join_cons_cons,split_append hsep (hwords word List.mem_cons_self)]
      rw [ih fun w hw => hwords w (List.mem_cons_of_mem _ hw)]

theorem dropWhile_word {word : List α} (hword : IsWord blank word) (text : List α) :
    (word ++ text).dropWhile blank = word ++ text := by
  cases word with
  | nil => exact absurd rfl hword.1
  | cons a word => simp [hword.2 a List.mem_cons_self]

/-- A text is stripped when no blank is at either end. -/
theorem strip_eq_self_iff {text : List α} :
    strip blank text = text ↔
      (∀ a, text.head? = some a → blank a = false) ∧ ∀ a, text.getLast? = some a → blank a = false := by
  constructor
  · intro h
    have hle : (text.dropWhile blank).length ≤ text.length := List.length_dropWhile_le ..
    have hpre : text <+: text.dropWhile blank := by
      have hpre := @List.rdropWhile_prefix _ blank (text.dropWhile blank)
      rwa [show (text.dropWhile blank).rdropWhile blank = text from h] at hpre
    have hdrop : text.dropWhile blank = text := (hpre.eq_of_length_le hle).symm
    refine ⟨fun a ha => ?_,fun a ha => ?_⟩
    · cases text with
      | nil => simp at ha
      | cons b text =>
        obtain rfl := Option.some.inj ha
        by_contra hb
        rw [Bool.not_eq_false] at hb
        rw [List.dropWhile_cons_of_pos hb] at hdrop
        have hlen := List.length_dropWhile_le blank text
        rw [hdrop,List.length_cons] at hlen
        omega
    · rw [strip,hdrop,List.rdropWhile_eq_self_iff] at h
      have hne : text ≠ [] := by
        rintro rfl
        simp at ha
      rw [List.getLast?_eq_some_getLast hne] at ha
      obtain rfl := Option.some.inj ha
      simpa using h hne
  · rintro ⟨hhead,hlast⟩
    have hdrop : text.dropWhile blank = text := by
      cases text with
      | nil => rfl
      | cons b text => simp [hhead b rfl]
    rw [strip,hdrop,List.rdropWhile_eq_self_iff]
    intro hne
    simp [hlast _ (List.getLast?_eq_some_getLast hne)]

theorem strip_of_forall {text : List α} (h : ∀ a ∈ text, blank a = false) : strip blank text = text :=
  strip_eq_self_iff.mpr ⟨fun a ha => h a (List.mem_of_head? ha),
    fun a ha => h a (List.mem_of_getLast? ha)⟩

theorem rdropWhile_append (text behind : List α) : (text ++ behind).rdropWhile blank =
    if behind.rdropWhile blank = [] then text.rdropWhile blank
    else text ++ behind.rdropWhile blank := by
  rw [List.rdropWhile,List.reverse_append,List.dropWhile_append]
  by_cases h : behind.rdropWhile blank = []
  · have hempty : behind.reverse.dropWhile blank = [] := by
      rwa [List.rdropWhile,List.reverse_eq_nil_iff] at h
    rw [if_pos h,hempty]
    rfl
  · have hempty : (behind.reverse.dropWhile blank).isEmpty = false := by
      rw [List.rdropWhile,List.reverse_eq_nil_iff] at h
      simpa using h
    rw [if_neg h,hempty]
    simp [List.rdropWhile]

theorem rdropWhile_word {word : List α} (hword : IsWord blank word) : word.rdropWhile blank = word :=
  List.rdropWhile_eq_self_iff.mpr fun hne => by simp [hword.2 _ (List.getLast_mem hne)]

theorem dropWhile_rdropWhile (text : List α) :
    (text.rdropWhile blank).dropWhile blank = strip blank text := by
  induction text with
  | nil => rfl
  | cons a text ih =>
    have hcons := @rdropWhile_append α blank [a] text
    rw [List.singleton_append] at hcons
    rw [hcons]
    by_cases ha : blank a = true
    · rw [strip,List.dropWhile_cons_of_pos ha]
      change _ = strip blank text
      rw [← ih]
      split_ifs with h
      · simp [List.rdropWhile_singleton,ha,h]
      · simp [ha]
    · rw [strip,List.dropWhile_cons_of_neg ha,hcons]
      split_ifs
      · simp [List.rdropWhile_singleton,ha]
      · simp [ha]

/-- Blanks around a text are stripped with those it has. -/
theorem strip_append_blanks {lead tail : List α} (hlead : ∀ a ∈ lead, blank a = true)
    (htail : ∀ a ∈ tail, blank a = true) (text : List α) :
    strip blank (lead ++ (text ++ tail)) = strip blank text := by
  have htail' : tail.rdropWhile blank = [] := List.rdropWhile_eq_nil_iff.mpr htail
  rw [strip,List.dropWhile_append_of_pos hlead]
  show strip blank (text ++ tail) = _
  rw [← dropWhile_rdropWhile,rdropWhile_append,if_pos htail',dropWhile_rdropWhile]

theorem filter_dropWhile (text : List α) : (text.dropWhile blank).filter (fun a => !blank a) =
    text.filter fun a => !blank a := by
  induction text with
  | nil => rfl
  | cons a text ih => cases ha : blank a <;> simp [ha,ih]

/-- Only blanks are stripped. -/
theorem filter_strip (text : List α) : (strip blank text).filter (fun a => !blank a) =
    text.filter fun a => !blank a := by
  rw [strip,List.rdropWhile,List.filter_reverse,filter_dropWhile,List.filter_reverse,
    List.reverse_reverse,filter_dropWhile]

theorem mem_strip {text : List α} {a : α} (ha : blank a = false) : a ∈ strip blank text ↔ a ∈ text := by
  have hmem : ∀ l : List α, a ∈ l ↔ a ∈ l.filter fun a => !blank a := fun l => by
    simp [List.mem_filter,ha]
  rw [hmem,filter_strip,← hmem]

theorem getLast?_strip {text : List α} {a : α} (h : (strip blank text).getLast? = some a) :
    blank a = false := by
  have hne : strip blank text ≠ [] := by
    rintro hnil
    rw [hnil] at h
    cases h
  rw [List.getLast?_eq_some_getLast hne] at h
  obtain rfl := Option.some.inj h
  exact Bool.eq_false_iff.mpr (List.rdropWhile_last_not blank (text.dropWhile blank) hne)

theorem strip_word_append {word : List α} (hword : IsWord blank word) {sep : α}
    (hsep : blank sep = true) (text : List α) : strip blank (word ++ sep :: text) =
      if strip blank text = [] then word else word ++ sep :: text.rdropWhile blank := by
  have hempty : text.rdropWhile blank = [] ↔ strip blank text = [] := by
    rw [← dropWhile_rdropWhile]
    constructor
    · intro h
      rw [h]
      rfl
    · intro h
      have hall := List.rdropWhile_eq_self_iff.mp (List.rdropWhile_idempotent blank text)
      by_contra hne
      rw [List.dropWhile_eq_nil_iff] at h
      exact hall hne (h _ (List.getLast_mem hne))
  have hcons := @rdropWhile_append α blank [sep] text
  rw [List.singleton_append,List.rdropWhile_singleton,if_pos hsep] at hcons
  rw [strip,dropWhile_word hword,rdropWhile_append,hcons]
  by_cases h : strip blank text = []
  · rw [if_pos (hempty.mpr h),if_pos rfl,if_pos h,rdropWhile_word hword]
  · have hne := fun hnil => h (hempty.mp hnil)
    rw [if_neg hne,if_neg h,if_neg (by simp)]
    simp

theorem takeWhile_word {word : List α} (hword : IsWord blank word) {sep : α} (hsep : blank sep = true)
    (text : List α) : (word ++ sep :: text).takeWhile (fun a => !blank a) = word := by
  rw [List.takeWhile_append_of_pos fun a ha => by simp [hword.2 a ha]]
  simp [hsep]

theorem dropWhile_word_append {word : List α} (hword : IsWord blank word) {sep : α}
    (hsep : blank sep = true) (text : List α) :
    (word ++ sep :: text).dropWhile (fun a => !blank a) = sep :: text := by
  rw [List.dropWhile_append_of_pos fun a ha => by simp [hword.2 a ha]]
  simp [hsep]

theorem splitOnce_word {word : List α} (hword : IsWord blank word) : splitOnce blank word = [word] := by
  have hdrop : word.dropWhile blank = word := by simpa using dropWhile_word hword []
  have htake : (word.takeWhile fun a => !blank a) = word :=
    List.takeWhile_eq_self_iff.mpr fun a ha => by simp [hword.2 a ha]
  have hnil : (word.dropWhile fun a => !blank a) = [] :=
    List.dropWhile_eq_nil_iff.mpr fun a ha => by simp [hword.2 a ha]
  simp [splitOnce,hdrop,htake,hnil,hword.1]

/-- The first word of a stripped text and what is left of the rest. -/
theorem splitOnce_strip {word : List α} (hword : IsWord blank word) {sep : α}
    (hsep : blank sep = true) (text : List α) : splitOnce blank (strip blank (word ++ sep :: text)) =
      if strip blank text = [] then [word] else [word,strip blank text] := by
  rw [strip_word_append hword hsep]
  by_cases h : strip blank text = []
  · rw [if_pos h,if_pos h,splitOnce_word hword]
  · rw [if_neg h,if_neg h,splitOnce]
    rw [dropWhile_word hword,takeWhile_word hword hsep,dropWhile_word_append hword hsep]
    rw [List.dropWhile_cons_of_pos hsep,dropWhile_rdropWhile]
    simp [h]

/-- Stripping again does nothing. -/
theorem strip_strip_word {word : List α} (hword : IsWord blank word) {sep : α}
    (hsep : blank sep = true) (text : List α) :
    strip blank (strip blank (word ++ sep :: text)) = strip blank (word ++ sep :: text) := by
  rw [strip_word_append hword hsep]
  by_cases h : strip blank text = []
  · have hdrop : word.dropWhile blank = word := by simpa using dropWhile_word hword []
    rw [if_pos h,strip,hdrop,rdropWhile_word hword]
  · have hagain : strip blank (text.rdropWhile blank) = strip blank text := by
      rw [← dropWhile_rdropWhile,List.rdropWhile_idempotent,dropWhile_rdropWhile]
    rw [if_neg h,strip_word_append hword hsep,hagain,if_neg h,List.rdropWhile_idempotent]

end Split

def readNat (digits : List Char) : Option ℕ :=
  if digits.isEmpty then none
  else if digits.all Char.isDigit then some (Nat.ofDigitChars 10 digits 0) else none

def readInt : List Char → Option ℤ
  | '-' :: digits => (readNat digits).map fun n => -(n : ℤ)
  | digits => (readNat digits).map fun n => (n : ℤ)

def spell (n : ℤ) : List Char := (toString n).toList

theorem isDigit_of_mem_toDigits {n : ℕ} {c : Char} (hc : c ∈ Nat.toDigits 10 n) : c.isDigit = true :=
  Nat.isDigit_of_mem_toDigits (by omega) (by omega) hc

theorem readNat_toDigits (n : ℕ) : readNat (Nat.toDigits 10 n) = some n := by
  have hdigits : (Nat.toDigits 10 n).all Char.isDigit = true :=
    List.all_eq_true.mpr fun c hc => isDigit_of_mem_toDigits hc
  have hne : (Nat.toDigits 10 n).isEmpty = false := by simp [Nat.toDigits_ne_nil]
  rw [readNat,hne,hdigits]
  simp

theorem spell_ofNat (n : ℕ) : spell (Int.ofNat n) = Nat.toDigits 10 n := by
  rw [spell,show toString (Int.ofNat n) = n.repr from rfl,Nat.toList_repr]

theorem spell_negSucc (n : ℕ) : spell (Int.negSucc n) = '-' :: Nat.toDigits 10 (n + 1) := by
  rw [spell,show toString (Int.negSucc n) = "-" ++ (n + 1).repr from rfl]
  simp [Nat.toList_repr]

theorem readInt_of_digit {c : Char} {word : List Char} (hc : c.isDigit = true) :
    readInt (c :: word) = (readNat (c :: word)).map fun n => (n : ℤ) := by
  have hne : c ≠ '-' := by
    rintro rfl
    exact absurd hc (by decide)
  rw [readInt]
  intro digits h
  exact hne (List.cons.inj h).1

@[simp] theorem readInt_spell (n : ℤ) : readInt (spell n) = some n := by
  cases n with
  | ofNat n =>
    rw [spell_ofNat]
    cases hdigits : Nat.toDigits 10 n with
    | nil => exact absurd hdigits Nat.toDigits_ne_nil
    | cons c word =>
      have hc : c.isDigit = true := isDigit_of_mem_toDigits (hdigits ▸ List.mem_cons_self)
      rw [readInt_of_digit hc,← hdigits,readNat_toDigits]
      rfl
  | negSucc n =>
    rw [spell_negSucc,readInt,readNat_toDigits]
    rfl

theorem mem_spell {n : ℤ} {c : Char} (hc : c ∈ spell n) : c.isDigit = true ∨ c = '-' := by
  cases n with
  | ofNat n =>
    rw [spell_ofNat] at hc
    exact .inl (isDigit_of_mem_toDigits hc)
  | negSucc n =>
    rw [spell_negSucc] at hc
    exact (List.mem_cons.mp hc).elim .inr fun h => .inl (isDigit_of_mem_toDigits h)

theorem spell_ne_nil (n : ℤ) : spell n ≠ [] := by
  cases n with
  | ofNat n =>
    rw [spell_ofNat]
    exact Nat.toDigits_ne_nil
  | negSucc n => simp [spell_negSucc]

end Words

namespace DottedNames

/-- `".".join(path)`. -/
def dotted (path : List String) : String := ".".intercalate path

/-- A part of a path. -/
def Dotless (part : String) : Prop := '.' ∉ part.toList

instance (part : String) : Decidable (Dotless part) :=
  inferInstanceAs (Decidable ('.' ∉ part.toList))

/-- `name.rsplit(".", 1)` of a name with a dot: what is before the last dot, and what follows. -/
def rsplitOnce (name : String) : Option (String × String) :=
  match name.toList.reverse.dropWhile (· ≠ '.') with
  | [] => none
  | _ :: before =>
    some (String.ofList before.reverse,
      String.ofList (name.toList.reverse.takeWhile (· ≠ '.')).reverse)

theorem dotless_repr (n : ℕ) : Dotless n.repr := by
  intro hmem
  rw [Nat.toList_repr] at hmem
  exact absurd (Nat.isDigit_of_mem_toDigits (by decide) (by decide) hmem) (by decide)

theorem repr_injective : Function.Injective Nat.repr := by
  intro m n heq
  have hdigits : Nat.toDigits 10 m = Nat.toDigits 10 n := by
    rw [← Nat.toList_repr,← Nat.toList_repr,heq]
  rw [← Nat.ofDigitChars_ten_toDigits (n := m),hdigits,Nat.ofDigitChars_ten_toDigits]

theorem toList_dotted (path : List String) :
    (dotted path).toList = ['.'].intercalate (path.map String.toList) := by
  rw [dotted,String.toList_intercalate]
  rfl

/-- Paths with the same name are the same. -/
theorem dotted_inj {p q : List String} (hp : ∀ part ∈ p, Dotless part) (hq : ∀ part ∈ q, Dotless part)
    (hpne : p ≠ []) (hqne : q ≠ []) : dotted p = dotted q ↔ p = q := by
  refine ⟨fun heq => ?_,congrArg dotted⟩
  have hread : ∀ {r : List String}, (∀ part ∈ r, Dotless part) → r ≠ [] →
      (dotted r).toList.splitOn '.' = r.map String.toList := by
    intro r hr hne
    rw [toList_dotted]
    refine List.splitOn_intercalate '.' ?_ (by simpa using hne)
    intro part hpart
    obtain ⟨s,hs,rfl⟩ := List.mem_map.mp hpart
    exact hr s hs
  have hparts : p.map String.toList = q.map String.toList := by
    rw [← hread hp hpne,← hread hq hqne,heq]
  exact List.map_injective_iff.mpr (fun _ _ => String.toList_inj.mp) hparts

theorem dotted_concat {path : List String} (part : String) (hne : path ≠ []) :
    dotted (path ++ [part]) = dotted path ++ "." ++ part := by
  rw [dotted,String.intercalate_append_of_ne_nil hne (List.cons_ne_nil _ _),
    String.intercalate_singleton]
  rfl

theorem rsplitOnce_append {part : String} (before : String) (hpart : Dotless part) :
    rsplitOnce (before ++ "." ++ part) = some (before,part) := by
  have hreverse : (before ++ "." ++ part).toList.reverse =
      part.toList.reverse ++ '.' :: before.toList.reverse := by
    simp
  have hkept : ∀ c ∈ part.toList.reverse, decide (c ≠ '.') = true := fun c hc =>
    decide_eq_true fun heq => hpart (heq ▸ List.mem_reverse.mp hc)
  rw [rsplitOnce,hreverse,List.dropWhile_append_of_pos hkept,List.takeWhile_append_of_pos hkept]
  simp

end DottedNames
end DockyardRL
