import Mathlib.Data.List.Infix
import Mathlib.Tactic.Common

/-! Searching in texts that were put together with separators. A needle that does not contain the
separator lies within one of the parts.

Tags in a text. A tag starts with a symbol that it has nowhere else, so that two occurrences of tags
with the same mark do not overlap; a tag that is taken out of a text can still leave the halves of
another one side by side.

Base64 text, read as liberally as the standard decoders do: what is not of the alphabet is skipped,
and the padding ends the text. -/
namespace DockyardRL
namespace Text

section

variable {α : Type*} {needle a b : List α} {c d : α}

theorem prefix_append_cons_iff (hc : c ∉ needle) : needle <+: a ++ c :: b ↔ needle <+: a := by
  induction a generalizing needle with
  | nil =>
    cases needle with
    | nil => simp
    | cons x needle =>
      have hne : x ≠ c := fun heq => hc (heq ▸ List.mem_cons_self)
      simp [List.cons_prefix_cons,hne]
  | cons y a ih =>
    cases needle with
    | nil => simp
    | cons x needle =>
      have htail : c ∉ needle := fun hmem => hc (List.mem_cons_of_mem _ hmem)
      rw [List.cons_append,List.cons_prefix_cons,List.cons_prefix_cons,ih htail]

theorem infix_append_cons_iff (hc : c ∉ needle) :
    needle <:+: a ++ c :: b ↔ needle <:+: a ∨ needle <:+: b := by
  induction a with
  | nil =>
    have hhead := prefix_append_cons_iff (a := []) (b := b) hc
    rw [List.nil_append] at hhead ⊢
    rw [List.infix_cons_iff,hhead,List.prefix_nil,List.infix_nil]
  | cons y a ih =>
    have hhead := prefix_append_cons_iff (a := y :: a) (b := b) hc
    rw [List.cons_append] at hhead ⊢
    rw [List.infix_cons_iff,hhead,ih,List.infix_cons_iff,or_assoc]

/-- A separator of two symbols: the needle has not the first and does not start with the second. -/
theorem infix_append_cons_cons_iff (hc : c ∉ needle) (hne : needle ≠ []) (hd : needle.head? ≠ some d) :
    needle <:+: a ++ c :: d :: b ↔ needle <:+: a ∨ needle <:+: b := by
  have hstart : ¬ needle <+: d :: b := by
    intro hmatch
    cases needle with
    | nil => exact hne rfl
    | cons x needle =>
      obtain ⟨rfl,-⟩ := List.cons_prefix_cons.mp hmatch
      exact hd rfl
  rw [infix_append_cons_iff hc,List.infix_cons_iff,or_iff_right hstart]

/-- Searching in joined lines. -/
theorem infix_intercalate_iff (hc : c ∉ needle) (hne : needle ≠ []) (hd : needle.head? ≠ some d)
    (lines : List (List α)) :
    needle <:+: [c,d].intercalate lines ↔ ∃ line ∈ lines, needle <:+: line := by
  induction lines with
  | nil => simp [hne]
  | cons line lines ih =>
    cases lines with
    | nil => simp
    | cons next lines =>
      have hcons : [c,d].intercalate (line :: next :: lines) =
          line ++ c :: d :: [c,d].intercalate (next :: lines) := by
        rw [List.intercalate_cons_cons]
        simp
      rw [hcons,infix_append_cons_cons_iff hc hne hd,ih]
      simp

variable [DecidableEq α]

/-- `text.split(c, 1)[0]`. -/
def before (c : α) (text : List α) : List α := text.takeWhile (· ≠ c)

theorem before_of_mem (h : c ∈ a) : before c (a ++ b) = before c a := by
  induction a with
  | nil => cases h
  | cons x a ih =>
    rw [List.cons_append,before,before]
    by_cases hx : x = c
    · rw [List.takeWhile_cons_of_neg (by simpa using hx),
        List.takeWhile_cons_of_neg (by simpa using hx)]
    · have hmem : c ∈ a := List.mem_of_ne_of_mem (Ne.symm hx) h
      rw [List.takeWhile_cons_of_pos (by simpa using hx),
        List.takeWhile_cons_of_pos (by simpa using hx)]
      exact congrArg (x :: ·) (ih hmem)

theorem before_of_notMem (h : c ∉ a) : before c (a ++ b) = a ++ before c b :=
  List.takeWhile_append_of_pos fun x hx => by
    have hne : x ≠ c := fun heq => h (heq ▸ hx)
    simpa using hne

def cut (needle : List α) : List α → Option (List α × List α)
  | [] => if needle = [] then some ([],[]) else none
  | c :: text =>
    if needle <+: c :: text then some ([],(c :: text).drop needle.length)
    else (cut needle text).map fun parts => (c :: parts.1,parts.2)

theorem cut_length {text before after : List α} (h : cut needle text = some (before,after)) :
    before.length + needle.length + after.length = text.length := by
  induction text generalizing before with
  | nil =>
    rw [cut] at h
    split at h
    · rename_i hnil
      cases h
      simp [hnil]
    · cases h
  | cons c text ih =>
    rw [cut] at h
    split at h
    · rename_i hmatch
      cases h
      have hle := hmatch.length_le
      rw [List.length_drop,List.length_nil]
      omega
    · obtain ⟨parts,hparts,heq⟩ := Option.map_eq_some_iff.mp h
      cases heq
      have hrest := ih hparts
      simp only [List.length_cons]
      omega

def pieces (needle : List α) : ℕ → List α → List (List α)
  | 0, text => [text]
  | fuel + 1, text => match cut needle text with
    | none => [text]
    | some (front,rest) => front :: pieces needle fuel rest

theorem pieces_fuel {text : List α} {fuel fuel' : ℕ} (hne : needle ≠ []) (h : text.length ≤ fuel)
    (h' : text.length ≤ fuel') : pieces needle fuel text = pieces needle fuel' text := by
  have hempty : cut needle ([] : List α) = none := if_neg hne
  induction fuel generalizing fuel' text with
  | zero =>
    have hnil : text = [] := List.length_eq_zero_iff.mp (Nat.le_zero.mp h)
    subst hnil
    cases fuel' <;> simp [pieces,hempty]
  | succ fuel ih =>
    cases fuel' with
    | zero =>
      have hnil : text = [] := List.length_eq_zero_iff.mp (Nat.le_zero.mp h')
      subst hnil
      simp [pieces,hempty]
    | succ fuel' =>
      rw [pieces,pieces]
      cases hcut : cut needle text with
      | none => rfl
      | some parts =>
        have hlength := cut_length hcut
        have hpos := List.length_pos_iff.mpr hne
        exact congrArg (parts.1 :: ·) (ih (by omega) (by omega))

/-- `text.replace(needle, replacement)` for a nonempty needle. -/
def replaceAll (needle replacement text : List α) : List α :=
  ((pieces needle text.length text).intersperse replacement).flatten

theorem pieces_ne_nil (needle : List α) (fuel : ℕ) (text : List α) : pieces needle fuel text ≠ [] := by
  cases fuel with
  | zero => simp [pieces]
  | succ fuel =>
    rw [pieces]
    split <;> simp

theorem cut_cons_of_ne {c d : α} (h : d ≠ c) (text : List α) :
    cut [c] (d :: text) = (cut [c] text).map fun parts => (d :: parts.1,parts.2) := by
  rw [cut,if_neg]
  rw [List.cons_prefix_cons]
  exact fun hlead => h hlead.1.symm

theorem pieces_cons_of_ne {c d : α} (h : d ≠ c) (text : List α) :
    ∃ front rest, pieces [c] text.length text = front :: rest ∧
      pieces [c] (d :: text).length (d :: text) = (d :: front) :: rest := by
  rw [List.length_cons,pieces,cut_cons_of_ne h]
  cases hcut : cut [c] text with
  | none =>
    refine ⟨text,[],?_,rfl⟩
    cases hlength : text.length with
    | zero => rfl
    | succ n => rw [pieces,hcut]
  | some parts =>
    have hlength := cut_length hcut
    rw [List.length_singleton] at hlength
    refine ⟨parts.1,pieces [c] text.length parts.2,?_,rfl⟩
    cases hn : text.length with
    | zero => omega
    | succ n =>
      rw [pieces,hcut]
      exact congrArg (parts.1 :: ·) (pieces_fuel (List.cons_ne_nil c []) (by omega) (by omega))

theorem replaceAll_singleton (c : α) (replacement text : List α) :
    replaceAll [c] replacement text = text.flatMap fun d => if d = c then replacement else [d] := by
  induction text with
  | nil => simp [replaceAll,pieces]
  | cons d text ih =>
    rw [List.flatMap_cons,← ih]
    by_cases h : d = c
    · subst h
      have hcut : cut [d] (d :: text) = some ([],text) := by
        rw [cut,if_pos (List.cons_prefix_cons.mpr ⟨rfl,List.nil_prefix⟩)]
        rfl
      rw [if_pos rfl,replaceAll,List.length_cons,pieces,hcut,replaceAll]
      dsimp only
      cases hpieces : pieces [d] text.length text with
      | nil => exact absurd hpieces (pieces_ne_nil _ _ _)
      | cons front rest => simp
    · obtain ⟨front,rest,htext,hcons⟩ := pieces_cons_of_ne h text
      rw [if_neg h,replaceAll,hcons,replaceAll,htext]
      cases rest <;> simp

end

variable {α : Type*} [DecidableEq α] {needle text a b body : List α} {mark : α}

theorem cut_eq_none_iff : cut needle text = none ↔ ¬ needle <:+: text := by
  induction text with
  | nil =>
    rw [cut,List.infix_nil]
    split_ifs with h <;> simp [h]
  | cons c text ih =>
    rw [cut,List.infix_cons_iff,not_or,← ih]
    split_ifs with h <;> simp [h]

theorem cut_eq_some (h : cut needle text = some (a,b)) : text = a ++ needle ++ b := by
  induction text generalizing a with
  | nil =>
    rw [cut] at h
    split_ifs at h with hneedle
    obtain ⟨rfl,rfl⟩ := Prod.mk.inj (Option.some.inj h)
    rw [hneedle]
    rfl
  | cons c text ih =>
    rw [cut] at h
    split_ifs at h with hneedle
    · obtain ⟨rfl,rfl⟩ := Prod.mk.inj (Option.some.inj h)
      obtain ⟨rest,hrest⟩ := hneedle
      rw [List.nil_append,← hrest,List.drop_left]
    · obtain ⟨⟨front,behind⟩,hcut,heq⟩ := Option.map_eq_some_iff.mp h
      obtain ⟨rfl,rfl⟩ := Prod.mk.inj heq
      rw [ih hcut]
      rfl

theorem not_infix_of_cut (hne : needle ≠ []) (h : cut needle text = some (a,b)) :
    ¬ needle <:+: a := by
  induction text generalizing a with
  | nil =>
    rw [cut,if_neg hne] at h
    cases h
  | cons c text ih =>
    rw [cut] at h
    split_ifs at h with hneedle
    · obtain ⟨rfl,rfl⟩ := Prod.mk.inj (Option.some.inj h)
      rwa [List.infix_nil]
    · obtain ⟨⟨front,behind⟩,hcut,heq⟩ := Option.map_eq_some_iff.mp h
      obtain ⟨rfl,rfl⟩ := Prod.mk.inj heq
      rw [List.infix_cons_iff,not_or]
      refine ⟨fun hstart => hneedle (hstart.trans ?_),ih hcut⟩
      rw [cut_eq_some hcut,List.append_assoc]
      exact List.prefix_append (c :: front) _

omit [DecidableEq α] in
/-- A tag starts in front of another only where it stands there as a whole. -/
theorem prefix_tag_iff (hbody : mark ∉ body) (hne : a ≠ []) :
    mark :: body <+: a ++ mark :: b ↔ mark :: body <+: a := by
  cases a with
  | nil => exact absurd rfl hne
  | cons c a =>
    rw [List.cons_append,List.cons_prefix_cons,List.cons_prefix_cons,prefix_append_cons_iff hbody]

/-- The first occurrence of a needle, behind a text of which no end goes on with it. -/
theorem cut_append (h : ∀ s, s ≠ [] → s <:+ a → ¬ needle <+: s ++ (needle ++ b)) :
    cut needle (a ++ (needle ++ b)) = some (a,b) := by
  induction a with
  | nil =>
    rw [List.nil_append]
    cases needle with
    | nil => cases b <;> simp [cut]
    | cons c needle =>
      rw [List.cons_append,cut,← List.cons_append,if_pos (List.prefix_append _ _),List.drop_left]
  | cons c a ih =>
    have hhead := h (c :: a) (List.cons_ne_nil c a) List.suffix_rfl
    have hrest := ih fun s hs hsuffix => h s hs (hsuffix.trans (List.suffix_cons c a))
    rw [List.cons_append] at hhead
    rw [List.cons_append,cut,if_neg hhead,hrest]
    rfl

/-- The first occurrence of a tag. -/
theorem cut_tag (hbody : mark ∉ body) (h : ¬ mark :: body <:+: a) :
    cut (mark :: body) (a ++ mark :: (body ++ b)) = some (a,b) :=
  cut_append fun _ hs hsuffix hstart =>
    h (((prefix_tag_iff hbody hs).mp hstart).isInfix.trans hsuffix.isInfix)

theorem replaceAll_of_not_infix (replacement : List α) (h : ¬ needle <:+: text) :
    replaceAll needle replacement text = text := by
  have hcut := cut_eq_none_iff.mpr h
  rw [replaceAll]
  cases hlength : text.length with
  | zero => simp [pieces]
  | succ n => simp [pieces,hcut]

theorem replaceAll_self (hne : needle ≠ []) (replacement : List α) :
    replaceAll needle replacement needle = replacement := by
  have hcut : cut needle needle = some ([],[]) := by
    cases needle with
    | nil => exact absurd rfl hne
    | cons c needle => rw [cut,if_pos List.prefix_rfl,List.drop_length]
  have hempty : ∀ fuel, pieces needle fuel [] = [[]] := by
    intro fuel
    cases fuel with
    | zero => rfl
    | succ fuel => rw [pieces,cut,if_neg hne]
  obtain ⟨n,hn⟩ : ∃ n, needle.length = n + 1 :=
    Nat.exists_eq_succ_of_ne_zero (List.length_pos_iff.mpr hne).ne'
  rw [replaceAll,hn,pieces,hcut]
  dsimp only
  rw [hempty]
  simp

def occurrences (needle : List α) : List α → ℕ
  | [] => if needle = [] then 1 else 0
  | c :: text => (if needle <+: c :: text then 1 else 0) + occurrences needle text

theorem occurrences_eq_zero_iff : occurrences needle text = 0 ↔ ¬ needle <:+: text := by
  induction text with
  | nil => simp [occurrences]
  | cons c text ih =>
    rw [occurrences,List.infix_cons_iff,not_or,Nat.add_eq_zero_iff,ih]
    simp

theorem occurrences_append_of_notMem (h : mark ∉ a) :
    occurrences (mark :: body) (a ++ b) = occurrences (mark :: body) b := by
  induction a with
  | nil => rfl
  | cons c a ih =>
    rw [List.mem_cons,not_or] at h
    obtain ⟨hne,hrest⟩ := h
    have hhead : ¬ mark :: body <+: c :: (a ++ b) :=
      fun hstart => hne (List.cons_prefix_cons.mp hstart).1
    rw [List.cons_append,occurrences,if_neg hhead,ih hrest,Nat.zero_add]

theorem occurrences_tag (hbody : mark ∉ body) :
    occurrences (mark :: body) (a ++ mark :: (body ++ b)) =
      occurrences (mark :: body) a + 1 + occurrences (mark :: body) b := by
  induction a with
  | nil =>
    have hmatch : mark :: body <+: mark :: (body ++ b) := ⟨b,rfl⟩
    have hempty : occurrences (mark :: body) [] = 0 := if_neg (List.cons_ne_nil _ _)
    rw [List.nil_append,hempty,occurrences,if_pos hmatch,occurrences_append_of_notMem hbody]
  | cons c a ih =>
    have hhead : mark :: body <+: c :: (a ++ mark :: (body ++ b)) ↔ mark :: body <+: c :: a := by
      rw [List.cons_prefix_cons,prefix_append_cons_iff hbody,List.cons_prefix_cons]
    rw [List.cons_append,occurrences,occurrences,ih,if_congr hhead rfl rfl]
    omega

/-- A text has one piece more than it has tags. -/
theorem length_pieces (hbody : mark ∉ body) {fuel : ℕ} (h : text.length ≤ fuel) :
    (pieces (mark :: body) fuel text).length = occurrences (mark :: body) text + 1 := by
  induction fuel generalizing text with
  | zero =>
    obtain rfl := List.length_eq_zero_iff.mp (Nat.le_zero.mp h)
    simp [pieces,occurrences]
  | succ fuel ih =>
    rw [pieces]
    cases hcut : cut (mark :: body) text with
    | none =>
      rw [occurrences_eq_zero_iff.mpr (cut_eq_none_iff.mp hcut)]
      rfl
    | some parts =>
      obtain ⟨front,rest⟩ := parts
      have hlength := cut_length hcut
      have hnone : ¬ mark :: body <:+: front := not_infix_of_cut (List.cons_ne_nil _ _) hcut
      rw [List.length_cons] at hlength
      rw [List.length_cons,ih (by omega),cut_eq_some hcut,List.append_assoc,List.cons_append,
        occurrences_tag hbody,occurrences_eq_zero_iff.mpr hnone]
      omega

def removed (needle text : List α) : List α := (pieces needle text.length text).flatten

@[simp] theorem removed_nil (needle : List α) : removed needle [] = [] := by
  simp [removed,pieces]

theorem removed_needle (hne : needle ≠ []) (rest : List α) :
    removed needle (needle ++ rest) = removed needle rest := by
  have hcut : cut needle (needle ++ rest) = some ([],rest) := by
    cases needle with
    | nil => exact absurd rfl hne
    | cons c needle =>
      have hmatch : c :: needle <+: c :: (needle ++ rest) := ⟨rest,rfl⟩
      rw [List.cons_append,cut,if_pos hmatch,← List.cons_append,List.drop_left]
  have hpos := List.length_pos_iff.mpr hne
  obtain ⟨n,hn⟩ : ∃ n, (needle ++ rest).length = n + 1 :=
    Nat.exists_eq_succ_of_ne_zero (by rw [List.length_append]; omega)
  rw [removed,hn,pieces,hcut,List.flatten_cons,List.nil_append,removed]
  rw [List.length_append] at hn
  rw [pieces_fuel hne (by omega) le_rfl]

theorem removed_cons (hne : needle ≠ []) {c : α} (h : ¬ needle <+: c :: text) :
    removed needle (c :: text) = c :: removed needle text := by
  rw [removed,List.length_cons,pieces,cut,if_neg h,removed]
  cases hcut : cut needle text with
  | none => cases hlength : text.length <;> simp [pieces,hcut]
  | some parts =>
    obtain ⟨front,rest⟩ := parts
    have hlength := cut_length hcut
    have hpos := List.length_pos_iff.mpr hne
    obtain ⟨n,hn⟩ : ∃ n, text.length = n + 1 := Nat.exists_eq_succ_of_ne_zero (by omega)
    rw [hn,pieces,hcut,Option.map_some]
    dsimp only
    rw [List.flatten_cons,List.flatten_cons,List.cons_append,
      pieces_fuel hne (by omega) (show rest.length ≤ n by omega)]

/-- The text goes on with a word, with whole tags before or between some of its letters. -/
inductive Interrupted (tag : List α) : List α → List α → Prop
  | nil (text : List α) : Interrupted tag [] text
  | letter {word text : List α} (c : α) (rest : Interrupted tag word text) :
    Interrupted tag (c :: word) (c :: text)
  | tag {word text : List α} (rest : Interrupted tag word text) : Interrupted tag word (tag ++ text)

variable {tag word other : List α}

omit [DecidableEq α] in
theorem Interrupted.of_start (h : word <+: text) : Interrupted tag word text := by
  induction word generalizing text with
  | nil => exact .nil text
  | cons c word ih =>
    obtain ⟨rest,rfl⟩ := h
    exact .letter c (ih ⟨rest,rfl⟩)

theorem prefix_removed_iff (hword : mark ∉ word) (text : List α) :
    word <+: removed (mark :: body) text ↔ Interrupted (mark :: body) word text := by
  have hne : mark :: body ≠ [] := List.cons_ne_nil _ _
  constructor
  · induction hn : text.length using Nat.strong_induction_on generalizing text word with
    | _ n ih =>
    intro h
    by_cases hstart : mark :: body <+: text
    · obtain ⟨rest,rfl⟩ := hstart
      rw [removed_needle hne] at h
      refine .tag (ih rest.length ?_ hword rest rfl h)
      rw [← hn,List.length_append,List.length_cons]
      omega
    · cases text with
      | nil =>
        rw [removed_nil,List.prefix_nil] at h
        rw [h]
        exact .nil _
      | cons c text =>
        rw [removed_cons hne hstart] at h
        cases word with
        | nil => exact .nil _
        | cons d word =>
          obtain ⟨rfl,htail⟩ := List.cons_prefix_cons.mp h
          rw [List.mem_cons,not_or] at hword
          exact .letter d (ih text.length (by rw [← hn]; simp) hword.2 text rfl htail)
  · intro h
    induction h with
    | nil => exact List.nil_prefix
    | @letter word text c _ ih =>
      rw [List.mem_cons,not_or] at hword
      have hstart : ¬ mark :: body <+: c :: text :=
        fun hstart => hword.1 (List.cons_prefix_cons.mp hstart).1
      rw [removed_cons hne hstart]
      exact List.cons_prefix_cons.mpr ⟨rfl,ih hword.2⟩
    | tag _ ih =>
      rw [removed_needle hne]
      exact ih hword

/-- Nothing that is not a tag reads as one with other tags taken out of it. -/
def Unspliced (mark : α) (word tag text : List α) : Prop :=
  ∀ a rest, text = a ++ mark :: rest → Interrupted tag word rest → word <+: rest

omit [DecidableEq α] in
theorem unspliced_cons {c : α} : Unspliced mark word tag (c :: text) ↔
    (mark = c → Interrupted tag word text → word <+: text) ∧ Unspliced mark word tag text := by
  constructor
  · intro h
    refine ⟨?_,fun a rest heq => h (c :: a) rest (by rw [heq]; rfl)⟩
    rintro rfl
    exact h [] text rfl
  · rintro ⟨hhead,htail⟩ a rest heq
    cases a with
    | nil =>
      obtain ⟨rfl,rfl⟩ := List.cons.inj heq
      exact hhead rfl
    | cons d a => exact htail a rest (List.cons.inj heq).2

omit [DecidableEq α] in
theorem unspliced_append (h : mark ∉ a) :
    Unspliced mark word tag (a ++ text) ↔ Unspliced mark word tag text := by
  induction a with
  | nil => rfl
  | cons c a ih =>
    rw [List.mem_cons,not_or] at h
    rw [List.cons_append,unspliced_cons,ih h.2]
    exact and_iff_right fun heq => absurd heq h.1

/-- Taking out the tags with one body keeps the number of those with another, of which neither starts the
other, unless one is put together. -/
theorem occurrences_removed (hword : mark ∉ word) (hbody : mark ∉ body)
    (hapart : ∀ rest, ¬ Interrupted (mark :: body) word (body ++ rest)) (text : List α) :
    occurrences (mark :: word) text ≤ occurrences (mark :: word) (removed (mark :: body) text) ∧
      (occurrences (mark :: word) (removed (mark :: body) text) = occurrences (mark :: word) text ↔
        Unspliced mark word (mark :: body) text) := by
  have hne : mark :: body ≠ [] := List.cons_ne_nil _ _
  induction hn : text.length using Nat.strong_induction_on generalizing text with
  | _ n ih =>
  by_cases hstart : mark :: body <+: text
  · obtain ⟨rest,rfl⟩ := hstart
    obtain ⟨hle,hiff⟩ := ih rest.length
      (by rw [← hn,List.length_append,List.length_cons]; omega) rest rfl
    have hfirst : occurrences (mark :: word) (mark :: body ++ rest) =
        occurrences (mark :: word) rest := by
      have hhead : ¬ mark :: word <+: mark :: (body ++ rest) :=
        fun hstart => hapart rest (.of_start (List.cons_prefix_cons.mp hstart).2)
      rw [List.cons_append,occurrences,if_neg hhead,Nat.zero_add,occurrences_append_of_notMem hbody]
    rw [removed_needle hne,hfirst,List.cons_append,unspliced_cons,unspliced_append hbody]
    exact ⟨hle,hiff.trans (and_iff_right fun _ h => absurd h (hapart rest)).symm⟩
  · cases text with
    | nil =>
      rw [removed_nil]
      exact ⟨le_rfl,iff_of_true rfl fun a rest heq => by simp at heq⟩
    | cons c text =>
      obtain ⟨hle,hiff⟩ := ih text.length (by rw [← hn]; simp) text rfl
      have hkept : mark :: word <+: c :: removed (mark :: body) text ↔
          mark = c ∧ Interrupted (mark :: body) word text := by
        rw [List.cons_prefix_cons,prefix_removed_iff hword]
      rw [removed_cons hne hstart,occurrences,occurrences,unspliced_cons,← hiff]
      by_cases hthere : mark :: word <+: c :: text
      · obtain ⟨hc,hword⟩ := List.cons_prefix_cons.mp hthere
        rw [if_pos hthere,if_pos (hkept.mpr ⟨hc,.of_start hword⟩)]
        refine ⟨by omega,?_⟩
        rw [and_iff_right fun _ _ => hword]
        omega
      · rw [if_neg hthere]
        by_cases hspliced : mark :: word <+: c :: removed (mark :: body) text
        · obtain ⟨hc,hinterrupted⟩ := hkept.mp hspliced
          rw [if_pos hspliced]
          refine ⟨by omega,iff_of_false (by omega) fun h => hthere ?_⟩
          exact List.cons_prefix_cons.mpr ⟨hc,h.1 hc hinterrupted⟩
        · rw [if_neg hspliced]
          refine ⟨by omega,?_⟩
          rw [and_iff_right fun hc hi => absurd (hkept.mpr ⟨hc,hi⟩) hspliced]
          omega

end Text

namespace Base64

inductive DecodeError
  | notAscii | dataCharacters | incorrectPadding
  deriving DecidableEq

def value (c : Char) : Option ℕ :=
  if c.isUpper then some (c.toNat - 65)
  else if c.isLower then some (c.toNat - 71)
  else if c.isDigit then some (c.toNat + 4)
  else if c = '+' then some 62
  else if c = '/' then some 63
  else none

/-- The bytes of the rest of a text, where `position` characters of a quad were read, of which the
bits `left` are still to be used, and `pads` padding characters since. -/
def decodeFrom (position left pads : ℕ) : List Char → Except DecodeError (List UInt8)
  | [] =>
    if position = 0 then .ok []
    else if position = 1 then .error .dataCharacters
    else .error .incorrectPadding
  | c :: text =>
    if c = '=' then
      if 2 ≤ position ∧ 4 ≤ position + (pads + 1) then .ok []
      else decodeFrom position left (if 2 ≤ position then pads + 1 else pads) text
    else match value c with
    | none => decodeFrom position left pads text
    | some bits =>
      if position = 0 then decodeFrom 1 bits 0 text
      else if position = 1 then
        (decodeFrom 2 (bits % 16) 0 text).map (UInt8.ofNat (left * 4 + bits / 16) :: ·)
      else if position = 2 then
        (decodeFrom 3 (bits % 4) 0 text).map (UInt8.ofNat (left * 16 + bits / 4) :: ·)
      else (decodeFrom 0 0 0 text).map (UInt8.ofNat (left * 64 + bits) :: ·)

/-- `base64.b64decode` of a text. -/
def decode (text : List Char) : Except DecodeError (List UInt8) :=
  if text.all fun c => decide (c.toNat < 128) then decodeFrom 0 0 0 text else .error .notAscii

theorem length_decodeFrom {position left pads : ℕ} {text : List Char} {bytes : List UInt8}
    (h : decodeFrom position left pads text = .ok bytes) : bytes.length ≤ text.length := by
  have hcons : ∀ {rest : Except DecodeError (List UInt8)} {byte : UInt8} {n : ℕ} {bytes},
      (∀ tail, rest = .ok tail → tail.length ≤ n) → rest.map (byte :: ·) = .ok bytes →
        bytes.length ≤ n + 1 := by
    intro rest byte n bytes hrest heq
    cases rest with
    | error e => cases heq
    | ok tail =>
      cases heq
      exact Nat.succ_le_succ (hrest tail rfl)
  induction text generalizing position left pads bytes with
  | nil =>
    rw [decodeFrom] at h
    split_ifs at h
    cases h
    exact Nat.le_refl 0
  | cons c text ih =>
    rw [List.length_cons]
    rw [decodeFrom] at h
    by_cases hpad : c = '='
    · rw [if_pos hpad] at h
      by_cases hdone : 2 ≤ position ∧ 4 ≤ position + (pads + 1)
      · rw [if_pos hdone] at h
        cases h
        exact Nat.zero_le _
      · rw [if_neg hdone] at h
        exact Nat.le_succ_of_le (ih h)
    · rw [if_neg hpad] at h
      cases hvalue : value c with
      | none =>
        simp only [hvalue] at h
        exact Nat.le_succ_of_le (ih h)
      | some bits =>
        simp only [hvalue] at h
        split_ifs at h
        · exact Nat.le_succ_of_le (ih h)
        · exact hcons (fun tail htail => ih htail) h
        · exact hcons (fun tail htail => ih htail) h
        · exact hcons (fun tail htail => ih htail) h

theorem length_decode {text : List Char} {bytes : List UInt8} (h : decode text = .ok bytes) :
    bytes.length ≤ text.length := by
  rw [decode] at h
  split_ifs at h
  exact length_decodeFrom h

example : decode "aGk=".toList = .ok [104,105] := by decide

end Base64
end DockyardRL
