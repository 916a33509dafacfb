import DockyardRL.Lib.LinePattern
import Mathlib.Data.List.Find

/-! Patterns with alternatives, and what they find between two marks.

Blocks of code between fences of three backticks, and what a pattern with a tag finds in them.

Words that stand alone on a line of a text, found by a pattern that may go over blank lines. -/
namespace DockyardRL
namespace Pattern

section

variable {β : Type*}

def leftmost (find : List Char → Option β) : List Char → Option β
  | [] => find []
  | c :: text => (find (c :: text)).or (leftmost find text)

/-- `re.search` for a row of alternatives, of which the first that matches at a place is taken. -/
def searchAny (alternatives : List (List Item)) : List Char → Option (List (List Char)) :=
  leftmost fun text => (alternatives.findSome? fun items => first items text).map Prod.fst

theorem leftmost_append {find : List Char → Option β} {front rest : List Char}
    (h : ∀ s, s ≠ [] → s <:+ front → find (s ++ rest) = none) :
    leftmost find (front ++ rest) = leftmost find rest := by
  induction front with
  | nil => rfl
  | cons c front ih =>
    have hrest := ih fun s hs hsuffix => h s hs (hsuffix.trans (List.suffix_cons c front))
    have hhere := h (c :: front) (List.cons_ne_nil c front) List.suffix_rfl
    rw [List.cons_append] at hhere
    rw [List.cons_append,leftmost,hhere,Option.none_or,hrest]

theorem leftmost_of_some {find : List Char → Option β} {text : List Char} {found : β}
    (h : find text = some found) : leftmost find text = some found := by
  cases text with
  | nil => exact h
  | cons c text => rw [leftmost,h,Option.some_or]

theorem leftmost_eq_none {find : List Char → Option β} {text : List Char}
    (h : ∀ s, s <:+ text → find s = none) : leftmost find text = none := by
  induction text with
  | nil => exact h [] List.suffix_rfl
  | cons c text ih =>
    rw [leftmost,h _ List.suffix_rfl,Option.none_or]
    exact ih fun s hs => h s (hs.trans (List.suffix_cons c text))

theorem first_literal_append (word : List Char) (items : List Item) (text : List Char) :
    first (.literal word :: items) (word ++ text) = first items text := by
  rw [first_literal,if_pos (List.prefix_append word text),List.drop_left]

theorem first_literal_cons (c d : Char) (items : List Item) (text : List Char) :
    first (.literal [c] :: items) (d :: text) = if c = d then first items text else none := by
  rw [first_literal]
  by_cases h : c = d <;> simp [h]

theorem first_many_cons {inClass : Char → Bool} {c : Char} (hc : inClass c = true) (items : List Item)
    (text : List Char) : first (many inClass :: items) (c :: text) =
      (first (many inClass :: items) text).or (first items (c :: text)) := by
  have hall : ∀ cuts : List (List Char × List Char),
      cuts.filter (fun cut => decide (0 ≤ cut.1.length)) = cuts := by simp
  rw [first,first,first,many,ways,ways,Item.ways,Item.ways,hall,hall,cuts,if_pos hc]
  simp [List.flatMap_map,List.head?_append]

theorem first_many_of_not {inClass : Char → Bool} {c : Char} (hc : inClass c = false)
    (items : List Item) (text : List Char) :
    first (many inClass :: items) (c :: text) = first items (c :: text) := by
  rw [first,first,many,ways,Item.ways,cuts_of_notMem hc]
  simp

/-- `(.*?)`, up to a word. -/
def upTo (word : List Char) : List Item := [.run (fun _ => true) 0 true true,.literal word]

theorem first_lazy_zero (inClass : Char → Bool) (items : List Item) (text : List Char) :
    first (.run inClass 0 true true :: items) text =
      ((first items text).map fun way => ([] :: way.1,way.2)).or (shortest inClass items [] text) := by
  have hall : ∀ cuts : List (List Char × List Char),
      cuts.filter (fun cut => decide (0 ≤ cut.1.length)) = cuts := by simp
  rw [← head?_flatMap_cuts,first,ways,Item.ways,hall,if_pos rfl,cuts_eq,List.reverse_append,
    List.flatMap_map,List.flatMap_append]
  simp [first,List.head?_append]

/-- The group is what stands in front of the first such word. -/
theorem first_upTo (word text : List Char) :
    first (upTo word) text = (Text.cut word text).map fun parts => ([parts.1],parts.2) := by
  have hall : ∀ taken, ((first [.literal word] text).map fun way => (taken :: way.1,way.2)).or
      (shortest (fun _ => true) [.literal word] taken text) =
        (Text.cut word text).map fun parts => ([taken ++ parts.1],parts.2) := by
    induction text with
    | nil =>
      intro taken
      rw [first_literal,shortest,Option.or_none,Text.cut]
      by_cases h : word = []
      · simp [h,first,ways]
      · simp [h]
    | cons c text ih =>
      intro taken
      rw [shortest,if_pos rfl,ih (taken ++ [c]),first_literal,Text.cut]
      split_ifs with h
      · simp [first,ways]
      · rw [Option.map_none,Option.none_or,Option.map_map]
        exact Option.map_congr fun parts _ => by simp
  rw [upTo,first_lazy_zero,hall []]
  rfl

end

section

open Words

variable (classes : CharClasses)

def fenceItems (tag : List Char) : List Item :=
  .literal "```".toList :: .literal tag :: many classes.isSpace :: .literal ['\n'] ::
    upTo "```".toList

/-- A word that may stand behind a fence. -/
def FenceTag (tag : List Char) : Prop := ∀ c ∈ tag, classes.isSpace c = false ∧ c ≠ '`'

variable {classes}

theorem isSpace_feed : classes.isSpace '\n' = true := by
  rw [classes.isSpace_ascii _ (by decide)]
  decide

/-- The visible characters of ASCII. -/
theorem not_isSpace {c : Char} (h : 32 < c.toNat ∧ c.toNat < 128) : classes.isSpace c = false := by
  rw [classes.isSpace_ascii c h.2]
  exact decide_eq_false (by omega)

/-- Letters of ASCII make a tag. -/
theorem fenceTag_of_letters {tag : List Char} (h : tag.all Char.isAlpha = true) :
    FenceTag classes tag := fun _ hc =>
  have halpha := List.all_eq_true.mp h _ hc
  ⟨not_isSpace_of_isAlpha halpha,fun heq => absurd (heq ▸ halpha) (by decide)⟩

theorem cut_fence {inner : List Char} (hinner : ¬"```".toList <:+: inner)
    (hend : ∀ c, inner.getLast? = some c → c ≠ '`') (after : List Char) :
    Text.cut "```".toList (inner ++ ("```".toList ++ after)) = some (inner,after) := by
  refine Text.cut_append fun s hs hsuffix hstart => ?_
  obtain ⟨front,c,rfl⟩ := (List.eq_nil_or_concat' s).resolve_left hs
  obtain ⟨pre,rfl⟩ := hsuffix
  have hc : c ∉ "```".toList := fun hmem => by
    have hlast := hend c (by rw [← List.append_assoc,List.getLast?_concat])
    simp [hlast] at hmem
  rw [List.append_assoc,List.singleton_append,Text.prefix_append_cons_iff hc] at hstart
  exact hinner ((hstart.trans (List.prefix_append front [c])).isInfix.trans
    (List.suffix_append pre _).isInfix)

theorem early_fence {before : List Char} (hbefore : ¬"```".toList <:+: before) {s : List Char}
    (hs : s ≠ []) (hsuffix : s <:+ before) {rest : List Char}
    (hstart : "```".toList <+: s ++ ("```".toList ++ rest)) :
    ∃ more, s ++ ("```".toList ++ rest) = "```".toList ++ '`' :: more := by
  have hfence : "```".toList = ['`','`','`'] := rfl
  rw [hfence] at hstart hbefore ⊢
  match s, hs with
  | [c], _ =>
    simp only [List.cons_append,List.nil_append,List.cons_prefix_cons] at hstart
    exact ⟨rest,by simp [← hstart.1]⟩
  | [c,d], _ =>
    simp only [List.cons_append,List.nil_append,List.cons_prefix_cons] at hstart
    exact ⟨'`' :: rest,by simp [← hstart.1,← hstart.2.1]⟩
  | c :: d :: e :: s, _ =>
    simp only [List.cons_append,List.cons_prefix_cons] at hstart
    obtain ⟨rfl,rfl,rfl,-⟩ := hstart
    exact absurd ((List.prefix_append ['`','`','`'] s).isInfix.trans hsuffix.isInfix) hbefore

theorem first_behind_tag (after : List Char) {inner : List Char} (hinner : ¬"```".toList <:+: inner)
    (hend : ∀ c, inner.getLast? = some c → c ≠ '`') :
    (first (many classes.isSpace :: .literal ['\n'] :: upTo "```".toList)
        (inner ++ ("```".toList ++ after)) = none ∧ inner.head? ≠ some '\n') ∨
      ∃ blanks group, inner = blanks ++ group ∧ (∀ c ∈ blanks, classes.isSpace c = true) ∧
        first (many classes.isSpace :: .literal ['\n'] :: upTo "```".toList)
          (inner ++ ("```".toList ++ after)) = some ([group],after) := by
  induction inner with
  | nil =>
    refine .inl ⟨?_,fun h => by cases h⟩
    have hmark : classes.isSpace '`' = false := not_isSpace (by decide)
    exact (first_many_of_not hmark _ _).trans ((first_literal_cons _ _ _ _).trans (if_neg (by decide)))
  | cons c inner ih =>
    have hinner' : ¬"```".toList <:+: inner := fun h => hinner (h.trans (List.suffix_cons c inner).isInfix)
    have hend' : ∀ d, inner.getLast? = some d → d ≠ '`' := fun d hd => hend d (by
      rw [List.getLast?_cons,hd]
      rfl)
    have hgroup : first (.literal ['\n'] :: upTo "```".toList)
        (c :: (inner ++ ("```".toList ++ after))) = if '\n' = c then some ([inner],after) else none := by
      rw [first_literal_cons,first_upTo,cut_fence hinner' hend']
      rfl
    rw [List.cons_append]
    by_cases hc : classes.isSpace c = true
    · rw [first_many_cons hc,hgroup]
      rcases ih hinner' hend' with ⟨hnone,-⟩ | ⟨blanks,group,rfl,hblanks,hsome⟩
      · rw [hnone,Option.none_or]
        by_cases hfeed : '\n' = c
        · rw [if_pos hfeed]
          exact .inr ⟨[c],inner,rfl,by simpa using hc,rfl⟩
        · rw [if_neg hfeed]
          exact .inl ⟨rfl,fun h => hfeed (Option.some.inj h).symm⟩
      · rw [hsome,Option.some_or]
        exact .inr ⟨c :: blanks,group,rfl,List.forall_mem_cons.mpr ⟨hc,hblanks⟩,rfl⟩
    · have hfeed : '\n' ≠ c := fun h => hc (h ▸ isSpace_feed)
      rw [first_many_of_not (Bool.eq_false_iff.mpr hc),hgroup,if_neg hfeed]
      exact .inl ⟨rfl,fun h => hfeed (Option.some.inj h).symm⟩

theorem first_behind_gap (after : List Char) {gap body : List Char}
    (hgap : ∀ c ∈ gap, classes.isSpace c = true) (hbody : ¬"```".toList <:+: body)
    (hend : ∀ c, body.getLast? = some c → c ≠ '`') :
    ∃ group, strip classes.isSpace group = strip classes.isSpace body ∧
      first (many classes.isSpace :: .literal ['\n'] :: upTo "```".toList)
        (gap ++ '\n' :: (body ++ ("```".toList ++ after))) = some ([group],after) := by
  induction gap with
  | nil =>
    have hinner : ¬"```".toList <:+: '\n' :: body := fun h => hbody (by
      rw [List.infix_cons_iff] at h
      exact h.resolve_left fun hstart => absurd (List.cons_prefix_cons.mp hstart).1 (by decide))
    have hlast : ∀ c, ('\n' :: body).getLast? = some c → c ≠ '`' := by
      intro c hc
      rw [List.getLast?_cons] at hc
      obtain rfl := Option.some.inj hc
      cases hbodyLast : body.getLast? with
      | none => exact fun heq => absurd heq (by decide)
      | some d => exact hend d hbodyLast
    have hfound := @first_behind_tag classes after _ hinner hlast
    obtain ⟨blanks,group,hsplit,hblanks,hgroup⟩ := hfound.resolve_left fun h => h.2 rfl
    refine ⟨group,?_,hgroup⟩
    have hnone : ∀ c ∈ ([] : List Char), classes.isSpace c = true := fun c hc => absurd hc List.not_mem_nil
    calc strip classes.isSpace group
        = strip classes.isSpace (blanks ++ (group ++ [])) :=
          (strip_append_blanks hblanks hnone group).symm
      _ = strip classes.isSpace (['\n'] ++ (body ++ [])) := by
        rw [List.append_nil,← hsplit,List.append_nil]
        rfl
      _ = strip classes.isSpace body :=
        strip_append_blanks (by simpa using isSpace_feed) hnone body
  | cons c gap ih =>
    obtain ⟨hc,hgap⟩ := List.forall_mem_cons.mp hgap
    obtain ⟨group,hstrip,hgroup⟩ := ih hgap
    exact ⟨group,hstrip,by rw [List.cons_append,first_many_cons hc,hgroup,Option.some_or]⟩

variable {tags : List (List Char)}

theorem findSome?_fenceItems (htags : ∀ tag ∈ tags, FenceTag classes tag) {text : List Char}
    (h : "```".toList <+: text → ∃ more, text = "```".toList ++ '`' :: more) :
    (tags.map (fenceItems classes)).findSome? (fun items => first items text) = none := by
  rw [List.findSome?_eq_none_iff,List.forall_mem_map]
  intro tag htag
  rw [fenceItems,first_literal]
  split_ifs with hfence
  · obtain ⟨more,rfl⟩ := h hfence
    rw [List.drop_left]
    cases tag with
    | nil =>
      have hmark : classes.isSpace '`' = false := not_isSpace (by decide)
      rw [first_literal,if_pos List.nil_prefix,List.length_nil,List.drop_zero,
        first_many_of_not hmark,first_literal_cons,if_neg (by decide)]
    | cons c tag =>
      rw [first_literal,if_neg]
      exact fun hstart => (htags _ htag c List.mem_cons_self).2 (List.cons_prefix_cons.mp hstart).1
  · rfl

theorem searchAny_fenceItems_none (htags : ∀ tag ∈ tags, FenceTag classes tag) {text : List Char}
    (h : ¬"```".toList <:+: text) : searchAny (tags.map (fenceItems classes)) text = none :=
  leftmost_eq_none fun s hs => by
    rw [findSome?_fenceItems htags fun hstart => absurd (hstart.isInfix.trans hs.isInfix) h]
    rfl

theorem findSome?_of_unique {α β : Type*} {f : α → Option β} {list : List α} {found : β}
    (h : ∀ a ∈ list, f a = none ∨ f a = some found) {a : α} (ha : a ∈ list) (hfound : f a = some found) :
    list.findSome? f = some found := by
  induction list with
  | nil => cases ha
  | cons b list ih =>
    obtain ⟨hb,hlist⟩ := List.forall_mem_cons.mp h
    rw [List.findSome?_cons]
    rcases hb with hb | hb
    · rw [hb]
      rcases List.mem_cons.mp ha with rfl | hmem
      · rw [hb] at hfound
        cases hfound
      · exact ih hlist hmem
    · rw [hb]

theorem findSome?_fence (htags : ∀ tag ∈ tags, FenceTag classes tag) {tag : List Char}
    (htag : tag ∈ tags) {c : Char} (hc : classes.isSpace c = true) {rest : List Char}
    {found : List (List Char) × List Char}
    (hfound : first (many classes.isSpace :: .literal ['\n'] :: upTo "```".toList) (c :: rest) =
      some found) :
    (tags.map (fenceItems classes)).findSome? (fun items => first items
      ("```".toList ++ (tag ++ c :: rest))) = some found := by
  rw [List.findSome?_map]
  refine findSome?_of_unique (fun other hother => ?_) htag ?_
  · show first (fenceItems classes other) _ = _ ∨ first (fenceItems classes other) _ = _
    rw [fenceItems,first_literal_append,first_literal]
    split_ifs with hstart
    · rcases List.prefix_or_prefix_of_prefix hstart (List.prefix_append tag _) with hshort | hlong
      · obtain ⟨more,rfl⟩ := hshort
        rw [List.append_assoc,List.drop_left]
        cases more with
        | nil => exact .inr hfound
        | cons d more =>
          have hd := (htags _ htag d (by simp)).1
          refine .inl ((first_many_of_not hd _ _).trans ((first_literal_cons _ _ _ _).trans (if_neg ?_)))
          rintro rfl
          rw [isSpace_feed] at hd
          cases hd
      · obtain ⟨more,rfl⟩ := hlong
        cases more with
        | nil =>
          rw [List.append_nil,List.drop_left]
          exact .inr hfound
        | cons d more =>
          have hd := (htags _ hother d (by simp)).1
          rw [List.prefix_append_right_inj,List.cons_prefix_cons] at hstart
          rw [hstart.1,hc] at hd
          cases hd
    · exact .inl rfl
  · show first (fenceItems classes tag) _ = _
    rw [fenceItems,first_literal_append,first_literal_append,hfound]

/-- The first fence of a text, with one of the tags, and what is between it and the next. -/
theorem searchAny_fence (htags : ∀ tag ∈ tags, FenceTag classes tag) {tag : List Char}
    (htag : tag ∈ tags) {before gap body : List Char} (hbefore : ¬"```".toList <:+: before)
    (hgap : ∀ c ∈ gap, classes.isSpace c = true) (hbody : ¬"```".toList <:+: body)
    (hend : ∀ c, body.getLast? = some c → c ≠ '`') (after : List Char) :
    ∃ group, strip classes.isSpace group = strip classes.isSpace body ∧
      searchAny (tags.map (fenceItems classes)) (before ++ ("```".toList ++ (tag ++ (gap ++ '\n' ::
        (body ++ ("```".toList ++ after)))))) = some [group] := by
  obtain ⟨group,hstrip,hgroup⟩ := first_behind_gap after hgap hbody hend
  refine ⟨group,hstrip,?_⟩
  have hhead : ∃ c rest, classes.isSpace c = true ∧
      gap ++ '\n' :: (body ++ ("```".toList ++ after)) = c :: rest := by
    cases gap with
    | nil => exact ⟨_,_,isSpace_feed,rfl⟩
    | cons c gap => exact ⟨c,_,hgap c List.mem_cons_self,rfl⟩
  obtain ⟨c,rest,hc,htext⟩ := hhead
  rw [htext] at hgroup ⊢
  rw [searchAny,leftmost_append]
  · refine leftmost_of_some ?_
    rw [findSome?_fence htags htag hc hgroup]
    rfl
  · intro s hs hsuffix
    rw [findSome?_fenceItems htags (early_fence hbefore hs hsuffix)]
    rfl

end

open Words

variable {space : Char → Bool}

theorem first_many_skip {items : List Item} (hstop : ∀ c text, space c = true →
    first items (c :: text) = none) (text : List Char) :
    first (many space :: items) text = first items (text.dropWhile space) := by
  induction text with
  | nil => simp [first,many,ways,Item.ways,cuts]
  | cons c text ih =>
    by_cases hc : space c = true
    · rw [first_many_cons hc,hstop c text hc,Option.or_none,ih,List.dropWhile_cons_of_pos hc]
    · rw [first_many_of_not (by simpa using hc),List.dropWhile_cons_of_neg hc]

/-- `^\s*word\s*$`. -/
def wordLine (space : Char → Bool) (word : List Char) : Pattern :=
  ⟨true,many space :: .literal word :: toLineEnd space⟩

section Alone

variable {word : List Char} (hword : IsWord space word)

include hword

theorem first_wordLine (text : List Char) : (wordLine space word).matchAt true text =
    first (.literal word :: toLineEnd space) (text.dropWhile space) := by
  rw [matchAt_true]
  refine first_many_skip (fun c rest hc => ?_) text
  obtain ⟨d,tail,rfl⟩ := List.exists_cons_of_ne_nil hword.1
  have hd := hword.2 d List.mem_cons_self
  rw [first_literal,if_neg]
  intro hmatch
  rw [(List.cons_prefix_cons.mp hmatch).1,hc] at hd
  cases hd

theorem rdropWhile_eq_word_iff {text : List Char} : text.rdropWhile space = word ↔
    ∃ blanks, text = word ++ blanks ∧ blanks.all space = true := by
  constructor
  · rintro rfl
    exact ⟨text.rtakeWhile space,List.rdropWhile_append_rtakeWhile.symm,
      List.all_eq_true.mpr fun c => List.mem_rtakeWhile_imp⟩
  · rintro ⟨blanks,rfl,hblanks⟩
    have hnil := List.rdropWhile_eq_nil_iff.mpr (List.all_eq_true.mp hblanks)
    rw [rdropWhile_append,if_pos hnil,rdropWhile_word hword]

theorem matchAt_blank {blanks : List Char} (hblanks : blanks.all space = true) (rest : List Char) :
    (wordLine space word).matchAt true (blanks ++ rest) = (wordLine space word).matchAt true rest := by
  rw [first_wordLine hword,first_wordLine hword,
    List.dropWhile_append_of_pos (List.all_eq_true.mp hblanks)]

variable (hfeed : space '\n' = true)

include hfeed

theorem isSome_wordLine {line rest : List Char} (hline : '\n' ∉ line) (hrest : AtEnd rest)
    (hvisible : line.all space = false) :
    ((wordLine space word).matchAt true (line ++ rest)).isSome = decide (strip space line = word) := by
  obtain ⟨d,hd,hdspace⟩ := List.all_eq_false.mp hvisible
  have hne : line.dropWhile space ≠ [] := fun h => hdspace (List.dropWhile_eq_nil_iff.mp h d hd)
  have hdrop : (line ++ rest).dropWhile space = line.dropWhile space ++ rest := by
    rw [List.dropWhile_append,if_neg (by simpa using hne)]
  have hinner : '\n' ∉ line.dropWhile space := fun h => hline ((List.dropWhile_suffix space).subset h)
  have hwordFeed : '\n' ∉ word := fun h => by
    have hblank := hword.2 _ h
    rw [hfeed] at hblank
    cases hblank
  rw [first_wordLine hword,hdrop,first_literal_line _ hwordFeed hrest,strip,Bool.eq_iff_iff,
    decide_eq_true_iff,rdropWhile_eq_word_iff hword]
  generalize line.dropWhile space = shown at hinner
  split_ifs with hbegins
  · obtain ⟨behind,rfl⟩ := hbegins
    rw [List.drop_left,isSome_first_toLineEnd (fun h => hinner (List.mem_append_right _ h)) hrest]
    simp
  · refine iff_of_false (by simp) ?_
    rintro ⟨blanks,rfl,-⟩
    exact hbegins (List.prefix_append word blanks)

end Alone

section Search

variable {β : Type*} (space : Char → Bool) (word : β → List Char) (all : List β)

def wordAt (start : Bool) (text : List Char) : Option β :=
  all.find? fun b => ((wordLine space (word b)).matchAt start text).isSome

/-- `re.search` for `^\s*(word|...)\s*$`. -/
def findWord : Bool → List Char → Option β
  | start, [] => wordAt space word all start []
  | start, c :: text => (wordAt space word all start (c :: text)).or (findWord (c = '\n') text)

def aloneOn (line : List Char) : Option β := all.find? fun b => strip space line = word b

def wordsAlone (text : List Char) : List β := (text.splitOn '\n').filterMap (aloneOn space word all)

variable {space word all}

theorem wordsAlone_append (text rest : List Char) : wordsAlone space word all (text ++ '\n' :: rest) =
    wordsAlone space word all text ++ wordsAlone space word all rest := by
  rw [wordsAlone,List.splitOn_append_cons_self,List.filterMap_append]
  rfl

theorem wordsAlone_line {line : List Char} (hline : '\n' ∉ line) :
    wordsAlone space word all line = (aloneOn space word all line).toList := by
  rw [wordsAlone,List.splitOn_eq_singleton hline]
  cases halone : aloneOn space word all line <;> simp [halone]

theorem wordAt_false (text : List Char) : wordAt space word all false text = none := by
  simp [wordAt,matchAt,wordLine]

theorem findWord_false_line {line : List Char} (hline : '\n' ∉ line) :
    findWord space word all false line = none ∧ ∀ rest,
      findWord space word all false (line ++ '\n' :: rest) = findWord space word all true rest := by
  induction line with
  | nil => exact ⟨wordAt_false [],fun rest => by rw [List.nil_append,findWord,wordAt_false]; rfl⟩
  | cons c line ih =>
    obtain ⟨hc,hline⟩ := List.ne_and_not_mem_of_not_mem_cons hline
    obtain ⟨hnone,hrest⟩ := ih hline
    have hnext : decide (c = '\n') = false := decide_eq_false hc.symm
    exact ⟨by rw [findWord,wordAt_false,hnext,hnone]; rfl,
      fun rest => by rw [List.cons_append,findWord,wordAt_false,hnext,hrest]; rfl⟩

theorem findWord_line {line : List Char} (hline : '\n' ∉ line) :
    findWord space word all true line = wordAt space word all true line ∧ ∀ rest,
      findWord space word all true (line ++ '\n' :: rest) =
        (wordAt space word all true (line ++ '\n' :: rest)).or (findWord space word all true rest) := by
  cases line with
  | nil => exact ⟨rfl,fun rest => rfl⟩
  | cons c line =>
    obtain ⟨hc,hline⟩ := List.ne_and_not_mem_of_not_mem_cons hline
    obtain ⟨hnone,hrest⟩ := @findWord_false_line β space word all line hline
    have hnext : decide (c = '\n') = false := decide_eq_false hc.symm
    exact ⟨by rw [findWord,hnext,hnone,Option.or_none],
      fun rest => by rw [List.cons_append,findWord,hnext,hrest]⟩

theorem wordAt_or_findWord (text : List Char) : (wordAt space word all true text).or
    (findWord space word all true text) = findWord space word all true text := by
  have hfind : ∃ later, findWord space word all true text =
      (wordAt space word all true text).or later := by
    cases text with
    | nil => exact ⟨none,(Option.or_none).symm⟩
    | cons c text => exact ⟨_,rfl⟩
  obtain ⟨later,hlater⟩ := hfind
  rw [hlater]
  cases wordAt space word all true text <;> rfl

variable (hwords : ∀ b ∈ all, IsWord space (word b)) (hfeed : space '\n' = true)

include hwords

theorem aloneOn_blank {line : List Char} (hline : line.all space = true) :
    aloneOn space word all line = none := by
  have hstrip : strip space line = [] := by
    rw [strip,List.dropWhile_eq_nil_iff.mpr (List.all_eq_true.mp hline)]
    rfl
  refine List.find?_eq_none.mpr fun b hb => ?_
  rw [hstrip,decide_eq_true_iff]
  exact (hwords b hb).1.symm

theorem wordAt_blank {blanks : List Char} (hblanks : blanks.all space = true) (rest : List Char) :
    wordAt space word all true (blanks ++ rest) = wordAt space word all true rest :=
  List.find?_congr fun b hb => by rw [matchAt_blank (hwords b hb) hblanks]

include hfeed

theorem wordAt_visible {line rest : List Char} (hline : '\n' ∉ line) (hrest : AtEnd rest)
    (hvisible : line.all space = false) :
    wordAt space word all true (line ++ rest) = aloneOn space word all line :=
  List.find?_congr fun b hb => isSome_wordLine (hwords b hb) hfeed hline hrest hvisible

/-- The first match is the first word that stands alone on a line. -/
theorem findWord_eq (text : List Char) :
    findWord space word all true text = (wordsAlone space word all text).head? := by
  induction hn : text.length using Nat.strong_induction_on generalizing text with
  | _ n ih =>
    obtain ⟨line,hline,rfl | ⟨rest,rfl⟩⟩ := exists_line text
    · rw [(findWord_line hline).1,wordsAlone_line hline]
      cases hblank : text.all space with
      | true =>
        have hwhole := wordAt_blank hwords hblank []
        rw [List.append_nil] at hwhole
        rw [hwhole,aloneOn_blank hwords hblank]
        refine List.find?_eq_none.mpr fun b hb => ?_
        rw [first_wordLine (hwords b hb),List.dropWhile_nil,first_literal,
          if_neg fun h => (hwords b hb).1 (List.prefix_nil.mp h)]
        exact Bool.false_ne_true
      | false =>
        have hwhole := @wordAt_visible β space word all hwords hfeed text [] hline rfl hblank
        rw [List.append_nil] at hwhole
        rw [hwhole]
        cases aloneOn space word all text <;> rfl
    · have hlength : rest.length < n := by
        rw [← hn,List.length_append,List.length_cons]
        omega
      have hlater := ih rest.length hlength rest rfl
      rw [(findWord_line hline).2,wordsAlone_append,wordsAlone_line hline]
      cases hblank : line.all space with
      | true =>
        have hskip := @wordAt_blank β space word all hwords (line ++ ['\n']) (by simp [hblank,hfeed]) rest
        rw [List.append_assoc,List.singleton_append] at hskip
        rw [hskip,wordAt_or_findWord,aloneOn_blank hwords hblank,hlater]
        rfl
      | false =>
        rw [wordAt_visible hwords hfeed hline (show AtEnd ('\n' :: rest) from rfl) hblank,hlater]
        cases aloneOn space word all line <;> rfl

section Marks

omit hwords hfeed

/-- The words on whole lines before the end of a text, and behind its first line. -/
def wordsBefore (space : Char → Bool) (word : β → List Char) (all : List β) (text : List Char) : List β :=
  ((text.splitOn '\n').dropLast).filterMap (aloneOn space word all)

def wordsBehind (space : Char → Bool) (word : β → List Char) (all : List β) (text : List Char) : List β :=
  ((text.splitOn '\n').tail).filterMap (aloneOn space word all)

theorem wordsBehind_line {line : List Char} (hline : '\n' ∉ line) :
    wordsBehind space word all line = [] ∧ ∀ rest,
      wordsBehind space word all (line ++ '\n' :: rest) = wordsAlone space word all rest := by
  refine ⟨?_,fun rest => ?_⟩
  · rw [wordsBehind,List.splitOn_eq_singleton hline]
    rfl
  · rw [wordsBehind,List.splitOn_append_cons_self_of_not_mem hline]
    rfl

theorem wordsBefore_line {line : List Char} (hline : '\n' ∉ line) :
    wordsBefore space word all line = [] ∧ ∀ text,
      wordsBefore space word all (text ++ '\n' :: line) = wordsAlone space word all text := by
  refine ⟨?_,fun text => ?_⟩
  · rw [wordsBefore,List.splitOn_eq_singleton hline]
    rfl
  · rw [wordsBefore,List.splitOn_append_cons_self,List.splitOn_eq_singleton hline,
      List.dropLast_concat]
    rfl

theorem exists_last_line (text : List Char) : ∃ line, '\n' ∉ line ∧
    (text = line ∨ ∃ front, text = front ++ '\n' :: line) := by
  obtain ⟨line,hline,htext⟩ := exists_line text.reverse
  refine ⟨line.reverse,by simpa using hline,htext.imp (fun h => ?_) fun ⟨rest,h⟩ => ⟨rest.reverse,?_⟩⟩
  · rw [← h,List.reverse_reverse]
  · rw [← List.reverse_reverse text,h]
    simp

/-- A mark that no word has on its line. -/
def Apart (space : Char → Bool) (word : β → List Char) (all : List β) (mark : List Char) : Prop :=
  '\n' ∉ mark ∧ ∀ front back, aloneOn space word all (front ++ (mark ++ back)) = none

/-- The line of a mark has no word. -/
theorem wordsAlone_mark {mark : List Char} (hmark : Apart space word all mark) (front back : List Char) :
    wordsAlone space word all (front ++ (mark ++ back)) =
      wordsBefore space word all front ++ wordsBehind space word all back := by
  have hbehind : ∀ last, '\n' ∉ last → wordsAlone space word all (last ++ (mark ++ back)) =
      wordsBehind space word all back := by
    intro last hlast
    obtain ⟨line,hline,rfl | ⟨rest,rfl⟩⟩ := exists_line back
    · have hwhole : '\n' ∉ last ++ (mark ++ back) := by
        simp [hlast,hmark.1,hline]
      rw [wordsAlone_line hwhole,hmark.2,(wordsBehind_line hline).1]
      rfl
    · have hwhole : '\n' ∉ last ++ (mark ++ line) := by
        simp [hlast,hmark.1,hline]
      have hsplit : last ++ (mark ++ (line ++ '\n' :: rest)) =
          (last ++ (mark ++ line)) ++ '\n' :: rest := by simp
      rw [hsplit,wordsAlone_append,wordsAlone_line hwhole,hmark.2,(wordsBehind_line hline).2]
      rfl
  obtain ⟨last,hlast,rfl | ⟨pre,rfl⟩⟩ := exists_last_line front
  · rw [hbehind front hlast,(wordsBefore_line hlast).1,List.nil_append]
  · rw [List.append_assoc,List.cons_append,wordsAlone_append,hbehind last hlast,
      (wordsBefore_line hlast).2]

include hwords

theorem wordsAlone_blank {text : List Char} (htext : text.all space = true) :
    wordsAlone space word all text = [] := by
  induction hn : text.length using Nat.strong_induction_on generalizing text with
  | _ n ih =>
    obtain ⟨line,hline,rfl | ⟨rest,rfl⟩⟩ := exists_line text
    · rw [wordsAlone_line hline,aloneOn_blank hwords htext]
      rfl
    · rw [List.all_append,List.all_cons,Bool.and_eq_true,Bool.and_eq_true] at htext
      rw [List.length_append,List.length_cons] at hn
      rw [wordsAlone_append,wordsAlone_line hline,aloneOn_blank hwords htext.1,
        ih rest.length (by omega) htext.2.2 rfl]
      rfl

/-- Blank lines behind a line have no word. -/
theorem wordsBehind_blank {line blanks : List Char} (hline : '\n' ∉ line)
    (hblanks : blanks.all space = true) : wordsBehind space word all (line ++ blanks) = [] := by
  obtain ⟨more,hmore,rfl | ⟨rest,rfl⟩⟩ := exists_line blanks
  · exact (wordsBehind_line (by simp [hline,hmore])).1
  · rw [List.all_append,List.all_cons,Bool.and_eq_true,Bool.and_eq_true] at hblanks
    have hwhole : '\n' ∉ line ++ more := by simp [hline,hmore]
    rw [← List.append_assoc,(wordsBehind_line hwhole).2,wordsAlone_blank hwords hblanks.2.2]

end Marks

end Search

end Pattern
end DockyardRL
