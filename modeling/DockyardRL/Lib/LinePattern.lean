import DockyardRL.Lib.Pattern
import DockyardRL.Lib.Words

/-! Patterns that match at the starts of lines and end with `\s*$`. Though the blanks may reach
over several lines, all matches in a text are those of its lines. -/
namespace DockyardRL
namespace Pattern

def first (items : List Item) (text : List Char) : Option (List (List Char) × List Char) :=
  (ways items text).head?

theorem first_literal (word : List Char) (items : List Item) (text : List Char) :
    first (.literal word :: items) text =
      if word <+: text then first items (text.drop word.length) else none := by
  rw [first,ways,Item.ways]
  by_cases h : word <+: text <;> simp [h,first]

theorem first_optional (word : List Char) (items : List Item) (text : List Char) :
    first (.optional word :: items) text =
      if word <+: text then (first items (text.drop word.length)).or (first items text)
      else first items text := by
  rw [first,ways,Item.ways]
  by_cases h : word <+: text <;> simp [h,first]

def shortest (inClass : Char → Bool) (items : List Item) (taken : List Char) :
    List Char → Option (List (List Char) × List Char)
  | [] => none
  | c :: text =>
    if inClass c then
      ((first items text).map fun way => ((taken ++ [c]) :: way.1,way.2)).or
        (shortest inClass items (taken ++ [c]) text)
    else none

def longCuts (inClass : Char → Bool) (text : List Char) : List (List Char × List Char) :=
  (cuts inClass text).filter fun cut => 1 ≤ cut.1.length

theorem longCuts_cons {inClass : Char → Bool} {c : Char} (hc : inClass c = true)
    (text : List Char) : longCuts inClass (c :: text) =
      (cuts inClass text).map fun cut => (c :: cut.1,cut.2) := by
  rw [longCuts,cuts,if_pos hc,List.filter_append,List.filter_map]
  have hall : (cuts inClass text).filter ((fun cut : List Char × List Char =>
      decide (1 ≤ cut.1.length)) ∘ fun cut => (c :: cut.1,cut.2)) = cuts inClass text :=
    List.filter_eq_self.mpr fun cut _ => by simp
  rw [hall]
  simp

theorem cuts_eq (inClass : Char → Bool) (text : List Char) :
    cuts inClass text = longCuts inClass text ++ [([],text)] := by
  cases text with
  | nil => rfl
  | cons c text =>
    by_cases hc : inClass c = true
    · rw [longCuts_cons hc,cuts,if_pos hc]
    · rw [longCuts,cuts_of_notMem (by simpa using hc)]
      rfl

theorem head?_flatMap_cuts (inClass : Char → Bool) (items : List Item) (taken text : List Char) :
    ((longCuts inClass text).reverse.flatMap fun cut =>
      (ways items cut.2).map fun way => ((taken ++ cut.1) :: way.1,way.2)).head? =
        shortest inClass items taken text := by
  induction text generalizing taken with
  | nil => rfl
  | cons c text ih =>
    by_cases hc : inClass c = true
    · have hshift : ((longCuts inClass text).map fun cut => (c :: cut.1,cut.2)).reverse.flatMap
          (fun cut => (ways items cut.2).map fun way => ((taken ++ cut.1) :: way.1,way.2)) =
          (longCuts inClass text).reverse.flatMap fun cut =>
            (ways items cut.2).map fun way => ((taken ++ [c] ++ cut.1) :: way.1,way.2) := by
        rw [← List.map_reverse,List.flatMap_map]
        simp
      rw [longCuts_cons hc,cuts_eq,List.map_append,List.reverse_append,List.flatMap_append,
        hshift,List.head?_append,ih,shortest,if_pos hc]
      simp [first]
    · rw [shortest,if_neg hc,longCuts,cuts_of_notMem (by simpa using hc)]
      rfl

theorem first_lazy (inClass : Char → Bool) (items : List Item) (text : List Char) :
    first (.run inClass 1 true true :: items) text = shortest inClass items [] text := by
  rw [← head?_flatMap_cuts,first,ways,Item.ways,List.flatMap_map]
  rfl

theorem mem_cuts_iff {inClass : Char → Bool} {text taken rest : List Char} :
    (taken,rest) ∈ cuts inClass text ↔ text = taken ++ rest ∧ taken.all inClass = true := by
  induction text generalizing taken with
  | nil =>
    rw [cuts,List.mem_singleton]
    constructor
    · intro h
      cases h
      exact ⟨rfl,rfl⟩
    · rintro ⟨h,-⟩
      obtain ⟨rfl,rfl⟩ := List.append_eq_nil_iff.mp h.symm
      rfl
  | cons c text ih =>
    cases taken with
    | nil =>
      rw [cuts]
      by_cases hc : inClass c = true <;> simp [hc,eq_comm]
    | cons d taken =>
      rw [cuts]
      by_cases hc : inClass c = true
      · rw [if_pos hc]
        simp only [List.mem_append,List.mem_map,List.mem_singleton,Prod.mk.injEq,List.cons.injEq,
          reduceCtorEq,false_and,or_false,List.cons_append,List.all_cons,Bool.and_eq_true]
        constructor
        · rintro ⟨⟨taken',rest'⟩,hmem,⟨rfl,rfl⟩,rfl⟩
          obtain ⟨hsplit,hall⟩ := ih.mp hmem
          exact ⟨⟨rfl,hsplit⟩,hc,hall⟩
        · rintro ⟨⟨rfl,hsplit⟩,-,hall⟩
          exact ⟨(taken,rest),ih.mpr ⟨hsplit,hall⟩,⟨rfl,rfl⟩,rfl⟩
      · rw [if_neg hc]
        refine iff_of_false (by simp) ?_
        rintro ⟨hsplit,hall⟩
        rw [List.cons_append,List.cons.injEq] at hsplit
        rw [List.all_cons,Bool.and_eq_true,← hsplit.1] at hall
        exact hc hall.1

/-- `\s*$`. -/
def toLineEnd (space : Char → Bool) : List Item := [many space,.lineEnd]

/-- The end of the text or of a line. -/
def AtEnd (rest : List Char) : Prop := rest.head?.all (· = '\n') = true

instance (rest : List Char) : Decidable (AtEnd rest) := inferInstanceAs (Decidable (_ = true))

theorem mem_ways_toLineEnd_iff {space : Char → Bool} {text : List Char}
    {way : List (List Char) × List Char} : way ∈ ways (toLineEnd space) text ↔
      way.1 = [] ∧ ∃ blanks, text = blanks ++ way.2 ∧ blanks.all space = true ∧ AtEnd way.2 := by
  have hend : ∀ rest, ways [.lineEnd] rest = if AtEnd rest then [([],rest)] else [] := by
    intro rest
    rw [ways,Item.ways]
    by_cases h : rest.head?.all (· = '\n') = true
    · rw [if_pos h]
      exact (if_pos h).symm
    · rw [if_neg h]
      exact (if_neg h).symm
  have hways : ways (toLineEnd space) text =
      (cuts space text).flatMap fun cut => if AtEnd cut.2 then [([],cut.2)] else [] := by
    rw [toLineEnd,many,ways,Item.ways,List.flatMap_map]
    simp only [Nat.zero_le,decide_true,List.filter_true,Bool.false_eq_true,if_false,hend,
      List.nil_append]
    congr 1
    funext cut
    split_ifs <;> rfl
  rw [hways,List.mem_flatMap]
  constructor
  · rintro ⟨⟨blanks,rest⟩,hcut,hway⟩
    obtain ⟨hsplit,hall⟩ := mem_cuts_iff.mp hcut
    dsimp only at hway
    split_ifs at hway with hrest
    · rw [List.mem_singleton.mp hway]
      exact ⟨rfl,blanks,hsplit,hall,hrest⟩
    · cases hway
  · rintro ⟨hgroups,blanks,hsplit,hall,hrest⟩
    refine ⟨(blanks,way.2),mem_cuts_iff.mpr ⟨hsplit,hall⟩,?_⟩
    rw [if_pos hrest,List.mem_singleton]
    exact Prod.ext hgroups rfl

variable {space : Char → Bool}

theorem first_toLineEnd_eq_some {text : List Char} {way : List (List Char) × List Char}
    (h : first (toLineEnd space) text = some way) :
    way.1 = [] ∧ ∃ blanks, text = blanks ++ way.2 ∧ blanks.all space = true ∧ AtEnd way.2 :=
  mem_ways_toLineEnd_iff.mp (List.mem_of_head? h)

/-- What is left of a line matches if it is blank. -/
theorem isSome_first_toLineEnd {line rest : List Char} (hline : '\n' ∉ line) (hrest : AtEnd rest) :
    (first (toLineEnd space) (line ++ rest)).isSome = line.all space := by
  rw [Bool.eq_iff_iff]
  constructor
  · intro h
    obtain ⟨way,hway⟩ := Option.isSome_iff_exists.mp h
    obtain ⟨-,blanks,hsplit,hall,hend⟩ := first_toLineEnd_eq_some hway
    rcases List.append_eq_append_iff.mp hsplit with ⟨more,hmore,-⟩ | ⟨left,hleft,hrest'⟩
    · rw [hmore,List.all_append,Bool.and_eq_true] at hall
      exact hall.1
    · cases left with
      | nil =>
        rw [List.append_nil] at hleft
        rwa [hleft]
      | cons c left =>
        rw [hrest'] at hend
        have hc : c = '\n' := of_decide_eq_true hend
        refine absurd ?_ hline
        rw [hleft,hc]
        simp
  · intro hall
    have hmem : ([],rest) ∈ ways (toLineEnd space) (line ++ rest) :=
      mem_ways_toLineEnd_iff.mpr ⟨rfl,line,rfl,hall,hrest⟩
    rw [first,List.isSome_head?]
    exact List.ne_nil_of_mem hmem

/-- A line without the blanks at its end, of which the first character stays. -/
def name (space : Char → Bool) : List Char → List Char
  | [] => []
  | c :: line => c :: line.rdropWhile space

theorem name_eq_rdropWhile {line : List Char} (h : line.all space = false) :
    name space line = line.rdropWhile space := by
  cases line with
  | nil => rfl
  | cons c line =>
    have hcons := @Words.rdropWhile_append _ space [c] line
    rw [List.singleton_append] at hcons
    rw [name,hcons]
    split_ifs with hnil
    · have hline : line.all space = true :=
        List.all_eq_true.mpr (List.rdropWhile_eq_nil_iff.mp hnil)
      rw [List.all_cons,hline,Bool.and_true] at h
      rw [hnil,List.rdropWhile_singleton,h]
      rfl
    · rfl

theorem name_append {front blanks : List Char} (hne : front ≠ [])
    (hfront : front.rdropWhile space = front) (hblanks : blanks.all space = true) :
    name space (front ++ blanks) = front := by
  have hvisible : (front ++ blanks).all space = false := by
    rw [List.all_append,Bool.and_eq_false_iff]
    left
    rw [← Bool.not_eq_true]
    intro hall
    rw [List.rdropWhile_eq_nil_iff.mpr (List.all_eq_true.mp hall)] at hfront
    exact hne hfront.symm
  rw [name_eq_rdropWhile hvisible,Words.rdropWhile_append,
    if_pos (List.rdropWhile_eq_nil_iff.mpr (List.all_eq_true.mp hblanks)),hfront]

/-- A name and the blanks behind it. If a name ends with a blank then that is all of it. -/
def NameThen (space : Char → Bool) (body x : List Char) : Prop :=
  x ≠ [] ∧ x.tail.rdropWhile space = x.tail ∧ ∃ blanks, body = x ++ blanks ∧ blanks.all space = true

theorem name_eq_iff {body x : List Char} (hbody : body ≠ []) :
    name space body = x ↔ NameThen space body x := by
  obtain ⟨c,body,rfl⟩ := List.exists_cons_of_ne_nil hbody
  rw [name]
  constructor
  · rintro rfl
    refine ⟨List.cons_ne_nil _ _,?_,body.rtakeWhile space,?_,?_⟩
    · rw [List.tail_cons,List.rdropWhile_idempotent]
    · rw [List.cons_append,List.rdropWhile_append_rtakeWhile]
    · exact List.all_eq_true.mpr fun d hd => List.mem_rtakeWhile_imp hd
  · rintro ⟨hne,hend,blanks,hsplit,hblanks⟩
    obtain ⟨d,x,rfl⟩ := List.exists_cons_of_ne_nil hne
    rw [List.cons_append,List.cons.injEq] at hsplit
    obtain ⟨rfl,rfl⟩ := hsplit
    rw [List.tail_cons] at hend
    rw [Words.rdropWhile_append,
      if_pos (List.rdropWhile_eq_nil_iff.mpr (List.all_eq_true.mp hblanks)),hend]

theorem shortest_toLineEnd (taken : List Char) {line rest : List Char} (hline : '\n' ∉ line)
    (hrest : AtEnd rest) :
    (shortest dot (toLineEnd space) taken (line ++ rest)).map Prod.fst =
      if line = [] then none else some [taken ++ name space line] := by
  induction line generalizing taken with
  | nil =>
    rw [if_pos rfl,List.nil_append]
    cases rest with
    | nil => rfl
    | cons c rest =>
      have hc : c = '\n' := of_decide_eq_true hrest
      rw [shortest,if_neg (by simp [dot,hc])]
      rfl
  | cons c line ih =>
    have hc : dot c = true := by
      rw [dot,decide_eq_true_eq]
      rintro rfl
      exact hline List.mem_cons_self
    have hrest' : '\n' ∉ line := fun h => hline (List.mem_cons_of_mem c h)
    have hend := @isSome_first_toLineEnd space line rest hrest' hrest
    rw [List.cons_append,shortest,if_pos hc,if_neg (List.cons_ne_nil c line),name]
    cases hall : line.all space with
    | true =>
      rw [hall] at hend
      obtain ⟨way,hway⟩ := Option.isSome_iff_exists.mp hend
      obtain ⟨hgroups,-⟩ := first_toLineEnd_eq_some hway
      have hnil : line.rdropWhile space = [] :=
        List.rdropWhile_eq_nil_iff.mpr (List.all_eq_true.mp hall)
      rw [hway,hnil]
      simp [hgroups]
    | false =>
      rw [hall,Option.isSome_eq_false_iff,Option.isNone_iff_eq_none] at hend
      rw [hend,Option.map_none,Option.none_or,ih _ hrest',name_eq_rdropWhile hall]
      cases line with
      | nil => cases hall
      | cons d line => simp

/-- A pattern that matches at the starts of lines only, whose groups are found within the line, and
whose match ends with blanks. -/
structure LineLocal (space : Char → Bool) (pattern : Pattern)
    (onLine : List Char → Option (List (List Char))) : Prop where
  atLineStart : pattern.atLineStart = true
  onLine_eq : ∀ line rest, '\n' ∉ line → AtEnd rest →
    (first pattern.items (line ++ rest)).map Prod.fst = onLine line
  ends : ∀ text way, first pattern.items text = some way → ∃ front blanks,
    text = front ++ blanks ++ way.2 ∧ front ≠ [] ∧ '\n' ∉ front ∧ blanks.all space = true ∧
      AtEnd way.2
  blank : ∀ line, '\n' ∉ line → line.all space = true → onLine line = none

def onLines (onLine : List Char → Option (List (List Char))) (text : List Char) :
    List (List (List Char)) := (text.splitOn '\n').flatMap fun line => (onLine line).toList

theorem onLines_append (onLine : List Char → Option (List (List Char))) (text rest : List Char) :
    onLines onLine (text ++ '\n' :: rest) = onLines onLine text ++ onLines onLine rest := by
  rw [onLines,List.splitOn_append_cons_self,List.flatMap_append]
  rfl

theorem onLines_line (onLine : List Char → Option (List (List Char))) {line : List Char}
    (hline : '\n' ∉ line) : onLines onLine line = (onLine line).toList := by
  rw [onLines,List.splitOn_eq_singleton hline]
  simp

/-- Every text is a line and, if it goes on, other lines. -/
theorem exists_line (text : List Char) : ∃ line, '\n' ∉ line ∧
    (text = line ∨ ∃ rest, text = line ++ '\n' :: rest) := by
  induction text with
  | nil => exact ⟨[],List.not_mem_nil,.inl rfl⟩
  | cons c text ih =>
    by_cases hc : c = '\n'
    · exact ⟨[],List.not_mem_nil,.inr ⟨text,by rw [hc]; rfl⟩⟩
    · obtain ⟨line,hline,htext⟩ := ih
      refine ⟨c :: line,?_,?_⟩
      · rw [List.mem_cons,not_or]
        exact ⟨Ne.symm hc,hline⟩
      · rcases htext with rfl | ⟨rest,rfl⟩
        · exact .inl rfl
        · exact .inr ⟨rest,rfl⟩

variable {pattern : Pattern} {onLine : List Char → Option (List (List Char))}

/-- Blank lines have no match. -/
theorem LineLocal.onLines_blank (hlocal : LineLocal space pattern onLine) {blanks : List Char}
    (h : blanks.all space = true) : onLines onLine blanks = [] := by
  induction hn : blanks.length using Nat.strong_induction_on generalizing blanks with
  | _ n ih =>
    obtain ⟨line,hline,rfl | ⟨rest,rfl⟩⟩ := exists_line blanks
    · rw [onLines_line onLine hline,hlocal.blank _ hline h]
      rfl
    · rw [List.all_append,List.all_cons,Bool.and_eq_true,Bool.and_eq_true] at h
      rw [List.length_append,List.length_cons] at hn
      rw [onLines_append,onLines_line onLine hline,hlocal.blank line hline h.1,
        ih rest.length (by omega) h.2.2 rfl]
      rfl

theorem findAllFrom_skip (start : Bool) {n : ℕ} {text : List Char} (h : n ≤ text.length) :
    ∃ start', pattern.findAllFrom n start text = pattern.findAllFrom 0 start' (text.drop n) := by
  induction n generalizing start text with
  | zero => exact ⟨start,rfl⟩
  | succ n ih =>
    cases text with
    | nil => exact absurd h (by simp)
    | cons c text => exact ih _ (Nat.le_of_succ_le_succ h)

theorem LineLocal.findAllFrom_line (hlocal : LineLocal space pattern onLine) {line : List Char}
    (hline : '\n' ∉ line) (rest : List Char) :
    pattern.findAllFrom 0 false (line ++ rest) = pattern.findAllFrom 0 false rest := by
  have hnone : ∀ text, pattern.matchAt false text = none := by
    intro text
    rw [matchAt,hlocal.atLineStart]
    rfl
  induction line with
  | nil => rfl
  | cons c line ih =>
    have hc : c ≠ '\n' := by
      rintro rfl
      exact hline List.mem_cons_self
    rw [List.cons_append,findAllFrom,hnone]
    simp only [hc,decide_false]
    exact ih fun h => hline (List.mem_cons_of_mem c h)

theorem matchAt_true (pattern : Pattern) (text : List Char) :
    pattern.matchAt true text = first pattern.items text := by
  rw [matchAt,Bool.not_true,Bool.and_false]
  rfl

theorem LineLocal.findAllFrom_feed (hlocal : LineLocal space pattern onLine) (start : Bool)
    (rest : List Char) : pattern.findAllFrom 0 start ('\n' :: rest) = pattern.findAll rest := by
  have hnone : pattern.matchAt start ('\n' :: rest) = none := by
    cases start with
    | false =>
      rw [matchAt,hlocal.atLineStart]
      rfl
    | true =>
      have h := hlocal.onLine_eq [] ('\n' :: rest) List.not_mem_nil rfl
      rw [hlocal.blank [] List.not_mem_nil rfl,Option.map_eq_none_iff] at h
      rw [matchAt_true]
      exact h
  rw [findAllFrom,hnone]
  rfl

theorem LineLocal.findAllFrom_nil (hlocal : LineLocal space pattern onLine) (start : Bool) :
    pattern.findAllFrom 0 start [] = [] := by
  cases start with
  | false =>
    rw [findAllFrom,matchAt,hlocal.atLineStart]
    rfl
  | true =>
    have h := hlocal.onLine_eq [] [] List.not_mem_nil rfl
    rw [hlocal.blank [] List.not_mem_nil rfl] at h
    rw [findAllFrom,matchAt_true]
    exact congrArg Option.toList h

theorem LineLocal.findAllFrom_behind (hlocal : LineLocal space pattern onLine) (start : Bool)
    {front blanks after line rest : List Char} (hfront : '\n' ∉ front)
    (hblanks : blanks.all space = true) (hafter : AtEnd after) (hline : '\n' ∉ line)
    (hsplit : front ++ blanks ++ after = line ++ '\n' :: rest)
    (ih : ∀ text, text.length ≤ rest.length → pattern.findAll text = onLines onLine text) :
    pattern.findAllFrom 0 start after = onLines onLine rest := by
  have hsame : after = '\n' :: rest → pattern.findAllFrom 0 start after = onLines onLine rest := by
    rintro rfl
    rw [hlocal.findAllFrom_feed,ih rest (Nat.le_refl _)]
  rcases List.append_eq_append_iff.mp hsplit with ⟨more,hmore,rfl⟩ | ⟨left,hleft,hrest⟩
  · cases more with
    | nil => exact hsame rfl
    | cons c more =>
      have hc : c = '\n' := of_decide_eq_true hafter
      rw [hmore,hc] at hline
      simp at hline
  · cases left with
    | nil => exact hsame hrest.symm
    | cons c left =>
      obtain ⟨hfeed,hbehind⟩ := List.cons.inj hrest
      subst hfeed
      have hsum : rest = left ++ after := hbehind
      have hblank : left.all space = true := by
        rcases List.append_eq_append_iff.mp hleft with ⟨more,-,hmore⟩ | ⟨more,hmore,hleft'⟩
        · rw [hmore,List.all_append,List.all_cons,Bool.and_eq_true,Bool.and_eq_true] at hblanks
          exact hblanks.2.2
        · cases more with
          | nil =>
            have hcons : blanks = '\n' :: left := hleft'.symm
            rw [hcons,List.all_cons,Bool.and_eq_true] at hblanks
            exact hblanks.2
          | cons d more =>
            obtain ⟨rfl,-⟩ := List.cons.inj hleft'
            rw [hmore] at hfront
            simp at hfront
      cases after with
      | nil =>
        rw [hsum,List.append_nil,hlocal.findAllFrom_nil,hlocal.onLines_blank hblank]
      | cons c after =>
        have hc : c = '\n' := of_decide_eq_true hafter
        subst hc
        rw [hsum,hlocal.findAllFrom_feed,onLines_append,hlocal.onLines_blank hblank,
          List.nil_append]
        refine ih after ?_
        rw [hsum,List.length_append,List.length_cons]
        omega

theorem LineLocal.findAllFrom_none (hlocal : LineLocal space pattern onLine) {line tail : List Char}
    (hline : '\n' ∉ line) (hnone : pattern.matchAt true (line ++ tail) = none) :
    ∃ start, pattern.findAllFrom 0 true (line ++ tail) = pattern.findAllFrom 0 start tail := by
  cases line with
  | nil => exact ⟨true,rfl⟩
  | cons c line =>
    have hc : c ≠ '\n' := by
      rintro rfl
      exact hline List.mem_cons_self
    rw [List.cons_append] at hnone ⊢
    rw [findAllFrom,hnone]
    simp only [hc,decide_false]
    exact ⟨false,hlocal.findAllFrom_line (fun h => hline (List.mem_cons_of_mem c h)) tail⟩

theorem findAllFrom_some {text front : List Char} {way : List (List Char) × List Char}
    (hmatch : pattern.matchAt true text = some way) (hfront : front ≠ [])
    (hsplit : text = front ++ way.2) :
    ∃ start, pattern.findAllFrom 0 true text = way.1 :: pattern.findAllFrom 0 start way.2 := by
  cases front with
  | nil => exact absurd rfl hfront
  | cons c front =>
    subst hsplit
    have hskip := @findAllFrom_skip pattern (decide (c = '\n')) front.length (front ++ way.2)
      (by rw [List.length_append]; exact Nat.le_add_right _ _)
    obtain ⟨start,hskip⟩ := hskip
    rw [List.drop_left] at hskip
    have hlength : (front ++ way.2).length - way.2.length = front.length := by
      rw [List.length_append,Nat.add_sub_cancel]
    rw [List.cons_append] at hmatch ⊢
    rw [findAllFrom,hmatch]
    show ∃ start, way.1 :: pattern.findAllFrom ((front ++ way.2).length - way.2.length) _ _ = _
    rw [hlength,hskip]
    exact ⟨start,rfl⟩

/-- All matches in a text are those of its lines. -/
theorem LineLocal.findAll_eq (hlocal : LineLocal space pattern onLine) (text : List Char) :
    pattern.findAll text = onLines onLine text := by
  induction hn : text.length using Nat.strong_induction_on generalizing text with
  | _ n ih =>
    obtain ⟨line,hline,htext⟩ := exists_line text
    have hfound : ∀ tail, text = line ++ tail → AtEnd tail →
        (pattern.matchAt true text).map Prod.fst = onLine line := by
      intro tail htail hend
      rw [matchAt_true,htail]
      exact hlocal.onLine_eq line tail hline hend
    rw [findAll]
    rcases htext with htext | ⟨rest,htext⟩
    · have htail : text = line ++ [] := by rw [htext,List.append_nil]
      rw [htext,onLines_line onLine hline,← hfound [] htail rfl,← htext]
      cases hmatch : pattern.matchAt true text with
      | none =>
        rw [htail] at hmatch
        obtain ⟨start,hstart⟩ := hlocal.findAllFrom_none hline hmatch
        rw [htail,hstart,hlocal.findAllFrom_nil]
        rfl
      | some way =>
        have hsome := hmatch
        rw [matchAt_true] at hsome
        obtain ⟨front,blanks,hsplit,hne,-,-,hend⟩ := hlocal.ends text way hsome
        obtain ⟨start,hstart⟩ := findAllFrom_some hmatch
          (fun h => hne (List.append_eq_nil_iff.mp h).1) hsplit
        have hnil : way.2 = [] := by
          cases hway : way.2 with
          | nil => rfl
          | cons c after =>
            rw [hway] at hend hsplit
            have hc : c = '\n' := of_decide_eq_true hend
            rw [← htext,hsplit,hc] at hline
            simp at hline
        rw [hstart,hnil,hlocal.findAllFrom_nil]
        rfl
    · have hlength : rest.length < n := by
        rw [← hn,htext,List.length_append,List.length_cons]
        omega
      rw [htext,onLines_append,onLines_line onLine hline,← hfound _ htext rfl,← htext]
      cases hmatch : pattern.matchAt true text with
      | none =>
        rw [htext] at hmatch
        obtain ⟨start,hstart⟩ := hlocal.findAllFrom_none hline hmatch
        rw [htext,hstart,hlocal.findAllFrom_feed,ih rest.length hlength rest rfl]
        rfl
      | some way =>
        have hsome := hmatch
        rw [matchAt_true] at hsome
        obtain ⟨front,blanks,hsplit,hne,hfront,hblanks,hend⟩ := hlocal.ends text way hsome
        obtain ⟨start,hstart⟩ := findAllFrom_some hmatch
          (fun h => hne (List.append_eq_nil_iff.mp h).1) hsplit
        have hbehind := hlocal.findAllFrom_behind start hfront hblanks hend hline
          (hsplit.symm.trans htext) fun other hother => ih other.length (by omega) other rfl
        rw [hstart,hbehind]
        rfl

theorem prefix_line_iff {word line rest : List Char} (hword : '\n' ∉ word) (hrest : AtEnd rest) :
    word <+: line ++ rest ↔ word <+: line := by
  cases rest with
  | nil => rw [List.append_nil]
  | cons c rest =>
    have hc : c = '\n' := of_decide_eq_true hrest
    subst hc
    exact Text.prefix_append_cons_iff hword

theorem first_literal_line {word line rest : List Char} (items : List Item) (hword : '\n' ∉ word)
    (hrest : AtEnd rest) : first (.literal word :: items) (line ++ rest) =
      if word <+: line then first items (line.drop word.length ++ rest) else none := by
  rw [first_literal]
  by_cases hbegins : word <+: line
  · rw [if_pos ((prefix_line_iff hword hrest).mpr hbegins),if_pos hbegins,
      List.drop_append_of_le_length hbegins.length_le]
  · rw [if_neg fun h => hbegins ((prefix_line_iff hword hrest).mp h),if_neg hbegins]

theorem first_optional_line {word line rest : List Char} (items : List Item) (hword : '\n' ∉ word)
    (hrest : AtEnd rest) : first (.optional word :: items) (line ++ rest) =
      if word <+: line then
        (first items (line.drop word.length ++ rest)).or (first items (line ++ rest))
      else first items (line ++ rest) := by
  rw [first_optional]
  by_cases hbegins : word <+: line
  · rw [if_pos ((prefix_line_iff hword hrest).mpr hbegins),if_pos hbegins,
      List.drop_append_of_le_length hbegins.length_le]
  · rw [if_neg fun h => hbegins ((prefix_line_iff hword hrest).mp h),if_neg hbegins]

theorem shortest_eq_some {items : List Item} {taken text : List Char}
    {way : List (List Char) × List Char} (h : shortest dot items taken text = some way) :
    ∃ run rest, text = run ++ rest ∧ run ≠ [] ∧ '\n' ∉ run ∧
      ∃ next, first items rest = some next ∧ way.2 = next.2 := by
  induction text generalizing taken with
  | nil => cases h
  | cons c text ih =>
    rw [shortest] at h
    split_ifs at h with hc
    have hfeed : '\n' ≠ c := by
      rw [dot,decide_eq_true_eq] at hc
      exact hc.symm
    cases hnext : first items text with
    | some next =>
      rw [hnext,Option.map_some,Option.some_or,Option.some.injEq] at h
      exact ⟨[c],text,rfl,List.cons_ne_nil c [],by simpa using hfeed,next,hnext,by rw [← h]⟩
    | none =>
      rw [hnext,Option.map_none,Option.none_or] at h
      obtain ⟨run,rest,hsplit,-,hrun,hrest⟩ := ih h
      refine ⟨c :: run,rest,by rw [hsplit]; rfl,List.cons_ne_nil c run,?_,hrest⟩
      rw [List.mem_cons,not_or]
      exact ⟨hfeed,hrun⟩

theorem shortest_toLineEnd_ends {taken text : List Char} {way : List (List Char) × List Char}
    (h : shortest dot (toLineEnd space) taken text = some way) : ∃ front blanks,
      text = front ++ blanks ++ way.2 ∧ front ≠ [] ∧ '\n' ∉ front ∧ blanks.all space = true ∧
        AtEnd way.2 := by
  obtain ⟨run,rest,hsplit,hne,hrun,next,hnext,hway⟩ := shortest_eq_some h
  obtain ⟨-,blanks,hrest,hblanks,hend⟩ := first_toLineEnd_eq_some hnext
  rw [← hway] at hrest hend
  exact ⟨run,blanks,by rw [hsplit,hrest,List.append_assoc],hne,hrun,hblanks,hend⟩

theorem ends_append {word text : List Char} {rest : List Char} (hword : '\n' ∉ word)
    (h : ∃ front blanks, text = front ++ blanks ++ rest ∧ front ≠ [] ∧ '\n' ∉ front ∧
      blanks.all space = true ∧ AtEnd rest) : ∃ front blanks,
    word ++ text = front ++ blanks ++ rest ∧ front ≠ [] ∧ '\n' ∉ front ∧
      blanks.all space = true ∧ AtEnd rest := by
  obtain ⟨front,blanks,hsplit,hne,hfront,hblanks,hend⟩ := h
  refine ⟨word ++ front,blanks,by simp [hsplit],fun h => hne (List.append_eq_nil_iff.mp h).2,?_,
    hblanks,hend⟩
  rw [List.mem_append,not_or]
  exact ⟨hword,hfront⟩

/-- A mark at the start of a line. -/
structure Mark (space : Char → Bool) (mark : List Char) : Prop where
  ne_nil : mark ≠ []
  noFeed : '\n' ∉ mark
  visible : ∀ c ∈ mark.head?, space c = false

theorem Mark.not_blank {mark line : List Char} (hmark : Mark space mark)
    (hline : line.all space = true) : ¬ mark <+: line := by
  obtain ⟨c,rest,rfl⟩ := List.exists_cons_of_ne_nil hmark.ne_nil
  intro h
  have hmem : c ∈ line := h.subset List.mem_cons_self
  have hc := List.all_eq_true.mp hline c hmem
  rw [hmark.visible c rfl] at hc
  cases hc

/-- `^mark(?:option)?(.+?)\s*$`. -/
def marked (space : Char → Bool) (mark option : List Char) : Pattern :=
  ⟨true,.literal mark :: .optional option :: .run dot 1 true true :: toLineEnd space⟩

def markedOn (space : Char → Bool) (mark option line : List Char) : Option (List (List Char)) :=
  if mark <+: line then
    let rest := line.drop mark.length
    if option <+: rest ∧ rest.drop option.length ≠ [] then
      some [name space (rest.drop option.length)]
    else if rest = [] then none else some [name space rest]
  else none

theorem markedOn_append {front blanks : List Char} (mark option : List Char) (hne : front ≠ [])
    (hfront : front.rdropWhile space = front) (hblanks : blanks.all space = true) :
    markedOn space mark option (mark ++ (option ++ (front ++ blanks))) = some [front] := by
  have hleft : option <+: option ++ (front ++ blanks) ∧ front ++ blanks ≠ [] :=
    ⟨List.prefix_append _ _,fun h => hne (List.append_eq_nil_iff.mp h).1⟩
  unfold markedOn
  rw [if_pos (List.prefix_append _ _),List.drop_left]
  dsimp only
  rw [List.drop_left,if_pos hleft,name_append hne hfront hblanks]

theorem markedOn_other {front blanks : List Char} (mark : List Char) {option : List Char}
    (hoption : ¬ option <+: front ++ blanks) (hne : front ≠ [])
    (hfront : front.rdropWhile space = front) (hblanks : blanks.all space = true) :
    markedOn space mark option (mark ++ (front ++ blanks)) = some [front] := by
  unfold markedOn
  rw [if_pos (List.prefix_append _ _),List.drop_left]
  dsimp only
  rw [if_neg fun h => hoption h.1,if_neg fun h => hne (List.append_eq_nil_iff.mp h).1,
    name_append hne hfront hblanks]

/-- What stands behind a mark and a word that can be left out. -/
inductive BehindMark (mark option : List Char) : List Char → List Char → Prop
  | word {body : List Char} (more : body ≠ []) : BehindMark mark option (mark ++ (option ++ body)) body
  | noWord {body : List Char} (more : body ≠ [])
    (other : ∀ rest, rest ≠ [] → body ≠ option ++ rest) : BehindMark mark option (mark ++ body) body

theorem behindMark_cons_iff {c : Char} {mark option text body : List Char} :
    BehindMark (c :: mark) option (c :: text) body ↔ BehindMark mark option text body := by
  constructor
  · intro h
    generalize hline : c :: text = line at h
    cases h with
    | word more =>
      rw [List.cons_append,List.cons.injEq] at hline
      rw [hline.2]
      exact .word more
    | noWord more other =>
      rw [List.cons_append,List.cons.injEq] at hline
      rw [hline.2]
      exact .noWord more other
  · rintro (⟨more⟩ | ⟨more,other⟩)
    · exact .word more
    · exact .noWord more other

/-- The name that is read behind a mark. -/
theorem mem_markedOn_iff {mark option line x : List Char} :
    x ∈ (markedOn space mark option line).getD [] ↔
      ∃ body, BehindMark mark option line body ∧ NameThen space body x := by
  by_cases hmark : mark <+: line
  · obtain ⟨rest,rfl⟩ := hmark
    rw [markedOn,if_pos (List.prefix_append _ _),List.drop_left]
    dsimp only
    by_cases hoption : option <+: rest ∧ rest.drop option.length ≠ []
    · obtain ⟨⟨body,rfl⟩,hbody⟩ := hoption
      rw [List.drop_left] at hbody
      rw [List.drop_left,if_pos ⟨List.prefix_append _ _,hbody⟩,Option.getD_some,List.mem_singleton,
        eq_comm,name_eq_iff hbody]
      refine ⟨fun hname => ⟨body,.word hbody,hname⟩,?_⟩
      rintro ⟨other,hbehind,hname⟩
      generalize hline : mark ++ (option ++ body) = line at hbehind
      cases hbehind with
      | word more =>
        rw [List.append_cancel_left (List.append_cancel_left hline)]
        exact hname
      | noWord more apart => exact absurd (List.append_cancel_left hline).symm (apart body hbody)
    · rw [if_neg hoption]
      have hother : ∀ body, body ≠ [] → rest ≠ option ++ body := by
        rintro body hbody rfl
        refine hoption ⟨List.prefix_append _ _,?_⟩
        rwa [List.drop_left]
      by_cases hrest : rest = []
      · rw [if_pos hrest,Option.getD_none]
        refine ⟨fun h => absurd h List.not_mem_nil,?_⟩
        rintro ⟨body,hbehind,-⟩
        generalize hline : mark ++ rest = line at hbehind
        cases hbehind with
        | word more => exact absurd (List.append_cancel_left hline) (hother body more)
        | noWord more => exact absurd ((List.append_cancel_left hline).symm.trans hrest) more
      · rw [if_neg hrest,Option.getD_some,List.mem_singleton,eq_comm,name_eq_iff hrest]
        refine ⟨fun hname => ⟨rest,.noWord hrest hother,hname⟩,?_⟩
        rintro ⟨body,hbehind,hname⟩
        generalize hline : mark ++ rest = line at hbehind
        cases hbehind with
        | word more => exact absurd (List.append_cancel_left hline) (hother body more)
        | noWord more =>
          rw [List.append_cancel_left hline]
          exact hname
  · rw [markedOn,if_neg hmark,Option.getD_none]
    refine ⟨fun h => absurd h List.not_mem_nil,?_⟩
    rintro ⟨body,⟨-⟩ | ⟨-,-⟩,-⟩ <;> exact absurd (List.prefix_append _ _) hmark

theorem lineLocal_marked {mark option : List Char} (hmark : Mark space mark)
    (hoption : '\n' ∉ option) :
    LineLocal space (marked space mark option) (markedOn space mark option) where
  atLineStart := rfl
  onLine_eq line rest hline hrest := by
    rw [marked,markedOn,first_literal_line _ hmark.noFeed hrest]
    by_cases hbegins : mark <+: line
    · have hdrop : '\n' ∉ line.drop mark.length := fun h => hline (List.mem_of_mem_drop h)
      rw [if_pos hbegins,if_pos hbegins,first_optional_line _ hoption hrest]
      generalize line.drop mark.length = behind at hdrop
      have hwhole := @shortest_toLineEnd space [] behind rest hdrop hrest
      by_cases hopt : option <+: behind
      · have hdrop' : '\n' ∉ behind.drop option.length := fun h => hdrop (List.mem_of_mem_drop h)
        have hpart := @shortest_toLineEnd space [] (behind.drop option.length) rest hdrop' hrest
        rw [if_pos hopt,first_lazy,first_lazy,Option.map_or,hpart,hwhole]
        by_cases hempty : behind.drop option.length = []
        · simp [hopt,hempty]
        · simp [hopt,hempty]
      · rw [if_neg hopt,first_lazy,hwhole]
        simp [hopt]
    · rw [if_neg hbegins,if_neg hbegins]
      rfl
  ends text way h := by
    rw [marked,first_literal] at h
    split_ifs at h with hbegins
    obtain ⟨text,rfl⟩ := hbegins
    rw [List.drop_left,first_optional] at h
    refine ends_append hmark.noFeed ?_
    split_ifs at h with hopt
    · obtain ⟨text,rfl⟩ := hopt
      rw [List.drop_left,first_lazy,first_lazy] at h
      rcases Option.or_eq_some_iff.mp h with h | ⟨-,h⟩
      · exact ends_append hoption (shortest_toLineEnd_ends h)
      · exact shortest_toLineEnd_ends h
    · rw [first_lazy] at h
      exact shortest_toLineEnd_ends h
  blank line _ hblank := if_neg (hmark.not_blank hblank)

/-- `^mark(.+?)sep(.+?)\s*$`. -/
def markedPair (space : Char → Bool) (mark sep : List Char) : Pattern :=
  ⟨true,.literal mark :: .run dot 1 true true :: .literal sep :: .run dot 1 true true ::
    toLineEnd space⟩

/-- The shortest front before a separator behind which something is left. -/
def splitName (sep : List Char) : List Char → Option (List Char × List Char)
  | [] => none
  | c :: line =>
    if sep <+: line ∧ line.drop sep.length ≠ [] then some ([c],line.drop sep.length)
    else (splitName sep line).map fun parts => (c :: parts.1,parts.2)

/-- BehindMark a front without the separator it is found. -/
theorem splitName_append {c : Char} {word front back : List Char} (hword : c ∉ word)
    (hfront : front ≠ []) (hback : back ≠ []) (hsep : ¬ c :: word <:+: front.drop 1) :
    splitName (c :: word) (front ++ c :: (word ++ back)) = some (front,back) := by
  induction front with
  | nil => exact absurd rfl hfront
  | cons d front ih =>
    rw [List.cons_append,splitName]
    cases front with
    | nil =>
      have hsplit : [] ++ c :: (word ++ back) = (c :: word) ++ back := rfl
      rw [hsplit,List.drop_left,if_pos ⟨List.prefix_append _ _,hback⟩]
    | cons e front =>
      have hnot : ¬ c :: word <+: e :: front ++ c :: (word ++ back) := by
        rw [List.cons_append,List.cons_prefix_cons,Text.prefix_append_cons_iff hword]
        rintro ⟨rfl,hbegins⟩
        exact hsep (List.cons_prefix_cons.mpr ⟨rfl,hbegins⟩).isInfix
      have hdrop : ¬ c :: word <:+: (e :: front).drop 1 :=
        fun h => hsep (h.trans (List.drop_suffix 1 _).isInfix)
      rw [if_neg fun h => hnot h.1,ih (List.cons_ne_nil _ _) hdrop]
      rfl

def markedPairOn (space : Char → Bool) (mark sep line : List Char) : Option (List (List Char)) :=
  if mark <+: line then
    (splitName sep (line.drop mark.length)).map fun parts => [parts.1,name space parts.2]
  else none

theorem shortest_pair {sep : List Char} (hsep : '\n' ∉ sep) (taken : List Char)
    {line rest : List Char} (hline : '\n' ∉ line) (hrest : AtEnd rest) :
    (shortest dot (.literal sep :: .run dot 1 true true :: toLineEnd space) taken
      (line ++ rest)).map Prod.fst =
        (splitName sep line).map fun parts => [taken ++ parts.1,name space parts.2] := by
  induction line generalizing taken with
  | nil =>
    cases rest with
    | nil => rfl
    | cons c rest =>
      have hc : c = '\n' := of_decide_eq_true hrest
      rw [List.nil_append,shortest,if_neg (by simp [dot,hc])]
      rfl
  | cons c line ih =>
    have hc : dot c = true := by
      rw [dot,decide_eq_true_eq]
      rintro rfl
      exact hline List.mem_cons_self
    have hline' : '\n' ∉ line := fun h => hline (List.mem_cons_of_mem c h)
    rw [List.cons_append,shortest,if_pos hc,first_literal_line _ hsep hrest,splitName,Option.map_or,
      ih _ hline']
    by_cases hbegins : sep <+: line
    · have hdrop : '\n' ∉ line.drop sep.length := fun h => hline' (List.mem_of_mem_drop h)
      have hlast := @shortest_toLineEnd space [] (line.drop sep.length) rest hdrop hrest
      rw [if_pos hbegins,first_lazy,Option.map_map]
      by_cases hempty : line.drop sep.length = []
      · rw [if_pos hempty] at hlast
        rw [Option.map_eq_none_iff.mp hlast,if_neg fun h => h.2 hempty]
        simp [Function.comp_def]
      · rw [if_neg hempty] at hlast
        obtain ⟨way,hway,hgroups⟩ := Option.map_eq_some_iff.mp hlast
        rw [hway,if_pos ⟨hbegins,hempty⟩]
        simp [hgroups]
    · rw [if_neg hbegins,if_neg fun h => hbegins h.1]
      simp [Function.comp_def]

theorem lineLocal_markedPair {mark sep : List Char} (hmark : Mark space mark)
    (hsep : '\n' ∉ sep) :
    LineLocal space (markedPair space mark sep) (markedPairOn space mark sep) where
  atLineStart := rfl
  onLine_eq line rest hline hrest := by
    rw [markedPair,markedPairOn,first_literal_line _ hmark.noFeed hrest]
    by_cases hbegins : mark <+: line
    · have hdrop : '\n' ∉ line.drop mark.length := fun h => hline (List.mem_of_mem_drop h)
      rw [if_pos hbegins,if_pos hbegins,first_lazy,shortest_pair hsep [] hdrop hrest]
      rfl
    · rw [if_neg hbegins,if_neg hbegins]
      rfl
  ends text way h := by
    rw [markedPair,first_literal] at h
    split_ifs at h with hbegins
    obtain ⟨text,rfl⟩ := hbegins
    rw [List.drop_left,first_lazy] at h
    refine ends_append hmark.noFeed ?_
    obtain ⟨run,rest,rfl,-,hrun,next,hnext,hway⟩ := shortest_eq_some h
    refine ends_append hrun ?_
    rw [first_literal] at hnext
    split_ifs at hnext with hsplit
    obtain ⟨text,rfl⟩ := hsplit
    rw [List.drop_left,first_lazy] at hnext
    rw [hway]
    exact ends_append hsep (shortest_toLineEnd_ends hnext)
  blank line _ hblank := if_neg (hmark.not_blank hblank)

end Pattern
end DockyardRL
