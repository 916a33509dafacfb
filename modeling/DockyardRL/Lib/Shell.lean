import DockyardRL.Lib.Words

/-! How a POSIX shell reads one line as the words of a simple command, as far as the line is
made of literal text and of quotes. -/
namespace DockyardRL
namespace Shell

/-- The characters that stand for themselves outside of quotes wherever they are. -/
def plain (c : Char) : Bool := c.isAlphanum || c ∈ "_-./:=,+@%".toList

/-- A `$` before one of these is an expansion; before another character it is kept, as `dash` does. The
standard leaves that open, and `bash` expands `$[` too. -/
def startsExpansion : List Char → Bool
  | [] => false
  | c :: _ => c.isAlphanum || c ∈ "_@*#?-$!\x7b(".toList

/-- What the reader is in: nothing yet, a word, single quotes or double quotes. -/
inductive Mode
  | blank | word | single | double
  deriving DecidableEq

/-- The words of a line; `none` for a line with an expansion, an operator, a pattern, a quote
that is not closed or a null character. -/
def words : Mode → List Char → List Char → Option (List (List Char))
  | .blank, _, [] => some []
  | .word, read, [] => some [read]
  | .single, _, [] => none
  | .double, _, [] => none
  | .single, read, c :: line =>
    if c = '\'' then words .word read line
    else if c = '\x00' then none
    else words .single (read ++ [c]) line
  | .double, read, '\\' :: c :: line =>
    if c ∈ ['$','\x60','"','\\'] then words .double (read ++ [c]) line
    else if c = '\n' then words .double read line
    else words .double (read ++ ['\\']) (c :: line)
  | .double, read, c :: line =>
    if c = '"' then words .word read line
    else if c = '$' then
      if startsExpansion line then none else words .double (read ++ ['$']) line
    else if c ∈ ['\x60','\x00','\\'] then none
    else words .double (read ++ [c]) line
  | mode, read, c :: line =>
    if c = ' ' ∨ c = '\t' then
      if mode = .word then (words .blank [] line).map (read :: ·) else words .blank [] line
    else if c = '\'' then words .single read line
    else if c = '"' then words .double read line
    else if plain c then words .word (read ++ [c]) line
    else none

def split (line : List Char) : Option (List (List Char)) := words .blank [] line

theorem split_openDouble (line : List Char) : split ('"' :: line) = words .double [] line := rfl

theorem split_openSingle (line : List Char) : split ('\'' :: line) = words .single [] line := rfl

theorem plain_ne {c : Char} (hc : plain c = true) :
    c ≠ ' ' ∧ c ≠ '\t' ∧ c ≠ '\'' ∧ c ≠ '"' := by
  refine ⟨?_,?_,?_,?_⟩ <;> rintro rfl <;> exact absurd hc (by decide)

theorem words_plain_cons {mode : Mode} (hmode : mode = .blank ∨ mode = .word) {c : Char}
    (hc : plain c = true) (read line : List Char) :
    words mode read (c :: line) = words .word (read ++ [c]) line := by
  obtain ⟨hspace,htab,hsingle,hdouble⟩ := plain_ne hc
  rcases hmode with rfl | rfl <;> simp [words,hspace,htab,hsingle,hdouble,hc]

theorem words_plain {word : List Char} (hword : word.all plain = true) (read line : List Char) :
    words .word read (word ++ line) = words .word (read ++ word) line := by
  induction word generalizing read with
  | nil => simp
  | cons c word ih =>
    rw [List.all_cons,Bool.and_eq_true] at hword
    rw [List.cons_append,words_plain_cons (.inr rfl) hword.1,ih hword.2]
    simp

theorem words_space (read line : List Char) :
    words .word read (' ' :: line) = (words .blank [] line).map (read :: ·) := by
  simp [words]

/-- A literal word at the start. -/
theorem split_word {word : List Char} (hne : word ≠ []) (hword : word.all plain = true)
    (line : List Char) : split (word ++ ' ' :: line) = (split line).map (word :: ·) := by
  cases word with
  | nil => exact absurd rfl hne
  | cons c word =>
    rw [List.all_cons,Bool.and_eq_true] at hword
    rw [split,List.cons_append,words_plain_cons (.inl rfl) hword.1,words_plain hword.2,words_space]
    rfl

def escapeDouble (c : Char) : List Char := if c = '\\' ∨ c = '"' then ['\\',c] else [c]

/-- Text in which something is expanded between double quotes, or that cannot be passed on. -/
def expands : List Char → Bool
  | [] => false
  | c :: text => c = '\x60' || c = '\x00' || (c = '$' && startsExpansion text) || expands text

theorem startsExpansion_flatMap (text line : List Char) :
    startsExpansion (text.flatMap escapeDouble ++ '"' :: line) = startsExpansion text := by
  cases text with
  | nil => rfl
  | cons c text =>
    rw [List.flatMap_cons,escapeDouble]
    by_cases hc : c = '\\' ∨ c = '"'
    · rw [if_pos hc]
      rcases hc with rfl | rfl <;> rfl
    · rw [if_neg hc]
      rfl

/-- Text between double quotes, escaped, is read back unless something in it is expanded. -/
theorem words_double (text read line : List Char) :
    words .double read (text.flatMap escapeDouble ++ '"' :: line) =
      if expands text then none else words .word (read ++ text) line := by
  induction text generalizing read with
  | nil => simp [words,expands]
  | cons c text ih =>
    have hstart := startsExpansion_flatMap text line
    rw [List.flatMap_cons,List.append_assoc,escapeDouble,expands]
    by_cases hescaped : c = '\\' ∨ c = '"'
    · have hread : words .double read ('\\' :: c :: (text.flatMap escapeDouble ++ '"' :: line)) =
          words .double (read ++ [c]) (text.flatMap escapeDouble ++ '"' :: line) := by
        rcases hescaped with rfl | rfl <;> simp [words]
      have hkept : (decide (c = '\x60') || decide (c = '\x00') ||
          (decide (c = '$') && startsExpansion text) || expands text) = expands text := by
        rcases hescaped with rfl | rfl <;> simp
      rw [if_pos hescaped,hkept]
      refine hread.trans ((ih _).trans ?_)
      rw [List.append_assoc]
      rfl
    · rw [if_neg hescaped]
      rw [not_or] at hescaped
      obtain ⟨hbackslash,hquote⟩ := hescaped
      have hread : words .double read (c :: (text.flatMap escapeDouble ++ '"' :: line)) =
          if c = '$' then
            if startsExpansion text then none
            else words .double (read ++ ['$']) (text.flatMap escapeDouble ++ '"' :: line)
          else if c ∈ ['\x60','\x00','\\'] then none
          else words .double (read ++ [c]) (text.flatMap escapeDouble ++ '"' :: line) := by
        rw [words]
        · rw [if_neg hquote,hstart]
        · exact fun d line' h => absurd h hbackslash
      refine hread.trans ?_
      by_cases hdollar : c = '$'
      · subst hdollar
        rw [if_pos rfl,ih]
        by_cases hexpands : startsExpansion text = true
        · simp [hexpands]
        · rw [Bool.not_eq_true] at hexpands
          simp [hexpands]
      · rw [if_neg hdollar,ih]
        by_cases hbad : c = '\x60' ∨ c = '\x00'
        · rcases hbad with rfl | rfl <;> simp
        · rw [not_or] at hbad
          simp [hbad,hdollar,hbackslash]

/-- A character in single quotes, where a single quote is put between double quotes. -/
def escapeSingle (c : Char) : List Char := if c = '\'' then "'\"'\"'".toList else [c]

/-- Text in single quotes is read back when it has no null character. -/
theorem words_single (text read line : List Char) :
    words .single read (text.flatMap escapeSingle ++ '\'' :: line) =
      if '\x00' ∈ text then none else words .word (read ++ text) line := by
  induction text generalizing read with
  | nil => simp [words]
  | cons c text ih =>
    rw [List.flatMap_cons,List.append_assoc,escapeSingle]
    by_cases hquote : c = '\''
    · subst hquote
      have hread : words .single read ("'\"'\"'".toList ++
          (text.flatMap escapeSingle ++ '\'' :: line)) =
          words .single (read ++ ['\'']) (text.flatMap escapeSingle ++ '\'' :: line) := by
        simp [words]
      rw [if_pos rfl,hread,ih]
      simp
    · rw [if_neg hquote]
      have hread : words .single read (c :: (text.flatMap escapeSingle ++ '\'' :: line)) =
          if c = '\x00' then none
          else words .single (read ++ [c]) (text.flatMap escapeSingle ++ '\'' :: line) := by
        rw [words,if_neg hquote]
      refine hread.trans ?_
      rw [ih]
      by_cases hnull : c = '\x00'
      · simp [hnull]
      · simp [hnull,Ne.symm hnull]

/-- The characters that end a word outside of quotes, or that stand for more than themselves there
wherever they are. -/
def special : List Char := "|&;<>()\x60\\\"'*?\n".toList ++ ['\x00']

/-- Text behind the start of a word that stands for itself: there is no `$` that starts an expansion, and
no bracket or brace that is closed. -/
def literal : List Char → Bool
  | [] => true
  | c :: word => c ∉ special && !(c = '$' && startsExpansion word) && !(c = '[' && ']' ∈ word) &&
      !(c = '\x7b' && '\x7d' ∈ word) && literal word

def literalWord (word : List Char) : Bool :=
  word.head? ≠ some '#' && word.head? ≠ some '~' && literal word

def blank (c : Char) : Bool := c = ' ' || c = '\t'

/-- The words of a line in which nothing is quoted; `none` when one of them does not stand for itself. -/
def literalWords (line : List Char) : Option (List (List Char)) :=
  if (Words.split blank line).all literalWord then some (Words.split blank line) else none

theorem literal_append {word : List Char} (hword : word.all plain = true) (text : List Char) :
    literal (word ++ text) = literal text := by
  induction word with
  | nil => rfl
  | cons c word ih =>
    rw [List.all_cons,Bool.and_eq_true] at hword
    have hspecial : c ∉ special := fun hc => absurd hword.1 (by
      have hall : special.all (fun d => !plain d) = true := by decide
      simpa using List.all_eq_true.mp hall c hc)
    have hother : c ≠ '$' ∧ c ≠ '[' ∧ c ≠ '\x7b' := by
      refine ⟨?_,?_,?_⟩ <;> rintro rfl <;> exact absurd hword.1 (by decide)
    rw [List.cons_append,literal,ih hword.2]
    simp [hspecial,hother]

/-- The last character of a word stands for itself when it is not special. -/
theorem literal_singleton (c : Char) : literal [c] = decide (c ∉ special) := by
  by_cases hc : c ∈ special <;> simp [literal,startsExpansion,hc]

/-- The end of a word behind text that stands for itself. -/
theorem literalWord_append {front : List Char} (hfront : front.all plain = true) (text : List Char) :
    literalWord (front ++ text) = if front = [] then literalWord text else literal text := by
  cases front with
  | nil => rfl
  | cons c front =>
    rw [if_neg (List.cons_ne_nil _ _),literalWord,literal_append hfront]
    rw [List.all_cons,Bool.and_eq_true] at hfront
    have hcomment : c ≠ '#' ∧ c ≠ '~' := by
      refine ⟨?_,?_⟩ <;> rintro rfl <;> exact absurd hfront.1 (by decide)
    simp [hcomment]

end Shell
end DockyardRL
