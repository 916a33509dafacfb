import DockyardRL.Lib.Text
import DockyardRL.Lib.Tiling
import Mathlib.Algebra.Order.Ring.Int
import Mathlib.Data.List.DropRight

/-! Canonical surface forms of tokens. Tokens that spell one character between them are merged, and
each canonical token keeps the range of original tokens it was built from.

The ranges of a canonicalized sequence partition the positions of the original one. -/
namespace DockyardRL
namespace XToken

section

open Text Tiling

abbrev Token := List Char

abbrev Range := ℤ × ℤ

/-- `VISUAL_BYTE_MAP`. -/
def visualByteMap : List (Char × ℕ) :=
  [('ð',240), ('Ɩ',241), ('Ɨ',242), ('Ƙ',243), ('ƙ',244), ('ƚ',245), ('ƛ',246),
   ('Ɯ',247), ('Ɲ',248), ('ƞ',249), ('Ɵ',250), ('Ơ',251), ('ơ',252), ('Ƣ',253),
   ('ƣ',254), ('Ƥ',255), ('Ł',156), ('ł',157), ('Ń',158), ('ń',159), ('ĺ',149),
   ('Ļ',150), ('ļ',151), ('Ľ',152), ('ľ',153), ('Ŀ',154), ('ŀ',155), ('Ĭ',135),
   ('ĭ',136), ('Į',137), ('į',138), ('İ',139), ('ı',140), ('Ĳ',141), ('ĳ',142),
   ('Ĵ',143), ('ĵ',144), ('Ķ',145), ('ķ',146), ('ĸ',147), ('Ĺ',148), ('ĥ',128),
   ('Ħ',129), ('ħ',130), ('Ĩ',131), ('ĩ',132), ('Ī',133), ('ī',134), ('Ģ',162),
   ('ģ',163), ('Ĝ',28), ('ĝ',29), ('Ğ',30), ('ğ',31)]

/-- `_MULTI_TOKEN_ARTIFACT_FIXES`. -/
def multiTokenArtifactFixes : List (List String × List String) :=
  [(["ĠâĪ","ĳ"],["Ġ∑"]), (["âĪ","ĳ"],["∑"]), (["ĠâĪ","ı"],["Ġ∏"]),
   (["âĪ","ı"],["∏"]), (["ĠâĪ","Ĥ"],["Ġ∂"]), (["âĪ","Ĥ"],["∂"]),
   (["ĠâĪ","ĩ"],["Ġ∇"]), (["âĪ","ĩ"],["∇"]), (["ĠâĪ","ŀ"],["Ġ∞"]),
   (["âĪ","ŀ"],["∞"]), (["ĠâĪ","ļ"],["Ġ√"]), (["âĪ","ļ"],["√"]),
   (["ĠâĪ","«"],["Ġ∫"]), (["âĪ","«"],["∫"]), (["Ġâī","ł"],["Ġ≠"]),
   (["âī","ł"],["≠"]), (["Ġä¸","Ń"],["Ġ中"]), (["ä¸","Ń"],["中"]),
   (["æĸ","ĩ"],["文"]), (["Ġæĸ","ĩ"],["Ġ文"])]

/-- `_UNICODE_FIXES`, in the order in which they are applied. -/
def unicodeFixes : List (String × String) :=
  [("Ã±","ñ"), ("Ã¡","á"), ("Ã©","é"), ("Ã\u00ad","í"), ("Ã³","ó"),
   ("Ãº","ú"), ("Ã","À"), ("Ã¢","â"), ("Ã§","ç"), ("Ã¨","è"),
   ("Ã«","ë"), ("Ã®","î"), ("Ã´","ô"), ("Ã¹","ù"), ("Ã»","û"),
   ("Ã¿","ÿ"), ("ä¸Ń","中"), ("æĸĩ","文"), ("æĹ¥æľ¬","日本"), ("èªŀ","語"),
   ("ÐłÑĥÑģ","Рус"), ("ÑģÐºÐ¸Ð¹","ский"), ("Ø§ÙĦØ¹Ø±Ø¨ÙĬØ©","العربية"), ("à¤¹","ह"), ("à¤¿à¤Ĥ","हिं"),
   ("à¤¦à¥Ģ","दी"), ("âĪĳ","∑"), ("âĪı","∏"), ("âĪĤ","∂"), ("âĪĩ","∇"),
   ("âĪŀ","∞"), ("âĪļ","√"), ("âĪ«","∫"), ("âīĪ","≈"), ("âīł","≠"),
   ("âī¤","≤"), ("âī¥","≥")]

/-- `_SPECIAL_TOKEN_MAP`. -/
def specialTokenMap : List (String × String) :=
  [("<|begin_of_text|>","<bos>"), ("<bos>","<bos>"), ("<pad>","")]

def decimalZeros : List ℕ :=
  [0x30, 0x660, 0x6f0, 0x7c0, 0x966, 0x9e6, 0xa66, 0xae6, 0xb66, 0xbe6,
   0xc66, 0xce6, 0xd66, 0xde6, 0xe50, 0xed0, 0xf20, 0x1040, 0x1090, 0x17e0,
   0x1810, 0x1946, 0x19d0, 0x1a80, 0x1a90, 0x1b50, 0x1bb0, 0x1c40, 0x1c50, 0xa620,
   0xa8d0, 0xa900, 0xa9d0, 0xa9f0, 0xaa50, 0xabf0, 0xff10, 0x104a0, 0x10d30, 0x11066,
   0x110f0, 0x11136, 0x111d0, 0x112f0, 0x11450, 0x114d0, 0x11650, 0x116c0, 0x11730, 0x118e0,
   0x11950, 0x11c50, 0x11d50, 0x11da0, 0x11f50, 0x16a60, 0x16ac0, 0x16b50, 0x1d7ce, 0x1d7d8,
   0x1d7e2, 0x1d7ec, 0x1d7f6, 0x1e140, 0x1e2f0, 0x1e4f0, 0x1e950, 0x1fbf0]

/-- What `int` strips. The separators from U+001C to U+001F are not among it. -/
def whitespace : List ℕ :=
  [0x9, 0xa, 0xb, 0xc, 0xd, 0x20, 0x85, 0xa0, 0x1680, 0x2000, 0x2001, 0x2002,
   0x2003, 0x2004, 0x2005, 0x2006, 0x2007, 0x2008, 0x2009, 0x200a, 0x2028, 0x2029, 0x202f, 0x205f, 0x3000]

def hexDigit (c : Char) : Option ℕ :=
  if 'a' ≤ c ∧ c ≤ 'f' then some (c.toNat - 'a'.toNat + 10)
  else if 'A' ≤ c ∧ c ≤ 'F' then some (c.toNat - 'A'.toNat + 10)
  else (decimalZeros.find? fun base => base ≤ c.toNat ∧ c.toNat < base + 10).map (c.toNat - ·)

/-- `int(text, 16)` for a text of at most two characters; `none` is `ValueError`. -/
def intBase16 (text : List Char) : Option ℤ :=
  let isSpace := fun c : Char => decide (c.toNat ∈ whitespace)
  match (text.dropWhile isSpace).rdropWhile isSpace with
  | [a] => (hexDigit a).map fun d => (d : ℤ)
  | ['+',a] => (hexDigit a).map fun d => (d : ℤ)
  | ['-',a] => (hexDigit a).map fun d => -(d : ℤ)
  | [a,b] => (hexDigit a).bind fun d => (hexDigit b).map fun e => ((16 * d + e : ℕ) : ℤ)
  | _ => none

def normalizeSpacePrefix : Token → Token
  | ' ' :: rest => 'Ġ' :: rest
  | '_' :: rest => 'Ġ' :: rest
  | '▁' :: rest => 'Ġ' :: rest
  | token => token

def normalizeNewlines (token : Token) : Token :=
  if token = ['Ċ'] then ['\n']
  else if token = ['\\','n'] then ['\n']
  else if token = ['ĉ'] then ['\n']
  else if token = ['Ġ','\n'] then ['\n']
  else if 'Ċ' ∈ token then replaceAll ['Ċ'] ['\n'] token
  else if ['\\','n'] <:+: token then replaceAll ['\\','n'] ['\n'] token
  else token

def normalizePunctuation (token : Token) : Token :=
  if token = ['Ġ',','] then [',']
  else if token = ['Ġ','.'] then ['.']
  else if token = ['Ġ',';'] then [';']
  else if token = ['Ġ',':'] then [':']
  else token

/-- The byte of a fallback token such as `<0x20>`. -/
def byteFallback (token : Token) : Option Char :=
  if "<0x".toList <+: token ∧ ">".toList <:+ token ∧ token.length = 6 then
    match intBase16 ((token.drop 3).take 2) with
    | some v => if 0 ≤ v ∧ v ≤ 255 then some (Char.ofNat v.toNat) else none
    | none => none
  else none

def applyUnicodeFixes (token : Token) : Token :=
  unicodeFixes.foldl (fun token fix =>
    if fix.1.toList <:+: token then replaceAll fix.1.toList fix.2.toList token else token) token

def canonicalToken (token : Token) : Token :=
  if token = [] then token
  else
    let token := normalizePunctuation (normalizeNewlines (normalizeSpacePrefix token))
    match byteFallback token with
    | some c => [c]
    | none =>
      let token := applyUnicodeFixes token
      match specialTokenMap.find? fun special => special.1.toList = token with
      | some special => special.2.toList
      | none => token

/-- `_merge_encoding_artifacts` from position `i` on; `none` is the failed assertion. -/
def mergeArtifactsFrom : ℕ → ℤ → List Token → Option (List Token × List Range)
  | 0, _, _ => some ([],[])
  | _, _, [] => some ([],[])
  | fuel + 1, i, token :: rest =>
    match multiTokenArtifactFixes.find? fun fix => fix.1.map String.toList <+: token :: rest with
    | some (pattern,replacement) =>
      if replacement.length = 1 then
        (mergeArtifactsFrom fuel (i + pattern.length) ((token :: rest).drop pattern.length)).map
          fun out => (replacement.map String.toList ++ out.1,(i,i + pattern.length) :: out.2)
      else none
    | none => (mergeArtifactsFrom fuel (i + 1) rest).map
        fun out => (token :: out.1,(i,i + 1) :: out.2)

def mergeEncodingArtifacts (tokens : List Token) : Option (List Token × List Range) :=
  mergeArtifactsFrom tokens.length 0 tokens

def getByteValue (tokenChar : Char) : Option ℕ :=
  if tokenChar.toNat < 256 then some tokenChar.toNat else visualByteMap.lookup tokenChar

/-- `token.lstrip("Ġ")`. -/
def clean (token : Token) : Token := token.dropWhile (· = 'Ġ')

def isByteToken (token : Token) : Bool :=
  clean token ≠ [] && (clean token).all fun c => (getByteValue c).isSome

/-- One character of strict UTF-8 after a lead byte: `n` continuation bytes that carry at
least the code point `least`. -/
def utf8Scalar (lead n least : ℕ) (rest : List ℕ) : Option (Char × List ℕ) :=
  let tail := rest.take n
  let point := tail.foldl (fun acc b => acc * 64 + (b - 0x80)) lead
  if tail.length = n ∧ (∀ b ∈ tail, 0x80 ≤ b ∧ b < 0xC0) ∧ least ≤ point ∧ point.isValidChar then
    some (Char.ofNat point,rest.drop n)
  else none

def utf8Head : List ℕ → Option (Char × List ℕ)
  | [] => none
  | b :: rest =>
    if b < 0x80 then some (Char.ofNat b,rest)
    else if 0xC2 ≤ b ∧ b < 0xE0 then utf8Scalar (b - 0xC0) 1 0x80 rest
    else if 0xE0 ≤ b ∧ b < 0xF0 then utf8Scalar (b - 0xE0) 2 0x800 rest
    else if 0xF0 ≤ b ∧ b < 0xF5 then utf8Scalar (b - 0xF0) 3 0x10000 rest
    else none

/-- `bytes(raw).decode("utf-8")`; `none` is `UnicodeDecodeError`. -/
def utf8Decode : ℕ → List ℕ → Option (List Char)
  | _, [] => some []
  | 0, _ => none
  | fuel + 1, raw =>
    (utf8Head raw).bind fun head => (utf8Decode fuel head.2).map (head.1 :: ·)

/-- The single character beyond ASCII that the buffered tokens spell. -/
def decodeByteTokens (byteTokens : List Token) : Option Char :=
  match (byteTokens.flatMap clean).mapM getByteValue with
  | none => none
  | some rawBytes =>
    if rawBytes.length < 2 ∨ 4 < rawBytes.length then none
    else match utf8Decode rawBytes.length rawBytes with
      | some [c] => if 127 < c.toNat then some c else none
      | _ => none

/-- `_try_merge_byte_buffer`; `none` is `IndexError`. -/
def tryMergeByteBuffer (byteTokens : List Token) (byteRanges : List Range) :
    Option (List Token × List Range) :=
  match byteTokens with
  | [] => some ([],[])
  | first :: more =>
    if more = [] ∧ (clean first).length ≤ 1 then some (byteTokens,byteRanges)
    else match decodeByteTokens byteTokens with
      | none => some (byteTokens,byteRanges)
      | some c =>
        let spacePrefix := if ['Ġ'] <+: first then ['Ġ'] else []
        byteRanges.head?.bind fun start => byteRanges.getLast?.map fun stop =>
          ([spacePrefix ++ [c]],[(start.1,stop.2)])

/-- The loop of `_merge_consecutive_bytes`, with the buffer and its ranges. -/
def mergeBytesFrom : List Token → List Range → List (Token × Range) → Option (List Token × List Range)
  | buffer, ranges, [] => tryMergeByteBuffer buffer ranges
  | buffer, ranges, (token,range) :: rest =>
    if isByteToken token then mergeBytesFrom (buffer ++ [token]) (ranges ++ [range]) rest
    else
      (tryMergeByteBuffer buffer ranges).bind fun merged =>
        (mergeBytesFrom [] [] rest).map fun out =>
          (merged.1 ++ token :: out.1,merged.2 ++ range :: out.2)

/-- `_merge_consecutive_bytes`; the lengths of the two lists are asserted to agree. -/
def mergeConsecutiveBytes (tokens : List Token) (inRanges : List Range) :
    Option (List Token × List Range) :=
  if tokens = [] then some ([],[])
  else if tokens.length = inRanges.length then mergeBytesFrom [] [] (tokens.zip inRanges)
  else none

def canonicalizeSequence (seq : List Token) : Option (List Token × List Range) :=
  (mergeEncodingArtifacts seq).bind fun merged =>
    mergeConsecutiveBytes (merged.1.map canonicalToken) merged.2

end

open Tiling

/-- One range a token, and the ranges lie end to end. -/
structure Ranged (a : ℤ) (tokens : List Token) (ranges : List Range) (b : ℤ) : Prop where
  length_eq : tokens.length = ranges.length
  tiles : Tiles a (ranges.map some) b

variable {a b c : ℤ} {tokens more : List Token} {ranges moreRanges : List Range}

theorem Ranged.nil : Ranged a [] [] a := ⟨rfl,rfl⟩

theorem Ranged.append (h : Ranged a tokens ranges b) (h' : Ranged b more moreRanges c) :
    Ranged a (tokens ++ more) (ranges ++ moreRanges) c := by
  have hlength : (tokens ++ more).length = (ranges ++ moreRanges).length := by
    rw [List.length_append,List.length_append,h.length_eq,h'.length_eq]
  have htiles : Tiles a ((ranges ++ moreRanges).map some) c := by
    rw [List.map_append]
    exact tiles_append.mpr ⟨b,h.tiles,h'.tiles⟩
  exact ⟨hlength,htiles⟩

theorem Ranged.single {token : Token} (h : a < b) : Ranged a [token] [(a,b)] b :=
  ⟨rfl,rfl,h,rfl⟩

theorem artifact_fix_shape :
    ∀ fix ∈ multiTokenArtifactFixes, fix.1.length = 2 ∧ fix.2.length = 1 := by
  decide

theorem mergeArtifactsFrom_ranged {fuel : ℕ} {i : ℤ} (hfuel : tokens.length ≤ fuel) :
    ∃ merged out, mergeArtifactsFrom fuel i tokens = some (merged,out) ∧
      Ranged i merged out (i + tokens.length) := by
  induction fuel generalizing i tokens with
  | zero =>
    have hnil : tokens = [] := List.length_eq_zero_iff.mp (Nat.le_zero.mp hfuel)
    subst hnil
    exact ⟨[],[],rfl,by simpa using Ranged.nil⟩
  | succ fuel ih =>
    cases tokens with
    | nil => exact ⟨[],[],rfl,by simpa using Ranged.nil⟩
    | cons token rest =>
      have hrest : rest.length ≤ fuel := Nat.le_of_succ_le_succ hfuel
      rw [mergeArtifactsFrom]
      cases hfind : multiTokenArtifactFixes.find? fun fix =>
          decide (fix.1.map String.toList <+: token :: rest) with
      | none =>
        obtain ⟨merged,out,heq,hout⟩ := ih (i := i + 1) hrest
        refine ⟨token :: merged,(i,i + 1) :: out,by simp [heq],?_⟩
        have hend : i + ((token :: rest).length : ℤ) = i + 1 + rest.length := by
          rw [List.length_cons]
          omega
        rw [hend]
        exact (Ranged.single (by omega)).append hout
      | some fix =>
        obtain ⟨pattern,replacement⟩ := fix
        obtain ⟨hpattern,hreplacement⟩ := artifact_fix_shape _ (List.mem_of_find?_eq_some hfind)
        have hmatch := List.find?_some hfind
        have hle := (of_decide_eq_true hmatch).length_le
        simp only [List.length_map,List.length_cons] at hpattern hreplacement hle
        obtain ⟨fixed,hfixed⟩ := List.length_eq_one_iff.mp hreplacement
        have hdrop : ((token :: rest).drop pattern.length).length ≤ fuel := by
          rw [List.length_drop,List.length_cons]
          omega
        obtain ⟨merged,out,heq,hout⟩ := ih (i := i + pattern.length) hdrop
        refine ⟨fixed.toList :: merged,(i,i + pattern.length) :: out,by simp [heq,hfixed],?_⟩
        have hend : i + ((token :: rest).length : ℤ) =
            i + pattern.length + ((token :: rest).drop pattern.length).length := by
          rw [List.length_drop,List.length_cons]
          omega
        rw [hend]
        exact (Ranged.single (by omega)).append hout

theorem tryMergeByteBuffer_ranged (h : Ranged a tokens ranges b) :
    ∃ merged out, tryMergeByteBuffer tokens ranges = some (merged,out) ∧
      Ranged a merged out b := by
  cases tokens with
  | nil =>
    have hnil : ranges = [] := List.length_eq_zero_iff.mp h.length_eq.symm
    exact ⟨[],[],rfl,hnil ▸ h⟩
  | cons first rest =>
    rw [tryMergeByteBuffer]
    split
    · exact ⟨_,_,rfl,h⟩
    · cases decodeByteTokens (first :: rest) with
      | none => exact ⟨_,_,rfl,h⟩
      | some char =>
        have hne : ranges ≠ [] := fun hnil => by simpa [hnil] using h.length_eq
        have hfirst := List.head?_eq_some_head hne
        have hlast := List.getLast?_eq_some_getLast hne
        obtain ⟨hstart,hstop,hlt⟩ := tiles_ends h.tiles hfirst hlast
        let spacePrefix := if ['Ġ'] <+: first then ['Ġ'] else []
        have hmerge : (ranges.head?.bind fun start => ranges.getLast?.map fun stop =>
            ([spacePrefix ++ [char]],[(start.1,stop.2)])) = some ([spacePrefix ++ [char]],[(a,b)]) := by
          rw [hfirst,hlast,Option.bind_some,Option.map_some,hstart,hstop]
        exact ⟨_,_,hmerge,Ranged.single hlt⟩

theorem mergeBytesFrom_ranged {buffer rest : List Token} {bufferRanges restRanges : List Range}
    (hbuffer : Ranged a buffer bufferRanges b) (hrest : Ranged b rest restRanges c) :
    ∃ merged out, mergeBytesFrom buffer bufferRanges (rest.zip restRanges) = some (merged,out) ∧
      Ranged a merged out c := by
  induction rest generalizing a b buffer bufferRanges restRanges with
  | nil =>
    have hnil : restRanges = [] := List.length_eq_zero_iff.mp hrest.length_eq.symm
    subst hnil
    have hend : b = c := hrest.tiles
    exact tryMergeByteBuffer_ranged (hend ▸ hbuffer)
  | cons token rest ih =>
    cases restRanges with
    | nil => exact absurd hrest.length_eq (by simp)
    | cons range restRanges =>
      obtain ⟨hstart,hlt,htiles⟩ := hrest.tiles
      have hone : Ranged b [token] [range] range.2 := by
        have hrange : range = (b,range.2) := Prod.ext hstart rfl
        rw [hrange]
        exact Ranged.single hlt
      have htail : Ranged range.2 rest restRanges c :=
        ⟨Nat.succ.inj hrest.length_eq,htiles⟩
      rw [List.zip_cons_cons,mergeBytesFrom]
      by_cases hbyte : isByteToken token = true
      · rw [if_pos hbyte]
        exact ih (hbuffer.append hone) htail
      · rw [if_neg hbyte]
        obtain ⟨flushed,flushedRanges,hflush,hflushed⟩ := tryMergeByteBuffer_ranged hbuffer
        obtain ⟨merged,out,hmerge,hout⟩ := ih Ranged.nil htail
        refine ⟨flushed ++ token :: merged,flushedRanges ++ range :: out,?_,?_⟩
        · rw [hflush,Option.bind_some,hmerge,Option.map_some]
        · have hmore := hflushed.append (hone.append hout)
          simpa using hmore

/-- Every original position belongs to exactly one canonical token. -/
theorem canonicalizeSequence_ranged (seq : List Token) :
    ∃ canon canonToOrig, canonicalizeSequence seq = some (canon,canonToOrig) ∧
      Ranged 0 canon canonToOrig seq.length := by
  obtain ⟨merged,ranges,hmerge,hmerged⟩ := mergeArtifactsFrom_ranged (i := 0) (le_refl seq.length)
  have hcanon : Ranged 0 (merged.map canonicalToken) ranges seq.length :=
    ⟨by rw [List.length_map,hmerged.length_eq],by simpa using hmerged.tiles⟩
  rw [canonicalizeSequence,mergeEncodingArtifacts,hmerge,Option.bind_some,mergeConsecutiveBytes]
  by_cases hnil : merged.map canonicalToken = []
  · rw [if_pos hnil]
    have hranges : ranges = [] := by
      have hlength := hcanon.length_eq
      rw [hnil] at hlength
      exact List.length_eq_zero_iff.mp hlength.symm
    rw [hnil,hranges] at hcanon
    exact ⟨[],[],rfl,hcanon⟩
  · rw [if_neg hnil,if_pos hcanon.length_eq]
    exact mergeBytesFrom_ranged Ranged.nil hcanon

end XToken
end DockyardRL
