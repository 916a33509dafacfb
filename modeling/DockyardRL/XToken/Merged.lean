import DockyardRL.XToken.Tracing

/-! What the canonical tokens stand for that cover several original tokens: replacements of listed
artifacts, and characters decoded from bytes. -/
namespace DockyardRL
namespace XToken

open Tiling

/-- The replacement of an artifact pattern that the covered tokens are equal to. -/
def Artifact (token : Token) (originals : List Token) : Prop :=
  ∃ fix ∈ multiTokenArtifactFixes,
    originals = fix.1.map String.toList ∧ [token] = fix.2.map String.toList

/-- The character that the bytes of the covered tokens spell, after the space prefix of the first
of them. The bytes of a token are those of its canonical form without spaces in front. -/
def Decoded (token : Token) (originals : List Token) : Prop :=
  ∃ (c : Char) (rawBytes : List ℕ) (first : Token), 127 < c.toNat ∧
    ((originals.map canonicalToken).flatMap clean).mapM getByteValue = some rawBytes ∧
    utf8Decode rawBytes.length rawBytes = some [c] ∧
    (originals.map canonicalToken).head? = some first ∧
    token = (if ['Ġ'] <+: first then ['Ġ'] else []) ++ [c]

/-- A token that covers more than one position is a merged one. -/
def Explained (seq : List Token) (token : Token) (range : Range) : Prop :=
  1 < range.2 - range.1 →
    Artifact token (slice seq range.1.toNat range.2.toNat) ∨
      Decoded token (slice seq range.1.toNat range.2.toNat)

section
variable {seq tokens : List Token} {a b : ℕ}

theorem slice_self (seq : List Token) (a : ℕ) : slice seq a a = [] := by
  rw [slice,List.drop_eq_nil_iff]
  exact List.length_take_le a seq

theorem slice_succ {token : Token} (hab : a ≤ b) (hb : seq[b]? = some token) :
    slice seq a (b + 1) = slice seq a b ++ [token] := by
  obtain ⟨hlt,rfl⟩ := List.getElem?_eq_some_iff.mp hb
  have hle : a ≤ (seq.take b).length := by
    rw [List.length_take]
    omega
  rw [slice,slice,List.take_succ_eq_append_getElem hlt,List.drop_append_of_le_length hle]

theorem getElem?_of_drop {token : Token} {rest : List Token} (h : seq.drop a = token :: rest) :
    seq[a]? = some token ∧ seq.drop (a + 1) = rest := by
  refine ⟨?_,?_⟩
  · rw [← List.head?_drop,h,List.head?_cons]
  · rw [← List.drop_drop,h,List.drop_one,List.tail_cons]

theorem slice_of_prefix {pattern : List Token} (h : pattern <+: seq.drop a) :
    slice seq a (a + pattern.length) = pattern := by
  rw [slice,List.drop_take,Nat.add_sub_cancel_left]
  exact (List.prefix_iff_eq_take.mp h).symm

end

/-- Where a token of `_merge_encoding_artifacts` comes from. -/
def FromOriginal (seq : List Token) (token : Token) (range : Range) : Prop :=
  (range.2 = range.1 + 1 ∧ seq[range.1.toNat]? = some token) ∨
    Artifact token (slice seq range.1.toNat range.2.toNat)

theorem mergeArtifactsFrom_fromOriginal {seq tokens : List Token} {fuel i : ℕ}
    {merged : List Token} {ranges : List Range} (htokens : seq.drop i = tokens)
    (h : mergeArtifactsFrom fuel i tokens = some (merged,ranges)) :
    List.Forall₂ (FromOriginal seq) merged ranges := by
  induction fuel generalizing i tokens merged ranges with
  | zero =>
    cases h
    exact List.Forall₂.nil
  | succ fuel ih =>
    cases tokens with
    | nil =>
      cases h
      exact List.Forall₂.nil
    | cons token rest =>
      obtain ⟨htoken,hrest⟩ := getElem?_of_drop htokens
      rw [mergeArtifactsFrom] at h
      cases hfind : multiTokenArtifactFixes.find? fun fix =>
          decide (fix.1.map String.toList <+: token :: rest) with
      | none =>
        rw [hfind] at h
        obtain ⟨⟨more,moreRanges⟩,hmore,hout⟩ := Option.map_eq_some_iff.mp h
        cases hout
        exact List.Forall₂.cons (Or.inl ⟨rfl,htoken⟩) (ih (i := i + 1) hrest hmore)
      | some fix =>
        rw [hfind] at h
        obtain ⟨pattern,replacement⟩ := fix
        have hmem := List.mem_of_find?_eq_some hfind
        obtain ⟨-,hreplacement⟩ := artifact_fix_shape _ hmem
        obtain ⟨fixed,hfixed⟩ := List.length_eq_one_iff.mp hreplacement
        have hfound := List.find?_some hfind
        have hmatch := of_decide_eq_true hfound
        dsimp only at h hfixed hmatch
        rw [if_pos hreplacement,hfixed] at h
        obtain ⟨⟨more,moreRanges⟩,hmore,hout⟩ := Option.map_eq_some_iff.mp h
        cases hout
        have hslice : slice seq i (i + pattern.length) = pattern.map String.toList := by
          rw [← htokens] at hmatch
          have hsame := slice_of_prefix hmatch
          rwa [List.length_map] at hsame
        have hdropped : seq.drop (i + pattern.length) = (token :: rest).drop pattern.length := by
          rw [← List.drop_drop,htokens]
        refine List.Forall₂.cons (Or.inr ⟨_,hmem,hslice,?_⟩) (ih hdropped ?_)
        · rw [hfixed]
          rfl
        · exact_mod_cast hmore

theorem replacement_stays : ∀ fix ∈ multiTokenArtifactFixes, ∀ text ∈ fix.2,
    canonicalToken text.toList = text.toList ∧ isByteToken text.toList = false := by
  decide +kernel

/-- Where a canonical token comes from before bytes are merged. -/
def FromCanonical (seq : List Token) (token : Token) (range : Range) : Prop :=
  (range.2 = range.1 + 1 ∧ (seq.map canonicalToken)[range.1.toNat]? = some token) ∨
    isByteToken token = false ∧ Artifact token (slice seq range.1.toNat range.2.toNat)

theorem fromCanonical_of_fromOriginal {seq : List Token} {token : Token} {range : Range}
    (h : FromOriginal seq token range) : FromCanonical seq (canonicalToken token) range := by
  rcases h with ⟨hone,htoken⟩ | ⟨fix,hmem,hcovered,hfixed⟩
  · exact Or.inl ⟨hone,by rw [List.getElem?_map,htoken]; rfl⟩
  · obtain ⟨text,htext,rfl⟩ : ∃ text ∈ fix.2, text.toList = token := by
      rw [← List.mem_map,← hfixed]
      exact List.mem_singleton.mpr rfl
    obtain ⟨hcanon,hbyte⟩ := replacement_stays fix hmem text htext
    rw [hcanon]
    exact Or.inr ⟨hbyte,fix,hmem,hcovered,hfixed⟩

theorem FromCanonical.explained {seq : List Token} {token : Token} {range : Range}
    (h : FromCanonical seq token range) : Explained seq token range := by
  intro hwide
  rcases h with ⟨hone,-⟩ | ⟨-,hartifact⟩
  · omega
  · exact Or.inl hartifact

theorem decodeByteTokens_eq_some {byteTokens : List Token} {c : Char}
    (h : decodeByteTokens byteTokens = some c) :
    ∃ rawBytes, (byteTokens.flatMap clean).mapM getByteValue = some rawBytes ∧
      utf8Decode rawBytes.length rawBytes = some [c] ∧ 127 < c.toNat := by
  rw [decodeByteTokens] at h
  split at h
  · cases h
  · rename_i rawBytes hbytes
    split at h
    · cases h
    · split at h
      · rename_i hdecode
        split at h
        · rename_i hlarge
          cases h
          exact ⟨rawBytes,hbytes,hdecode,hlarge⟩
        · cases h
      · cases h

/-- The buffer holds the canonical forms of the original tokens from `a` to `b`, one a range. -/
structure Buffered (seq : List Token) (a b : ℕ) (buffer : List Token) (ranges : List Range) : Prop where
  le : a ≤ b
  tokens : buffer = (slice seq a b).map canonicalToken
  ranged : Ranged (a : ℤ) buffer ranges (b : ℤ)
  single : ∀ range ∈ ranges, range.2 = range.1 + 1

section
variable {seq buffer : List Token} {ranges : List Range} {a b : ℕ}

theorem Buffered.empty (seq : List Token) (b : ℕ) : Buffered seq b b [] [] :=
  ⟨le_rfl,by rw [slice_self]; rfl,Ranged.nil,by simp⟩

theorem Buffered.push (h : Buffered seq a b buffer ranges) {token : Token}
    (htoken : (seq.map canonicalToken)[b]? = some token) :
    Buffered seq a (b + 1) (buffer ++ [token]) (ranges ++ [((b : ℤ),(b : ℤ) + 1)]) := by
  rw [List.getElem?_map] at htoken
  obtain ⟨original,hget,rfl⟩ := Option.map_eq_some_iff.mp htoken
  have hle := h.le
  refine ⟨by omega,?_,?_,fun range hrange => ?_⟩
  · rw [slice_succ h.le hget,List.map_append,h.tokens]
    rfl
  · push_cast
    exact h.ranged.append (Ranged.single (by omega))
  · rcases List.mem_append.mp hrange with hrange | hrange
    · exact h.single range hrange
    · rw [List.mem_singleton.mp hrange]

theorem Buffered.flush (h : Buffered seq a b buffer ranges) {merged : List Token} {out : List Range}
    (hflush : tryMergeByteBuffer buffer ranges = some (merged,out)) :
    List.Forall₂ (Explained seq) merged out := by
  have hunchanged : List.Forall₂ (Explained seq) buffer ranges := by
    have hlength := h.ranged.length_eq
    refine List.forall₂_iff_zip.mpr ⟨hlength,fun {token range} hmem hwide => ?_⟩
    have hone := h.single range (List.of_mem_zip hmem).2
    omega
  cases buffer with
  | nil =>
    cases hflush
    exact List.Forall₂.nil
  | cons first rest =>
    rw [tryMergeByteBuffer] at hflush
    split at hflush
    · cases hflush
      exact hunchanged
    · cases hdecode : decodeByteTokens (first :: rest) with
      | none =>
        rw [hdecode] at hflush
        cases hflush
        exact hunchanged
      | some c =>
        rw [hdecode] at hflush
        have hne : ranges ≠ [] := fun hnil => by
          have hlength := h.ranged.length_eq
          rw [hnil] at hlength
          cases hlength
        have hhead := List.head?_eq_some_head hne
        have hlast := List.getLast?_eq_some_getLast hne
        obtain ⟨hstart,hstop,hlt⟩ := tiles_ends h.ranged.tiles hhead hlast
        dsimp only at hflush
        rw [hhead,hlast,Option.bind_some,Option.map_some,hstart,hstop] at hflush
        cases hflush
        obtain ⟨rawBytes,hbytes,hspells,hlarge⟩ := decodeByteTokens_eq_some hdecode
        rw [h.tokens] at hbytes
        refine List.Forall₂.cons (fun _ => Or.inr ?_) List.Forall₂.nil
        rw [Int.toNat_natCast,Int.toNat_natCast]
        exact ⟨c,rawBytes,first,hlarge,hbytes,hspells,by rw [← h.tokens]; rfl,rfl⟩

theorem mergeBytesFrom_explained {n : ℤ} {rest merged : List Token} {restRanges out : List Range}
    (hbuffer : Buffered seq a b buffer ranges) (hrest : Ranged (b : ℤ) rest restRanges n)
    (hfrom : List.Forall₂ (FromCanonical seq) rest restRanges)
    (h : mergeBytesFrom buffer ranges (rest.zip restRanges) = some (merged,out)) :
    List.Forall₂ (Explained seq) merged out := by
  induction rest generalizing a b buffer ranges restRanges merged out with
  | nil => exact hbuffer.flush h
  | cons token rest ih =>
    cases restRanges with
    | nil => cases hfrom
    | cons range restRanges =>
      obtain ⟨htoken,hmore⟩ := List.forall₂_cons.mp hfrom
      obtain ⟨hstart,hlt,htiles⟩ := hrest.tiles
      have hend : range = ((b : ℤ),((range.2.toNat : ℕ) : ℤ)) := Prod.ext hstart (by dsimp only; omega)
      have htail : Ranged ((range.2.toNat : ℕ) : ℤ) rest restRanges n := by
        rw [Int.toNat_of_nonneg (by omega)]
        exact ⟨Nat.succ.inj hrest.length_eq,htiles⟩
      rw [List.zip_cons_cons,mergeBytesFrom] at h
      by_cases hbyte : isByteToken token = true
      · rw [if_pos hbyte] at h
        rcases htoken with ⟨hone,horiginal⟩ | ⟨hno,-⟩
        · have hnext : range.2.toNat = b + 1 := by omega
          rw [hstart,Int.toNat_natCast] at horiginal
          rw [hnext] at hend htail
          have hpush := hbuffer.push horiginal
          rw [← Nat.cast_succ,← hend] at hpush
          exact ih hpush htail hmore h
        · rw [hno] at hbyte
          cases hbyte
      · rw [if_neg hbyte] at h
        obtain ⟨⟨flushed,flushedRanges⟩,hflush,hafter⟩ := Option.bind_eq_some_iff.mp h
        obtain ⟨⟨more,moreRanges⟩,hrun,hout⟩ := Option.map_eq_some_iff.mp hafter
        cases hout
        have hrestOut := ih (Buffered.empty seq _) htail hmore hrun
        exact List.rel_append (hbuffer.flush hflush) (List.Forall₂.cons htoken.explained hrestOut)

end

theorem canonicalized_explained {seq canon : List Token} {canonToOrig : List Range}
    (h : canonicalizeSequence seq = some (canon,canonToOrig)) :
    List.Forall₂ (Explained seq) canon canonToOrig := by
  obtain ⟨⟨merged,ranges⟩,hmerge,hbytes⟩ := Option.bind_eq_some_iff.mp h
  obtain ⟨merged',ranges',hmerge',hranged⟩ :=
    mergeArtifactsFrom_ranged (i := ((0 : ℕ) : ℤ)) (le_refl seq.length)
  have hsame : some (merged,ranges) = some (merged',ranges') := hmerge.symm.trans hmerge'
  cases hsame
  have hfrom : List.Forall₂ (FromCanonical seq) (merged.map canonicalToken) ranges := by
    rw [List.forall₂_map_left_iff]
    exact (mergeArtifactsFrom_fromOriginal (i := 0) rfl hmerge').imp
      fun _ _ => fromCanonical_of_fromOriginal
  have hcanon : Ranged ((0 : ℕ) : ℤ) (merged.map canonicalToken) ranges
      (((0 : ℕ) : ℤ) + seq.length) :=
    ⟨by rw [List.length_map,hranged.length_eq],hranged.tiles⟩
  rw [mergeConsecutiveBytes] at hbytes
  split_ifs at hbytes
  · cases hbytes
    exact List.Forall₂.nil
  · exact mergeBytesFrom_explained (Buffered.empty seq 0) hcanon hfrom hbytes

/-- Canonicalizing gives one range a token; the ranges are not empty and lie end to end over the
sequence, so that every position belongs to one token; and a token over several positions is an
artifact's replacement or a decoded character. -/
theorem canonicalizeSequence_explained (seq : List Token) :
    ∃ canon canonToOrig, canonicalizeSequence seq = some (canon,canonToOrig) ∧
      canon.length = canonToOrig.length ∧ Tiles (0 : ℤ) (canonToOrig.map some) (seq.length : ℤ) ∧
      (∀ x : ℕ, x < seq.length → ∃! k : ℕ, Covers (canonToOrig.map some) k (x : ℤ)) ∧
      ∀ (k : ℕ) (token : Token) (start stop : ℤ), canon[k]? = some token →
        canonToOrig[k]? = some (start,stop) → 1 < stop - start →
        Artifact token (slice seq start.toNat stop.toNat) ∨
          Decoded token (slice seq start.toNat stop.toNat) := by
  obtain ⟨canon,canonToOrig,hcanon,hranged⟩ := canonicalizeSequence_ranged seq
  refine ⟨canon,canonToOrig,hcanon,hranged.length_eq,hranged.tiles,fun x hx => ?_,?_⟩
  · obtain ⟨k,hk⟩ := exists_covers hranged.tiles (Int.natCast_nonneg x) (Int.ofNat_lt.mpr hx)
    exact ⟨k,hk,fun j hj => covers_unique hranged.tiles hj hk⟩
  · intro k token start stop htoken hrange
    obtain ⟨hk,rfl⟩ := List.getElem?_eq_some_iff.mp htoken
    obtain ⟨hk',hrange⟩ := List.getElem?_eq_some_iff.mp hrange
    have hk := (List.forall₂_iff_get.mp (canonicalized_explained hcanon)).2 k hk hk'
    rw [List.get_eq_getElem,List.get_eq_getElem,hrange] at hk
    exact hk

end XToken
end DockyardRL
