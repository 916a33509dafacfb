import DockyardRL.Lib.NdArray
import Mathlib.Data.Int.Log
import Mathlib.Data.Rat.Floor
import Mathlib.Tactic.Linarith

/-! The block-wise cast of weights to FP8. The last rounding is left out: a value that the format
bounds is what is stored. -/
namespace DockyardRL
namespace Fp8

/-- The e4m3 encodings of the devices. -/
inductive Fp8Dtype
  | e4m3fn
  | e4m3fnuz
  deriving DecidableEq, Repr

/-- `torch.finfo(fp8_dtype).max`. -/
def Fp8Dtype.finfoMax : Fp8Dtype → ℚ
  | .e4m3fn => 448
  | .e4m3fnuz => 240

inductive CastError
  /-- `"Only 2d input tensor is supported"`. -/
  | not2d (shape : List ℕ)
  /-- The sides of a block differ. -/
  | blockSize (blockSize0 blockSize1 : ℕ)
  deriving DecidableEq, Repr

def padOf (n blockSize : ℕ) : ℕ := if n % blockSize = 0 then 0 else blockSize - n % blockSize

/-- `F.pad(x, (0, pad1, 0, pad0), value=value)` of a matrix. -/
def pad (m n pad0 pad1 : ℕ) (value : ℚ) (x : NdArray ℚ) : NdArray ℚ where
  shape := [m + pad0,n + pad1]
  entry index :=
    if index.getD 0 0 < m ∧ index.getD 1 0 < n then x.entry index else value

/-- `torch.amax(torch.abs(x), dim=-1, keepdim=True)` of blocks with `size` entries. -/
def maxAbs (m n size : ℕ) (x : NdArray ℚ) : NdArray ℚ where
  shape := [m,n,1]
  entry index := (((List.range size).map fun k =>
    |x.entry [index.getD 0 0,index.getD 1 0,k]|).max?).getD 0

/-- `torch.clamp(torch.ceil(torch.log2(descale)), min=-127, max=127) + 127`; the logarithm of zero
is below the range. -/
def e8m0Exponent (descale : ℚ) : ℤ :=
  (if descale = 0 then -127 else max (-127) (min (Int.clog 2 descale) 127)) + 127

/-- `scale_fp` of a block by its greatest magnitude. -/
def scaleFp (useWeightPow2Scale : Bool) (maxDtype maxAbs : ℚ) : ℚ :=
  if useWeightPow2Scale then
    let exponent := e8m0Exponent (maxAbs / maxDtype)
    if exponent = 0 then 1 else 2 ^ (127 - exponent)
  else if maxAbs = 0 then 1 else maxDtype / maxAbs

/-- `torch.clamp(x, min=-1 * max_dtype, max=max_dtype)`. -/
def saturate (maxDtype x : ℚ) : ℚ := min (max x (-maxDtype)) maxDtype

/-- The entries of every block, one block after the other: `reshape`, `permute` and `flatten`. -/
def toBlocks (blkM blkN blockSize : ℕ) (x : NdArray ℚ) : NdArray ℚ :=
  ((x.reshape [blkM,blockSize,blkN,blockSize]).permute [0,2,1,3]).reshape
    [blkM,blkN,blockSize * blockSize]

def fromBlocks (blkM blkN blockSize : ℕ) (x : NdArray ℚ) : NdArray ℚ :=
  ((x.reshape [blkM,blkN,blockSize,blockSize]).permute [0,2,1,3]).reshape
    [blkM * blockSize,blkN * blockSize]

/-- `x[:m, :n]`. -/
def crop (m n : ℕ) (x : NdArray ℚ) : NdArray ℚ := ⟨[m,n],x.entry⟩

/-- `cast_tensor_to_fp8_blockwise`: the scaled matrix, and what its blocks are scaled back with. -/
def castTensorToFp8Blockwise (dtype : Fp8Dtype) (useWeightPow2Scale : Bool) (weightBlockSize : ℕ × ℕ)
    (dataHp : NdArray ℚ) : Except CastError (NdArray ℚ × NdArray ℚ) :=
  match dataHp.shape with
  | [m,n] =>
    let blockSize0 := weightBlockSize.1
    let blockSize1 := weightBlockSize.2
    let padded := pad m n (padOf m blockSize0) (padOf n blockSize1) (dataHp.entry [m - 1,n - 1]) dataHp
    let blkM := (m + padOf m blockSize0) / blockSize0
    let blkN := (n + padOf n blockSize1) / blockSize1
    if blockSize1 ≠ blockSize0 then .error (.blockSize blockSize0 blockSize1)
    else
      let blocks := toBlocks blkM blkN blockSize0 padded
      let scale := (maxAbs blkM blkN (blockSize0 * blockSize0) blocks).map
        (scaleFp useWeightPow2Scale dtype.finfoMax)
      let dataLp : NdArray ℚ := ⟨blocks.shape,fun index =>
        saturate dtype.finfoMax (blocks.entry index * scale.entry [index.getD 0 0,index.getD 1 0,0])⟩
      .ok (crop m n (fromBlocks blkM blkN blockSize0 dataLp),scale.map (·⁻¹))
  | shape => .error (.not2d shape)

section Blocks

open NdArray

variable {m n k a b : ℕ} {x : NdArray ℚ}

theorem entry_toBlocks (hx : x.shape = [m * k,n * k]) (ha : a < m) (hb : b < n) {i j : ℕ} (hi : i < k)
    (hj : j < k) :
    (toBlocks m n k x).entry [a,b,i * k + j] = x.entry [a * k + i,b * k + j] := by
  obtain ⟨hshape,hentry⟩ := permute_middle (show (x.reshape [m,k,n,k]).shape = [m,k,n,k] from rfl)
  rw [toBlocks,entry_flatten hshape ha hb hi hj,hentry,entry_split hx ha hi hb hj]

theorem entry_fromBlocks (hx : x.shape = [m,n,k * k]) (ha : a < m) (hb : b < n) {i j : ℕ} (hi : i < k)
    (hj : j < k) :
    (fromBlocks m n k x).entry [a * k + i,b * k + j] = x.entry [a,b,i * k + j] := by
  obtain ⟨hshape,hentry⟩ := permute_middle (show (x.reshape [m,n,k,k]).shape = [m,n,k,k] from rfl)
  rw [fromBlocks,entry_join hshape ha hi hb hj,hentry,entry_unflatten hx ha hb hi hj]

theorem maxAbs_block (hx : x.shape = [m * k,n * k]) (hk : 0 < k) (ha : a < m) (hb : b < n) :
    (∀ i < k, ∀ j < k, |x.entry [a * k + i,b * k + j]| ≤
      (maxAbs m n (k * k) (toBlocks m n k x)).entry [a,b,0]) ∧
    ∃ i < k, ∃ j < k, |x.entry [a * k + i,b * k + j]| =
      (maxAbs m n (k * k) (toBlocks m n k x)).entry [a,b,0] := by
  set l := (List.range (k * k)).map fun p => |(toBlocks m n k x).entry [a,b,p]| with hl
  have hentry : (maxAbs m n (k * k) (toBlocks m n k x)).entry [a,b,0] = l.max?.getD 0 := rfl
  have hmem : ∀ y, y ∈ l ↔ ∃ i < k, ∃ j < k, |x.entry [a * k + i,b * k + j]| = y := by
    intro y
    rw [hl,List.mem_map]
    constructor
    · rintro ⟨p,hp,rfl⟩
      have hi : p / k < k := Nat.div_lt_of_lt_mul (List.mem_range.mp hp)
      have hj : p % k < k := Nat.mod_lt p hk
      refine ⟨p / k,hi,p % k,hj,?_⟩
      rw [← entry_toBlocks hx ha hb hi hj,Nat.div_add_mod']
    · rintro ⟨i,hi,j,hj,rfl⟩
      exact ⟨i * k + j,List.mem_range.mpr (mul_add_lt hi hj),by rw [entry_toBlocks hx ha hb hi hj]⟩
  have hne : l ≠ [] := List.ne_nil_of_mem ((hmem _).mpr ⟨0,hk,0,hk,rfl⟩)
  obtain ⟨top,htop⟩ := Option.isSome_iff_exists.mp (List.isSome_max?_of_ne_nil hne)
  obtain ⟨hin,hle⟩ := List.max?_eq_some_iff.mp htop
  rw [hentry,htop,Option.getD_some]
  exact ⟨fun i hi j hj => hle _ ((hmem _).mpr ⟨i,hi,j,hj,rfl⟩),(hmem top).mp hin⟩

end Blocks

section Scale

variable {maxDtype m : ℚ} {pow2 : Bool}

theorem saturate_eq_iff (hmax : 0 < maxDtype) (x : ℚ) : saturate maxDtype x = x ↔ |x| ≤ maxDtype := by
  rw [saturate,abs_le]
  constructor
  · intro h
    rw [← h]
    exact ⟨le_min (le_max_right _ _) (by linarith),min_le_right _ _⟩
  · rintro ⟨hlow,hhigh⟩
    rw [max_eq_left hlow,min_eq_left hhigh]

theorem scaleFp_pos (hmax : 0 < maxDtype) (hm : 0 ≤ m) : 0 < scaleFp pow2 maxDtype m := by
  cases pow2 with
  | false =>
    simp only [scaleFp,Bool.false_eq_true,if_false]
    split_ifs with hzero
    · exact one_pos
    · exact div_pos hmax (hm.lt_of_ne' hzero)
  | true =>
    simp only [scaleFp,if_true]
    split_ifs
    · exact one_pos
    · exact zpow_pos two_pos _

theorem scaleFp_pow2 (hmax : 0 < maxDtype) (hm : 0 < m) : scaleFp true maxDtype m =
    if Int.clog 2 (m / maxDtype) ≤ -127 then 1 else 2 ^ (-min (Int.clog 2 (m / maxDtype)) 127) := by
  have hne : m / maxDtype ≠ 0 := (div_pos hm hmax).ne'
  simp only [scaleFp,if_true,e8m0Exponent,if_neg hne]
  split_ifs with hzero hlow hlow
  · rfl
  · exact absurd hzero (by omega)
  · exact absurd (show max (-127) (min (Int.clog 2 (m / maxDtype)) 127) + 127 = 0 by omega) hzero
  · rw [show 127 - (max (-127) (min (Int.clog 2 (m / maxDtype)) 127) + 127) =
      -min (Int.clog 2 (m / maxDtype)) 127 by omega]

theorem mul_scaleFp_le_iff (hmax : 0 < maxDtype) (hm : 0 ≤ m) :
    m * scaleFp pow2 maxDtype m ≤ maxDtype ↔ (pow2 = true → m ≤ maxDtype * 2 ^ 127) := by
  rcases hm.eq_or_lt with rfl | hm
  · rw [zero_mul]
    exact iff_of_true hmax.le fun _ => by positivity
  cases pow2 with
  | false =>
    refine iff_of_true ?_ (fun h => absurd h Bool.false_ne_true)
    simp only [scaleFp,Bool.false_eq_true,if_false,if_neg hm.ne']
    rw [mul_div_cancel₀ _ hm.ne']
  | true =>
    have hdescale : 0 < m / maxDtype := div_pos hm hmax
    have hle : ∀ z : ℤ, m ≤ maxDtype * 2 ^ z ↔ Int.clog 2 (m / maxDtype) ≤ z := fun z => by
      rw [← Int.le_zpow_iff_clog_le (by decide) hdescale,div_le_iff₀' hmax]
      rfl
    have hpow : ∀ z : ℤ, m * 2 ^ (-z) ≤ maxDtype ↔ m ≤ maxDtype * 2 ^ z := fun z => by
      rw [zpow_neg,← div_eq_mul_inv,div_le_iff₀ (zpow_pos two_pos z)]
    have htop : (m ≤ maxDtype * 2 ^ 127) ↔ Int.clog 2 (m / maxDtype) ≤ 127 := hle 127
    rw [scaleFp_pow2 hmax hm]
    simp only [true_imp_iff]
    rw [htop]
    split_ifs with hlow
    · refine iff_of_true ?_ (by omega)
      have hsmall := (hle (-127)).mpr hlow
      rw [mul_one]
      refine hsmall.trans (mul_le_of_le_one_right hmax.le ?_)
      exact zpow_le_one_of_nonpos₀ one_le_two (by decide)
    · rw [hpow,hle]
      omega

theorem scaleFp_top (hmax : 0 < maxDtype) (hm : maxDtype * 2 ^ 127 < m) :
    scaleFp true maxDtype m = 2 ^ (-127 : ℤ) := by
  have hpos : 0 < m := (by positivity : 0 < maxDtype * 2 ^ 127).trans hm
  have hlt : 127 < Int.clog 2 (m / maxDtype) := by
    rw [← Int.zpow_lt_iff_lt_clog (by decide) (div_pos hpos hmax),lt_div_iff₀' hmax]
    exact hm
  rw [scaleFp_pow2 hmax hpos,if_neg (by omega),min_eq_right hlt.le]

theorem scaleFp_one_ne (hlow : 2 ≤ maxDtype) (hhigh : maxDtype < 2 ^ 127) :
    scaleFp pow2 maxDtype 1 ≠ scaleFp pow2 maxDtype 0 := by
  have hmax : 0 < maxDtype := two_pos.trans_le hlow
  cases pow2 with
  | false =>
    simp only [scaleFp,Bool.false_eq_true,if_false,if_neg one_ne_zero,if_true,div_one]
    exact (one_lt_two.trans_le hlow).ne'
  | true =>
    have hzero : scaleFp true maxDtype 0 = 1 := by simp [scaleFp,e8m0Exponent]
    have hdescale : 0 < 1 / maxDtype := div_pos one_pos hmax
    have hneg : Int.clog 2 (1 / maxDtype) ≤ -1 := by
      rw [← Int.le_zpow_iff_clog_le (by decide) hdescale,div_le_iff₀' hmax]
      norm_num
      linarith
    have hbig : -127 < Int.clog 2 (1 / maxDtype) := by
      rw [← Int.zpow_lt_iff_lt_clog (by decide) hdescale,lt_div_iff₀' hmax]
      norm_num
      linarith
    rw [hzero,scaleFp_pow2 hmax one_pos,if_neg (by omega),min_eq_left (by omega)]
    exact (one_lt_zpow₀ one_lt_two (by omega)).ne'

end Scale

def blockCount (n : ℕ) : ℕ := (n + 127) / 128

theorem blockCount_mul (n : ℕ) : n + padOf n 128 = blockCount n * 128 := by
  rw [padOf,blockCount]
  split_ifs <;> omega

theorem div_blockCount (n : ℕ) : (n + padOf n 128) / 128 = blockCount n := by
  rw [blockCount_mul,Nat.mul_div_cancel _ (by decide)]

def paddedEntry (m n : ℕ) (w : NdArray ℚ) (r c : ℕ) : ℚ :=
  if r < m ∧ c < n then w.entry [r,c] else w.entry [m - 1,n - 1]

def blockMax (m n : ℕ) (w : NdArray ℚ) (a b : ℕ) : ℚ :=
  (maxAbs (blockCount m) (blockCount n) (128 * 128) (toBlocks (blockCount m) (blockCount n) 128
    (pad m n (padOf m 128) (padOf n 128) (w.entry [m - 1,n - 1]) w))).entry [a,b,0]

section Cast

variable {m n : ℕ} {w w' : NdArray ℚ} (dtype : Fp8Dtype) (pow2 : Bool)

theorem finfoMax_bounds : 2 ≤ dtype.finfoMax ∧ dtype.finfoMax < 2 ^ 127 := by
  cases dtype <;> norm_num [Fp8Dtype.finfoMax]

theorem finfoMax_pos : 0 < dtype.finfoMax := two_pos.trans_le (finfoMax_bounds dtype).1

theorem shape_padded (value : ℚ) : (pad m n (padOf m 128) (padOf n 128) value w).shape =
    [blockCount m * 128,blockCount n * 128] := by
  rw [← blockCount_mul,← blockCount_mul]
  rfl

theorem blockMax_spec {a b : ℕ} (ha : a < blockCount m) (hb : b < blockCount n) :
    (∀ r c, r / 128 = a → c / 128 = b → |paddedEntry m n w r c| ≤ blockMax m n w a b) ∧
    ∃ r c, r / 128 = a ∧ c / 128 = b ∧ |paddedEntry m n w r c| = blockMax m n w a b := by
  obtain ⟨hle,i,hi,j,hj,htop⟩ := maxAbs_block (shape_padded (m := m) (n := n) (w := w) _)
    (by decide : 0 < 128) ha hb
  refine ⟨fun r c hr hc => ?_,a * 128 + i,b * 128 + j,by omega,by omega,htop⟩
  have hentry := hle (r % 128) (Nat.mod_lt r (by decide)) (c % 128) (Nat.mod_lt c (by decide))
  rwa [← hr,← hc,Nat.div_add_mod',Nat.div_add_mod',hr,hc] at hentry

theorem blockMax_nonneg {a b : ℕ} (ha : a < blockCount m) (hb : b < blockCount n) :
    0 ≤ blockMax m n w a b := by
  obtain ⟨r,c,-,-,htop⟩ := (blockMax_spec (w := w) ha hb).2
  exact htop ▸ abs_nonneg _

theorem cast_eq (hw : w.shape = [m,n]) : ∃ q d,
    castTensorToFp8Blockwise dtype pow2 (128,128) w = .ok (q,d) ∧ q.shape = [m,n] ∧
    d.shape = [blockCount m,blockCount n,1] ∧
    (∀ r < m, ∀ c < n, q.entry [r,c] = saturate dtype.finfoMax
      (w.entry [r,c] * scaleFp pow2 dtype.finfoMax (blockMax m n w (r / 128) (c / 128)))) ∧
    ∀ a b, d.entry [a,b,0] = (scaleFp pow2 dtype.finfoMax (blockMax m n w a b))⁻¹ := by
  rw [castTensorToFp8Blockwise,hw]
  simp only [ne_eq,not_true_eq_false,if_false,div_blockCount]
  refine ⟨_,_,rfl,rfl,rfl,fun r hr c hc => ?_,fun a b => rfl⟩
  have ha : r / 128 < blockCount m := by
    rw [blockCount]
    omega
  have hb : c / 128 < blockCount n := by
    rw [blockCount]
    omega
  have hi : r % 128 < 128 := Nat.mod_lt r (by decide)
  have hj : c % 128 < 128 := Nat.mod_lt c (by decide)
  have hindex : ([r,c] : List ℕ) = [r / 128 * 128 + r % 128,c / 128 * 128 + c % 128] := by
    rw [Nat.div_add_mod',Nat.div_add_mod']
  have hentry := entry_toBlocks (shape_padded (w := w) (w.entry [m - 1,n - 1])) ha hb hi hj
  rw [crop]
  conv_lhs => rw [hindex]
  rw [entry_fromBlocks rfl ha hb hi hj]
  refine congrArg (saturate dtype.finfoMax) (congrArg₂ (· * ·) ?_ rfl)
  rw [hentry,← hindex]
  exact if_pos ⟨hr,hc⟩

/-- The cast matrix has the shape of the weight and as many scales as there are blocks, stays within
the format and gives the weight back. -/
structure Dequantises (dtype : Fp8Dtype) (m n : ℕ) (w q d : NdArray ℚ) : Prop where
  shape : q.shape = [m,n]
  shape_scale : d.shape = [blockCount m,blockCount n,1]
  abs_le : ∀ r < m, ∀ c < n, |q.entry [r,c]| ≤ dtype.finfoMax
  mul_eq : ∀ r < m, ∀ c < n, q.entry [r,c] * d.entry [r / 128,c / 128,0] = w.entry [r,c]

/-- Two weights agree on a block. -/
def AgreeOn (m n : ℕ) (w w' : NdArray ℚ) (a b : ℕ) : Prop :=
  ∀ r < m, ∀ c < n, r / 128 = a → c / 128 = b → w.entry [r,c] = w'.entry [r,c]

/-- The scale of a block is one and the same for weights that agree on the block. -/
def ScalesFitBlocks (dtype : Fp8Dtype) (pow2 : Bool) (m n : ℕ) : Prop :=
  ∀ w w' q d q' d', w.shape = [m,n] → w'.shape = [m,n] →
    castTensorToFp8Blockwise dtype pow2 (128,128) w = .ok (q,d) →
    castTensorToFp8Blockwise dtype pow2 (128,128) w' = .ok (q',d') →
    ∀ a < blockCount m, ∀ b < blockCount n, AgreeOn m n w w' a b →
      d.entry [a,b,0] = d'.entry [a,b,0]

theorem block_lt {r : ℕ} (hr : r < m) : r / 128 < blockCount m := by
  rw [blockCount]
  omega

theorem blockMax_le (hm : 0 < m) (hn : 0 < n) {bound : ℚ}
    (hle : ∀ r < m, ∀ c < n, |w.entry [r,c]| ≤ bound) {a b : ℕ} (ha : a < blockCount m)
    (hb : b < blockCount n) : blockMax m n w a b ≤ bound := by
  obtain ⟨r,c,-,-,htop⟩ := (blockMax_spec (w := w) ha hb).2
  rw [← htop,paddedEntry]
  split_ifs with hin
  · exact hle r hin.1 c hin.2
  · exact hle (m - 1) (by omega) (n - 1) (by omega)

theorem dequantises_iff (hm : 0 < m) (hn : 0 < n) (hw : w.shape = [m,n]) :
    (∃ q d, castTensorToFp8Blockwise dtype pow2 (128,128) w = .ok (q,d) ∧
      Dequantises dtype m n w q d) ↔
    (pow2 = true → ∀ r < m, ∀ c < n, |w.entry [r,c]| ≤ dtype.finfoMax * 2 ^ 127) := by
  obtain ⟨q,d,hcast,hq,hd,hentry,hscale⟩ := cast_eq dtype pow2 hw
  have hmax := finfoMax_pos dtype
  have hpos : ∀ r < m, ∀ c < n,
      0 < scaleFp pow2 dtype.finfoMax (blockMax m n w (r / 128) (c / 128)) := fun r hr c hc =>
    scaleFp_pos hmax (blockMax_nonneg (block_lt hr) (block_lt hc))
  have hle : ∀ r < m, ∀ c < n, |w.entry [r,c]| ≤ blockMax m n w (r / 128) (c / 128) := by
    intro r hr c hc
    have hbound := (blockMax_spec (w := w) (block_lt hr) (block_lt hc)).1 r c rfl rfl
    rwa [paddedEntry,if_pos ⟨hr,hc⟩] at hbound
  constructor
  · rintro ⟨q',d',hcast',hdequantises⟩ rfl r hr c hc
    obtain ⟨rfl,rfl⟩ := Prod.mk.inj (Except.ok.inj (hcast.symm.trans hcast'))
    have hback := hdequantises.mul_eq r hr c hc
    rw [hscale,← div_eq_mul_inv,div_eq_iff (hpos r hr c hc).ne',hentry r hr c hc,
      saturate_eq_iff hmax,abs_mul,abs_of_pos (hpos r hr c hc)] at hback
    by_contra hnot
    have htop := scaleFp_top hmax ((not_le.mp hnot).trans_le (hle r hr c hc))
    rw [htop,zpow_neg,← div_eq_mul_inv,div_le_iff₀ (zpow_pos two_pos _)] at hback
    exact hnot hback
  · intro hbound
    have hfits : ∀ r < m, ∀ c < n, |w.entry [r,c] *
        scaleFp pow2 dtype.finfoMax (blockMax m n w (r / 128) (c / 128))| ≤ dtype.finfoMax := by
      intro r hr c hc
      rw [abs_mul,abs_of_pos (hpos r hr c hc)]
      refine (mul_le_mul_of_nonneg_right (hle r hr c hc) (hpos r hr c hc).le).trans ?_
      refine (mul_scaleFp_le_iff hmax (blockMax_nonneg (block_lt hr) (block_lt hc))).mpr fun hpow2 => ?_
      exact blockMax_le hm hn (hbound hpow2) (block_lt hr) (block_lt hc)
    have hexact : ∀ r < m, ∀ c < n, q.entry [r,c] =
        w.entry [r,c] * scaleFp pow2 dtype.finfoMax (blockMax m n w (r / 128) (c / 128)) :=
      fun r hr c hc => (hentry r hr c hc).trans ((saturate_eq_iff hmax _).mpr (hfits r hr c hc))
    refine ⟨q,d,hcast,hq,hd,fun r hr c hc => ?_,fun r hr c hc => ?_⟩
    · rw [hexact r hr c hc]
      exact hfits r hr c hc
    · rw [hexact r hr c hc,hscale,mul_inv_cancel_right₀ (hpos r hr c hc).ne']

theorem blockMax_congr (hrows : m % 128 = 0 ∨ n ≤ 128) (hcols : n % 128 = 0 ∨ m ≤ 128) {a b : ℕ}
    (ha : a < blockCount m) (hb : b < blockCount n) (hagree : AgreeOn m n w w' a b) :
    blockMax m n w a b = blockMax m n w' a b := by
  have hentry : ∀ r c, r / 128 = a → c / 128 = b → paddedEntry m n w r c = paddedEntry m n w' r c := by
    intro r c hr hc
    rw [paddedEntry,paddedEntry]
    split_ifs with hin
    · exact hagree r hin.1 c hin.2 hr hc
    · rw [blockCount] at ha hb
      exact hagree (m - 1) (by omega) (n - 1) (by omega) (by omega) (by omega)
  obtain ⟨hle,r,c,hr,hc,htop⟩ := blockMax_spec (w := w) ha hb
  obtain ⟨hle',r',c',hr',hc',htop'⟩ := blockMax_spec (w := w') ha hb
  refine le_antisymm ?_ ?_
  · rw [← htop,hentry r c hr hc]
    exact hle' r c hr hc
  · rw [← htop',← hentry r' c' hr' hc']
    exact hle r' c' hr' hc'

def lastEntry (m n : ℕ) (value : ℚ) : NdArray ℚ :=
  ⟨[m,n],fun index => if index = [m - 1,n - 1] then value else 0⟩

theorem paddedEntry_lastEntry (value : ℚ) (r c : ℕ) : paddedEntry m n (lastEntry m n value) r c =
    if r < m ∧ c < n ∧ [r,c] ≠ [m - 1,n - 1] then 0 else value := by
  by_cases hin : r < m ∧ c < n
  · simp only [paddedEntry,lastEntry,hin,and_self,if_true,true_and,ne_eq,ite_not]
  · rw [paddedEntry,if_neg hin,if_neg fun h => hin ⟨h.1,h.2.1⟩]
    exact if_pos rfl

theorem blockMax_lastEntry {value : ℚ} (hvalue : 0 ≤ value) {a b r c : ℕ} (ha : a < blockCount m)
    (hb : b < blockCount n) (hr : r / 128 = a) (hc : c / 128 = b) (hout : ¬(r < m ∧ c < n)) :
    blockMax m n (lastEntry m n value) a b = value := by
  obtain ⟨hle,r',c',-,-,htop⟩ := blockMax_spec (w := lastEntry m n value) ha hb
  refine le_antisymm ?_ ?_
  · rw [← htop,paddedEntry_lastEntry]
    split_ifs
    · rwa [abs_zero]
    · exact (abs_of_nonneg hvalue).le
  · have hpadded := hle r c hr hc
    rwa [paddedEntry_lastEntry,if_neg fun h => hout ⟨h.1,h.2.1⟩,abs_of_nonneg hvalue] at hpadded

theorem scale_of_padding {a b r c : ℕ} (ha : a < blockCount m) (hb : b < blockCount n)
    (hr : r / 128 = a) (hc : c / 128 = b) (hout : ¬(r < m ∧ c < n))
    (hlast : (m - 1) / 128 ≠ a ∨ (n - 1) / 128 ≠ b) :
    AgreeOn m n (lastEntry m n 1) (lastEntry m n 0) a b ∧ ∃ q d q' d',
      castTensorToFp8Blockwise dtype pow2 (128,128) (lastEntry m n 1) = .ok (q,d) ∧
      castTensorToFp8Blockwise dtype pow2 (128,128) (lastEntry m n 0) = .ok (q',d') ∧
      d.entry [a,b,0] ≠ d'.entry [a,b,0] := by
  obtain ⟨q,d,hcast,-,-,-,hscale⟩ := cast_eq dtype pow2 (show (lastEntry m n 1).shape = [m,n] from rfl)
  obtain ⟨q',d',hcast',-,-,-,hscale'⟩ :=
    cast_eq dtype pow2 (show (lastEntry m n 0).shape = [m,n] from rfl)
  refine ⟨fun r' _ c' _ hr' hc' => ?_,q,d,q',d',hcast,hcast',fun hsame => ?_⟩
  · have hne : ([r',c'] : List ℕ) ≠ [m - 1,n - 1] := fun heq => by
      obtain ⟨rfl,rfl⟩ := by simpa using heq
      exact hlast.elim (fun h => h hr') fun h => h hc'
    simp only [lastEntry,if_neg hne]
  · rw [hscale,hscale',blockMax_lastEntry zero_le_one ha hb hr hc hout,
      blockMax_lastEntry le_rfl ha hb hr hc hout,inv_inj] at hsame
    exact scaleFp_one_ne (finfoMax_bounds dtype).1 (finfoMax_bounds dtype).2 hsame

theorem not_fit_of_padding {a b r c : ℕ} (ha : a < blockCount m) (hb : b < blockCount n)
    (hr : r / 128 = a) (hc : c / 128 = b) (hout : ¬(r < m ∧ c < n))
    (hlast : (m - 1) / 128 ≠ a ∨ (n - 1) / 128 ≠ b) : ¬ScalesFitBlocks dtype pow2 m n := by
  intro hfit
  obtain ⟨hagree,q,d,q',d',hcast,hcast',hne⟩ :=
    scale_of_padding dtype pow2 ha hb hr hc hout hlast
  exact hne (hfit _ _ q d q' d' rfl rfl hcast hcast' a ha b hb hagree)

theorem scalesFitBlocks_iff : ScalesFitBlocks dtype pow2 m n ↔
    (m % 128 = 0 ∨ n ≤ 128) ∧ (n % 128 = 0 ∨ m ≤ 128) := by
  constructor
  · intro hfit
    constructor
    · by_contra hnot
      obtain ⟨hmod,hwide⟩ := not_or.mp hnot
      have ha : m / 128 < blockCount m := by
        rw [blockCount]
        omega
      have hb : 0 < blockCount n := by
        rw [blockCount]
        omega
      exact not_fit_of_padding dtype pow2 ha hb rfl (Nat.zero_div 128)
        (fun h => absurd h.1 (lt_irrefl m)) (.inr (by omega)) hfit
    · by_contra hnot
      obtain ⟨hmod,htall⟩ := not_or.mp hnot
      have ha : 0 < blockCount m := by
        rw [blockCount]
        omega
      have hb : n / 128 < blockCount n := by
        rw [blockCount]
        omega
      exact not_fit_of_padding dtype pow2 ha hb (Nat.zero_div 128) rfl
        (fun h => absurd h.2 (lt_irrefl n)) (.inl (by omega)) hfit
  · rintro ⟨hrows,hcols⟩ w w' q d q' d' hw hw' hcast hcast' a ha b hb hagree
    obtain ⟨q₁,d₁,hcast₁,-,-,-,hscale⟩ := cast_eq dtype pow2 hw
    obtain ⟨q₂,d₂,hcast₂,-,-,-,hscale'⟩ := cast_eq dtype pow2 hw'
    obtain ⟨rfl,rfl⟩ := Prod.mk.inj (Except.ok.inj (hcast.symm.trans hcast₁))
    obtain ⟨rfl,rfl⟩ := Prod.mk.inj (Except.ok.inj (hcast'.symm.trans hcast₂))
    rw [hscale,hscale',blockMax_congr hrows hcols ha hb hagree]

/-- Which weights the cast gives back, and for which shapes the scale of a block is made of the block
alone. -/
theorem cast_blockwise_iff (hm : 0 < m) (hn : 0 < n) :
    (∀ w : NdArray ℚ, w.shape = [m,n] →
      ((∃ q d, castTensorToFp8Blockwise dtype pow2 (128,128) w = .ok (q,d) ∧
        Dequantises dtype m n w q d) ↔
      (pow2 = true → ∀ r < m, ∀ c < n, |w.entry [r,c]| ≤ dtype.finfoMax * 2 ^ 127))) ∧
    (ScalesFitBlocks dtype pow2 m n ↔ (m % 128 = 0 ∨ n ≤ 128) ∧ (n % 128 = 0 ∨ m ≤ 128)) :=
  ⟨fun _ hw => dequantises_iff dtype pow2 hm hn hw,scalesFitBlocks_iff dtype pow2⟩

end Cast

theorem cast_blockwise_two_by_three : ScalesFitBlocks .e4m3fn false 256 384 :=
  (cast_blockwise_iff .e4m3fn false (show 0 < 256 by decide) (show 0 < 384 by decide)).2.mpr
    ⟨.inl rfl,.inl rfl⟩

/-- Of a column of two blocks the first is scaled by the last entry of the second. -/
theorem first_block_of_column : AgreeOn 129 1 (lastEntry 129 1 1) (lastEntry 129 1 0) 0 0 ∧
    ∃ q d q' d', castTensorToFp8Blockwise .e4m3fn false (128,128) (lastEntry 129 1 1) = .ok (q,d) ∧
      castTensorToFp8Blockwise .e4m3fn false (128,128) (lastEntry 129 1 0) = .ok (q',d') ∧
      d.entry [0,0,0] ≠ d'.entry [0,0,0] :=
  scale_of_padding .e4m3fn false (by decide) (by decide) (show 0 / 128 = 0 by decide)
    (show 1 / 128 = 0 by decide) (by decide) (.inl (by decide))

end Fp8
end DockyardRL
