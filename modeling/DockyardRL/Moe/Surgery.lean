import DockyardRL.Lib.Words
import DockyardRL.Refit.PackedTensor
import Mathlib.Algebra.Order.Ring.Rat

/-! Routed experts swapped for native blocks: the module tree of a Qwen3-MoE model on disk, as it is
loaded with its experts fused, and after the surgery. -/
namespace DockyardRL
namespace Qwen3Moe

open Refit (DType)

/-- A tensor of one dimension. -/
structure Vec (α : Type*) where
  size : ℕ
  entries : Fin size → α

/-- A tensor of two dimensions. -/
structure Mat (α : Type*) where
  rows : ℕ
  cols : ℕ
  entries : Fin rows → Fin cols → α

/-- A tensor of three dimensions. -/
structure Stack (α : Type*) where
  count : ℕ
  rows : ℕ
  cols : ℕ
  entries : Fin count → Fin rows → Fin cols → α

inductive Weight (α : Type*)
  | scalar (x : α)
  | vec (t : Vec α)
  | mat (t : Mat α)
  | stack (t : Stack α)

variable {α : Type*}

/-- `tuple(tensor.shape)`. -/
def Weight.shape : Weight α → List ℕ
  | .scalar _ => []
  | .vec t => [t.size]
  | .mat t => [t.rows,t.cols]
  | .stack t => [t.count,t.rows,t.cols]

/-- `arr.T`. -/
def Mat.transpose (t : Mat α) : Mat α := ⟨t.cols,t.rows,fun c r => t.entries r c⟩

/-- `arr.T`, all dimensions reversed. -/
def Weight.transpose : Weight α → Weight α
  | .scalar x => .scalar x
  | .vec t => .vec t
  | .mat t => .mat t.transpose
  | .stack t => .stack ⟨t.cols,t.rows,t.count,fun c r i => t.entries i r c⟩

@[simp] theorem Mat.transpose_transpose (t : Mat α) : t.transpose.transpose = t := rfl

/-- `full[i]`. -/
def Stack.slice (t : Stack α) (i : Fin t.count) : Mat α := ⟨t.rows,t.cols,t.entries i⟩

/-- A named parameter: the modules it lies in, its own name there, and its value. -/
structure Param (α : Type*) where
  parents : List String
  leaf : String
  weight : Weight α

def Param.name (p : Param α) : String := DottedNames.dotted (p.parents ++ [p.leaf])

def under (parents : List String) (params : List (Param α)) : List (Param α) :=
  params.map fun p => { p with parents := parents ++ p.parents }

def named (params : List (Param α)) : List (String × Weight α) :=
  params.map fun p => (p.name,p.weight)

@[simp] theorem under_nil (parents : List String) : under parents ([] : List (Param α)) = [] := rfl

@[simp] theorem under_cons (parents : List String) (p : Param α) (params : List (Param α)) :
    under parents (p :: params) = { p with parents := parents ++ p.parents } :: under parents params :=
  rfl

@[simp] theorem under_append (parents : List String) (a b : List (Param α)) :
    under parents (a ++ b) = under parents a ++ under parents b := List.map_append

@[simp] theorem named_append (a b : List (Param α)) : named (a ++ b) = named a ++ named b :=
  List.map_append

/-- `Qwen3MoeAttention`, the weights of its linear maps as `(out, in)`. -/
structure Attention (α : Type*) where
  qProj : Mat α
  kProj : Mat α
  vProj : Mat α
  oProj : Mat α
  qNorm : Vec α
  kNorm : Vec α

/-- `Qwen3MoeMLP`: the feed-forward part of a dense layer. -/
structure DenseMlp (α : Type*) where
  gateProj : Mat α
  upProj : Mat α
  downProj : Mat α

/-- A decoder layer with some feed-forward part. -/
structure DecoderLayer (M : Type*) (α : Type*) where
  selfAttn : Attention α
  mlp : M
  inputLayernorm : Vec α
  postAttentionLayernorm : Vec α

/-- A causal language model; one without a head of its own is tied to its embedding. -/
structure CausalLM (M : Type*) (α : Type*) where
  arch : String
  dtype : DType
  embedTokens : Mat α
  layers : List (DecoderLayer M α)
  norm : Vec α
  lmHead : Option (Mat α)

/-- The feed-forward part of a routed layer on disk: one tensor for each expert and projection. -/
structure RoutedMlp (α : Type*) where
  numExperts : ℕ
  hiddenDim : ℕ
  intermediateDim : ℕ
  gate : Fin numExperts → Fin hiddenDim → α
  gateProj : Fin numExperts → Fin intermediateDim → Fin hiddenDim → α
  upProj : Fin numExperts → Fin intermediateDim → Fin hiddenDim → α
  downProj : Fin numExperts → Fin hiddenDim → Fin intermediateDim → α

/-- `Qwen3MoeSparseMoeBlock`: the experts fused, gate and up one after the other. -/
structure SparseMoeBlock (α : Type*) where
  numExperts : ℕ
  hiddenDim : ℕ
  intermediateDim : ℕ
  gate : Fin numExperts → Fin hiddenDim → α
  gateUpProj : Fin numExperts → Fin (2 * intermediateDim) → Fin hiddenDim → α
  downProj : Fin numExperts → Fin hiddenDim → Fin intermediateDim → α

/-- `MoEBlock`: the native router and experts, and the bias of the routing choice if there is one. -/
structure MoEBlock (α : Type*) where
  numExperts : ℕ
  dim : ℕ
  hiddenDim : ℕ
  routerGate : Fin numExperts → Fin dim → α
  w1 : Fin numExperts → Fin hiddenDim → Fin dim → α
  w2 : Fin numExperts → Fin dim → Fin hiddenDim → α
  w3 : Fin numExperts → Fin hiddenDim → Fin dim → α
  expertBias : Option (Fin numExperts → α)

inductive DiskMlp (α : Type*)
  | dense (mlp : DenseMlp α)
  | routed (mlp : RoutedMlp α)

inductive Mlp (α : Type*)
  | dense (mlp : DenseMlp α)
  | sparse (block : SparseMoeBlock α)
  | native (block : MoEBlock α)

def DiskMlp.IsRouted : DiskMlp α → Prop
  | .dense _ => False
  | .routed _ => True

instance : DecidablePred (DiskMlp.IsRouted (α := α))
  | .dense _ => isFalse id
  | .routed _ => isTrue trivial

variable {M N : Type*}

def DecoderLayer.withMlp (layer : DecoderLayer M α) (mlp : N) : DecoderLayer N α :=
  ⟨layer.selfAttn,mlp,layer.inputLayernorm,layer.postAttentionLayernorm⟩

def CausalLM.withLayers (model : CausalLM M α) (layers : List (DecoderLayer N α)) : CausalLM N α :=
  ⟨model.arch,model.dtype,model.embedTokens,layers,model.norm,model.lmHead⟩

def Attention.params (a : Attention α) : List (Param α) :=
  [⟨["q_proj"],"weight",.mat a.qProj⟩,⟨["k_proj"],"weight",.mat a.kProj⟩,
    ⟨["v_proj"],"weight",.mat a.vProj⟩,⟨["o_proj"],"weight",.mat a.oProj⟩,
    ⟨["q_norm"],"weight",.vec a.qNorm⟩,⟨["k_norm"],"weight",.vec a.kNorm⟩]

def DenseMlp.params (m : DenseMlp α) : List (Param α) :=
  [⟨["gate_proj"],"weight",.mat m.gateProj⟩,⟨["up_proj"],"weight",.mat m.upProj⟩,
    ⟨["down_proj"],"weight",.mat m.downProj⟩]

def expertParam (e : ℕ) (proj : String) (t : Mat α) : Param α :=
  ⟨["experts",e.repr,proj],"weight",.mat t⟩

def RoutedMlp.params (gate : List String) (m : RoutedMlp α) : List (Param α) :=
  ⟨gate,"weight",.mat ⟨_,_,m.gate⟩⟩ :: (List.finRange m.numExperts).flatMap fun e =>
    [expertParam e.val "gate_proj" ⟨_,_,m.gateProj e⟩,expertParam e.val "up_proj" ⟨_,_,m.upProj e⟩,
      expertParam e.val "down_proj" ⟨_,_,m.downProj e⟩]

def DiskMlp.params (gate : List String) : DiskMlp α → List (Param α)
  | .dense mlp => mlp.params
  | .routed mlp => mlp.params gate

def SparseMoeBlock.params (b : SparseMoeBlock α) : List (Param α) :=
  [⟨["experts"],"gate_up_proj",.stack ⟨_,_,_,b.gateUpProj⟩⟩,
    ⟨["experts"],"down_proj",.stack ⟨_,_,_,b.downProj⟩⟩,⟨["gate"],"weight",.mat ⟨_,_,b.gate⟩⟩]

/-- Parameters and persistent buffers of a native block; those of the block itself come first. -/
def MoEBlock.params (b : MoEBlock α) : List (Param α) :=
  (b.expertBias.map fun bias => ⟨[],"expert_bias_E",.vec ⟨_,bias⟩⟩).toList ++
    [⟨["router","gate"],"weight",.mat ⟨_,_,b.routerGate⟩⟩,
      ⟨["experts"],"w1_EFD",.stack ⟨_,_,_,b.w1⟩⟩,⟨["experts"],"w2_EDF",.stack ⟨_,_,_,b.w2⟩⟩,
      ⟨["experts"],"w3_EFD",.stack ⟨_,_,_,b.w3⟩⟩]

def Mlp.params : Mlp α → List (Param α)
  | .dense mlp => mlp.params
  | .sparse block => block.params
  | .native block => block.params

def DecoderLayer.params (mlpParams : M → List (Param α)) (layer : DecoderLayer M α) : List (Param α) :=
  under ["self_attn"] layer.selfAttn.params ++ under ["mlp"] (mlpParams layer.mlp) ++
    [⟨["input_layernorm"],"weight",.vec layer.inputLayernorm⟩,
      ⟨["post_attention_layernorm"],"weight",.vec layer.postAttentionLayernorm⟩]

def layerParams (mlpParams : M → List (Param α)) (layers : List (DecoderLayer M α)) : List (Param α) :=
  layers.zipIdx.flatMap fun entry =>
    under ["model","layers",entry.2.repr] (entry.1.params mlpParams)

def CausalLM.params (mlpParams : M → List (Param α)) (heads : List (Mat α)) (model : CausalLM M α) :
    List (Param α) :=
  ⟨["model","embed_tokens"],"weight",.mat model.embedTokens⟩ ::
    (layerParams mlpParams model.layers ++
      (⟨["model","norm"],"weight",.vec model.norm⟩ ::
        heads.map fun head => ⟨["lm_head"],"weight",.mat head⟩))

def CausalLM.checkpoint (model : CausalLM (DiskMlp α) α) : List (String × Weight α) :=
  named (model.params (DiskMlp.params ["gate"]) model.lmHead.toList)

/-- `model.state_dict()`; a tied model lists its embedding a second time as its head. -/
def CausalLM.stateDict (model : CausalLM (Mlp α) α) : List (String × Weight α) :=
  named (model.params Mlp.params [model.lmHead.getD model.embedTokens])

/-- The experts as they are merged at load: `gate_up_proj` has the gate first. -/
def RoutedMlp.fuse (m : RoutedMlp α) : SparseMoeBlock α where
  numExperts := m.numExperts
  hiddenDim := m.hiddenDim
  intermediateDim := m.intermediateDim
  gate := m.gate
  gateUpProj e r d :=
    if h : r.val < m.intermediateDim then m.gateProj e ⟨r,h⟩ d
    else m.upProj e ⟨r - m.intermediateDim,by omega⟩ d
  downProj := m.downProj

def DiskMlp.load : DiskMlp α → Mlp α
  | .dense mlp => .dense mlp
  | .routed mlp => .sparse mlp.fuse

def CausalLM.load (model : CausalLM (DiskMlp α) α) : CausalLM (Mlp α) α :=
  model.withLayers (model.layers.map fun layer => layer.withMlp layer.mlp.load)

inductive SurgeryError
  | notImplemented (arch : String) (supported : List String)
  | noSparseBlocks
  | loadBalanceCoeffNotPositive (coeff : ℚ)
deriving DecidableEq, Repr

/-- `gate_up[:, :intermediate, :]`. -/
def SparseMoeBlock.gateRows (b : SparseMoeBlock α) :
    Fin b.numExperts → Fin b.intermediateDim → Fin b.hiddenDim → α :=
  fun e r d => b.gateUpProj e ⟨r,by omega⟩ d

/-- `gate_up[:, intermediate:, :]`. -/
def SparseMoeBlock.upRows (b : SparseMoeBlock α) :
    Fin b.numExperts → Fin b.intermediateDim → Fin b.hiddenDim → α :=
  fun e r d => b.gateUpProj e ⟨b.intermediateDim + r,by omega⟩ d

variable [Zero α]

/-- `_build_moe_block_from_qwen3`; a coefficient registers a bias of zeros. -/
def buildMoeBlockFromQwen3 (b : SparseMoeBlock α) (loadBalanceCoeff : Option ℚ) :
    Except SurgeryError (MoEBlock α) :=
  let block (bias : Option (Fin b.numExperts → α)) : MoEBlock α :=
    ⟨b.numExperts,b.hiddenDim,b.intermediateDim,b.gate,b.gateRows,b.downProj,b.upRows,bias⟩
  match loadBalanceCoeff with
  | none => .ok (block none)
  | some coeff =>
    if coeff ≤ 0 then .error (.loadBalanceCoeffNotPositive coeff) else .ok (block (some 0))

def Mlp.surgery (loadBalanceCoeff : Option ℚ) : Mlp α → Except SurgeryError (Mlp α)
  | .sparse block => (buildMoeBlockFromQwen3 block loadBalanceCoeff).map .native
  | mlp => .ok mlp

def Mlp.isSparse : Mlp α → Bool
  | .sparse _ => true
  | _ => false

/-- `_surgery_qwen3_moe`: the number of layers converted, and the model after it. -/
def surgeryQwen3Moe (model : CausalLM (Mlp α) α) (loadBalanceCoeff : Option ℚ) :
    Except SurgeryError (ℕ × CausalLM (Mlp α) α) := do
  let layers ← model.layers.mapM fun layer =>
    (layer.mlp.surgery loadBalanceCoeff).map layer.withMlp
  let count := model.layers.countP fun layer => layer.mlp.isSparse
  if count = 0 then throw .noSparseBlocks
  return (count,model.withLayers layers)

/-- `_SURGERY_REGISTRY`. -/
def surgeryRegistry : List (String ×
    (CausalLM (Mlp α) α → Option ℚ → Except SurgeryError (ℕ × CausalLM (Mlp α) α))) :=
  [("Qwen3MoeForCausalLM",surgeryQwen3Moe)]

def applyMoeSurgery (model : CausalLM (Mlp α) α) (loadBalanceCoeff : Option ℚ) :
    Except SurgeryError (ℕ × CausalLM (Mlp α) α) :=
  match surgeryRegistry.lookup model.arch with
  | none => .error (.notImplemented model.arch ((surgeryRegistry (α := α)).map Prod.fst))
  | some surgery => surgery model loadBalanceCoeff

end Qwen3Moe
end DockyardRL
