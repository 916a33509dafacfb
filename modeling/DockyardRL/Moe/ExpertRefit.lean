import DockyardRL.Moe.Surgery

/-! The refit stream of fused experts: every fused parameter is taken apart into one tensor for each
expert, under the name the inference engine loads it by.

The refit stream of the JAX trainer: kernels are turned back, the router gate gets its checkpoint
name, and the fused experts are taken apart as the other trainer does. -/
namespace DockyardRL
namespace Qwen3Moe

section

open DottedNames Refit

variable {α : Type}

inductive RefitError
  | cannotTransfer (name reason : String)
  | notEnoughValuesToUnpack
  | keyError (key : String)
  | indexError
  | expected2D (path : List String) (shape : List ℕ)
deriving DecidableEq, Repr

/-- `_GROUPED_EXPERT_SUFFIXES`. -/
def groupedExpertSuffixes : List (String × String) :=
  [("w1_EFD","gate_proj"),("w3_EFD","up_proj"),("w2_EDF","down_proj")]

def isGroupedExpertKey (name : String) : Bool :=
  (groupedExpertSuffixes.lookup (lastComponent name)).isSome

def expandGroupedExpertKey (name : String) (expertIndex : ℕ) : Except RefitError String :=
  match rsplitOnce name with
  | none => .error .notEnoughValuesToUnpack
  | some (before,suffix) =>
    match groupedExpertSuffixes.lookup suffix with
    | none => .error (.keyError suffix)
    | some proj => .ok (before ++ "." ++ expertIndex.repr ++ "." ++ proj ++ "." ++ "weight")

def expandGroupedExpertInfo (name : String) : List ℕ → Except RefitError (List (String × List ℕ))
  | [] => .error .indexError
  | numExperts :: perExpertShape =>
    (List.range numExperts).mapM fun i =>
      (expandGroupedExpertKey name i).map fun key => (key,perExpertShape)

/-- `full[i] for i in range(full.shape[0])`. -/
def Weight.unbind : Weight α → Except RefitError (List (Weight α))
  | .scalar _ => .error .indexError
  | .vec t => .ok ((List.finRange t.size).map fun i => .scalar (t.entries i))
  | .mat t => .ok ((List.finRange t.rows).map fun i => .vec ⟨t.cols,t.entries i⟩)
  | .stack t => .ok ((List.finRange t.count).map fun i => .mat (t.slice i))

/-- One item of `iter_expanded_refit_tensors`. -/
def expandItem (materialize : Weight α → Weight α) (item : String × Weight α) :
    Except RefitError (List (String × Weight α)) :=
  if isGroupedExpertKey item.1 then do
    let slices ← (materialize item.2).unbind
    slices.zipIdx.mapM fun slice =>
      (expandGroupedExpertKey item.1 slice.2).map fun key => (key,slice.1)
  else .ok [item]

def iterExpandedRefitTensors (materialize : Weight α → Weight α) (items : List (String × Weight α)) :
    Except RefitError (List (String × Weight α)) :=
  (items.mapM (expandItem materialize)).map List.flatten

/-- `_UNTRANSFERABLE_REFIT_SUFFIXES`. -/
def untransferableRefitSuffixes : List (String × String) :=
  [("expert_bias_E",
    "policy.dtensor_cfg.moe_parallelizer.load_balance_coeff is set, which " ++
    "registers an aux-loss-free routing bias on every MoEBlock. The " ++
    "inference engine has no parameter to receive it: vLLM's Qwen3-MoE " ++
    "router carries no correction bias, so refit would abort inside vLLM's " ++
    "weight loader -- and dropping the key instead would let the rollout " ++
    "engine route without the bias the trainer routes with, which is the " ++
    "train/generation divergence the bias itself is meant to avoid. Set " ++
    "load_balance_coeff to null for runs that refit a generation backend.")]

def checkRefitNames : List String → Except RefitError Unit
  | [] => .ok ()
  | name :: names =>
    match untransferableRefitSuffixes.lookup (lastComponent name) with
    | some reason => .error (.cannotTransfer name reason)
    | none => checkRefitNames names

/-- `refit_tensor_dtype`, for a tensor of the given type. -/
def streamedDtype (name : String) (dtype defaultDtype : DType) : DType :=
  if dtype ≠ .float32 then defaultDtype
  else if lastComponent name ∈ fp32RefitSuffixes then dtype
  else defaultDtype

def refitStateDict (model : CausalLM (Mlp α) α) : Except RefitError (List (String × Weight α)) := do
  checkRefitNames (model.stateDict.map Prod.fst)
  return model.stateDict

def iterRefitStateDict (materialize : Weight α → Weight α) (model : CausalLM (Mlp α) α) :
    Except RefitError (List (String × Weight α)) := do
  let stateDict ← refitStateDict model
  iterExpandedRefitTensors materialize stateDict

def refitInfoItem (modelDtype defaultDtype : DType) (item : String × Weight α) :
    Except RefitError (List (String × List ℕ × DType)) :=
  let dtype := streamedDtype item.1 modelDtype defaultDtype
  if isGroupedExpertKey item.1 then
    (expandGroupedExpertInfo item.1 item.2.shape).map fun infos =>
      infos.map fun info => (info.1,info.2,dtype)
  else .ok [(item.1,item.2.shape,dtype)]

/-- `prepare_refit_info`. -/
def prepareMoeRefitInfo (defaultDtype : DType) (model : CausalLM (Mlp α) α) :
    Except RefitError (Dict String (List ℕ × DType)) := do
  let stateDict ← refitStateDict model
  let infos ← stateDict.mapM (refitInfoItem model.dtype defaultDtype)
  return Dict.ofEntries infos.flatten

theorem lastComponent_of_rsplitOnce {name : String} {parts : String × String}
    (h : rsplitOnce name = some parts) : lastComponent name = parts.2 := by
  unfold rsplitOnce at h
  split at h
  · cases h
  · obtain rfl := Option.some.inj h
    rfl

theorem lookup_untransferable {leaf : String} (h : leaf ≠ "expert_bias_E") :
    untransferableRefitSuffixes.lookup leaf = none := by
  rw [untransferableRefitSuffixes,List.lookup_cons,beq_false_of_ne h,List.lookup_nil]

/-- A parameter inside of some module, whose own name has no dot. Experts are fused in three
dimensions, and nothing is there that the engine has no place for. -/
structure Streamable (p : Param α) : Prop where
  parents_ne : p.parents ≠ []
  dotless : Dotless p.leaf
  stack_of_grouped : ∀ proj, groupedExpertSuffixes.lookup p.leaf = some proj → ∃ t, p.weight = .stack t
  transferable : untransferableRefitSuffixes.lookup p.leaf = none

section Streamable

variable {p : Param α} (h : Streamable p)
include h

theorem Streamable.name_eq : p.name = dotted p.parents ++ "." ++ p.leaf :=
  dotted_concat p.leaf h.parents_ne

theorem Streamable.lastComponent_name : lastComponent p.name = p.leaf := by
  rw [h.name_eq,lastComponent_of_rsplitOnce (rsplitOnce_append _ h.dotless)]

theorem Streamable.isGroupedExpertKey_name :
    isGroupedExpertKey p.name = (groupedExpertSuffixes.lookup p.leaf).isSome := by
  rw [isGroupedExpertKey,h.lastComponent_name]

theorem Streamable.expandGroupedExpertKey_name {proj : String}
    (hproj : groupedExpertSuffixes.lookup p.leaf = some proj) (i : ℕ) :
    expandGroupedExpertKey p.name i = .ok (dotted (p.parents ++ [i.repr,proj] ++ ["weight"])) := by
  have hparts : dotted (p.parents ++ [i.repr,proj] ++ ["weight"]) =
      dotted p.parents ++ "." ++ i.repr ++ "." ++ proj ++ "." ++ "weight" := by
    have hsplit : p.parents ++ [i.repr,proj] = p.parents ++ [i.repr] ++ [proj] := by simp
    rw [dotted_concat _ (by simp),hsplit,dotted_concat _ (by simp),dotted_concat _ h.parents_ne]
  rw [expandGroupedExpertKey,h.name_eq,rsplitOnce_append _ h.dotless]
  simp only [hproj,hparts]

end Streamable

def unbound (p : Param α) : List (Param α) :=
  match p.weight, groupedExpertSuffixes.lookup p.leaf with
  | .stack t, some proj =>
    (List.finRange t.count).map fun i =>
      ⟨p.parents ++ [i.val.repr,proj],"weight",.mat (t.slice i)⟩
  | _, _ => [p]

theorem unbound_of_grouped {p : Param α} {t : Stack α} {proj : String} (hweight : p.weight = .stack t)
    (hproj : groupedExpertSuffixes.lookup p.leaf = some proj) :
    unbound p = (List.finRange t.count).map fun i =>
      ⟨p.parents ++ [i.val.repr,proj],"weight",.mat (t.slice i)⟩ := by
  simp only [unbound,hweight,hproj]

theorem unbound_of_plain {p : Param α} (h : groupedExpertSuffixes.lookup p.leaf = none) :
    unbound p = [p] := by
  rw [unbound,h]
  cases p.weight <;> rfl

theorem flatMap_unbound_under (parents : List String) (params : List (Param α)) :
    (under parents params).flatMap unbound = under parents (params.flatMap unbound) := by
  have hone : ∀ p : Param α, unbound { p with parents := parents ++ p.parents } =
      under parents (unbound p) := by
    intro p
    obtain ⟨own,leaf,weight⟩ := p
    cases hlookup : groupedExpertSuffixes.lookup leaf with
    | none => rw [unbound_of_plain hlookup,unbound_of_plain hlookup]; rfl
    | some proj =>
      cases weight with
      | stack t =>
        rw [unbound_of_grouped rfl hlookup,unbound_of_grouped rfl hlookup,under,List.map_map]
        simp [Function.comp_def]
      | scalar x => rfl
      | vec t => rfl
      | mat t => rfl
  rw [under,under,List.flatMap_map,List.map_flatMap]
  exact List.flatMap_congr fun p _ => hone p

theorem expandItem_named {p : Param α} (h : Streamable p) :
    expandItem id (p.name,p.weight) = .ok (named (unbound p)) := by
  cases hlookup : groupedExpertSuffixes.lookup p.leaf with
  | none =>
    rw [expandItem,h.isGroupedExpertKey_name,hlookup,unbound_of_plain hlookup]
    rfl
  | some proj =>
    obtain ⟨t,hweight⟩ := h.stack_of_grouped proj hlookup
    have hkeys : ∀ slice ∈ ((List.finRange t.count).map fun i => Weight.mat (t.slice i)).zipIdx,
        (expandGroupedExpertKey p.name slice.2).map (fun key => (key,slice.1)) =
          .ok (dotted (p.parents ++ [slice.2.repr,proj] ++ ["weight"]),slice.1) := fun slice _ => by
      rw [h.expandGroupedExpertKey_name hlookup]
      rfl
    have hindexed : ((List.finRange t.count).map fun i => Weight.mat (t.slice i)).zipIdx =
        (List.finRange t.count).map fun i => (Weight.mat (t.slice i),i.val) := by
      refine List.ext_getElem (by simp) fun n _ _ => ?_
      simp
    rw [expandItem,h.isGroupedExpertKey_name,hlookup,Option.isSome_some,if_pos rfl,hweight,
      unbound_of_grouped hweight hlookup]
    refine (Fallible.mapM_ok hkeys).trans ?_
    rw [hindexed,List.map_map,named,List.map_map]
    rfl

theorem mapM_named {ε β : Type} {f : String × Weight α → Except ε β} {g : Param α → β}
    {params : List (Param α)} (h : ∀ p ∈ params, f (p.name,p.weight) = .ok (g p)) :
    (named params).mapM f = .ok (params.map g) := by
  rw [named,List.mapM_map]
  exact Fallible.mapM_ok h

theorem iterExpandedRefitTensors_named {params : List (Param α)} (h : ∀ p ∈ params, Streamable p) :
    iterExpandedRefitTensors id (named params) = .ok (named (params.flatMap unbound)) := by
  rw [iterExpandedRefitTensors,mapM_named fun p hp => expandItem_named (h p hp),named,
    List.map_flatMap]
  rfl

theorem refitInfoItem_named {p : Param α} (h : Streamable p) (modelDtype defaultDtype : DType) :
    refitInfoItem modelDtype defaultDtype (p.name,p.weight) =
      .ok ((named (unbound p)).map fun item =>
        (item.1,item.2.shape,streamedDtype p.name modelDtype defaultDtype)) := by
  cases hlookup : groupedExpertSuffixes.lookup p.leaf with
  | none =>
    rw [refitInfoItem,h.isGroupedExpertKey_name,hlookup,unbound_of_plain hlookup]
    rfl
  | some proj =>
    obtain ⟨t,hweight⟩ := h.stack_of_grouped proj hlookup
    have hkeys : ∀ i ∈ List.range t.count,
        (expandGroupedExpertKey p.name i).map (fun key => (key,[t.rows,t.cols])) =
          .ok (dotted (p.parents ++ [i.repr,proj] ++ ["weight"]),[t.rows,t.cols]) := fun i _ => by
      rw [h.expandGroupedExpertKey_name hlookup]
      rfl
    rw [refitInfoItem,h.isGroupedExpertKey_name,hlookup,Option.isSome_some,if_pos rfl,hweight,
      unbound_of_grouped hweight hlookup,Weight.shape,expandGroupedExpertInfo,
      Fallible.mapM_ok hkeys]
    refine congrArg Except.ok ?_
    rw [← List.map_coe_finRange_eq_range,named]
    simp only [List.map_map]
    rfl

theorem refitInfos_named {params : List (Param α)} (h : ∀ p ∈ params, Streamable p)
    (modelDtype defaultDtype : DType) :
    ∃ infos, (named params).mapM (refitInfoItem modelDtype defaultDtype) = .ok infos ∧
      infos.flatten.map (fun entry => (entry.1,entry.2.1)) =
        (named (params.flatMap unbound)).map fun item => (item.1,item.2.shape) := by
  refine ⟨params.map fun p => (named (unbound p)).map fun item =>
    (item.1,item.2.shape,streamedDtype p.name modelDtype defaultDtype),?_,?_⟩
  · exact mapM_named fun p hp => refitInfoItem_named (h p hp) modelDtype defaultDtype
  · rw [List.map_flatten,List.map_map,named,List.map_flatMap,List.map_flatMap,List.flatMap_def]
    refine congrArg List.flatten (List.map_congr_left fun p _ => ?_)
    rw [Function.comp_apply,List.map_map,named]
    rfl

theorem checkRefitNames_named {params : List (Param α)} (h : ∀ p ∈ params, Streamable p) :
    checkRefitNames ((named params).map Prod.fst) = .ok () := by
  induction params with
  | nil => rfl
  | cons p params ih =>
    obtain ⟨hp,hrest⟩ := List.forall_mem_cons.mp h
    rw [named,List.map_cons,List.map_cons,checkRefitNames,hp.lastComponent_name,hp.transferable]
    exact ih hrest

def listedParams (model : CausalLM (Mlp α) α) : List (Param α) :=
  model.params Mlp.params [model.lmHead.getD model.embedTokens]

def streamedParams (model : CausalLM (Mlp α) α) : List (Param α) :=
  (listedParams model).flatMap unbound

theorem stateDict_eq (model : CausalLM (Mlp α) α) : model.stateDict = named (listedParams model) := rfl

variable {model : CausalLM (Mlp α) α} (h : ∀ p ∈ listedParams model, Streamable p)
include h

theorem refitStateDict_eq : refitStateDict model = .ok (named (listedParams model)) := by
  rw [refitStateDict,stateDict_eq,checkRefitNames_named h]
  rfl

theorem iterRefitStateDict_eq : iterRefitStateDict id model = .ok (named (streamedParams model)) := by
  simp only [iterRefitStateDict,refitStateDict_eq h,bind,Except.bind]
  rw [iterExpandedRefitTensors_named h,streamedParams]

theorem prepareMoeRefitInfo_eq (defaultDtype : DType)
    (hnodup : ((named (streamedParams model)).map Prod.fst).Nodup) :
    ∃ info, prepareMoeRefitInfo defaultDtype model = .ok info ∧
      info.entries.map (fun entry => (entry.1,entry.2.1)) =
        (named (streamedParams model)).map fun item => (item.1,item.2.shape) := by
  obtain ⟨infos,hinfos,hnames⟩ := refitInfos_named h model.dtype defaultDtype
  have hkeys : (infos.flatten.map Prod.fst).Nodup := by
    have hfirst := congrArg (List.map Prod.fst) hnames
    rw [List.map_map,List.map_map] at hfirst
    exact hfirst ▸ hnodup
  refine ⟨Dict.ofEntries infos.flatten,?_,?_⟩
  · simp only [prepareMoeRefitInfo,refitStateDict_eq h,Except.bind,bind,hinfos]
    rfl
  · rw [Dict.entries_ofEntries hkeys]
    exact hnames

end

open DottedNames

variable {α : Type}

/-- The native block of the JAX model; its gate is a kernel `(D, E)`. -/
structure JaxMoEBlock (α : Type) where
  routerKernel : Mat α
  w1 : Stack α
  w2 : Stack α
  w3 : Stack α

inductive JaxMlp (α : Type)
  | dense (mlp : DenseMlp α)
  | moe (block : JaxMoEBlock α)

/-- Attention and dense layers with kernels `(in, out)` for weights `(out, in)`. -/
def Attention.transpose (a : Attention α) : Attention α :=
  ⟨a.qProj.transpose,a.kProj.transpose,a.vProj.transpose,a.oProj.transpose,a.qNorm,a.kNorm⟩

def DenseMlp.transpose (m : DenseMlp α) : DenseMlp α :=
  ⟨m.gateProj.transpose,m.upProj.transpose,m.downProj.transpose⟩

def DiskMlp.inJax : DiskMlp α → JaxMlp α
  | .dense mlp => .dense mlp.transpose
  | .routed mlp =>
    .moe ⟨Mat.transpose ⟨_,_,mlp.fuse.gate⟩,⟨_,_,_,mlp.fuse.gateRows⟩,⟨_,_,_,mlp.fuse.downProj⟩,
      ⟨_,_,_,mlp.fuse.upRows⟩⟩

def DecoderLayer.inJax (layer : DecoderLayer (DiskMlp α) α) : DecoderLayer (JaxMlp α) α :=
  ⟨layer.selfAttn.transpose,layer.mlp.inJax,layer.inputLayernorm,layer.postAttentionLayernorm⟩

/-- The JAX model that holds the weights of a checkpoint: kernels turned, experts fused. -/
def CausalLM.inJax (model : CausalLM (DiskMlp α) α) : CausalLM (JaxMlp α) α :=
  ⟨model.arch,model.dtype,model.embedTokens,model.layers.map DecoderLayer.inJax,model.norm,
    model.lmHead.map Mat.transpose⟩

def Attention.jaxParams (a : Attention α) : List (Param α) :=
  [⟨["q_proj"],"kernel",.mat a.qProj⟩,⟨["k_proj"],"kernel",.mat a.kProj⟩,
    ⟨["v_proj"],"kernel",.mat a.vProj⟩,⟨["o_proj"],"kernel",.mat a.oProj⟩,
    ⟨["q_norm"],"scale",.vec a.qNorm⟩,⟨["k_norm"],"scale",.vec a.kNorm⟩]

def JaxMlp.params : JaxMlp α → List (Param α)
  | .dense mlp =>
    [⟨["gate_proj"],"kernel",.mat mlp.gateProj⟩,⟨["up_proj"],"kernel",.mat mlp.upProj⟩,
      ⟨["down_proj"],"kernel",.mat mlp.downProj⟩]
  | .moe block =>
    [⟨["router","gate"],"kernel",.mat block.routerKernel⟩,⟨["experts"],"w1_EFD",.stack block.w1⟩,
      ⟨["experts"],"w2_EDF",.stack block.w2⟩,⟨["experts"],"w3_EFD",.stack block.w3⟩]

def DecoderLayer.jaxParams (layer : DecoderLayer (JaxMlp α) α) : List (Param α) :=
  under ["self_attn"] layer.selfAttn.jaxParams ++ under ["mlp"] layer.mlp.params ++
    [⟨["input_layernorm"],"scale",.vec layer.inputLayernorm⟩,
      ⟨["post_attention_layernorm"],"scale",.vec layer.postAttentionLayernorm⟩]

/-- The parameters of `nnx.state(model, nnx.Param)`; a tied model has no head of its own. -/
def CausalLM.jaxParams (model : CausalLM (JaxMlp α) α) : List (Param α) :=
  ⟨["model","embed_tokens"],"embedding",.mat model.embedTokens⟩ ::
    (model.layers.zipIdx.flatMap (fun entry =>
        under ["model","layers",entry.2.repr] entry.1.jaxParams) ++
      (⟨["model","norm"],"scale",.vec model.norm⟩ ::
        model.lmHead.toList.map fun head => ⟨["lm_head"],"kernel",.mat head⟩))

def nnxPathToHfName (p : Param α) : String := dotted (p.parents ++ ["weight"])

def hfOriented (p : Param α) : Except RefitError (Weight α) :=
  if p.leaf = "kernel" then
    if p.weight.shape.length ≠ 2 then .error (.expected2D (p.parents ++ [p.leaf]) p.weight.shape)
    else .ok p.weight.transpose
  else .ok p.weight

/-- `p[-3:-1] == ("router", "gate")`. -/
def Param.inRouterGate (p : Param α) : Bool := p.parents.reverse.take 2 = ["gate","router"]

/-- One item of `_base_refit_stream`. -/
def baseRefitItem (p : Param α) : Except RefitError (String × Weight α) :=
  if p.leaf ∈ groupedExpertSuffixes.map Prod.fst then .ok (p.name,p.weight)
  else if p.leaf = "kernel" ∧ p.inRouterGate then
    .ok (dotted p.parents.dropLast.dropLast ++ ".gate.weight",p.weight.transpose)
  else (hfOriented p).map fun weight => (nnxPathToHfName p,weight)

/-- `iter_moe_refit_state_dict` over the parameters as `to_flat_state` gives them. -/
def iterMoeRefitStateDict (materialize : Weight α → Weight α) (flat : List (Param α)) :
    Except RefitError (List (String × Weight α)) := do
  let base ← flat.mapM baseRefitItem
  iterExpandedRefitTensors materialize base

end Qwen3Moe
end DockyardRL
