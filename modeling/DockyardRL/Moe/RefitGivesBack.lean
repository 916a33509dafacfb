import DockyardRL.Moe.RefitCheckpoint

/-! Refit after the surgery beside the checkpoint. The JAX stream is the checkpoint; the other trainer
streams the router gates under the names of the native block, which the checkpoint has not. -/
namespace DockyardRL
namespace Qwen3Moe

open DottedNames Refit

variable {α : Type}

def asMap (items : List (String × Weight α)) : String → Option (Weight α) := (Dict.ofEntries items).get?

theorem asMap_eq_some_iff {items : List (String × Weight α)} (h : (items.map Prod.fst).Nodup)
    {name : String} {w : Weight α} : asMap items name = some w ↔ (name,w) ∈ items := by
  rw [asMap,← Dict.mem_entries_iff,Dict.entries_ofEntries h]

theorem nodup_names {gate : List String} (hgate : gate.head? ≠ some "experts")
    (hdotless : ∀ part ∈ gate, Dotless part) (model : CausalLM (DiskMlp α) α) (head : Option (Mat α)) :
    ((named (model.params (DiskMlp.params gate) head.toList)).map Prod.fst).Nodup :=
  nodup_named (dotless_params hdotless model head.toList) (nodup_params hgate model head)

/-- The checkpoint with its router gates in the modules of the native blocks; a tied model lists its
embedding as a head, too. -/
def renamedCheckpoint (model : CausalLM (DiskMlp α) α) : List (String × Weight α) :=
  named (model.params (DiskMlp.params ["router","gate"]) [model.lmHead.getD model.embedTokens])

theorem nodup_renamedCheckpoint (model : CausalLM (DiskMlp α) α) :
    ((renamedCheckpoint model).map Prod.fst).Nodup :=
  nodup_names (by decide) (by decide) model (some _)

theorem streamable_native (model : CausalLM (DiskMlp α) α) :
    ∀ p ∈ listedParams model.native, Streamable p := by
  rw [listedParams_native]
  exact streamable_params (fun layer _ => streamable_fusedParams (by simp) layer.mlp) _

theorem refit_renames_gates [Zero α] (defaultDtype : DType) {model : CausalLM (DiskMlp α) α}
    (harch : model.arch = "Qwen3MoeForCausalLM") (hrouted : ∃ layer ∈ model.layers, layer.mlp.IsRouted) :
    ∃ count native stream info, applyMoeSurgery model.load none = .ok (count,native) ∧
      iterRefitStateDict id native = .ok stream ∧ asMap stream = asMap (renamedCheckpoint model) ∧
      prepareMoeRefitInfo defaultDtype native = .ok info ∧
      info.entries.map (fun entry => (entry.1,entry.2.1)) =
        stream.map fun item => (item.1,item.2.shape) := by
  have hperm : (named (streamedParams model.native)).Perm (renamedCheckpoint model) := by
    rw [streamedParams,listedParams_native]
    exact (unbound_params _ _ model).map _
  have hnodup : ((named (streamedParams model.native)).map Prod.fst).Nodup :=
    (hperm.map Prod.fst).nodup_iff.mpr (nodup_renamedCheckpoint model)
  obtain ⟨info,hinfo,hnames⟩ := prepareMoeRefitInfo_eq (streamable_native model) defaultDtype hnodup
  exact ⟨_,_,_,info,(applyMoeSurgery_load harch).trans (if_pos hrouted),
    iterRefitStateDict_eq (streamable_native model),Dict.get?_ofEntries_of_perm hperm hnodup,hinfo,hnames⟩

def gateName (i : ℕ) : String := dotted ["model","layers",i.repr,"mlp","gate","weight"]

theorem gateName_mem_checkpoint {model : CausalLM (DiskMlp α) α} {i : ℕ}
    {layer : DecoderLayer (DiskMlp α) α} (hlayer : model.layers[i]? = some layer) (hrouted : layer.mlp.IsRouted) :
    ∃ w, (gateName i,w) ∈ model.checkpoint := by
  obtain ⟨attn,mlp,inNorm,postNorm⟩ := layer
  cases mlp with
  | dense mlp => exact hrouted.elim
  | routed mlp =>
    refine ⟨.mat ⟨_,_,mlp.gate⟩,List.mem_map.mpr
      ⟨⟨["model","layers",i.repr,"mlp","gate"],"weight",_⟩,?_,rfl⟩⟩
    refine List.mem_cons_of_mem _ (List.mem_append_left _ (List.mem_flatMap.mpr
      ⟨(_,i),List.mk_mem_zipIdx_iff_getElem?.mpr hlayer,?_⟩))
    simp [under,DecoderLayer.params,DiskMlp.params,RoutedMlp.params]

theorem gate_notMem_layer (layer : DecoderLayer (DiskMlp α) α) :
    ∀ p ∈ layer.params (DiskMlp.params ["router","gate"]), p.path ≠ ["mlp","gate","weight"] := by
  have hmlp : ∀ mlp : DiskMlp α, ∀ p ∈ mlp.params ["router","gate"], p.path ≠ ["gate","weight"] := by
    intro mlp p hp
    cases mlp with
    | dense mlp =>
      simp only [DiskMlp.params,DenseMlp.params,List.mem_cons,List.not_mem_nil,or_false] at hp
      obtain rfl | rfl | rfl := hp <;> simp [Param.path]
    | routed mlp =>
      simp only [DiskMlp.params,RoutedMlp.params,List.mem_cons,List.mem_flatMap,List.not_mem_nil,
        or_false] at hp
      obtain rfl | ⟨e,_,rfl | rfl | rfl⟩ := hp <;> simp [Param.path,expertParam]
  intro p hp
  simp only [DecoderLayer.params,List.mem_append,List.mem_cons,List.not_mem_nil,or_false] at hp
  obtain (hp | hp) | rfl | rfl := hp
  · obtain ⟨q,_,rfl⟩ := List.mem_map.mp hp
    simp [Param.path]
  · obtain ⟨q,hq,rfl⟩ := List.mem_map.mp hp
    intro heq
    exact hmlp layer.mlp q hq (List.cons.inj heq).2
  · simp [Param.path]
  · simp [Param.path]

theorem gateName_notMem_renamed (model : CausalLM (DiskMlp α) α) (i : ℕ) (w : Weight α) :
    (gateName i,w) ∉ renamedCheckpoint model := by
  intro hmem
  obtain ⟨p,hp,heq⟩ := List.mem_map.mp hmem
  have hdotless : ∀ part ∈ ["model","layers",i.repr,"mlp","gate","weight"], Dotless part := by
    simp only [List.forall_mem_cons,List.not_mem_nil,false_imp_iff,implies_true,and_true]
    exact ⟨by decide,by decide,dotless_repr i,by decide,by decide,by decide⟩
  have hpath : p.path = ["model","layers",i.repr,"mlp","gate","weight"] :=
    (dotted_inj (dotless_params (by decide) model _ p hp) hdotless (by simp [Param.path]) (by simp)).mp
      (Prod.mk.inj heq).1
  simp only [CausalLM.params,layerParams,List.mem_cons,List.mem_append,List.mem_flatMap,List.mem_map] at hp
  obtain rfl | ⟨entry,_,hp⟩ | rfl | ⟨head,_,rfl⟩ := hp
  · simp [Param.path] at hpath
  · obtain ⟨q,hq,rfl⟩ := List.mem_map.mp hp
    simp only [Param.path,List.cons_append,List.nil_append,List.cons.injEq,true_and] at hpath
    exact gate_notMem_layer entry.1 q hq hpath.2
  · simp [Param.path] at hpath
  · simp [Param.path] at hpath

theorem stream_ne_checkpoint [Zero α] {model : CausalLM (DiskMlp α) α}
    (harch : model.arch = "Qwen3MoeForCausalLM") (hrouted : ∃ layer ∈ model.layers, layer.mlp.IsRouted)
    {count : ℕ} {native : CausalLM (Mlp α) α} {stream : List (String × Weight α)}
    (hsurgery : applyMoeSurgery model.load none = .ok (count,native))
    (hstream : iterRefitStateDict id native = .ok stream) : asMap stream ≠ asMap model.checkpoint := by
  intro hmap
  obtain ⟨_,_,_,_,hsurgery',hstream',hrenamed,-⟩ := refit_renames_gates .float32 harch hrouted
  obtain ⟨-,rfl⟩ := Prod.mk.inj (Except.ok.inj (hsurgery.symm.trans hsurgery'))
  obtain rfl := Except.ok.inj (hstream.symm.trans hstream')
  obtain ⟨layer,hlayer,hgate⟩ := hrouted
  obtain ⟨i,hi⟩ := List.mem_iff_getElem?.mp hlayer
  obtain ⟨w,hw⟩ := gateName_mem_checkpoint hi hgate
  have hcheckpoint : asMap model.checkpoint (gateName i) = some w :=
    (asMap_eq_some_iff (nodup_names (by decide) (by decide) model model.lmHead)).mpr hw
  rw [← hmap,hrenamed,asMap_eq_some_iff (nodup_renamedCheckpoint model)] at hcheckpoint
  exact gateName_notMem_renamed model i w hcheckpoint

/-- Refit after the surgery gives back the checkpoint: the stream of the worker is the checkpoint as a
map, the metadata lists its names in order with their shapes, and the JAX stream is the same map. -/
def RefitGivesBack [Zero α] (defaultDtype : DType) (model : CausalLM (DiskMlp α) α) : Prop :=
  ∃ count native stream info, applyMoeSurgery model.load none = .ok (count,native) ∧
    iterRefitStateDict id native = .ok stream ∧ asMap stream = asMap model.checkpoint ∧
    prepareMoeRefitInfo defaultDtype native = .ok info ∧
    info.entries.map (fun entry => (entry.1,entry.2.1)) =
      stream.map (fun item => (item.1,item.2.shape)) ∧
    ∀ flat : List (Param α), flat.Perm model.inJax.jaxParams →
      ∃ jaxStream, iterMoeRefitStateDict id flat = .ok jaxStream ∧ asMap jaxStream = asMap model.checkpoint

/-- It never does: the gates of the routed layers are missing from the stream, and without a routed
layer the surgery raises. -/
theorem refit_never_gives_back [Zero α] (defaultDtype : DType) (model : CausalLM (DiskMlp α) α) :
    ¬ RefitGivesBack defaultDtype model := by
  rintro ⟨count,native,stream,info,hsurgery,hstream,hmap,-⟩
  have harch : model.arch = "Qwen3MoeForCausalLM" := by
    by_contra hother
    have hregistry : (surgeryRegistry (α := α)).lookup model.load.arch = none := by
      change surgeryRegistry.lookup model.arch = none
      rw [surgeryRegistry,List.lookup_cons,beq_false_of_ne hother]
      rfl
    rw [applyMoeSurgery,hregistry] at hsurgery
    cases hsurgery
  have hrouted : ∃ layer ∈ model.layers, layer.mlp.IsRouted := by
    by_contra hnone
    rw [applyMoeSurgery_load harch,if_neg hnone] at hsurgery
    cases hsurgery
  exact stream_ne_checkpoint harch hrouted hsurgery hstream hmap

/-- One routed layer with one expert, all sizes one. -/
def oneExpert : CausalLM (DiskMlp ℤ) ℤ where
  arch := "Qwen3MoeForCausalLM"
  dtype := .bfloat16
  embedTokens := ⟨1,1,fun _ _ => 1⟩
  layers := [{
    selfAttn := ⟨⟨1,1,fun _ _ => 2⟩,⟨1,1,fun _ _ => 3⟩,⟨1,1,fun _ _ => 4⟩,⟨1,1,fun _ _ => 5⟩,
      ⟨1,fun _ => 6⟩,⟨1,fun _ => 7⟩⟩
    mlp := .routed ⟨1,1,1,fun _ _ => 8,fun _ _ _ => 9,fun _ _ _ => 10,fun _ _ _ => 11⟩
    inputLayernorm := ⟨1,fun _ => 12⟩
    postAttentionLayernorm := ⟨1,fun _ => 13⟩ }]
  norm := ⟨1,fun _ => 14⟩
  lmHead := some ⟨1,1,fun _ _ => 15⟩

theorem oneExpert_gate_is_lost : (∃ w, ("model.layers.0.mlp.gate.weight",w) ∈ oneExpert.checkpoint) ∧
    (∃ native stream, applyMoeSurgery oneExpert.load none = .ok (1,native) ∧
      iterRefitStateDict id native = .ok stream ∧
      "model.layers.0.mlp.gate.weight" ∉ stream.map Prod.fst) ∧
    ¬ RefitGivesBack .bfloat16 oneExpert := by
  have hrouted : ∃ layer ∈ oneExpert.layers, layer.mlp.IsRouted := ⟨_,List.mem_singleton_self _,trivial⟩
  refine ⟨gateName_mem_checkpoint (i := 0) rfl trivial,
    ⟨oneExpert.native,_,?_,iterRefitStateDict_eq (streamable_native oneExpert),by decide⟩,?_⟩
  · exact (applyMoeSurgery_load rfl).trans (if_pos hrouted)
  · rintro ⟨count,native,stream,info,hsurgery,hstream,hmap,-⟩
    exact stream_ne_checkpoint rfl hrouted hsurgery hstream hmap

/-- The first parameter is streamed as the second. -/
def Exports (p q : Param α) : Prop := baseRefitItem p = .ok (q.name,q.weight)

theorem exports_kernel {parents : List String} {x : String} (h : x ≠ "gate") (t : Mat α) :
    Exports ⟨parents ++ [x],"kernel",.mat t.transpose⟩ ⟨parents ++ [x],"weight",.mat t⟩ := by
  have hrouter : ¬Param.inRouterGate ⟨parents ++ [x],"kernel",Weight.mat t.transpose⟩ := by
    simp [Param.inRouterGate,h]
  rw [Exports,baseRefitItem,if_neg (by simp [groupedExpertSuffixes]),if_neg fun hboth => hrouter hboth.2]
  rfl

theorem exports_passed {parents : List String} (leaf : String) {w : Weight α}
    (h : leaf ∉ groupedExpertSuffixes.map Prod.fst) (hkernel : leaf ≠ "kernel") :
    Exports ⟨parents,leaf,w⟩ ⟨parents,"weight",w⟩ := by
  rw [Exports,baseRefitItem,if_neg h,if_neg fun hboth => hkernel hboth.1,hfOriented,if_neg hkernel]
  rfl

theorem exports_expert {parents : List String} (leaf : String) {w : Weight α}
    (h : leaf ∈ groupedExpertSuffixes.map Prod.fst) : Exports ⟨parents,leaf,w⟩ ⟨parents,leaf,w⟩ := if_pos h

theorem exports_router {parents : List String} (h : parents ≠ []) (t : Mat α) :
    Exports ⟨parents ++ ["router","gate"],"kernel",.mat t.transpose⟩ ⟨parents ++ ["gate"],"weight",.mat t⟩ := by
  have hrouter : Param.inRouterGate ⟨parents ++ ["router","gate"],"kernel",Weight.mat t.transpose⟩ := by
    simp [Param.inRouterGate]
  have hdrop : (parents ++ ["router","gate"]).dropLast.dropLast = parents := by
    rw [List.dropLast_append_cons]
    simp
  rw [Exports,baseRefitItem,if_neg (by simp [groupedExpertSuffixes]),if_pos ⟨rfl,hrouter⟩,hdrop,Param.name,
    dotted_concat _ (by simp),dotted_concat _ h]
  simp only [String.append_assoc]
  rfl

theorem exports_attention (parents : List String) (a : Attention α) :
    List.Forall₂ Exports (under parents a.transpose.jaxParams) (under parents a.params) :=
  .cons (exports_kernel (by decide) _) <| .cons (exports_kernel (by decide) _) <|
    .cons (exports_kernel (by decide) _) <| .cons (exports_kernel (by decide) _) <|
    .cons (exports_passed "scale" (by decide) (by decide)) <|
    .cons (exports_passed "scale" (by decide) (by decide)) .nil

theorem exports_mlp {parents : List String} (h : parents ≠ []) (mlp : DiskMlp α) :
    List.Forall₂ Exports (under parents mlp.inJax.params)
      (under parents (mlp.fusedParams ["gate"])) := by
  cases mlp with
  | dense mlp =>
    exact .cons (exports_kernel (by decide) _) <| .cons (exports_kernel (by decide) _) <|
      .cons (exports_kernel (by decide) _) .nil
  | routed mlp =>
    rw [DiskMlp.inJax,gateRows_fuse,upRows_fuse]
    exact .cons (exports_router h _) <| .cons (exports_expert "w1_EFD" (by decide)) <|
      .cons (exports_expert "w2_EDF" (by decide)) <| .cons (exports_expert "w3_EFD" (by decide)) .nil

theorem exports_layer (parents : List String) (layer : DecoderLayer (DiskMlp α) α) :
    List.Forall₂ Exports (under parents layer.inJax.jaxParams)
      (under parents (layer.params (DiskMlp.fusedParams ["gate"]))) := by
  have hnest : ∀ (x : String) (params : List (Param α)),
      under parents (under [x] params) = under (parents ++ [x]) params := by
    intro x params
    simp [under]
  simp only [DecoderLayer.jaxParams,DecoderLayer.params,under_append,hnest]
  exact List.rel_append (List.rel_append (exports_attention _ _) (exports_mlp (by simp) _))
    (.cons (exports_passed "scale" (by decide) (by decide)) <|
      .cons (exports_passed "scale" (by decide) (by decide)) .nil)

theorem exports_jax (model : CausalLM (DiskMlp α) α) : List.Forall₂ Exports model.inJax.jaxParams
    (model.params (DiskMlp.fusedParams ["gate"]) model.lmHead.toList) := by
  rw [CausalLM.jaxParams,CausalLM.inJax,List.zipIdx_map,List.flatMap_map]
  refine .cons (exports_passed "embedding" (by decide) (by decide)) (List.rel_append ?_
    (.cons (exports_passed "scale" (by decide) (by decide)) ?_))
  · refine List.rel_flatMap (List.forall₂_same.mpr fun entry _ => (rfl : entry = entry)) ?_
    rintro entry _ rfl
    exact exports_layer _ entry.1
  · cases model.lmHead with
    | none => exact .nil
    | some head => exact .cons (@exports_kernel _ [] _ (by decide) _) .nil

/-- A JAX model that holds the weights of a checkpoint streams every tensor of it once, in whatever order
its state is flattened. -/
theorem jax_refit_gives_back (model : CausalLM (DiskMlp α) α) {flat : List (Param α)}
    (hflat : flat.Perm model.inJax.jaxParams) :
    ∃ stream, iterMoeRefitStateDict id flat = .ok stream ∧ stream.Perm model.checkpoint ∧
      asMap stream = asMap model.checkpoint := by
  obtain ⟨params,hexports,hparams⟩ := List.perm_comp_forall₂ hflat (exports_jax model)
  have hbase : flat.mapM baseRefitItem = .ok (named params) := by
    rw [Fallible.mapM_eq_ok,named,List.forall₂_map_right_iff]
    exact hexports
  have hstream : ∀ p ∈ params, Streamable p := fun p hp =>
    streamable_params (fun layer _ => streamable_fusedParams (by simp) layer.mlp) _ p
      (hparams.mem_iff.mp hp)
  have hperm : (named (params.flatMap unbound)).Perm model.checkpoint :=
    ((hparams.flatMap_right unbound).trans (unbound_params ["gate"] _ model)).map _
  have hnodup : (model.checkpoint.map Prod.fst).Nodup :=
    nodup_names (by decide) (by decide) model model.lmHead
  refine ⟨_,?_,hperm,Dict.get?_ofEntries_of_perm hperm ((hperm.map Prod.fst).nodup_iff.mpr hnodup)⟩
  simp only [iterMoeRefitStateDict,hbase,bind,Except.bind]
  exact iterExpandedRefitTensors_named hstream

theorem jax_refit_gives_back_reversed :
    ∃ stream, iterMoeRefitStateDict id oneExpert.inJax.jaxParams.reverse = .ok stream ∧
      stream.Perm oneExpert.checkpoint ∧ asMap stream = asMap oneExpert.checkpoint :=
  jax_refit_gives_back oneExpert (List.reverse_perm _)

end Qwen3Moe
end DockyardRL
