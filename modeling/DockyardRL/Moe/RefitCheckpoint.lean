import DockyardRL.Moe.ExpertRefit

/-! What the engine gets after the surgery, beside the checkpoint the model was loaded from. -/
namespace DockyardRL
namespace Qwen3Moe

open DottedNames

variable {α : Type}

def RoutedMlp.block (m : RoutedMlp α) : MoEBlock α :=
  ⟨m.numExperts,m.hiddenDim,m.intermediateDim,m.gate,m.gateProj,m.downProj,m.upProj,none⟩

theorem gateRows_fuse (m : RoutedMlp α) : m.fuse.gateRows = m.gateProj := by
  funext e r d
  exact dif_pos r.isLt

theorem upRows_fuse (m : RoutedMlp α) : m.fuse.upRows = m.upProj := by
  funext e r d
  have hnot : ¬ m.intermediateDim + r.val < m.intermediateDim := by omega
  refine (dif_neg hnot).trans (congrArg (fun r => m.upProj e r d) (Fin.ext ?_))
  exact Nat.add_sub_cancel_left ..

/-- The feed-forward part of a layer in the converted model. -/
def DiskMlp.native : DiskMlp α → Mlp α
  | .dense mlp => .dense mlp
  | .routed mlp => .native mlp.block

def CausalLM.native (model : CausalLM (DiskMlp α) α) : CausalLM (Mlp α) α :=
  model.withLayers (model.layers.map fun layer => layer.withMlp layer.mlp.native)

theorem surgery_load [Zero α] (mlp : DiskMlp α) : mlp.load.surgery none = .ok mlp.native := by
  cases mlp with
  | dense mlp => rfl
  | routed mlp =>
    rw [DiskMlp.load,Mlp.surgery,buildMoeBlockFromQwen3,gateRows_fuse,upRows_fuse]
    rfl

theorem isSparse_load (mlp : DiskMlp α) : mlp.load.isSparse = true ↔ mlp.IsRouted := by
  cases mlp <;> simp [DiskMlp.load,Mlp.isSparse,DiskMlp.IsRouted]

/-- Without a routed layer there is nothing to convert, and the surgery raises. -/
theorem applyMoeSurgery_load [Zero α] {model : CausalLM (DiskMlp α) α}
    (harch : model.arch = "Qwen3MoeForCausalLM") :
    applyMoeSurgery model.load none =
      if ∃ layer ∈ model.layers, layer.mlp.IsRouted then
        .ok (model.layers.countP fun layer => layer.mlp.IsRouted,model.native)
      else .error .noSparseBlocks := by
  have hregistry : surgeryRegistry.lookup model.load.arch = some (surgeryQwen3Moe (α := α)) := by
    rw [show model.load.arch = model.arch from rfl,harch]
    simp [surgeryRegistry]
  have hlayers : model.load.layers.mapM (fun layer =>
      (layer.mlp.surgery none).map layer.withMlp) =
        (.ok (model.layers.map fun layer => layer.withMlp layer.mlp.native) :
          Except SurgeryError (List (DecoderLayer (Mlp α) α))) := by
    rw [CausalLM.load,CausalLM.withLayers,List.mapM_map]
    refine Fallible.mapM_ok fun layer _ => ?_
    change (layer.mlp.load.surgery none).map _ = _
    rw [surgery_load]
    rfl
  have hcount : model.load.layers.countP (fun layer => layer.mlp.isSparse) =
      model.layers.countP fun layer => layer.mlp.IsRouted := by
    rw [CausalLM.load,CausalLM.withLayers,List.countP_map]
    refine List.countP_congr fun layer _ => ?_
    rw [decide_eq_true_iff]
    exact isSparse_load layer.mlp
  have hzero : (model.layers.countP fun layer => layer.mlp.IsRouted) = 0 ↔
      ¬ ∃ layer ∈ model.layers, layer.mlp.IsRouted := by
    rw [List.countP_eq_zero]
    simp
  simp only [applyMoeSurgery,hregistry,surgeryQwen3Moe,hlayers,hcount,bind,Except.bind,hzero]
  by_cases hrouted : ∃ layer ∈ model.layers, layer.mlp.IsRouted
  · rw [if_neg (not_not_intro hrouted),if_pos hrouted]
    rfl
  · rw [if_pos hrouted,if_neg hrouted]
    rfl

def DiskMlp.fusedParams (gate : List String) : DiskMlp α → List (Param α)
  | .dense mlp => mlp.params
  | .routed mlp =>
    [⟨gate,"weight",.mat ⟨_,_,mlp.gate⟩⟩,⟨["experts"],"w1_EFD",.stack ⟨_,_,_,mlp.gateProj⟩⟩,
      ⟨["experts"],"w2_EDF",.stack ⟨_,_,_,mlp.downProj⟩⟩,
      ⟨["experts"],"w3_EFD",.stack ⟨_,_,_,mlp.upProj⟩⟩]

theorem params_native (mlp : DiskMlp α) : mlp.native.params = mlp.fusedParams ["router","gate"] := by
  cases mlp <;> rfl

theorem layerParams_withMlp {M N : Type} (mlpParams : N → List (Param α)) (f : M → N)
    (layers : List (DecoderLayer M α)) :
    layerParams mlpParams (layers.map fun layer => layer.withMlp (f layer.mlp)) =
      layerParams (fun mlp => mlpParams (f mlp)) layers := by
  rw [layerParams,List.zipIdx_map,List.flatMap_map]
  rfl

theorem listedParams_native (model : CausalLM (DiskMlp α) α) :
    listedParams model.native =
      model.params (DiskMlp.fusedParams ["router","gate"]) [model.lmHead.getD model.embedTokens] := by
  simp only [listedParams,CausalLM.params,CausalLM.native,CausalLM.withLayers,layerParams_withMlp,
    params_native]

theorem streamable_weight {parents : List String} (h : parents ≠ []) (w : Weight α) :
    Streamable ⟨parents,"weight",w⟩ where
  parents_ne := h
  dotless := (by decide : Dotless "weight")
  stack_of_grouped proj hproj := by simp [groupedExpertSuffixes,List.lookup_cons] at hproj
  transferable := lookup_untransferable (by decide : "weight" ≠ "expert_bias_E")

theorem leaf_of_grouped : ∀ leaf ∈ groupedExpertSuffixes.map Prod.fst,
    Dotless leaf ∧ leaf ≠ "expert_bias_E" := by decide

theorem streamable_stack {parents : List String} {leaf : String} (h : parents ≠ [])
    (hleaf : leaf ∈ groupedExpertSuffixes.map Prod.fst) (t : Stack α) :
    Streamable ⟨parents,leaf,.stack t⟩ where
  parents_ne := h
  dotless := (leaf_of_grouped leaf hleaf).1
  stack_of_grouped _ _ := ⟨t,rfl⟩
  transferable := lookup_untransferable (leaf_of_grouped leaf hleaf).2

theorem streamable_under (parents : List String) {params : List (Param α)}
    (h : ∀ p ∈ params, Streamable p) : ∀ p ∈ under parents params, Streamable p := by
  intro p hp
  obtain ⟨q,hq,rfl⟩ := List.mem_map.mp hp
  have hplaced := h q hq
  exact ⟨List.append_ne_nil_of_right_ne_nil _ hplaced.parents_ne,hplaced.dotless,
    hplaced.stack_of_grouped,hplaced.transferable⟩

theorem streamable_params {M : Type} {mlpParams : M → List (Param α)} {model : CausalLM M α}
    (hmlp : ∀ layer ∈ model.layers, ∀ p ∈ mlpParams layer.mlp, Streamable p) (heads : List (Mat α)) :
    ∀ p ∈ model.params mlpParams heads, Streamable p := by
  have hattn : ∀ a : Attention α, ∀ p ∈ a.params, Streamable p := by
    intro a p hp
    simp only [Attention.params,List.mem_cons,List.not_mem_nil,or_false] at hp
    obtain rfl | rfl | rfl | rfl | rfl | rfl := hp <;> exact streamable_weight (by simp) _
  have hlayer : ∀ layer ∈ model.layers, ∀ p ∈ layer.params mlpParams, Streamable p := by
    intro layer hin p hp
    simp only [DecoderLayer.params,List.mem_append,List.mem_cons,List.not_mem_nil,or_false] at hp
    obtain (hp | hp) | rfl | rfl := hp
    · exact streamable_under _ (hattn layer.selfAttn) p hp
    · exact streamable_under _ (hmlp layer hin) p hp
    · exact streamable_weight (by simp) _
    · exact streamable_weight (by simp) _
  intro p hp
  simp only [CausalLM.params,layerParams,List.mem_cons,List.mem_append,List.mem_flatMap,List.mem_map] at hp
  obtain rfl | ⟨entry,hentry,hp⟩ | rfl | ⟨head,_,rfl⟩ := hp
  · exact streamable_weight (by simp) _
  · exact streamable_under _ (hlayer entry.1 (List.fst_mem_of_mem_zipIdx hentry)) p hp
  · exact streamable_weight (by simp) _
  · exact streamable_weight (by simp) _

theorem streamable_fusedParams {gate : List String} (hgate : gate ≠ []) (mlp : DiskMlp α) :
    ∀ p ∈ mlp.fusedParams gate, Streamable p := by
  intro p hp
  cases mlp with
  | dense mlp =>
    simp only [DiskMlp.fusedParams,DenseMlp.params,List.mem_cons,List.not_mem_nil,or_false] at hp
    obtain rfl | rfl | rfl := hp <;> exact streamable_weight (by simp) _
  | routed mlp =>
    simp only [DiskMlp.fusedParams,List.mem_cons,List.not_mem_nil,or_false] at hp
    obtain rfl | rfl | rfl | rfl := hp
    · exact streamable_weight hgate _
    all_goals exact streamable_stack (by simp) (by simp [groupedExpertSuffixes]) _

theorem unbound_fusedParams (gate : List String) (mlp : DiskMlp α) :
    ((mlp.fusedParams gate).flatMap unbound).Perm (mlp.params gate) := by
  cases mlp with
  | dense mlp => exact List.Perm.refl _
  | routed mlp =>
    have hfused : (DiskMlp.fusedParams gate (.routed mlp)).flatMap unbound =
        ⟨gate,"weight",.mat ⟨_,_,mlp.gate⟩⟩ ::
          ((List.finRange mlp.numExperts).map
              (fun e => expertParam e.val "gate_proj" ⟨_,_,mlp.gateProj e⟩) ++
            ((List.finRange mlp.numExperts).map
                (fun e => expertParam e.val "down_proj" ⟨_,_,mlp.downProj e⟩) ++
              (List.finRange mlp.numExperts).map
                fun e => expertParam e.val "up_proj" ⟨_,_,mlp.upProj e⟩)) := by
      simp only [DiskMlp.fusedParams,List.flatMap_cons,List.flatMap_nil,List.append_nil]
      rw [unbound_of_plain (by simp [groupedExpertSuffixes,List.lookup_cons]),
        unbound_of_grouped rfl (by decide : groupedExpertSuffixes.lookup "w1_EFD" = some "gate_proj"),
        unbound_of_grouped rfl (by decide : groupedExpertSuffixes.lookup "w2_EDF" = some "down_proj"),
        unbound_of_grouped rfl (by decide : groupedExpertSuffixes.lookup "w3_EFD" = some "up_proj")]
      rfl
    rw [hfused]
    refine List.Perm.cons _ ?_
    refine (List.Perm.append_left _ List.perm_append_comm).trans ?_
    simp only [List.map_eq_flatMap]
    refine (List.Perm.append_left _ (List.flatMap_append_perm _ _ _)).trans ?_
    exact List.flatMap_append_perm _ _ _

/-- The stream of a model whose experts are fused. -/
theorem unbound_params (gate : List String) (heads : List (Mat α)) (model : CausalLM (DiskMlp α) α) :
    ((model.params (DiskMlp.fusedParams gate) heads).flatMap unbound).Perm
      (model.params (DiskMlp.params gate) heads) := by
  have hplain : ∀ params : List (Param α), (∀ p ∈ params, p.leaf = "weight") →
      params.flatMap unbound = params := by
    intro params hparams
    have hone : ∀ p ∈ params, unbound p = [p] := fun p hp =>
      unbound_of_plain (by rw [hparams p hp]; simp [groupedExpertSuffixes,List.lookup_cons])
    rw [List.flatMap_congr hone,List.flatMap_singleton']
  have hlayer : ∀ layer : DecoderLayer (DiskMlp α) α,
      ((layer.params (DiskMlp.fusedParams gate)).flatMap unbound).Perm
        (layer.params (DiskMlp.params gate)) := by
    intro layer
    rw [DecoderLayer.params,List.flatMap_append,List.flatMap_append,flatMap_unbound_under,
      flatMap_unbound_under,hplain layer.selfAttn.params (by simp [Attention.params]),
      hplain [_,_] (by simp)]
    exact (((unbound_fusedParams gate layer.mlp).map _).append_left _).append_right _
  rw [CausalLM.params,List.flatMap_cons,List.flatMap_append,hplain (_ :: _) (by simp),
    unbound_of_plain (by simp [groupedExpertSuffixes,List.lookup_cons]),List.singleton_append,layerParams,
    List.flatMap_assoc]
  simp only [flatMap_unbound_under]
  refine List.Perm.cons _ (List.Perm.append_right _ ?_)
  exact List.Perm.flatMap_left _ fun entry _ => (hlayer entry.1).map _

def Param.path (p : Param α) : List String := p.parents ++ [p.leaf]

theorem path_under (parents : List String) (params : List (Param α)) :
    (under parents params).map Param.path = (params.map Param.path).map (parents ++ ·) := by
  simp [under,Param.path,Function.comp_def]

theorem nodup_under {parents : List String} {params : List (Param α)}
    (h : (params.map Param.path).Nodup) : ((under parents params).map Param.path).Nodup := by
  rw [path_under]
  exact h.map (List.append_right_injective parents)

theorem ne_of_under {x y : String} (hne : x ≠ y) {params : List (Param α)} {path : List String}
    (hx : path ∈ (under [x] params).map Param.path) (hy : path.head? = some y) : False := by
  rw [path_under] at hx
  obtain ⟨rest,_,rfl⟩ := List.mem_map.mp hx
  exact hne (Option.some.inj hy)

theorem nodup_routed {gate : List String} (hgate : gate.head? ≠ some "experts") (m : RoutedMlp α) :
    ((m.params gate).map Param.path).Nodup := by
  rw [RoutedMlp.params,List.map_cons,List.nodup_cons,List.map_flatMap,List.nodup_flatMap]
  refine ⟨?_,fun e _ => ?_,?_⟩
  · simp only [List.mem_flatMap,List.map_cons,List.map_nil,List.mem_cons,List.not_mem_nil,or_false]
    rintro ⟨e,_,he⟩
    refine hgate ?_
    cases gate with
    | nil => obtain he | he | he := he <;> simp [Param.path,expertParam] at he
    | cons x gate =>
      obtain he | he | he := he <;> exact congrArg some (List.cons.inj he).1
  · simp [Param.path,expertParam]
  · refine (List.nodup_finRange _).imp fun {i j} hij path hi hj => hij ?_
    have hindex : ∀ {e : Fin m.numExperts}, path ∈ [expertParam e.val "gate_proj" ⟨_,_,m.gateProj e⟩,
        expertParam e.val "up_proj" ⟨_,_,m.upProj e⟩,
        expertParam e.val "down_proj" ⟨_,_,m.downProj e⟩].map Param.path →
          path[1]? = some e.val.repr := by
      intro e he
      simp only [List.map_cons,List.map_nil,List.mem_cons,List.not_mem_nil,or_false] at he
      obtain rfl | rfl | rfl := he <;> rfl
    exact Fin.ext (repr_injective (Option.some.inj ((hindex hi).symm.trans (hindex hj))))

theorem nodup_layer {gate : List String} (hgate : gate.head? ≠ some "experts")
    (layer : DecoderLayer (DiskMlp α) α) :
    ((layer.params (DiskMlp.params gate)).map Param.path).Nodup := by
  have hmlp : ((layer.mlp.params gate).map Param.path).Nodup := by
    cases layer.mlp with
    | dense mlp => simp [DiskMlp.params,DenseMlp.params,Param.path]
    | routed mlp => exact nodup_routed hgate mlp
  have hattn : (layer.selfAttn.params.map Param.path).Nodup := by simp [Attention.params,Param.path]
  rw [DecoderLayer.params,List.map_append,List.map_append,List.append_assoc,List.nodup_append,
    List.nodup_append]
  refine ⟨nodup_under hattn,⟨nodup_under hmlp,by simp [Param.path],?_⟩,?_⟩
  · rintro path hpath _ hother rfl
    simp only [List.map_cons,List.map_nil,List.mem_cons,List.not_mem_nil,or_false] at hother
    obtain hother | hother := hother
    · exact ne_of_under (y := "input_layernorm") (by decide) hpath (by rw [hother]; rfl)
    · exact ne_of_under (y := "post_attention_layernorm") (by decide) hpath (by rw [hother]; rfl)
  · rintro path hpath _ hother rfl
    rw [List.mem_append] at hother
    obtain hother | hother := hother
    · rw [path_under] at hother
      obtain ⟨rest,_,hrest⟩ := List.mem_map.mp hother
      exact ne_of_under (y := "mlp") (by decide) hpath (by rw [← hrest]; rfl)
    · simp only [List.map_cons,List.map_nil,List.mem_cons,List.not_mem_nil,or_false] at hother
      obtain hother | hother := hother
      · exact ne_of_under (y := "input_layernorm") (by decide) hpath (by rw [hother]; rfl)
      · exact ne_of_under (y := "post_attention_layernorm") (by decide) hpath (by rw [hother]; rfl)

theorem nodup_layers {gate : List String} (hgate : gate.head? ≠ some "experts")
    (layers : List (DecoderLayer (DiskMlp α) α)) :
    ((layerParams (DiskMlp.params gate) layers).map Param.path).Nodup := by
  rw [layerParams,List.map_flatMap,List.nodup_flatMap]
  refine ⟨fun entry _ => nodup_under (nodup_layer hgate entry.1),?_⟩
  have hindices : (layers.zipIdx.map Prod.snd).Nodup := by
    rw [List.zipIdx_map_snd]
    exact List.nodup_range'
  refine (List.pairwise_map.mp hindices).imp fun {a b} hab path ha hb => hab ?_
  simp only [path_under,List.mem_map] at ha hb
  obtain ⟨_,_,rfl⟩ := ha
  obtain ⟨_,_,hpath⟩ := hb
  simp only [List.cons_append,List.nil_append,List.cons.injEq,true_and] at hpath
  exact (repr_injective hpath.1).symm

theorem nodup_params {gate : List String} (hgate : gate.head? ≠ some "experts")
    (model : CausalLM (DiskMlp α) α) (head : Option (Mat α)) :
    ((model.params (DiskMlp.params gate) head.toList).map Param.path).Nodup := by
  have hlayers : ∀ path ∈ (layerParams (DiskMlp.params gate) model.layers).map Param.path,
      path.take 2 = ["model","layers"] := by
    intro path hpath
    simp only [layerParams,List.map_flatMap,List.mem_flatMap,path_under,List.mem_map] at hpath
    obtain ⟨_,_,_,_,rfl⟩ := hpath
    rfl
  have hends : ((⟨["model","norm"],"weight",.vec model.norm⟩ ::
      head.toList.map fun head => ⟨["lm_head"],"weight",.mat head⟩ : List (Param α)).map
        Param.path).Nodup := by
    cases head <;> simp [Param.path]
  have houter : ∀ path ∈ (⟨["model","norm"],"weight",.vec model.norm⟩ ::
      head.toList.map fun head => ⟨["lm_head"],"weight",.mat head⟩ : List (Param α)).map Param.path,
      path.take 2 = ["model","norm"] ∨ path.take 2 = ["lm_head","weight"] := by
    cases head <;> simp [Param.path]
  rw [CausalLM.params,List.map_cons,List.nodup_cons,List.map_append,List.nodup_append]
  refine ⟨fun hmem => ?_,nodup_layers hgate model.layers,hends,?_⟩
  · obtain hmem | hmem := List.mem_append.mp hmem
    · exact absurd (hlayers ["model","embed_tokens","weight"] hmem) (by decide)
    · exact absurd (houter ["model","embed_tokens","weight"] hmem) (by decide)
  · rintro path hpath _ hother rfl
    have htake := hlayers path hpath
    obtain heq | heq := houter path hother <;> exact absurd (htake.symm.trans heq) (by decide)

theorem dotless_path {parents : List String} {leaf : String} {w : Weight α}
    (h : ∀ part ∈ parents ++ [leaf], Dotless part) :
    ∀ part ∈ (⟨parents,leaf,w⟩ : Param α).path, Dotless part := h

theorem dotless_under {parents : List String} (hparents : ∀ part ∈ parents, Dotless part)
    {params : List (Param α)} (h : ∀ p ∈ params, ∀ part ∈ p.path, Dotless part) :
    ∀ p ∈ under parents params, ∀ part ∈ p.path, Dotless part := by
  intro p hp part hpart
  obtain ⟨q,hq,rfl⟩ := List.mem_map.mp hp
  rw [Param.path,List.append_assoc,List.mem_append] at hpart
  exact hpart.elim (hparents part) (h q hq part)

theorem dotless_params {gate : List String} (hgate : ∀ part ∈ gate, Dotless part)
    (model : CausalLM (DiskMlp α) α) (heads : List (Mat α)) :
    ∀ p ∈ model.params (DiskMlp.params gate) heads, ∀ part ∈ p.path, Dotless part := by
  have hattn : ∀ a : Attention α, ∀ p ∈ a.params, ∀ part ∈ p.path, Dotless part := by
    intro a
    simp only [Attention.params,List.forall_mem_cons,List.not_mem_nil,false_imp_iff,implies_true,
      Param.path]
    decide
  have hdense : ∀ m : DenseMlp α, ∀ p ∈ m.params, ∀ part ∈ p.path, Dotless part := by
    intro m
    simp only [DenseMlp.params,List.forall_mem_cons,List.not_mem_nil,false_imp_iff,implies_true,
      Param.path]
    decide
  have hrouted : ∀ m : RoutedMlp α, ∀ p ∈ m.params gate, ∀ part ∈ p.path, Dotless part := by
    intro m p hp part hpart
    simp only [RoutedMlp.params,List.mem_cons,List.mem_flatMap,List.not_mem_nil,or_false] at hp
    obtain rfl | ⟨e,_,hp⟩ := hp
    · rw [Param.path,List.mem_append,List.mem_singleton] at hpart
      exact hpart.elim (hgate part) fun heq => heq ▸ (by decide : Dotless "weight")
    · have hexpert : ∀ proj, Dotless proj → ∀ t : Mat α,
          ∀ part ∈ (expertParam e.val proj t).path, Dotless part := by
        intro proj hproj t
        simp only [expertParam,Param.path,List.cons_append,List.nil_append,List.forall_mem_cons,
          List.not_mem_nil,false_imp_iff,implies_true,and_true]
        exact ⟨by decide,dotless_repr e.val,hproj,by decide⟩
      obtain rfl | rfl | rfl := hp <;> exact hexpert _ (by decide) _ part hpart
  have hlayer : ∀ layer : DecoderLayer (DiskMlp α) α, ∀ p ∈ layer.params (DiskMlp.params gate),
      ∀ part ∈ p.path, Dotless part := by
    intro layer p hp
    simp only [DecoderLayer.params,List.mem_append,List.mem_cons,List.not_mem_nil,or_false] at hp
    obtain (hp | hp) | rfl | rfl := hp
    · exact dotless_under (by decide) (hattn layer.selfAttn) p hp
    · refine dotless_under (by decide) ?_ p hp
      cases layer.mlp with
      | dense mlp => exact hdense mlp
      | routed mlp => exact hrouted mlp
    · exact dotless_path (by decide)
    · exact dotless_path (by decide)
  intro p hp
  simp only [CausalLM.params,layerParams,List.mem_cons,List.mem_append,List.mem_flatMap,List.mem_map] at hp
  obtain rfl | ⟨entry,_,hp⟩ | rfl | ⟨head,_,rfl⟩ := hp
  · exact dotless_path (by decide)
  · refine dotless_under ?_ (hlayer entry.1) p hp
    simp only [List.forall_mem_cons,List.not_mem_nil,false_imp_iff,implies_true,and_true]
    exact ⟨by decide,by decide,dotless_repr entry.2⟩
  · exact dotless_path (by decide)
  · exact dotless_path (by decide)

theorem name_inj {p q : Param α} (hp : ∀ part ∈ p.path, Dotless part)
    (hq : ∀ part ∈ q.path, Dotless part) : p.name = q.name ↔ p.path = q.path :=
  dotted_inj hp hq (by simp) (by simp)

theorem nodup_named {params : List (Param α)} (hdotless : ∀ p ∈ params, ∀ part ∈ p.path, Dotless part)
    (h : (params.map Param.path).Nodup) : ((named params).map Prod.fst).Nodup := by
  rw [named,List.map_map]
  refine (List.pairwise_map.mpr ((List.pairwise_map.mp h).imp_of_mem fun {p q} hp hq hne => ?_))
  exact fun heq => hne ((name_inj (hdotless p hp) (hdotless q hq)).mp heq)

end Qwen3Moe
end DockyardRL
