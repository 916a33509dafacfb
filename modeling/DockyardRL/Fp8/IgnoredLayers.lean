import DockyardRL.Lib.Fallible
import Mathlib.Data.List.Infix
import Mathlib.Data.List.Basic

/-! The layers that FP8 inference leaves in BF16: the first and the last ones, and the modules whose
names contain a keyword. -/
namespace DockyardRL
namespace Fp8

/-- `part in text`. -/
def Contains (part text : String) : Prop := part.toList <:+: text.toList

instance (part text : String) : Decidable (Contains part text) :=
  inferInstanceAs (Decidable (_ <:+: _))

inductive InitError
  | kvCacheDtype (got : String)
  /-- An FP8 cache beside weights that are not FP8. -/
  | kvCachePrecision (kvCacheDtype : String)
  /-- No name has a template of the layers. -/
  | layers (layers : List ℕ)
  deriving DecidableEq, Repr

/-- What is read of the configuration of the engine; what may be missing is optional. -/
structure VllmCfg where
  precision : Option String
  kvCacheDtype : String
  numFirstLayersInBf16 : Option ℕ
  numLastLayersInBf16 : Option ℕ
  quantizationIgnoredLayerKws : Option (List String)

def VllmCfg.first (cfg : VllmCfg) : ℕ := cfg.numFirstLayersInBf16.getD 0

def VllmCfg.last (cfg : VllmCfg) : ℕ := cfg.numLastLayersInBf16.getD 0

def VllmCfg.keywords (cfg : VllmCfg) : List String := cfg.quantizationIgnoredLayerKws.getD []

/-- The model that a configuration describes. -/
structure Model where
  numHiddenLayers : ℕ
  paramNames : List String

/-- An element of the list of ignored layers: a name, or a list of names. -/
inductive Ignored
  | single (module : String)
  | several (modules : List String)
  deriving DecidableEq, Repr

/-- The keyword arguments of the engine. -/
structure VllmKwargs where
  quantization : String
  kvCacheDtype : String
  activationScheme : String
  fmt : String
  quantMethod : String
  weightBlockSize : List ℕ
  ignoredLayers : Option (List Ignored)

/-- `text.removesuffix(suffix)`. -/
def removesuffix (suffix text : String) : String :=
  if suffix.toList <:+ text.toList then
    String.ofList (text.toList.take (text.toList.length - suffix.toList.length))
  else text

def vllmModuleName (name : String) : String := removesuffix ".weight" ("model." ++ name)

def layerTemplates (i : ℕ) : List String :=
  ["transformer.h." ++ i.repr ++ ".","layers." ++ i.repr ++ ".","layer." ++ i.repr ++ "."]

def getParamsInLayers (paramNames : List String) (layers : List ℕ) : Except InitError (List String) :=
  let prefixes := (layers.flatMap layerTemplates).filter fun p => ∃ n ∈ paramNames, Contains p n
  if prefixes.length = 0 then .error (.layers layers)
  else .ok ((paramNames.filter fun name =>
    (∃ p ∈ prefixes, Contains p name) ∧ ¬Contains "bias" name ∧ ¬Contains "layernorm" name).map
      vllmModuleName)

def appended (paramNames : List String) (count : ℕ) (layers : List ℕ) :
    Except InitError (List Ignored) :=
  if 0 < count then (getParamsInLayers paramNames layers).map fun params => [Ignored.several params]
  else .ok []

def bf16Params (cfg : VllmCfg) (model : Model) : Except InitError (List Ignored) := do
  let first ← appended model.paramNames cfg.first (List.range cfg.first)
  let last ← appended model.paramNames cfg.last
    ((List.range model.numHiddenLayers).drop (model.numHiddenLayers - cfg.last))
  return first ++ last

def keywordModules (cfg : VllmCfg) (model : Model) : List String :=
  (model.paramNames.map vllmModuleName).filter fun n => ∃ p ∈ cfg.keywords, Contains p n

/-- `fp8_block_quant_kwargs["ignored_layers"]`, where it is set. -/
def ignoredLayers (cfg : VllmCfg) (model : Model) : Except InitError (Option (List Ignored)) :=
  let bf16 := if 0 < cfg.first ∨ 0 < cfg.last then (bf16Params cfg model).map some else .ok none
  bf16.map fun ignored =>
    if cfg.keywords.length = 0 then ignored
    else match ignored with
      | none => some ((keywordModules cfg model).map .single)
      | some ignored => some (ignored ++ (keywordModules cfg model).map .single)

def checkKvCache (cfg : VllmCfg) : Except InitError Unit :=
  if cfg.kvCacheDtype ∉ ["auto","fp8","fp8_e4m3"] then .error (.kvCacheDtype cfg.kvCacheDtype)
  else if "fp8".toList <+: cfg.kvCacheDtype.toList ∧ cfg.precision ≠ some "fp8" then
    .error (.kvCachePrecision cfg.kvCacheDtype)
  else .ok ()

/-- `init_fp8`, without the patches that it applies to the engine. -/
def initFp8 (cfg : VllmCfg) (model : Model) : Except InitError VllmKwargs :=
  (checkKvCache cfg).bind fun _ => (ignoredLayers cfg model).map fun ignored =>
    ⟨"fp8",cfg.kvCacheDtype,"dynamic","e4m3","fp8",[128,128],ignored⟩

variable {cfg : VllmCfg} {model : Model}

/-- A parameter that is quantized, by its name. -/
def Quantized (name : String) : Prop := ¬Contains "bias" name ∧ ¬Contains "layernorm" name

/-- The layers at both ends. -/
def AtEnds (cfg : VllmCfg) (model : Model) (i : ℕ) : Prop :=
  i < cfg.first ∨ model.numHiddenLayers - cfg.last ≤ i ∧ i < model.numHiddenLayers

/-- The modules that are to be left in BF16. -/
def Intended (cfg : VllmCfg) (model : Model) (module : String) : Prop :=
  ∃ name ∈ model.paramNames, module = vllmModuleName name ∧
    ((Quantized name ∧ ∃ i, AtEnds cfg model i ∧ Contains ("layers." ++ i.repr ++ ".") name) ∨
      ∃ keyword ∈ cfg.keywords, Contains keyword module)

/-- The value is a list of names, those of the intended modules; where there is none, no module is
ignored. -/
def NamesExactly (cfg : VllmCfg) (model : Model) (ignored : Option (List Ignored)) : Prop :=
  ∃ names : List String, ignored.getD [] = names.map Ignored.single ∧ ∀ m, m ∈ names ↔ Intended cfg model m

theorem mem_keywordModules {m : String} : m ∈ keywordModules cfg model ↔
    ∃ name ∈ model.paramNames, m = vllmModuleName name ∧
      ∃ keyword ∈ cfg.keywords, Contains keyword m := by
  simp only [keywordModules,List.mem_filter,List.mem_map,decide_eq_true_iff]
  constructor
  · rintro ⟨⟨name,hname,rfl⟩,hkeyword⟩
    exact ⟨name,hname,rfl,hkeyword⟩
  · rintro ⟨name,hname,rfl,hkeyword⟩
    exact ⟨⟨name,hname,rfl⟩,hkeyword⟩

theorem appended_eq_ok {paramNames : List String} {count : ℕ} {layers : List ℕ} {out : List Ignored} :
    appended paramNames count layers = .ok out ↔
      (count = 0 ∧ out = []) ∨
        ∃ params, 0 < count ∧ getParamsInLayers paramNames layers = .ok params ∧
          out = [.several params] := by
  rw [appended]
  rcases Nat.eq_zero_or_pos count with rfl | hpos
  · rw [if_neg (lt_irrefl 0)]
    constructor
    · intro h
      exact .inl ⟨rfl,(Except.ok.inj h).symm⟩
    · rintro (⟨-,rfl⟩ | ⟨params,hpos,-⟩)
      · rfl
      · exact absurd hpos (lt_irrefl 0)
  · rw [if_pos hpos,Fallible.map_eq_ok]
    constructor
    · rintro ⟨params,hparams,rfl⟩
      exact .inr ⟨params,hpos,hparams,rfl⟩
    · rintro (⟨rfl,-⟩ | ⟨params,-,hparams,rfl⟩)
      · exact absurd hpos (lt_irrefl 0)
      · exact ⟨params,hparams,rfl⟩

theorem keywordModules_eq_nil (h : cfg.keywords.length = 0) : keywordModules cfg model = [] := by
  refine List.eq_nil_iff_forall_not_mem.mpr fun m hm => ?_
  obtain ⟨-,-,-,keyword,hkeyword,-⟩ := mem_keywordModules.mp hm
  rw [List.length_eq_zero_iff.mp h] at hkeyword
  exact absurd hkeyword List.not_mem_nil

theorem getD_ignoredLayers {out : Option (List Ignored)} (h : ignoredLayers cfg model = .ok out) :
    ∃ first last, appended model.paramNames cfg.first (List.range cfg.first) = .ok first ∧
      appended model.paramNames cfg.last
        ((List.range model.numHiddenLayers).drop (model.numHiddenLayers - cfg.last)) = .ok last ∧
      out.getD [] = first ++ last ++ (keywordModules cfg model).map .single := by
  obtain ⟨ignored,hignored,rfl⟩ := Fallible.map_eq_ok.mp h
  have hbf16 : ∃ first last,
      appended model.paramNames cfg.first (List.range cfg.first) = .ok first ∧
      appended model.paramNames cfg.last
        ((List.range model.numHiddenLayers).drop (model.numHiddenLayers - cfg.last)) = .ok last ∧
      ignored.getD [] = first ++ last := by
    split_ifs at hignored with hends
    · obtain ⟨bf16,hbf16,rfl⟩ := Fallible.map_eq_ok.mp hignored
      obtain ⟨first,hfirst,hbf16⟩ := Fallible.bind_eq_ok.mp hbf16
      obtain ⟨last,hlast,hbf16⟩ := Fallible.bind_eq_ok.mp hbf16
      exact ⟨first,last,hfirst,hlast,(Except.ok.inj hbf16).symm⟩
    · obtain ⟨hfirst,hlast⟩ := not_or.mp hends
      obtain rfl := Except.ok.inj hignored
      exact ⟨[],[],if_neg hfirst,if_neg hlast,rfl⟩
  obtain ⟨first,last,hfirst,hlast,hsplit⟩ := hbf16
  refine ⟨first,last,hfirst,hlast,?_⟩
  rw [← hsplit]
  by_cases hkeywords : cfg.keywords.length = 0
  · rw [if_pos hkeywords,keywordModules_eq_nil hkeywords,List.map_nil,List.append_nil]
  · rw [if_neg hkeywords]
    cases ignored with
    | none => rfl
    | some bf16 => rfl

/-- The list is the list of the intended modules exactly where no layer is left in BF16 by its
number. -/
theorem ignored_names_iff (hkv : checkKvCache cfg = .ok ()) :
    (∃ kwargs, initFp8 cfg model = .ok kwargs ∧ NamesExactly cfg model kwargs.ignoredLayers) ↔
      cfg.first = 0 ∧ cfg.last = 0 := by
  constructor
  · rintro ⟨kwargs,h,names,hnames,-⟩
    obtain ⟨⟨⟩,-,h⟩ := Fallible.bind_eq_ok.mp h
    obtain ⟨out,hout,rfl⟩ := Fallible.map_eq_ok.mp h
    obtain ⟨first,last,hfirst,hlast,hsplit⟩ := getD_ignoredLayers hout
    have hall : ∀ modules, Ignored.several modules ∉ first ++ last := by
      intro modules hmem
      have hin : Ignored.several modules ∈ out.getD [] := hsplit ▸ List.mem_append_left _ hmem
      rw [hnames] at hin
      obtain ⟨name,-,hname⟩ := List.mem_map.mp hin
      cases hname
    constructor
    · rcases appended_eq_ok.mp hfirst with ⟨hzero,-⟩ | ⟨params,-,-,rfl⟩
      · exact hzero
      · exact absurd (List.mem_append_left _ (List.mem_singleton_self _)) (hall params)
    · rcases appended_eq_ok.mp hlast with ⟨hzero,-⟩ | ⟨params,-,-,rfl⟩
      · exact hzero
      · exact absurd (List.mem_append_right _ (List.mem_singleton_self _)) (hall params)
  · rintro ⟨hfirst,hlast⟩
    have hends : ¬(0 < cfg.first ∨ 0 < cfg.last) := by omega
    obtain ⟨out,hout⟩ : ∃ out, ignoredLayers cfg model = .ok out := by
      rw [ignoredLayers,if_neg hends]
      exact ⟨_,rfl⟩
    obtain ⟨first,last,hfirst',hlast',hsplit⟩ := getD_ignoredLayers hout
    rw [appended,if_neg (by omega)] at hfirst' hlast'
    obtain rfl := Except.ok.inj hfirst'
    obtain rfl := Except.ok.inj hlast'
    refine ⟨_,Fallible.bind_eq_ok.mpr ⟨(),hkv,Fallible.map_eq_ok.mpr ⟨out,hout,rfl⟩⟩,
      keywordModules cfg model,hsplit,fun m => ?_⟩
    rw [mem_keywordModules]
    constructor
    · rintro ⟨name,hname,hm,hkeyword⟩
      exact ⟨name,hname,hm,.inr hkeyword⟩
    · rintro ⟨name,hname,hm,⟨-,i,hi,-⟩ | hkeyword⟩
      · rw [AtEnds] at hi
        omega
      · exact ⟨name,hname,hm,hkeyword⟩

/-- A model with one layer whose head is to be ignored, beside a number of first layers. -/
def headCfg (first : ℕ) : VllmCfg := ⟨some "fp8","auto",some first,none,some ["lm_head"]⟩

def oneLayer : Model := ⟨1,["layers.0.mlp.weight","lm_head.weight"]⟩

theorem checkKvCache_headCfg (first : ℕ) : checkKvCache (headCfg first) = .ok () := by
  have htype : ¬(headCfg first).kvCacheDtype ∉ ["auto","fp8","fp8_e4m3"] :=
    show ¬"auto" ∉ ["auto","fp8","fp8_e4m3"] by decide
  have hlead : ¬("fp8".toList <+: (headCfg first).kvCacheDtype.toList ∧
      (headCfg first).precision ≠ some "fp8") := fun h => h.2 rfl
  rw [checkKvCache,if_neg htype,if_neg hlead]

theorem ignored_names_head : ∃ kwargs, initFp8 (headCfg 0) oneLayer = .ok kwargs ∧
    NamesExactly (headCfg 0) oneLayer kwargs.ignoredLayers :=
  (ignored_names_iff (checkKvCache_headCfg 0)).mpr ⟨rfl,rfl⟩

/-- The first layer is a list within the list. -/
theorem first_layer_nested : ∃ kwargs, initFp8 (headCfg 1) oneLayer = .ok kwargs ∧
    kwargs.ignoredLayers = some [.several ["model.layers.0.mlp"],.single "model.lm_head"] ∧
    ¬NamesExactly (headCfg 1) oneLayer kwargs.ignoredLayers := by
  have hignored : ignoredLayers (headCfg 1) oneLayer =
      .ok (some [.several ["model.layers.0.mlp"],.single "model.lm_head"]) := by
    decide +kernel
  refine ⟨_,Fallible.bind_eq_ok.mpr ⟨(),checkKvCache_headCfg 1,
    Fallible.map_eq_ok.mpr ⟨_,hignored,rfl⟩⟩,rfl,?_⟩
  rintro ⟨names,hnames,-⟩
  obtain ⟨name,-,hname⟩ := List.mem_map.mp (hnames ▸ List.mem_cons_self :
    Ignored.several ["model.layers.0.mlp"] ∈ names.map Ignored.single)
  cases hname

end Fp8
end DockyardRL
