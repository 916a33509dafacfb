import Mathlib.Data.List.ReduceOption
import DockyardRL.ToolProtocol.Registry
import Mathlib.Data.Rat.Cast.Defs

/-! What it is to conform to a schema, place by place, and when the validator decides it. Python's
equality takes a boolean in an `enum` for the number 0 or 1. -/
namespace DockyardRL
namespace ToolProtocol

open Fallible

variable {φ : Type} (host : Host φ)

namespace Json

mutual
/-- Equality of JSON: a boolean equals no number. -/
def same : Json φ → Json φ → Bool
  | .null, .null => true
  | .bool a, .bool b => a = b
  | .int m, .int n => m = n
  | .int m, .float x => host.floatEqInt x m
  | .float x, .int n => host.floatEqInt x n
  | .float x, .float y => host.floatEq x y
  | .str s, .str t => s = t
  | .arr as, .arr bs => sameItems as bs
  | .obj fs, .obj gs => fs.length = gs.length && sameFields fs gs
  | _, _ => false
  termination_by structural v => v

def sameItems : List (Json φ) → List (Json φ) → Bool
  | [], [] => true
  | a :: as, b :: bs => same a b && sameItems as bs
  | _, _ => false
  termination_by structural vs => vs

def sameFields : List (String × Json φ) → List (String × Json φ) → Bool
  | [], _ => true
  | (key,a) :: fs, gs => (match gs.lookup key with
      | some b => same a b
      | none => false) && sameFields fs gs
  termination_by structural fs => fs
end

/-- The types of a value; an integer is a number without a fraction in its text. -/
inductive IsInstance : Json φ → String → Prop
  | null : IsInstance .null "null"
  | bool (b : Bool) : IsInstance (.bool b) "boolean"
  | int (n : ℤ) : IsInstance (.int n) "integer"
  | intNumber (n : ℤ) : IsInstance (.int n) "number"
  | float (x : φ) : IsInstance (.float x) "number"
  | str (s : String) : IsInstance (.str s) "string"
  | arr (items : List (Json φ)) : IsInstance (.arr items) "array"
  | obj (fields : List (String × Json φ)) : IsInstance (.obj fields) "object"

end Json

/-- A schema of the subset. -/
inductive WellFormed : Schema φ → Prop
  | dict {type enum required : Option (Json φ)} {properties : List (String × Schema φ)}
      {items : Option (Schema φ)}
      (type_name : ∀ t ∈ type, ∃ name, t = .str name ∧ name ∈ (jsonTypes (φ := φ)).map Prod.fst)
      (enum_list : ∀ e ∈ enum, ∃ allowed, e = .arr allowed)
      (required_names : ∀ r ∈ required, ∃ keys : List String, r = .arr (keys.map .str))
      (properties_wf : ∀ key schema, (key,schema) ∈ properties → WellFormed schema)
      (items_wf : ∀ schema ∈ items, WellFormed schema) :
      WellFormed (.dict type enum required (some properties) items)

/-- The places of a value that a schema speaks about: the value, every property that is present, every
item, and on. -/
inductive Reaches : Schema φ → Json φ → Schema φ → Json φ → Prop
  | here (schema : Schema φ) (value : Json φ) : Reaches schema value schema value
  | property {type enum required : Option (Json φ)} {properties : List (String × Schema φ)}
      {items : Option (Schema φ)} {fields : List (String × Json φ)} {key : String}
      {schema s : Schema φ} {value v : Json φ} (schema_mem : (key,schema) ∈ properties)
      (present : fields.lookup key = some value) (rest : Reaches schema value s v) :
      Reaches (.dict type enum required (some properties) items) (.obj fields) s v
  | item {type enum required : Option (Json φ)} {properties : Option (List (String × Schema φ))}
      {schema s : Schema φ} {values : List (Json φ)} {value v : Json φ} (value_mem : value ∈ values)
      (rest : Reaches schema value s v) :
      Reaches (.dict type enum required properties (some schema)) (.arr values) s v

/-- The keywords of one place, over an equality. -/
structure Meets (eq : Json φ → Json φ → Bool) (type enum required : Option (Json φ))
    (value : Json φ) : Prop where
  type_ok : ∀ name, type = some (.str name) → value.IsInstance name
  enum_ok : ∀ allowed, enum = some (.arr allowed) → ∃ a ∈ allowed, eq value a = true
  required_ok : ∀ keys fields key, required = some (.arr keys) → value = .obj fields →
    .str key ∈ keys → (fields.lookup key).isSome = true

/-- Every place meets its keywords. -/
def Conforms (eq : Json φ → Json φ → Bool) (schema : Schema φ) (value : Json φ) : Prop :=
  ∀ type enum required properties items v,
    Reaches schema value (.dict type enum required properties items) v → Meets eq type enum required v

variable {eq : Json φ → Json φ → Bool}

theorem conforms_dict {type enum required : Option (Json φ)} {properties : List (String × Schema φ)}
    {items : Option (Schema φ)} {value : Json φ} :
    Conforms eq (.dict type enum required (some properties) items) value ↔
      Meets eq type enum required value ∧
        (∀ fields, value = .obj fields → ∀ key schema v, (key,schema) ∈ properties →
          fields.lookup key = some v → Conforms eq schema v) ∧
        ∀ values, value = .arr values → ∀ schema, items = some schema → ∀ v ∈ values,
          Conforms eq schema v := by
  constructor
  · refine fun h => ⟨h _ _ _ _ _ _ (.here _ _),?_,?_⟩
    · rintro fields rfl key schema v hmem hpresent type enum required properties items w hreach
      exact h _ _ _ _ _ _ (.property hmem hpresent hreach)
    · rintro values rfl schema rfl v hv type enum required properties items w hreach
      exact h _ _ _ _ _ _ (.item hv hreach)
  · rintro ⟨hhere,hproperties,hitems⟩ type' enum' required' properties' items' w hreach
    cases hreach with
    | here => exact hhere
    | property hmem hpresent hrest => exact hproperties _ rfl _ _ _ hmem hpresent _ _ _ _ _ _ hrest
    | item hv hrest => exact hitems _ rfl _ rfl _ hv _ _ _ _ _ _ hrest

namespace Json

mutual
theorem equal_of_same : ∀ {a b : Json φ}, same host a b = true → equal host a b = true
  | .null,b,h => by cases b <;> simp_all [same,equal]
  | .bool _,b,h => by cases b <;> simp_all [same,equal]
  | .int _,b,h => by cases b <;> simp_all [same,equal]
  | .float _,b,h => by cases b <;> simp_all [same,equal]
  | .str _,b,h => by cases b <;> simp_all [same,equal]
  | .arr as,b,h => by
    cases b with
    | arr bs => exact equalItems_of_same h
    | _ => cases h
  | .obj fs,b,h => by
    cases b with
    | obj gs =>
      simp only [same,Bool.and_eq_true,decide_eq_true_eq] at h
      simp only [equal,Bool.and_eq_true,decide_eq_true_eq]
      exact ⟨h.1,equalFields_of_same h.2⟩
    | _ => cases h

theorem equalItems_of_same : ∀ {as bs : List (Json φ)},
    sameItems host as bs = true → equalItems host as bs = true
  | [],bs,h => by cases bs <;> simp_all [sameItems,equalItems]
  | a :: as,bs,h => by
    cases bs with
    | nil => cases h
    | cons b bs =>
      simp only [sameItems,Bool.and_eq_true] at h
      simp only [equalItems,Bool.and_eq_true]
      exact ⟨equal_of_same h.1,equalItems_of_same h.2⟩

theorem equalFields_of_same : ∀ {fs gs : List (String × Json φ)},
    sameFields host fs gs = true → equalFields host fs gs = true
  | [],gs,_ => rfl
  | (key,a) :: fs,gs,h => by
    simp only [sameFields,Bool.and_eq_true] at h
    simp only [equalFields,Bool.and_eq_true]
    refine ⟨?_,equalFields_of_same h.2⟩
    cases hkey : gs.lookup key with
    | none => simp [hkey] at h
    | some b =>
      rw [hkey] at h
      exact equal_of_same h.1
end

end Json

/-- A check that returns, and reports nothing exactly when the property holds. -/
def Decides (check : Except Raised (List String)) (P : Prop) : Prop :=
  ∃ errs, check = .ok errs ∧ (errs = [] ↔ P)

theorem Decides.congr {check : Except Raised (List String)} {P Q : Prop} (h : Decides check P)
    (hiff : P ↔ Q) : Decides check Q := by
  obtain ⟨errs,hok,herrs⟩ := h
  exact ⟨errs,hok,herrs.trans hiff⟩

theorem decides_mapM {α : Type} {check : α → Except Raised (List String)} {P : α → Prop}
    {l : List α} (h : ∀ x ∈ l, Decides (check x) (P x)) :
    Decides ((l.mapM check).map List.flatten) (∀ x ∈ l, P x) := by
  obtain ⟨errs,hok,hall⟩ := exists_mapM_forall₂ h
  refine ⟨errs.flatten,by rw [hok]; rfl,?_⟩
  clear h hok
  induction hall with
  | nil => simp
  | cons hiff _ ih => rw [List.flatten_cons,List.append_eq_nil_iff,hiff,ih,List.forall_mem_cons]

theorem decides_reduceOption {α : Type} {check : α → Except Raised (Option String)} {P : α → Prop}
    {l : List α} (h : ∀ x ∈ l, ∃ found, check x = .ok found ∧ (found = none ↔ P x)) :
    Decides ((l.mapM check).map List.reduceOption) (∀ x ∈ l, P x) := by
  obtain ⟨found,hok,hall⟩ := exists_mapM_forall₂ h
  refine ⟨found.reduceOption,by rw [hok]; rfl,?_⟩
  clear h hok
  induction hall with
  | nil => simp
  | @cons x y l found hiff _ ih =>
    rw [List.forall_mem_cons,← ih,← hiff]
    cases y with
    | none => simp [List.reduceOption_cons_of_none]
    | some error => simp [List.reduceOption_cons_of_some]

theorem isInstance_iff {value : Json φ} {name : String} : value.IsInstance name ↔
    name = value.pytypeName ∨ name = "number" ∧ value.pytypeName = "integer" := by
  constructor
  · intro h
    cases h <;> simp [Json.pytypeName]
  · rintro (rfl | ⟨rfl,hvalue⟩)
    · cases value <;> constructor
    · cases value with
      | int n => exact .intNumber n
      | _ => simp [Json.pytypeName] at hvalue

theorem typeMatches_iff {value : Json φ} {name : String}
    (hname : name ∈ (jsonTypes (φ := φ)).map Prod.fst) :
    ∃ isMatch, typeMatches host value name = .ok isMatch ∧
      (isMatch = true ↔ value.IsInstance name) := by
  simp only [jsonTypes,List.map_cons,List.map_nil,List.mem_cons,List.not_mem_nil,or_false] at hname
  rcases hname with rfl | rfl | rfl | rfl | rfl | rfl | rfl <;> refine ⟨_,rfl,?_⟩ <;>
    rw [isInstance_iff] <;> cases value <;> simp [Json.pytypeName]

theorem typeErrors_decides {type : Option (Json φ)} (value : Json φ) (path : String)
    (htype : ∀ t ∈ type, ∃ name, t = .str name ∧ name ∈ (jsonTypes (φ := φ)).map Prod.fst) :
    Decides (typeErrors host type value path)
      (∀ name, type = some (.str name) → value.IsInstance name) := by
  cases type with
  | none => exact ⟨[],rfl,by simp⟩
  | some t =>
    obtain ⟨name,rfl,hname⟩ := htype t rfl
    obtain ⟨isMatch,hok,hmatch⟩ := @typeMatches_iff _ host value _ hname
    rw [typeErrors,hok]
    refine ⟨_,rfl,?_⟩
    simp only [Option.some.injEq,Json.str.injEq,forall_eq']
    rw [← hmatch]
    cases isMatch <;> simp

theorem enumErrors_decides {enum : Option (Json φ)} (value : Json φ) (path : String)
    (henum : ∀ e ∈ enum, ∃ allowed, e = .arr allowed) :
    Decides (enumErrors host enum value path)
      (∀ allowed, enum = some (.arr allowed) → ∃ a ∈ allowed, Json.equal host value a = true) := by
  cases enum with
  | none => exact ⟨[],rfl,by simp⟩
  | some e =>
    obtain ⟨allowed,rfl⟩ := henum e rfl
    refine ⟨_,rfl,?_⟩
    simp only [Option.some.injEq,Json.arr.injEq,forall_eq']
    rw [← List.any_eq_true]
    cases allowed.any (Json.equal host value) <;> simp

theorem requiredErrors_decides {required : Option (Json φ)} (fields : List (String × Json φ))
    (path : String) (hrequired : ∀ r ∈ required, ∃ keys : List String, r = .arr (keys.map .str)) :
    Decides (requiredErrors host required fields path)
      (∀ keys key, required = some (.arr keys) → .str key ∈ keys →
        (fields.lookup key).isSome = true) := by
  cases required with
  | none => exact ⟨[],rfl,by simp⟩
  | some r =>
    obtain ⟨keys,rfl⟩ := hrequired r rfl
    have hmissing : ∀ key ∈ keys.map Json.str, ∃ missing, missingKey host fields path key = .ok missing ∧
        (missing = none ↔ ∀ k, key = .str k → (fields.lookup k).isSome = true) := by
      intro key hkey
      obtain ⟨k,-,rfl⟩ := List.mem_map.mp hkey
      exact ⟨_,rfl,by simp⟩
    refine (decides_reduceOption hmissing).congr ⟨?_,?_⟩
    · intro h names key hnames hkey
      obtain rfl := Json.arr.inj (Option.some.inj hnames)
      exact h _ hkey key rfl
    · rintro h _ hkey k rfl
      exact h _ k rfl hkey

theorem validateEach_decides {properties : List (String × Schema φ)}
    {P : Schema φ → Json φ → Prop} (fields : List (String × Json φ)) (path : String)
    (h : ∀ key schema, (key,schema) ∈ properties → ∀ value path,
      Decides (validateAgainstSchema host schema value path) (P schema value)) :
    Decides (validateEach host properties fields path) (∀ key schema value,
      (key,schema) ∈ properties → fields.lookup key = some value → P schema value) := by
  induction properties with
  | nil => exact ⟨[],by rw [validateEach],by simp⟩
  | cons entry rest ih =>
    obtain ⟨key,subschema⟩ := entry
    obtain ⟨errs,hok,herrs⟩ := ih fun k s hs => h k s (List.mem_cons_of_mem _ hs)
    rw [validateEach]
    cases hkey : fields.lookup key with
    | none =>
      refine ⟨errs,by simp [hok,Except.map,bind,Except.bind],herrs.trans ⟨?_,?_⟩⟩
      · intro hrest k s v hmem hv
        obtain heq | hmem := List.mem_cons.mp hmem
        · obtain ⟨rfl,rfl⟩ := Prod.mk.inj heq
          rw [hkey] at hv
          cases hv
        · exact hrest k s v hmem hv
      · exact fun hall k s v hmem => hall k s v (List.mem_cons_of_mem _ hmem)
    | some value =>
      obtain ⟨first,hfirst,hiff⟩ := h key subschema List.mem_cons_self value s!"{path}.{key}"
      refine ⟨first ++ errs,by simp [hok,hfirst,Except.map,bind,Except.bind],?_⟩
      rw [List.append_eq_nil_iff,hiff,herrs]
      constructor
      · rintro ⟨hhere,hrest⟩ k s v hmem hv
        obtain heq | hmem := List.mem_cons.mp hmem
        · obtain ⟨rfl,rfl⟩ := Prod.mk.inj heq
          rw [hkey] at hv
          obtain rfl := Option.some.inj hv
          exact hhere
        · exact hrest k s v hmem hv
      · exact fun hall => ⟨hall _ _ _ List.mem_cons_self hkey,
          fun k s v hmem => hall k s v (List.mem_cons_of_mem _ hmem)⟩

theorem descends_object {type : Option (Json φ)} {fields : List (String × Json φ)}
    (htype : ∀ t ∈ type, ∃ name, t = .str name ∧ name ∈ (jsonTypes (φ := φ)).map Prod.fst)
    (hinstance : ∀ name, type = some (.str name) → (Json.obj fields).IsInstance name) :
    descends type "object" (.obj fields) = true := by
  cases type with
  | none => rfl
  | some t =>
    obtain ⟨name,rfl,-⟩ := htype t rfl
    cases hinstance name rfl
    rfl

theorem descends_array {type : Option (Json φ)} {values : List (Json φ)}
    (htype : ∀ t ∈ type, ∃ name, t = .str name ∧ name ∈ (jsonTypes (φ := φ)).map Prod.fst)
    (hinstance : ∀ name, type = some (.str name) → (Json.arr values).IsInstance name) :
    descends type "array" (.arr values) = true := by
  cases type with
  | none => rfl
  | some t =>
    obtain ⟨name,rfl,-⟩ := htype t rfl
    cases hinstance name rfl
    rfl

theorem validateObject_of_not_obj (required : Option (Json φ))
    (properties : List (String × Schema φ)) (called : Bool) {value : Json φ} (path : String)
    (h : ∀ fields, value ≠ .obj fields) :
    validateObject host required (some properties) called value path = .ok [] := by
  cases called with
  | false => rfl
  | true =>
    cases value with
    | obj fields => exact absurd rfl (h fields)
    | _ => rfl

theorem validateArray_of_not_arr (items : Option (Schema φ)) (called : Bool) {value : Json φ}
    (path : String) (h : ∀ values, value ≠ .arr values) :
    validateArray host items called value path = .ok [] := by
  cases items with
  | none => rfl
  | some schema =>
    cases called with
    | false => cases schema <;> rfl
    | true =>
      cases value with
      | arr values => exact absurd rfl (h values)
      | _ => cases schema <;> rfl

theorem validate_decides {schema : Schema φ} (hwf : WellFormed schema) (value : Json φ)
    (path : String) : Decides (validateAgainstSchema host schema value path)
      (Conforms (Json.equal host) schema value) := by
  induction hwf generalizing value path with
  | @dict type enum required properties items htype henum hrequired _ hitemsWf hproperties hitems =>
    obtain ⟨mismatch,hmismatch,hinstance⟩ := typeErrors_decides host value path htype
    rw [validateAgainstSchema,hmismatch]
    by_cases hwrong : mismatch = []
    · have htyped := hinstance.mp hwrong
      obtain ⟨enumErrs,henumErrs,henumIff⟩ := enumErrors_decides host value path henum
      obtain ⟨objectErrs,hobjectErrs,hobjectIff⟩ : Decides
          (validateObject host required (some properties) (descends type "object" value) value path)
          (∀ fields, value = .obj fields → (∀ keys key, required = some (.arr keys) → .str key ∈ keys →
            (fields.lookup key).isSome = true) ∧ ∀ key schema v, (key,schema) ∈ properties →
              fields.lookup key = some v → Conforms (Json.equal host) schema v) := by
        cases value with
        | obj fields =>
          obtain ⟨missing,hmissing,hmissingIff⟩ := requiredErrors_decides host fields path hrequired
          obtain ⟨errs,herrs,herrsIff⟩ := validateEach_decides host fields path hproperties
          rw [descends_object htype htyped]
          refine ⟨missing ++ errs,by simp [validateObject,hmissing,herrs,Except.map,bind,Except.bind],?_⟩
          rw [List.append_eq_nil_iff,hmissingIff,herrsIff]
          simp
        | _ => exact ⟨[],validateObject_of_not_obj host _ _ _ _ (by simp),by simp⟩
      obtain ⟨arrayErrs,harrayErrs,harrayIff⟩ : Decides
          (validateArray host items (descends type "array" value) value path)
          (∀ values, value = .arr values → ∀ schema, items = some schema → ∀ v ∈ values,
            Conforms (Json.equal host) schema v) := by
        cases value with
        | arr values =>
          cases items with
          | none => exact ⟨[],rfl,by simp⟩
          | some schema =>
            have heach : ∀ entry ∈ values.zipIdx, Decides
                (validateAgainstSchema host schema entry.1 s!"{path}[{entry.2}]")
                (Conforms (Json.equal host) schema entry.1) :=
              fun entry _ => hitems schema rfl entry.1 _
            rw [descends_array htype htyped]
            have hcalled : validateArray host (some schema) true (.arr values) path =
                (values.zipIdx.mapM fun entry : Json φ × ℕ => validateAgainstSchema host schema entry.1
                  s!"{path}[{entry.2}]").map List.flatten := by
              cases hitemsWf schema rfl
              rfl
            rw [hcalled]
            refine (decides_mapM heach).congr ⟨?_,?_⟩
            · intro h values' hvalues s hs v hv
              obtain rfl := Json.arr.inj hvalues
              obtain rfl := Option.some.inj hs
              obtain ⟨i,hi⟩ := List.mem_iff_getElem?.mp hv
              exact h (v,i) (List.mem_zipIdx_iff_getElem?.mpr hi)
            · exact fun h entry hentry => h values rfl schema rfl _ (List.fst_mem_of_mem_zipIdx hentry)
        | _ => exact ⟨[],validateArray_of_not_arr host _ _ _ (by simp),by simp⟩
      refine ⟨enumErrs ++ objectErrs ++ arrayErrs,by
        simp [hwrong,henumErrs,hobjectErrs,harrayErrs,bind,Except.bind,pure,Except.pure],?_⟩
      rw [List.append_eq_nil_iff,List.append_eq_nil_iff,henumIff,hobjectIff,harrayIff,conforms_dict]
      constructor
      · rintro ⟨⟨henums,hobject⟩,harray⟩
        refine ⟨⟨htyped,henums,fun keys fields key hkeys hvalue hkey => ?_⟩,?_,harray⟩
        · exact (hobject fields hvalue).1 keys key hkeys hkey
        · exact fun fields hvalue => (hobject fields hvalue).2
      · rintro ⟨hmeets,hobject,harray⟩
        refine ⟨⟨hmeets.enum_ok,fun fields hvalue => ⟨fun keys key hkeys hkey => ?_,?_⟩⟩,harray⟩
        · exact hmeets.required_ok keys fields key hkeys hvalue hkey
        · exact hobject fields hvalue
    · refine ⟨mismatch,by simp [hwrong,bind,Except.bind,pure,Except.pure],?_⟩
      rw [conforms_dict]
      exact iff_of_false hwrong fun h => hwrong (hinstance.mpr h.1.type_ok)

theorem Meets.mono {eq' : Json φ → Json φ → Bool} {type enum required : Option (Json φ)}
    {value : Json φ} (h : Meets eq type enum required value)
    (himp : ∀ a b, eq a b = true → eq' a b = true) : Meets eq' type enum required value where
  type_ok := h.type_ok
  enum_ok allowed heq := by
    obtain ⟨a,ha,hsame⟩ := h.enum_ok allowed heq
    exact ⟨a,ha,himp _ _ hsame⟩
  required_ok := h.required_ok

/-- Some place fails a keyword even when booleans are numbers. -/
def FailsSomewhere (schema : Schema φ) (value : Json φ) : Prop :=
  ∃ type enum required properties items v,
    Reaches schema value (.dict type enum required properties items) v ∧
      ¬Meets (Json.equal host) type enum required v

/-- Some place has a value that its `enum` lists only when booleans are numbers. -/
def ConfusedSomewhere (schema : Schema φ) (value : Json φ) : Prop :=
  ∃ type allowed required properties items v,
    Reaches schema value (.dict type (some (.arr allowed)) required properties items) v ∧
      (∃ a ∈ allowed, Json.equal host v a = true) ∧ ∀ a ∈ allowed, Json.same host v a = false

theorem not_failsSomewhere {schema : Schema φ} {value : Json φ} :
    ¬FailsSomewhere host schema value ↔ Conforms (Json.equal host) schema value := by
  simp only [FailsSomewhere,Conforms,not_exists,not_and,not_not]

theorem conforms_same_iff {schema : Schema φ} {value : Json φ} :
    Conforms (Json.same host) schema value ↔
      Conforms (Json.equal host) schema value ∧ ¬ConfusedSomewhere host schema value := by
  constructor
  · refine fun h => ⟨fun type enum required properties items v hreach =>
      (h _ _ _ _ _ _ hreach).mono fun _ _ => Json.equal_of_same host,?_⟩
    rintro ⟨type,allowed,required,properties,items,v,hreach,-,hnone⟩
    obtain ⟨a,ha,hsame⟩ := (h _ _ _ _ _ _ hreach).enum_ok allowed rfl
    rw [hnone a ha] at hsame
    cases hsame
  · rintro ⟨h,hclear⟩ type enum required properties items v hreach
    have hmeets := h _ _ _ _ _ _ hreach
    refine ⟨hmeets.type_ok,?_,hmeets.required_ok⟩
    rintro allowed rfl
    by_contra hnone
    refine hclear ⟨type,allowed,required,properties,items,v,hreach,hmeets.enum_ok allowed rfl,?_⟩
    exact fun a ha => Bool.eq_false_iff.mpr fun hsame => hnone ⟨a,ha,hsame⟩

/-- The validator returns for every schema of the subset, and decides conformity unless a boolean
passes for a number, or a number for a boolean, in a value that passes everywhere else. -/
theorem validate_decides_iff {schema : Schema φ} (hwf : WellFormed schema) (value : Json φ)
    (path : String) :
    (∃ errs, validateAgainstSchema host schema value path = .ok errs) ∧
      ((validateAgainstSchema host schema value path = .ok [] ↔
          Conforms (Json.same host) schema value) ↔
        FailsSomewhere host schema value ∨ ¬ConfusedSomewhere host schema value) := by
  obtain ⟨errs,hok,hiff⟩ := validate_decides host hwf value path
  have hnil : validateAgainstSchema host schema value path = .ok [] ↔
      Conforms (Json.equal host) schema value := by
    rw [hok,Except.ok.injEq,hiff]
  refine ⟨⟨errs,hok⟩,?_⟩
  rw [hnil,conforms_same_iff,← not_failsSomewhere]
  tauto

def silentHost : Host ℚ where
  floatEq x y := x = y
  floatEqInt x n := x = n
  repr _ := ""
  loads _ := .error .other
  dumps _ := ""
  subscriptError _ := ""

/-- An object whose `sizes` are a list of 1s and 2s. -/
def sizesSchema : Schema ℚ :=
  .dict (some (.str "object")) none (some (.arr [.str "sizes"]))
    (some [("sizes",.dict (some (.str "array")) none none (some [])
      (some (.dict none (some (.arr [.int 1,.int 2])) none (some []) none)))]) none

theorem wellFormed_sizesSchema : WellFormed sizesSchema := by
  have hitem : WellFormed (.dict none (some (.arr [.int 1,.int 2])) none (some []) none : Schema ℚ) :=
    .dict (by simp) (by simp) (by simp) (by simp) (by simp)
  have hsizes : WellFormed (.dict (some (.str "array")) none none (some [])
      (some (.dict none (some (.arr [.int 1,.int 2])) none (some []) none)) : Schema ℚ) :=
    .dict (by simp [jsonTypes]) (by simp) (by simp) (by simp) (by simpa using hitem)
  refine .dict (by simp [jsonTypes]) (by simp) ?_ ?_ (by simp)
  · rintro _ ⟨⟩
    exact ⟨["sizes"],rfl⟩
  · intro key schema hmem
    obtain ⟨-,rfl⟩ := Prod.mk.inj (List.mem_singleton.mp hmem)
    exact hsizes

theorem validate_decides_iff_sizes :
    (∃ errs, validateAgainstSchema silentHost sizesSchema (.obj [("sizes",.arr [.int 2])]) "$" =
        .ok errs) ∧
      ((validateAgainstSchema silentHost sizesSchema (.obj [("sizes",.arr [.int 2])]) "$" = .ok [] ↔
          Conforms (Json.same silentHost) sizesSchema (.obj [("sizes",.arr [.int 2])])) ↔
        FailsSomewhere silentHost sizesSchema (.obj [("sizes",.arr [.int 2])]) ∨
          ¬ConfusedSomewhere silentHost sizesSchema (.obj [("sizes",.arr [.int 2])])) :=
  validate_decides_iff silentHost wellFormed_sizesSchema _ "$"

/-- `true` is a size. -/
theorem true_passes_for_one : WellFormed sizesSchema ∧
    ¬(validateAgainstSchema silentHost sizesSchema (.obj [("sizes",.arr [.bool true])]) "$" = .ok [] ↔
      Conforms (Json.same silentHost) sizesSchema (.obj [("sizes",.arr [.bool true])])) := by
  refine ⟨wellFormed_sizesSchema,fun h => ?_⟩
  have hpasses : validateAgainstSchema silentHost sizesSchema (.obj [("sizes",.arr [.bool true])]) "$" =
      .ok [] := rfl
  have hitem := h.mp hpasses none (some (.arr [.int 1,.int 2])) none (some []) none (.bool true)
    (.property List.mem_cons_self rfl (.item List.mem_cons_self (.here _ _)))
  obtain ⟨a,ha,hsame⟩ := hitem.enum_ok _ rfl
  obtain rfl | rfl : a = .int 1 ∨ a = .int 2 := by simpa using ha
  · cases hsame
  · cases hsame

end ToolProtocol
end DockyardRL
