import DockyardRL.Lib.Fallible
import Mathlib.Data.List.Basic
import Mathlib.Data.List.Dedup
import Mathlib.Data.List.Induction
import Mathlib.Data.List.Nodup

/-! Dictionaries that keep the order of insertion: an entry that is set again stays where
it is, a new one goes to the end. -/
namespace DockyardRL

/-- A dictionary as the list of its entries; no key occurs twice. -/
structure Dict (κ α : Type*) where
  entries : List (κ × α)
  nodup : (entries.map Prod.fst).Nodup

namespace Dict

variable {κ α β : Type*}

theorem ext_entries {d d' : Dict κ α} (h : d.entries = d'.entries) : d = d' := by
  cases d
  cases d'
  cases h
  rfl

def empty : Dict κ α := ⟨[],List.nodup_nil⟩

def keys (d : Dict κ α) : List κ := d.entries.map Prod.fst

def size (d : Dict κ α) : ℕ := d.entries.length

def mapValues (f : α → β) (d : Dict κ α) : Dict κ β where
  entries := d.entries.map fun entry => (entry.1,f entry.2)
  nodup := by simpa [Function.comp_def] using d.nodup

@[simp] theorem keys_mapValues (f : α → β) (d : Dict κ α) : (d.mapValues f).keys = d.keys := by
  simp [keys,mapValues,Function.comp_def]

theorem mapValues_mapValues {γ : Type*} (f : α → β) (g : β → γ) (d : Dict κ α) :
    (d.mapValues f).mapValues g = d.mapValues (g ∘ f) :=
  ext_entries (List.map_map (f := fun entry : κ × α => (entry.1,f entry.2)))

theorem mapValues_congr {f g : α → β} {d : Dict κ α} (h : ∀ entry ∈ d.entries, f entry.2 = g entry.2) :
    d.mapValues f = d.mapValues g :=
  ext_entries (List.map_congr_left fun entry hentry => congrArg (Prod.mk entry.1) (h entry hentry))

@[simp] theorem mapValues_id (d : Dict κ α) : d.mapValues id = d := ext_entries (List.map_id _)

def filterKeys (p : κ → Bool) (d : Dict κ α) : Dict κ α where
  entries := d.entries.filter fun entry => p entry.1
  nodup := d.nodup.sublist (List.filter_sublist.map _)

theorem filterKeys_mapValues (p : κ → Bool) (f : α → β) (d : Dict κ α) :
    (d.mapValues f).filterKeys p = (d.filterKeys p).mapValues f :=
  ext_entries List.filter_map

theorem map_fst_of_mapM {ε : Type*} {f : κ → Except ε α} {ks : List κ} {entries : List (κ × α)}
    (h : ks.mapM (fun key => (f key).map (Prod.mk key)) = .ok entries) :
    entries.map Prod.fst = ks := by
  have hall := Fallible.mapM_eq_ok.mp h
  clear h
  induction hall with
  | nil => rfl
  | cons hentry _ ih =>
    obtain ⟨value,-,rfl⟩ := Fallible.map_eq_ok.mp hentry
    rw [List.map_cons,ih]

variable [DecidableEq κ] {ε : Type*}

def assign (key : κ) (value : α) : List (κ × α) → List (κ × α)
  | [] => [(key,value)]
  | entry :: rest => if entry.1 = key then (key,value) :: rest else entry :: assign key value rest

theorem keys_assign (key : κ) (value : α) (l : List (κ × α)) :
    (assign key value l).map Prod.fst =
      if key ∈ l.map Prod.fst then l.map Prod.fst else l.map Prod.fst ++ [key] := by
  induction l with
  | nil => rfl
  | cons entry l ih =>
    by_cases hkey : entry.1 = key
    · simp [assign,hkey]
    · by_cases hmem : key ∈ l.map Prod.fst
      · simp [assign,hkey,ih,hmem]
      · simp [assign,hkey,ih,hmem,Ne.symm hkey]

theorem lookup_cons (entry : κ × α) (l : List (κ × α)) (j : κ) :
    (entry :: l).lookup j = if j = entry.1 then some entry.2 else l.lookup j := by
  rw [List.lookup_cons]
  by_cases hj : j = entry.1
  · simp [hj]
  · simp [hj,beq_false_of_ne hj]

theorem lookup_map_values (f : α → β) (l : List (κ × α)) (j : κ) :
    (l.map (Prod.map id f)).lookup j = (l.lookup j).map f := by
  induction l with
  | nil => rfl
  | cons entry l ih =>
    rw [List.map_cons,lookup_cons,lookup_cons,ih]
    by_cases hj : j = entry.1
    · simp [hj]
    · simp [hj]

theorem lookup_assign (key : κ) (value : α) (l : List (κ × α)) (j : κ) :
    (assign key value l).lookup j = if j = key then some value else l.lookup j := by
  induction l with
  | nil => rw [assign,lookup_cons]
  | cons entry l ih =>
    by_cases hkey : entry.1 = key
    · by_cases hj : j = key
      · simp [assign,hkey,lookup_cons,hj]
      · simp [assign,hkey,lookup_cons,hj]
    · by_cases hj : j = entry.1
      · have hne : j ≠ key := fun heq => hkey (hj.symm.trans heq)
        simp only [assign,if_neg hkey,lookup_cons,if_pos hj,if_neg hne]
      · simp only [assign,if_neg hkey,lookup_cons,if_neg hj,ih]

theorem lookup_eq_iff {l : List (κ × α)} (h : (l.map Prod.fst).Nodup) {key : κ} {value : α} :
    l.lookup key = some value ↔ (key,value) ∈ l := by
  induction l with
  | nil => simp
  | cons entry l ih =>
    obtain ⟨hhead,htail⟩ := List.nodup_cons.mp h
    by_cases hkey : key = entry.1
    · have hnot : (key,value) ∉ l := fun hmem =>
        hhead (hkey ▸ List.mem_map_of_mem (f := Prod.fst) hmem)
      rw [lookup_cons,if_pos hkey,List.mem_cons,or_iff_left hnot]
      constructor
      · intro heq
        exact Prod.ext hkey (Option.some.inj heq).symm
      · intro heq
        rw [← heq]
    · have hne : (key,value) ≠ entry := fun heq => hkey (congrArg Prod.fst heq)
      rw [lookup_cons,if_neg hkey,ih htail,List.mem_cons,or_iff_right hne]

/-- `d.get(key)`. -/
def get? (d : Dict κ α) (key : κ) : Option α := d.entries.lookup key

/-- `d[key] = value`. -/
def set (d : Dict κ α) (key : κ) (value : α) : Dict κ α where
  entries := assign key value d.entries
  nodup := by
    rw [keys_assign]
    by_cases hmem : key ∈ d.entries.map Prod.fst
    · rw [if_pos hmem]
      exact d.nodup
    · rw [if_neg hmem]
      exact List.nodup_append.mpr ⟨d.nodup,List.nodup_singleton key,by
        intro a ha b hb heq
        exact hmem (List.mem_singleton.mp hb ▸ heq ▸ ha)⟩

/-- `d.pop(key, None)`. -/
def erase (d : Dict κ α) (key : κ) : Dict κ α where
  entries := d.entries.filter fun entry => entry.1 ≠ key
  nodup := d.nodup.sublist (List.filter_sublist.map Prod.fst)

/-- `d.update(other)`. -/
def update (d other : Dict κ α) : Dict κ α :=
  other.entries.foldl (fun acc entry => acc.set entry.1 entry.2) d

/-- `dict(entries)`: later entries win. -/
def ofEntries (entries : List (κ × α)) : Dict κ α :=
  entries.foldl (fun acc entry => acc.set entry.1 entry.2) empty

theorem assign_of_notMem {key : κ} (value : α) {l : List (κ × α)} (h : key ∉ l.map Prod.fst) :
    assign key value l = l ++ [(key,value)] := by
  induction l with
  | nil => rfl
  | cons entry l ih =>
    obtain ⟨hhead,htail⟩ := List.ne_and_not_mem_of_not_mem_cons h
    rw [assign,if_neg (Ne.symm hhead),ih htail,List.cons_append]

/-- Entries without repeated keys are the entries of their dict. -/
theorem entries_ofEntries {l : List (κ × α)} (h : (l.map Prod.fst).Nodup) :
    (ofEntries l).entries = l := by
  induction l using List.reverseRecOn with
  | nil => rfl
  | append_singleton l entry ih =>
    rw [List.map_append,List.nodup_append] at h
    have hnew : entry.1 ∉ l.map Prod.fst := fun hmem =>
      h.2.2 _ hmem _ (List.mem_singleton_self _) rfl
    have hset : (ofEntries (l ++ [entry])).entries =
        assign entry.1 entry.2 (ofEntries l).entries := by
      rw [ofEntries,List.foldl_append]
      rfl
    rw [hset,ih h.1,assign_of_notMem _ hnew]

@[simp] theorem get?_empty (key : κ) : (empty : Dict κ α).get? key = none := rfl

theorem get?_set (d : Dict κ α) (key : κ) (value : α) (j : κ) :
    (d.set key value).get? j = if j = key then some value else d.get? j :=
  lookup_assign key value d.entries j

@[simp] theorem get?_set_self (d : Dict κ α) (key : κ) (value : α) :
    (d.set key value).get? key = some value := by
  rw [get?_set,if_pos rfl]

theorem get?_set_of_ne (d : Dict κ α) {key j : κ} (value : α) (h : j ≠ key) :
    (d.set key value).get? j = d.get? j := by
  rw [get?_set,if_neg h]

theorem mem_entries_iff {d : Dict κ α} {key : κ} {value : α} :
    (key,value) ∈ d.entries ↔ d.get? key = some value :=
  (lookup_eq_iff d.nodup).symm

theorem mem_keys_iff {d : Dict κ α} {key : κ} : key ∈ d.keys ↔ (d.get? key).isSome := by
  rw [keys,List.mem_map,Option.isSome_iff_exists]
  constructor
  · rintro ⟨⟨k,value⟩,hmem,rfl⟩
    exact ⟨value,mem_entries_iff.mp hmem⟩
  · rintro ⟨value,hget⟩
    exact ⟨_,mem_entries_iff.mpr hget,rfl⟩

theorem get?_eq_none {d : Dict κ α} {key : κ} (h : key ∉ d.keys) : d.get? key = none :=
  Option.not_isSome_iff_eq_none.mp fun hsome => h (mem_keys_iff.mpr hsome)

/-- Dicts of the same entries in another order have the same values. -/
theorem get?_ofEntries_of_perm {l l' : List (κ × α)} (h : l.Perm l') (hnodup : (l.map Prod.fst).Nodup) :
    (ofEntries l).get? = (ofEntries l').get? := by
  have hnodup' : (l'.map Prod.fst).Nodup := (h.map Prod.fst).nodup_iff.mp hnodup
  refine funext fun key => Option.ext fun value => ?_
  rw [← mem_entries_iff,← mem_entries_iff,entries_ofEntries hnodup,entries_ofEntries hnodup',
    h.mem_iff]

theorem get?_erase (d : Dict κ α) (key j : κ) :
    (d.erase key).get? j = if j = key then none else d.get? j := by
  refine Option.ext fun value => ?_
  rw [← mem_entries_iff,erase,List.mem_filter]
  by_cases hj : j = key
  · simp [hj]
  · simp [hj,mem_entries_iff]

theorem get?_filterKeys (p : κ → Bool) (d : Dict κ α) (key : κ) :
    (d.filterKeys p).get? key = if p key then d.get? key else none := by
  refine Option.ext fun value => ?_
  rw [← mem_entries_iff,filterKeys,List.mem_filter]
  by_cases hkey : p key = true
  · simp [hkey,mem_entries_iff]
  · simp [hkey]

theorem get?_mapValues (f : α → β) (d : Dict κ α) (key : κ) :
    (d.mapValues f).get? key = (d.get? key).map f := by
  refine Option.ext fun value => ?_
  rw [← mem_entries_iff,mapValues,List.mem_map,Option.map_eq_some_iff]
  constructor
  · rintro ⟨⟨k,v⟩,hmem,heq⟩
    obtain ⟨rfl,rfl⟩ := Prod.mk.inj heq
    exact ⟨v,mem_entries_iff.mp hmem,rfl⟩
  · rintro ⟨v,hget,rfl⟩
    exact ⟨(key,v),mem_entries_iff.mpr hget,rfl⟩

/-- `{key: f(key) for key in keys}`, where `f` may fail. -/
def build (ks : List κ) (f : κ → Except ε α) : Except ε (Dict κ α) :=
  match h : ks.dedup.mapM (fun key => (f key).map (Prod.mk key)) with
  | .error e => .error e
  | .ok entries => .ok ⟨entries,(map_fst_of_mapM h).symm ▸ List.nodup_dedup ks⟩

theorem build_ok {ks : List κ} {f : κ → Except ε α} {g : κ → α} (h : ∀ key ∈ ks, f key = .ok (g key)) :
    ∃ d, build ks f = .ok d ∧ ∀ key, d.get? key = if key ∈ ks then some (g key) else none := by
  have hrun : ks.dedup.mapM (fun key => (f key).map (Prod.mk key)) =
      .ok (ks.dedup.map fun key => (key,g key)) :=
    Fallible.mapM_ok fun key hkey => by rw [h key (List.mem_dedup.mp hkey)]; rfl
  have hnodup : ((ks.dedup.map fun key => (key,g key)).map Prod.fst).Nodup := by
    simpa [Function.comp_def] using List.nodup_dedup ks
  refine ⟨⟨_,hnodup⟩,?_,fun key => Option.ext fun value => ?_⟩
  · unfold build
    split
    next e herror => rw [hrun] at herror; cases herror
    next entries hok =>
      obtain rfl := Except.ok.inj (hrun.symm.trans hok)
      rfl
  · rw [← mem_entries_iff]
    by_cases hkey : key ∈ ks
    · simp [hkey,eq_comm]
    · simp [hkey]

theorem exists_build {ks : List κ} {f : κ → Except ε α} (h : ∀ key ∈ ks, ∃ value, f key = .ok value) :
    ∃ d, build ks f = .ok d := by
  obtain ⟨entries,hentries⟩ : ∃ entries,
      ks.dedup.mapM (fun key => (f key).map (Prod.mk key)) = .ok entries := by
    refine Fallible.exists_mapM_iff.mpr fun key hkey => ?_
    obtain ⟨value,hvalue⟩ := h key (List.mem_dedup.mp hkey)
    exact ⟨(key,value),by rw [hvalue]; rfl⟩
  unfold build
  split
  next e herror => rw [hentries] at herror; cases herror
  next => exact ⟨_,rfl⟩

/-- What a built dict has under a key. -/
theorem get?_of_build {ks : List κ} {f : κ → Except ε α} {d : Dict κ α} (h : build ks f = .ok d) :
    (∀ key ∈ ks, ∃ value, f key = .ok value) ∧
      ∀ key value, d.get? key = some value ↔ key ∈ ks ∧ f key = .ok value := by
  unfold build at h
  split at h
  next e _ => cases h
  next entries hok =>
    obtain rfl := Except.ok.inj h
    have hentry : ∀ {key value}, (f key).map (Prod.mk key) = .ok (key,value) ↔ f key = .ok value := by
      intro key value
      rw [Fallible.map_eq_ok]
      simp
    refine ⟨fun key hkey => ?_,fun key value => ?_⟩
    · obtain ⟨entry,hentry⟩ := Fallible.exists_mapM_iff.mp ⟨entries,hok⟩ key (List.mem_dedup.mpr hkey)
      obtain ⟨value,hvalue,_⟩ := Fallible.map_eq_ok.mp hentry
      exact ⟨value,hvalue⟩
    · rw [← mem_entries_iff,Fallible.mem_mapM_iff hok]
      constructor
      · rintro ⟨k,hk,hmap⟩
        obtain ⟨v,hv,heq⟩ := Fallible.map_eq_ok.mp hmap
        obtain ⟨rfl,rfl⟩ := Prod.mk.inj heq
        exact ⟨List.mem_dedup.mp hk,hv⟩
      · rintro ⟨hkey,hvalue⟩
        exact ⟨key,List.mem_dedup.mpr hkey,hentry.mpr hvalue⟩

theorem mem_keys_set {d : Dict κ α} {key j : κ} (value : α) (h : key ∈ d.keys) :
    j ∈ (d.set key value).keys ↔ j ∈ d.keys := by
  rw [mem_keys_iff,get?_set]
  split_ifs with heq
  · rw [heq]
    exact iff_of_true rfl h
  · exact mem_keys_iff.symm

/-- A run that sets keys that are there. -/
theorem exists_foldlM_set {step : Dict κ α → κ × β → Except ε (Dict κ α)} {entries : List (κ × β)}
    {d : Dict κ α} (hin : ∀ entry ∈ entries, entry.1 ∈ d.keys)
    (hstep : ∀ d : Dict κ α, ∀ entry ∈ entries, entry.1 ∈ d.keys →
      ∃ value, step d entry = .ok (d.set entry.1 value)) :
    ∃ next, entries.foldlM step d = .ok next ∧ ∀ j, j ∈ next.keys ↔ j ∈ d.keys := by
  induction entries generalizing d with
  | nil => exact ⟨d,rfl,fun _ => Iff.rfl⟩
  | cons entry entries ih =>
    obtain ⟨hhead,htail⟩ := List.forall_mem_cons.mp hin
    obtain ⟨value,hvalue⟩ := hstep d entry List.mem_cons_self hhead
    obtain ⟨next,hnext,hsame⟩ := @ih (d.set entry.1 value)
      (fun other hother => (mem_keys_set value hhead).mpr (htail other hother))
      fun d' other hother => hstep d' other (List.mem_cons_of_mem _ hother)
    refine ⟨next,?_,fun j => (hsame j).trans (mem_keys_set value hhead)⟩
    rw [List.foldlM_cons,hvalue]
    exact hnext

/-- A run that sets the key of every entry: it sees what was under the key before the run. -/
theorem foldlM_set_spec {written : κ × β → Option α → α → Prop}
    {step : Dict κ α → κ × β → Except ε (Dict κ α)}
    (hstep : ∀ d entry next old, step d entry = .ok next → d.get? entry.1 = old →
      ∃ value, written entry old value ∧ next = d.set entry.1 value)
    {entries : List (κ × β)} (hnodup : (entries.map Prod.fst).Nodup) {d next : Dict κ α}
    (h : entries.foldlM step d = .ok next) :
    (∀ entry ∈ entries, ∃ value, written entry (d.get? entry.1) value ∧
      next.get? entry.1 = some value) ∧
      ∀ key, key ∉ entries.map Prod.fst → next.get? key = d.get? key := by
  induction entries generalizing d with
  | nil =>
    obtain rfl := Except.ok.inj h
    exact ⟨fun entry hentry => absurd hentry List.not_mem_nil,fun _ _ => rfl⟩
  | cons entry entries ih =>
    obtain ⟨hhead,htail⟩ := List.nodup_cons.mp hnodup
    rw [List.foldlM_cons] at h
    obtain ⟨middle,hmiddle,h⟩ := Fallible.bind_eq_ok.mp h
    obtain ⟨value,hvalue,rfl⟩ := hstep d entry middle _ hmiddle rfl
    obtain ⟨hentries,hothers⟩ := ih htail h
    refine ⟨fun other hother => ?_,fun key hkey => ?_⟩
    · rcases List.mem_cons.mp hother with rfl | hmem
      · exact ⟨value,hvalue,by rw [hothers _ hhead,get?_set_self]⟩
      · obtain ⟨value',hvalue',hnext⟩ := hentries other hmem
        have hne : other.1 ≠ entry.1 := fun heq => hhead (heq ▸ List.mem_map_of_mem hmem)
        rw [get?_set_of_ne _ _ hne] at hvalue'
        exact ⟨value',hvalue',hnext⟩
    · rw [List.map_cons,List.mem_cons,not_or] at hkey
      rw [hothers key hkey.2,get?_set_of_ne _ _ hkey.1]

end Dict
end DockyardRL
