import DockyardRL.Lib.Dict
import DockyardRL.Lib.NdArray
import Mathlib.Data.List.Sort

/-! An arrangement of ranks with named axes.

A call that is spread over the workers of a group by the axes of its layout, and the results that
are collected from it. -/
namespace DockyardRL
namespace Distributed

section

open RowMajor

/-- The ranks of a layout, the last axis fastest; no rank and no name occurs twice. -/
structure NamedSharding where
  names : List String
  shape : List ℕ
  layout : List ℕ
  ndim : shape.length = names.length
  size : layout.length = shape.prod
  unique : layout.Nodup
  distinct : names.Nodup

theorem map_lookup_zip {α : Type*} {names : List String} (h : names.Nodup) {l : List α}
    (hlength : l.length = names.length) :
    names.map (fun name => (names.zip l).lookup name) = l.map some := by
  induction names generalizing l with
  | nil => rw [List.length_eq_zero_iff.mp hlength]; rfl
  | cons name names ih =>
    obtain _ | ⟨a,l⟩ := l
    · cases hlength
    · obtain ⟨hhead,htail⟩ := List.nodup_cons.mp h
      rw [List.map_cons,List.map_cons,List.zip_cons_cons,Dict.lookup_cons,if_pos rfl,
        ← ih htail (Nat.succ.inj hlength)]
      refine congrArg (List.cons _) (List.map_congr_left fun other hother => ?_)
      have hne : other ≠ name := fun heq => hhead (heq ▸ hother)
      rw [Dict.lookup_cons,if_neg hne]

namespace NamedSharding

variable (sharding : NamedSharding)

/-- `shape`. -/
def shapeDict : Dict String ℕ := .ofEntries (sharding.names.zip sharding.shape)

def getAxisSize (name : String) : Option ℕ := sharding.shapeDict.get? name

def getWorkerCoords (workerId : ℕ) : Option (Dict String ℕ) :=
  if workerId ∈ sharding.layout then
    some (.ofEntries (sharding.names.zip (unravel sharding.shape (sharding.layout.idxOf workerId))))
  else none

def axisSize (axis : String) : ℕ := (sharding.getAxisSize axis).getD 0

def coord (w : ℕ) (axis : String) : ℕ := ((sharding.getWorkerCoords w).bind (·.get? axis)).getD 0

variable {sharding}

theorem nodup_zip {l : List ℕ} (hlength : l.length = sharding.names.length) :
    ((sharding.names.zip l).map Prod.fst).Nodup := by
  rw [List.map_fst_zip hlength.ge]
  exact sharding.distinct

theorem map_getD_zip {l : List ℕ} (hlength : l.length = sharding.names.length) :
    sharding.names.map (fun name => ((sharding.names.zip l).lookup name).getD 0) = l := by
  have hlookup := congrArg (List.map fun o : Option ℕ => o.getD 0)
    (map_lookup_zip sharding.distinct hlength)
  rw [List.map_map,List.map_map] at hlookup
  exact hlookup.trans (List.map_id l)

theorem map_axisSize : sharding.names.map sharding.axisSize = sharding.shape := by
  have hzip := map_getD_zip sharding.ndim
  rwa [← Dict.entries_ofEntries (nodup_zip sharding.ndim)] at hzip

variable {w : ℕ}

theorem map_coord (hw : w ∈ sharding.layout) :
    sharding.names.map (sharding.coord w) =
      unravel sharding.shape (sharding.layout.idxOf w) := by
  have hlength : (unravel sharding.shape (sharding.layout.idxOf w)).length = sharding.names.length :=
    (length_unravel _ _).trans sharding.ndim
  have hzip := map_getD_zip hlength
  rw [← Dict.entries_ofEntries (nodup_zip hlength)] at hzip
  rw [← hzip]
  refine List.map_congr_left fun axis _ => ?_
  rw [coord,getWorkerCoords,if_pos hw]
  rfl

theorem exists_coords (hw : w ∈ sharding.layout) :
    ∃ coords, sharding.getWorkerCoords w = some coords ∧
      ∀ axis, coords.get? axis = if axis ∈ sharding.names then some (sharding.coord w axis) else none := by
  have hlength : (unravel sharding.shape (sharding.layout.idxOf w)).length = sharding.names.length :=
    (length_unravel _ _).trans sharding.ndim
  have hsome : sharding.getWorkerCoords w = some (.ofEntries (sharding.names.zip
      (unravel sharding.shape (sharding.layout.idxOf w)))) := if_pos hw
  refine ⟨_,hsome,fun axis => ?_⟩
  have hkeys : axis ∈ (Dict.ofEntries (sharding.names.zip
      (unravel sharding.shape (sharding.layout.idxOf w)))).keys ↔ axis ∈ sharding.names := by
    rw [Dict.keys,Dict.entries_ofEntries (nodup_zip hlength),List.map_fst_zip hlength.ge]
  rw [Dict.mem_keys_iff] at hkeys
  rw [coord,hsome]
  split_ifs with haxis
  · obtain ⟨i,hi⟩ := Option.isSome_iff_exists.mp (hkeys.mpr haxis)
    rw [Option.bind_some,hi]
    rfl
  · exact Option.not_isSome_iff_eq_none.mp fun h => haxis (hkeys.mp h)

theorem coord_eq_zero_of_notMem (hw : w ∈ sharding.layout) {axis : String}
    (haxis : axis ∉ sharding.names) : sharding.coord w axis = 0 := by
  obtain ⟨coords,hcoords,hget⟩ := exists_coords hw
  rw [coord,hcoords,Option.bind_some,hget,if_neg haxis]
  rfl

theorem idxOf_lt (hw : w ∈ sharding.layout) : sharding.layout.idxOf w < sharding.shape.prod :=
  sharding.size ▸ List.idxOf_lt_length_iff.mpr hw

theorem coord_lt (hw : w ∈ sharding.layout) {axis : String} (haxis : axis ∈ sharding.names) :
    sharding.coord w axis < sharding.axisSize axis := by
  have hinside := inside_unravel (idxOf_lt hw)
  rw [Inside,← map_coord hw,← map_axisSize,List.forall₂_map_left_iff,List.forall₂_map_right_iff,
    List.forall₂_same] at hinside
  exact hinside axis haxis

theorem exists_worker {c : String → ℕ} (hc : ∀ axis ∈ sharding.names, c axis < sharding.axisSize axis) :
    ∃ w ∈ sharding.layout, ∀ axis ∈ sharding.names, sharding.coord w axis = c axis := by
  have hinside : Inside sharding.shape (sharding.names.map c) := by
    rw [Inside,← map_axisSize,List.forall₂_map_left_iff,List.forall₂_map_right_iff,List.forall₂_same]
    exact hc
  have hlt := ravel_lt hinside
  rw [← sharding.size] at hlt
  refine ⟨sharding.layout[ravel sharding.shape (sharding.names.map c)],List.getElem_mem hlt,?_⟩
  have hcoords := map_coord (List.getElem_mem hlt)
  rw [sharding.unique.idxOf_getElem,unravel_ravel hinside] at hcoords
  exact List.map_inj_left.mp hcoords

theorem coord_injective {w' : ℕ} (hw : w ∈ sharding.layout) (hw' : w' ∈ sharding.layout)
    (h : ∀ axis ∈ sharding.names, sharding.coord w axis = sharding.coord w' axis) : w = w' := by
  have hindex : unravel sharding.shape (sharding.layout.idxOf w) =
      unravel sharding.shape (sharding.layout.idxOf w') := by
    rw [← map_coord hw,← map_coord hw']
    exact List.map_congr_left h
  have hposition := congrArg (ravel sharding.shape) hindex
  rw [ravel_unravel (idxOf_lt hw),ravel_unravel (idxOf_lt hw')] at hposition
  exact (List.idxOf_inj hw).mp hposition

end NamedSharding

end

/-- An argument: a value, what `ray.put` gives for one, or a list. -/
inductive Arg (α : Type*)
  | value (a : α)
  | ref (v : Arg α)
  | list (l : List (Arg α))

inductive DispatchError
  | axisNotFound (axis : String)
  | shardedAndReplicated (overlap : List String)
  | workerNotFound (workerId : ℕ)
  | notIterable
  | notSubscriptable
  | indexOutOfRange
  | putOfRef
  | multipleValues (key : String)

namespace Arg

variable {α : Type*}

def putNested : ℕ → Arg α → Except DispatchError (Arg α)
  | 0,ref _ => .error .putOfRef
  | 0,v => .ok (ref v)
  | depth + 1,list l => (l.mapM (putNested depth)).map list
  | _ + 1,_ => .error .notIterable

/-- `v[idx]`. -/
def item (idx : ℕ) : Arg α → Except DispatchError (Arg α)
  | list l => (l[idx]?).elim (.error .indexOutOfRange) .ok
  | _ => .error .notSubscriptable

/-- What a remote method gets for an argument: a reference is replaced by what it refers to. -/
def received : Arg α → Arg α
  | ref v => v
  | v => v

def slice : List ℕ → Arg α → Option (Arg α)
  | [],v => some v
  | i :: index,list l => (l[i]?).bind (slice index)
  | _ :: _,_ => none

def Nested : List ℕ → Arg α → Prop
  | [],ref _ => False
  | [],_ => True
  | n :: sizes,list l => n ≤ l.length ∧ ∀ v ∈ l, Nested sizes v
  | _ :: _,_ => False

end Arg

variable {α β : Type*}

/-- The keyword arguments that a method gets; `none` is Python's `None`. -/
abbrev Call (α : Type*) := Dict String (Option (Arg α))

/-- What a remote call gives: a reference to one result, or a generator of several. -/
inductive Future (β : Type*)
  | objectRef (result : β)
  | generator (chunks : List β)

structure MultiWorkerFuture (β : Type*) where
  futures : List (Future β)
  returnFromWorkers : Option (List ℕ)
  calledWorkers : Option (List ℕ)

namespace MultiWorkerFuture

variable (bundle : MultiWorkerFuture β)

/-- `{w: i for i, w in enumerate(called_workers)}`. -/
def workerToIdx (called : List ℕ) : Dict ℕ ℕ := .ofEntries called.zipIdx

def allResults : List β := bundle.futures.flatMap fun
  | .objectRef result => [result]
  | .generator chunks => chunks

def hasGenerator : Bool := bundle.futures.any fun
  | .objectRef _ => false
  | .generator _ => true

def getResults : Option (List β) :=
  if bundle.hasGenerator then some bundle.allResults
  else match bundle.returnFromWorkers,bundle.calledWorkers with
    | none,_ => some bundle.allResults
    | some returned,some called => (returned.filter fun w =>
        ((workerToIdx called).get? w).isSome).mapM fun w =>
          ((workerToIdx called).get? w).bind (bundle.allResults[·]?)
    | some returned,none => returned.mapM (bundle.allResults[·]?)

end MultiWorkerFuture

def mapKwargs (f : Arg α → Except DispatchError (Arg α)) (kwargs : Dict String (Arg α)) :
    Except DispatchError (Dict String (Arg α)) :=
  (kwargs.entries.mapM fun entry => (f entry.2).map (Prod.mk entry.1)).map .ofEntries

section Axes

variable (inShardedAxes replicateOnAxes outputIsReplicated : List String) (coords : Dict String ℕ)

/-- The loop over the axes: whether a worker receives data, and whether it returns a result. -/
def axisLoop : List String → Bool → Bool × Bool
  | [],shouldReturn => (true,shouldReturn)
  | axis :: names,shouldReturn =>
    match coords.get? axis with
    | none => axisLoop names shouldReturn
    | some c =>
      if axis ∉ inShardedAxes ∧ axis ∉ replicateOnAxes ∧ c ≠ 0 then (false,false)
      else axisLoop names (if axis ∈ outputIsReplicated ∧ c ≠ 0 then false else shouldReturn)

def workerKwargs : List String → Dict String (Arg α) → Except DispatchError (Dict String (Arg α))
  | [],kwargs => .ok kwargs
  | axis :: axes,kwargs =>
    match coords.get? axis with
    | none => workerKwargs axes kwargs
    | some idx => (mapKwargs (Arg.item idx) kwargs).bind (workerKwargs axes)

end Axes

/-- `method.remote(**worker_kwargs, **common_kwargs)`. -/
def remote (method : Call α → Future β) (kwargs : Call α) (commonKwargs : Dict String (Arg α)) :
    Except DispatchError (Future β) :=
  match commonKwargs.keys.find? fun key => key ∈ kwargs.keys with
  | some key => .error (.multipleValues key)
  | none => .ok (method (kwargs.update (commonKwargs.mapValues fun v => some v.received)))

/-- What the loop over the workers fills in. -/
structure Dispatched (β : Type*) where
  futures : List (Future β)
  calledWorkers : List ℕ
  returnFromWorkers : List ℕ

section Dispatch

variable (sharding : NamedSharding) (method : ℕ → Call α → Future β)
  (inShardedAxes replicateOnAxes outputIsReplicated : List String) (makeDummyCalls : Bool)
  (commonKwargs kwargs : Dict String (Arg α))

/-- The loop body for one worker. -/
def dispatchWorker (acc : Dispatched β) (worker : ℕ) : Except DispatchError (Dispatched β) :=
  match sharding.getWorkerCoords worker with
  | none => .error (.workerNotFound worker)
  | some coords =>
    let (shouldReceive,shouldReturn) :=
      axisLoop inShardedAxes replicateOnAxes outputIsReplicated coords sharding.names true
    let returnFromWorkers :=
      if shouldReturn then acc.returnFromWorkers ++ [worker] else acc.returnFromWorkers
    if shouldReceive then
      (workerKwargs coords inShardedAxes kwargs).bind fun sliced =>
        (remote (method worker) (sliced.mapValues fun v => some v.received) commonKwargs).map
          fun future => ⟨acc.futures ++ [future],acc.calledWorkers ++ [worker],returnFromWorkers⟩
    else if makeDummyCalls then
      (remote (method worker) (kwargs.mapValues fun _ => none) commonKwargs).map
        fun future => ⟨acc.futures ++ [future],acc.calledWorkers ++ [worker],returnFromWorkers⟩
    else .ok ⟨acc.futures,acc.calledWorkers,returnFromWorkers⟩

/-- `run_all_workers_sharded_data`, for a number of workers. -/
def runAllWorkersShardedData (workers : ℕ) : Except DispatchError (MultiWorkerFuture β) :=
  match (inShardedAxes ++ replicateOnAxes).find? fun axis => axis ∉ sharding.names with
  | some axis => .error (.axisNotFound axis)
  | none =>
    let overlap := inShardedAxes.filter fun axis => axis ∈ replicateOnAxes
    if overlap ≠ [] then .error (.shardedAndReplicated overlap)
    else
      let replicateDegree := (replicateOnAxes.map sharding.axisSize).prod
      let stored := if 1 < replicateDegree then mapKwargs (Arg.putNested inShardedAxes.length) kwargs
        else .ok kwargs
      stored.bind fun kwargs =>
        ((List.range workers).foldlM (dispatchWorker sharding method inShardedAxes replicateOnAxes
          outputIsReplicated makeDummyCalls commonKwargs kwargs) ⟨[],[],[]⟩).map
            fun acc => ⟨acc.futures,some acc.returnFromWorkers,some acc.calledWorkers⟩

end Dispatch

theorem mapKwargs_ok {f : Arg α → Except DispatchError (Arg α)} {g : Arg α → Arg α}
    {kwargs : Dict String (Arg α)} (h : ∀ entry ∈ kwargs.entries, f entry.2 = .ok (g entry.2)) :
    mapKwargs f kwargs = .ok (kwargs.mapValues g) := by
  have hrun : kwargs.entries.mapM (fun entry => (f entry.2).map (Prod.mk entry.1)) =
      .ok (kwargs.mapValues g).entries :=
    Fallible.mapM_ok fun entry hentry => by rw [h entry hentry]; rfl
  rw [mapKwargs,hrun]
  exact congrArg Except.ok (Dict.ext_entries (Dict.entries_ofEntries (kwargs.mapValues g).nodup))

namespace Arg

open RowMajor

variable {sizes : List ℕ}

theorem Nested.exists_slice {v : Arg α} (h : Nested sizes v) {index : List ℕ}
    (hindex : Inside sizes index) : ∃ x, slice index v = some x ∧ x.received = x := by
  induction hindex generalizing v with
  | nil =>
    cases v with
    | ref v => exact h.elim
    | value a => exact ⟨_,rfl,rfl⟩
    | list l => exact ⟨_,rfl,rfl⟩
  | @cons i n index sizes hi _ ih =>
    cases v with
    | ref v => exact h.elim
    | value a => exact h.elim
    | list l =>
      obtain ⟨hlength,hall⟩ := h
      have hlt : i < l.length := Nat.lt_of_lt_of_le hi hlength
      rw [slice,List.getElem?_eq_getElem hlt]
      exact ih (hall _ (List.getElem_mem hlt))

theorem Nested.exists_putNested {v : Arg α} (h : Nested sizes v) :
    ∃ stored, putNested sizes.length v = .ok stored ∧
      ∀ index, Inside sizes index → slice index stored = (slice index v).map ref := by
  induction sizes generalizing v with
  | nil =>
    refine ⟨ref v,?_,fun index hindex => ?_⟩
    · cases v with
      | ref v => exact h.elim
      | value a => rfl
      | list l => rfl
    · cases hindex
      rfl
  | cons n sizes ih =>
    cases v with
    | ref v => exact h.elim
    | value a => exact h.elim
    | list l =>
      obtain ⟨stored,hrun,hall⟩ := Fallible.exists_mapM_forall₂ fun v hv => ih (h.2 v hv)
      refine ⟨list stored,by rw [List.length_cons,putNested,hrun]; rfl,fun index hindex => ?_⟩
      obtain _ | @⟨i,_,index,_,hi,hindex⟩ := hindex
      have hlt : i < l.length := Nat.lt_of_lt_of_le hi h.1
      have hlt' : i < stored.length := hall.length_eq ▸ hlt
      rw [slice,slice,List.getElem?_eq_getElem hlt,List.getElem?_eq_getElem hlt']
      exact (hall.get hlt hlt') index hindex

end Arg

section Axes

variable {inShardedAxes replicateOnAxes outputIsReplicated names : List String}
  {coords : Dict String ℕ} {c : String → ℕ}

theorem axisLoop_eq (h : ∀ axis ∈ names, coords.get? axis = some (c axis)) (shouldReturn : Bool) :
    axisLoop inShardedAxes replicateOnAxes outputIsReplicated coords names shouldReturn =
      (decide (∀ axis ∈ names, axis ∉ inShardedAxes → axis ∉ replicateOnAxes → c axis = 0),
        decide (shouldReturn = true ∧
          (∀ axis ∈ names, axis ∉ inShardedAxes → axis ∉ replicateOnAxes → c axis = 0) ∧
          ∀ axis ∈ names, axis ∈ outputIsReplicated → c axis = 0)) := by
  induction names generalizing shouldReturn with
  | nil => simp [axisLoop]
  | cons axis names ih =>
    obtain ⟨haxis,hnames⟩ := List.forall_mem_cons.mp h
    rw [axisLoop,haxis]
    dsimp only
    by_cases hfree : axis ∉ inShardedAxes ∧ axis ∉ replicateOnAxes ∧ c axis ≠ 0
    · rw [if_pos hfree]
      have hnot : ¬∀ other ∈ axis :: names,
          other ∉ inShardedAxes → other ∉ replicateOnAxes → c other = 0 :=
        fun hall => hfree.2.2 (hall axis List.mem_cons_self hfree.1 hfree.2.1)
      simp only [hnot,decide_false,false_and,and_false]
    · rw [if_neg hfree,ih hnames]
      have hhead : axis ∉ inShardedAxes → axis ∉ replicateOnAxes → c axis = 0 := by
        intro hsharded hreplicated
        by_contra hne
        exact hfree ⟨hsharded,hreplicated,hne⟩
      have hreturn : (if axis ∈ outputIsReplicated ∧ c axis ≠ 0 then false else shouldReturn) = true ↔
          shouldReturn = true ∧ (axis ∈ outputIsReplicated → c axis = 0) := by
        by_cases hout : axis ∈ outputIsReplicated <;> by_cases hzero : c axis = 0 <;>
          simp [hout,hzero]
      refine Prod.ext (decide_eq_decide.mpr ?_) (decide_eq_decide.mpr ?_)
      · rw [List.forall_mem_cons,and_iff_right hhead]
      · rw [List.forall_mem_cons,List.forall_mem_cons,and_iff_right hhead,hreturn]
        tauto

theorem workerKwargs_ok {axes : List String} {kwargs : Dict String (Arg α)}
    (h : ∀ axis ∈ axes, coords.get? axis = some (c axis))
    (hslice : ∀ entry ∈ kwargs.entries, ∃ x, entry.2.slice (axes.map c) = some x) :
    workerKwargs coords axes kwargs =
      .ok (kwargs.mapValues fun v => (v.slice (axes.map c)).getD v) := by
  induction axes generalizing kwargs with
  | nil => exact congrArg Except.ok (Dict.mapValues_id kwargs).symm
  | cons axis axes ih =>
    obtain ⟨haxis,haxes⟩ := List.forall_mem_cons.mp h
    have hitem : ∀ entry ∈ kwargs.entries, ∃ first x, Arg.item (c axis) entry.2 = .ok first ∧
        first.slice (axes.map c) = some x ∧ entry.2.slice ((axis :: axes).map c) = some x := by
      intro entry hentry
      obtain ⟨x,hx⟩ := hslice entry hentry
      obtain ⟨key,v⟩ := entry
      cases v with
      | ref v => cases hx
      | value a => cases hx
      | list l =>
        obtain ⟨first,hfirst,hrest⟩ := Option.bind_eq_some_iff.mp hx
        exact ⟨first,x,by rw [Arg.item,hfirst]; rfl,hrest,hx⟩
    have hmap : mapKwargs (Arg.item (c axis)) kwargs =
        .ok (kwargs.mapValues fun v => (Arg.item (c axis) v).toOption.getD v) :=
      mapKwargs_ok fun entry hentry => by
        obtain ⟨first,-,hfirst,-⟩ := hitem entry hentry
        rw [hfirst]
        rfl
    rw [workerKwargs,haxis]
    dsimp only
    rw [hmap]
    refine (ih haxes fun entry hentry => ?_).trans (congrArg Except.ok ?_)
    · obtain ⟨entry',hentry',rfl⟩ := List.mem_map.mp hentry
      obtain ⟨first,x,hfirst,hx,-⟩ := hitem entry' hentry'
      dsimp only
      rw [hfirst]
      exact ⟨x,hx⟩
    · rw [Dict.mapValues_mapValues]
      refine Dict.mapValues_congr fun entry hentry => ?_
      obtain ⟨first,x,hfirst,hx,hwhole⟩ := hitem entry hentry
      rw [Function.comp_apply,hfirst,hwhole]
      exact congrArg (fun o => Option.getD o first) hx

end Axes

theorem remote_ok {method : Call α → Future β} {kwargs : Call α} {commonKwargs : Dict String (Arg α)}
    (h : ∀ key ∈ commonKwargs.keys, key ∉ kwargs.keys) : remote method kwargs commonKwargs =
      .ok (method (kwargs.update (commonKwargs.mapValues fun v => some v.received))) := by
  have hnone : commonKwargs.keys.find? (fun key => key ∈ kwargs.keys) = none :=
    List.find?_eq_none.mpr fun key hkey => by simpa using h key hkey
  rw [remote,hnone]

section Dispatch

variable (sharding : NamedSharding)
  (inShardedAxes replicateOnAxes outputIsReplicated : List String) (makeDummyCalls : Bool)
  (commonKwargs kwargs : Dict String (Arg α))

/-- A worker with coordinate zero on every free axis. -/
def Receives (w : ℕ) : Prop := ∀ axis ∈ sharding.names,
  axis ∉ inShardedAxes → axis ∉ replicateOnAxes → sharding.coord w axis = 0

instance (w : ℕ) : Decidable (Receives sharding inShardedAxes replicateOnAxes w) := by
  unfold Receives
  infer_instance

/-- A worker that receives data and has coordinate zero where the outputs are replicated. -/
def Returns (w : ℕ) : Prop := Receives sharding inShardedAxes replicateOnAxes w ∧
  ∀ axis ∈ outputIsReplicated, sharding.coord w axis = 0

instance (w : ℕ) :
    Decidable (Returns sharding inShardedAxes replicateOnAxes outputIsReplicated w) := by
  unfold Returns
  infer_instance

/-- What is sent to a worker: the slice at its coordinates or, where it receives no data, `None`. -/
def callFor (w : ℕ) : Call α :=
  (if Receives sharding inShardedAxes replicateOnAxes w then
      kwargs.mapValues fun v => v.slice (inShardedAxes.map (sharding.coord w))
    else kwargs.mapValues fun _ => none).update (commonKwargs.mapValues fun v => some v.received)

/-- The workers that are called. -/
def Called (w : ℕ) : Prop :=
  Receives sharding inShardedAxes replicateOnAxes w ∨ makeDummyCalls = true

instance (w : ℕ) : Decidable (Called sharding inShardedAxes replicateOnAxes makeDummyCalls w) := by
  unfold Called
  infer_instance

variable {sharding inShardedAxes replicateOnAxes outputIsReplicated makeDummyCalls commonKwargs kwargs}
  {method : ℕ → Call α → Future β} {stored : Dict String (Arg α)}

/-- The arguments that the loop works on have, at every index, what stands for the arguments. -/
def Stands (sizes : List ℕ) (kwargs stored : Dict String (Arg α)) : Prop :=
  ∃ f : Arg α → Arg α, stored = kwargs.mapValues f ∧ ∀ entry ∈ kwargs.entries, ∀ index,
    RowMajor.Inside sizes index → ∃ x y, entry.2.slice index = some x ∧
      (f entry.2).slice index = some y ∧ y.received = x

theorem inside_coords {w : ℕ} (hw : w ∈ sharding.layout) (hin : ∀ axis ∈ inShardedAxes, axis ∈ sharding.names) :
    RowMajor.Inside (inShardedAxes.map sharding.axisSize) (inShardedAxes.map (sharding.coord w)) := by
  rw [RowMajor.Inside,List.forall₂_map_left_iff,List.forall₂_map_right_iff,List.forall₂_same]
  exact fun axis haxis => NamedSharding.coord_lt hw (hin axis haxis)

theorem dispatchWorker_ok {w : ℕ} (hw : w ∈ sharding.layout)
    (hin : ∀ axis ∈ inShardedAxes, axis ∈ sharding.names)
    (hstands : Stands (inShardedAxes.map sharding.axisSize) kwargs stored)
    (hcommon : ∀ key ∈ commonKwargs.keys, key ∉ kwargs.keys) (acc : Dispatched β) :
    dispatchWorker sharding method inShardedAxes replicateOnAxes outputIsReplicated makeDummyCalls
        commonKwargs stored acc w =
      .ok { futures := acc.futures ++
              if Called sharding inShardedAxes replicateOnAxes makeDummyCalls w then
                [method w (callFor sharding inShardedAxes replicateOnAxes commonKwargs kwargs w)]
              else []
            calledWorkers := acc.calledWorkers ++
              if Called sharding inShardedAxes replicateOnAxes makeDummyCalls w then [w] else []
            returnFromWorkers := acc.returnFromWorkers ++
              if Returns sharding inShardedAxes replicateOnAxes outputIsReplicated w then [w]
              else [] } := by
  obtain ⟨coords,hcoords,hget⟩ := NamedSharding.exists_coords hw
  have hnames : ∀ axis ∈ sharding.names, coords.get? axis = some (sharding.coord w axis) :=
    fun axis haxis => (hget axis).trans (if_pos haxis)
  have hreturns : (true = true ∧ Receives sharding inShardedAxes replicateOnAxes w ∧
      ∀ axis ∈ sharding.names, axis ∈ outputIsReplicated → sharding.coord w axis = 0) ↔
        Returns sharding inShardedAxes replicateOnAxes outputIsReplicated w := by
    rw [and_iff_right rfl,Returns]
    refine and_congr_right fun _ => ⟨fun h axis hout => ?_,fun h axis _ hout => h axis hout⟩
    by_cases haxis : axis ∈ sharding.names
    · exact h axis haxis hout
    · exact NamedSharding.coord_eq_zero_of_notMem hw haxis
  have hloop : axisLoop inShardedAxes replicateOnAxes outputIsReplicated coords sharding.names true =
      (decide (Receives sharding inShardedAxes replicateOnAxes w),
        decide (Returns sharding inShardedAxes replicateOnAxes outputIsReplicated w)) :=
    (axisLoop_eq hnames true).trans (Prod.ext rfl (decide_eq_decide.mpr hreturns))
  have hback : (if decide (Returns sharding inShardedAxes replicateOnAxes outputIsReplicated w) then
      acc.returnFromWorkers ++ [w] else acc.returnFromWorkers) = acc.returnFromWorkers ++
        if Returns sharding inShardedAxes replicateOnAxes outputIsReplicated w then [w] else [] := by
    by_cases h : Returns sharding inShardedAxes replicateOnAxes outputIsReplicated w <;> simp [h]
  obtain ⟨f,rfl,hslices⟩ := hstands
  rw [dispatchWorker,hcoords]
  dsimp only
  rw [hloop]
  dsimp only
  rw [hback]
  by_cases hreceives : Receives sharding inShardedAxes replicateOnAxes w
  · have hkwargs := @workerKwargs_ok α coords (sharding.coord w) inShardedAxes (kwargs.mapValues f)
      (fun axis haxis => hnames axis (hin axis haxis)) (by
        intro entry hentry
        obtain ⟨entry',hentry',rfl⟩ := List.mem_map.mp hentry
        obtain ⟨x,y,-,hy,-⟩ := hslices entry' hentry' _ (inside_coords hw hin)
        exact ⟨y,hy⟩)
    have hsent : ((kwargs.mapValues f).mapValues fun v =>
          (v.slice (inShardedAxes.map (sharding.coord w))).getD v).mapValues
            (fun v => some v.received) =
        kwargs.mapValues fun v => v.slice (inShardedAxes.map (sharding.coord w)) := by
      rw [Dict.mapValues_mapValues,Dict.mapValues_mapValues]
      refine Dict.mapValues_congr fun entry hentry => ?_
      obtain ⟨x,y,hx,hy,rfl⟩ := hslices entry hentry _ (inside_coords hw hin)
      simp only [Function.comp_apply,hx,hy,Option.getD_some]
    have hcalled : Called sharding inShardedAxes replicateOnAxes makeDummyCalls w := .inl hreceives
    rw [if_pos (decide_eq_true hreceives),hkwargs,if_pos hcalled,if_pos hcalled,callFor,
      if_pos hreceives,← hsent]
    refine congrArg (Except.map _) (remote_ok fun key hkey => ?_)
    rw [Dict.keys_mapValues,Dict.keys_mapValues,Dict.keys_mapValues]
    exact hcommon key hkey
  · rw [if_neg (by simpa using hreceives)]
    by_cases hdummy : makeDummyCalls = true
    · have hcalled : Called sharding inShardedAxes replicateOnAxes makeDummyCalls w := .inr hdummy
      have hnone : ((kwargs.mapValues f).mapValues fun _ => (none : Option (Arg α))) =
          kwargs.mapValues fun _ => none := Dict.mapValues_mapValues _ _ _
      rw [if_pos hdummy,if_pos hcalled,if_pos hcalled,callFor,if_neg hreceives,hnone]
      refine congrArg (Except.map _) (remote_ok fun key hkey => ?_)
      rw [Dict.keys_mapValues]
      exact hcommon key hkey
    · have hcalled : ¬Called sharding inShardedAxes replicateOnAxes makeDummyCalls w :=
        fun h => h.elim hreceives hdummy
      rw [if_neg hdummy,if_neg hcalled,if_neg hcalled,List.append_nil,List.append_nil]

theorem dispatch_run {ws : List ℕ} (hws : ∀ w ∈ ws, w ∈ sharding.layout)
    (hin : ∀ axis ∈ inShardedAxes, axis ∈ sharding.names)
    (hstands : Stands (inShardedAxes.map sharding.axisSize) kwargs stored)
    (hcommon : ∀ key ∈ commonKwargs.keys, key ∉ kwargs.keys) (acc : Dispatched β) :
    ws.foldlM (dispatchWorker sharding method inShardedAxes replicateOnAxes outputIsReplicated
        makeDummyCalls commonKwargs stored) acc =
      .ok { futures := acc.futures ++
              (ws.filter fun w => Called sharding inShardedAxes replicateOnAxes makeDummyCalls w).map
                fun w => method w (callFor sharding inShardedAxes replicateOnAxes commonKwargs kwargs w)
            calledWorkers := acc.calledWorkers ++
              ws.filter fun w => Called sharding inShardedAxes replicateOnAxes makeDummyCalls w
            returnFromWorkers := acc.returnFromWorkers ++
              ws.filter fun w => Returns sharding inShardedAxes replicateOnAxes outputIsReplicated w } := by
  induction ws generalizing acc with
  | nil => simp [pure,Except.pure]
  | cons w ws ih =>
    obtain ⟨hw,hws⟩ := List.forall_mem_cons.mp hws
    rw [List.foldlM_cons,dispatchWorker_ok hw hin hstands hcommon acc]
    refine (ih hws _).trans (congrArg Except.ok ?_)
    by_cases hcalled : Called sharding inShardedAxes replicateOnAxes makeDummyCalls w <;>
      by_cases hreturns : Returns sharding inShardedAxes replicateOnAxes outputIsReplicated w <;>
        simp [hcalled,hreturns]

end Dispatch

namespace MultiWorkerFuture

variable {called returned : List ℕ}

theorem get?_workerToIdx (hcalled : called.Nodup) {w i : ℕ} :
    (workerToIdx called).get? w = some i ↔ called[i]? = some w := by
  have hnodup : (called.zipIdx.map Prod.fst).Nodup := by rwa [List.zipIdx_map_fst]
  rw [← Dict.mem_entries_iff,workerToIdx,Dict.entries_ofEntries hnodup,
    List.mem_zipIdx_iff_getElem?]

theorem exists_workerToIdx (hcalled : called.Nodup) {w : ℕ} (hw : w ∈ called) :
    ∃ i, (workerToIdx called).get? w = some i ∧ called[i]? = some w := by
  obtain ⟨i,hi⟩ := List.mem_iff_getElem?.mp hw
  exact ⟨i,(get?_workerToIdx hcalled).mpr hi,hi⟩

theorem getResults_eq (hcalled : called.Nodup) (hsub : ∀ w ∈ returned, w ∈ called) (result : ℕ → β) :
    getResults ⟨called.map fun w => .objectRef (result w),some returned,some called⟩ =
      some (returned.map result) := by
  have hplain : hasGenerator ⟨called.map fun w => Future.objectRef (result w),some returned,
      some called⟩ = false := by
    rw [hasGenerator,List.any_map]
    exact List.any_eq_false.mpr fun w _ => Bool.false_ne_true
  have hall : allResults ⟨called.map fun w => Future.objectRef (result w),some returned,
      some called⟩ = called.map result := by
    rw [allResults,List.flatMap_map]
    exact List.flatMap_pure_eq_map result called
  have hfilter : (returned.filter fun w => ((workerToIdx called).get? w).isSome) = returned := by
    refine List.filter_eq_self.mpr fun w hw => ?_
    obtain ⟨i,hi,-⟩ := exists_workerToIdx hcalled (hsub w hw)
    rw [hi]
    rfl
  rw [getResults,hplain,if_neg Bool.false_ne_true,hall]
  dsimp only
  rw [hfilter]
  refine Fallible.mapM_some fun w hw => ?_
  obtain ⟨i,hi,hget⟩ := exists_workerToIdx hcalled (hsub w hw)
  rw [hi,Option.bind_some,List.getElem?_map,hget]
  rfl

end MultiWorkerFuture
section Exact

variable {sharding : NamedSharding} {inShardedAxes replicateOnAxes outputIsReplicated : List String}
  {commonKwargs kwargs : Dict String (Arg α)} {workers : ℕ}

theorem exists_stands
    (hnested : ∀ entry ∈ kwargs.entries, entry.2.Nested (inShardedAxes.map sharding.axisSize))
    (replicateDegree : ℕ) :
    ∃ stored, (if 1 < replicateDegree then mapKwargs (Arg.putNested inShardedAxes.length) kwargs
        else .ok kwargs) = .ok stored ∧ Stands (inShardedAxes.map sharding.axisSize) kwargs stored := by
  by_cases hdegree : 1 < replicateDegree
  · have hput : ∀ entry ∈ kwargs.entries, ∃ v, Arg.putNested inShardedAxes.length entry.2 = .ok v ∧
        ∀ index, RowMajor.Inside (inShardedAxes.map sharding.axisSize) index →
          v.slice index = (entry.2.slice index).map .ref := by
      intro entry hentry
      have hstored := (hnested entry hentry).exists_putNested
      rwa [List.length_map] at hstored
    refine ⟨_,(if_pos hdegree).trans (mapKwargs_ok (g := fun v =>
      (Arg.putNested inShardedAxes.length v).toOption.getD v) ?_),_,rfl,?_⟩
    · intro entry hentry
      obtain ⟨v,hv,-⟩ := hput entry hentry
      rw [hv]
      rfl
    · intro entry hentry index hindex
      obtain ⟨v,hv,hslice⟩ := hput entry hentry
      obtain ⟨x,hx,-⟩ := (hnested entry hentry).exists_slice hindex
      refine ⟨x,.ref x,hx,?_,rfl⟩
      rw [hv]
      exact (hslice index hindex).trans (congrArg (Option.map Arg.ref) hx)
  · refine ⟨kwargs,if_neg hdegree,id,(Dict.mapValues_id kwargs).symm,?_⟩
    intro entry hentry index hindex
    obtain ⟨x,hx,hreceived⟩ := (hnested entry hentry).exists_slice hindex
    exact ⟨x,x,hx,hx,hreceived⟩

theorem returns_iff {axis : String} (hout : axis ∉ outputIsReplicated)
    (hothers : ∀ other ∈ replicateOnAxes, other ∈ outputIsReplicated) {w : ℕ}
    (hw : w ∈ sharding.layout) : Returns sharding [axis] replicateOnAxes outputIsReplicated w ↔
      ∀ other ∈ sharding.names, other ≠ axis → sharding.coord w other = 0 := by
  constructor
  · rintro ⟨hreceives,hzero⟩ other hother hne
    by_cases hreplicated : other ∈ replicateOnAxes
    · exact hzero other (hothers other hreplicated)
    · exact hreceives other hother (by simpa using hne) hreplicated
  · intro hzero
    refine ⟨fun other hother hne _ => hzero other hother (by simpa using hne),fun other hmem => ?_⟩
    by_cases hother : other ∈ sharding.names
    · exact hzero other hother fun heq => hout (heq ▸ hmem)
    · exact NamedSharding.coord_eq_zero_of_notMem hw hother

theorem map_coord_returns (hlayout : sharding.layout.Perm (List.range workers)) {axis : String}
    (haxis : axis ∈ sharding.names) (hout : axis ∉ outputIsReplicated)
    (hothers : ∀ other ∈ replicateOnAxes, other ∈ outputIsReplicated)
    (horder : ∀ w < workers, ∀ w' < workers, (∀ other ∈ sharding.names, other ≠ axis →
      sharding.coord w other = 0 ∧ sharding.coord w' other = 0) →
        sharding.coord w axis < sharding.coord w' axis → w < w')
    (hpos : ∀ n ∈ sharding.shape, 0 < n) :
    ((List.range workers).filter fun w =>
      Returns sharding [axis] replicateOnAxes outputIsReplicated w).map (sharding.coord · axis) =
        List.range (sharding.axisSize axis) := by
  have hmem : ∀ w, w ∈ sharding.layout ↔ w < workers := fun w => by
    rw [hlayout.mem_iff,List.mem_range]
  have hreturns : ∀ w, w ∈ ((List.range workers).filter fun w =>
      Returns sharding [axis] replicateOnAxes outputIsReplicated w) ↔
        w < workers ∧ ∀ other ∈ sharding.names, other ≠ axis → sharding.coord w other = 0 := by
    intro w
    rw [List.mem_filter,List.mem_range,decide_eq_true_iff]
    exact and_congr_right fun hw => returns_iff hout hothers ((hmem w).mpr hw)
  have hsorted : (((List.range workers).filter fun w =>
      Returns sharding [axis] replicateOnAxes outputIsReplicated w).map
        (sharding.coord · axis)).Pairwise (· < ·) := by
    refine List.pairwise_map.mpr ((List.pairwise_lt_range.filter _).imp_of_mem ?_)
    intro w w' hw hw' hlt
    obtain ⟨hw,hzero⟩ := (hreturns w).mp hw
    obtain ⟨hw',hzero'⟩ := (hreturns w').mp hw'
    rcases lt_trichotomy (sharding.coord w axis) (sharding.coord w' axis) with h | h | h
    · exact h
    · have hsame : w = w' := by
        refine NamedSharding.coord_injective ((hmem w).mpr hw) ((hmem w').mpr hw') fun other hother => ?_
        by_cases hne : other = axis
        · rw [hne,h]
        · rw [hzero other hother hne,hzero' other hother hne]
      exact absurd hsame hlt.ne
    · have hback := horder w' hw' w hw
        (fun other hother hne => ⟨hzero' other hother hne,hzero other hother hne⟩) h
      exact absurd (hback.trans hlt) (lt_irrefl _)
  refine List.Subset.antisymm_of_pairwise (r := fun a b : ℕ => a < b) hsorted List.pairwise_lt_range
    ?_ ?_
  · intro k hk
    obtain ⟨w,hw,rfl⟩ := List.mem_map.mp hk
    exact List.mem_range.mpr (NamedSharding.coord_lt ((hmem w).mpr ((hreturns w).mp hw).1) haxis)
  · intro k hk
    have hc : ∀ other ∈ sharding.names, (if other = axis then k else 0) < sharding.axisSize other := by
      intro other hother
      split_ifs with heq
      · rw [heq]
        exact List.mem_range.mp hk
      · exact hpos _ (NamedSharding.map_axisSize ▸ List.mem_map_of_mem hother)
    obtain ⟨w,hw,hcoords⟩ := NamedSharding.exists_worker hc
    refine List.mem_map.mpr ⟨w,(hreturns w).mpr ⟨(hmem w).mp hw,fun other hother hne => ?_⟩,?_⟩
    · rw [hcoords other hother,if_neg hne]
    · rw [hcoords axis haxis,if_pos rfl]

/-- A sharded call sends every worker its slice, or nothing, and the collected results are those of
the workers that return, in their order; along one sharded axis they are those of the slices. -/
theorem runAllWorkersShardedData_exact (method : ℕ → Call α → β) (makeDummyCalls : Bool)
    (hlayout : sharding.layout.Perm (List.range workers))
    (hin : ∀ axis ∈ inShardedAxes, axis ∈ sharding.names)
    (hreplicate : ∀ axis ∈ replicateOnAxes, axis ∈ sharding.names)
    (hdisjoint : inShardedAxes.Disjoint replicateOnAxes)
    (hnested : ∀ entry ∈ kwargs.entries, entry.2.Nested (inShardedAxes.map sharding.axisSize))
    (hcommon : ∀ key ∈ commonKwargs.keys, key ∉ kwargs.keys) :
    ∃ bundle, runAllWorkersShardedData sharding (fun w call => .objectRef (method w call)) inShardedAxes
        replicateOnAxes outputIsReplicated makeDummyCalls commonKwargs kwargs workers = .ok bundle ∧
      bundle.calledWorkers = some ((List.range workers).filter fun w =>
        Called sharding inShardedAxes replicateOnAxes makeDummyCalls w) ∧
      bundle.futures = ((List.range workers).filter fun w =>
        Called sharding inShardedAxes replicateOnAxes makeDummyCalls w).map (fun w =>
          .objectRef (method w (callFor sharding inShardedAxes replicateOnAxes commonKwargs kwargs w))) ∧
      (∀ w < workers, ∀ entry ∈ kwargs.entries,
        (entry.2.slice (inShardedAxes.map (sharding.coord w))).isSome) ∧
      bundle.getResults = some (((List.range workers).filter fun w =>
        Returns sharding inShardedAxes replicateOnAxes outputIsReplicated w).map fun w =>
          method w (callFor sharding inShardedAxes replicateOnAxes commonKwargs kwargs w)) ∧
      ∀ axis, inShardedAxes = [axis] → axis ∉ outputIsReplicated →
        (∀ other ∈ replicateOnAxes, other ∈ outputIsReplicated) →
        (∀ w < workers, ∀ w' < workers, (∀ other ∈ sharding.names, other ≠ axis →
          sharding.coord w other = 0 ∧ sharding.coord w' other = 0) →
            sharding.coord w axis < sharding.coord w' axis → w < w') →
        ∃ results, bundle.getResults = some results ∧
          ((∀ n ∈ sharding.shape, 0 < n) → results.length = sharding.axisSize axis) ∧
          ∀ k r, results[k]? = some r → ∃ w < workers, sharding.coord w axis = k ∧
            Receives sharding inShardedAxes replicateOnAxes w ∧
            r = method w (callFor sharding inShardedAxes replicateOnAxes commonKwargs kwargs w) := by
  have hmem : ∀ w ∈ List.range workers, w ∈ sharding.layout := fun w => hlayout.mem_iff.mpr
  have haxes : (inShardedAxes ++ replicateOnAxes).find? (fun axis => axis ∉ sharding.names) = none := by
    refine List.find?_eq_none.mpr fun axis haxis => ?_
    rcases List.mem_append.mp haxis with h | h
    · simpa using hin axis h
    · simpa using hreplicate axis h
  have hoverlap : inShardedAxes.filter (fun axis => axis ∈ replicateOnAxes) = [] :=
    List.filter_eq_nil_iff.mpr fun axis haxis hrep => hdisjoint haxis (of_decide_eq_true hrep)
  obtain ⟨stored,hstored,hstands⟩ := exists_stands hnested (replicateOnAxes.map sharding.axisSize).prod
  have hresults := @MultiWorkerFuture.getResults_eq β
    ((List.range workers).filter fun w => Called sharding inShardedAxes replicateOnAxes makeDummyCalls w)
    ((List.range workers).filter fun w =>
      Returns sharding inShardedAxes replicateOnAxes outputIsReplicated w) (List.nodup_range.filter _)
    (fun w hw => by
      obtain ⟨hrange,hreturns⟩ := List.mem_filter.mp hw
      exact List.mem_filter.mpr ⟨hrange,decide_eq_true (.inl (of_decide_eq_true hreturns).1)⟩)
    fun w => method w (callFor sharding inShardedAxes replicateOnAxes commonKwargs kwargs w)
  refine ⟨_,?_,rfl,rfl,?_,hresults,?_⟩
  · rw [runAllWorkersShardedData,haxes]
    dsimp only
    rw [hoverlap,if_neg (by simp),hstored]
    exact congrArg (Except.map _) (dispatch_run hmem hin hstands hcommon ⟨[],[],[]⟩)
  · intro w hw entry hentry
    obtain ⟨x,hx,-⟩ := (hnested entry hentry).exists_slice
      (inside_coords (hmem w (List.mem_range.mpr hw)) hin)
    rw [hx]
    rfl
  · rintro axis rfl hout hothers horder
    refine ⟨_,hresults,fun hpos => ?_,fun k r hr => ?_⟩
    · have hcoords := congrArg List.length (map_coord_returns hlayout (hin axis (by simp)) hout hothers
        horder hpos)
      rwa [List.length_map,List.length_range,← List.length_map (f := fun w =>
        method w (callFor sharding [axis] replicateOnAxes commonKwargs kwargs w))] at hcoords
    · rw [List.getElem?_map] at hr
      obtain ⟨w,hw,rfl⟩ := Option.map_eq_some_iff.mp hr
      obtain ⟨hrange,hreturns⟩ := List.mem_filter.mp (List.mem_of_getElem? hw)
      have hworker := List.mem_range.mp hrange
      refine ⟨w,hworker,?_,(of_decide_eq_true hreturns).1,rfl⟩
      have hpos : ∀ n ∈ sharding.shape, 0 < n := fun n hn =>
        (RowMajor.inside_unravel (NamedSharding.idxOf_lt (hmem w hrange))).pos hn
      have hcoords := congrArg (fun l : List ℕ => l[k]?)
        (map_coord_returns hlayout (hin axis (by simp)) hout hothers horder hpos)
      rw [List.getElem?_map,hw] at hcoords
      obtain ⟨hlt,hget⟩ := List.getElem?_eq_some_iff.mp hcoords.symm
      exact hget.symm.trans (List.getElem_range hlt)

def dataTensor : NamedSharding where
  names := ["data_parallel","tensor_parallel"]
  shape := [2,2]
  layout := [0,1,2,3]
  ndim := rfl
  size := rfl
  unique := by decide
  distinct := by decide

theorem runAllWorkersShardedData_exact_two :
    ∃ bundle : MultiWorkerFuture ℕ, runAllWorkersShardedData (α := ℕ) dataTensor
        (fun w _ => .objectRef w) ["data_parallel"] ["tensor_parallel"] ["tensor_parallel"] false .empty
        (.ofEntries [("data",.list [.value 5,.value 7])]) 4 = .ok bundle ∧
      bundle.getResults = some [0,2] := by
  have hnested : ∀ entry ∈ (Dict.ofEntries [("data",Arg.list [.value 5,.value 7])]).entries,
      entry.2.Nested (["data_parallel"].map dataTensor.axisSize) := by
    intro entry hentry
    obtain rfl := List.mem_singleton.mp hentry
    exact ⟨by decide,fun v hv => by
      rcases List.mem_cons.mp hv with rfl | hv
      · trivial
      · obtain rfl := List.mem_singleton.mp hv
        trivial⟩
  obtain ⟨bundle,hrun,-,-,-,hresults,-⟩ := @runAllWorkersShardedData_exact ℕ ℕ dataTensor
    ["data_parallel"] ["tensor_parallel"] ["tensor_parallel"] .empty
    (.ofEntries [("data",.list [.value 5,.value 7])]) 4 (fun w _ => w) false (by decide) (by decide)
    (by decide) (List.singleton_disjoint.mpr (by decide)) hnested (fun _ h => by cases h)
  refine ⟨bundle,hrun,hresults.trans ?_⟩
  decide

end Exact
end Distributed
end DockyardRL
