import DockyardRL.DataPlane.KeyedStore

/-! Runs of the in-memory data plane: reads see the latest put, and a consumer task is handed
an id once between two clears of it. -/
namespace DockyardRL
namespace DataPlane

open Fallible

variable {ν κ : Type*}

inductive Op (ν κ : Type*)
  | put (sampleIds : List String) (fields : Option (TensorDict ν)) (tags : Option (List (Tag κ)))
  | claim (taskName : String) (requiredFields : List String) (batchSize : ℤ)
  | get (sampleIds selectFields : List String)
  | clear (sampleIds : Option (List String))

inductive Reply (ν κ : Type*)
  | written (r : Except NoOpError (KVBatchMeta Empty (Tag κ)))
  | claimed (r : Except NoOpError (KVBatchMeta Empty (Tag κ)))
  | read (r : Except NoOpError (List (String × List ν)))
  | cleared

def latestStep (id field : String) (held : Option ν) : Op ν κ → Option ν
  | .put ids (some td) _ =>
    if td.nonTensorLeaves ≠ [] then held else (td.written ids id field).or held
  | .clear none => none
  | .clear (some ids) => if id ∈ ids then none else held
  | _ => held

def latest (ops : List (Op ν κ)) (id field : String) : Option ν :=
  ops.foldl (latestStep id field) none

def storedStep (id : String) (held : Bool) : Op ν κ → Bool
  | .put ids (some td) _ =>
    if td.nonTensorLeaves ≠ [] then held else decide (id ∈ td.reached ids) || held
  | .clear none => false
  | .clear (some ids) => if id ∈ ids then false else held
  | _ => held

def stored (ops : List (Op ν κ)) (id : String) : Bool := ops.foldl (storedStep id) false

def handedStep (t id : String) (count : ℕ) : Op ν κ × Reply ν κ → ℕ
  | (.claim t' _ _,.claimed (.ok m)) => if t' = t then count + m.sampleIds.count id else count
  | (.clear none,_) => 0
  | (.clear (some ids),_) => if id ∈ ids then 0 else count
  | _ => count

/-- How often the task was handed the id since it was last cleared. -/
def handed (t id : String) (trace : List (Op ν κ × Reply ν κ)) : ℕ :=
  trace.foldl (handedStep t id) 0

section Runs

variable (partitionId : String) (asLength : κ → Option ℕ) (stackable : List ν → Bool)

/-- One call; every call but a clear fails when the partition is gone. -/
def exec (s : Option (Partition ν κ)) (op : Op ν κ) : Option (Partition ν κ) × Reply ν κ :=
  match s, op with
  | none, .put _ _ _ => (none,.written (.error (.keyError partitionId)))
  | none, .claim _ _ _ => (none,.claimed (.error (.keyError partitionId)))
  | none, .get _ _ => (none,.read (.error (.keyError partitionId)))
  | none, .clear _ => (none,.cleared)
  | some rec, .put ids fields tags =>
    let r := putSamples partitionId rec ids fields tags
    (some r.1,.written r.2)
  | some rec, .claim t requiredFields batchSize =>
    let r := claimMeta partitionId asLength rec t requiredFields batchSize
    (some r.1,.claimed r.2)
  | some rec, .get ids fields => (some rec,.read (getSamples partitionId stackable rec ids fields))
  | some rec, .clear ids => (clearSamples rec ids,.cleared)

def traceFrom (s : Option (Partition ν κ)) : List (Op ν κ) → List (Op ν κ × Reply ν κ)
  | [] => []
  | op :: ops =>
    (op,(exec partitionId asLength stackable s op).2) ::
      traceFrom (exec partitionId asLength stackable s op).1 ops

def runFrom (s : Option (Partition ν κ)) (ops : List (Op ν κ)) : Option (Partition ν κ) :=
  ops.foldl (fun s op => (exec partitionId asLength stackable s op).1) s

variable (tasks : List String)

def run (ops : List (Op ν κ)) : Option (Partition ν κ) :=
  runFrom partitionId asLength stackable (some (registerPartition tasks)) ops

def trace (ops : List (Op ν κ)) : List (Op ν κ × Reply ν κ) :=
  traceFrom partitionId asLength stackable (some (registerPartition tasks)) ops

theorem traceFrom_append (s : Option (Partition ν κ)) (xs ys : List (Op ν κ)) :
    traceFrom partitionId asLength stackable s (xs ++ ys) =
      traceFrom partitionId asLength stackable s xs ++
        traceFrom partitionId asLength stackable
          (runFrom partitionId asLength stackable s xs) ys := by
  induction xs generalizing s with
  | nil => rfl
  | cons op xs ih => rw [List.cons_append,traceFrom,ih,traceFrom,List.cons_append]; rfl

/-- The state after `ops`, told by the history alone. -/
structure Tracks (ops : List (Op ν κ)) (rec : Partition ν κ) : Prop where
  rows : ∀ id, (rec.rows.get? id).isSome = stored ops id
  cells : ∀ id field, cell rec.rows id field = latest ops id field
  registered : ∀ t, (rec.consumed.get? t).isSome ↔ t ∈ tasks
  unregistered : ∀ t, t ∉ tasks → ∀ id, handed t id (trace partitionId asLength stackable tasks ops) = 0
  cursors : ∀ t done, rec.consumed.get? t = some done → ∀ id,
    handed t id (trace partitionId asLength stackable tasks ops) = if id ∈ done then 1 else 0
  within : ∀ t done, rec.consumed.get? t = some done → ∀ id ∈ done, (rec.rows.get? id).isSome

def Tracked (ops : List (Op ν κ)) : Option (Partition ν κ) → Prop
  | some rec => Tracks partitionId asLength stackable tasks ops rec
  | none => ∀ t id, handed t id (trace partitionId asLength stackable tasks ops) = 0

theorem run_concat (ops : List (Op ν κ)) (op : Op ν κ) :
    run partitionId asLength stackable tasks (ops ++ [op]) =
      (exec partitionId asLength stackable (run partitionId asLength stackable tasks ops) op).1 := by
  rw [run,runFrom,List.foldl_append]
  rfl

theorem handed_concat (ops : List (Op ν κ)) (op : Op ν κ) (t id : String) :
    handed t id (trace partitionId asLength stackable tasks (ops ++ [op])) =
      handedStep t id (handed t id (trace partitionId asLength stackable tasks ops))
        (op,(exec partitionId asLength stackable
          (run partitionId asLength stackable tasks ops) op).2) := by
  rw [trace,traceFrom_append,handed,List.foldl_append]
  rfl

theorem latest_concat (ops : List (Op ν κ)) (op : Op ν κ) (id field : String) :
    latest (ops ++ [op]) id field = latestStep id field (latest ops id field) op := by
  rw [latest,List.foldl_append]
  rfl

theorem stored_concat (ops : List (Op ν κ)) (op : Op ν κ) (id : String) :
    stored (ops ++ [op]) id = storedStep id (stored ops id) op := by
  rw [stored,List.foldl_append]
  rfl

variable {partitionId asLength stackable tasks} {ops : List (Op ν κ)} {rec : Partition ν κ}

theorem Tracks.put (h : Tracks partitionId asLength stackable tasks ops rec) (ids : List String)
    (fields : Option (TensorDict ν)) (tags : Option (List (Tag κ))) :
    Tracks partitionId asLength stackable tasks (ops ++ [.put ids fields tags])
      (putSamples partitionId rec ids fields tags).1 := by
  obtain ⟨hconsumed,hrows⟩ := putSamples_fst partitionId rec ids fields tags
  have hhanded (t id : String) : handed t id
      (trace partitionId asLength stackable tasks (ops ++ [.put ids fields tags])) =
        handed t id (trace partitionId asLength stackable tasks ops) :=
    handed_concat partitionId asLength stackable tasks ops _ t id
  have hstored (id : String) : ((putSamples partitionId rec ids fields tags).1.rows.get? id).isSome =
      stored (ops ++ [.put ids fields tags]) id := by
    rw [stored_concat,← h.rows,hrows]
    cases fields with
    | none => rfl
    | some td =>
      simp only [storedStep]
      by_cases hleaves : td.nonTensorLeaves ≠ []
      · rw [if_pos hleaves,if_pos hleaves]
      · rw [if_neg hleaves,if_neg hleaves,Bool.eq_iff_iff,
          writeRows_isSome td ids (.inr (Nat.zero_le _)),Bool.or_eq_true,decide_eq_true_eq]
        rfl
  have hcells (id field : String) :
      cell (putSamples partitionId rec ids fields tags).1.rows id field =
        latest (ops ++ [.put ids fields tags]) id field := by
    rw [latest_concat,← h.cells,hrows]
    cases fields with
    | none => rfl
    | some td =>
      simp only [latestStep]
      by_cases hleaves : td.nonTensorLeaves ≠ []
      · rw [if_pos hleaves,if_pos hleaves]
      · rw [if_neg hleaves,if_neg hleaves,writeRows_cell]
        rfl
  refine ⟨hstored,hcells,?_,?_,?_,?_⟩
  · intro t
    rw [hconsumed]
    exact h.registered t
  · intro t ht id
    rw [hhanded]
    exact h.unregistered t ht id
  · intro t done hdone id
    rw [hhanded]
    exact h.cursors t done (hconsumed ▸ hdone) id
  · intro t done hdone id hid
    rw [hstored,stored_concat]
    have hold := h.within t done (hconsumed ▸ hdone) id hid
    rw [h.rows] at hold
    cases fields with
    | none => exact hold
    | some td =>
      rw [storedStep,hold,Bool.or_true,ite_self]

theorem Tracks.claim (h : Tracks partitionId asLength stackable tasks ops rec)
    (hrun : run partitionId asLength stackable tasks ops = some rec) (t : String)
    (requiredFields : List String) (batchSize : ℤ) :
    Tracks partitionId asLength stackable tasks (ops ++ [.claim t requiredFields batchSize])
      (claimMeta partitionId asLength rec t requiredFields batchSize).1 := by
  have hconcat (t' id : String) := handed_concat partitionId asLength stackable tasks ops
    (.claim t requiredFields batchSize) t' id
  simp only [hrun,exec] at hconcat
  have hstored (id : String) : stored (ops ++ [.claim t requiredFields batchSize]) id =
      stored ops id := stored_concat ops _ id
  have hlatest (id field : String) : latest (ops ++ [.claim t requiredFields batchSize]) id field =
      latest ops id field := latest_concat ops _ id field
  rcases claimMeta_cases partitionId asLength rec t requiredFields batchSize with
    ⟨e,herror⟩ | ⟨done,ready,m,hdone,hready,hids,hok⟩
  · have hhanded (t' id : String) : handed t' id
        (trace partitionId asLength stackable tasks (ops ++ [.claim t requiredFields batchSize])) =
          handed t' id (trace partitionId asLength stackable tasks ops) := by
      rw [hconcat,herror]
      rfl
    rw [herror]
    refine ⟨fun id => (h.rows id).trans (hstored id).symm,
      fun id field => (h.cells id field).trans (hlatest id field).symm,h.registered,?_,?_,h.within⟩
    · intro t' ht id
      rw [hhanded]
      exact h.unregistered t' ht id
    · intro t' done' hdone' id
      rw [hhanded]
      exact h.cursors t' done' hdone' id
  · obtain ⟨new,hnew,hsub,hfresh,-⟩ := readySamples_spec hready
    rw [List.nil_append] at hnew
    rw [hnew] at hids
    have hnodup : m.sampleIds.Nodup := hids ▸ rec.rows.nodup.sublist hsub
    have hhanded (t' id : String) : handed t' id
        (trace partitionId asLength stackable tasks (ops ++ [.claim t requiredFields batchSize])) =
          if t = t' then handed t' id (trace partitionId asLength stackable tasks ops) +
            m.sampleIds.count id
          else handed t' id (trace partitionId asLength stackable tasks ops) := by
      rw [hconcat,hok]
      rfl
    have hregistered : t ∈ tasks := (h.registered t).mp (by rw [hdone]; rfl)
    rw [hok]
    refine ⟨fun id => (h.rows id).trans (hstored id).symm,
      fun id field => (h.cells id field).trans (hlatest id field).symm,?_,?_,?_,?_⟩
    · intro t'
      rw [Dict.get?_set]
      by_cases ht : t' = t
      · simp [ht,hregistered]
      · rw [if_neg ht]
        exact h.registered t'
    · intro t' ht id
      have hne : t ≠ t' := fun heq => ht (heq ▸ hregistered)
      rw [hhanded,if_neg hne]
      exact h.unregistered t' ht id
    · intro t' done' hdone' id
      rw [hhanded]
      rw [Dict.get?_set] at hdone'
      by_cases ht : t' = t
      · rw [if_pos ht] at hdone'
        obtain rfl := Option.some.inj hdone'
        rw [if_pos ht.symm,ht,h.cursors t done hdone id,List.Nodup.count hnodup]
        by_cases hid : id ∈ m.sampleIds
        · have hout : id ∉ done := (hfresh id (hids ▸ hid)).1
          simp [hid,hout]
        · simp [hid]
      · rw [if_neg ht] at hdone'
        rw [if_neg (Ne.symm ht)]
        exact h.cursors t' done' hdone' id
    · intro t' done' hdone' id hid
      rw [Dict.get?_set] at hdone'
      by_cases ht : t' = t
      · rw [if_pos ht] at hdone'
        obtain rfl := Option.some.inj hdone'
        rcases Finset.mem_union.mp hid with hold | hclaimed
        · exact h.within t done hdone id hold
        · obtain ⟨-,row,hrow,-⟩ := hfresh id (hids ▸ List.mem_toFinset.mp hclaimed)
          have hget := Dict.mem_entries_iff.mp hrow
          simp only [hget,Option.isSome_some]
      · rw [if_neg ht] at hdone'
        exact h.within t' done' hdone' id hid

theorem Tracks.get (h : Tracks partitionId asLength stackable tasks ops rec)
    (ids fields : List String) :
    Tracks partitionId asLength stackable tasks (ops ++ [.get ids fields]) rec := by
  have hhanded (t id : String) : handed t id
      (trace partitionId asLength stackable tasks (ops ++ [.get ids fields])) =
        handed t id (trace partitionId asLength stackable tasks ops) :=
    handed_concat partitionId asLength stackable tasks ops _ t id
  have hstored (id : String) : stored (ops ++ [.get ids fields]) id = stored ops id :=
    stored_concat ops _ id
  have hlatest (id field : String) : latest (ops ++ [.get ids fields]) id field =
      latest ops id field := latest_concat ops _ id field
  refine ⟨fun id => (h.rows id).trans (hstored id).symm,
    fun id field => (h.cells id field).trans (hlatest id field).symm,h.registered,?_,?_,h.within⟩
  · intro t ht id
    rw [hhanded]
    exact h.unregistered t ht id
  · intro t done hdone id
    rw [hhanded]
    exact h.cursors t done hdone id

theorem consumedInit_get? (tasks : List String) (t : String) :
    (consumedInit tasks).get? t = if t ∈ tasks then some ∅ else none := by
  have hfold : ∀ (l : List String) (acc : Dict String (Finset String)),
      (l.foldl (fun acc t => acc.set t ∅) acc).get? t = if t ∈ l then some ∅ else acc.get? t := by
    intro l
    induction l with
    | nil => simp
    | cons t' l ih =>
      intro acc
      rw [List.foldl_cons,ih,Dict.get?_set]
      by_cases hmem : t ∈ l
      · simp [hmem]
      · simp [hmem]
  exact hfold tasks .empty

theorem tracks_register :
    Tracks partitionId asLength stackable tasks ([] : List (Op ν κ)) (registerPartition tasks) := by
  have hnone (id : String) : (registerPartition tasks : Partition ν κ).rows.get? id = none := rfl
  refine ⟨fun _ => rfl,fun _ _ => rfl,?_,fun _ _ _ => rfl,?_,?_⟩
  · intro t
    rw [registerPartition,consumedInit_get?]
    by_cases ht : t ∈ tasks
    · simp [ht]
    · simp [ht]
  · intro t done hdone id
    rw [registerPartition,consumedInit_get?] at hdone
    split at hdone
    · obtain rfl := Option.some.inj hdone
      rfl
    · cases hdone
  · intro t done hdone id hid
    rw [registerPartition,consumedInit_get?] at hdone
    split at hdone
    · obtain rfl := Option.some.inj hdone
      exact absurd hid (Finset.notMem_empty id)
    · cases hdone

theorem Tracks.clear (h : Tracks partitionId asLength stackable tasks ops rec)
    (ids : List String) :
    Tracks partitionId asLength stackable tasks (ops ++ [.clear (some ids)])
      (ids.foldl clearSample rec) := by
  have hhanded (t id : String) : handed t id
      (trace partitionId asLength stackable tasks (ops ++ [.clear (some ids)])) =
        if id ∈ ids then 0 else handed t id (trace partitionId asLength stackable tasks ops) :=
    handed_concat partitionId asLength stackable tasks ops _ t id
  refine ⟨?_,?_,?_,?_,?_,?_⟩
  · intro id
    rw [stored_concat,storedStep,clearSamples_get?,← h.rows]
    by_cases hid : id ∈ ids
    · rw [if_pos hid,if_pos hid]
      rfl
    · rw [if_neg hid,if_neg hid]
  · intro id field
    rw [latest_concat,latestStep,cell,clearSamples_get?,← h.cells]
    by_cases hid : id ∈ ids
    · rw [if_pos hid,if_pos hid]
      rfl
    · rw [if_neg hid,if_neg hid]
      rfl
  · intro t
    rw [clearSamples_consumed,Option.isSome_map]
    exact h.registered t
  · intro t ht id
    rw [hhanded,h.unregistered t ht id,ite_self]
  · intro t done hdone id
    rw [clearSamples_consumed] at hdone
    obtain ⟨old,hold,rfl⟩ := Option.map_eq_some_iff.mp hdone
    rw [hhanded,h.cursors t old hold id]
    by_cases hid : id ∈ ids
    · simp [hid]
    · simp [hid]
  · intro t done hdone id hid
    rw [clearSamples_consumed] at hdone
    obtain ⟨old,hold,rfl⟩ := Option.map_eq_some_iff.mp hdone
    obtain ⟨hmem,hkept⟩ := Finset.mem_filter.mp hid
    rw [clearSamples_get?,if_neg hkept]
    exact h.within t old hold id hmem

theorem tracked (partitionId : String) (asLength : κ → Option ℕ) (stackable : List ν → Bool)
    (tasks : List String) (ops : List (Op ν κ)) :
    Tracked partitionId asLength stackable tasks ops
      (run partitionId asLength stackable tasks ops) := by
  induction ops using List.reverseRecOn with
  | nil => exact tracks_register
  | append_singleton ops op ih =>
    rw [run_concat]
    cases hrun : run partitionId asLength stackable tasks ops with
    | none =>
      rw [hrun] at ih
      have hnothing (t id : String) : handed t id
          (trace partitionId asLength stackable tasks (ops ++ [op])) = 0 := by
        rw [handed_concat,hrun,ih t id]
        cases op with
        | put ids fields tags => rfl
        | claim t' requiredFields batchSize => rfl
        | get ids fields => rfl
        | clear ids =>
          cases ids with
          | none => rfl
          | some ids => simp [handedStep]
      cases op <;> exact hnothing
    | some rec =>
      rw [hrun] at ih
      cases op with
      | put ids fields tags => exact Tracks.put ih ids fields tags
      | claim t requiredFields batchSize => exact Tracks.claim ih hrun t requiredFields batchSize
      | get ids fields => exact Tracks.get ih ids fields
      | clear ids =>
        cases ids with
        | none =>
          intro t id
          rw [handed_concat]
          rfl
        | some ids => exact Tracks.clear ih ids

def concerns (t : String) : Op ν κ → Bool
  | .claim t' _ _ => decide (t' = t)
  | _ => true

def SameFor (t : String) : Option (Partition ν κ) → Option (Partition ν κ) → Prop
  | none, none => True
  | some rec, some rec' =>
    rec.rows = rec'.rows ∧ rec.tags = rec'.tags ∧ rec.consumed.get? t = rec'.consumed.get? t
  | _, _ => False

theorem sameFor_claim {t t' : String} (hne : t' ≠ t) {s s' : Option (Partition ν κ)}
    (h : SameFor t s s') (requiredFields : List String) (batchSize : ℤ) :
    SameFor t (exec partitionId asLength stackable s (.claim t' requiredFields batchSize)).1 s' := by
  cases s with
  | none => exact h
  | some rec =>
    cases s' with
    | none => exact h
    | some rec' =>
      obtain ⟨hrows,htags,hconsumed⟩ := h
      rw [exec]
      rcases claimMeta_cases partitionId asLength rec t' requiredFields batchSize with
        ⟨e,herror⟩ | ⟨done,ready,m,hdone,hready,hids,hok⟩
      · rw [herror]
        exact ⟨hrows,htags,hconsumed⟩
      · rw [hok]
        refine ⟨hrows,htags,?_⟩
        rw [Dict.get?_set_of_ne _ _ (Ne.symm hne)]
        exact hconsumed

theorem sameFor_clear {t : String} (rows : Dict String (Row ν)) (tags : Dict String (Tag κ))
    {consumed consumed' : Dict String (Finset String)}
    (h : consumed.get? t = consumed'.get? t) (ids : List String) :
    SameFor t (some (ids.foldl clearSample ⟨rows,tags,consumed⟩))
      (some (ids.foldl clearSample ⟨rows,tags,consumed'⟩)) := by
  induction ids generalizing rows tags consumed consumed' with
  | nil => exact ⟨rfl,rfl,h⟩
  | cons sid ids ih =>
    refine ih (rows.erase sid) (tags.erase sid) ?_
    rw [Dict.get?_mapValues,Dict.get?_mapValues,h]

theorem sameFor_exec {t : String} {s s' : Option (Partition ν κ)} (h : SameFor t s s')
    {op : Op ν κ} (hop : concerns t op = true) :
    (exec partitionId asLength stackable s op).2 = (exec partitionId asLength stackable s' op).2 ∧
      SameFor t (exec partitionId asLength stackable s op).1
        (exec partitionId asLength stackable s' op).1 := by
  cases s with
  | none =>
    cases s' with
    | none => cases op <;> exact ⟨rfl,trivial⟩
    | some rec' => exact h.elim
  | some rec =>
    cases s' with
    | none => exact h.elim
    | some rec' =>
      obtain ⟨rows,tags,consumed⟩ := rec
      obtain ⟨rows',tags',consumed'⟩ := rec'
      obtain ⟨rfl,rfl,hconsumed⟩ := h
      cases op with
      | put ids fields tags' =>
        have hfinish (rows : Dict String (Row ν)) (td : Option (TensorDict ν)) :
            (finishPut partitionId ⟨rows,tags,consumed⟩ ids td tags').2 =
              (finishPut partitionId ⟨rows,tags,consumed'⟩ ids td tags').2 ∧
            SameFor t (some (finishPut partitionId ⟨rows,tags,consumed⟩ ids td tags').1)
              (some (finishPut partitionId ⟨rows,tags,consumed'⟩ ids td tags').1) := by
          cases tags' <;> exact ⟨rfl,rfl,rfl,hconsumed⟩
        cases fields with
        | none => exact ⟨congrArg Reply.written (hfinish rows none).1,(hfinish rows none).2⟩
        | some td =>
          simp only [exec,putSamples]
          by_cases hleaves : td.nonTensorLeaves ≠ []
          · rw [if_pos hleaves,if_pos hleaves]
            exact ⟨rfl,rfl,rfl,hconsumed⟩
          · rw [if_neg hleaves,if_neg hleaves]
            rcases writeRows td ids 0 rows with ⟨rows',_ | _⟩
            · exact ⟨rfl,rfl,rfl,hconsumed⟩
            · exact ⟨congrArg Reply.written (hfinish rows' (some td)).1,(hfinish rows' (some td)).2⟩
      | claim t' requiredFields batchSize =>
        obtain rfl : t' = t := of_decide_eq_true hop
        have hready (done : Finset String) (l : List (String × Row ν)) (acc : List (String × ℕ)) :
            readySamples asLength ⟨rows,tags,consumed⟩ done requiredFields batchSize l acc =
              readySamples asLength ⟨rows,tags,consumed'⟩ done requiredFields batchSize l acc := by
          induction l generalizing acc with
          | nil => rfl
          | cons entry l ih => simp only [readySamples,ih]
        simp only [exec,claimMeta,hconsumed,hready]
        cases hdone : consumed'.get? t' with
        | none => exact ⟨rfl,rfl,rfl,hconsumed⟩
        | some done =>
          cases hscan : readySamples asLength ⟨rows,tags,consumed'⟩ done requiredFields batchSize
              rows.entries [] with
          | error e =>
            simp only [hscan]
            exact ⟨trivial,rfl,rfl,hconsumed⟩
          | ok ready =>
            simp only [hscan]
            refine ⟨trivial,rfl,rfl,?_⟩
            rw [Dict.get?_set_self,Dict.get?_set_self]
      | get ids fields => exact ⟨rfl,rfl,rfl,hconsumed⟩
      | clear ids =>
        cases ids with
        | none => exact ⟨rfl,trivial⟩
        | some ids => exact ⟨rfl,sameFor_clear rows tags hconsumed ids⟩

theorem traceFrom_concerns {t : String} {s s' : Option (Partition ν κ)} (h : SameFor t s s')
    (ops : List (Op ν κ)) :
    (traceFrom partitionId asLength stackable s ops).filter (fun call => concerns t call.1) =
      traceFrom partitionId asLength stackable s' (ops.filter (concerns t)) := by
  induction ops generalizing s s' with
  | nil => rfl
  | cons op ops ih =>
    rw [traceFrom]
    by_cases hop : concerns t op = true
    · obtain ⟨hreply,hsame⟩ :=
        @sameFor_exec ν κ partitionId asLength stackable t s s' h op hop
      rw [List.filter_cons_of_pos hop,List.filter_cons_of_pos (by exact hop),traceFrom,ih hsame,hreply]
    · rw [List.filter_cons_of_neg hop,List.filter_cons_of_neg (by exact hop)]
      cases op with
      | put ids fields tags => exact absurd rfl hop
      | claim t' requiredFields batchSize =>
        have hne : t' ≠ t := fun heq => hop (decide_eq_true heq)
        exact ih (sameFor_claim hne h requiredFields batchSize)
      | get ids fields => exact absurd rfl hop
      | clear ids => exact absurd rfl hop

variable (partitionId asLength stackable tasks)

/-- The in-memory data plane over a run: a keyed store with exactly-once claims. -/
structure KeyedStore (ops : List (Op ν κ)) : Prop where
  /-- A read returns the latest puts, and fails when one is missing. -/
  reads : ∀ pre ids fields post, ops = pre ++ .get ids fields :: post → ∀ rec,
    run partitionId asLength stackable tasks pre = some rec →
    ((∃ e, getSamples partitionId stackable rec ids fields = .error e) ↔
      ∃ id ∈ ids, stored pre id = false ∨ ∃ f ∈ fields, latest pre id f = none) ∧
    ∀ out, getSamples partitionId stackable rec ids fields = .ok out →
      (ids ≠ [] → out.map Prod.fst = fields) ∧
      ∀ column ∈ out, column.2.map some = ids.map (latest pre · column.1)
  /-- A claim hands out complete samples, no more than asked for. -/
  claims : ∀ pre t requiredFields batchSize post,
    ops = pre ++ .claim t requiredFields batchSize :: post → ∀ rec,
    run partitionId asLength stackable tasks pre = some rec → ∀ m,
    (claimMeta partitionId asLength rec t requiredFields batchSize).2 = .ok m →
    (m.sampleIds.length : ℤ) ≤ batchSize ∧
      ∀ id ∈ m.sampleIds, stored pre id = true ∧ ∀ f ∈ requiredFields, (latest pre id f).isSome
  /-- No task is handed an id twice between two clears of it. -/
  once : ∀ pre, pre <+: ops → ∀ t id,
    handed t id (trace partitionId asLength stackable tasks pre) ≤ 1
  /-- The claims of other tasks can be left out. -/
  independent : ∀ t, (trace partitionId asLength stackable tasks ops).filter
      (fun call => concerns t call.1) =
    trace partitionId asLength stackable tasks (ops.filter (concerns t))
  /-- Everything is consumed when every stored id was handed to every task. -/
  status : ∀ pre, pre <+: ops → ∀ rec, run partitionId asLength stackable tasks pre = some rec →
    ∀ names, (∀ t ∈ names, t ∈ tasks) → (checkConsumptionStatus rec names = true ↔
      ∀ id, stored pre id = true → ∀ t ∈ names,
        handed t id (trace partitionId asLength stackable tasks pre) = 1)

/-- A claim asks for at least one sample; a read names every field once, and rows of its fields
can be stacked. -/
def Admits (pre : List (Op ν κ)) : Op ν κ → Prop
  | .claim _ _ batchSize => 1 ≤ batchSize
  | .get ids fields => fields.Nodup ∧ ∀ f ∈ fields, ∀ column,
      column.map some = ids.map (latest pre · f) → stackable column = true
  | _ => True

def Admissible (pre : List (Op ν κ)) : List (Op ν κ) → Prop
  | [] => True
  | op :: ops => Admits stackable pre op ∧ Admissible (pre ++ [op]) ops

variable {partitionId asLength stackable tasks}

theorem Admissible.admits {xs ys pre : List (Op ν κ)} {op : Op ν κ}
    (h : Admissible stackable pre (xs ++ op :: ys)) : Admits stackable (pre ++ xs) op := by
  induction xs generalizing pre with
  | nil => simpa using h.1
  | cons x xs ih => simpa using ih h.2

theorem Tracks.handed_le_one (h : Tracks partitionId asLength stackable tasks ops rec)
    (t id : String) : handed t id (trace partitionId asLength stackable tasks ops) ≤ 1 := by
  by_cases ht : t ∈ tasks
  · obtain ⟨done,hdone⟩ := Option.isSome_iff_exists.mp ((h.registered t).mpr ht)
    rw [h.cursors t done hdone id]
    split <;> omega
  · rw [h.unregistered t ht id]
    omega

theorem Tracks.status (h : Tracks partitionId asLength stackable tasks ops rec)
    {names : List String} (hnames : ∀ t ∈ names, t ∈ tasks) :
    checkConsumptionStatus rec names = true ↔ ∀ id, stored ops id = true → ∀ t ∈ names,
      handed t id (trace partitionId asLength stackable tasks ops) = 1 := by
  have hkeys : rec.rows.keys.toFinset.card = rec.rows.size := by
    rw [Dict.keys,List.toFinset_card_of_nodup rec.rows.nodup,Dict.size,List.length_map]
  have hone : ∀ t ∈ names, consumedAll rec t = true ↔ ∀ id, stored ops id = true →
      handed t id (trace partitionId asLength stackable tasks ops) = 1 := by
    intro t ht
    obtain ⟨done,hdone⟩ := Option.isSome_iff_exists.mp ((h.registered t).mpr (hnames t ht))
    have hsub : done ⊆ rec.rows.keys.toFinset := fun id hid =>
      List.mem_toFinset.mpr (Dict.mem_keys_iff.mpr (h.within t done hdone id hid))
    simp only [consumedAll,hdone,h.cursors t done hdone,Bool.not_eq_true',decide_eq_false_iff_not,not_lt]
    constructor
    · intro hle id hid
      have hall : done = rec.rows.keys.toFinset := Finset.eq_of_subset_of_card_le hsub (hkeys ▸ hle)
      have hmem : id ∈ rec.rows.keys.toFinset :=
        List.mem_toFinset.mpr (Dict.mem_keys_iff.mpr ((h.rows id).trans hid))
      rw [if_pos (hall ▸ hmem)]
    · intro hall
      rw [← hkeys]
      refine Finset.card_le_card fun id hid => ?_
      have hrow := Dict.mem_keys_iff.mp (List.mem_toFinset.mp hid)
      by_contra hout
      have hcount := hall id ((h.rows id).symm.trans hrow)
      rw [if_neg hout] at hcount
      cases hcount
  rw [checkConsumptionStatus,List.all_eq_true]
  constructor
  · exact fun hall id hid t ht => (hone t ht).mp (hall t ht) id hid
  · exact fun hall t ht => (hone t ht).mpr fun id hid => hall id hid t ht

/-- The in-memory data plane is a keyed store with exactly-once claims over every run whose
calls are admitted. -/
theorem keyedStore_of_admissible (partitionId : String) (asLength : κ → Option ℕ)
    (stackable : List ν → Bool) (tasks : List String) (ops : List (Op ν κ))
    (hops : Admissible stackable [] ops) :
    KeyedStore partitionId asLength stackable tasks ops := by
  have htracks (pre : List (Op ν κ)) {rec : Partition ν κ}
      (hrun : run partitionId asLength stackable tasks pre = some rec) :
      Tracks partitionId asLength stackable tasks pre rec := by
    have hall := tracked partitionId asLength stackable tasks pre
    rwa [hrun] at hall
  have hadmits {pre post : List (Op ν κ)} {op : Op ν κ} (hsplit : ops = pre ++ op :: post) :
      Admits stackable pre op := by
    rw [hsplit] at hops
    simpa using hops.admits
  refine ⟨?_,?_,?_,?_,?_⟩
  · intro pre ids fields post hsplit rec hrun
    have h := htracks pre hrun
    obtain ⟨hnodup,hstack⟩ := hadmits hsplit
    simp only [← h.cells] at hstack
    obtain ⟨hok,hout⟩ := @getSamples_spec ν κ partitionId stackable rec ids fields hnodup hstack
    simp only [h.cells] at hok hout
    refine ⟨?_,hout⟩
    have herror : (∃ e, getSamples partitionId stackable rec ids fields = .error e) ↔
        ¬∃ out, getSamples partitionId stackable rec ids fields = .ok out := by
      cases getSamples partitionId stackable rec ids fields <;> simp
    rw [herror,hok]
    simp only [h.rows]
    push Not
    refine exists_congr fun id => and_congr_right fun _ => ?_
    cases stored pre id <;> simp
  · intro pre t requiredFields batchSize post hsplit rec hrun m hm
    have h := htracks pre hrun
    have hbatch : 1 ≤ batchSize := hadmits hsplit
    rcases claimMeta_cases partitionId asLength rec t requiredFields batchSize with
      ⟨e,herror⟩ | ⟨done,ready,m',hdone,hready,hids,hok⟩
    · rw [herror] at hm
      cases hm
    · rw [hok] at hm
      obtain rfl := Except.ok.inj hm
      obtain ⟨new,hnew,-,hfresh,hlen⟩ := readySamples_spec hready
      rw [List.nil_append] at hnew
      refine ⟨?_,fun id hid => ?_⟩
      · rw [hids,List.length_map]
        exact hlen (Int.lt_iff_add_one_le.mpr hbatch)
      · rw [hids,hnew] at hid
        obtain ⟨-,row,hrow,hall⟩ := hfresh id hid
        have hget := Dict.mem_entries_iff.mp hrow
        refine ⟨?_,fun f hf => ?_⟩
        · rw [← h.rows,hget]
          rfl
        · rw [← h.cells,cell,hget]
          exact hall f hf
  · intro pre _ t id
    have hall := tracked partitionId asLength stackable tasks pre
    cases hrun : run partitionId asLength stackable tasks pre with
    | none =>
      rw [hrun] at hall
      rw [hall t id]
      omega
    | some rec =>
      rw [hrun] at hall
      exact hall.handed_le_one t id
  · intro t
    have hsame : SameFor t (some (registerPartition tasks : Partition ν κ))
      (some (registerPartition tasks)) := ⟨rfl,rfl,rfl⟩
    exact traceFrom_concerns hsame ops
  · intro pre _ rec hrun names hnames
    exact (htracks pre hrun).status hnames

end Runs

/-- One sample with a field `x`. -/
def oneSample : TensorDict ℕ := ⟨⟨[("x",[7])],by decide⟩,[],1,by decide⟩

def claimRun (batchSize : ℤ) : List (Op ℕ ℕ) :=
  [.put ["a"] (some oneSample) none,.claim "train" ["x"] batchSize,.get ["a"] ["x"]]

theorem keyedStore_of_admissible_claimRun :
    KeyedStore "rollout" some (fun _ => true) ["train"] (claimRun 1) :=
  keyedStore_of_admissible "rollout" some (fun _ => true) ["train"] (claimRun 1)
    ⟨trivial,le_refl (1 : ℤ),⟨List.nodup_singleton "x",fun _ _ _ _ => rfl⟩,trivial⟩

/-- A claim of zero samples hands out one. -/
theorem claimRun_zero_hands_out_one :
    ¬KeyedStore "rollout" some (fun _ => true) ["train"] (claimRun 0) := by
  intro h
  have hclaim := h.claims [.put ["a"] (some oneSample) none] "train" ["x"] 0
    [.get ["a"] ["x"]] rfl _ rfl _ rfl
  exact absurd hclaim.1 (by decide)

end DataPlane
end DockyardRL
