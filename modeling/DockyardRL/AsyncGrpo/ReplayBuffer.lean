import DockyardRL.Lib.Select
import Mathlib.Data.List.Sort
import Mathlib.Data.Rat.Defs
import Mathlib.Algebra.Order.Ring.Unbundled.Rat

/-! The replay buffer of asynchronous GRPO: three parallel lists and a watermark, edited under one
lock, so that each method is one atomic function of the state. `GroupStore` is what the buffer is
for: a bounded queue of groups from which the first groups meant for a training step are taken.

Whole runs of a replay buffer: any sequence of `add`, `sample`, `clear`, `state_dict` and
`load_state_dict`, where a restored state was saved by some buffer that was itself reached this way.
A ledger records what the callers gave and got since the last clear or load. -/
namespace DockyardRL
namespace AsyncGrpo

section

open Select

variable {τ : Type*}

/-- The attributes of `ReplayBufferImpl`; the lock is left out. -/
structure ReplayBuffer (τ : Type*) where
  maxSize : ℕ
  trajectories : List τ
  trajectoryVersions : List ℤ
  targetWeightVersions : List ℤ
  lastTargetWeightAlreadyGenerated : ℤ
  deriving DecidableEq

inductive AddStatus
  | success | full
  deriving DecidableEq

/-- The dictionary a successful `sample` returns. -/
structure SampleResult (τ : Type*) where
  trajectories : List τ
  avgTrajectoryAge : ℚ
  deriving DecidableEq

/-- The dictionary `state_dict` returns: a marker or the contents. -/
inductive StateDict (τ : Type*)
  | unpersisted (reason : String) (maxSize discardedGroups : ℕ)
  | persisted (maxSize : ℕ) (trajectories : List τ) (trajectoryVersions targetWeightVersions : List ℤ)
      (lastTargetWeightAlreadyGenerated : ℤ)

namespace ReplayBuffer

/-- `__init__`. -/
def create (maxSize : ℤ) : Except String (ReplayBuffer τ) :=
  if maxSize ≤ 0 then .error s!"max_size must be positive, got {maxSize}"
  else .ok ⟨maxSize.toNat, [], [], [], -1⟩

def add (b : ReplayBuffer τ) (trajectory : τ) (weightVersion targetWeightVersion : ℤ) :
    AddStatus × ReplayBuffer τ :=
  if b.trajectories.length ≥ b.maxSize then (.full, b)
  else (.success,
    { b with
      trajectories := b.trajectories ++ [trajectory]
      trajectoryVersions := b.trajectoryVersions ++ [weightVersion]
      targetWeightVersions := b.targetWeightVersions ++ [targetWeightVersion]
      lastTargetWeightAlreadyGenerated :=
        max b.lastTargetWeightAlreadyGenerated targetWeightVersion })

def minValidVersion (currentWeightVersion maxAgeSteps : ℤ) : ℤ :=
  max 0 (currentWeightVersion - maxAgeSteps)

def validIndices (b : ReplayBuffer τ) (currentWeightVersion maxAgeSteps : ℤ) : List ℕ :=
  matchIdx (fun v => decide (minValidVersion currentWeightVersion maxAgeSteps ≤ v ∧
    v ≤ currentWeightVersion)) 0 b.trajectoryVersions

def intendedIndices (b : ReplayBuffer τ) (currentWeightVersion maxAgeSteps : ℤ) : List ℕ :=
  (b.validIndices currentWeightVersion maxAgeSteps).filter fun i =>
    decide (b.targetWeightVersions[i]? = some currentWeightVersion)

/-- Pop the selected positions from all three lists, largest first. -/
def removeSelected (b : ReplayBuffer τ) (selected : List ℕ) : ReplayBuffer τ :=
  let order := selected.insertionSort (· ≥ ·)
  { b with
    trajectories := order.foldl (fun l i => l.eraseIdx i) b.trajectories
    trajectoryVersions := order.foldl (fun l i => l.eraseIdx i) b.trajectoryVersions
    targetWeightVersions := order.foldl (fun l i => l.eraseIdx i) b.targetWeightVersions }

/-- `sample`: `none` means wait, an error is the exception raised. -/
def sample (b : ReplayBuffer τ) (numPromptGroups : ℕ) (currentWeightVersion maxAgeSteps : ℤ) :
    Except String (Option (SampleResult τ)) × ReplayBuffer τ :=
  if b.trajectories.isEmpty then (.ok none, b)
  else
    let minValid := minValidVersion currentWeightVersion maxAgeSteps
    let oldTrajectories := b.trajectoryVersions.filter fun v => decide (v < minValid)
    if !oldTrajectories.isEmpty then
      (.error s!"Found {oldTrajectories.length} trajectories older than min_valid_version {minValid}.", b)
    else
      let valid := b.validIndices currentWeightVersion maxAgeSteps
      if valid.isEmpty then (.ok none, b)
      else if valid.length < numPromptGroups then (.ok none, b)
      else
        let intended := b.intendedIndices currentWeightVersion maxAgeSteps
        if intended.length < numPromptGroups then (.ok none, b)
        else
          let selected := intended.take numPromptGroups
          let sampledWeights : List ℤ := selected.filterMap (b.trajectoryVersions[·]?)
          if sampledWeights.isEmpty then (.error "division by zero", b)
          else
            (.ok (some
              { trajectories := selected.filterMap (b.trajectories[·]?)
                avgTrajectoryAge :=
                  (currentWeightVersion : ℚ) - ((sampledWeights.sum : ℤ) : ℚ) / sampledWeights.length }),
              b.removeSelected selected)

def size (b : ReplayBuffer τ) : ℕ := b.trajectories.length

/-- `clear` keeps the watermark. -/
def clear (b : ReplayBuffer τ) : ReplayBuffer τ :=
  { b with trajectories := [], trajectoryVersions := [], targetWeightVersions := [] }

/-- `state_dict`; `dataplaneBacked` recognises entries holding plane references. -/
def stateDict (dataplaneBacked : τ → Bool) (b : ReplayBuffer τ) : StateDict τ :=
  if b.trajectories.any dataplaneBacked then
    .unpersisted "buffer holds data-plane references, which do not survive a restart" b.maxSize
      b.trajectories.length
  else
    .persisted b.maxSize b.trajectories b.trajectoryVersions b.targetWeightVersions
      b.lastTargetWeightAlreadyGenerated

def loadStateDict (b : ReplayBuffer τ) : StateDict τ → Bool × ReplayBuffer τ
  | .unpersisted _ _ _ => (false, b)
  | .persisted _ trajectories versions targets last =>
    if trajectories.length > b.maxSize then (false, b)
    else (true,
      { b with
        trajectories := trajectories
        trajectoryVersions := versions
        targetWeightVersions := targets
        lastTargetWeightAlreadyGenerated := last })

end ReplayBuffer

/-- One buffered group with the two versions it is tagged with. -/
structure Entry (τ : Type*) where
  trajectory : τ
  version : ℤ
  target : ℤ
  deriving DecidableEq

/-- The purpose of the buffer: a queue of tagged groups within a capacity. -/
structure GroupStore (τ : Type*) where
  maxSize : ℕ
  entries : List (Entry τ)
  size_le : entries.length ≤ maxSize

/-- Groups a sample at `current` may take. -/
def Entry.eligible (current maxAge : ℤ) (e : Entry τ) : Bool :=
  decide (ReplayBuffer.minValidVersion current maxAge ≤ e.version ∧ e.version ≤ current) &&
    decide (e.target = current)

namespace GroupStore

def push (s : GroupStore τ) (e : Entry τ) : Option (GroupStore τ) :=
  if h : s.entries.length < s.maxSize then
    some ⟨s.maxSize,s.entries ++ [e],by rw [List.length_append]; exact h⟩
  else none

/-- Take the first `k` eligible groups out. -/
def take (s : GroupStore τ) (k : ℕ) (current maxAge : ℤ) : List (Entry τ) × GroupStore τ :=
  ((pick (Entry.eligible current maxAge) k s.entries).1,
    ⟨s.maxSize,(pick (Entry.eligible current maxAge) k s.entries).2,
      (pick_rest_sublist _ _ _).length_le.trans s.size_le⟩)

end GroupStore

namespace ReplayBuffer

/-- The three lists are the columns of one list of entries. -/
structure Columns (b : ReplayBuffer τ) (es : List (Entry τ)) : Prop where
  trajectories : b.trajectories = es.map Entry.trajectory
  versions : b.trajectoryVersions = es.map Entry.version
  targets : b.targetWeightVersions = es.map Entry.target

/-- The buffer refines a store when its columns are the store's entries. -/
structure Refines (b : ReplayBuffer τ) (s : GroupStore τ) : Prop where
  maxSize : b.maxSize = s.maxSize
  columns : b.Columns s.entries

theorem Columns.length {b : ReplayBuffer τ} {es : List (Entry τ)} (h : b.Columns es) :
    b.trajectories.length = es.length ∧ b.trajectoryVersions.length = es.length ∧
      b.targetWeightVersions.length = es.length := by
  simp [h.trajectories,h.versions,h.targets]

/-- An `add` is refused exactly at capacity and then changes nothing. -/
theorem add_full_iff (b : ReplayBuffer τ) (t : τ) (v g : ℤ) :
    (b.add t v g).1 = .full ↔ b.maxSize ≤ b.trajectories.length := by
  unfold add
  split_ifs with h <;> simp_all

theorem add_full {b : ReplayBuffer τ} {t : τ} {v g : ℤ} (h : (b.add t v g).1 = .full) :
    (b.add t v g).2 = b := by
  have hfull := (add_full_iff b t v g).mp h
  simp [add,hfull]

theorem add_success {b : ReplayBuffer τ} {t : τ} {v g : ℤ} (h : (b.add t v g).1 = .success) :
    b.trajectories.length < b.maxSize ∧ (b.add t v g).2 =
      ⟨b.maxSize,b.trajectories ++ [t],b.trajectoryVersions ++ [v],b.targetWeightVersions ++ [g],
        max b.lastTargetWeightAlreadyGenerated g⟩ := by
  by_cases hfull : b.maxSize ≤ b.trajectories.length
  · simp [add,hfull] at h
  · exact ⟨by omega,by simp [add,hfull]⟩

/-- A successful `add` appends one entry to the columns. -/
theorem Columns.add {b : ReplayBuffer τ} {es : List (Entry τ)} (hc : b.Columns es)
    {t : τ} {v g : ℤ} (h : (b.add t v g).1 = .success) :
    (b.add t v g).2.Columns (es ++ [⟨t,v,g⟩]) := by
  rw [(add_success h).2]
  constructor <;> simp [hc.trajectories,hc.versions,hc.targets]

/-- Adding to the buffer is pushing onto the store. -/
theorem Refines.add {b : ReplayBuffer τ} {s s' : GroupStore τ} (hr : b.Refines s) {t : τ} {v g : ℤ}
    (h : s.push ⟨t,v,g⟩ = some s') :
    (b.add t v g).1 = .success ∧ (b.add t v g).2.Refines s' := by
  unfold GroupStore.push at h
  split_ifs at h with hlt
  obtain rfl := Option.some.inj h
  have hsucc : (b.add t v g).1 = .success := by
    have hlen := hr.columns.length.1
    have hmax := hr.maxSize
    unfold ReplayBuffer.add
    rw [if_neg (by omega)]
  refine ⟨hsucc,?_,hr.columns.add hsucc⟩
  rw [(add_success hsucc).2]
  exact hr.maxSize

theorem insertionSort_of_sorted {is : List ℕ} (h : is.Pairwise (· < ·)) :
    is.insertionSort (· ≥ ·) = is.reverse := by
  have hperm : (is.insertionSort (· ≥ ·)).Perm is.reverse :=
    (List.perm_insertionSort _ _).trans is.reverse_perm.symm
  have hrev : is.reverse.Pairwise (· ≥ ·) :=
    List.pairwise_reverse.mpr (h.imp fun hab => le_of_lt hab)
  exact hperm.eq_of_pairwise (fun a b _ _ hab hba => le_antisymm hba hab)
    (List.pairwise_insertionSort _ _) hrev

theorem removeSelected_eq {b : ReplayBuffer τ} {is : List ℕ} (h : is.Pairwise (· < ·)) :
    b.removeSelected is =
      ⟨b.maxSize,popAll is b.trajectories,popAll is b.trajectoryVersions,
        popAll is b.targetWeightVersions,b.lastTargetWeightAlreadyGenerated⟩ := by
  simp [removeSelected,insertionSort_of_sorted h,popAll]

/-- On aligned columns the intended positions are those of the eligible entries. -/
theorem intendedIndices_eq {b : ReplayBuffer τ} {es : List (Entry τ)} (hc : b.Columns es)
    (current maxAge : ℤ) :
    b.intendedIndices current maxAge = matchIdx (Entry.eligible current maxAge) 0 es := by
  have hmap (p : ℤ → Bool) (i : ℕ) (l : List (Entry τ)) :
      matchIdx p i (l.map Entry.version) = matchIdx (fun e => p e.version) i l := by
    induction l generalizing i with
    | nil => rfl
    | cons e l ih => simp [matchIdx_cons,ih]
  unfold intendedIndices validIndices
  rw [hc.versions,hmap,matchIdx_filter _ _ (fun e => decide (e.target = current))]
  · rfl
  · intro j hj
    simp [hc.targets,hj]

/-- What `sample` does, guards included. -/
theorem sample_cases (b : ReplayBuffer τ) (k : ℕ) (current maxAge : ℤ) :
    ((∃ msg, (b.sample k current maxAge).1 = .error msg) ∧ (b.sample k current maxAge).2 = b) ∨
    ((b.sample k current maxAge).1 = .ok none ∧ (b.sample k current maxAge).2 = b) ∨
    (k ≤ (b.intendedIndices current maxAge).length ∧
      (∀ v ∈ b.trajectoryVersions, minValidVersion current maxAge ≤ v) ∧
      (∃ age, (b.sample k current maxAge).1 =
        .ok (some ⟨((b.intendedIndices current maxAge).take k).filterMap (b.trajectories[·]?),age⟩)) ∧
      (b.sample k current maxAge).2 =
        b.removeSelected ((b.intendedIndices current maxAge).take k)) := by
  unfold sample
  dsimp only
  split_ifs with h1 h2 h3 h4 h5 h6
  · exact .inr (.inl ⟨rfl,rfl⟩)
  · exact .inl ⟨⟨_,rfl⟩,rfl⟩
  · exact .inr (.inl ⟨rfl,rfl⟩)
  · exact .inr (.inl ⟨rfl,rfl⟩)
  · exact .inr (.inl ⟨rfl,rfl⟩)
  · exact .inl ⟨⟨_,rfl⟩,rfl⟩
  · refine .inr (.inr ⟨by omega,?_,⟨_,rfl⟩,rfl⟩)
    simpa [List.filter_eq_nil_iff] using h2

/-- The stale-trajectory exception needs a buffered version below the window. -/
theorem sample_error {b : ReplayBuffer τ} {es : List (Entry τ)} (hc : b.Columns es) {k : ℕ}
    (hk : 1 ≤ k) {current maxAge : ℤ} {msg : String}
    (h : (b.sample k current maxAge).1 = .error msg) :
    ∃ e ∈ es, e.version < minValidVersion current maxAge := by
  unfold sample at h
  dsimp only at h
  split_ifs at h with h1 h2 h3 h4 h5 h6
  · obtain ⟨v,hv⟩ := List.exists_mem_of_ne_nil _ (by simpa using h2 :
      b.trajectoryVersions.filter (fun v => decide (v < minValidVersion current maxAge)) ≠ [])
    rw [List.mem_filter,hc.versions,List.mem_map] at hv
    obtain ⟨⟨e,he,rfl⟩,hlt⟩ := hv
    exact ⟨e,he,by simpa using hlt⟩
  · exfalso
    rw [intendedIndices_eq hc,hc.versions] at h6
    rw [intendedIndices_eq hc] at h5
    have hsel := congrArg (List.map Entry.version)
      (filterMap_matchIdx (Entry.eligible current maxAge) k es)
    have hlen := length_pick (Entry.eligible current maxAge) (k := k) (l := es) (by simpa using h5)
    rw [List.map_filterMap] at hsel
    simp only [List.getElem?_map,List.isEmpty_iff] at h6
    rw [h6] at hsel
    have := congrArg List.length hsel
    simp only [List.length_nil,List.length_map,hlen] at this
    omega

/-- A successful sample takes the first eligible groups and keeps the rest in order. -/
theorem sample_success {b : ReplayBuffer τ} {es : List (Entry τ)} (hc : b.Columns es) {k : ℕ}
    {current maxAge : ℤ} {r : SampleResult τ} (h : (b.sample k current maxAge).1 = .ok (some r)) :
    k ≤ (es.filter (Entry.eligible current maxAge)).length ∧
    (∀ e ∈ es, minValidVersion current maxAge ≤ e.version) ∧
    r.trajectories = (pick (Entry.eligible current maxAge) k es).1.map Entry.trajectory ∧
    (b.sample k current maxAge).2.maxSize = b.maxSize ∧
    (b.sample k current maxAge).2.lastTargetWeightAlreadyGenerated =
      b.lastTargetWeightAlreadyGenerated ∧
    (b.sample k current maxAge).2.Columns (pick (Entry.eligible current maxAge) k es).2 := by
  rcases sample_cases b k current maxAge with ⟨⟨msg,hm⟩,_⟩ | ⟨hn,_⟩ | ⟨hlen,hold,⟨age,ha⟩,hb⟩
  · simp [hm] at h
  · simp [hn] at h
  rw [intendedIndices_eq hc] at hlen ha hb
  have hsorted : ((matchIdx (Entry.eligible current maxAge) 0 es).take k).Pairwise (· < ·) :=
    (matchIdx_sorted _ _ _).sublist (List.take_sublist _ _)
  have hr : r.trajectories = (pick (Entry.eligible current maxAge) k es).1.map Entry.trajectory := by
    rw [ha] at h
    obtain rfl := Option.some.inj (Except.ok.inj h)
    rw [← filterMap_matchIdx,List.map_filterMap,hc.trajectories]
    simp only [List.getElem?_map]
  refine ⟨by simpa using hlen,?_,hr,?_⟩
  · intro e he
    exact hold _ (by rw [hc.versions]; exact List.mem_map_of_mem he)
  rw [hb,removeSelected_eq hsorted]
  refine ⟨rfl,rfl,?_⟩
  constructor <;> simp only [hc.trajectories,hc.versions,hc.targets,popAll_map,popAll_matchIdx]

/-- Sampling the buffer is taking from the store. -/
theorem Refines.sample {b : ReplayBuffer τ} {s : GroupStore τ} (hr : b.Refines s) {k : ℕ}
    {current maxAge : ℤ} {r : SampleResult τ} (h : (b.sample k current maxAge).1 = .ok (some r)) :
    r.trajectories = (s.take k current maxAge).1.map Entry.trajectory ∧
      (b.sample k current maxAge).2.Refines (s.take k current maxAge).2 := by
  obtain ⟨-,-,htraj,hmax,-,hcols⟩ := sample_success hr.columns h
  exact ⟨htraj,hmax.trans hr.maxSize,hcols⟩

/-- A sample that returns nothing or raises leaves the buffer alone. -/
theorem sample_refused {b : ReplayBuffer τ} {k : ℕ} {current maxAge : ℤ}
    (h : ∀ r, (b.sample k current maxAge).1 ≠ .ok (some r)) : (b.sample k current maxAge).2 = b := by
  rcases sample_cases b k current maxAge with ⟨_,hb⟩ | ⟨_,hb⟩ | ⟨_,_,⟨age,ha⟩,_⟩
  · exact hb
  · exact hb
  · exact absurd ha (h _)

theorem loadStateDict_false {b : ReplayBuffer τ} {st : StateDict τ}
    (h : (b.loadStateDict st).1 = false) : (b.loadStateDict st).2 = b := by
  cases st with
  | unpersisted => rfl
  | persisted m ts vs gs last =>
    by_cases hlen : b.maxSize < ts.length <;> simp_all [loadStateDict]

theorem loadStateDict_true {b c : ReplayBuffer τ} {es : List (Entry τ)} (hc : c.Columns es)
    {dataplaneBacked : τ → Bool}
    (h : (b.loadStateDict (c.stateDict dataplaneBacked)).1 = true) :
    es.length ≤ b.maxSize ∧ (b.loadStateDict (c.stateDict dataplaneBacked)).2.maxSize = b.maxSize ∧
      (b.loadStateDict (c.stateDict dataplaneBacked)).2.Columns es := by
  have hlen := hc.length.1
  unfold stateDict at h ⊢
  split_ifs at h ⊢ with hd
  · simp [loadStateDict] at h
  · by_cases hgt : b.maxSize < c.trajectories.length
    · simp [loadStateDict,hgt] at h
    · simp only [loadStateDict,gt_iff_lt,hgt,if_false]
      exact ⟨by omega,trivial,hc.trajectories,hc.versions,hc.targets⟩

end ReplayBuffer

end

open Select

variable {τ : Type*}

def ReplayBuffer.entries (b : ReplayBuffer τ) : List (Entry τ) :=
  (b.trajectories.zip (b.trajectoryVersions.zip b.targetWeightVersions)).map
    fun x => ⟨x.1,x.2.1,x.2.2⟩

theorem ReplayBuffer.Columns.entries {b : ReplayBuffer τ} {es : List (Entry τ)} (h : b.Columns es) :
    b.entries = es := by
  unfold ReplayBuffer.entries
  rw [h.trajectories,h.versions,h.targets]
  induction es with
  | nil => rfl
  | cons e es ih => simp [List.zip_map',List.map_map,Function.comp_def]

structure Ledger (τ : Type*) where
  buffer : ReplayBuffer τ
  entered : List (Entry τ)
  delivered : List (List τ)

/-- The calls that do not depend on another buffer. -/
inductive BufferOp (τ : Type*)
  | add (trajectory : τ) (weightVersion targetWeightVersion : ℤ)
  | sample (numPromptGroups : ℕ) (currentWeightVersion maxAgeSteps : ℤ)
  | clear
  | stateDict

namespace BufferOp

def Valid : BufferOp τ → Prop
  | .sample k _ _ => 1 ≤ k
  | _ => True

def apply (L : Ledger τ) : BufferOp τ → Ledger τ
  | .add t v g =>
    { L with
      buffer := (L.buffer.add t v g).2
      entered := if (L.buffer.add t v g).1 = .success then L.entered ++ [⟨t,v,g⟩] else L.entered }
  | .sample k current maxAge =>
    { L with
      buffer := (L.buffer.sample k current maxAge).2
      delivered := match (L.buffer.sample k current maxAge).1 with
        | .ok (some r) => L.delivered ++ [r.trajectories]
        | _ => L.delivered }
  | .clear => ⟨L.buffer.clear,[],[]⟩
  | .stateDict => L

end BufferOp

namespace Ledger

/-- Restoring goes on with the account of the buffer that was saved. -/
def load (dataplaneBacked : τ → Bool) (L saved : Ledger τ) : Ledger τ :=
  let loaded := L.buffer.loadStateDict (saved.buffer.stateDict dataplaneBacked)
  if loaded.1 then ⟨loaded.2,saved.entered,saved.delivered⟩ else { L with buffer := loaded.2 }

/-- Ledgers of the runs of a buffer created with `maxSize`. -/
inductive Reached (dataplaneBacked : τ → Bool) : ℤ → Ledger τ → Prop
  | create {maxSize b} : ReplayBuffer.create maxSize = .ok b → Reached dataplaneBacked maxSize ⟨b,[],[]⟩
  | op {maxSize L o} : Reached dataplaneBacked maxSize L → BufferOp.Valid o →
      Reached dataplaneBacked maxSize (o.apply L)
  | load {maxSize maxSize' L L'} : Reached dataplaneBacked maxSize L →
      Reached dataplaneBacked maxSize' L' →
      Reached dataplaneBacked maxSize (load dataplaneBacked L L')

/-- The invariant: aligned columns within capacity, whose entries are a subsequence
of what entered, the rest having been delivered. -/
structure Balanced (maxSize : ℤ) (L : Ledger τ) (es : List (Entry τ)) : Prop where
  maxSize : (L.buffer.maxSize : ℤ) = maxSize
  columns : L.buffer.Columns es
  bounded : es.length ≤ L.buffer.maxSize
  ordered : es.Sublist L.entered
  conserved : (L.entered.map Entry.trajectory).Perm (L.delivered.flatten ++ es.map Entry.trajectory)

theorem balanced_create {maxSize : ℤ} {b : ReplayBuffer τ} (h : ReplayBuffer.create maxSize = .ok b) :
    Balanced maxSize ⟨b,[],[]⟩ [] := by
  unfold ReplayBuffer.create at h
  split_ifs at h with hle
  obtain rfl := Except.ok.inj h
  exact ⟨by simp; omega,⟨rfl,rfl,rfl⟩,by simp,by simp,by simp⟩

theorem balanced_add {maxSize : ℤ} {L : Ledger τ} {es : List (Entry τ)} (h : Balanced maxSize L es)
    (t : τ) (v g : ℤ) : ∃ es', Balanced maxSize ((BufferOp.add t v g).apply L) es' := by
  cases hs : (L.buffer.add t v g).1 with
  | full =>
    refine ⟨es,?_⟩
    simpa [BufferOp.apply,hs,ReplayBuffer.add_full hs] using
      (⟨h.maxSize,h.columns,h.bounded,h.ordered,h.conserved⟩ : Balanced maxSize L es)
  | success =>
    obtain ⟨hlt,hb⟩ := ReplayBuffer.add_success hs
    refine ⟨es ++ [⟨t,v,g⟩],?_,?_,?_,?_,?_⟩
    · simpa [BufferOp.apply,hb] using h.maxSize
    · exact h.columns.add hs
    · have hlen := h.columns.length.1
      simp only [BufferOp.apply,hb,List.length_append,List.length_singleton]
      omega
    · simpa [BufferOp.apply,hs] using h.ordered.append_right [⟨t,v,g⟩]
    · simpa [BufferOp.apply,hs] using h.conserved.append_right [t]

theorem balanced_sample {maxSize : ℤ} {L : Ledger τ} {es : List (Entry τ)} (h : Balanced maxSize L es)
    (k : ℕ) (current maxAge : ℤ) :
    ∃ es', Balanced maxSize ((BufferOp.sample k current maxAge).apply L) es' := by
  by_cases hr : ∃ r, (L.buffer.sample k current maxAge).1 = .ok (some r)
  · obtain ⟨r,hr⟩ := hr
    obtain ⟨-,-,htraj,hmax,-,hcols⟩ := ReplayBuffer.sample_success h.columns hr
    have hperm := pick_perm (Entry.eligible (τ := τ) current maxAge) k es
    have hsub := pick_rest_sublist (Entry.eligible (τ := τ) current maxAge) k es
    refine ⟨(pick (Entry.eligible current maxAge) k es).2,?_,?_,?_,?_,?_⟩
    · simpa [BufferOp.apply,hmax] using h.maxSize
    · exact hcols
    · simpa [BufferOp.apply,hmax] using hsub.length_le.trans h.bounded
    · exact hsub.trans h.ordered
    · have hes := hperm.map Entry.trajectory
      rw [List.map_append,← htraj] at hes
      have := h.conserved.trans (hes.symm.append_left L.delivered.flatten)
      simpa [BufferOp.apply,hr] using this
  · have hno : ∀ r, (L.buffer.sample k current maxAge).1 ≠ .ok (some r) := fun r hr' => hr ⟨r,hr'⟩
    have hb := ReplayBuffer.sample_refused hno
    have hd : ((BufferOp.sample k current maxAge).apply L).delivered = L.delivered := by
      cases hs : (L.buffer.sample k current maxAge).1 with
      | error msg => simp [BufferOp.apply,hs]
      | ok o =>
        cases o with
        | none => simp [BufferOp.apply,hs]
        | some r => exact absurd hs (hno r)
    refine ⟨es,?_,?_,?_,h.ordered,?_⟩
    · simpa [BufferOp.apply,hb] using h.maxSize
    · simpa [BufferOp.apply,hb] using h.columns
    · simpa [BufferOp.apply,hb] using h.bounded
    · rw [hd]
      exact h.conserved

theorem balanced_clear {maxSize : ℤ} {L : Ledger τ} {es : List (Entry τ)} (h : Balanced maxSize L es) :
    Balanced maxSize (BufferOp.clear.apply L) [] :=
  ⟨h.maxSize,⟨rfl,rfl,rfl⟩,by simp,by simp [BufferOp.apply],by simp [BufferOp.apply]⟩

theorem balanced_load {maxSize maxSize' : ℤ} {L L' : Ledger τ} {es es' : List (Entry τ)}
    (dataplaneBacked : τ → Bool) (h : Balanced maxSize L es) (h' : Balanced maxSize' L' es') :
    ∃ es'', Balanced maxSize (load dataplaneBacked L L') es'' := by
  cases hb : (L.buffer.loadStateDict (L'.buffer.stateDict dataplaneBacked)).1 with
  | false =>
    refine ⟨es,?_⟩
    simpa [load,hb,ReplayBuffer.loadStateDict_false hb] using
      (⟨h.maxSize,h.columns,h.bounded,h.ordered,h.conserved⟩ : Balanced maxSize L es)
  | true =>
    obtain ⟨hlen,hmax,hcols⟩ := ReplayBuffer.loadStateDict_true h'.columns hb
    refine ⟨es',?_,?_,?_,?_,?_⟩
    · simpa [load,hb,hmax] using h.maxSize
    · simpa [load,hb] using hcols
    · simpa [load,hb,hmax] using hlen
    · simpa [load,hb] using h'.ordered
    · simpa [load,hb] using h'.conserved

/-- Every run keeps the balance. -/
theorem Reached.balanced {dataplaneBacked : τ → Bool} {maxSize : ℤ} {L : Ledger τ}
    (h : Reached dataplaneBacked maxSize L) : ∃ es, Balanced maxSize L es := by
  induction h with
  | create hb => exact ⟨[],balanced_create hb⟩
  | @op _ _ o _ _ ih =>
    obtain ⟨es,he⟩ := ih
    cases o with
    | add t v g => exact balanced_add he t v g
    | sample k current maxAge => exact balanced_sample he k current maxAge
    | clear => exact ⟨[],balanced_clear he⟩
    | stateDict => exact ⟨es,he⟩
  | load _ _ ih ih' =>
    obtain ⟨es,he⟩ := ih
    obtain ⟨es',he'⟩ := ih'
    exact balanced_load _ he he'

/-- The four promises of the buffer, at every ledger a run reaches: the lists are
aligned and bounded; what entered was either delivered or is still stored; a
successful sample takes the earliest eligible groups; a refused call changes nothing. -/
theorem replayBuffer_conserves {dataplaneBacked : τ → Bool} {maxSize : ℤ} {L : Ledger τ}
    (h : Reached dataplaneBacked maxSize L) :
    (L.buffer.trajectoryVersions.length = L.buffer.trajectories.length ∧
      L.buffer.targetWeightVersions.length = L.buffer.trajectories.length ∧
      (L.buffer.trajectories.length : ℤ) ≤ maxSize) ∧
    (L.buffer.Columns L.buffer.entries ∧ L.buffer.entries.Sublist L.entered) ∧
    ((L.entered.map Entry.trajectory).Perm (L.delivered.flatten ++ L.buffer.trajectories) ∧
      ((L.entered.map Entry.trajectory).Nodup →
        (L.delivered.flatten ++ L.buffer.trajectories).Nodup)) ∧
    (∀ k current maxAge r, 1 ≤ k → (L.buffer.sample k current maxAge).1 = .ok (some r) →
      ∃ taken rest, r.trajectories = taken.map Entry.trajectory ∧ taken.length = k ∧
        taken = (L.buffer.entries.filter (Entry.eligible current maxAge)).take k ∧
        (∀ e ∈ taken, e.target = current ∧ max 0 (current - maxAge) ≤ e.version ∧
          e.version ≤ current) ∧
        (L.buffer.sample k current maxAge).2.Columns rest ∧
        (taken ++ rest).Perm L.buffer.entries ∧ rest.Sublist L.buffer.entries) ∧
    (∀ k current maxAge, (∀ r, (L.buffer.sample k current maxAge).1 ≠ .ok (some r)) →
      (L.buffer.sample k current maxAge).2 = L.buffer) ∧
    (∀ t v g, (L.buffer.add t v g).1 = .full → (L.buffer.add t v g).2 = L.buffer) ∧
    (∀ st, (L.buffer.loadStateDict st).1 = false → (L.buffer.loadStateDict st).2 = L.buffer) := by
  obtain ⟨es,he⟩ := h.balanced
  have hes := he.columns.entries
  obtain ⟨htraj,hvers,htarg⟩ := he.columns.length
  have hperm : (L.entered.map Entry.trajectory).Perm (L.delivered.flatten ++ L.buffer.trajectories) := by
    rw [he.columns.trajectories]
    exact he.conserved
  refine ⟨⟨by omega,by omega,?_⟩,⟨hes ▸ he.columns,hes ▸ he.ordered⟩,⟨hperm,hperm.nodup⟩,?_,
    fun k current maxAge hno => ReplayBuffer.sample_refused hno,
    fun t v g hfull => ReplayBuffer.add_full hfull,fun st hf => ReplayBuffer.loadStateDict_false hf⟩
  · have := he.bounded
    have := he.maxSize
    omega
  · intro k current maxAge r _ hr
    obtain ⟨hlen,-,hitems,-,-,hcols⟩ := ReplayBuffer.sample_success he.columns hr
    rw [hes]
    refine ⟨_,_,hitems,length_pick _ hlen,pick_fst _ _ _,?_,hcols,pick_perm _ _ _,
      pick_rest_sublist _ _ _⟩
    intro e hmem
    rw [pick_fst] at hmem
    have := (List.mem_filter.mp (List.mem_of_mem_take hmem)).2
    simp only [Entry.eligible,ReplayBuffer.minValidVersion,Bool.and_eq_true,decide_eq_true_eq] at this
    obtain ⟨hwindow,htarget⟩ := this
    obtain ⟨hlow,hhigh⟩ := of_decide_eq_true hwindow
    exact ⟨htarget,hlow,hhigh⟩

/-- A buffer of two after two adds and the sample of the first group's step. -/
def sampledLedger : Ledger ℕ :=
  (BufferOp.sample 1 1 1).apply ((BufferOp.add 11 1 2).apply ((BufferOp.add 10 0 1).apply
    ⟨⟨2,[],[],[],-1⟩,[],[]⟩))

theorem sampledLedger_reached : Reached (fun _ => false) 2 sampledLedger := by
  have h₀ : Reached (fun _ : ℕ => false) 2 ⟨⟨2,[],[],[],-1⟩,[],[]⟩ := .create rfl
  have h₁ := h₀.op (o := .add 10 0 1) trivial
  have h₂ := h₁.op (o := .add 11 1 2) trivial
  exact h₂.op (o := .sample 1 1 1) (le_refl 1)

theorem replayBuffer_conserves_sampled :
    sampledLedger.delivered = [[10]] ∧ sampledLedger.buffer.trajectories = [11] ∧
      (sampledLedger.entered.map Entry.trajectory).Perm
        (sampledLedger.delivered.flatten ++ sampledLedger.buffer.trajectories) :=
  ⟨by decide,by decide,(replayBuffer_conserves sampledLedger_reached).2.2.1.1⟩

end Ledger

/-- What a call tells its caller, the texts of exceptions and the average age apart. -/
inductive Answer (τ : Type*)
  | added (status : AddStatus)
  | stale
  | wait
  | taken (groups : List τ)
  | cleared
  | saved (contents : Option (List (Entry τ)))

/-- A call on the queue that the buffer is for. -/
def GroupStore.exec (dataplaneBacked : τ → Bool) (s : GroupStore τ) : BufferOp τ → Answer τ × GroupStore τ
  | .add t v g => match s.push ⟨t,v,g⟩ with
    | some s' => (.added .success,s')
    | none => (.added .full,s)
  | .sample k current maxAge =>
    if ∃ e ∈ s.entries, e.version < ReplayBuffer.minValidVersion current maxAge then (.stale,s)
    else if (s.entries.filter (Entry.eligible current maxAge)).length < k then (.wait,s)
    else (.taken ((s.take k current maxAge).1.map Entry.trajectory),(s.take k current maxAge).2)
  | .clear => (.cleared,⟨s.maxSize,[],Nat.zero_le _⟩)
  | .stateDict =>
    (.saved (if s.entries.any (dataplaneBacked ·.trajectory) then none else some s.entries),s)

/-- The answers to the calls of a run. -/
def BufferOp.answers {σ : Type*} (exec : σ → BufferOp τ → Answer τ × σ) :
    σ → List (BufferOp τ) → List (Answer τ)
  | _,[] => []
  | s,o :: ops => (exec s o).1 :: answers exec (exec s o).2 ops

namespace ReplayBuffer

/-- The same call on the buffer. -/
def exec (dataplaneBacked : τ → Bool) (b : ReplayBuffer τ) : BufferOp τ → Answer τ × ReplayBuffer τ
  | .add t v g => (.added (b.add t v g).1,(b.add t v g).2)
  | .sample k current maxAge =>
    (match (b.sample k current maxAge).1 with
      | .error _ => .stale
      | .ok none => .wait
      | .ok (some r) => .taken r.trajectories,(b.sample k current maxAge).2)
  | .clear => (.cleared,b.clear)
  | .stateDict =>
    (.saved (match b.stateDict dataplaneBacked with
      | .unpersisted _ _ _ => none
      | .persisted m ts vs gs last => some (ReplayBuffer.entries ⟨m,ts,vs,gs,last⟩)),b)

variable {dataplaneBacked : τ → Bool} {b : ReplayBuffer τ} {s : GroupStore τ}

theorem Refines.exec_add (hr : b.Refines s) (t : τ) (v g : ℤ) :
    (b.exec dataplaneBacked (.add t v g)).1 = (s.exec dataplaneBacked (.add t v g)).1 ∧
      (b.exec dataplaneBacked (.add t v g)).2.Refines (s.exec dataplaneBacked (.add t v g)).2 := by
  cases hpush : s.push ⟨t,v,g⟩ with
  | some s' =>
    obtain ⟨hsucc,hr'⟩ := hr.add hpush
    simp only [exec,GroupStore.exec,hpush,hsucc]
    exact ⟨trivial,hr'⟩
  | none =>
    have hfull : (b.add t v g).1 = .full := by
      rw [add_full_iff,hr.maxSize,hr.columns.length.1]
      rw [GroupStore.push] at hpush
      split_ifs at hpush with hlt
      exact Nat.le_of_not_lt hlt
    simp only [exec,GroupStore.exec,hpush,hfull,add_full hfull]
    exact ⟨trivial,hr⟩

/-- Whoever waits finds no stale group, and too few groups for the step. -/
theorem sample_wait {es : List (Entry τ)} (hc : b.Columns es) {k : ℕ} (hk : 1 ≤ k) {current maxAge : ℤ}
    (h : (b.sample k current maxAge).1 = .ok none) :
    (∀ e ∈ es, minValidVersion current maxAge ≤ e.version) ∧
      (es.filter (Entry.eligible current maxAge)).length < k := by
  have hintended : (b.intendedIndices current maxAge).length =
      (es.filter (Entry.eligible current maxAge)).length := by
    rw [intendedIndices_eq hc]
    simp
  have hle : (b.intendedIndices current maxAge).length ≤ (b.validIndices current maxAge).length :=
    List.length_filter_le _ _
  have hfresh (hold : (b.trajectoryVersions.filter
      fun v => decide (v < minValidVersion current maxAge)) = []) (e : Entry τ) (he : e ∈ es) :
      minValidVersion current maxAge ≤ e.version := by
    have hall := List.filter_eq_nil_iff.mp hold e.version (by
      rw [hc.versions]; exact List.mem_map_of_mem he)
    simpa using hall
  rw [← hintended]
  unfold sample at h
  dsimp only at h
  split_ifs at h with hempty hold hvalid hfew hmeant hzero
  · have hes : es = [] := by simpa [hc.trajectories] using hempty
    subst hes
    exact ⟨fun e he => absurd he List.not_mem_nil,by rw [hintended]; exact hk⟩
  · rw [List.isEmpty_iff_length_eq_zero] at hvalid
    exact ⟨hfresh (by simpa using hold),by omega⟩
  · exact ⟨hfresh (by simpa using hold),by omega⟩
  · exact ⟨hfresh (by simpa using hold),hmeant⟩
  · cases h

theorem Refines.exec_sample (hr : b.Refines s) {k : ℕ} (hk : 1 ≤ k) (current maxAge : ℤ) :
    (b.exec dataplaneBacked (.sample k current maxAge)).1 =
        (s.exec dataplaneBacked (.sample k current maxAge)).1 ∧
      (b.exec dataplaneBacked (.sample k current maxAge)).2.Refines
        (s.exec dataplaneBacked (.sample k current maxAge)).2 := by
  rcases hanswer : (b.sample k current maxAge).1 with msg | r | r
  · have hstale := sample_error hr.columns hk hanswer
    have hsame : (b.sample k current maxAge).2 = b :=
      sample_refused fun r h => by rw [hanswer] at h; cases h
    simp only [exec,GroupStore.exec,hanswer,hsame,if_pos hstale]
    exact ⟨trivial,hr⟩
  · have hsame : (b.sample k current maxAge).2 = b :=
      sample_refused fun r h => by rw [hanswer] at h; cases h
    obtain ⟨hfresh,hfew⟩ := sample_wait hr.columns hk hanswer
    have hnot : ¬∃ e ∈ s.entries, e.version < minValidVersion current maxAge :=
      fun ⟨e,he,hlt⟩ => absurd (hfresh e he) (not_le.mpr hlt)
    simp only [exec,GroupStore.exec,hanswer,hsame,if_neg hnot,if_pos hfew]
    exact ⟨trivial,hr⟩
  · obtain ⟨hlen,hfresh,htraj,-,-,-⟩ := sample_success hr.columns hanswer
    have hnot : ¬∃ e ∈ s.entries, e.version < minValidVersion current maxAge :=
      fun ⟨e,he,hlt⟩ => absurd (hfresh e he) (not_le.mpr hlt)
    simp only [exec,GroupStore.exec,hanswer,if_neg hnot,if_neg (Nat.not_lt.mpr hlen)]
    obtain ⟨htaken,hr'⟩ := hr.sample hanswer
    exact ⟨congrArg _ htaken,hr'⟩

/-- One call: the buffer answers like the queue and goes on refining it. -/
theorem Refines.exec (hr : b.Refines s) {o : BufferOp τ} (ho : o.Valid) :
    (b.exec dataplaneBacked o).1 = (s.exec dataplaneBacked o).1 ∧
      (b.exec dataplaneBacked o).2.Refines (s.exec dataplaneBacked o).2 := by
  cases o with
  | add t v g => exact hr.exec_add t v g
  | sample k current maxAge => exact hr.exec_sample ho current maxAge
  | clear => exact ⟨rfl,hr.maxSize,rfl,rfl,rfl⟩
  | stateDict =>
    refine ⟨congrArg Answer.saved ?_,hr⟩
    have hany : b.trajectories.any dataplaneBacked = s.entries.any (dataplaneBacked ·.trajectory) := by
      rw [hr.columns.trajectories,List.any_map]
      rfl
    rw [ReplayBuffer.stateDict,hany]
    split_ifs with hplane
    · rfl
    · exact congrArg some hr.columns.entries

theorem Refines.answers (hr : b.Refines s) {ops : List (BufferOp τ)} (hops : ∀ o ∈ ops, o.Valid) :
    BufferOp.answers (ReplayBuffer.exec dataplaneBacked) b ops =
      BufferOp.answers (GroupStore.exec dataplaneBacked) s ops := by
  induction ops generalizing b s with
  | nil => rfl
  | cons o ops ih =>
    obtain ⟨hanswer,hnext⟩ := @Refines.exec τ dataplaneBacked b s hr o (hops o List.mem_cons_self)
    rw [BufferOp.answers,BufferOp.answers,hanswer,
      ih hnext fun o' ho' => hops o' (List.mem_cons_of_mem o ho')]

/-- In every run of calls a new buffer answers as the bounded queue of groups does. -/
theorem create_answers {maxSize : ℤ} (h : ReplayBuffer.create maxSize = .ok b) {ops : List (BufferOp τ)}
    (hops : ∀ o ∈ ops, o.Valid) :
    BufferOp.answers (ReplayBuffer.exec dataplaneBacked) b ops =
      BufferOp.answers (GroupStore.exec dataplaneBacked) ⟨maxSize.toNat,[],Nat.zero_le _⟩ ops := by
  unfold create at h
  split_ifs at h
  obtain rfl := Except.ok.inj h
  exact Refines.answers ⟨rfl,rfl,rfl,rfl⟩ hops

/-- One group is added and taken by the sample of its step. -/
theorem create_answers_taken :
    BufferOp.answers (ReplayBuffer.exec fun _ => false) (⟨2,[],[],[],-1⟩ : ReplayBuffer ℕ)
        [.add 10 0 1,.sample 1 1 1] =
      BufferOp.answers (GroupStore.exec fun _ => false) ⟨2,[],Nat.zero_le _⟩ [.add 10 0 1,.sample 1 1 1] :=
  @create_answers ℕ _ _ 2 rfl _ (by
    rintro o (_ | ⟨_,_ | ⟨_,⟨⟩⟩⟩)
    · trivial
    · exact Nat.le_refl 1)

end ReplayBuffer

end AsyncGrpo
end DockyardRL
