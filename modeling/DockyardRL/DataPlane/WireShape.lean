import DockyardRL.Lib.Dict
import DockyardRL.Lib.NdArray

/-! The leaves of a `TensorDict` on the wire of the `transfer_queue` adapter: what is squeezed on the
way back is told from its shape alone. -/
namespace DockyardRL
namespace DataPlane
namespace Wire

variable {α γ : Type*} {n m : ℕ}

/-- A leaf of `n` rows: rows of one shape, rows of a jagged tensor, or other values. -/
inductive Leaf (α γ : Type*) (n : ℕ)
  | dense (shape : List ℕ) (rows : Fin n → ShapedTensor α) (uniform : ∀ i, (rows i).shape = shape)
  | jagged (rows : Fin n → ShapedTensor α)
  | values (values : Fin n → γ)

/-- One row of a leaf. -/
inductive Cell (α γ : Type*)
  | tensor (t : ShapedTensor α)
  | value (v : γ)

namespace Leaf

def cell : Leaf α γ n → Fin n → Cell α γ
  | dense _ rows _, i => .tensor (rows i)
  | jagged rows, i => .tensor (rows i)
  | values vs, i => .value (vs i)

def select (f : Fin m → Fin n) : Leaf α γ n → Leaf α γ m
  | dense shape rows uniform => .dense shape (rows ∘ f) fun i => uniform (f i)
  | jagged rows => .jagged (rows ∘ f)
  | values vs => .values (vs ∘ f)

end Leaf

/-- The rows of a jagged leaf come back as they were put, as a jagged leaf or stacked. -/
structure Store (α γ : Type*) where
  jagged : ∀ {m : ℕ}, (Fin m → ShapedTensor α) → Leaf α γ m
  cell_jagged : ∀ {m : ℕ} (rows : Fin m → ShapedTensor α) (i : Fin m),
    (jagged rows).cell i = .tensor (rows i)

def Store.returned (store : Store α γ) (f : Fin m → Fin n) : Leaf α γ n → Leaf α γ m
  | .jagged rows => store.jagged (rows ∘ f)
  | leaf => leaf.select f

def Store.kvBatchGet (store : Store α γ) (f : Fin m → Fin n) (selectFields : List String)
    (td : Dict String (Leaf α γ n)) : Dict String (Leaf α γ m) :=
  (td.filterKeys (· ∈ selectFields)).mapValues (store.returned f)

def promote1dLeaf : Leaf α γ n → Leaf α γ n
  | .dense [] rows uniform => .dense [1] (fun i => (rows i).unsqueeze) fun i => by
    rw [ShapedTensor.shape_unsqueeze,uniform i]
    rfl
  | leaf => leaf

def promote1dLeaves (td : Dict String (Leaf α γ n)) : Dict String (Leaf α γ n) :=
  td.mapValues promote1dLeaf

def fromWireLeaf : Leaf α γ n → Leaf α γ n
  | .dense shape rows uniform =>
    if h : shape.getLast? = some 1 then
      .dense shape.dropLast (fun i => (rows i).squeeze) fun i => by
        rw [ShapedTensor.shape_squeeze ((uniform i).symm ▸ h),uniform i]
    else .dense shape rows uniform
  | leaf => leaf

def fromWire (td : Dict String (Leaf α γ n)) : Dict String (Leaf α γ n) := td.mapValues fromWireLeaf

/-- `put_samples`: the fields that are put, none without samples. -/
def putSamples (promote1d : Bool) (fields : Dict String (Leaf α γ n)) : Dict String (Leaf α γ n) :=
  if n = 0 then .empty else if promote1d then promote1dLeaves fields else fields

def getSamples (store : Store α γ) (promote1d : Bool) (f : Fin m → Fin n) (selectFields : List String)
    (fields : Dict String (Leaf α γ n)) : Dict String (Leaf α γ m) :=
  if m = 0 then .empty
  else
    let td := store.kvBatchGet f selectFields fields
    if promote1d then fromWire td else td

section Leaves

variable (store : Store α γ) (f : Fin m → Fin n)

/-- What is read back gives some rows of a leaf; jagged rows may be stacked. -/
def Restores (leaf : Leaf α γ n) (out : Leaf α γ m) : Prop :=
  match leaf with
  | .jagged rows => ∀ i, out.cell i = .tensor (rows (f i))
  | leaf => out = leaf.select f

def Unmistaken : Leaf α γ n → Prop
  | .dense shape _ _ => shape.getLast? ≠ some 1
  | .jagged rows => 0 < m → ∀ shape rows' uniform,
    store.jagged (rows ∘ f) = .dense shape rows' uniform → shape.getLast? ≠ some 1
  | .values _ => True

variable {store f}

theorem fromWireLeaf_dense_ne {shape : List ℕ} {rows : Fin n → ShapedTensor α}
    {uniform : ∀ i, (rows i).shape = shape} (h : shape.getLast? = some 1) :
    fromWireLeaf (.dense shape rows uniform : Leaf α γ n) ≠ .dense shape rows uniform := by
  intro heq
  rw [fromWireLeaf,dif_pos h] at heq
  have hlength := congrArg List.length (Leaf.dense.inj heq).1
  have hpos : 0 < shape.length := List.length_pos_of_ne_nil fun hnil => by simp [hnil] at h
  rw [List.length_dropLast] at hlength
  omega

theorem fromWireLeaf_promoted {rows : Fin n → ShapedTensor α} {uniform : ∀ i, (rows i).shape = []} :
    fromWireLeaf (store.returned f (promote1dLeaf (.dense [] rows uniform))) =
      .dense [] (rows ∘ f) fun i => uniform (f i) := by
  simp [promote1dLeaf,Store.returned,Leaf.select,fromWireLeaf,Function.comp_def]

theorem fromWireLeaf_returned (hm : 0 < m) {leaf : Leaf α γ n} (h : Unmistaken store f leaf) :
    fromWireLeaf (store.returned f (promote1dLeaf leaf)) = store.returned f leaf := by
  cases leaf with
  | dense shape rows uniform =>
    cases shape with
    | nil => exact fromWireLeaf_promoted
    | cons d shape => exact dif_neg h
  | jagged rows =>
    change fromWireLeaf (store.jagged (rows ∘ f)) = store.jagged (rows ∘ f)
    cases hback : store.jagged (rows ∘ f) with
    | dense shape rows' uniform => exact dif_neg (h hm shape rows' uniform hback)
    | jagged rows' => rfl
    | values vs => rfl
  | values vs => rfl

theorem restores_jagged_iff {rows : Fin n → ShapedTensor α} :
    Restores f (.jagged rows) (fromWireLeaf (store.jagged (rows ∘ f))) ↔
      Unmistaken store f (.jagged rows) := by
  have hcell := store.cell_jagged (rows ∘ f)
  constructor
  · intro h hm shape rows' uniform hback hlast
    have hrow := h ⟨0,hm⟩
    have hput := hcell ⟨0,hm⟩
    rw [hback] at hrow hput
    rw [fromWireLeaf,dif_pos hlast] at hrow
    have hsqueeze : (rows' ⟨0,hm⟩).squeeze = rows' ⟨0,hm⟩ :=
      Cell.tensor.inj (hrow.trans hput.symm)
    exact ShapedTensor.squeeze_ne (by rw [uniform,hlast]) hsqueeze
  · intro h i
    have hback := @fromWireLeaf_returned α γ n m store f (Fin.pos i) (.jagged rows) h
    change fromWireLeaf (store.jagged (rows ∘ f)) = store.jagged (rows ∘ f) at hback
    rw [hback]
    exact hcell i

theorem restores_iff {leaf : Leaf α γ n} :
    Restores f leaf (fromWireLeaf (store.returned f (promote1dLeaf leaf))) ↔ Unmistaken store f leaf := by
  cases leaf with
  | dense shape rows uniform =>
    cases shape with
    | nil => exact iff_of_true fromWireLeaf_promoted (by simp [Unmistaken])
    | cons d shape =>
      constructor
      · exact fun h hlast => fromWireLeaf_dense_ne hlast h
      · exact fun h => dif_neg h
  | jagged rows => exact restores_jagged_iff
  | values vs => exact iff_of_true rfl trivial

/-- The leaves of a batch that cannot be taken for promoted ones. -/
def AllUnmistaken (store : Store α γ) (f : Fin m → Fin n) (selectFields : List String)
    (fields : Dict String (Leaf α γ n)) : Prop :=
  ∀ field ∈ selectFields, ∀ leaf, fields.get? field = some leaf → Unmistaken store f leaf

theorem fromWire_kvBatchGet (selectFields : List String) (fields : Dict String (Leaf α γ n)) :
    fromWire (store.kvBatchGet f selectFields (promote1dLeaves fields)) =
      (fields.filterKeys (· ∈ selectFields)).mapValues fun leaf =>
        fromWireLeaf (store.returned f (promote1dLeaf leaf)) := by
  rw [fromWire,Store.kvBatchGet,promote1dLeaves,Dict.filterKeys_mapValues,Dict.mapValues_mapValues,
    Dict.mapValues_mapValues]
  rfl

theorem getSamples_eq {selectFields : List String} {fields : Dict String (Leaf α γ n)}
    (h : AllUnmistaken store f selectFields fields) :
    getSamples store true f selectFields (putSamples true fields) =
      getSamples store false f selectFields (putSamples false fields) := by
  rw [getSamples,getSamples]
  by_cases hm : m = 0
  · rw [if_pos hm,if_pos hm]
  have hpos : 0 < m := Nat.pos_of_ne_zero hm
  have hn : n ≠ 0 := Nat.ne_of_gt (Fin.pos (f ⟨0,hpos⟩))
  rw [if_neg hm,if_neg hm,putSamples,putSamples,if_neg hn,if_neg hn]
  change fromWire (store.kvBatchGet f selectFields (promote1dLeaves fields)) =
    store.kvBatchGet f selectFields fields
  rw [fromWire_kvBatchGet]
  refine Dict.mapValues_congr fun entry hentry => fromWireLeaf_returned hpos ?_
  have hget : (fields.filterKeys (· ∈ selectFields)).get? entry.1 = some entry.2 :=
    Dict.mem_entries_iff.mp hentry
  rw [Dict.get?_filterKeys] at hget
  split_ifs at hget with hselected
  exact h entry.1 (of_decide_eq_true hselected) entry.2 hget

theorem restores_all_iff {selectFields : List String} {fields : Dict String (Leaf α γ n)} :
    (∀ field ∈ selectFields, Option.Rel (Restores f) (fields.get? field)
      ((fromWire (store.kvBatchGet f selectFields (promote1dLeaves fields))).get? field)) ↔
    AllUnmistaken store f selectFields fields := by
  refine forall_congr' fun field => imp_congr_right fun hselected => ?_
  rw [fromWire_kvBatchGet,Dict.get?_mapValues,Dict.get?_filterKeys,if_pos (decide_eq_true hselected)]
  cases hget : fields.get? field with
  | none => simp
  | some leaf => simp [restores_iff]

end Leaves

/-- What is put is read, whatever the backend, exactly when no leaf read can be taken for a promoted
one. -/
theorem wire_invisible_iff (store : Store α γ) (f : Fin m → Fin n) (selectFields : List String)
    (fields : Dict String (Leaf α γ n)) :
    ((∀ field ∈ selectFields, Option.Rel (Restores f) (fields.get? field)
        ((fromWire (store.kvBatchGet f selectFields (promote1dLeaves fields))).get? field)) ∧
      getSamples store true f selectFields (putSamples true fields) =
        getSamples store false f selectFields (putSamples false fields)) ↔
    AllUnmistaken store f selectFields fields :=
  ⟨fun h => restores_all_iff.mp h.1,fun h => ⟨restores_all_iff.mpr h,getSamples_eq h⟩⟩

def stackOrNest {m : ℕ} (rows : Fin m → ShapedTensor α) : Leaf α γ m :=
  match m with
  | 0 => .jagged rows
  | _ + 1 => if h : ∀ i, (rows i).shape = (rows 0).shape then .dense (rows 0).shape rows h else .jagged rows

/-- A store that stacks what it can. -/
def stackingStore : Store α γ where
  jagged := stackOrNest
  cell_jagged := by
    intro m rows i
    cases m with
    | zero => exact i.elim0
    | succ m =>
      rw [stackOrNest]
      split <;> rfl

def scores : Leaf ℤ Unit 2 := .dense [1] (fun i => ⟨[1],[i.val],rfl⟩) fun _ => rfl

/-- A leaf of shape `(2,1)` comes back with shape `(2,)`. -/
theorem scores_lose_dimension :
    ¬∀ (store : Store ℤ Unit) (n m : ℕ) (f : Fin m → Fin n) (selectFields : List String)
      (fields : Dict String (Leaf ℤ Unit n)),
      (∀ field ∈ selectFields, Option.Rel (Restores f) (fields.get? field)
        ((fromWire (store.kvBatchGet f selectFields (promote1dLeaves fields))).get? field)) ∧
      getSamples store true f selectFields (putSamples true fields) =
        getSamples store false f selectFields (putSamples false fields) := by
  intro hclaim
  have hrows := (hclaim stackingStore 2 2 id ["scores"] (Dict.empty.set "scores" scores)).1
  exact restores_all_iff.mp hrows "scores" List.mem_cons_self scores rfl rfl

end Wire
end DataPlane
end DockyardRL
