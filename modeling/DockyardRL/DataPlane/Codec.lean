import DockyardRL.Lib.Padding
import DockyardRL.DataPlane.Interfaces

/-! The bridge between rectangular columns and the wire: right-padded rows are cut to their
lengths before they are written, and padded again when they are read. -/
namespace DockyardRL
namespace DataPlane

open Padding

/-- A tensor of one dimension, a rectangular one of more (its rows are lists along the second
dimension, of whatever the further dimensions make of an entry), or a nested one. -/
inductive Tensor (β : Type*)
  | flat (values : List β)
  | rect (width : ℕ) (rows : List (List β))
  | jagged (rows : List (List β))
  deriving DecidableEq

/-- One row of a tensor. -/
inductive TensorRow (β : Type*)
  | scalar (value : β)
  | seq (entries : List β)
  deriving DecidableEq

inductive CodecError
  | valueError (message : String)
  | runtimeError
  | keyError (key : String)
  | put (e : NoOpError)
  deriving DecidableEq

variable {β : Type*}

namespace Tensor

/-- `t[i]` for every `i`. -/
def rows : Tensor β → List (TensorRow β)
  | .flat values => values.map .scalar
  | .rect _ rows => rows.map .seq
  | .jagged rows => rows.map .seq

def Rectangular : Tensor β → Prop
  | .flat _ => True
  | .rect width rows => ∀ row ∈ rows, row.length = width
  | .jagged _ => False

end Tensor

def maxLength (lengths : List ℕ) : ℕ := lengths.foldr max 0

def lengthsMismatch (lengths rows : ℕ) : String :=
  s!"lengths shape ({lengths},) != ({rows},) (rows of padded)"

/-- `padded[i, :lengths[i]]` for every row. -/
def cutRows (rows : List (List β)) (lengths : List ℕ) : List (List β) :=
  List.zipWith (fun row n => row.take n) rows lengths

/-- The shape test of `maybe_pack_jagged`: as many rows as lengths, as wide as the longest. -/
def PerTokenShaped (width : ℕ) (rows : List (List β)) (lengths : List ℕ) : Prop :=
  lengths.length ≠ 0 ∧ rows.length = lengths.length ∧ width = maxLength lengths

instance (width : ℕ) (rows : List (List β)) (lengths : List ℕ) :
    Decidable (PerTokenShaped width rows lengths) :=
  inferInstanceAs (Decidable (_ ∧ _))

def maybePackJagged (val : Tensor β) (lengths : List ℕ) : Tensor β :=
  match val with
  | .flat values => .flat values
  | .rect width rows =>
    if PerTokenShaped width rows lengths then .jagged (cutRows rows lengths) else .rect width rows
  | .jagged rows => .jagged rows

/-- `TensorDict(packed, batch_size=[n])` refuses columns of another size. -/
def tensorDict (packed : Dict String (Tensor β)) (n : ℕ) :
    Except CodecError (TensorDict (TensorRow β)) :=
  if h : ∀ entry ∈ (packed.mapValues Tensor.rows).entries, entry.2.length = n then
    .ok ⟨packed.mapValues Tensor.rows,[],n,h⟩
  else .error .runtimeError

def packJaggedFields (fields : Dict String (Tensor β)) (lengths : Option (List ℕ)) :
    Except CodecError (TensorDict (TensorRow β)) :=
  match lengths with
  | none => tensorDict fields 0
  | some lengths => tensorDict (fields.mapValues (maybePackJagged · lengths)) lengths.length

def scalars? (rows : List (TensorRow β)) : Option (List β) :=
  rows.mapM fun row => match row with
    | .scalar value => some value
    | .seq _ => none

def seqs? (rows : List (TensorRow β)) : Option (List (List β)) :=
  rows.mapM fun row => match row with
    | .scalar _ => none
    | .seq entries => some entries

def sameLength (seqs : List (List β)) : Bool :=
  seqs.all fun s => s.length == (seqs.headD []).length

/-- `stack_or_nest`: rows of one shape are stacked, others nested; scalars and sequences
do not go together. -/
def stackOrNest (rows : List (TensorRow β)) : Option (Tensor β) :=
  match scalars? rows with
  | some values => some (.flat values)
  | none =>
    (seqs? rows).map fun seqs =>
      if sameLength seqs then .rect (seqs.headD []).length seqs else .jagged seqs

def toPadded (pad : β) : Tensor β → Tensor β
  | .jagged rows =>
    let width := maxLength (rows.map List.length)
    .rect width (rows.map (padTo width pad))
  | t => t

/-- Pad the second dimension up to `padToSeqlen`, if there is one and it is shorter. -/
def padSeqlen (padToSeqlen : ℕ) (pad : β) : Tensor β → Tensor β
  | .rect width rows =>
    if 0 < padToSeqlen ∧ width < padToSeqlen then
      .rect padToSeqlen (rows.map (padTo padToSeqlen pad))
    else .rect width rows
  | t => t

/-- `materialize` in the padded layout; a field without a pad value gets zeros. -/
def materialize [Zero β] (td : List (String × Tensor β)) (padValueDict : Dict String β)
    (padToSeqlen : ℕ) : List (String × Tensor β) :=
  td.map fun entry =>
    let pad := (padValueDict.get? entry.1).getD 0
    (entry.1,padSeqlen padToSeqlen pad (toPadded pad entry.2))

theorem maxLength_le {lengths : List ℕ} {bound : ℕ} (h : ∀ n ∈ lengths, n ≤ bound) :
    maxLength lengths ≤ bound := by
  induction lengths with
  | nil => exact Nat.zero_le _
  | cons m lengths ih =>
    obtain ⟨hm,hrest⟩ := List.forall_mem_cons.mp h
    exact max_le hm (ih hrest)

def readBack (target : ℕ) (pad : β) : TensorRow β → TensorRow β
  | .scalar value => .scalar value
  | .seq entries => .seq (padTo target pad entries)

theorem toPadded_rect (pad : β) (width : ℕ) (rows : List (List β)) :
    toPadded pad (.rect width rows) = .rect width rows := rfl

theorem scalars?_map (values : List β) :
    scalars? (values.map TensorRow.scalar) = some values := by
  induction values with
  | nil => rfl
  | cons value values ih =>
    rw [scalars?] at ih
    simp [scalars?,ih]

theorem seqs?_map (seqs : List (List β)) : seqs? (seqs.map TensorRow.seq) = some seqs := by
  induction seqs with
  | nil => rfl
  | cons s seqs ih =>
    rw [seqs?] at ih
    simp [seqs?,ih]

/-- Rows that are all sequences within a length. -/
theorem exists_seqs_of_rows {rows : List (TensorRow β)} {target : ℕ}
    (h : ∀ row ∈ rows, ∃ entries, row = .seq entries ∧ entries.length ≤ target) :
    ∃ seqs : List (List β), rows = seqs.map .seq ∧ ∀ s ∈ seqs, s.length ≤ target := by
  induction rows with
  | nil => exact ⟨[],rfl,by simp⟩
  | cons row rows ih =>
    obtain ⟨⟨entries,rfl,hle⟩,hrest⟩ := List.forall_mem_cons.mp h
    obtain ⟨seqs,rfl,hlens⟩ := ih hrest
    exact ⟨entries :: seqs,rfl,List.forall_mem_cons.mpr ⟨hle,hlens⟩⟩

/-- Scalars are read back as they are. -/
theorem stackOrNest_scalars (values : List β) (target : ℕ) (pad : β) :
    ∃ t, stackOrNest (values.map TensorRow.scalar) = some t ∧
      (padSeqlen target pad (toPadded pad t)).rows =
        (values.map TensorRow.scalar).map (readBack target pad) := by
  refine ⟨.flat values,by rw [stackOrNest,scalars?_map],?_⟩
  rw [List.map_map]
  rfl

/-- Sequences are read back in a tensor of the target width, whether they were stacked or
nested. -/
theorem stackOrNest_seqs {seqs : List (List β)} (hne : seqs ≠ []) {target : ℕ} (pad : β)
    (h : ∀ s ∈ seqs, s.length ≤ target) :
    ∃ t, stackOrNest (seqs.map TensorRow.seq) = some t ∧
      padSeqlen target pad (toPadded pad t) = .rect target (seqs.map (padTo target pad)) := by
  obtain ⟨first,rest,rfl⟩ := List.exists_cons_of_ne_nil hne
  have hscalars : scalars? ((first :: rest).map TensorRow.seq) = none := rfl
  rw [stackOrNest,hscalars]
  simp only [seqs?_map,Option.map_some]
  by_cases hall : sameLength (first :: rest) = true
  · refine ⟨_,rfl,?_⟩
    have hlen : ∀ s ∈ first :: rest, s.length = first.length := fun s hs =>
      beq_iff_eq.mp (List.all_eq_true.mp hall s hs)
    rw [if_pos hall,List.headD_cons,toPadded_rect]
    by_cases hshort : 0 < target ∧ first.length < target
    · rw [padSeqlen,if_pos hshort]
    · have hwidth : first.length = target := by
        have hle := h first (by simp)
        omega
      rw [padSeqlen,if_neg hshort,hwidth]
      congr 1
      refine (List.map_id _).symm.trans (List.map_congr_left fun s hs => ?_)
      exact (padTo_of_le pad (hwidth ▸ (hlen s hs).ge)).symm
  · refine ⟨_,rfl,?_⟩
    have hmax : maxLength ((first :: rest).map List.length) ≤ target :=
      maxLength_le (by simpa using h)
    rw [if_neg hall,toPadded]
    by_cases hshort : 0 < target ∧ maxLength ((first :: rest).map List.length) < target
    · rw [padSeqlen,if_pos hshort,List.map_map]
      congr 1
      exact List.map_congr_left fun s _ => padTo_padTo pad s hmax
    · have hwidth : maxLength ((first :: rest).map List.length) = target := by omega
      rw [padSeqlen,if_neg hshort,hwidth]

end DataPlane
end DockyardRL
