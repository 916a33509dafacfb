import DockyardRL.DataPlane.Codec
import DockyardRL.DataPlane.ExactlyOnce
import Mathlib.Algebra.Ring.Nat

/-! Columns written through the data plane and read back: the first write of a batch, later
writes of single columns, and reads of any samples in any order. -/
namespace DockyardRL
namespace DataPlane

open Padding Fallible

variable {β κ : Type*}

def globalForwardPadSeqlen : String := "global_forward_pad_seqlen"

def unmatchedIds (ids n : ℕ) : String :=
  s!"kv_first_write: sample_ids ({ids}) must match batch size ({n})"

def unmatchedTags (tags n : ℕ) : String :=
  s!"kv_first_write: tags ({tags}) must match batch size ({n})"

def putPacked (partitionId : String) (rec : Partition (TensorRow β) κ) (sampleIds : List String)
    (td : Except CodecError (TensorDict (TensorRow β))) (tags : Option (List (Tag κ))) :
    Partition (TensorRow β) κ × Except CodecError Unit :=
  match td with
  | .error e => (rec,.error e)
  | .ok td =>
    let r := putSamples partitionId rec sampleIds (some td) tags
    (r.1,(r.2.map fun _ => ()).mapError .put)

/-- The lengths in a column of one dimension; `asLength` reads one. -/
def lengthsOf (asLength : β → ℕ) : Tensor β → Except CodecError (List ℕ)
  | .flat values => .ok (values.map asLength)
  | .rect _ rows | .jagged rows => .error (.valueError (lengthsMismatch rows.length rows.length))

/-- `kv_first_write`, up to the metadata it returns. -/
def kvFirstWrite (partitionId : String) (asLength : β → ℕ) (rec : Partition (TensorRow β) κ)
    (batch : Dict String (Tensor β)) (sampleIds : List String) (tags : Option (List (Tag κ))) :
    Partition (TensorRow β) κ × Except CodecError Unit :=
  match batch.get? "sample_mask" with
  | none => (rec,.error (.keyError "sample_mask"))
  | some mask =>
    let n := mask.rows.length
    if n = 0 ∨ sampleIds.length ≠ n then
      (rec,.error (.valueError (unmatchedIds sampleIds.length n)))
    else if (tags.map List.length).getD n ≠ n then
      (rec,.error (.valueError (unmatchedTags ((tags.map List.length).getD n) n)))
    else
      match batch.get? "input_lengths" with
      | none => (rec,.error (.keyError "input_lengths"))
      | some inputLengths =>
        match lengthsOf asLength inputLengths with
        | .error e => (rec,.error e)
        | .ok lengths =>
          putPacked partitionId rec sampleIds (packJaggedFields batch (some lengths)) tags

def writeColumns {ν τ : Type*} (partitionId : String) (rec : Partition (TensorRow β) κ)
    (m : KVBatchMeta ν τ) (fields : Dict String (Tensor β)) :
    Partition (TensorRow β) κ × Except CodecError Unit :=
  if fields.entries = [] then (rec,.ok ())
  else putPacked partitionId rec m.sampleIds (packJaggedFields fields m.sequenceLengths) none

/-- `read_columns` in the padded layout. The columns of a message log would be put together
into a further entry; they are no tensors and this store does not hold them. -/
def readColumns [Zero β] {τ : Type*} (partitionId : String) (rec : Partition (TensorRow β) κ)
    (m : KVBatchMeta ℕ τ) (selectFields : List String) (padValueDict : Dict String β) :
    Except CodecError (List (String × Tensor β)) :=
  let padToSeqlen := ((m.extraInfo.getD []).lookup globalForwardPadSeqlen).getD 0
  match getSamples partitionId (fun rows => (stackOrNest rows).isSome) rec m.sampleIds
      selectFields with
  | .error e => .error (.put e)
  | .ok columns =>
    .ok (materialize (columns.filterMap fun column =>
      (stackOrNest column.2).map fun t => (column.1,t)) padValueDict padToSeqlen)

/-- A write of rows of a batch: its first, or some columns of one rank. -/
inductive WriteCall (β κ : Type*)
  | first (batch : Dict String (Tensor β)) (sampleIds : List String) (tags : Option (List (Tag κ)))
  | columns (sampleIds : List String) (sequenceLengths : List ℕ) (fields : Dict String (Tensor β))

/-- A row as it was handed to a writer, its length, and whether the writer cuts it. -/
structure WrittenRow (β : Type*) where
  row : TensorRow β
  length : ℕ
  cut : Bool

def WrittenRow.stored (w : WrittenRow β) : TensorRow β :=
  match w.row, w.cut with
  | .seq entries, true => .seq (entries.take w.length)
  | row, _ => row

def writtenRows (t : Tensor β) (lengths : List ℕ) : List (WrittenRow β) :=
  let cut := match t with
    | .rect width rows => decide (PerTokenShaped width rows lengths)
    | _ => false
  List.zipWith (fun row n => ⟨row,n,cut⟩) t.rows lengths

namespace WriteCall

variable (asLength : β → ℕ)

def ids : WriteCall β κ → List String
  | .first _ sampleIds _ => sampleIds
  | .columns sampleIds _ _ => sampleIds

def cols : WriteCall β κ → Dict String (Tensor β)
  | .first batch _ _ => batch
  | .columns _ _ fields => fields

def lengths : WriteCall β κ → List ℕ
  | .first batch _ _ =>
    match batch.get? "input_lengths" with
    | some (.flat values) => values.map asLength
    | _ => []
  | .columns _ sequenceLengths _ => sequenceLengths

/-- One row of every column for each id, and what `kv_first_write` asks of a batch. -/
structure WellFormed (call : WriteCall β κ) : Prop where
  lengths : (call.lengths asLength).length = call.ids.length
  columns : ∀ f t, call.cols.get? f = some t → t.Rectangular ∧ t.rows.length = call.ids.length
  first : ∀ batch sampleIds tags, call = .first batch sampleIds tags → sampleIds ≠ [] ∧
    (batch.get? "sample_mask").isSome ∧ (∃ values, batch.get? "input_lengths" = some (.flat values)) ∧
    ∀ ts, tags = some ts → ts.length = sampleIds.length

def written (call : WriteCall β κ) (id field : String) : Option (WrittenRow β) :=
  (call.cols.get? field).bind fun t =>
    (call.ids.zip (writtenRows t (call.lengths asLength))).reverse.lookup id

end WriteCall

section Calls

variable (partitionId : String) (asLength : β → ℕ)

def doCall (rec : Partition (TensorRow β) κ) : WriteCall β κ → Partition (TensorRow β) κ
  | .first batch sampleIds tags =>
    (kvFirstWrite partitionId asLength rec batch sampleIds tags).1
  | .columns sampleIds sequenceLengths fields =>
    (writeColumns partitionId rec (.untagged partitionId none sampleIds none
      (some sequenceLengths) none : KVBatchMeta Empty Empty) fields).1

def storeAfter (tasks : List String) (calls : List (WriteCall β κ)) : Partition (TensorRow β) κ :=
  calls.foldl (doCall partitionId asLength) (registerPartition tasks)

def lastWritten (calls : List (WriteCall β κ)) (id field : String) : Option (WrittenRow β) :=
  calls.foldl (fun held call => (call.written asLength id field).or held) none

end Calls

theorem length_writtenRows (t : Tensor β) (lengths : List ℕ) :
    (writtenRows t lengths).length = min t.rows.length lengths.length := List.length_zipWith

theorem rows_maybePackJagged {t : Tensor β} (ht : t.Rectangular) {lengths : List ℕ}
    (hlen : t.rows.length = lengths.length) :
    (maybePackJagged t lengths).rows = (writtenRows t lengths).map WrittenRow.stored := by
  have hkept : ∀ (rows : List (TensorRow β)) (lengths : List ℕ), rows.length = lengths.length →
      (List.zipWith (fun row n => (⟨row,n,false⟩ : WrittenRow β)) rows lengths).map
        WrittenRow.stored = rows := by
    intro rows
    induction rows with
    | nil => simp
    | cons row rows ih =>
      intro lengths hlen
      cases lengths with
      | nil => cases hlen
      | cons n lengths =>
        rw [List.zipWith_cons_cons,List.map_cons,ih lengths (Nat.succ.inj hlen)]
        cases row <;> rfl
  cases t with
  | flat values => exact (hkept _ _ hlen).symm
  | jagged rows => exact ht.elim
  | rect width rows =>
    by_cases hshape : PerTokenShaped width rows lengths
    · simp only [maybePackJagged,if_pos hshape,writtenRows,decide_eq_true hshape,Tensor.rows,
        cutRows,List.map_zipWith,List.zipWith_map_left]
      rfl
    · simp only [maybePackJagged,if_neg hshape,writtenRows,decide_eq_false hshape]
      exact (hkept _ _ hlen).symm

theorem packJaggedFields_ok {cols : Dict String (Tensor β)} {lengths : List ℕ}
    (h : ∀ f t, cols.get? f = some t → t.Rectangular ∧ t.rows.length = lengths.length) :
    ∃ td, packJaggedFields cols (some lengths) = .ok td ∧ td.nonTensorLeaves = [] ∧
      ∀ f, td.columns.get? f =
        (cols.get? f).map fun t => (writtenRows t lengths).map WrittenRow.stored := by
  have haligned : ∀ entry ∈ ((cols.mapValues (maybePackJagged · lengths)).mapValues
      Tensor.rows).entries, entry.2.length = lengths.length := by
    rintro ⟨f,rows⟩ hentry
    have hget := Dict.mem_entries_iff.mp hentry
    rw [Dict.get?_mapValues,Dict.get?_mapValues,Option.map_map] at hget
    obtain ⟨t,ht,rfl⟩ := Option.map_eq_some_iff.mp hget
    obtain ⟨hrect,hlen⟩ := h f t ht
    rw [Function.comp_apply,rows_maybePackJagged hrect hlen,List.length_map,length_writtenRows,
      hlen,Nat.min_self]
  refine ⟨_,dif_pos haligned,rfl,fun f => ?_⟩
  rw [Dict.get?_mapValues,Dict.get?_mapValues,Option.map_map]
  cases ht : cols.get? f with
  | none => rfl
  | some t => exact congrArg some (rows_maybePackJagged (h f t ht).1 (h f t ht).2)

variable {asLength : β → ℕ} {partitionId : String}

theorem doCall_cell (rec : Partition (TensorRow β) κ) {call : WriteCall β κ}
    (h : call.WellFormed asLength) (id field : String) :
    cell (doCall partitionId asLength rec call).rows id field =
      ((call.written asLength id field).map WrittenRow.stored).or (cell rec.rows id field) := by
  have hcolumns : ∀ f t, call.cols.get? f = some t →
      t.Rectangular ∧ t.rows.length = (call.lengths asLength).length := fun f t ht => by
    rw [h.lengths]
    exact h.columns f t ht
  obtain ⟨td,htd,hleaves,hget⟩ := packJaggedFields_ok hcolumns
  have hput (tags : Option (List (Tag κ))) :
      cell (putPacked partitionId rec call.ids (.ok td) tags).1.rows id field =
        ((call.written asLength id field).map WrittenRow.stored).or (cell rec.rows id field) := by
    rw [putPacked]
    simp only [(putSamples_fst partitionId rec call.ids (some td) tags).2,hleaves,ne_eq,
      not_true_eq_false,if_false]
    rw [writeRows_cell,hget,WriteCall.written]
    cases call.cols.get? field with
    | none => rfl
    | some t =>
      simp only [Option.map_some,Option.bind_some,List.drop_zero]
      rw [List.zip_map_right,← List.map_reverse,Dict.lookup_map_values]
  cases call with
  | first batch sampleIds tags =>
    obtain ⟨hne,hmask,⟨values,hvalues⟩,htags⟩ := h.first batch sampleIds tags rfl
    obtain ⟨mask,hmask⟩ := Option.isSome_iff_exists.mp hmask
    have hrows : mask.rows.length = sampleIds.length := (h.columns _ _ hmask).2
    have hids : ¬(mask.rows.length = 0 ∨ sampleIds.length ≠ mask.rows.length) := by
      rw [hrows]
      simpa using hne
    have htagged : ¬(tags.map List.length).getD mask.rows.length ≠ mask.rows.length := by
      rw [hrows,not_not]
      cases tags with
      | none => rfl
      | some ts => exact htags ts rfl
    have hlengths : packJaggedFields batch (some (values.map asLength)) = .ok td := by
      simpa only [WriteCall.lengths,WriteCall.cols,hvalues] using htd
    simp only [doCall,kvFirstWrite,hmask,if_neg hids,if_neg htagged,hvalues,lengthsOf,hlengths]
    exact hput tags
  | columns sampleIds sequenceLengths fields =>
    rw [doCall,writeColumns]
    by_cases hnone : fields.entries = []
    · have hwritten : (WriteCall.columns sampleIds sequenceLengths fields :
          WriteCall β κ).written asLength id field = none := by
        simp [WriteCall.written,WriteCall.cols,Dict.get?,hnone]
      rw [if_pos hnone,hwritten]
      rfl
    · rw [if_neg hnone]
      have hpack : packJaggedFields fields (some sequenceLengths) = .ok td := htd
      simp only [KVBatchMeta.untagged,hpack]
      exact hput none

theorem storeAfter_cell (tasks : List String) {calls : List (WriteCall β κ)}
    (h : ∀ call ∈ calls, call.WellFormed asLength) (id field : String) :
    cell (storeAfter partitionId asLength tasks calls).rows id field =
      (lastWritten asLength calls id field).map WrittenRow.stored := by
  induction calls using List.reverseRecOn with
  | nil => rfl
  | append_singleton calls call ih =>
    have hrest : ∀ c ∈ calls, c.WellFormed asLength := fun c hc => h c (by simp [hc])
    rw [storeAfter,List.foldl_append,List.foldl_cons,List.foldl_nil,lastWritten,List.foldl_append,
      List.foldl_cons,List.foldl_nil,doCall_cell _ (h call (by simp)),Option.map_or]
    exact congrArg _ (ih hrest)

/-- A column holds one entry per token of a row, one number per row, or one vector per row. -/
inductive ColumnKind
  | perToken
  | scalarPerRow
  | vectorPerRow
  deriving DecidableEq

/-- The columns of a call are of their kinds, the per-token ones padded beyond every length, and
no column is wider than the target. -/
structure Conforms (asLength : β → ℕ) (kind : String → ColumnKind) (target : ℕ)
    (call : WriteCall β κ) : Prop where
  perToken : ∀ f t, call.cols.get? f = some t → kind f = .perToken →
    ∃ width rows, t = .rect width rows ∧ ∀ n ∈ call.lengths asLength, n ≤ width
  scalarPerRow : ∀ f t, call.cols.get? f = some t → kind f = .scalarPerRow → ∃ values, t = .flat values
  vectorPerRow : ∀ f t, call.cols.get? f = some t → kind f = .vectorPerRow →
    ∃ width rows, t = .rect width rows
  within : ∀ f width rows, call.cols.get? f = some (.rect width rows) → width ≤ target

/-- What a row of its kind can be. -/
def FitsKind (k : ColumnKind) (target : ℕ) (w : WrittenRow β) : Prop :=
  match k with
  | .scalarPerRow => ∃ value, w.row = .scalar value
  | .vectorPerRow => ∃ entries, w.row = .seq entries ∧ entries.length ≤ target
  | .perToken => ∃ entries, w.row = .seq entries ∧ entries.length ≤ target ∧
      w.length ≤ entries.length

theorem exists_of_lastWritten {calls : List (WriteCall β κ)} {id field : String} {w : WrittenRow β}
    (h : lastWritten asLength calls id field = some w) :
    ∃ call ∈ calls, ∃ t, call.cols.get? field = some t ∧
      w ∈ writtenRows t (call.lengths asLength) := by
  induction calls using List.reverseRecOn with
  | nil => cases h
  | append_singleton calls call ih =>
    rw [lastWritten,List.foldl_append,List.foldl_cons,List.foldl_nil,Option.or_eq_some_iff] at h
    rcases h with h | ⟨-,h⟩
    · obtain ⟨t,ht,hlookup⟩ := Option.bind_eq_some_iff.mp h
      obtain ⟨l₁,l₂,hsplit,-⟩ := List.lookup_eq_some_iff.mp hlookup
      have hmem : (id,w) ∈ call.ids.zip (writtenRows t (call.lengths asLength)) := by
        rw [← List.mem_reverse,hsplit]
        simp
      exact ⟨call,by simp,t,ht,(List.of_mem_zip hmem).2⟩
    · obtain ⟨c,hc,hrest⟩ := ih h
      exact ⟨c,by simp [hc],hrest⟩

theorem mem_writtenRows {t : Tensor β} {lengths : List ℕ} {w : WrittenRow β}
    (h : w ∈ writtenRows t lengths) : w.row ∈ t.rows ∧ w.length ∈ lengths := by
  have hzip : w ∈ List.zipWith (fun row n => (⟨row,n,_⟩ : WrittenRow β)) t.rows lengths := h
  obtain ⟨i,hi,rfl⟩ := List.mem_iff_getElem.mp hzip
  rw [List.getElem_zipWith]
  exact ⟨List.getElem_mem _,List.getElem_mem _⟩

theorem fitsKind_of_lastWritten {calls : List (WriteCall β κ)} {kind : String → ColumnKind}
    {target : ℕ} (hwell : ∀ call ∈ calls, call.WellFormed asLength)
    (hconforms : ∀ call ∈ calls, Conforms asLength kind target call) {id field : String}
    {w : WrittenRow β} (h : lastWritten asLength calls id field = some w) :
    FitsKind (kind field) target w := by
  obtain ⟨call,hcall,t,ht,hmem⟩ := exists_of_lastWritten h
  obtain ⟨hrow,hlength⟩ := mem_writtenRows hmem
  have hrect := ((hwell call hcall).columns field t ht).1
  have hc := hconforms call hcall
  cases hkind : kind field with
  | scalarPerRow =>
    obtain ⟨values,rfl⟩ := hc.scalarPerRow field t ht hkind
    obtain ⟨value,-,hvalue⟩ := List.mem_map.mp hrow
    exact ⟨value,hvalue.symm⟩
  | vectorPerRow =>
    obtain ⟨width,rows,rfl⟩ := hc.vectorPerRow field t ht hkind
    obtain ⟨entries,hentries,hvalue⟩ := List.mem_map.mp hrow
    exact ⟨entries,hvalue.symm,(hrect entries hentries).trans_le (hc.within field width rows ht)⟩
  | perToken =>
    obtain ⟨width,rows,rfl,hle⟩ := hc.perToken field t ht hkind
    obtain ⟨entries,hentries,hvalue⟩ := List.mem_map.mp hrow
    refine ⟨entries,hvalue.symm,(hrect entries hentries).trans_le (hc.within field width rows ht),?_⟩
    rw [hrect entries hentries]
    exact hle w.length hlength

/-- A per-token row came back: its tokens, and behind them pads or what the writer had there. -/
def KeptPerToken (pad : β) (w : WrittenRow β) (r : TensorRow β) : Prop :=
  ∃ entries read, w.row = .seq entries ∧ r = .seq read ∧
    read.take w.length = entries.take w.length ∧
    ∀ p value, w.length ≤ p → read[p]? = some value → value = pad ∨ entries[p]? = some value

theorem keptPerToken_readBack {target : ℕ} (pad : β) {w : WrittenRow β}
    (h : FitsKind .perToken target w) : KeptPerToken pad w (readBack target pad w.stored) := by
  obtain ⟨row,n,cut⟩ := w
  obtain ⟨entries,rfl,hle,hn⟩ := h
  cases cut with
  | false =>
    refine ⟨entries,_,rfl,rfl,take_padTo target pad hn,fun p value _ hread => ?_⟩
    exact (getElem?_padTo hread).symm
  | true =>
    have htake : n ≤ (entries.take n).length := by
      rw [List.length_take]
      exact le_min le_rfl hn
    refine ⟨entries,_,rfl,rfl,?_,fun p value hp hread => ?_⟩
    · rw [take_padTo target pad htake,List.take_take,Nat.min_self]
    · rcases getElem?_padTo hread with hrow | hpad
      · rw [List.getElem?_eq_none ((List.length_take_le n entries).trans hp)] at hrow
        cases hrow
      · exact .inl hpad

/-- A vector of a row survives when it is as wide as the pad target and only pads are cut off. -/
def Survives (target : ℕ) (pad : β) (w : WrittenRow β) : Prop :=
  match w.row with
  | .scalar _ => True
  | .seq entries => entries.length = target ∧
      (w.cut = true → entries.drop w.length = List.replicate (target - w.length) pad)

theorem readBack_eq_iff {target : ℕ} {pad : β} {w : WrittenRow β}
    (h : ∀ entries, w.row = .seq entries → entries.length ≤ target) :
    readBack target pad w.stored = w.row ↔ Survives target pad w := by
  obtain ⟨row,n,cut⟩ := w
  cases row with
  | scalar value => exact iff_of_true rfl trivial
  | seq entries =>
    have hle := h entries rfl
    cases cut with
    | true =>
      have hcut := @padTo_take_eq_iff β target n pad entries hle
      simpa [WrittenRow.stored,readBack,Survives] using hcut
    | false =>
      have hwhole : padTo target pad entries = entries ↔ entries.length = target := by
        constructor
        · intro heq
          have hlen := congrArg List.length heq
          rw [length_padTo] at hlen
          omega
        · exact fun heq => padTo_of_le pad heq.ge
      simpa [WrittenRow.stored,readBack,Survives] using hwhole

theorem readColumn_rows {k : ColumnKind} {target : ℕ} (pad : β) {ws : List (WrittenRow β)}
    (hne : ws ≠ []) (h : ∀ w ∈ ws, FitsKind k target w) :
    ∃ t, stackOrNest (ws.map WrittenRow.stored) = some t ∧
      (padSeqlen target pad (toPadded pad t)).rows =
        ws.map (fun w => readBack target pad w.stored) ∧
      (k = .perToken → ∃ rows, padSeqlen target pad (toPadded pad t) = .rect target rows) := by
  have hseqs (hs : ∀ w ∈ ws, ∃ entries, w.stored = .seq entries ∧ entries.length ≤ target) :
      ∃ t, stackOrNest (ws.map WrittenRow.stored) = some t ∧
        (padSeqlen target pad (toPadded pad t)).rows =
          ws.map (fun w => readBack target pad w.stored) ∧
        ∃ rows, padSeqlen target pad (toPadded pad t) = .rect target rows := by
    have hall : ∃ seqs : List (List β), ws.map WrittenRow.stored = seqs.map .seq ∧
        ∀ s ∈ seqs, s.length ≤ target := exists_seqs_of_rows (List.forall_mem_map.mpr hs)
    obtain ⟨seqs,heq,hlens⟩ := hall
    have hseqs : seqs ≠ [] := by
      rintro rfl
      exact hne (List.map_eq_nil_iff.mp heq)
    obtain ⟨t,ht,hread⟩ := stackOrNest_seqs hseqs pad hlens
    refine ⟨t,heq ▸ ht,?_,_,hread⟩
    have hmap : ws.map (fun w => readBack target pad w.stored) =
        (ws.map WrittenRow.stored).map (readBack target pad) := by rw [List.map_map]; rfl
    rw [hread,hmap,heq,List.map_map,Tensor.rows,List.map_map]
    rfl
  have hstored {w : WrittenRow β} {entries : List β} (hrow : w.row = .seq entries)
      (hle : entries.length ≤ target) :
      ∃ entries, w.stored = .seq entries ∧ entries.length ≤ target := by
    obtain ⟨row,n,cut⟩ := w
    obtain rfl : row = .seq entries := hrow
    cases cut with
    | true => exact ⟨_,rfl,(List.length_take_le' n entries).trans hle⟩
    | false => exact ⟨_,rfl,hle⟩
  cases k with
  | scalarPerRow =>
    have hall : ∃ values : List β, ws.map WrittenRow.stored = values.map .scalar := by
      clear hne hseqs
      induction ws with
      | nil => exact ⟨[],rfl⟩
      | cons w ws ih =>
        obtain ⟨⟨value,hvalue⟩,hrest⟩ := List.forall_mem_cons.mp h
        obtain ⟨values,heq⟩ := ih hrest
        obtain ⟨row,n,cut⟩ := w
        obtain rfl : row = .scalar value := hvalue
        exact ⟨value :: values,by rw [List.map_cons,heq]; rfl⟩
    obtain ⟨values,heq⟩ := hall
    obtain ⟨t,ht,hread⟩ := stackOrNest_scalars values target pad
    refine ⟨t,heq ▸ ht,?_,nofun⟩
    rw [hread,← heq,List.map_map]
    rfl
  | vectorPerRow =>
    obtain ⟨t,ht,hread,hwidth⟩ := hseqs fun w hw => by
      obtain ⟨entries,hrow,hle⟩ := h w hw
      exact hstored hrow hle
    exact ⟨t,ht,hread,nofun⟩
  | perToken =>
    obtain ⟨t,ht,hread,hwidth⟩ := hseqs fun w hw => by
      obtain ⟨entries,hrow,hle,-⟩ := h w hw
      exact hstored hrow hle
    exact ⟨t,ht,hread,fun _ => hwidth⟩

theorem forall₂_written {L : String → Option (WrittenRow β)} {ids : List String}
    {ws : List (WrittenRow β)} (h : ws.map some = ids.map L) (g : WrittenRow β → TensorRow β)
    (K : WrittenRow β → TensorRow β → Prop) :
    List.Forall₂ (fun id r => ∃ w, L id = some w ∧ K w r) ids (ws.map g) ↔
      ∀ id ∈ ids, ∀ w, L id = some w → K w (g w) := by
  induction ids generalizing ws with
  | nil =>
    obtain rfl := List.map_eq_nil_iff.mp h
    simp
  | cons id ids ih =>
    cases ws with
    | nil => cases h
    | cons w ws =>
      rw [List.map_cons,List.map_cons,List.cons.injEq] at h
      rw [List.map_cons,List.forall₂_cons,ih h.2,List.forall_mem_cons,← h.1]
      simp

theorem map_some_filterMap {α : Type*} {L : String → Option α} {ids : List String}
    (h : ∀ id ∈ ids, (L id).isSome) : (ids.filterMap L).map some = ids.map L := by
  induction ids with
  | nil => rfl
  | cons id ids ih =>
    obtain ⟨hid,hrest⟩ := List.forall_mem_cons.mp h
    obtain ⟨value,hvalue⟩ := Option.isSome_iff_exists.mp hid
    rw [List.filterMap_cons,hvalue,List.map_cons,List.map_cons,ih hrest,hvalue]

variable {tasks : List String} {calls : List (WriteCall β κ)} {kind : String → ColumnKind}
  {target : ℕ}

theorem stored_column (hwell : ∀ call ∈ calls, call.WellFormed asLength) {ids : List String}
    {f : String} (hwritten : ∀ id ∈ ids, (lastWritten asLength calls id f).isSome)
    {column : List (TensorRow β)}
    (h : column.map some = ids.map (cell (storeAfter partitionId asLength tasks calls).rows · f)) :
    ∃ ws : List (WrittenRow β), ws.map some = ids.map (lastWritten asLength calls · f) ∧
      column = ws.map WrittenRow.stored := by
  have hall := map_some_filterMap hwritten
  refine ⟨_,hall,List.map_injective_iff.mpr (Option.some_injective _) ?_⟩
  have hcells : ids.map (cell (storeAfter partitionId asLength tasks calls).rows · f) =
      (ids.map (lastWritten asLength calls · f)).map (Option.map WrittenRow.stored) := by
    rw [List.map_map]
    exact List.map_congr_left fun id _ => storeAfter_cell tasks hwell id f
  rw [h,hcells,← hall,List.map_map,List.map_map]
  rfl

theorem mem_written {ids : List String} {f : String} {ws : List (WrittenRow β)}
    (h : ws.map some = ids.map (lastWritten asLength calls · f)) {w : WrittenRow β} (hw : w ∈ ws) :
    ∃ id ∈ ids, lastWritten asLength calls id f = some w := by
  have hmem : some w ∈ ids.map (lastWritten asLength calls · f) := h ▸ List.mem_map_of_mem hw
  obtain ⟨id,hid,heq⟩ := List.mem_map.mp hmem
  exact ⟨id,hid,heq⟩

/-- `t` holds the samples' rows of a field as `readBack` has them. -/
def ReadsAs (asLength : β → ℕ) (calls : List (WriteCall β κ)) (k : ColumnKind) (target : ℕ)
    (pad : β) (ids : List String) (f : String) (t : Tensor β) : Prop :=
  ∃ ws : List (WrittenRow β), ws.map some = ids.map (lastWritten asLength calls · f) ∧
    (∀ w ∈ ws, FitsKind k target w) ∧ t.rows = ws.map (fun w => readBack target pad w.stored) ∧
    (k = .perToken → ∃ rows, t = .rect target rows)

theorem readsAs_of_column (hwell : ∀ call ∈ calls, call.WellFormed asLength)
    (hconforms : ∀ call ∈ calls, Conforms asLength kind target call) {ids : List String}
    (hne : ids ≠ []) {f : String}
    (hwritten : ∀ id ∈ ids, (lastWritten asLength calls id f).isSome) (pad : β)
    {column : List (TensorRow β)}
    (h : column.map some = ids.map (cell (storeAfter partitionId asLength tasks calls).rows · f)) :
    ∃ t, stackOrNest column = some t ∧
      ReadsAs asLength calls (kind f) target pad ids f (padSeqlen target pad (toPadded pad t)) := by
  obtain ⟨ws,hws,rfl⟩ := stored_column hwell hwritten h
  have hfits : ∀ w ∈ ws, FitsKind (kind f) target w := fun w hw => by
    obtain ⟨id,-,hlast⟩ := mem_written hws hw
    exact fitsKind_of_lastWritten hwell hconforms hlast
  have hwsne : ws ≠ [] := by
    rintro rfl
    exact hne (List.map_eq_nil_iff.mp hws.symm)
  obtain ⟨t,ht,hread,hwidth⟩ := readColumn_rows pad hwsne hfits
  exact ⟨t,ht,ws,hws,hfits,hread,hwidth⟩

section Reading

variable [Zero β] {τ : Type*}

def padOf (padValueDict : Dict String β) (field : String) : β := (padValueDict.get? field).getD 0

/-- The samples came back: per-token rows on their tokens, other rows in full, and all per-token
columns with one sequence dimension. -/
structure Preserved (asLength : β → ℕ) (calls : List (WriteCall β κ)) (kind : String → ColumnKind)
    (target : ℕ) (padValueDict : Dict String β) (ids fields : List String)
    (data : List (String × Tensor β)) : Prop where
  fields : ids ≠ [] → data.map Prod.fst = fields
  rows : ∀ column ∈ data, List.Forall₂ (fun id r =>
    ∃ w, lastWritten asLength calls id column.1 = some w ∧
      if kind column.1 = .perToken then KeptPerToken (padOf padValueDict column.1) w r
      else r = w.row) ids column.2.rows
  width : ∀ column ∈ data, kind column.1 = .perToken → ∃ rows, column.2 = .rect target rows

theorem readColumns_ok (hwell : ∀ call ∈ calls, call.WellFormed asLength)
    (hconforms : ∀ call ∈ calls, Conforms asLength kind target call) (m : KVBatchMeta ℕ τ)
    (htarget : ((m.extraInfo.getD []).lookup globalForwardPadSeqlen).getD 0 = target)
    {fields : List String} (hnodup : fields.Nodup)
    (hids : ∀ id ∈ m.sampleIds, ∃ f, (lastWritten asLength calls id f).isSome)
    (hwritten : ∀ f ∈ fields, ∀ id ∈ m.sampleIds, (lastWritten asLength calls id f).isSome)
    (padValueDict : Dict String β) :
    ∃ data, readColumns partitionId (storeAfter partitionId asLength tasks calls) m fields
        padValueDict = .ok data ∧
      (m.sampleIds ≠ [] → data.map Prod.fst = fields) ∧ (m.sampleIds = [] → data = []) ∧
      ∀ column ∈ data, ReadsAs asLength calls (kind column.1) target (padOf padValueDict column.1)
        m.sampleIds column.1 column.2 := by
  by_cases hne : m.sampleIds = []
  · have hread : readColumns partitionId (storeAfter partitionId asLength tasks calls) m fields
        padValueDict = .ok [] := by
      simp [readColumns,getSamples,hne,materialize]
    exact ⟨[],hread,fun h => absurd hne h,fun _ => rfl,by simp⟩
  have hstack : ∀ f ∈ fields, ∀ column, column.map some =
      m.sampleIds.map (cell (storeAfter partitionId asLength tasks calls).rows · f) →
      (stackOrNest column).isSome = true := by
    intro f hf column hrows
    obtain ⟨t,ht,-⟩ := readsAs_of_column hwell hconforms hne (hwritten f hf) 0 hrows
    exact Option.isSome_of_eq_some ht
  obtain ⟨hok,hout⟩ := @getSamples_spec (TensorRow β) κ partitionId
    (fun rows => (stackOrNest rows).isSome) (storeAfter partitionId asLength tasks calls)
    m.sampleIds fields hnodup hstack
  have hcells {id f : String} (h : (lastWritten asLength calls id f).isSome) :
      (cell (storeAfter partitionId asLength tasks calls).rows id f).isSome := by
    rw [storeAfter_cell tasks hwell,Option.isSome_map]
    exact h
  have hpresent : ∀ id ∈ m.sampleIds,
      ((storeAfter partitionId asLength tasks calls).rows.get? id).isSome ∧
        ∀ f ∈ fields, (cell (storeAfter partitionId asLength tasks calls).rows id f).isSome := by
    intro id hid
    obtain ⟨f,hf⟩ := hids id hid
    exact ⟨Option.isSome_of_isSome_bind (hcells hf),fun f hf => hcells (hwritten f hf id hid)⟩
  obtain ⟨out,hget⟩ := hok.mpr hpresent
  obtain ⟨hnames,hvalues⟩ := hout out hget
  have hread : ∀ column ∈ out, ∃ t, stackOrNest column.2 = some t ∧
      ReadsAs asLength calls (kind column.1) target (padOf padValueDict column.1) m.sampleIds
        column.1 (padSeqlen target (padOf padValueDict column.1)
          (toPadded (padOf padValueDict column.1) t)) := by
    intro column hc
    have hf : column.1 ∈ fields := hnames hne ▸ List.mem_map_of_mem hc
    exact readsAs_of_column hwell hconforms hne (hwritten _ hf) _ (hvalues column hc)
  refine ⟨_,by rw [readColumns,hget],fun _ => ?_,fun h => absurd h hne,?_⟩
  · rw [materialize,List.map_map,List.map_filterMap,← hnames hne,← List.filterMap_eq_map]
    refine List.filterMap_congr fun column hc => ?_
    obtain ⟨t,ht,-⟩ := hread column hc
    rw [ht]
    rfl
  · intro column hc
    obtain ⟨stacked,hstacked,rfl⟩ := List.mem_map.mp hc
    obtain ⟨rows,hrows,heq⟩ := List.mem_filterMap.mp hstacked
    obtain ⟨t,ht,hreads⟩ := hread rows hrows
    rw [ht] at heq
    obtain rfl := Option.some.inj heq
    rw [htarget]
    exact hreads

/-- What is read back equals what was written exactly when the vectors of the rows survive. -/
theorem readColumns_preserved_iff (partitionId : String) (tasks : List String)
    (hwell : ∀ call ∈ calls, call.WellFormed asLength)
    (hconforms : ∀ call ∈ calls, Conforms asLength kind target call) (m : KVBatchMeta ℕ τ)
    (htarget : ((m.extraInfo.getD []).lookup globalForwardPadSeqlen).getD 0 = target)
    {fields : List String} (hnodup : fields.Nodup)
    (hids : ∀ id ∈ m.sampleIds, ∃ f, (lastWritten asLength calls id f).isSome)
    (hwritten : ∀ f ∈ fields, ∀ id ∈ m.sampleIds, (lastWritten asLength calls id f).isSome)
    (padValueDict : Dict String β) :
    (∃ data, readColumns partitionId (storeAfter partitionId asLength tasks calls) m fields
        padValueDict = .ok data ∧
      Preserved asLength calls kind target padValueDict m.sampleIds fields data) ↔
    ∀ f ∈ fields, kind f ≠ .perToken → ∀ id ∈ m.sampleIds, ∀ w,
      lastWritten asLength calls id f = some w → Survives target (padOf padValueDict f) w := by
  obtain ⟨data,hdata,hnames,hempty,hreads⟩ := @readColumns_ok β κ asLength partitionId tasks
    calls kind target _ τ hwell hconforms m htarget fields hnodup hids hwritten padValueDict
  have hrows {f : String} (hf : kind f ≠ .perToken) {id : String} {w : WrittenRow β}
      (hlast : lastWritten asLength calls id f = some w) :
      ∀ entries, w.row = .seq entries → entries.length ≤ target := by
    intro entries hentries
    have hfits := fitsKind_of_lastWritten hwell hconforms hlast
    cases hkind : kind f with
    | perToken => exact absurd hkind hf
    | scalarPerRow =>
      rw [hkind] at hfits
      obtain ⟨value,hvalue⟩ := hfits
      rw [hentries] at hvalue
      cases hvalue
    | vectorPerRow =>
      rw [hkind] at hfits
      obtain ⟨entries',hrow,hle⟩ := hfits
      rw [hentries] at hrow
      exact TensorRow.seq.inj hrow ▸ hle
  constructor
  · rintro ⟨data',hdata',hpreserved⟩ f hf hkind id hid w hlast
    obtain rfl := Except.ok.inj (hdata.symm.trans hdata')
    have hne : m.sampleIds ≠ [] := List.ne_nil_of_mem hid
    obtain ⟨column,hcolumn,rfl⟩ := List.mem_map.mp ((hnames hne).symm ▸ hf)
    obtain ⟨ws,hws,-,hread,-⟩ := hreads column hcolumn
    have hkept := hpreserved.rows column hcolumn
    rw [hread,forall₂_written hws (fun w => readBack target (padOf padValueDict column.1) w.stored)
      (fun w r => if kind column.1 = .perToken then KeptPerToken (padOf padValueDict column.1) w r
        else r = w.row)] at hkept
    have heq := hkept id hid w hlast
    rw [if_neg hkind] at heq
    exact (readBack_eq_iff (hrows hkind hlast)).mp heq
  · intro hsurvive
    refine ⟨data,hdata,hnames,fun column hcolumn => ?_,fun column hcolumn => ?_⟩
    · obtain ⟨ws,hws,hfits,hread,-⟩ := hreads column hcolumn
      have hne : m.sampleIds ≠ [] := fun h => by
        rw [hempty h] at hcolumn
        cases hcolumn
      have hf : column.1 ∈ fields := hnames hne ▸ List.mem_map_of_mem hcolumn
      rw [hread,forall₂_written hws (fun w => readBack target (padOf padValueDict column.1) w.stored)
        (fun w r => if kind column.1 = .perToken then KeptPerToken (padOf padValueDict column.1) w r
          else r = w.row)]
      intro id hid w hlast
      by_cases hkind : kind column.1 = .perToken
      · rw [if_pos hkind]
        refine keptPerToken_readBack _ ?_
        rw [← hkind]
        exact fitsKind_of_lastWritten hwell hconforms hlast
      · rw [if_neg hkind,readBack_eq_iff (hrows hkind hlast)]
        exact hsurvive column.1 hf hkind id hid w hlast
    · obtain ⟨ws,-,-,-,hwidth⟩ := hreads column hcolumn
      exact hwidth

end Reading

/-- Two samples of one and two tokens, with a column of two scores per sample. -/
def scored : Dict String (Tensor ℕ) :=
  ⟨[("sample_mask",.flat [1,1]),("input_lengths",.flat [1,2]),("input_ids",.rect 2 [[7,0],[8,9]]),
    ("scores",.rect 2 [[3,4],[5,6]])],by decide⟩

def scoredRun : List (WriteCall ℕ ℕ) := [.first scored ["a","b"] none]

def scoredKind (field : String) : ColumnKind :=
  if field = "input_ids" then .perToken
  else if field = "scores" then .vectorPerRow else .scalarPerRow

def padded (sampleIds : List String) (target : ℕ) : KVBatchMeta ℕ ℕ :=
  .untagged "rollout" none sampleIds none none (some [(globalForwardPadSeqlen,target)])

theorem scored_columns {p : String → Tensor ℕ → Prop}
    (h : ∀ column ∈ scored.entries, p column.1 column.2) :
    ∀ f t, scored.get? f = some t → p f t :=
  fun f t ht => h (f,t) (Dict.mem_entries_iff.mpr ht)

theorem scoredRun_wellFormed : ∀ call ∈ scoredRun, call.WellFormed id := by
  intro call hcall
  obtain rfl := List.mem_singleton.mp hcall
  refine ⟨rfl,scored_columns ?_,?_⟩
  · simp [scored,Tensor.Rectangular,Tensor.rows,WriteCall.ids]
  · intro batch sampleIds tags heq
    obtain ⟨rfl,rfl,rfl⟩ := WriteCall.first.inj heq
    exact ⟨by simp,rfl,⟨[1,2],rfl⟩,fun l hl => by cases hl⟩

theorem scoredRun_conforms {target : ℕ} (h : 2 ≤ target) :
    ∀ call ∈ scoredRun, Conforms id scoredKind target call := by
  intro call hcall
  obtain rfl := List.mem_singleton.mp hcall
  have hlengths : (WriteCall.first scored ["a","b"] none : WriteCall ℕ ℕ).lengths id = [1,2] := rfl
  refine ⟨scored_columns ?_,scored_columns ?_,scored_columns ?_,fun f width rows => ?_⟩
  · rw [hlengths]
    simp [scored,scoredKind]
  · simp [scored,scoredKind]
  · simp [scored,scoredKind]
  · have hwidth : ∀ f t, scored.get? f = some t → ∀ width rows, t = .rect width rows →
        width ≤ target := scored_columns (by simp [scored,h])
    exact fun hget => hwidth f _ hget width rows rfl

/-- The tokens and the mask, read in another order. -/
theorem readColumns_preserved_iff_tokens :
    ∃ data, readColumns "rollout" (storeAfter "rollout" id [] scoredRun) (padded ["b","a"] 2)
        ["input_ids","sample_mask"] .empty = .ok data ∧
      Preserved id scoredRun scoredKind 2 .empty ["b","a"] ["input_ids","sample_mask"] data := by
  refine (readColumns_preserved_iff "rollout" [] scoredRun_wellFormed
    (scoredRun_conforms le_rfl) (padded ["b","a"] 2) rfl (by decide) ?_ ?_ .empty).mpr ?_
  · intro sample hsample
    refine ⟨"sample_mask",?_⟩
    simp only [padded,KVBatchMeta.untagged,List.mem_cons,List.not_mem_nil,or_false] at hsample
    rcases hsample with rfl | rfl <;> rfl
  · intro f hf sample hsample
    simp only [padded,KVBatchMeta.untagged,List.mem_cons,List.not_mem_nil,or_false] at hf hsample
    rcases hf with rfl | rfl <;> rcases hsample with rfl | rfl <;> rfl
  · intro f hf hkind sample hsample w hlast
    simp only [padded,KVBatchMeta.untagged,List.mem_cons,List.not_mem_nil,or_false] at hf hsample
    rcases hf with rfl | rfl
    · exact absurd rfl hkind
    · rcases hsample with rfl | rfl <;> obtain rfl := Option.some.inj hlast <;> exact trivial

/-- Two scores per sample are as wide as the longest sample: the second score of the shorter
sample is cut off as if it were a pad. -/
theorem scores_not_preserved :
    (∀ call ∈ scoredRun, call.WellFormed id) ∧ (∀ call ∈ scoredRun, Conforms id scoredKind 2 call) ∧
    readColumns "rollout" (storeAfter "rollout" id [] scoredRun) (padded ["a"] 2) ["scores"]
      .empty = .ok [("scores",.rect 2 [[3,0]])] ∧
    ¬∃ data, readColumns "rollout" (storeAfter "rollout" id [] scoredRun) (padded ["a"] 2)
        ["scores"] .empty = .ok data ∧
      Preserved id scoredRun scoredKind 2 .empty ["a"] ["scores"] data := by
  have hread : readColumns "rollout" (storeAfter "rollout" id [] scoredRun) (padded ["a"] 2)
      ["scores"] .empty = .ok [("scores",.rect 2 [[3,0]])] := by rfl
  refine ⟨scoredRun_wellFormed,scoredRun_conforms le_rfl,hread,?_⟩
  rintro ⟨data,hdata,hpreserved⟩
  obtain rfl := Except.ok.inj (hread.symm.trans hdata)
  have hrows := hpreserved.rows _ (List.mem_singleton_self _)
  obtain ⟨w,hlast,hkept⟩ := (List.forall₂_cons.mp hrows).1
  obtain rfl := Option.some.inj hlast
  exact absurd hkept (by simp [scoredKind])

end DataPlane
end DockyardRL
