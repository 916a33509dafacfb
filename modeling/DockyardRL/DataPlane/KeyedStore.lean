import DockyardRL.DataPlane.Interfaces

/-! The in-memory data plane as a keyed store: what each method does to one cell, one row and
one cursor. -/
namespace DockyardRL
namespace DataPlane

open Fallible

variable {ν κ : Type*}

def cell (rows : Dict String (Row ν)) (id field : String) : Option ν :=
  (rows.get? id).bind (·.get? field)

theorem cell_set (rows : Dict String (Row ν)) (sid : String) (row : Row ν) (id field : String) :
    cell (rows.set sid row) id field = if id = sid then row.get? field else cell rows id field := by
  rw [cell,Dict.get?_set]
  by_cases hid : id = sid
  · rw [if_pos hid,if_pos hid,Option.bind_some]
  · rw [if_neg hid,if_neg hid,cell]

namespace TensorDict

/-- The value a put writes: with a repeated id the last row counts. -/
def written (td : TensorDict ν) (ids : List String) (id field : String) : Option ν :=
  (td.columns.get? field).bind fun column => (ids.zip column).reverse.lookup id

/-- The ids a put touches: up to the first one without a row. -/
def reached (td : TensorDict ν) (ids : List String) : List String :=
  if td.columns.entries = [] then ids else ids.take (td.batchSize + 1)

theorem length_of_get? {td : TensorDict ν} {field : String} {column : List ν}
    (h : td.columns.get? field = some column) : column.length = td.batchSize :=
  td.aligned _ (Dict.mem_entries_iff.mpr h)

end TensorDict

theorem writeFields_get? {l : List (String × List ν)} (hl : (l.map Prod.fst).Nodup) {i : ℕ}
    {row row' : Row ν}
    (h : l.foldlM (fun acc entry => entry.2[i]?.map (acc.set entry.1)) row = some row')
    (field : String) :
    row'.get? field = ((l.lookup field).bind (·[i]?)).or (row.get? field) := by
  induction l generalizing row with
  | nil =>
    obtain rfl := Option.some.inj h
    rfl
  | cons entry l ih =>
    obtain ⟨hhead,htail⟩ := List.nodup_cons.mp hl
    rw [List.foldlM_cons] at h
    obtain ⟨acc,hacc,hrest⟩ := Option.bind_eq_some_iff.mp h
    obtain ⟨value,hvalue,rfl⟩ := Option.map_eq_some_iff.mp hacc
    rw [ih htail hrest,Dict.lookup_cons,Dict.get?_set]
    by_cases hfield : field = entry.1
    · have hnone : l.lookup field = none := by
        rw [List.lookup_eq_none_iff]
        intro e he
        exact bne_iff_ne.mpr fun heq => hhead (by rw [← hfield,heq]; exact List.mem_map_of_mem he)
      rw [if_pos hfield,if_pos hfield,hnone,Option.bind_none,Option.none_or,Option.bind_some,
        hvalue,Option.some_or]
    · rw [if_neg hfield,if_neg hfield]

theorem writeRow_get? {td : TensorDict ν} {i : ℕ} {row row' : Row ν}
    (h : writeRow td i row = some row') (field : String) :
    row'.get? field = ((td.columns.get? field).bind (·[i]?)).or (row.get? field) :=
  writeFields_get? td.columns.nodup h field

theorem writeRow_isSome (td : TensorDict ν) (i : ℕ) (row : Row ν) :
    (writeRow td i row).isSome ↔ td.columns.entries = [] ∨ i < td.batchSize := by
  have hall : ∀ l : List (String × List ν), (∀ entry ∈ l, entry.2.length = td.batchSize) →
      ∀ row : Row ν, (l.foldlM (fun acc entry => entry.2[i]?.map (acc.set entry.1)) row).isSome ↔
        l = [] ∨ i < td.batchSize := by
    intro l hl
    induction l with
    | nil => simp
    | cons entry l ih =>
      intro row
      obtain ⟨hlen,hrest⟩ := List.forall_mem_cons.mp hl
      rw [List.foldlM_cons]
      by_cases hi : i < td.batchSize
      · have hget : entry.2[i]? = some entry.2[i] := List.getElem?_eq_getElem (hlen ▸ hi)
        rw [hget,Option.map_some,Option.bind_eq_bind,Option.bind_some,ih hrest]
        simp [hi]
      · have hget : entry.2[i]? = none := List.getElem?_eq_none (by omega)
        rw [hget]
        simp [hi]
  exact hall _ td.aligned row

/-- What `writeRows` leaves in a cell. -/
theorem writeRows_cell (td : TensorDict ν) (ids : List String) (i : ℕ)
    (rows : Dict String (Row ν)) (id field : String) :
    cell (writeRows td ids i rows).1 id field =
      ((td.columns.get? field).bind fun column =>
        (ids.zip (column.drop i)).reverse.lookup id).or (cell rows id field) := by
  induction ids generalizing i rows with
  | nil => cases td.columns.get? field <;> rfl
  | cons sid rest ih =>
    have hkept : ((rows.get? sid).getD .empty).get? field = cell rows sid field := by
      rw [cell]
      cases rows.get? sid <;> rfl
    rw [writeRows]
    cases hrow : writeRow td i ((rows.get? sid).getD .empty) with
    | none =>
      have hend : ¬(td.columns.entries = [] ∨ i < td.batchSize) := by
        rw [← writeRow_isSome td i ((rows.get? sid).getD .empty),hrow]
        nofun
      have hnothing : ((td.columns.get? field).bind fun column =>
          ((sid :: rest).zip (column.drop i)).reverse.lookup id) = none := by
        cases hcolumn : td.columns.get? field with
        | none => rfl
        | some column =>
          have hlen := td.length_of_get? hcolumn
          have hshort : column.drop i = [] := List.drop_eq_nil_of_le (by omega)
          rw [Option.bind_some,hshort]
          rfl
      rw [hnothing,Option.none_or,cell_set,hkept]
      by_cases hid : id = sid
      · rw [if_pos hid,hid]
      · rw [if_neg hid]
    | some row' =>
      simp only
      rw [ih,cell_set,writeRow_get? hrow,hkept]
      cases hcolumn : td.columns.get? field with
      | none =>
        by_cases hid : id = sid
        · simp [hid]
        · simp [hid]
      | some column =>
        have hlen := td.length_of_get? hcolumn
        have hi : i < column.length := by
          have hwritten := (writeRow_isSome td i ((rows.get? sid).getD .empty)).mp (by rw [hrow]; rfl)
          rcases hwritten with hnone | hi
          · rw [Dict.get?,hnone] at hcolumn
            cases hcolumn
          · exact hlen ▸ hi
        have hget : column[i]? = some column[i] := List.getElem?_eq_getElem hi
        simp only [Option.bind_some]
        rw [List.drop_eq_getElem_cons hi,List.zip_cons_cons,List.reverse_cons,List.lookup_append,
          Dict.lookup_cons,hget,Option.some_or,Option.or_assoc]
        by_cases hid : id = sid
        · rw [if_pos hid,if_pos hid,Option.some_or]
        · rw [if_neg hid,if_neg hid,List.lookup_nil,Option.none_or]

/-- Which ids have a row after `writeRows`. -/
theorem writeRows_isSome (td : TensorDict ν) (ids : List String) {i : ℕ}
    (hi : td.columns.entries = [] ∨ i ≤ td.batchSize) (rows : Dict String (Row ν)) (id : String) :
    ((writeRows td ids i rows).1.get? id).isSome ↔
      id ∈ (if td.columns.entries = [] then ids else ids.take (td.batchSize + 1 - i)) ∨
        (rows.get? id).isSome := by
  induction ids generalizing i rows with
  | nil => simp [writeRows]
  | cons sid rest ih =>
    have hset (row : Row ν) : ((rows.set sid row).get? id).isSome ↔
        id = sid ∨ (rows.get? id).isSome := by
      rw [Dict.get?_set]
      by_cases hid : id = sid
      · simp [hid]
      · simp [hid]
    rw [writeRows]
    cases hrow : writeRow td i ((rows.get? sid).getD .empty) with
    | none =>
      have hend : ¬(td.columns.entries = [] ∨ i < td.batchSize) := by
        rw [← writeRow_isSome td i ((rows.get? sid).getD .empty),hrow]
        nofun
      rw [not_or] at hend
      have hlast : td.batchSize + 1 - i = 1 := by
        have hle := hi.resolve_left hend.1
        omega
      rw [if_neg hend.1,hlast,List.take_succ_cons,List.take_zero,List.mem_singleton]
      exact hset _
    | some row' =>
      have hwritten := (writeRow_isSome td i ((rows.get? sid).getD .empty)).mp (by rw [hrow]; rfl)
      simp only
      rw [ih (hwritten.imp_right Nat.succ_le_of_lt),hset]
      by_cases hnone : td.columns.entries = []
      · rw [if_pos hnone,if_pos hnone,List.mem_cons]
        tauto
      · have hlt := hwritten.resolve_left hnone
        have hstep : td.batchSize + 1 - i = (td.batchSize + 1 - (i + 1)) + 1 := by omega
        rw [if_neg hnone,if_neg hnone,hstep,List.take_succ_cons,List.mem_cons]
        tauto

/-- The samples a scan hands out: new, complete, in the order of the rows, and no more than
asked for unless nothing was asked for. -/
theorem readySamples_spec {asLength : κ → Option ℕ} {rec : Partition ν κ} {done : Finset String}
    {requiredFields : List String} {batchSize : ℤ} {l : List (String × Row ν)}
    {acc ready : List (String × ℕ)}
    (h : readySamples asLength rec done requiredFields batchSize l acc = .ok ready) :
    ∃ new, ready = acc ++ new ∧ (new.map Prod.fst).Sublist (l.map Prod.fst) ∧
      (∀ id ∈ new.map Prod.fst, id ∉ done ∧
        ∃ row, (id,row) ∈ l ∧ ∀ f ∈ requiredFields, (row.get? f).isSome) ∧
      ((acc.length : ℤ) < batchSize → (ready.length : ℤ) ≤ batchSize) := by
  induction l generalizing acc with
  | nil =>
    obtain rfl := Except.ok.inj h
    exact ⟨[],by simp,by simp,by simp,fun hlt => hlt.le⟩
  | cons entry l ih =>
    obtain ⟨key,row⟩ := entry
    have hskip : readySamples asLength rec done requiredFields batchSize l acc = .ok ready →
        ∃ new, ready = acc ++ new ∧
          (new.map Prod.fst).Sublist (((key,row) :: l).map Prod.fst) ∧
          (∀ id ∈ new.map Prod.fst, id ∉ done ∧ ∃ row', (id,row') ∈ (key,row) :: l ∧
            ∀ f ∈ requiredFields, (row'.get? f).isSome) ∧
          ((acc.length : ℤ) < batchSize → (ready.length : ℤ) ≤ batchSize) := by
      intro hrest
      obtain ⟨new,hready,hsub,hnew,hlen⟩ := ih hrest
      refine ⟨new,hready,hsub.cons key,fun id hid => ?_,hlen⟩
      obtain ⟨hdone,row',hmem,hall⟩ := hnew id hid
      exact ⟨hdone,row',List.mem_cons_of_mem _ hmem,hall⟩
    rw [readySamples] at h
    by_cases hdone : key ∈ done
    · rw [if_pos hdone] at h
      exact hskip h
    rw [if_neg hdone] at h
    by_cases hfields : requiredFields.all (fun f => (row.get? f).isSome) = true
    · have hall : ∀ f ∈ requiredFields, (row.get? f).isSome := List.all_eq_true.mp hfields
      simp only [hfields,Bool.not_true,Bool.false_eq_true,if_false] at h
      split at h
      · cases h
      · rename_i n _
        split at h
        · rename_i hfull
          obtain rfl := Except.ok.inj h
          refine ⟨[(key,n)],rfl,by simp,?_,fun hlt => ?_⟩
          · intro id hid
            obtain rfl : id = key := by simpa using hid
            exact ⟨hdone,row,by simp,hall⟩
          · rw [List.length_append,List.length_singleton]
            omega
        · rename_i hroom
          obtain ⟨new,hready,hsub,hnew,hlen⟩ := ih h
          refine ⟨(key,n) :: new,by rw [hready,List.append_assoc]; rfl,hsub.cons_cons key,?_,?_⟩
          · intro id hid
            rcases List.mem_cons.mp hid with rfl | hid
            · exact ⟨hdone,row,by simp,hall⟩
            · obtain ⟨hdone',row',hmem,hall'⟩ := hnew id hid
              exact ⟨hdone',row',List.mem_cons_of_mem _ hmem,hall'⟩
          · intro _
            exact hlen (not_le.mp hroom)
    · simp only [hfields,Bool.not_false,if_true] at h
      exact hskip h

/-- Clearing ids, seen from one id. -/
theorem clearSamples_get? (ids : List String) (rec : Partition ν κ) (id : String) :
    (ids.foldl clearSample rec).rows.get? id = if id ∈ ids then none else rec.rows.get? id := by
  induction ids generalizing rec with
  | nil => simp
  | cons sid ids ih =>
    rw [List.foldl_cons,ih,clearSample,Dict.get?_erase]
    by_cases hmem : id ∈ ids
    · simp [hmem]
    · by_cases hid : id = sid
      · simp [hid]
      · simp [hmem,hid]

theorem clearSamples_consumed (ids : List String) (rec : Partition ν κ) (t : String) :
    (ids.foldl clearSample rec).consumed.get? t =
      (rec.consumed.get? t).map fun done => done.filter (· ∉ ids) := by
  induction ids generalizing rec with
  | nil => simp
  | cons sid ids ih =>
    rw [List.foldl_cons,ih,clearSample,Dict.get?_mapValues,Option.map_map]
    congr 1
    funext done
    ext id
    simp only [Function.comp_apply,Finset.mem_filter,Finset.mem_erase,List.mem_cons,not_or]
    tauto

/-- A put moves no cursor, and writes its rows unless it is refused. -/
theorem putSamples_fst (partitionId : String) (rec : Partition ν κ) (ids : List String)
    (fields : Option (TensorDict ν)) (tags : Option (List (Tag κ))) :
    (putSamples partitionId rec ids fields tags).1.consumed = rec.consumed ∧
    (putSamples partitionId rec ids fields tags).1.rows =
      match fields with
      | none => rec.rows
      | some td => if td.nonTensorLeaves ≠ [] then rec.rows else (writeRows td ids 0 rec.rows).1 := by
  have hfinish (rec : Partition ν κ) (td : Option (TensorDict ν)) :
      (finishPut partitionId rec ids td tags).1.consumed = rec.consumed ∧
        (finishPut partitionId rec ids td tags).1.rows = rec.rows := by
    cases tags <;> exact ⟨rfl,rfl⟩
  cases fields with
  | none => exact hfinish rec none
  | some td =>
    simp only [putSamples]
    by_cases hleaves : td.nonTensorLeaves ≠ []
    · rw [if_pos hleaves,if_pos hleaves]
      exact ⟨rfl,rfl⟩
    · rw [if_neg hleaves,if_neg hleaves]
      rcases hrows : writeRows td ids 0 rec.rows with ⟨rows,_ | _⟩
      · exact ⟨rfl,rfl⟩
      · exact hfinish _ _

/-- A claim is refused without effect, or moves the cursor of its task over what it hands out. -/
theorem claimMeta_cases (partitionId : String) (asLength : κ → Option ℕ) (rec : Partition ν κ)
    (t : String) (requiredFields : List String) (batchSize : ℤ) :
    (∃ e, claimMeta partitionId asLength rec t requiredFields batchSize = (rec,.error e)) ∨
    ∃ done ready m, rec.consumed.get? t = some done ∧
      readySamples asLength rec done requiredFields batchSize rec.rows.entries [] = .ok ready ∧
      m.sampleIds = ready.map Prod.fst ∧
      claimMeta partitionId asLength rec t requiredFields batchSize =
        ({ rec with consumed := rec.consumed.set t (done ∪ m.sampleIds.toFinset) },.ok m) := by
  rw [claimMeta]
  cases hdone : rec.consumed.get? t with
  | none => exact .inl ⟨_,rfl⟩
  | some done =>
    cases hready : readySamples asLength rec done requiredFields batchSize rec.rows.entries [] with
    | error e => simp [hready]
    | ok ready =>
      refine .inr ⟨done,ready,.untagged partitionId (some t) (ready.map Prod.fst)
        (some requiredFields) (if (ready.map Prod.snd).any (· ≠ 0) then some (ready.map Prod.snd)
          else none) none,rfl,hready,rfl,?_⟩
      simp only [hready]
      rfl

theorem readRow_eq_ok {partitionId : String} {rec : Partition ν κ} {fields : List String}
    {sid : String} {l : List (String × ν)} :
    readRow partitionId rec fields sid = .ok l ↔
      (rec.rows.get? sid).isSome ∧
        List.Forall₂ (fun f y => y.1 = f ∧ cell rec.rows sid f = some y.2) fields l := by
  rw [readRow]
  simp only [cell]
  cases rec.rows.get? sid with
  | none => simp
  | some row =>
    simp only [Option.isSome_some,true_and,Option.bind_some]
    rw [mapM_eq_ok]
    have hvalue (f : String) (y : String × ν) :
        readField partitionId sid row f = .ok y ↔ y.1 = f ∧ row.get? f = some y.2 := by
      rw [readField]
      cases row.get? f with
      | none => simp
      | some value => simp [Prod.ext_iff,eq_comm]
    simp only [hvalue]

theorem exists_readRow (partitionId : String) {rec : Partition ν κ} {fields : List String}
    {sid : String} :
    (∃ l, readRow partitionId rec fields sid = .ok l) ↔
      (rec.rows.get? sid).isSome ∧ ∀ f ∈ fields, (cell rec.rows sid f).isSome := by
  simp only [readRow_eq_ok]
  constructor
  · rintro ⟨l,hrow,hall⟩
    refine ⟨hrow,fun f hf => ?_⟩
    obtain ⟨i,hi,rfl⟩ := List.mem_iff_getElem.mp hf
    have hvalue := ((List.forall₂_iff_get.mp hall).2 i hi (hall.length_eq ▸ hi)).2
    exact Option.isSome_of_eq_some hvalue
  · rintro ⟨hrow,hall⟩
    refine ⟨fields.attach.map fun f => (f.1,(cell rec.rows sid f.1).get (hall f.1 f.2)),hrow,?_⟩
    rw [List.forall₂_map_right_iff]
    refine List.forall₂_iff_get.mpr ⟨by simp,fun i h₁ h₂ => ?_⟩
    simp

theorem lookup_readRow {partitionId : String} {rec : Partition ν κ} {fields : List String}
    {sid : String} {l : List (String × ν)} (h : readRow partitionId rec fields sid = .ok l)
    {f : String} (hf : f ∈ fields) : l.lookup f = cell rec.rows sid f := by
  obtain ⟨-,hall⟩ := readRow_eq_ok.mp h
  clear h
  induction hall with
  | nil => cases hf
  | @cons f' y fields l hy hall ih =>
    rw [Dict.lookup_cons]
    by_cases heq : f = y.1
    · rw [if_pos heq,heq,hy.1,hy.2]
    · rw [if_neg heq]
      exact ih ((List.mem_cons.mp hf).resolve_left fun h => heq (h.trans hy.1.symm))

theorem column_readRow {partitionId : String} {rec : Partition ν κ} {fields ids : List String}
    {matrix : List (List (String × ν))}
    (h : ids.mapM (readRow partitionId rec fields) = .ok matrix) {f : String} (hf : f ∈ fields) :
    (matrix.filterMap (·.lookup f)).map some = ids.map (cell rec.rows · f) := by
  have hall := mapM_eq_ok.mp h
  clear h
  induction hall with
  | nil => rfl
  | @cons sid l ids matrix hrow _ ih =>
    have hvalue := lookup_readRow hrow hf
    have hsome := ((exists_readRow partitionId).mp ⟨l,hrow⟩).2 f hf
    obtain ⟨value,hcell⟩ := Option.isSome_iff_exists.mp hsome
    rw [List.filterMap_cons,hvalue,hcell,List.map_cons,List.map_cons,ih,hcell]

theorem getSamples_column {partitionId : String} {stackable : List ν → Bool} {rec : Partition ν κ}
    {ids fields : List String} {out : List (String × List ν)}
    (h : getSamples partitionId stackable rec ids fields = .ok out) :
    (ids ≠ [] → out.map Prod.fst = fields) ∧
      ∀ column ∈ out, ids ≠ [] ∧ column.2.map some = ids.map (cell rec.rows · column.1) := by
  by_cases hids : ids = []
  · rw [getSamples,if_pos hids] at h
    obtain rfl := Except.ok.inj h
    exact ⟨fun hne => absurd hids hne,by simp⟩
  rw [getSamples,if_neg hids] at h
  cases hmatrix : ids.mapM (readRow partitionId rec fields) with
  | error e =>
    rw [hmatrix] at h
    cases h
  | ok matrix =>
    rw [hmatrix] at h
    dsimp only at h
    split_ifs at h
    obtain rfl := Except.ok.inj h
    refine ⟨fun _ => by simp [Function.comp_def],fun column hcolumn => ⟨hids,?_⟩⟩
    obtain ⟨f,hf,rfl⟩ := List.mem_map.mp hcolumn
    exact column_readRow hmatrix hf

/-- A read succeeds when everything that is asked for is there, and returns it. -/
theorem getSamples_spec {partitionId : String} {stackable : List ν → Bool} {rec : Partition ν κ}
    {ids fields : List String} (hnodup : fields.Nodup)
    (hstack : ∀ f ∈ fields, ∀ column, column.map some = ids.map (cell rec.rows · f) →
      stackable column = true) :
    ((∃ out, getSamples partitionId stackable rec ids fields = .ok out) ↔
      ∀ id ∈ ids, (rec.rows.get? id).isSome ∧ ∀ f ∈ fields, (cell rec.rows id f).isSome) ∧
    ∀ out, getSamples partitionId stackable rec ids fields = .ok out →
      (ids ≠ [] → out.map Prod.fst = fields) ∧
      ∀ column ∈ out, column.2.map some = ids.map (cell rec.rows · column.1) := by
  refine ⟨?_,fun out hout => ⟨(getSamples_column hout).1,fun column hcolumn =>
    ((getSamples_column hout).2 column hcolumn).2⟩⟩
  by_cases hids : ids = []
  · subst hids
    simp [getSamples]
  simp only [← exists_readRow partitionId]
  rw [← exists_mapM_iff]
  simp only [getSamples,if_neg hids]
  cases hmatrix : ids.mapM (readRow partitionId rec fields) with
  | error e => simp
  | ok matrix =>
    have hall : (fields.map fun f => (f,matrix.filterMap (·.lookup f))).all
        (fun column => stackable column.2) = true := by
      rw [List.all_map,List.all_eq_true]
      exact fun f hf => hstack f hf _ (column_readRow hmatrix hf)
    simp [hnodup,hall]

end DataPlane
end DockyardRL
