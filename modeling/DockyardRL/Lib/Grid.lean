import DockyardRL.Lib.Chunks
import DockyardRL.Lib.Exchange
import Mathlib.Data.List.ProdSigma

/-! Tensors with two dimensions of positions: slices along the second one, their concatenation, what is
written into them slice by slice, flattening, and sums scattered into a flat tensor. -/
namespace DockyardRL

/-- A tensor of shape `[B,S]`, or of shape `[B,S,n]` with the rows of length `n` as entries. -/
structure Grid (α : Type) where
  rows : ℕ
  cols : ℕ
  entry : ℕ → ℕ → α

namespace Grid

open Chunks Exchange

variable {α β γ : Type}

def map (f : α → β) (x : Grid α) : Grid β := ⟨x.rows,x.cols,fun b s => f (x.entry b s)⟩

def zip (f : α → β → γ) (x : Grid α) (y : Grid β) : Grid γ :=
  ⟨x.rows,x.cols,fun b s => f (x.entry b s) (y.entry b s)⟩

/-- `x[:, start:stop]`. -/
def slice (start stop : ℕ) (x : Grid α) : Grid α :=
  ⟨x.rows,min stop x.cols - start,fun b s => x.entry b (start + s)⟩

/-- `x[:, start:stop] = y`. -/
def setSlice (x : Grid α) (start stop : ℕ) (y : Grid α) : Grid α :=
  ⟨x.rows,x.cols,fun b s => if start ≤ s ∧ s < stop then y.entry b (s - start) else x.entry b s⟩

/-- `torch.cat(xs, dim=1)`. -/
def cat : List (Grid α) → Option (Grid α)
  | [] => none
  | [x] => some x
  | x :: y :: rest =>
    (cat (y :: rest)).map fun z => ⟨x.rows,x.cols + z.cols,fun b s =>
      if s < x.cols then x.entry b s else z.entry b (s - x.cols)⟩

def positions (rows cols : ℕ) : List (ℕ × ℕ) := List.range rows ×ˢ List.range cols

/-- `x.flatten()`, of the first two dimensions. -/
def flatten (x : Grid α) : List α := (positions x.rows x.cols).map fun p => x.entry p.1 p.2

/-- `l.view(rows, cols)`. -/
def view (rows cols : ℕ) (default : α) (l : List α) : Grid α :=
  ⟨rows,cols,fun b s => l.getD (b * cols + s) default⟩

/-- `x.shape[-1]` of a tensor of shape `[B,S,n]`. -/
def lastDim (x : Grid (List α)) : ℕ := (x.entry 0 0).length

section Flat

variable {M : Type} [AddCommMonoid M]

/-- `out.scatter_add_(0, index, src)`. -/
def scatterAdd (out : List M) (index : List ℕ) (src : List M) : List M :=
  (index.zip src).foldl (fun out p => out.modify p.1 fun x => x + p.2) out

/-- `l.masked_select(mask)`. -/
def maskedSelect {α : Type} (l : List α) (mask : List Bool) : List α :=
  (l.zip mask).filterMap fun p => if p.2 then some p.1 else none

theorem maskedSelect_map {ι : Type} (l : List ι) (f : ι → α) (m : ι → Bool) :
    maskedSelect (l.map f) (l.map m) = (l.filter m).map f := by
  induction l with
  | nil => rfl
  | cons i l ih =>
    rw [maskedSelect,List.map_cons,List.map_cons,List.zip_cons_cons,List.filterMap_cons,
      ← maskedSelect,ih,List.filter_cons]
    cases m i <;> rfl

theorem length_scatterAdd (out : List M) (index : List ℕ) (src : List M) :
    (scatterAdd out index src).length = out.length := by
  rw [scatterAdd]
  induction index.zip src generalizing out with
  | nil => rfl
  | cons p l ih => rw [List.foldl_cons,ih,List.length_modify]

/-- An entry gets the sum of what is scattered to it. -/
theorem getD_scatterAdd {out : List M} {ι : Type} (l : List ι) (index : ι → ℕ) (src : ι → M) {j : ℕ}
    (hj : j < out.length) :
    (scatterAdd out (l.map index) (l.map src)).getD j 0 =
      out.getD j 0 + (l.map fun i => if index i = j then src i else 0).sum := by
  induction l generalizing out with
  | nil => simp [scatterAdd]
  | cons i l ih =>
    have hmodify : (out.modify (index i) fun x => x + src i).getD j 0 =
        out.getD j 0 + if index i = j then src i else 0 := by
      rw [List.getD_eq_getElem?_getD,List.getD_eq_getElem?_getD,List.getElem?_modify,
        List.getElem?_eq_getElem hj]
      split_ifs
      · rfl
      · exact (add_zero _).symm
    rw [scatterAdd,List.map_cons,List.map_cons,List.zip_cons_cons,List.foldl_cons,← scatterAdd,
      ih (by rwa [List.length_modify]),hmodify,List.map_cons,List.sum_cons,add_assoc]

/-- A sum with one term. -/
theorem sum_single {ι : Type} [DecidableEq ι] {l : List ι} (hl : l.Nodup) {a : ι}
    (ha : a ∈ l) {f : ι → M} (hf : ∀ b ∈ l, b ≠ a → f b = 0) : (l.map f).sum = f a := by
  rw [List.sum_map_eq_nsmul_single a f fun b hb hmem => hf b hmem hb,
    List.count_eq_one_of_mem hl ha,one_nsmul]

end Flat

/-- A flat index tells the position and the token. -/
theorem mul_add_inj {n i j u v : ℕ} (hu : u < n) (hv : v < n) : i * n + u = j * n + v ↔ i = j ∧ u = v := by
  constructor
  · intro h
    have hdiv := congrArg (· / n) h
    have hmod := congrArg (· % n) h
    simp only [Nat.mul_comm _ n,Nat.mul_add_mod,Nat.mul_add_div (Nat.zero_lt_of_lt hu),
      Nat.mod_eq_of_lt hu,Nat.mod_eq_of_lt hv,Nat.div_eq_of_lt hu,Nat.div_eq_of_lt hv,
      Nat.add_zero] at hdiv hmod
    exact ⟨hdiv,hmod⟩
  · rintro ⟨rfl,rfl⟩
    rfl

theorem take_drop_eq_map (l : List α) (d : α) {a n : ℕ} (h : a + n ≤ l.length) :
    (l.drop a).take n = (List.range n).map fun v => l.getD (a + v) d := by
  refine List.ext_getElem (by simp; omega) fun v hv _ => ?_
  rw [List.length_take] at hv
  have hlt : a + v < l.length := by omega
  simp [List.getElem_take,List.getElem_drop,hlt]

theorem mem_positions {rows cols : ℕ} {p : ℕ × ℕ} :
    p ∈ positions rows cols ↔ p.1 < rows ∧ p.2 < cols := by
  rw [positions,List.mem_product,List.mem_range,List.mem_range]

theorem nodup_positions (rows cols : ℕ) : (positions rows cols).Nodup :=
  List.nodup_range.product List.nodup_range

theorem length_positions (rows cols : ℕ) : (positions rows cols).length = rows * cols := by
  rw [positions,List.length_product,List.length_range,List.length_range]

theorem getD_positions {rows cols b s : ℕ} (hb : b < rows) (hs : s < cols) (d : ℕ × ℕ) :
    (positions rows cols).getD (b * cols + s) d = (b,s) := by
  have hrows : ∀ row ∈ (List.range rows).map fun b => (List.range cols).map (Prod.mk b),
      row.length = cols := by
    intro row hrow
    obtain ⟨i,-,rfl⟩ := List.mem_map.mp hrow
    rw [List.length_map,List.length_range]
  have hflat := getD_flatten_rows hrows d (t := b) hs
  rw [getD_range_map _ _ hb,getD_range_map _ _ hs,← List.flatMap_def] at hflat
  exact hflat

theorem map_fst_positions (rows cols : ℕ) :
    (positions rows cols).map Prod.fst = (List.range rows).flatMap fun b => List.replicate cols b := by
  have hproduct : positions rows cols =
      (List.range rows).flatMap fun b => (List.range cols).map (Prod.mk b) := rfl
  rw [hproduct,List.map_flatMap]
  refine List.flatMap_congr fun b _ => ?_
  rw [List.map_map]
  simp [Function.comp_def]

theorem map_snd_positions (rows cols : ℕ) :
    (positions rows cols).map Prod.snd = (List.range rows).flatMap fun _ => List.range cols := by
  have hproduct : positions rows cols =
      (List.range rows).flatMap fun b => (List.range cols).map (Prod.mk b) := rfl
  rw [hproduct,List.map_flatMap]
  refine List.flatMap_congr fun b _ => ?_
  rw [List.map_map]
  exact List.map_id _

/-- What is computed from the flat positions, viewed as a tensor again. -/
theorem view_map {rows cols b s : ℕ} (hb : b < rows) (hs : s < cols) (f : ℕ × ℕ → α) (d : α) :
    (view rows cols d ((positions rows cols).map f)).entry b s = f (b,s) := by
  have hlt : b * cols + s < (positions rows cols).length := by
    have hle : (b + 1) * cols ≤ rows * cols := Nat.mul_le_mul_right _ hb
    rw [Nat.succ_mul] at hle
    rw [length_positions]
    omega
  have hpos := getD_positions hb hs (b,s)
  rw [List.getD_eq_getElem _ _ hlt] at hpos
  show ((positions rows cols).map f).getD (b * cols + s) d = f (b,s)
  rw [List.getD_eq_getElem _ _ (by rwa [List.length_map]),List.getElem_map,hpos]

theorem cat_slices {rows n k : ℕ} (f : ℕ → Grid α) (values : ℕ → ℕ → α) {a m : ℕ} (hm : 0 < m)
    (hrows : ∀ c, (f c).rows = rows) (hcols : ∀ c, (f c).cols = min n ((c + 1) * k) - c * k)
    (hentry : ∀ c, ∀ b < rows, ∀ s < (f c).cols, (f c).entry b s = values b (c * k + s))
    (hend : n ≤ (a + m) * k) :
    ∃ out, cat ((List.range' a m).map f) = some out ∧ out.rows = rows ∧ out.cols = n - a * k ∧
      ∀ b < rows, ∀ s < out.cols, out.entry b s = values b (a * k + s) := by
  induction m generalizing a with
  | zero => exact absurd hm (lt_irrefl 0)
  | succ m ih =>
    rcases Nat.eq_zero_or_pos m with rfl | hpos
    · refine ⟨f a,rfl,hrows a,?_,hentry a⟩
      rw [hcols,Nat.min_eq_left hend]
    · obtain ⟨out,hcat,hrow,hcol,hout⟩ := ih (a := a + 1) hpos (by convert hend using 2; omega)
      have hcat' : cat ((List.range' a (m + 1)).map f) = some ⟨(f a).rows,(f a).cols + out.cols,
          fun b s => if s < (f a).cols then (f a).entry b s else out.entry b (s - (f a).cols)⟩ := by
        obtain ⟨l,rfl⟩ := Nat.exists_eq_succ_of_ne_zero hpos.ne'
        rw [List.range'_succ,List.range'_succ] at *
        rw [List.map_cons,List.map_cons,cat,← List.map_cons,hcat]
        rfl
      have hwidth := hcols a
      rw [Nat.succ_mul] at hcol hwidth
      refine ⟨_,hcat',hrows a,?_,fun b hb s hs => ?_⟩
      · show (f a).cols + out.cols = n - a * k
        omega
      · show (if s < (f a).cols then (f a).entry b s else out.entry b (s - (f a).cols)) = _
        have hs : s < (f a).cols + out.cols := hs
        split_ifs with hfirst
        · exact hentry a b hb s hfirst
        · rw [hout b hb _ (by omega),Nat.succ_mul]
          congr 1
          omega

theorem shape_foldl_setSlice (start stop : ℕ → ℕ) (y : ℕ → Grid α) (x : Grid α) (l : List ℕ) :
    (l.foldl (fun out c => setSlice out (start c) (stop c) (y c)) x).rows = x.rows ∧
      (l.foldl (fun out c => setSlice out (start c) (stop c) (y c)) x).cols = x.cols := by
  induction l generalizing x with
  | nil => exact ⟨rfl,rfl⟩
  | cons c l ih => exact ih (setSlice x (start c) (stop c) (y c))

/-- What is written slice by slice. -/
theorem foldl_setSlice {n k : ℕ} (y : ℕ → Grid α) (x : Grid α) {b : ℕ} (values : ℕ → α)
    (hentry : ∀ c s, c * k + s < min n ((c + 1) * k) → (y c).entry b s = values (c * k + s)) (m : ℕ) :
    ∀ s < n, s < m * k → ((List.range m).foldl (fun out c =>
      setSlice out (c * k) (min n ((c + 1) * k)) (y c)) x).entry b s = values s := by
  induction m with
  | zero => exact fun s _ hs => absurd hs (by omega)
  | succ m ih =>
    intro s hn hs
    rw [List.range_succ,List.foldl_append,List.foldl_cons,List.foldl_nil]
    show (if m * k ≤ s ∧ s < min n ((m + 1) * k) then (y m).entry b (s - m * k) else _) = values s
    split_ifs with hslice
    · have hsum : m * k + (s - m * k) = s := by omega
      rw [hentry m _ (by omega),hsum]
    · exact ih s hn (by omega)

/-- Chunks up to the end of a tensor that holds the output, concatenated. -/
theorem cat_chunks_le {rows n total k : ℕ} (htotal : 0 < total) (hle : n ≤ total) (hk : 0 < k)
    (f : ℕ → Grid α) (values : ℕ → ℕ → α) (hrows : ∀ c, (f c).rows = rows)
    (hcols : ∀ c, (f c).cols = min n ((c + 1) * k) - c * k)
    (hentry : ∀ c, ∀ b < rows, ∀ s, c * k + s < n → (f c).entry b s = values b (c * k + s)) :
    ∃ out, cat ((List.range (rangeSteps total k)).map f) = some out ∧ out.rows = rows ∧
      out.cols = n ∧ ∀ b < rows, ∀ s < n, out.entry b s = values b s := by
  obtain ⟨hpos,-,hend⟩ := rangeSteps_bounds htotal hk
  obtain ⟨out,hcat,hr,hc,hout⟩ := cat_slices (a := 0) f values hpos hrows hcols
    (fun c b hb s hs => hentry c b hb s (by rw [hcols] at hs; omega))
    (by simpa using hle.trans hend)
  rw [← List.range_eq_range'] at hcat
  rw [Nat.zero_mul,Nat.sub_zero] at hc
  refine ⟨out,hcat,hr,hc,fun b hb s hs => ?_⟩
  have hvalue := hout b hb s (by omega)
  rwa [Nat.zero_mul,Nat.zero_add] at hvalue

/-- The chunks of an output, concatenated. -/
theorem cat_chunks {rows n k : ℕ} (hn : 0 < n) (hk : 0 < k) (f : ℕ → Grid α)
    (values : ℕ → ℕ → α) (hrows : ∀ c, (f c).rows = rows)
    (hcols : ∀ c, (f c).cols = min n ((c + 1) * k) - c * k)
    (hentry : ∀ c, ∀ b < rows, ∀ s, c * k + s < n → (f c).entry b s = values b (c * k + s)) :
    ∃ out, cat ((List.range (rangeSteps n k)).map f) = some out ∧ out.rows = rows ∧ out.cols = n ∧
      ∀ b < rows, ∀ s < n, out.entry b s = values b s :=
  cat_chunks_le hn le_rfl hk f values hrows hcols hentry

end Grid
end DockyardRL
