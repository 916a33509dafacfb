import Mathlib.Algebra.BigOperators.Group.List.Basic
import Mathlib.Algebra.Order.BigOperators.Group.List
import Mathlib.Data.List.Forall2
import Mathlib.Tactic.Common
import Mathlib.Algebra.Ring.Nat
import Mathlib.Tactic.Ring

/-! Indices into an array with several axes and the positions of its entries, the last axis fastest.

Arrays with several axes: what their entries are after the axes were regrouped or exchanged.

Tensors as their shape and their contents in row-major order. -/
namespace DockyardRL
namespace RowMajor

/-- An index with one coordinate for every axis. -/
def Inside (shape index : List ℕ) : Prop := List.Forall₂ (fun i n => i < n) index shape

def ravel : List ℕ → List ℕ → ℕ
  | _ :: shape,i :: index => i * shape.prod + ravel shape index
  | _,_ => 0

/-- `numpy.unravel_index`. -/
def unravel : List ℕ → ℕ → List ℕ
  | [],_ => []
  | _ :: shape,p => p / shape.prod :: unravel shape (p % shape.prod)

variable {shape index : List ℕ}

@[simp] theorem length_unravel (shape : List ℕ) (p : ℕ) : (unravel shape p).length = shape.length := by
  induction shape generalizing p with
  | nil => rfl
  | cons n shape ih => simp [unravel,ih]

theorem ravel_lt (h : Inside shape index) : ravel shape index < shape.prod := by
  induction h with
  | nil => simp [ravel]
  | @cons i n index shape hi _ ih =>
    rw [ravel,List.prod_cons]
    calc i * shape.prod + ravel shape index < i * shape.prod + shape.prod := by omega
      _ = (i + 1) * shape.prod := (Nat.succ_mul i shape.prod).symm
      _ ≤ n * shape.prod := Nat.mul_le_mul_right _ hi

theorem Inside.pos (h : Inside shape index) {n : ℕ} (hn : n ∈ shape) : 0 < n := by
  induction h with
  | nil => cases hn
  | cons hi _ ih =>
    rcases List.mem_cons.mp hn with rfl | hn
    · exact Nat.zero_lt_of_lt hi
    · exact ih hn

theorem unravel_ravel (h : Inside shape index) : unravel shape (ravel shape index) = index := by
  induction h with
  | nil => rfl
  | @cons i n index shape hi hrest ih =>
    have hlt := ravel_lt hrest
    have hdiv : (i * shape.prod + ravel shape index) / shape.prod = i := by
      rw [Nat.mul_comm,Nat.mul_add_div (by omega),Nat.div_eq_of_lt hlt,Nat.add_zero]
    have hmod : (i * shape.prod + ravel shape index) % shape.prod = ravel shape index := by
      rw [Nat.mul_comm,Nat.mul_add_mod,Nat.mod_eq_of_lt hlt]
    rw [ravel,unravel,hdiv,hmod,ih]

theorem inside_unravel {p : ℕ} (h : p < shape.prod) : Inside shape (unravel shape p) := by
  induction shape generalizing p with
  | nil => exact .nil
  | cons n shape ih =>
    rw [List.prod_cons] at h
    have hpos : 0 < shape.prod := Nat.pos_of_mul_pos_left (by omega : 0 < n * shape.prod)
    exact .cons ((Nat.div_lt_iff_lt_mul hpos).mpr h) (ih (Nat.mod_lt _ hpos))

theorem ravel_unravel {p : ℕ} (h : p < shape.prod) : ravel shape (unravel shape p) = p := by
  induction shape generalizing p with
  | nil => simp at h; simp [ravel,h]
  | cons n shape ih =>
    rw [List.prod_cons] at h
    have hpos : 0 < shape.prod := Nat.pos_of_mul_pos_left (by omega : 0 < n * shape.prod)
    rw [unravel,ravel,ih (Nat.mod_lt _ hpos),Nat.mul_comm,Nat.div_add_mod]

end RowMajor

/-- An array by its shape, with an entry for every index. -/
structure NdArray (α : Type) where
  shape : List ℕ
  entry : List ℕ → α

namespace NdArray

open RowMajor

variable {α β : Type}

def map (f : α → β) (x : NdArray α) : NdArray β := ⟨x.shape,fun index => f (x.entry index)⟩

@[simp] theorem shape_map (f : α → β) (x : NdArray α) : (x.map f).shape = x.shape := rfl

@[simp] theorem entry_map (f : α → β) (x : NdArray α) (index : List ℕ) :
    (x.map f).entry index = f (x.entry index) := rfl

/-- `x.reshape(shape)`, for a shape with as many entries. -/
def reshape (shape : List ℕ) (x : NdArray α) : NdArray α :=
  ⟨shape,fun index => x.entry (unravel x.shape (ravel shape index))⟩

/-- `x.permute(axes)`. -/
def permute (axes : List ℕ) (x : NdArray α) : NdArray α where
  shape := axes.map fun axis => x.shape.getD axis 0
  entry index := x.entry ((List.range axes.length).map fun axis => index.getD (axes.idxOf axis) 0)

@[simp] theorem shape_reshape (shape : List ℕ) (x : NdArray α) : (x.reshape shape).shape = shape := rfl

theorem entry_reshape {x : NdArray α} {shape index index' : List ℕ} (hinside : Inside x.shape index')
    (hravel : ravel shape index = ravel x.shape index') :
    (x.reshape shape).entry index = x.entry index' := by
  show x.entry (unravel x.shape (ravel shape index)) = _
  rw [hravel,unravel_ravel hinside]

/-- The two middle ones of four axes are exchanged. -/
theorem permute_middle {x : NdArray α} {m n p q : ℕ} (hx : x.shape = [m,n,p,q]) :
    (x.permute [0,2,1,3]).shape = [m,p,n,q] ∧
      ∀ a b i j, (x.permute [0,2,1,3]).entry [a,b,i,j] = x.entry [a,i,b,j] := by
  refine ⟨?_,fun a b i j => rfl⟩
  rw [permute,hx]
  rfl

theorem ravel_split (n k : ℕ) (front index rest tail : List ℕ) (hfront : front.length = index.length)
    (a i : ℕ) :
    ravel (front ++ n :: k :: rest) (index ++ a :: i :: tail) =
      ravel (front ++ n * k :: rest) (index ++ (a * k + i) :: tail) := by
  induction front generalizing index with
  | nil =>
    obtain rfl := List.length_eq_zero_iff.mp hfront.symm
    simp only [List.nil_append,ravel,List.prod_cons]
    ring
  | cons m front ih =>
    obtain ⟨c,index,rfl⟩ := List.exists_cons_of_length_eq_add_one hfront.symm
    have hprod : (front ++ n :: k :: rest).prod = (front ++ n * k :: rest).prod := by
      simp only [List.prod_append,List.prod_cons]
      ring
    simp only [List.cons_append,ravel,hprod]
    rw [ih index (by simpa using hfront)]

theorem mul_add_lt {n k a i : ℕ} (ha : a < n) (hi : i < k) : a * k + i < n * k :=
  calc a * k + i < (a + 1) * k := by rw [Nat.succ_mul]; omega
    _ ≤ n * k := Nat.mul_le_mul_right k ha

theorem inside_pair {m n r c : ℕ} (hr : r < m) (hc : c < n) : Inside [m,n] [r,c] :=
  .cons hr (.cons hc .nil)

variable {x : NdArray α} {m n k : ℕ}

/-- A matrix as a matrix of blocks: both of its axes are split. -/
theorem entry_split (hx : x.shape = [m * k,n * k]) {a i b j : ℕ} (ha : a < m) (hi : i < k) (hb : b < n)
    (hj : j < k) :
    (x.reshape [m,k,n,k]).entry [a,i,b,j] = x.entry [a * k + i,b * k + j] := by
  refine entry_reshape (hx ▸ inside_pair (mul_add_lt ha hi) (mul_add_lt hb hj)) ?_
  rw [hx]
  exact (ravel_split m k [] [] [n,k] [b,j] rfl a i).trans
    (ravel_split n k [m * k] [a * k + i] [] [] rfl b j)

/-- Two axes are joined again. -/
theorem entry_join (hx : x.shape = [m,k,n,k]) {a i b j : ℕ} (ha : a < m) (hi : i < k) (hb : b < n)
    (hj : j < k) :
    (x.reshape [m * k,n * k]).entry [a * k + i,b * k + j] = x.entry [a,i,b,j] := by
  refine entry_reshape (hx ▸ .cons ha (.cons hi (.cons hb (.cons hj .nil)))) ?_
  rw [hx]
  exact ((ravel_split m k [] [] [n,k] [b,j] rfl a i).trans
    (ravel_split n k [m * k] [a * k + i] [] [] rfl b j)).symm

/-- The blocks of a matrix of blocks are flattened. -/
theorem entry_flatten (hx : x.shape = [m,n,k,k]) {a b i j : ℕ} (ha : a < m) (hb : b < n) (hi : i < k)
    (hj : j < k) :
    (x.reshape [m,n,k * k]).entry [a,b,i * k + j] = x.entry [a,b,i,j] := by
  refine entry_reshape (hx ▸ .cons ha (.cons hb (.cons hi (.cons hj .nil)))) ?_
  rw [hx]
  exact (ravel_split k k [m,n] [a,b] [] [] rfl i j).symm

theorem entry_unflatten (hx : x.shape = [m,n,k * k]) {a b i j : ℕ} (ha : a < m) (hb : b < n)
    (hi : i < k) (hj : j < k) :
    (x.reshape [m,n,k,k]).entry [a,b,i,j] = x.entry [a,b,i * k + j] := by
  refine entry_reshape (hx ▸ .cons ha (.cons hb (.cons (mul_add_lt hi hj) .nil))) ?_
  rw [hx]
  exact ravel_split k k [m,n] [a,b] [] [] rfl i j

end NdArray

/-- A tensor of any rank. -/
@[ext]
structure ShapedTensor (α : Type*) where
  shape : List ℕ
  data : List α
  sized : data.length = shape.prod

namespace ShapedTensor

variable {α : Type*}

def unsqueeze (t : ShapedTensor α) : ShapedTensor α where
  shape := t.shape ++ [1]
  data := t.data
  sized := by simp [t.sized]

@[simp] theorem shape_unsqueeze (t : ShapedTensor α) : t.unsqueeze.shape = t.shape ++ [1] := rfl

theorem prod_dropLast {shape : List ℕ} (h : shape.getLast? = some 1) :
    shape.dropLast.prod = shape.prod := by
  obtain ⟨front,rfl⟩ := List.getLast?_eq_some_iff.mp h
  simp

def squeeze (t : ShapedTensor α) : ShapedTensor α :=
  if h : t.shape.getLast? = some 1 then ⟨t.shape.dropLast,t.data,by rw [prod_dropLast h,t.sized]⟩ else t

theorem shape_squeeze {t : ShapedTensor α} (h : t.shape.getLast? = some 1) :
    t.squeeze.shape = t.shape.dropLast := by
  rw [squeeze,dif_pos h]

@[simp] theorem squeeze_unsqueeze (t : ShapedTensor α) : t.unsqueeze.squeeze = t := by
  have hlast : t.unsqueeze.shape.getLast? = some 1 := by simp
  rw [squeeze,dif_pos hlast]
  ext1
  · exact List.dropLast_concat
  · rfl

/-- Squeezing a dimension away is seen in the shape. -/
theorem squeeze_ne {t : ShapedTensor α} (h : t.shape.getLast? = some 1) : t.squeeze ≠ t := by
  intro heq
  have hshape := congrArg (List.length ∘ ShapedTensor.shape) heq
  simp only [Function.comp_apply,shape_squeeze h,List.length_dropLast] at hshape
  have hpos : 0 < t.shape.length := List.length_pos_of_ne_nil fun hnil => by simp [hnil] at h
  omega

end ShapedTensor
end DockyardRL
