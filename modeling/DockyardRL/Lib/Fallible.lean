import Mathlib.Data.List.Forall2
import Mathlib.Tactic.Common
import Mathlib.Data.Int.Order.Basic

/-! Fallible passes over lists. A pass that fails nowhere is the plain pass; a pass
that returns has returned for every element. -/
namespace DockyardRL
namespace Fallible

variable {ε : Type*} {α : Type*} {β γ : Type*}

theorem bind_eq_ok {x : Except ε β} {f : β → Except ε γ} {c : γ} :
    x.bind f = .ok c ↔ ∃ b, x = .ok b ∧ f b = .ok c := by
  cases x with
  | error e => simp [Except.bind]
  | ok b => simp [Except.bind]

theorem map_eq_ok {x : Except ε β} {f : β → γ} {c : γ} :
    x.map f = .ok c ↔ ∃ b, x = .ok b ∧ f b = c := by
  cases x with
  | error e => simp [Except.map]
  | ok b => simp [Except.map]

theorem mapError_eq_ok {ε' : Type*} {x : Except ε β} {f : ε → ε'} {b : β} :
    x.mapError f = .ok b ↔ x = .ok b := by
  cases x with
  | error e => simp [Except.mapError]
  | ok c => simp [Except.mapError]

theorem exists_map_ok {x : Except ε β} {f : β → γ} :
    (∃ c, x.map f = .ok c) ↔ ∃ b, x = .ok b := by
  cases x with
  | error e => simp [Except.map]
  | ok b => simp [Except.map]

/-- A pass returns exactly the results of its elements. -/
theorem exists_of_forall₂_left {r : α → γ → Prop} {as : List α} {cs : List γ}
    (h : List.Forall₂ r as cs) {a : α} (ha : a ∈ as) : ∃ c ∈ cs, r a c := by
  induction h with
  | nil => cases ha
  | cons hr _ ih =>
    rcases List.mem_cons.mp ha with rfl | ha
    · exact ⟨_,List.mem_cons_self,hr⟩
    · obtain ⟨c,hc,hrc⟩ := ih ha
      exact ⟨c,List.mem_cons_of_mem _ hc,hrc⟩

theorem forall₂_imp_of_mem {r p : α → γ → Prop} {as : List α} {cs : List γ}
    (h : List.Forall₂ r as cs) (himp : ∀ a ∈ as, ∀ c, r a c → p a c) : List.Forall₂ p as cs := by
  induction h with
  | nil => exact .nil
  | cons hr _ ih =>
    obtain ⟨ha,hrest⟩ := List.forall_mem_cons.mp himp
    exact .cons (ha _ hr) (ih hrest)

theorem mapM_eq_ok {f : α → Except ε β} {l : List α} {ys : List β} :
    l.mapM f = .ok ys ↔ List.Forall₂ (fun x y => f x = .ok y) l ys := by
  induction l generalizing ys with
  | nil => cases ys <;> simp [pure,Except.pure]
  | cons x l ih =>
    rw [List.mapM_cons]
    cases hx : f x with
    | error e => cases ys <;> simp [hx,bind,Except.bind]
    | ok y =>
      have hstep : ((Except.ok y : Except ε β) >>= fun y => l.mapM f >>= fun ys => pure (y :: ys)) =
          (l.mapM f).map (y :: ·) := by
        cases l.mapM f <;> rfl
      rw [hstep,map_eq_ok]
      cases ys with
      | nil => simp
      | cons z ys =>
        rw [List.forall₂_cons,hx,← ih]
        simp [and_comm]

/-- A pass that fails nowhere. -/
theorem mapM_ok {f : α → Except ε β} {g : α → β} {l : List α} (h : ∀ x ∈ l, f x = .ok (g x)) :
    l.mapM f = .ok (l.map g) := by
  rw [mapM_eq_ok,List.forall₂_map_right_iff,List.forall₂_same]
  exact h

/-- A pass over optional results that fails nowhere. -/
theorem mapM_some {f : α → Option β} {g : α → β} {l : List α} (h : ∀ x ∈ l, f x = some (g x)) :
    l.mapM f = some (l.map g) := by
  induction l with
  | nil => rfl
  | cons x l ih =>
    obtain ⟨hx,hl⟩ := List.forall_mem_cons.mp h
    simp [hx,ih hl]

theorem exists_mapM_some {f : α → Option β} {l : List α} (h : ∀ x ∈ l, ∃ y, f x = some y) :
    ∃ ys, l.mapM f = some ys := by
  induction l with
  | nil => exact ⟨[],rfl⟩
  | cons x l ih =>
    obtain ⟨⟨y,hy⟩,hl⟩ := List.forall_mem_cons.mp h
    obtain ⟨ys,hys⟩ := ih hl
    exact ⟨y :: ys,by simp [hy,hys]⟩

theorem exists_mapM_iff {f : α → Except ε β} {l : List α} :
    (∃ ys, l.mapM f = .ok ys) ↔ ∀ x ∈ l, ∃ y, f x = .ok y := by
  simp only [mapM_eq_ok]
  induction l with
  | nil => simp
  | cons x l ih =>
    rw [List.forall_mem_cons,← ih]
    constructor
    · rintro ⟨_,_ | ⟨hy,hys⟩⟩
      exact ⟨⟨_,hy⟩,⟨_,hys⟩⟩
    · rintro ⟨⟨y,hy⟩,⟨ys,hys⟩⟩
      exact ⟨y :: ys,.cons hy hys⟩

/-- A second pass that fails nowhere, with what is known of each result. -/
theorem exists_mapM_of_forall₂ {R : α → β → Prop} {P : α → γ → Prop} {f : β → Except ε γ} {l : List α}
    {ys : List β} (hall : List.Forall₂ R l ys)
    (h : ∀ x ∈ l, ∀ y, R x y → ∃ z, f y = .ok z ∧ P x z) :
    ∃ zs, ys.mapM f = .ok zs ∧ List.Forall₂ P l zs := by
  induction hall with
  | nil => exact ⟨[],rfl,.nil⟩
  | @cons x y l ys hxy _ ih =>
    obtain ⟨hx,hrest⟩ := List.forall_mem_cons.mp h
    obtain ⟨z,hz,hp⟩ := hx y hxy
    obtain ⟨zs,hzs,hps⟩ := ih hrest
    exact ⟨z :: zs,by rw [List.mapM_cons,hz,hzs]; rfl,.cons hp hps⟩

/-- A pass that fails nowhere, with what is known of each result. -/
theorem exists_mapM_forall₂ {f : α → Except ε β} {P : α → β → Prop} {l : List α}
    (h : ∀ x ∈ l, ∃ y, f x = .ok y ∧ P x y) : ∃ ys, l.mapM f = .ok ys ∧ List.Forall₂ P l ys :=
  exists_mapM_of_forall₂ (List.forall₂_same.mpr fun x _ => (rfl : x = x)) fun x hx _ hxy =>
    hxy ▸ h x hx

theorem mem_mapM_iff {f : α → Except ε β} {l : List α} {ys : List β} (h : l.mapM f = .ok ys)
    {y : β} : y ∈ ys ↔ ∃ x ∈ l, f x = .ok y := by
  have hall := mapM_eq_ok.mp h
  clear h
  induction hall with
  | nil => simp
  | cons hxy _ ih => simp [ih,hxy,eq_comm]

/-- What is read off the results of a pass, when it can be read off the elements. -/
theorem map_eq_of_mapM {f : α → Except ε β} {g : β → γ} {g' : α → γ} {l : List α} {ys : List β}
    (hrun : l.mapM f = .ok ys) (h : ∀ x ∈ l, ∀ y, f x = .ok y → g y = g' x) :
    ys.map g = l.map g' := by
  have hall := mapM_eq_ok.mp hrun
  clear hrun
  induction hall with
  | nil => rfl
  | cons hxy _ ih =>
    rw [List.map_cons,List.map_cons,h _ List.mem_cons_self _ hxy,
      ih fun x hx => h x (List.mem_cons_of_mem _ hx)]

/-- A pass that returns, when every element can only return one thing. -/
theorem eq_map_of_mapM {f : α → Except ε β} {g : α → β} {l : List α} {ys : List β}
    (hrun : l.mapM f = .ok ys) (h : ∀ x ∈ l, ∀ y, f x = .ok y → y = g x) : ys = l.map g := by
  have hall := mapM_eq_ok.mp hrun
  clear hrun
  induction hall with
  | nil => rfl
  | cons hxy _ ih =>
    rw [List.map_cons,h _ (by simp) _ hxy,ih fun x hx => h x (List.mem_cons_of_mem _ hx)]

/-- A pass that has a value everywhere. -/
theorem mapM_eq_some {α β : Type} {f : α → Option β} {g : α → β} {l : List α}
    (h : ∀ a ∈ l, f a = some (g a)) : l.mapM f = some (l.map g) := by
  induction l with
  | nil => rfl
  | cons a l ih =>
    rw [List.mapM_cons,h a List.mem_cons_self,ih fun b hb => h b (List.mem_cons_of_mem a hb)]
    rfl

end Fallible

end DockyardRL
