import DockyardRL.Lib.Fallible

/-! Streams of fallible steps that emit outputs and carry a state. A stream is undisturbed
by some of its inputs when it runs through and each of them could as well be left out. -/
namespace DockyardRL
namespace Emitter

open Fallible

variable {ε σ α β : Type*} (step : σ → α → Except ε (List β × σ))

def emit : σ → List α → Except ε (List (List β) × σ)
  | s, [] => .ok ([],s)
  | s, a :: as => (step s a).bind fun r => (emit r.2 as).map fun rest => (r.1 :: rest.1,rest.2)

/-- The stream runs through; an input that should be skipped emits nothing, and without it
the others emit the same. -/
def Undisturbed (skip : α → Prop) (s : σ) (as : List α) : Prop :=
  ∃ entries t, emit step s as = .ok (entries,t) ∧
    ∀ front a behind, as = front ++ a :: behind → skip a →
      ∃ x y, entries = x ++ [] :: y ∧ x.length = front.length ∧
        emit step s (front ++ behind) = .ok (x ++ y,t)

variable {step}

theorem emit_cons_ok {s t : σ} {a : α} {as : List α} {entries : List (List β)} :
    emit step s (a :: as) = .ok (entries,t) ↔
      ∃ out u rest, step s a = .ok (out,u) ∧ emit step u as = .ok (rest,t) ∧
        entries = out :: rest := by
  rw [emit,bind_eq_ok]
  constructor
  · rintro ⟨⟨out,u⟩,hstep,h⟩
    obtain ⟨⟨rest,v⟩,hrest,heq⟩ := map_eq_ok.mp h
    obtain ⟨rfl,rfl⟩ := Prod.mk.inj heq
    exact ⟨out,u,rest,hstep,hrest,rfl⟩
  · rintro ⟨out,u,rest,hstep,hrest,rfl⟩
    exact ⟨(out,u),hstep,map_eq_ok.mpr ⟨(rest,t),hrest,rfl⟩⟩

theorem emit_append_ok {s t : σ} {as bs : List α} {entries : List (List β)} :
    emit step s (as ++ bs) = .ok (entries,t) ↔
      ∃ x u y, emit step s as = .ok (x,u) ∧ emit step u bs = .ok (y,t) ∧ entries = x ++ y := by
  induction as generalizing s entries with
  | nil => simp [emit]
  | cons a as ih =>
    rw [List.cons_append,emit_cons_ok]
    constructor
    · rintro ⟨out,u,rest,hstep,hrest,rfl⟩
      obtain ⟨x,v,y,hx,hy,rfl⟩ := ih.mp hrest
      exact ⟨out :: x,v,y,emit_cons_ok.mpr ⟨out,u,x,hstep,hx,rfl⟩,hy,rfl⟩
    · rintro ⟨x,v,y,hx,hy,rfl⟩
      obtain ⟨out,u,rest,hstep,hrest,rfl⟩ := emit_cons_ok.mp hx
      exact ⟨out,u,rest ++ y,hstep,ih.mpr ⟨rest,v,y,hrest,hy,rfl⟩,rfl⟩

theorem length_of_emit {s t : σ} {as : List α} {entries : List (List β)}
    (h : emit step s as = .ok (entries,t)) : entries.length = as.length := by
  induction as generalizing s entries with
  | nil =>
    obtain ⟨rfl,-⟩ := Prod.mk.inj (Except.ok.inj h)
    rfl
  | cons a as ih =>
    obtain ⟨out,u,rest,-,hrest,rfl⟩ := emit_cons_ok.mp h
    rw [List.length_cons,List.length_cons,ih hrest]

theorem exists_emit {s : σ} {as : List α}
    (h : ∀ front a behind entries t, as = front ++ a :: behind →
      emit step s front = .ok (entries,t) → ∃ r, step t a = .ok r) :
    ∃ r, emit step s as = .ok r := by
  induction as generalizing s with
  | nil => exact ⟨_,rfl⟩
  | cons a as ih =>
    obtain ⟨⟨out,u⟩,hstep⟩ := h [] a as [] s rfl rfl
    have hrest : ∃ r, emit step u as = .ok r := by
      refine ih fun front b behind entries t hsplit hfront => ?_
      exact h (a :: front) b behind (out :: entries) t (by rw [hsplit]; rfl)
        (emit_cons_ok.mpr ⟨out,u,entries,hstep,hfront,rfl⟩)
    obtain ⟨⟨rest,t⟩,hrest⟩ := hrest
    exact ⟨(out :: rest,t),emit_cons_ok.mpr ⟨out,u,rest,hstep,hrest,rfl⟩⟩

/-- A stream is undisturbed exactly when every step it meets is clean, where a clean step
returns, and emits nothing if it should be skipped. -/
theorem undisturbed_iff {skip : α → Prop} {clean : σ → α → Prop}
    (hclean : ∀ s a, clean s a ↔ (∃ r, step s a = .ok r) ∧ (skip a → ∃ t, step s a = .ok ([],t)))
    (hstill : ∀ s a t, step s a = .ok ([],t) → t = s) (s : σ) (as : List α) :
    Undisturbed step skip s as ↔ ∀ front a behind entries t, as = front ++ a :: behind →
      emit step s front = .ok (entries,t) → clean t a := by
  constructor
  · rintro ⟨entries,t,hrun,hskip⟩ front a behind x u hsplit hfront
    rw [hsplit,emit_append_ok] at hrun
    obtain ⟨x',u',y,hfront',hbehind,hentries⟩ := hrun
    rw [hfront] at hfront'
    obtain ⟨rfl,rfl⟩ := Prod.mk.inj (Except.ok.inj hfront')
    obtain ⟨out,v,rest,hstep,-,rfl⟩ := emit_cons_ok.mp hbehind
    refine (hclean u a).mpr ⟨⟨_,hstep⟩,fun ha => ?_⟩
    obtain ⟨p,q,hpq,hlen,-⟩ := hskip front a behind hsplit ha
    have hx : x.length = p.length := by rw [length_of_emit hfront,hlen]
    obtain ⟨-,hout⟩ := List.append_inj (hentries.symm.trans hpq) hx
    exact ⟨v,by rw [hstep,(List.cons.inj hout).1]⟩
  · intro h
    obtain ⟨⟨entries,t⟩,hrun⟩ := exists_emit fun front a behind x u hsplit hfront =>
      ((hclean u a).mp (h front a behind x u hsplit hfront)).1
    refine ⟨entries,t,hrun,fun front a behind hsplit ha => ?_⟩
    rw [hsplit,emit_append_ok] at hrun
    obtain ⟨x,u,y,hfront,hbehind,rfl⟩ := hrun
    obtain ⟨v,hsilent⟩ := ((hclean u a).mp (h front a behind x u hsplit hfront)).2 ha
    obtain rfl := hstill u a v hsilent
    obtain ⟨out,w,rest,hstep,hrest,rfl⟩ := emit_cons_ok.mp hbehind
    rw [hsilent] at hstep
    obtain ⟨rfl,rfl⟩ := Prod.mk.inj (Except.ok.inj hstep)
    exact ⟨x,rest,rfl,length_of_emit hfront,emit_append_ok.mpr ⟨x,v,rest,hfront,hrest,rfl⟩⟩

variable (step) in
/-- Every input finds the stream in a state that is good for it. -/
def Throughout (good : σ → α → Prop) (s : σ) (as : List α) : Prop :=
  ∀ front a behind entries t, as = front ++ a :: behind → emit step s front = .ok (entries,t) →
    good t a

theorem emit_front_cons {s u t : σ} {a : α} {front : List α} {out : List β}
    {entries : List (List β)} (hstep : step s a = .ok (out,u))
    (hfront : emit step u front = .ok (entries,t)) :
    emit step s (a :: front) = .ok (out :: entries,t) :=
  emit_cons_ok.mpr ⟨out,u,entries,hstep,hfront,rfl⟩

theorem throughout_nil {good : σ → α → Prop} (s : σ) : Throughout step good s [] := by
  intro front a behind entries t hsplit
  simp at hsplit

theorem Throughout.head {good : σ → α → Prop} {s : σ} {a : α} {as : List α}
    (h : Throughout step good s (a :: as)) : good s a := h [] a as [] s rfl rfl

theorem throughout_cons {good : σ → α → Prop} {s u : σ} {a : α} {as : List α} {out : List β}
    (hstep : step s a = .ok (out,u)) :
    Throughout step good s (a :: as) ↔ good s a ∧ Throughout step good u as := by
  constructor
  · intro h
    refine ⟨h.head,fun front b behind entries t hsplit hfront => ?_⟩
    exact h (a :: front) b behind (out :: entries) t (congrArg (a :: ·) hsplit)
      (emit_front_cons hstep hfront)
  · rintro ⟨hgood,hrest⟩ front b behind entries t hsplit hfront
    cases front with
    | nil =>
      obtain ⟨rfl,-⟩ := List.cons.inj hsplit
      obtain ⟨-,rfl⟩ := Prod.mk.inj (Except.ok.inj hfront)
      exact hgood
    | cons c front =>
      obtain ⟨rfl,htail⟩ := List.cons.inj hsplit
      obtain ⟨out',v,x,hout,hfront,rfl⟩ := emit_cons_ok.mp hfront
      rw [hstep] at hout
      obtain ⟨rfl,rfl⟩ := Prod.mk.inj (Except.ok.inj hout)
      exact hrest front b behind x t htail hfront

/-- Behind an input that fails there is nothing to ask for. -/
theorem throughout_cons_error {good : σ → α → Prop} {s : σ} {a : α} {as : List α} {e : ε}
    (hstep : step s a = .error e) : Throughout step good s (a :: as) ↔ good s a := by
  refine ⟨Throughout.head,fun hgood front b behind entries t hsplit hfront => ?_⟩
  cases front with
  | nil =>
    obtain ⟨rfl,-⟩ := List.cons.inj hsplit
    obtain ⟨-,rfl⟩ := Prod.mk.inj (Except.ok.inj hfront)
    exact hgood
  | cons c front =>
    obtain ⟨rfl,-⟩ := List.cons.inj hsplit
    obtain ⟨out,u,rest,hout,-,-⟩ := emit_cons_ok.mp hfront
    rw [hstep] at hout
    cases hout

section Lockstep

variable {τ γ : Type*} {step' : τ → α → Except ε (List γ × τ)}

/-- The second stream emits the image of the first one exactly when every step is good, where
a good step is mirrored and another one emits as many outputs but not the same. -/
theorem emit_image_iff (f : β → γ) (φ : σ → τ) {good : σ → α → Prop} {s t : σ} {as : List α}
    {entries : List (List β)} (hrun : emit step s as = .ok (entries,t))
    (hgood : Throughout step (fun u a => good u a → ∀ out v, step u a = .ok (out,v) →
      step' (φ u) a = .ok (out.map f,φ v)) s as)
    (hbad : Throughout step (fun u a => ¬ good u a → ∀ out v, step u a = .ok (out,v) →
      ∀ out' v', step' (φ u) a = .ok (out',v') → out'.length = out.length ∧ out' ≠ out.map f) s as) :
    (∃ entries' t', emit step' (φ s) as = .ok (entries',t') ∧
        entries'.flatten = entries.flatten.map f) ↔ Throughout step good s as := by
  induction as generalizing s entries with
  | nil =>
    obtain ⟨rfl,-⟩ := Prod.mk.inj (Except.ok.inj hrun)
    exact ⟨fun _ => throughout_nil s,fun _ => ⟨[],φ s,rfl,rfl⟩⟩
  | cons a as ih =>
    obtain ⟨out,u,rest,hstep,hrest,rfl⟩ := emit_cons_ok.mp hrun
    rw [throughout_cons hstep] at hgood hbad ⊢
    rw [← ih hrest hgood.2 hbad.2]
    by_cases hga : good s a
    · have hstep' := hgood.1 hga out u hstep
      constructor
      · rintro ⟨entries',t',hrun',heq⟩
        obtain ⟨out',u',rest',hout',hrest',rfl⟩ := emit_cons_ok.mp hrun'
        rw [hstep'] at hout'
        obtain ⟨rfl,rfl⟩ := Prod.mk.inj (Except.ok.inj hout')
        refine ⟨hga,rest',t',hrest',?_⟩
        simpa using heq
      · rintro ⟨-,rest',t',hrest',heq⟩
        exact ⟨out.map f :: rest',t',emit_front_cons hstep' hrest',by simp [heq]⟩
    · constructor
      · rintro ⟨entries',t',hrun',heq⟩
        obtain ⟨out',u',rest',hout',-,rfl⟩ := emit_cons_ok.mp hrun'
        obtain ⟨hlen,hne⟩ := hbad.1 hga out u hstep out' u' hout'
        rw [List.flatten_cons,List.flatten_cons,List.map_append] at heq
        exact absurd (List.append_inj heq (by simpa using hlen)).1 hne
      · rintro ⟨h,-⟩
        exact absurd h hga

end Lockstep

section Simulation

variable {τ : Type*} (exec : τ → β → τ) (meaning : τ → α → τ)

/-- The outputs of an input do what the input means. -/
def Agrees (step : σ → α → Except ε (List β × σ)) (s : σ) (t : τ) (a : α) : Prop :=
  ∃ out u, step s a = .ok (out,u) ∧ out.foldl exec t = meaning t a

/-- The outputs of every beginning of a stream do what its inputs mean. -/
def Simulates (step : σ → α → Except ε (List β × σ)) (s : σ) (t : τ) (as : List α) : Prop :=
  ∀ front behind, as = front ++ behind → ∃ entries u, emit step s front = .ok (entries,u) ∧
    entries.flatten.foldl exec t = front.foldl meaning t

variable {exec meaning}

theorem simulates_nil (s : σ) (t : τ) : Simulates exec meaning step s t [] := by
  intro front behind hsplit
  obtain ⟨rfl,-⟩ := List.append_eq_nil_iff.mp hsplit.symm
  exact ⟨[],s,rfl,rfl⟩

theorem simulates_cons {s u : σ} {t : τ} {a : α} {as : List α} {out : List β}
    (hstep : step s a = .ok (out,u)) (hout : out.foldl exec t = meaning t a) :
    Simulates exec meaning step s t (a :: as) ↔
      Simulates exec meaning step u (meaning t a) as := by
  constructor
  · intro h front behind hsplit
    obtain ⟨entries,v,hrun,heq⟩ := h (a :: front) behind (congrArg (a :: ·) hsplit)
    obtain ⟨out',u',rest,hout',hrest,rfl⟩ := emit_cons_ok.mp hrun
    rw [hstep] at hout'
    obtain ⟨rfl,rfl⟩ := Prod.mk.inj (Except.ok.inj hout')
    refine ⟨rest,v,hrest,?_⟩
    rwa [List.flatten_cons,List.foldl_append,hout] at heq
  · intro h front behind hsplit
    cases front with
    | nil => exact ⟨[],s,rfl,rfl⟩
    | cons b front =>
      obtain ⟨rfl,htail⟩ := List.cons.inj hsplit
      obtain ⟨rest,v,hrest,heq⟩ := h front behind htail
      refine ⟨out :: rest,v,emit_front_cons hstep hrest,?_⟩
      rw [List.flatten_cons,List.foldl_append,hout]
      exact heq

theorem Simulates.head {s : σ} {t : τ} {a : α} {as : List α}
    (h : Simulates exec meaning step s t (a :: as)) : Agrees exec meaning step s t a := by
  obtain ⟨entries,v,hrun,heq⟩ := h [a] as rfl
  obtain ⟨out,u,rest,hstep,hrest,rfl⟩ := emit_cons_ok.mp hrun
  obtain ⟨rfl,-⟩ := Prod.mk.inj (Except.ok.inj hrest)
  exact ⟨out,u,hstep,by simpa using heq⟩

/-- Every beginning of a stream does what it means exactly when every input is fine in the
states that it meets, where the two states stay coupled. -/
theorem simulates_iff {coupled : σ → τ → Prop} {fine : σ → τ → α → Prop} {s : σ} {t : τ}
    {as : List α} (hfine : ∀ a ∈ as, ∀ u v, coupled u v →
      (fine u v a ↔ Agrees exec meaning step u v a))
    (hcoupled : ∀ a ∈ as, ∀ u v out w, coupled u v → step u a = .ok (out,w) →
      out.foldl exec v = meaning v a → coupled w (meaning v a)) (h : coupled s t) :
    Simulates exec meaning step s t as ↔
      ∀ front a behind entries u, as = front ++ a :: behind → emit step s front = .ok (entries,u) →
        fine u (front.foldl meaning t) a := by
  induction as generalizing s t with
  | nil => exact ⟨fun _ front a behind _ _ hsplit => by simp at hsplit,fun _ => simulates_nil s t⟩
  | cons a as ih =>
    have hhere := hfine a List.mem_cons_self s t h
    have hlater := fun {u v} => @ih u v (fun b hb => hfine b (List.mem_cons_of_mem a hb))
      (fun b hb => hcoupled b (List.mem_cons_of_mem a hb))
    constructor
    · intro hsim front b behind entries u hsplit hfront
      obtain ⟨out,v,hstep,hout⟩ := hsim.head
      cases front with
      | nil =>
        obtain ⟨rfl,-⟩ := List.cons.inj hsplit
        obtain ⟨-,rfl⟩ := Prod.mk.inj (Except.ok.inj hfront)
        exact hhere.mpr ⟨out,v,hstep,hout⟩
      | cons c front =>
        obtain ⟨rfl,htail⟩ := List.cons.inj hsplit
        obtain ⟨out',v',rest,hout',hrest,rfl⟩ := emit_cons_ok.mp hfront
        have hnext := hcoupled a List.mem_cons_self s t out' v' h hout'
        rw [hstep] at hout'
        obtain ⟨rfl,rfl⟩ := Prod.mk.inj (Except.ok.inj hout')
        exact (hlater (hnext hout)).mp ((simulates_cons hstep hout).mp hsim) front b behind rest u
          htail hrest
    · intro hall
      obtain ⟨out,v,hstep,hout⟩ := hhere.mp (hall [] a as [] s rfl rfl)
      rw [simulates_cons hstep hout]
      refine (hlater (hcoupled a List.mem_cons_self s t out v h hstep hout)).mpr ?_
      intro front b behind entries u hsplit hfront
      exact hall (a :: front) b behind (out :: entries) u (congrArg (a :: ·) hsplit)
        (emit_front_cons hstep hfront)

end Simulation

end Emitter
end DockyardRL
