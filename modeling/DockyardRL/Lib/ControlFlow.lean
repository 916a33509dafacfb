import Mathlib.Tactic.Common
import Mathlib.Data.List.Basic

/-! Loops over a range that are left early: before a round when they are done, within a round by a
`break`, or by an exception.

Programs of operations that may fail and may be cut off between any two of them.

Programs over a state that may end in an exception, which keeps the state that was reached: loops,
cleanups that run however a body ends, and what follows a yield, which an exception skips. -/
namespace DockyardRL
namespace BreakLoop

variable {σ ε γ δ : Type*} (done : σ → Bool) (body : σ → Except ε (σ × Bool))

/-- At most so many rounds. A round returns its state and whether it breaks. -/
def loop : ℕ → σ → Except ε σ
  | 0, s => .ok s
  | n + 1, s =>
    if done s then .ok s
    else (body s).bind fun next => if next.2 then .ok next.1 else loop n next.1

/-- The states in which a round starts, also of a loop that raises. -/
def entered : ℕ → σ → List σ
  | 0, _ => []
  | n + 1, s =>
    if done s then []
    else s :: match body s with
      | .ok (s',false) => entered n s'
      | _ => []

variable {done body}

/-- A round that goes on keeps the invariant, so every round starts with it. -/
theorem forall_entered {Inv : σ → Prop} (hbody : ∀ s s', done s = false → Inv s →
    body s = .ok (s',false) → Inv s') (n : ℕ) {s : σ} (h : Inv s) :
    ∀ t ∈ entered done body n s, done t = false ∧ Inv t := by
  induction n generalizing s with
  | zero => exact fun t ht => absurd ht List.not_mem_nil
  | succ n ih =>
    intro t ht
    rw [entered] at ht
    split_ifs at ht with hdone
    · cases ht
    · have hdone' := Bool.eq_false_iff.mpr hdone
      rcases List.mem_cons.mp ht with rfl | ht
      · exact ⟨hdone',h⟩
      · split at ht
        · rename_i s' hstep
          exact ih (hbody s s' hdone' h hstep) t ht
        · cases ht

/-- The loop ends with the invariant, or in a round that breaks. -/
theorem loop_ends {Inv : σ → Prop} (hbody : ∀ s s', done s = false → Inv s →
    body s = .ok (s',false) → Inv s') {n : ℕ} {s final : σ} (h : Inv s)
    (hloop : loop done body n s = .ok final) :
    Inv final ∨ ∃ t, done t = false ∧ Inv t ∧ body t = .ok (final,true) := by
  induction n generalizing s with
  | zero => exact .inl (Except.ok.inj hloop ▸ h)
  | succ n ih =>
    rw [loop] at hloop
    split_ifs at hloop with hdone
    · exact .inl (Except.ok.inj hloop ▸ h)
    · have hdone' := Bool.eq_false_iff.mpr hdone
      cases hstep : body s with
      | error e =>
        rw [hstep] at hloop
        cases hloop
      | ok next =>
        obtain ⟨s',breaks⟩ := next
        rw [hstep] at hloop
        cases breaks with
        | true => exact .inr ⟨s,hdone',h,hstep.trans (congrArg (fun t => Except.ok (t,true)) (Except.ok.inj hloop))⟩
        | false => exact ih (hbody s s' hdone' h hstep) hloop

/-- What each round gains adds up. -/
theorem loop_gains {acc : σ → γ} {gain : σ → Option δ} {add : γ → δ → γ}
    (hbody : ∀ s s' breaks, body s = .ok (s',breaks) →
      acc s' = (gain s).toList.foldl add (acc s)) {n : ℕ} {s final : σ}
    (hloop : loop done body n s = .ok final) :
    acc final = ((entered done body n s).filterMap gain).foldl add (acc s) := by
  induction n generalizing s with
  | zero => exact Except.ok.inj hloop ▸ rfl
  | succ n ih =>
    rw [loop] at hloop
    rw [entered]
    split_ifs at hloop ⊢ with hdone
    · exact Except.ok.inj hloop ▸ rfl
    · have hcons : ∀ rest : List σ, ((s :: rest).filterMap gain).foldl add (acc s) =
          (rest.filterMap gain).foldl add ((gain s).toList.foldl add (acc s)) := by
        intro rest
        rw [List.filterMap_cons]
        cases gain s <;> rfl
      cases hstep : body s with
      | error e =>
        rw [hstep] at hloop
        cases hloop
      | ok next =>
        obtain ⟨s',breaks⟩ := next
        rw [hstep] at hloop
        rw [hcons,← hbody s s' breaks hstep]
        cases breaks with
        | true => exact Except.ok.inj hloop ▸ rfl
        | false => exact ih hloop

end BreakLoop

namespace Interrupted

/-- Operations one after the other; a program can look at the state in between. -/
inductive Program (σ ω : Type*)
  | done
  | act (op : ω) (rest : Program σ ω)
  | look (next : σ → Program σ ω)

namespace Program

variable {σ ω ε : Type*}

def seq : Program σ ω → Program σ ω → Program σ ω
  | .done,q => q
  | .act op rest,q => .act op (rest.seq q)
  | .look next,q => .look fun s => (next s).seq q

def ops : List ω → Program σ ω
  | [] => .done
  | op :: rest => .act op (ops rest)

section Runs

variable (perform : ω → σ → Except ε σ)

/-- The states after each operation, up to the first that fails. -/
def trace : Program σ ω → σ → List σ
  | .done,_ => []
  | .act op rest,s =>
    match perform op s with
    | .error _ => []
    | .ok s' => s' :: trace rest s'
  | .look next,s => trace (next s) s

def finish : Program σ ω → σ → Except ε σ
  | .done,s => .ok s
  | .act op rest,s =>
    match perform op s with
    | .error e => .error e
    | .ok s' => finish rest s'
  | .look next,s => finish (next s) s

/-- A run that nothing cuts off passes through some states and ends. -/
structure Completes (p : Program σ ω) (s : σ) (states : List σ) (s' : σ) : Prop where
  trace : p.trace perform s = states
  finish : p.finish perform s = .ok s'

end Runs

namespace Completes

variable {perform : ω → σ → Except ε σ}

theorem done (s : σ) : Completes perform .done s [] s := ⟨rfl,rfl⟩

theorem act {op : ω} {rest : Program σ ω} {s s₁ s' : σ} {states : List σ}
    (hop : perform op s = .ok s₁) (h : Completes perform rest s₁ states s') :
    Completes perform (.act op rest) s (s₁ :: states) s' := by
  constructor
  · rw [Program.trace,hop]
    exact congrArg _ h.trace
  · rw [Program.finish,hop]
    exact h.finish

theorem look {next : σ → Program σ ω} {s s' : σ} {states : List σ}
    (h : Completes perform (next s) s states s') : Completes perform (.look next) s states s' :=
  ⟨h.trace,h.finish⟩

theorem seq {p q : Program σ ω} {s s₁ s' : σ} {states states' : List σ}
    (hp : Completes perform p s states s₁) (hq : Completes perform q s₁ states' s') :
    Completes perform (p.seq q) s (states ++ states') s' := by
  induction p generalizing s states with
  | done =>
    obtain ⟨rfl,hfinish⟩ := hp
    obtain rfl := Except.ok.inj hfinish
    exact hq
  | act op rest ih =>
    obtain ⟨htrace,hfinish⟩ := hp
    rw [Program.trace] at htrace
    rw [Program.finish] at hfinish
    cases hop : perform op s with
    | error e =>
      rw [hop] at hfinish
      cases hfinish
    | ok s₂ =>
      rw [hop] at htrace hfinish
      subst htrace
      exact act hop (ih ⟨rfl,hfinish⟩)
  | look next ih => exact look (ih s ⟨hp.trace,hp.finish⟩)

/-- The states of a program, of which the first part is not cut off. -/
theorem trace_seq {p q : Program σ ω} {s s₁ : σ} {states : List σ}
    (hp : Completes perform p s states s₁) :
    (p.seq q).trace perform s = states ++ q.trace perform s₁ := by
  induction p generalizing s states with
  | done =>
    obtain ⟨rfl,hfinish⟩ := hp
    obtain rfl := Except.ok.inj hfinish
    rfl
  | act op rest ih =>
    obtain ⟨htrace,hfinish⟩ := hp
    rw [Program.trace] at htrace
    rw [Program.finish] at hfinish
    rw [Program.seq,Program.trace]
    cases hop : perform op s with
    | error e =>
      rw [hop] at hfinish
      cases hfinish
    | ok s₂ =>
      rw [hop] at htrace hfinish
      subst htrace
      exact congrArg _ (ih ⟨rfl,hfinish⟩)
  | look next ih => exact ih s ⟨hp.trace,hp.finish⟩

/-- The last state passed is the one at the end. -/
theorem getLastD {p : Program σ ω} {s s' : σ} {states : List σ}
    (h : Completes perform p s states s') : states.getLastD s = s' := by
  induction p generalizing s states with
  | done =>
    obtain ⟨rfl,hfinish⟩ := h
    exact Except.ok.inj hfinish
  | act op rest ih =>
    obtain ⟨htrace,hfinish⟩ := h
    rw [Program.trace] at htrace
    rw [Program.finish] at hfinish
    cases hop : perform op s with
    | error e =>
      rw [hop] at hfinish
      cases hfinish
    | ok s₁ =>
      rw [hop] at htrace hfinish
      subst htrace
      rw [List.getLastD_cons]
      exact ih ⟨rfl,hfinish⟩
  | look next ih => exact ih s ⟨h.trace,h.finish⟩

end Completes

def cut (after : Option ℕ) (states : List σ) : List σ := (after.map states.take).getD states

theorem cut_initial (after : Option ℕ) (states : List σ) : cut after states <+: states := by
  cases after with
  | none => exact List.prefix_rfl
  | some k => exact List.take_prefix k states

theorem getLastD_append (l l' : List σ) (s : σ) :
    (l ++ l').getLastD s = l'.getLastD (l.getLastD s) := by
  induction l generalizing s with
  | nil => rfl
  | cons x l ih => rw [List.cons_append,List.getLastD_cons,List.getLastD_cons,ih]

/-- States related from one to the next, and on from the last. -/
theorem isChain_append {R : σ → σ → Prop} {s : σ} {l l' : List σ} (h : (s :: l).IsChain R)
    (h' : (l.getLastD s :: l').IsChain R) : (s :: (l ++ l')).IsChain R := by
  induction l generalizing s with
  | nil => exact h'
  | cons x l ih =>
    rw [List.getLastD_cons] at h'
    obtain ⟨hx,hrest⟩ := List.isChain_cons_cons.mp h
    exact List.isChain_cons_cons.mpr ⟨hx,ih hrest h'⟩

end Program
end Interrupted

namespace Managed

/-- From a state to the state in which a program ends, and how it ends. -/
abbrev Run (σ ε α : Type) : Type := σ → σ × Except ε α

variable {σ ε α β τ : Type}

def outcome : Option ε → Except ε Unit
  | none => .ok ()
  | some e => .error e

def modify (f : σ → σ) : Run σ ε Unit := fun s => (f s,.ok ())

def check (e : Option ε) : Run σ ε Unit := fun s => (s,outcome e)

def andThen (x : Run σ ε α) (f : α → Run σ ε β) : Run σ ε β := fun s =>
  match x s with
  | (t,.ok a) => f a t
  | (t,.error e) => (t,.error e)

def forEach (f : α → Run σ ε Unit) : List α → Run σ ε Unit
  | [] => check none
  | x :: l => andThen (f x) fun _ => forEach f l

/-- `try: body finally: cleanup`. -/
def tryFinally (body : Run σ ε α) (cleanup : σ → σ) : Run σ ε α := fun s =>
  (cleanup (body s).1,(body s).2)

def underYield (body : Run σ ε α) (exit : σ → σ) : Run σ ε α := fun s =>
  match body s with
  | (t,.ok a) => (exit t,.ok a)
  | (t,.error e) => (t,.error e)

def upToError (err : α → Option ε) : List α → List α
  | [] => []
  | x :: l => x :: if (err x).isSome then [] else upToError err l

/-- A loop over elements whose effects and exceptions are known. -/
theorem forEach_eq {f : α → Run σ ε Unit} {effect : σ → α → σ} {err : α → Option ε}
    (h : ∀ x s, f x s = (effect s x,outcome (err x))) (l : List α) (s : σ) :
    forEach f l s = ((upToError err l).foldl effect s,outcome (l.findSome? err)) := by
  induction l generalizing s with
  | nil => rfl
  | cons x l ih =>
    rw [forEach,andThen,h x s,upToError,List.foldl_cons]
    cases hx : err x with
    | none =>
      rw [List.findSome?_cons_of_isNone (by rw [hx]; rfl)]
      exact ih _
    | some e =>
      rw [List.findSome?_cons_of_isSome (by rw [hx]; rfl),hx]
      rfl

/-- A loop in which nothing raises is run to its end. -/
theorem upToError_eq_self {err : α → Option ε} {l : List α} (h : l.findSome? err = none) :
    upToError err l = l := by
  induction l with
  | nil => rfl
  | cons x l ih =>
    have hx : err x = none := List.findSome?_eq_none_iff.mp h x List.mem_cons_self
    rw [List.findSome?_cons_of_isNone (by rw [hx]; rfl)] at h
    rw [upToError,hx,ih h]
    rfl

end Managed
end DockyardRL
