import Mathlib.Algebra.BigOperators.Fin
import Mathlib.Algebra.Order.BigOperators.Group.Finset
import Mathlib.Data.List.OfFn
import Mathlib.Logic.Function.Basic
import Mathlib.Logic.Relation
import Mathlib.Tactic.Common

/-! Programs of several participants that meet in all-gathers and have effects in between. A gather is
over when every participant has come to it; the effects of different participants interleave in any
order. Participants in lockstep never wait in vain, and each one's effects are its own in every run. -/
namespace DockyardRL
namespace Collective

/-- What one participant is to do: effects, gathers to which it gives an object and from which it gets
the objects of all in rank order, and what it returns. -/
inductive Program (M E R : Type)
  | done (result : R)
  | emit (effect : E) (next : Program M E R)
  | gather (object : M) (next : List M → Program M E R)

/-- All participants, the effects so far with the rank each is of, and the gathers so far. -/
structure State (n : ℕ) (M E R : Type) where
  programs : Fin n → Program M E R
  effects : List (Fin n × E)
  gathers : ℕ

variable {n : ℕ} {M E R : Type}

/-- One participant has its next effect, or all of them, come to a gather, leave it together. -/
inductive Step : State n M E R → State n M E R → Prop
  | emit {s : State n M E R} {r : Fin n} {effect : E} {next : Program M E R}
      (h : s.programs r = .emit effect next) :
      Step s ⟨Function.update s.programs r next,s.effects ++ [(r,effect)],s.gathers⟩
  | gather {s : State n M E R} {object : Fin n → M} {next : Fin n → List M → Program M E R}
      (h : ∀ r, s.programs r = .gather (object r) (next r)) :
      Step s ⟨fun r => next r (List.ofFn object),s.effects,s.gathers + 1⟩

/-- The states that can come after one. -/
abbrev Reaches : State n M E R → State n M E R → Prop := Relation.ReflTransGen Step

def start (programs : Fin n → Program M E R) : State n M E R := ⟨programs,[],0⟩

/-- Every participant has returned its result. -/
def State.Finished (s : State n M E R) (results : Fin n → R) : Prop :=
  ∀ r, s.programs r = .done (results r)

def State.effectsOf (s : State n M E R) (r : Fin n) : List E :=
  (s.effects.filter fun entry => entry.1 = r).map Prod.snd

def emits (effects : List E) (p : Program M E R) : Program M E R := effects.foldr .emit p

@[simp] theorem emits_nil (p : Program M E R) : emits [] p = p := rfl

@[simp] theorem emits_cons (effect : E) (effects : List E) (p : Program M E R) :
    emits (effect :: effects) p = .emit effect (emits effects p) := rfl

/-- Participants that come to `count` gathers together, with the effects and the result of each. -/
inductive Lockstep : (Fin n → Program M E R) → ℕ → (Fin n → List E) → (Fin n → R) → Prop
  | done (effects : Fin n → List E) (results : Fin n → R) :
      Lockstep (fun r => emits (effects r) (.done (results r))) 0 effects results
  | round {before effects : Fin n → List E} {object : Fin n → M}
      {next : Fin n → List M → Program M E R} {count : ℕ} {results : Fin n → R}
      (h : Lockstep (fun r => next r (List.ofFn object)) count effects results) :
      Lockstep (fun r => emits (before r) (.gather (object r) (next r))) (count + 1)
        (fun r => before r ++ effects r) results

theorem Lockstep.of_eq {p q : Fin n → Program M E R} {count : ℕ} {effects effects' : Fin n → List E}
    {results : Fin n → R} (h : Lockstep q count effects' results) (hp : p = q)
    (heffects : effects = effects') : Lockstep p count effects results := by
  subst hp heffects
  exact h

/-- Participants that have no effect in front of their gather. -/
theorem Lockstep.gather {effects : Fin n → List E} {object : Fin n → M}
    {next : Fin n → List M → Program M E R} {count : ℕ} {results : Fin n → R}
    (h : Lockstep (fun r => next r (List.ofFn object)) count effects results) :
    Lockstep (fun r => .gather (object r) (next r)) (count + 1) effects results :=
  (@Lockstep.round n M E R (fun _ => []) _ _ _ _ _ h).of_eq rfl rfl

/-- Effects in front of participants in lockstep. -/
theorem Lockstep.prepend {programs : Fin n → Program M E R} {count : ℕ} {effects : Fin n → List E}
    {results : Fin n → R} (h : Lockstep programs count effects results) (front : Fin n → List E) :
    Lockstep (fun r => emits (front r) (programs r)) count (fun r => front r ++ effects r) results := by
  have happend : ∀ (a b : List E) (p : Program M E R),
      emits a (emits b p) = emits (a ++ b) p := fun a b p =>
    (List.foldr_append).symm
  cases h with
  | done =>
    refine (Lockstep.done (fun r => front r ++ effects r) results).of_eq ?_ rfl
    funext r
    exact happend _ _ _
  | @round before effects object next count results h =>
    refine (@Lockstep.round n M E R (fun r => front r ++ before r) _ _ _ _ _ h).of_eq ?_ ?_
    · funext r
      exact happend _ _ _
    · funext r
      exact (List.append_assoc _ _ _).symm

theorem emit_of_emits {effects : List E} {p : Program M E R} {effect : E} {next : Program M E R}
    (h : emits effects p = .emit effect next) (hp : ∀ e q, p ≠ .emit e q) :
    ∃ rest, effects = effect :: rest ∧ next = emits rest p := by
  cases effects with
  | nil => exact absurd h (hp _ _)
  | cons e rest =>
    obtain ⟨rfl,rfl⟩ := Program.emit.inj h
    exact ⟨rest,rfl,rfl⟩

theorem Lockstep.after_emit {programs : Fin n → Program M E R} {count : ℕ}
    {effects : Fin n → List E} {results : Fin n → R} (h : Lockstep programs count effects results)
    {r : Fin n} {effect : E} {next : Program M E R} (hr : programs r = .emit effect next) :
    ∃ rest, effects r = effect :: rest ∧
      Lockstep (Function.update programs r next) count (Function.update effects r rest) results := by
  cases h with
  | done =>
    obtain ⟨rest,heffects,rfl⟩ := emit_of_emits hr fun e q heq => by cases heq
    refine ⟨rest,heffects,(Lockstep.done (Function.update effects r rest) results).of_eq ?_ rfl⟩
    funext q
    by_cases hq : q = r
    · subst hq
      rw [Function.update_self,Function.update_self]
    · rw [Function.update_of_ne hq,Function.update_of_ne hq]
  | @round before effects object nextOf count results h =>
    obtain ⟨rest,hbefore,rfl⟩ := emit_of_emits hr fun e q heq => by cases heq
    refine ⟨rest ++ effects r,by dsimp only; rw [hbefore]; rfl,
      (@Lockstep.round n M E R (Function.update before r rest) _ _ _ _ _ h).of_eq ?_ ?_⟩
    all_goals
      funext q
      by_cases hq : q = r
      · subst hq
        simp only [Function.update_self]
      · simp only [Function.update_of_ne hq]

theorem Lockstep.after_gather (hn : 0 < n) {programs : Fin n → Program M E R} {count : ℕ}
    {effects : Fin n → List E} {results : Fin n → R} (h : Lockstep programs count effects results)
    {object : Fin n → M} {next : Fin n → List M → Program M E R}
    (hall : ∀ r, programs r = .gather (object r) (next r)) :
    ∃ left, count = left + 1 ∧
      Lockstep (fun r => next r (List.ofFn object)) left effects results := by
  have hnone : ∀ {before : List E} {p q : Program M E R}, emits before p = q →
      (∀ e q', q ≠ .emit e q') → before = [] ∧ p = q := by
    intro before p q heq hq
    cases before with
    | nil => exact ⟨rfl,heq⟩
    | cons e before => exact absurd heq.symm (hq _ _)
  cases h with
  | done =>
    obtain ⟨-,hdone⟩ := hnone (hall ⟨0,hn⟩) fun e q heq => by cases heq
    cases hdone
  | @round before effects object' next' count results h =>
    have hsame : ∀ r, before r = [] ∧ object' r = object r ∧ next' r = next r := fun r => by
      obtain ⟨hbefore,hgather⟩ := hnone (hall r) fun e q heq => by cases heq
      obtain ⟨hobject,hnext⟩ := Program.gather.inj hgather
      exact ⟨hbefore,hobject,hnext⟩
    obtain rfl : object' = object := funext fun r => (hsame r).2.1
    obtain rfl : next' = next := funext fun r => (hsame r).2.2
    refine ⟨count,rfl,h.of_eq rfl (funext fun r => ?_)⟩
    rw [(hsame r).1,List.nil_append]

theorem Lockstep.progress {s : State n M E R} {count : ℕ} {effects : Fin n → List E}
    {results : Fin n → R} (h : Lockstep s.programs count effects results) :
    s.Finished results ∨ ∃ s', Step s s' := by
  by_cases hemit : ∃ r effect next, s.programs r = .emit effect next
  · obtain ⟨r,effect,next,hr⟩ := hemit
    exact .inr ⟨_,.emit hr⟩
  · push Not at hemit
    have hnil : ∀ (effects : List E) (p : Program M E R) (r : Fin n),
        s.programs r = emits effects p → s.programs r = p := by
      intro effects p r hr
      cases effects with
      | nil => exact hr
      | cons e rest => exact absurd hr (hemit r e _)
    obtain ⟨programs,trace,gathers⟩ := s
    cases h with
    | done => exact .inl fun r => hnil _ _ r rfl
    | round h => exact .inr ⟨_,.gather fun r => hnil _ _ r rfl⟩

/-- What holds between the start and a state of a run: the participants are still in lockstep, and what
each has done and has yet to do is what it was to do. -/
structure Underway (s : State n M E R) (count : ℕ) (effects : Fin n → List E) (results : Fin n → R)
    (gathersLeft : ℕ) (effectsLeft : Fin n → List E) : Prop where
  lockstep : Lockstep s.programs gathersLeft effectsLeft results
  gathers : s.gathers + gathersLeft = count
  effects : ∀ r, s.effectsOf r ++ effectsLeft r = effects r

theorem Underway.step (hn : 0 < n) {s s' : State n M E R} {count : ℕ} {effects : Fin n → List E}
    {results : Fin n → R} {gathersLeft : ℕ} {effectsLeft : Fin n → List E}
    (h : Underway s count effects results gathersLeft effectsLeft) (hstep : Step s s') :
    ∃ gathersLeft' effectsLeft', Underway s' count effects results gathersLeft' effectsLeft' ∧
      gathersLeft' + ∑ r, (effectsLeft' r).length <
        gathersLeft + ∑ r, (effectsLeft r).length := by
  cases hstep with
  | @emit r effect next hr =>
    obtain ⟨rest,hrest,hlockstep⟩ := h.lockstep.after_emit hr
    refine ⟨gathersLeft,_,⟨hlockstep,h.gathers,fun q => ?_⟩,?_⟩
    · have heffects := h.effects q
      unfold State.effectsOf at heffects ⊢
      by_cases hq : q = r
      · subst hq
        rw [hrest] at heffects
        simpa using heffects
      · simpa [Function.update_of_ne hq,Ne.symm hq] using heffects
    · refine Nat.add_lt_add_left ?_ _
      refine Finset.sum_lt_sum (fun q _ => ?_) ⟨r,Finset.mem_univ r,?_⟩
      · by_cases hq : q = r
        · subst hq
          simp [hrest]
        · rw [Function.update_of_ne hq]
      · simp [hrest]
  | gather hall =>
    obtain ⟨left,rfl,hlockstep⟩ := h.lockstep.after_gather hn hall
    refine ⟨left,effectsLeft,⟨hlockstep,?_,h.effects⟩,by omega⟩
    have hgathers := h.gathers
    dsimp only
    omega

variable {programs : Fin n → Program M E R} {count : ℕ} {effects : Fin n → List E}
  {results : Fin n → R}

theorem Lockstep.underway (hn : 0 < n) (h : Lockstep programs count effects results)
    {s : State n M E R} (hs : Reaches (start programs) s) :
    ∃ gathersLeft effectsLeft, Underway s count effects results gathersLeft effectsLeft := by
  induction hs with
  | refl => exact ⟨count,effects,h,Nat.zero_add count,fun r => rfl⟩
  | tail _ hstep ih =>
    obtain ⟨gathersLeft,effectsLeft,hunder⟩ := ih
    obtain ⟨gathersLeft',effectsLeft',hnext,-⟩ := hunder.step hn hstep
    exact ⟨gathersLeft',effectsLeft',hnext⟩

theorem Underway.completes (hn : 0 < n) {s : State n M E R} {gathersLeft : ℕ}
    {effectsLeft : Fin n → List E}
    (h : Underway s count effects results gathersLeft effectsLeft) :
    ∃ s', Reaches s s' ∧ s'.Finished results := by
  induction hm : gathersLeft + ∑ r, (effectsLeft r).length using
    Nat.strong_induction_on generalizing s gathersLeft effectsLeft with
  | _ m ih =>
    subst hm
    rcases h.lockstep.progress with hfinished | ⟨s',hstep⟩
    · exact ⟨s,.refl,hfinished⟩
    · obtain ⟨gathersLeft',effectsLeft',hnext,hlt⟩ := h.step hn hstep
      obtain ⟨s'',hreach,hfinished⟩ := ih _ hlt hnext rfl
      exact ⟨s'',.head hstep hreach,hfinished⟩

theorem Lockstep.completes (hn : 0 < n) (h : Lockstep programs count effects results)
    {s : State n M E R} (hs : Reaches (start programs) s) :
    ∃ s', Reaches s s' ∧ s'.Finished results := by
  obtain ⟨gathersLeft,effectsLeft,hunder⟩ := h.underway hn hs
  exact hunder.completes hn

/-- Participants that have returned have come to all gathers and have had all their effects. -/
theorem Lockstep.finished (hn : 0 < n) (h : Lockstep programs count effects results)
    {s : State n M E R} (hs : Reaches (start programs) s) {results' : Fin n → R}
    (hfinished : s.Finished results') :
    s.gathers = count ∧ ∀ r, s.effectsOf r = effects r := by
  obtain ⟨gathersLeft,effectsLeft,hunder⟩ := h.underway hn hs
  have hdone : ∀ {before : List E} {p : Program M E R} {r : Fin n},
      emits before p = .done (results' r) → before = [] ∧ p = .done (results' r) := by
    intro before p r heq
    cases before with
    | nil => exact ⟨rfl,heq⟩
    | cons e before => cases heq
  obtain ⟨hlockstep,hgathers,heffects⟩ := hunder
  obtain ⟨programs',trace,gathers⟩ := s
  cases hlockstep with
  | done =>
    refine ⟨hgathers,fun r => ?_⟩
    rw [← heffects r,(hdone (hfinished r)).1,List.append_nil]
  | round h' =>
    obtain ⟨-,hgather⟩ := hdone (hfinished ⟨0,hn⟩)
    cases hgather

/-- Effects of a kind that only one participant has are in its order. -/
theorem filter_effects {s : State n M E R} {P : E → Bool} {r : Fin n}
    (h : ∀ q, q ≠ r → ∀ effect ∈ s.effectsOf q, P effect = false) :
    (s.effects.map Prod.snd).filter P = (s.effectsOf r).filter P := by
  unfold State.effectsOf at h ⊢
  generalize s.effects = trace at h ⊢
  induction trace with
  | nil => rfl
  | cons entry trace ih =>
    have hrest : ∀ q, q ≠ r → ∀ effect ∈ (trace.filter fun entry => entry.1 = q).map Prod.snd,
        P effect = false := by
      intro q hq effect hmem
      refine h q hq effect ?_
      obtain ⟨entry',hentry,rfl⟩ := List.mem_map.mp hmem
      refine List.mem_map_of_mem (List.mem_filter.mpr ⟨?_,(List.mem_filter.mp hentry).2⟩)
      exact List.mem_cons_of_mem _ (List.mem_filter.mp hentry).1
    by_cases hq : entry.1 = r
    · rw [List.map_cons,List.filter_cons,ih hrest,List.filter_cons_of_pos (by simpa using hq),
        List.map_cons,List.filter_cons]
    · have hfalse : P entry.2 = false := by
        refine h entry.1 hq entry.2 (List.mem_map_of_mem (List.mem_filter.mpr ⟨List.mem_cons_self,?_⟩))
        exact decide_eq_true rfl
      rw [List.map_cons,List.filter_cons_of_neg (by simp [hfalse]),ih hrest,
        List.filter_cons_of_neg (by simpa using hq)]

end Collective
end DockyardRL
