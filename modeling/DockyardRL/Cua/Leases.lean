import DockyardRL.Lib.Transition
import Mathlib.Data.List.GetD
import Mathlib.Logic.Function.Basic
import Mathlib.Data.List.Perm.Basic
import Mathlib.Data.List.Nodup

/-! Desktops that are leased from a static pool, one for each sample of a rollout. The samples, and
the calls that shut the environment down, take their steps in any order.

When every desktop is returned. The leases, the registered episodes and the handles that a shutdown
still has to stop are read off for one sample; a step changes them for one sample at most. -/
namespace DockyardRL
namespace Cua
namespace Desktops

open Transition

/-- The hosts of the pool, and the turns a sample is given by the environment and by the rollout. -/
structure Setting (Host : Type) where
  hosts : List Host
  nodup_hosts : hosts.Nodup
  hosts_ne_nil : hosts ≠ []
  maxTurns : ℕ → ℕ
  maxRolloutTurns : ℕ

/-- Where a sample is, with the local variables that are still used. -/
inductive Sample (Host : Type)
  | checkProvisioner
  | buildProvisioner
  | readProvisioner
  | acquire (pool : ℕ)
  | setUp (host : Host)
  | store (host : Host)
  | observe
  | rollout (turn : ℕ)
  | lookUp (turn : ℕ) (truncated : Bool)
  | process (turn : ℕ) (truncated : Bool) (host : Host)
  | stop (host : Host)
  | drop
  | returned
deriving DecidableEq

/-- The provisioners that were built, `_provisioner` of the backend, `_episodes` of the environment
under the numbers of their samples, and the handles that a shutdown has still to stop. A lease is
listed from its acquisition to its first release. -/
structure State (Host : Type) where
  pools : List (List Host)
  provisioner : Option ℕ
  episodes : List (ℕ × Host)
  shutdowns : List (List (ℕ × Host))
  leases : List (ℕ × Host)
  samples : ℕ → Sample Host

/-- How the turn of a sample goes: `act`, `observe` or `evaluate` raises, the action is terminal, or
it is not, and the context may then overflow. -/
inductive Turn
  | raises
  | terminal
  | continues (overflow : Bool)
deriving DecidableEq

inductive Event
  | checkProvisioner (i : ℕ)
  | buildProvisioner (i : ℕ)
  | readProvisioner (i : ℕ)
  | acquire (i : ℕ)
  | acquireTimeout (i : ℕ)
  | setUp (i : ℕ)
  | setUpFails (i : ℕ)
  | store (i : ℕ)
  | observe (i : ℕ)
  | observeFails (i : ℕ)
  | generate (i : ℕ) (truncated : Bool)
  | generateFails (i : ℕ)
  | outOfTurns (i : ℕ)
  | lookUp (i : ℕ)
  | process (i : ℕ) (turn : Turn)
  | stop (i : ℕ)
  | drop (i : ℕ)
  | shutdown
  | shutdownStop (k : ℕ)
deriving DecidableEq

section Machine

variable {Host : Type}

namespace State

def pool (s : State Host) : List Host :=
  match s.provisioner with
  | none => []
  | some p => s.pools.getD p []

def pending (s : State Host) : List (ℕ × Host) := s.shutdowns.flatten

def move (s : State Host) (i : ℕ) (sample : Sample Host) : State Host :=
  { s with samples := Function.update s.samples i sample }

/-- `build_provisioner`, assigned to `_provisioner`. -/
def build (c : Setting Host) (s : State Host) : State Host :=
  { s with pools := s.pools ++ [c.hosts], provisioner := some s.pools.length }

/-- `self._pool.get`. -/
def acquire (s : State Host) (i p : ℕ) (host : Host) (rest : List Host) : State Host :=
  { s with pools := s.pools.set p rest, leases := (i,host) :: s.leases }

/-- `_get_provisioner().release(handle.lease)` at the end of `stop`. -/
def release (c : Setting Host) (s : State Host) (i : ℕ) (host : Host) : State Host :=
  match s.provisioner with
  | some p => { s with
      pools := s.pools.set p (s.pools.getD p [] ++ [host])
      leases := s.leases.filter (·.1 ≠ i) }
  | none => { s with
      pools := s.pools ++ [c.hosts ++ [host]]
      provisioner := some s.pools.length
      leases := s.leases.filter (·.1 ≠ i) }

def store (s : State Host) (i : ℕ) (host : Host) : State Host :=
  { s with episodes := s.episodes ++ [(i,host)] }

def drop (s : State Host) (i : ℕ) : State Host :=
  { s with episodes := s.episodes.filter (·.1 ≠ i) }

/-- `shutdown`, as far as it holds the lock. -/
def shutdown (s : State Host) : State Host :=
  { s with shutdowns := s.shutdowns ++ [s.episodes], episodes := [] }

end State

/-- Where a turn that was processed leads: to `stop`, or back to the loop, which is left when the
response was truncated or the context overflows. -/
def afterTurn (c : Setting Host) (i turn : ℕ) (truncated : Bool) (host : Host) :
    Turn → Sample Host
  | .raises => .stop host
  | .terminal => .stop host
  | .continues overflow =>
    if c.maxTurns i ≤ turn + 1 then .stop host
    else if truncated ∨ overflow then .returned
    else .rollout (turn + 1)

def step (c : Setting Host) (s : State Host) : Event → Option (State Host)
  | .checkProvisioner i => match s.samples i with
    | .checkProvisioner => some (s.move i
        (if s.provisioner = none then .buildProvisioner else .readProvisioner))
    | _ => none
  | .buildProvisioner i => match s.samples i with
    | .buildProvisioner => some ((s.build c).move i .readProvisioner)
    | _ => none
  | .readProvisioner i => match s.samples i,s.provisioner with
    | .readProvisioner,some p => some (s.move i (.acquire p))
    | _,_ => none
  | .acquire i => match s.samples i with
    | .acquire p => match s.pools.getD p [] with
      | host :: rest => some ((s.acquire i p host rest).move i (.setUp host))
      | [] => none
    | _ => none
  | .acquireTimeout i => match s.samples i with
    | .acquire p => if s.pools.getD p [] = [] then some (s.move i .returned) else none
    | _ => none
  | .setUp i => match s.samples i with
    | .setUp host => some (s.move i (.store host))
    | _ => none
  | .setUpFails i => match s.samples i with
    | .setUp _ => some (s.move i .returned)
    | _ => none
  | .store i => match s.samples i with
    | .store host => some ((s.store i host).move i .observe)
    | _ => none
  | .observe i => match s.samples i with
    | .observe => some (s.move i (.rollout 0))
    | _ => none
  | .observeFails i => match s.samples i with
    | .observe => some (s.move i .returned)
    | _ => none
  | .generate i truncated => match s.samples i with
    | .rollout turn =>
      if turn < c.maxRolloutTurns then some (s.move i (.lookUp turn truncated)) else none
    | _ => none
  | .generateFails i => match s.samples i with
    | .rollout turn => if turn < c.maxRolloutTurns then some (s.move i .returned) else none
    | _ => none
  | .outOfTurns i => match s.samples i with
    | .rollout turn => if turn < c.maxRolloutTurns then none else some (s.move i .returned)
    | _ => none
  | .lookUp i => match s.samples i with
    | .lookUp turn truncated => match s.episodes.find? (·.1 = i) with
      | some (_,host) => some (s.move i (.process turn truncated host))
      | none => some (s.move i .returned)
    | _ => none
  | .process i outcome => match s.samples i with
    | .process turn truncated host => some (s.move i (afterTurn c i turn truncated host outcome))
    | _ => none
  | .stop i => match s.samples i with
    | .stop host => some ((s.release c i host).move i .drop)
    | _ => none
  | .drop i => match s.samples i with
    | .drop => some ((s.drop i).move i .returned)
    | _ => none
  | .shutdown => some s.shutdown
  | .shutdownStop k => match s.shutdowns.getD k [] with
    | (i,host) :: rest =>
      some ({ s with shutdowns := s.shutdowns.set k rest }.release c i host)
    | [] => none

/-- Nothing is built, nothing is leased, and the samples are about to begin their episodes. -/
def initial : State Host := ⟨[],none,[],[],[],fun _ => .checkProvisioner⟩

def machine (c : Setting Host) : Machine (State Host) Event where
  init := fun s => s = initial
  step := step c

/-- Every desktop is leased to one sample at a time, and returned when that sample has returned. -/
structure LeasedOnce (c : Setting Host) (s : State Host) : Prop where
  exclusive : (s.leases.map Prod.snd).Nodup
  free : s.pool.Nodup
  back : s.provisioner ≠ none → ∀ host ∈ c.hosts, host ∈ s.pool ∨ host ∈ s.leases.map Prod.snd
  returned : ∀ i, s.samples i = .returned →
    i ∉ s.leases.map Prod.fst ∧ i ∉ s.episodes.map Prod.fst

end Machine

variable {Host : Type} {c : Setting Host} {s t : State Host} {i j : ℕ} {host : Host}

/-- The entries of the sample `i`. -/
def entries (i : ℕ) (l : List (ℕ × Host)) : List (ℕ × Host) := l.filter (·.1 = i)

theorem entries_append (l l' : List (ℕ × Host)) :
    entries i (l ++ l') = entries i l ++ entries i l' := List.filter_append _ _

theorem entries_self (l : List (ℕ × Host)) :
    entries i ((i,host) :: l) = (i,host) :: entries i l :=
  List.filter_cons_of_pos (by simp)

theorem entries_ne (h : j ≠ i) (l : List (ℕ × Host)) :
    entries j ((i,host) :: l) = entries j l :=
  List.filter_cons_of_neg (by simpa using h.symm)

theorem entries_without_self (l : List (ℕ × Host)) : entries i (l.filter (·.1 ≠ i)) = [] := by
  simp [entries,List.filter_filter]

theorem entries_without_ne (h : j ≠ i) (l : List (ℕ × Host)) :
    entries j (l.filter (·.1 ≠ i)) = entries j l := by
  rw [entries,List.filter_filter,entries]
  refine List.filter_congr fun x _ => ?_
  by_cases hx : x.1 = j <;> simp [hx,h]

theorem entries_eq_nil {l : List (ℕ × Host)} : entries i l = [] ↔ i ∉ l.map Prod.fst := by
  rw [entries,List.filter_eq_nil_iff,List.mem_map]
  simp only [decide_eq_true_eq,not_exists,not_and]

theorem find?_entries (l : List (ℕ × Host)) : l.find? (·.1 = i) = (entries i l).head? :=
  (List.head?_filter).symm

theorem perm_entries (l : List (ℕ × Host)) : (entries i l ++ l.filter (·.1 ≠ i)).Perm l := by
  have h := List.filter_append_perm (fun x : ℕ × Host => decide (x.1 = i)) l
  simpa [entries] using h

theorem flatten_set {l : List (List (ℕ × Host))} {k : ℕ} {x : ℕ × Host} {rest : List (ℕ × Host)}
    (h : l.getD k [] = x :: rest) : l.flatten.Perm (x :: (l.set k rest).flatten) := by
  induction l generalizing k with
  | nil => simp at h
  | cons y l ih =>
    cases k with
    | zero =>
      rw [List.getD_cons_zero] at h
      rw [h,List.set_cons_zero,List.flatten_cons,List.flatten_cons,List.cons_append]
    | succ k =>
      rw [List.getD_cons_succ] at h
      rw [List.set_cons_succ,List.flatten_cons,List.flatten_cons]
      exact ((ih h).append_left y).trans List.perm_middle

/-- The entries of a sample in the leases, in the registry and with the shutdowns. -/
structure Entries (Host : Type) where
  leases : List (ℕ × Host)
  episodes : List (ℕ × Host)
  pending : List (ℕ × Host)

def held (s : State Host) (i : ℕ) : Entries Host :=
  ⟨entries i s.leases,entries i s.episodes,entries i s.pending⟩

def nothing : Entries Host := ⟨[],[],[]⟩

/-- The lease is out and the handle is registered, or a shutdown has taken it, or has also
returned it. -/
def Kept (i : ℕ) (host : Host) (e : Entries Host) : Prop :=
  e = ⟨[(i,host)],[(i,host)],[]⟩ ∨ e = ⟨[(i,host)],[],[(i,host)]⟩ ∨ e = nothing

def Fits (i : ℕ) (e : Entries Host) : Sample Host → Prop
  | .checkProvisioner | .buildProvisioner | .readProvisioner | .acquire _ | .returned => e = nothing
  | .setUp host | .store host => e = ⟨[(i,host)],[],[]⟩
  | .observe | .rollout _ | .lookUp _ _ => ∃ host, Kept i host e
  | .process _ _ host | .stop host => Kept i host e
  | .drop => ∃ host, e = ⟨[],[(i,host)],[]⟩

theorem fits_pending {e : Entries Host} {sample : Sample Host} (h : Fits i e sample) :
    e.pending = [] ∨
      (∃ host, e = ⟨[(i,host)],[],[(i,host)]⟩) ∧ Fits i nothing sample := by
  have hkept : ∀ {host : Host}, Kept i host e →
      e.pending = [] ∨ (∃ host, e = ⟨[(i,host)],[],[(i,host)]⟩) ∧ ∀ other : Host, Kept i other nothing := by
    rintro host (rfl | rfl | rfl)
    · exact .inl rfl
    · exact .inr ⟨⟨host,rfl⟩,fun _ => .inr (.inr rfl)⟩
    · exact .inl rfl
  cases sample with
  | checkProvisioner | buildProvisioner | readProvisioner | returned | acquire _ | setUp _
  | store _ =>
    change e = _ at h
    exact .inl (h ▸ rfl)
  | observe | rollout _ | lookUp _ _ =>
    obtain ⟨host,hhost⟩ := h
    exact (hkept hhost).imp_right fun hboth => ⟨hboth.1,host,hboth.2 host⟩
  | process _ _ host | stop host =>
    exact (hkept h).imp_right fun hboth => ⟨hboth.1,hboth.2 host⟩
  | drop =>
    obtain ⟨host,rfl⟩ := h
    exact .inl rfl

theorem kept_found {l : List (ℕ × Host)} {found : ℕ} {leases pending : List (ℕ × Host)}
    (hkept : ∃ host, Kept i host ⟨leases,entries i l,pending⟩)
    (hfound : l.find? (·.1 = i) = some (found,host)) : Kept i host ⟨leases,entries i l,pending⟩ := by
  rw [find?_entries] at hfound
  obtain ⟨other,hcases⟩ := hkept
  rcases hcases with hheld | hheld | hheld
  · have hepisodes := (Entries.mk.inj hheld).2.1
    rw [hepisodes] at hfound
    obtain rfl : other = host := (Prod.mk.inj (Option.some.inj hfound)).2
    exact .inl hheld
  · rw [(Entries.mk.inj hheld).2.1] at hfound
    exact absurd hfound (Option.some_ne_none _).symm
  · exact .inr (.inr hheld)

/-- What the steps keep: the hosts are those of the pool and those that are leased. -/
structure Accounted (c : Setting Host) (s : State Host) : Prop where
  samples : ∀ i, Fits i (held s i) (s.samples i)
  unbuilt : s.provisioner = none → s.leases = []
  built : ∀ p, s.provisioner = some p → p < s.pools.length ∧
    (s.pools.getD p [] ++ s.leases.map Prod.snd).Perm c.hosts

/-- The handle is neither registered nor taken by a shutdown. -/
def Away (s : State Host) (i : ℕ) : Prop :=
  i ∉ s.episodes.map Prod.fst ∧ i ∉ s.pending.map Prod.fst

def awaitsCurrent (s : State Host) (i : ℕ) : Bool :=
  match s.samples i with
  | .acquire p => s.provisioner = some p
  | _ => true

def leavesLoop (c : Setting Host) (s : State Host) (i : ℕ) (outcome : Turn) : Bool :=
  match s.samples i,outcome with
  | .process turn truncated _,.continues overflow =>
    turn + 1 < c.maxTurns i && (truncated || overflow)
  | _,_ => false

/-- The steps after which every desktop is still returned exactly once: a pool is built while no
lease is out and leases are of that pool, no setup fails once a host is leased, a rollout is left when
the environment has stopped the episode or a shutdown is through with it, and no handle is stopped by
a shutdown and by a turn. -/
def clean (c : Setting Host) (s : State Host) : Event → Prop
  | .buildProvisioner _ => s.leases = []
  | .acquire i => awaitsCurrent s i = true
  | .setUpFails _ => False
  | .observeFails i | .generateFails i | .outOfTurns i => Away s i
  | .lookUp i => i ∉ s.pending.map Prod.fst
  | .process i outcome => leavesLoop c s i outcome = true → Away s i
  | .stop i => i ∈ s.episodes.map Prod.fst
  | .shutdown => ∀ i ∈ s.episodes.map Prod.fst, s.samples i ≠ .drop
  | _ => True

instance (s : State Host) (i : ℕ) : Decidable (Away s i) := inferInstanceAs (Decidable (_ ∧ _))

instance [DecidableEq Host] (c : Setting Host) (s : State Host) :
    (e : Event) → Decidable (clean c s e)
  | .buildProvisioner _ => inferInstanceAs (Decidable (s.leases = []))
  | .acquire i => inferInstanceAs (Decidable (awaitsCurrent s i = true))
  | .setUpFails _ => .isFalse id
  | .observeFails i => inferInstanceAs (Decidable (Away s i))
  | .generateFails i => inferInstanceAs (Decidable (Away s i))
  | .outOfTurns i => inferInstanceAs (Decidable (Away s i))
  | .lookUp i => inferInstanceAs (Decidable (i ∉ s.pending.map Prod.fst))
  | .process i outcome =>
    inferInstanceAs (Decidable (leavesLoop c s i outcome = true → Away s i))
  | .stop i => inferInstanceAs (Decidable (i ∈ s.episodes.map Prod.fst))
  | .shutdown =>
    inferInstanceAs (Decidable (∀ i ∈ s.episodes.map Prod.fst, s.samples i ≠ .drop))
  | .checkProvisioner _ | .readProvisioner _ | .acquireTimeout _ | .setUp _ | .store _ | .observe _
  | .generate _ _ | .drop _ | .shutdownStop _ => .isTrue trivial

theorem afterTurn_cases {turn : ℕ} {truncated : Bool} (outcome : Turn)
    (hsample : s.samples i = .process turn truncated host) :
    afterTurn c i turn truncated host outcome = .stop host ∨
      (afterTurn c i turn truncated host outcome = .returned ∧ leavesLoop c s i outcome = true) ∨
        ∃ n, afterTurn c i turn truncated host outcome = .rollout n := by
  cases outcome with
  | raises | terminal => exact .inl rfl
  | continues overflow =>
    rw [afterTurn]
    split_ifs with hlast hleft
    · exact .inl rfl
    · refine .inr (.inl ⟨rfl,?_⟩)
      simpa [leavesLoop,hsample] using And.intro (Nat.not_le.mp hlast) hleft
    · exact .inr (.inr ⟨_,rfl⟩)

theorem held_others_release (h : j ≠ i) : held (s.release c i host) j = held s j := by
  rw [State.release]
  split <;> simp only [held,State.pending,entries_without_ne h]

theorem held_release : held (s.release c i host) i = { held s i with leases := [] } := by
  rw [State.release]
  split <;> simp only [held,State.pending,entries_without_self]

theorem held_others_acquire (h : j ≠ i) {p : ℕ} {rest : List Host} :
    held (s.acquire i p host rest) j = held s j := by
  simp only [held,State.acquire,State.pending,entries_ne h]

theorem held_acquire {p : ℕ} {rest : List Host} : held (s.acquire i p host rest) i =
    { held s i with leases := (i,host) :: (held s i).leases } := by
  simp only [held,State.acquire,State.pending,entries_self]

theorem held_others_store (h : j ≠ i) : held (s.store i host) j = held s j := by
  simp only [held,State.store,State.pending,entries_append,entries_ne h]
  rw [show entries j ([] : List (ℕ × Host)) = [] from rfl,List.append_nil]

theorem held_store : held (s.store i host) i =
    { held s i with episodes := (held s i).episodes ++ [(i,host)] } := by
  simp only [held,State.store,State.pending,entries_append,entries_self]
  rfl

theorem held_others_drop (h : j ≠ i) : held (s.drop i) j = held s j := by
  simp only [held,State.drop,State.pending,entries_without_ne h]

theorem held_drop : held (s.drop i) i = { held s i with episodes := [] } := by
  simp only [held,State.drop,State.pending,entries_without_self]

theorem held_shutdown : held s.shutdown i =
    ⟨(held s i).leases,[],(held s i).pending ++ (held s i).episodes⟩ := by
  simp only [held,State.shutdown,State.pending,List.flatten_append,List.flatten_singleton,
    entries_append]
  rfl

theorem release_shutdowns (shutdowns : List (List (ℕ × Host))) :
    { s with shutdowns := shutdowns }.release c i host =
      { s.release c i host with shutdowns := shutdowns } := by
  simp only [State.release]
  split <;> rfl

theorem samples_release : (s.release c i host).samples = s.samples := by
  rw [State.release]
  split <;> rfl

theorem samples_move_self {sample : Sample Host} : (s.move i sample).samples i = sample :=
  Function.update_self _ _ _

theorem samples_move_ne {sample : Sample Host} (h : j ≠ i) :
    (s.move i sample).samples j = s.samples j :=
  Function.update_of_ne h _ _

namespace Accounted

theorem frame (h : Accounted c s) (hothers : ∀ j, j ≠ i → held t j = held s j)
    (hsamples : ∀ j, j ≠ i → t.samples j = s.samples j) (hself : Fits i (held t i) (t.samples i))
    (hunbuilt : t.provisioner = none → t.leases = [])
    (hbuilt : ∀ p, t.provisioner = some p → p < t.pools.length ∧
      (t.pools.getD p [] ++ t.leases.map Prod.snd).Perm c.hosts) : Accounted c t where
  samples j := by
    by_cases hj : j = i
    · exact hj ▸ hself
    · rw [hothers j hj,hsamples j hj]
      exact h.samples j
  unbuilt := hunbuilt
  built := hbuilt

theorem frame_move (h : Accounted c s) {sample : Sample Host} (hsamples : t.samples = s.samples)
    (hothers : ∀ j, j ≠ i → held t j = held s j) (hself : Fits i (held t i) sample)
    (hunbuilt : t.provisioner = none → t.leases = [])
    (hbuilt : ∀ p, t.provisioner = some p → p < t.pools.length ∧
      (t.pools.getD p [] ++ t.leases.map Prod.snd).Perm c.hosts) :
    Accounted c (t.move i sample) := by
  refine h.frame hothers (fun j hj => ?_) ?_ hunbuilt hbuilt
  · rw [samples_move_ne hj,hsamples]
  · rw [samples_move_self]
    exact hself

theorem move (h : Accounted c s) {sample : Sample Host} (hfit : Fits i (held s i) sample) :
    Accounted c (s.move i sample) :=
  h.frame_move rfl (fun _ _ => rfl) hfit h.unbuilt h.built

theorem moved (h : Accounted c s) {sample : Sample Host} (hsample : s.samples i = sample) :
    Fits i (held s i) sample := hsample ▸ h.samples i

theorem provisioner (h : Accounted c s) (hlease : entries i s.leases ≠ []) :
    ∃ p, s.provisioner = some p := by
  cases hp : s.provisioner with
  | none =>
    rw [h.unbuilt hp] at hlease
    exact absurd rfl hlease
  | some p => exact ⟨p,rfl⟩

theorem release_built (h : Accounted c s) (hlease : entries i s.leases = [(i,host)]) :
    ∀ p, (s.release c i host).provisioner = some p →
      p < (s.release c i host).pools.length ∧
      ((s.release c i host).pools.getD p [] ++
        (s.release c i host).leases.map Prod.snd).Perm c.hosts := by
  obtain ⟨q,hq⟩ := h.provisioner (by rw [hlease]; exact List.cons_ne_nil _ _)
  obtain ⟨hlt,hperm⟩ := h.built q hq
  have hrelease : s.release c i host = { s with
      pools := s.pools.set q (s.pools.getD q [] ++ [host])
      leases := s.leases.filter (·.1 ≠ i) } := by
    rw [State.release,hq]
  have hleases : (host :: (s.leases.filter (·.1 ≠ i)).map Prod.snd).Perm
      (s.leases.map Prod.snd) := by
    have hall := (perm_entries (i := i) s.leases).map Prod.snd
    rwa [hlease,List.map_append,List.map_singleton] at hall
  rw [hrelease]
  rintro p hp
  have hpq : p = q := Option.some.inj (hp.symm.trans hq)
  subst hpq
  refine ⟨by rwa [List.length_set],?_⟩
  dsimp only
  rw [List.getD_eq_getElem _ _ (by rwa [List.length_set]),List.getElem_set_self,
    List.append_assoc,List.singleton_append]
  exact (hleases.append_left _).trans hperm

theorem release_unbuilt : (s.release c i host).provisioner ≠ none := by
  rw [State.release]
  split
  · next p hp => exact fun h => Option.some_ne_none p (hp.symm.trans h)
  · exact Option.some_ne_none _

theorem build (h : Accounted c s) (hnone : s.leases = []) (hsample : s.samples i = .buildProvisioner) :
    Accounted c ((s.build c).move i .readProvisioner) := by
  have hnothing : held s i = nothing := h.moved hsample
  refine h.frame_move rfl (fun _ _ => rfl) hnothing (fun _ => hnone) ?_
  rintro p hp
  obtain rfl : p = s.pools.length := (Option.some.inj hp).symm
  simp [State.build,hnone]

theorem acquire (h : Accounted c s) {p : ℕ} {rest : List Host}
    (hsample : s.samples i = .acquire p) (hcurrent : s.provisioner = some p)
    (hfree : s.pools.getD p [] = host :: rest) :
    Accounted c ((s.acquire i p host rest).move i (.setUp host)) := by
  have hnothing : held s i = nothing := h.moved hsample
  obtain ⟨hlt,hperm⟩ := h.built p hcurrent
  refine h.frame_move rfl (fun j hj => ?_) ?_ ?_ ?_
  · exact held_others_acquire hj
  · rw [held_acquire,hnothing]
    rfl
  · intro hunbuilt
    exact absurd (hcurrent.symm.trans hunbuilt) (Option.some_ne_none p)
  · rintro q hq
    obtain rfl : q = p := Option.some.inj (hq.symm.trans hcurrent)
    refine ⟨by rwa [State.acquire,List.length_set],?_⟩
    rw [hfree] at hperm
    rw [State.acquire]
    dsimp only
    rw [List.getD_eq_getElem _ _ (by rwa [List.length_set]),List.getElem_set_self,List.map_cons]
    exact List.perm_middle.trans hperm

theorem store (h : Accounted c s) (hsample : s.samples i = .store host) :
    Accounted c ((s.store i host).move i .observe) := by
  have hheld : held s i = ⟨[(i,host)],[],[]⟩ := h.moved hsample
  refine h.frame_move rfl (fun j hj => held_others_store hj) ⟨host,.inl ?_⟩ h.unbuilt h.built
  rw [held_store,hheld]
  rfl

theorem stop (h : Accounted c s) (hsample : s.samples i = .stop host)
    (hregistered : i ∈ s.episodes.map Prod.fst) :
    Accounted c ((s.release c i host).move i .drop) := by
  have hheld : held s i = ⟨[(i,host)],[(i,host)],[]⟩ := by
    rcases h.moved hsample with hkept | hkept | hkept
    · exact hkept
    · exact absurd hregistered (entries_eq_nil.mp (Entries.mk.inj hkept).2.1)
    · exact absurd hregistered (entries_eq_nil.mp (Entries.mk.inj hkept).2.1)
  refine h.frame_move samples_release (fun j hj => held_others_release hj) ⟨host,?_⟩
    (fun hnone => absurd hnone release_unbuilt)
    (h.release_built (Entries.mk.inj hheld).1)
  rw [held_release,hheld]

theorem drop (h : Accounted c s) (hsample : s.samples i = .drop) :
    Accounted c ((s.drop i).move i .returned) := by
  obtain ⟨host,hheld⟩ := h.moved hsample
  refine h.frame_move rfl (fun j hj => held_others_drop hj) ?_ h.unbuilt h.built
  rw [held_drop,hheld]
  rfl

theorem kept_shutdown {e : Entries Host} (h : Kept i host e) :
    Kept i host ⟨e.leases,[],e.pending ++ e.episodes⟩ := by
  rcases h with rfl | rfl | rfl
  · exact .inr (.inl rfl)
  · exact .inr (.inl rfl)
  · exact .inr (.inr rfl)

theorem shutdown (h : Accounted c s) (hdrop : ∀ i ∈ s.episodes.map Prod.fst, s.samples i ≠ .drop) :
    Accounted c s.shutdown := by
  refine ⟨fun i => ?_,h.unbuilt,h.built⟩
  have hfits := h.samples i
  rw [held_shutdown]
  change Fits i _ (s.samples i)
  cases hsample : s.samples i with
  | checkProvisioner | buildProvisioner | readProvisioner | returned | acquire _ | setUp _
  | store _ =>
    rw [hsample] at hfits
    change held s i = _ at hfits
    rw [hfits]
    rfl
  | observe | rollout _ | lookUp _ _ =>
    rw [hsample] at hfits
    exact hfits.imp fun _ => kept_shutdown
  | process _ _ host | stop host =>
    rw [hsample] at hfits
    exact kept_shutdown hfits
  | drop =>
    refine absurd hsample (hdrop i ?_)
    rw [hsample] at hfits
    obtain ⟨host,hheld⟩ := hfits
    by_contra hnone
    have hempty : entries i s.episodes = [] := entries_eq_nil.mpr hnone
    rw [(Entries.mk.inj hheld).2.1] at hempty
    exact List.cons_ne_nil _ _ hempty

theorem shutdownStop (h : Accounted c s) {k : ℕ} {rest : List (ℕ × Host)}
    (hnext : s.shutdowns.getD k [] = (i,host) :: rest) :
    Accounted c ({ s with shutdowns := s.shutdowns.set k rest }.release c i host) := by
  have hpending : s.pending.Perm ((i,host) :: (s.shutdowns.set k rest).flatten) :=
    flatten_set hnext
  have hown : (entries i s.pending).Perm
      ((i,host) :: entries i (s.shutdowns.set k rest).flatten) := by
    have h' := hpending.filter fun x => decide (x.1 = i)
    rwa [← entries,← entries,entries_self] at h'
  have hothers : ∀ j, j ≠ i →
      (entries j s.pending).Perm (entries j (s.shutdowns.set k rest).flatten) := by
    intro j hj
    have h' := hpending.filter fun x => decide (x.1 = j)
    rwa [← entries,← entries,entries_ne hj] at h'
  rcases fits_pending (h.samples i) with hnone | ⟨⟨taken,htaken⟩,hfits⟩
  · change entries i s.pending = [] at hnone
    rw [hnone] at hown
    exact absurd hown.symm.eq_nil (List.cons_ne_nil _ _)
  · obtain ⟨hleases,hepisodes,hentries⟩ := Entries.mk.inj htaken
    rw [hentries] at hown
    obtain ⟨hsame,hrest⟩ := List.cons.inj (List.perm_singleton.mp hown.symm)
    obtain rfl : host = taken := (Prod.mk.inj hsame).2
    refine h.frame (i := i) (fun j hj => ?_) (fun j _ => ?_) ?_
      (fun hunbuilt => absurd hunbuilt release_unbuilt) ?_
    · rw [held_others_release hj]
      have hlist : entries j (s.shutdowns.set k rest).flatten = entries j s.pending := by
        rcases fits_pending (h.samples j) with hnone | ⟨⟨other,hother⟩,-⟩
        · change entries j s.pending = [] at hnone
          have h' := hothers j hj
          rw [hnone] at h' ⊢
          exact h'.symm.eq_nil
        · have hentry := (Entries.mk.inj hother).2.2
          have h' := hothers j hj
          rw [hentry] at h' ⊢
          exact List.perm_singleton.mp h'.symm
      simp only [held,State.pending,hlist]
    · rw [samples_release]
    · rw [held_release,samples_release]
      have hnothing : { held { s with shutdowns := s.shutdowns.set k rest } i with leases := [] } =
          nothing := by
        simp only [held,State.pending,hrest,hepisodes]
        rfl
      rw [hnothing]
      exact hfits
    · rw [release_shutdowns]
      exact h.release_built hleases

theorem returns (h : Accounted c s) (hkept : ∃ host, Kept i host (held s i)) (haway : Away s i) :
    Accounted c (s.move i .returned) := by
  obtain ⟨host,hcases⟩ := hkept
  have hepisodes : (held s i).episodes = [] := entries_eq_nil.mpr haway.1
  have hpending : (held s i).pending = [] := entries_eq_nil.mpr haway.2
  rcases hcases with hheld | hheld | hheld
  · rw [hheld] at hepisodes
    exact absurd hepisodes (List.cons_ne_nil _ _)
  · rw [hheld] at hpending
    exact absurd hpending (List.cons_ne_nil _ _)
  · exact h.move hheld

end Accounted

theorem accounted_step {e : Event} (h : Accounted c s) (hclean : clean c s e)
    (hstep : step c s e = some t) : Accounted c t := by
  cases e with
  | checkProvisioner i =>
    simp only [step] at hstep
    split at hstep <;> cases hstep
    next hsample =>
      have hnothing : held s i = nothing := h.moved hsample
      split_ifs <;> exact h.move hnothing
  | buildProvisioner i =>
    simp only [step] at hstep
    split at hstep <;> cases hstep
    next hsample => exact h.build hclean hsample
  | readProvisioner i =>
    simp only [step] at hstep
    split at hstep <;> cases hstep
    next hsample _ =>
      have hnothing : held s i = nothing := h.moved hsample
      exact h.move hnothing
  | acquire i =>
    simp only [step] at hstep
    split at hstep
    · next p hsample =>
      split at hstep <;> cases hstep
      next hfree =>
        simp only [clean,awaitsCurrent,hsample,decide_eq_true_eq] at hclean
        exact h.acquire hsample hclean hfree
    · cases hstep
  | acquireTimeout i =>
    simp only [step] at hstep
    split at hstep
    · next p hsample =>
      have hnothing : held s i = nothing := h.moved hsample
      split_ifs at hstep
      cases hstep
      exact h.move hnothing
    · cases hstep
  | setUp i =>
    simp only [step] at hstep
    split at hstep <;> cases hstep
    next host hsample =>
      have hleased : held s i = ⟨[(i,host)],[],[]⟩ := h.moved hsample
      exact h.move hleased
  | setUpFails i => exact hclean.elim
  | store i =>
    simp only [step] at hstep
    split at hstep <;> cases hstep
    next hsample => exact h.store hsample
  | observe i =>
    simp only [step] at hstep
    split at hstep <;> cases hstep
    next hsample =>
      have hkept : ∃ host, Kept i host (held s i) := h.moved hsample
      exact h.move hkept
  | observeFails i =>
    simp only [step] at hstep
    split at hstep <;> cases hstep
    next hsample => exact h.returns (h.moved hsample) hclean
  | generate i truncated =>
    simp only [step] at hstep
    split at hstep
    · next hsample =>
      have hkept : ∃ host, Kept i host (held s i) := h.moved hsample
      split_ifs at hstep
      cases hstep
      exact h.move hkept
    · cases hstep
  | generateFails i =>
    simp only [step] at hstep
    split at hstep
    · next hsample =>
      split_ifs at hstep
      cases hstep
      exact h.returns (h.moved hsample) hclean
    · cases hstep
  | outOfTurns i =>
    simp only [step] at hstep
    split at hstep
    · next hsample =>
      split_ifs at hstep
      cases hstep
      exact h.returns (h.moved hsample) hclean
    · cases hstep
  | lookUp i =>
    simp only [step] at hstep
    split at hstep
    · next hsample =>
      have hkept : ∃ host, Kept i host (held s i) := h.moved hsample
      split at hstep <;> cases hstep
      · next found hfound => exact h.move (kept_found hkept hfound)
      · next hfound =>
        rw [find?_entries,List.head?_eq_none_iff] at hfound
        exact h.returns hkept ⟨entries_eq_nil.mp hfound,hclean⟩
    · cases hstep
  | process i outcome =>
    simp only [step] at hstep
    split at hstep <;> cases hstep
    next turn truncated host hsample =>
      have hkept : Kept i host (held s i) := h.moved hsample
      rcases afterTurn_cases (c := c) outcome hsample with hnext | ⟨hnext,hleaves⟩ | ⟨n,hnext⟩
      · rw [hnext]
        exact h.move hkept
      · rw [hnext]
        exact h.returns ⟨host,hkept⟩ (hclean hleaves)
      · rw [hnext]
        have hfit : Fits i (held s i) (.rollout n) := ⟨host,hkept⟩
        exact h.move hfit
  | stop i =>
    simp only [step] at hstep
    split at hstep <;> cases hstep
    next hsample => exact h.stop hsample hclean
  | drop i =>
    simp only [step] at hstep
    split at hstep <;> cases hstep
    next hsample => exact h.drop hsample
  | shutdown =>
    cases hstep
    exact h.shutdown hclean
  | shutdownStop k =>
    simp only [step] at hstep
    split at hstep <;> cases hstep
    next hnext => exact h.shutdownStop hnext

theorem accounted_initial : Accounted c initial where
  samples _ := rfl
  unbuilt _ := rfl
  built p hp := absurd hp.symm (Option.some_ne_none p)

theorem Accounted.leasedOnce (h : Accounted c s) : LeasedOnce c s := by
  have hreturned : ∀ i, s.samples i = .returned →
      i ∉ s.leases.map Prod.fst ∧ i ∉ s.episodes.map Prod.fst := by
    intro i hi
    have hnothing : held s i = nothing := h.moved hi
    obtain ⟨hleases,hepisodes,-⟩ := Entries.mk.inj hnothing
    exact ⟨entries_eq_nil.mp hleases,entries_eq_nil.mp hepisodes⟩
  cases hp : s.provisioner with
  | none =>
    refine ⟨?_,?_,fun hne => absurd hp hne,hreturned⟩
    · rw [h.unbuilt hp]
      exact List.nodup_nil
    · rw [State.pool,hp]
      exact List.nodup_nil
  | some p =>
    obtain ⟨-,hperm⟩ := h.built p hp
    have hpool : s.pool = s.pools.getD p [] := by rw [State.pool,hp]
    rw [← hpool] at hperm
    have hnodup := hperm.nodup_iff.mpr c.nodup_hosts
    exact ⟨hnodup.of_append_right,hnodup.of_append_left,
      fun _ host hhost => List.mem_append.mp (hperm.mem_iff.mpr hhost),hreturned⟩

/-- In every run of clean steps, every desktop is leased to one sample at a time and returned when
that sample has returned. -/
theorem leasedOnce_of_clean (hreach : Reach (machine c) (clean c) s) : LeasedOnce c s := by
  refine Accounted.leasedOnce (hreach.invariant (P := Accounted c) ?_ fun s e t h hclean hstep => ?_)
  · rintro s rfl
    exact accounted_initial
  · exact accounted_step h hclean hstep

def twoHosts : Setting ℕ := ⟨[7,8],by decide,by decide,fun _ => 1,1⟩

/-- Two samples have a host each, and a third is leased that of the first behind its episode. -/
def gradedEpisodes : List Event :=
  [.checkProvisioner 0,.buildProvisioner 0,.checkProvisioner 1,.readProvisioner 1,.readProvisioner 0,
    .acquire 0,.acquire 1,.setUp 1,.setUp 0,.store 1,.store 0,.observe 0,.observe 1,.generate 0 false,
    .lookUp 0,.process 0 .terminal,.generate 1 false,.stop 0,.drop 0,.checkProvisioner 2,
    .readProvisioner 2,.acquire 2,.lookUp 1]

theorem leasedOnce_graded : ∃ s,
    run (machine twoHosts) (fun s e => decide (clean twoHosts s e)) initial gradedEpisodes = some s ∧
      s.samples 0 = .returned ∧ s.leases = [(2,7),(1,8)] ∧ LeasedOnce twoHosts s := by
  obtain ⟨s,hrun,hsample,hleases⟩ : ∃ s, run (machine twoHosts)
      (fun s e => decide (clean twoHosts s e)) initial gradedEpisodes = some s ∧
        s.samples 0 = .returned ∧ s.leases = [(2,7),(1,8)] := ⟨_,rfl,rfl,rfl⟩
  exact ⟨s,hrun,hsample,hleases,leasedOnce_of_clean
    (reach_of_run (fun _ _ => of_decide_eq_true) (.start rfl) hrun)⟩

def oneHost : Setting ℕ := ⟨[7],by decide,by decide,fun _ => 1,1⟩

/-- The setup of the only sample fails, and its host is never returned. -/
theorem leaked_setUp : ∃ s, Reach (machine oneHost) anyStep s ∧ ¬LeasedOnce oneHost s := by
  obtain ⟨s,hrun,hsample,hlease⟩ : ∃ s, run (machine oneHost) (fun _ _ => true) initial
      [.checkProvisioner 0,.buildProvisioner 0,.readProvisioner 0,.acquire 0,.setUpFails 0] = some s ∧
        s.samples 0 = .returned ∧ s.leases = [(0,7)] := ⟨_,rfl,rfl,rfl⟩
  refine ⟨s,reach_of_run (fun _ _ _ => trivial) (.start rfl) hrun,fun h => ?_⟩
  refine (h.returned 0 hsample).1 ?_
  rw [hlease]
  exact List.mem_cons_self

end Desktops
end Cua
end DockyardRL
