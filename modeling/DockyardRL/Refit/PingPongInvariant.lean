import Mathlib.Algebra.Order.Group.Nat
import DockyardRL.Refit.PingPong

/-! What holds between the trainer and the inference worker: the current buffer is packed from the
start, the other one is out at most, and what is loaded, out, packed and ahead is the stream. -/
namespace DockyardRL
namespace Refit
namespace PingPong

open Transition

theorem le_alignedSize (n : ℕ) : n ≤ alignedSize n := by
  unfold alignedSize calculateAlignedSize
  omega

theorem dvd_alignedSize (n : ℕ) : 512 ∣ alignedSize n := Nat.dvd_mul_left _ _

def total (items : List (String × Tensor)) : ℕ :=
  (items.map fun x => alignedSize x.2.bytes.length).sum

@[simp] theorem total_nil : total [] = 0 := rfl

@[simp] theorem total_cons (x : String × Tensor) (items : List (String × Tensor)) :
    total (x :: items) = alignedSize x.2.bytes.length + total items := by
  rw [total,List.map_cons,List.sum_cons,total]

@[simp] theorem total_append (items more : List (String × Tensor)) :
    total (items ++ more) = total items + total more := by
  rw [total,List.map_append,List.sum_append,total,total]

section Buffers

variable {mem mem' : Memory} {side : Side} {items : List (String × Tensor)} {offset : ℕ}

def Laid (mem : Memory) (side : Side) : ℕ → List (String × Tensor) → Prop
  | _, [] => True
  | offset, x :: items => mem.read side offset x.2.bytes.length = x.2.bytes ∧
      Laid mem side (offset + alignedSize x.2.bytes.length) items

theorem read_congr {size : ℕ} (h : ∀ i, offset ≤ i → i < offset + size → mem side i = mem' side i) :
    mem.read side offset size = mem'.read side offset size := by
  refine List.map_congr_left fun i hi => ?_
  have hi := List.mem_range'_1.mp hi
  exact h i hi.1 hi.2

theorem Laid.congr (hlaid : Laid mem side offset items)
    (h : ∀ i, offset ≤ i → i < offset + total items → mem side i = mem' side i) :
    Laid mem' side offset items := by
  induction items generalizing offset with
  | nil => trivial
  | cons x items ih =>
    have hle := le_alignedSize x.2.bytes.length
    rw [total_cons] at h
    refine ⟨?_,ih hlaid.2 fun i hi hlt => h i (by omega) (by omega)⟩
    exact (read_congr fun i hi hlt => (h i hi (by omega)).symm).trans hlaid.1

theorem laid_append {x : String × Tensor} : Laid mem side offset (items ++ [x]) ↔
    Laid mem side offset items ∧
      mem.read side (offset + total items) x.2.bytes.length = x.2.bytes := by
  induction items generalizing offset with
  | nil => simp [Laid]
  | cons y items ih =>
    rw [List.cons_append,Laid,Laid,ih,total_cons,Nat.add_assoc,and_assoc]

theorem write_other {w : Write} (hside : side ≠ w.side) : mem.write w side = mem side := by
  funext i
  exact if_neg fun h => hside h.1

theorem write_before {w : Write} {i : ℕ} (hi : i < w.start) : mem.write w side i = mem side i :=
  if_neg fun h => absurd h.2.1 (Nat.not_le.mpr hi)

theorem read_write (mem : Memory) (side : Side) (start : ℕ) (bytes : List UInt8) :
    (mem.write ⟨side,start,bytes⟩).read side start bytes.length = bytes := by
  refine List.ext_getElem (by simp [Memory.read]) fun i hi hi' => ?_
  have hwritten : mem.write ⟨side,start,bytes⟩ side (start + i) = bytes.getD (start + i - start) 0 :=
    if_pos ⟨rfl,Nat.le_add_right start i,Nat.add_lt_add_left hi' start⟩
  simp only [Memory.read,List.getElem_map,List.getElem_range',Nat.one_mul]
  rw [hwritten,Nat.add_sub_cancel_left,List.getD_eq_getElem _ _ hi']

def settle (mem : Memory) (queued : List Write) : Memory := queued.foldl Memory.write mem

theorem settle_append (mem : Memory) (queued : List Write) (w : Write) :
    settle mem (queued ++ [w]) = (settle mem queued).write w := by
  rw [settle,List.foldl_append]
  rfl

theorem Laid.pack (hlaid : Laid mem side 0 items) (x : String × Tensor) :
    Laid (mem.write ⟨side,total items,x.2.bytes⟩) side 0 (items ++ [x]) := by
  refine laid_append.mpr ⟨hlaid.congr fun i _ hi => (write_before ?_).symm,?_⟩
  · rwa [Nat.zero_add] at hi
  · rw [Nat.zero_add]
    exact read_write mem side _ _

end Buffers

section Views

variable {c : Setting}

/-- The worker was told the shape and the type of every tensor. -/
def Announced (info : Dict String (List ℕ × DType)) (stream : List (String × Tensor)) : Prop :=
  ∀ x ∈ stream, info.get? x.1 = some (x.2.shape,x.2.dtype)

def viewsFor : ℕ → List (String × Tensor) → List View
  | _, [] => []
  | offset, x :: items => ⟨x.1,offset,x.2.shape,x.2.dtype⟩ ::
      viewsFor (offset + alignedSize x.2.bytes.length) items

theorem itemsize_dvd (d : DType) : d.itemsize ∣ 512 := by cases d <;> decide

/-- The worker finds the offsets that the trainer packed at. -/
theorem viewsOf_eq {items : List (String × Tensor)} (hinfo : Announced c.info items) {offset : ℕ}
    (hoffset : 512 ∣ offset) (hfit : offset + total items ≤ c.allocated) :
    viewsOf c offset (items.map Prod.fst) = some (viewsFor offset items,offset + total items) := by
  induction items generalizing offset with
  | nil => rfl
  | cons x items ih =>
    have hle := le_alignedSize x.2.bytes.length
    rw [total_cons] at hfit
    have hsize : x.2.shape.prod * x.2.dtype.itemsize = x.2.bytes.length := x.2.size_eq.symm
    have halign : offset % x.2.dtype.itemsize = 0 :=
      Nat.mod_eq_zero_of_dvd ((itemsize_dvd _).trans hoffset)
    have hslice : min (offset + x.2.bytes.length) c.allocated - min offset c.allocated =
        x.2.bytes.length := by omega
    have hrest := ih (fun y hy => hinfo y (List.mem_cons_of_mem x hy))
      (Nat.dvd_add hoffset (dvd_alignedSize x.2.bytes.length)) (by omega)
    rw [List.map_cons,viewsOf,hinfo x List.mem_cons_self]
    dsimp only
    rw [hsize,if_pos ⟨halign,hslice⟩,hrest,total_cons,← Nat.add_assoc]
    rfl

theorem fixExport_twice (key : String) (weight : Tensor) :
    c.fixExport key (c.fixExport key weight) = weight := by
  unfold Setting.fixExport
  split_ifs with h
  · exact c.transpose.twice weight
  · rfl

theorem loadWeight_eq {mem : Memory} {side : Side} {offset : ℕ} {x : String × Tensor}
    (h : mem.read side offset x.2.bytes.length = x.2.bytes) :
    loadWeight c mem side ⟨x.1,offset,x.2.shape,x.2.dtype⟩ = x := by
  have hshow : View.show ⟨x.1,offset,x.2.shape,x.2.dtype⟩ mem side = x.2 := by
    obtain ⟨name,dtype,shape,bytes,hsize⟩ := x
    simp only [View.show,Tensor.mk.injEq,true_and]
    rw [← hsize]
    exact h
  rw [loadWeight,fixExport_twice,hshow]

end Views

section Invariant

variable (c : Setting) (s : State)

/-- A group is out, with the tensors of it that are still to be loaded. -/
inductive Lent (request : Option Request) (reply : Bool) (receiver : Receiver) (memory : Memory)
    (side : Side) : List (String × Tensor) → Prop
  | sent {out} : request = some (.group side (out.map Prod.fst) (total out)) → reply = false →
      receiver = .waiting → Laid memory side 0 out → total out ≤ c.half →
        Lent request reply receiver memory side out
  | loading {out offset} : request = none → reply = false →
      receiver = .loading side (viewsFor offset out) → Laid memory side offset out →
        Lent request reply receiver memory side out
  | acknowledging : request = none → reply = false → receiver = .acknowledge side →
      Lent request reply receiver memory side []
  | acknowledged : request = none → reply = true → receiver = .waiting →
      Lent request reply receiver memory side []

def Channel : Option Side → List (String × Tensor) → Prop
  | none, out => out = [] ∧ s.expecting = false ∧ s.request = none ∧ s.reply = false ∧
      s.receiver = .waiting
  | some side, out => s.expecting = true ∧ Lent c s.request s.reply s.receiver s.memory side out

def lentSide : Option Side := if s.awaitRecv then some s.currentBuffer.other else none

/-- A tensor that fits. -/
def Fits (x : String × Tensor) : Prop := alignedSize x.2.bytes.length ≤ c.half

/-- The trainer packs: what is out, what is in the current buffer and what is still ahead. -/
structure Packing (lent : Option Side) (out current ahead : List (String × Tensor)) : Prop where
  channel : Channel c s lent out
  apart : lent ≠ some s.currentBuffer
  order : c.stream = s.loaded ++ out ++ current ++ ahead
  packed : s.packed = s.loaded ++ out ++ current
  fits : ∀ x ∈ s.packed, Fits c x
  names : s.paramNames = current.map Prod.fst
  used : s.usedBytes = total current
  room : total current ≤ c.half
  laid : Laid (settle s.memory s.queued) s.currentBuffer 0 current
  queued : ∀ w ∈ s.queued, w.side = s.currentBuffer ∧ w.start + w.bytes.length ≤ c.allocated
  settled : current = [] → s.queued = []

/-- The stream is over: what is out. -/
structure Ended (lent : Option Side) (out : List (String × Tensor)) : Prop where
  channel : Channel c s lent out
  order : c.stream = s.loaded ++ out
  packed : s.packed = c.stream
  fits : ∀ x ∈ s.packed, Fits c x
  queued : s.queued = []

/-- `COMPLETE` is out. -/
def Closing : Prop :=
  (s.request = some .complete ∧ s.reply = false ∧ s.receiver = .waiting) ∨
    (s.request = none ∧ s.reply = false ∧ s.receiver = .acknowledgeComplete) ∨
      (s.request = none ∧ s.reply = true ∧ s.receiver = .finished)

/-- Everything is loaded. -/
structure Delivered : Prop where
  loaded : s.loaded = c.stream
  packed : s.packed = c.stream
  fits : ∀ x ∈ s.packed, Fits c x
  queued : s.queued = []

/-- What the trainer is at. -/
inductive Phase
  | packing | sending | ending | completing | closing | done

def phase : Trainer → Phase
  | .next | .synchronize _ | .awaitSlot _ | .pack _ | .raised _ => .packing
  | .send _ => .sending
  | .awaitLast => .ending
  | .complete => .completing
  | .awaitComplete => .closing
  | .finished => .done

def inHand : Trainer → List (String × Tensor)
  | .synchronize behind | .awaitSlot behind | .send behind => behind.toList
  | .pack item => [item]
  | _ => []

def Body : Phase → Prop
  | .packing => ∃ out current,
      Packing c s (lentSide s) out current (inHand s.trainer ++ s.rest)
  | .sending => ∃ current, Packing c s none [] current (inHand s.trainer ++ s.rest)
  | .ending => ∃ side out, Ended c s (if s.awaitRecv then some side else none) out
  | .completing => Ended c s none []
  | .closing => Delivered c s ∧ s.expecting = true ∧ Closing s
  | .done => Delivered c s ∧ s.request = none ∧ s.receiver = .finished

def Behind (rest : List (String × Tensor)) : Option (String × Tensor) → Prop
  | none => rest = []
  | some item => Fits c item

/-- What the trainer has found out on its way. -/
def Guard : Prop :=
  match s.trainer with
  | .synchronize behind => Behind c s.rest behind
  | .awaitSlot behind | .send behind => Behind c s.rest behind ∧ s.queued = []
  | .pack item => s.usedBytes + alignedSize item.2.bytes.length ≤ c.half
  | .raised .parameterTooLarge => ∃ x rest, s.rest = x :: rest ∧ ¬ Fits c x
  | .raised _ => False
  | _ => True

/-- What holds in every state. -/
structure Inv : Prop where
  body : Body c s (phase s.trainer)
  guard : Guard c s

end Invariant

section Receiver

variable {c : Setting} {s t : State}

/-- What a step of the worker leaves of the rest of the state. -/
structure Frame (s t : State) : Prop where
  trainer : t.trainer = s.trainer
  rest : t.rest = s.rest
  currentBuffer : t.currentBuffer = s.currentBuffer
  usedBytes : t.usedBytes = s.usedBytes
  paramNames : t.paramNames = s.paramNames
  awaitRecv : t.awaitRecv = s.awaitRecv
  queued : t.queued = s.queued
  packed : t.packed = s.packed
  expecting : t.expecting = s.expecting
  memory : t.memory = s.memory

theorem lent_receiver {side : Side} {out : List (String × Tensor)} (hinfo : Announced c.info out)
    (hlent : Lent c s.request s.reply s.receiver s.memory side out)
    (hstep : receiverStep c s = some t) : Frame s t ∧ ∃ out',
      Lent c t.request t.reply t.receiver t.memory side out' ∧ t.loaded ++ out' = s.loaded ++ out := by
  unfold receiverStep at hstep
  cases hlent with
  | sent hrequest hreply hreceiver hlaid hroom =>
    have hviews := viewsOf_eq hinfo (Nat.dvd_zero 512)
      (by rw [Nat.zero_add]; exact hroom.trans (le_alignedSize c.half))
    rw [hreceiver,hrequest] at hstep
    dsimp only at hstep
    rw [hviews,Nat.zero_add] at hstep
    dsimp only at hstep
    rw [if_pos rfl] at hstep
    obtain rfl := Option.some.inj hstep
    exact ⟨⟨rfl,rfl,rfl,rfl,rfl,rfl,rfl,rfl,rfl,rfl⟩,out,.loading rfl hreply rfl hlaid,rfl⟩
  | loading hrequest hreply hreceiver hlaid =>
    rw [hreceiver] at hstep
    cases out with
    | nil =>
      obtain rfl := Option.some.inj hstep
      exact ⟨⟨rfl,rfl,rfl,rfl,rfl,rfl,rfl,rfl,rfl,rfl⟩,[],.acknowledging hrequest hreply rfl,rfl⟩
    | cons x out =>
      have hload := loadWeight_eq (c := c) hlaid.1
      obtain rfl := Option.some.inj hstep
      refine ⟨⟨rfl,rfl,rfl,rfl,rfl,rfl,rfl,rfl,rfl,rfl⟩,out,.loading hrequest hreply rfl hlaid.2,?_⟩
      rw [hload]
      exact List.append_assoc _ _ _
  | acknowledging hrequest hreply hreceiver =>
    rw [hreceiver] at hstep
    obtain rfl := Option.some.inj hstep
    exact ⟨⟨rfl,rfl,rfl,rfl,rfl,rfl,rfl,rfl,rfl,rfl⟩,[],.acknowledged hrequest rfl rfl,rfl⟩
  | acknowledged hrequest hreply hreceiver =>
    rw [hreceiver,hrequest] at hstep
    cases hstep

theorem channel_receiver {lent : Option Side} {out : List (String × Tensor)}
    (hinfo : Announced c.info out) (hchannel : Channel c s lent out)
    (hstep : receiverStep c s = some t) :
    Frame s t ∧ ∃ out', Channel c t lent out' ∧ t.loaded ++ out' = s.loaded ++ out := by
  cases lent with
  | none =>
    unfold receiverStep at hstep
    obtain ⟨_,_,hrequest,_,hreceiver⟩ := hchannel
    rw [hreceiver,hrequest] at hstep
    cases hstep
  | some side =>
    obtain ⟨hframe,out',hlent,hloaded⟩ := lent_receiver hinfo hchannel.2 hstep
    exact ⟨hframe,out',⟨hframe.expecting.trans hchannel.1,hlent⟩,hloaded⟩

theorem closing_receiver (hclosing : Closing s) (hstep : receiverStep c s = some t) :
    Frame s t ∧ t.loaded = s.loaded ∧ Closing t := by
  unfold receiverStep at hstep
  rcases hclosing with ⟨hrequest,hreply,hreceiver⟩ | ⟨hrequest,hreply,hreceiver⟩ |
    ⟨hrequest,hreply,hreceiver⟩
  · rw [hreceiver,hrequest] at hstep
    obtain rfl := Option.some.inj hstep
    exact ⟨⟨rfl,rfl,rfl,rfl,rfl,rfl,rfl,rfl,rfl,rfl⟩,rfl,.inr (.inl ⟨rfl,hreply,rfl⟩)⟩
  · rw [hreceiver] at hstep
    obtain rfl := Option.some.inj hstep
    exact ⟨⟨rfl,rfl,rfl,rfl,rfl,rfl,rfl,rfl,rfl,rfl⟩,rfl,.inr (.inr ⟨hrequest,rfl,rfl⟩)⟩
  · rw [hreceiver] at hstep
    cases hstep

theorem Packing.receiver {lent : Option Side} {out current ahead : List (String × Tensor)}
    (hinfo : Announced c.info c.stream) (h : Packing c s lent out current ahead)
    (hstep : receiverStep c s = some t) : Frame s t ∧ ∃ out', Packing c t lent out' current ahead := by
  have hout : Announced c.info out := by
    intro x hx
    refine hinfo x ?_
    rw [h.order]
    simp [hx]
  obtain ⟨hframe,out',hchannel,hloaded⟩ := channel_receiver hout h.channel hstep
  refine ⟨hframe,out',⟨hchannel,?_,?_,?_,?_,?_,?_,h.room,?_,?_,?_⟩⟩
  · rw [hframe.currentBuffer]
    exact h.apart
  · rw [hloaded,h.order]
  · rw [hloaded,hframe.packed,h.packed]
  · rw [hframe.packed]
    exact h.fits
  · rw [hframe.paramNames,h.names]
  · rw [hframe.usedBytes,h.used]
  · rw [hframe.memory,hframe.queued,hframe.currentBuffer]
    exact h.laid
  · rw [hframe.queued,hframe.currentBuffer]
    exact h.queued
  · rw [hframe.queued]
    exact h.settled

theorem Ended.receiver {lent : Option Side} {out : List (String × Tensor)}
    (hinfo : Announced c.info c.stream) (h : Ended c s lent out)
    (hstep : receiverStep c s = some t) : Frame s t ∧ ∃ out', Ended c t lent out' := by
  have hout : Announced c.info out := by
    intro x hx
    refine hinfo x ?_
    rw [h.order]
    simp [hx]
  obtain ⟨hframe,out',hchannel,hloaded⟩ := channel_receiver hout h.channel hstep
  refine ⟨hframe,out',⟨hchannel,?_,?_,?_,?_⟩⟩
  · rw [hloaded,h.order]
  · rw [hframe.packed,h.packed]
  · rw [hframe.packed]
    exact h.fits
  · rw [hframe.queued,h.queued]

theorem Frame.lentSide (h : Frame s t) : lentSide t = lentSide s := by
  rw [PingPong.lentSide,PingPong.lentSide,h.awaitRecv,h.currentBuffer]

theorem Frame.guard (h : Frame s t) : Guard c t ↔ Guard c s := by
  unfold Guard
  rw [h.trainer,h.rest,h.queued,h.usedBytes]

theorem Delivered.receiver (h : Delivered c s) (hframe : Frame s t) (hloaded : t.loaded = s.loaded) :
    Delivered c t := by
  refine ⟨hloaded.trans h.loaded,hframe.packed.trans h.packed,?_,hframe.queued.trans h.queued⟩
  rw [hframe.packed]
  exact h.fits

theorem body_receiver (hinfo : Announced c.info c.stream) {p : Phase} (h : Body c s p)
    (hstep : receiverStep c s = some t) : Frame s t ∧ Body c t p := by
  cases p with
  | packing =>
    obtain ⟨out,current,hpacking⟩ := h
    obtain ⟨hframe,out',hnext⟩ := hpacking.receiver hinfo hstep
    refine ⟨hframe,out',current,?_⟩
    rw [hframe.lentSide,hframe.trainer,hframe.rest]
    exact hnext
  | sending =>
    obtain ⟨current,hpacking⟩ := h
    obtain ⟨hframe,out',hnext⟩ := hpacking.receiver hinfo hstep
    refine ⟨hframe,current,?_⟩
    rw [hframe.trainer,hframe.rest]
    obtain rfl := hnext.channel.1
    exact hnext
  | ending =>
    obtain ⟨side,out,hended⟩ := h
    obtain ⟨hframe,out',hnext⟩ := hended.receiver hinfo hstep
    refine ⟨hframe,side,out',?_⟩
    rw [hframe.awaitRecv]
    exact hnext
  | completing =>
    obtain ⟨hframe,out',hnext⟩ := Ended.receiver hinfo h hstep
    obtain rfl := hnext.channel.1
    exact ⟨hframe,hnext⟩
  | closing =>
    obtain ⟨hframe,hloaded,hclosing⟩ := closing_receiver h.2.2 hstep
    exact ⟨hframe,h.1.receiver hframe hloaded,hframe.expecting.trans h.2.1,hclosing⟩
  | done =>
    unfold receiverStep at hstep
    rw [h.2.2] at hstep
    cases hstep

theorem inv_receiver (hinfo : Announced c.info c.stream) (h : Inv c s)
    (hstep : receiverStep c s = some t) : Inv c t := by
  obtain ⟨hframe,hbody⟩ := body_receiver hinfo h.body hstep
  refine ⟨?_,hframe.guard.mpr h.guard⟩
  rw [hframe.trainer]
  exact hbody

end Receiver

section Device

variable {c : Setting} {s t : State}

theorem channel_write {lent : Option Side} {out : List (String × Tensor)} {w : Write}
    {queued : List Write} (h : Channel c s lent out) (hside : lent ≠ some w.side) :
    Channel c { s with queued := queued, memory := s.memory.write w } lent out := by
  cases lent with
  | none => exact h
  | some side =>
    have hne : side ≠ w.side := fun heq => hside (congrArg some heq)
    refine ⟨h.1,?_⟩
    cases h.2 with
    | sent hrequest hreply hreceiver hlaid hroom =>
      exact .sent hrequest hreply hreceiver
        (hlaid.congr fun i _ _ => (congrFun (write_other hne) i).symm) hroom
    | loading hrequest hreply hreceiver hlaid =>
      exact .loading hrequest hreply hreceiver
        (hlaid.congr fun i _ _ => (congrFun (write_other hne) i).symm)
    | acknowledging hrequest hreply hreceiver => exact .acknowledging hrequest hreply hreceiver
    | acknowledged hrequest hreply hreceiver => exact .acknowledged hrequest hreply hreceiver

theorem queued_nil (h : Inv c s) (hphase : phase s.trainer ≠ .packing) : s.queued = [] := by
  obtain ⟨hbody,hguard⟩ := h
  unfold Guard at hguard
  cases htrainer : s.trainer <;> rw [htrainer] at hbody hguard hphase
  case send => exact hguard.2
  case awaitLast =>
    obtain ⟨_,_,hended⟩ := hbody
    exact hended.queued
  case complete => exact hbody.queued
  case awaitComplete => exact hbody.1.queued
  case finished => exact hbody.1.queued
  all_goals exact absurd rfl hphase

theorem inv_device (h : Inv c s) (hstep : deviceStep s = some t) : Inv c t := by
  unfold deviceStep at hstep
  cases hqueued : s.queued with
  | nil =>
    rw [hqueued] at hstep
    cases hstep
  | cons w queued =>
    rw [hqueued] at hstep
    obtain rfl := Option.some.inj hstep
    have hphase : phase s.trainer = .packing := by
      by_contra hne
      rw [queued_nil h hne] at hqueued
      cases hqueued
    obtain ⟨hbody,hguard⟩ := h
    rw [hphase] at hbody
    obtain ⟨out,current,hpacking⟩ := hbody
    have hw := hpacking.queued w (by rw [hqueued]; exact List.mem_cons_self)
    refine ⟨?_,?_⟩
    · show Body c _ (phase s.trainer)
      rw [hphase]
      refine ⟨out,current,⟨channel_write hpacking.channel ?_,hpacking.apart,hpacking.order,
        hpacking.packed,hpacking.fits,hpacking.names,hpacking.used,hpacking.room,?_,?_,?_⟩⟩
      · rw [hw.1]
        exact hpacking.apart
      · have hlaid := hpacking.laid
        rw [hqueued] at hlaid
        exact hlaid
      · intro v hv
        exact hpacking.queued v (by rw [hqueued]; exact List.mem_cons_of_mem w hv)
      · intro hcurrent
        have hnil := hpacking.settled hcurrent
        rw [hqueued] at hnil
        cases hnil
    · unfold Guard at hguard ⊢
      dsimp only
      cases htrainer : s.trainer <;> rw [htrainer] at hguard
      case awaitSlot =>
        rw [hqueued] at hguard
        cases hguard.2
      case send =>
        rw [hqueued] at hguard
        cases hguard.2
      case raised e => cases e <;> exact hguard
      all_goals exact hguard

end Device

section Trainer

variable {c : Setting} {s t : State}

theorem channel_receive {side : Side} {out : List (String × Tensor)} (h : Channel c s (some side) out)
    (hreply : s.reply = true) : out = [] ∧ s.request = none ∧ s.receiver = .waiting := by
  cases h.2 with
  | sent _ hno _ _ _ => rw [hno] at hreply; cases hreply
  | loading _ hno _ _ => rw [hno] at hreply; cases hreply
  | acknowledging _ hno _ => rw [hno] at hreply; cases hreply
  | acknowledged hrequest _ hreceiver => exact ⟨rfl,hrequest,hreceiver⟩

theorem inv_next (htrainer : s.trainer = .next) (h : Inv c s) : Inv c (s.take c) := by
  obtain ⟨hbody,_⟩ := h
  rw [htrainer] at hbody
  obtain ⟨out,current,hp⟩ := hbody
  rw [htrainer] at hp
  unfold State.take
  cases hrest : s.rest with
  | nil =>
    dsimp only
    rw [hrest] at hp
    by_cases hnames : s.paramNames = []
    · have hcurrent : current = [] := by
        have heq := hp.names
        rw [hnames] at heq
        exact List.map_eq_nil_iff.mp heq.symm
      subst hcurrent
      have horder : c.stream = s.loaded ++ out := by
        rw [hp.order]
        simp [inHand]
      have hpacked : s.packed = c.stream := by
        rw [hp.packed,horder,List.append_nil]
      rw [if_pos hnames]
      exact ⟨⟨s.currentBuffer.other,out,hp.channel,horder,hpacked,hp.fits,hp.settled rfl⟩,trivial⟩
    · rw [if_neg hnames]
      exact ⟨⟨out,current,hp.channel,hp.apart,hp.order,hp.packed,hp.fits,hp.names,hp.used,hp.room,hp.laid,
        hp.queued,hp.settled⟩,rfl⟩
  | cons item rest =>
    dsimp only
    rw [hrest] at hp
    split_ifs with hlarge hover
    · exact ⟨⟨out,current,hp.channel,hp.apart,hp.order,hp.packed,hp.fits,hp.names,hp.used,hp.room,hp.laid,
        hp.queued,hp.settled⟩,item,rest,rfl,Nat.not_le.mpr hlarge⟩
    · exact ⟨⟨out,current,hp.channel,hp.apart,hp.order,hp.packed,hp.fits,hp.names,hp.used,hp.room,hp.laid,
        hp.queued,hp.settled⟩,Nat.le_of_not_lt hlarge⟩
    · exact ⟨⟨out,current,hp.channel,hp.apart,hp.order,hp.packed,hp.fits,hp.names,hp.used,hp.room,hp.laid,
        hp.queued,hp.settled⟩,Nat.le_of_not_lt hover⟩

theorem receive_lent {side : Side} {out : List (String × Tensor)} {following : Trainer}
    (h : Channel c s (some side) out) (hstep : s.receive following = some t) :
    out = [] ∧ t = { s with trainer := following, reply := false, expecting := false } ∧
      s.request = none ∧ s.receiver = .waiting := by
  unfold State.receive at hstep
  rw [if_pos h.1] at hstep
  split_ifs at hstep with hreply
  obtain ⟨hout,hrequest,hreceiver⟩ := channel_receive h hreply
  exact ⟨hout,(Option.some.inj hstep).symm,hrequest,hreceiver⟩

theorem inv_awaitSlot {behind : Option (String × Tensor)} (htrainer : s.trainer = .awaitSlot behind)
    (h : Inv c s) (hstep : (if s.awaitRecv then s.receive (.send behind)
      else some { s with trainer := .send behind }) = some t) : Inv c t := by
  obtain ⟨hbody,hguard⟩ := h
  unfold Guard at hguard
  rw [htrainer] at hbody hguard
  obtain ⟨out,current,hp⟩ := hbody
  rw [htrainer] at hp
  unfold lentSide at hp
  split_ifs at hstep with hawait
  · rw [if_pos hawait] at hp
    obtain ⟨rfl,rfl,hrequest,hreceiver⟩ := receive_lent hp.channel hstep
    exact ⟨⟨current,⟨rfl,rfl,hrequest,rfl,hreceiver⟩,nofun,hp.order,hp.packed,hp.fits,hp.names,hp.used,
      hp.room,hp.laid,hp.queued,hp.settled⟩,hguard⟩
  · rw [if_neg hawait] at hp
    obtain rfl := Option.some.inj hstep
    obtain rfl := hp.channel.1
    exact ⟨⟨current,hp.channel,nofun,hp.order,hp.packed,hp.fits,hp.names,hp.used,hp.room,hp.laid,
      hp.queued,hp.settled⟩,hguard⟩

theorem other_ne (side : Side) : side ≠ side.other := by cases side <;> decide

theorem other_other (side : Side) : side.other.other = side := by cases side <;> rfl

theorem inv_send {behind : Option (String × Tensor)} (htrainer : s.trainer = .send behind)
    (h : Inv c s) : Inv c (s.sendGroup behind) := by
  obtain ⟨hbody,hguard⟩ := h
  unfold Guard at hguard
  rw [htrainer] at hbody hguard
  obtain ⟨current,hp⟩ := hbody
  rw [htrainer] at hp
  obtain ⟨_,hexpecting,hrequest,hreply,hreceiver⟩ := hp.channel
  have hidle : ¬ s.expecting = true := by
    rw [hexpecting]
    decide
  have hlaid : Laid s.memory s.currentBuffer 0 current := by
    have hlaid := hp.laid
    rw [hguard.2] at hlaid
    exact hlaid
  have hlent : Lent c (some (.group s.currentBuffer s.paramNames s.usedBytes)) s.reply s.receiver
      s.memory s.currentBuffer current :=
    .sent (by rw [hp.names,hp.used]) hreply hreceiver hlaid hp.room
  unfold State.sendGroup State.sendRequest
  dsimp only
  rw [if_neg hidle,if_neg hidle]
  cases behind with
  | none =>
    have hrest : s.rest = [] := hguard.1
    have horder : c.stream = s.loaded ++ current := by
      rw [hp.order,hrest]
      simp [inHand]
    have hpacked : s.packed = c.stream := by
      rw [hp.packed,horder,List.append_nil]
    exact ⟨⟨s.currentBuffer,current,⟨rfl,hlent⟩,horder,hpacked,hp.fits,hguard.2⟩,trivial⟩
  | some item =>
    have hfits : Fits c item := hguard.1
    have hchannel : Channel c { s with
        trainer := .pack item, currentBuffer := s.currentBuffer.other, usedBytes := 0,
        paramNames := [], awaitRecv := true, expecting := true,
        request := some (.group s.currentBuffer s.paramNames s.usedBytes) }
        (some s.currentBuffer.other.other) current := by
      rw [other_other]
      exact ⟨rfl,hlent⟩
    refine ⟨⟨current,[],hchannel,?_,?_,?_,hp.fits,rfl,rfl,Nat.zero_le _,trivial,?_,fun _ => hguard.2⟩,?_⟩
    · exact fun heq => other_ne _ (Option.some.inj heq).symm
    · rw [hp.order,List.append_nil,List.append_nil]
      rfl
    · rw [hp.packed,List.append_nil,List.append_nil]
    · rw [hguard.2]
      exact fun _ hw => absurd hw List.not_mem_nil
    · show 0 + alignedSize item.2.bytes.length ≤ c.half
      rw [Nat.zero_add]
      exact hfits

theorem inv_pack {item : String × Tensor} (htrainer : s.trainer = .pack item) (h : Inv c s) :
    Inv c (s.packTensor c item) := by
  obtain ⟨hbody,hguard⟩ := h
  unfold Guard at hguard
  rw [htrainer] at hbody hguard
  obtain ⟨out,current,hp⟩ := hbody
  rw [htrainer] at hp
  have hroom : s.usedBytes + alignedSize item.2.bytes.length ≤ c.half := hguard
  have hle := le_alignedSize item.2.bytes.length
  have halloc : c.half ≤ c.allocated := le_alignedSize c.half
  have hinside : s.usedBytes + item.2.bytes.length ≤ c.allocated := by omega
  unfold State.packTensor
  rw [if_pos hinside]
  refine ⟨⟨out,current ++ [item],hp.channel,hp.apart,?_,?_,?_,?_,?_,?_,?_,?_,?_⟩,trivial⟩
  · rw [hp.order]
    simp [inHand]
  · rw [hp.packed]
    simp
  · intro x hx
    rcases List.mem_append.mp hx with hx | hx
    · exact hp.fits x hx
    · obtain rfl := List.mem_singleton.mp hx
      unfold Fits
      omega
  · rw [hp.names]
    simp
  · rw [hp.used]
    simp
  · rw [hp.used] at hroom
    simpa using hroom
  · dsimp only
    rw [settle_append,hp.used]
    exact hp.laid.pack item
  · intro w hw
    rcases List.mem_append.mp hw with hw | hw
    · exact hp.queued w hw
    · obtain rfl := List.mem_singleton.mp hw
      exact ⟨rfl,hinside⟩
  · intro hnil
    simp at hnil

theorem inv_awaitLast (htrainer : s.trainer = .awaitLast) (h : Inv c s)
    (hstep : (if s.awaitRecv then s.receive .complete else some { s with trainer := .complete }) =
      some t) : Inv c t := by
  obtain ⟨hbody,_⟩ := h
  rw [htrainer] at hbody
  obtain ⟨side,out,hended⟩ := hbody
  split_ifs at hstep with hawait
  · rw [if_pos hawait] at hended
    obtain ⟨rfl,rfl,hrequest,hreceiver⟩ := receive_lent hended.channel hstep
    exact ⟨⟨⟨rfl,rfl,hrequest,rfl,hreceiver⟩,hended.order,hended.packed,hended.fits,hended.queued⟩,trivial⟩
  · rw [if_neg hawait] at hended
    obtain rfl := Option.some.inj hstep
    obtain rfl := hended.channel.1
    exact ⟨⟨hended.channel,hended.order,hended.packed,hended.fits,hended.queued⟩,trivial⟩

theorem inv_complete (htrainer : s.trainer = .complete) (h : Inv c s) :
    Inv c ({ s with trainer := .awaitComplete }.sendRequest .complete) := by
  obtain ⟨hbody,_⟩ := h
  rw [htrainer] at hbody
  obtain ⟨⟨_,hexpecting,_,hreply,hreceiver⟩,horder,hpacked,hfits,hqueued⟩ := hbody
  have hidle : ¬ s.expecting = true := by
    rw [hexpecting]
    decide
  unfold State.sendRequest
  rw [if_neg hidle]
  exact ⟨⟨⟨by rw [horder,List.append_nil],hpacked,hfits,hqueued⟩,rfl,.inl ⟨rfl,hreply,hreceiver⟩⟩,trivial⟩

theorem inv_awaitComplete (htrainer : s.trainer = .awaitComplete) (h : Inv c s)
    (hstep : s.receive .finished = some t) : Inv c t := by
  obtain ⟨hbody,_⟩ := h
  rw [htrainer] at hbody
  obtain ⟨⟨hloaded,hpacked,hfits,hqueued⟩,hexpecting,hclosing⟩ := hbody
  unfold State.receive at hstep
  rw [if_pos hexpecting] at hstep
  split_ifs at hstep with hreply
  obtain rfl := Option.some.inj hstep
  rcases hclosing with ⟨_,hno,_⟩ | ⟨_,hno,_⟩ | ⟨hrequest,_,hreceiver⟩
  · rw [hno] at hreply
    cases hreply
  · rw [hno] at hreply
    cases hreply
  · exact ⟨⟨⟨hloaded,hpacked,hfits,hqueued⟩,hrequest,hreceiver⟩,trivial⟩

theorem inv_trainer (h : Inv c s) (hstep : trainerStep c s = some t) : Inv c t := by
  unfold trainerStep at hstep
  cases htrainer : s.trainer <;> rw [htrainer] at hstep <;> dsimp only at hstep
  case next =>
    obtain rfl := Option.some.inj hstep
    exact inv_next htrainer h
  case synchronize behind =>
    split_ifs at hstep with hqueued
    obtain rfl := Option.some.inj hstep
    obtain ⟨hbody,hguard⟩ := h
    unfold Guard at hguard
    rw [htrainer] at hbody hguard
    obtain ⟨out,current,hp⟩ := hbody
    rw [htrainer] at hp
    exact ⟨⟨out,current,hp.channel,hp.apart,hp.order,hp.packed,hp.fits,hp.names,hp.used,hp.room,hp.laid,
      hp.queued,hp.settled⟩,hguard,hqueued⟩
  case awaitSlot behind => exact inv_awaitSlot htrainer h hstep
  case send behind =>
    obtain rfl := Option.some.inj hstep
    exact inv_send htrainer h
  case pack item =>
    obtain rfl := Option.some.inj hstep
    exact inv_pack htrainer h
  case awaitLast => exact inv_awaitLast htrainer h hstep
  case complete =>
    split_ifs at hstep
    obtain rfl := Option.some.inj hstep
    exact inv_complete htrainer h
  case awaitComplete => exact inv_awaitComplete htrainer h hstep
  case finished => cases hstep
  case raised => cases hstep

end Trainer

end PingPong
end Refit
end DockyardRL
