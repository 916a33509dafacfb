import DockyardRL.Refit.PingPongInvariant

/-! Whatever order the two processes and the device take their steps in, no buffer is written while it
is lent, and the exchange ends with every tensor loaded, or with an error before the first tensor
that does not fit. -/
namespace DockyardRL
namespace Refit
namespace PingPong

open Transition

section Runs

variable {c : Setting} {s t : State}

theorem inv_reach (hinfo : Announced c.info c.stream) (hs : Reach (machine c) anyStep s) :
    Inv c s := by
  refine hs.invariant (fun s hinit => ?_) fun s e t h _ hstep => ?_
  · obtain ⟨memory,rfl⟩ := hinit
    exact ⟨⟨[],[],⟨rfl,rfl,rfl,rfl,rfl⟩,nofun,rfl,rfl,nofun,rfl,rfl,Nat.zero_le _,trivial,nofun,
      fun _ => rfl⟩,trivial⟩
  · cases e with
    | trainer => exact inv_trainer h hstep
    | device => exact inv_device h hstep
    | receiver => exact inv_receiver hinfo h hstep

/-- A buffer whose handle is sent and not acknowledged. -/
def Exposed (s : State) (side : Side) : Prop :=
  (∃ paramNames usedBytes, s.request = some (.group side paramNames usedBytes)) ∨
    (∃ views, s.receiver = .loading side views) ∨ s.receiver = .acknowledge side

instance (c : Setting) : DecidablePred (Fits c) := fun x =>
  inferInstanceAs (Decidable (alignedSize x.2.bytes.length ≤ c.half))

/-- What no order of the steps breaks. -/
structure Safe (c : Setting) (s : State) : Prop where
  inside : ∀ w ∈ s.queued, w.start + w.bytes.length ≤ c.allocated
  untouched : ∀ e t, (machine c).step s e = some t → ∀ side, Exposed s side →
    t.memory side = s.memory side
  offsets : ∀ side paramNames usedBytes, s.request = some (.group side paramNames usedBytes) →
    ∃ views, viewsOf c 0 paramNames = some (views,usedBytes)
  received : s.receiver ≠ .failed
  loaded : s.loaded <+: c.stream
  packed : s.packed <+: c.stream.takeWhile fun x => decide (Fits c x)
  errors : ∀ e, s.trainer = .raised e → e = .parameterTooLarge ∧
    ∃ x rest, c.stream = s.packed ++ x :: rest ∧ ¬ Fits c x

/-- No step is possible. -/
def Stuck (c : Setting) (s : State) : Prop := ∀ e, (machine c).step s e = none

theorem inv_cases (h : Inv c s) :
    (∃ lent out more, Channel c s lent out ∧
      (∀ w ∈ s.queued, lent ≠ some w.side ∧ w.start + w.bytes.length ≤ c.allocated) ∧
      c.stream = s.loaded ++ out ++ more ∧ s.packed <+: c.stream ∧ ∀ x ∈ s.packed, Fits c x) ∨
    (Delivered c s ∧ (Closing s ∨ s.request = none ∧ s.receiver = .finished)) := by
  have hpacking : ∀ lent out current ahead, Packing c s lent out current ahead →
      ∃ lent out more, Channel c s lent out ∧
        (∀ w ∈ s.queued, lent ≠ some w.side ∧ w.start + w.bytes.length ≤ c.allocated) ∧
        c.stream = s.loaded ++ out ++ more ∧ s.packed <+: c.stream ∧ ∀ x ∈ s.packed, Fits c x := by
    intro lent out current ahead hp
    refine ⟨lent,out,current ++ ahead,hp.channel,fun w hw => ?_,?_,?_,hp.fits⟩
    · obtain ⟨hside,hinside⟩ := hp.queued w hw
      rw [hside]
      exact ⟨hp.apart,hinside⟩
    · rw [hp.order,List.append_assoc]
    · rw [hp.packed,hp.order]
      exact List.prefix_append _ _
  have hended : ∀ lent out, Ended c s lent out →
      ∃ lent out more, Channel c s lent out ∧
        (∀ w ∈ s.queued, lent ≠ some w.side ∧ w.start + w.bytes.length ≤ c.allocated) ∧
        c.stream = s.loaded ++ out ++ more ∧ s.packed <+: c.stream ∧ ∀ x ∈ s.packed, Fits c x := by
    intro lent out he
    refine ⟨lent,out,[],he.channel,?_,?_,?_,he.fits⟩
    · rw [he.queued]
      exact fun w hw => absurd hw List.not_mem_nil
    · rw [he.order,List.append_nil]
    · exact ⟨[],by rw [List.append_nil,he.packed]⟩
  have hbody := h.body
  generalize phase s.trainer = p at hbody
  cases p with
  | packing =>
    obtain ⟨out,current,hp⟩ := hbody
    exact .inl (hpacking _ _ _ _ hp)
  | sending =>
    obtain ⟨current,hp⟩ := hbody
    exact .inl (hpacking _ _ _ _ hp)
  | ending =>
    obtain ⟨_,out,he⟩ := hbody
    exact .inl (hended _ _ he)
  | completing => exact .inl (hended _ _ hbody)
  | closing => exact .inr ⟨hbody.1,.inl hbody.2.2⟩
  | done => exact .inr ⟨hbody.1,.inr hbody.2⟩

theorem channel_exposed {lent : Option Side} {out : List (String × Tensor)}
    (h : Channel c s lent out) {side : Side} (hside : Exposed s side) : lent = some side := by
  cases lent with
  | none =>
    obtain ⟨_,_,hrequest,_,hreceiver⟩ := h
    unfold Exposed at hside
    rw [hrequest,hreceiver] at hside
    rcases hside with ⟨_,_,heq⟩ | ⟨_,heq⟩ | heq <;> cases heq
  | some other =>
    unfold Exposed at hside
    cases h.2 with
    | sent hrequest _ hreceiver _ _ =>
      rw [hrequest,hreceiver] at hside
      rcases hside with ⟨_,_,heq⟩ | ⟨_,heq⟩ | heq <;> cases heq
      rfl
    | loading hrequest _ hreceiver _ =>
      rw [hrequest,hreceiver] at hside
      rcases hside with ⟨_,_,heq⟩ | ⟨_,heq⟩ | heq <;> cases heq
      rfl
    | acknowledging hrequest _ hreceiver =>
      rw [hrequest,hreceiver] at hside
      rcases hside with ⟨_,_,heq⟩ | ⟨_,heq⟩ | heq <;> cases heq
      rfl
    | acknowledged hrequest _ hreceiver =>
      rw [hrequest,hreceiver] at hside
      rcases hside with ⟨_,_,heq⟩ | ⟨_,heq⟩ | heq <;> cases heq

theorem channel_received {lent : Option Side} {out : List (String × Tensor)}
    (h : Channel c s lent out) : s.receiver ≠ .failed := by
  intro hfailed
  cases lent with
  | none =>
    obtain ⟨_,_,_,_,hreceiver⟩ := h
    rw [hreceiver] at hfailed
    cases hfailed
  | some side =>
    cases h.2 with
    | sent _ _ hreceiver _ _ => rw [hreceiver] at hfailed; cases hfailed
    | loading _ _ hreceiver _ => rw [hreceiver] at hfailed; cases hfailed
    | acknowledging _ _ hreceiver => rw [hreceiver] at hfailed; cases hfailed
    | acknowledged _ _ hreceiver => rw [hreceiver] at hfailed; cases hfailed

theorem channel_offsets {lent : Option Side} {out : List (String × Tensor)}
    (hinfo : Announced c.info out) (h : Channel c s lent out) {side : Side}
    {paramNames : List String} {usedBytes : ℕ}
    (hrequest : s.request = some (.group side paramNames usedBytes)) :
    ∃ views, viewsOf c 0 paramNames = some (views,usedBytes) := by
  cases lent with
  | none =>
    rw [h.2.2.1] at hrequest
    cases hrequest
  | some other =>
    cases h.2 with
    | sent hsent _ _ _ hroom =>
      rw [hsent] at hrequest
      cases hrequest
      have hviews := viewsOf_eq hinfo (Nat.dvd_zero 512)
        (by rw [Nat.zero_add]; exact hroom.trans (le_alignedSize c.half))
      rw [Nat.zero_add] at hviews
      exact ⟨_,hviews⟩
    | loading hno _ _ _ => rw [hno] at hrequest; cases hrequest
    | acknowledging hno _ _ => rw [hno] at hrequest; cases hrequest
    | acknowledged hno _ _ => rw [hno] at hrequest; cases hrequest

theorem sendRequest_memory (request : Request) : (s.sendRequest request).memory = s.memory := by
  unfold State.sendRequest
  split_ifs <;> rfl

theorem receive_memory {following : Trainer} (hstep : s.receive following = some t) :
    t.memory = s.memory := by
  unfold State.receive at hstep
  split_ifs at hstep
  · obtain rfl := Option.some.inj hstep
    rfl
  · obtain rfl := Option.some.inj hstep
    rfl

theorem trainerStep_memory (hstep : trainerStep c s = some t) : t.memory = s.memory := by
  unfold trainerStep at hstep
  cases htrainer : s.trainer <;> rw [htrainer] at hstep <;> dsimp only at hstep
  case next =>
    obtain rfl := Option.some.inj hstep
    unfold State.take
    cases s.rest with
    | nil => rfl
    | cons item rest =>
      dsimp only
      split_ifs <;> rfl
  case synchronize behind =>
    split_ifs at hstep
    obtain rfl := Option.some.inj hstep
    rfl
  case awaitSlot behind =>
    split_ifs at hstep
    · exact receive_memory hstep
    · obtain rfl := Option.some.inj hstep
      rfl
  case send behind =>
    obtain rfl := Option.some.inj hstep
    have hsent := sendRequest_memory (s := s) (.group s.currentBuffer s.paramNames s.usedBytes)
    unfold State.sendGroup
    dsimp only
    split_ifs
    · exact hsent
    · cases behind <;> exact hsent
  case pack item =>
    obtain rfl := Option.some.inj hstep
    unfold State.packTensor
    split_ifs <;> rfl
  case awaitLast =>
    split_ifs at hstep
    · exact receive_memory hstep
    · obtain rfl := Option.some.inj hstep
      rfl
  case complete =>
    split_ifs at hstep
    obtain rfl := Option.some.inj hstep
    exact sendRequest_memory .complete
  case awaitComplete => exact receive_memory hstep
  case finished => cases hstep
  case raised => cases hstep

theorem receiverStep_cases (hstep : receiverStep c s = some t) :
    (s.receiver = .waiting ∧ s.request = some .complete ∧
      t = { s with receiver := .acknowledgeComplete, request := none }) ∨
    (∃ side paramNames usedBytes views, s.receiver = .waiting ∧
      s.request = some (.group side paramNames usedBytes) ∧
      viewsOf c 0 paramNames = some (views,usedBytes) ∧
      t = { s with receiver := .loading side views, request := none }) ∨
    (∃ side paramNames usedBytes, s.receiver = .waiting ∧
      s.request = some (.group side paramNames usedBytes) ∧
      t = { s with receiver := .failed, request := none }) ∨
    (∃ side, s.receiver = .loading side [] ∧ t = { s with receiver := .acknowledge side }) ∨
    (∃ side v views, s.receiver = .loading side (v :: views) ∧
      t = { s with
        receiver := .loading side views
        loaded := s.loaded ++ [loadWeight c s.memory side v] }) ∨
    (∃ side, s.receiver = .acknowledge side ∧ t = { s with receiver := .waiting, reply := true }) ∨
    (s.receiver = .acknowledgeComplete ∧ t = { s with receiver := .finished, reply := true }) := by
  unfold receiverStep at hstep
  cases hreceiver : s.receiver <;> rw [hreceiver] at hstep
  case waiting =>
    cases hrequest : s.request with
    | none =>
      rw [hrequest] at hstep
      cases hstep
    | some request =>
      rw [hrequest] at hstep
      cases request with
      | complete =>
        obtain rfl := Option.some.inj hstep
        exact .inl ⟨rfl,rfl,rfl⟩
      | group side paramNames usedBytes =>
        dsimp only at hstep
        cases hviews : viewsOf c 0 paramNames with
        | none =>
          rw [hviews] at hstep
          obtain rfl := Option.some.inj hstep
          exact .inr (.inr (.inl ⟨side,paramNames,usedBytes,rfl,rfl,rfl⟩))
        | some found =>
          obtain ⟨views,offset⟩ := found
          rw [hviews] at hstep
          dsimp only at hstep
          split_ifs at hstep with hoffset
          · obtain rfl := Option.some.inj hstep
            subst hoffset
            exact .inr (.inl ⟨side,paramNames,offset,views,rfl,rfl,hviews,rfl⟩)
          · obtain rfl := Option.some.inj hstep
            exact .inr (.inr (.inl ⟨side,paramNames,usedBytes,rfl,rfl,rfl⟩))
  case loading side views =>
    cases views with
    | nil =>
      obtain rfl := Option.some.inj hstep
      exact .inr (.inr (.inr (.inl ⟨side,rfl,rfl⟩)))
    | cons v views =>
      obtain rfl := Option.some.inj hstep
      exact .inr (.inr (.inr (.inr (.inl ⟨side,v,views,rfl,rfl⟩))))
  case acknowledge side =>
    obtain rfl := Option.some.inj hstep
    exact .inr (.inr (.inr (.inr (.inr (.inl ⟨side,rfl,rfl⟩)))))
  case acknowledgeComplete =>
    obtain rfl := Option.some.inj hstep
    exact .inr (.inr (.inr (.inr (.inr (.inr ⟨rfl,rfl⟩)))))
  case finished => cases hstep
  case failed => cases hstep

theorem receiverStep_memory (hstep : receiverStep c s = some t) : t.memory = s.memory := by
  rcases receiverStep_cases hstep with ⟨_,_,rfl⟩ | ⟨_,_,_,_,_,_,_,rfl⟩ | ⟨_,_,_,_,_,rfl⟩ | ⟨_,_,rfl⟩ |
    ⟨_,_,_,_,rfl⟩ | ⟨_,_,rfl⟩ | ⟨_,rfl⟩ <;> rfl

theorem memory_of_step {e : Event} (hstep : (machine c).step s e = some t) :
    t.memory = s.memory ∨ ∃ w ∈ s.queued, t.memory = s.memory.write w := by
  cases e with
  | trainer => exact .inl (trainerStep_memory hstep)
  | receiver => exact .inl (receiverStep_memory hstep)
  | device =>
    have hstep : deviceStep s = some t := hstep
    unfold deviceStep at hstep
    cases hqueued : s.queued with
    | nil =>
      rw [hqueued] at hstep
      cases hstep
    | cons w queued =>
      rw [hqueued] at hstep
      obtain rfl := Option.some.inj hstep
      exact .inr ⟨w,List.mem_cons_self,rfl⟩

theorem prefix_takeWhile {α : Type*} {p : α → Bool} {front l : List α} (h : front <+: l)
    (hp : ∀ x ∈ front, p x = true) : front <+: l.takeWhile p := by
  obtain ⟨rest,rfl⟩ := h
  rw [List.takeWhile_append_of_pos hp]
  exact List.prefix_append _ _

theorem safe_of_inv (hinfo : Announced c.info c.stream) (h : Inv c s) : Safe c s := by
  have herrors : ∀ e, s.trainer = .raised e → e = .parameterTooLarge ∧
      ∃ x rest, c.stream = s.packed ++ x :: rest ∧ ¬ Fits c x := by
    intro e he
    obtain ⟨hbody,hguard⟩ := h
    unfold Guard at hguard
    rw [he] at hbody hguard
    obtain ⟨out,current,hp⟩ := hbody
    rw [he] at hp
    cases e with
    | parameterTooLarge =>
      obtain ⟨x,rest,hrest,hlarge⟩ := hguard
      refine ⟨rfl,x,rest,?_,hlarge⟩
      rw [hp.packed,hp.order,hrest]
      rfl
    | copySizeMismatch => exact hguard.elim
    | socketState => exact hguard.elim
  rcases inv_cases h with ⟨lent,out,more,hchannel,hqueued,horder,hpacked,hfits⟩ | ⟨hdelivered,hend⟩
  · have hout : Announced c.info out := by
      intro x hx
      refine hinfo x ?_
      rw [horder]
      simp [hx]
    refine ⟨fun w hw => (hqueued w hw).2,fun e t hstep side hside => ?_,
      fun _ _ _ hrequest => channel_offsets hout hchannel hrequest,channel_received hchannel,?_,
      prefix_takeWhile hpacked fun x hx => decide_eq_true (hfits x hx),herrors⟩
    · rcases memory_of_step hstep with hmem | ⟨w,hw,hmem⟩
      · rw [hmem]
      · have hne : side ≠ w.side := by
          rintro rfl
          exact (hqueued w hw).1 (channel_exposed hchannel hside)
        rw [hmem,write_other hne]
    · rw [horder,List.append_assoc]
      exact List.prefix_append _ _
  · have hnone : ∀ side names used, s.request ≠ some (.group side names used) := by
      intro side names used heq
      rcases hend with (⟨hrequest,_,_⟩ | ⟨hrequest,_,_⟩ | ⟨hrequest,_,_⟩) | ⟨hrequest,_⟩ <;>
        · rw [hrequest] at heq
          cases heq
    have hreceived : s.receiver ≠ .failed := by
      intro heq
      rcases hend with (⟨_,_,hreceiver⟩ | ⟨_,_,hreceiver⟩ | ⟨_,_,hreceiver⟩) | ⟨_,hreceiver⟩ <;>
        · rw [hreceiver] at heq
          cases heq
    refine ⟨?_,fun e t hstep side _ => ?_,fun side names used heq => absurd heq (hnone side names used),
      hreceived,?_,?_,herrors⟩
    · rw [hdelivered.queued]
      exact fun w hw => absurd hw List.not_mem_nil
    · rcases memory_of_step hstep with hmem | ⟨w,hw,_⟩
      · rw [hmem]
      · rw [hdelivered.queued] at hw
        exact absurd hw List.not_mem_nil
    · exact ⟨[],by rw [List.append_nil,hdelivered.loaded]⟩
    · exact prefix_takeWhile ⟨[],by rw [List.append_nil,hdelivered.packed]⟩ fun x hx =>
        decide_eq_true (hdelivered.fits x hx)

def trainerFuel : Trainer → ℕ
  | .next => 15
  | .synchronize none => 14
  | .awaitSlot none => 13
  | .send none => 12
  | .synchronize (some _) => 25
  | .awaitSlot (some _) => 24
  | .send (some _) => 23
  | .pack _ => 18
  | .awaitLast => 7
  | .complete => 6
  | .awaitComplete => 1
  | .finished => 0
  | .raised _ => 0

def namesFuel (s : State) : ℕ :=
  match s.trainer with
  | .next | .synchronize _ | .awaitSlot _ | .send _ | .pack _ => s.paramNames.length
  | _ => 0

def requestFuel : Option Request → ℕ
  | none => 0
  | some (.group _ paramNames _) => paramNames.length + 4
  | some .complete => 3

def receiverFuel : Receiver → ℕ
  | .loading _ views => views.length + 3
  | .acknowledge _ => 2
  | .acknowledgeComplete => 2
  | _ => 0

def fuel (s : State) : ℕ :=
  11 * s.rest.length + trainerFuel s.trainer + namesFuel s + s.queued.length +
    requestFuel s.request + receiverFuel s.receiver

theorem length_viewsOf {keys : List String} {offset : ℕ} {result : List View × ℕ}
    (h : viewsOf c offset keys = some result) : result.1.length = keys.length := by
  induction keys generalizing offset result with
  | nil =>
    obtain rfl := Option.some.inj h
    rfl
  | cons key keys ih =>
    rw [viewsOf] at h
    cases hinfo : c.info.get? key with
    | none =>
      rw [hinfo] at h
      cases h
    | some found =>
      rw [hinfo] at h
      dsimp only at h
      split_ifs at h
      obtain ⟨more,hmore,rfl⟩ := Option.map_eq_some_iff.mp h
      rw [List.length_cons,ih hmore,List.length_cons]

theorem fuel_receive {following : Trainer} (hstep : s.receive following = some t)
    (hnames : ∀ u : State, u.trainer = following → u.paramNames = s.paramNames →
      namesFuel u ≤ namesFuel s) (hless : trainerFuel following < trainerFuel s.trainer) :
    fuel t < fuel s := by
  unfold State.receive at hstep
  split_ifs at hstep
  · obtain rfl := Option.some.inj hstep
    have hle := hnames { s with trainer := following, reply := false, expecting := false } rfl rfl
    simp only [fuel] at hle ⊢
    omega
  · obtain rfl := Option.some.inj hstep
    have hraised : fuel { s with trainer := .raised .socketState } = 11 * s.rest.length + 0 + 0 +
      s.queued.length + requestFuel s.request + receiverFuel s.receiver := rfl
    rw [hraised,fuel]
    omega

theorem fuel_trainer (hstep : trainerStep c s = some t) : fuel t < fuel s := by
  unfold trainerStep at hstep
  cases htrainer : s.trainer <;> rw [htrainer] at hstep <;> dsimp only at hstep
  case next =>
    obtain rfl := Option.some.inj hstep
    unfold State.take
    cases hrest : s.rest with
    | nil =>
      dsimp only
      split_ifs <;> simp only [fuel,namesFuel,trainerFuel,htrainer,hrest] <;> omega
    | cons item rest =>
      dsimp only
      split_ifs <;> simp only [fuel,namesFuel,trainerFuel,htrainer,hrest,List.length_cons] <;> omega
  case synchronize behind =>
    split_ifs at hstep
    obtain rfl := Option.some.inj hstep
    cases behind <;> simp only [fuel,namesFuel,trainerFuel,htrainer] <;> omega
  case awaitSlot behind =>
    split_ifs at hstep
    · refine fuel_receive hstep (fun u hu hnames => ?_) ?_
      · simp only [namesFuel,htrainer,hu,hnames,le_refl]
      · rw [htrainer]
        cases behind <;> simp only [trainerFuel] <;> omega
    · obtain rfl := Option.some.inj hstep
      cases behind <;> simp only [fuel,namesFuel,trainerFuel,htrainer] <;> omega
  case send behind =>
    obtain rfl := Option.some.inj hstep
    unfold State.sendGroup State.sendRequest
    dsimp only
    split_ifs
    · cases behind <;> simp only [fuel,namesFuel,trainerFuel,htrainer] <;> omega
    · cases behind <;>
        simp only [fuel,namesFuel,trainerFuel,htrainer,requestFuel,List.length_nil] <;> omega
  case pack item =>
    obtain rfl := Option.some.inj hstep
    unfold State.packTensor
    split_ifs <;> simp only [fuel,namesFuel,trainerFuel,htrainer,List.length_append,
      List.length_singleton] <;> omega
  case awaitLast =>
    split_ifs at hstep
    · refine fuel_receive hstep (fun u hu _ => ?_) ?_
      · simp only [namesFuel,htrainer,hu,le_refl]
      · rw [htrainer]
        simp only [trainerFuel]
        omega
    · obtain rfl := Option.some.inj hstep
      simp only [fuel,namesFuel,trainerFuel,htrainer]
      omega
  case complete =>
    split_ifs at hstep
    obtain rfl := Option.some.inj hstep
    unfold State.sendRequest
    split_ifs <;> simp only [fuel,namesFuel,trainerFuel,htrainer,requestFuel] <;> omega
  case awaitComplete =>
    refine fuel_receive hstep (fun u hu _ => ?_) ?_
    · simp only [namesFuel,htrainer,hu,le_refl]
    · rw [htrainer]
      simp only [trainerFuel]
      omega
  case finished => cases hstep
  case raised => cases hstep

theorem fuel_receiver (hstep : receiverStep c s = some t) : fuel t < fuel s := by
  rcases receiverStep_cases hstep with ⟨hreceiver,hrequest,rfl⟩ |
    ⟨_,_,_,_,hreceiver,hrequest,hviews,rfl⟩ | ⟨_,_,_,hreceiver,hrequest,rfl⟩ | ⟨_,hreceiver,rfl⟩ |
    ⟨_,_,_,hreceiver,rfl⟩ | ⟨_,hreceiver,rfl⟩ | ⟨hreceiver,rfl⟩
  · simp only [fuel,namesFuel,hreceiver,hrequest,requestFuel,receiverFuel]
    omega
  · have hlength := length_viewsOf hviews
    simp only [fuel,namesFuel,hreceiver,hrequest,requestFuel,receiverFuel] at hlength ⊢
    omega
  · simp only [fuel,namesFuel,hreceiver,hrequest,requestFuel,receiverFuel]
    omega
  · simp only [fuel,namesFuel,hreceiver,receiverFuel,List.length_nil]
    omega
  · simp only [fuel,namesFuel,hreceiver,receiverFuel,List.length_cons]
    omega
  · simp only [fuel,namesFuel,hreceiver,receiverFuel]
    omega
  · simp only [fuel,namesFuel,hreceiver,receiverFuel]
    omega

theorem fuel_step {e : Event} (hstep : (machine c).step s e = some t) : fuel t < fuel s := by
  cases e with
  | trainer => exact fuel_trainer hstep
  | receiver => exact fuel_receiver hstep
  | device =>
    have hstep : deviceStep s = some t := hstep
    unfold deviceStep at hstep
    cases hqueued : s.queued with
    | nil =>
      rw [hqueued] at hstep
      cases hstep
    | cons w queued =>
      rw [hqueued] at hstep
      obtain rfl := Option.some.inj hstep
      simp only [fuel,namesFuel,hqueued,List.length_cons]
      omega

theorem channel_goes {side : Side} {out : List (String × Tensor)} {following : Trainer}
    (h : Channel c s (some side) out) (hreceive : s.receive following = none) :
    receiverStep c s ≠ none := by
  unfold State.receive at hreceive
  rw [if_pos h.1] at hreceive
  split_ifs at hreceive with hreply
  unfold receiverStep
  cases h.2 with
  | sent hrequest _ hreceiver _ _ =>
    rw [hreceiver,hrequest]
    dsimp only
    cases viewsOf c 0 (out.map Prod.fst) with
    | none => nofun
    | some found =>
      dsimp only
      split_ifs <;> nofun
  | loading _ _ hreceiver _ =>
    rw [hreceiver]
    cases out <;> nofun
  | acknowledging _ _ hreceiver =>
    rw [hreceiver]
    nofun
  | acknowledged _ hyes _ => exact absurd hyes hreply

theorem stuck_cases (h : Inv c s) (hstuck : Stuck c s) :
    (s.trainer = .finished ∧ s.receiver = .finished ∧ s.loaded = c.stream ∧ s.packed = c.stream) ∨
      s.trainer = .raised .parameterTooLarge := by
  have htrain : trainerStep c s = none := hstuck .trainer
  have hdevice : deviceStep s = none := hstuck .device
  have hreceive : receiverStep c s = none := hstuck .receiver
  have hqueued : s.queued = [] := by
    unfold deviceStep at hdevice
    cases hqueued : s.queued with
    | nil => rfl
    | cons w queued =>
      rw [hqueued] at hdevice
      cases hdevice
  obtain ⟨hbody,hguard⟩ := h
  unfold Guard at hguard
  unfold trainerStep at htrain
  cases htrainer : s.trainer <;> rw [htrainer] at htrain hbody hguard <;> dsimp only at htrain
  case next => cases htrain
  case synchronize behind =>
    rw [if_pos hqueued] at htrain
    cases htrain
  case awaitSlot behind =>
    obtain ⟨out,current,hp⟩ := hbody
    have hchannel := hp.channel
    unfold lentSide at hchannel
    split_ifs at htrain with hawait
    rw [if_pos hawait] at hchannel
    exact absurd hreceive (channel_goes hchannel htrain)
  case send behind => cases htrain
  case pack item => cases htrain
  case awaitLast =>
    obtain ⟨side,out,he⟩ := hbody
    have hchannel := he.channel
    split_ifs at htrain with hawait
    rw [if_pos hawait] at hchannel
    exact absurd hreceive (channel_goes hchannel htrain)
  case complete =>
    rw [if_pos hqueued] at htrain
    cases htrain
  case awaitComplete =>
    obtain ⟨_,hexpecting,hclosing⟩ := hbody
    unfold State.receive at htrain
    rw [if_pos hexpecting] at htrain
    split_ifs at htrain with hreply
    unfold receiverStep at hreceive
    rcases hclosing with ⟨hrequest,_,hreceiver⟩ | ⟨_,_,hreceiver⟩ | ⟨_,hyes,_⟩
    · rw [hreceiver,hrequest] at hreceive
      cases hreceive
    · rw [hreceiver] at hreceive
      cases hreceive
    · exact absurd hyes hreply
  case finished =>
    obtain ⟨hdelivered,_,hreceiver⟩ := hbody
    exact .inl ⟨rfl,hreceiver,hdelivered.loaded,hdelivered.packed⟩
  case raised e =>
    cases e with
    | parameterTooLarge => exact .inr rfl
    | copySizeMismatch => exact hguard.elim
    | socketState => exact hguard.elim

theorem announced_streamed (cast : Casting) (defaultDtype : DType) (stateDict : Dict String Tensor) :
    Announced (prepareRefitInfo defaultDtype stateDict) (streamed cast defaultDtype stateDict) := by
  intro x hx
  obtain ⟨entry,hentry,rfl⟩ := List.mem_map.mp hx
  rw [cast.shape_convert,cast.dtype_convert]
  exact Dict.mem_entries_iff.mp (List.mem_map_of_mem hentry)

/-- In every order of the steps of the trainer, the device and the inference worker nothing unsafe
happens and the run ends: when every tensor fits with `COMPLETE` acknowledged and everything loaded,
and else with an error, before the first tensor that does not fit is packed. -/
theorem pingPong_exact :
    (∀ (cast : Casting) (defaultDtype : DType) (stateDict : Dict String Tensor),
      Announced (prepareRefitInfo defaultDtype stateDict) (streamed cast defaultDtype stateDict)) ∧
    ∀ c : Setting, Announced c.info c.stream →
      (∀ s e t, (machine c).step s e = some t → fuel t < fuel s) ∧
      ∀ s, Reach (machine c) anyStep s →
        Safe c s ∧
        ((∀ x ∈ c.stream, Fits c x) → (∀ e, s.trainer ≠ .raised e) ∧
          (Stuck c s → s.trainer = .finished ∧ s.receiver = .finished ∧ s.loaded = c.stream)) ∧
        ((∃ x ∈ c.stream, ¬ Fits c x) → Stuck c s → s.trainer = .raised .parameterTooLarge) := by
  refine ⟨announced_streamed,fun c hinfo => ⟨fun s e t => fuel_step,fun s hs => ?_⟩⟩
  have hinv := inv_reach hinfo hs
  have hsafe := safe_of_inv hinfo hinv
  refine ⟨hsafe,fun hfits => ⟨fun e he => ?_,fun hstuck => ?_⟩,fun hlarge hstuck => ?_⟩
  · obtain ⟨_,x,rest,hstream,hlarge⟩ := hsafe.errors e he
    exact hlarge (hfits x (by rw [hstream]; simp))
  · rcases stuck_cases hinv hstuck with ⟨htrainer,hreceiver,hloaded,_⟩ | hraised
    · exact ⟨htrainer,hreceiver,hloaded⟩
    · obtain ⟨_,x,rest,hstream,hlarge⟩ := hsafe.errors _ hraised
      exact absurd (hfits x (by rw [hstream]; simp)) hlarge
  · rcases stuck_cases hinv hstuck with ⟨_,_,_,hpacked⟩ | hraised
    · obtain ⟨x,hx,hnot⟩ := hlarge
      rw [← hpacked] at hx
      have hall := @List.all_takeWhile _ (fun x => decide (Fits c x)) c.stream
      have hfits := List.all_eq_true.mp hall x (hsafe.packed.subset hx)
      exact absurd (of_decide_eq_true hfits) hnot
    · exact hraised

theorem exists_stuck (hs : Reach (machine c) anyStep s) :
    ∃ t, Reach (machine c) anyStep t ∧ Stuck c t := by
  induction hn : fuel s using Nat.strong_induction_on generalizing s with
  | _ n ih =>
    by_cases hstuck : Stuck c s
    · exact ⟨s,hs,hstuck⟩
    · obtain ⟨e,he⟩ := not_forall.mp hstuck
      obtain ⟨t,ht⟩ := Option.ne_none_iff_exists'.mp he
      exact ih (fuel t) (hn ▸ fuel_step ht) (hs.next trivial ht) rfl

def twoGroups : Setting where
  stream := [("mlp.experts.down_proj",⟨.bfloat16,[1,1],[.ofNat 1,.ofNat 2],rfl⟩),
    ("norm",⟨.bfloat16,[1],[.ofNat 3,.ofNat 4],rfl⟩)]
  bufferSizeBytes := 1100
  info := (Dict.empty.set "mlp.experts.down_proj" ([1,1],.bfloat16)).set "norm" ([1],.bfloat16)
  gptOss := true
  transpose := ⟨id,fun _ => rfl⟩

theorem pingPong_twoGroups : ∃ s, Reach (machine twoGroups) anyStep s ∧
    s.trainer = .finished ∧ s.loaded = twoGroups.stream := by
  have hinfo : Announced twoGroups.info twoGroups.stream := by
    intro x hx
    rcases List.mem_cons.mp hx with rfl | hx
    · rfl
    · obtain rfl := List.mem_singleton.mp hx
      rfl
  have hfits : ∀ x ∈ twoGroups.stream, Fits twoGroups x := by decide
  obtain ⟨s,hs,hstuck⟩ := exists_stuck (.start ⟨fun _ _ => 0,rfl⟩ : Reach (machine twoGroups) anyStep _)
  obtain ⟨_,hdone,_⟩ := (pingPong_exact.2 twoGroups hinfo).2 s hs
  obtain ⟨htrainer,_,hloaded⟩ := (hdone hfits).2 hstuck
  exact ⟨s,hs,htrainer,hloaded⟩

end Runs

end PingPong
end Refit
end DockyardRL
