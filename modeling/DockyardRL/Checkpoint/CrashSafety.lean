import DockyardRL.Checkpoint.Manager
import Mathlib.Data.List.Chain

/-! Saves that a crash may cut off at any operation, one after the other: which directories
there are, whether they are complete, and whether a further save goes through. -/
namespace DockyardRL
namespace Checkpoint

open Interrupted Program

variable {μ : Type*}

/-- `y` has the directories of `x`, but for `d`. -/
def SameBut (d : DirName) (x y : FileSystem μ) : Prop := ∀ d', d' ≠ d → y.get? d' = x.get? d'

/-- Whatever `y` has, `x` has. -/
def Within (x y : FileSystem μ) : Prop := ∀ d c, y.get? d = some c → x.get? d = some c

/-- A step as late as any of `x` is there in `y`. -/
def Covers (x y : FileSystem μ) : Prop :=
  ∀ n, exists' x (.step n) → ∃ n', n ≤ n' ∧ exists' y (.step n')

theorem Covers.trans {x y z : FileSystem μ} (hxy : Covers x y) (hyz : Covers y z) : Covers x z := by
  intro n hn
  obtain ⟨n',hle,hn'⟩ := hxy n hn
  obtain ⟨n'',hle',hn''⟩ := hyz n' hn'
  exact ⟨n'',hle.trans hle',hn''⟩

instance : Trans (Covers (μ := μ)) Covers Covers := ⟨Covers.trans⟩

theorem SameBut.covers {x y : FileSystem μ} {n : ℕ} (h : SameBut (.tmpStep n) x y) : Covers x y := by
  intro n' hn'
  refine ⟨n',le_rfl,?_⟩
  rwa [exists',h (.step n') nofun]

theorem Within.covers {s x y : FileSystem μ} (h : Within s x) (hy : Covers s y) : Covers x y := by
  intro n hn
  obtain ⟨c,hc⟩ := Option.isSome_iff_exists.mp hn
  exact hy n (Option.isSome_of_eq_some (h _ c hc))

/-- The directory of a step holds all files of one of some saves, and no others. -/
def Complete (saves : List (Save μ)) (n : ℕ) (c : Contents μ) : Prop :=
  ∃ save ∈ saves, save.step = n ∧ c = save.contents

def Sound (saves : List (Save μ)) (fs : FileSystem μ) : Prop :=
  ∀ n c, fs.get? (.step n) = some c → Complete saves n c

/-- No step is there together with what it was to replace. -/
def Tidy (fs : FileSystem μ) : Prop := ∀ n, exists' fs (.step n) → ¬exists' fs (.oldStep n)

theorem Within.sound {saves : List (Save μ)} {x y : FileSystem μ} (h : Within x y)
    (hx : Sound saves x) : Sound saves y := fun n c hc => hx n c (h _ c hc)

theorem Within.exists' {x y : FileSystem μ} (h : Within x y) {d : DirName} (hd : exists' y d) :
    exists' x d := by
  obtain ⟨c,hc⟩ := Option.isSome_iff_exists.mp hd
  exact Option.isSome_of_eq_some (h d c hc)

theorem Within.tidy {x y : FileSystem μ} (h : Within x y) (hx : Tidy x) : Tidy y :=
  fun n hn hold => hx n (h.exists' hn) (h.exists' hold)

theorem SameBut.sound {saves : List (Save μ)} {x y : FileSystem μ} {n : ℕ}
    (h : SameBut (.tmpStep n) x y) (hx : Sound saves x) : Sound saves y := by
  intro n' c hc
  rw [h (.step n') nofun] at hc
  exact hx n' c hc

theorem SameBut.tidy {x y : FileSystem μ} {n : ℕ} (h : SameBut (.tmpStep n) x y) (hx : Tidy x) :
    Tidy y := by
  intro n' hn hold
  rw [exists',h (.step n') nofun] at hn
  rw [exists',h (.oldStep n') nofun] at hold
  exact hx n' hn hold

theorem writes_completes (n : ℕ) (files : List (File μ)) {fs : FileSystem μ} {c : Contents μ}
    (hc : fs.get? (.tmpStep n) = some c) :
    ∃ states fs', Completes perform (.ops (files.map (FsOp.write (.tmpStep n)))) fs states fs' ∧
      (∀ x ∈ states, SameBut (.tmpStep n) fs x) ∧ SameBut (.tmpStep n) fs fs' ∧
      fs'.get? (.tmpStep n) = some (files.foldl Contents.write c) := by
  induction files generalizing fs c with
  | nil => exact ⟨[],fs,.done fs,nofun,fun _ _ => rfl,hc⟩
  | cons file files ih =>
    have hop : perform (.write (.tmpStep n) file) fs = .ok (fs.set (.tmpStep n) (c.write file)) := by
      simp only [perform,hc]
    have hsame : SameBut (.tmpStep n) fs (fs.set (.tmpStep n) (c.write file)) :=
      fun d hd => Dict.get?_set_of_ne _ _ hd
    obtain ⟨states,fs',hcompletes,hstates,hfs',hget⟩ := ih (Dict.get?_set_self fs _ (c.write file))
    refine ⟨_,fs',.act hop hcompletes,?_,fun d hd => (hfs' d hd).trans (hsame d hd),hget⟩
    intro x hx
    rcases List.mem_cons.mp hx with rfl | hx
    · exact hsame
    · exact fun d hd => (hstates x hx d hd).trans (hsame d hd)

/-- A save starts with a clean directory, and leaves all others alone. -/
theorem initTmpCheckpoint_completes (save : Save μ) (fs : FileSystem μ) :
    ∃ states fs', Completes perform (initTmpCheckpoint save) fs states fs' ∧
      (∀ x ∈ states, SameBut (.tmpStep save.step) fs x) ∧ SameBut (.tmpStep save.step) fs fs' ∧
      fs'.get? (.tmpStep save.step) = some save.contents := by
  have hstart : ∀ s : FileSystem μ, SameBut (.tmpStep save.step) fs s →
      s.get? (.tmpStep save.step) = none →
      ∃ states fs', Completes perform (.ops (.mkdir (.tmpStep save.step) ::
          save.files.map (.write (.tmpStep save.step)))) s states fs' ∧
        (∀ x ∈ states, SameBut (.tmpStep save.step) fs x) ∧ SameBut (.tmpStep save.step) fs fs' ∧
        fs'.get? (.tmpStep save.step) = some save.contents := by
    intro s hs hnone
    have hop : perform (.mkdir (.tmpStep save.step)) s =
        .ok (s.set (.tmpStep save.step) (Contents.empty : Contents μ)) := by
      simp [perform,exists',hnone]
    have hsame : SameBut (.tmpStep save.step) fs (s.set (.tmpStep save.step) Contents.empty) :=
      fun d hd => (Dict.get?_set_of_ne _ _ hd).trans (hs d hd)
    obtain ⟨states,fs',hcompletes,hstates,hfs',hget⟩ := writes_completes save.step save.files
      (Dict.get?_set_self s _ Contents.empty)
    refine ⟨_,fs',.act hop hcompletes,?_,fun d hd => (hfs' d hd).trans (hsame d hd),hget⟩
    intro x hx
    rcases List.mem_cons.mp hx with rfl | hx
    · exact hsame
    · exact fun d hd => (hstates x hx d hd).trans (hsame d hd)
  by_cases hstale : exists' fs (.tmpStep save.step) = true
  · have hop : perform (.rmtree (.tmpStep save.step)) fs = .ok (fs.erase (.tmpStep save.step)) := by
      simp [perform,hstale]
    have hsame : SameBut (.tmpStep save.step) fs (fs.erase (.tmpStep save.step)) := by
      intro d hd
      rw [Dict.get?_erase,if_neg hd]
    obtain ⟨states,fs',hcompletes,hstates,hfs'⟩ := hstart _ hsame (by rw [Dict.get?_erase,if_pos rfl])
    refine ⟨_,fs',.look ?_,List.forall_mem_cons.mpr ⟨hsame,hstates⟩,hfs'⟩
    simp only [if_pos hstale]
    exact .act hop hcompletes
  · obtain ⟨states,fs',hcompletes,hstates,hfs'⟩ := hstart fs (fun _ _ => rfl) (by
      rw [← Option.not_isSome_iff_eq_none]
      exact hstale)
    refine ⟨states,fs',.look ?_,hstates,hfs'⟩
    simp only [if_neg hstale]
    exact hcompletes

/-- `y` is `x` after a directory was renamed. -/
def Renamed (src dst : DirName) (c : Contents μ) (x y : FileSystem μ) : Prop :=
  ∀ d, y.get? d = if d = dst then some c else if d = src then none else x.get? d

theorem rename_ok {fs : FileSystem μ} {src dst : DirName} {c : Contents μ}
    (hsrc : fs.get? src = some c) (hdst : fs.get? dst = none) :
    ∃ fs', perform (.rename src dst) fs = .ok fs' ∧ Renamed src dst c fs fs' := by
  refine ⟨(fs.erase src).set dst c,?_,fun d => ?_⟩
  · simp [perform,hsrc,hdst]
  · rw [Dict.get?_set,Dict.get?_erase]

theorem rmtree_ok {fs : FileSystem μ} {d : DirName} (h : exists' fs d) :
    perform (.rmtree d) fs = .ok (fs.erase d) := by
  simp [perform,h]

theorem not_exists' {fs : FileSystem μ} {d : DirName} (h : ¬exists' fs d) : fs.get? d = none := by
  rwa [exists',Option.not_isSome_iff_eq_none] at h

/-- A new step is published by one renaming. -/
theorem publish_new {n : ℕ} {fs : FileSystem μ} {c : Contents μ}
    (htmp : fs.get? (.tmpStep n) = some c) (hnew : ¬exists' fs (.step n)) :
    ∃ y, Completes perform (publish n) fs [y] y ∧ Renamed (.tmpStep n) (.step n) c fs y := by
  obtain ⟨y,hop,hy⟩ := rename_ok htmp (not_exists' hnew)
  refine ⟨y,.look ?_,hy⟩
  simp only [if_neg hnew]
  exact .act hop (.done y)

theorem publish_over {n : ℕ} {fs : FileSystem μ} {c : Contents μ}
    (htmp : fs.get? (.tmpStep n) = some c) (hthere : exists' fs (.step n))
    (hold : ¬exists' fs (.oldStep n)) :
    ∃ x₁ x₂ x₃ replaced, Completes perform (publish n) fs [x₁,x₂,x₃] x₃ ∧
      Renamed (.step n) (.oldStep n) replaced fs x₁ ∧
      Renamed (.tmpStep n) (.step n) c x₁ x₂ ∧
      ∀ d, x₃.get? d = if d = .oldStep n then none else x₂.get? d := by
  obtain ⟨replaced,hreplaced⟩ := Option.isSome_iff_exists.mp hthere
  obtain ⟨x₁,hop₁,h₁⟩ := rename_ok hreplaced (not_exists' hold)
  have htmp₁ : x₁.get? (.tmpStep n) = some c := by rw [h₁]; exact htmp
  have hstep₁ : x₁.get? (.step n) = none := by rw [h₁]; simp
  obtain ⟨x₂,hop₂,h₂⟩ := rename_ok htmp₁ hstep₁
  have hold₂ : exists' x₂ (.oldStep n) = true := by
    rw [exists',h₂,if_neg nofun,if_neg nofun,h₁,if_pos rfl]
    rfl
  refine ⟨x₁,x₂,x₂.erase (.oldStep n),replaced,.look ?_,h₁,h₂,Dict.get?_erase x₂ _⟩
  simp only [if_pos hthere]
  refine .act hop₁ (.act hop₂ (.look ?_))
  simp only [if_pos hold₂]
  exact .act (rmtree_ok hold₂) (.done _)

theorem removals_completes {steps : List ℕ} (hnodup : steps.Nodup) {fs : FileSystem μ}
    (h : ∀ n ∈ steps, exists' fs (.step n)) :
    ∃ states fs', Completes perform (.ops (steps.map fun n => FsOp.rmtree (.step n))) fs states fs' ∧
      ∀ x ∈ states, Within fs x ∧ ∀ n, n ∉ steps → x.get? (.step n) = fs.get? (.step n) := by
  induction steps generalizing fs with
  | nil => exact ⟨[],fs,.done fs,nofun⟩
  | cons n steps ih =>
    obtain ⟨hn,hsteps⟩ := List.nodup_cons.mp hnodup
    obtain ⟨hthere,hrest⟩ := List.forall_mem_cons.mp h
    have hget : ∀ d, (fs.erase (.step n)).get? d = if d = .step n then none else fs.get? d :=
      Dict.get?_erase fs _
    have hwithin : Within fs (fs.erase (.step n)) := by
      intro d c hc
      rw [hget] at hc
      by_cases hd : d = .step n
      · rw [if_pos hd] at hc
        cases hc
      · rwa [if_neg hd] at hc
    have hothers : ∀ n', n' ≠ n → (fs.erase (.step n)).get? (.step n') = fs.get? (.step n') := by
      intro n' hne
      rw [hget,if_neg fun heq => hne (DirName.step.inj heq)]
    have hleft : ∀ n' ∈ steps, exists' (fs.erase (.step n)) (.step n') := by
      intro n' hn'
      rw [exists',hothers n' fun heq => hn (heq ▸ hn')]
      exact hrest n' hn'
    obtain ⟨states,fs',hcompletes,hstates⟩ := ih hsteps hleft
    refine ⟨_,fs',.act (rmtree_ok hthere) hcompletes,?_⟩
    intro x hx
    rcases List.mem_cons.mp hx with rfl | hx
    · exact ⟨hwithin,fun n' hn' => hothers n' fun heq => hn' (heq ▸ List.mem_cons_self)⟩
    · obtain ⟨hx,hkept⟩ := hstates x hx
      refine ⟨fun d c hc => hwithin d c (hx d c hc),fun n' hn' => ?_⟩
      rw [hkept n' fun hmem => hn' (List.mem_cons_of_mem n hmem),
        hothers n' fun heq => hn' (heq ▸ List.mem_cons_self)]

section History

variable {fs : FileSystem μ}

theorem mem_loadCheckpointHistory {n : ℕ} {info : Dict String μ} :
    (n,info) ∈ loadCheckpointHistory fs ↔
      ∃ c, fs.get? (.step n) = some c ∧ c.trainingInfo = some info := by
  rw [loadCheckpointHistory,List.mem_filterMap]
  constructor
  · rintro ⟨⟨d,c⟩,hentry,heq⟩
    cases d with
    | step n' =>
      obtain ⟨info',hinfo,hpair⟩ := Option.map_eq_some_iff.mp heq
      obtain ⟨rfl,rfl⟩ := Prod.mk.inj hpair
      exact ⟨c,Dict.mem_entries_iff.mp hentry,hinfo⟩
    | tmpStep n' => cases heq
    | oldStep n' => cases heq
  · rintro ⟨c,hget,hinfo⟩
    exact ⟨(.step n,c),Dict.mem_entries_iff.mpr hget,by simp [hinfo]⟩

theorem nodup_history : ((loadCheckpointHistory fs).map Prod.fst).Nodup := by
  have hkeys := List.pairwise_map.mp fs.nodup
  rw [loadCheckpointHistory,List.Nodup,List.pairwise_map,List.pairwise_filterMap]
  refine hkeys.imp fun {entry entry'} hne x hx y hy heq => ?_
  obtain ⟨d,c⟩ := entry
  obtain ⟨d',c'⟩ := entry'
  cases d with
  | step n =>
    cases d' with
    | step n' =>
      obtain ⟨info,-,rfl⟩ := Option.map_eq_some_iff.mp hx
      obtain ⟨info',-,rfl⟩ := Option.map_eq_some_iff.mp hy
      exact hne (congrArg DirName.step heq)
    | tmpStep n' => cases hy
    | oldStep n' => cases hy
  | tmpStep n => cases hx
  | oldStep n => cases hx

theorem Save.trainingInfo_contents (save : Save μ) :
    save.contents.trainingInfo = some save.trainingInfo := by
  have hkept : ∀ (files : List (File μ)) (c : Contents μ),
      (∀ file ∈ files, ∃ path data, file = .other path data) →
      (files.foldl Contents.write c).trainingInfo = c.trainingInfo := by
    intro files
    induction files with
    | nil => exact fun _ _ => rfl
    | cons file files ih =>
      intro c h
      obtain ⟨⟨path,data,rfl⟩,hrest⟩ := List.forall_mem_cons.mp h
      rw [List.foldl_cons,ih _ hrest]
      rfl
  rw [Save.contents,Save.files,List.cons_append,List.foldl_cons,hkept]
  · rfl
  · intro file hfile
    rcases List.mem_append.mp hfile with hfile | hfile
    · obtain ⟨config,-,rfl⟩ := Option.map_eq_some_iff.mp (Option.mem_toList.mp hfile)
      exact ⟨_,_,rfl⟩
    · obtain ⟨entry,-,rfl⟩ := List.mem_map.mp hfile
      exact ⟨_,_,rfl⟩

section Retained

variable {saves : List (Save μ)}

/-- Every step of a sound file system is in its history. -/
theorem mem_history (h : Sound saves fs) {n : ℕ} :
    n ∈ (loadCheckpointHistory fs).map Prod.fst ↔ exists' fs (.step n) := by
  constructor
  · intro hmem
    obtain ⟨⟨_,info⟩,hentry,rfl⟩ := List.mem_map.mp hmem
    obtain ⟨c,hget,-⟩ := mem_loadCheckpointHistory.mp hentry
    exact Option.isSome_of_eq_some hget
  · intro hn
    obtain ⟨c,hget⟩ := Option.isSome_iff_exists.mp hn
    obtain ⟨save,-,-,rfl⟩ := h n c hget
    exact List.mem_map.mpr ⟨(n,save.trainingInfo),
      mem_loadCheckpointHistory.mpr ⟨_,hget,save.trainingInfo_contents⟩,rfl⟩

variable [LinearOrder μ] (m : CheckpointManager) (k : ℕ)

variable (fs) in
theorem outdated_sublist : ∃ history : List (ℕ × Dict String μ),
    List.Perm history (loadCheckpointHistory fs) ∧
      (outdated m k fs).Sublist (history.map Prod.fst) := by
  refine ⟨_,List.perm_insertionSort (fun x y => bestFirst m x y) _,?_⟩
  exact List.filter_sublist.trans ((List.drop_sublist k _).map Prod.fst)

theorem nodup_outdated : (outdated m k fs).Nodup := by
  obtain ⟨history,hperm,hsub⟩ := outdated_sublist fs m k
  exact ((hperm.map Prod.fst).nodup_iff.mpr nodup_history).sublist hsub

theorem exists_of_mem_outdated (h : Sound saves fs) {n : ℕ} (hn : n ∈ outdated m k fs) :
    exists' fs (.step n) := by
  obtain ⟨history,hperm,hsub⟩ := outdated_sublist fs m k
  exact (mem_history h).mp ((hperm.map Prod.fst).mem_iff.mp (hsub.subset hn))

theorem exists_kept (h : Sound saves fs) {n : ℕ} (hn : exists' fs (.step n)) :
    ∃ n', n ≤ n' ∧ exists' fs (.step n') ∧ n' ∉ outdated m k fs := by
  have hmem := (mem_history h).mpr hn
  cases hlatest : latestStep (loadCheckpointHistory fs) with
  | none =>
    rw [latestStep,List.max?_eq_none_iff] at hlatest
    rw [hlatest] at hmem
    cases hmem
  | some latest =>
    obtain ⟨hin,hmax⟩ := List.max?_eq_some_iff.mp hlatest
    refine ⟨latest,hmax n hmem,(mem_history h).mp hin,fun hout => ?_⟩
    have hne := (List.mem_filter.mp hout).2
    simp [hlatest] at hne

theorem removeOldCheckpoints_completes (h : Sound saves fs) :
    ∃ states fs', Completes perform (removeOldCheckpoints m) fs states fs' ∧
      ∀ x ∈ states, Within fs x ∧ Covers fs x := by
  rw [removeOldCheckpoints]
  cases m.keepTopK with
  | none => exact ⟨[],fs,.done fs,nofun⟩
  | some k =>
    obtain ⟨states,fs',hcompletes,hstates⟩ := removals_completes (nodup_outdated m k)
      fun n hn => exists_of_mem_outdated m k h hn
    refine ⟨states,fs',.look hcompletes,fun x hx => ⟨(hstates x hx).1,fun n hn => ?_⟩⟩
    obtain ⟨n',hle,hn',hkept⟩ := exists_kept m k h hn
    refine ⟨n',hle,?_⟩
    rwa [exists',(hstates x hx).2 n' hkept]

end Retained
end History

theorem isChain_of_within {x : FileSystem μ} {states : List (FileSystem μ)}
    (h : ∀ y ∈ states, Within x y ∧ Covers x y) : (x :: states).IsChain Covers := by
  have hpair : (x :: states).Pairwise Covers := by
    refine List.pairwise_cons.mpr ⟨fun y hy => (h y hy).2,?_⟩
    refine List.pairwise_of_forall_mem_list fun y hy z hz => ?_
    exact (h y hy).1.covers (h z hz).2
  exact hpair.isChain

theorem isChain_of_sameBut {fs : FileSystem μ} {n : ℕ}
    {states : List (FileSystem μ)} (h : ∀ y ∈ states, SameBut (.tmpStep n) fs y) : (fs :: states).IsChain Covers := by
  have hback {x y : FileSystem μ} (hx : SameBut (.tmpStep n) fs x) (hy : SameBut (.tmpStep n) fs y) :
      Covers x y := by
    intro n' hn'
    refine ⟨n',le_rfl,?_⟩
    rwa [exists',hy (.step n') nofun,← hx (.step n') nofun]
  have hpair : (fs :: states).Pairwise Covers :=
    List.pairwise_cons.mpr ⟨fun y hy => (h y hy).covers,
      List.pairwise_of_forall_mem_list fun y hy z hz => hback (h y hy) (h z hz)⟩
  exact hpair.isChain

/-- One save of a run: by a manager, cut off after some operations or not at all. -/
structure Attempt (μ : Type*) where
  manager : CheckpointManager
  save : Save μ
  crashAfter : Option ℕ

section Runs

variable [LinearOrder μ]

namespace Attempt

variable (a : Attempt μ) (fs : FileSystem μ)

def states : List (FileSystem μ) :=
  cut a.crashAfter ((saveCheckpoint a.manager a.save).trace perform fs)

def after : FileSystem μ := (a.states fs).getLastD fs

/-- The operations of `init_tmp_checkpoint` and of the algorithm loop. -/
def initOps : ℕ := ((initTmpCheckpoint a.save).trace perform fs).length

/-- The attempt gets as far as an operation of `finalize_checkpoint`. -/
def Finalizes : Prop := ∀ k, a.crashAfter = some k → a.initOps fs < k

/-- An attempt that finalizes replaces a step only while a later one is there, and is not cut off
with both the old and the new directory in place; it publishes a step that is not there only
where no old directory of it was left. -/
structure Careful : Prop where
  replacing : a.Finalizes fs → exists' fs (.step a.save.step) →
    (∃ n, a.save.step < n ∧ exists' fs (.step n)) ∧ a.crashAfter ≠ some (a.initOps fs + 2)
  new : a.Finalizes fs → ¬exists' fs (.step a.save.step) → ¬exists' fs (.oldStep a.save.step)

end Attempt

def visitedFrom : FileSystem μ → List (Attempt μ) → List (FileSystem μ)
  | _,[] => []
  | fs,a :: history => a.states fs ++ visitedFrom (a.after fs) history

def leftBehind (history : List (Attempt μ)) : FileSystem μ :=
  history.foldl (fun fs a => a.after fs) .empty

def visited (history : List (Attempt μ)) : List (FileSystem μ) :=
  .empty :: visitedFrom .empty history

def CarefulFrom : FileSystem μ → List (Attempt μ) → Prop
  | _,[] => True
  | fs,a :: history => a.Careful fs ∧ CarefulFrom (a.after fs) history

/-- What is there after a published step, what the latest checkpoint is, and that a further
save goes through. -/
structure CrashSafe (history : List (Attempt μ)) : Prop where
  published : (visited history).Pairwise fun x y => ∀ n, exists' x (.step n) →
    ∃ n' c, n ≤ n' ∧ y.get? (.step n') = some c ∧ Complete (history.map Attempt.save) n' c
  latest : ∀ fs ∈ visited history, ∀ d, getLatestCheckpointPath fs = some d →
    ∃ n c, d = .step n ∧ fs.get? d = some c ∧ Complete (history.map Attempt.save) n c
  fresh : ∀ (m : CheckpointManager) (save : Save μ),
    ∃ fs, (saveCheckpoint m save).finish perform (leftBehind history) = .ok fs

end Runs

section Publishing

variable {saves : List (Save μ)} {fs y : FileSystem μ} {n : ℕ} {c replaced : Contents μ}

theorem Renamed.published_sound (h : Renamed (.tmpStep n) (.step n) c fs y) (hfs : Sound saves fs)
    (hc : Complete saves n c) : Sound saves y := by
  intro n' c' hget
  rw [h] at hget
  by_cases hn : n' = n
  · subst hn
    rw [if_pos rfl] at hget
    exact Option.some.inj hget ▸ hc
  · rw [if_neg fun heq => hn (DirName.step.inj heq),if_neg nofun] at hget
    exact hfs n' c' hget

theorem Renamed.published_covers (h : Renamed (.tmpStep n) (.step n) c fs y) : Covers fs y := by
  intro n' hn'
  refine ⟨n',le_rfl,?_⟩
  rw [exists',h]
  by_cases hn : n' = n
  · simp [hn]
  · rwa [if_neg fun heq => hn (DirName.step.inj heq),if_neg nofun]

theorem Renamed.published_tidy (h : Renamed (.tmpStep n) (.step n) c fs y) (hfs : Tidy fs)
    (hold : ¬exists' fs (.oldStep n)) : Tidy y := by
  intro n' hn' hold'
  rw [exists',h,if_neg nofun,if_neg nofun] at hold'
  by_cases hn : n' = n
  · exact hold (hn ▸ hold')
  · rw [exists',h,if_neg fun heq => hn (DirName.step.inj heq),if_neg nofun] at hn'
    exact hfs n' hn' hold'

theorem Renamed.withdrawn_sound (h : Renamed (.step n) (.oldStep n) replaced fs y)
    (hfs : Sound saves fs) : Sound saves y := by
  intro n' c' hget
  rw [h,if_neg nofun] at hget
  by_cases hn : n' = n
  · rw [if_pos (congrArg DirName.step hn)] at hget
    cases hget
  · rw [if_neg fun heq => hn (DirName.step.inj heq)] at hget
    exact hfs n' c' hget

theorem Renamed.withdrawn_covers (h : Renamed (.step n) (.oldStep n) replaced fs y)
    (hlater : ∃ n', n < n' ∧ exists' fs (.step n')) : Covers fs y := by
  have hkept {n' : ℕ} (hn : n' ≠ n) (hn' : exists' fs (.step n')) : exists' y (.step n') := by
    rwa [exists',h,if_neg nofun,if_neg fun heq => hn (DirName.step.inj heq)]
  intro n' hn'
  by_cases hn : n' = n
  · obtain ⟨later,hlt,hthere⟩ := hlater
    exact ⟨later,hn ▸ hlt.le,hkept hlt.ne' hthere⟩
  · exact ⟨n',le_rfl,hkept hn hn'⟩

theorem Renamed.withdrawn_tidy (h : Renamed (.step n) (.oldStep n) replaced fs y) (hfs : Tidy fs) :
    Tidy y := by
  intro n' hn' hold
  rw [exists',h,if_neg nofun] at hn'
  by_cases hn : n' = n
  · rw [if_pos (congrArg DirName.step hn)] at hn'
    cases hn'
  · rw [if_neg fun heq => hn (DirName.step.inj heq)] at hn'
    rw [exists',h,if_neg fun heq => hn (DirName.oldStep.inj heq),if_neg nofun] at hold
    exact hfs n' hn' hold

/-- Without the directory that was replaced. -/
def Dropped (d : DirName) (x y : FileSystem μ) : Prop :=
  ∀ d', y.get? d' = if d' = d then none else x.get? d'

theorem Dropped.within {x : FileSystem μ} {d : DirName} (h : Dropped d x y) : Within x y := by
  intro d' c' hget
  rw [h] at hget
  by_cases hd : d' = d
  · rw [if_pos hd] at hget
    cases hget
  · rwa [if_neg hd] at hget

theorem Dropped.covers {x : FileSystem μ} (h : Dropped (.oldStep n) x y) : Covers x y := by
  intro n' hn'
  refine ⟨n',le_rfl,?_⟩
  rwa [exists',h,if_neg nofun]

theorem Dropped.tidy {x₁ x₂ : FileSystem μ} (h₂ : Renamed (.tmpStep n) (.step n) c x₁ x₂)
    (h : Dropped (.oldStep n) x₂ y) (hx₁ : Tidy x₁) : Tidy y := by
  intro n' hn' hold
  rw [exists',h] at hold
  by_cases hn : n' = n
  · rw [if_pos (congrArg DirName.oldStep hn)] at hold
    cases hold
  · rw [if_neg fun heq => hn (DirName.oldStep.inj heq),h₂,if_neg nofun,if_neg nofun] at hold
    rw [exists',h,if_neg nofun,h₂,if_neg fun heq => hn (DirName.step.inj heq),if_neg nofun] at hn'
    exact hx₁ n' hn' hold

variable [LinearOrder μ] (m : CheckpointManager)

theorem finalizeCheckpoint_new (hfs : Sound saves fs) (hc : Complete saves n c)
    (htmp : fs.get? (.tmpStep n) = some c) (hnew : ¬exists' fs (.step n)) :
    ∃ y states fs', Completes perform (finalizeCheckpoint m n) fs (y :: states) fs' ∧
      Renamed (.tmpStep n) (.step n) c fs y ∧ ∀ x ∈ states, Within y x ∧ Covers y x := by
  obtain ⟨y,hpublish,hy⟩ := publish_new htmp hnew
  obtain ⟨states,fs',hretention,hstates⟩ :=
    removeOldCheckpoints_completes m (hy.published_sound hfs hc)
  exact ⟨y,states,fs',hpublish.seq hretention,hy,hstates⟩

theorem finalizeCheckpoint_over (hfs : Sound saves fs) (hc : Complete saves n c)
    (htmp : fs.get? (.tmpStep n) = some c) (hthere : exists' fs (.step n))
    (hold : ¬exists' fs (.oldStep n)) :
    ∃ x₁ x₂ x₃ replaced states fs',
      Completes perform (finalizeCheckpoint m n) fs (x₁ :: x₂ :: x₃ :: states) fs' ∧
      Renamed (.step n) (.oldStep n) replaced fs x₁ ∧ Renamed (.tmpStep n) (.step n) c x₁ x₂ ∧
      Dropped (.oldStep n) x₂ x₃ ∧ ∀ x ∈ states, Within x₃ x ∧ Covers x₃ x := by
  obtain ⟨x₁,x₂,x₃,replaced,hpublish,h₁,h₂,h₃⟩ := publish_over htmp hthere hold
  have hsound : Sound saves x₃ := Dropped.within h₃ |>.sound
    (h₂.published_sound (h₁.withdrawn_sound hfs) hc)
  obtain ⟨states,fs',hretention,hstates⟩ := removeOldCheckpoints_completes m hsound
  exact ⟨x₁,x₂,x₃,replaced,states,fs',hpublish.seq hretention,h₁,h₂,h₃,hstates⟩

end Publishing

/-- What holds between attempts. -/
structure AtRest (saves : List (Save μ)) (fs : FileSystem μ) : Prop where
  sound : Sound saves fs
  tidy : Tidy fs

theorem AtRest.within {saves : List (Save μ)} {x y : FileSystem μ} (h : AtRest saves x)
    (hxy : Within x y) : AtRest saves y := ⟨hxy.sound h.sound,hxy.tidy h.tidy⟩

theorem AtRest.sameBut {saves : List (Save μ)} {x y : FileSystem μ} {n : ℕ}
    (h : AtRest saves x) (hxy : SameBut (.tmpStep n) x y) : AtRest saves y := ⟨hxy.sound h.sound,hxy.tidy h.tidy⟩

section Attempts

variable {saves : List (Save μ)} {fs : FileSystem μ}

/-- What a run of an attempt may do to the directories. -/
structure Behaves (saves : List (Save μ)) (fs : FileSystem μ) (states : List (FileSystem μ)) :
    Prop where
  chain : (fs :: states).IsChain Covers
  sound : ∀ x ∈ states, Sound saves x
  atRest : AtRest saves (states.getLastD fs)

theorem Behaves.of_atRest {states part : List (FileSystem μ)} (hfs : AtRest saves fs)
    (hchain : (fs :: states).IsChain Covers) (hall : ∀ x ∈ states, AtRest saves x)
    (hpart : part <+: states) : Behaves saves fs part := by
  have hmem : ∀ x ∈ part, AtRest saves x := fun x hx => hall x (hpart.subset hx)
  have hinitial := List.IsChain.prefix hchain (List.prefix_cons_inj fs |>.mpr hpart)
  refine ⟨hinitial,fun x hx => (hmem x hx).sound,?_⟩
  rcases List.mem_cons.mp (List.getLastD_mem_cons (l := part) (a := fs)) with heq | hlast
  · rw [heq]
    exact hfs
  · exact hmem _ hlast

theorem atRest_replaced {initial states : List (FileSystem μ)} {x₁ x₂ x₃ : FileSystem μ}
    (h₁ : AtRest saves x₁) (h₃ : ∀ x ∈ x₃ :: states, AtRest saves x) {crashAfter : Option ℕ}
    (hpast : ∀ k, crashAfter = some k → initial.length < k)
    (hcut : crashAfter ≠ some (initial.length + 2)) :
    AtRest saves ((cut crashAfter (initial ++ x₁ :: x₂ :: x₃ :: states)).getLastD fs) := by
  have hlast (part : List (FileSystem μ)) (hpart : part <+: states) :
      AtRest saves ((initial ++ x₁ :: x₂ :: x₃ :: part).getLastD fs) := by
    rw [getLastD_append,List.getLastD_cons,List.getLastD_cons,List.getLastD_cons]
    exact h₃ _ (List.cons_subset_cons x₃ hpart.subset List.getLastD_mem_cons)
  cases crashAfter with
  | none => exact hlast states List.prefix_rfl
  | some k =>
    obtain ⟨j,rfl⟩ := Nat.exists_eq_add_of_lt (hpast k rfl)
    rw [cut,Option.map_some,Option.getD_some,List.take_append,List.take_of_length_le (by omega),
      show initial.length + j + 1 - initial.length = j + 1 by omega,List.take_succ_cons]
    match j with
    | 0 =>
      rw [List.take_zero,getLastD_append]
      exact h₁
    | 1 => exact absurd rfl hcut
    | j + 2 =>
      rw [List.take_succ_cons,List.take_succ_cons]
      exact hlast _ (List.take_prefix j states)

theorem Sound.mono {saves' : List (Save μ)} (h : Sound saves fs) (hsub : saves ⊆ saves') :
    Sound saves' fs := by
  intro n c hc
  obtain ⟨save,hsave,heq⟩ := h n c hc
  exact ⟨save,hsub hsave,heq⟩

theorem getLatestCheckpointPath_exists {d : DirName} (h : getLatestCheckpointPath fs = some d) :
    ∃ n, d = .step n ∧ exists' fs (.step n) := by
  obtain ⟨n,hlast,rfl⟩ := Option.map_eq_some_iff.mp h
  have hmem := (List.perm_insertionSort (· ≤ ·) _).mem_iff.mp (List.mem_of_getLast? hlast)
  obtain ⟨⟨d,c⟩,hentry,heq⟩ := List.mem_filterMap.mp hmem
  refine ⟨n,rfl,?_⟩
  cases d with
  | step n' =>
    obtain rfl := Option.some.inj heq
    exact Option.isSome_of_eq_some (Dict.mem_entries_iff.mp hentry)
  | tmpStep n' => cases heq
  | oldStep n' => cases heq

variable [LinearOrder μ]

theorem Attempt.behaves {a : Attempt μ} (hfs : AtRest saves fs) (hsave : a.save ∈ saves)
    (hcareful : a.Careful fs) : Behaves saves fs (a.states fs) := by
  obtain ⟨initial,fs₁,hinit,hinitial,hfs₁,htmp⟩ := initTmpCheckpoint_completes a.save fs
  have hops : a.initOps fs = initial.length := by rw [Attempt.initOps,hinit.trace]
  have htrace := hinit.trace_seq (q := finalizeCheckpoint a.manager a.save.step)
  have hchain : (fs :: initial).IsChain Covers := isChain_of_sameBut hinitial
  have hrest : ∀ x ∈ initial, AtRest saves x := fun x hx => hfs.sameBut (hinitial x hx)
  have hrest₁ : AtRest saves fs₁ := hfs.sameBut hfs₁
  have hcomplete : Complete saves a.save.step a.save.contents := ⟨a.save,hsave,rfl,rfl⟩
  have hstep : exists' fs₁ (.step a.save.step) = exists' fs (.step a.save.step) := by
    rw [exists',hfs₁ (.step a.save.step) nofun,exists']
  have hold : exists' fs₁ (.oldStep a.save.step) = exists' fs (.oldStep a.save.step) := by
    rw [exists',hfs₁ (.oldStep a.save.step) nofun,exists']
  have hlast : initial.getLastD fs = fs₁ := hinit.getLastD
  by_cases hfinal : a.Finalizes fs
  · by_cases hthere : exists' fs (.step a.save.step) = true
    · obtain ⟨hlater,hcut⟩ := hcareful.replacing hfinal hthere
      obtain ⟨x₁,x₂,x₃,replaced,states,fs',hfinalize,h₁,h₂,h₃,hstates⟩ := finalizeCheckpoint_over
        a.manager hrest₁.sound hcomplete htmp (hstep ▸ hthere) (hold ▸ hfs.tidy _ hthere)
      have hlater₁ : ∃ n, a.save.step < n ∧ exists' fs₁ (.step n) := by
        obtain ⟨n,hlt,hn⟩ := hlater
        refine ⟨n,hlt,?_⟩
        rwa [exists',hfs₁ (.step n) nofun]
      have hrest₂ : AtRest saves x₁ :=
        ⟨h₁.withdrawn_sound hrest₁.sound,h₁.withdrawn_tidy hrest₁.tidy⟩
      have hsound₂ : Sound saves x₂ := h₂.published_sound hrest₂.sound hcomplete
      have hrest₃ : AtRest saves x₃ :=
        ⟨h₃.within.sound hsound₂,Dropped.tidy h₂ h₃ hrest₂.tidy⟩
      have hafter : ∀ x ∈ x₃ :: states, AtRest saves x :=
        List.forall_mem_cons.mpr ⟨hrest₃,fun x hx => hrest₃.within (hstates x hx).1⟩
      have hchain' : (fs :: (initial ++ x₁ :: x₂ :: x₃ :: states)).IsChain Covers := by
        refine isChain_append hchain ?_
        rw [hlast]
        exact .cons_cons (h₁.withdrawn_covers hlater₁) (.cons_cons h₂.published_covers
          (.cons_cons h₃.covers (isChain_of_within hstates)))
      have hstates' : a.states fs = cut a.crashAfter (initial ++ x₁ :: x₂ :: x₃ :: states) := by
        rw [Attempt.states,saveCheckpoint,htrace,hfinalize.trace]
      rw [hstates']
      have hinitial := List.IsChain.prefix hchain'
        (List.prefix_cons_inj fs |>.mpr (cut_initial a.crashAfter _))
      refine ⟨hinitial,fun x hx => ?_,
        atRest_replaced hrest₂ hafter (hops ▸ hfinal) (hops ▸ hcut)⟩
      rcases List.mem_append.mp ((cut_initial _ _).subset hx) with hx | hx
      · exact (hrest x hx).sound
      · rcases List.mem_cons.mp hx with rfl | hx
        · exact hrest₂.sound
        · rcases List.mem_cons.mp hx with rfl | hx
          · exact hsound₂
          · exact (hafter x hx).sound
    · obtain ⟨y,states,fs',hfinalize,hy,hstates⟩ := finalizeCheckpoint_new a.manager hrest₁.sound
        hcomplete htmp (hstep ▸ hthere)
      have hresty : AtRest saves y := ⟨hy.published_sound hrest₁.sound hcomplete,
        hy.published_tidy hrest₁.tidy (hold ▸ hcareful.new hfinal hthere)⟩
      have hchain' : (fs :: (initial ++ y :: states)).IsChain Covers := by
        refine isChain_append hchain ?_
        rw [hlast]
        exact .cons_cons hy.published_covers (isChain_of_within hstates)
      have hall : ∀ x ∈ initial ++ y :: states, AtRest saves x := by
        intro x hx
        rcases List.mem_append.mp hx with hx | hx
        · exact hrest x hx
        · rcases List.mem_cons.mp hx with rfl | hx
          · exact hresty
          · exact hresty.within (hstates x hx).1
      refine Behaves.of_atRest hfs hchain' hall ?_
      rw [Attempt.states,saveCheckpoint,htrace,hfinalize.trace]
      exact cut_initial _ _
  · refine Behaves.of_atRest hfs hchain hrest ?_
    simp only [Attempt.Finalizes,not_forall,not_lt,hops] at hfinal
    obtain ⟨k,hk,hle⟩ := hfinal
    rw [Attempt.states,saveCheckpoint,htrace,hk,cut,Option.map_some,Option.getD_some,
      List.take_append_of_le_length hle]
    exact List.take_prefix k initial

theorem visitedFrom_behaves {history : List (Attempt μ)} (hfs : AtRest saves fs)
    (hsaves : ∀ a ∈ history, a.save ∈ saves) (hcareful : CarefulFrom fs history) :
    Behaves saves fs (visitedFrom fs history) ∧
      (visitedFrom fs history).getLastD fs = history.foldl (fun fs a => a.after fs) fs := by
  induction history generalizing fs with
  | nil => exact ⟨⟨.singleton fs,nofun,hfs⟩,rfl⟩
  | cons a history ih =>
    obtain ⟨ha,hrest⟩ := List.forall_mem_cons.mp hsaves
    obtain ⟨hnow,hthen⟩ := hcareful
    have hfirst := Attempt.behaves hfs ha hnow
    obtain ⟨hbehaves,hlast⟩ := ih hfirst.atRest hrest hthen
    have hjoin : (visitedFrom fs (a :: history)).getLastD fs =
        (visitedFrom (a.after fs) history).getLastD (a.after fs) := getLastD_append _ _ _
    refine ⟨⟨isChain_append hfirst.chain hbehaves.chain,fun x hx => ?_,?_⟩,?_⟩
    · rcases List.mem_append.mp hx with hx | hx
      · exact hfirst.sound x hx
      · exact hbehaves.sound x hx
    · rw [hjoin]
      exact hbehaves.atRest
    · rw [hjoin]
      exact hlast

theorem saveCheckpoint_ok (hfs : AtRest saves fs) (m : CheckpointManager) (save : Save μ) :
    ∃ fs', (saveCheckpoint m save).finish perform fs = .ok fs' := by
  obtain ⟨initial,fs₁,hinit,-,hfs₁,htmp⟩ := initTmpCheckpoint_completes save fs
  have hrest₁ : AtRest saves fs₁ := hfs.sameBut hfs₁
  have hsound : Sound (save :: saves) fs₁ := hrest₁.sound.mono (List.subset_cons_self _ _)
  have hcomplete : Complete (save :: saves) save.step save.contents :=
    ⟨save,List.mem_cons_self,rfl,rfl⟩
  by_cases hthere : exists' fs₁ (.step save.step) = true
  · obtain ⟨x₁,x₂,x₃,replaced,states,fs',hfinalize,-⟩ := finalizeCheckpoint_over m hsound hcomplete
      htmp hthere (hrest₁.tidy _ hthere)
    exact ⟨fs',(hinit.seq hfinalize).finish⟩
  · obtain ⟨y,states,fs',hfinalize,-⟩ := finalizeCheckpoint_new m hsound hcomplete htmp hthere
    exact ⟨fs',(hinit.seq hfinalize).finish⟩

/-- Runs of careful attempts are crash-safe. -/
theorem crashSafe_of_careful (history : List (Attempt μ)) (h : CarefulFrom .empty history) :
    CrashSafe history := by
  have hempty : AtRest (history.map Attempt.save) (.empty : FileSystem μ) := ⟨nofun,nofun⟩
  obtain ⟨hbehaves,hlast⟩ := visitedFrom_behaves hempty
    (fun a ha => List.mem_map_of_mem ha) h
  have hsound : ∀ fs ∈ visited history, Sound (history.map Attempt.save) fs :=
    List.forall_mem_cons.mpr ⟨hempty.sound,hbehaves.sound⟩
  refine ⟨?_,fun fs hfs d hd => ?_,fun m save => ?_⟩
  · refine hbehaves.chain.pairwise.imp_of_mem fun {x y} hx hy hcovers n hn => ?_
    obtain ⟨n',hle,hn'⟩ := hcovers n hn
    obtain ⟨c,hc⟩ := Option.isSome_iff_exists.mp hn'
    exact ⟨n',c,hle,hc,hsound y hy n' c hc⟩
  · obtain ⟨n,rfl,hn⟩ := getLatestCheckpointPath_exists hd
    obtain ⟨c,hc⟩ := Option.isSome_iff_exists.mp hn
    exact ⟨n,c,rfl,hc,hsound fs hfs n c hc⟩
  · have hrest : AtRest (history.map Attempt.save) (leftBehind history) := by
      rw [leftBehind,← hlast]
      exact hbehaves.atRest
    exact saveCheckpoint_ok hrest m save

end Attempts

def keepAll : CheckpointManager := ⟨none,false,none⟩

def policySave (step : ℕ) (weights : String) : Save ℕ :=
  ⟨step,⟨[("step",step)],by simp⟩,none,[("policy/weights",weights)]⟩

/-- A save, one that is cut off while it writes, and the same once more. -/
def interruptedRun : List (Attempt ℕ) :=
  [⟨keepAll,policySave 3 "a",none⟩,⟨keepAll,policySave 5 "b",some 2⟩,
    ⟨keepAll,policySave 5 "c",none⟩]

theorem crashSafe_of_careful_interruptedRun : CrashSafe interruptedRun :=
  crashSafe_of_careful interruptedRun
    ⟨⟨fun _ h => absurd h (by decide),fun _ _ => by decide⟩,
      ⟨fun _ h => absurd h (by decide),fun _ _ => by decide⟩,
      ⟨fun _ h => absurd h (by decide),fun _ _ => by decide⟩,trivial⟩

/-- A step is saved again and the save is cut off after `n` operations. -/
def replacingRun (n : ℕ) : List (Attempt ℕ) :=
  [⟨keepAll,policySave 3 "a",none⟩,⟨keepAll,policySave 3 "b",some n⟩]

/-- Cut off between the renamings, no step is left; cut off before the removal, the step can
never be saved again. -/
theorem replacingRun_not_crashSafe :
    (getLatestCheckpointPath (leftBehind (replacingRun 4)) = none ∧ ¬CrashSafe (replacingRun 4)) ∧
    ((saveCheckpoint keepAll (policySave 3 "c")).finish perform (leftBehind (replacingRun 5)) =
      .error (.notEmpty (.oldStep 3)) ∧ ¬CrashSafe (replacingRun 5)) := by
  have hnone : getLatestCheckpointPath (leftBehind (replacingRun 4)) = none := by decide
  have hstuck : (saveCheckpoint keepAll (policySave 3 "c")).finish perform
      (leftBehind (replacingRun 5)) = .error (.notEmpty (.oldStep 3)) := by rfl
  refine ⟨⟨hnone,fun h => ?_⟩,hstuck,fun h => ?_⟩
  · have hlength : (visited (replacingRun 4)).length = 9 := by decide
    obtain ⟨n,c,-,hget,-⟩ := List.pairwise_iff_getElem.mp h.published 4 8 (by omega) (by omega)
      (by omega) 3 (by rfl)
    have hkeys : (visited (replacingRun 4))[8].keys = [.tmpStep 3,.oldStep 3] := by rfl
    have hmem := Dict.mem_keys_iff.mpr (Option.isSome_of_eq_some hget)
    rw [hkeys] at hmem
    simp at hmem
  · obtain ⟨fs,hfs⟩ := h.fresh keepAll (policySave 3 "c")
    rw [hstuck] at hfs
    cases hfs

end Checkpoint
end DockyardRL
