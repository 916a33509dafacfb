import DockyardRL.Checkpoint.CrashSafety

/-! Retention against selection: both order the checkpoints in one way, with the missing metrics as
sentinels, so that the checkpoint that is selected is never removed. -/
namespace DockyardRL
namespace Checkpoint

open Interrupted Program

variable {μ : Type*} [LinearOrder μ] (m : CheckpointManager)

def getBestCheckpointPath (fs : FileSystem μ) : Option DirName :=
  let history := loadCheckpointHistory fs
  if history.isEmpty then none
  else match m.metricName with
    | none => getLatestCheckpointPath fs
    | some metric =>
      let valid := history.filter fun c => (c.2.get? metric).isSome
      if valid.isEmpty then getLatestCheckpointPath fs
      else (valid.insertionSort fun x y => bestFirst m x y).head?.map fun c => .step c.1

/-- `x` is at least as good as `y`: with the metric before without it, then by the metric, then newer
before older. -/
def Preferred (x y : ℕ × Dict String μ) : Prop :=
  match m.metricName with
  | none => y.1 ≤ x.1
  | some metric => match x.2.get? metric, y.2.get? metric with
    | some a, some b => (if m.higherIsBetter then b < a else a < b) ∨ (a = b ∧ y.1 ≤ x.1)
    | some _, none => True
    | none, some _ => False
    | none, none => y.1 ≤ x.1

omit [LinearOrder μ] in
theorem metricOrBot_some {metric : String} {info : Dict String μ} {a : μ}
    (h : info.get? metric = some a) : metricOrBot metric info = (a : WithBot μ) := h

omit [LinearOrder μ] in
theorem metricOrBot_none {metric : String} {info : Dict String μ} (h : info.get? metric = none) :
    metricOrBot metric info = ⊥ := h

omit [LinearOrder μ] in
theorem metricOrTop_some {metric : String} {info : Dict String μ} {a : μ}
    (h : info.get? metric = some a) : metricOrTop metric info = (a : WithTop μ) := h

omit [LinearOrder μ] in
theorem metricOrTop_none {metric : String} {info : Dict String μ} (h : info.get? metric = none) :
    metricOrTop metric info = ⊤ := h

variable {m} {x y z : ℕ × Dict String μ}

theorem bestFirst_iff : bestFirst m x y = true ↔ Preferred m x y := by
  rw [bestFirst,Preferred]
  cases m.metricName with
  | none => simp
  | some metric =>
    dsimp only
    by_cases hhigher : m.higherIsBetter = true
    · rw [if_pos hhigher,decide_eq_true_iff,Prod.Lex.toLex_le_toLex]
      cases hx : x.2.get? metric with
      | none =>
        rw [metricOrBot_none hx]
        cases hy : y.2.get? metric with
        | none => simp [metricOrBot_none hy]
        | some b => simp [metricOrBot_some hy]
      | some a =>
        rw [metricOrBot_some hx]
        cases hy : y.2.get? metric with
        | none => simp [metricOrBot_none hy]
        | some b => simp [metricOrBot_some hy,hhigher,eq_comm]
    · rw [if_neg hhigher,decide_eq_true_iff,Prod.Lex.toLex_le_toLex]
      cases hx : x.2.get? metric with
      | none =>
        rw [metricOrTop_none hx]
        cases hy : y.2.get? metric with
        | none => simp [metricOrTop_none hy]
        | some b => simp [metricOrTop_some hy]
      | some a =>
        rw [metricOrTop_some hx]
        cases hy : y.2.get? metric with
        | none => simp [metricOrTop_none hy]
        | some b => simp [metricOrTop_some hy,hhigher]

theorem bestFirst_total (x y : ℕ × Dict String μ) :
    bestFirst m x y = true ∨ bestFirst m y x = true := by
  rw [bestFirst,bestFirst]
  cases m.metricName with
  | none => simpa using le_total y.1 x.1
  | some metric =>
    dsimp only
    split_ifs
    · simpa only [decide_eq_true_iff] using le_total _ _
    · simpa only [decide_eq_true_iff] using le_total _ _

theorem bestFirst_trans (hxy : bestFirst m x y = true) (hyz : bestFirst m y z = true) :
    bestFirst m x z = true := by
  rw [bestFirst] at hxy hyz ⊢
  cases hmetric : m.metricName with
  | none =>
    rw [hmetric] at hxy hyz
    simp only [decide_eq_true_iff] at hxy hyz ⊢
    exact hyz.trans hxy
  | some metric =>
    rw [hmetric] at hxy hyz
    dsimp only at hxy hyz ⊢
    split_ifs at hxy hyz ⊢
    · simp only [decide_eq_true_iff] at hxy hyz ⊢
      exact hyz.trans hxy
    · simp only [decide_eq_true_iff] at hxy hyz ⊢
      exact hxy.trans hyz

theorem Preferred.step_eq (hxy : Preferred m x y) (hyx : Preferred m y x) : x.1 = y.1 := by
  rw [← bestFirst_iff,bestFirst] at hxy hyx
  cases hmetric : m.metricName with
  | none =>
    rw [hmetric] at hxy hyx
    simp only [decide_eq_true_iff] at hxy hyx
    omega
  | some metric =>
    rw [hmetric] at hxy hyx
    dsimp only at hxy hyx
    split_ifs at hxy hyx
    · simp only [decide_eq_true_iff] at hxy hyx
      exact congrArg (fun p => (ofLex p).2) (hyx.antisymm hxy)
    · simp only [decide_eq_true_iff] at hxy hyx
      exact OrderDual.toDual_inj.mp (congrArg (fun p => (ofLex p).2) (hxy.antisymm hyx))

variable (m) in
/-- The best of some checkpoints. -/
def IsBest (history : List (ℕ × Dict String μ)) (x : ℕ × Dict String μ) : Prop :=
  x ∈ history ∧ ∀ y ∈ history, Preferred m x y

theorem exists_sorted (m : CheckpointManager) {history : List (ℕ × Dict String μ)}
    (hne : history ≠ []) : ∃ best rest,
      history.insertionSort (fun x y => bestFirst m x y) = best :: rest ∧ IsBest m history best := by
  have htotal : Std.Total fun x y : ℕ × Dict String μ => bestFirst m x y = true := ⟨bestFirst_total⟩
  have htrans : IsTrans _ fun x y : ℕ × Dict String μ => bestFirst m x y = true :=
    ⟨fun _ _ _ => bestFirst_trans⟩
  have hperm := List.perm_insertionSort (fun x y => bestFirst m x y = true) history
  have hsorted := List.pairwise_insertionSort (fun x y => bestFirst m x y = true) history
  cases hsort : history.insertionSort (fun x y => bestFirst m x y) with
  | nil =>
    rw [hsort] at hperm
    exact absurd hperm.nil_eq.symm hne
  | cons best rest =>
    rw [hsort] at hperm hsorted
    refine ⟨best,rest,rfl,hperm.mem_iff.mp List.mem_cons_self,fun y hy => ?_⟩
    rw [← bestFirst_iff]
    obtain rfl | hrest := List.mem_cons.mp (hperm.mem_iff.mpr hy)
    · exact (bestFirst_total y y).elim id id
    · exact List.rel_of_pairwise_cons hsorted hrest

def without (steps : List ℕ) (fs : FileSystem μ) : FileSystem μ :=
  steps.foldl (fun fs n => fs.erase (.step n)) fs

omit [LinearOrder μ] in
theorem get?_without (steps : List ℕ) (fs : FileSystem μ) (d : DirName) :
    (without steps fs).get? d = if ∃ n ∈ steps, d = .step n then none else fs.get? d := by
  induction steps generalizing fs with
  | nil => simp [without]
  | cons n steps ih =>
    have hrest := ih (fs.erase (.step n))
    rw [without] at hrest
    rw [without,List.foldl_cons,hrest,Dict.get?_erase]
    by_cases hd : d = .step n <;> simp [hd]

omit [LinearOrder μ] in
theorem finish_removals {steps : List ℕ} (hnodup : steps.Nodup) {fs : FileSystem μ}
    (h : ∀ n ∈ steps, exists' fs (.step n)) :
    (Program.ops (steps.map fun n => FsOp.rmtree (.step n))).finish perform fs =
      .ok (without steps fs) := by
  induction steps generalizing fs with
  | nil => rfl
  | cons n steps ih =>
    obtain ⟨hn,hsteps⟩ := List.nodup_cons.mp hnodup
    obtain ⟨hthere,hrest⟩ := List.forall_mem_cons.mp h
    rw [List.map_cons,Program.ops,Program.finish,rmtree_ok hthere]
    refine ih hsteps fun n' hn' => ?_
    have hne : n' ≠ n := fun heq => hn (heq ▸ hn')
    rw [exists',Dict.get?_erase,if_neg fun heq => hne (DirName.step.inj heq)]
    exact hrest n' hn'

omit [LinearOrder μ] in
theorem history_without (steps : List ℕ) (fs : FileSystem μ) (x : ℕ × Dict String μ) :
    x ∈ loadCheckpointHistory (without steps fs) ↔ x ∈ loadCheckpointHistory fs ∧ x.1 ∉ steps := by
  obtain ⟨n,info⟩ := x
  rw [mem_loadCheckpointHistory,mem_loadCheckpointHistory,get?_without]
  by_cases hn : n ∈ steps <;> simp [hn]

variable (fs : FileSystem μ) (k : ℕ)

theorem mem_outdated_iff {n : ℕ} : n ∈ outdated m k fs ↔
    (∃ info, (n,info) ∈ ((loadCheckpointHistory fs).insertionSort fun x y => bestFirst m x y).drop k) ∧
      latestStep (loadCheckpointHistory fs) ≠ some n := by
  rw [outdated,List.mem_filter,List.mem_map]
  simp

theorem removeOldCheckpoints_finish (hk : m.keepTopK = some k) :
    (removeOldCheckpoints m).finish perform fs = .ok (without (outdated m k fs) fs) := by
  rw [removeOldCheckpoints,hk]
  refine finish_removals (nodup_outdated m k) fun n hn => ?_
  obtain ⟨⟨info,hinfo⟩,-⟩ := (mem_outdated_iff fs k).mp hn
  have hmem := (List.mem_insertionSort _).mp (List.mem_of_mem_drop hinfo)
  obtain ⟨c,hget,-⟩ := mem_loadCheckpointHistory.mp hmem
  exact Option.isSome_of_eq_some hget

theorem best_not_outdated (hk : 1 ≤ k) {x : ℕ × Dict String μ}
    (hx : IsBest m (loadCheckpointHistory fs) x) : x.1 ∉ outdated m k fs := by
  intro hout
  obtain ⟨⟨info,hinfo⟩,-⟩ := (mem_outdated_iff fs k).mp hout
  obtain ⟨best,rest,hsort,hbest⟩ := exists_sorted m (List.ne_nil_of_mem hx.1)
  have hsame : x.1 = best.1 := (hx.2 best hbest.1).step_eq (hbest.2 x hx.1)
  have hnodup : ((best :: rest).map Prod.fst).Nodup := by
    have hperm := List.perm_insertionSort (fun x y => bestFirst m x y = true) (loadCheckpointHistory fs)
    rw [hsort] at hperm
    exact (hperm.map Prod.fst).nodup_iff.mpr nodup_history
  obtain ⟨j,rfl⟩ := Nat.exists_eq_add_of_le' hk
  rw [hsort,List.drop_succ_cons] at hinfo
  have hrest : x.1 ∈ rest.map Prod.fst :=
    List.mem_map.mpr ⟨_,List.mem_of_mem_drop hinfo,rfl⟩
  rw [List.map_cons,List.nodup_cons] at hnodup
  exact hnodup.1 (hsame ▸ hrest)

theorem length_history_without :
    (loadCheckpointHistory (without (outdated m k fs) fs)).length ≤ k + 1 := by
  have hsub : (loadCheckpointHistory (without (outdated m k fs) fs)).map Prod.fst ⊆
      (((loadCheckpointHistory fs).insertionSort fun x y => bestFirst m x y).take k).map Prod.fst ++
        (latestStep (loadCheckpointHistory fs)).toList := by
    intro n hn
    obtain ⟨⟨_,info⟩,hmem,rfl⟩ := List.mem_map.mp hn
    obtain ⟨hhistory,hkept⟩ := (history_without _ _ _).mp hmem
    have hsorted := (List.mem_insertionSort fun x y => bestFirst m x y = true).mpr hhistory
    rw [← List.take_append_drop k (List.insertionSort _ _)] at hsorted
    obtain htake | hdrop := List.mem_append.mp hsorted
    · exact List.mem_append_left _ (List.mem_map.mpr ⟨_,htake,rfl⟩)
    · refine List.mem_append_right _ (Option.mem_toList.mpr ?_)
      by_contra hlatest
      exact hkept ((mem_outdated_iff fs k).mpr ⟨⟨info,hdrop⟩,hlatest⟩)
  have hle := (List.subperm_of_subset nodup_history hsub).length_le
  rw [List.length_map,List.length_append,List.length_map,List.length_take] at hle
  have hone : (latestStep (loadCheckpointHistory fs)).toList.length ≤ 1 := by
    cases latestStep (loadCheckpointHistory fs) <;> simp
  omega

theorem latest_not_outdated {n : ℕ} (h : latestStep (loadCheckpointHistory fs) = some n) :
    n ∉ outdated m k fs := fun hout => ((mem_outdated_iff fs k).mp hout).2 h

omit [LinearOrder μ] in
theorem exists'_without (steps : List ℕ) (n : ℕ) :
    exists' (without steps fs) (.step n) = true ↔ exists' fs (.step n) = true ∧ n ∉ steps := by
  rw [exists',get?_without,exists']
  by_cases hn : n ∈ steps <;> simp [hn]

omit [LinearOrder μ] in
theorem mem_stepDirs {n : ℕ} : n ∈ stepDirs fs ↔ exists' fs (.step n) = true := by
  rw [stepDirs,List.mem_filterMap,exists',Option.isSome_iff_exists]
  constructor
  · rintro ⟨⟨d,c⟩,hentry,heq⟩
    cases d with
    | step n' =>
      obtain rfl := Option.some.inj heq
      exact ⟨c,Dict.mem_entries_iff.mp hentry⟩
    | tmpStep n' => cases heq
    | oldStep n' => cases heq
  · rintro ⟨c,hget⟩
    exact ⟨(.step n,c),Dict.mem_entries_iff.mpr hget,rfl⟩

omit [LinearOrder μ] in
theorem getLatestCheckpointPath_eq_some {n : ℕ} (hn : exists' fs (.step n) = true)
    (hmax : ∀ n', exists' fs (.step n') = true → n' ≤ n) :
    getLatestCheckpointPath fs = some (.step n) := by
  have hperm := List.perm_insertionSort (· ≤ ·) (stepDirs fs)
  have hsorted := List.pairwise_insertionSort (· ≤ ·) (stepDirs fs)
  have hmem := hperm.mem_iff.mpr ((mem_stepDirs fs).mpr hn)
  obtain ⟨front,last,hlast⟩ := List.eq_nil_or_concat (List.insertionSort (· ≤ ·) (stepDirs fs)) |>.resolve_left
    (List.ne_nil_of_mem hmem)
  rw [List.concat_eq_append] at hlast
  have hin : last ∈ stepDirs fs := hperm.mem_iff.mp (by rw [hlast]; simp)
  have hle : last ≤ n := hmax last ((mem_stepDirs fs).mp hin)
  have hge : n ≤ last := by
    rw [hlast] at hmem hsorted
    obtain hfront | hlast := List.mem_append.mp hmem
    · exact (List.pairwise_append.mp hsorted).2.2 n hfront last (List.mem_singleton_self _)
    · exact (List.mem_singleton.mp hlast).le
  rw [getLatestCheckpointPath,hlast,List.getLast?_concat,hle.antisymm hge]
  rfl

omit [LinearOrder μ] in
theorem exists_latest {n : ℕ} (hn : exists' fs (.step n) = true) :
    ∃ n', exists' fs (.step n') = true ∧ ∀ n'', exists' fs (.step n'') = true → n'' ≤ n' := by
  obtain ⟨latest,hlatest⟩ := Option.isSome_iff_exists.mp
    (List.isSome_max?_of_mem ((mem_stepDirs fs).mpr hn))
  obtain ⟨hmem,hmax⟩ := List.max?_eq_some_iff.mp hlatest
  exact ⟨latest,(mem_stepDirs fs).mp hmem,fun n'' hn'' => hmax n'' ((mem_stepDirs fs).mpr hn'')⟩

variable (m) in
/-- Some checkpoint has the metric. -/
def Measured (history : List (ℕ × Dict String μ)) : Prop :=
  ∃ metric, m.metricName = some metric ∧ ∃ x ∈ history, (x.2.get? metric).isSome = true

theorem getBestCheckpointPath_measured (h : Measured m (loadCheckpointHistory fs)) :
    ∃ best, IsBest m (loadCheckpointHistory fs) best ∧
      getBestCheckpointPath m fs = some (.step best.1) := by
  obtain ⟨metric,hmetric,x,hx,hvalid⟩ := h
  have hmem : x ∈ (loadCheckpointHistory fs).filter fun c => (c.2.get? metric).isSome :=
    List.mem_filter.mpr ⟨hx,hvalid⟩
  obtain ⟨best,rest,hsort,hbest⟩ := exists_sorted m (List.ne_nil_of_mem hmem)
  obtain ⟨hin,hsome⟩ := List.mem_filter.mp hbest.1
  refine ⟨best,⟨hin,fun y hy => ?_⟩,?_⟩
  · by_cases hyvalid : (y.2.get? metric).isSome = true
    · exact hbest.2 y (List.mem_filter.mpr ⟨hy,hyvalid⟩)
    · obtain ⟨a,ha⟩ := Option.isSome_iff_exists.mp hsome
      rw [Option.not_isSome_iff_eq_none] at hyvalid
      rw [Preferred,hmetric]
      simp only [ha,hyvalid]
  · have hhistory := List.ne_nil_of_mem hx
    have hne := List.ne_nil_of_mem hmem
    rw [getBestCheckpointPath,hmetric]
    simp only [List.isEmpty_iff,if_neg hhistory,if_neg hne,hsort]
    rfl

theorem getBestCheckpointPath_unmeasured (hne : loadCheckpointHistory fs ≠ [])
    (h : ¬Measured m (loadCheckpointHistory fs)) :
    getBestCheckpointPath m fs = getLatestCheckpointPath fs := by
  rw [getBestCheckpointPath]
  simp only [List.isEmpty_iff,if_neg hne]
  cases hmetric : m.metricName with
  | none => rfl
  | some metric =>
    have hnone : ((loadCheckpointHistory fs).filter fun c => (c.2.get? metric).isSome) = [] :=
      List.filter_eq_nil_iff.mpr fun x hx hvalid => h ⟨metric,hmetric,x,hx,hvalid⟩
    simp only [hnone,if_true]

theorem IsBest.measured {history : List (ℕ × Dict String μ)} {best : ℕ × Dict String μ}
    (hbest : IsBest m history best) {metric : String} (hmetric : m.metricName = some metric)
    {x : ℕ × Dict String μ} (hx : x ∈ history) (hvalid : (x.2.get? metric).isSome = true) :
    (best.2.get? metric).isSome = true := by
  have hpreferred := hbest.2 x hx
  obtain ⟨a,ha⟩ := Option.isSome_iff_exists.mp hvalid
  rw [Preferred,hmetric] at hpreferred
  cases hsome : best.2.get? metric with
  | some b => rfl
  | none => simp only [ha,hsome] at hpreferred

theorem getBestCheckpointPath_without (hk : 1 ≤ k) :
    getBestCheckpointPath m (without (outdated m k fs) fs) = getBestCheckpointPath m fs := by
  have hsub : ∀ x ∈ loadCheckpointHistory (without (outdated m k fs) fs),
      x ∈ loadCheckpointHistory fs := fun x hx => ((history_without _ _ _).mp hx).1
  by_cases hne : loadCheckpointHistory fs = []
  · have hempty : loadCheckpointHistory (without (outdated m k fs) fs) = [] :=
      List.eq_nil_iff_forall_not_mem.mpr fun x hx => by
        have hmem := hsub x hx
        rw [hne] at hmem
        cases hmem
    rw [getBestCheckpointPath,getBestCheckpointPath,hne,hempty]
    rfl
  · obtain ⟨best,rest,-,hbest⟩ := exists_sorted m hne
    have hkept : IsBest m (loadCheckpointHistory (without (outdated m k fs) fs)) best :=
      ⟨(history_without _ _ _).mpr ⟨hbest.1,best_not_outdated fs k hk hbest⟩,
        fun y hy => hbest.2 y (hsub y hy)⟩
    by_cases hmeasured : Measured m (loadCheckpointHistory fs)
    · obtain ⟨first,hfirst,hselected⟩ := getBestCheckpointPath_measured fs hmeasured
      obtain ⟨metric,hmetric,x,hx,hvalid⟩ := hmeasured
      obtain ⟨second,hsecond,hselected'⟩ := getBestCheckpointPath_measured
        (without (outdated m k fs) fs) ⟨metric,hmetric,best,hkept.1,hbest.measured hmetric hx hvalid⟩
      rw [hselected,hselected',(hfirst.2 best hbest.1).step_eq (hbest.2 first hfirst.1),
        (hsecond.2 best hkept.1).step_eq (hkept.2 second hsecond.1)]
    · have hunmeasured : ¬Measured m (loadCheckpointHistory (without (outdated m k fs) fs)) := by
        rintro ⟨metric,hmetric,x,hx,hvalid⟩
        exact hmeasured ⟨metric,hmetric,x,hsub x hx,hvalid⟩
      rw [getBestCheckpointPath_unmeasured _ (List.ne_nil_of_mem hkept.1) hunmeasured,
        getBestCheckpointPath_unmeasured fs hne hmeasured]
      obtain ⟨c,hget,-⟩ := mem_loadCheckpointHistory.mp hbest.1
      have hthere : exists' fs (.step best.1) = true := Option.isSome_of_eq_some hget
      obtain ⟨latest,hlatest,hmax⟩ := exists_latest fs hthere
      have hstays : latest ∉ outdated m k fs := by
        intro hout
        obtain ⟨⟨info,hinfo⟩,hnot⟩ := (mem_outdated_iff fs k).mp hout
        have hmem := (List.mem_insertionSort _).mp (List.mem_of_mem_drop hinfo)
        refine hnot (List.max?_eq_some_iff.mpr ⟨List.mem_map_of_mem hmem,fun n hn => ?_⟩)
        obtain ⟨⟨_,other⟩,hother,rfl⟩ := List.mem_map.mp hn
        obtain ⟨c,hget,-⟩ := mem_loadCheckpointHistory.mp hother
        exact hmax _ (Option.isSome_of_eq_some hget)
      rw [getLatestCheckpointPath_eq_some fs hlatest hmax]
      refine getLatestCheckpointPath_eq_some _ ((exists'_without fs _ _).mpr ⟨hlatest,hstays⟩) ?_
      exact fun n' hn' => hmax n' ((exists'_without fs _ _).mp hn').1

def runSaves (m : CheckpointManager) (saves : List (Save μ)) (fs : FileSystem μ) :
    Except OsError (FileSystem μ) :=
  saves.foldlM (fun fs save => (saveCheckpoint m save).finish perform fs) fs

def Save.entry (save : Save μ) : ℕ × Dict String μ := (save.step,save.trainingInfo)

theorem saveCheckpoint_new {save : Save μ} (hk : m.keepTopK = some k)
    (hnew : ¬exists' fs (.step save.step)) : ∃ published,
      (saveCheckpoint m save).finish perform fs = .ok (without (outdated m k published) published) ∧
        ∀ n, published.get? (.step n) =
          if n = save.step then some save.contents else fs.get? (.step n) := by
  obtain ⟨initial,fs₁,hinit,-,hfs₁,htmp⟩ := initTmpCheckpoint_completes save fs
  have hnew₁ : ¬exists' fs₁ (.step save.step) := by
    rwa [exists',hfs₁ (.step save.step) (DirName.noConfusion ·)]
  obtain ⟨published,hpublish,hrenamed⟩ := publish_new htmp hnew₁
  refine ⟨published,?_,fun n => ?_⟩
  · obtain ⟨states,hstates⟩ : ∃ states, Completes perform (removeOldCheckpoints m) published states
        (without (outdated m k published) published) :=
      ⟨_,rfl,removeOldCheckpoints_finish published k hk⟩
    exact (hinit.seq (hpublish.seq hstates)).finish
  · rw [hrenamed]
    by_cases hn : n = save.step
    · rw [hn,if_pos rfl,if_pos rfl]
    · rw [if_neg fun heq => hn (DirName.step.inj heq),if_neg (DirName.noConfusion ·),if_neg hn,
        hfs₁ (.step n) (DirName.noConfusion ·)]

variable (m) in
/-- After some saves only their checkpoints are there, and the best of them is. -/
structure Retains (saves : List (Save μ)) (fs : FileSystem μ) : Prop where
  sound : Sound saves fs
  best : ∀ save ∈ saves, (∀ other ∈ saves, Preferred m save.entry other.entry) →
    fs.get? (.step save.step) = some save.contents

theorem Retains.step {saves : List (Save μ)} {fs : FileSystem μ} (h : Retains m saves fs)
    (hkeep : m.keepTopK = some k) (hk : 1 ≤ k) {save : Save μ}
    (hnew : save.step ∉ saves.map Save.step) : ∃ fs',
      (saveCheckpoint m save).finish perform fs = .ok fs' ∧ Retains m (saves ++ [save]) fs' := by
  have hfresh : ¬exists' fs (.step save.step) := by
    intro hthere
    obtain ⟨c,hc⟩ := Option.isSome_iff_exists.mp hthere
    obtain ⟨other,hother,hstep,-⟩ := h.sound _ c hc
    exact hnew (List.mem_map.mpr ⟨other,hother,hstep⟩)
  obtain ⟨published,hfinish,hpublished⟩ := saveCheckpoint_new fs k hkeep hfresh
  have hsound : Sound (saves ++ [save]) published := by
    intro n c hc
    rw [hpublished] at hc
    by_cases hn : n = save.step
    · rw [if_pos hn] at hc
      exact ⟨save,by simp,hn.symm,(Option.some.inj hc).symm⟩
    · rw [if_neg hn] at hc
      obtain ⟨other,hother,heq⟩ := h.sound n c hc
      exact ⟨other,List.mem_append_left _ hother,heq⟩
  refine ⟨_,hfinish,?_,fun best hbest hpreferred => ?_⟩
  · intro n c hc
    rw [get?_without] at hc
    split_ifs at hc
    exact hsound n c hc
  · have hthere : published.get? (.step best.step) = some best.contents := by
      rw [hpublished]
      obtain hearlier | hlast := List.mem_append.mp hbest
      · have hne : best.step ≠ save.step := fun heq =>
          hnew (List.mem_map.mpr ⟨best,hearlier,heq⟩)
        rw [if_neg hne]
        exact h.best best hearlier fun other hother =>
          hpreferred other (List.mem_append_left _ hother)
      · rw [List.mem_singleton.mp hlast,if_pos rfl]
    have hisBest : IsBest m (loadCheckpointHistory published) best.entry := by
      refine ⟨mem_loadCheckpointHistory.mpr ⟨_,hthere,best.trainingInfo_contents⟩,?_⟩
      rintro ⟨n,info⟩ hmem
      obtain ⟨c,hc,hinfo⟩ := mem_loadCheckpointHistory.mp hmem
      obtain ⟨other,hother,rfl,rfl⟩ := hsound n c hc
      rw [other.trainingInfo_contents] at hinfo
      obtain rfl := Option.some.inj hinfo
      exact hpreferred other hother
    have hkept := best_not_outdated published k hk hisBest
    rw [get?_without,if_neg]
    · exact hthere
    · rintro ⟨n,hn,heq⟩
      obtain rfl : best.step = n := DirName.step.inj heq
      exact hkept hn

theorem Retains.run {saves earlier : List (Save μ)} {fs : FileSystem μ} (h : Retains m earlier fs)
    (hkeep : m.keepTopK = some k) (hk : 1 ≤ k)
    (hnodup : ((earlier ++ saves).map Save.step).Nodup) : ∃ fs',
      runSaves m saves fs = .ok fs' ∧ Retains m (earlier ++ saves) fs' := by
  induction saves generalizing earlier fs with
  | nil => exact ⟨fs,rfl,by rwa [List.append_nil]⟩
  | cons save saves ih =>
    have hassoc : earlier ++ save :: saves = earlier ++ [save] ++ saves := by simp
    rw [hassoc] at hnodup ⊢
    have hnew : save.step ∉ earlier.map Save.step := by
      rw [List.map_append,List.map_append] at hnodup
      have hfirst := (List.nodup_append.mp hnodup).1
      intro hmem
      exact (List.nodup_append.mp hfirst).2.2 _ hmem _ (List.mem_singleton_self _) rfl
    obtain ⟨next,hnext,hretains⟩ := h.step k hkeep hk hnew
    obtain ⟨fs',hrun,hfinal⟩ := ih hretains hnodup
    refine ⟨fs',?_,hfinal⟩
    rw [runSaves,List.foldlM_cons,hnext]
    exact hrun

theorem Preferred.le_of_unmeasured {history : List (ℕ × Dict String μ)} (h : ¬Measured m history)
    (hx : x ∈ history) (hy : y ∈ history) (hxy : Preferred m x y) : y.1 ≤ x.1 := by
  rw [Preferred] at hxy
  cases hmetric : m.metricName with
  | none =>
    rw [hmetric] at hxy
    exact hxy
  | some metric =>
    have hnone : ∀ z ∈ history, z.2.get? metric = none := by
      intro z hz
      rw [← Option.not_isSome_iff_eq_none]
      exact fun hsome => h ⟨metric,hmetric,z,hz,hsome⟩
    rw [hmetric] at hxy
    simpa only [hnone x hx,hnone y hy] using hxy

theorem Retains.selected {saves : List (Save μ)} {fs : FileSystem μ} (h : Retains m saves fs)
    {best : Save μ} (hbest : best ∈ saves)
    (hpreferred : ∀ other ∈ saves, Preferred m best.entry other.entry) :
    getBestCheckpointPath m fs = some (.step best.step) := by
  have hthere := h.best best hbest hpreferred
  have hmem : best.entry ∈ loadCheckpointHistory fs :=
    mem_loadCheckpointHistory.mpr ⟨_,hthere,best.trainingInfo_contents⟩
  have hbestHere : IsBest m (loadCheckpointHistory fs) best.entry := by
    refine ⟨hmem,?_⟩
    rintro ⟨n,info⟩ hentry
    obtain ⟨c,hc,hinfo⟩ := mem_loadCheckpointHistory.mp hentry
    obtain ⟨other,hother,rfl,rfl⟩ := h.sound n c hc
    rw [other.trainingInfo_contents] at hinfo
    obtain rfl := Option.some.inj hinfo
    exact hpreferred other hother
  by_cases hmeasured : Measured m (loadCheckpointHistory fs)
  · obtain ⟨first,hfirst,hselected⟩ := getBestCheckpointPath_measured fs hmeasured
    rw [hselected,(hfirst.2 _ hmem).step_eq (hbestHere.2 first hfirst.1)]
    rfl
  · rw [getBestCheckpointPath_unmeasured fs (List.ne_nil_of_mem hmem) hmeasured]
    refine getLatestCheckpointPath_eq_some fs (Option.isSome_of_eq_some hthere) fun n hn => ?_
    obtain ⟨⟨_,info⟩,hentry,rfl⟩ := List.mem_map.mp ((mem_history h.sound).mpr hn)
    exact (hbestHere.2 _ hentry).le_of_unmeasured hmeasured hmem hentry

/-- Retention keeps the latest checkpoint, at most one more than it is told to, and what selection
names; over a run of saves the best checkpoint is never lost. -/
theorem retention_keeps_best (hkeep : m.keepTopK = some k) (hk : 1 ≤ k) :
    (∀ fs : FileSystem μ, ∃ fs', (removeOldCheckpoints m).finish perform fs = .ok fs' ∧
      Within fs fs' ∧
      (∀ n, latestStep (loadCheckpointHistory fs) = some n → exists' fs' (.step n) = true) ∧
      (loadCheckpointHistory fs').length ≤ k + 1 ∧
      getBestCheckpointPath m fs' = getBestCheckpointPath m fs) ∧
    ∀ saves : List (Save μ), saves ≠ [] → (saves.map Save.step).Nodup →
      ∃ fs best, runSaves m saves .empty = .ok fs ∧ best ∈ saves ∧
        (∀ other ∈ saves, Preferred m best.entry other.entry) ∧
        fs.get? (.step best.step) = some best.contents ∧
        getBestCheckpointPath m fs = some (.step best.step) := by
  constructor
  · intro fs
    refine ⟨_,removeOldCheckpoints_finish fs k hkeep,?_,fun n hn => ?_,length_history_without fs k,
      getBestCheckpointPath_without fs k hk⟩
    · intro d c hc
      rw [get?_without] at hc
      split_ifs at hc
      exact hc
    · obtain ⟨⟨_,info⟩,hentry,rfl⟩ := List.mem_map.mp (List.max?_eq_some_iff.mp hn).1
      obtain ⟨c,hget,-⟩ := mem_loadCheckpointHistory.mp hentry
      exact (exists'_without fs _ _).mpr ⟨Option.isSome_of_eq_some hget,latest_not_outdated fs k hn⟩
  · intro saves hne hnodup
    have hempty : Retains m [] (.empty : FileSystem μ) :=
      ⟨fun n c hc => (by cases hc),fun save hsave => absurd hsave List.not_mem_nil⟩
    obtain ⟨fs,hrun,hretains⟩ := hempty.run k hkeep hk hnodup
    have hentries : saves.map Save.entry ≠ [] := fun hnil => hne (List.map_eq_nil_iff.mp hnil)
    obtain ⟨entry,rest,-,hentry,hfirst⟩ := exists_sorted m hentries
    obtain ⟨best,hbest,rfl⟩ := List.mem_map.mp hentry
    have hpreferred : ∀ other ∈ saves, Preferred m best.entry other.entry :=
      fun other hother => hfirst _ (List.mem_map_of_mem hother)
    exact ⟨fs,best,hrun,hbest,hpreferred,hretains.best best hbest hpreferred,
      hretains.selected hbest hpreferred⟩

def lowestLoss : CheckpointManager := ⟨some "loss",false,some 1⟩

theorem retention_keeps_best_lowestLoss :
    (∀ fs : FileSystem ℕ, ∃ fs', (removeOldCheckpoints lowestLoss).finish perform fs = .ok fs' ∧
      Within fs fs' ∧
      (∀ n, latestStep (loadCheckpointHistory fs) = some n → exists' fs' (.step n) = true) ∧
      (loadCheckpointHistory fs').length ≤ 1 + 1 ∧
      getBestCheckpointPath lowestLoss fs' = getBestCheckpointPath lowestLoss fs) ∧
    ∀ saves : List (Save ℕ), saves ≠ [] → (saves.map Save.step).Nodup →
      ∃ fs best, runSaves lowestLoss saves .empty = .ok fs ∧ best ∈ saves ∧
        (∀ other ∈ saves, Preferred lowestLoss best.entry other.entry) ∧
        fs.get? (.step best.step) = some best.contents ∧
        getBestCheckpointPath lowestLoss fs = some (.step best.step) :=
  retention_keeps_best 1 rfl le_rfl

end Checkpoint
end DockyardRL
