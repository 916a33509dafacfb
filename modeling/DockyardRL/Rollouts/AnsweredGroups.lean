import DockyardRL.Rollouts.Feedback

/-! A batch whose environments answer it in full, all with rewards of one format, gets an answer in that
format. -/
namespace DockyardRL
namespace Rollouts

open Gather Grouping SortByKey

variable {ι R : Type}

/-- Columns of `n` values under some names. -/
structure Columns (names : List String) (n : ℕ) (d : Dict String (List R)) : Prop where
  keys : ∀ name, name ∈ d.keys ↔ name ∈ names
  lengths : ∀ name values, d.get? name = some values → values.length = n

/-- The rewards of `n` samples have the format: one for each, or one of every name for each. -/
def Rewards.Conforms (format : Option (List String)) (n : ℕ) : Rewards R → Prop
  | .scalar values => format = none ∧ values.length = n
  | .named components => ∃ names, format = some names ∧ Columns names n components

/-- What is gathered has an entry for every sample so far, in the format. -/
def Collected.Conforms (format : Option (List String)) (acc : Collected ι R) : Prop :=
  acc.outcomes.length = acc.indicesOrder.length ∧
  match format with
  | none => acc.dictRewards = none ∧ acc.rewards.length = acc.indicesOrder.length
  | some names => acc.rewards = [] ∧
      match acc.dictRewards with
      | none => acc.indicesOrder = []
      | some components => Columns names acc.indicesOrder.length components

theorem exists_mapM_readAt {α : Type} {l : List α} {n : ℕ} (h : l.length = n) :
    ∃ ys, (List.range n).mapM (readAt l) = .ok ys :=
  ⟨_,mapM_readAt.mpr ⟨fun _ hi => by rw [h]; exact List.mem_range.mp hi,rfl⟩⟩

theorem appendComponents_ok {count : ℕ} {entries : List (String × List R)}
    {gathered : Dict String (List R)} (hin : ∀ entry ∈ entries, entry.1 ∈ gathered.keys)
    (hlength : ∀ entry ∈ entries, entry.2.length = count) :
    ∃ next, entries.foldlM (appendComponent count) gathered = .ok next ∧
      ∀ name, name ∈ next.keys ↔ name ∈ gathered.keys := by
  refine Dict.exists_foldlM_set hin fun d entry hentry hkey => ?_
  obtain ⟨values,hvalues⟩ := Option.isSome_iff_exists.mp (Dict.mem_keys_iff.mp hkey)
  obtain ⟨new,hnew⟩ := exists_mapM_readAt (hlength entry hentry)
  refine ⟨values ++ new,?_⟩
  unfold appendComponent
  rw [hvalues]
  dsimp only
  rw [hnew]
  rfl

theorem collect_ok {format : Option (List String)} {acc : Collected ι R} (hacc : acc.Conforms format)
    {result : List ℕ × EnvironmentReturn ι R}
    (houtcomes : ∀ p < result.1.length, ∃ outcome, result.2.outcome p = .ok outcome)
    (hrewards : result.2.rewards.Conforms format result.1.length) :
    ∃ next, collect acc result = .ok next ∧ next.Conforms format := by
  obtain ⟨hacclength,hacc⟩ := hacc
  obtain ⟨outcomes,hread⟩ : ∃ outcomes, (List.range result.1.length).mapM result.2.outcome = .ok outcomes :=
    Fallible.exists_mapM_iff.mpr fun p hp => houtcomes p (List.mem_range.mp hp)
  have hlength : outcomes.length = result.1.length := by
    rw [← (Fallible.mapM_eq_ok.mp hread).length_eq,List.length_range]
  have hall : (acc.outcomes ++ outcomes).length = (acc.indicesOrder ++ result.1).length := by
    rw [List.length_append,List.length_append,hacclength,hlength]
  unfold collect
  rw [hread]
  cases hgiven : result.2.rewards with
  | scalar values =>
    rw [hgiven] at hrewards
    obtain ⟨rfl,hcount⟩ := hrewards
    obtain ⟨new,hnew⟩ := exists_mapM_readAt hcount
    have hnewLength := (mapM_readAt_range hnew).1
    refine ⟨⟨acc.indicesOrder ++ result.1,acc.outcomes ++ outcomes,acc.rewards ++ new,acc.dictRewards⟩,
      ?_,hall,hacc.1,?_⟩
    · show (((List.range result.1.length).mapM (readAt values)).bind _) = _
      rw [hnew]
      rfl
    · rw [List.length_append,List.length_append,hacc.2,hnewLength]
  | named components =>
    rw [hgiven] at hrewards
    obtain ⟨names,rfl,hcolumns⟩ := hrewards
    obtain ⟨hnoScalars,hacc⟩ := hacc
    have hgathered : Columns names acc.indicesOrder.length
        (acc.dictRewards.getD (components.mapValues fun _ => [])) := by
      cases hdict : acc.dictRewards with
      | none =>
        rw [hdict] at hacc
        refine ⟨fun name => ?_,fun name values hvalues => ?_⟩
        · rw [Option.getD_none,Dict.keys_mapValues]
          exact hcolumns.keys name
        · rw [Option.getD_none,Dict.get?_mapValues] at hvalues
          obtain ⟨_,_,rfl⟩ := Option.map_eq_some_iff.mp hvalues
          rw [hacc]
          rfl
      | some d =>
        rw [hdict] at hacc
        exact hacc
    obtain ⟨next,hnext,hkeys⟩ := @appendComponents_ok R result.1.length components.entries
      (acc.dictRewards.getD (components.mapValues fun _ => []))
      (fun entry hentry => (hgathered.keys _).mpr
        ((hcolumns.keys _).mp (mem_keys_of_get? (Dict.mem_entries_iff.mp hentry))))
      (fun entry hentry => hcolumns.lengths _ _ (Dict.mem_entries_iff.mp hentry))
    obtain ⟨hentries,_⟩ := appendComponents_spec components.nodup hnext
    refine ⟨⟨acc.indicesOrder ++ result.1,acc.outcomes ++ outcomes,acc.rewards,some next⟩,?_,hall,
      hnoScalars,fun name => (hkeys name).trans (hgathered.keys name),fun name values hvalues => ?_⟩
    · show Except.bind (components.entries.foldlM (appendComponent result.1.length) _) _ = _
      rw [hnext]
      rfl
    · have hname : name ∈ components.keys :=
        (hcolumns.keys name).mpr ((hgathered.keys name).mp ((hkeys name).mp (mem_keys_of_get? hvalues)))
      obtain ⟨entry,hentry,rfl⟩ := List.mem_map.mp hname
      obtain ⟨old,new,hold,hat,hnewLength,_⟩ := hentries entry hentry
      obtain rfl := Option.some.inj (hvalues.symm.trans hat)
      rw [List.length_append,hgathered.lengths _ _ hold,hnewLength,List.length_append]

theorem collectAll_ok {format : Option (List String)} {acc : Collected ι R} (hacc : acc.Conforms format)
    {results : List (List ℕ × EnvironmentReturn ι R)}
    (hresults : ∀ result ∈ results, (∀ p < result.1.length, ∃ outcome, result.2.outcome p = .ok outcome) ∧
      result.2.rewards.Conforms format result.1.length) :
    ∃ all, results.foldlM collect acc = .ok all ∧ all.Conforms format := by
  induction results generalizing acc with
  | nil => exact ⟨acc,rfl,hacc⟩
  | cons result results ih =>
    obtain ⟨⟨houtcomes,hrewards⟩,hrest⟩ := List.forall_mem_cons.mp hresults
    obtain ⟨middle,hmiddle,hconforms⟩ := collect_ok hacc houtcomes hrewards
    rw [List.foldlM_cons,hmiddle]
    exact ih hconforms hrest

theorem exists_mapM_sorted {α : Type} {order : List ℕ} {l : List α} (h : l.length = order.length) :
    ∃ ys, (sortByKey (fun k => order.getD k 0) (List.range order.length)).mapM (readAt l) = .ok ys ∧
      ys.length = order.length := by
  have hperm := sortByKey_perm (fun k => order.getD k 0) (List.range order.length)
  have hwithin : Within (sortByKey (fun k => order.getD k 0) (List.range order.length)) l.length := by
    rw [h]
    exact fun i hi => List.mem_range.mp (hperm.mem_iff.mp hi)
  exact ⟨_,mapM_readAt.mpr ⟨hwithin,rfl⟩,by rw [length_gather hwithin,hperm.length_eq,List.length_range]⟩

theorem inOrder_ok {format : Option (List String)} {all : Collected ι R} (hall : all.Conforms format)
    (hsome : all.indicesOrder ≠ []) :
    ∃ feedback, inOrder all = .ok feedback ∧
      feedback.rewards.Conforms format all.indicesOrder.length := by
  obtain ⟨hlength,hall⟩ := hall
  obtain ⟨outcomes,houtcomes,_⟩ := exists_mapM_sorted hlength
  unfold inOrder
  dsimp only
  cases format with
  | none =>
    obtain ⟨hnone,hcount⟩ := hall
    obtain ⟨values,hvalues,hvaluesLength⟩ := exists_mapM_sorted hcount
    rw [hnone,hvalues,houtcomes]
    exact ⟨_,rfl,rfl,hvaluesLength⟩
  | some names =>
    obtain ⟨hnoScalars,hall⟩ := hall
    cases hdict : all.dictRewards with
    | none =>
      rw [hdict] at hall
      exact absurd hall hsome
    | some components =>
      rw [hdict] at hall
      dsimp only at hall
      have hread : ∀ name ∈ components.keys, ∃ values, (sortByKey (fun k => all.indicesOrder.getD k 0)
          (List.range all.indicesOrder.length)).mapM (readAt ((components.get? name).getD [])) =
            .ok values ∧ values.length = all.indicesOrder.length := by
        intro name hname
        obtain ⟨values,hvalues⟩ := Option.isSome_iff_exists.mp (Dict.mem_keys_iff.mp hname)
        rw [hvalues,Option.getD_some]
        exact exists_mapM_sorted (hall.lengths _ _ hvalues)
      obtain ⟨built,hbuilt⟩ := Dict.exists_build fun name hname =>
        (hread name hname).imp fun _ h => h.1
      obtain ⟨_,hget⟩ := Dict.get?_of_build hbuilt
      refine ⟨⟨outcomes,.named built⟩,?_,names,rfl,fun name => ?_,fun name values hvalues => ?_⟩
      · dsimp only
        rw [hnoScalars,if_neg (not_not.mpr List.length_nil),hbuilt,houtcomes]
        rfl
      · rw [← hall.keys,Dict.mem_keys_iff,Option.isSome_iff_exists]
        constructor
        · rintro ⟨values,hvalues⟩
          exact ((hget name values).mp hvalues).1
        · intro hname
          obtain ⟨values,hvalues,_⟩ := hread name hname
          exact ⟨values,(hget name values).mpr ⟨hname,hvalues⟩⟩
      · obtain ⟨hname,hvalues⟩ := (hget name values).mp hvalues
        obtain ⟨values',hvalues',hcount⟩ := hread name hname
        obtain rfl := Except.ok.inj (hvalues.symm.trans hvalues')
        exact hcount

section Calculate

variable {taskToEnv : String → Option (Environment ι R)} {taskNames : List String}
  {messageLogs : List (List Message)} {extraEnvInfo : List (Info ι)}
  {format : Option (List String)}

/-- A batch whose groups are answered in full, all in one format, gets its answer. -/
theorem calculateRewards_of_groups (hsome : taskNames ≠ [])
    (hgroups : ∀ entry ∈ (group taskNames).entries, ∃ result,
      stepGroup taskToEnv (messageLogs.map fun log => log.map Message.text) extraEnvInfo entry =
        .ok result ∧ (∀ p < result.1.length, ∃ outcome, result.2.outcome p = .ok outcome) ∧
          result.2.rewards.Conforms format result.1.length) :
    ∃ feedback, calculateRewards taskToEnv taskNames messageLogs extraEnvInfo = .ok feedback ∧
      feedback.rewards.Conforms format taskNames.length := by
  obtain ⟨results,hresults⟩ := Fallible.exists_mapM_iff.mpr fun entry hentry =>
    (hgroups entry hentry).imp fun _ h => h.1
  have hanswered : ∀ result ∈ results,
      (∀ p < result.1.length, ∃ outcome, result.2.outcome p = .ok outcome) ∧
        result.2.rewards.Conforms format result.1.length := by
    intro result hresult
    obtain ⟨entry,hentry,hstep⟩ := (Fallible.mem_mapM_iff hresults).mp hresult
    obtain ⟨result',hstep',hfull⟩ := hgroups entry hentry
    obtain rfl := Except.ok.inj (hstep.symm.trans hstep')
    exact hfull
  have hstart : (⟨[],[],[],none⟩ : Collected ι R).Conforms format := by
    refine ⟨rfl,?_⟩
    cases format with
    | none => exact ⟨rfl,rfl⟩
    | some names => exact ⟨rfl,rfl⟩
  obtain ⟨all,hall,hconforms⟩ := collectAll_ok hstart hanswered
  have hlength : all.indicesOrder.length = taskNames.length := by
    rw [(gathered_all hresults hall).1.length_eq,List.length_range]
  obtain ⟨feedback,hfeedback,hformat⟩ := inOrder_ok hconforms fun hnil => hsome <|
    List.eq_nil_of_length_eq_zero (hlength.symm.trans (congrArg List.length hnil))
  rw [hlength] at hformat
  refine ⟨feedback,?_,hformat⟩
  unfold calculateRewards
  dsimp only
  rw [hresults]
  show ((results.foldlM collect _).bind _) = _
  rw [hall]
  exact hfeedback

end Calculate

end Rollouts
end DockyardRL
