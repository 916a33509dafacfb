import Mathlib.Algebra.Order.Ring.Rat
import Mathlib.Algebra.CharZero.Defs
import Mathlib.Algebra.Module.Rat
import Mathlib.Algebra.Module.Torsion.Field
import Mathlib.Tactic.NormNum
import DockyardRL.Training.Preference

/-! The optimizer steps of the two workers on one rank. The DTensor worker takes one for each
global batch, from its full micro-batches; the JAX worker takes one for all the rows. -/
namespace DockyardRL
namespace Training

open Chunks

variable {ρ K G : Type*}

section BatchGrad

variable [AddCommGroup G]

theorem batchGrad_append (grad : ρ → Counts K → G) (counts : Counts K) (xs ys : List ρ) :
    batchGrad grad counts (xs ++ ys) = batchGrad grad counts xs + batchGrad grad counts ys := by
  rw [batchGrad,List.map_append,List.sum_append]
  rfl

theorem batchGrad_flatten (grad : ρ → Counts K → G) (counts : Counts K) (l : List (List ρ)) :
    batchGrad grad counts l.flatten = (l.map (batchGrad grad counts)).sum := by
  induction l with
  | nil => rfl
  | cons x l ih => rw [List.flatten_cons,batchGrad_append,ih,List.map_cons,List.sum_cons]

theorem batchGrad_const (v : G) (counts : Counts K) (l : List ρ) :
    batchGrad (fun _ _ => v) counts l = l.length • v := by
  rw [batchGrad,List.map_const',List.sum_replicate]

theorem sum_microSteps (grad : ρ → Counts K → G) {mbs : ℕ} (hmbs : 0 < mbs) (counts : Counts K)
    (batch : List ρ) : ((microSteps mbs counts batch).map (MicroStep.gradient grad)).sum =
      batchGrad grad counts (whole mbs batch) := by
  have hstep : (microSteps mbs counts batch).map (MicroStep.gradient grad) =
      (chunks mbs batch).zipIdx.map fun x =>
        if x.2 < batch.length / mbs then batchGrad grad counts x.1 else 0 := by
    rw [microSteps,List.map_map]
    refine List.map_congr_left fun x _ => ?_
    simp only [Function.comp_apply,MicroStep.gradient,decide_eq_true_eq]
  rw [hstep,sum_zipIdx_lt,← batchGrad_flatten,take_chunks hmbs]

theorem accumulateGrads_eq (grad : ρ → Counts K → G) {data : List ρ} (hne : data ≠ [])
    (counts : Counts K) {mbs : ℕ} (hmbs : 0 < mbs) :
    accumulateGrads grad data counts mbs = some (batchGrad grad counts data) := by
  have hfold : ∀ (l : List (List ρ)) (acc : G), l.foldl
      (fun acc mb => some (acc.elim (batchGrad grad counts mb) (· + batchGrad grad counts mb)))
        (some acc) = some (acc + batchGrad grad counts l.flatten) := by
    intro l
    induction l with
    | nil => intro acc; simp [batchGrad]
    | cons mb l ih =>
      intro acc
      rw [List.foldl_cons,Option.elim_some,ih,List.flatten_cons,batchGrad_append,add_assoc]
  have hdata := flatten_chunks hmbs data
  rw [accumulateGrads]
  cases hchunks : chunks mbs data with
  | nil =>
    rw [hchunks] at hdata
    exact absurd hdata.symm hne
  | cons mb rest =>
    rw [hchunks,List.flatten_cons] at hdata
    rw [List.foldl_cons,Option.elim_none,hfold,← batchGrad_append,hdata]

end BatchGrad

section Updates

variable [Field K] [AddCommGroup G] [Module K G] (cols : Columns ρ K)

theorem optimizerGradient_single (grad : ρ → Counts K → G) {mbs : ℕ} (hmbs : 0 < mbs)
    (counts : Counts K) (batch : List ρ) :
    optimizerGradient grad [microSteps mbs counts batch] =
      batchGrad grad counts (whole mbs batch) := by
  rw [optimizerGradient,List.length_singleton,Nat.cast_one]
  simp only [one_smul,inv_one,List.map_cons,List.map_nil,List.sum_cons,List.sum_nil,add_zero]
  exact sum_microSteps grad hmbs counts batch

theorem reducedCounts_single (batch : List ρ) :
    reducedCounts cols [batch] = globalValidCounts cols batch := by
  simp [reducedCounts,globalValidCounts]

theorem dtensorUpdates_single (grad : ρ → Counts K → G) {gbs mbs : ℕ} (hgbs : 0 < gbs)
    (hmbs : 0 < mbs) (data : List ρ) : dtensorUpdates cols grad false gbs mbs [data] =
      .ok ((List.range (data.length / gbs)).map fun i => batchGrad grad
        (globalValidCounts cols (getBatch data i gbs)) (whole mbs (getBatch data i gbs))) := by
  have hok : ¬ (gbs = 0 ∨ (0 < numGlobalBatches gbs [data] ∧ mbs = 0)) := by omega
  rw [dtensorUpdates,trainSteps,if_neg hok]
  simp only [Except.map,numGlobalBatches,List.map_cons,List.map_nil,List.sum_cons,List.sum_nil,
    Nat.add_zero,List.map_map,if_neg Bool.false_ne_true]
  refine congrArg Except.ok (List.map_congr_left fun i _ => ?_)
  simp only [Function.comp_apply,globalBatch,List.map_cons,List.map_nil,List.length_singleton,
    Nat.div_one,reducedCounts_single]
  exact optimizerGradient_single grad hmbs _ _

theorem dtensorUpdates_eval (grad : ρ → Counts K → G) {gbs mbs : ℕ} (hgbs : 0 < gbs)
    (hmbs : 0 < mbs) (ranks : List (List ρ)) :
    dtensorUpdates cols grad true gbs mbs ranks = .ok [] := by
  have hok : ¬ (gbs = 0 ∨ (0 < numGlobalBatches gbs ranks ∧ mbs = 0)) := by omega
  rw [dtensorUpdates,trainSteps,if_neg hok]
  rfl

omit [Module K G] in
theorem jaxUpdates_ok (trainMicroBatchSize : ℕ) (grad : ρ → Counts K → G) {data : List ρ}
    (hne : data ≠ []) (gbs : Option ℕ) {mbs : ℕ} (hmbs : 0 < mbs) :
    jaxUpdates cols trainMicroBatchSize grad data false gbs (some mbs) =
      .ok [batchGrad grad (globalValidCounts cols data) data] := by
  obtain ⟨m,rfl⟩ := Nat.exists_eq_succ_of_ne_zero hmbs.ne'
  rw [jaxUpdates,if_neg Bool.false_ne_true,trainStep]
  simp only [microBatchSize,accumulateGrads_eq grad hne _ (Nat.succ_pos m)]
  rfl

omit [Module K G] in
theorem jaxUpdates_nil (trainMicroBatchSize : ℕ) (grad : ρ → Counts K → G) (gbs : Option ℕ)
    {mbs : ℕ} (hmbs : 0 < mbs) :
    jaxUpdates cols trainMicroBatchSize grad [] false gbs (some mbs) = .error .noGradients := by
  obtain ⟨m,rfl⟩ := Nat.exists_eq_succ_of_ne_zero hmbs.ne'
  rw [jaxUpdates,if_neg Bool.false_ne_true,trainStep,accumulateGrads]
  simp only [microBatchSize,chunks_nil (Nat.succ_pos m)]
  rfl

/-- One update for each global batch of `gbs` rows, from the sum over its rows with the counts of
that global batch; no update in evaluation. -/
def updatesPerGlobalBatch (grad : ρ → Counts K → G) (evalMode : Bool) (gbs : ℕ) (data : List ρ) :
    List G :=
  if evalMode then [] else (List.range (data.length / gbs)).map fun i =>
    batchGrad grad (globalValidCounts cols (getBatch data i gbs)) (getBatch data i gbs)

/-- Both workers take the steps that the global batches ask for. -/
def SameUpdates (trainMicroBatchSize : ℕ) (grad : ρ → Counts K → G) (evalMode : Bool)
    (gbs mbs : ℕ) (data : List ρ) : Prop :=
  jaxUpdates cols trainMicroBatchSize grad data evalMode (some gbs) (some mbs) =
      .ok (updatesPerGlobalBatch cols grad evalMode gbs data) ∧
    dtensorUpdates cols grad evalMode gbs mbs [data] =
      .ok (updatesPerGlobalBatch cols grad evalMode gbs data)

theorem getBatch_all (data : List ρ) : getBatch data 0 data.length = data := by
  rw [getBatch,Nat.zero_mul,List.drop_zero,List.take_length]

/-- The steps agree for every gradient exactly in evaluation and on a single global batch that
is cut into full micro-batches. -/
theorem sameUpdates_iff [CharZero K] [Nontrivial G] (trainMicroBatchSize : ℕ) (evalMode : Bool)
    {gbs mbs : ℕ} (hgbs : 0 < gbs) (hmbs : 0 < mbs) (data : List ρ) :
    (∀ grad : ρ → Counts K → G, SameUpdates cols trainMicroBatchSize grad evalMode gbs mbs data) ↔
      evalMode = true ∨ (data.length = gbs ∧ mbs ∣ gbs) := by
  cases evalMode with
  | true =>
    refine iff_of_true (fun grad => ⟨rfl,?_⟩) (.inl rfl)
    rw [dtensorUpdates_eval cols grad hgbs hmbs]
    rfl
  | false =>
    rw [or_iff_right Bool.false_ne_true]
    constructor
    · intro h
      obtain ⟨v,hv⟩ := exists_ne (0 : G)
      have hinj : ∀ a b : ℕ, a • v = b • v → a = b := fun a b hab => by
        rw [← Nat.cast_smul_eq_nsmul K,← Nat.cast_smul_eq_nsmul K] at hab
        exact Nat.cast_injective (smul_left_injective K hv hab)
      obtain ⟨hjax,hdtensor⟩ := h fun _ _ => v
      have hne : data ≠ [] := by
        rintro rfl
        rw [jaxUpdates_nil cols trainMicroBatchSize _ _ hmbs] at hjax
        cases hjax
      rw [jaxUpdates_ok cols trainMicroBatchSize _ hne _ hmbs] at hjax
      rw [dtensorUpdates_single cols _ hgbs hmbs] at hdtensor
      have hspec := Except.ok.inj hjax
      have hsteps := Except.ok.inj (hdtensor.trans (congrArg Except.ok hspec.symm))
      have hone : data.length / gbs = 1 := by
        have := congrArg List.length hspec
        simpa [updatesPerGlobalBatch] using this.symm
      rw [hone] at hsteps
      have hfirst : (getBatch data 0 gbs).length = data.length := by
        rw [updatesPerGlobalBatch,if_neg Bool.false_ne_true,hone] at hspec
        refine (hinj _ _ ?_).symm
        simpa [batchGrad_const] using hspec
      have hlength : data.length = gbs := by
        have hle : gbs ≤ data.length := (Nat.div_pos_iff.mp (by omega)).2
        rw [getBatch,Nat.zero_mul,List.drop_zero,List.length_take,Nat.min_eq_left hle] at hfirst
        exact hfirst.symm
      refine ⟨hlength,?_⟩
      subst hlength
      have hwhole : (whole mbs data).length = data.length := by
        refine hinj _ _ ?_
        simpa [batchGrad_const,getBatch_all] using hsteps
      rw [length_whole] at hwhole
      exact ⟨data.length / mbs,by rw [Nat.mul_comm,hwhole]⟩
    · rintro ⟨rfl,hdvd⟩
      have hne : data ≠ [] := List.ne_nil_of_length_pos hgbs
      intro grad
      have hspec : updatesPerGlobalBatch cols grad false data.length data =
          [batchGrad grad (globalValidCounts cols data) data] := by
        rw [updatesPerGlobalBatch,if_neg Bool.false_ne_true,Nat.div_self hgbs]
        simp [getBatch_all]
      refine ⟨?_,?_⟩
      · rw [hspec,jaxUpdates_ok cols trainMicroBatchSize grad hne _ hmbs]
      · rw [hspec,dtensorUpdates_single cols grad hgbs hmbs,Nat.div_self hgbs]
        simp [getBatch_all,whole_eq hdvd]

end Updates

/-- Rows that are their own gradients, each a valid sequence of one valid token. -/
def unitColumns : Columns ℚ ℚ := ⟨fun _ => 1,fun _ => [0,1]⟩

theorem sameUpdates_single : SameUpdates unitColumns 1 (fun r c => r / c.seqs) false 2 1 [3,5] :=
  (sameUpdates_iff unitColumns 1 false (by decide) (by decide) [3,5]).mpr (.inr ⟨rfl,by decide⟩) _

/-- The JAX worker makes one update of what should be two. -/
theorem jaxUpdates_merged :
    jaxUpdates unitColumns 1 (fun r c => r / c.seqs) [3,5] false (some 1) (some 1) = .ok [4] ∧
      dtensorUpdates unitColumns (fun r c => r / c.seqs) false 1 1 [[3,5]] = .ok [3,5] ∧
      ¬ SameUpdates unitColumns 1 (fun r c => r / c.seqs) false 1 1 [3,5] := by
  have hjax : jaxUpdates unitColumns 1 (fun r c => r / c.seqs) [3,5] false (some 1) (some 1) =
      .ok [4] := by
    rw [jaxUpdates_ok unitColumns 1 _ (by simp) _ one_pos]
    norm_num [batchGrad,globalValidCounts,validSeqs,unitColumns]
  have hdtensor : dtensorUpdates unitColumns (fun r c => r / c.seqs) false 1 1 [[3,5]] =
      .ok [3,5] := by
    rw [dtensorUpdates_single unitColumns _ one_pos one_pos]
    norm_num [batchGrad,globalValidCounts,validSeqs,unitColumns,getBatch,whole,List.range_succ,List.take]
  refine ⟨hjax,hdtensor,fun h => ?_⟩
  have hsame := Except.ok.inj ((hjax.symm.trans h.1).trans (h.2.symm.trans hdtensor))
  exact absurd (congrArg List.length hsame) (by decide)

end Training
end DockyardRL
