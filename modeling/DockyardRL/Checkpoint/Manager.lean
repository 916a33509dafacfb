import DockyardRL.Lib.Dict
import DockyardRL.Lib.ControlFlow
import Mathlib.Data.List.Sort
import Mathlib.Data.Prod.Lex
import Mathlib.Order.WithBot

/-! The directories of a checkpoint directory, and how a checkpoint is written into a temporary
one and takes its place among the others. -/
namespace DockyardRL
namespace Checkpoint

open Interrupted

/-- `step_N`, `tmp_step_N` and `old_step_N`. -/
inductive DirName
  | step (n : ℕ)
  | tmpStep (n : ℕ)
  | oldStep (n : ℕ)
  deriving DecidableEq

/-- The files of a directory; `training_info.json` is a dictionary of metrics, the others are
named by their paths. -/
structure Contents (μ : Type*) where
  trainingInfo : Option (Dict String μ)
  files : Dict String String

/-- A file to write. -/
inductive File (μ : Type*)
  | trainingInfo (info : Dict String μ)
  | other (path data : String)

variable {μ : Type*}

namespace Contents

def empty : Contents μ := ⟨none,.empty⟩

def isEmpty (c : Contents μ) : Bool := c.trainingInfo.isNone && c.files.entries.isEmpty

def write (c : Contents μ) : File μ → Contents μ
  | .trainingInfo info => { c with trainingInfo := some info }
  | .other path data => { c with files := c.files.set path data }

end Contents

abbrev FileSystem (μ : Type*) := Dict DirName (Contents μ)

/-- `path.exists()`. -/
def exists' (fs : FileSystem μ) (d : DirName) : Bool := (fs.get? d).isSome

inductive FsOp (μ : Type*)
  | mkdir (d : DirName)
  | write (d : DirName) (file : File μ)
  | rename (src dst : DirName)
  | rmtree (d : DirName)

inductive OsError
  | fileExists (d : DirName)
  | notFound (d : DirName)
  | notEmpty (d : DirName)
  deriving DecidableEq

/-- One operation; a directory is renamed over an empty one only. -/
def perform : FsOp μ → FileSystem μ → Except OsError (FileSystem μ)
  | .mkdir d,fs => if exists' fs d then .error (.fileExists d) else .ok (fs.set d .empty)
  | .write d file,fs =>
    match fs.get? d with
    | none => .error (.notFound d)
    | some c => .ok (fs.set d (c.write file))
  | .rename src dst,fs =>
    match fs.get? src with
    | none => .error (.notFound src)
    | some c =>
      if ((fs.get? dst).map Contents.isEmpty).getD true then .ok ((fs.erase src).set dst c)
      else .error (.notEmpty dst)
  | .rmtree d,fs => if exists' fs d then .ok (fs.erase d) else .error (.notFound d)

/-- What one save writes: its training info, the run's configuration where there is one, and the
files of the algorithm loop. -/
structure Save (μ : Type*) where
  step : ℕ
  trainingInfo : Dict String μ
  runConfig : Option String
  loopFiles : List (String × String)

namespace Save

def files (save : Save μ) : List (File μ) :=
  .trainingInfo save.trainingInfo :: (save.runConfig.map (File.other "config.yaml")).toList ++
    save.loopFiles.map fun file => .other file.1 file.2

def contents (save : Save μ) : Contents μ := save.files.foldl Contents.write .empty

end Save

/-- The configuration of a checkpoint manager. -/
structure CheckpointManager where
  metricName : Option String
  higherIsBetter : Bool
  keepTopK : Option ℕ

/-- `init_tmp_checkpoint`, and the files the algorithm loop writes then. -/
def initTmpCheckpoint (save : Save μ) : Program (FileSystem μ) (FsOp μ) :=
  .look fun fs =>
    let start := .ops (.mkdir (.tmpStep save.step) :: save.files.map (.write (.tmpStep save.step)))
    if exists' fs (.tmpStep save.step) then .act (.rmtree (.tmpStep save.step)) start else start

/-- `_load_checkpoint_history`: step and training info of the directories that have one. -/
def loadCheckpointHistory (fs : FileSystem μ) : List (ℕ × Dict String μ) :=
  fs.entries.filterMap fun entry =>
    match entry.1 with
    | .step n => entry.2.trainingInfo.map (Prod.mk n)
    | _ => none

def latestStep (history : List (ℕ × Dict String μ)) : Option ℕ := (history.map Prod.fst).max?

/-- `info.get(metric, -inf)` and `info.get(metric, inf)`. -/
def metricOrBot (metric : String) (info : Dict String μ) : WithBot μ := info.get? metric

def metricOrTop (metric : String) (info : Dict String μ) : WithTop μ := info.get? metric

section Retention

variable [LinearOrder μ]

/-- `x` comes before `y` in `_sort_checkpoints_best_first`. -/
def bestFirst (m : CheckpointManager) (x y : ℕ × Dict String μ) : Bool :=
  match m.metricName with
  | none => y.1 ≤ x.1
  | some metric =>
    if m.higherIsBetter then
      toLex (metricOrBot metric y.2,y.1) ≤ toLex (metricOrBot metric x.2,x.1)
    else
      toLex (metricOrTop metric x.2,OrderDual.toDual x.1) ≤
        toLex (metricOrTop metric y.2,OrderDual.toDual y.1)

/-- The steps that `remove_old_checkpoints` removes. -/
def outdated (m : CheckpointManager) (k : ℕ) (fs : FileSystem μ) : List ℕ :=
  let history := loadCheckpointHistory fs
  (((history.insertionSort fun x y => bestFirst m x y).drop k).map Prod.fst).filter fun n =>
    latestStep history ≠ some n

def removeOldCheckpoints (m : CheckpointManager) : Program (FileSystem μ) (FsOp μ) :=
  match m.keepTopK with
  | none => .done
  | some k => .look fun fs => .ops ((outdated m k fs).map fun n => .rmtree (.step n))

/-- `finalize_checkpoint`, before it removes old checkpoints. -/
def publish (n : ℕ) : Program (FileSystem μ) (FsOp μ) :=
  .look fun fs =>
    if exists' fs (.step n) then
      .act (.rename (.step n) (.oldStep n)) (.act (.rename (.tmpStep n) (.step n)) (.look fun fs =>
        if exists' fs (.oldStep n) then .act (.rmtree (.oldStep n)) .done else .done))
    else .act (.rename (.tmpStep n) (.step n)) .done

def finalizeCheckpoint (m : CheckpointManager) (n : ℕ) : Program (FileSystem μ) (FsOp μ) :=
  (publish n).seq (removeOldCheckpoints m)

def saveCheckpoint (m : CheckpointManager) (save : Save μ) : Program (FileSystem μ) (FsOp μ) :=
  (initTmpCheckpoint save).seq (finalizeCheckpoint m save.step)

end Retention

def stepDirs (fs : FileSystem μ) : List ℕ :=
  fs.entries.filterMap fun entry =>
    match entry.1 with
    | .step n => some n
    | _ => none

def getLatestCheckpointPath (fs : FileSystem μ) : Option DirName :=
  ((stepDirs fs).insertionSort (· ≤ ·)).getLast?.map .step

end Checkpoint
end DockyardRL
