import DockyardRL.Lib.LinePattern
import DockyardRL.Executor.Staging
import DockyardRL.Rewards.TestRunner
import Mathlib.Data.Finset.Basic

/-! The paths that are read from a diff, line by line.

The language of patches: lists of changes of files, and the texts that `git apply` takes for them.
-/
namespace DockyardRL
namespace Rewards

section

open Pattern

variable (classes : CharClasses)

/-- `_DIFF_GIT_RE`. -/
def diffGitRe : Pattern := markedPair classes.isSpace "diff --git a/".toList " b/".toList

/-- `_PLUS_RE`. -/
def plusRe : Pattern := marked classes.isSpace "+++ ".toList "b/".toList

/-- `_MINUS_RE`. -/
def minusRe : Pattern := marked classes.isSpace "--- ".toList "a/".toList

def devNull : List Char := "/dev/null".toList

def pathsOf (groups : List (List (List Char))) : Finset (List Char) :=
  (groups.flatten.filter (· ≠ devNull)).toFinset

def parseDiffPaths (diff : List Char) : Finset (List Char) :=
  if diff = [] then ∅
  else ((diffGitRe classes).findAll diff).flatten.toFinset ∪
    pathsOf ((plusRe classes).findAll diff) ∪ pathsOf ((minusRe classes).findAll diff)

def gitLineNames (line : List Char) : List (List Char) :=
  (markedPairOn classes.isSpace "diff --git a/".toList " b/".toList line).getD []

def fileLineNames (mark prefix' : String) (line : List Char) : List (List Char) :=
  ((markedOn classes.isSpace mark.toList prefix'.toList line).getD []).filter (· ≠ devNull)

def lineNames (line : List Char) : List (List Char) :=
  gitLineNames classes line ++ fileLineNames classes "+++ " "b/" line ++
    fileLineNames classes "--- " "a/" line

variable {classes}

theorem lineLocal_diffGitRe : LineLocal classes.isSpace (diffGitRe classes)
    (markedPairOn classes.isSpace "diff --git a/".toList " b/".toList) :=
  lineLocal_markedPair ⟨by decide,by decide,fun c hc => by
    have hd : c = 'd' := (Option.some.inj (Option.mem_def.mp hc)).symm
    rw [hd]
    exact not_isSpace_of_isAlpha rfl⟩ (by decide)

theorem lineLocal_plusRe : LineLocal classes.isSpace (plusRe classes)
    (markedOn classes.isSpace "+++ ".toList "b/".toList) :=
  lineLocal_marked ⟨by decide,by decide,fun c hc => by
    have hplus : c = '+' := (Option.some.inj (Option.mem_def.mp hc)).symm
    rw [hplus,isSpace_ascii (by decide)]
    rfl⟩ (by decide)

theorem lineLocal_minusRe : LineLocal classes.isSpace (minusRe classes)
    (markedOn classes.isSpace "--- ".toList "a/".toList) :=
  lineLocal_marked ⟨by decide,by decide,fun c hc => by
    have hminus : c = '-' := (Option.some.inj (Option.mem_def.mp hc)).symm
    rw [hminus,isSpace_ascii (by decide)]
    rfl⟩ (by decide)

theorem mem_flatten_onLines {onLine : List Char → Option (List (List Char))} {text x : List Char} :
    x ∈ (onLines onLine text).flatten ↔
      ∃ line ∈ text.splitOn '\n', x ∈ (onLine line).getD [] := by
  rw [List.mem_flatten]
  constructor
  · rintro ⟨groups,hgroups,hx⟩
    obtain ⟨line,hline,hmem⟩ := List.mem_flatMap.mp hgroups
    refine ⟨line,hline,?_⟩
    rw [Option.mem_toList.mp hmem]
    exact hx
  · rintro ⟨line,hline,hx⟩
    cases hgroups : onLine line with
    | none =>
      rw [hgroups] at hx
      cases hx
    | some groups =>
      rw [hgroups] at hx
      exact ⟨groups,List.mem_flatMap.mpr ⟨line,hline,Option.mem_toList.mpr hgroups⟩,hx⟩

theorem mem_pathsOf {groups : List (List (List Char))} {x : List Char} :
    x ∈ pathsOf groups ↔ x ∈ groups.flatten ∧ x ≠ devNull := by
  rw [pathsOf,List.mem_toFinset,List.mem_filter,decide_eq_true_eq]

theorem parseDiffPaths_eq (diff : List Char) : parseDiffPaths classes diff =
    (((diffGitRe classes).findAll diff).flatten.toFinset ∪
      pathsOf ((plusRe classes).findAll diff) ∪ pathsOf ((minusRe classes).findAll diff)) := by
  rw [parseDiffPaths]
  split_ifs with hdiff
  · subst hdiff
    rw [lineLocal_diffGitRe.findAll_eq,lineLocal_plusRe.findAll_eq,lineLocal_minusRe.findAll_eq,
      lineLocal_diffGitRe.onLines_blank rfl,lineLocal_plusRe.onLines_blank rfl,
      lineLocal_minusRe.onLines_blank rfl]
    rfl
  · rfl

/-- What is read from a diff is what is read in its lines. -/
theorem mem_parseDiffPaths_iff {diff x : List Char} :
    x ∈ parseDiffPaths classes diff ↔
      ∃ line ∈ diff.splitOn '\n', x ∈ lineNames classes line := by
  rw [parseDiffPaths_eq,Finset.mem_union,Finset.mem_union,mem_pathsOf,mem_pathsOf,List.mem_toFinset,
    lineLocal_diffGitRe.findAll_eq,lineLocal_plusRe.findAll_eq,lineLocal_minusRe.findAll_eq,
    mem_flatten_onLines,mem_flatten_onLines,mem_flatten_onLines]
  simp only [lineNames,gitLineNames,fileLineNames,List.mem_append,List.mem_filter,
    decide_eq_true_eq]
  constructor
  · rintro ((⟨line,hline,hx⟩ | ⟨⟨line,hline,hx⟩,hnull⟩) | ⟨⟨line,hline,hx⟩,hnull⟩)
    · exact ⟨line,hline,.inl (.inl hx)⟩
    · exact ⟨line,hline,.inl (.inr ⟨hx,hnull⟩)⟩
    · exact ⟨line,hline,.inr ⟨hx,hnull⟩⟩
  · rintro ⟨line,hline,(hx | ⟨hx,hnull⟩) | ⟨hx,hnull⟩⟩
    · exact .inl (.inl ⟨line,hline,hx⟩)
    · exact .inl (.inr ⟨⟨line,hline,hx⟩,hnull⟩)
    · exact .inr ⟨⟨line,hline,hx⟩,hnull⟩

theorem not_prefix_append {mark word : List Char} (hmark : ¬ mark <+: word) (hword : ¬ word <+: mark)
    (text : List Char) : ¬ mark <+: word ++ text := fun h =>
  (List.prefix_or_prefix_of_prefix h (List.prefix_append word text)).elim hmark hword

theorem gitLineNames_eq_nil {line : List Char} (h : ¬ "diff --git a/".toList <+: line) :
    gitLineNames classes line = [] := by
  rw [gitLineNames,markedPairOn,if_neg h]
  rfl

theorem fileLineNames_eq_nil {mark : String} (dir : String) {line : List Char}
    (h : ¬ mark.toList <+: line) : fileLineNames classes mark dir line = [] := by
  rw [fileLineNames,markedOn,if_neg h]
  rfl

theorem lineNames_git (text : List Char) : lineNames classes ("diff --git a/".toList ++ text) =
    ((splitName " b/".toList text).map fun parts =>
      [parts.1,name classes.isSpace parts.2]).getD [] := by
  have hplus := not_prefix_append (by decide : ¬ "+++ ".toList <+: "diff --git a/".toList)
    (by decide) text
  have hminus := not_prefix_append (by decide : ¬ "--- ".toList <+: "diff --git a/".toList)
    (by decide) text
  rw [lineNames,fileLineNames_eq_nil _ hplus,fileLineNames_eq_nil _ hminus,gitLineNames,markedPairOn,
    if_pos (List.prefix_append _ _),List.drop_left,List.append_nil,List.append_nil]

theorem lineNames_plus (text : List Char) : lineNames classes ("+++ ".toList ++ text) =
    fileLineNames classes "+++ " "b/" ("+++ ".toList ++ text) := by
  have hgit := not_prefix_append (by decide : ¬ "diff --git a/".toList <+: "+++ ".toList)
    (by decide) text
  have hminus := not_prefix_append (by decide : ¬ "--- ".toList <+: "+++ ".toList)
    (by decide) text
  rw [lineNames,gitLineNames_eq_nil hgit,fileLineNames_eq_nil _ hminus,List.append_nil,
    List.nil_append]

theorem lineNames_minus (text : List Char) : lineNames classes ("--- ".toList ++ text) =
    fileLineNames classes "--- " "a/" ("--- ".toList ++ text) := by
  have hgit := not_prefix_append (by decide : ¬ "diff --git a/".toList <+: "--- ".toList)
    (by decide) text
  have hplus := not_prefix_append (by decide : ¬ "+++ ".toList <+: "--- ".toList)
    (by decide) text
  rw [lineNames,gitLineNames_eq_nil hgit,fileLineNames_eq_nil _ hplus]
  rfl

/-- A line without one of the three marks names no path. -/
theorem lineNames_eq_nil {line : List Char} (hgit : ¬ "diff --git a/".toList <+: line)
    (hplus : ¬ "+++ ".toList <+: line) (hminus : ¬ "--- ".toList <+: line) :
    lineNames classes line = [] := by
  rw [lineNames,gitLineNames_eq_nil hgit,fileLineNames_eq_nil _ hplus,fileLineNames_eq_nil _ hminus]
  rfl

theorem mem_fileLineNames_iff {mark dir : String} {line x : List Char} :
    x ∈ fileLineNames classes mark dir line ↔
      x ≠ devNull ∧ ∃ body, BehindMark mark.toList dir.toList line body ∧
        NameThen classes.isSpace body x := by
  rw [fileLineNames,List.mem_filter,mem_markedOn_iff,decide_eq_true_eq,and_comm]

/-- A line that starts with such a mark names the path behind it, unless that is no file. -/
theorem fileLineNames_append {mark dir : String} {front blanks : List Char} (hne : front ≠ [])
    (hnull : front ≠ devNull) (hfront : front.rdropWhile classes.isSpace = front)
    (hblanks : blanks.all classes.isSpace = true) :
    fileLineNames classes mark dir (mark.toList ++ (dir.toList ++ (front ++ blanks))) = [front] := by
  rw [fileLineNames,markedOn_append _ _ hne hfront hblanks,Option.getD_some]
  simp [hnull]

theorem fileLineNames_devNull {mark dir : String} {blanks : List Char}
    (hdir : ¬ dir.toList <+: devNull) (hdir' : ¬ devNull <+: dir.toList)
    (hblanks : blanks.all classes.isSpace = true) :
    fileLineNames classes mark dir (mark.toList ++ (devNull ++ blanks)) = [] := by
  have hvisible : devNull.rdropWhile classes.isSpace = devNull := by
    refine List.rdropWhile_eq_self_iff.mpr fun hne => ?_
    have hlast : devNull.getLast hne = 'l' := rfl
    rw [hlast,not_isSpace_of_isAlpha rfl]
    exact Bool.false_ne_true
  rw [fileLineNames,markedOn_other _ (not_prefix_append hdir hdir' _) (by decide) hvisible
    hblanks,Option.getD_some]
  simp

end

abbrev Line := {text : List Char // '\n' ∉ text}

/-- A path below the root of a repository. -/
structure DiffPath where
  text : List Char
  noFeed : '\n' ∉ text
  parts : [] ∉ text.splitOn '/'

inductive Change
  | create (path : DiffPath)
  | delete (path : DiffPath)
  | modify (path : DiffPath)
  | rename (old new : DiffPath)

namespace Change

def old : Change → DiffPath
  | create path | delete path | modify path => path
  | rename old _ => old

def new : Change → DiffPath
  | create path | delete path | modify path => path
  | rename _ new => new

end Change

def octalDigit (c : Char) : Option ℕ :=
  if '0' ≤ c ∧ c ≤ '7' then some (c.toNat - '0'.toNat) else none

def escapeByte (c : Char) : Option UInt8 :=
  if c = 'a' then some 7 else if c = 'b' then some 8 else if c = 't' then some 9
  else if c = 'n' then some 10 else if c = 'v' then some 11 else if c = 'f' then some 12
  else if c = 'r' then some 13 else if c = '"' then some 34 else if c = '\\' then some 92
  else none

def octalByte (c d e : Char) : Option UInt8 := do
  let high ← octalDigit c
  let mid ← octalDigit d
  let low ← octalDigit e
  if high ≤ 3 then some (UInt8.ofNat (64 * high + 8 * mid + low)) else none

/-- The bytes of a quoted name, whose opening quote stands in front of the text. -/
def unquote : List Char → Option (List UInt8)
  | [] => none
  | '"' :: rest => if rest = [] then some [] else none
  | ['\\'] => none
  | '\\' :: c :: rest =>
    match escapeByte c with
    | some byte => (unquote rest).map (byte :: ·)
    | none =>
      match rest with
      | d :: e :: rest => (octalByte c d e).bind fun byte => (unquote rest).map (byte :: ·)
      | _ => none
  | c :: rest => (unquote rest).map (String.utf8EncodeChar c ++ ·)

/-- How a name stands in a header: as it is, or in quotes. -/
inductive Spelling (name : List Char)
  | plain
  | quoted (text : List Char) (noFeed : '\n' ∉ text)
    (unquotes : unquote text = some (Executor.encode name))

def Spelling.text {name : List Char} : Spelling name → List Char
  | .plain => name
  | .quoted text _ _ => '"' :: text

def stampText : Option Line → List Char
  | none => []
  | some stamp => '\t' :: stamp.1

def Change.shownOld (name : List Char) : Change → List Char
  | .create _ => devNull
  | .delete _ | .modify _ | .rename _ _ => name

def Change.shownNew (name : List Char) : Change → List Char
  | .delete _ => devNull
  | .create _ | .modify _ | .rename _ _ => name

def fileLines (change : Change) (oldName newName : List Char) (oldStamp newStamp : Option Line) :
    List (List Char) :=
  ["--- ".toList ++ (change.shownOld oldName ++ stampText oldStamp),
    "+++ ".toList ++ (change.shownNew newName ++ stampText newStamp)]

def inDir (dir : List Char) (path : DiffPath) : List Char := dir ++ '/' :: path.text

/-- A header with a `diff --git` line. -/
structure GitHeader (change : Change) where
  oldName : Spelling (inDir ['a'] change.old)
  newName : Spelling (inDir ['b'] change.new)
  mode : Line
  similarity : ℕ
  renameFrom : Spelling change.old.text
  renameTo : Spelling change.new.text
  index : Option Line
  oldFile : Spelling (inDir ['a'] change.old)
  newFile : Spelling (inDir ['b'] change.new)
  oldStamp : Option Line
  newStamp : Option Line
  oldTab : oldFile = .plain → '\t' ∉ change.old.text
  newTab : newFile = .plain → '\t' ∉ change.new.text

namespace GitHeader

variable {change : Change} (header : GitHeader change)

def gitLine : List Char :=
  "diff --git ".toList ++ (header.oldName.text ++ ' ' :: header.newName.text)

def kindLines : {change : Change} → GitHeader change → List (List Char)
  | .create _, header => ["new file mode ".toList ++ header.mode.1]
  | .delete _, header => ["deleted file mode ".toList ++ header.mode.1]
  | .modify _, _ => []
  | .rename _ _, header =>
    ["similarity index ".toList ++ (Nat.toDigits 10 header.similarity ++ ['%']),
      "rename from ".toList ++ header.renameFrom.text,"rename to ".toList ++ header.renameTo.text]

def extendedLines : List (List Char) :=
  header.kindLines ++ header.index.toList.map fun index => "index ".toList ++ index.1

def fileLines : List (List Char) :=
  Rewards.fileLines change header.oldFile.text header.newFile.text header.oldStamp header.newStamp

end GitHeader

/-- A header with the lines for the old and the new file only. -/
structure BareHeader (change : Change) where
  notRename : ∀ old new, change ≠ .rename old new
  oldDir : {dir : Line // dir.1 ≠ [] ∧ '/' ∉ dir.1 ∧ '\t' ∉ dir.1}
  newDir : {dir : Line // dir.1 ≠ [] ∧ '/' ∉ dir.1 ∧ '\t' ∉ dir.1}
  oldStamp : Option Line
  newStamp : Option Line
  noTab : '\t' ∉ change.old.text

def BareHeader.fileLines {change : Change} (header : BareHeader change) : List (List Char) :=
  Rewards.fileLines change (inDir header.oldDir.1.1 change.old) (inDir header.newDir.1.1 change.new)
    header.oldStamp header.newStamp

inductive LineKind
  | context | removed | added | noNewline
  deriving DecidableEq

def LineKind.mark : LineKind → Char
  | .context => ' '
  | .removed => '-'
  | .added => '+'
  | .noNewline => '\\'

structure HunkLine where
  kind : LineKind
  content : Line

def HunkLine.text (line : HunkLine) : List Char := line.kind.mark :: line.content.1

structure Hunk where
  oldStart : ℕ
  newStart : ℕ
  heading : Line
  body : List HunkLine

namespace Hunk

variable (hunk : Hunk)

def oldCount : ℕ := hunk.body.countP fun line => line.kind = .context ∨ line.kind = .removed

def newCount : ℕ := hunk.body.countP fun line => line.kind = .context ∨ line.kind = .added

def range (start count : ℕ) : List Char := Nat.toDigits 10 start ++ ',' :: Nat.toDigits 10 count

def head : List Char :=
  "@@ -".toList ++ (range hunk.oldStart hunk.oldCount ++ " +".toList ++
    range hunk.newStart hunk.newCount ++ " @@".toList ++ hunk.heading.1)

def lines : List (List Char) := hunk.head :: hunk.body.map HunkLine.text

end Hunk

inductive Header (change : Change)
  | git (header : GitHeader change)
  | bare (header : BareHeader change)

/-- The change of one file. Only a `diff --git` line can stand without hunks, and does so when the
content stays. -/
structure FileChange where
  change : Change
  header : Header change
  hunks : List Hunk
  whole : hunks = [] → (∃ git, header = .git git) ∧ ∀ path, change ≠ .modify path

namespace FileChange

variable (file : FileChange)

def headerLines : List (List Char) :=
  match file.header with
  | .git header => header.gitLine :: header.extendedLines ++
      if file.hunks = [] then [] else header.fileLines
  | .bare header => header.fileLines

def lines : List (List Char) := file.headerLines ++ file.hunks.flatMap Hunk.lines

/-- The file is changed at a path. -/
def Changes (x : List Char) : Prop := x = file.change.old.text ∨ x = file.change.new.text

instance (x : List Char) : Decidable (file.Changes x) := inferInstanceAs (Decidable (_ ∨ _))

end FileChange

abbrev Patch := List FileChange

namespace Patch

variable (patch : Patch)

def render : List Char := Rewards.lines (patch.flatMap FileChange.lines)

/-- Some file is changed at a path. -/
def Changes (x : List Char) : Prop := ∃ file ∈ patch, file.Changes x

instance (x : List Char) : Decidable (patch.Changes x) :=
  inferInstanceAs (Decidable (∃ file ∈ patch, file.Changes x))

end Patch

end Rewards
end DockyardRL
