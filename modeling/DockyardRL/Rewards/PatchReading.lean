import DockyardRL.Rewards.PatchLanguage
import Mathlib.Data.Char
import Mathlib.Data.Finset.Sort
import Mathlib.Data.List.Lex

/-! What is read from the text of a patch, and the patches from which the changed paths are read.

The gate in front of a reward, which is to close for agents that change a held-out file. -/
namespace DockyardRL
namespace Rewards

section

open Pattern

variable (classes : CharClasses)

/-- A path is read in a header line of a change. -/
def FileChange.HeaderNames (file : FileChange) (x : List Char) : Prop :=
  ∃ line ∈ file.headerLines, x ∈ lineNames classes line

/-- A path is read in a line of the content. -/
def FileChange.ContentNames (file : FileChange) (x : List Char) : Prop :=
  ∃ hunk ∈ file.hunks, ∃ line ∈ hunk.body, x ∈ lineNames classes line.text

/-- A path is read somewhere. -/
def Patch.Names (patch : Patch) (x : List Char) : Prop :=
  ∃ file ∈ patch, file.HeaderNames classes x ∨ file.ContentNames classes x

/-- The text starts otherwise than the lines in which paths are read. -/
def Apart (word : List Char) : Bool :=
  ["diff --git a/".toList,"+++ ".toList,"--- ".toList].all fun mark =>
    !mark.isPrefixOf word && !word.isPrefixOf mark

/-- A line that starts with such a text. -/
inductive Silent : List Char → Prop
  | mk {word text : List Char} (apart : Apart word = true) (noFeed : '\n' ∉ word)
    (noFeed' : '\n' ∉ text) : Silent (word ++ text)

theorem Silent.noFeed {line : List Char} (hline : Silent line) : '\n' ∉ line := by
  obtain ⟨-,hword,htext⟩ := hline
  rw [List.mem_append,not_or]
  exact ⟨hword,htext⟩

theorem Silent.lineNames {line : List Char} (hline : Silent line) :
    lineNames classes line = [] := by
  obtain ⟨hword,-,-⟩ := hline
  rename_i word text
  have hmark : ∀ mark ∈ ["diff --git a/".toList,"+++ ".toList,"--- ".toList],
      ¬ mark <+: word ++ text := by
    intro mark hmark h
    have hapart := List.all_eq_true.mp hword mark hmark
    rw [Bool.and_eq_true,Bool.not_eq_true',Bool.not_eq_true',← Bool.not_eq_true,← Bool.not_eq_true,
      List.isPrefixOf_iff_prefix,List.isPrefixOf_iff_prefix] at hapart
    exact not_prefix_append hapart.1 hapart.2 text h
  exact lineNames_eq_nil (hmark _ (by simp)) (hmark _ (by simp)) (hmark _ (by simp))

theorem Spelling.noFeed {name : List Char} (hname : '\n' ∉ name) (spelling : Spelling name) :
    '\n' ∉ spelling.text := by
  cases spelling with
  | plain => exact hname
  | quoted text htext hunquotes =>
    rw [Spelling.text,List.mem_cons,not_or]
    exact ⟨by decide,htext⟩

theorem inDir_noFeed {dir : List Char} (hdir : '\n' ∉ dir) (path : DiffPath) :
    '\n' ∉ inDir dir path := by
  rw [inDir,List.mem_append,List.mem_cons]
  rintro (h | h | h)
  · exact hdir h
  · cases h
  · exact path.noFeed h

theorem append_noFeed {front text : List Char} (hfront : '\n' ∉ front) (htext : '\n' ∉ text) :
    '\n' ∉ front ++ text := by
  rw [List.mem_append,not_or]
  exact ⟨hfront,htext⟩

theorem stampText_noFeed (stamp : Option Line) : '\n' ∉ stampText stamp := by
  cases stamp with
  | none => exact List.not_mem_nil
  | some stamp =>
    rw [stampText,List.mem_cons,not_or]
    exact ⟨by decide,stamp.2⟩

theorem toDigits_noFeed (n : ℕ) : '\n' ∉ Nat.toDigits 10 n :=
  fun h => absurd (Words.isDigit_of_mem_toDigits h) (by decide)

theorem devNull_noFeed : '\n' ∉ devNull := by decide

theorem fileLines_noFeed (change : Change) {oldName newName : List Char} (hold : '\n' ∉ oldName)
    (hnew : '\n' ∉ newName) (oldStamp newStamp : Option Line) :
    ∀ line ∈ fileLines change oldName newName oldStamp newStamp, '\n' ∉ line := by
  have hshownOld : '\n' ∉ change.shownOld oldName := by
    cases change <;> first | exact devNull_noFeed | exact hold
  have hshownNew : '\n' ∉ change.shownNew newName := by
    cases change <;> first | exact devNull_noFeed | exact hnew
  intro line hline
  rw [fileLines,List.mem_cons,List.mem_singleton] at hline
  rcases hline with rfl | rfl
  · exact append_noFeed (by decide) (append_noFeed hshownOld (stampText_noFeed _))
  · exact append_noFeed (by decide) (append_noFeed hshownNew (stampText_noFeed _))

namespace GitHeader

variable {change : Change} (header : GitHeader change)

theorem oldDir_noFeed : '\n' ∉ inDir ['a'] change.old := inDir_noFeed (by decide) _

theorem newDir_noFeed : '\n' ∉ inDir ['b'] change.new := inDir_noFeed (by decide) _

theorem gitLine_noFeed : '\n' ∉ header.gitLine := by
  refine append_noFeed (by decide) (append_noFeed (header.oldName.noFeed oldDir_noFeed) ?_)
  rw [List.mem_cons,not_or]
  exact ⟨by decide,header.newName.noFeed newDir_noFeed⟩

theorem fileLines_noFeed : ∀ line ∈ header.fileLines, '\n' ∉ line :=
  Rewards.fileLines_noFeed change (header.oldFile.noFeed oldDir_noFeed)
    (header.newFile.noFeed newDir_noFeed) _ _

theorem extendedLines_spec {line : List Char} (hline : line ∈ header.extendedLines) :
    Silent line := by
  rw [extendedLines,List.mem_append] at hline
  rcases hline with hline | hline
  · cases change with
    | create path =>
      rw [List.mem_singleton.mp hline]
      exact .mk (by decide) (by decide) header.mode.2
    | delete path =>
      rw [List.mem_singleton.mp hline]
      exact .mk (by decide) (by decide) header.mode.2
    | modify path => cases hline
    | rename old new =>
      rw [kindLines,List.mem_cons,List.mem_cons,List.mem_singleton] at hline
      rcases hline with rfl | rfl | rfl
      · exact .mk (by decide) (by decide)
          (append_noFeed (toDigits_noFeed _) (by decide))
      · exact .mk (by decide) (by decide) (header.renameFrom.noFeed old.noFeed)
      · exact .mk (by decide) (by decide) (header.renameTo.noFeed new.noFeed)
  · obtain ⟨index,-,rfl⟩ := List.mem_map.mp hline
    exact .mk (by decide) (by decide) index.2

end GitHeader

theorem BareHeader.fileLines_noFeed {change : Change} (header : BareHeader change) :
    ∀ line ∈ header.fileLines, '\n' ∉ line :=
  Rewards.fileLines_noFeed change (inDir_noFeed header.oldDir.1.2 _)
    (inDir_noFeed header.newDir.1.2 _) _ _

theorem HunkLine.noFeed (line : HunkLine) : '\n' ∉ line.text := by
  have hmark : '\n' ≠ line.kind.mark := by cases line.kind <;> decide
  rw [HunkLine.text,List.mem_cons,not_or]
  exact ⟨hmark,line.content.2⟩

theorem Hunk.range_noFeed (start count : ℕ) : '\n' ∉ Hunk.range start count := by
  refine append_noFeed (toDigits_noFeed _) ?_
  rw [List.mem_cons,not_or]
  exact ⟨by decide,toDigits_noFeed _⟩

theorem Hunk.head_spec (hunk : Hunk) : Silent hunk.head := by
  refine .mk (by decide) (by decide) ?_
  refine append_noFeed (append_noFeed (append_noFeed (append_noFeed ?_ ?_) ?_) ?_) hunk.heading.2
  · exact range_noFeed _ _
  · decide
  · exact range_noFeed _ _
  · decide

theorem FileChange.headerLines_noFeed (file : FileChange) :
    ∀ line ∈ file.headerLines, '\n' ∉ line := by
  intro line hline
  cases hheader : file.header with
  | git header =>
    rw [headerLines,hheader] at hline
    rcases List.mem_append.mp hline with hline | hline
    · rcases List.mem_cons.mp hline with rfl | hline
      · exact header.gitLine_noFeed
      · exact (header.extendedLines_spec hline).noFeed
    · split_ifs at hline
      · cases hline
      · exact header.fileLines_noFeed line hline
  | bare header =>
    rw [headerLines,hheader] at hline
    exact header.fileLines_noFeed line hline

theorem FileChange.lines_noFeed (file : FileChange) : ∀ line ∈ file.lines, '\n' ∉ line := by
  intro line hline
  rcases List.mem_append.mp hline with hline | hline
  · exact file.headerLines_noFeed line hline
  · obtain ⟨hunk,-,hline⟩ := List.mem_flatMap.mp hline
    rcases List.mem_cons.mp hline with rfl | hline
    · exact hunk.head_spec.noFeed
    · obtain ⟨inner,-,rfl⟩ := List.mem_map.mp hline
      exact inner.noFeed

theorem splitOn_lines {texts : List (List Char)} (htexts : ∀ text ∈ texts, '\n' ∉ text) :
    (lines texts).splitOn '\n' = texts ++ [[]] := by
  induction texts with
  | nil => rfl
  | cons text texts ih =>
    have hcons : lines (text :: texts) = text ++ '\n' :: lines texts := by simp [lines]
    rw [hcons,List.splitOn_append_cons_self,List.splitOn_eq_singleton (htexts text List.mem_cons_self),
      ih fun other hother => htexts other (List.mem_cons_of_mem _ hother)]
    rfl

theorem mem_parseDiffPaths_render {patch : Patch} {x : List Char} :
    x ∈ parseDiffPaths classes patch.render ↔ patch.Names classes x := by
  have hfeed : ∀ line ∈ patch.flatMap FileChange.lines, '\n' ∉ line := by
    intro line hline
    obtain ⟨file,-,hline⟩ := List.mem_flatMap.mp hline
    exact file.lines_noFeed line hline
  rw [mem_parseDiffPaths_iff,Patch.render,splitOn_lines hfeed]
  constructor
  · rintro ⟨line,hline,hx⟩
    rcases List.mem_append.mp hline with hline | hline
    · obtain ⟨file,hfile,hline⟩ := List.mem_flatMap.mp hline
      refine ⟨file,hfile,?_⟩
      rcases List.mem_append.mp hline with hline | hline
      · exact .inl ⟨line,hline,hx⟩
      · obtain ⟨hunk,hhunk,hline⟩ := List.mem_flatMap.mp hline
        rcases List.mem_cons.mp hline with rfl | hline
        · rw [hunk.head_spec.lineNames] at hx
          cases hx
        · obtain ⟨inner,hinner,rfl⟩ := List.mem_map.mp hline
          exact .inr ⟨hunk,hhunk,inner,hinner,hx⟩
    · rw [List.mem_singleton.mp hline] at hx
      cases hx
  · rintro ⟨file,hfile,⟨line,hline,hx⟩ | ⟨hunk,hhunk,inner,hinner,hx⟩⟩
    · exact ⟨line,List.mem_append_left _ (List.mem_flatMap.mpr
        ⟨file,hfile,List.mem_append_left _ hline⟩),hx⟩
    · refine ⟨inner.text,List.mem_append_left _ (List.mem_flatMap.mpr
        ⟨file,hfile,List.mem_append_right _ (List.mem_flatMap.mpr ⟨hunk,hhunk,?_⟩)⟩),hx⟩
      exact List.mem_cons_of_mem _ (List.mem_map_of_mem hinner)

/-- The names stand as they are, without a time behind them, and the old name has nothing that
looks like the start of the new one. -/
structure GitHeader.Legible {change : Change} (header : GitHeader change) : Prop where
  oldName : header.oldName = .plain
  newName : header.newName = .plain
  noSep : ¬ " b/".toList <:+: change.old.text.drop 1
  oldFile : header.oldFile = .plain
  newFile : header.newFile = .plain
  oldStamp : (stampText header.oldStamp).all classes.isSpace = true
  newStamp : (stampText header.newStamp).all classes.isSpace = true

/-- The directories in front are the usual ones, and no time stands behind the names. -/
structure BareHeader.Legible {change : Change} (header : BareHeader change) : Prop where
  oldDir : header.oldDir.1.1 = ['a']
  newDir : header.newDir.1.1 = ['b']
  oldStamp : (stampText header.oldStamp).all classes.isSpace = true
  newStamp : (stampText header.newStamp).all classes.isSpace = true

/-- The header is of such a kind, and the paths end with visible characters. -/
structure FileChange.Legible (file : FileChange) : Prop where
  git : ∀ header, file.header = .git header → header.Legible classes
  bare : ∀ header, file.header = .bare header → header.Legible classes
  oldEnd : file.change.old.text.rdropWhile classes.isSpace = file.change.old.text
  newEnd : file.change.new.text.rdropWhile classes.isSpace = file.change.new.text

/-- A removed or an added line of the content reads like a line for the old or the new file. -/
def HunkLine.Quotes (line : HunkLine) (x : List Char) : Prop :=
  x ≠ devNull ∧ ∃ body, NameThen classes.isSpace body x ∧
    (line.kind = .removed ∧ BehindMark "-- ".toList "a/".toList line.content.1 body ∨
      line.kind = .added ∧ BehindMark "++ ".toList "b/".toList line.content.1 body)

def FileChange.Quotes (file : FileChange) (x : List Char) : Prop :=
  ∃ hunk ∈ file.hunks, ∃ line ∈ hunk.body, line.Quotes classes x

namespace Patch

def Legible (patch : Patch) : Prop := ∀ file ∈ patch, file.Legible classes

/-- Some line of the content quotes a path. -/
def Quotes (patch : Patch) (x : List Char) : Prop := ∃ file ∈ patch, file.Quotes classes x

end Patch

variable {classes}

theorem not_prefix_of_head {mark : List Char} {c : Char} (hmark : mark.head? ≠ some c)
    (hne : mark ≠ []) (text : List Char) : ¬ mark <+: c :: text := by
  obtain ⟨d,mark,rfl⟩ := List.exists_cons_of_ne_nil hne
  exact fun h => hmark (congrArg some (List.cons_prefix_cons.mp h).1)

/-- Of the content only the removed and the added lines can name a path. -/
theorem HunkLine.mem_lineNames_iff (line : HunkLine) (x : List Char) :
    x ∈ lineNames classes line.text ↔ line.Quotes classes x := by
  have hgit := @not_prefix_of_head "diff --git a/".toList
  have hplus := @not_prefix_of_head "+++ ".toList
  have hminus := @not_prefix_of_head "--- ".toList
  rw [text,Quotes]
  cases line.kind with
  | removed =>
    have hbehind : ∀ body, BehindMark "--- ".toList "a/".toList ('-' :: line.content.1) body ↔
        BehindMark "-- ".toList "a/".toList line.content.1 body := fun body => behindMark_cons_iff
    rw [LineKind.mark,lineNames,gitLineNames_eq_nil (hgit (by decide) (by decide) _),
      fileLineNames_eq_nil _ (hplus (by decide) (by decide) _),List.nil_append,List.nil_append,
      mem_fileLineNames_iff]
    simp only [hbehind,true_and,reduceCtorEq,false_and,or_false,and_comm]
  | added =>
    have hbehind : ∀ body, BehindMark "+++ ".toList "b/".toList ('+' :: line.content.1) body ↔
        BehindMark "++ ".toList "b/".toList line.content.1 body := fun body => behindMark_cons_iff
    rw [LineKind.mark,lineNames,gitLineNames_eq_nil (hgit (by decide) (by decide) _),
      fileLineNames_eq_nil "a/" (hminus (by decide) (by decide) _),List.nil_append,List.append_nil,
      mem_fileLineNames_iff]
    simp only [hbehind,true_and,reduceCtorEq,false_and,false_or,and_comm]
  | context | noNewline =>
    rw [LineKind.mark,lineNames_eq_nil (hgit (by decide) (by decide) _)
      (hplus (by decide) (by decide) _) (hminus (by decide) (by decide) _)]
    simp only [List.not_mem_nil,reduceCtorEq,false_and,or_false,and_false,exists_false]

theorem DiffPath.ne_nil (path : DiffPath) : path.text ≠ [] := by
  intro h
  have hparts := path.parts
  rw [h] at hparts
  exact hparts (by decide)

theorem DiffPath.ne_devNull (path : DiffPath) : path.text ≠ devNull := by
  intro h
  have hparts := path.parts
  rw [h] at hparts
  exact hparts (by decide)

section

variable {change : Change}

theorem GitHeader.Legible.lineNames {header : GitHeader change} (hheader : header.Legible classes)
    (hend : change.new.text.rdropWhile classes.isSpace = change.new.text) :
    lineNames classes header.gitLine = [change.old.text,change.new.text] := by
  have hname := @name_append classes.isSpace _ [] change.new.ne_nil hend rfl
  rw [List.append_nil] at hname
  have hline : header.gitLine = ("diff --git ".toList ++ ['a','/']) ++
      (change.old.text ++ ' ' :: (['b','/'] ++ change.new.text)) := by
    unfold gitLine
    generalize "diff --git ".toList = word
    rw [hheader.oldName,hheader.newName,Spelling.text,Spelling.text,inDir,inDir]
    simp only [List.append_assoc,List.cons_append,List.nil_append]
  have hword : "diff --git ".toList ++ ['a','/'] = "diff --git a/".toList := by decide
  have hsplit : splitName " b/".toList
      (change.old.text ++ ' ' :: (['b','/'] ++ change.new.text)) =
        some (change.old.text,change.new.text) :=
    splitName_append (by decide) change.old.ne_nil change.new.ne_nil hheader.noSep
  rw [hline,hword,lineNames_git,hsplit,Option.map_some,Option.getD_some,hname]

section

variable {path : DiffPath} {stamp : List Char}
  (hpath : path.text.rdropWhile classes.isSpace = path.text)
  (hstamp : stamp.all classes.isSpace = true)

include hpath hstamp

theorem lineNames_oldFile :
    lineNames classes ("--- ".toList ++ (inDir ['a'] path ++ stamp)) = [path.text] := by
  have hdir : inDir ['a'] path ++ stamp = "a/".toList ++ (path.text ++ stamp) := by simp [inDir]
  rw [lineNames_minus,hdir,fileLineNames_append path.ne_nil path.ne_devNull hpath hstamp]

theorem lineNames_newFile :
    lineNames classes ("+++ ".toList ++ (inDir ['b'] path ++ stamp)) = [path.text] := by
  have hdir : inDir ['b'] path ++ stamp = "b/".toList ++ (path.text ++ stamp) := by simp [inDir]
  rw [lineNames_plus,hdir,fileLineNames_append path.ne_nil path.ne_devNull hpath hstamp]

end

theorem lineNames_noOldFile {stamp : List Char} (hstamp : stamp.all classes.isSpace = true) :
    lineNames classes ("--- ".toList ++ (devNull ++ stamp)) = [] := by
  rw [lineNames_minus,fileLineNames_devNull (by decide) (by decide) hstamp]

theorem lineNames_noNewFile {stamp : List Char} (hstamp : stamp.all classes.isSpace = true) :
    lineNames classes ("+++ ".toList ++ (devNull ++ stamp)) = [] := by
  rw [lineNames_plus,fileLineNames_devNull (by decide) (by decide) hstamp]

/-- The paths in the lines for the old and the new file. -/
theorem mem_lineNames_fileLines {oldStamp newStamp : Option Line}
    (hold : change.old.text.rdropWhile classes.isSpace = change.old.text)
    (hnew : change.new.text.rdropWhile classes.isSpace = change.new.text)
    (holdStamp : (stampText oldStamp).all classes.isSpace = true)
    (hnewStamp : (stampText newStamp).all classes.isSpace = true) (x : List Char) :
    (∃ line ∈ fileLines change (inDir ['a'] change.old) (inDir ['b'] change.new) oldStamp newStamp,
      x ∈ lineNames classes line) ↔ x = change.old.text ∨ x = change.new.text := by
  rw [fileLines]
  simp only [List.mem_cons,List.not_mem_nil,or_false,exists_eq_or_imp,exists_eq_left]
  cases change with
  | create path =>
    rw [Change.shownOld,Change.shownNew,lineNames_noOldFile holdStamp,
      lineNames_newFile hnew hnewStamp]
    simp [Change.old,Change.new]
  | delete path =>
    rw [Change.shownOld,Change.shownNew,lineNames_oldFile hold holdStamp,
      lineNames_noNewFile hnewStamp]
    simp [Change.old,Change.new]
  | modify path =>
    rw [Change.shownOld,Change.shownNew,lineNames_oldFile hold holdStamp,
      lineNames_newFile hnew hnewStamp]
    simp [Change.old,Change.new]
  | rename old new =>
    rw [Change.shownOld,Change.shownNew,lineNames_oldFile hold holdStamp,
      lineNames_newFile hnew hnewStamp]
    simp [Change.old,Change.new]

end

theorem FileChange.Legible.headerNames_iff {file : FileChange} (hfile : file.Legible classes)
    (x : List Char) : file.HeaderNames classes x ↔ file.Changes x := by
  rw [HeaderNames,headerLines,Changes]
  cases hheader : file.header with
  | git header =>
    have hlegible := hfile.git header hheader
    have hline := hlegible.lineNames hfile.newEnd
    have hfileLines := mem_lineNames_fileLines hfile.oldEnd hfile.newEnd hlegible.oldStamp
      hlegible.newStamp x
    constructor
    · rintro ⟨line,hmem,hx⟩
      rcases List.mem_append.mp hmem with hmem | hmem
      · rcases List.mem_cons.mp hmem with rfl | hmem
        · rw [hline] at hx
          simpa using hx
        · rw [(header.extendedLines_spec hmem).lineNames] at hx
          cases hx
      · split_ifs at hmem
        · cases hmem
        · rw [GitHeader.fileLines,hlegible.oldFile,hlegible.newFile] at hmem
          exact hfileLines.mp ⟨line,hmem,hx⟩
    · intro hx
      refine ⟨header.gitLine,List.mem_append_left _ List.mem_cons_self,?_⟩
      rw [hline]
      simpa using hx
  | bare header =>
    have hlegible := hfile.bare header hheader
    have hfileLines := mem_lineNames_fileLines hfile.oldEnd hfile.newEnd hlegible.oldStamp
      hlegible.newStamp x
    dsimp only
    rw [BareHeader.fileLines,hlegible.oldDir,hlegible.newDir]
    exact hfileLines

theorem FileChange.contentNames_iff (file : FileChange) (x : List Char) :
    file.ContentNames classes x ↔ file.Quotes classes x := by
  simp only [ContentNames,Quotes,HunkLine.mem_lineNames_iff]

/-- From a patch with such headers the changed paths are read, and those that its content quotes. -/
theorem Patch.Legible.names_iff {patch : Patch} (hpatch : patch.Legible classes) (x : List Char) :
    patch.Names classes x ↔ patch.Changes x ∨ patch.Quotes classes x := by
  constructor
  · rintro ⟨file,hfile,hx | hx⟩
    · exact .inl ⟨file,hfile,((hpatch file hfile).headerNames_iff x).mp hx⟩
    · exact .inr ⟨file,hfile,(file.contentNames_iff x).mp hx⟩
  · rintro (⟨file,hfile,hx⟩ | ⟨file,hfile,hx⟩)
    · exact ⟨file,hfile,.inl (((hpatch file hfile).headerNames_iff x).mpr hx)⟩
    · exact ⟨file,hfile,.inr ((file.contentNames_iff x).mpr hx)⟩

end

open Pattern

variable (classes : CharClasses) (printable : Char → Bool)

def listText (texts : List (List Char)) : List Char :=
  '[' :: (", ".toList.intercalate (texts.map (Executor.repr printable)) ++ [']'])

/-- `IntegrityReward.__call__`. -/
def integrityReward (inner : Trajectory → RewardVerificationResult) (trajectory : Trajectory) :
    RewardVerificationResult :=
  let heldOut := parseDiffPaths classes (trajectory.testPatch.getD [])
  let agent := parseDiffPaths classes (trajectory.patch.getD [])
  let touched := (agent ∩ heldOut).sort (· ≤ ·)
  if touched ≠ [] then
    ⟨0,.integrityFailure,none,
      some ("patch modifies held-out test file(s): ".toList ++ listText printable touched)⟩
  else inner trajectory

/-- The two patches change a file at the same path. -/
def SharePath (agent gold : Patch) : Prop := ∃ x, agent.Changes x ∧ gold.Changes x

/-- The gate closes if and only if a path is shared, and else gives what the reward behind it
gives, whatever that is. -/
def IntegrityExact (agent gold : Patch) : Prop :=
  ∀ (inner : Trajectory → RewardVerificationResult) (trajectory : Trajectory),
    trajectory.patch = some agent.render → trajectory.testPatch = some gold.render →
      let result := integrityReward classes printable inner trajectory
      (SharePath agent gold → result.status = .integrityFailure ∧ result.reward = 0) ∧
        (¬ SharePath agent gold → result = inner trajectory)

/-- A path that the content of one patch quotes is changed or quoted by the other. -/
def Confusable (agent gold : Patch) : Prop :=
  ∃ x, agent.Quotes classes x ∧ (gold.Changes x ∨ gold.Quotes classes x) ∨
    agent.Changes x ∧ gold.Quotes classes x

section

variable {trajectory : Trajectory} {agent gold : Patch} (inner : Trajectory → RewardVerificationResult)
  (hpatch : trajectory.patch = some agent.render)
  (htest : trajectory.testPatch = some gold.render)

include hpatch htest

theorem mem_touched_iff (x : List Char) :
    x ∈ parseDiffPaths classes (trajectory.patch.getD []) ∩
        parseDiffPaths classes (trajectory.testPatch.getD []) ↔
      agent.Names classes x ∧ gold.Names classes x := by
  rw [Finset.mem_inter,hpatch,htest,Option.getD_some,Option.getD_some,
    mem_parseDiffPaths_render classes,mem_parseDiffPaths_render classes]

theorem integrityReward_of_names (h : ∃ x, agent.Names classes x ∧ gold.Names classes x) :
    (integrityReward classes printable inner trajectory).status = .integrityFailure ∧
      (integrityReward classes printable inner trajectory).reward = 0 := by
  obtain ⟨x,hx⟩ := h
  have hmem := (mem_touched_iff classes hpatch htest x).mpr hx
  have hne : (parseDiffPaths classes (trajectory.patch.getD []) ∩
      parseDiffPaths classes (trajectory.testPatch.getD [])).sort (· ≤ ·) ≠ [] :=
    List.ne_nil_of_mem ((Finset.mem_sort _).mpr hmem)
  unfold integrityReward
  rw [if_pos hne]
  exact ⟨rfl,rfl⟩

theorem integrityReward_of_apart (h : ¬ ∃ x, agent.Names classes x ∧ gold.Names classes x) :
    integrityReward classes printable inner trajectory = inner trajectory := by
  have hnil : (parseDiffPaths classes (trajectory.patch.getD []) ∩
      parseDiffPaths classes (trajectory.testPatch.getD [])).sort (· ≤ ·) = [] := by
    refine List.eq_nil_iff_forall_not_mem.mpr fun x hx => h ⟨x,?_⟩
    exact (mem_touched_iff classes hpatch htest x).mp ((Finset.mem_sort _).mp hx)
  unfold integrityReward
  rw [if_neg fun hne => hne hnil]

end

def trajectoryOf (agent gold : Patch) : Trajectory :=
  ⟨"","",none,some agent.render,some gold.render,none,none,none,none⟩

variable {agent gold : Patch}

theorem integrityExact_iff_names : IntegrityExact classes printable agent gold ↔
    (SharePath agent gold ↔ ∃ x, agent.Names classes x ∧ gold.Names classes x) := by
  constructor
  · intro h
    have hresult := h (fun _ => ⟨1,.ok,none,none⟩) (trajectoryOf agent gold) rfl rfl
    constructor
    · intro hshare
      by_contra hnames
      have hopen := integrityReward_of_apart classes printable (fun _ => ⟨1,.ok,none,none⟩)
        (rfl : (trajectoryOf agent gold).patch = _) rfl hnames
      have hclosed := (hresult.1 hshare).1
      rw [hopen] at hclosed
      cases hclosed
    · intro hnames
      by_contra hshare
      have hclosed := (integrityReward_of_names classes printable (fun _ => ⟨1,.ok,none,none⟩)
        (rfl : (trajectoryOf agent gold).patch = _) rfl hnames).1
      have hopen := hresult.2 hshare
      rw [hopen] at hclosed
      cases hclosed
  · intro h inner trajectory hpatch htest
    refine ⟨fun hshare => ?_,fun hshare => ?_⟩
    · exact integrityReward_of_names classes printable inner hpatch htest (h.mp hshare)
    · exact integrityReward_of_apart classes printable inner hpatch htest
        fun hnames => hshare (h.mpr hnames)

def plainHeader (path : DiffPath) (hpath : '\t' ∉ path.text) : GitHeader (.modify path) :=
  ⟨.plain,.plain,⟨[],by decide⟩,0,.plain,.plain,none,.plain,.plain,none,none,fun _ => hpath,
    fun _ => hpath⟩

def removeLine (path : DiffPath) (hpath : '\t' ∉ path.text) (content : Line) : Patch :=
  [⟨.modify path,.git (plainHeader path hpath),[⟨1,1,⟨[],by decide⟩,[⟨.removed,content⟩]⟩],
    fun h => absurd h (List.cons_ne_nil _ _)⟩]

def seedPath : DiffPath := ⟨"db/seed.sql".toList,by decide,by decide⟩

def testPath : DiffPath := ⟨"tests/test_a.py".toList,by decide,by decide⟩

def seedPatch : Patch :=
  removeLine seedPath (by decide) ⟨"-- tests/test_a.py".toList,by decide⟩

def heldOutPatch : Patch :=
  removeLine testPath (by decide) ⟨"assert True".toList,by decide⟩

theorem eq_of_changes_removeLine {path : DiffPath} {hpath : '\t' ∉ path.text} {content : Line}
    {x : List Char} (h : (removeLine path hpath content).Changes x) : x = path.text := by
  obtain ⟨file,hfile,hx⟩ := h
  rw [List.mem_singleton.mp hfile] at hx
  exact hx.elim id id

theorem not_sharePath_seedPatch : ¬ SharePath seedPatch heldOutPatch := by
  rintro ⟨x,hx,hx'⟩
  have heq := (eq_of_changes_removeLine hx).symm.trans (eq_of_changes_removeLine hx')
  exact absurd heq (by decide)

def renamed (old new : DiffPath) (hold : '\t' ∉ old.text) (hnew : '\t' ∉ new.text) : Patch :=
  [⟨.rename old new,.git ⟨.plain,.plain,⟨[],by decide⟩,100,.plain,.plain,none,.plain,.plain,none,none,
    fun _ => hold,fun _ => hnew⟩,[],fun _ => ⟨⟨_,rfl⟩,nofun⟩⟩]

def movedPath : DiffPath := ⟨"db/old/seed.sql".toList,by decide,by decide⟩

def createdPath : DiffPath := ⟨"tests/test_b.py".toList,by decide,by decide⟩

def created (path : DiffPath) (hpath : '\t' ∉ path.text) (content : Line) : Patch :=
  [⟨.create path,.bare ⟨nofun,⟨⟨['a'],by decide⟩,by decide⟩,⟨⟨['b'],by decide⟩,by decide⟩,none,none,
    hpath⟩,[⟨0,1,⟨[],by decide⟩,[⟨.added,content⟩]⟩],fun h => absurd h (List.cons_ne_nil _ _)⟩]

def honestPatch : Patch :=
  removeLine seedPath (by decide) ⟨"-- old rows".toList,by decide⟩ ++
    renamed seedPath movedPath (by decide) (by decide)

def twoTests : Patch :=
  heldOutPatch ++ created createdPath (by decide) ⟨"++ b/new rows".toList,by decide⟩

theorem legible_honestPatch : honestPatch.Legible .ascii := by
  intro file hfile
  rw [honestPatch,removeLine,renamed,List.singleton_append,List.mem_pair] at hfile
  rcases hfile with rfl | rfl
  · refine ⟨?_,nofun,by decide,by decide⟩
    rintro header ⟨⟩
    exact ⟨rfl,rfl,by decide,rfl,rfl,rfl,rfl⟩
  · refine ⟨?_,nofun,by decide,by decide⟩
    rintro header ⟨⟩
    exact ⟨rfl,rfl,by decide,rfl,rfl,rfl,rfl⟩

theorem legible_twoTests : twoTests.Legible .ascii := by
  intro file hfile
  rw [twoTests,heldOutPatch,removeLine,created,List.singleton_append,List.mem_pair] at hfile
  rcases hfile with rfl | rfl
  · refine ⟨?_,nofun,by decide,by decide⟩
    rintro header ⟨⟩
    exact ⟨rfl,rfl,by decide,rfl,rfl,rfl,rfl⟩
  · refine ⟨nofun,?_,by decide,by decide⟩
    rintro header ⟨⟩
    exact ⟨rfl,rfl,rfl,rfl⟩

theorem eq_of_quotes_honestPatch {x : List Char} (h : honestPatch.Quotes .ascii x) :
    x = "old rows".toList := by
  obtain ⟨file,hfile,hunk,hhunk,line,hline,hx⟩ := h
  rw [honestPatch,removeLine,renamed,List.singleton_append,List.mem_pair] at hfile
  rcases hfile with rfl | rfl
  · rw [List.mem_singleton.mp hhunk] at hline
    rw [List.mem_singleton.mp hline,← HunkLine.mem_lineNames_iff] at hx
    exact List.mem_singleton.mp hx
  · cases hhunk

theorem eq_of_quotes_twoTests {x : List Char} (h : twoTests.Quotes .ascii x) :
    x = "new rows".toList := by
  obtain ⟨file,hfile,hunk,hhunk,line,hline,hx⟩ := h
  rw [twoTests,heldOutPatch,removeLine,created,List.singleton_append,List.mem_pair] at hfile
  rcases hfile with rfl | rfl
  · rw [List.mem_singleton.mp hhunk] at hline
    rw [List.mem_singleton.mp hline,← HunkLine.mem_lineNames_iff] at hx
    cases hx
  · rw [List.mem_singleton.mp hhunk] at hline
    rw [List.mem_singleton.mp hline,← HunkLine.mem_lineNames_iff] at hx
    exact List.mem_singleton.mp hx

theorem not_confusable_honestPatch : ¬ Confusable .ascii honestPatch twoTests := by
  have hgold : ¬ twoTests.Changes "old rows".toList := by decide
  have hagent : ¬ honestPatch.Changes "new rows".toList := by decide
  rintro ⟨x,⟨hx,hx' | hx'⟩ | ⟨hx,hx'⟩⟩
  · rw [eq_of_quotes_honestPatch hx] at hx'
    exact hgold hx'
  · rw [eq_of_quotes_honestPatch hx] at hx'
    exact absurd (eq_of_quotes_twoTests hx') (by decide)
  · rw [eq_of_quotes_twoTests hx'] at hx
    exact hagent hx

end Rewards
end DockyardRL
