import DockyardRL.Executor.Staging

/-! What staging leaves on the disk, for each of the two stagers. -/
namespace DockyardRL
namespace Executor

open Paths FileTree

theorem safeWorkspacePath_eq (base : Place) (name : List Char) :
    safeWorkspacePath base.path name =
      if Outside base name then .error (.unsafePath name)
      else .ok ⟨1,resolve base.parts name⟩ := by
  have hiff := normpath_join_startsWith_iff base name
  rw [safeWorkspacePath]
  by_cases hout : Outside base name
  · rw [if_pos hout]
    refine if_pos ?_
    rw [ne_eq,← not_or,hiff,not_not]
    exact hout
  · rw [if_neg hout,normpath_join_of_not_outside hout] at *
    refine if_neg ?_
    rw [ne_eq,← not_or,hiff,not_not]
    exact hout

/-- The directories of a place are there. -/
def Ready (base : Place) (disk : Disk) : Prop :=
  ∀ place, place <+: base.parts → disk place = some .dir

section Confined

variable {base : Place} {disk : Disk} {name : List Char} {bytes : Except StageError (List UInt8)}

theorem writeFile_other {path place : List Part} (h : place ≠ path) :
    (writeFile path bytes disk).1 place = disk place := by
  have hopen := @openFile_other _ _ _ legalName disk [] path place h
  unfold writeFile
  dsimp only
  split_ifs
  · cases bytes with
    | ok bytes => exact (Function.update_of_ne h _ _).trans hopen
    | error error => exact hopen
  · exact hopen

theorem writeFile_dir {path : List Part} (h : disk path = some .dir) :
    writeFile path bytes disk = (disk,some .blocked) := by
  unfold writeFile
  rw [openFile_dir h]
  rfl

theorem stageFile_other (hready : Ready base disk) {place : List Part}
    (hplace : ¬ (base.parts <+: place ∧ place ≠ base.parts)) :
    (stageFile base.path name bytes disk).1 place = disk place := by
  rw [stageFile,safeWorkspacePath_eq]
  by_cases hout : Outside base name
  · rw [if_pos hout]
  · rw [if_neg hout]
    rw [Outside,not_or,not_not] at hout
    have hmade : (makeDirs legalName [] (resolve base.parts name).dropLast disk).1 place =
        disk place := by
      refine makeDirs_other fun h => ?_
      have hon : place <+: resolve base.parts name := h.2.2.1.trans (List.dropLast_prefix _)
      have habove : place <+: base.parts := by
        rcases List.prefix_or_prefix_of_prefix hon hout.2 with habove | hbelow
        · exact habove
        · by_contra hno
          exact hplace ⟨hbelow,fun heq => hno (heq ▸ List.prefix_rfl)⟩
      have hdir := hready place habove
      rw [h.2.2.2] at hdir
      cases hdir
    dsimp only [NormPath.dirname]
    split_ifs
    · by_cases heq : place = resolve base.parts name
      · have hbase : place = base.parts := by
          by_contra hne
          exact hplace ⟨heq ▸ hout.2,hne⟩
        have hdir := hmade.trans (hready place (hbase ▸ List.prefix_rfl))
        have hblocked := @writeFile_dir _ bytes _ hdir
        rw [heq] at hblocked
        rw [hblocked]
        exact heq ▸ hmade
      · exact (writeFile_other heq).trans hmade
    · exact hmade

theorem stageFile_outside (hout : Outside base name) :
    stageFile base.path name bytes disk = (disk,some (.unsafePath name)) := by
  rw [stageFile,safeWorkspacePath_eq,if_pos hout]

theorem Ready.of_same {disk' : Disk} (hready : Ready base disk)
    (h : ∀ place, ¬ (base.parts <+: place ∧ place ≠ base.parts) → disk' place = disk place) :
    Ready base disk' := by
  intro place hplace
  rw [h place fun hbelow => hbelow.2 (hplace.eq_of_length_le hbelow.1.length_le)]
  exact hready place hplace

theorem stageAll_other {bytesOf : Content → Except StageError (List UInt8)} {files : Files}
    (hready : Ready base disk) {place : List Part}
    (hplace : ¬ (base.parts <+: place ∧ place ≠ base.parts)) :
    (stageAll bytesOf base.path files disk).1 place = disk place := by
  induction files generalizing disk with
  | nil => rfl
  | cons file files ih =>
    have hsame : ∀ place, ¬ (base.parts <+: place ∧ place ≠ base.parts) →
        (stageFile base.path file.1 (bytesOf file.2) disk).1 place = disk place :=
      fun place hplace => stageFile_other hready hplace
    rw [stageAll]
    cases (stageFile base.path file.1 (bytesOf file.2) disk).2 with
    | some error => exact hsame place hplace
    | none => exact (ih (hready.of_same hsame)).trans (hsame place hplace)

theorem stageAll_outside {bytesOf : Content → Except StageError (List UInt8)} {files : Files}
    (hout : ∃ file ∈ files, Outside base file.1) :
    (stageAll bytesOf base.path files disk).2 ≠ none := by
  induction files generalizing disk with
  | nil =>
    obtain ⟨file,hfile,-⟩ := hout
    cases hfile
  | cons file files ih =>
    rw [stageAll]
    cases hstaged : (stageFile base.path file.1 (bytesOf file.2) disk).2 with
    | some error => simp
    | none =>
      refine ih ?_
      obtain ⟨other,hother,hout⟩ := hout
      rcases List.mem_cons.mp hother with rfl | hmem
      · rw [stageFile_outside hout] at hstaged
        cases hstaged
      · exact ⟨other,hmem,hout⟩

end Confined

section Written

variable {base : Place} {disk : Disk}

def below (base : Place) (name : List Char) : List Part :=
  (resolve base.parts name).drop base.parts.length

theorem resolve_eq {name : List Char} (h : ¬ Outside base name) :
    resolve base.parts name = base.parts ++ below base name := by
  rw [Outside,not_or,not_not] at h
  exact (List.prefix_iff_eq_append.mp h.2).symm

theorem stageFile_eq (hready : Ready base disk) {name : List Char} {bytes : List UInt8}
    (hout : ¬ Outside base name) (hlegal : (resolve base.parts name).all legalName = true)
    (hfree : Free (resolve base.parts name) disk) :
    stageFile base.path name (.ok bytes) disk = (put (resolve base.parts name) bytes disk,none) := by
  have hne : resolve base.parts name ≠ [] := by
    rw [resolve_eq hout]
    exact fun h => base.ne_nil (List.append_eq_nil_iff.mp h).1
  have hroot : disk [] = some .dir := hready [] List.nil_prefix
  have hlast : (resolve base.parts name).dropLast.all legalName = true :=
    List.all_eq_true.mpr fun part hpart =>
      List.all_eq_true.mp hlegal part (List.mem_of_mem_dropLast hpart)
  have hdirs : makeDirs legalName [] (resolve base.parts name).dropLast disk =
      (putDirs [] (resolve base.parts name).dropLast disk,true) := by
    refine makeDirs_eq hlast fun place _ _ hplace => ?_
    refine hfree.1 place (hplace.trans (List.dropLast_prefix _)) ?_
    rintro rfl
    have hle := hplace.length_le
    have hpos := List.length_pos_iff.mpr hne
    rw [List.nil_append,List.length_dropLast] at hle
    omega
  rw [stageFile,safeWorkspacePath_eq,if_neg hout]
  dsimp only [NormPath.dirname]
  rw [hdirs]
  unfold writeFile
  rw [openFile_putDirs hne hlegal hroot hfree.2]
  exact Prod.ext (update_put _ _ _) rfl

theorem stageAll_eq {bytesOf : Content → Except StageError (List UInt8)}
    {val : Content → List UInt8} {files : Files} (hval : ∀ file ∈ files, bytesOf file.2 = .ok (val file.2))
    (hready : Ready base disk) (hout : ∀ file ∈ files, ¬ Outside base file.1)
    (hlegal : ∀ file ∈ files, (resolve base.parts file.1).all legalName = true)
    (hfree : ∀ file ∈ files, Free (resolve base.parts file.1) disk)
    (hapart : files.Pairwise fun file other =>
      Apart (resolve base.parts file.1) (resolve base.parts other.1)) :
    stageAll bytesOf base.path files disk =
      (overlay (files.map fun file => (resolve base.parts file.1,val file.2)) disk,none) := by
  induction files generalizing disk with
  | nil => rfl
  | cons file files ih =>
    rw [List.pairwise_cons] at hapart
    have hfirst := @stageFile_eq _ _ hready _ (val file.2) (hout file List.mem_cons_self)
      (hlegal file List.mem_cons_self) (hfree file List.mem_cons_self)
    have hrest : ∀ other ∈ files, other ∈ file :: files := fun other => List.mem_cons_of_mem file
    have hready' : Ready base (put (resolve base.parts file.1) (val file.2) disk) := by
      intro place hplace
      have hbase : base.parts <+: resolve base.parts file.1 := by
        rw [resolve_eq (hout file List.mem_cons_self)]
        exact List.prefix_append _ _
      have hne : place ≠ resolve base.parts file.1 := by
        rintro rfl
        exact (hfree file List.mem_cons_self).2 (hready _ hplace)
      rw [put,if_neg hne,if_pos (hplace.trans hbase)]
    rw [stageAll,hval file List.mem_cons_self,hfirst]
    show stageAll bytesOf base.path files (put _ _ disk) = _
    rw [ih (fun other h => hval other (hrest other h)) hready' (fun other h => hout other (hrest other h))
      (fun other h => hlegal other (hrest other h))
      (fun other h => (hfree other (hrest other h)).put (hapart.1 other h)) hapart.2]
    rw [List.map_cons,overlay_cons]
    intro entry hentry
    obtain ⟨other,hother,rfl⟩ := List.mem_map.mp hentry
    exact hapart.1 other hother

end Written

/-- A directory that can be made and is not there yet. -/
structure Fresh (base : Place) (disk : Disk) : Prop where
  root : disk [] = some .dir
  legal : base.parts.all legalName = true
  above : ∀ place, place <+: base.parts → ∀ content, disk place ≠ some (.file content)
  nothing : ∀ place, base.parts <+: place → disk place = none

section NewDir

variable {base : Place} {disk : Disk} (dockerfile : List Char)

def newDir (base : Place) (disk : Disk) : Disk := putDirs [] base.parts disk

theorem inNewDir_eq (hfresh : Fresh base disk) (body : Disk → Disk × Option StageError) :
    inNewDir base.path body disk = body (newDir base disk) := by
  have hmade : makeDirs legalName [] base.path.parts disk = (newDir base disk,true) :=
    makeDirs_eq hfresh.legal fun place _ _ hplace => hfresh.above place hplace
  unfold inNewDir
  rw [hmade]
  rfl

theorem ready_newDir (hfresh : Fresh base disk) : Ready base (newDir base disk) := by
  intro place hplace
  rw [newDir,putDirs]
  by_cases hne : place = []
  · rw [hne,if_neg fun h => h.2.1 rfl,hfresh.root]
  · exact if_pos ⟨List.nil_prefix,hne,hplace⟩

theorem newDir_file_iff (hfresh : Fresh base disk) {place : List Part} {content : List UInt8} :
    newDir base disk place = some (.file content) ↔ disk place = some (.file content) := by
  rw [newDir,putDirs]
  split_ifs with h
  · exact iff_of_false (fun heq => by cases heq) (hfresh.above place h.2.2 content)
  · exact Iff.rfl

theorem newDir_below (hfresh : Fresh base disk) {place : List Part} (hne : place ≠ []) :
    newDir base disk (base.parts ++ place) = none := by
  rw [newDir,putDirs,if_neg]
  · exact hfresh.nothing _ (List.prefix_append _ _)
  · rintro ⟨-,-,h⟩
    have hle := h.length_le
    have hpos := List.length_pos_iff.mpr hne
    rw [List.length_append] at hle
    omega

def startDisk (base : Place) (disk : Disk) : Mode → Disk
  | .buildContext => Function.update (newDir base disk) (base.parts ++ [dockerfileName])
      (some (.file (encode dockerfile)))
  | _ => newDir base disk

def startTree : Mode → Disk
  | .buildContext => fun place =>
    if place = [dockerfileName] then some (.file (encode dockerfile)) else none
  | _ => fun _ => none

theorem startDisk_below (hfresh : Fresh base disk) (mode : Mode) {place : List Part}
    (hne : place ≠ []) :
    startDisk dockerfile base disk mode (base.parts ++ place) = startTree dockerfile mode place := by
  cases mode with
  | imageHarness => exact newDir_below hfresh hne
  | verifierHarness => exact newDir_below hfresh hne
  | buildContext =>
    show Function.update _ _ _ _ = if place = [dockerfileName] then _ else _
    by_cases hplace : place = [dockerfileName]
    · rw [if_pos hplace,hplace,Function.update_self]
    · rw [if_neg hplace,Function.update_of_ne (by simpa using hplace)]
      exact newDir_below hfresh hne

theorem ready_startDisk (hfresh : Fresh base disk) (mode : Mode) :
    Ready base (startDisk dockerfile base disk mode) := by
  cases mode with
  | imageHarness => exact ready_newDir hfresh
  | verifierHarness => exact ready_newDir hfresh
  | buildContext =>
    refine (ready_newDir hfresh).of_same fun place hplace => ?_
    refine Function.update_of_ne ?_ _ _
    rintro rfl
    exact hplace ⟨List.prefix_append _ _,by simp⟩

theorem write_dockerfile (hfresh : Fresh base disk) :
    writeFile (base.path.parts ++ [dockerfileName]) (.ok (encode dockerfile)) (newDir base disk) =
      (startDisk dockerfile base disk .buildContext,none) := by
  have hparent := ready_newDir hfresh base.parts List.prefix_rfl
  have hnone := newDir_below hfresh (List.cons_ne_nil dockerfileName [])
  have hopen : openFile legalName [] (base.path.parts ++ [dockerfileName]) (newDir base disk) =
      (Function.update (newDir base disk) (base.parts ++ [dockerfileName]) (some (.file [])),true) := by
    rw [openFile,if_pos]
    · rfl
    · rw [List.getLast?_concat,List.dropLast_concat,Place.path,hparent,hnone]
      decide
  unfold writeFile
  rw [hopen]
  exact Prod.ext (Function.update_idem _ _ _) rfl

theorem free_startDisk (hfresh : Fresh base disk) (mode : Mode) {rel : List Part} (hne : rel ≠ [])
    (hdockerfile : mode = .buildContext → [dockerfileName] <+: rel → rel = [dockerfileName]) :
    Free (base.parts ++ rel) (startDisk dockerfile base disk mode) := by
  have hready := ready_startDisk dockerfile hfresh mode
  constructor
  · intro place hplace hneq content
    rcases List.prefix_or_prefix_of_prefix hplace (List.prefix_append base.parts rel) with h | h
    · rw [hready place h]
      exact fun heq => by cases heq
    · obtain ⟨part,rfl⟩ := h
      by_cases hpart : part = []
      · rw [hpart,List.append_nil,hready _ List.prefix_rfl]
        exact fun heq => by cases heq
      · rw [startDisk_below dockerfile hfresh mode hpart]
        rw [List.prefix_append_right_inj] at hplace
        cases mode with
        | imageHarness => exact fun heq => by cases heq
        | verifierHarness => exact fun heq => by cases heq
        | buildContext =>
          have hother : part ≠ [dockerfileName] := by
            rintro rfl
            exact hneq (congrArg (base.parts ++ ·) (hdockerfile rfl hplace).symm)
          show (if part = [dockerfileName] then _ else _) ≠ _
          rw [if_neg hother]
          exact fun heq => by cases heq
  · rw [startDisk_below dockerfile hfresh mode hne]
    cases mode with
    | imageHarness => exact fun heq => by cases heq
    | verifierHarness => exact fun heq => by cases heq
    | buildContext =>
      show (if rel = [dockerfileName] then _ else _) ≠ _
      split_ifs <;> exact fun heq => by cases heq

/-- Names that stay inside the directory, do not collide and can be names of files, and contents
that can be decoded. -/
structure Good (mode : Mode) (base : Place) (files : Files) : Prop where
  inside : ∀ file ∈ files, ¬ Outside base file.1 ∧ below base file.1 ≠ []
  legal : ∀ file ∈ files, (below base file.1).all legalName = true
  apart : files.Pairwise fun file other => Apart (below base file.1) (below base other.1)
  dockerfile : mode = .buildContext → ∀ file ∈ files,
    [dockerfileName] <+: below base file.1 → below base file.1 = [dockerfileName]
  decodable : ∀ file ∈ files, ∃ bytes, fileBytes file.2 = .ok bytes

variable (printable : Char → Bool)

def intended (content : Content) : List UInt8 := (fileBytes content).toOption.getD []

def writes : Mode → Content → List UInt8
  | .imageHarness, content => encode (str printable content)
  | _, content => intended content

theorem fileBytes_eq_intended {content : Content} (h : ∃ bytes, fileBytes content = .ok bytes) :
    fileBytes content = .ok (intended content) := by
  obtain ⟨bytes,hbytes⟩ := h
  rw [intended,hbytes]
  rfl

theorem stage_eq (hfresh : Fresh base disk) {mode : Mode} {files : Files}
    (hgood : Good mode base files) (hfiles : mode = .verifierHarness → files ≠ []) :
    stage printable dockerfile mode base.path files disk =
      (overlay (files.map fun file => (resolve base.parts file.1,writes printable mode file.2))
        (startDisk dockerfile base disk mode),none) := by
  have hready := ready_startDisk dockerfile hfresh mode
  have hresolve : ∀ file ∈ files, resolve base.parts file.1 = base.parts ++ below base file.1 :=
    fun file hfile => resolve_eq (hgood.inside file hfile).1
  have hlegal : ∀ file ∈ files, (resolve base.parts file.1).all legalName = true := by
    intro file hfile
    rw [hresolve file hfile,List.all_append,hfresh.legal,hgood.legal file hfile]
    rfl
  have hfree : ∀ file ∈ files, Free (resolve base.parts file.1) (startDisk dockerfile base disk mode) := by
    intro file hfile
    rw [hresolve file hfile]
    refine free_startDisk dockerfile hfresh mode (hgood.inside file hfile).2 fun hmode => ?_
    exact hgood.dockerfile hmode file hfile
  have hapart : files.Pairwise fun file other =>
      Apart (resolve base.parts file.1) (resolve base.parts other.1) := by
    refine hgood.apart.imp_of_mem fun {file other} hfile hother h => ?_
    rw [hresolve file hfile,hresolve other hother,Apart,List.prefix_append_right_inj,
      List.prefix_append_right_inj]
    exact h
  have hall : ∀ bytesOf : Content → Except StageError (List UInt8),
      (∀ file ∈ files, bytesOf file.2 = .ok (writes printable mode file.2)) →
      stageAll bytesOf base.path files (startDisk dockerfile base disk mode) =
        (overlay (files.map fun file => (resolve base.parts file.1,writes printable mode file.2))
          (startDisk dockerfile base disk mode),none) :=
    fun bytesOf hval => stageAll_eq hval hready (fun file hfile => (hgood.inside file hfile).1)
      hlegal hfree hapart
  cases mode with
  | imageHarness => exact (inNewDir_eq hfresh _).trans (hall _ fun _ _ => rfl)
  | buildContext =>
    rw [stage,inNewDir_eq hfresh]
    dsimp only
    rw [write_dockerfile dockerfile hfresh]
    exact hall _ fun file hfile => fileBytes_eq_intended (hgood.decodable file hfile)
  | verifierHarness =>
    rw [stage,if_neg (hfiles rfl)]
    exact (inNewDir_eq hfresh _).trans
      (hall _ fun file hfile => fileBytes_eq_intended (hgood.decodable file hfile))

def expectedTree (mode : Mode) (base : Place) (files : Files) : Disk :=
  overlay (files.map fun file => (below base file.1,intended file.2)) (startTree dockerfile mode)

/-- Staging succeeds and leaves this tree in the directory. -/
def Exact (mode : Mode) (base : Place) (files : Files) (disk : Disk) : Prop :=
  (stage printable dockerfile mode base.path files disk).2 = none ∧
  ∀ place, place ≠ [] → (stage printable dockerfile mode base.path files disk).1
    (base.parts ++ place) = expectedTree dockerfile mode base files place

/-- No file outside of the directory is written, and a name that leads out of it is an error. -/
def Confined (mode : Mode) (base : Place) (files : Files) (disk : Disk) : Prop :=
  (∀ place, ¬ base.parts <+: place → ∀ content,
    (stage printable dockerfile mode base.path files disk).1 place = some (.file content) ↔
      disk place = some (.file content)) ∧
  ((∃ file ∈ files, Outside base file.1) →
    (stage printable dockerfile mode base.path files disk).2 ≠ none)

theorem stage_below (hfresh : Fresh base disk) {mode : Mode} {files : Files}
    (hgood : Good mode base files) (hfiles : mode = .verifierHarness → files ≠ [])
    {place : List Part} (hne : place ≠ []) :
    (stage printable dockerfile mode base.path files disk).1 (base.parts ++ place) =
      overlay (files.map fun file => (below base file.1,writes printable mode file.2))
        (startTree dockerfile mode) place := by
  have hentries : (files.map fun file => (resolve base.parts file.1,writes printable mode file.2)) =
      (files.map fun file => (below base file.1,writes printable mode file.2)).map fun entry =>
        (base.parts ++ entry.1,entry.2) := by
    rw [List.map_map]
    refine List.map_congr_left fun file hfile => ?_
    rw [resolve_eq (hgood.inside file hfile).1]
    rfl
  rw [stage_eq dockerfile printable hfresh hgood hfiles,hentries]
  exact (overlay_below _ _ _).trans (overlay_congr _ (startDisk_below dockerfile hfresh mode hne))

theorem confined_of_fresh (hfresh : Fresh base disk) (mode : Mode) (files : Files) :
    Confined dockerfile printable mode base files disk := by
  have hready := ready_startDisk dockerfile hfresh mode
  have hstart : ∀ place, ¬ base.parts <+: place →
      startDisk dockerfile base disk mode place = newDir base disk place := by
    intro place hplace
    cases mode with
    | imageHarness => rfl
    | verifierHarness => rfl
    | buildContext =>
      refine Function.update_of_ne ?_ _ _
      rintro rfl
      exact hplace (List.prefix_append _ _)
  have hstage : (∃ bytesOf, stage printable dockerfile mode base.path files disk =
      stageAll bytesOf base.path files (startDisk dockerfile base disk mode)) ∨
        files = [] ∧ stage printable dockerfile mode base.path files disk = (disk,none) := by
    cases mode with
    | imageHarness => exact .inl ⟨_,inNewDir_eq hfresh _⟩
    | buildContext =>
      refine .inl ⟨fileBytes,?_⟩
      rw [stage,inNewDir_eq hfresh]
      dsimp only
      rw [write_dockerfile dockerfile hfresh]
      rfl
    | verifierHarness =>
      rw [stage]
      by_cases hfiles : files = []
      · exact .inr ⟨hfiles,by rw [if_pos hfiles]⟩
      · rw [if_neg hfiles]
        exact .inl ⟨_,inNewDir_eq hfresh _⟩
  rcases hstage with ⟨bytesOf,hstage⟩ | ⟨hfiles,hstage⟩
  · rw [Confined,hstage]
    refine ⟨fun place hplace content => ?_,stageAll_outside⟩
    rw [stageAll_other hready fun h => hplace h.1,hstart place hplace]
    exact newDir_file_iff hfresh
  · rw [Confined,hstage,hfiles]
    refine ⟨fun _ _ _ => Iff.rfl,?_⟩
    rintro ⟨file,hfile,-⟩
    cases hfile

theorem length_le_flatMap {α β : Type*} (f : α → List β) (h : ∀ a, f a ≠ []) (list : List α) :
    list.length ≤ (list.flatMap f).length := by
  induction list with
  | nil => exact Nat.zero_le _
  | cons a list ih =>
    have hpos := List.length_pos_iff.mpr (h a)
    rw [List.flatMap_cons,List.length_cons,List.length_append]
    omega

theorem reprChar_ne_nil (quote c : Char) : reprChar printable quote c ≠ [] := by
  rw [reprChar]
  split_ifs <;> exact List.cons_ne_nil _ _

theorem length_lt_str (b64 : List Char) : b64.length < (str printable (.wrapper b64)).length := by
  have hrepr : b64.length ≤ (repr printable b64).length := by
    have hquoted : ∀ quote, b64.length ≤ (b64.flatMap (reprChar printable quote)).length :=
      fun quote => length_le_flatMap _ (reprChar_ne_nil printable quote) b64
    rw [repr,List.length_append,List.length_cons]
    exact ((hquoted _).trans (Nat.le_succ _)).trans (Nat.le_add_right _ _)
  have hstr : str printable (.wrapper b64) =
      "\x7b'b64': ".toList ++ (repr printable b64 ++ ['\x7d']) := List.append_assoc _ _ _
  rw [hstr,List.length_append,List.length_append,List.length_singleton]
  exact Nat.lt_of_le_of_lt hrepr (Nat.lt_add_left _ (Nat.lt_succ_self _))

theorem encode_str_wrapper_ne {b64 : List Char} {bytes : List UInt8}
    (h : Base64.decode b64 = .ok bytes) : encode (str printable (.wrapper b64)) ≠ bytes := by
  intro heq
  have hdecoded := Base64.length_decode h
  have hstr := length_lt_str printable b64
  have hencoded := length_le_flatMap String.utf8EncodeChar (fun _ => String.utf8EncodeChar_ne_nil) (str printable (.wrapper b64))
  rw [← encode,heq] at hencoded
  omega

theorem exact_of_writes (hfresh : Fresh base disk) {mode : Mode} {files : Files}
    (hgood : Good mode base files)
    (hwrites : ∀ file ∈ files, writes printable mode file.2 = intended file.2) :
    Exact dockerfile printable mode base files disk := by
  by_cases hfiles : mode = .verifierHarness → files ≠ []
  · constructor
    · rw [stage_eq dockerfile printable hfresh hgood hfiles]
    · intro place hne
      rw [stage_below dockerfile printable hfresh hgood hfiles hne,expectedTree]
      congr 1
      exact List.map_congr_left fun file hfile => by rw [hwrites file hfile]
  · rw [Classical.not_imp,not_not] at hfiles
    obtain ⟨rfl,rfl⟩ := hfiles
    exact ⟨rfl,fun place _ => hfresh.nothing _ (List.prefix_append _ _)⟩

theorem exact_session (hfresh : Fresh base disk) {mode : Mode} (hmode : mode ≠ .imageHarness)
    {files : Files} (hgood : Good mode base files) :
    Exact dockerfile printable mode base files disk := by
  refine exact_of_writes dockerfile printable hfresh hgood fun file _ => ?_
  cases mode with
  | imageHarness => exact absurd rfl hmode
  | buildContext => rfl
  | verifierHarness => rfl

theorem exact_image_iff (hfresh : Fresh base disk) {files : Files}
    (hgood : Good .imageHarness base files) :
    Exact dockerfile printable .imageHarness base files disk ↔
      ∀ file ∈ files, ∀ b64, file.2 ≠ .wrapper b64 := by
  constructor
  · intro hexact file hfile b64 hwrapper
    have hapart : ∀ val : Content → List UInt8,
        (files.map fun file => (below base file.1,val file.2)).Pairwise
          fun entry other => Apart entry.1 other.1 := fun val => List.pairwise_map.mpr hgood.apart
    have hshown : ∀ val : Content → List UInt8,
        overlay (files.map fun file => (below base file.1,val file.2))
          (startTree dockerfile .imageHarness) (below base file.1) = some (.file (val file.2)) :=
      fun val => overlay_of_mem (hapart val) (List.mem_map_of_mem hfile)
    have hplace := hexact.2 _ (hgood.inside file hfile).2
    rw [stage_below dockerfile printable hfresh hgood (fun h => by cases h)
      (hgood.inside file hfile).2,expectedTree,hshown,hshown intended] at hplace
    obtain ⟨bytes,hbytes⟩ := hgood.decodable file hfile
    have hsame : encode (str printable file.2) = intended file.2 :=
      Node.file.inj (Option.some.inj hplace)
    rw [hwrapper] at hsame hbytes
    cases hdecode : Base64.decode b64 with
    | error error =>
      rw [fileBytes,hdecode] at hbytes
      cases hbytes
    | ok decoded =>
      refine encode_str_wrapper_ne printable hdecode (hsame.trans ?_)
      rw [intended,fileBytes,hdecode]
      rfl
  · intro htext
    refine exact_of_writes dockerfile printable hfresh hgood fun file hfile => ?_
    cases hcontent : file.2 with
    | text text => rfl
    | wrapper b64 => exact absurd hcontent (htext file hfile b64)

end NewDir

variable (printable : Char → Bool) (dockerfile : List Char) (files : Files)

/-- Every mode leaves the meant tree where the names and contents are good, and in any case stays
inside its directory. -/
def StagedInEveryMode (base : Mode → Place) (disk : Mode → Disk) : Prop :=
  ∀ mode, (Good mode (base mode) files → Exact dockerfile printable mode (base mode) files (disk mode)) ∧
    Confined dockerfile printable mode (base mode) files (disk mode)

/-- This is so if and only if the files of an image task are all given as text. -/
theorem stagedInEveryMode_iff {base : Mode → Place} {disk : Mode → Disk}
    (hfresh : ∀ mode, Fresh (base mode) (disk mode)) :
    StagedInEveryMode printable dockerfile files base disk ↔
      (Good .imageHarness (base .imageHarness) files →
        ∀ file ∈ files, ∀ b64, file.2 ≠ .wrapper b64) := by
  constructor
  · intro h hgood
    exact (exact_image_iff dockerfile printable (hfresh .imageHarness) hgood).mp
      ((h .imageHarness).1 hgood)
  · intro h mode
    refine ⟨fun hgood => ?_,confined_of_fresh dockerfile printable (hfresh mode) mode files⟩
    by_cases hmode : mode = .imageHarness
    · subst hmode
      exact (exact_image_iff dockerfile printable (hfresh _) hgood).mpr (h hgood)
    · exact exact_session dockerfile printable (hfresh mode) hmode hgood

def exampleDir : Place := ⟨["tasks".toList],by simp,by simp [Proper]⟩

def emptyDisk : Disk := fun place => if place = [] then some .dir else none

theorem fresh_emptyDisk : Fresh exampleDir emptyDisk where
  root := rfl
  legal := by decide
  above place hplace content := by
    rw [emptyDisk]
    split_ifs <;> exact fun h => by cases h
  nothing place hplace := by
    refine if_neg ?_
    rintro rfl
    exact exampleDir.ne_nil (List.prefix_nil.mp hplace)

/-- A script, and a module in a directory of its own beside another. -/
def scripts : Files := [("a.sh".toList,.text "ls".toList),("lib/b.py".toList,.text "x = 1".toList),
  ("lib/c.py".toList,.text [])]

theorem good_scripts (mode : Mode) : Good mode exampleDir scripts where
  inside := by decide
  legal := by decide
  apart := by
    unfold Apart
    decide
  dockerfile _ := by decide
  decodable file hfile := by
    rcases List.mem_cons.mp hfile with rfl | hfile
    · exact ⟨_,rfl⟩
    · rcases List.mem_pair.mp hfile with rfl | rfl <;> exact ⟨_,rfl⟩

theorem stagedInEveryMode_scripts :
    StagedInEveryMode (fun _ => false) [] scripts (fun _ => exampleDir) (fun _ => emptyDisk) ∧
      Exact [] (fun _ => false) .imageHarness exampleDir scripts emptyDisk := by
  have hstaged : StagedInEveryMode (fun _ => false) [] scripts (fun _ => exampleDir) fun _ => emptyDisk := by
    refine (stagedInEveryMode_iff _ _ _ fun _ => fresh_emptyDisk).mpr fun _ file hfile b64 h => ?_
    rcases List.mem_cons.mp hfile with rfl | hfile
    · cases h
    · rcases List.mem_pair.mp hfile with rfl | rfl <;> cases h
  exact ⟨hstaged,(hstaged .imageHarness).1 (good_scripts .imageHarness)⟩

def shipped : Files := [("submission.tar.gz".toList,.wrapper "aGk=".toList)]

theorem shipped_is_not_decoded : ¬ StagedInEveryMode (fun _ => false) [] shipped
    (fun _ => exampleDir) fun _ => emptyDisk := by
  have hgood : Good .imageHarness exampleDir shipped := by
    refine ⟨by decide,by decide,List.pairwise_singleton _ _,
      fun h => absurd h (by decide),?_⟩
    intro file hfile
    rw [List.mem_singleton.mp hfile]
    exact ⟨[104,105],by decide⟩
  intro h
  have hplace := ((h .imageHarness).1 hgood).2 ["submission.tar.gz".toList] (List.cons_ne_nil _ _)
  exact absurd hplace (by decide)

end Executor
end DockyardRL
