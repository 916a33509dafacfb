import Mathlib.Data.List.Infix
import Mathlib.Tactic.Common
import Mathlib.Logic.Function.Basic

/-! Paths as texts: joining and normalising them, and what a comparison of normalised texts says
about the places they stand for.

Trees of directories and files, and what writing files with their missing directories does to them.
-/
namespace DockyardRL
namespace Paths

abbrev Part := List Char

/-- A normalised path: the slashes in front and the parts behind them. -/
structure NormPath where
  slashes : ℕ
  parts : List Part
  deriving DecidableEq

def NormPath.text (path : NormPath) : List Char :=
  let written := List.replicate path.slashes '/' ++ ['/'].intercalate path.parts
  if written = [] then ['.'] else written

/-- Exactly two slashes in front are kept, as their meaning is left open; more count as one. -/
def initialSlashes : List Char → ℕ
  | '/' :: '/' :: '/' :: _ => 1
  | '/' :: '/' :: _ => 2
  | '/' :: _ => 1
  | _ => 0

/-- One step of `normpath`. -/
def pushPart (slashes : ℕ) (parts : List Part) (part : Part) : List Part :=
  if part = [] ∨ part = ['.'] then parts
  else if part ≠ ['.','.'] ∨ (slashes = 0 ∧ parts = []) ∨ parts.getLast? = some ['.','.'] then
    parts ++ [part]
  else parts.dropLast

def normpath (path : List Char) : NormPath :=
  ⟨initialSlashes path,(path.splitOn '/').foldl (pushPart (initialSlashes path)) []⟩

def join (base name : List Char) : List Char :=
  if name.head? = some '/' then name
  else if base = [] ∨ base.getLast? = some '/' then base ++ name
  else base ++ '/' :: name

/-- `os.path.dirname` of a normalised path. -/
def NormPath.dirname (path : NormPath) : NormPath := ⟨path.slashes,path.parts.dropLast⟩

def walk (place : List Part) (part : Part) : List Part :=
  if part = [] ∨ part = ['.'] then place
  else if part = ['.','.'] then place.dropLast
  else place ++ [part]

def resolve (place : List Part) (name : List Char) : List Part :=
  (name.splitOn '/').foldl walk (if name.head? = some '/' then [] else place)

/-- A part that stands for something below. -/
def Proper (part : Part) : Prop := part ≠ [] ∧ '/' ∉ part ∧ part ≠ ['.'] ∧ part ≠ ['.','.']

instance (part : Part) : Decidable (Proper part) := inferInstanceAs (Decidable (_ ∧ _))

def slashed (parts : List Part) : List Char := parts.flatMap (· ++ ['/'])

theorem intercalate_append_slash {parts : List Part} (hne : parts ≠ []) :
    ['/'].intercalate parts ++ ['/'] = slashed parts := by
  induction parts with
  | nil => exact absurd rfl hne
  | cons part parts ih =>
    cases parts with
    | nil => simp [slashed]
    | cons next parts =>
      rw [List.intercalate_cons_cons,List.append_assoc,ih (List.cons_ne_nil _ _)]
      simp [slashed]

theorem exists_intercalate_eq {parts : List Part} (hne : parts ≠ []) :
    ∃ front, ['/'].intercalate parts = front ++ parts.getLast hne := by
  induction parts with
  | nil => exact absurd rfl hne
  | cons part parts ih =>
    cases parts with
    | nil => exact ⟨[],by simp⟩
    | cons next parts =>
      obtain ⟨front,hfront⟩ := ih (List.cons_ne_nil _ _)
      refine ⟨part ++ ['/'] ++ front,?_⟩
      rw [List.intercalate_cons_cons,hfront,List.getLast_cons (List.cons_ne_nil _ _)]
      simp

theorem initialSlashes_slashed {parts : List Part} (hne : parts ≠ [])
    (hparts : ∀ part ∈ parts, Proper part) (rest : List Char) :
    initialSlashes ('/' :: (slashed parts ++ rest)) = 1 := by
  obtain ⟨part,parts,rfl⟩ := List.exists_cons_of_ne_nil hne
  obtain ⟨hpart,hslash,-,-⟩ := hparts part List.mem_cons_self
  obtain ⟨c,part,rfl⟩ := List.exists_cons_of_ne_nil hpart
  have hc : c ≠ '/' := by
    rintro rfl
    exact hslash List.mem_cons_self
  show initialSlashes ('/' :: c :: _) = 1
  rw [initialSlashes.eq_def]
  split <;> simp_all

theorem initialSlashes_ne_zero {path : List Char} (h : path.head? = some '/') :
    initialSlashes path ≠ 0 := by
  cases path with
  | nil => cases h
  | cons c path =>
    cases h
    rw [initialSlashes.eq_def]
    split <;> simp_all

theorem splitOn_slashed {parts : List Part} (hparts : ∀ part ∈ parts, '/' ∉ part)
    (name : List Char) : (slashed parts ++ name).splitOn '/' = parts ++ name.splitOn '/' := by
  induction parts with
  | nil => rfl
  | cons part parts ih =>
    have hsplit : slashed (part :: parts) ++ name = part ++ '/' :: (slashed parts ++ name) := by
      simp [slashed]
    rw [hsplit,List.splitOn_append_cons_self_of_not_mem (hparts part List.mem_cons_self),
      ih fun p hp => hparts p (List.mem_cons_of_mem _ hp)]
    rfl

theorem notMem_of_mem_splitOn {text : List Char} : ∀ part ∈ text.splitOn '/', '/' ∉ part := by
  induction text with
  | nil => simp
  | cons c text ih =>
    rw [List.splitOn_cons_eq_if_modifyHead]
    split_ifs with hc
    · simpa using ih
    · have hne : '/' ≠ c := by
        rintro rfl
        exact hc (by rfl)
      cases hsplit : text.splitOn '/' with
      | nil => simp
      | cons first rest =>
        rw [hsplit] at ih
        simp only [List.modifyHead_cons,List.mem_cons,forall_eq_or_imp] at ih ⊢
        refine ⟨?_,ih.2⟩
        rw [not_or]
        exact ⟨hne,ih.1⟩

theorem pushPart_eq_walk {slashes : ℕ} (hslashes : slashes ≠ 0) {place : List Part}
    (hplace : ∀ part ∈ place, part ≠ ['.','.']) (part : Part) :
    pushPart slashes place part = walk place part := by
  have hlast : place.getLast? ≠ some ['.','.'] :=
    fun h => hplace _ (List.mem_of_getLast? h) rfl
  rw [pushPart,walk]
  by_cases hdot : part = [] ∨ part = ['.']
  · rw [if_pos hdot,if_pos hdot]
  · rw [if_neg hdot,if_neg hdot]
    by_cases hup : part = ['.','.']
    · rw [if_pos hup,if_neg (by simp [hup,hslashes,hlast])]
    · rw [if_neg hup,if_pos (.inl hup)]

theorem walk_ne_up {place : List Part} (hplace : ∀ part ∈ place, part ≠ ['.','.']) (part : Part) :
    ∀ p ∈ walk place part, p ≠ ['.','.'] := by
  intro p hp
  rw [walk] at hp
  split_ifs at hp with hdot hup
  · exact hplace p hp
  · exact hplace p (List.mem_of_mem_dropLast hp)
  · rcases List.mem_append.mp hp with hp | hp
    · exact hplace p hp
    · rwa [List.mem_singleton.mp hp]

theorem foldl_pushPart {slashes : ℕ} (hslashes : slashes ≠ 0) {place : List Part}
    (hplace : ∀ part ∈ place, part ≠ ['.','.']) (parts : List Part) :
    parts.foldl (pushPart slashes) place = parts.foldl walk place := by
  induction parts generalizing place with
  | nil => rfl
  | cons part parts ih =>
    rw [List.foldl_cons,List.foldl_cons,pushPart_eq_walk hslashes hplace]
    exact ih (walk_ne_up hplace part)

theorem foldl_pushPart_nil {slashes : ℕ} (hslashes : slashes ≠ 0) (parts : List Part) :
    parts.foldl (pushPart slashes) [] = parts.foldl walk [] :=
  foldl_pushPart hslashes (fun _ hpart => absurd hpart List.not_mem_nil) parts

theorem foldl_walk_proper {parts : List Part} (hparts : ∀ part ∈ parts, Proper part)
    (place : List Part) : parts.foldl walk place = place ++ parts := by
  induction parts generalizing place with
  | nil => simp
  | cons part parts ih =>
    obtain ⟨hne,-,hdot,hup⟩ := hparts part List.mem_cons_self
    rw [List.foldl_cons,ih fun p hp => hparts p (List.mem_cons_of_mem _ hp),walk,
      if_neg (by simp [hne,hdot]),if_neg hup]
    simp

theorem proper_foldl_walk {place : List Part} (hplace : ∀ part ∈ place, Proper part)
    {parts : List Part} (hparts : ∀ part ∈ parts, '/' ∉ part) :
    ∀ part ∈ parts.foldl walk place, Proper part := by
  induction parts generalizing place with
  | nil => exact hplace
  | cons part parts ih =>
    refine ih ?_ fun p hp => hparts p (List.mem_cons_of_mem _ hp)
    intro p hp
    rw [walk] at hp
    split_ifs at hp with hdot hup
    · exact hplace p hp
    · exact hplace p (List.mem_of_mem_dropLast hp)
    · rw [not_or] at hdot
      rcases List.mem_append.mp hp with hp | hp
      · exact hplace p hp
      · rw [List.mem_singleton.mp hp]
        exact ⟨hdot.1,hparts part List.mem_cons_self,hdot.2,hup⟩

/-- A place below the root, as a normalised path. -/
structure Place where
  parts : List Part
  ne_nil : parts ≠ []
  proper : ∀ part ∈ parts, Proper part

variable (base : Place)

def Place.path : NormPath := ⟨1,base.parts⟩

theorem Place.text_eq : base.path.text = '/' :: ['/'].intercalate base.parts := by
  rw [NormPath.text,if_neg (by simp [Place.path])]
  rfl

theorem Place.text_append_slash (rest : List Char) :
    base.path.text ++ '/' :: rest = '/' :: (slashed base.parts ++ rest) := by
  rw [base.text_eq,← intercalate_append_slash base.ne_nil]
  simp

theorem Place.getLast?_text : base.path.text.getLast? ≠ some '/' := by
  obtain ⟨front,hfront⟩ := exists_intercalate_eq base.ne_nil
  obtain ⟨hne,hslash,-,-⟩ := base.proper _ (List.getLast_mem base.ne_nil)
  rw [base.text_eq,hfront,← List.cons_append,List.getLast?_append_of_ne_nil _ hne]
  exact fun h => hslash (List.mem_of_getLast? h)

theorem normpath_join (name : List Char) : normpath (join base.path.text name) =
    ⟨if name.head? = some '/' then initialSlashes name else 1,resolve base.parts name⟩ := by
  have hnoSlash : ∀ part ∈ base.parts, '/' ∉ part := fun part hpart => (base.proper part hpart).2.1
  by_cases hname : name.head? = some '/'
  · rw [join,if_pos hname,if_pos hname,normpath,resolve,if_pos hname,
      foldl_pushPart_nil (initialSlashes_ne_zero hname)]
  · have hjoin : join base.path.text name = base.path.text ++ '/' :: name := by
      rw [join,if_neg hname,if_neg]
      rw [not_or]
      exact ⟨by simp [base.text_eq],base.getLast?_text⟩
    have hslashes := initialSlashes_slashed base.ne_nil base.proper name
    have hsplit : ('/' :: (slashed base.parts ++ name)).splitOn '/' =
        [] :: (base.parts ++ name.splitOn '/') := by
      rw [← splitOn_slashed hnoSlash]
      exact List.splitOn_append_cons_self_of_not_mem (List.not_mem_nil : '/' ∉ ([] : List Char)) _
    rw [hjoin,base.text_append_slash,normpath,hslashes,hsplit,if_neg hname,resolve,if_neg hname,
      foldl_pushPart_nil Nat.one_ne_zero,List.foldl_cons,List.foldl_append,
      foldl_walk_proper base.proper]
    rfl

theorem proper_resolve {place : List Part} (hplace : ∀ part ∈ place, Proper part)
    (name : List Char) : ∀ part ∈ resolve place name, Proper part := by
  refine proper_foldl_walk ?_ notMem_of_mem_splitOn
  split_ifs
  · exact fun _ hpart => absurd hpart List.not_mem_nil
  · exact hplace

theorem slashed_prefix_iff {parts others : List Part} (hparts : ∀ part ∈ parts, '/' ∉ part)
    (hothers : ∀ part ∈ others, '/' ∉ part) : slashed parts <+: slashed others ↔ parts <+: others := by
  induction parts generalizing others with
  | nil => simp [slashed]
  | cons part parts ih =>
    have hpart := hparts part List.mem_cons_self
    have hrest : ∀ p ∈ parts, '/' ∉ p := fun p hp => hparts p (List.mem_cons_of_mem _ hp)
    have hcons : ∀ (p : Part) ps, slashed (p :: ps) = p ++ '/' :: slashed ps := by simp [slashed]
    cases others with
    | nil => simp [slashed]
    | cons other others =>
      have hother := hothers other List.mem_cons_self
      have hbehind : ∀ p ∈ others, '/' ∉ p := fun p hp => hothers p (List.mem_cons_of_mem _ hp)
      rw [hcons,hcons,List.cons_prefix_cons,← ih hrest hbehind]
      constructor
      · rintro ⟨text,htext⟩
        have hsplit := congrArg (List.splitOn '/') htext
        rw [List.append_assoc,List.cons_append,
          List.splitOn_append_cons_self_of_not_mem hpart,
          List.splitOn_append_cons_self_of_not_mem hother] at hsplit
        have heq := (List.cons.inj hsplit).1
        subst heq
        rw [List.append_assoc,List.append_cancel_left_eq,List.cons_append] at htext
        exact ⟨rfl,text,(List.cons.inj htext).2⟩
      · rintro ⟨rfl,text,htext⟩
        exact ⟨text,by rw [List.append_assoc,List.cons_append,htext]⟩

theorem eq_or_prefix_iff {α : Type*} {a b : List α} {c : α} :
    (b = a ∨ a ++ [c] <+: b) ↔ a ++ [c] <+: b ++ [c] := by
  constructor
  · rintro (rfl | h)
    · exact List.prefix_rfl
    · exact h.trans (List.prefix_append b [c])
  · intro h
    by_cases hlength : a.length = b.length
    · have heq := h.eq_of_length (by simp [hlength])
      exact .inl (List.append_cancel_right heq).symm
    · have hle := h.length_le
      rw [List.length_append,List.length_append,List.length_singleton] at hle
      refine .inr (List.prefix_of_prefix_length_le h (List.prefix_append b [c]) ?_)
      rw [List.length_append,List.length_singleton]
      omega

theorem text_startsWith_iff (base : Place) {path : NormPath} (hslashes : path.slashes ≠ 0)
    (hparts : ∀ part ∈ path.parts, Proper part) :
    (path.text = base.path.text ∨ base.path.text ++ ['/'] <+: path.text) ↔
      path.slashes = 1 ∧ base.parts <+: path.parts := by
  have hbase := base.text_append_slash []
  rw [List.append_nil] at hbase
  obtain ⟨n,hn⟩ := Nat.exists_eq_succ_of_ne_zero hslashes
  have htext : path.text ++ ['/'] =
      '/' :: (List.replicate n '/' ++ (['/'].intercalate path.parts ++ ['/'])) := by
    rw [NormPath.text,if_neg (by simp [hn,List.replicate_succ]),hn,List.replicate_succ]
    simp
  have hstart : ∀ rest, ¬ slashed base.parts <+: '/' :: rest := by
    intro rest h
    obtain ⟨part,parts,hcons⟩ := List.exists_cons_of_ne_nil base.ne_nil
    obtain ⟨hne,hslash,-,-⟩ := base.proper part (hcons ▸ List.mem_cons_self)
    obtain ⟨c,part,rfl⟩ := List.exists_cons_of_ne_nil hne
    rw [hcons] at h
    have hhead := (List.cons_prefix_cons.mp h).1
    exact hslash (hhead ▸ List.mem_cons_self)
  rw [eq_or_prefix_iff,hbase,htext,List.cons_prefix_cons,and_iff_right rfl]
  cases n with
  | zero =>
    rw [List.replicate_zero,List.nil_append,and_iff_right hn]
    by_cases hne : path.parts = []
    · rw [hne]
      exact iff_of_false (hstart []) fun h => base.ne_nil (List.prefix_nil.mp h)
    · rw [intercalate_append_slash hne]
      exact slashed_prefix_iff (fun part hpart => (base.proper part hpart).2.1)
        fun part hpart => (hparts part hpart).2.1
  | succ n =>
    refine iff_of_false (hstart _) fun h => ?_
    omega

/-- A name that leads out of a place. -/
def Outside (base : Place) (name : List Char) : Prop :=
  initialSlashes name = 2 ∨ ¬ base.parts <+: resolve base.parts name

instance (base : Place) (name : List Char) : Decidable (Outside base name) :=
  inferInstanceAs (Decidable (_ ∨ _))

theorem initialSlashes_le_two (path : List Char) : initialSlashes path ≤ 2 := by
  rw [initialSlashes.eq_def]
  split <;> decide

theorem initialSlashes_of_head_ne {path : List Char} (h : path.head? ≠ some '/') :
    initialSlashes path = 0 := by
  rw [initialSlashes.eq_def]
  split <;> simp_all

/-- The comparison of texts finds out the names that lead out of a place. -/
theorem normpath_join_startsWith_iff (base : Place) (name : List Char) :
    ((normpath (join base.path.text name)).text = base.path.text ∨
        base.path.text ++ ['/'] <+: (normpath (join base.path.text name)).text) ↔
      ¬ Outside base name := by
  have hle := initialSlashes_le_two name
  have hproper := proper_resolve base.proper name
  rw [normpath_join,Outside,not_or,not_not]
  by_cases hname : name.head? = some '/'
  · have hne := initialSlashes_ne_zero hname
    rw [if_pos hname,text_startsWith_iff base hne hproper]
    refine and_congr_left fun _ => ?_
    show initialSlashes name = 1 ↔ initialSlashes name ≠ 2
    omega
  · rw [if_neg hname,text_startsWith_iff base Nat.one_ne_zero hproper,
      initialSlashes_of_head_ne hname]
    simp

/-- A name that does not lead out has one slash in front of its path. -/
theorem normpath_join_of_not_outside {base : Place} {name : List Char} (h : ¬ Outside base name) :
    normpath (join base.path.text name) = ⟨1,resolve base.parts name⟩ := by
  have hle := initialSlashes_le_two name
  rw [Outside,not_or] at h
  rw [normpath_join]
  by_cases hname : name.head? = some '/'
  · have hne := initialSlashes_ne_zero hname
    have hone : initialSlashes name = 1 := by omega
    rw [if_pos hname,hone]
  · rw [if_neg hname]

end Paths

namespace FileTree

inductive Node (β : Type*)
  | dir
  | file (content : β)
  deriving DecidableEq

variable {ν β : Type*}

def Node.isDir : Node β → Bool
  | .dir => true
  | .file _ => false

abbrev Tree (ν β : Type*) := List ν → Option (Node β)

section Write

variable [DecidableEq ν] (legal : ν → Bool)

/-- Makes the missing directories below `front`, from the top, until something is in the way. -/
def makeDirs : List ν → List ν → Tree ν β → Tree ν β × Bool
  | _, [], fs => (fs,true)
  | front, name :: rest, fs =>
    if legal name then
      match fs (front ++ [name]) with
      | some (.file _) => (fs,false)
      | some .dir => makeDirs (front ++ [name]) rest fs
      | none => makeDirs (front ++ [name]) rest (Function.update fs (front ++ [name]) (some .dir))
    else (fs,false)

def openFile (empty : β) (path : List ν) (fs : Tree ν β) : Tree ν β × Bool :=
  if path.getLast?.all legal && (fs path.dropLast).any Node.isDir && !(fs path).any Node.isDir then
    (Function.update fs path (some (.file empty)),true)
  else (fs,false)

def put (path : List ν) (content : β) (fs : Tree ν β) : Tree ν β := fun place =>
  if place = path then some (.file content) else if place <+: path then some .dir else fs place

def putDirs (front path : List ν) (fs : Tree ν β) : Tree ν β := fun place =>
  if front <+: place ∧ place ≠ front ∧ place <+: path then some .dir else fs place

def overlay (entries : List (List ν × β)) (fs : Tree ν β) : Tree ν β := fun place =>
  match entries.find? fun entry => entry.1 = place with
  | some entry => some (.file entry.2)
  | none => if entries.any fun entry => place <+: entry.1 then some .dir else fs place

/-- No file is in the way of a path, and no directory at it. -/
def Free (path : List ν) (fs : Tree ν β) : Prop :=
  (∀ place, place <+: path → place ≠ path → ∀ content, fs place ≠ some (.file content)) ∧
    fs path ≠ some .dir

variable {legal} {fs : Tree ν β}

theorem putDirs_self (front : List ν) : putDirs front front fs = fs := by
  funext place
  refine if_neg fun h => h.2.1 ?_
  exact h.2.2.eq_of_length_le h.1.length_le

theorem putDirs_cons {front rest : List ν} {name : ν} {fs' : Tree ν β}
    (hname : fs' (front ++ [name]) = some .dir)
    (hsame : ∀ place, place ≠ front ++ [name] → fs' place = fs place) :
    putDirs (front ++ [name]) (front ++ name :: rest) fs' =
      putDirs front (front ++ name :: rest) fs := by
  have hinside : front ++ [name] <+: front ++ name :: rest := ⟨rest,by simp⟩
  funext place
  rw [putDirs,putDirs]
  by_cases hplace : place = front ++ [name]
  · subst hplace
    rw [if_neg fun h => h.2.1 rfl,hname,if_pos ⟨List.prefix_append _ _,by simp,hinside⟩]
  · rw [hsame place hplace]
    refine if_congr ⟨fun h => ?_,fun h => ?_⟩ rfl rfl
    · refine ⟨(List.prefix_append front [name]).trans h.1,?_,h.2.2⟩
      rintro rfl
      have hle := h.1.length_le
      simp only [List.length_append,List.length_singleton] at hle
      omega
    · refine ⟨?_,hplace,h.2.2⟩
      refine List.prefix_of_prefix_length_le hinside h.2.2 ?_
      have hlt : front.length < place.length := by
        refine lt_of_le_of_ne h.1.length_le fun heq => ?_
        exact h.2.1 (h.1.eq_of_length heq).symm
      rw [List.length_append,List.length_singleton]
      exact hlt

/-- Nothing in the way: all directories are there afterwards. -/
theorem makeDirs_eq {front rest : List ν} (hlegal : rest.all legal = true)
    (hfree : ∀ place, front <+: place → place ≠ front → place <+: front ++ rest →
      ∀ content, fs place ≠ some (.file content)) :
    makeDirs legal front rest fs = (putDirs front (front ++ rest) fs,true) := by
  induction rest generalizing front fs with
  | nil =>
    rw [makeDirs,List.append_nil,putDirs_self]
  | cons name rest ih =>
    rw [List.all_cons,Bool.and_eq_true] at hlegal
    have hinside : front ++ [name] <+: front ++ name :: rest := ⟨rest,by simp⟩
    have hnoFile := hfree (front ++ [name]) (List.prefix_append _ _) (by simp) hinside
    have hsplit : front ++ [name] ++ rest = front ++ name :: rest := by simp
    have hbelow : ∀ fs' : Tree ν β, (∀ place, place ≠ front ++ [name] → fs' place = fs place) →
        ∀ place, front ++ [name] <+: place → place ≠ front ++ [name] →
          place <+: front ++ [name] ++ rest → ∀ content, fs' place ≠ some (.file content) := by
      intro fs' hsame place hstart hne hend
      rw [hsame place hne]
      refine hfree place ((List.prefix_append _ _).trans hstart) ?_ (hsplit ▸ hend)
      rintro rfl
      have hle := hstart.length_le
      simp only [List.length_append,List.length_singleton] at hle
      omega
    rw [makeDirs,if_pos hlegal.1]
    cases hnode : fs (front ++ [name]) with
    | none =>
      have hupdated : ∀ place, place ≠ front ++ [name] →
          Function.update fs (front ++ [name]) (some .dir) place = fs place :=
        fun place hne => Function.update_of_ne hne _ _
      show makeDirs legal (front ++ [name]) rest (Function.update fs _ (some .dir)) = _
      rw [ih hlegal.2 (hbelow _ hupdated),hsplit]
      rw [putDirs_cons (Function.update_self _ _ _) hupdated]
    | some node =>
      cases node with
      | file content => exact absurd hnode (hnoFile content)
      | dir =>
        show makeDirs legal (front ++ [name]) rest fs = _
        rw [ih hlegal.2 (hbelow fs fun place _ => rfl),hsplit,putDirs_cons hnode fun place _ => rfl]

/-- Only missing directories on the way are made. -/
theorem makeDirs_other {front rest place : List ν}
    (h : ¬ (front <+: place ∧ place ≠ front ∧ place <+: front ++ rest ∧ fs place = none)) :
    (makeDirs legal front rest fs).1 place = fs place := by
  induction rest generalizing front fs with
  | nil => rfl
  | cons name rest ih =>
    have hinside : front ++ [name] <+: front ++ name :: rest := ⟨rest,by simp⟩
    have hsplit : front ++ [name] ++ rest = front ++ name :: rest := by simp
    have hbelow : ∀ fs' : Tree ν β, (fs' place = none → fs place = none) →
        ¬ (front ++ [name] <+: place ∧ place ≠ front ++ [name] ∧
          place <+: front ++ [name] ++ rest ∧ fs' place = none) := by
      rintro fs' hnone ⟨hstart,hne,hend,hplace⟩
      refine h ⟨(List.prefix_append _ _).trans hstart,?_,hsplit ▸ hend,hnone hplace⟩
      rintro rfl
      have hle := hstart.length_le
      simp only [List.length_append,List.length_singleton] at hle
      omega
    rw [makeDirs]
    split
    · cases hnode : fs (front ++ [name]) with
      | none =>
        have hne : place ≠ front ++ [name] := by
          rintro rfl
          exact h ⟨List.prefix_append _ _,by simp,hinside,hnode⟩
        have hsame : Function.update fs (front ++ [name]) (some .dir) place = fs place :=
          Function.update_of_ne hne _ _
        exact (ih (hbelow _ fun hnone => hsame ▸ hnone)).trans hsame
      | some node =>
        cases node with
        | file content => rfl
        | dir => exact ih (hbelow fs id)
    · rfl

theorem openFile_other {empty : β} {path place : List ν} (h : place ≠ path) :
    (openFile legal empty path fs).1 place = fs place := by
  rw [openFile]
  split
  · exact Function.update_of_ne h _ _
  · rfl

/-- A directory is not opened. -/
theorem openFile_dir {empty : β} {path : List ν} (h : fs path = some .dir) :
    openFile legal empty path fs = (fs,false) := by
  rw [openFile,if_neg]
  simp [h,Node.isDir]

/-- A file in a directory that was made for it. -/
theorem openFile_putDirs {empty : β} {path : List ν} (hne : path ≠ [])
    (hlegal : path.all legal = true) (hroot : fs [] = some .dir) (hfree : fs path ≠ some .dir) :
    openFile legal empty path (putDirs [] path.dropLast fs) = (put path empty fs,true) := by
  have hlast : path.getLast?.all legal = true := by
    cases hend : path.getLast? with
    | none => rfl
    | some name => exact List.all_eq_true.mp hlegal name (List.mem_of_getLast? hend)
  have hparent : putDirs [] path.dropLast fs path.dropLast = some .dir := by
    by_cases hempty : path.dropLast = []
    · rw [hempty,putDirs_self,hroot]
    · exact if_pos ⟨List.nil_prefix,hempty,List.prefix_rfl⟩
  have hshort : ¬ path <+: path.dropLast := by
    intro h
    have hle := h.length_le
    have hpos := List.length_pos_iff.mpr hne
    rw [List.length_dropLast] at hle
    omega
  have hfile : putDirs [] path.dropLast fs path = fs path := if_neg fun h => hshort h.2.2
  have hnoDir : (fs path).any Node.isDir = false := by
    cases hnode : fs path with
    | none => rfl
    | some node =>
      cases node with
      | file content => rfl
      | dir => exact absurd hnode hfree
  rw [openFile,if_pos]
  · refine Prod.ext ?_ rfl
    funext place
    show Function.update (putDirs [] path.dropLast fs) path (some (.file empty)) place =
      if place = path then some (.file empty) else if place <+: path then some .dir else fs place
    by_cases hplace : place = path
    · rw [if_pos hplace,hplace,Function.update_self]
    · rw [if_neg hplace,Function.update_of_ne hplace,putDirs]
      have hiff : ([] <+: place ∧ place ≠ [] ∧ place <+: path.dropLast) ↔
          place ≠ [] ∧ place <+: path := by
        constructor
        · exact fun h => ⟨h.2.1,h.2.2.trans (List.dropLast_prefix path)⟩
        · refine fun h => ⟨List.nil_prefix,h.1,?_⟩
          refine List.prefix_of_prefix_length_le h.2 (List.dropLast_prefix path) ?_
          have hlt : place.length < path.length :=
            lt_of_le_of_ne h.2.length_le fun heq => hplace (h.2.eq_of_length heq)
          rw [List.length_dropLast]
          omega
      rw [if_congr hiff rfl rfl]
      by_cases hempty : place = []
      · subst hempty
        rw [if_neg fun h => h.1 rfl,if_pos List.nil_prefix,hroot]
      · rw [if_congr (and_iff_right hempty) rfl rfl]
  · rw [hlast,hparent,hfile,hnoDir]
    rfl

/-- The first of some entries, none of which is on the way to another. -/
theorem overlay_cons {entry : List ν × β} {entries : List (List ν × β)}
    (hapart : ∀ other ∈ entries, ¬ entry.1 <+: other.1 ∧ ¬ other.1 <+: entry.1) :
    overlay (entry :: entries) fs = overlay entries (put entry.1 entry.2 fs) := by
  funext place
  by_cases hplace : entry.1 = place
  · have hnone : entries.find? (fun other => decide (other.1 = place)) = none := by
      refine List.find?_eq_none.mpr fun other hother => ?_
      rw [decide_eq_true_eq]
      rintro heq
      exact (hapart other hother).1 (by rw [hplace,heq])
    have hany : (entries.any fun other => decide (place <+: other.1)) = false := by
      refine List.any_eq_false.mpr fun other hother => ?_
      rw [decide_eq_true_eq,← hplace]
      exact (hapart other hother).1
    rw [overlay,overlay,List.find?_cons_of_pos (by simpa using hplace),hnone]
    simp [hany,put,hplace]
  · rw [overlay,overlay,List.find?_cons_of_neg (by simpa using hplace)]
    cases entries.find? fun other => decide (other.1 = place) with
    | some other => rfl
    | none =>
      have hne : place ≠ entry.1 := Ne.symm hplace
      by_cases hany : (entries.any fun other => decide (place <+: other.1)) = true
      · simp [hany]
      · rw [Bool.not_eq_true] at hany
        simp [hany,put,hne]

/-- Neither of two paths is on the way to the other. -/
def Apart (path other : List ν) : Prop := ¬ path <+: other ∧ ¬ other <+: path

/-- Entries that are apart all show. -/
theorem overlay_of_mem {entries : List (List ν × β)}
    (hapart : entries.Pairwise fun entry other => Apart entry.1 other.1)
    {entry : List ν × β} (hentry : entry ∈ entries) :
    overlay entries fs entry.1 = some (.file entry.2) := by
  induction entries generalizing fs with
  | nil => cases hentry
  | cons first entries ih =>
    rw [List.pairwise_cons] at hapart
    rcases List.mem_cons.mp hentry with rfl | hmem
    · rw [overlay,List.find?_cons_of_pos (by simp)]
    · rw [overlay_cons hapart.1]
      exact ih hapart.2 hmem

/-- What is put below a place is seen from there. -/
theorem overlay_below (base : List ν) (entries : List (List ν × β)) (place : List ν) :
    overlay (entries.map fun entry => (base ++ entry.1,entry.2)) fs (base ++ place) =
      overlay entries (fun below => fs (base ++ below)) place := by
  have hfind : (entries.map fun entry => (base ++ entry.1,entry.2)).find?
      (fun entry => decide (entry.1 = base ++ place)) =
        (entries.find? fun entry => decide (entry.1 = place)).map fun entry =>
          (base ++ entry.1,entry.2) := by
    rw [List.find?_map]
    congr 2
    funext entry
    simp
  have hany : ((entries.map fun entry => (base ++ entry.1,entry.2)).any fun entry =>
      decide (base ++ place <+: entry.1)) = entries.any fun entry => decide (place <+: entry.1) := by
    rw [List.any_map]
    congr 1
    funext entry
    simp [List.prefix_append_right_inj]
  rw [overlay,overlay,hfind,hany]
  cases entries.find? fun entry => decide (entry.1 = place) <;> rfl

theorem overlay_congr {fs' : Tree ν β} (entries : List (List ν × β)) {place : List ν}
    (h : fs place = fs' place) : overlay entries fs place = overlay entries fs' place := by
  rw [overlay,overlay,h]

theorem Free.put {path other : List ν} {content : β} (hfree : Free other fs)
    (hapart : Apart path other) : Free other (put path content fs) := by
  constructor
  · intro place hplace hne found
    rw [FileTree.put]
    by_cases heq : place = path
    · exact absurd (heq ▸ hplace) hapart.1
    · rw [if_neg heq]
      split_ifs
      · exact fun h => by cases h
      · exact hfree.1 place hplace hne found
  · have hne : other ≠ path := by
      rintro rfl
      exact hapart.1 List.prefix_rfl
    rw [FileTree.put,if_neg hne,if_neg hapart.2]
    exact hfree.2

theorem update_put (path : List ν) (first second : β) :
    Function.update (put path first fs) path (some (.file second)) = put path second fs := by
  funext place
  by_cases heq : place = path
  · rw [heq,Function.update_self,put,if_pos rfl]
  · rw [Function.update_of_ne heq,put,put,if_neg heq,if_neg heq]

end Write

end FileTree
end DockyardRL
