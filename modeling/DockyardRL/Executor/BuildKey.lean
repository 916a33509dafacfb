import Mathlib.Data.Char
import Mathlib.Data.List.Lex
import DockyardRL.Executor.StagedTree
import DockyardRL.Lib.SortByKey

/-! The key under which a built image is kept and found again. The parts of a request are hashed one
after the other between NULs, whatever they hold themselves, and text and base64 are hashed alike. -/
namespace DockyardRL
namespace Executor

open Paths SortByKey

/-- A build: the Dockerfile, the mapping of names to contents and the build arguments. -/
structure BuildRequest where
  dockerfile : List Char
  contextFiles : Files
  buildArgs : List (List Char × List Char)
  names : (contextFiles.map Prod.fst).Nodup
  keys : (buildArgs.map Prod.fst).Nodup

def Content.payload : Content → List Char
  | .text content => content
  | .wrapper b64 => b64

/-- `k=v`. -/
def argument (arg : List Char × List Char) : List Char := arg.1 ++ '=' :: arg.2

/-- The bytes that `_build_key` feeds to the hash. -/
def keyBytes (r : BuildRequest) : List UInt8 :=
  encode r.dockerfile ++
    (sortByKey Prod.fst r.contextFiles).flatMap (fun file =>
      0 :: encode file.1 ++ 0 :: encode file.2.payload) ++
    (sortByKey Prod.fst r.buildArgs).flatMap fun arg => encode ('\x00' :: argument arg)

variable {κ : Type*}

/-- `_build_key`; the hash is its digest, cut short. -/
def buildKey (hash : List UInt8 → κ) (r : BuildRequest) : κ := hash (keyBytes r)

/-- What `docker build` is given: the Dockerfile, the tree and the values of `--build-arg`. -/
structure SameBuild (r r' : BuildRequest) : Prop where
  dockerfile : r.dockerfile = r'.dockerfile
  arguments : (r.buildArgs.map argument).Perm (r'.buildArgs.map argument)
  tree : ∀ printable base disk, stage printable r.dockerfile .buildContext base r.contextFiles disk =
    stage printable r'.dockerfile .buildContext base r'.contextFiles disk

abbrev Images (κ : Type*) := κ → Option BuildRequest

/-- A session asks for an image, and a build that it comes to succeeds or fails; an image is evicted. -/
inductive ImageEvent (κ : Type*)
  | ensure (r : BuildRequest) (succeeds : Bool)
  | evict (key : κ)

section Images

variable [DecidableEq κ] (hash : List UInt8 → κ)

/-- `_ensure_built`: the images after it and the one it returns. -/
def ensureBuilt (r : BuildRequest) (succeeds : Bool) (images : Images κ) :
    Images κ × Option BuildRequest :=
  match images (buildKey hash r) with
  | some built => (images,some built)
  | none =>
    if succeeds then (Function.update images (buildKey hash r) (some r),some r) else (images,none)

def ImageEvent.step (images : Images κ) : ImageEvent κ → Images κ
  | .ensure r succeeds => (ensureBuilt hash r succeeds images).1
  | .evict key => Function.update images key none

def imagesAfter (events : List (ImageEvent κ)) : Images κ :=
  events.foldl (ImageEvent.step hash) fun _ => none

/-- Every image stands under the key of what it was built from. -/
def Filed (images : Images κ) : Prop := ∀ key built, images key = some built → buildKey hash built = key

variable {hash}

theorem filed_update {images : Images κ} (h : Filed hash images) {key : κ} {entry : Option BuildRequest}
    (hentry : ∀ built, entry = some built → buildKey hash built = key) :
    Filed hash (Function.update images key entry) := by
  intro other built hbuilt
  by_cases hother : other = key
  · rw [hother,Function.update_self] at hbuilt
    rw [hother]
    exact hentry built hbuilt
  · rw [Function.update_of_ne hother] at hbuilt
    exact h other built hbuilt

theorem filed_step {images : Images κ} (h : Filed hash images) (event : ImageEvent κ) :
    Filed hash (event.step hash images) := by
  cases event with
  | ensure r succeeds =>
    rw [ImageEvent.step,ensureBuilt]
    cases images (buildKey hash r) with
    | some built => exact h
    | none =>
      cases succeeds with
      | false => exact h
      | true => exact filed_update h fun built hbuilt => congrArg _ (Option.some.inj hbuilt).symm
  | evict key => exact filed_update h fun built hbuilt => by cases hbuilt

theorem filed_imagesAfter (events : List (ImageEvent κ)) : Filed hash (imagesAfter hash events) := by
  have hrun : ∀ images, Filed hash images → Filed hash (events.foldl (ImageEvent.step hash) images) := by
    induction events with
    | nil => exact fun _ h => h
    | cons event events ih => exact fun images h => ih _ (filed_step h event)
  exact hrun _ fun _ _ hnone => by cases hnone

theorem buildKey_of_ensureBuilt {r built : BuildRequest} {succeeds : Bool} {images : Images κ}
    (h : Filed hash images) (hbuilt : (ensureBuilt hash r succeeds images).2 = some built) :
    buildKey hash built = buildKey hash r := by
  rw [ensureBuilt] at hbuilt
  cases himage : images (buildKey hash r) with
  | some image =>
    rw [himage] at hbuilt
    obtain rfl := Option.some.inj hbuilt
    exact h _ _ himage
  | none =>
    rw [himage] at hbuilt
    cases succeeds with
    | false => cases hbuilt
    | true => rw [← Option.some.inj hbuilt]

end Images

theorem encode_append (a b : List Char) : encode (a ++ b) = encode a ++ encode b := List.flatMap_append

theorem encode_cons_nul (text : List Char) : encode ('\x00' :: text) = 0 :: encode text := rfl

theorem encode_flatMap {α : Type*} (f : α → List Char) (l : List α) :
    encode (l.flatMap f) = l.flatMap fun a => encode (f a) := List.flatMap_assoc

theorem encode_injective : Function.Injective encode := by
  intro a b h
  have hbytes : (String.ofList a).toByteArray = (String.ofList b).toByteArray := by
    rw [String.toByteArray_ofList,String.toByteArray_ofList]
    exact congrArg List.toByteArray h
  exact String.ofList_injective (String.toByteArray_inj.mp hbytes)

def entry (file : List Char × Content) : List Char := file.1 ++ '\x00' :: file.2.payload

def sections (r : BuildRequest) : List (List Char) :=
  (sortByKey Prod.fst r.contextFiles).map entry ++ (sortByKey Prod.fst r.buildArgs).map argument

def keyText (r : BuildRequest) : List Char := r.dockerfile ++ (sections r).flatMap ('\x00' :: ·)

theorem keyBytes_eq (r : BuildRequest) : keyBytes r = encode (keyText r) := by
  rw [keyText,sections,List.flatMap_append,encode_append,encode_append,encode_flatMap,encode_flatMap,
    List.flatMap_map,List.flatMap_map,keyBytes,List.append_assoc]
  congr 2
  refine List.flatMap_congr fun file _ => ?_
  rw [encode_cons_nul,entry,encode_append,encode_cons_nul,List.cons_append]

theorem keyBytes_inj {r r' : BuildRequest} : keyBytes r = keyBytes r' ↔ keyText r = keyText r' := by
  rw [keyBytes_eq,keyBytes_eq]
  exact encode_injective.eq_iff

theorem sortByKey_perm_eq {β : Type*} {l l' : List (List Char × β)} (hperm : l.Perm l')
    (hnodup : (l'.map Prod.fst).Nodup) : sortByKey Prod.fst l = sortByKey Prod.fst l' := by
  have hsorted := sortByKey_perm Prod.fst l'
  refine sortByKey_eq (hperm.trans hsorted.symm) (pairwise_sortByKey Prod.fst l') ?_
  intro a ha b hb hab
  exact List.inj_on_of_nodup_map hnodup (hsorted.mem_iff.mp ha) (hsorted.mem_iff.mp hb) hab

theorem keyBytes_perm {r r' : BuildRequest} (hdockerfile : r'.dockerfile = r.dockerfile)
    (hfiles : r'.contextFiles.Perm r.contextFiles) (hargs : r'.buildArgs.Perm r.buildArgs) :
    keyBytes r' = keyBytes r := by
  rw [keyBytes,keyBytes,hdockerfile,sortByKey_perm_eq hfiles r.names,sortByKey_perm_eq hargs r.keys]

def bare (dockerfile : List Char) : BuildRequest := ⟨dockerfile,[],[],List.nodup_nil,List.nodup_nil⟩

theorem keyText_bare (dockerfile : List Char) : keyText (bare dockerfile) = dockerfile :=
  List.append_nil dockerfile

/-- Equal keys mean equal builds, no session gets an image of another build, and the order of the mappings
does not matter. -/
structure KeyIdentifies [DecidableEq κ] (hash : List UInt8 → κ) (r : BuildRequest) : Prop where
  same : ∀ r', keyBytes r' = keyBytes r → SameBuild r r'
  own : ∀ events succeeds built,
    (ensureBuilt hash r succeeds (imagesAfter hash events)).2 = some built → SameBuild r built
  order : ∀ r', r'.dockerfile = r.dockerfile → r'.contextFiles.Perm r.contextFiles →
    r'.buildArgs.Perm r.buildArgs → keyBytes r' = keyBytes r

/-- Nothing but a Dockerfile, and nothing behind a NUL in it that could be the rest of a section. -/
structure Plain (r : BuildRequest) : Prop where
  files : r.contextFiles = []
  args : r.buildArgs = []
  nul : ∀ front rest, r.dockerfile = front ++ '\x00' :: rest → '\x00' ∉ rest ∧ '=' ∉ rest

theorem sections_eq_nil_iff {r : BuildRequest} :
    sections r = [] ↔ r.contextFiles = [] ∧ r.buildArgs = [] := by
  have hfiles := (sortByKey_perm Prod.fst r.contextFiles).length_eq
  have hargs := (sortByKey_perm Prod.fst r.buildArgs).length_eq
  rw [sections,List.append_eq_nil_iff,List.map_eq_nil_iff,List.map_eq_nil_iff,
    ← List.length_eq_zero_iff,← List.length_eq_zero_iff,hfiles,hargs,List.length_eq_zero_iff,
    List.length_eq_zero_iff]

theorem mem_section {r : BuildRequest} {text : List Char} (h : text ∈ sections r) :
    '\x00' ∈ text ∨ '=' ∈ text := by
  rcases List.mem_append.mp h with hmem | hmem
  · obtain ⟨file,-,rfl⟩ := List.mem_map.mp hmem
    exact .inl (List.mem_append_right _ List.mem_cons_self)
  · obtain ⟨arg,-,rfl⟩ := List.mem_map.mp hmem
    exact .inr (List.mem_append_right _ List.mem_cons_self)

theorem keyText_cases (r : BuildRequest) : sections r = [] ∨
    ∃ rest, keyText r = r.dockerfile ++ '\x00' :: rest ∧ ('\x00' ∈ rest ∨ '=' ∈ rest) := by
  cases hsections : sections r with
  | nil => exact .inl rfl
  | cons text texts =>
    have htext : text ∈ sections r := hsections ▸ List.mem_cons_self
    refine .inr ⟨text ++ texts.flatMap ('\x00' :: ·),?_,?_⟩
    · rw [keyText,hsections,List.flatMap_cons,List.cons_append]
    · exact (mem_section htext).imp (List.mem_append_left _) (List.mem_append_left _)

theorem same_of_plain {r r' : BuildRequest} (h : Plain r) (hkey : keyBytes r' = keyBytes r) :
    SameBuild r r' := by
  have hsections : sections r = [] := sections_eq_nil_iff.mpr ⟨h.files,h.args⟩
  have htext := keyBytes_inj.mp hkey
  rw [keyText.eq_def r,hsections,List.flatMap_nil,List.append_nil] at htext
  rcases keyText_cases r' with hnone | ⟨rest,hrest,hmem⟩
  · obtain ⟨hfiles,hargs⟩ := sections_eq_nil_iff.mp hnone
    rw [keyText,hnone,List.flatMap_nil,List.append_nil] at htext
    exact ⟨htext.symm,by rw [h.args,hargs],by rw [h.files,hfiles,htext]; exact fun _ _ _ => rfl⟩
  · obtain ⟨hnul,heq⟩ := h.nul _ _ (htext.symm.trans hrest)
    exact absurd hmem (not_or.mpr ⟨hnul,heq⟩)

theorem plain_of_same {r : BuildRequest} (h : ∀ r', keyBytes r' = keyBytes r → SameBuild r r') :
    Plain r := by
  have hbare := (h (bare (keyText r)) (keyBytes_inj.mpr (keyText_bare _))).dockerfile
  have hnone : sections r = [] := by
    rcases keyText_cases r with hnone | ⟨rest,hrest,-⟩
    · exact hnone
    · rw [show (bare (keyText r)).dockerfile = keyText r from rfl,hrest] at hbare
      exact absurd hbare (by simp)
  obtain ⟨hfiles,hargs⟩ := sections_eq_nil_iff.mp hnone
  have htext : keyText r = r.dockerfile := hbare.symm
  refine ⟨hfiles,hargs,fun front rest hsplit => ⟨fun hmem => ?_,fun hmem => ?_⟩⟩
  · obtain ⟨name,content,rfl⟩ := List.append_of_mem hmem
    have hfile := (h ⟨front,[(name,.text content)],[],List.nodup_singleton _,List.nodup_nil⟩
      (keyBytes_inj.mpr (by rw [htext,hsplit]; simp [keyText,sections,sortByKey,entry,
        Content.payload]))).dockerfile
    rw [hsplit] at hfile
    exact absurd hfile (by simp)
  · obtain ⟨key,value,rfl⟩ := List.append_of_mem hmem
    have harg := (h ⟨front,[],[(key,value)],List.nodup_nil,List.nodup_singleton _⟩
      (keyBytes_inj.mpr (by rw [htext,hsplit]; simp [keyText,sections,sortByKey,argument]))).dockerfile
    rw [hsplit] at harg
    exact absurd harg (by simp)

/-- The key stands for a build exactly where there is nothing but a plain Dockerfile. -/
theorem keyIdentifies_iff [DecidableEq κ] {hash : List UInt8 → κ} (hhash : Function.Injective hash)
    (r : BuildRequest) : KeyIdentifies hash r ↔ Plain r := by
  refine ⟨fun h => plain_of_same h.same,fun h => ⟨fun r' => same_of_plain h,?_,?_⟩⟩
  · intro events succeeds built hbuilt
    exact same_of_plain h (hhash (buildKey_of_ensureBuilt (filed_imagesAfter events) hbuilt))
  · exact fun r' hdockerfile hfiles hargs => keyBytes_perm hdockerfile hfiles hargs

theorem keyIdentifies_iff_debian : KeyIdentifies id (bare "FROM debian".toList) := by
  refine (keyIdentifies_iff Function.injective_id _).mpr ⟨rfl,rfl,fun front rest h => ?_⟩
  have hmem : '\x00' ∈ "FROM debian".toList :=
    (show "FROM debian".toList = front ++ '\x00' :: rest from h) ▸
      List.mem_append_right front List.mem_cons_self
  exact absurd hmem (by decide)

def withFile (content : Content) : BuildRequest :=
  ⟨"FROM debian".toList,[("a".toList,content)],[],List.nodup_singleton _,List.nodup_nil⟩

/-- A text and the bytes it encodes have one key, and the trees differ. -/
theorem text_taken_for_base64 :
    keyBytes (withFile (.text "aGk=".toList)) = keyBytes (withFile (.wrapper "aGk=".toList)) ∧
      ¬SameBuild (withFile (.text "aGk=".toList)) (withFile (.wrapper "aGk=".toList)) := by
  refine ⟨rfl,fun h => ?_⟩
  have htree := h.tree (fun _ => false) ⟨1,["build".toList]⟩ emptyDisk
  have hplace := congrFun (congrArg Prod.fst htree) ["build".toList,"a".toList]
  exact absurd hplace (by decide)

end Executor
end DockyardRL
