import DockyardRL.Lib.Text
import DockyardRL.Lib.Paths

/-! Staging of files for a container: the mappings of names to contents that a task or a session
brings are written below a directory of its own. Image tasks and sessions have a stager each. -/
namespace DockyardRL
namespace Executor

open Paths FileTree

/-- A value of a mapping: text, or a wrapper around base64. -/
inductive Content
  | text (text : List Char)
  | wrapper (b64 : List Char)
  deriving DecidableEq

abbrev Files := List (List Char × Content)

abbrev Disk := Tree Part (List UInt8)

inductive StageError
  | unsafePath (name : List Char)
  | blocked
  | base64 (error : Base64.DecodeError)
  deriving DecidableEq

def encode (text : List Char) : List UInt8 := text.flatMap String.utf8EncodeChar

def legalName (part : Part) : Bool := !part.contains '\x00' && (encode part).length ≤ 255

def safeWorkspacePath (base : NormPath) (name : List Char) : Except StageError NormPath :=
  let dest := normpath (join base.text name)
  if dest.text ≠ base.text ∧ ¬ base.text ++ ['/'] <+: dest.text then .error (.unsafePath name)
  else .ok dest

def writeFile (path : List Part) (bytes : Except StageError (List UInt8)) (disk : Disk) :
    Disk × Option StageError :=
  let opened := openFile legalName [] path disk
  if opened.2 then
    match bytes with
    | .ok bytes => (Function.update opened.1 path (some (.file bytes)),none)
    | .error error => (opened.1,some error)
  else (opened.1,some .blocked)

def stageFile (base : NormPath) (name : List Char) (bytes : Except StageError (List UInt8))
    (disk : Disk) : Disk × Option StageError :=
  match safeWorkspacePath base name with
  | .error error => (disk,some error)
  | .ok dest =>
    let made := makeDirs legalName [] dest.dirname.parts disk
    if made.2 then writeFile dest.parts bytes made.1 else (made.1,some .blocked)

def stageAll (bytesOf : Content → Except StageError (List UInt8)) (base : NormPath) :
    Files → Disk → Disk × Option StageError
  | [], disk => (disk,none)
  | (name,content) :: files, disk =>
    let staged := stageFile base name (bytesOf content) disk
    match staged.2 with
    | some error => (staged.1,some error)
    | none => stageAll bytesOf base files staged.1

/-- `base64.b64decode` of a wrapper, or the encoded text. -/
def fileBytes : Content → Except StageError (List UInt8)
  | .text text => .ok (encode text)
  | .wrapper b64 => (Base64.decode b64).mapError .base64

def stageFiles (base : NormPath) : Files → Disk → Disk × Option StageError :=
  stageAll fileBytes base

variable (printable : Char → Bool)

def hex (width n : ℕ) : List Char :=
  let digits := Nat.toDigits 16 n
  List.replicate (width - digits.length) '0' ++ digits

/-- A character in a `repr`, where the printable characters beyond ASCII are a table. -/
def reprChar (quote c : Char) : List Char :=
  if c = quote ∨ c = '\\' then ['\\',c]
  else if c = '\t' then ['\\','t']
  else if c = '\n' then ['\\','n']
  else if c = '\r' then ['\\','r']
  else if 32 ≤ c.toNat ∧ c.toNat < 127 ∨ 127 < c.toNat ∧ printable c then [c]
  else if c.toNat < 256 then '\\' :: 'x' :: hex 2 c.toNat
  else if c.toNat < 65536 then '\\' :: 'u' :: hex 4 c.toNat
  else '\\' :: 'U' :: hex 8 c.toNat

/-- `repr` of a text. -/
def repr (text : List Char) : List Char :=
  let quote := if '\'' ∈ text ∧ '"' ∉ text then '"' else '\''
  quote :: text.flatMap (reprChar printable quote) ++ [quote]

/-- `str(content)`. -/
def str : Content → List Char
  | .text text => text
  | .wrapper b64 => "\x7b'b64': ".toList ++ repr printable b64 ++ ['\x7d']

/-- The loop in `_execute_image`. -/
def stageHarness (base : NormPath) : Files → Disk → Disk × Option StageError :=
  stageAll (fun content => .ok (encode (str printable content))) base

/-- Where files are staged: for the harness of an image task, for the build context of a session
and for the verifier harness of a session. -/
inductive Mode
  | imageHarness | buildContext | verifierHarness
  deriving DecidableEq

def dockerfileName : Part := "Dockerfile.dockyard".toList

def inNewDir (base : NormPath) (body : Disk → Disk × Option StageError) (disk : Disk) :
    Disk × Option StageError :=
  let made := makeDirs legalName [] base.parts disk
  if made.2 then body made.1 else (made.1,some .blocked)

/-- The staging parts of `_execute_image`, `_ensure_built` and `_session_finish`. -/
def stage (dockerfile : List Char) : Mode → NormPath → Files → Disk → Disk × Option StageError
  | .imageHarness, base, files => inNewDir base (stageHarness printable base files)
  | .buildContext, base, files => inNewDir base fun disk =>
    let written := writeFile (base.parts ++ [dockerfileName]) (.ok (encode dockerfile)) disk
    match written.2 with
    | some error => (written.1,some error)
    | none => stageFiles base files written.1
  | .verifierHarness, base, files =>
    if files = [] then fun disk => (disk,none) else inNewDir base (stageFiles base files)

end Executor
end DockyardRL
