import ContainerWS.Files.Copy

/-! The trash of modules/filemanager/fsutil/trash.go. An item is a directory of the
trash with info.json and, below content, the node itself. The faults that the calls
of a function meet are its parameters; those inside a copy are in the plan. -/
namespace ContainerWS.Files
open GoPath FileTree

structure TrashInfo where
  id : String
  originalPath : String
  name : String
  isDir : Bool
  deletedAt : Nat
  size : Nat
  deriving DecidableEq, Repr

/- `encoding/json` on a TrashInfo, an error being its message. -/
structure Json where
  marshalIndent : TrashInfo → Bytes
  unmarshal : Bytes → Except String TrashInfo

structure Setting where
  umask : Nat
  cwd : Path
  json : Json

/- `FileInfo.Size`; that of a link is the length of its target. -/
def size : Entry → Nat
  | .file _ data => data.length
  | .link target => target.utf8ByteSize
  | .dir _ => 0

def trashRoot (home : Path) : Path := join (join home ".containerws") "trash"

def trashItemDir (home : Path) (id : String) : Path := join (trashRoot home) id

def trashInfoPath (home : Path) (id : String) : Path := join (trashItemDir home id) "info.json"

def trashContentPath (home : Path) (id name : String) : Path := join (join (trashItemDir home id) "content") name

def isUnderTrash (home path : Path) : Bool := (trashRoot home).isPrefixOf path

def writeTrashInfo (p : Setting) (f : Option Fault) (home : Path) (info : TrashInfo) : Sys Unit :=
  Os.writeFile p.umask f (trashInfoPath home info.id) (p.json.marshalIndent info) 0o600

def readTrashInfo (p : Setting) (f : Option Fault) (home : Path) (id : String) : Sys TrashInfo := do
  let raw ← Os.readFile f (trashInfoPath home id)
  match p.json.unmarshal raw with
  | .ok info => pure info
  | .error message => Sys.fail (.refused message)

/- The copy in place of a rename that has failed. -/
def copyAcross (umask fuel : Nat) (st : Entry) (src dst : List Name) : Sys Unit :=
  if st.isDir then CopyDir umask fuel src dst else copyFile umask src dst (mode st)

structure MoveFaults where
  lstat : Option Fault
  root : Option Fault
  content : Option Fault
  rename : Option Fault
  removeAll : Option Fault
  write : Option Fault
  back : Option Fault
  cleanup : Option Fault

inductive Way where
  | renamed
  | copied
  deriving DecidableEq, Repr

/- MoveToTrash until the node is in the trash. -/
def stageTrash (p : Setting) (f : MoveFaults) (fuel : Nat) (home : Path) (id : String) (path : Path) :
    Sys (Entry × Way) := do
  let infoStat ← Os.lstat f.lstat path
  if path = [] then Sys.fail (.refused "refusing to trash filesystem root")
  else if isUnderTrash home path then Sys.fail (.refused "refusing to trash the trash folder")
  else
    Os.mkdirAll p.umask f.root (trashRoot home) 0o700
    Os.mkdirAll p.umask f.content (join (trashItemDir home id) "content") 0o700
    let dest := trashContentPath home id (base path)
    match ← Sys.attempt (Os.rename f.rename path dest) with
    | .ok _ => pure (infoStat,.renamed)
    | .error _ =>
      match ← Sys.attempt (copyAcross p.umask fuel infoStat path dest) with
      | .ok _ => pure (infoStat,.copied)
      | .error cerr =>
        let _ ← Sys.attempt (Os.removeAll f.cleanup (trashItemDir home id))
        Sys.fail cerr

/- The end of it: the item is described, or all is taken back. -/
def describeTrash (p : Setting) (f : MoveFaults) (home : Path) (id : String) (path : Path) (info : TrashInfo) : Sys TrashInfo := do
  match ← Sys.attempt (writeTrashInfo p f.write home info) with
  | .ok _ => pure info
  | .error err =>
    let _ ← Sys.attempt (Os.rename f.back (trashContentPath home id (base path)) path)
    let _ ← Sys.attempt (Os.removeAll f.cleanup (trashItemDir home id))
    Sys.fail err

/- What follows on the stage; after a copy the original is removed first. -/
def settleTrash (p : Setting) (f : MoveFaults) (home : Path) (id : String) (now : Nat) (path : Path) (infoStat : Entry)
    (way : Way) : Sys TrashInfo := do
  let removed ← if way = .copied then Sys.attempt (Os.removeAll f.removeAll path) else pure (.ok ())
  match removed with
  | .error err =>
    let _ ← Sys.attempt (Os.removeAll f.cleanup (trashItemDir home id))
    Sys.fail err
  | .ok _ =>
    describeTrash p f home id path
      ⟨id,render path,base path,infoStat.isDir,now,if infoStat.isDir then 0 else size infoStat⟩

/- The identifier is the one that `uuid.NewString` gives. -/
def moveToTrash (p : Setting) (f : MoveFaults) (fuel : Nat) (home : Path) (id : String) (now : Nat) (path : Path) :
    Sys TrashInfo := do
  let (infoStat,way) ← stageTrash p f fuel home id path
  settleTrash p f home id now path infoStat way

/- The names that UniqueCopyPath tries. -/
def copyPaths (path : List Name) : List Path :=
  let suffix := ext (base path)
  let name := trimSuffix (base path) suffix
  join (dir path) (name ++ " copy" ++ suffix) ::
    (List.range' 2 998).map (fun i => join (dir path) (name ++ " copy " ++ toString i ++ suffix))

def firstFree (message : String) : List Path → Sys Path
  | [] => Sys.fail (.refused message)
  | candidate :: rest => do
    match ← Sys.attempt (Os.lstat (← Sys.next) candidate) with
    | .error e => if e.isNotExist then pure candidate else firstFree message rest
    | .ok _ => firstFree message rest

def uniqueCopyPath (path : List Name) : Sys Path :=
  firstFree ("could not find unique name for " ++ render path) (copyPaths path)

structure RestoreFaults where
  read : Option Fault
  lstat : Option Fault
  parent : Option Fault
  rename : Option Fault
  source : Option Fault
  removeAll : Option Fault
  cleanup : Option Fault

def restoreFromTrash (p : Setting) (f : RestoreFaults) (fuel : Nat) (home : Path) (id : String) :
    Sys (TrashInfo × List Name) := do
  let info ← readTrashInfo p f.read home id
  let src := trashContentPath home id info.name
  let original := raw p.cwd info.originalPath
  let dst ← match ← Sys.attempt (Os.lstat f.lstat original) with
    | .ok _ => uniqueCopyPath original
    | .error e => if e.isNotExist then pure original else Sys.fail e
  Os.mkdirAll p.umask f.parent (dir dst) 0o755
  match ← Sys.attempt (Os.rename f.rename src dst) with
  | .ok _ => pure ()
  | .error err =>
    match ← Sys.attempt (Os.lstat f.source src) with
    | .error _ => Sys.fail err
    | .ok st =>
      copyAcross p.umask fuel st src dst
      Os.removeAll f.removeAll src
  let _ ← Sys.attempt (Os.removeAll f.cleanup (trashItemDir home id))
  pure (info,dst)

def permanentlyDeleteTrashItem (f : Option Fault) (home : Path) (id : String) : Sys Unit :=
  Os.removeAll f (trashItemDir home id)

end ContainerWS.Files
