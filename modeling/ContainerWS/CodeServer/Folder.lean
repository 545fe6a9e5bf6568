import ContainerWS.FormURL
import ContainerWS.GoURL

/-! The folder in the address of a session, modules/codeserver/c.go: FolderQueryValue leaves a path readable and
escapes what a query is cut at. A text is written as its UTF-8. -/
namespace ContainerWS.CodeServer
open GoStrings FormURL

def utf8 (s : String) : List UInt8 := GoURL.bytes s.toList

def Prefix : String := "/codeserver"

/- What `shouldEscape` leaves in a query component. -/
def unreserved (b : UInt8) : Bool :=
  (0x61 ≤ b && b ≤ 0x7A) || (0x41 ≤ b && b ≤ 0x5A) || (0x30 ≤ b && b ≤ 0x39) || b = 0x2D || b = 0x5F || b = 0x2E || b = 0x7E

/- `url.QueryEscape`. -/
def QueryEscape (bs : List UInt8) : List UInt8 := escape (fun b => !unreserved b) bs

/- The bytes of ` "'%?&#+`. -/
def delimiters : List UInt8 := [0x20,0x22,0x27,0x25,0x3F,0x26,0x23,0x2B]

def FolderQueryValue (folder : String) : List UInt8 :=
  let folder := trimSpace folder
  if folder = "" then []
  else (utf8 folder).flatMap fun c => if delimiters.contains c then QueryEscape [c] else [c]

def ClientURL (sessionID : String) : String :=
  let sessionID := trimSpace sessionID
  if sessionID = "" then Prefix ++ "/" else Prefix ++ "/" ++ sessionID ++ "/"

def ClientURLForFolder (sessionID folder : String) : List UInt8 :=
  let base := utf8 (ClientURL sessionID)
  let folder := trimSpace folder
  if folder = "" then base else base ++ utf8 "?folder=" ++ FolderQueryValue folder

/- Each delimiter is one that QueryEscape turns. -/
theorem delimitersTurned {c : UInt8} (mem : delimiters.contains c = true) : QueryEscape [c] = escapeByte c := by
  have turned : unreserved c = false := by
    simp only [delimiters,List.contains_eq_mem,List.mem_cons,List.not_mem_nil,or_false,decide_eq_true_eq] at mem
    rcases mem with rfl | rfl | rfl | rfl | rfl | rfl | rfl | rfl <;> rfl
  simp [QueryEscape,escape,turned]

theorem valueEscape (folder : String) : FolderQueryValue folder = escape delimiters.contains (utf8 (trimSpace folder)) := by
  unfold FolderQueryValue escape
  dsimp only
  split
  · rename_i empty
    rw [empty]
    rfl
  · congr 1
    funext c
    split
    · exact delimitersTurned ‹_›
    · rfl

/- The name in front of the value. -/
def folderName : List UInt8 := [0x66,0x6F,0x6C,0x64,0x65,0x72]

theorem folderNamed : utf8 "folder" = folderName ∧ utf8 "folder=" = folderName ++ [equals] := by decide

theorem folderPlain : ∀ b ∈ folderName, b ≠ percent ∧ b ≠ plus := fun b mem =>
  of_decide_eq_true (List.all_eq_true.mp (by decide : folderName.all fun b => b ≠ percent ∧ b ≠ plus) b mem)

/- What a query and a fragment are cut at is not in the value. -/
theorem valueFree (folder : String) : ampersand ∉ FolderQueryValue folder ∧ number ∉ FolderQueryValue folder := by
  rw [valueEscape]
  exact ⟨escapeFree (by decide) (by decide) (by decide) (by decide) _,escapeFree (by decide) (by decide) (by decide) (by decide) _⟩

theorem valueDecoded (folder : String) : decode (FolderQueryValue folder) = utf8 (trimSpace folder) := by
  rw [valueEscape]
  exact decodeEscape (by decide) (by decide) _

/- The query says the folder and nothing else, a strict reader reads the folder in it, and no fragment begins. -/
theorem folderRead : ∀ folder : String,
    parse (utf8 "folder=" ++ FolderQueryValue folder) = [(utf8 "folder",utf8 (trimSpace folder))] ∧
    unescape (FolderQueryValue folder) = some (utf8 (trimSpace folder)) ∧ number ∉ FolderQueryValue folder := by
  intro folder
  have one := parseOne folderPlain (by decide) (by decide) (valueFree folder).1
  have strict := @unescapeEscape delimiters.contains (by decide) (by decide) (utf8 (trimSpace folder))
  rw [valueDecoded] at one
  rw [← valueEscape] at strict
  rw [folderNamed.2,folderNamed.1,List.append_assoc,List.singleton_append]
  exact ⟨one,strict,(valueFree folder).2⟩

/- In the address of a session the folder is the whole query. -/
theorem addressRead {sessionID folder : String} (path : question ∉ utf8 (ClientURL sessionID)) (whole : number ∉ utf8 (ClientURL sessionID))
    (filled : trimSpace folder ≠ "") : parse (query (ClientURLForFolder sessionID folder)) = [(utf8 "folder",utf8 (trimSpace folder))] := by
  have mark : utf8 "?folder=" = question :: folderName ++ [equals] := by decide
  have one := parseOne folderPlain (by decide) (by decide) (valueFree folder).1
  have shape : ClientURLForFolder sessionID folder =
      utf8 (ClientURL sessionID) ++ question :: (folderName ++ equals :: FolderQueryValue folder) := by
    unfold ClientURLForFolder
    dsimp only
    rw [if_neg filled,mark,valueEscape,trimSpaceTwice,← valueEscape]
    simp
  rw [valueDecoded] at one
  rw [shape,queryBehind path,one,folderNamed.1]
  intro mem
  rcases List.mem_append.mp mem with front | more
  · exact whole front
  · have inside : number ∈ folderName ++ equals :: FolderQueryValue folder := (List.mem_cons.mp more).resolve_left (by decide)
    rcases List.mem_append.mp inside with name | value
    · exact absurd name (by decide)
    · exact (valueFree folder).2 ((List.mem_cons.mp value).resolve_left (by decide))

end ContainerWS.CodeServer
