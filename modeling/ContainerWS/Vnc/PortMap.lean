import ContainerWS.Decimals
import ContainerWS.TextRows

/-! The file of modules/vncnovnc/install/adduser/ports.go that says which user has which ports: its
lines, the rows that are read from them, and what a row is read back as. No line is longer than the
scanner reads. -/
namespace ContainerWS.Vnc
open GoStrings TextRows Decimals

structure PortAssignment where
  username : String
  vncPort : Int
  noVncPort : Int
  display : Int
  deriving DecidableEq, Repr

/- The row of a line, unless it is blank, a comment or has no two numbers for ports. -/
def parseLine (text : String) : Option PortAssignment :=
  let line := trimSpace text
  if line = "" ∨ hasPrefix line "#" then none
  else
    match split ':' line with
    | name :: first :: second :: rest =>
      let vnc := Atoi first
      let novnc := Atoi second
      if vnc.2 = true ∧ novnc.2 = true then
        some ⟨name,vnc.1,novnc.1,match rest with | display :: _ => (Atoi display).1 | [] => 0⟩
      else none
    | _ => none

/- The rows of a file that can be read; without a file there are none. -/
def LoadPortMap (file : Option String) : List PortAssignment :=
  match file with
  | none => []
  | some text => (split '\n' text).filterMap parseLine

def portLine (row : PortAssignment) : String :=
  let line := row.username ++ ":" ++ Itoa row.vncPort ++ ":" ++ Itoa row.noVncPort
  if 0 < row.display then line ++ ":" ++ Itoa row.display else line

def portLines : List PortAssignment → String
  | [] => ""
  | row :: rows => portLine row ++ "\n" ++ portLines rows

def portHeader : String := "# username:vnc_port:novnc_port[:display]  (bound to 127.0.0.1 only)"

def portMapText (rows : List PortAssignment) : String := portHeader ++ "\n" ++ portLines rows

/- What the line of a row is read back as. -/
def readBack (row : PortAssignment) : List PortAssignment := (split '\n' (portLine row)).filterMap parseLine

/- A row as a line can hold it. -/
structure Held (row : PortAssignment) : Prop where
  fields : ':' ∉ row.username.toList
  lines : '\n' ∉ row.username.toList
  solid : ∀ c, row.username.toList.head? = some c → isSpace c = false
  plain : row.username.toList.head? ≠ some '#'
  vnc : Fits row.vncPort
  novnc : Fits row.noVncPort
  shown : Fits row.display

/- A display that is none is not written. -/
def PortAssignment.shown (row : PortAssignment) : PortAssignment :=
  { row with display := if 0 < row.display then row.display else 0 }

theorem splitLines (s t : String) : split '\n' (s ++ "\n" ++ t) = split '\n' s ++ split '\n' t := splitAppend s t

theorem splitFields (s t : String) : split ':' (s ++ ":" ++ t) = split ':' s ++ split ':' t := splitAppend s t

theorem splitOnly {sep : Char} {s : String} (free : sep ∉ s.toList) : split sep s = [s] :=
  splitIff.mpr ⟨List.cons_ne_nil _ _,by simpa using free,joinOne s⟩

theorem linesBack (rows : List PortAssignment) :
    (split '\n' (portLines rows)).filterMap parseLine = rows.flatMap readBack := by
  induction rows with
  | nil => decide
  | cons row rows ih => rw [portLines,splitLines,List.filterMap_append,ih,List.flatMap_cons,readBack]

/- The file that is written is read row by row. -/
theorem loadText (rows : List PortAssignment) : LoadPortMap (some (portMapText rows)) = rows.flatMap readBack := by
  have header : (split '\n' portHeader).filterMap parseLine = [] := by decide
  rw [LoadPortMap,portMapText,splitLines,List.filterMap_append,header,linesBack,List.nil_append]

/- What follows the username in a line. -/
def portTail (row : PortAssignment) : String :=
  if 0 < row.display then Itoa row.vncPort ++ ":" ++ Itoa row.noVncPort ++ ":" ++ Itoa row.display
  else Itoa row.vncPort ++ ":" ++ Itoa row.noVncPort

theorem lineTail (row : PortAssignment) : portLine row = row.username ++ ":" ++ portTail row := by
  unfold portLine portTail
  split
  · simp only [String.append_assoc]
  · simp only [String.append_assoc]

theorem itoaFree (n : Int) {c : Char} (other : c.isDigit = false) (plus : c ≠ '-') : c ∉ (Itoa n).toList := by
  intro mem
  rcases (itoaDigits n).2 c mem with digit | minus
  · exact absurd (digit.symm.trans other) (by decide)
  · exact plus minus

theorem itoaSolid (n : Int) : ∀ c ∈ (Itoa n).toList, isSpace c = false := by
  intro c mem
  rcases (itoaDigits n).2 c mem with digit | minus
  · have range : 48 ≤ c.val ∧ c.val ≤ 57 := by simpa [Char.isDigit] using digit
    have code : 48 ≤ c.toNat ∧ c.toNat ≤ 57 := range
    simp only [isSpace,Bool.or_eq_false_iff,Bool.and_eq_false_iff,decide_eq_false_iff_not,beq_eq_false_iff_ne]
    omega
  · rw [minus]
    decide

theorem tailSplit (row : PortAssignment) :
    split ':' (portTail row) = Itoa row.vncPort :: Itoa row.noVncPort :: (if 0 < row.display then [Itoa row.display] else []) := by
  have each (n : Int) : split ':' (Itoa n) = [Itoa n] := splitOnly (itoaFree n (by decide) (by decide))
  unfold portTail
  split
  · rw [splitFields,splitFields,each,each,each]
    rfl
  · rw [splitFields,each,each]
    rfl

theorem tailLast (row : PortAssignment) : ∀ c, (portLine row).toList.getLast? = some c → isSpace c = false := by
  have ends (s : String) (n : Int) : ∀ c, (s ++ Itoa n).toList.getLast? = some c → isSpace c = false := by
    intro c last
    have some : (Itoa n).toList ≠ [] := fun none => (itoaDigits n).1 (String.toList_eq_nil_iff.mp none)
    rw [String.toList_append,List.getLast?_append_of_ne_nil _ some] at last
    exact itoaSolid n c (List.mem_of_getLast? last)
  unfold portLine
  dsimp only
  split
  · exact ends _ _
  · exact ends _ _

theorem markedFilled (s t : String) : s ++ ":" ++ t ≠ "" := by
  rw [Ne,← String.toList_inj]
  simp

theorem markedComment (s t : String) : hasPrefix (s ++ ":" ++ t) "#" = true ↔ s.toList.head? = some '#' := by
  rw [hasPrefix,List.isPrefixOf_iff_prefix]
  cases chars : s.toList with
  | nil => simp [chars]
  | cons c cs => simp [chars,eq_comm]

/- A username without a colon is read back without its first blanks, unless it makes a comment. -/
theorem lineBack {row : PortAssignment} (fields : ':' ∉ row.username.toList) :
    parseLine (portLine row) =
      if (left isSpace row.username).toList.head? = some '#' then none
      else if (within row.vncPort).2 = true ∧ (within row.noVncPort).2 = true then
        some ⟨left isSpace row.username,(within row.vncPort).1,(within row.noVncPort).1,
          if 0 < row.display then (within row.display).1 else 0⟩
      else none := by
  have trimmed : trimSpace (portLine row) = left isSpace row.username ++ ":" ++ portTail row := by
    have marked : left isSpace (row.username ++ String.singleton ':' ++ portTail row) =
        left isSpace row.username ++ String.singleton ':' ++ portTail row := leftAppend (by decide)
    rw [trimSpaceBoth,trimBothLeft (tailLast row),lineTail]
    exact marked
  have free : ':' ∉ (left isSpace row.username).toList := fun mem => fields ((leftSublist isSpace _).mem mem)
  have parts : split ':' (left isSpace row.username ++ ":" ++ portTail row) =
      left isSpace row.username :: Itoa row.vncPort :: Itoa row.noVncPort ::
        (if 0 < row.display then [Itoa row.display] else []) := by
    rw [splitFields,splitOnly free,tailSplit]
    rfl
  unfold parseLine
  dsimp only
  rw [trimmed]
  simp only [markedFilled,markedComment,parts,false_or,atoiItoa]
  by_cases shown : 0 < row.display
  · simp only [if_pos shown,atoiItoa]
  · simp only [if_neg shown]

/- A row without a line break in its username is read back from one line. -/
theorem backLine {row : PortAssignment} (lines : '\n' ∉ row.username.toList) :
    readBack row = (parseLine (portLine row)).toList := by
  have free : '\n' ∉ (portLine row).toList := by
    rw [lineTail,portTail]
    split
    · simp [lines,itoaFree]
    · simp [lines,itoaFree]
  rw [readBack,splitOnly free,List.filterMap_cons,List.filterMap_nil]
  cases parseLine (portLine row) <;> rfl

/- What a row is read back as has its ports. -/
theorem backPorts {row new : PortAssignment} (fields : ':' ∉ row.username.toList) (lines : '\n' ∉ row.username.toList)
    (mem : new ∈ readBack row) : new.username = left isSpace row.username ∧ new.vncPort = row.vncPort ∧
      new.noVncPort = row.noVncPort ∧ (row.display ≤ 0 → new.display = 0) := by
  rw [backLine lines,lineBack fields] at mem
  split at mem
  · exact absurd mem (by simp)
  · split at mem
    · rename_i ok
      rw [Option.toList_some,List.mem_singleton] at mem
      subst mem
      exact ⟨rfl,(withinFits _).2 ok.1,(withinFits _).2 ok.2,fun none => if_neg (by omega)⟩
    · exact absurd mem (by simp)

theorem backHeld {row : PortAssignment} (held : Held row) : readBack row = [row.shown] := by
  have name : left isSpace row.username = row.username := leftSelf.mpr held.solid
  rw [backLine held.lines,lineBack held.fields,name,if_neg held.plain,withinSelf held.vnc,withinSelf held.novnc,
    withinSelf held.shown,if_pos ⟨rfl,rfl⟩]
  rfl

theorem parseHeld {line : String} {row : PortAssignment} (lines : '\n' ∉ line.toList) (parsed : parseLine line = some row) :
    Held row := by
  unfold parseLine at parsed
  dsimp only at parsed
  split at parsed
  · exact nomatch parsed
  · rename_i shown
    obtain ⟨filled,plain⟩ := not_or.mp shown
    split at parsed
    · rename_i name first second rest whole
      split at parsed
      · rename_i ok
        have joined : trimSpace line = join ':' (name :: first :: second :: rest) := by rw [← whole,joinSplit]
        have named : name ∈ split ':' (trimSpace line) := by
          rw [whole]
          exact List.mem_cons_self
        have head : ∀ c, name.toList.head? = some c → (trimSpace line).toList.head? = some c := by
          intro c here
          rw [joined,joinCons,List.head?_append,here]
          rfl
        rw [← Option.some.inj parsed]
        constructor
        case fields => exact (splitMem named).1
        case lines =>
          intro mem
          apply lines
          have inside := (splitMem named).2 _ mem
          rw [trimSpaceBoth] at inside
          exact trimBothMem inside
        case solid => exact fun c here => (trimSpaceSolid line).1 c (head c here)
        case plain =>
          intro here
          apply plain
          rw [hasPrefix,List.isPrefixOf_iff_prefix]
          obtain ⟨more,chars⟩ := List.head?_eq_some_iff.mp (head '#' here)
          rw [chars]
          exact ⟨more,rfl⟩
        case vnc => exact atoiFits first
        case novnc => exact atoiFits second
        case shown =>
          dsimp only
          split
          · exact atoiFits _
          · decide
      · exact nomatch parsed
    · exact nomatch parsed

/- Whatever is in the file, its rows can be held by lines. -/
theorem loadHeld {file : Option String} {row : PortAssignment} (mem : row ∈ LoadPortMap file) : Held row := by
  cases file with
  | none => exact absurd mem (by simp [LoadPortMap])
  | some text =>
    obtain ⟨line,here,parsed⟩ := List.mem_filterMap.mp mem
    exact parseHeld (splitMem here).1 parsed

end ContainerWS.Vnc
