import ContainerWS.GoGlob
import ContainerWS.Mcp.ReadFile

/-! SearchFilesTool of modules/mcp/tools/filesystem/search.go: the walk through a file tree for files of a name or with a line. -/
namespace ContainerWS.Mcp.Search
open GoPath GoStrings GoGlob

abbrev Bytes := List UInt8

structure SearchFilesInput where
  root : String
  nameGlob : String
  contentPattern : String
  ignoreDirs : List String
  maxResults : Int
  maxFileBytes : Int
  deriving DecidableEq

inductive Reason where
  | name
  | content
  deriving DecidableEq

structure SearchMatch where
  path : String
  line : Nat
  snippet : Bytes
  reason : Reason
  deriving DecidableEq

structure SearchFilesOutput where
  root : String
  found : List SearchMatch
  total : Nat
  truncated : Bool
  deriving DecidableEq

/- What is no directory: its own size, if it is told, and what is read where it can be opened. -/
structure Leaf where
  size : Option Nat
  content : Option Bytes
  deriving DecidableEq

structure FileName where
  text : String
  plain : Plain text

/- What a directory lists, in its order: files, and directories with what these list in turn. -/
inductive Entries where
  | none
  | file (name : FileName) (leaf : Leaf) (rest : Entries)
  | dir (name : FileName) (inside rest : Entries)

/- A root that is a directory. The walk does not go through a link. -/
inductive Root where
  | folder (entries : Entries)
  | link (leaf : Leaf)

structure Query where
  abs : String
  nameGlob : String
  re : Option (Bytes → Bool)
  ignore : List String
  limit : Nat
  maxBytes : Nat

/- A file that the walk comes to. -/
structure Visit where
  path : String
  name : String
  leaf : Leaf
  deriving DecidableEq

structure State where
  found : List SearchMatch
  truncated : Bool
  ended : Bool
  deriving DecidableEq

def lineFeed : UInt8 := 10

def carriageReturn : UInt8 := 13

def dropReturn (line : Bytes) : Bytes := if line.getLast? = some carriageReturn then line.dropLast else line

/- The lines a scanner finds, which ends at one that its buffer does not hold. -/
def scanned (max : Nat) (content : Bytes) : List Bytes :=
  let pieces := content.splitOn lineFeed
  let pieces := if pieces.getLast? = some [] then pieces.dropLast else pieces
  (pieces.takeWhile fun line => decide (line.length < max)).map dropReturn

/- "…" -/
def ellipsis : Bytes := [0xE2,0x80,0xA6]

def snippet (line : Bytes) : Bytes := if 240 < line.length then line.take 240 ++ ellipsis else line

def pathMatch (pattern rel : String) : Bool :=
  if twoStars <:+: pattern.toList then Match (String.ofList (oneStar pattern.toList)) rel else Match pattern rel

section
variable (q : Query)

def relOf (path : String) : String := Rel (dirs q.abs) (dirs path)

def nameMatched (v : Visit) : Bool :=
  if q.nameGlob = "" then true
  else
    let ok := Match (baseText q.nameGlob) v.name
    if '/' ∈ q.nameGlob.toList ∨ twoStars <:+: q.nameGlob.toList then ok || pathMatch q.nameGlob (relOf q v.path) else ok

def named (v : Visit) : SearchMatch := ⟨v.path,0,[],.name⟩

def byName (s : State) (v : Visit) : State := if nameMatched q v then { s with found := s.found ++ [named v] } else s

/- The loop over the lines of a file. -/
def searchLines (re : Bytes → Bool) (v : Visit) : Nat → Bool → State → List Bytes → State
  | _, foundContent, s, [] => if foundContent then s else byName q s v
  | lineNo, foundContent, s, line :: rest =>
    if re line then
      let s := { s with found := s.found ++ [⟨v.path,lineNo+1,snippet line,.content⟩] }
      if q.limit ≤ s.found.length then { s with truncated := true, ended := true } else searchLines re v (lineNo+1) true s rest
    else searchLines re v (lineNo+1) foundContent s rest

def visit (s : State) (v : Visit) : State :=
  if q.limit ≤ s.found.length then { s with truncated := true, ended := true }
  else
    match q.re with
    | none => byName q s v
    | some re =>
      match v.leaf.size with
      | none => byName q s v
      | some size =>
        if q.maxBytes < size then byName q s v
        else
          match v.leaf.content with
          | none => s
          | some content => searchLines q re v 0 false s (scanned (max 65536 q.maxBytes) content)

/- `filepath.Join` of a directory and a name. -/
def child (dir : String) (name : FileName) : String := if dir = "/" then "/" ++ name.text else dir ++ "/" ++ name.text

def walkDir (dir : String) : Entries → State → State
  | .none, s => s
  | .file name leaf rest, s => if s.ended then s else walkDir dir rest (visit q s ⟨child dir name,name.text,leaf⟩)
  | .dir name inside rest, s =>
    if s.ended then s
    else if name.text ∈ q.ignore then walkDir dir rest s
    else walkDir dir rest (walkDir (child dir name) inside s)

def walk (root : Root) : State :=
  match root with
  | .folder entries => walkDir q q.abs entries ⟨[],false,false⟩
  | .link leaf => visit q ⟨[],false,false⟩ ⟨q.abs,baseText q.abs,leaf⟩

end

inductive SearchError where
  | path (text : String)
  | stat (text : String)
  | notDirectory (abs : String)
  | noPattern
  | badPattern (text : String)
  deriving DecidableEq

def ignored (ignoreDirs : List String) : List String :=
  ["node_modules",".git","vendor","dist",".cache"] ++ (ignoreDirs.map trimSpace).filter (· ≠ "")

/- What is outside: the working directory, what stands at a path (nothing for what is no directory), and regular expressions. -/
structure Outside where
  wd : String
  stat : String → Except String (Option Root)
  compile : String → Except String (Bytes → Bool)

def readRoot (o : Outside) (input : SearchFilesInput) : Except SearchError (String × Root) :=
  let root := if trimSpace input.root = "" then "." else trimSpace input.root
  match resolvePath o.wd root with
  | .error text => .error (.path text)
  | .ok abs =>
    match o.stat abs with
    | .error text => .error (.stat text)
    | .ok none => .error (.notDirectory abs)
    | .ok (some root) => .ok (abs,root)

def readQuery (o : Outside) (input : SearchFilesInput) (abs : String) : Except SearchError Query :=
  let nameGlob := trimSpace input.nameGlob
  let contentPat := trimSpace input.contentPattern
  let query (re : Option (Bytes → Bool)) : Query :=
    ⟨abs,nameGlob,re,ignored input.ignoreDirs,if input.maxResults ≤ 0 then 50 else input.maxResults.toNat,
      if input.maxFileBytes ≤ 0 then 1024*1024 else input.maxFileBytes.toNat⟩
  if nameGlob = "" ∧ contentPat = "" then .error .noPattern
  else if contentPat = "" then .ok (query none)
  else
    match o.compile contentPat with
    | .error text => .error (.badPattern text)
    | .ok re => .ok (query (some re))

def SearchFilesTool (o : Outside) (input : SearchFilesInput) : Except SearchError SearchFilesOutput :=
  match readRoot o input with
  | .error e => .error e
  | .ok (abs,root) =>
    match readQuery o input abs with
    | .error e => .error e
    | .ok q =>
      let s := walk q root
      .ok ⟨abs,s.found,s.found.length,s.truncated⟩

/- A file that a pattern matches: one without a slash its name, and any one the path below the root, where two stars stand for any number
of directories. -/
def Matched (abs glob path : String) : Prop :=
  ('/' ∉ glob.toList ∧ Match glob (baseText path) = true) ∨
  ∃ p, Expands glob.toList p ∧ Match (String.ofList p) (Rel (dirs abs) (dirs path)) = true

/- Only files are found that the pattern of names matches. -/
def OnlyMatched (o : Outside) (input : SearchFilesInput) : Prop :=
  ∀ out, SearchFilesTool o input = .ok out → trimSpace input.nameGlob ≠ "" →
    ∀ m ∈ out.found, Matched out.root (trimSpace input.nameGlob) m.path

section
variable (q : Query)

/- The files that the walk comes to, in turn, were it not over. -/
def filesIn (dir : String) : Entries → List Visit
  | .none => []
  | .file name leaf rest => ⟨child dir name,name.text,leaf⟩ :: filesIn dir rest
  | .dir name inside rest => if name.text ∈ q.ignore then filesIn dir rest else filesIn (child dir name) inside ++ filesIn dir rest

def files (root : Root) : List Visit :=
  match root with
  | .folder entries => filesIn q q.abs entries
  | .link leaf => [⟨q.abs,baseText q.abs,leaf⟩]

/- The lines of a file that are searched: none where it is too large or cannot be opened. -/
def searched (v : Visit) : Option (List Bytes) :=
  match v.leaf.size with
  | none => some []
  | some size => if q.maxBytes < size then some [] else v.leaf.content.map (scanned (max 65536 q.maxBytes))

/- A file has the last part of the pattern for its name, and can be opened where its lines are searched; or it has a line of the content. -/
def Hit (v : Visit) : Prop :=
  match q.re with
  | none => Match (baseText q.nameGlob) v.name = true
  | some re => ∃ lines, searched q v = some lines ∧ (Match (baseText q.nameGlob) v.name = true ∨ ∃ line ∈ lines, re line = true)

/- What a file gives, were there no limit. -/
def contents (re : Bytes → Bool) (v : Visit) : Nat → List Bytes → List SearchMatch
  | _, [] => []
  | lineNo, line :: rest =>
    if re line then ⟨v.path,lineNo+1,snippet line,.content⟩ :: contents re v (lineNo+1) rest else contents re v (lineNo+1) rest

def byNames (v : Visit) : List SearchMatch := if nameMatched q v then [named v] else []

def gives (v : Visit) : List SearchMatch :=
  match q.re with
  | none => byNames q v
  | some re =>
    match searched q v with
    | none => []
    | some lines => if contents re v 0 lines = [] then byNames q v else contents re v 0 lines

/- The walk comes to a file before it has found as many as it looks for. -/
def Reached (root : Root) (v : Visit) : Prop :=
  ∃ before behind, files q root = before ++ v :: behind ∧ (before.flatMap (gives q)).length < q.limit

end

variable {o : Outside} {input : SearchFilesInput} {q : Query} {root : Root}

/-! What the walk finds: what the files give, up to the limit. -/
structure Goes (q : Query) (s : State) (all : List SearchMatch) : Prop where
  found : s.found = all.take q.limit
  full : s.ended = true → q.limit ≤ all.length

theorem goesFull {s : State} {all : List SearchMatch} (goes : Goes q s all) (full : q.limit ≤ all.length) (more : List SearchMatch) :
    Goes q s (all ++ more) := by
  refine ⟨?_,fun _ => ?_⟩
  · rw [goes.found,List.take_append_of_le_length full]
  · rw [List.length_append]
    exact full.trans (Nat.le_add_right _ _)

theorem goesByName {s : State} (open_ : s.ended = false) (room : s.found.length < q.limit) (v : Visit) :
    Goes q (byName q s v) (s.found ++ byNames q v) := by
  unfold byName byNames
  split
  · refine ⟨(List.take_of_length_le ?_).symm,fun ended => ?_⟩
    · rw [List.length_append]
      exact room
    · have closed : s.ended = true := ended
      rw [open_] at closed
      cases closed
  · rw [List.append_nil]
    refine ⟨(List.take_of_length_le (Nat.le_of_lt room)).symm,fun ended => ?_⟩
    rw [open_] at ended
    cases ended

/- The lines of a file, after some of them. -/
theorem goesLines {re : Bytes → Bool} {v : Visit} (lines : List Bytes) (n : Nat) (foundContent : Bool) {s : State} (open_ : s.ended = false)
    (room : s.found.length < q.limit) : Goes q (searchLines q re v n foundContent s lines)
      (s.found ++ if foundContent = false ∧ contents re v n lines = [] then byNames q v else contents re v n lines) := by
  induction lines generalizing n foundContent s with
  | nil =>
    rw [searchLines,contents]
    cases foundContent with
    | false => exact goesByName open_ room v
    | true =>
      refine ⟨?_,fun ended => ?_⟩
      · exact ((List.take_of_length_le (by rw [List.length_append]; exact Nat.le_of_lt room)).trans (List.append_nil _)).symm
      · have closed : s.ended = true := ended
        rw [open_] at closed
        cases closed
  | cons line rest ih =>
    rw [searchLines,contents]
    by_cases here : re line = true
    · rw [if_pos here,if_pos here]
      have tail : (if foundContent = false ∧ (⟨v.path,n+1,snippet line,.content⟩ :: contents re v (n+1) rest : List SearchMatch) = []
          then byNames q v else ⟨v.path,n+1,snippet line,.content⟩ :: contents re v (n+1) rest) =
          ⟨v.path,n+1,snippet line,.content⟩ :: contents re v (n+1) rest :=
        if_neg fun both => List.cons_ne_nil _ _ both.2
      rw [tail]
      dsimp only
      have length : (s.found ++ [(⟨v.path,n+1,snippet line,.content⟩ : SearchMatch)]).length = s.found.length+1 := List.length_append
      rw [length]
      split
      · rename_i full
        refine ⟨?_,fun _ => ?_⟩
        · have exact_ : q.limit = s.found.length+1 := Nat.le_antisymm full room
          have taken (m : SearchMatch) (more : List SearchMatch) : (s.found ++ m :: more).take (s.found.length+1) = s.found ++ [m] := by
            rw [List.append_cons]
            exact List.take_left' List.length_append
          rw [exact_]
          exact (taken _ _).symm
        · rw [List.length_append,List.length_cons]
          omega
      · rename_i more
        have later := ih (n+1) true (s := { s with found := s.found ++ [⟨v.path,n+1,snippet line,.content⟩] }) open_
          (by rw [length]; exact Nat.lt_of_not_le more)
        rw [if_neg fun both => Bool.noConfusion both.1,List.append_assoc] at later
        exact later
    · rw [if_neg here,if_neg here]
      exact ih (n+1) foundContent open_ room

theorem goesVisit {s : State} {all : List SearchMatch} (goes : Goes q s all) (open_ : s.ended = false) (v : Visit) :
    Goes q (visit q s v) (all ++ gives q v) := by
  unfold visit
  split
  · rename_i full
    have long : q.limit ≤ all.length := by
      rw [goes.found,List.length_take] at full
      exact full.trans (Nat.min_le_right _ _)
    have closed : Goes q { s with truncated := true, ended := true } all := ⟨goes.found,fun _ => long⟩
    exact goesFull closed long _
  · rename_i short
    have room : s.found.length < q.limit := Nat.lt_of_not_le short
    have whole : s.found = all := by
      have length := room
      rw [goes.found,List.length_take] at length
      rw [goes.found,List.take_of_length_le (by omega)]
    rw [← whole,gives]
    cases q.re with
    | none => exact goesByName open_ room v
    | some re =>
      dsimp only
      rw [searched]
      cases v.leaf.size with
      | none => exact goesByName open_ room v
      | some size =>
        dsimp only
        split
        · exact goesByName open_ room v
        · cases v.leaf.content with
          | none =>
            refine ⟨?_,fun ended => ?_⟩
            · exact ((List.take_of_length_le (by rw [List.length_append]; exact Nat.le_of_lt room)).trans (List.append_nil _)).symm
            · rw [open_] at ended
              cases ended
          | some content =>
            have lines := @goesLines q re v (scanned (max 65536 q.maxBytes) content) 0 false s open_ room
            simpa using lines

theorem goesWalk (entries : Entries) (dir : String) {s : State} {all : List SearchMatch} (goes : Goes q s all) :
    Goes q (walkDir q dir entries s) (all ++ (filesIn q dir entries).flatMap (gives q)) := by
  induction entries generalizing dir s all with
  | none =>
    rw [walkDir,filesIn,List.flatMap_nil,List.append_nil]
    exact goes
  | file name leaf rest ih =>
    rw [walkDir,filesIn,List.flatMap_cons]
    split
    · rename_i ended
      exact goesFull goes (goes.full ended) _
    · rename_i open_
      rw [← List.append_assoc]
      exact ih dir (goesVisit goes (Bool.not_eq_true _ ▸ open_) _)
  | dir name inside rest first later =>
    rw [walkDir,filesIn]
    split
    · rename_i ended
      exact goesFull goes (goes.full ended) _
    · split
      · exact later dir goes
      · rw [List.flatMap_append,← List.append_assoc]
        exact later dir (first (child dir name) goes)

theorem walkFound (q : Query) (root : Root) : (walk q root).found = ((files q root).flatMap (gives q)).take q.limit := by
  have start : Goes q ⟨[],false,false⟩ [] := ⟨List.take_nil.symm,fun ended => Bool.noConfusion ended⟩
  cases root with
  | folder entries => exact (goesWalk entries q.abs start).found
  | link leaf =>
    have one := (goesVisit start rfl ⟨q.abs,baseText q.abs,leaf⟩).found
    rw [files,List.flatMap_singleton]
    exact one

/-! Which files give something. -/
theorem contentsNil {re : Bytes → Bool} {v : Visit} (n : Nat) (lines : List Bytes) :
    contents re v n lines = [] ↔ ∀ line ∈ lines, re line = false := by
  induction lines generalizing n with
  | nil => exact iff_of_true rfl (List.forall_mem_nil _)
  | cons line rest ih =>
    rw [contents,List.forall_mem_cons]
    by_cases here : re line = true
    · rw [if_pos here]
      refine iff_of_false (List.cons_ne_nil _ _) fun both => ?_
      rw [here] at both
      exact Bool.noConfusion both.1
    · rw [if_neg here,ih]
      exact (and_iff_right (Bool.eq_false_iff.mpr here)).symm

theorem contentsPath {re : Bytes → Bool} {v : Visit} {n : Nat} {lines : List Bytes} : ∀ m ∈ contents re v n lines, m.path = v.path := by
  induction lines generalizing n with
  | nil => exact List.forall_mem_nil _
  | cons line rest ih =>
    rw [contents]
    split
    · exact List.forall_mem_cons.mpr ⟨rfl,ih⟩
    · exact ih

theorem byNamesPath {v : Visit} : ∀ m ∈ byNames q v, m.path = v.path := by
  intro m mem
  rw [byNames] at mem
  split at mem
  · rw [List.mem_singleton.mp mem]
    rfl
  · cases mem

theorem givesPath {v : Visit} : ∀ m ∈ gives q v, m.path = v.path := by
  intro m mem
  rw [gives] at mem
  split at mem
  · exact byNamesPath m mem
  · split at mem
    · cases mem
    · split at mem
      · exact byNamesPath m mem
      · exact contentsPath m mem

/- A match of the path is one of the pattern. -/
theorem pathMatched {glob : String} {v : Visit} (ok : pathMatch glob (relOf q v.path) = true) :
    Matched q.abs glob v.path := by
  rw [pathMatch] at ok
  split at ok
  · exact .inr ⟨_,expandsOneStar _,ok⟩
  · rename_i plain
    refine .inr ⟨_,(expandsSelf plain).mpr rfl,?_⟩
    rw [String.ofList_toList]
    exact ok

theorem nameMatchedIff {v : Visit} (some : q.nameGlob ≠ "") (matched : nameMatched q v = true) :
    Match (baseText q.nameGlob) v.name = true ∨ Matched q.abs q.nameGlob v.path := by
  rw [nameMatched,if_neg some] at matched
  dsimp only at matched
  split at matched
  · rw [Bool.or_eq_true] at matched
    exact matched.imp_right pathMatched
  · exact .inl matched

theorem matchNamed {v : Visit} (some : q.nameGlob ≠ "") (matched : Match (baseText q.nameGlob) v.name = true) : nameMatched q v = true := by
  rw [nameMatched,if_neg some,matched]
  dsimp only
  split
  · rfl
  · rfl

theorem byNamesSome {v : Visit} : byNames q v ≠ [] ↔ nameMatched q v = true := by
  rw [byNames]
  split
  · rename_i matched
    exact iff_of_true (List.cons_ne_nil _ _) matched
  · rename_i other
    exact iff_of_false (fun some => some rfl) other

theorem hitGives {v : Visit} (some : q.nameGlob ≠ "") (hit : Hit q v) : gives q v ≠ [] := by
  rw [gives]
  rw [Hit] at hit
  cases pattern : q.re with
  | none =>
    rw [pattern] at hit
    exact byNamesSome.mpr (matchNamed some hit)
  | some re =>
    rw [pattern] at hit
    obtain ⟨lines,here,matched⟩ := hit
    rw [here]
    dsimp only
    split
    · rename_i none
      refine byNamesSome.mpr (matchNamed some (matched.resolve_right ?_))
      rintro ⟨line,mem,takes⟩
      rw [(contentsNil 0 lines).mp none line mem] at takes
      cases takes
    · rename_i more
      exact more

theorem givesHit {v : Visit} (some : q.nameGlob ≠ "") (gave : gives q v ≠ []) : Hit q v ∨ Matched q.abs q.nameGlob v.path := by
  rw [gives] at gave
  rw [Hit]
  cases pattern : q.re with
  | none =>
    rw [pattern] at gave
    exact nameMatchedIff some (byNamesSome.mp gave)
  | some re =>
    rw [pattern] at gave
    cases here : searched q v with
    | none =>
      rw [here] at gave
      exact absurd rfl gave
    | some lines =>
      rw [here] at gave
      dsimp only at gave
      split at gave
      · exact (nameMatchedIff some (byNamesSome.mp gave)).imp_left fun matched => ⟨lines,rfl,.inl matched⟩
      · rename_i more
        rw [contentsNil] at more
        refine .inl ⟨lines,rfl,.inr ?_⟩
        simpa using more

/- What is found is given by a file that is reached, and such a file's first one is found. -/
theorem foundReached {m : SearchMatch} (mem : m ∈ (walk q root).found) : ∃ v, Reached q root v ∧ m ∈ gives q v := by
  rw [walkFound] at mem
  have inside {fs : List Visit} {n : Nat} (mem : m ∈ (fs.flatMap (gives q)).take n) :
      ∃ before v behind, fs = before ++ v :: behind ∧ (before.flatMap (gives q)).length < n ∧ m ∈ gives q v := by
    induction fs generalizing n with
    | nil =>
      rw [List.flatMap_nil,List.take_nil] at mem
      cases mem
    | cons v fs ih =>
      have some : 0 < n := by
        cases n with
        | zero =>
          rw [List.take_zero] at mem
          cases mem
        | succ n => exact Nat.succ_pos n
      rw [List.flatMap_cons,List.take_append,List.mem_append] at mem
      rcases mem with here | later
      · exact ⟨[],v,fs,rfl,some,List.mem_of_mem_take here⟩
      · obtain ⟨before,w,behind,shape,room,gave⟩ := ih later
        refine ⟨v :: before,w,behind,by rw [shape]; rfl,?_,gave⟩
        rw [List.flatMap_cons,List.length_append]
        omega
  obtain ⟨before,v,behind,shape,room,gave⟩ := inside mem
  exact ⟨v,⟨before,behind,shape,room⟩,gave⟩

theorem reachedFound {v : Visit} (reached : Reached q root v) (gave : gives q v ≠ []) : ∃ m ∈ (walk q root).found, m.path = v.path := by
  obtain ⟨before,behind,shape,room⟩ := reached
  obtain ⟨m,more,first⟩ := List.exists_cons_of_ne_nil gave
  refine ⟨m,?_,givesPath m (by rw [first]; exact List.mem_cons_self)⟩
  rw [walkFound,shape,List.flatMap_append,List.flatMap_cons,first,List.take_append,List.mem_append,List.cons_append]
  obtain ⟨k,left⟩ := Nat.exists_eq_succ_of_ne_zero (Nat.sub_ne_zero_of_lt room)
  rw [left,List.take_succ_cons]
  exact .inr List.mem_cons_self

theorem queryRead {abs : String} (read : readQuery o input abs = .ok q) : q.abs = abs ∧ q.nameGlob = trimSpace input.nameGlob := by
  unfold readQuery at read
  dsimp only at read
  split at read
  · cases read
  · split at read
    · obtain rfl := Except.ok.inj read
      exact ⟨rfl,rfl⟩
    · split at read
      · cases read
      · obtain rfl := Except.ok.inj read
        exact ⟨rfl,rfl⟩

theorem toolRead {out : SearchFilesOutput} : SearchFilesTool o input = .ok out ↔ ∃ abs root q, readRoot o input = .ok (abs,root) ∧
    readQuery o input abs = .ok q ∧ out = ⟨abs,(walk q root).found,(walk q root).found.length,(walk q root).truncated⟩ := by
  rw [SearchFilesTool]
  cases rooted : readRoot o input with
  | error e => simp
  | ok pair =>
    obtain ⟨abs,root⟩ := pair
    dsimp only
    cases read : readQuery o input abs with
    | error e =>
      dsimp only
      refine iff_of_false (by simp) ?_
      rintro ⟨abs',root',q,same,read',-⟩
      cases Except.ok.inj same
      rw [read] at read'
      cases read'
    | ok q =>
      dsimp only
      constructor
      · intro made
        exact ⟨abs,root,q,rfl,read,(Except.ok.inj made).symm⟩
      · rintro ⟨abs',root',q',same,read',rfl⟩
        cases Except.ok.inj same
        rw [read] at read'
        cases Except.ok.inj read'
        rfl

/- Only files are found that the pattern matches, if and only if it matches each file that the walk reaches and that has the last part of the
pattern for its name, or a line of the content. -/
theorem onlyMatchedIff (o : Outside) (input : SearchFilesInput) : OnlyMatched o input ↔
    ∀ abs root q, readRoot o input = .ok (abs,root) → readQuery o input abs = .ok q → q.nameGlob ≠ "" →
      ∀ v, Reached q root v → Hit q v → Matched abs q.nameGlob v.path := by
  constructor
  · intro only abs root q rooted read some v reached hit
    obtain ⟨here,glob⟩ := queryRead read
    obtain ⟨m,mem,path⟩ := reachedFound reached (hitGives some hit)
    have matched := only _ (toolRead.mpr ⟨abs,root,q,rooted,read,rfl⟩) (by rwa [← glob]) m mem
    rwa [← glob,path] at matched
  · intro held out made some m mem
    obtain ⟨abs,root,q,rooted,read,rfl⟩ := toolRead.mp made
    obtain ⟨here,glob⟩ := queryRead read
    rw [← glob] at some ⊢
    obtain ⟨v,reached,gave⟩ := foundReached mem
    rw [givesPath m gave]
    rcases givesHit some (List.ne_nil_of_mem gave) with hit | matched
    · exact held abs root q rooted read some v reached hit
    · exact here ▸ matched

/-! A pattern without a slash is one of names. -/
theorem rtakeName {cs : List Char} (front : List Char) (one : '/' ∉ cs) : (front ++ '/' :: cs).rtakeWhile (fun c => c != '/') = cs := by
  have all : ∀ c ∈ cs.reverse, (c != '/') = true := by
    intro c mem
    rw [bne_iff_ne]
    rintro rfl
    exact one (List.mem_reverse.mp mem)
  rw [List.rtakeWhile,List.reverse_append,List.reverse_cons,List.append_assoc,List.takeWhile_append_of_pos all,List.singleton_append,
    List.takeWhile_cons_of_neg (by decide),List.append_nil,List.reverse_reverse]

theorem rdropName {cs : List Char} (front : List Char) (filled : cs ≠ []) (one : '/' ∉ cs) :
    (front ++ cs).rdropWhile (fun c => c == '/') = front ++ cs := by
  rw [List.rdropWhile_eq_self_iff]
  intro some
  rw [List.getLast_append_of_ne_nil _ filled,beq_iff_eq]
  exact fun same => one (same ▸ List.getLast_mem filled)

theorem baseBehind (front name : String) (plain : Plain name) : baseText (front ++ "/" ++ name) = name := by
  have filled : name.toList ≠ [] := fun none => plain.filled (String.toList_injective none)
  have chars : (front ++ "/" ++ name).toList = front.toList ++ '/' :: name.toList := by
    rw [String.toList_append,String.toList_append,List.append_assoc]
    rfl
  have some : front ++ "/" ++ name ≠ "" := by
    intro none
    rw [none] at chars
    exact List.append_ne_nil_of_right_ne_nil _ (List.cons_ne_nil _ _) chars.symm
  have slash : (front.toList ++ '/' :: name.toList).rdropWhile (fun c => c == '/') = front.toList ++ '/' :: name.toList := by
    rw [List.append_cons]
    exact rdropName _ filled plain.one
  unfold baseText
  rw [if_neg some]
  dsimp only
  rw [chars,slash,if_neg (List.append_ne_nil_of_right_ne_nil _ (List.cons_ne_nil _ _)),rtakeName _ plain.one,String.ofList_toList]

theorem baseChild (dir : String) (name : FileName) : baseText (child dir name) = name.text := by
  rw [child]
  split
  · exact baseBehind "" name.text name.plain
  · exact baseBehind dir name.text name.plain

theorem filesNamed (entries : Entries) (dir : String) : ∀ v ∈ filesIn q dir entries, v.name = baseText v.path := by
  induction entries generalizing dir with
  | none => exact List.forall_mem_nil _
  | file name leaf rest ih => exact List.forall_mem_cons.mpr ⟨(baseChild dir name).symm,ih dir⟩
  | dir name inside rest first later =>
    rw [filesIn]
    split
    · exact later dir
    · exact List.forall_mem_append.mpr ⟨first (child dir name),later dir⟩

theorem visitNamed {v : Visit} (mem : v ∈ files q root) : v.name = baseText v.path := by
  cases root with
  | folder entries => exact filesNamed entries q.abs v mem
  | link leaf => rw [List.mem_singleton.mp mem]

theorem baseSelf {glob : String} (some : glob ≠ "") (one : '/' ∉ glob.toList) : baseText glob = glob := by
  have filled : glob.toList ≠ [] := fun none => some (String.toList_injective none)
  have all : ∀ c ∈ glob.toList.reverse, (c != '/') = true := by
    intro c mem
    rw [bne_iff_ne]
    rintro rfl
    exact one (List.mem_reverse.mp mem)
  have whole := rdropName [] filled one
  rw [List.nil_append] at whole
  unfold baseText
  rw [if_neg some]
  dsimp only
  rw [whole,if_neg filled,List.rtakeWhile,List.takeWhile_eq_self_iff.mpr all,List.reverse_reverse,String.ofList_toList]

/- Where no content is looked for, a pattern without a slash finds what it matches. -/
theorem namesOnly (some : q.nameGlob ≠ "") (names : q.re = none) (one : '/' ∉ q.nameGlob.toList) {v : Visit} (reached : Reached q root v)
    (hit : Hit q v) : Matched q.abs q.nameGlob v.path := by
  obtain ⟨before,behind,shape,-⟩ := reached
  have mem : v ∈ files q root := by
    rw [shape]
    exact List.mem_append_right _ List.mem_cons_self
  rw [Hit,names,baseSelf some one,visitNamed mem] at hit
  exact .inl ⟨one,hit⟩

def project : Outside :=
  ⟨"/srv",fun _ => .ok (some (.folder (.dir ⟨"lib",by decide⟩ (.file ⟨"x.go",by decide⟩ ⟨some 0,some []⟩ .none) .none))),
    fun _ => .error "no pattern"⟩

def sources : SearchFilesInput := ⟨"","src/*.go","",[],0,0⟩

/- A file of another directory is found. -/
theorem elsewhereFound : ¬OnlyMatched project sources := by
  have answer : SearchFilesTool project sources = .ok ⟨"/srv",[⟨"/srv/lib/x.go",0,[],.name⟩],1,false⟩ := by decide
  intro only
  have matched := only _ answer (by decide) _ List.mem_cons_self
  rcases matched with ⟨one,-⟩ | ⟨p,expands,same⟩
  · exact one (by decide)
  · rw [(expandsSelf (by decide)).mp expands] at same
    exact absurd same (by decide)

end ContainerWS.Mcp.Search
