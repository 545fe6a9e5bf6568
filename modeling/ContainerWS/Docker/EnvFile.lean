import ContainerWS.Docker.EditPage

/-! The variables of a stack as an env file, frontend/src/modules/docker/pages/stacks/edit/env-file.ts: the rows
that are read of a text, the text that is written of rows, and which rows come back. -/
namespace ContainerWS.Docker.EnvFile
open GoStrings TextRows

structure EnvPair where
  id : String
  name : String
  value : String
  deriving DecidableEq

/- Ids are numbered; the stamp is the time at which one is made. -/
def nextEnvId (stamp : Nat → String) (envSeq : Nat) : String := "env-" ++ (envSeq+1).repr ++ "-" ++ stamp (envSeq+1)

def emptyEnvPair (stamp : Nat → String) (envSeq : Nat) : EnvPair := ⟨nextEnvId stamp envSeq,"",""⟩

/- `replace` of every carriage return and line feed by a line feed. -/
def lineFeeds : List Char → List Char
  | [] => []
  | [c] => [c]
  | c :: d :: rest => if c = '\r' ∧ d = '\n' then '\n' :: lineFeeds rest else c :: lineFeeds (d :: rest)

def enclosed (mark : Char) (cs : List Char) : Bool := cs.head? == some mark && cs.getLast? == some mark

/- Quotes around a value, both of one kind, are cut off. -/
def unquote (cs : List Char) : List Char :=
  if enclosed '"' cs || enclosed '\'' cs then (cs.drop 1).dropLast else cs

/- What a trimmed line says. -/
def readTrimmed (trimmed : String) : Option (String × String) :=
  if trimmed = "" ∨ trimmed.toList.head? = some '#' then none
  else if '=' ∈ trimmed.toList then
    some (trim (before '=' trimmed),String.ofList (unquote ((trimmed.toList.dropWhile (· != '=')).drop 1)))
  else some (trimmed,"")

def readLines (text : String) : List (String × String) :=
  (split '\n' (String.ofList (lineFeeds text.toList))).filterMap fun line => readTrimmed (trim line)

def parseEnvFile (stamp : Nat → String) (envSeq : Nat) (text : String) : List EnvPair :=
  let pairs := (readLines text).mapIdx fun i p => ⟨nextEnvId stamp (envSeq+i),p.1,p.2⟩
  if pairs.isEmpty then [emptyEnvPair stamp envSeq] else pairs

def replaceEach (old : Char) (new : List Char) (cs : List Char) : List Char := cs.flatMap fun c => if c = old then new else [c]

def needsQuote (value : String) : Bool := [' ','#','=','\n'].any value.toList.contains

/- Backslashes are doubled, and a quote gets one in front. -/
def escaped (cs : List Char) : List Char := replaceEach '"' ['\\','"'] (replaceEach '\\' ['\\','\\'] cs)

def written (value : String) : List Char := if needsQuote value then '"' :: escaped value.toList ++ ['"'] else value.toList

def writeLine (p : EnvPair) : Option String :=
  let name := trim p.name
  if name = "" then none else some (String.ofList (name.toList ++ '=' :: written p.value))

def serializeEnvFile (pairs : List EnvPair) : String := join '\n' (pairs.filterMap writeLine)

def EnvPair.entry (p : EnvPair) : String × String := (p.name,p.value)

/- The rows that an editor may hold. -/
structure Named (p : EnvPair) : Prop where
  filled : trim p.name ≠ ""
  one : '=' ∉ p.name.toList
  unbroken : '\n' ∉ p.name.toList
  leads : p.name.toList.head? ≠ some '#'
  valueUnbroken : '\n' ∉ p.value.toList

structure Variables where
  rows : List EnvPair
  distinct : (rows.map EnvPair.name).Nodup
  named : ∀ p ∈ rows, Named p

/- A value that comes back: in quotes it has nothing to escape, and bare it ends with no blank and is not quoted. -/
def ValueKept (value : String) : Prop :=
  if needsQuote value then '"' ∉ value.toList ∧ '\\' ∉ value.toList
  else (∀ c, value.toList.getLast? = some c → jsSpace c = false) ∧ enclosed '"' value.toList = false ∧ enclosed '\'' value.toList = false

/- Rows that come back: there are some, no name has blanks around it, and every value is kept. -/
def Kept (rows : List EnvPair) : Prop := rows ≠ [] ∧ ∀ p ∈ rows, trim p.name = p.name ∧ ValueKept p.value

/- Opening what has been saved, over and over. -/
def saved (stamp : Nat → String) (envSeq : Nat → Nat) (rows : List EnvPair) : Nat → List EnvPair
  | 0 => rows
  | n+1 => parseEnvFile stamp (envSeq n) (serializeEnvFile (saved stamp envSeq rows n))

section
variable {value : String} {p : EnvPair}

/- A line is the same with and without a carriage return at its end. -/
theorem linesFed (cs : List Char) :
    List.Forall₂ (fun fed line => line = fed ∨ line = fed ++ ['\r']) ((lineFeeds cs).splitOn '\n') (cs.splitOn '\n') := by
  have refl (ls : List (List Char)) : List.Forall₂ (fun fed line => line = fed ∨ line = fed ++ ['\r']) ls ls :=
    List.forall₂_same.mpr fun _ _ => .inl rfl
  have grow (c : Char) {ls ms : List (List Char)} (same : List.Forall₂ (fun fed line => line = fed ∨ line = fed ++ ['\r']) ls ms) :
      List.Forall₂ (fun fed line => line = fed ∨ line = fed ++ ['\r']) (ls.modifyHead (c :: ·)) (ms.modifyHead (c :: ·)) := by
    cases same with
    | nil => exact .nil
    | cons first rest =>
      refine .cons ?_ rest
      rcases first with rfl | rfl
      · exact .inl rfl
      · exact .inr rfl
  fun_induction lineFeeds cs with
  | case1 => exact refl _
  | case2 c => exact refl _
  | case3 c d rest both ih =>
    obtain ⟨rfl,rfl⟩ := both
    rw [List.splitOn_cons_eq_if_modifyHead,if_pos (by decide),List.splitOn_cons_eq_if_modifyHead,if_neg (by decide),
      List.splitOn_cons_eq_if_modifyHead,if_pos (by decide)]
    exact .cons (.inr rfl) ih
  | case4 c d rest other ih =>
    rw [List.splitOn_cons_eq_if_modifyHead,@List.splitOn_cons_eq_if_modifyHead _ _ _ c]
    split
    · exact .cons (.inl rfl) ih
    · exact grow c ih

/- The lines are read as they are cut at line feeds alone. -/
theorem readLinesSplit (text : String) : readLines text = (split '\n' text).filterMap fun line => readTrimmed (trim line) := by
  have fed := linesFed text.toList
  rw [readLines,split,split,String.toList_ofList]
  generalize (lineFeeds text.toList).splitOn '\n' = fs at fed
  generalize text.toList.splitOn '\n' = ls at fed
  induction fed with
  | nil => rfl
  | @cons fed line fs ls first rest ih =>
    have same : trim (String.ofList line) = trim (String.ofList fed) := by
      rcases first with rfl | rfl
      · rfl
      · rw [String.ofList_append,← String.singleton_eq_ofList]
        exact trimBothBlank (by decide)
    rw [List.map_cons,List.map_cons,List.filterMap_cons,List.filterMap_cons,same,ih]

theorem nameSolid (p : EnvPair) : ∀ c, (trim p.name).toList.head? = some c → jsSpace c = false := (trimBothSolid p.name).1

theorem trimmedFree {c : Char} {s : String} (none : c ∉ s.toList) : c ∉ (trim s).toList := fun mem => none (trimBothMem mem)

/- What the line of a row says. -/
def reread (entry : String × String) : Option (String × String) :=
  if (trim entry.1).toList.head? = some '#' then none
  else some (trim entry.1,String.ofList (unquote (trimEnd jsSpace (written entry.2))))

theorem lineWritten (named : Named p) : writeLine p = some (String.ofList ((trim p.name).toList ++ '=' :: written p.value)) := by
  unfold writeLine
  dsimp only
  rw [if_neg named.filled]

theorem lineRead (named : Named p) : (writeLine p).bind (fun line => readTrimmed (trim line)) = reread p.entry := by
  have filled : (trim p.name).toList ≠ [] := fun empty => named.filled (String.toList_inj.mp empty)
  have one := trimmedFree named.one
  have before : ∀ c ∈ (trim p.name).toList, (c != '=') = true := fun c mem => bne_iff_ne.mpr fun same => one (same ▸ mem)
  have some : String.ofList ((trim p.name).toList ++ '=' :: trimEnd jsSpace (written p.value)) ≠ "" := by
    intro empty
    have chars := congrArg String.toList empty
    rw [String.toList_ofList] at chars
    simp at chars
  have whole : trim (String.ofList ((trim p.name).toList ++ '=' :: written p.value)) =
      String.ofList ((trim p.name).toList ++ '=' :: trimEnd jsSpace (written p.value)) :=
    trimBothFront (by decide) filled (nameSolid p)
  obtain ⟨c,rest,shape⟩ := List.exists_cons_of_ne_nil filled
  rw [lineWritten named,Option.bind_some,whole,readTrimmed,reread]
  simp only [some,false_or,String.toList_ofList]
  have head : ((trim p.name).toList ++ '=' :: trimEnd jsSpace (written p.value)).head? = (trim p.name).toList.head? := by
    rw [shape]
    rfl
  rw [head]
  change _ = if (trim p.name).toList.head? = Option.some '#' then none else _
  split
  · rfl
  · rw [if_pos (by simp),GoStrings.before,String.toList_ofList,List.takeWhile_append_of_pos before,List.dropWhile_append_of_pos before,
      List.takeWhile_cons_of_neg (by simp),List.dropWhile_cons_of_neg (by simp),List.append_nil,String.ofList_toList]
    have twice : trim (trim p.name) = trim p.name := trimBothTwice p.name
    rw [twice]
    rfl

theorem replaceSelf {old : Char} {new : List Char} {cs : List Char} (absent : old ∉ cs) : replaceEach old new cs = cs := by
  induction cs with
  | nil => rfl
  | cons c cs ih =>
    obtain ⟨other,rest⟩ := not_or.mp (List.mem_cons.not.mp absent)
    have here : replaceEach old new (c :: cs) = (if c = old then new else [c]) ++ replaceEach old new cs := rfl
    rw [here,if_neg (Ne.symm other),ih rest]
    rfl

theorem replaceLength (old a b : Char) (cs : List Char) : (replaceEach old [a,b] cs).length = cs.length+cs.count old := by
  induction cs with
  | nil => rfl
  | cons c cs ih =>
    have here : replaceEach old [a,b] (c :: cs) = (if c = old then [a,b] else [c]) ++ replaceEach old [a,b] cs := rfl
    rw [here,List.length_append,ih,List.count_cons,List.length_cons]
    by_cases same : c = old
    · simp [same]
      omega
    · simp [same]
      omega

/- Only a text with nothing to escape stays. -/
theorem escapedSelf {cs : List Char} : escaped cs = cs ↔ '"' ∉ cs ∧ '\\' ∉ cs := by
  constructor
  · intro same
    have count := congrArg List.length same
    rw [escaped,replaceLength,replaceLength] at count
    have slashes : cs.count '\\' = 0 := by omega
    have slash : '\\' ∉ cs := List.count_eq_zero.mp slashes
    rw [replaceSelf slash] at count
    exact ⟨List.count_eq_zero.mp (by omega),slash⟩
  · rintro ⟨quote,slash⟩
    rw [escaped,replaceSelf slash,replaceSelf quote]

theorem unquoteSelf {cs : List Char} : unquote cs = cs ↔ enclosed '"' cs = false ∧ enclosed '\'' cs = false := by
  unfold unquote
  constructor
  · intro same
    by_contra marked
    have both : (enclosed '"' cs || enclosed '\'' cs) = true := by
      cases double : enclosed '"' cs <;> cases single : enclosed '\'' cs <;> simp_all
    rw [if_pos both] at same
    have count := congrArg List.length same
    have some : cs ≠ [] := by
      rintro rfl
      revert both
      decide
    have filled := List.length_pos_of_ne_nil some
    rw [List.length_dropLast,List.length_drop] at count
    omega
  · rintro ⟨double,single⟩
    rw [double,single]
    rfl

theorem backIff (value : String) : String.ofList (unquote (trimEnd jsSpace (written value))) = value ↔ ValueKept value := by
  rw [← String.toList_inj,String.toList_ofList]
  unfold written ValueKept
  split
  · have stays : trimEnd jsSpace ('"' :: escaped value.toList ++ ['"']) = '"' :: escaped value.toList ++ ['"'] := by
      refine trimEndSelf.mpr fun c last => ?_
      rw [List.getLast?_concat] at last
      cases last
      decide
    have marked : enclosed '"' ('"' :: escaped value.toList ++ ['"']) = true := by
      rw [enclosed,List.getLast?_concat]
      rfl
    rw [stays,unquote,marked,Bool.true_or,if_pos rfl,List.cons_append,List.drop_one,List.tail_cons,List.dropLast_concat,escapedSelf]
  · constructor
    · intro same
      have shorter : (trimEnd jsSpace value.toList).length ≤ value.toList.length := by
        rw [trimEnd,List.length_reverse,← @List.length_reverse _ value.toList]
        exact (List.dropWhile_sublist _).length_le
      have cut : (unquote (trimEnd jsSpace value.toList)).length ≤ (trimEnd jsSpace value.toList).length := by
        unfold unquote
        split
        · rw [List.length_dropLast,List.length_drop]
          omega
        · exact Nat.le_refl _
      have whole : trimEnd jsSpace value.toList = value.toList := by
        have front : (trimEnd jsSpace value.toList) <+: value.toList := by
          rw [← List.reverse_suffix,trimEnd,List.reverse_reverse]
          exact List.dropWhile_suffix _
        refine front.eq_of_length ?_
        rw [same] at cut
        omega
      rw [whole] at same
      exact ⟨trimEndSelf.mp whole,unquoteSelf.mp same⟩
    · rintro ⟨last,bare⟩
      rw [trimEndSelf.mpr last,unquoteSelf.mpr bare]

theorem rereadIff (named : Named p) : reread p.entry = some p.entry ↔ trim p.name = p.name ∧ ValueKept p.value := by
  rw [← backIff]
  unfold reread EnvPair.entry
  constructor
  · intro same
    split at same
    · cases same
    · exact Prod.mk.inj (Option.some.inj same)
  · rintro ⟨name,back⟩
    dsimp only
    rw [name,if_neg named.leads,back]

theorem replaceMem {old c : Char} {new cs : List Char} (mem : c ∈ replaceEach old new cs) : c ∈ cs ∨ old ∈ cs ∧ c ∈ new := by
  obtain ⟨d,inside,here⟩ := List.mem_flatMap.mp mem
  split at here
  · rename_i same
    exact .inr ⟨same ▸ inside,here⟩
  · exact .inl (List.mem_singleton.mp here ▸ inside)

/- Escaping brings backslashes only. -/
theorem escapedMem {cs : List Char} {c : Char} (mem : c ∈ escaped cs) : c ∈ cs ∨ c = '\\' := by
  have doubled {d : Char} (inside : d ∈ replaceEach '\\' ['\\','\\'] cs) : d ∈ cs ∨ d = '\\' :=
    (replaceMem inside).imp_right fun slash => by simpa using slash.2
  rcases replaceMem mem with inside | ⟨quote,mark⟩
  · exact doubled inside
  · have within : '"' ∈ cs := (doubled quote).resolve_right (by decide)
    rcases List.mem_cons.mp mark with slash | same
    · exact .inr slash
    · exact .inl (List.mem_singleton.mp same ▸ within)

/- A row is one line. -/
theorem lineUnbroken {line : String} (named : Named p) (here : writeLine p = some line) : '\n' ∉ line.toList := by
  rw [lineWritten named] at here
  rw [← Option.some.inj here,String.toList_ofList]
  intro mem
  rcases List.mem_append.mp mem with front | more
  · exact trimmedFree named.unbroken front
  · have inside : '\n' ∈ written p.value := (List.mem_cons.mp more).resolve_left (by decide)
    unfold written at inside
    split at inside
    · simp only [List.cons_append,List.mem_cons,List.mem_append,List.not_mem_nil,or_false] at inside
      rcases inside with mark | body | mark
      · exact absurd mark (by decide)
      · exact (escapedMem body).elim named.valueUnbroken (by decide)
      · exact absurd mark (by decide)
    · exact named.valueUnbroken inside

/- The rows as the text says them. -/
theorem rowsRead {rows : List EnvPair} (some : rows ≠ []) (named : ∀ p ∈ rows, Named p) :
    readLines (serializeEnvFile rows) = (rows.map EnvPair.entry).filterMap reread := by
  have each : ∀ p ∈ rows, ∃ line, writeLine p = Option.some line := fun p mem => ⟨_,lineWritten (named p mem)⟩
  have lines : rows.filterMap writeLine ≠ [] := by
    obtain ⟨p,rest,rfl⟩ := List.exists_cons_of_ne_nil some
    obtain ⟨line,here⟩ := each p (by simp)
    rw [List.filterMap_cons_some here]
    simp
  have clean : ∀ line ∈ rows.filterMap writeLine, '\n' ∉ line.toList := by
    intro line mem
    obtain ⟨p,inside,here⟩ := List.mem_filterMap.mp mem
    exact lineUnbroken (named p inside) here
  rw [readLinesSplit,serializeEnvFile,splitJoin lines clean,List.filterMap_filterMap,List.filterMap_map]
  refine List.filterMap_congr fun p mem => ?_
  rw [Function.comp_apply]
  exact lineRead (named p mem)

theorem mapIdxEntries (stamp : Nat → String) (envSeq : Nat) (pairs : List (String × String)) :
    (pairs.mapIdx fun i p => (⟨nextEnvId stamp (envSeq+i),p.1,p.2⟩ : EnvPair)).map EnvPair.entry = pairs := by
  refine List.ext_getElem? fun i => ?_
  rw [List.getElem?_map,List.getElem?_mapIdx]
  cases pairs[i]? <;> rfl

theorem parsedEntries (stamp : Nat → String) (envSeq : Nat) (text : String) :
    (parseEnvFile stamp envSeq text).map EnvPair.entry = if readLines text = [] then [("","")] else readLines text := by
  unfold parseEnvFile
  cases lines : readLines text with
  | nil => rfl
  | cons p rest =>
    dsimp only
    rw [if_neg (by simp)]
    exact mapIdxEntries stamp envSeq (p :: rest)

/- The rows come back if and only if each is kept. -/
theorem reopenedIff {rows : List EnvPair} (named : ∀ p ∈ rows, Named p) (stamp : Nat → String) (envSeq : Nat) :
    (parseEnvFile stamp envSeq (serializeEnvFile rows)).map EnvPair.entry = rows.map EnvPair.entry ↔ Kept rows := by
  rw [parsedEntries]
  by_cases empty : rows = []
  · subst empty
    exact iff_of_false (by decide) (fun kept => kept.1 rfl)
  have some : rows.map EnvPair.entry ≠ [] := by simpa using empty
  have entries : (rows.map EnvPair.entry).filterMap reread = rows.map EnvPair.entry ↔ Kept rows := by
    rw [filterMapSelfIff,Kept,List.forall_mem_map]
    constructor
    · exact fun all => ⟨empty,fun p mem => (rereadIff (named p mem)).mp (all p mem)⟩
    · exact fun kept p mem => (rereadIff (named p mem)).mpr (kept.2 p mem)
  rw [rowsRead empty named,← entries]
  split
  · rename_i none
    rw [none]
    refine iff_of_false (fun blank => ?_) (fun same => some same.symm)
    -- a row without a name is none of the editor's
    obtain ⟨p,rest,rfl⟩ := List.exists_cons_of_ne_nil empty
    have name : "" = p.name := congrArg Prod.fst (List.cons.inj blank).1
    have filled := (named p (by simp)).filled
    rw [← name] at filled
    exact filled (by decide)
  · exact Iff.rfl

/- The id is not written. -/
theorem writeLineEntry (p : EnvPair) : writeLine p = writeLine ⟨"",p.entry.1,p.entry.2⟩ := by
  unfold writeLine EnvPair.entry
  dsimp only

theorem writtenEntries {rows rows' : List EnvPair} (same : rows'.map EnvPair.entry = rows.map EnvPair.entry) :
    serializeEnvFile rows' = serializeEnvFile rows := by
  have each : ∀ p : EnvPair, writeLine p = writeLine ⟨"",p.entry.1,p.entry.2⟩ := writeLineEntry
  rw [serializeEnvFile,serializeEnvFile]
  generalize writeLine = write at each
  have entries : ∀ rows : List EnvPair, rows.filterMap write = (rows.map EnvPair.entry).filterMap fun entry => write ⟨"",entry.1,entry.2⟩ := by
    intro rows
    rw [List.filterMap_map]
    exact List.filterMap_congr fun p _ => each p
  rw [entries,entries,same]

/- Every later turn says what the first one says. -/
theorem savedKept {rows : List EnvPair} (named : ∀ p ∈ rows, Named p) (kept : Kept rows) (stamp : Nat → String) (envSeq : Nat → Nat) (n : Nat) :
    (saved stamp envSeq rows n).map EnvPair.entry = rows.map EnvPair.entry := by
  induction n with
  | zero => rfl
  | succ n ih =>
    rw [saved,writtenEntries ih]
    exact (reopenedIff named stamp (envSeq n)).mpr kept

end

/- The variables come back in their order, after one turn and after any number of turns, if and only if there are
some and each is one that a text keeps. -/
theorem variablesKept : ∀ (v : Variables) (stamp : Nat → String) (envSeq : Nat → Nat),
    ((parseEnvFile stamp (envSeq 0) (serializeEnvFile v.rows)).map EnvPair.entry = v.rows.map EnvPair.entry ↔ Kept v.rows) ∧
    ((∀ n, (saved stamp envSeq v.rows n).map EnvPair.entry = v.rows.map EnvPair.entry) ↔ Kept v.rows) := by
  intro v stamp envSeq
  have once := reopenedIff v.named stamp (envSeq 0)
  exact ⟨once,fun all => once.mp (all 1),fun kept => savedKept v.named kept stamp envSeq⟩

/- A password with a quote in it. -/
def password : EnvPair := ⟨"env-1-0","PASSWORD","a\"b c"⟩

theorem passwordNamed : Named password where
  filled := by decide
  one := by decide
  unbroken := by decide
  leads := by decide
  valueUnbroken := by decide

def passwords : Variables where
  rows := [password]
  distinct := by decide
  named := fun p mem => List.mem_singleton.mp mem ▸ passwordNamed

/- Every save leaves the backslashes of the one before and escapes them again. -/
theorem passwordGrows : serializeEnvFile passwords.rows = "PASSWORD=\"a\\\"b c\"" ∧
    (saved (fun _ => "0") (fun n => n) passwords.rows 1).map EnvPair.entry = [("PASSWORD","a\\\"b c")] ∧
    (saved (fun _ => "0") (fun n => n) passwords.rows 2).map EnvPair.entry = [("PASSWORD","a\\\\\\\"b c")] ∧
    passwords.rows.map EnvPair.entry = [("PASSWORD","a\"b c")] := by
  decide

end ContainerWS.Docker.EnvFile
