import ContainerWS.LinuxUser

/-! The authorized_keys file of packages/linuxuser/sshkeys.go: how it is read, what adding a key
appends to it and what removing one writes. The parser of golang.org/x/crypto/ssh is outside. -/
namespace ContainerWS.LinuxUser
open GoStrings TextRows

/- The package ssh, with the type of its public keys. -/
structure Ssh (P : Type) where
  ParseAuthorizedKey : String → Option (P × String × List String)
  MarshalAuthorizedKey : P → String
  keyType : P → String
  FingerprintSHA256 : P → String

structure AuthorizedKey where
  index : Nat
  type : String
  fingerprint : String
  comment : String
  options : List String
  line : String
  deriving DecidableEq, Repr

/- The host around one request. A failing write leaves the first `wrote` characters of it. -/
structure KeyHost where
  account : Bool := true
  mkdir : Bool := true
  readable : Bool := true
  opens : Bool := true
  wrote : Option Nat := none
  status : Bool := true

inductive KeyError where
  | account
  | required
  | invalid
  | mkdir
  | read
  | authorized
  | noFile
  | index (i : Int)
  | write
  | status
  deriving DecidableEq, Repr

/- A line, trimmed, that readAuthorizedKeys does not pass over. -/
def isKey (trimmed : String) : Bool := trimmed != "" && !hasPrefix trimmed "#"

def keyLines (raw : String) : List String := ((split '\n' raw).map trimSpace).filter isKey

/- `strings.Fields`, and the first of them. -/
def firstField (s : String) : String := (words isSpace s).headD ""

/- `strings.ReplaceAll` of "\r\n" by "\n". -/
def lineFeeds : List Char → List Char
  | '\x0d' :: '\n' :: rest => '\n' :: lineFeeds rest
  | c :: rest => c :: lineFeeds rest
  | [] => []

section
variable {P : Type} (ssh : Ssh P)

def entry (idx : Nat) (trimmed : String) : AuthorizedKey :=
  match ssh.ParseAuthorizedKey trimmed with
  | some (pub,comment,options) =>
    ⟨idx,ssh.keyType pub,ssh.FingerprintSHA256 pub,trimSpace comment,options,trimmed⟩
  | none => ⟨idx,firstField trimmed,"","(unrecognized key line)",[],trimmed⟩

def readAuthorizedKeys (raw : String) : List AuthorizedKey := (keyLines raw).mapIdx (entry ssh)

/- The line of a key with a comment and options. -/
def keyLine (pub : P) (comment : String) (options : List String) : String :=
  let marshaled := trimSpace (ssh.MarshalAuthorizedKey pub)
  let line := if comment ≠ "" then marshaled ++ " " ++ comment else marshaled
  trimSpace (if options ≠ [] then join ',' options ++ " " ++ line else line)

def candidate (key : String) : Option String :=
  let feeds := String.ofList (lineFeeds (trimSpace key).toList)
  ((split '\n' (replaceAll '\x0d' '\n' feeds)).map trimSpace).find? isKey

def normalizeAuthorizedKeyLine (key optionalComment : String) : Except KeyError String :=
  match candidate key with
  | none => .error .required
  | some line =>
    match ssh.ParseAuthorizedKey line with
    | none => .error .invalid
    | some (pub,comment,options) =>
      .ok (keyLine ssh pub (if trimSpace optionalComment ≠ "" then trimSpace optionalComment else comment) options)

def fingerprintFromLine (line : String) : String :=
  match ssh.ParseAuthorizedKey line with
  | none => ""
  | some (pub,_,_) => ssh.FingerprintSHA256 pub

def authorized (existing : List AuthorizedKey) (line : String) : Bool :=
  let fp := fingerprintFromLine ssh line
  existing.any (fun k => (k.fingerprint != "" && fp != "" && k.fingerprint == fp) || trimSpace k.line == line)

/- What a write that may fail leaves of the text that it writes. -/
def KeyHost.written (h : KeyHost) (text : String) : String :=
  match h.wrote with
  | none => text
  | some n => String.ofList (text.toList.take n)

/- The listing that a request answers with. -/
def SSHKeys (h : KeyHost) (file : Option String) : Except KeyError (List AuthorizedKey) :=
  if h.status then .ok (readAuthorizedKeys ssh (file.getD "")) else .error .status

/- The file as the request leaves it, and the answer; there may be no file. -/
abbrev KeyReply := Option String × Except KeyError (List AuthorizedKey)

def AddAuthorizedKey (h : KeyHost) (file : Option String) (key optionalComment : String) : KeyReply :=
  if !h.account then (file,.error .account)
  else
    match normalizeAuthorizedKeyLine ssh key optionalComment with
    | .error e => (file,.error e)
    | .ok line =>
      if !h.mkdir then (file,.error .mkdir)
      else if file.isSome && !h.readable then (file,.error .read)
      else if authorized ssh (readAuthorizedKeys ssh (file.getD "")) line then (file,.error .authorized)
      else if !h.opens then (file,.error .write)
      else
        let after := some (file.getD "" ++ h.written (line ++ "\n"))
        if h.wrote.isSome then (after,.error .write) else (after,SSHKeys ssh h after)

def RemoveAuthorizedKey (h : KeyHost) (file : Option String) (index : Int) : KeyReply :=
  if !h.account then (file,.error .account)
  else
    match file with
    | none => (none,.error .noFile)
    | some raw =>
      if !h.readable then (file,.error .read)
      else
        let keys := readAuthorizedKeys ssh raw
        if index < 0 ∨ (keys.length : Int) ≤ index then (file,.error (.index index))
        else if !h.opens then (file,.error .write)
        else
          let kept := (keys.eraseIdx index.toNat).map AuthorizedKey.line
          let content := if kept ≠ [] then join '\n' kept ++ "\n" else ""
          let after := some (h.written content)
          if h.wrote.isSome then (after,.error .write) else (after,SSHKeys ssh h after)

end

theorem keyLinesMem {raw l : String} (mem : l ∈ keyLines raw) :
    '\n' ∉ l.toList ∧ trimSpace l = l ∧ isKey l = true := by
  obtain ⟨there,key⟩ := List.mem_filter.mp mem
  obtain ⟨part,inside,rfl⟩ := List.mem_map.mp there
  exact ⟨fun broken => (splitMem inside).1 (trimBothMem broken),trimSpaceTwice part,key⟩

section
variable {P : Type} {ssh : Ssh P} {h : KeyHost} {file after : Option String} {key optionalComment : String}
  {keys : List AuthorizedKey}

theorem entryLine (idx : Nat) (trimmed : String) : (entry ssh idx trimmed).line = trimmed := by
  unfold entry
  split <;> rfl

theorem linesRead (raw : String) : (readAuthorizedKeys ssh raw).map AuthorizedKey.line = keyLines raw := by
  apply List.ext_getElem?
  intro i
  rw [readAuthorizedKeys,List.getElem?_map,List.getElem?_mapIdx,Option.map_map]
  simp only [Function.comp_def,entryLine,Option.map_id']

theorem readAppended {before behind line : String} (lines : keyLines behind = keyLines before ++ [line]) :
    readAuthorizedKeys ssh behind = readAuthorizedKeys ssh before ++ [entry ssh (keyLines before).length line] := by
  rw [readAuthorizedKeys,lines,List.mapIdx_append,List.mapIdx_singleton,Nat.zero_add]
  rfl

theorem readLines {before behind : String} {k : AuthorizedKey}
    (read : readAuthorizedKeys ssh behind = readAuthorizedKeys ssh before ++ [k]) :
    keyLines behind = keyLines before ++ [k.line] := by
  have lines := congrArg (List.map AuthorizedKey.line) read
  rwa [List.map_append,linesRead,linesRead,List.map_singleton] at lines

/- The last line of a file is blank, so that what is appended stands alone. -/
def EndsLine (raw : String) : Prop := ∀ last, (split '\n' raw).getLast? = some last → trimSpace last = ""

theorem hashHead {s : String} : hasPrefix s "#" = true ↔ s.toList.head? = some '#' := by
  have mark : "#".toList = ['#'] := rfl
  rw [hasPrefix,mark]
  cases s.toList with
  | nil => simp
  | cons c rest => rw [List.isPrefixOf_cons_cons,List.isPrefixOf_nil_left,Bool.and_true,beq_iff_eq,List.head?_cons,
      Option.some.injEq,eq_comm]

theorem blankAll {s : String} (blank : trimSpace s = "") : ∀ c ∈ s.toList, isSpace c = true := by
  intro c mem
  by_contra solid
  rw [Bool.not_eq_true] at solid
  have kept := trimBothCount (s := s) solid
  rw [← trimSpaceBoth,blank] at kept
  have some := List.count_pos_iff.mpr mem
  simp at kept
  omega

theorem trimBehindBlank {s t : String} (blank : trimSpace s = "") : trimSpace (s ++ t) = trimSpace t := by
  have gone : (s ++ t).toList.dropWhile isSpace = t.toList.dropWhile isSpace := by
    rw [String.toList_append,List.dropWhile_append_of_pos (blankAll blank)]
  simp only [trimSpace,trimLeft,gone]

/- A comment at the end of a file takes up what is appended. -/
theorem commentSwallows {s t : String} (comment : hasPrefix (trimSpace s) "#" = true)
    (last : ∀ c, t.toList.getLast? = some c → isSpace c = false) (filled : t ≠ "") :
    hasPrefix (trimSpace (s ++ t)) "#" = true := by
  rw [hashHead] at comment ⊢
  have solid : ∀ c, (s ++ t).toList.getLast? = some c → isSpace c = false := by
    intro c here
    rw [String.toList_append,List.getLast?_append_of_ne_nil _ (fun none => filled (String.toList_inj.mp none))] at here
    exact last c here
  have front : (trimSpace s).toList <+: s.toList.dropWhile isSpace := by
    rw [trimSpace,String.toList_ofList,← List.reverse_suffix,List.reverse_reverse]
    exact List.dropWhile_suffix _
  obtain ⟨rest,whole⟩ := front
  have head : (s.toList.dropWhile isSpace).head? = some '#' := by
    rw [← whole,List.head?_append,comment]
    rfl
  have some : (s.toList.dropWhile isSpace).isEmpty = false := by
    cases left : s.toList.dropWhile isSpace with
    | nil => simp [left] at head
    | cons => rfl
  rw [trimSpaceBoth,trimBothLeft solid,left,String.toList_ofList,String.toList_append,List.dropWhile_append,
    some,if_neg Bool.false_ne_true,List.head?_append,head]
  rfl

theorem linesAppended {raw line : String} (trimmed : trimSpace line = line) (counts : isKey line = true) :
    keyLines (raw ++ (line ++ "\n")) = keyLines raw ++ [line] ↔ EndsLine raw ∧ '\n' ∉ line.toList := by
  have last : ∃ init last, split '\n' raw = init ++ [last] := by
    have some : split '\n' raw ≠ [] := by simp [split]
    exact ⟨_,_,(List.dropLast_append_getLast some).symm⟩
  obtain ⟨init,last,parts⟩ := last
  have filled : line ≠ "" := by
    rintro rfl
    simp [isKey] at counts
  have plain : isKey "" = false := by decide
  have one (clean : '\n' ∉ line.toList) : keyLines (raw ++ (line ++ "\n")) =
      (init.map trimSpace).filter isKey ++ [trimSpace (last ++ line)].filter isKey := by
    have cut : split '\n' (line ++ "\n") = [line,""] := by
      refine splitIff.mpr ⟨by simp,?_,?_⟩
      · simpa using clean
      · rw [joinTwo,String.append_empty]
        rfl
    have none : trimSpace "" = "" := by decide
    rw [keyLines,splitConcat parts cut,List.map_append,List.filter_append,List.map_cons,List.map_singleton,none,
      List.filter_cons,List.filter_cons_of_neg (by simp [plain]),List.filter_nil,List.filter_cons,List.filter_nil]
  have before : keyLines raw = (init.map trimSpace).filter isKey ++ [trimSpace last].filter isKey := by
    rw [keyLines,parts,List.map_append,List.filter_append,List.map_singleton]
  constructor
  · intro same
    have clean : '\n' ∉ line.toList := (keyLinesMem (same.symm ▸ List.mem_append_right _ List.mem_cons_self)).1
    refine ⟨?_,clean⟩
    intro final here
    rw [parts,List.getLast?_concat,Option.some.injEq] at here
    subst here
    rw [one clean,before,List.append_assoc,List.append_cancel_left_eq] at same
    by_contra solid
    by_cases key : isKey (trimSpace last) = true
    · have lengths := congrArg List.length same
      have short := List.length_filter_le isKey [trimSpace (last ++ line)]
      rw [List.filter_cons_of_pos key] at lengths
      simp at lengths short
      omega
    · have comment : hasPrefix (trimSpace last) "#" = true := by
        simpa [isKey,solid] using key
      have ends := (trimSpaceSolid line).2
      rw [trimmed] at ends
      have swallowed := commentSwallows comment ends filled
      rw [List.filter_cons_of_neg key,List.filter_cons_of_neg (by simp [isKey,swallowed])] at same
      simp at same
  · rintro ⟨ends,clean⟩
    have blank : trimSpace last = "" := ends last (by rw [parts,List.getLast?_concat])
    rw [one clean,before,trimBehindBlank blank,trimmed,blank]
    simp [counts,plain]

/- What is documented of the package: a text of one line holds one key, with a comment and options of
that line; comments and empty lines hold none; and a key is read back from the line that it is written in. -/
structure Documented (ssh : Ssh P) : Prop where
  inside : ∀ {text pub comment options}, ssh.ParseAuthorizedKey text = some (pub,comment,options) → '\n' ∉ text.toList →
    '\n' ∉ comment.toList ∧ ∀ o ∈ options, '\n' ∉ o.toList
  marshaled : ∀ pub, '\n' ∉ (trimSpace (ssh.MarshalAuthorizedKey pub)).toList
  empty : ssh.ParseAuthorizedKey "" = none
  comment : ∀ text, hasPrefix text "#" = true → '\n' ∉ text.toList → ssh.ParseAuthorizedKey text = none
  readBack : ∀ {text pub comment options}, ssh.ParseAuthorizedKey text = some (pub,comment,options) → '\n' ∉ text.toList →
    ∀ c, '\n' ∉ c.toList → ∃ other kept, ssh.ParseAuthorizedKey (keyLine ssh pub c options) = some (pub,other,kept)

/- The key that a request names. -/
def named (ssh : Ssh P) (key : String) : Option (P × String × List String) := (candidate key).bind ssh.ParseAuthorizedKey

/- The keys of the file are those before, and behind them the one that the request names. -/
def AddsOne (ssh : Ssh P) (file after : Option String) (key optionalComment : String) : Prop :=
  ∃ k pub, (named ssh key).map Prod.fst = some pub ∧ normalizeAuthorizedKeyLine ssh key optionalComment = .ok k.line ∧
    k.type = ssh.keyType pub ∧ k.fingerprint = ssh.FingerprintSHA256 pub ∧
    readAuthorizedKeys ssh (after.getD "") = readAuthorizedKeys ssh (file.getD "") ++ [k]

theorem candidateLine {text : String} (found : candidate key = some text) : '\n' ∉ text.toList := by
  obtain ⟨part,inside,rfl⟩ := List.mem_map.mp (List.mem_of_find?_eq_some found)
  exact fun broken => (splitMem inside).1 (trimBothMem broken)

theorem solidSuffix {x c : String} (solid : Solid c.toList) (filled : c ≠ "") :
    c.toList <:+ (trimSpace (x ++ c)).toList := by
  have some : c.toList ≠ [] := fun none => filled (String.toList_inj.mp none)
  have last : ∀ d, (x ++ c).toList.getLast? = Option.some d → isSpace d = false := by
    intro d here
    rw [String.toList_append,List.getLast?_append_of_ne_nil _ some] at here
    exact solid.2 d here
  have front : c.toList.dropWhile isSpace = c.toList := trimLeftEnds solid.1
  rw [trimSpaceBoth,trimBothLeft last,left,String.toList_ofList,String.toList_append,List.dropWhile_append]
  split
  · exact (congrArg (c.toList <:+ ·) front).mpr (List.suffix_refl _)
  · exact List.suffix_append _ _

theorem keyLineMem {pub : P} {c : String} {options : List String} {d : Char}
    (mem : d ∈ (keyLine ssh pub c options).toList) : d = ',' ∨ d = ' ' ∨ d ∈ c.toList ∨
      d ∈ (trimSpace (ssh.MarshalAuthorizedKey pub)).toList ∨ ∃ o ∈ options, d ∈ o.toList := by
  have inside := @trimBothMem isSpace _ _ mem
  have blank : (" " : String).toList = [' '] := rfl
  split at inside
  · rw [String.toList_append,String.toList_append,blank,List.mem_append,List.mem_append,List.mem_singleton] at inside
    rcases inside with (early | rfl) | late
    · rcases joinMem early with rfl | there
      · exact .inl rfl
      · exact .inr (.inr (.inr (.inr there)))
    · exact .inr (.inl rfl)
    · split at late
      · rw [String.toList_append,String.toList_append,blank,List.mem_append,List.mem_append,List.mem_singleton] at late
        rcases late with (key | rfl) | comment
        · exact .inr (.inr (.inr (.inl key)))
        · exact .inr (.inl rfl)
        · exact .inr (.inr (.inl comment))
      · exact .inr (.inr (.inr (.inl late)))
  · split at inside
    · rw [String.toList_append,String.toList_append,blank,List.mem_append,List.mem_append,List.mem_singleton] at inside
      rcases inside with (key | rfl) | comment
      · exact .inr (.inr (.inr (.inl key)))
      · exact .inr (.inl rfl)
      · exact .inr (.inr (.inl comment))
    · exact .inr (.inr (.inr (.inl inside)))

/- The line of a key ends with its comment. -/
theorem keyLineEnds {pub : P} {c : String} {options : List String} (solid : Solid c.toList) (filled : c ≠ "") :
    c.toList <:+ (keyLine ssh pub c options).toList := by
  unfold keyLine
  dsimp only
  rw [if_pos filled]
  split
  · rw [← String.append_assoc,← String.append_assoc]
    exact solidSuffix solid filled
  · exact solidSuffix solid filled

theorem lineKey (documented : Documented ssh) {text comment c : String} {pub : P} {options : List String}
    (parsed : ssh.ParseAuthorizedKey text = some (pub,comment,options)) (one : '\n' ∉ text.toList) (clean : '\n' ∉ c.toList) :
    '\n' ∉ (keyLine ssh pub c options).toList ∧ isKey (keyLine ssh pub c options) = true := by
  obtain ⟨_,optionLines⟩ := documented.inside parsed one
  have unbroken : '\n' ∉ (keyLine ssh pub c options).toList := by
    intro broken
    rcases keyLineMem broken with same | same | inside | inside | ⟨o,there,inside⟩
    · cases same
    · cases same
    · exact clean inside
    · exact documented.marshaled pub inside
    · exact optionLines o there inside
  obtain ⟨other,kept,back⟩ := documented.readBack parsed one c clean
  refine ⟨unbroken,?_⟩
  have filled : keyLine ssh pub c options ≠ "" := by
    intro empty
    rw [empty,documented.empty] at back
    cases back
  have bare : hasPrefix (keyLine ssh pub c options) "#" = false := by
    by_contra hash
    rw [documented.comment _ (Bool.not_eq_false _ ▸ hash) unbroken] at back
    cases back
  simp [isKey,filled,bare]

/- A request that succeeds has appended its line. -/
theorem addWrote (added : AddAuthorizedKey ssh h file key optionalComment = (after,.ok keys)) :
    ∃ line, normalizeAuthorizedKeyLine ssh key optionalComment = .ok line ∧
      after = some (file.getD "" ++ (line ++ "\n")) := by
  unfold AddAuthorizedKey at added
  split at added
  · cases added
  · split at added
    · cases added
    · rename_i line normal
      refine ⟨line,normal,?_⟩
      repeat' split at added
      all_goals try cases added
      rename_i whole
      have all : h.wrote = none := by simpa using whole
      have same := congrArg Prod.fst added
      simpa [KeyHost.written,all] using same.symm

end
/- An ed25519 key whose 32 bytes are zero, and a parser that knows this key only. -/
def zeroLine : String := "ssh-ed25519 AAAAC3NzaC1lZDI1NTE5AAAAIAAAAAAAAAAAAAAAAAAAAAAAAAAAAAAAAAAAAAAAAAAA"

def zeroParse (cs : List Char) : Option (List Char) :=
  match zeroLine.toList.isPrefixOf cs,cs.drop zeroLine.toList.length with
  | true,[] => some []
  | true,' ' :: comment => some comment
  | _,_ => none

def zeroSsh : Ssh Unit where
  ParseAuthorizedKey text := (zeroParse text.toList).map (fun comment => ((),String.ofList comment,[]))
  MarshalAuthorizedKey _ := zeroLine ++ "\n"
  keyType _ := "ssh-ed25519"
  FingerprintSHA256 _ := "SHA256:kmYcvdi2GkPeWxB6XLjrZB8JHsy2Hm8luHMFp9GMvqk"

theorem zeroChars : Solid zeroLine.toList ∧ '\n' ∉ zeroLine.toList ∧ '\x0d' ∉ zeroLine.toList ∧
    zeroLine.toList.head? = some 's' ∧ zeroLine ≠ "" := by
  have chars : zeroLine ≠ "" := by decide
  unfold zeroLine at *
  rw [String.toList_ofList]
  refine ⟨⟨?_,?_⟩,?_,?_,?_,chars⟩
  · intro c here
    cases here
    rfl
  · intro c here
    cases here
    rfl
  all_goals decide

theorem trimSolidFront {s : String} (solid : Solid s.toList) (filled : s ≠ "") (t : String) :
    ∃ r, r <+: t.toList ∧ (trimSpace (s ++ t)).toList = s.toList ++ r := by
  have some : s.toList ≠ [] := fun none => filled (String.toList_inj.mp none)
  have front : trimLeft (s ++ t).toList = (s ++ t).toList := by
    apply trimLeftEnds
    intro c here
    rw [String.toList_append,List.head?_append_of_ne_nil _ some] at here
    exact solid.1 c here
  have back : trimLeft s.toList.reverse = s.toList.reverse := by
    apply trimLeftEnds
    intro c here
    rw [List.head?_reverse] at here
    exact solid.2 c here
  refine ⟨(trimLeft t.toList.reverse).reverse,?_,?_⟩
  · rw [← List.reverse_suffix,List.reverse_reverse]
    exact List.dropWhile_suffix _
  · rw [trimSpace,String.toList_ofList,front,String.toList_append,List.reverse_append]
    unfold trimLeft at back ⊢
    rw [List.dropWhile_append]
    split
    · rename_i none
      rw [back,List.reverse_reverse,List.isEmpty_iff.mp none,List.reverse_nil,List.append_nil]
    · rw [List.reverse_append,List.reverse_reverse]

theorem zeroTrimmed : trimSpace zeroLine = zeroLine := trimSpaceEnds zeroChars.1

theorem zeroMarshaled : trimSpace (zeroLine ++ "\n") = zeroLine := by
  obtain ⟨solid,_,_,_,filled⟩ := zeroChars
  obtain ⟨r,short,whole⟩ := trimSolidFront solid filled "\n"
  apply String.toList_inj.mp
  have none : r = [] := by
    by_contra some
    have last := (trimSpaceSolid (zeroLine ++ "\n")).2
    rw [whole,List.getLast?_append_of_ne_nil _ some] at last
    have here := List.getLast?_eq_some_getLast some
    generalize r.getLast some = c at here
    have blank : c = '\n' := by simpa using short.subset (List.mem_of_getLast? here)
    rw [blank] at here
    cases last _ here
  rw [whole,none,List.append_nil]

theorem zeroKnown {cs rest : List Char} (shape : rest = [] ∨ rest.head? = some ' ') (whole : cs = zeroLine.toList ++ rest) :
    zeroParse cs = some (rest.drop 1) := by
  have front : zeroLine.toList.isPrefixOf (zeroLine.toList ++ rest) = true :=
    List.isPrefixOf_iff_prefix.mpr (List.prefix_append _ _)
  delta zeroParse
  rw [whole,front,List.drop_left]
  rcases shape with rfl | head
  · rfl
  · cases rest with
    | nil => rfl
    | cons c rest =>
      cases head
      rfl

theorem zeroRead {cs comment : List Char} (read : zeroParse cs = some comment) :
    ∃ rest, (rest = [] ∨ rest.head? = some ' ') ∧ cs = zeroLine.toList ++ rest ∧ comment = rest.drop 1 := by
  unfold zeroParse at read
  split at read
  · rename_i front behind
    refine ⟨[],.inl rfl,?_,?_⟩
    · obtain ⟨rest,rfl⟩ := List.isPrefixOf_iff_prefix.mp front
      rw [List.drop_left] at behind
      rw [behind]
    · cases read
      rfl
  · rename_i text front behind
    obtain ⟨rest,rfl⟩ := List.isPrefixOf_iff_prefix.mp front
    rw [List.drop_left] at behind
    cases read
    exact ⟨_,.inr rfl,by rw [behind],rfl⟩
  · cases read

theorem zeroKeyLine (c : String) : ∃ rest, (rest = [] ∨ rest.head? = some ' ') ∧
    (keyLine zeroSsh () c []).toList = zeroLine.toList ++ rest := by
  obtain ⟨solid,_,_,_,filled⟩ := zeroChars
  have line : keyLine zeroSsh () c [] = trimSpace (if c ≠ "" then zeroLine ++ " " ++ c else zeroLine) := by
    unfold keyLine zeroSsh
    dsimp only
    rw [zeroMarshaled,if_neg (by simp)]
  rw [line]
  split
  · obtain ⟨r,short,whole⟩ := trimSolidFront solid filled (" " ++ c)
    refine ⟨r,?_,by rw [String.append_assoc,whole]⟩
    cases r with
    | nil => exact .inl rfl
    | cons d r =>
      rw [String.toList_append] at short
      exact .inr (congrArg some (List.cons_prefix_cons.mp short).1)
  · exact ⟨[],.inl rfl,by rw [zeroTrimmed,List.append_nil]⟩

theorem zeroParsed {text : String} {comment : List Char} (read : zeroParse text.toList = some comment) :
    zeroSsh.ParseAuthorizedKey text = some ((),String.ofList comment,[]) := by
  unfold zeroSsh
  dsimp only
  rw [read,Option.map_some]

theorem zeroDocumented : Documented zeroSsh := by
  have parses {text : String} {pub : Unit} {comment : String} {options : List String}
      (parsed : zeroSsh.ParseAuthorizedKey text = some (pub,comment,options)) :
      options = [] ∧ zeroParse text.toList = some comment.toList := by
    obtain ⟨cs,read,same⟩ := Option.map_eq_some_iff.mp parsed
    cases same
    exact ⟨rfl,by rw [String.toList_ofList]; exact read⟩
  refine ⟨?_,?_,?_,?_,?_⟩
  · intro text pub comment options parsed one
    obtain ⟨rfl,read⟩ := parses parsed
    obtain ⟨rest,_,whole,behind⟩ := zeroRead read
    refine ⟨?_,by simp⟩
    intro broken
    rw [behind] at broken
    apply one
    rw [whole]
    exact List.mem_append_right _ (List.mem_of_mem_drop broken)
  · intro pub
    exact zeroMarshaled ▸ zeroChars.2.1
  · rfl
  · intro text hash one
    cases read : zeroParse text.toList with
    | none => simp [zeroSsh,read]
    | some comment =>
      obtain ⟨rest,_,whole,_⟩ := zeroRead read
      rw [hashHead,whole,List.head?_append,zeroChars.2.2.2.1] at hash
      cases hash
  · intro text pub comment options parsed one c clean
    obtain ⟨rfl,_⟩ := parses parsed
    obtain ⟨rest,shape,whole⟩ := zeroKeyLine c
    exact ⟨_,_,zeroParsed (zeroKnown shape whole)⟩

theorem candidateOne {line : String} (trimmed : trimSpace line = line) (counts : isKey line = true)
    (feed : '\n' ∉ line.toList) (carriage : '\x0d' ∉ line.toList) : candidate line = some line := by
  have feeds : ∀ cs : List Char, '\x0d' ∉ cs → lineFeeds cs = cs := by
    intro cs
    induction cs with
    | nil => intro _; rfl
    | cons c rest ih =>
      intro clean
      have first : c ≠ '\x0d' := fun same => clean (same ▸ List.mem_cons_self)
      rw [lineFeeds,ih (fun mem => clean (List.mem_cons_of_mem _ mem))]
      rintro _ rfl
      exact absurd rfl first
  have kept : replaceAll '\x0d' '\n' line = line := by
    apply replaceAllSelf
    rintro c mem rfl
    exact carriage mem
  have parts : split '\n' line = [line] := splitIff.mpr ⟨by simp,by simpa using feed,joinOne line⟩
  rw [candidate,trimmed,feeds _ carriage,String.ofList_toList,kept,parts,List.map_singleton,trimmed,List.find?_cons_of_pos counts]

theorem zeroCounts : isKey zeroLine = true := by
  obtain ⟨_,_,_,head,filled⟩ := zeroChars
  have bare : hasPrefix zeroLine "#" = false := by
    by_contra hash
    have mark := hashHead.mp (Bool.not_eq_false _ ▸ hash)
    rw [head] at mark
    cases mark
  simp [isKey,bare,filled]

theorem zeroKept : keyLine zeroSsh () "" [] = zeroLine := by
  unfold keyLine zeroSsh
  dsimp only
  rw [zeroMarshaled,if_neg (by simp),if_neg (by simp),zeroTrimmed]

theorem zeroGiven : zeroSsh.ParseAuthorizedKey zeroLine = some ((),"",[]) :=
  zeroParsed (zeroKnown (.inl rfl) (List.append_nil _).symm)

theorem normalOf {P : Type} {ssh : Ssh P} {key optionalComment text comment : String} {pub : P} {options : List String}
    (found : candidate key = some text) (parsed : ssh.ParseAuthorizedKey text = some (pub,comment,options)) :
    normalizeAuthorizedKeyLine ssh key optionalComment =
      .ok (keyLine ssh pub (if trimSpace optionalComment ≠ "" then trimSpace optionalComment else comment) options) := by
  delta normalizeAuthorizedKeyLine
  rw [found]
  dsimp only
  rw [parsed]

theorem zeroNormal : normalizeAuthorizedKeyLine zeroSsh zeroLine "" = .ok zeroLine := by
  obtain ⟨_,feed,carriage,_,_⟩ := zeroChars
  have blank : trimSpace "" = "" := by decide
  rw [normalOf (candidateOne zeroTrimmed zeroCounts feed carriage) zeroGiven,blank,if_neg (by simp),zeroKept]

theorem zeroAdded {file : Option String} (bare : keyLines (file.getD "") = []) :
    AddAuthorizedKey zeroSsh {} file zeroLine "" = (some (file.getD "" ++ (zeroLine ++ "\n")),
      .ok (readAuthorizedKeys zeroSsh (file.getD "" ++ (zeroLine ++ "\n")))) := by
  have none : authorized zeroSsh (readAuthorizedKeys zeroSsh (file.getD "")) zeroLine = false := by
    rw [readAuthorizedKeys,bare]
    rfl
  have written : KeyHost.written {} (zeroLine ++ "\n") = zeroLine ++ "\n" := rfl
  unfold AddAuthorizedKey
  rw [zeroNormal]
  simp [none,written,SSHKeys]

end ContainerWS.LinuxUser
