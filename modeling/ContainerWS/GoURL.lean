import ContainerWS.GoClean

/-! The part of Go's `net/url` that writes a URL: how the characters of a path are escaped,
and which text of a path a URL keeps. Parts that are only copied are there as they are written. -/
namespace GoURL
open GoStrings GoPath

/- The UTF-8 of a text. -/
def bytes (cs : List Char) : List UInt8 := cs.flatMap String.utf8EncodeChar

def upperhex : List Char := ['0','1','2','3','4','5','6','7','8','9','A','B','C','D','E','F']

def hexDigit (n : Nat) : Char := upperhex.getD n '0'

def percent (b : UInt8) : List Char := ['%',hexDigit (b.toNat / 16),hexDigit (b.toNat % 16)]

/- One character under `escape`, where some stay. -/
def escapeChar (keeps : Char → Bool) (c : Char) : List Char :=
  if keeps c then [c] else (String.utf8EncodeChar c).flatMap percent

def escape (keeps : Char → Bool) (s : String) : String := String.ofList (s.toList.flatMap (escapeChar keeps))

/- Letters, digits and the unreserved marks. -/
def unreserved (c : Char) : Bool :=
  ('a' ≤ c && c ≤ 'z') || ('A' ≤ c && c ≤ 'Z') || ('0' ≤ c && c ≤ '9') || c = '-' || c = '_' || c = '.' || c = '~'

/- What `encodePath` leaves. -/
def keepsPath (c : Char) : Bool := unreserved c || ['$','&','+',',','/',':',';','=','@'].contains c

def unhex (c : Char) : Option Nat :=
  if '0' ≤ c ∧ c ≤ '9' then some (c.toNat- '0'.toNat)
  else if 'a' ≤ c ∧ c ≤ 'f' then some (c.toNat- 'a'.toNat+10)
  else if 'A' ≤ c ∧ c ≤ 'F' then some (c.toNat- 'A'.toNat+10)
  else none

/- `unescape` of a path, as bytes. -/
def unescape : List Char → Option (List UInt8)
  | [] => some []
  | '%' :: a :: b :: rest =>
    match unhex a, unhex b with
    | some x, some y => (unescape rest).map (UInt8.ofNat (16*x+y) :: ·)
    | _, _ => none
  | c :: rest => if c = '%' then none else (unescape rest).map (String.utf8EncodeChar c ++ ·)

/- `validEncoded` of a path. -/
def validEncoded (s : String) : Bool :=
  s.toList.all (fun c => keepsPath c || ['!','\x27','(',')','*','[',']','%'].contains c)

/- User, host and fragment as they are written. -/
structure URL where
  scheme : String
  opaque_ : String
  user : Option String
  host : String
  path : String
  rawPath : String
  omitHost : Bool
  forceQuery : Bool
  rawQuery : String
  fragment : String
  deriving DecidableEq, Repr

/- The path in a text that stands for it. -/
def URL.Encoded (u : URL) : Prop := unescape u.rawPath.toList = some (bytes u.path.toList)

instance (u : URL) : Decidable u.Encoded := inferInstanceAs (Decidable (_ = _))

/- What `Parse` gives: a second text of the path is one of that path, and begins behind a
host with a separator. -/
structure Parsed extends URL where
  settled : rawPath = "" ∨ toURL.Encoded
  hosted : host ≠ "" → rawPath = "" ∨ hasPrefix rawPath "/" = true

def URL.EscapedPath (u : URL) : String :=
  if u.rawPath ≠ "" ∧ validEncoded u.rawPath = true ∧ u.Encoded then u.rawPath
  else if u.path = "*" then "*"
  else escape keepsPath u.path

def URL.authority (u : URL) : String :=
  if u.scheme = "" ∧ u.host = "" ∧ u.user = none then ""
  else if u.omitHost = true ∧ u.host = "" ∧ u.user = none then ""
  else (if u.host ≠ "" ∨ u.path ≠ "" ∨ u.user ≠ none then "//" else "") ++ ((u.user.map (· ++ "@")).getD "") ++ u.host

/- What stands before the path. -/
def URL.front (u : URL) : String := (if u.scheme = "" then "" else u.scheme ++ ":") ++ (if u.opaque_ = "" then u.authority else u.opaque_)

/- A path after a host is rooted, and a colon in its first part is no scheme. -/
def URL.spelledPath (u : URL) : String :=
  if u.EscapedPath ≠ "" ∧ hasPrefix u.EscapedPath "/" = false ∧ u.host ≠ "" then "/" ++ u.EscapedPath
  else if u.front = "" ∧ ':' ∈ (before '/' u.EscapedPath).toList then "./" ++ u.EscapedPath
  else u.EscapedPath

/- The path, unless the URL is opaque. -/
def URL.shownPath (u : URL) : Option String := if u.opaque_ = "" then some u.spelledPath else none

def URL.back (u : URL) : String :=
  (if u.forceQuery = true ∨ u.rawQuery ≠ "" then "?" ++ u.rawQuery else "") ++ (if u.fragment = "" then "" else "#" ++ u.fragment)

def URL.String (u : URL) : String := u.front ++ u.shownPath.getD "" ++ u.back

theorem bytesInj {s t : String} (same : bytes s.toList = bytes t.toList) : s = t := by
  apply String.toByteArray_inj.mp
  rw [← String.utf8Encode_toList,← String.utf8Encode_toList,List.utf8Encode,List.utf8Encode]
  exact congrArg List.toByteArray same

theorem hexDigitBack : ∀ n : Nat, n < 16 → unhex (hexDigit n) = some n
  | 0,_ | 1,_ | 2,_ | 3,_ | 4,_ | 5,_ | 6,_ | 7,_ | 8,_ | 9,_ | 10,_ | 11,_ | 12,_ | 13,_ | 14,_ | 15,_ => by decide
  | _+16,big => absurd big (by omega)

/- Digits and capital letters stand for a byte. -/
theorem hexKept : ∀ n : Nat, unreserved (hexDigit n) = true
  | 0 | 1 | 2 | 3 | 4 | 5 | 6 | 7 | 8 | 9 | 10 | 11 | 12 | 13 | 14 | 15 => by decide
  | n+16 => by
    have none : hexDigit (n+16) = '0' := by
      rw [hexDigit,List.getD_eq_getElem?_getD,List.getElem?_eq_none (by simp [upperhex])]
      rfl
    rw [none]
    decide

theorem unescapePercent (b : UInt8) (rest : List Char) : unescape (percent b ++ rest) = (unescape rest).map (b :: ·) := by
  have small : b.toNat < 256 := UInt8.toNat_lt_size b
  show unescape ('%' :: hexDigit (b.toNat / 16) :: hexDigit (b.toNat % 16) :: rest) = _
  rw [unescape,hexDigitBack _ (by omega),hexDigitBack _ (by omega)]
  dsimp only
  rw [show 16*(b.toNat / 16)+b.toNat % 16 = b.toNat by omega,UInt8.ofNat_toNat]

theorem unescapePercents (bs : List UInt8) (rest : List Char) :
    unescape (bs.flatMap percent ++ rest) = (unescape rest).map (bs ++ ·) := by
  induction bs with
  | nil => simp
  | cons b bs ih =>
    rw [List.flatMap_cons,List.append_assoc,unescapePercent,ih,Option.map_map]
    rfl

theorem unescapePlain {c : Char} (plain : c ≠ '%') (rest : List Char) :
    unescape (c :: rest) = (unescape rest).map (String.utf8EncodeChar c ++ ·) := by
  rw [unescape.eq_def]
  split
  · contradiction
  · rename_i same
    cases same
    contradiction
  · rename_i same
    cases same
    exact if_neg plain

/- What has been escaped is read back. -/
theorem unescapeEscaped {keeps : Char → Bool} (plain : ∀ c, keeps c = true → c ≠ '%') (cs rest : List Char) :
    unescape (cs.flatMap (escapeChar keeps) ++ rest) = (unescape rest).map (bytes cs ++ ·) := by
  induction cs with
  | nil => simp [bytes]
  | cons c cs ih =>
    rw [List.flatMap_cons,List.append_assoc,bytes,List.flatMap_cons]
    by_cases kept : keeps c = true
    · have stays : escapeChar keeps c = [c] := if_pos kept
      rw [stays,List.singleton_append,unescapePlain (plain c kept),ih,Option.map_map]
      congr 1
      funext bs
      simp [bytes]
    · have turns : escapeChar keeps c = (String.utf8EncodeChar c).flatMap percent := if_neg kept
      rw [turns,unescapePercents,ih,Option.map_map]
      congr 1
      funext bs
      simp [bytes]

theorem unescapeEscape {keeps : Char → Bool} (plain : ∀ c, keeps c = true → c ≠ '%') (s : String) :
    unescape (escape keeps s).toList = some (bytes s.toList) := by
  have whole := unescapeEscaped plain s.toList []
  rw [List.append_nil] at whole
  rw [escape,String.toList_ofList,whole]
  simp [unescape]

theorem escapeInj {keeps : Char → Bool} (plain : ∀ c, keeps c = true → c ≠ '%') {s t : String}
    (same : escape keeps s = escape keeps t) : s = t := by
  apply bytesInj
  have both := unescapeEscape plain s
  rw [same,unescapeEscape plain t] at both
  exact (Option.some.inj both).symm

theorem escapeAppend (keeps : Char → Bool) (s t : String) : escape keeps (s ++ t) = escape keeps s ++ escape keeps t := by
  apply String.toList_inj.mp
  simp [escape]

/- Only kept characters stay as they are. -/
theorem escapeSelf {keeps : Char → Bool} {s : String} : escape keeps s = s ↔ ∀ c ∈ s.toList, keeps c = true := by
  have long (c : Char) : keeps c = false → 1 < (escapeChar keeps c).length := by
    intro turned
    unfold escapeChar
    rw [turned,if_neg (by simp)]
    obtain ⟨b,bs,shape⟩ := List.exists_cons_of_ne_nil (String.utf8EncodeChar_ne_nil (c := c))
    rw [shape]
    simp [percent]
  have least (cs : List Char) : cs.length ≤ (cs.flatMap (escapeChar keeps)).length := by
    induction cs with
    | nil => exact Nat.le_refl 0
    | cons c cs ih =>
      rw [List.flatMap_cons,List.length_append,List.length_cons]
      cases kept : keeps c with
      | true =>
        rw [escapeChar,kept,if_pos rfl,List.length_singleton]
        omega
      | false =>
        have more := long c kept
        omega
  have chars (cs : List Char) : cs.flatMap (escapeChar keeps) = cs ↔ ∀ c ∈ cs, keeps c = true := by
    induction cs with
    | nil => simp
    | cons c cs ih =>
      rw [List.flatMap_cons,List.forall_mem_cons,← ih]
      cases kept : keeps c with
      | true => simp [escapeChar,kept]
      | false =>
        refine iff_of_false ?_ (by simp)
        intro same
        have more := long c kept
        have rest := least cs
        have count := congrArg List.length same
        rw [List.length_append,List.length_cons] at count
        omega
  rw [← chars,escape,← String.toList_inj,String.toList_ofList]

section Paths
variable {keeps : Char → Bool}

theorem escapeJoined (slash : keeps '/' = true) : ∀ parts : List Name, escape keeps (joined parts) = joined (parts.map (escape keeps))
  | [] => by
    apply String.toList_inj.mp
    simp [escape,joined]
  | [n] => by rw [joinedOne,List.map_singleton,joinedOne]
  | n :: m :: rest => by
    have mark : escape keeps "/" = "/" := escapeSelf.mpr (by simpa using slash)
    rw [joinedCons n (by simp),escapeAppend,escapeAppend,mark,escapeJoined slash (m :: rest)]
    exact (joinedCons (escape keeps n) (by simp)).symm

theorem renderJoined (p : Path) : render p = "/" ++ joined p := by
  apply String.toList_inj.mp
  simp [render,joined]

theorem escapeRender (slash : keeps '/' = true) (p : Path) : escape keeps (render p) = render (p.map (escape keeps)) := by
  have mark : escape keeps "/" = "/" := escapeSelf.mpr (by simpa using slash)
  rw [renderJoined,renderJoined,escapeAppend,mark,escapeJoined slash]

/- Escaping brings no separator. -/
theorem escapeOne {n : Name} (one : '/' ∉ n.toList) : '/' ∉ (escape keeps n).toList := by
  rw [escape,String.toList_ofList]
  intro mem
  obtain ⟨c,inside,here⟩ := List.mem_flatMap.mp mem
  unfold escapeChar at here
  split at here
  · rw [List.mem_singleton] at here
    exact one (here ▸ inside)
  · obtain ⟨b,_,digit⟩ := List.mem_flatMap.mp here
    simp only [percent,List.mem_cons,List.not_mem_nil,or_false] at digit
    have other (n : Nat) : '/' ≠ hexDigit n := by
      intro same
      have kept := hexKept n
      rw [← same] at kept
      revert kept
      decide
    rcases digit with first | second | third
    · cases first
    · exact other _ second
    · exact other _ third

end Paths

theorem keepsPlain {c : Char} (kept : keepsPath c = true) : c ≠ '%' := by
  rintro rfl
  revert kept
  decide

/- Only the empty text stands for nothing. -/
theorem unescapeNone {cs : List Char} (read : unescape cs = some []) : cs = [] := by
  rw [unescape.eq_def] at read
  split at read
  · rfl
  · split at read
    · obtain ⟨bs,_,same⟩ := Option.map_eq_some_iff.mp read
      cases same
    · cases read
  · split at read
    · cases read
    · obtain ⟨bs,_,same⟩ := Option.map_eq_some_iff.mp read
      exact absurd (List.append_eq_nil_iff.mp same).1 String.utf8EncodeChar_ne_nil

end GoURL
