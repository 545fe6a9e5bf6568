import ContainerWS.GoQuote
import ContainerWS.TextRows
import ContainerWS.XPath

/-! How an element of a page is named, modules/mcp/tools/browser/selectors.go: parseTarget, and the XPath
expression that it writes for a text. -/
namespace ContainerWS.Mcp
open GoStrings GoQuote TextRows

inductive TargetKind where
  | css | xpath | ref | role | label | placeholder
  deriving DecidableEq

/- The queries of chromedp. -/
inductive QueryOption where
  | ByQuery | BySearch
  deriving DecidableEq

structure Target where
  kind : TargetKind
  value : String
  name : String
  exact : Bool
  nth : Int
  queryBy : Option QueryOption
  selector : String
  deriving DecidableEq

/- Case folding of the letters in a class: two characters beyond ASCII fold to one of them. -/
def roleChar (c : Char) : Bool :=
  ('a' ≤ c && c ≤ 'z') || ('A' ≤ c && c ≤ 'Z') || ('0' ≤ c && c ≤ '9') || c = '_' || c = '-' || c = '\u017F' || c = '\u212A'

/- A text that begins with ASCII letters, in either case. -/
def foldPrefix (start cs : List Char) : Option (List Char) :=
  if (cs.take start.length).map Char.toLower = start then some (cs.drop start.length) else none

/- What stands before an end that is the end of the text. -/
def upTo (ending cs : List Char) : Option (List Char) :=
  if ending <:+ cs then some (cs.take (cs.length-ending.length)) else none

/- The text in the brackets: in quotes of one kind, else as it is. -/
def roleName (cs : List Char) : Option (String × String × String) :=
  let quoted (mark : Char) : Option (List Char) :=
    if cs.head? = some mark then (upTo [mark,']'] (cs.drop 1)).filter (fun body => !body.contains mark) else none
  match quoted '"', quoted '\'', (upTo [']'] cs).filter (fun body => !body.isEmpty && !body.contains ']') with
  | some body,_,_ => some (String.ofList body,"","")
  | none,some body,_ => some ("",String.ofList body,"")
  | none,none,some body => some ("","",String.ofList body)
  | none,none,none => none

/- The submatches of `(?i)^role=([a-z0-9_-]+)(?:\[name=(?:"([^"]*)"|'([^']*)'|([^\]]+))\])?$`. -/
def roleNameRe (raw : String) : Option (String × String × String × String) := do
  let cs ← foldPrefix "role=".toList raw.toList
  let role := String.ofList (cs.takeWhile roleChar)
  if role = "" then none
  else if cs.dropWhile roleChar = [] then some (role,"","","")
  else
    let inside ← foldPrefix "[name=".toList (cs.dropWhile roleChar)
    let name ← roleName inside
    some (role,name)

variable (m : CaseMap) (t : PrintTable)

/- A selector behind its key. -/
def behind (key raw : String) : String := trimSpace (String.ofList (raw.toList.drop key.length))

def keyed (key raw : String) : Bool := hasPrefix (m.toLower raw) key

/- The format of the expression, around the text. -/
def textFront : String := "//*[contains(normalize-space(.), "

def textBack : String := ")]"

def textSelector (text : String) : String := textFront ++ Quote t text ++ textBack

def parseTarget (raw : String) : Except String Target :=
  let raw := trimSpace raw
  if raw = "" then .error "selector is required"
  else if keyed m "ref=" raw then
    let ref := behind "ref=" raw
    if ref = "" then .error "ref= requires an id from browser_a11y_snapshot (e.g. ref=e3)"
    else .ok ⟨.ref,ref,"",false,-1,none,""⟩
  else if keyed m "role=" raw then
    match roleNameRe raw with
    | none => .error ("invalid role selector " ++ Quote t raw ++ " (use role=button or role=button[name=\"Sign in\"])")
    | some (role,double,single,bare) =>
      let name := if double ≠ "" then double else if single ≠ "" then single else trimSpace bare
      .ok ⟨.role,m.toLower role,name,false,-1,none,""⟩
  else if keyed m "label=" raw then .ok ⟨.label,behind "label=" raw,"",false,-1,none,""⟩
  else if keyed m "placeholder=" raw then .ok ⟨.placeholder,behind "placeholder=" raw,"",false,-1,none,""⟩
  else if keyed m "xpath=" raw then .ok ⟨.xpath,"","",false,-1,some .BySearch,behind "xpath=" raw⟩
  else if keyed m "text=" raw then
    let text := behind "text=" raw
    .ok ⟨.xpath,text,"",false,-1,some .BySearch,textSelector t text⟩
  else if hasPrefix raw "//" || hasPrefix raw "(//" then .ok ⟨.xpath,"","",false,-1,some .BySearch,raw⟩
  else .ok ⟨.css,"","",false,-1,some .ByQuery,raw⟩

open XPath (Token)

/- What stands before the literal. -/
def opening : List Token :=
  [.sign "//".toList,.sign ['*'],.sign ['['],.name "contains".toList,.sign ['('],.name "normalize-space".toList,.sign ['('],
    .sign ['.'],.sign [')'],.sign [',']]

/- The tokens of `//*[contains(normalize-space(.), L)]`. -/
def containsText (text : List Char) : List Token := opening ++ [.literal text,.sign [')'],.sign [']']]

theorem openingRead : XPath.run .start (textFront.toList ++ ['"']) = some (.quoted '"' [],opening) := by decide +kernel

theorem closingRead : XPath.lex .start textBack.toList = some [.sign [')'],.sign [']']] := by decide +kernel

theorem selectorTokens (text : String) : XPath.tokens (textSelector t text) =
    (XPath.lex (.quoted '"' []) (text.toList.flatMap (escape t) ++ '"' :: textBack.toList)).map (opening ++ ·) := by
  have shape : (textSelector t text).toList =
      (textFront.toList ++ ['"']) ++ (text.toList.flatMap (escape t) ++ '"' :: textBack.toList) := by
    simp only [textSelector,Quote,String.toList_append,String.toList_ofList,List.append_assoc,List.cons_append,List.nil_append]
  rw [XPath.tokens,shape,XPath.lexAppend,openingRead,Option.bind_some]

/- The expression has the text as its literal if and only if every character stays in the quotes. -/
theorem selectorIff (text : String) : XPath.tokens (textSelector t text) = some (containsText text.toList) ↔ ∀ c ∈ text.toList, Plain t c := by
  have parts : containsText text.toList = opening ++ [.literal text.toList,.sign [')'],.sign [']']] := rfl
  rw [selectorTokens,parts,← escapesSelf]
  constructor
  · intro read
    obtain ⟨more,literal,same⟩ := Option.map_eq_some_iff.mp read
    rw [List.append_cancel_left_eq] at same
    rw [same] at literal
    have free := XPath.literalFree literal
    -- a text without a double quote is escaped without one, so the literal is all of it
    have whole : '"' ∉ text.toList.flatMap (escape t) := by
      intro mem
      obtain ⟨c,inside,here⟩ := List.mem_flatMap.mp mem
      exact free (escapeQuote here ▸ inside)
    rw [XPath.lexQuoted '"' [] _ whole,closingRead] at literal
    exact XPath.Token.literal.inj (List.cons.inj (Option.some.inj literal)).1
  · intro same
    have free : '"' ∉ text.toList := by
      intro mem
      exact (escapesSelf.mp same '"' mem).2.1 rfl
    rw [same,XPath.lexQuoted '"' [] _ free,closingRead]
    rfl

/- Behind the key of a text no other key is found. -/
theorem textKeyed (m : LowerMap) (rest : List Char) (key : String) :
    keyed m.toCaseMap key (String.ofList ("text".toList ++ '=' :: rest)) = key.toList.isPrefixOf ("text=".toList ++ rest.map m.lower) := by
  have letters : ("text".toList ++ ['=']).map m.lower = "text=".toList := by
    have small : ∀ c ∈ "text".toList ++ ['='], m.lower c = c.toLower := by
      intro c mem
      exact m.onAscii c (of_decide_eq_true (List.all_eq_true.mp
        (by decide : ("text".toList ++ ['=']).all fun c => c.toNat < 128) c mem))
    rw [List.map_congr_left small]
    decide
  have shape : ("text".toList ++ '=' :: rest) = ("text".toList ++ ['=']) ++ rest := by simp
  rw [keyed,hasPrefix,CaseMap.toLower,String.toList_ofList,String.toList_ofList,shape,List.map_append,letters]

/- A text selector is one for the trimmed text. -/
theorem textParsed (m : LowerMap) (text : String) : parseTarget m.toCaseMap t ("text=" ++ text) =
    .ok ⟨.xpath,trimSpace text,"",false,-1,some .BySearch,textSelector t (trimSpace text)⟩ := by
  have trimmed : trimSpace ("text=" ++ text) = String.ofList ("text".toList ++ '=' :: trimEnd isSpace text.toList) := by
    have shape : "text=" ++ text = String.ofList ("text".toList ++ '=' :: text.toList) := by
      apply String.toList_inj.mp
      simp
    rw [trimSpaceBoth,shape]
    refine trimBothFront (by decide) (by decide) fun c here => ?_
    rw [← Option.some.inj (show some 't' = some c from here)]
    decide
  have same : trimSpace (String.ofList (trimEnd isSpace text.toList)) = trimSpace text := by
    rw [trimSpaceBoth,trimBothEnd,String.ofList_toList,trimSpaceBoth]
  generalize trimEnd isSpace text.toList = rest at trimmed same
  have filled : String.ofList ("text".toList ++ '=' :: rest) ≠ "" := by
    intro empty
    have chars := congrArg String.toList empty
    rw [String.toList_ofList] at chars
    simp at chars
  have cut : behind "text=" (String.ofList ("text".toList ++ '=' :: rest)) = trimSpace text := by
    rw [behind,String.toList_ofList,← same]
    rfl
  unfold parseTarget
  dsimp only
  rw [trimmed]
  simp only [textKeyed m rest]
  rw [if_neg filled,if_neg (by simp),if_neg (by simp),if_neg (by simp),if_neg (by simp),if_neg (by simp),if_pos (by simp),cut]

/- The expression for a text is the one that is meant if and only if each character of the trimmed text is printable
and neither a quote nor a backslash. -/
theorem textIff : ∀ (m : LowerMap) (t : PrintTable) (text : String),
    (∃ target, parseTarget m.toCaseMap t ("text=" ++ text) = .ok target ∧ target.kind = .xpath ∧
      XPath.tokens target.selector = some (containsText (trimSpace text).toList)) ↔ ∀ c ∈ (trimSpace text).toList, Plain t c := by
  intro m t text
  rw [textParsed,← selectorIff]
  constructor
  · rintro ⟨target,same,_,read⟩
    cases same
    exact read
  · exact fun read => ⟨_,rfl,rfl,read⟩

def asciiPrint : PrintTable := ⟨fun c => decide (32 ≤ c.toNat) && decide (c.toNat < 127),fun _ _ => rfl⟩

/- The selector of a text, and the tokens of it. -/
def textTokens (raw : String) : Option (List Token) :=
  match parseTarget ascii asciiPrint raw with
  | .ok target => XPath.tokens target.selector
  | .error _ => none

/- A quote ends the literal at a backslash, and a backslash is looked for twice. -/
theorem quotesEscaped : textTokens "text=say \"hi\"" = none ∧
    textTokens "text=C:\\dir" = some (containsText "C:\\\\dir".toList) ∧
    containsText "C:\\\\dir".toList ≠ containsText "C:\\dir".toList ∧
    textTokens "text=Sign in" = some (containsText "Sign in".toList) := by
  decide +kernel

end ContainerWS.Mcp
