import Mathlib.Data.List.TakeWhile

/-! The tokens of an XPath 1.0 expression. A literal has no escapes: it is what stands between
two quotes of one kind. -/
namespace XPath

inductive Token where
  | sign (text : List Char)
  | name (text : List Char)
  | number (text : List Char)
  | literal (text : List Char)
  deriving DecidableEq

/- What has been read of a token. -/
inductive Mode where
  | start
  | pending (c : Char)
  | word (read : List Char)
  | digits (read : List Char)
  | quoted (mark : Char) (read : List Char)
  deriving DecidableEq

def space (c : Char) : Bool := c = ' ' || c = '\t' || c = '\n' || c = '\r'

def digit (c : Char) : Bool := '0' ≤ c && c ≤ '9'

/- `NameStartChar` of XML, without the colon. -/
def nameStart (c : Char) : Bool :=
  let n := c.toNat
  ('a' ≤ c && c ≤ 'z') || ('A' ≤ c && c ≤ 'Z') || c = '_' || (0xC0 ≤ n && n ≤ 0xD6) || (0xD8 ≤ n && n ≤ 0xF6) ||
  (0xF8 ≤ n && n ≤ 0x2FF) || (0x370 ≤ n && n ≤ 0x37D) || (0x37F ≤ n && n ≤ 0x1FFF) || n = 0x200C || n = 0x200D ||
  (0x2070 ≤ n && n ≤ 0x218F) || (0x2C00 ≤ n && n ≤ 0x2FEF) || (0x3001 ≤ n && n ≤ 0xD7FF) || (0xF900 ≤ n && n ≤ 0xFDCF) ||
  (0xFDF0 ≤ n && n ≤ 0xFFFD) || (0x10000 ≤ n && n ≤ 0xEFFFF)

def nameChar (c : Char) : Bool :=
  let n := c.toNat
  nameStart c || digit c || c = '-' || c = '.' || n = 0xB7 || (0x300 ≤ n && n ≤ 0x36F) || n = 0x203F || n = 0x2040

def pairs : List (List Char) := [['/','/'],['.','.'],[':',':'],['!','='],['<','='],['>','=']]

def begins : List Char := ['/','.',':','!','<','>']

def singles : List Char := ['(',')','[',']','@',',','|','+','-','=','*','$']

/- The first character of a token. -/
def first (c : Char) : Option (Mode × List Token) :=
  if space c then some (.start,[])
  else if c = '"' ∨ c = '\'' then some (.quoted c [],[])
  else if begins.contains c then some (.pending c,[])
  else if singles.contains c then some (.start,[.sign [c]])
  else if digit c then some (.digits [c],[])
  else if nameStart c then some (.word [c],[])
  else none

/- The tokens that one character ends. -/
def step : Mode → Char → Option (Mode × List Token)
  | .start,c => first c
  | .pending p,c =>
    if pairs.contains [p,c] then some (.start,[.sign [p,c]])
    else if p = '!' then none
    else if p = '.' ∧ digit c then some (.digits [c,p],[])
    else (first c).map fun next => (next.1,.sign [p] :: next.2)
  | .word read,c => if nameChar c then some (.word (c :: read),[]) else (first c).map fun next => (next.1,.name read.reverse :: next.2)
  | .digits read,c =>
    if digit c ∨ (c = '.' ∧ '.' ∉ read) then some (.digits (c :: read),[])
    else (first c).map fun next => (next.1,.number read.reverse :: next.2)
  | .quoted mark read,c => some (if c = mark then (.start,[.literal read.reverse]) else (.quoted mark (c :: read),[]))

def finish : Mode → Option (List Token)
  | .start => some []
  | .pending p => if p = '!' then none else some [.sign [p]]
  | .word read => some [.name read.reverse]
  | .digits read => some [.number read.reverse]
  | .quoted _ _ => none

def lex : Mode → List Char → Option (List Token)
  | m,[] => finish m
  | m,c :: cs => (step m c).bind fun next => (lex next.1 cs).map (next.2 ++ ·)

def tokens (text : String) : Option (List Token) := lex .start text.toList

/- Behind a quote a literal goes on to the next quote of its kind. -/
theorem lexQuoted (mark : Char) (read body : List Char) (free : mark ∉ body) (rest : List Char) :
    lex (.quoted mark read) (body ++ mark :: rest) = (lex .start rest).map (.literal (read.reverse ++ body) :: ·) := by
  induction body generalizing read with
  | nil => simp [lex,step]
  | cons c body ih =>
    obtain ⟨other,more⟩ := not_or.mp (List.mem_cons.not.mp free)
    have here : step (.quoted mark read) c = some (.quoted mark (c :: read),[]) := by
      rw [step,if_neg (Ne.symm other)]
    rw [List.cons_append,lex,here,Option.bind_some,ih (c :: read) more,Option.map_map,List.reverse_cons,List.append_assoc]
    rfl

/- Where no quote follows there is no expression. -/
theorem lexOpen (mark : Char) (read body : List Char) (free : mark ∉ body) : lex (.quoted mark read) body = none := by
  induction body generalizing read with
  | nil => rfl
  | cons c body ih =>
    obtain ⟨other,more⟩ := not_or.mp (List.mem_cons.not.mp free)
    have here : step (.quoted mark read) c = some (.quoted mark (c :: read),[]) := by
      rw [step,if_neg (Ne.symm other)]
    rw [lex,here,Option.bind_some,ih (c :: read) more]
    rfl

/- The literal that a quote begins is free of it. -/
theorem literalFree {mark : Char} {cs text : List Char} {more : List Token}
    (read : lex (.quoted mark []) cs = some (.literal text :: more)) : mark ∉ text := by
  by_cases closed : mark ∈ cs
  · obtain ⟨body,rest,rfl,free⟩ := List.eq_append_cons_of_mem closed
    rw [lexQuoted mark [] body free] at read
    obtain ⟨tail,_,same⟩ := Option.map_eq_some_iff.mp read
    have here : body = text := Token.literal.inj (List.cons.inj same).1
    exact here ▸ free
  · rw [lexOpen mark [] cs closed] at read
    cases read

/- The tokens that a part of an expression ends, and what it leaves open. -/
def run : Mode → List Char → Option (Mode × List Token)
  | m,[] => some (m,[])
  | m,c :: cs => (step m c).bind fun next => (run next.1 cs).map fun r => (r.1,next.2 ++ r.2)

theorem lexAppend (m : Mode) (cs rest : List Char) :
    lex m (cs ++ rest) = (run m cs).bind fun r => (lex r.1 rest).map (r.2 ++ ·) := by
  induction cs generalizing m with
  | nil => simp [run]
  | cons c cs ih =>
    rw [List.cons_append,lex,run]
    cases step m c with
    | none => rfl
    | some next =>
      rw [Option.bind_some,Option.bind_some,ih]
      cases run next.1 cs with
      | none => rfl
      | some r =>
        rw [Option.bind_some,Option.map_some,Option.bind_some,Option.map_map]
        congr 1
        funext ts
        exact (List.append_assoc _ _ _).symm

end XPath
