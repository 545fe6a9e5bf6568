import Mathlib.Data.List.Infix
import Mathlib.Data.String.Basic

/-! `filepath.Match` over valid UTF-8 text, and patterns in which two stars stand for any number of directories. -/
namespace GoGlob

/- A character of a range, with what follows it. Nothing is read of a malformed pattern, here and below. -/
def getEsc : List Char → Option (Char × List Char)
  | [] => none
  | c :: rest =>
    if c = '-' ∨ c = ']' then none
    else if c = '\\' then
      match rest with
      | [] => none
      | d :: more => if more = [] then none else some (d,more)
    else if rest = [] then none
    else some (c,rest)

/- The ranges of a class, up to its end, and whether the character is in one. -/
def ranges (r : Char) : Nat → List Char → Bool → Bool → Option (Bool × List Char)
  | 0, _, _, _ => none
  | fuel+1, chunk, later, found =>
    if later = true ∧ chunk.head? = some ']' then some (found,chunk.tail)
    else
      match getEsc chunk with
      | none => none
      | some (lo,rest) =>
        if rest.head? = some '-' then
          match getEsc rest.tail with
          | none => none
          | some (hi,rest) => ranges r fuel rest true (found || (decide (lo ≤ r) && decide (r ≤ hi)))
        else ranges r fuel rest true (found || r == lo)

/- What is left of the text behind the part of a pattern that has no star, if it matches. The rest of the part is read in any case. -/
def matchChunk : Nat → List Char → List Char → Bool → Option (Option (List Char))
  | _, [], s, failed => some (if failed then none else some s)
  | 0, _ :: _, _, _ => none
  | fuel+1, c :: chunk, s, failed =>
    let failed := failed || s.isEmpty
    if c = '[' then
      let negated := chunk.head? == some '^'
      match ranges (s.headD ' ') (chunk.length+1) (if negated then chunk.tail else chunk) false false with
      | none => none
      | some (found,rest) => matchChunk fuel rest s.tail (failed || found == negated)
    else if c = '?' then matchChunk fuel chunk s.tail (failed || s.head? == some '/')
    else if c = '\\' then
      match chunk with
      | [] => none
      | d :: rest => matchChunk fuel rest s.tail (failed || s.head? != some d)
    else matchChunk fuel chunk s.tail (failed || s.head? != some c)

/- The part of a pattern up to the next star, and the rest. -/
def scan : Bool → List Char → List Char × List Char
  | _, [] => ([],[])
  | inrange, '\\' :: c :: rest => ('\\' :: c :: (scan inrange rest).1,(scan inrange rest).2)
  | inrange, c :: rest =>
    if c = '*' ∧ inrange = false then ([],c :: rest)
    else
      let inrange := if c = '[' then true else if c = ']' then false else inrange
      (c :: (scan inrange rest).1,(scan inrange rest).2)

/- A star takes some characters of one name. -/
def starred (chunk : List Char) (last : Bool) : List Char → Option (List Char)
  | [] => none
  | c :: rest =>
    if c = '/' then none
    else
      match matchChunk chunk.length chunk rest false with
      | none => none
      | some (some t) => if last = true ∧ t ≠ [] then starred chunk last rest else some t
      | some none => starred chunk last rest

def matchFrom : Nat → List Char → List Char → Bool
  | _, [], name => name.isEmpty
  | 0, _ :: _, _ => false
  | fuel+1, pattern, name =>
    let star := pattern.head? == some '*'
    let parts := scan false (pattern.dropWhile fun c => c == '*')
    if star = true ∧ parts.1 = [] then decide ('/' ∉ name)
    else
      let further := if star then starred parts.1 parts.2.isEmpty name else none
      match matchChunk parts.1.length parts.1 name false with
      | none => false
      | some (some t) =>
        if t = [] ∨ parts.2 ≠ [] then matchFrom fuel parts.2 t
        else
          match further with
          | none => false
          | some t => matchFrom fuel parts.2 t
      | some none =>
        match further with
        | none => false
        | some t => matchFrom fuel parts.2 t

/- `filepath.Match`, which is false of a malformed pattern. -/
def Match (pattern name : String) : Bool := matchFrom pattern.toList.length pattern.toList name.toList

/- Some levels of directories. -/
def levels (n : Nat) : List Char := '*' :: (List.replicate n ['/','*']).flatten

/- Patterns that say how many directories two stars stand for: some, or, with the slash behind them, none. -/
inductive Expands : List Char → List Char → Prop where
  | done : Expands [] []
  | same (c : Char) {p q : List Char} (rest : Expands p q) : Expands (c :: p) (c :: q)
  | some (n : Nat) {p q : List Char} (rest : Expands p q) : Expands ('*' :: '*' :: p) (levels n ++ q)
  | none {p q : List Char} (rest : Expands p q) : Expands ('*' :: '*' :: '/' :: p) q

def twoStars : List Char := ['*','*']

/- `strings.ReplaceAll` of two stars by one. -/
def oneStar : List Char → List Char
  | '*' :: '*' :: rest => '*' :: oneStar rest
  | c :: rest => c :: oneStar rest
  | [] => []

theorem expandsOneStar (p : List Char) : Expands p (oneStar p) := by
  induction p using oneStar.induct with
  | case1 rest ih => exact .some 0 ih
  | case2 c rest other ih =>
    rw [oneStar]
    · exact .same c ih
    · exact other
  | case3 => exact .done

/- A pattern without two stars is what it stands for. -/
theorem expandsSelf {p q : List Char} (plain : ¬twoStars <:+: p) : Expands p q ↔ q = p := by
  constructor
  · intro expands
    induction expands with
    | done => rfl
    | same c rest ih => rw [ih fun inside => plain (inside.trans (List.suffix_cons c _).isInfix)]
    | some n rest ih => exact absurd ⟨[],_,rfl⟩ plain
    | none rest ih => exact absurd ⟨[],_,rfl⟩ plain
  · rintro rfl
    clear plain
    induction q with
    | nil => exact .done
    | cons c q ih => exact .same c ih

example : Match "src/*.go" "src/main.go" = true := by decide
example : Match "[^a-c]?\\*" "xy*" = true := by decide

end GoGlob
