import ContainerWS.GoStrings

/-! The rules of Traefik's routers: calls of matchers joined by && and ||, of which &&
binds tighter. Texts stand between backticks, which no text can hold. -/
namespace TraefikRule
open GoStrings

/- The backtick. -/
def tick : Char := Char.ofNat 96

inductive Matcher where
  | host (name : String)
  | pathPrefix (start : String)
  deriving DecidableEq, Repr

def Matcher.holds (host path : String) : Matcher → Bool
  | .host name => host = name
  | .pathPrefix start => hasPrefix path start

inductive Token where
  | call (m : Matcher)
  | and
  | or
  deriving DecidableEq, Repr

inductive Mode where
  | free
  | name (read : List Char)
  | opened (name : List Char)
  | text (name read : List Char)
  | closed (m : Matcher)
  | half (op : Char)
  deriving DecidableEq, Repr

def matcherOf (name text : List Char) : Option Matcher :=
  if name = "Host".toList then some (.host (String.ofList text))
  else if name = "PathPrefix".toList then some (.pathPrefix (String.ofList text))
  else none

def scan : Mode → List Char → Option (List Token)
  | .free,[] => some []
  | _,[] => none
  | .free,c :: cs =>
    if c = ' ' then scan .free cs else if c = '&' ∨ c = '|' then scan (.half c) cs else scan (.name [c]) cs
  | .name n,c :: cs => if c = '(' then scan (.opened n) cs else scan (.name (n ++ [c])) cs
  | .opened n,c :: cs => if c = tick then scan (.text n []) cs else none
  | .text n t,c :: cs =>
    if c = tick then (matcherOf n t).bind (fun m => scan (.closed m) cs) else scan (.text n (t ++ [c])) cs
  | .closed m,c :: cs => if c = ')' then (scan .free cs).map (.call m :: ·) else none
  | .half op,c :: cs => if c = op then (scan .free cs).map ((if op = '&' then Token.and else Token.or) :: ·) else none

/- Any of its parts has to hold, and of a part each matcher. -/
abbrev Rule := List (List Matcher)

def group : List Token → Option Rule
  | [.call m] => some [[m]]
  | .call m :: .and :: rest =>
    match group rest with
    | some (part :: parts) => some ((m :: part) :: parts)
    | _ => none
  | .call m :: .or :: rest => (group rest).map ([m] :: ·)
  | _ => none

def parse (text : String) : Option Rule := (scan .free text.toList).bind group

def Rule.holds (r : Rule) (host path : String) : Bool := r.any (·.all (·.holds host path))

/- A text that is no rule makes no router. -/
def accepts (text host path : String) : Bool := (parse text).any (·.holds host path)

/- What a matcher looks like in a rule. -/
def Matcher.text : Matcher → String
  | .host name => "Host(`" ++ name ++ "`)"
  | .pathPrefix start => "PathPrefix(`" ++ start ++ "`)"

def Matcher.literal : Matcher → String
  | .host name => name
  | .pathPrefix start => start

def Clean (s : String) : Prop := tick ∉ s.toList

theorem scanText (name read : List Char) {text : List Char} (clean : tick ∉ text) (rest : List Char) :
    scan (.text name read) (text ++ tick :: rest) = (matcherOf name (read ++ text)).bind (fun m => scan (.closed m) rest) := by
  induction text generalizing read with
  | nil => simp [scan]
  | cons c cs ih =>
    have other : c ≠ tick := fun same => clean (by simp [same])
    rw [List.cons_append,scan,if_neg other,ih _ (fun mem => clean (List.mem_cons_of_mem _ mem)),List.append_assoc]
    rfl

theorem scanName (read : List Char) {name : List Char} (plain : '(' ∉ name) (rest : List Char) :
    scan (.name read) (name ++ '(' :: rest) = scan (.opened (read ++ name)) rest := by
  induction name generalizing read with
  | nil =>
    rw [List.nil_append,List.append_nil,scan,if_pos rfl]
  | cons c cs ih =>
    have other : c ≠ '(' := fun same => plain (by simp [same])
    rw [List.cons_append,scan,if_neg other,ih _ (fun mem => plain (List.mem_cons_of_mem _ mem)),List.append_assoc]
    rfl

/- A call is read from its name to the parenthesis behind its text. -/
theorem scanCall {c : Char} {name text : List Char} (blank : c ≠ ' ') (joins : ¬(c = '&' ∨ c = '|')) (plain : '(' ∉ name)
    (clean : tick ∉ text) (rest : List Char) :
    scan .free (c :: (name ++ '(' :: tick :: (text ++ tick :: ')' :: rest))) =
      (matcherOf (c :: name) text).bind (fun m => (scan .free rest).map (.call m :: ·)) := by
  rw [scan,if_neg blank,if_neg joins,scanName _ plain,scan,if_pos rfl,scanText _ _ clean]
  rfl

/- A matcher with a clean text is read as it was written. -/
theorem scanMatcher {m : Matcher} (clean : Clean m.literal) (rest : List Char) :
    scan .free (m.text.toList ++ rest) = (scan .free rest).map (.call m :: ·) := by
  cases m with
  | host name =>
    have whole : (Matcher.host name).text.toList ++ rest =
        'H' :: ("ost".toList ++ '(' :: tick :: (name.toList ++ tick :: ')' :: rest)) := by
      simp [Matcher.text,String.toList_append,tick]
    have known : matcherOf ('H' :: "ost".toList) name.toList = some (.host name) := by
      rw [matcherOf,if_pos (by decide),String.ofList_toList]
    have free : tick ∉ name.toList := clean
    rw [whole,scanCall (by decide) (by decide) (by decide) free,known]
    rfl
  | pathPrefix start =>
    have whole : (Matcher.pathPrefix start).text.toList ++ rest =
        'P' :: ("athPrefix".toList ++ '(' :: tick :: (start.toList ++ tick :: ')' :: rest)) := by
      simp [Matcher.text,String.toList_append,tick]
    have known : matcherOf ('P' :: "athPrefix".toList) start.toList = some (.pathPrefix start) := by
      rw [matcherOf,if_neg (by decide),if_pos (by decide),String.ofList_toList]
    have free : tick ∉ start.toList := clean
    rw [whole,scanCall (by decide) (by decide) (by decide) free,known]
    rfl

theorem scanAnd (rest : List Char) : scan .free (" && ".toList ++ rest) = (scan .free rest).map (.and :: ·) := by
  simp [scan]

theorem scanOr (rest : List Char) : scan .free (" || ".toList ++ rest) = (scan .free rest).map (.or :: ·) := by
  simp [scan]

/- The text of a rule without parentheses. -/
def partText (part : List Matcher) : String := " && ".intercalate (part.map Matcher.text)

def ruleText (r : Rule) : String := " || ".intercalate (r.map partText)

def partTokens : List Matcher → List Token
  | [] => []
  | [m] => [.call m]
  | m :: n :: rest => .call m :: .and :: partTokens (n :: rest)

def ruleTokens : Rule → List Token
  | [] => []
  | [part] => partTokens part
  | part :: next :: rest => partTokens part ++ .or :: ruleTokens (next :: rest)

theorem scanPart {part : List Matcher} (clean : ∀ m ∈ part, Clean m.literal) (rest : List Char) :
    scan .free ((partText part).toList ++ rest) = (scan .free rest).map (partTokens part ++ ·) := by
  unfold partText
  induction part with
  | nil => simp [partTokens]
  | cons m more ih =>
    have first := clean m List.mem_cons_self
    have others := ih (fun n mem => clean n (List.mem_cons_of_mem _ mem))
    cases more with
    | nil =>
      simp only [List.map_cons,List.map_nil,String.intercalate_singleton,partTokens]
      exact scanMatcher first rest
    | cons n more =>
      simp only [List.map_cons,String.intercalate_cons_cons,String.toList_append,List.append_assoc] at others ⊢
      rw [scanMatcher first,scanAnd,others,Option.map_map,Option.map_map]
      rfl

theorem scanRule {r : Rule} (clean : ∀ part ∈ r, ∀ m ∈ part, Clean m.literal) :
    scan .free (ruleText r).toList = some (ruleTokens r) := by
  unfold ruleText
  induction r with
  | nil => rfl
  | cons part more ih =>
    have first := scanPart (clean part List.mem_cons_self)
    have others := ih (fun next mem => clean next (List.mem_cons_of_mem _ mem))
    cases more with
    | nil =>
      have whole := first []
      rw [List.append_nil] at whole
      simp only [List.map_cons,List.map_nil,String.intercalate_singleton,ruleTokens]
      simpa [scan] using whole
    | cons next more =>
      simp only [List.map_cons,String.intercalate_cons_cons,String.toList_append,List.append_assoc] at others ⊢
      rw [first,scanOr,others]
      rfl

theorem groupPart {part : List Matcher} (full : part ≠ []) : group (partTokens part) = some [part] := by
  induction part with
  | nil => exact absurd rfl full
  | cons m more ih =>
    cases more with
    | nil => rfl
    | cons n more => rw [partTokens,group,ih (List.cons_ne_nil _ _)]

theorem groupOr {part : List Matcher} (full : part ≠ []) {rest : List Token} {r : Rule} (read : group rest = some r) :
    group (partTokens part ++ .or :: rest) = some (part :: r) := by
  induction part with
  | nil => exact absurd rfl full
  | cons m more ih =>
    cases more with
    | nil => simp [partTokens,group,read]
    | cons n more => rw [partTokens,List.cons_append,List.cons_append,group,ih (List.cons_ne_nil _ _)]

theorem groupRule {r : Rule} (some : r ≠ []) (full : ∀ part ∈ r, part ≠ []) : group (ruleTokens r) = Option.some r := by
  induction r with
  | nil => exact absurd rfl some
  | cons part more ih =>
    have first := full part List.mem_cons_self
    cases more with
    | nil => exact groupPart first
    | cons next more => exact groupOr first (ih (List.cons_ne_nil _ _) (fun next mem => full next (List.mem_cons_of_mem _ mem)))

/- What is written with clean texts is read as it was meant. -/
theorem parseText {r : Rule} (some : r ≠ []) (full : ∀ part ∈ r, part ≠ []) (clean : ∀ part ∈ r, ∀ m ∈ part, Clean m.literal) :
    parse (ruleText r) = Option.some r := by
  rw [parse,scanRule clean]
  exact groupRule some full

def Mode.Clean : Mode → Prop
  | .text _ read => tick ∉ read
  | .closed m => TraefikRule.Clean m.literal
  | _ => True

theorem matcherClean {name text : List Char} {m : Matcher} (made : matcherOf name text = some m) (clean : tick ∉ text) :
    Clean m.literal := by
  unfold matcherOf at made
  split at made
  · cases made
    simpa [Clean,Matcher.literal] using clean
  · split at made
    · cases made
      simpa [Clean,Matcher.literal] using clean
    · cases made

/- No text that is read holds a backtick: the first one ends it. -/
theorem scanClean {mode : Mode} {cs : List Char} {tokens : List Token} (clean : mode.Clean) (read : scan mode cs = some tokens) :
    ∀ m, Token.call m ∈ tokens → Clean m.literal := by
  fun_induction scan mode cs generalizing tokens with
  | case1 =>
    cases read
    intro _ mem
    cases mem
  | case2 | case9 | case13 | case15 => cases read
  | case3 _ ih | case4 _ _ _ _ ih | case5 _ _ _ _ ih | case6 _ _ ih | case7 _ _ _ _ ih => exact ih trivial read
  | case8 n cs ih => exact ih List.not_mem_nil read
  | case10 n t cs ih =>
    obtain ⟨m,made,rest⟩ := Option.bind_eq_some_iff.mp read
    exact ih m (matcherClean made clean) rest
  | case11 n t c cs other ih =>
    refine ih ?_ read
    simp only [Mode.Clean,List.mem_append,List.mem_singleton,not_or]
    exact ⟨clean,Ne.symm other⟩
  | case12 closed cs ih =>
    obtain ⟨rest,here,rfl⟩ := Option.map_eq_some_iff.mp read
    intro m mem
    rcases List.mem_cons.mp mem with same | later
    · cases same
      exact clean
    · exact ih trivial here m later
  | case14 op cs ih =>
    obtain ⟨rest,here,rfl⟩ := Option.map_eq_some_iff.mp read
    intro m mem
    rcases List.mem_cons.mp mem with same | later
    · split at same <;> cases same
    · exact ih trivial here m later

theorem groupCalls {tokens : List Token} {r : Rule} (read : group tokens = some r) :
    ∀ part ∈ r, ∀ m ∈ part, Token.call m ∈ tokens := by
  fun_induction group tokens generalizing r with
  | case1 =>
    cases read
    simp
  | case2 m rest part parts here ih =>
    cases read
    intro this mem n inside
    have others := ih here
    rcases List.mem_cons.mp mem with rfl | later
    · rcases List.mem_cons.mp inside with rfl | behind
      · exact List.mem_cons_self
      · exact List.mem_cons_of_mem _ (List.mem_cons_of_mem _ (others part List.mem_cons_self n behind))
    · exact List.mem_cons_of_mem _ (List.mem_cons_of_mem _ (others this (List.mem_cons_of_mem _ later) n inside))
  | case3 | case5 => cases read
  | case4 m rest ih =>
    obtain ⟨parts,here,rfl⟩ := Option.map_eq_some_iff.mp read
    intro this mem n inside
    rcases List.mem_cons.mp mem with rfl | later
    · cases List.mem_singleton.mp inside
      exact List.mem_cons_self
    · exact List.mem_cons_of_mem _ (List.mem_cons_of_mem _ (ih here this later n inside))

/- The texts of a rule that was read are clean. -/
theorem parseClean {text : String} {r : Rule} (read : parse text = some r) : ∀ part ∈ r, ∀ m ∈ part, Clean m.literal := by
  obtain ⟨tokens,scanned,grouped⟩ := Option.bind_eq_some_iff.mp read
  intro part here m mem
  have free : Mode.free.Clean := trivial
  exact scanClean free scanned m (groupCalls grouped part here m mem)

/- Requests that no clean text tells apart are treated alike. -/
theorem holdsSame {r : Rule} {host path host' path' : String} (clean : ∀ part ∈ r, ∀ m ∈ part, Clean m.literal)
    (hosts : ∀ name, Clean name → (host = name ↔ host' = name))
    (paths : ∀ start, Clean start → hasPrefix path start = hasPrefix path' start) :
    r.holds host path = r.holds host' path' := by
  unfold Rule.holds
  have same : ∀ part ∈ r, ∀ m ∈ part, m.holds host path = m.holds host' path' := by
    intro part here m mem
    have text := clean part here m mem
    cases m with
    | host name => exact decide_eq_decide.mpr (hosts name text)
    | pathPrefix start => exact paths start text
  rw [Bool.eq_iff_iff,List.any_eq_true,List.any_eq_true]
  refine exists_congr (fun part => and_congr_right (fun here => ?_))
  rw [List.all_eq_true,List.all_eq_true]
  exact forall₂_congr (fun m mem => by rw [same part here m mem])

end TraefikRule
