import ContainerWS.Interpolation

/-! applyEnv of modules/docker/templates/handlers.go, which puts variables into the text of a stack before docker compose interpolates
it, beside what compose makes of the text itself. -/
namespace ContainerWS.Docker.Templates
open Interpolation

/- What `envToken` matches at the front: a name, and what follows. -/
def token : Text → Option (Text × Text)
  | '$' :: '{' :: s =>
    match readName s with
    | some (name,'}' :: rest) => some (name,rest)
    | _ => none
  | _ => none

def tokenText (name : Text) : Text := '$' :: '{' :: (name ++ ['}'])

/- `ReplaceAllStringFunc` of `envToken`, from left to right, behind some characters that the last match takes. -/
def replaceFrom (repl : Text → Text) : Nat → Text → Text
  | _, [] => []
  | k+1, _ :: s => replaceFrom repl k s
  | 0, c :: s =>
    match token (c :: s) with
    | some (name,_) => repl (tokenText name) ++ replaceFrom repl (name.length+2) s
    | none => c :: replaceFrom repl 0 s

def replaceAllStringFunc (repl : Text → Text) (s : Text) : Text := replaceFrom repl 0 s

/- What a match is replaced by: the value of its name, or itself. -/
def substitute (env : Env) (m : Text) : Text :=
  match token m with
  | none => m
  | some (name,_) => (env name).getD m

def applyEnv (yaml : Text) (env : Env) : Text := replaceAllStringFunc (substitute env) yaml

/- What follows a name goes on with it once the values are in place. -/
inductive Continues (env : Env) : Text → Prop where
  | char {c : Char} (rest : Text) (here : nameChar c = true) : Continues env (c :: rest)
  | value {name v : Text} {c : Char} (rest : Text) (valid : Name name) (given : env name = some (c :: v)) (here : nameChar c = true) :
      Continues env (tokenText name ++ rest)
  | empty {name rest : Text} (valid : Name name) (given : env name = some []) (later : Continues env rest) :
      Continues env (tokenText name ++ rest)

/- A scalar in which the replacement does what compose does: no escaped dollar sign stands in front of what is replaced, a name without
braces is not set and not gone on with, a value put in has no dollar sign, and what has an operator is without its variable. A text that
compose refuses stays refused. -/
inductive Clean (env : Env) : Text → Prop where
  | nil : Clean env []
  | char {c : Char} {rest : Text} (other : c ≠ '$') (later : Clean env rest) : Clean env (c :: rest)
  | dollar {rest : Text} (free : ∀ name more, token ('$' :: rest) = some (name,more) → env name = none) (later : Clean env rest) :
      Clean env ('$' :: '$' :: rest)
  | named {name rest : Text} (valid : Name name) (ends : Ends rest) (apart : ¬Continues env rest) (empty : (env name).getD [] = [])
      (later : Clean env rest) : Clean env ('$' :: (name ++ rest))
  | token {name rest : Text} (valid : Name name) (plain : ∀ v, env name = some v → '$' ∉ v) (later : Clean env rest) :
      Clean env (tokenText name ++ rest)
  | braced {name arg rest : Text} {op : Op} (valid : Name name) (signed : op ≠ .plain) (balanced : Balanced arg)
      (closed : ∀ n v, tokenText n <:+: arg → env n = some v → Balanced v) (free : ¬op.Given (env name))
      (inner : op.choose none = .argument → Clean env arg) (later : Clean env rest) :
      Clean env ('$' :: '{' :: (name ++ (op.sign ++ (arg ++ '}' :: rest))))
  | stray {rest : Text} (bad : ∀ c ∈ rest.head?, c ≠ '$' ∧ c ≠ '{' ∧ nameStart c = false) : Clean env ('$' :: rest)
  | malformed {rest : Text} (bad : readForm ('$' :: rest) = none) (untouched : ∀ n, tokenText n <:+: rest → env n = none) :
      Clean env ('$' :: rest)

/- What compose makes of a text: what YAML reads, a shape with its scalar values, and the values interpolated. -/
def deploy {σ : Type} (read : Text → Option (σ × List Text)) (vars : Env) (yaml : Text) : Option (σ × List Text) :=
  (read yaml).bind fun d => (d.2.mapM (interpolate vars)).map fun scalars => (d.1,scalars)

/- The tokens of a text stand in its scalar values, where YAML takes any word for what it is. -/
def Placed {σ : Type} (read : Text → Option (σ × List Text)) (word : Text → Prop) (yaml : Text) : Prop :=
  ∀ repl : Text → Text, (∀ name, Name name → tokenText name <:+: yaml → word (repl (tokenText name))) →
    read (replaceAllStringFunc repl yaml) = (read yaml).map fun d => (d.1,d.2.map (replaceAllStringFunc repl))

variable {env : Env} {repl : Text → Text}

/-! The replacement, one token or one character at a time. -/
theorem tokenShape {s name rest : Text} : token s = some (name,rest) ↔ Name name ∧ s = tokenText name ++ rest := by
  constructor
  · intro here
    unfold token at here
    split at here
    · split at here
      · rename_i s name' rest' read
        cases Option.some.inj here
        refine ⟨(readNameValid read).1,?_⟩
        rw [(readNameShape read).1,tokenText,List.cons_append,List.cons_append,List.append_assoc]
        rfl
      · cases here
    · cases here
  · rintro ⟨valid,rfl⟩
    have ends : Ends ('}' :: rest) := by
      intro c first
      rw [← Option.some.inj first]
      decide
    have read := readNamed valid ends
    rw [tokenText,List.cons_append,List.cons_append,List.append_assoc,List.singleton_append,token,read]
    rfl

theorem skipFrom (k : Nat) (s : Text) : replaceFrom repl k s = replaceAllStringFunc repl (s.drop k) := by
  induction k generalizing s with
  | zero => rfl
  | succ k ih =>
    cases s with
    | nil => rfl
    | cons c s => exact ih s

theorem replaceChar {c : Char} {s : Text} (free : token (c :: s) = none) :
    replaceAllStringFunc repl (c :: s) = c :: replaceAllStringFunc repl s := by
  rw [replaceAllStringFunc,replaceFrom,free]
  rfl

theorem replaceToken {name : Text} (valid : Name name) (rest : Text) :
    replaceAllStringFunc repl (tokenText name ++ rest) = repl (tokenText name) ++ replaceAllStringFunc repl rest := by
  have here : token ('$' :: ('{' :: (name ++ ['}']) ++ rest)) = some (name,rest) := tokenShape.mpr ⟨valid,rfl⟩
  have behind : ('{' :: (name ++ ['}']) ++ rest).drop (name.length+2) = rest := by
    refine List.drop_left' ?_
    simp
  rw [replaceAllStringFunc,tokenText,List.cons_append,replaceFrom,here]
  dsimp only
  rw [skipFrom,behind]
  rfl

theorem tokenDollar {c : Char} {s : Text} (other : c ≠ '$') : token (c :: s) = none := by
  cases here : token (c :: s) with
  | none => rfl
  | some p =>
    obtain ⟨name,rest⟩ := p
    exact absurd (List.cons.inj (tokenShape.mp here).2).1 other

theorem replacePlain {p : Text} (plain : '$' ∉ p) (rest : Text) :
    replaceAllStringFunc repl (p ++ rest) = p ++ replaceAllStringFunc repl rest := by
  induction p with
  | nil => rfl
  | cons c p ih =>
    rw [List.mem_cons,not_or] at plain
    rw [List.cons_append,replaceChar (tokenDollar fun same => plain.1 same.symm),ih plain.2]
    rfl

theorem substituteToken {name : Text} (valid : Name name) : substitute env (tokenText name) = (env name).getD (tokenText name) := by
  rw [substitute,tokenShape.mpr ⟨valid,(List.append_nil _).symm⟩]

theorem applyChar {c : Char} {s : Text} (free : token (c :: s) = none) : applyEnv (c :: s) env = c :: applyEnv s env := replaceChar free

theorem applyToken {name : Text} (valid : Name name) (rest : Text) :
    applyEnv (tokenText name ++ rest) env = (env name).getD (tokenText name) ++ applyEnv rest env := by
  rw [← substituteToken valid]
  exact replaceToken valid rest

theorem applyPlain {p : Text} (plain : '$' ∉ p) (rest : Text) : applyEnv (p ++ rest) env = p ++ applyEnv rest env := replacePlain plain rest

/- A text is tokens and other characters. -/
theorem tokenInduction {P : Text → Prop} (nil : P []) (tokens : ∀ name rest, Name name → P rest → P (tokenText name ++ rest))
    (chars : ∀ c s, token (c :: s) = none → P s → P (c :: s)) (s : Text) : P s := by
  induction length : s.length using Nat.strong_induction_on generalizing s with
  | h n ih =>
    cases s with
    | nil => exact nil
    | cons c s =>
      cases here : token (c :: s) with
      | none => exact chars c s here (ih s.length (by rw [← length,List.length_cons]; omega) s rfl)
      | some p =>
        obtain ⟨name,rest⟩ := p
        obtain ⟨valid,shape⟩ := tokenShape.mp here
        rw [shape] at length ⊢
        refine tokens name rest valid (ih rest.length ?_ rest rfl)
        rw [← length,List.length_append,tokenText,List.length_cons]
        omega

theorem nameDollar {name : Text} (valid : Name name) : '$' ∉ name := fun mem => (nameCharPlain (valid.chars _ mem)).1 rfl

theorem endsApplied {rest : Text} (apart : ¬Continues env rest) : Ends (applyEnv rest env) := by
  induction rest using tokenInduction with
  | nil => exact fun c first => by cases first
  | tokens name rest valid ih =>
    rw [applyToken valid]
    cases given : env name with
    | none =>
      intro c first
      rw [← Option.some.inj first]
      decide
    | some v =>
      cases v with
      | nil => exact ih fun later => apart (.empty valid given later)
      | cons c v =>
        intro d first
        rw [← Option.some.inj first]
        exact Bool.eq_false_iff.mpr fun here => apart (.value rest valid given here)
  | chars c s free ih =>
    rw [applyChar free]
    intro d first
    rw [← Option.some.inj first]
    exact Bool.eq_false_iff.mpr fun here => apart (.char s here)

theorem nameBraces {name : Text} (valid : Name name) : '{' ∉ name ∧ '}' ∉ name :=
  ⟨fun mem => (nameCharPlain (valid.chars _ mem)).2.1 rfl,fun mem => (nameCharPlain (valid.chars _ mem)).2.2 rfl⟩

theorem tokenBalanced {name : Text} (valid : Name name) : Balanced (tokenText name) := by
  have inside := levelBalanced (balancedPlain (nameBraces valid)) 1 ['}']
  exact inside.trans rfl

/- Balanced values leave the braces as they are. -/
theorem levelApplied {s : Text} (closed : ∀ n v, tokenText n <:+: s → env n = some v → Balanced v) (depth : Nat) :
    level depth (applyEnv s env) = level depth s := by
  induction s using tokenInduction generalizing depth with
  | nil => rfl
  | tokens name rest valid ih =>
    have later := ih fun n v inside given => closed n v (inside.trans (List.suffix_append _ _).isInfix) given
    rw [applyToken valid,levelBalanced (tokenBalanced valid)]
    cases given : env name with
    | none => exact (levelBalanced (tokenBalanced valid) depth _).trans (later depth)
    | some v => exact (levelBalanced (closed name v (List.prefix_append _ _).isInfix given) depth _).trans (later depth)
  | chars c s free ih =>
    have later := ih fun n v inside given => closed n v (inside.trans (List.suffix_cons _ _).isInfix) given
    rw [applyChar free,level.eq_def,level.eq_def depth]
    dsimp only
    split
    · cases depth with
      | zero => rfl
      | succ depth => exact later depth
    · split
      · exact later (depth+1)
      · exact later depth

/- Where no token is set, nothing changes. -/
theorem applyUntouched {s : Text} (untouched : ∀ n, tokenText n <:+: s → env n = none) : applyEnv s env = s := by
  induction s using tokenInduction with
  | nil => rfl
  | tokens name rest valid ih =>
    rw [applyToken valid,untouched name (List.prefix_append _ _).isInfix,
      ih fun n inside => untouched n (inside.trans (List.suffix_append _ _).isInfix)]
    rfl
  | chars c s free ih =>
    rw [applyChar free,ih fun n inside => untouched n (inside.trans (List.suffix_cons _ _).isInfix)]

/- No token reaches over the end of what is closed. -/
theorem applyClosed {depth : Nat} {arg : Text} (balanced : level depth arg = some 0) (rest : Text) :
    applyEnv (arg ++ '}' :: rest) env = applyEnv arg env ++ '}' :: applyEnv rest env := by
  induction arg using tokenInduction generalizing depth with
  | nil => exact applyChar (tokenDollar (by decide))
  | tokens name arg valid ih =>
    rw [levelBalanced (tokenBalanced valid)] at balanced
    rw [List.append_assoc,applyToken valid,applyToken valid,ih balanced,List.append_assoc]
  | chars c s free ih =>
    have beyond : token (c :: (s ++ '}' :: rest)) = none := by
      cases here : token (c :: (s ++ '}' :: rest)) with
      | none => rfl
      | some p =>
        obtain ⟨name,more⟩ := p
        obtain ⟨valid,shape⟩ := tokenShape.mp here
        have parts : (c :: s) ++ '}' :: rest = ('$' :: '{' :: name) ++ '}' :: more := by
          rw [List.cons_append,shape,tokenText]
          simp
        have opened : level depth ('$' :: '{' :: name) = some (depth+1) := by
          have inside := levelBalanced (balancedPlain (nameBraces valid)) (depth+1) []
          rw [List.append_nil] at inside
          exact inside
        have alone (same : c :: s = '$' :: '{' :: name) : False := by
          rw [same,opened] at balanced
          cases Option.some.inj balanced
        rcases List.append_eq_append_iff.mp parts with ⟨a,whole,behind⟩ | ⟨a,whole,behind⟩
        · cases a with
          | nil => exact (alone (by rw [whole,List.append_nil])).elim
          | cons d a =>
            have brace : d = '}' := (List.cons.inj behind).1.symm
            have inside : '}' ∈ '$' :: '{' :: name := by
              rw [whole,← brace]
              exact List.mem_append_right _ List.mem_cons_self
            rcases List.mem_cons.mp inside with other | inside
            · exact absurd other (by decide)
            · rcases List.mem_cons.mp inside with other | inside
              · exact absurd other (by decide)
              · exact absurd inside (nameBraces valid).2
        · cases a with
          | nil => exact (alone (by rw [whole,List.append_nil])).elim
          | cons d a =>
            have brace : d = '}' := (List.cons.inj behind).1.symm
            have taken : token (c :: s) = some (name,a) := by
              refine tokenShape.mpr ⟨valid,?_⟩
              rw [whole,brace,tokenText]
              simp
            rw [taken] at free
            cases free
    have later : ∃ deep, level deep s = some 0 := by
      rw [level.eq_def] at balanced
      dsimp only at balanced
      split at balanced
      · cases depth with
        | zero => cases balanced
        | succ depth => exact ⟨depth,balanced⟩
      · split at balanced
        · exact ⟨depth+1,balanced⟩
        · exact ⟨depth,balanced⟩
    obtain ⟨deep,inner⟩ := later
    rw [List.cons_append,applyChar beyond,applyChar free,ih inner]
    rfl

/-! A clean scalar comes to the same. -/
theorem tokenRead {name : Text} (valid : Name name) (rest : Text) :
    readForm (tokenText name ++ rest) = some (.braced name .plain [],rest) := by
  have read := readForms valid .plain (fun _ => rfl) rfl rest
  rw [tokenText,List.cons_append,List.cons_append,List.append_assoc]
  exact read

/- What begins with a dollar sign and a token begins with no token itself. -/
theorem dollarFree (s : Text) : token ('$' :: '$' :: s) = none := by
  cases here : token ('$' :: '$' :: s) with
  | none => rfl
  | some p =>
    obtain ⟨name,rest⟩ := p
    have second := (List.cons.inj (List.cons.inj (tokenShape.mp here).2).2).1
    exact absurd second (by decide)

theorem invalidFree {s : Text} (bad : readForm s = none) : token s = none := by
  cases here : token s with
  | none => rfl
  | some p =>
    obtain ⟨name,rest⟩ := p
    obtain ⟨valid,shape⟩ := tokenShape.mp here
    rw [shape,tokenRead valid] at bad
    cases bad

theorem strayRead {rest : Text} (bad : ∀ c ∈ rest.head?, c ≠ '$' ∧ c ≠ '{' ∧ nameStart c = false) : readForm ('$' :: rest) = none := by
  cases rest with
  | nil => rfl
  | cons c rest =>
    obtain ⟨noDollar,noBrace,noName⟩ := bad c rfl
    rw [readForm.eq_def]
    dsimp only
    rw [if_pos rfl,if_neg noDollar,if_neg noBrace,readName,noName]
    rfl

theorem strayApplied {rest : Text} (bad : ∀ c ∈ rest.head?, c ≠ '$' ∧ c ≠ '{' ∧ nameStart c = false) :
    ∀ c ∈ (applyEnv rest env).head?, c ≠ '$' ∧ c ≠ '{' ∧ nameStart c = false := by
  cases rest with
  | nil => exact fun c first => by cases first
  | cons c rest =>
    have here := bad c rfl
    rw [applyChar (tokenDollar here.1)]
    intro d first
    rw [← Option.some.inj first]
    exact here

theorem namedFree {name : Text} (valid : Name name) (rest : Text) : token ('$' :: (name ++ rest)) = none := by
  cases here : token ('$' :: (name ++ rest)) with
  | none => rfl
  | some p =>
    obtain ⟨other,more⟩ := p
    have shape := (List.cons.inj (tokenShape.mp here).2).2
    cases name with
    | nil => exact absurd rfl valid.filled
    | cons c name => exact absurd (List.cons.inj shape).1 (nameCharPlain (valid.chars c List.mem_cons_self)).2.1

/- A form with an operator is no token. -/
theorem bracedFree {name arg : Text} {op : Op} (valid : Name name) (signed : op ≠ .plain) (rest : Text) :
    token ('$' :: '{' :: (name ++ (op.sign ++ (arg ++ '}' :: rest)))) = none := by
  cases op with
  | plain => exact absurd rfl signed
  | _ => rw [token,readNamed valid (signEnds signed _)]; rfl

theorem cleanSame {s : Text} (clean : Clean env s) : interpolate unset (applyEnv s env) = interpolate env s := by
  induction clean with
  | nil => rfl
  | char other later ih => rw [applyChar (tokenDollar other),interpolateChar other,interpolateChar other,ih]
  | @dollar rest free later ih =>
    -- the second dollar sign stays where it is, as what it may begin is not set
    have kept : applyEnv ('$' :: rest) env = '$' :: applyEnv rest env := by
      cases here : token ('$' :: rest) with
      | none => exact applyChar here
      | some p =>
        obtain ⟨name,more⟩ := p
        obtain ⟨valid,shape⟩ := tokenShape.mp here
        have same : rest = ('{' :: name ++ ['}']) ++ more := (List.cons.inj shape).2
        have plain : '$' ∉ '{' :: name ++ ['}'] := by
          have inside := nameDollar valid
          simp [inside]
        rw [shape,applyToken valid,free name more here,same,applyPlain plain]
        rfl
    rw [applyChar (dollarFree rest),kept,interpolateStep (readDollar _),interpolateStep (readDollar _),ih]
    rfl
  | @named name rest valid ends apart empty later ih =>
    rw [applyChar (namedFree valid rest),applyPlain (nameDollar valid),interpolateStep (readVariable valid (endsApplied apart)),
      interpolateStep (readVariable valid ends),ih,formValue,formValue,empty]
    rfl
  | @token name rest valid plain later ih =>
    rw [applyToken valid,interpolateStep (tokenRead valid rest),formValue,Op.choose]
    cases given : env name with
    | none =>
      rw [Option.getD_none,interpolateStep (tokenRead valid _),ih]
      rfl
    | some v =>
      rw [Option.getD_some,interpolatePlain (plain v given),ih]
      rfl
  | @braced name arg rest op valid signed balanced closed free inner later ihInner ih =>
    have noDollar : '$' ∉ '{' :: (name ++ op.sign) := by
      have inside := nameDollar valid
      have sign := (signPlain op).2.2
      simp [inside,sign]
    have applied : applyEnv ('$' :: '{' :: (name ++ (op.sign ++ (arg ++ '}' :: rest)))) env =
        '$' :: '{' :: (name ++ (op.sign ++ (applyEnv arg env ++ '}' :: applyEnv rest env))) := by
      have shape : '{' :: (name ++ (op.sign ++ (arg ++ '}' :: rest))) = '{' :: (name ++ op.sign) ++ (arg ++ '}' :: rest) := by
        simp
      rw [applyChar (bracedFree valid signed rest),shape,applyPlain noDollar,applyClosed balanced]
      simp
    have own : op = .plain → arg = [] := fun same => absurd same signed
    have ownApplied : op = .plain → applyEnv arg env = [] := fun same => absurd same signed
    have still : Balanced (applyEnv arg env) := (levelApplied closed 0).trans balanced
    rw [applied,interpolateStep (readForms valid op ownApplied still _),interpolateStep (readForms valid op own balanced rest),ih]
    refine congrArg (Option.bind · _) ?_
    rw [formValue,formValue,chooseUnset free]
    cases choice : op.choose none with
    | value v => rw [show op.choose (unset name) = .value v from choice]
    | fails => rw [show op.choose (unset name) = .fails from choice]
    | argument =>
      rw [show op.choose (unset name) = .argument from choice]
      exact ihInner choice
  | stray bad =>
    rw [applyChar (invalidFree (strayRead bad)),interpolateInvalid (strayRead (strayApplied bad)),interpolateInvalid (strayRead bad)]
  | malformed bad untouched =>
    rw [applyChar (invalidFree bad),applyUntouched untouched,interpolateInvalid bad,interpolateInvalid bad]

theorem scalarsSame {scalars : List Text} (clean : ∀ s ∈ scalars, Clean env s) :
    (scalars.map fun s => applyEnv s env).mapM (interpolate unset) = scalars.mapM (interpolate env) := by
  induction scalars with
  | nil => rfl
  | cons s scalars ih =>
    rw [List.map_cons,List.mapM_cons,List.mapM_cons,cleanSame (clean s List.mem_cons_self),
      ih fun t mem => clean t (List.mem_cons_of_mem s mem)]

/- Where the tokens stand in scalar values, every value is a word to YAML, and every scalar is clean, the replaced text is deployed alike. -/
theorem deploysAlike {σ : Type} {read : Text → Option (σ × List Text)} {word : Text → Prop} {yaml : Text} {env : Env}
    (placed : Placed read word yaml)
    (words : ∀ name, Name name → tokenText name <:+: yaml → word ((env name).getD (tokenText name)))
    (clean : ∀ d, read yaml = some d → ∀ s ∈ d.2, Clean env s) :
    deploy read unset (applyEnv yaml env) = deploy read env yaml := by
  have inPlace := placed (substitute env) fun name valid inside => by
    rw [substituteToken valid]
    exact words name valid inside
  rw [deploy,deploy,applyEnv,inPlace]
  cases here : read yaml with
  | none => rfl
  | some d => exact congrArg (Option.map fun scalars => (d.1,scalars)) (scalarsSame (clean d here))

/-! A text of one entry, its key and its value. -/
def readEntry (s : Text) : Option (Text × List Text) :=
  if '\n' ∈ s then none
  else
    match s.span (· != ':') with
    | (key,':' :: ' ' :: value) => some (key,[value])
    | _ => none

def releaseFront : Text := "image: nginx:".toList

def releaseBack : Text := "-$\x7bOS:-alpine\x7d $$me".toList

def release : Text := releaseFront ++ (tokenText "TAG".toList ++ releaseBack)

def tagged (v : Text) : Env := fun name => if name = "TAG".toList then some v else none

theorem cleanPlain {p rest : Text} (plain : '$' ∉ p) (later : Clean env rest) : Clean env (p ++ rest) := by
  induction p with
  | nil => exact later
  | cons c p ih =>
    rw [List.mem_cons,not_or] at plain
    exact .char (fun same => plain.1 same.symm) (ih plain.2)

theorem nameOf {name : Text} (filled : name ≠ []) (start : name.head?.all nameStart = true)
    (chars : name.all nameChar = true) : Name name where
  filled := filled
  start c first := by
    rw [first] at start
    exact start
  chars := List.all_eq_true.mp chars

theorem tagName : Name "TAG".toList := nameOf (by decide) rfl rfl

theorem osName : Name "OS".toList := nameOf (by decide) rfl rfl

/- The token of the release stands in its one scalar. -/
theorem releasePlaced : Placed readEntry (fun v => '\n' ∉ v) release := by
  intro repl words
  have oneLine := words _ tagName ⟨releaseFront,releaseBack,List.append_assoc _ _ _⟩
  have back : replaceAllStringFunc repl releaseBack = releaseBack := rfl
  have whole : replaceAllStringFunc repl release = releaseFront ++ (repl (tokenText "TAG".toList) ++ releaseBack) := by
    rw [release,replacePlain (by decide),replaceToken tagName,back]
  have scalar : replaceAllStringFunc repl ("nginx:".toList ++ (tokenText "TAG".toList ++ releaseBack)) =
      "nginx:".toList ++ (repl (tokenText "TAG".toList) ++ releaseBack) := by
    rw [replacePlain (by decide),replaceToken tagName,back]
  have read : readEntry release = some ("image".toList,["nginx:".toList ++ (tokenText "TAG".toList ++ releaseBack)]) := by decide
  have free : '\n' ∉ releaseFront ++ (repl (tokenText "TAG".toList) ++ releaseBack) := by
    rw [List.mem_append,List.mem_append]
    rintro (front | here | back)
    · exact absurd front (by decide)
    · exact oneLine here
    · exact absurd back (by decide)
  rw [whole,read,readEntry,if_neg free]
  exact congrArg some (congrArg (Prod.mk _) (congrArg (List.cons · []) scalar.symm))

theorem releaseClean (v : Text) (plain : '$' ∉ v) : Clean (tagged v) ("nginx:".toList ++ (tokenText "TAG".toList ++ releaseBack)) := by
  have os : tagged v "OS".toList = none := if_neg (by decide)
  have unsetOs : ¬Op.defaultEmpty.Given (tagged v "OS".toList) := by
    rw [os]
    exact fun given => given rfl
  have noToken (n w : Text) (inside : tokenText n <:+: "alpine".toList) : tagged v n = some w → Balanced w := by
    have dollar : '$' ∈ "alpine".toList := inside.subset List.mem_cons_self
    exact absurd dollar (by decide)
  have behind : Clean (tagged v) " $$me".toList :=
    .char (by decide) (.dollar (fun name more here => by cases here) (.char (by decide) (.char (by decide) .nil)))
  have inner : Clean (tagged v) "alpine".toList := cleanPlain (p := "alpine".toList) (by decide) .nil
  have form : Clean (tagged v) ('$' :: '{' :: ("OS".toList ++ (Op.defaultEmpty.sign ++ ("alpine".toList ++ '}' :: " $$me".toList)))) :=
    .braced osName (by decide) rfl noToken unsetOs (fun _ => inner) behind
  have value : ∀ w, tagged v "TAG".toList = some w → '$' ∉ w := by
    intro w given
    rw [tagged,if_pos rfl] at given
    cases given
    exact plain
  exact cleanPlain (by decide) (.token tagName value (.char (by decide) form))

theorem tokenLine {name : Text} (valid : Name name) : '\n' ∉ tokenText name := by
  have inside : '\n' ∉ name := fun mem => absurd (valid.chars _ mem) (by decide)
  simp [tokenText,inside]

theorem releaseDeployed :
    deploy readEntry unset (applyEnv release (tagged "1.25".toList)) = deploy readEntry (tagged "1.25".toList) release := by
  refine deploysAlike releasePlaced (fun name valid _ => ?_) fun d here s mem => ?_
  · rw [tagged]
    split
    · exact show '\n' ∉ "1.25".toList by decide
    · exact tokenLine valid
  · have read : readEntry release = some ("image".toList,["nginx:".toList ++ (tokenText "TAG".toList ++ releaseBack)]) := by decide
    rw [read] at here
    cases here
    rw [List.mem_singleton.mp mem]
    exact releaseClean _ (by decide)

/- A name without braces that is set, one with a default that is set, an escaped dollar sign in front of braces, and a value with a dollar sign. -/
theorem interpolatedTwice :
    deploy readEntry unset (applyEnv "image: nginx:$TAG".toList (tagged ['1'])) ≠
      deploy readEntry (tagged ['1']) "image: nginx:$TAG".toList ∧
    deploy readEntry unset (applyEnv "image: $\x7bTAG:-2\x7d".toList (tagged ['1'])) ≠
      deploy readEntry (tagged ['1']) "image: $\x7bTAG:-2\x7d".toList ∧
    deploy readEntry unset (applyEnv "image: $$\x7bTAG\x7d".toList (tagged ['1'])) ≠
      deploy readEntry (tagged ['1']) "image: $$\x7bTAG\x7d".toList ∧
    deploy readEntry unset (applyEnv "image: $\x7bTAG\x7d".toList (tagged ['a','$','b'])) ≠
      deploy readEntry (tagged ['a','$','b']) "image: $\x7bTAG\x7d".toList := by
  decide

/-! A form alone is deployed alike only as it is clean. -/
theorem namedAlone {name : Text} (valid : Name name) :
    interpolate unset (applyEnv ('$' :: name) env) = interpolate env ('$' :: name) ↔ (env name).getD [] = [] := by
  have ends : Ends [] := fun c first => by cases first
  have read := readVariable valid ends
  have free := namedFree valid []
  have same : applyEnv (name ++ []) env = name ++ [] := applyPlain (nameDollar valid) []
  rw [List.append_nil] at read free same
  rw [applyChar free,same,interpolateStep read,interpolateStep read]
  constructor
  · intro alike
    have value := List.append_cancel_right (Option.some.inj alike)
    exact value.symm
  · intro empty
    rw [formValue,formValue,empty]
    rfl

theorem valueAlone {name v : Text} (valid : Name name) (given : env name = some v) :
    interpolate unset (applyEnv (tokenText name) env) = interpolate env (tokenText name) ↔ '$' ∉ v := by
  have applied : applyEnv (tokenText name ++ []) env = v ++ [] := by
    rw [applyToken valid,given]
    rfl
  have own : interpolate env (tokenText name ++ []) = some (v ++ []) := by
    rw [interpolateStep (tokenRead valid []),formValue,given]
    rfl
  rw [List.append_nil,List.append_nil] at applied own
  rw [applied,own]
  constructor
  · intro same mem
    exact absurd ((interpolateShorter v same).2 mem) (Nat.lt_irrefl _)
  · intro plain
    have alone : interpolate unset (v ++ []) = some (v ++ []) := interpolatePlain plain []
    rw [List.append_nil] at alone
    exact alone

end ContainerWS.Docker.Templates
