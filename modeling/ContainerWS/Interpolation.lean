import Mathlib.Data.List.Infix
import Mathlib.Data.List.TakeWhile

/-! The interpolation of docker compose over a scalar, as it is documented: `$NAME`, `${NAME}`, the forms with a default, an error or a
replacement, and `$$` for a dollar sign. -/
namespace Interpolation

abbrev Text := List Char

abbrev Env := Text → Option Text

def unset : Env := fun _ => none

def nameStart (c : Char) : Bool := c.isAlpha || c == '_'

def nameChar (c : Char) : Bool := c.isAlphanum || c == '_'

/- A name at the front, as long as it goes on. -/
def readName : Text → Option (Text × Text)
  | [] => none
  | c :: s => if nameStart c then some (c :: s.takeWhile nameChar,s.dropWhile nameChar) else none

/- What stands between the name and the closing brace. -/
inductive Op where
  | plain
  | defaultEmpty
  | default
  | errorEmpty
  | error
  | replaceFilled
  | replace
  deriving DecidableEq

def Op.sign : Op → Text
  | .plain => []
  | .defaultEmpty => [':','-']
  | .default => ['-']
  | .errorEmpty => [':','?']
  | .error => ['?']
  | .replaceFilled => [':','+']
  | .replace => ['+']

/- The variable counts as given: it is set, or with a colon, set and not empty. -/
def Op.Given : Op → Option Text → Prop
  | .default, v => v ≠ none
  | .error, v => v ≠ none
  | .replace, v => v ≠ none
  | _, v => v.getD [] ≠ []

/- What a form comes to: a value, its argument, or an error. -/
inductive Choice where
  | value (v : Text)
  | argument
  | fails
  deriving DecidableEq

def Op.choose : Op → Option Text → Choice
  | .plain, v => .value (v.getD [])
  | .defaultEmpty, v => if v.getD [] = [] then .argument else .value (v.getD [])
  | .default, v => if v = none then .argument else .value (v.getD [])
  | .errorEmpty, v => if v.getD [] = [] then .fails else .value (v.getD [])
  | .error, v => if v = none then .fails else .value (v.getD [])
  | .replaceFilled, v => if v.getD [] = [] then .value [] else .argument
  | .replace, v => if v = none then .value [] else .argument

theorem chooseUnset {op : Op} {v : Option Text} (free : ¬op.Given v) : op.choose v = op.choose none := by
  cases op with
  | default | error | replace => rw [Decidable.not_not.mp free]
  | plain =>
    rw [Op.choose,Decidable.not_not.mp free]
    rfl
  | defaultEmpty | errorEmpty | replaceFilled =>
    rw [Op.choose,if_pos (Decidable.not_not.mp free)]
    rfl

/- Up to the brace that closes. -/
def close : Nat → Text → Option (Text × Text)
  | _, [] => none
  | depth, c :: s =>
    if c = '}' then
      match depth with
      | 0 => some ([],s)
      | depth+1 => (close depth s).map fun p => (c :: p.1,p.2)
    else if c = '{' then (close (depth+1) s).map fun p => (c :: p.1,p.2)
    else (close depth s).map fun p => (c :: p.1,p.2)

def readOp : Text → Option (Op × Text)
  | [] => some (.plain,[])
  | ':' :: '-' :: s => some (.defaultEmpty,s)
  | ':' :: '?' :: s => some (.errorEmpty,s)
  | ':' :: '+' :: s => some (.replaceFilled,s)
  | '-' :: s => some (.default,s)
  | '?' :: s => some (.error,s)
  | '+' :: s => some (.replace,s)
  | _ => none

inductive Form where
  | char (c : Char)
  | dollar
  | named (name : Text)
  | braced (name : Text) (op : Op) (arg : Text)
  deriving DecidableEq

def readBraced (s : Text) : Option (Form × Text) :=
  match readName s with
  | none => none
  | some (name,s) =>
    match close 0 s with
    | none => none
    | some (inner,rest) => (readOp inner).map fun p => (.braced name p.1 p.2,rest)

/- The form at the front of a text. A dollar sign that begins none is invalid. -/
def readForm : Text → Option (Form × Text)
  | [] => none
  | c :: s =>
    if c = '$' then
      match s with
      | [] => none
      | d :: rest =>
        if d = '$' then some (.dollar,rest)
        else if d = '{' then readBraced rest
        else (readName (d :: rest)).map fun p => (.named p.1,p.2)
    else some (.char c,s)

/- The value of a form, given what its argument comes to. -/
def formValue (inner : Text → Option Text) (vars : Env) : Form → Option Text
  | .char c => some [c]
  | .dollar => some ['$']
  | .named name => some ((vars name).getD [])
  | .braced name op arg =>
    match op.choose (vars name) with
    | .value v => some v
    | .argument => inner arg
    | .fails => none

def interpolateFrom (vars : Env) : Nat → Text → Option Text
  | _, [] => some []
  | 0, _ :: _ => none
  | fuel+1, c :: s =>
    match readForm (c :: s) with
    | none => none
    | some (form,rest) => (formValue (interpolateFrom vars fuel) vars form).bind fun v => (interpolateFrom vars fuel rest).map (v ++ ·)

/- A scalar with its variables put in, or an error. -/
def interpolate (vars : Env) (s : Text) : Option Text := interpolateFrom vars s.length s

/-! The forms are shorter than the text. -/
theorem readNameShape {s name rest : Text} (read : readName s = some (name,rest)) : s = name ++ rest ∧ name ≠ [] := by
  cases s with
  | nil => cases read
  | cons c s =>
    rw [readName] at read
    split at read
    · cases Option.some.inj read
      exact ⟨by rw [List.cons_append,List.takeWhile_append_dropWhile],List.cons_ne_nil _ _⟩
    · cases read

theorem closeShape {depth : Nat} {s inner rest : Text} (closed : close depth s = some (inner,rest)) : s = inner ++ '}' :: rest := by
  induction s generalizing depth inner with
  | nil => cases closed
  | cons c s ih =>
    have further {depth : Nat} (more : (close depth s).map (fun p => (c :: p.1,p.2)) = some (inner,rest)) :
        c :: s = inner ++ '}' :: rest := by
      obtain ⟨⟨i,r⟩,here,same⟩ := Option.map_eq_some_iff.mp more
      obtain ⟨rfl,rfl⟩ := Prod.mk.inj same
      rw [ih here]
      rfl
    rw [close.eq_def] at closed
    dsimp only at closed
    split at closed
    · rename_i brace
      cases depth with
      | zero =>
        cases Option.some.inj closed
        rw [brace]
        rfl
      | succ depth => exact further closed
    · split at closed
      · exact further closed
      · exact further closed

theorem readOpShape {s arg : Text} {op : Op} (read : readOp s = some (op,arg)) : s = op.sign ++ arg := by
  unfold readOp at read
  split at read
  all_goals first
    | (cases Option.some.inj read; rfl)
    | cases read

/- A form as it is written. -/
def Form.written : Form → Text
  | .char c => [c]
  | .dollar => ['$','$']
  | .named name => '$' :: name
  | .braced name op arg => '$' :: '{' :: (name ++ (op.sign ++ (arg ++ ['}'])))

/- What is read is written at the front of the text. -/
theorem readShape {s rest : Text} {form : Form} (read : readForm s = some (form,rest)) :
    s = form.written ++ rest ∧ ∀ c, form = .char c → c ≠ '$' := by
  cases s with
  | nil => cases read
  | cons c s =>
    rw [readForm.eq_def] at read
    dsimp only at read
    split at read
    · rename_i dollar
      rw [dollar]
      cases s with
      | nil => cases read
      | cons d s =>
        dsimp only at read
        split at read
        · rename_i second
          cases Option.some.inj read
          exact ⟨by rw [second]; rfl,fun _ other => by cases other⟩
        · split at read
          · rename_i brace
            rw [brace]
            unfold readBraced at read
            cases name : readName s with
            | none =>
              rw [name] at read
              cases read
            | some p =>
              obtain ⟨n,t⟩ := p
              rw [name] at read
              dsimp only at read
              cases closed : close 0 t with
              | none =>
                rw [closed] at read
                cases read
              | some p =>
                obtain ⟨inner,r⟩ := p
                rw [closed] at read
                obtain ⟨⟨op,arg⟩,here,same⟩ := Option.map_eq_some_iff.mp read
                obtain ⟨rfl,rfl⟩ := Prod.mk.inj same
                refine ⟨?_,fun _ other => by cases other⟩
                rw [(readNameShape name).1,closeShape closed,readOpShape here,Form.written]
                simp
          · obtain ⟨⟨n,t⟩,here,same⟩ := Option.map_eq_some_iff.mp read
            obtain ⟨rfl,rfl⟩ := Prod.mk.inj same
            exact ⟨by rw [(readNameShape here).1]; rfl,fun _ other => by cases other⟩
    · rename_i other
      cases Option.some.inj read
      exact ⟨rfl,fun d same => by cases same; exact other⟩

theorem writtenFilled (form : Form) : 0 < form.written.length := by
  cases form with
  | _ => exact Nat.zero_lt_succ _

/- The rest of a text is shorter, and with the argument of its first form still. -/
theorem readShorter {s rest : Text} {form : Form} (read : readForm s = some (form,rest)) :
    rest.length < s.length ∧ ∀ name op arg, form = .braced name op arg → arg.length + rest.length < s.length := by
  have whole := congrArg List.length (readShape read).1
  rw [List.length_append] at whole
  have filled := writtenFilled form
  refine ⟨by omega,fun name op arg same => ?_⟩
  rw [same,Form.written] at whole
  simp only [List.length_cons,List.length_append] at whole
  omega

/- Only its own argument matters to a form. -/
theorem formAlike {inner other : Text → Option Text} {form : Form}
    (same : ∀ name op arg, form = .braced name op arg → inner arg = other arg) (vars : Env) :
    formValue inner vars form = formValue other vars form := by
  cases form with
  | char c => rfl
  | dollar => rfl
  | named name => rfl
  | braced name op arg =>
    rw [formValue,formValue,same name op arg rfl]

theorem fromEnough (vars : Env) (f : Nat) :
    ∀ (g : Nat) (s : Text), s.length ≤ f → s.length ≤ g → interpolateFrom vars f s = interpolateFrom vars g s := by
  induction f with
  | zero =>
    intro g s short _
    cases s with
    | nil => rw [interpolateFrom,interpolateFrom]
    | cons c s => cases short
  | succ f ih =>
    intro g s short long
    cases s with
    | nil => rw [interpolateFrom,interpolateFrom]
    | cons c s =>
      cases g with
      | zero => cases long
      | succ g =>
        rw [interpolateFrom,interpolateFrom]
        cases read : readForm (c :: s) with
        | none => rfl
        | some p =>
          obtain ⟨form,rest⟩ := p
          obtain ⟨less,argument⟩ := readShorter read
          dsimp only
          rw [ih g rest (by omega) (by omega),formAlike fun name op arg shape => ?_]
          have inner := argument name op arg shape
          exact ih g arg (by omega) (by omega)

/- One form, and the rest. -/
theorem interpolateStep {vars : Env} {s rest : Text} {form : Form} (read : readForm s = some (form,rest)) :
    interpolate vars s = (formValue (interpolate vars) vars form).bind fun v => (interpolate vars rest).map (v ++ ·) := by
  obtain ⟨less,argument⟩ := readShorter read
  cases s with
  | nil => cases read
  | cons c s =>
    rw [List.length_cons] at less argument
    have later : interpolateFrom vars s.length rest = interpolate vars rest := fromEnough vars _ _ rest (by omega) (Nat.le_refl _)
    rw [interpolate,List.length_cons,interpolateFrom,read]
    dsimp only
    rw [later,formAlike fun name op arg shape => ?_]
    have inner := argument name op arg shape
    exact fromEnough vars _ _ arg (by omega) (Nat.le_refl _)

theorem interpolateInvalid {vars : Env} {c : Char} {s : Text} (read : readForm (c :: s) = none) : interpolate vars (c :: s) = none := by
  rw [interpolate,List.length_cons,interpolateFrom,read]

theorem interpolateChar {vars : Env} {c : Char} (other : c ≠ '$') (s : Text) :
    interpolate vars (c :: s) = (interpolate vars s).map (c :: ·) := by
  have read : readForm (c :: s) = some (.char c,s) := by
    rw [readForm.eq_def]
    exact if_neg other
  rw [interpolateStep read]
  rfl

theorem interpolatePlain {vars : Env} {v : Text} (plain : '$' ∉ v) (s : Text) :
    interpolate vars (v ++ s) = (interpolate vars s).map (v ++ ·) := by
  induction v with
  | nil => exact Option.map_id'.symm
  | cons c v ih =>
    rw [List.mem_cons,not_or] at plain
    rw [List.cons_append,interpolateChar fun same => plain.1 same.symm,ih plain.2,Option.map_map]
    rfl

/- With no variables a text only gets shorter, and does so at every dollar sign. -/
theorem interpolateShorter (s : Text) :
    ∀ {w : Text}, interpolate unset s = some w → w.length ≤ s.length ∧ ('$' ∈ s → w.length < s.length) := by
  induction length : s.length using Nat.strong_induction_on generalizing s with
  | h n ih =>
    intro w whole
    cases s with
    | nil =>
      cases Option.some.inj whole
      exact ⟨Nat.zero_le _,fun mem => by cases mem⟩
    | cons c s =>
      cases read : readForm (c :: s) with
      | none =>
        rw [interpolateInvalid read] at whole
        cases whole
      | some p =>
        obtain ⟨form,rest⟩ := p
        obtain ⟨less,argument⟩ := readShorter read
        rw [interpolateStep read] at whole
        obtain ⟨v,value,more⟩ := Option.bind_eq_some_iff.mp whole
        obtain ⟨tail,behind,rfl⟩ := Option.map_eq_some_iff.mp more
        have later := ih rest.length (by omega) rest rfl behind
        obtain ⟨shape,other⟩ := readShape read
        have size := congrArg List.length shape
        rw [List.length_append,length] at size
        rw [List.length_append]
        have strict (shorter : v.length < form.written.length) : v.length + tail.length ≤ n ∧ ('$' ∈ c :: s → v.length + tail.length < n) :=
          ⟨by omega,fun _ => by omega⟩
        cases form with
        | char d =>
          cases Option.some.inj value
          rw [show (Form.char d).written = [d] from rfl,List.length_singleton] at size
          rw [List.length_singleton]
          refine ⟨by omega,fun mem => ?_⟩
          rw [shape] at mem
          have inside : '$' ∈ rest := (List.mem_cons.mp mem).resolve_left fun same => other d rfl same.symm
          have shorter := later.2 inside
          omega
        | dollar =>
          cases Option.some.inj value
          exact strict (by decide)
        | named name =>
          cases Option.some.inj value
          exact strict (Nat.zero_lt_succ _)
        | braced name op arg =>
          have inner := argument name op arg rfl
          have short : v.length ≤ arg.length := by
            rw [formValue] at value
            cases op with
            | plain | replaceFilled | replace =>
              cases Option.some.inj value
              exact Nat.zero_le _
            | defaultEmpty | default => exact (ih arg.length (by omega) arg rfl value).1
            | errorEmpty | error => cases value
          refine strict ?_
          rw [Form.written]
          simp only [List.length_cons,List.length_append]
          omega

/-! A name, and a text that is closed. -/
structure Name (name : Text) : Prop where
  filled : name ≠ []
  start : ∀ c ∈ name.head?, nameStart c = true
  chars : ∀ c ∈ name, nameChar c = true

theorem startChar {c : Char} (start : nameStart c = true) : nameChar c = true := by
  rw [nameStart,Bool.or_eq_true] at start
  rw [nameChar,Bool.or_eq_true]
  refine start.imp_left fun alpha => ?_
  rw [Char.isAlphanum,alpha]
  rfl

theorem nameCharPlain {c : Char} (here : nameChar c = true) : c ≠ '$' ∧ c ≠ '{' ∧ c ≠ '}' := by
  refine ⟨?_,?_,?_⟩
  all_goals
    rintro rfl
    exact absurd here (by decide)

/- The text behind a name does not go on with it. -/
def Ends (rest : Text) : Prop := ∀ c ∈ rest.head?, nameChar c = false

theorem readNamed {name rest : Text} (valid : Name name) (ends : Ends rest) : readName (name ++ rest) = some (name,rest) := by
  cases name with
  | nil => exact absurd rfl valid.filled
  | cons c name =>
    have chars : ∀ d ∈ name, nameChar d = true := fun d mem => valid.chars d (List.mem_cons_of_mem c mem)
    have taken : rest.takeWhile nameChar = [] ∧ rest.dropWhile nameChar = rest := by
      cases rest with
      | nil => exact ⟨rfl,rfl⟩
      | cons d rest =>
        have stops : ¬nameChar d = true := by
          rw [ends d rfl]
          decide
        exact ⟨List.takeWhile_cons_of_neg stops,List.dropWhile_cons_of_neg stops⟩
    rw [List.cons_append,readName,if_pos (valid.start c rfl),List.takeWhile_append_of_pos chars,List.dropWhile_append_of_pos chars,
      taken.1,taken.2,List.append_nil]

theorem readNameValid {s name rest : Text} (read : readName s = some (name,rest)) : Name name ∧ Ends rest := by
  cases s with
  | nil => cases read
  | cons c s =>
    rw [readName] at read
    split at read
    · rename_i start
      cases Option.some.inj read
      refine ⟨⟨List.cons_ne_nil _ _,?_,?_⟩,?_⟩
      · intro d first
        rw [← Option.some.inj first]
        exact start
      · refine List.forall_mem_cons.mpr ⟨startChar start,fun d mem => ?_⟩
        exact List.mem_takeWhile_imp mem
      · intro d first
        have stops := List.head?_dropWhile_not nameChar s
        rw [first] at stops
        exact stops
    · cases read

/- The depth of braces behind a text, if it never falls below the start. -/
def level : Nat → Text → Option Nat
  | depth, [] => some depth
  | depth, c :: s =>
    if c = '}' then
      match depth with
      | 0 => none
      | depth+1 => level depth s
    else if c = '{' then level (depth+1) s
    else level depth s

def Balanced (s : Text) : Prop := level 0 s = some 0

theorem closeLevel {depth : Nat} {s : Text} (balanced : level depth s = some 0) (rest : Text) :
    close depth (s ++ '}' :: rest) = some (s,rest) := by
  induction s generalizing depth with
  | nil =>
    cases Option.some.inj balanced
    rfl
  | cons c s ih =>
    rw [level.eq_def] at balanced
    rw [List.cons_append,close.eq_def]
    dsimp only at balanced ⊢
    split at balanced
    · rename_i brace
      rw [if_pos brace]
      cases depth with
      | zero => cases balanced
      | succ depth =>
        dsimp only at balanced ⊢
        rw [ih balanced]
        rfl
    · rename_i other
      rw [if_neg other]
      split at balanced
      · rename_i opens
        rw [if_pos opens,ih balanced]
        rfl
      · rename_i plain
        rw [if_neg plain,ih balanced]
        rfl

theorem levelAppend (depth : Nat) (v s : Text) : level depth (v ++ s) = (level depth v).bind fun d => level d s := by
  induction v generalizing depth with
  | nil => rfl
  | cons c v ih =>
    rw [List.cons_append,level.eq_def,level.eq_def depth]
    dsimp only
    split
    · cases depth with
      | zero => rfl
      | succ depth => exact ih depth
    · split
      · exact ih (depth+1)
      · exact ih depth

theorem levelDeeper {depth behind : Nat} {v : Text} (here : level depth v = some behind) (k : Nat) :
    level (depth+k) v = some (behind+k) := by
  induction v generalizing depth with
  | nil =>
    cases Option.some.inj here
    rfl
  | cons c v ih =>
    rw [level.eq_def] at here ⊢
    dsimp only at here ⊢
    split at here
    · rename_i brace
      rw [if_pos brace]
      cases depth with
      | zero => cases here
      | succ depth =>
        rw [Nat.succ_add]
        exact ih here
    · rename_i other
      rw [if_neg other]
      split at here
      · rename_i opens
        rw [if_pos opens,Nat.add_right_comm]
        exact ih here
      · rename_i plain
        rw [if_neg plain]
        exact ih here

theorem levelBalanced {v : Text} (balanced : Balanced v) (depth : Nat) (s : Text) : level depth (v ++ s) = level depth s := by
  have same := levelDeeper balanced depth
  rw [Nat.zero_add] at same
  rw [levelAppend,same]
  rfl

theorem balancedPlain {v : Text} (plain : '{' ∉ v ∧ '}' ∉ v) : Balanced v := by
  induction v with
  | nil => rfl
  | cons c v ih =>
    rw [List.mem_cons,List.mem_cons,not_or,not_or] at plain
    rw [Balanced,level.eq_def]
    dsimp only
    rw [if_neg fun same => plain.2.1 same.symm,if_neg fun same => plain.1.1 same.symm]
    exact ih ⟨plain.1.2,plain.2.2⟩

theorem signPlain (op : Op) : '{' ∉ op.sign ∧ '}' ∉ op.sign ∧ '$' ∉ op.sign := by
  cases op <;> decide

theorem signEnds {op : Op} (some : op ≠ .plain) (rest : Text) : Ends (op.sign ++ rest) := by
  intro c first
  cases op with
  | plain => exact absurd rfl some
  | _ =>
    rw [← Option.some.inj first]
    decide

theorem readSign (op : Op) {arg : Text} (shape : op = .plain → arg = []) : readOp (op.sign ++ arg) = some (op,arg) := by
  cases op with
  | plain =>
    rw [shape rfl]
    rfl
  | _ => rfl

theorem readDollar (rest : Text) : readForm ('$' :: '$' :: rest) = some (.dollar,rest) := rfl

theorem readVariable {name rest : Text} (valid : Name name) (ends : Ends rest) :
    readForm ('$' :: (name ++ rest)) = some (.named name,rest) := by
  have read := readNamed valid ends
  cases name with
  | nil => exact absurd rfl valid.filled
  | cons c name =>
    have plain := nameCharPlain (valid.chars c List.mem_cons_self)
    rw [List.cons_append] at read ⊢
    rw [readForm.eq_def]
    dsimp only
    rw [if_pos rfl,if_neg plain.1,if_neg plain.2.1,read]
    rfl

theorem readForms {name arg : Text} (valid : Name name) (op : Op) (shape : op = .plain → arg = []) (balanced : level 0 arg = some 0)
    (rest : Text) :
    readForm ('$' :: '{' :: (name ++ (op.sign ++ (arg ++ '}' :: rest)))) = some (.braced name op arg,rest) := by
  have ends : Ends (op.sign ++ (arg ++ '}' :: rest)) := by
    by_cases some : op = .plain
    · rw [some,shape some]
      intro c first
      rw [← Option.some.inj first]
      decide
    · exact signEnds some _
  have whole : level 0 (op.sign ++ arg) = some 0 := by
    rw [levelBalanced (balancedPlain ⟨(signPlain op).1,(signPlain op).2.1⟩),balanced]
  have closed := closeLevel whole rest
  rw [List.append_assoc] at closed
  rw [readForm.eq_def]
  dsimp only
  rw [if_pos rfl,if_neg (by decide),if_pos rfl,readBraced,readNamed valid ends]
  dsimp only
  rw [closed]
  dsimp only
  rw [readSign op shape]
  rfl

end Interpolation
