import ContainerWS.Calls

/-! Programs of such calls. A call may meet a fault of the system and then leaves its
work half done; the program goes on from whatever tree it finds. The rules say what
holds when a program ends, with a value or with an error. -/
namespace FileTree
open GoPath

/- A call that fails, what it still wrote and which paths below its own it still
removed. -/
structure Fault where
  trouble : Trouble
  written : Option Nat
  gone : List Path
  deriving DecidableEq, Repr

/- The tree and the faults that the next calls will meet. -/
structure World where
  tree : Tree
  plan : List (Option Fault)

/- A program ends with a value or an error, or not at all. -/
def Sys (α : Type) : Type := World → Option (Except Errno α × World)

def Sys.pure {α : Type} (a : α) : Sys α := fun w => some (.ok a,w)

def Sys.bind {α β : Type} (x : Sys α) (f : α → Sys β) : Sys β := fun w =>
  match x w with
  | none => none
  | some (.error e,w') => some (.error e,w')
  | some (.ok a,w') => f a w'

instance : Monad Sys where
  pure := Sys.pure
  bind := Sys.bind

def Sys.fail {α : Type} (e : Errno) : Sys α := fun w => some (.error e,w)

/- The error as a value, for code that looks at it. -/
def Sys.attempt {α : Type} (x : Sys α) : Sys (Except Errno α) := fun w =>
  match x w with
  | none => none
  | some (r,w') => some (.ok r,w')

def Sys.diverge {α : Type} : Sys α := fun _ => none

/- The fault that the plan has for the next call. -/
def Sys.next : Sys (Option Fault) := fun w =>
  match w.plan with
  | [] => some (.ok none,w)
  | f :: plan => some (.ok f,{w with plan := plan})

def Sys.call {α : Type} (f : Option Fault) (act : Tree → Except Errno α × Tree) (broken : Fault → Tree → Tree) : Sys α :=
  fun w =>
    match f with
    | none => some ((act w.tree).1,{w with tree := (act w.tree).2})
    | some fault => some (.error (.trouble fault.trouble),{w with tree := broken fault w.tree})

def untouched (_ : Fault) (t : Tree) : Tree := t

def asking {α : Type} (f : Option Fault) (ask : Tree → Except Errno α) : Sys α :=
  Sys.call f (fun t => (ask t,t)) untouched

/- A call that changes the tree when it succeeds. -/
def changing {α : Type} (f : Option Fault) (change : Tree → Except Errno (α × Tree)) (broken : Fault → Tree → Tree) :
    Sys α :=
  Sys.call f (fun t => match change t with
    | .ok (a,t') => (.ok a,t')
    | .error e => (.error e,t)) broken

/- From a world with P the program ends with a value and Q, or with an error and E;
whether it may also go on for ever is said first. -/
def Ensures {α : Type} (halts : Prop) (P : World → Prop) (x : Sys α) (Q : α → World → Prop) (E : Errno → World → Prop) : Prop :=
  ∀ w, P w → match x w with
    | none => ¬halts
    | some (.ok a,w') => Q a w'
    | some (.error e,w') => E e w'

section Rules
variable {α β : Type} {halts : Prop} {P P' : World → Prop} {Q Q' : α → World → Prop} {E E' : Errno → World → Prop}

theorem ensuresPure {a : α} (holds : ∀ w, P w → Q a w) : Ensures halts P (pure a) Q E := holds

theorem ensuresFail {e : Errno} (holds : ∀ w, P w → E e w) : Ensures halts P (Sys.fail e : Sys α) Q E := holds

theorem ensuresDiverge (open' : ∀ w, P w → ¬halts) : Ensures halts P (Sys.diverge : Sys α) Q E := open'

theorem ensuresBind {x : Sys α} {f : α → Sys β} {R : β → World → Prop} (first : Ensures halts P x Q E)
    (rest : ∀ a, Ensures halts (Q a) (f a) R E) : Ensures halts P (x >>= f) R E := by
  intro w before
  have here := first w before
  show match Sys.bind x f w with | none => ¬halts | some (.ok b,w') => R b w' | some (.error e,w') => E e w'
  unfold Sys.bind
  cases ran : x w with
  | none =>
    rw [ran] at here
    exact here
  | some result =>
    obtain ⟨r,w'⟩ := result
    rw [ran] at here
    cases r with
    | error e => exact here
    | ok a => exact rest a w' here

theorem ensuresWeaken {x : Sys α} (held : Ensures halts P x Q E) (before : ∀ w, P' w → P w)
    (after : ∀ a w, Q a w → Q' a w) (failed : ∀ e w, E e w → E' e w) : Ensures halts P' x Q' E' := by
  intro w start
  have here := held w (before w start)
  cases ran : x w with
  | none =>
    rw [ran] at here
    exact here
  | some result =>
    obtain ⟨r,w'⟩ := result
    rw [ran] at here
    cases r with
    | error e => exact failed e w' here
    | ok a => exact after a w' here

theorem ensuresStronger {x : Sys α} (held : Ensures halts P x Q E) (before : ∀ w, P' w → P w) :
    Ensures halts P' x Q E := ensuresWeaken held before (fun _ _ after => after) (fun _ _ failed => failed)

theorem ensuresAttempt {x : Sys α} {R : Except Errno α → World → Prop}
    (held : Ensures halts P x (fun a w => R (.ok a) w) (fun e w => R (.error e) w)) :
    Ensures halts P (Sys.attempt x) R E := by
  intro w before
  have here := held w before
  unfold Sys.attempt
  cases ran : x w with
  | none =>
    rw [ran] at here
    exact here
  | some result =>
    obtain ⟨r,w'⟩ := result
    rw [ran] at here
    cases r <;> exact here

theorem ensuresNext {R : Option Fault → World → Prop}
    (empty : ∀ w, P w → w.plan = [] → R none w)
    (some : ∀ f plan w, P w → w.plan = f :: plan → R f {w with plan := plan}) : Ensures halts P Sys.next R E := by
  intro w before
  unfold Sys.next
  cases plan : w.plan with
  | nil => exact empty w before plan
  | cons f rest => exact some f rest w before plan

theorem ensuresCall {f : Option Fault} {act : Tree → Except Errno α × Tree} {broken : Fault → Tree → Tree}
    (works : f = none → ∀ w, P w → match act w.tree with
      | (.ok a,t) => Q a {w with tree := t}
      | (.error e,t) => E e {w with tree := t})
    (breaks : ∀ fault, f = some fault → ∀ w, P w → E (.trouble fault.trouble) {w with tree := broken fault w.tree}) :
    Ensures halts P (Sys.call f act broken) Q E := by
  intro w before
  unfold Sys.call
  cases f with
  | some fault => exact breaks fault rfl w before
  | none =>
    have here := works rfl w before
    dsimp only
    cases result : act w.tree with
    | mk r t =>
      rw [result] at here
      cases r <;> exact here

/- A loop keeps what each round keeps; the rounds done so far are counted in. -/
theorem ensuresEach {l : List α} {f : α → Sys Unit} {I : List α → World → Prop}
    (round : ∀ before a after, l = before ++ a :: after →
      Ensures halts (I before) (f a) (fun _ => I (before ++ [a])) E) :
    Ensures halts (I []) (l.forM f) (fun _ => I l) E := by
  have from' : ∀ after before, l = before ++ after →
      Ensures halts (I before) (after.forM f) (fun _ => I l) E := by
    intro after
    induction after with
    | nil =>
      intro before split
      rw [List.append_nil] at split
      exact split ▸ ensuresPure (fun _ held => held)
    | cons a after ih =>
      intro before split
      show Ensures halts (I before) (f a >>= fun _ => after.forM f) (fun _ => I l) E
      exact ensuresBind (round before a after split) (fun _ => ih (before ++ [a]) (by simp [split]))
  exact from' l [] rfl

/- A world without faults to come. -/
def Calm (w : World) : Prop := ∀ f ∈ w.plan, f = none

/- About the tree; where calm is assumed, no fault is to come. -/
def Quietly (calm : Prop) (R : Tree → Prop) (w : World) : Prop := (calm → Calm w) ∧ R w.tree

theorem ensuresFix {calm : Prop} {R : Tree → Prop} {x : Sys α}
    (each : ∀ t, R t → Ensures halts (Quietly calm (fun t' => t' = t)) x Q E) : Ensures halts (Quietly calm R) x Q E :=
  fun w before => each w.tree before.2 w ⟨before.1,rfl⟩

/- What an attempt leaves behind, whether it has worked or not. -/
def Tried {α : Type} (S : α → Tree → Prop) (F : Tree → Prop) : Except Errno α → Tree → Prop
  | .ok a => S a
  | .error _ => F

theorem ensuresTried {calm : Prop} {x : Sys α} {S : α → Tree → Prop} {F : Tree → Prop}
    (held : Ensures halts P x (fun a => Quietly calm (S a)) (fun _ => Quietly calm F)) :
    Ensures halts P (Sys.attempt x) (fun r => Quietly calm (Tried S F r)) E := ensuresAttempt held

/- A call with a fault of its own. -/
theorem ensuresMet {calm : Prop} {R : Tree → Prop} {f : Option Fault} {act : Tree → Except Errno α × Tree}
    {broken : Fault → Tree → Tree} {S : α → Tree → Prop} {F : Tree → Prop}
    (works : ∀ t a t', f = none → R t → act t = (.ok a,t') → S a t')
    (fails : ∀ t e t', f = none → R t → act t = (.error e,t') → F t')
    (breaks : ∀ fault t, f = some fault → R t → F (broken fault t)) :
    Ensures halts (Quietly calm R) (Sys.call f act broken) (fun a => Quietly calm (S a)) (fun _ => Quietly calm F) := by
  refine ensuresCall ?_ ?_
  · rintro clear w ⟨peace,held⟩
    cases result : act w.tree with
    | mk r t =>
      cases r with
      | ok a => exact ⟨peace,works w.tree a t clear held result⟩
      | error e => exact ⟨peace,fails w.tree e t clear held result⟩
  · rintro fault met w ⟨peace,held⟩
    exact ⟨peace,breaks fault w.tree met held⟩

/- A question changes nothing. -/
theorem ensuresInquired {calm : Prop} {R : Tree → Prop} {f : Option Fault} {ask : Tree → Except Errno α}
    {S : α → Tree → Prop} {F : Tree → Prop}
    (works : ∀ t a, f = none → R t → ask t = .ok a → S a t) (fails : ∀ t e, f = none → R t → ask t = .error e → F t)
    (breaks : ∀ fault t, f = some fault → R t → F t) :
    Ensures halts (Quietly calm R) (asking f ask) (fun a => Quietly calm (S a)) (fun _ => Quietly calm F) := by
  refine ensuresMet ?_ ?_ breaks
  · intro t a t' clear held result
    obtain ⟨asked,rfl⟩ := Prod.mk.inj result
    exact works t a clear held asked
  · intro t e t' clear held result
    obtain ⟨asked,rfl⟩ := Prod.mk.inj result
    exact fails t e clear held asked

theorem ensuresAsked {calm : Prop} {R : Tree → Prop} {f : Option Fault} {ask : Tree → Except Errno α}
    {S : α → Tree → Prop} {F : Tree → Prop} (quiet : calm → f = none)
    (works : ∀ t a, R t → ask t = .ok a → S a t) (fails : ∀ t e, R t → ask t = .error e → F t)
    (breaks : ¬calm → ∀ t, R t → F t) :
    Ensures halts (Quietly calm R) (asking f ask) (fun a => Quietly calm (S a))
      (fun _ => Quietly calm F) := by
  refine ensuresInquired (fun t a _ => works t a) (fun t e _ => fails t e) ?_
  intro fault t met held
  refine breaks ?_ t held
  intro still
  rw [quiet still] at met
  contradiction

/- A change with a fault of its own. -/
theorem ensuresTurned {calm : Prop} {R : Tree → Prop} {f : Option Fault} {change : Tree → Except Errno (α × Tree)}
    {broken : Fault → Tree → Tree} {S : α → Tree → Prop} {F : Tree → Prop}
    (works : ∀ t a t', f = none → R t → change t = .ok (a,t') → S a t')
    (fails : ∀ t e, f = none → R t → change t = .error e → F t)
    (breaks : ∀ fault t, f = some fault → R t → F (broken fault t)) :
    Ensures halts (Quietly calm R) (changing f change broken) (fun a => Quietly calm (S a)) (fun _ => Quietly calm F) := by
  refine ensuresMet ?_ ?_ breaks
  · intro t a t' clear held result
    cases changed : change t with
    | error e =>
      rw [changed] at result
      cases result
    | ok made =>
      obtain ⟨b,t1⟩ := made
      rw [changed] at result
      cases result
      exact works t _ _ clear held changed
  · intro t e t' clear held result
    cases changed : change t with
    | error e' =>
      rw [changed] at result
      cases result
      exact fails t e clear held changed
    | ok made =>
      obtain ⟨b,t1⟩ := made
      rw [changed] at result
      cases result

theorem ensuresChanged {calm : Prop} {R : Tree → Prop} {f : Option Fault} {change : Tree → Except Errno (α × Tree)}
    {broken : Fault → Tree → Tree} {S : α → Tree → Prop} {F : Tree → Prop} (quiet : calm → f = none)
    (works : ∀ t a t', R t → change t = .ok (a,t') → S a t') (fails : ∀ t e, R t → change t = .error e → F t)
    (breaks : ¬calm → ∀ fault t, R t → F (broken fault t)) :
    Ensures halts (Quietly calm R) (changing f change broken) (fun a => Quietly calm (S a)) (fun _ => Quietly calm F) := by
  refine ensuresTurned (fun t a t' _ => works t a t') (fun t e _ => fails t e) ?_
  intro fault t met held
  refine breaks ?_ fault t held
  intro still
  rw [quiet still] at met
  contradiction

/- A call that takes its fault from the plan. -/
theorem ensuresPlanned {calm : Prop} {R : Tree → Prop} {x : Option Fault → Sys α}
    (each : ∀ f, (calm → f = none) → Ensures halts (Quietly calm R) (x f) Q E) :
    Ensures halts (Quietly calm R) (Sys.next >>= x) Q E := by
  refine ensuresBind (Q := fun f w => (calm → f = none) ∧ Quietly calm R w) ?_ ?_
  · refine ensuresNext ?_ ?_
    · exact fun w before _ => ⟨fun _ => rfl,before⟩
    · rintro f plan w ⟨quiet,held⟩ here
      refine ⟨fun peace => quiet peace f (by simp [here]),?_,held⟩
      exact fun peace g mem => quiet peace g (by simp [here,mem])
  · intro f w before
    exact each f before.1 w before.2

end Rules

/- What was there still is, as it was. -/
def Keeps (t t' : Tree) : Prop := ∀ q e, t.get q = some e → t'.get q = some e

theorem keepsGrows {t t' : Tree} (keeps : Keeps t t') : Grows t t' :=
  fun q e here => ⟨e,keeps q e here,alikeSelf e⟩

theorem keepsTrans {a b c : Tree} (first : Keeps a b) (second : Keeps b c) : Keeps a c :=
  fun q e here => second q e (first q e here)

theorem mkdirKeeps {t t' : Tree} {parts : List Name} {perm : Nat} (made : t.mkdir parts perm = .ok t') : Keeps t t' := by
  unfold Tree.mkdir at made
  split at made <;> try contradiction
  · split at made <;> try contradiction
    cases made
    exact fun _ _ here => here
  · rename_i q n missing
    split at made <;> try contradiction
    rename_i plain
    cases made
    obtain ⟨m,more,shape,dir,free⟩ := missingShape missing
    cases shape
    intro r e here
    rw [getPut (fitsDir _ plain dir),if_neg]
    · exact here
    · rintro rfl
      rw [free] at here
      contradiction

theorem mkdirUpKeeps {t t' : Tree} {perm : Nat} : ∀ {up : List Name}, t.mkdirUp perm up = .ok t' → Keeps t t' := by
  intro up
  induction up generalizing t' with
  | nil =>
    intro made
    cases made
    exact fun _ _ here => here
  | cons n up ih =>
    intro made
    unfold Tree.mkdirUp at made
    split at made
    · split at made <;> try contradiction
      cases made
      exact fun _ _ here => here
    · cases first : t.mkdirUp perm up with
      | error e =>
        rw [first] at made
        contradiction
      | ok t1 =>
        rw [first] at made
        exact keepsTrans (ih first) (mkdirKeeps made)

theorem mkdirAllKeeps {t t' : Tree} {parts : List Name} {perm : Nat} (made : t.mkdirAll parts perm = .ok t') :
    Keeps t t' := mkdirUpKeeps made

/- A change without a value. -/
def plainly (made : Except Errno Tree) : Except Errno (Unit × Tree) := made.map (fun t => ((),t))

theorem plainlyOk {made : Except Errno Tree} {u : Unit} {t : Tree} : plainly made = .ok (u,t) ↔ made = .ok t := by
  cases made <;> simp [plainly,Except.map]

theorem plainlyError {made : Except Errno Tree} {e : Errno} : plainly made = .error e ↔ made = .error e := by
  cases made <;> simp [plainly,Except.map]

/- What is left of a change that breaks off. -/
def half (t : Tree) : Except Errno Tree → Tree
  | .ok t' => t'
  | .error _ => t

namespace Os

def lstat (f : Option Fault) (parts : List Name) : Sys Entry := asking f (fun t => t.lstat parts)

def stat (f : Option Fault) (parts : List Name) : Sys Entry := asking f (fun t => t.stat parts)

def readDir (f : Option Fault) (parts : List Name) : Sys (List (Name × Bool)) := asking f (fun t => t.readDir parts)

def openFile (f : Option Fault) (parts : List Name) : Sys Path := asking f (fun t => t.openFile parts)

/- The permission bits that the process lets through. -/
def masked (umask mode : Nat) : Nat := mode &&& 0o777 &&& (0o777 ^^^ (umask &&& 0o777))

def mkdirAll (umask : Nat) (f : Option Fault) (parts : List Name) (perm : Nat) : Sys Unit :=
  changing f (fun t => plainly (t.mkdirAll parts (masked umask perm)))
    (fun fault t => half t (t.mkdirAll (parts.take (fault.written.getD 0)) (masked umask perm)))

def rename (f : Option Fault) (p q : List Name) : Sys Unit := changing f (fun t => plainly (t.rename p q)) untouched

def removeAll (f : Option Fault) (parts : List Name) : Sys Unit :=
  Sys.call f (fun t => t.removeAll parts) (fun fault t => t.removeSome parts fault.gone)

def create (umask : Nat) (f : Option Fault) (parts : List Name) (perm : Nat) : Sys Path :=
  changing f (fun t => t.create parts (masked umask perm)) untouched

/- `io.Copy` from one open file to another. -/
def copy (f : Option Fault) (r l : Path) : Sys Unit :=
  changing f (fun t => do .ok ((),t.write l (← t.read r)))
    (fun fault t => match t.read r, fault.written with
    | .ok data, some n => t.write l (data.take n)
    | _, _ => t)

def readFile (f : Option Fault) (parts : List Name) : Sys Bytes := asking f (fun t => do t.read (← t.openFile parts))

def writeFile (umask : Nat) (f : Option Fault) (parts : List Name) (data : Bytes) (perm : Nat) : Sys Unit :=
  changing f (fun t => do
      let (l,t') ← t.create parts (masked umask perm)
      .ok ((),t'.write l data))
    (fun fault t => match t.create parts (masked umask perm), fault.written with
    | .ok (l,t'), some n => t'.write l (data.take n)
    | _, _ => t)

theorem mkdirHalfKeeps (t : Tree) (parts : List Name) (perm : Nat) : Keeps t (half t (t.mkdirAll parts perm)) := by
  cases made : t.mkdirAll parts perm with
  | error e => exact fun _ _ here => here
  | ok t' => exact mkdirAllKeeps made

end Os

end FileTree
