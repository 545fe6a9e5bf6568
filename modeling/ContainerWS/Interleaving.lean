import Mathlib.Data.List.Basic
import Mathlib.Data.List.Count

/-! Pools of goroutines under an arbitrary scheduler. An event lets a new call
enter the pool or lets one goroutine take one atomic step; a step may start
further goroutines. Nothing is fair here: every list of events is a schedule,
and a result about a run is a result about each of its prefixes. -/
namespace Interleaving

structure Config (σ τ : Type) where
  shared : σ
  pool : List τ

inductive Event (ρ κ : Type) where
  | call (request : ρ)
  | step (index : Nat) (choice : κ)
  deriving DecidableEq, Repr

/- `next` is one atomic step: the shared state after it, the continuation of
the goroutine itself and the goroutines it starts. `choice` resolves what the
program does not decide, such as the outcome of a call into the outside. -/
structure System (σ τ ρ κ : Type) where
  start : ρ → τ
  next : κ → σ → τ → Option (σ × τ × List τ)

variable {σ τ ρ κ : Type}

def exec (sys : System σ τ ρ κ) (c : Config σ τ) : Event ρ κ → Option (Config σ τ)
  | .call r => some ⟨c.shared,c.pool ++ [sys.start r]⟩
  | .step i k =>
    match c.pool[i]? with
    | none => none
    | some t =>
      match sys.next k c.shared t with
      | none => none
      | some (s,t',new) => some ⟨s,c.pool.set i t' ++ new⟩

def run (sys : System σ τ ρ κ) : Config σ τ → List (Event ρ κ) → Option (Config σ τ)
  | c,[] => some c
  | c,e::es =>
    match exec sys c e with
    | none => none
    | some d => run sys d es

/- A guard speaks about the state before a step and the goroutine about to take
it. Calls may always arrive. -/
def Allowed (ok : Config σ τ → τ → Prop) (c : Config σ τ) : Event ρ κ → Prop
  | .call _ => True
  | .step i _ => ∀ t, c.pool[i]? = some t → ok c t

instance (ok : Config σ τ → τ → Prop) [∀ c t, Decidable (ok c t)] (c : Config σ τ)
    (e : Event ρ κ) : Decidable (Allowed ok c e) :=
  match e with
  | .call _ => isTrue trivial
  | .step i _ =>
    match h : c.pool[i]? with
    | none => isTrue (by intro t found; rw [h] at found; contradiction)
    | some t => decidable_of_iff (ok c t)
        ⟨by intro good u found; rw [h] at found; cases found; exact good,fun all => all t h⟩

/- Every step of the schedule meets the guard in the state it starts from. -/
def Along (sys : System σ τ ρ κ) (ok : Config σ τ → τ → Prop) :
    Config σ τ → List (Event ρ κ) → Prop
  | _,[] => True
  | c,e::es => Allowed ok c e ∧
    match exec sys c e with
    | none => True
    | some d => Along sys ok d es

instance decidableAlong (sys : System σ τ ρ κ) (ok : Config σ τ → τ → Prop)
    [∀ c t, Decidable (ok c t)] :
    (c : Config σ τ) → (es : List (Event ρ κ)) → Decidable (Along sys ok c es)
  | _,[] => isTrue trivial
  | c,e::es =>
    have _ : Decidable (match exec sys c e with
        | none => True
        | some d => Along sys ok d es) :=
      match exec sys c e with
      | none => isTrue trivial
      | some d => decidableAlong sys ok d es
    inferInstanceAs (Decidable (_ ∧ _))

/- What has to be shown once per invariant: a new call keeps it, and so does
every step whose guard holds. -/
structure Preserved (sys : System σ τ ρ κ) (ok : Config σ τ → τ → Prop)
    (Inv : Config σ τ → Prop) : Prop where
  call : ∀ c r, Inv c → Inv ⟨c.shared,c.pool ++ [sys.start r]⟩
  step : ∀ c i t k s t' new, Inv c → c.pool[i]? = some t → ok c t →
    sys.next k c.shared t = some (s,t',new) → Inv ⟨s,c.pool.set i t' ++ new⟩

/- The two ways a configuration moves. -/
inductive Moved (sys : System σ τ ρ κ) (c : Config σ τ) : Event ρ κ → Config σ τ → Prop where
  | call (r : ρ) : Moved sys c (.call r) ⟨c.shared,c.pool ++ [sys.start r]⟩
  | step {i k t s t' new} (found : c.pool[i]? = some t) (stepped : sys.next k c.shared t = some (s,t',new)) :
      Moved sys c (.step i k) ⟨s,c.pool.set i t' ++ new⟩

theorem execMoved {sys : System σ τ ρ κ} {c d : Config σ τ} {e : Event ρ κ}
    (ran : exec sys c e = some d) : Moved sys c e d := by
  cases e with
  | call r =>
    cases Option.some.inj ran
    exact .call r
  | step i k =>
    simp only [exec] at ran
    split at ran <;> try contradiction
    rename_i t found
    split at ran <;> try contradiction
    rename_i s t' new stepped
    cases Option.some.inj ran
    exact .step found stepped

theorem execPreserved {sys : System σ τ ρ κ} {ok : Config σ τ → τ → Prop}
    {Inv : Config σ τ → Prop} (keep : Preserved sys ok Inv) {c d : Config σ τ} {e : Event ρ κ}
    (holds : Inv c) (allowed : Allowed ok c e) (ran : exec sys c e = some d) : Inv d := by
  cases execMoved ran with
  | call r => exact keep.call c r holds
  | step found stepped => exact keep.step _ _ _ _ _ _ _ holds found (allowed _ found) stepped

/- A guard may also speak about the choice a step makes. -/
def Permitted (ok : Config σ τ → κ → τ → Prop) (c : Config σ τ) : Event ρ κ → Prop
  | .call _ => True
  | .step i k => ∀ t, c.pool[i]? = some t → ok c k t

instance (ok : Config σ τ → κ → τ → Prop) [∀ c k t, Decidable (ok c k t)] (c : Config σ τ)
    (e : Event ρ κ) : Decidable (Permitted ok c e) :=
  match e with
  | .call _ => isTrue trivial
  | .step i k =>
    match h : c.pool[i]? with
    | none => isTrue (by intro t found; rw [h] at found; contradiction)
    | some t => decidable_of_iff (ok c k t)
        ⟨by intro good u found; rw [h] at found; cases found; exact good,fun all => all t h⟩

def Guided (sys : System σ τ ρ κ) (ok : Config σ τ → Event ρ κ → Prop) :
    Config σ τ → List (Event ρ κ) → Prop
  | _,[] => True
  | c,e::es => ok c e ∧
    match exec sys c e with
    | none => True
    | some d => Guided sys ok d es

instance decidableGuided (sys : System σ τ ρ κ) (ok : Config σ τ → Event ρ κ → Prop)
    [∀ c e, Decidable (ok c e)] :
    (c : Config σ τ) → (es : List (Event ρ κ)) → Decidable (Guided sys ok c es)
  | _,[] => isTrue trivial
  | c,e::es =>
    have _ : Decidable (match exec sys c e with
        | none => True
        | some d => Guided sys ok d es) :=
      match exec sys c e with
      | none => isTrue trivial
      | some d => decidableGuided sys ok d es
    inferInstanceAs (Decidable (_ ∧ _))

theorem alongGuided {sys : System σ τ ρ κ} {ok : Config σ τ → τ → Prop} {c : Config σ τ}
    {es : List (Event ρ κ)} (guarded : Along sys ok c es) : Guided sys (Allowed ok) c es := by
  induction es generalizing c with
  | nil => trivial
  | cons e es ih =>
    obtain ⟨allowed,rest⟩ := guarded
    refine ⟨allowed,?_⟩
    cases h : exec sys c e with
    | none => trivial
    | some d =>
      simp only [h] at rest
      exact ih rest

/- The invariant rule: what every guarded event keeps holds after a whole run. -/
theorem runGuided {sys : System σ τ ρ κ} {ok : Config σ τ → Event ρ κ → Prop}
    {Inv : Config σ τ → Prop}
    (keep : ∀ {c e d}, Inv c → ok c e → exec sys c e = some d → Inv d)
    {es : List (Event ρ κ)} {c d : Config σ τ} (holds : Inv c) (guided : Guided sys ok c es)
    (ran : run sys c es = some d) : Inv d := by
  induction es generalizing c with
  | nil =>
    cases Option.some.inj ran
    exact holds
  | cons e es ih =>
    obtain ⟨allowed,rest⟩ := guided
    simp only [run] at ran
    cases h : exec sys c e with
    | none => simp [h] at ran
    | some m =>
      simp only [h] at ran rest
      exact ih (keep holds allowed h) rest ran

theorem runPreserved {sys : System σ τ ρ κ} {ok : Config σ τ → τ → Prop}
    {Inv : Config σ τ → Prop} (keep : Preserved sys ok Inv) {es : List (Event ρ κ)}
    {c d : Config σ τ} (holds : Inv c) (guarded : Along sys ok c es)
    (ran : run sys c es = some d) : Inv d :=
  runGuided (fun holds allowed step => execPreserved keep holds allowed step) holds
    (alongGuided guarded) ran

theorem runAppend (sys : System σ τ ρ κ) (c : Config σ τ) (before after : List (Event ρ κ)) :
    run sys c (before ++ after) = (run sys c before).bind (fun d => run sys d after) := by
  induction before generalizing c with
  | nil => rfl
  | cons e es ih =>
    simp only [List.cons_append,run]
    cases exec sys c e with
    | none => rfl
    | some m => exact ih m

theorem guidedAppend {sys : System σ τ ρ κ} {ok : Config σ τ → Event ρ κ → Prop}
    {before after : List (Event ρ κ)} {c d : Config σ τ} (ran : run sys c before = some d)
    (guided : Guided sys ok c (before ++ after)) :
    Guided sys ok c before ∧ Guided sys ok d after := by
  induction before generalizing c with
  | nil =>
    cases Option.some.inj ran
    exact ⟨trivial,guided⟩
  | cons e es ih =>
    obtain ⟨allowed,rest⟩ := guided
    simp only [run] at ran
    cases h : exec sys c e with
    | none => simp [h] at ran
    | some m =>
      simp only [h] at ran rest
      obtain ⟨left,right⟩ := ih ran rest
      refine ⟨⟨allowed,?_⟩,right⟩
      simp only [h]
      exact left

theorem alongAppend {sys : System σ τ ρ κ} {ok : Config σ τ → τ → Prop} {before after : List (Event ρ κ)} {c d : Config σ τ}
    (ran : run sys c before = some d) (first : Along sys ok c before) (rest : Along sys ok d after) :
    Along sys ok c (before ++ after) := by
  induction before generalizing c with
  | nil =>
    cases Option.some.inj ran
    exact rest
  | cons e es ih =>
    obtain ⟨allowed,later⟩ := first
    refine ⟨allowed,?_⟩
    simp only [run] at ran
    cases h : exec sys c e with
    | none => trivial
    | some m =>
      simp only [h] at ran later
      exact ih ran later

/- An invariant already established may strengthen the guard of the next one. -/
theorem alongStrengthen {sys : System σ τ ρ κ} {ok : Config σ τ → τ → Prop}
    {Inv : Config σ τ → Prop} (keep : Preserved sys ok Inv) {es : List (Event ρ κ)}
    {c : Config σ τ} (holds : Inv c) (guarded : Along sys ok c es) :
    Along sys (fun c t => ok c t ∧ Inv c) c es := by
  induction es generalizing c with
  | nil => trivial
  | cons e es ih =>
    obtain ⟨allowed,rest⟩ := guarded
    refine ⟨?_,?_⟩
    · cases e with
      | call r => trivial
      | step i k => exact fun t found => ⟨allowed t found,holds⟩
    · cases h : exec sys c e with
      | none => trivial
      | some m =>
        simp only [h] at rest
        exact ih (execPreserved keep holds allowed h) rest

/-! Tokens. Each goroutine carries a number of tokens; a step moves tokens
between the goroutine and the shared state, so counting them over the pool
turns "at most one goroutine is there" into arithmetic. -/

def load (w : τ → Nat) : List τ → Nat
  | [] => 0
  | t::pool => w t + load w pool

@[simp] theorem loadNil (w : τ → Nat) : load w [] = 0 := rfl

@[simp] theorem loadCons (w : τ → Nat) (t : τ) (pool : List τ) :
    load w (t :: pool) = w t + load w pool := rfl

@[simp] theorem loadAppend (w : τ → Nat) (a b : List τ) :
    load w (a ++ b) = load w a + load w b := by
  induction a with
  | nil => exact (Nat.zero_add _).symm
  | cons t a ih => rw [List.cons_append,loadCons,loadCons,ih,Nat.add_assoc]

theorem loadSet (w : τ → Nat) {pool : List τ} {i : Nat} {t : τ} (t' : τ)
    (found : pool[i]? = some t) : load w (pool.set i t') + w t = load w pool + w t' := by
  induction pool generalizing i with
  | nil => simp at found
  | cons head tail ih =>
    cases i with
    | zero =>
      cases Option.some.inj found
      simp only [List.set_cons_zero,loadCons]
      omega
    | succ i =>
      have inner := ih (by simpa using found)
      simp only [List.set_cons_succ,loadCons]
      omega

theorem loadStep (w : τ → Nat) {pool : List τ} {i : Nat} {t : τ} (t' : τ) (new : List τ)
    (found : pool[i]? = some t) :
    load w (pool.set i t' ++ new) + w t = load w pool + w t' + load w new := by
  have h := loadSet w t' found
  rw [loadAppend]
  omega

theorem loadMember (w : τ → Nat) {pool : List τ} {t : τ} (mem : t ∈ pool) :
    w t ≤ load w pool := by
  induction pool with
  | nil => simp at mem
  | cons head tail ih =>
    rw [loadCons]
    rcases List.mem_cons.mp mem with rfl | inside
    · omega
    · have h := ih inside
      omega

theorem loadZero (w : τ → Nat) (pool : List τ) :
    load w pool = 0 ↔ ∀ t ∈ pool, w t = 0 := by
  induction pool with
  | nil => simp
  | cons head tail ih => simp [loadCons,ih]

theorem loadPositive (w : τ → Nat) {pool : List τ} (some : 0 < load w pool) :
    ∃ t ∈ pool, 0 < w t := by
  by_contra none
  have zero : load w pool = 0 := (loadZero w pool).mpr (by
    intro t mem
    by_contra positive
    exact none ⟨t,mem,Nat.pos_of_ne_zero positive⟩)
  omega

/- Two different goroutines hold two shares of the load. -/
theorem loadTwo (w : τ → Nat) {pool : List τ} {i j : Nat} {a b : τ} (different : i ≠ j)
    (left : pool[i]? = some a) (right : pool[j]? = some b) : w a + w b ≤ load w pool := by
  induction pool generalizing i j with
  | nil => simp at left
  | cons head tail ih =>
    rw [loadCons]
    cases i with
    | zero =>
      cases j with
      | zero => contradiction
      | succ j =>
        cases Option.some.inj left
        have mem : b ∈ tail := List.mem_of_getElem? (by simpa using right)
        have h := loadMember w mem
        omega
    | succ i =>
      cases j with
      | zero =>
        cases Option.some.inj right
        have mem : a ∈ tail := List.mem_of_getElem? (by simpa using left)
        have h := loadMember w mem
        omega
      | succ j =>
        have inLeft : tail[i]? = some a := by simpa using left
        have inRight : tail[j]? = some b := by simpa using right
        have h := ih (by omega) inLeft inRight
        omega

theorem memStep {pool new : List τ} {i : Nat} {t' u : τ} (mem : u ∈ pool.set i t' ++ new) :
    u ∈ pool ∨ u = t' ∨ u ∈ new := by
  rcases List.mem_append.mp mem with old | fresh
  · rcases List.mem_or_eq_of_mem_set old with inside | same
    · exact .inl inside
    · exact .inr (.inl same)
  · exact .inr (.inr fresh)

/- The other goroutines stay where they are. -/
theorem memKeep {pool new : List τ} {i : Nat} {t t' u : τ} (found : pool[i]? = some t)
    (mem : u ∈ pool) (other : u ≠ t) : u ∈ pool.set i t' ++ new := by
  obtain ⟨j,bound,same⟩ := List.getElem_of_mem mem
  have different : i ≠ j := by
    rintro rfl
    have here := List.getElem?_eq_some_iff.mp found
    exact other (same.symm.trans here.2)
  apply List.mem_append_left
  rw [← same,← List.getElem_set_ne different (by simpa using bound)]
  exact List.getElem_mem _

/- A property of every goroutine survives when the stepping one and the new
ones have it afterwards. -/
theorem everyStep {P : τ → Prop} {pool new : List τ} {i : Nat} {t' : τ}
    (others : ∀ u ∈ pool, P u) (self : P t') (started : ∀ u ∈ new, P u) :
    ∀ u ∈ pool.set i t' ++ new, P u := by
  intro u mem
  rcases memStep mem with old | rfl | fresh
  · exact others u old
  · exact self
  · exact started u fresh

theorem everyBeside {P : τ → Prop} {pool new : List τ} {i : Nat} {t' : τ}
    (others : ∀ j u, j ≠ i → pool[j]? = some u → P u) (self : P t') (started : ∀ u ∈ new, P u) :
    ∀ u ∈ pool.set i t' ++ new, P u := by
  intro u mem
  rcases List.mem_append.mp mem with old | fresh
  · obtain ⟨j,found⟩ := List.mem_iff_getElem?.mp old
    by_cases here : j = i
    · subst here
      rw [List.getElem?_set_self'] at found
      cases h : pool[j]? with
      | none => simp [h] at found
      | some t =>
        simp only [h] at found
        cases Option.some.inj found
        exact self
    · rw [List.getElem?_set_ne (Ne.symm here)] at found
      exact others j u here found
  · exact started u fresh

theorem loadLe {v w : τ → Nat} (below : ∀ t, v t ≤ w t) (pool : List τ) : load v pool ≤ load w pool := by
  induction pool with
  | nil => exact Nat.le_refl 0
  | cons t rest ih =>
    have here := below t
    simp only [loadCons]
    omega

theorem loadAdd (v w : τ → Nat) (pool : List τ) :
    load (fun t => v t + w t) pool = load v pool + load w pool := by
  induction pool with
  | nil => rfl
  | cons t rest ih =>
    simp only [loadCons,ih]
    omega

end Interleaving
