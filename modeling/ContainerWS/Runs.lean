import Mathlib.Algebra.GroupWithZero.Nat
import Mathlib.Data.List.Basic

/-! Runs of a machine whose moves are its input: which party moves, and how whatever the machine
does not decide turns out. A result about a run is one about each state it goes through. -/
namespace Runs

variable {σ ε : Type} (step : σ → ε → Option σ)

def run : σ → List ε → Option σ
  | s,[] => some s
  | s,e :: es =>
    match step s e with
    | none => none
    | some t => run t es

/- Each move of the run is one that is allowed in the state it is made in. -/
def Guided (ok : σ → ε → Prop) : σ → List ε → Prop
  | _,[] => True
  | s,e :: es => ok s e ∧
    match step s e with
    | none => True
    | some t => Guided ok t es

instance decidableGuided (ok : σ → ε → Prop) [∀ s e, Decidable (ok s e)] : (s : σ) → (es : List ε) → Decidable (Guided step ok s es)
  | _,[] => isTrue trivial
  | s,e :: es =>
    have _ : Decidable (match step s e with
        | none => True
        | some t => Guided step ok t es) :=
      match step s e with
      | none => isTrue trivial
      | some t => decidableGuided ok t es
    inferInstanceAs (Decidable (_ ∧ _))

variable {step} {ok : σ → ε → Prop} {Inv : σ → Prop}

/- What allowed moves keep holds after a run of them. -/
theorem runGuided (keep : ∀ {s e t}, Inv s → ok s e → step s e = some t → Inv t) {es : List ε} {s t : σ} (holds : Inv s)
    (guided : Guided step ok s es) (ran : run step s es = some t) : Inv t := by
  induction es generalizing s with
  | nil =>
    cases Option.some.inj ran
    exact holds
  | cons e es ih =>
    obtain ⟨allowed,rest⟩ := guided
    rw [run] at ran
    cases moved : step s e with
    | none =>
      rw [moved] at ran
      cases ran
    | some u =>
      rw [moved] at ran rest
      exact ih (keep holds allowed moved) rest ran

theorem guidedFree (es : List ε) (s : σ) : Guided step (fun _ _ => True) s es := by
  induction es generalizing s with
  | nil => trivial
  | cons e es ih =>
    refine ⟨trivial,?_⟩
    cases step s e with
    | none => trivial
    | some u => exact ih u

theorem runKeeps (keep : ∀ {s e t}, Inv s → step s e = some t → Inv t) {es : List ε} {s t : σ} (holds : Inv s)
    (ran : run step s es = some t) : Inv t := by
  exact runGuided (fun holds _ moved => keep holds moved) holds (guidedFree es s) ran

theorem runNext {s t : σ} {e : ε} (moved : step s e = some t) (es : List ε) : run step s (e :: es) = run step t es := by
  rw [run,moved]

theorem runAppend {es fs : List ε} {s t : σ} (ran : run step s es = some t) : run step s (es ++ fs) = run step t fs := by
  induction es generalizing s with
  | nil =>
    cases Option.some.inj ran
    rfl
  | cons e es ih =>
    rw [run] at ran
    rw [List.cons_append,run]
    cases moved : step s e with
    | none =>
      rw [moved] at ran
      cases ran
    | some u =>
      rw [moved] at ran
      exact ih ran

/- Where a move leads to what has to hold exactly when it is allowed, so does each state of a run
exactly when the run is guided. -/
theorem guidedIff (one : ∀ {s e t}, Inv s → step s e = some t → (Inv t ↔ ok s e))
    (stuck : ∀ {s e}, step s e = none → ok s e) {es : List ε} {s : σ} (holds : Inv s) :
    (∀ n t, run step s (es.take n) = some t → Inv t) ↔ Guided step ok s es := by
  induction es generalizing s with
  | nil =>
    refine ⟨fun _ => trivial,?_⟩
    intro _ n t ran
    rw [List.take_nil] at ran
    cases Option.some.inj ran
    exact holds
  | cons e es ih =>
    cases moved : step s e with
    | none =>
      refine ⟨fun _ => ⟨stuck moved,by rw [moved]; trivial⟩,?_⟩
      intro _ n t ran
      cases n with
      | zero =>
        cases Option.some.inj ran
        exact holds
      | succ n =>
        rw [List.take_succ_cons,run,moved] at ran
        contradiction
    | some u =>
      constructor
      · intro all
        have next : Inv u := all 1 u (by rw [List.take_succ_cons,runNext moved]; rfl)
        refine ⟨(one holds moved).mp next,?_⟩
        rw [moved]
        refine (ih next).mp ?_
        intro n t ran
        exact all (n+1) t (by rwa [List.take_succ_cons,runNext moved])
      · rintro ⟨allowed,rest⟩ n t ran
        rw [moved] at rest
        have next := (one holds moved).mpr allowed
        cases n with
        | zero =>
          cases Option.some.inj ran
          exact holds
        | succ n =>
          rw [List.take_succ_cons,runNext moved] at ran
          exact (ih next).mpr rest n t ran

/- The same beside what every move keeps. -/
theorem guidedBeside {Aux : σ → Prop} (keep : ∀ {s e t}, Aux s → step s e = some t → Aux t)
    (one : ∀ {s e t}, Aux s → Inv s → step s e = some t → (Inv t ↔ ok s e))
    (stuck : ∀ {s e}, step s e = none → ok s e) {es : List ε} {s : σ} (beside : Aux s) (holds : Inv s) :
    (∀ n t, run step s (es.take n) = some t → Inv t) ↔ Guided step ok s es := by
  have both : (∀ n t, run step s (es.take n) = some t → Aux t ∧ Inv t) ↔ Guided step ok s es := by
    refine guidedIff ?_ stuck ⟨beside,holds⟩
    rintro s e t ⟨aux,inv⟩ moved
    rw [← one aux inv moved]
    exact ⟨And.right,fun inv' => ⟨keep aux moved,inv'⟩⟩
  rw [← both]
  constructor
  · intro all n t ran
    exact ⟨runKeeps keep beside ran,all n t ran⟩
  · intro all n t ran
    exact (all n t ran).2

/- What each allowed move costs is paid from a weight: the run costs no more than the weight it began with. -/
theorem runPays {weight : σ → Nat} {cost : ε → Nat} (pays : ∀ {s e t}, ok s e → step s e = some t → weight t+cost e ≤ weight s)
    {es : List ε} {s t : σ} (guided : Guided step ok s es) (ran : run step s es = some t) : weight t+(es.map cost).sum ≤ weight s := by
  induction es generalizing s with
  | nil =>
    cases Option.some.inj ran
    simp
  | cons e es ih =>
    obtain ⟨allowed,rest⟩ := guided
    rw [run] at ran
    cases moved : step s e with
    | none =>
      rw [moved] at ran
      cases ran
    | some u =>
      rw [moved] at ran rest
      have one := pays allowed moved
      have more := ih rest ran
      rw [List.map_cons,List.sum_cons]
      omega

end Runs
