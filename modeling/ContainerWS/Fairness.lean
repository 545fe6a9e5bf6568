import Mathlib.Logic.Function.Iterate
import ContainerWS.Interleaving

/-! Endless schedules of a pool. What is given its turn again and again comes to its end when each turn
lowers a measure that nothing raises. -/
namespace Interleaving

variable {σ τ ρ κ : Type} {sys : System σ τ ρ κ} {c d : Config σ τ}

theorem execStep {p : Nat} {k : κ} {t g : τ} {s : σ} {new : List τ} (here : c.pool[p]? = some t)
    (stepped : sys.next k c.shared t = some (s,g,new)) : exec sys c (.step p k) = some ⟨s,c.pool.set p g ++ new⟩ := by
  unfold exec
  dsimp only
  rw [here]
  dsimp only
  rw [stepped]

structure Schedule (sys : System σ τ ρ κ) (c : Config σ τ) where
  states : Nat → Config σ τ
  events : Nat → Event ρ κ
  start : states 0 = c
  moves : ∀ n, exec sys (states n) (events n) = some (states (n+1))

/- Until the end the turn always comes again. -/
def Fair (turn : Config σ τ → Event ρ κ → Prop) (ended : Config σ τ → Prop) (r : Schedule sys c) : Prop :=
  ∀ n, ended (r.states n) ∨ ∃ m ≥ n, turn (r.states m) (r.events m)

theorem fairEnds {turn : Config σ τ → Event ρ κ → Prop} {ended Inv : Config σ τ → Prop} {measure : Config σ τ → Nat}
    (keep : ∀ {c e d}, Inv c → exec sys c e = some d → ended d ∨ Inv d ∧ measure d ≤ measure c ∧ (turn c e → measure d < measure c))
    (holds : Inv c) (r : Schedule sys c) (fair : Fair turn ended r) : ∃ n, ended (r.states n) := by
  by_contra never
  have next (n : Nat) (held : Inv (r.states n)) : Inv (r.states (n+1)) ∧ measure (r.states (n+1)) ≤ measure (r.states n) ∧
      (turn (r.states n) (r.events n) → measure (r.states (n+1)) < measure (r.states n)) :=
    (keep held (r.moves n)).resolve_left (fun ended => never ⟨n+1,ended⟩)
  have later (n k : Nat) (held : Inv (r.states n)) : Inv (r.states (n+k)) ∧ measure (r.states (n+k)) ≤ measure (r.states n) := by
    induction k with
    | zero => exact ⟨held,Nat.le_refl _⟩
    | succ k ih =>
      obtain ⟨inv,less,_⟩ := next (n+k) ih.1
      exact ⟨inv,Nat.le_trans less ih.2⟩
  -- on a bound of the measure, from any state on
  have none (bound n : Nat) (held : Inv (r.states n)) : ¬measure (r.states n) < bound := by
    induction bound generalizing n with
    | zero => exact Nat.not_lt_zero _
    | succ bound ih =>
      intro below
      rcases fair n with ended | ⟨m,after,turned⟩
      · exact never ⟨n,ended⟩
      · obtain ⟨k,rfl⟩ := Nat.exists_eq_add_of_le after
        obtain ⟨inv,less⟩ := later n k held
        obtain ⟨inv',_,falls⟩ := next (n+k) inv
        have fell := falls turned
        exact ih (n+k+1) inv' (by omega)
  have first : Inv (r.states 0) := by
    rw [r.start]
    exact holds
  exact none _ 0 first (Nat.lt_succ_self _)

/- A step that can be taken over and over. -/
theorem forever {Stay : Config σ τ → Prop} {e : Event ρ κ} (again : ∀ {c}, Stay c → ∃ d, exec sys c e = some d ∧ Stay d)
    (holds : Stay c) : ∃ r : Schedule sys c, ∀ n, Stay (r.states n) ∧ r.events n = e := by
  let move (c : Config σ τ) : Config σ τ := (exec sys c e).getD c
  let states (n : Nat) : Config σ τ := move^[n] c
  have shifted (n : Nat) : states (n+1) = (exec sys (states n) e).getD (states n) := Function.iterate_succ_apply' _ n c
  have stays (n : Nat) : Stay (states n) := by
    induction n with
    | zero => exact holds
    | succ n ih =>
      obtain ⟨d,moved,stay⟩ := again ih
      rw [shifted,moved]
      exact stay
  refine ⟨⟨states,fun _ => e,rfl,?_⟩,fun n => ⟨stays n,rfl⟩⟩
  intro n
  obtain ⟨d,moved,_⟩ := again (stays n)
  rw [shifted,moved]
  rfl

end Interleaving
