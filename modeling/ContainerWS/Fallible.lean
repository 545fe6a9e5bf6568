import Mathlib.Data.List.Basic

/-! Computations that may fail: what a successful one is made of. -/
namespace Fallible

variable {ε α β : Type}

theorem bindOk {x : Except ε α} {f : α → Except ε β} {b : β} : (x >>= f) = .ok b ↔ ∃ a, x = .ok a ∧ f a = .ok b := by
  cases x with
  | error e => exact iff_of_false nofun (fun ⟨_,other,_⟩ => nomatch other)
  | ok a =>
    constructor
    · exact fun later => ⟨a,rfl,later⟩
    · rintro ⟨a',here,later⟩
      cases here
      exact later

theorem mapMOk {f : α → Except ε β} {l : List α} {r : List β} : l.mapM f = .ok r ↔ l.map f = r.map .ok := by
  induction l generalizing r with
  | nil =>
    cases r with
    | nil => exact iff_of_true rfl rfl
    | cons b rest => exact iff_of_false nofun nofun
  | cons a rest ih =>
    simp only [List.mapM_cons,bindOk,ih,List.map_cons]
    constructor
    · rintro ⟨b,here,s,later,whole⟩
      cases whole
      rw [here,later]
      rfl
    · intro same
      cases r with
      | nil => cases same
      | cons b s => exact ⟨b,(List.cons.inj same).1,s,(List.cons.inj same).2,rfl⟩

/- A list comes back when each of its elements does. -/
theorem mapMSelf {f : β → Except ε α} {g : α → β} {l : List α} : (l.map g).mapM f = .ok l ↔ ∀ a ∈ l, f (g a) = .ok a := by
  rw [mapMOk,List.map_map,List.map_inj_left]
  rfl

end Fallible
