import Mathlib.Order.Defs.Unbundled

/-! What programs leave of their state: a relation of the state after to the one before that each
call keeps, and so each program of such calls. -/
namespace Frames

variable {σ α β : Type} {R : σ → σ → Prop}

def Keeps (R : σ → σ → Prop) (x : StateM σ α) : Prop := ∀ s, R s (x.run s).2

/- What is known of the value that a program comes to. -/
def Gives (P : α → Prop) (x : StateM σ α) : Prop := ∀ s, P (x.run s).1

theorem givesPure {P : α → Prop} {a : α} (holds : P a) : Gives P (pure a : StateM σ α) := fun _ => holds

theorem givesBind {P : β → Prop} {x : StateM σ α} {f : α → StateM σ β} (rest : ∀ a, Gives P (f a)) : Gives P (x >>= f) :=
  fun _ => rest _ _

theorem keepsModify {f : σ → σ} (change : ∀ s, R s (f s)) : Keeps R (modify f : StateM σ PUnit) := change

/- What is read is the state that the program goes on from. -/
theorem keepsRead {f : σ → StateM σ α} (rest : ∀ s, R s ((f s).run s).2) : Keeps R (get >>= f) := rest

variable [IsPreorder σ R]

theorem keepsPure (a : α) : Keeps R (pure a : StateM σ α) := fun s => refl s

theorem keepsGet : Keeps R (get : StateM σ σ) := fun s => refl s

theorem keepsBind {x : StateM σ α} {f : α → StateM σ β} (first : Keeps R x) (rest : ∀ a, Keeps R (f a)) : Keeps R (x >>= f) :=
  fun s => IsTrans.trans _ _ _ (first s) (rest _ _)

/- Where the first part comes to certain values only. -/
theorem keepsGiven {P : α → Prop} {x : StateM σ α} {f : α → StateM σ β} (first : Keeps R x) (gives : Gives P x)
    (rest : ∀ a, P a → Keeps R (f a)) : Keeps R (x >>= f) := fun s => IsTrans.trans _ _ _ (first s) (rest _ (gives s) _)

/- From one state: the rest goes on with the value that the first part comes to there. -/
theorem keepsThen {x : StateM σ α} {f : α → StateM σ β} {s : σ} (first : R s (x.run s).2) (rest : Keeps R (f (x.run s).1)) :
    R s ((x >>= f).run s).2 := IsTrans.trans _ _ _ first (rest _)

theorem keepsEach {l : List α} {f : α → StateM σ PUnit} (each : ∀ a ∈ l, Keeps R (f a)) : Keeps R (l.forM f) := by
  induction l with
  | nil => exact keepsPure _
  | cons a l ih =>
    exact keepsBind (each a List.mem_cons_self) (fun _ => ih (fun b mem => each b (List.mem_cons_of_mem _ mem)))

end Frames
