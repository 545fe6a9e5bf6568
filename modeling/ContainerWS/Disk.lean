import ContainerWS.GoPath
import Mathlib.Data.List.Basic

/-! Files by their cleaned paths. Links are not followed, and directories are not looked at. -/
namespace Disks
open GoPath

structure Disk (γ : Type) where
  entries : List (Path × γ)

variable {γ : Type}

def Disk.get (d : Disk γ) (p : Path) : Option γ := d.entries.lookup p

def Disk.remove (d : Disk γ) (p : Path) : Disk γ := ⟨d.entries.filter (fun e => e.1 ≠ p)⟩

def Disk.put (d : Disk γ) (p : Path) (c : γ) : Disk γ := ⟨(p,c) :: (d.remove p).entries⟩

/- The names of the files in a directory. -/
def Disk.names (d : Disk γ) (dir : Path) : List Name :=
  d.entries.filterMap (fun e => if e.1.dropLast = dir then e.1.getLast? else none)

theorem getRemove {d : Disk γ} {p q : Path} : (d.remove p).get q = if q = p then none else d.get q := by
  unfold Disk.get Disk.remove
  induction d.entries with
  | nil => split <;> rfl
  | cons e rest ih =>
    rw [List.filter_cons]
    by_cases here : e.1 = p
    · rw [if_neg (by simp [here]),ih,List.lookup_cons]
      split
      · rfl
      · rename_i other
        rw [beq_eq_false_iff_ne.mpr (fun same => other (same.trans here))]
    · rw [if_pos (by simp [here]),List.lookup_cons,List.lookup_cons,ih]
      cases same : q == e.1 with
      | false => rfl
      | true =>
        have apart : q ≠ p := fun there => here ((eq_of_beq same).symm.trans there)
        rw [if_neg apart,if_neg apart]

theorem getPut {d : Disk γ} {p q : Path} {c : γ} : (d.put p c).get q = if q = p then some c else d.get q := by
  have below := getRemove (d := d) (p := p) (q := q)
  unfold Disk.get at below ⊢
  unfold Disk.put
  rw [List.lookup_cons,below]
  by_cases here : q = p
  · rw [if_pos here,if_pos here,beq_iff_eq.mpr here]
  · rw [if_neg here,if_neg here,beq_eq_false_iff_ne.mpr here]

end Disks
