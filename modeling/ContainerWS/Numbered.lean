import Mathlib.Data.List.Basic
import Mathlib.Data.List.Nodup

/-! Tables whose rows carry a number of their own, drawn when a row comes in. -/
namespace Numbered

structure Kind (ρ : Type) where
  ident : ρ → Nat
  number : Nat → ρ → ρ
  identNumber : ∀ n r, ident (number n r) = n

variable {ρ : Type} {k : Kind ρ}

structure Rows (k : Kind ρ) where
  rows : List ρ
  drawn : Nat
  bounded : ∀ r ∈ rows, k.ident r < drawn
  idents : (rows.map k.ident).Nodup

def empty (k : Kind ρ) : Rows k := ⟨[],0,by simp,by simp⟩

theorem same (t : Rows k) {q r : ρ} (left : q ∈ t.rows) (right : r ∈ t.rows) (number : k.ident q = k.ident r) : q = r :=
  List.inj_on_of_nodup_map t.idents left right number

theorem freshBounded (t : Rows k) (r : ρ) : ∀ q ∈ t.rows ++ [k.number t.drawn r], k.ident q < t.drawn+1 := by
  intro q mem
  rcases List.mem_append.mp mem with old | new
  · exact Nat.lt_succ_of_lt (t.bounded q old)
  · rw [List.mem_singleton.mp new,k.identNumber]
    exact Nat.lt_succ_self _

theorem freshIdents (t : Rows k) (r : ρ) : ((t.rows ++ [k.number t.drawn r]).map k.ident).Nodup := by
  rw [List.map_append,List.nodup_append]
  refine ⟨t.idents,by simp,?_⟩
  intro a left b right
  obtain ⟨q,mem,rfl⟩ := List.mem_map.mp left
  have below := t.bounded q mem
  simp only [List.map_cons,List.map_nil,List.mem_singleton,k.identNumber] at right
  omega

def Rows.insert (t : Rows k) (r : ρ) : Rows k :=
  ⟨t.rows ++ [k.number t.drawn r],t.drawn+1,freshBounded t r,freshIdents t r⟩

theorem mapBounded (t : Rows k) {f : ρ → ρ} (keeps : ∀ r, k.ident (f r) = k.ident r) : ∀ q ∈ t.rows.map f, k.ident q < t.drawn := by
  intro q mem
  obtain ⟨old,inside,rfl⟩ := List.mem_map.mp mem
  rw [keeps]
  exact t.bounded old inside

theorem mapIdents (t : Rows k) {f : ρ → ρ} (keeps : ∀ r, k.ident (f r) = k.ident r) : ((t.rows.map f).map k.ident).Nodup := by
  rw [List.map_map,show k.ident ∘ f = k.ident from funext keeps]
  exact t.idents

/- A statement that changes rows but no number. -/
def Rows.change (t : Rows k) (f : ρ → ρ) (keeps : ∀ r, k.ident (f r) = k.ident r) : Rows k :=
  ⟨t.rows.map f,t.drawn,mapBounded t keeps,mapIdents t keeps⟩

/- The row of the number is overwritten. -/
def put (k : Kind ρ) (r q : ρ) : ρ := if k.ident q = k.ident r then r else q

theorem identPut (r q : ρ) : k.ident (put k r q) = k.ident q := by
  unfold put
  split
  · rename_i here
    exact here.symm
  · rfl

def Rows.save (t : Rows k) (r : ρ) : Rows k := t.change (put k r) (identPut r)

theorem keptIdents (t : Rows k) (kept : ρ → Bool) : ((t.rows.filter kept).map k.ident).Nodup :=
  t.idents.sublist ((List.filter_sublist).map k.ident)

/- The rows of these numbers are taken away. -/
def Rows.remove (t : Rows k) (ids : List Nat) : Rows k :=
  ⟨t.rows.filter (fun r => !ids.contains (k.ident r)),t.drawn,fun r mem => t.bounded r (List.mem_of_mem_filter mem),keptIdents t _⟩

theorem memInsert {t : Rows k} {r q : ρ} : q ∈ (t.insert r).rows ↔ q ∈ t.rows ∨ q = k.number t.drawn r := by
  simp [Rows.insert]

/- What is there after a row has been saved over one of its number. -/
theorem memSave {t : Rows k} {old r q : ρ} (mem : old ∈ t.rows) (here : k.ident old = k.ident r) :
    q ∈ (t.save r).rows ↔ q = r ∨ (q ∈ t.rows ∧ k.ident q ≠ k.ident r) := by
  constructor
  · intro inside
    obtain ⟨other,there,rfl⟩ := List.mem_map.mp inside
    unfold put
    split
    · exact .inl rfl
    · rename_i different
      exact .inr ⟨there,different⟩
  · rintro (rfl | ⟨there,different⟩)
    · exact List.mem_map.mpr ⟨old,mem,if_pos here⟩
    · exact List.mem_map.mpr ⟨q,there,if_neg different⟩

/- Where only what is not looked at is overwritten, all looks as before. -/
theorem mapSave {α : Type} {t : Rows k} {old r : ρ} (f : ρ → α) (mem : old ∈ t.rows) (here : k.ident old = k.ident r) (seen : f old = f r) :
    (t.save r).rows.map f = t.rows.map f := by
  rw [Rows.save,Rows.change,List.map_map]
  apply List.map_congr_left
  intro q inside
  rw [Function.comp_apply,put]
  split
  · rename_i number
    rw [← seen,same t inside mem (number.trans here.symm)]
  · rfl

end Numbered
