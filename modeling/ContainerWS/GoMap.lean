import Mathlib.Data.List.Basic

/-! Go's maps from texts to values: rows with different keys, in an order that nothing looks at. -/
namespace GoMap

structure Entries (α : Type) where
  rows : List (String × α)
  distinct : (rows.map Prod.fst).Nodup

variable {α β γ : Type}

instance [DecidableEq α] : DecidableEq (Entries α) := fun d e =>
  decidable_of_iff (d.rows = e.rows) ⟨fun same => by cases d; cases e; cases same; rfl,fun same => by rw [same]⟩

def empty : Entries α := ⟨[],List.nodup_nil⟩

def single (k : String) (a : α) : Entries α := ⟨[(k,a)],by simp⟩

def Entries.get (d : Entries α) (k : String) : Option α := d.rows.lookup k

/- Another value under each key. -/
def Entries.map (f : α → β) (d : Entries α) : Entries β where
  rows := d.rows.map (fun r => (r.1,f r.2))
  distinct := by
    rw [List.map_map]
    exact d.distinct

@[ext] theorem Entries.ext {d e : Entries α} (same : d.rows = e.rows) : d = e := by
  cases d
  cases e
  cases same
  rfl

theorem getMap (f : α → β) (d : Entries α) (k : String) : (d.map f).get k = (d.get k).map f := by
  simp only [Entries.get,Entries.map]
  induction d.rows with
  | nil => rfl
  | cons r rest ih =>
    rw [List.map_cons,List.lookup_cons,List.lookup_cons]
    cases k == r.1 with
    | true => rfl
    | false => exact ih

/- Different keys make each row the one that its key finds. -/
theorem getSome {d : Entries α} {k : String} {a : α} : d.get k = some a ↔ (k,a) ∈ d.rows := by
  rcases d with ⟨rows,distinct⟩
  simp only [Entries.get]
  induction rows with
  | nil => simp
  | cons r rest ih =>
    rw [List.map_cons,List.nodup_cons] at distinct
    rw [List.lookup_cons,List.mem_cons]
    cases same : k == r.1 with
    | true =>
      obtain rfl : k = r.1 := eq_of_beq same
      constructor
      · intro here
        exact .inl (by rw [← Option.some_inj.mp here])
      · rintro (here | later)
        · rw [← here]
        · exact absurd (List.mem_map_of_mem later) distinct.1
    | false =>
      rw [ih distinct.2]
      constructor
      · exact .inr
      · rintro (rfl | later)
        · simp at same
        · exact later

theorem mapMap (f : α → β) (g : β → γ) (d : Entries α) : (d.map f).map g = d.map (g ∘ f) := by
  ext1
  simp [Entries.map]

theorem mapSelf {f : α → α} {d : Entries α} : d.map f = d ↔ ∀ k a, d.get k = some a → f a = a := by
  constructor
  · intro same k a here
    have after := getMap f d k
    rw [same,here,Option.map_some,Option.some_inj] at after
    exact after.symm
  · intro each
    ext1
    have rows : ∀ r ∈ d.rows, (r.1,f r.2) = r := by
      rintro ⟨k,a⟩ mem
      rw [each k a (getSome.mpr mem)]
    simp only [Entries.map]
    exact (List.map_congr_left rows).trans (List.map_id _)

end GoMap
