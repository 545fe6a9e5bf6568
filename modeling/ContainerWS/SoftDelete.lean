import Mathlib.Data.List.Basic
import Mathlib.Data.List.Nodup

/-! Tables with soft deletion under a unique index. A deleted row stays in the
table: no query sees it, but the index does, so a key is free only when no row
at all carries it. -/
namespace SoftDelete

/- Where a record keeps its number, its key and its deletion mark. -/
structure Schema (ρ κ : Type) where
  ident : ρ → Nat
  key : ρ → κ
  deleted : ρ → Bool
  number : Nat → ρ → ρ
  mark : ρ → ρ
  identNumber : ∀ n r, ident (number n r) = n
  keyNumber : ∀ n r, key (number n r) = key r
  identMark : ∀ r, ident (mark r) = ident r
  keyMark : ∀ r, key (mark r) = key r
  deletedMark : ∀ r, deleted (mark r) = true

variable {ρ κ : Type} {s : Schema ρ κ}

structure Table (s : Schema ρ κ) where
  rows : List ρ
  drawn : Nat
  bounded : ∀ r ∈ rows, s.ident r < drawn
  idents : (rows.map s.ident).Nodup
  unique : (rows.map s.key).Nodup

def empty (s : Schema ρ κ) : Table s := ⟨[],0,by simp,by simp,by simp⟩

def Table.live (t : Table s) : List ρ := t.rows.filter (fun r => !s.deleted r)

/- The first row a query with the default scope finds. -/
def Table.first (t : Table s) (p : ρ → Bool) : Option ρ := t.rows.find? (fun r => !s.deleted r && p r)

theorem memLive {t : Table s} {r : ρ} : r ∈ t.live ↔ r ∈ t.rows ∧ s.deleted r = false := by
  simp [Table.live]

theorem firstSome {t : Table s} {p : ρ → Bool} {r : ρ} (found : t.first p = some r) :
    r ∈ t.rows ∧ s.deleted r = false ∧ p r = true := by
  have holds := List.find?_some found
  simp only [Bool.and_eq_true,Bool.not_eq_true'] at holds
  exact ⟨List.mem_of_find?_eq_some found,holds⟩

theorem firstNone {t : Table s} {p : ρ → Bool} (missing : t.first p = none) {r : ρ} (mem : r ∈ t.rows)
    (live : s.deleted r = false) : p r = false := by
  have fails := List.find?_eq_none.mp missing r mem
  simpa [live] using fails

theorem sameIdent (t : Table s) {q r : ρ} (left : q ∈ t.rows) (right : r ∈ t.rows)
    (same : s.ident q = s.ident r) : q = r := List.inj_on_of_nodup_map t.idents left right same

theorem sameKey (t : Table s) {q r : ρ} (left : q ∈ t.rows) (right : r ∈ t.rows)
    (same : s.key q = s.key r) : q = r := List.inj_on_of_nodup_map t.unique left right same

/- A query that names the key finds the live row that carries it. -/
theorem firstKey {t : Table s} {p : ρ → Bool} {r : ρ} (mem : r ∈ t.rows) (live : s.deleted r = false)
    (here : p r = true) (only : ∀ q ∈ t.rows, p q = true → s.key q = s.key r) : t.first p = some r := by
  cases found : t.first p with
  | none =>
    rw [firstNone found mem live] at here
    contradiction
  | some q =>
    obtain ⟨inside,_,holds⟩ := firstSome found
    rw [sameKey t inside mem (only q inside holds)]

theorem freshIdents (t : Table s) (r : ρ) :
    ((t.rows ++ [s.number t.drawn r]).map s.ident).Nodup := by
  rw [List.map_append,List.nodup_append]
  refine ⟨t.idents,by simp,?_⟩
  intro a left b right
  obtain ⟨q,mem,rfl⟩ := List.mem_map.mp left
  have below := t.bounded q mem
  simp only [List.map_cons,List.map_nil,List.mem_singleton,s.identNumber] at right
  omega

theorem freshKeys (t : Table s) {r : ρ} (free : s.key r ∉ t.rows.map s.key) :
    ((t.rows ++ [s.number t.drawn r]).map s.key).Nodup := by
  rw [List.map_append,List.nodup_append]
  refine ⟨t.unique,by simp,?_⟩
  intro a left b right same
  simp only [List.map_cons,List.map_nil,List.mem_singleton,s.keyNumber] at right
  rw [same,right] at left
  exact free left

theorem freshBounded (t : Table s) (r : ρ) :
    ∀ q ∈ t.rows ++ [s.number t.drawn r], s.ident q < t.drawn+1 := by
  intro q mem
  rcases List.mem_append.mp mem with old | new
  · exact Nat.lt_succ_of_lt (t.bounded q old)
  · rw [List.mem_singleton.mp new,s.identNumber]
    exact Nat.lt_succ_self _

/- `INSERT`: refused by the index when a row carries the key. -/
def Table.insert [DecidableEq κ] (t : Table s) (r : ρ) : Option (Table s) :=
  if free : s.key r ∉ t.rows.map s.key then
    some ⟨t.rows ++ [s.number t.drawn r],t.drawn+1,freshBounded t r,freshIdents t r,freshKeys t free⟩
  else none

theorem insertSome [DecidableEq κ] {t u : Table s} {r : ρ} (done : t.insert r = some u) :
    (∀ q ∈ t.rows, s.key q ≠ s.key r) ∧ u.rows = t.rows ++ [s.number t.drawn r] := by
  unfold Table.insert at done
  split at done
  · rename_i free
    cases Option.some.inj done
    exact ⟨fun q mem same => free (List.mem_map.mpr ⟨q,mem,same⟩),rfl⟩
  · contradiction

theorem insertIff [DecidableEq κ] (t : Table s) (r : ρ) :
    (t.insert r).isSome ↔ ∀ q ∈ t.rows, s.key q ≠ s.key r := by
  unfold Table.insert
  split
  · rename_i free
    simp only [Option.isSome_some,true_iff]
    exact fun q mem same => free (List.mem_map.mpr ⟨q,mem,same⟩)
  · rename_i taken
    simp only [Option.isSome_none,Bool.false_eq_true,false_iff]
    intro free
    obtain ⟨q,mem,same⟩ := List.mem_map.mp (not_not.mp taken)
    exact free q mem same

/- The live row of the number is overwritten. -/
def put (s : Schema ρ κ) (r : ρ) (q : ρ) : ρ := if s.ident q = s.ident r ∧ s.deleted q = false then r else q

theorem identPut (r q : ρ) : s.ident (put s r q) = s.ident q := by
  unfold put
  split
  · rename_i here
    exact here.1.symm
  · rfl

/- The index lets a row take a key that no other row carries. -/
def Free (t : Table s) (r : ρ) : Prop := ∀ q ∈ t.rows, s.key q = s.key r → s.ident q = s.ident r

theorem putKeys (t : Table s) {r : ρ} (free : Free t r) : ((t.rows.map (put s r)).map s.key).Nodup := by
  rw [List.map_map]
  refine List.Nodup.map_on ?_ (List.Nodup.of_map s.key t.unique)
  intro a left b right same
  simp only [Function.comp,put] at same
  split at same
  · rename_i here
    split at same
    · rename_i there
      exact sameIdent t left right (here.1.trans there.1.symm)
    · exact sameIdent t left right (here.1.trans (free b right same.symm).symm)
  · split at same
    · rename_i there
      exact sameIdent t left right ((free a left same).trans there.1.symm)
    · exact sameKey t left right same

def Table.write (t : Table s) (r : ρ) (free : Free t r) : Table s where
  rows := t.rows.map (put s r)
  drawn := t.drawn
  bounded := by
    intro q mem
    obtain ⟨old,inside,rfl⟩ := List.mem_map.mp mem
    rw [identPut]
    exact t.bounded old inside
  idents := by
    rw [List.map_map,show s.ident ∘ put s r = s.ident from funext (identPut r)]
    exact t.idents
  unique := putKeys t free

instance [DecidableEq κ] (t : Table s) (r : ρ) : Decidable (Free t r) := by
  unfold Free
  infer_instance

/- `UPDATE` of all columns of one live row. -/
def Table.update [DecidableEq κ] (t : Table s) (r : ρ) : Option (Table s) :=
  if free : Free t r then some (t.write r free) else none

theorem updateSome [DecidableEq κ] {t u : Table s} {r : ρ} (done : t.update r = some u) :
    Free t r ∧ u.rows = t.rows.map (put s r) := by
  unfold Table.update at done
  split at done
  · rename_i free
    cases Option.some.inj done
    exact ⟨free,rfl⟩
  · contradiction

theorem memPut {rows : List ρ} {r q : ρ} (mem : q ∈ rows.map (put s r)) :
    q ∈ rows ∧ (s.ident q ≠ s.ident r ∨ s.deleted q = true) ∨
    q = r ∧ ∃ old ∈ rows, s.ident old = s.ident r ∧ s.deleted old = false := by
  obtain ⟨old,inside,rfl⟩ := List.mem_map.mp mem
  unfold put
  split
  · rename_i here
    exact .inr ⟨rfl,old,inside,here⟩
  · rename_i other
    refine .inl ⟨inside,?_⟩
    by_cases same : s.ident old = s.ident r
    · exact .inr (by simpa [same] using other)
    · exact .inl same

theorem putMem {rows : List ρ} {r q : ρ} (mem : q ∈ rows) (other : s.ident q ≠ s.ident r) :
    q ∈ rows.map (put s r) := by
  refine List.mem_map.mpr ⟨q,mem,?_⟩
  rw [put,if_neg (fun here => other here.1)]

/- A change of columns beside the number and the key. -/
structure Column (s : Schema ρ κ) where
  set : ρ → ρ
  ident : ∀ r, s.ident (set r) = s.ident r
  key : ∀ r, s.key (set r) = s.key r

/- It is made in the live rows that a condition picks. -/
def Column.over (c : Column s) (p : ρ → Bool) (r : ρ) : ρ := if s.deleted r = false ∧ p r = true then c.set r else r

theorem identOver (c : Column s) (p : ρ → Bool) (r : ρ) : s.ident (c.over p r) = s.ident r := by
  unfold Column.over
  split
  · exact c.ident r
  · rfl

theorem keyOver (c : Column s) (p : ρ → Bool) (r : ρ) : s.key (c.over p r) = s.key r := by
  unfold Column.over
  split
  · exact c.key r
  · rfl

/- `UPDATE` of such columns where the condition holds. -/
def Table.set (t : Table s) (c : Column s) (p : ρ → Bool) : Table s where
  rows := t.rows.map (c.over p)
  drawn := t.drawn
  bounded := by
    intro q mem
    obtain ⟨old,inside,rfl⟩ := List.mem_map.mp mem
    rw [identOver]
    exact t.bounded old inside
  idents := by
    rw [List.map_map,show s.ident ∘ c.over p = s.ident from funext (identOver c p)]
    exact t.idents
  unique := by
    rw [List.map_map,show s.key ∘ c.over p = s.key from funext (keyOver c p)]
    exact t.unique

theorem memSet {t : Table s} {c : Column s} {p : ρ → Bool} {q : ρ} : q ∈ (t.set c p).rows ↔ ∃ r ∈ t.rows, c.over p r = q := List.mem_map

theorem insertSet [DecidableEq κ] (t : Table s) (c : Column s) (p : ρ → Bool) (r : ρ) : ((t.set c p).insert r).isSome = (t.insert r).isSome := by
  rw [Bool.eq_iff_iff,insertIff,insertIff]
  constructor
  · intro free q mem
    rw [← keyOver c p q]
    exact free _ (List.mem_map_of_mem mem)
  · intro free q mem
    obtain ⟨old,inside,rfl⟩ := memSet.mp mem
    rw [keyOver]
    exact free old inside

theorem freeSet (t : Table s) (c : Column s) (p : ρ → Bool) (r : ρ) : Free (t.set c p) r ↔ Free t r := by
  constructor
  · intro free q mem same
    have here := free _ (List.mem_map_of_mem mem) ((keyOver c p q).trans same)
    rwa [identOver] at here
  · intro free q mem same
    obtain ⟨old,inside,rfl⟩ := memSet.mp mem
    rw [keyOver] at same
    rw [identOver]
    exact free old inside same

theorem updateIff [DecidableEq κ] (t : Table s) (r : ρ) : (t.update r).isSome ↔ Free t r := by
  unfold Table.update
  split
  · rename_i free
    exact iff_of_true rfl free
  · rename_i taken
    exact iff_of_false Bool.false_ne_true taken

/- What a query finds after columns were changed that it does not look at. -/
theorem firstSet (t : Table s) (c : Column s) (p : ρ → Bool) {q : ρ → Bool} (kept : ∀ r, s.deleted (c.set r) = s.deleted r)
    (same : ∀ r, q (c.set r) = q r) : (t.set c p).first q = (t.first q).map (c.over p) := by
  have alike (r : ρ) : (!s.deleted (c.over p r) && q (c.over p r)) = (!s.deleted r && q r) := by
    unfold Column.over
    split
    · rw [kept,same]
    · rfl
  rw [Table.first,Table.first,Table.set,List.find?_map]
  exact congrArg (Option.map (c.over p)) (congrArg (fun f => t.rows.find? f) (funext alike))

/- A query finds the row that was inserted when there was no other. -/
theorem firstInsert [DecidableEq κ] {t u : Table s} {r : ρ} (done : t.insert r = some u) (q : ρ → Bool) :
    u.first q = (t.first q).or ([s.number t.drawn r].find? (fun r => !s.deleted r && q r)) := by
  rw [Table.first,(insertSome done).2,List.find?_append]
  rfl

end SoftDelete
