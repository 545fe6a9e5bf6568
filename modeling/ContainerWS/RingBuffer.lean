import Mathlib.Data.List.DropRight

/-! Circular buffers that keep the newest of what is written to them. The next cell to
write follows the newest one, and is the oldest as soon as every cell was written. -/

structure RingBuffer (α : Type) (size : Nat) where
  cells : List α
  pos : Nat
  full : Bool
  length : cells.length = size
  inside : pos < size

namespace RingBuffer
variable {α : Type} {size : Nat}

def new (blank : α) (size : Nat) (some : 0 < size) : RingBuffer α size := ⟨List.replicate size blank,0,false,List.length_replicate,some⟩

def push (r : RingBuffer α size) (a : α) : RingBuffer α size where
  cells := r.cells.set r.pos a
  pos := (r.pos+1) % size
  full := r.full || (r.pos+1) % size == 0
  length := by rw [List.length_set,r.length]
  inside := Nat.mod_lt _ (Nat.lt_of_le_of_lt (Nat.zero_le _) r.inside)

def write (r : RingBuffer α size) (as : List α) : RingBuffer α size := as.foldl push r

def snapshot (r : RingBuffer α size) : List α :=
  if r.full then r.cells.drop r.pos ++ r.cells.take r.pos else r.cells.take r.pos

/- The ring after the stream was written to it. -/
structure Holds (r : RingBuffer α size) (stream : List α) : Prop where
  newest : r.snapshot = stream.rtake size
  counted : r.full = false → r.pos = stream.length
  wrapped : r.full = true → size ≤ stream.length

theorem holdsNew (blank : α) (some : 0 < size) : Holds (new blank size some) [] := by
  refine ⟨?_,fun _ => rfl,?_⟩
  · simp [snapshot,new,List.rtake]
  · intro full
    contradiction

/- One more element displaces the oldest. -/
theorem rtakeAppend {stream : List α} {a : α} (long : size ≤ stream.length) (some : 0 < size) :
    (stream ++ [a]).rtake size = (stream.rtake size).tail ++ [a] := by
  have less : stream.length + 1 - size ≤ stream.length := by omega
  have next : stream.length + 1 - size = stream.length - size + 1 := by omega
  rw [List.rtake,List.rtake,List.length_append,List.length_singleton,List.drop_append_of_le_length less,next,List.tail_drop]

theorem rtakeAll {stream : List α} (short : stream.length ≤ size) : stream.rtake size = stream := by
  rw [List.rtake,Nat.sub_eq_zero_of_le short,List.drop_zero]

theorem takeSet (r : RingBuffer α size) (a : α) : (r.cells.set r.pos a).take (r.pos+1) = r.cells.take r.pos ++ [a] := by
  have here : r.pos < r.cells.length := by rw [r.length]; exact r.inside
  rw [List.take_add_one,List.take_set_of_le (Nat.le_refl _),List.getElem?_set_self here]
  rfl

theorem dropSet (r : RingBuffer α size) (a : α) : (r.cells.set r.pos a).drop (r.pos+1) = r.cells.drop (r.pos+1) := by
  rw [List.drop_set,if_pos (Nat.lt_succ_self _)]

/- What the ring holds from its newest wrap on, and behind it what is older. -/
theorem snapshotPush (r : RingBuffer α size) (a : α) :
    (r.push a).snapshot = (if r.full then r.cells.drop (r.pos+1) else []) ++ (r.cells.take r.pos ++ [a]) := by
  have bound := r.inside
  by_cases last : r.pos+1 = size
  · have wraps : (r.pos+1) % size = 0 := by rw [last,Nat.mod_self]
    have none : r.cells.drop (r.pos+1) = [] := List.drop_eq_nil_of_le (by rw [r.length]; omega)
    have whole : (r.cells.set r.pos a).take (r.pos+1) = r.cells.set r.pos a :=
      List.take_of_length_le (by rw [List.length_set,r.length]; omega)
    simp only [snapshot,push,wraps,beq_self_eq_true,Bool.or_true,if_true,List.drop_zero,List.take_zero,List.append_nil,none,
      ite_self,List.nil_append]
    rw [← takeSet,whole]
  · have stays : (r.pos+1) % size = r.pos+1 := Nat.mod_eq_of_lt (by omega)
    have some : (r.pos+1 == 0) = false := rfl
    simp only [snapshot,push,stays,some,Bool.or_false]
    rw [dropSet,takeSet]
    cases r.full <;> rfl

theorem holdsPush {r : RingBuffer α size} {stream : List α} (holds : Holds r stream) (a : α) : Holds (r.push a) (stream ++ [a]) := by
  have bound := r.inside
  have positive : 0 < size := by omega
  cases full : r.full with
  | true =>
    have long := holds.wrapped full
    refine ⟨?_,?_,?_⟩
    · have old : r.snapshot = r.cells.drop r.pos ++ r.cells.take r.pos := by rw [snapshot,if_pos full]
      have some : r.cells.drop r.pos ≠ [] := by
        intro none
        have short := congrArg List.length none
        rw [List.length_drop,r.length,List.length_nil] at short
        omega
      rw [snapshotPush,rtakeAppend long positive,← holds.newest,old,List.tail_append_of_ne_nil some,List.tail_drop,
        if_pos full,List.append_assoc]
    · intro free
      simp [push,full] at free
    · intro _
      rw [List.length_append]
      omega
  | false =>
    have here := holds.counted full
    have all : r.cells.take r.pos = stream := by
      have newest := holds.newest
      rw [snapshot,if_neg (by simp [full]),rtakeAll (by omega)] at newest
      exact newest
    refine ⟨?_,?_,?_⟩
    · rw [snapshotPush,if_neg (by simp [full]),List.nil_append,all,rtakeAll (by simp; omega)]
    · intro free
      have other : (r.pos+1) % size ≠ 0 := by
        intro zero
        simp [push,zero] at free
      have stays : (r.pos+1) % size = r.pos+1 := by
        refine Nat.mod_eq_of_lt ?_
        by_contra wide
        have last : r.pos+1 = size := by omega
        exact other (by rw [last,Nat.mod_self])
      rw [List.length_append,List.length_singleton,← here]
      exact stays
    · intro wraps
      have zero : (r.pos+1) % size = 0 := by simpa [push,full] using wraps
      have last : size ≤ r.pos+1 := Nat.le_of_dvd (Nat.succ_pos _) (Nat.dvd_of_mod_eq_zero zero)
      rw [List.length_append,List.length_singleton,← here]
      exact last

/- A ring holds the newest part of all that was written to it. -/
theorem holdsWrite {r : RingBuffer α size} {stream : List α} (holds : Holds r stream) (as : List α) :
    Holds (r.write as) (stream ++ as) := by
  induction as generalizing r stream with
  | nil =>
    rw [List.append_nil]
    exact holds
  | cons a as ih =>
    have next := ih (holdsPush holds a)
    rw [List.append_assoc] at next
    exact next

theorem rtakeSuffix (stream : List α) : stream.rtake size <:+ stream := List.drop_suffix _ _

end RingBuffer
