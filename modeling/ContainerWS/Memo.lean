import Mathlib.Logic.Function.Basic
import Mathlib.Data.List.Basic

/-! A memory in front of reads from elsewhere. A call looks its key up under a lock, reads without it and
takes the lock again to store what came of the reads. Each result carries the time of the oldest read it
rests on; the memory may be emptied between any two of these steps. -/
namespace Memo

/- What a call does after a read, or before the first one. -/
inductive Progress (ω σ ρ : Type) where
  | more (w : ω)
  | keep (value : σ) (result : ρ)
  | drop (result : ρ)
  deriving DecidableEq, Repr

/- Queries, the work of a call on its reads, the answers to reads, what is stored and what is returned. -/
structure Kind (θ ω α σ ρ : Type) where
  key : θ → Option String
  unkeyed : ρ
  work : θ → Progress ω σ ρ
  read : α → ω → Progress ω σ ρ
  hit : σ → ρ
  ttl : Nat

structure Cell (σ : Type) where
  value : σ
  since : Option Nat
  expires : Nat
  deriving DecidableEq, Repr

inductive Phase (ω σ ρ : Type) where
  | look
  | read (w : ω) (since : Option Nat)
  | store (value : σ) (result : ρ) (since : Option Nat)
  | returned (result : ρ) (since : Option Nat)
  deriving DecidableEq, Repr

structure Call (θ ω σ ρ : Type) where
  query : θ
  began : Nat
  phase : Phase ω σ ρ
  deriving DecidableEq, Repr

structure Memory (θ ω σ ρ : Type) where
  entries : String → Option (Cell σ)
  calls : List (Call θ ω σ ρ)

variable {θ ω α σ ρ : Type}

def empty : Memory θ ω σ ρ := ⟨fun _ => none,[]⟩

def Progress.phase (since : Option Nat) : Progress ω σ ρ → Phase ω σ ρ
  | .more w => .read w since
  | .keep value result => .store value result since
  | .drop result => .returned result since

/- Without a time to live nothing expires. -/
def Cell.expired (ttl now : Nat) (c : Cell σ) : Bool := 0 < ttl && c.expires < now

def Kind.next (kind : Kind θ ω α σ ρ) (now : Nat) (a : α) (entries : String → Option (Cell σ)) (c : Call θ ω σ ρ) :
    Option ((String → Option (Cell σ)) × Call θ ω σ ρ) :=
  match c.phase with
  | .look =>
    match kind.key c.query with
    | none => some (entries,{c with phase := .returned kind.unkeyed none})
    | some key =>
      match (entries key).filter (fun cell => !cell.expired kind.ttl now) with
      | some cell => some (entries,{c with phase := .returned (kind.hit cell.value) cell.since})
      | none => some (entries,{c with phase := (kind.work c.query).phase none})
  | .read w since => some (entries,{c with phase := (kind.read a w).phase (some (since.getD now))})
  | .store value result since =>
    match kind.key c.query with
    | none => none
    | some key =>
      some (Function.update entries key (some ⟨value,since,if 0 < kind.ttl then now+kind.ttl else 0⟩),
        {c with phase := .returned result since})
  | .returned _ _ => none

def Memory.start (s : Memory θ ω σ ρ) (now : Nat) (query : θ) : Memory θ ω σ ρ :=
  {s with calls := s.calls ++ [⟨query,now,.look⟩]}

def Memory.turn (kind : Kind θ ω α σ ρ) (s : Memory θ ω σ ρ) (now i : Nat) (a : α) : Option (Memory θ ω σ ρ) :=
  match s.calls[i]? with
  | none => none
  | some c =>
    match kind.next now a s.entries c with
    | none => none
    | some (entries,c') => some ⟨entries,s.calls.set i c'⟩

def Memory.clear (s : Memory θ ω σ ρ) : Memory θ ω σ ρ := {s with entries := fun _ => none}

/- The oldest read that a call in flight may still store. -/
def Phase.carries : Phase ω σ ρ → Option Nat
  | .read _ since => since
  | .store _ _ since => since
  | _ => none

def Newer (floor : Nat) (since : Option Nat) : Prop := ∀ t ∈ since, floor ≤ t

/- Nothing that is stored, or may yet be, rests on a read before a time. -/
structure Fresh (floor : Nat) (s : Memory θ ω σ ρ) : Prop where
  entries : ∀ key cell, s.entries key = some cell → Newer floor cell.since
  calls : ∀ c ∈ s.calls, Newer floor c.phase.carries

instance (floor : Nat) (since : Option Nat) : Decidable (Newer floor since) := by
  unfold Newer
  infer_instance

theorem newerNone (floor : Nat) : Newer floor none := by rintro _ ⟨⟩

variable {kind : Kind θ ω α σ ρ} {s s' : Memory θ ω σ ρ} {floor now i : Nat} {a : α}

theorem freshClear (flights : ∀ c ∈ s.calls, Newer floor c.phase.carries) : Fresh floor s.clear :=
  ⟨by rintro _ _ ⟨⟩,flights⟩

theorem freshStart (fresh : Fresh floor s) (query : θ) : Fresh floor (s.start now query) := by
  refine ⟨fresh.entries,?_⟩
  intro c mem
  rcases List.mem_append.mp mem with old | new
  · exact fresh.calls c old
  · cases List.mem_singleton.mp new
    exact newerNone floor

/- One step of a call: what it may store afterwards, and what it returns, is as new as the memory was or
was read in this step. -/
theorem freshNext {entries entries' : String → Option (Cell σ)} {c c' : Call θ ω σ ρ} (later : floor ≤ now)
    (stored : ∀ key cell, entries key = some cell → Newer floor cell.since) (carried : Newer floor c.phase.carries)
    (moved : kind.next now a entries c = some (entries',c')) :
    (∀ key cell, entries' key = some cell → Newer floor cell.since) ∧ Newer floor c'.phase.carries ∧
      (∀ result since, c'.phase = .returned result since → Newer floor since) ∧ c'.began = c.began := by
  obtain ⟨query,began,phase⟩ := c
  have onward {since : Option Nat} (newer : Newer floor since) (p : Progress ω σ ρ) :
      Newer floor (p.phase since).carries ∧ ∀ result since', p.phase since = .returned result since' → Newer floor since' := by
    cases p with
    | more w => exact ⟨newer,by rintro _ _ ⟨⟩⟩
    | keep value result => exact ⟨newer,by rintro _ _ ⟨⟩⟩
    | drop result => exact ⟨newerNone floor,by rintro _ _ ⟨⟩; exact newer⟩
  cases phase with
  | look =>
    simp only [Kind.next] at moved
    split at moved
    · cases moved
      exact ⟨stored,newerNone floor,by rintro _ _ ⟨⟩; exact newerNone floor,rfl⟩
    · split at moved
      · rename_i cell found
        cases moved
        refine ⟨stored,newerNone floor,?_,rfl⟩
        rintro _ _ ⟨⟩
        exact stored _ cell (Option.filter_eq_some_iff.mp found).1
      · cases moved
        obtain ⟨carries,returns⟩ := onward (newerNone floor) (kind.work query)
        exact ⟨stored,carries,returns,rfl⟩
  | read w since =>
    cases moved
    have newer : Newer floor (some (since.getD now)) := by
      rintro t ⟨⟩
      cases since with
      | none => exact later
      | some t => exact carried t rfl
    obtain ⟨carries,returns⟩ := onward newer (kind.read a w)
    exact ⟨stored,carries,returns,rfl⟩
  | store value result since =>
    simp only [Kind.next] at moved
    split at moved
    · cases moved
    · rename_i key _
      cases moved
      refine ⟨?_,newerNone floor,by rintro _ _ ⟨⟩; exact carried,rfl⟩
      intro other cell here
      by_cases same : other = key
      · subst same
        rw [Function.update_self] at here
        cases here
        exact carried
      · rw [Function.update_of_ne same] at here
        exact stored other cell here
  | returned result since => cases moved

theorem freshTurn (later : floor ≤ now) (fresh : Fresh floor s) (moved : s.turn kind now i a = some s') : Fresh floor s' := by
  simp only [Memory.turn] at moved
  split at moved
  · cases moved
  · rename_i c found
    split at moved
    · cases moved
    · rename_i entries c' stepped
      cases moved
      obtain ⟨stored,carries,_⟩ := freshNext later fresh.entries (fresh.calls c (List.mem_of_getElem? found)) stepped
      refine ⟨stored,?_⟩
      intro d mem
      rcases List.mem_or_eq_of_mem_set mem with old | rfl
      · exact fresh.calls d old
      · exact carries

/- A call of the memory after a step is one of before, or the one that moved; it began when it did. -/
theorem turnCalls (moved : s.turn kind now i a = some s') {d : Call θ ω σ ρ} (mem : d ∈ s'.calls) :
    d ∈ s.calls ∨ ∃ c ∈ s.calls, c.began = d.began ∧
      ∀ floor, floor ≤ now → Fresh floor s → ∀ result since, d.phase = .returned result since → Newer floor since := by
  simp only [Memory.turn] at moved
  split at moved
  · cases moved
  · rename_i c found
    split at moved
    · cases moved
    · rename_i entries c' stepped
      cases moved
      rcases List.mem_or_eq_of_mem_set mem with old | rfl
      · exact .inl old
      · have inside := List.mem_of_getElem? found
        refine .inr ⟨c,inside,?_,?_⟩
        · exact (freshNext (Nat.zero_le now) (fun _ _ _ t _ => Nat.zero_le t) (fun t _ => Nat.zero_le t) stepped).2.2.2.symm
        · intro floor later fresh
          exact (freshNext later fresh.entries (fresh.calls c inside) stepped).2.2.1

end Memo
