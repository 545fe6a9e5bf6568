import Mathlib.Data.List.Basic

/-! A reader that takes one item after the other, as long as they fit, and tells something for each. Events
bring it one item or several and expect to be told one thing. It tells what is expected if and only if each event is
a single item that fits and tells the right thing: once it has told too much it stays ahead of what is expected. -/
namespace Lagging
variable {α β : Type} (fits : α → Bool) (tells : α → β)

def told (items : List α) : List β := (items.takeWhile fits).map tells

/- The items of events. -/
def items (events : List (List α × β)) : List α := events.flatMap Prod.fst

/- An event that is told as it should be. -/
def Exact (event : List α × β) : Prop := ∃ a, event.1 = [a] ∧ fits a = true ∧ tells a = event.2

/- Items that are read, each with something small told for it. -/
def Passing (small : β → Prop) (items : List α) : Prop := ∀ a ∈ items, fits a = true ∧ small (tells a)

variable {fits : α → Bool} {tells : α → β} {small : β → Prop}

theorem toldAppend {front rest : List α} (passing : Passing fits tells small front) :
    told fits tells (front ++ rest) = front.map tells ++ told fits tells rest := by
  unfold told
  rw [List.takeWhile_append_of_pos fun a mem => (passing a mem).1,List.map_append]

/- What has been told too much stays: small things expected bring items that pass. -/
theorem behind {events : List (List α × β)} {ahead : List β} (some : ahead ≠ []) (smallAhead : ∀ b ∈ ahead, small b)
    (passing : ∀ event ∈ events, small event.2 → event.1 ≠ [] ∧ Passing fits tells small event.1) :
    ahead ++ told fits tells (items events) ≠ events.map Prod.snd := by
  induction events generalizing ahead with
  | nil => simp [some]
  | cons event events ih =>
    obtain ⟨b,ahead,rfl⟩ := List.exists_cons_of_ne_nil some
    intro same
    rw [List.map_cons,List.cons_append] at same
    obtain ⟨here,rest⟩ := List.cons.inj same
    obtain ⟨filled,pass⟩ := passing event (by simp) (here ▸ smallAhead b (by simp))
    have shape : items (event :: events) = event.1 ++ items events := rfl
    rw [shape,toldAppend pass,← List.append_assoc] at rest
    refine ih ?_ ?_ (fun later mem => passing later (by simp [mem])) rest
    · simp [filled]
    · intro x mem
      rcases List.mem_append.mp mem with old | new
      · exact smallAhead x (by simp [old])
      · obtain ⟨a,inside,rfl⟩ := List.mem_map.mp new
        exact (pass a inside).2

/- An event that brings several items brings only such as pass. -/
theorem toldIff {events : List (List α × β)}
    (passing : ∀ event ∈ events, small event.2 → event.1 ≠ [] ∧ Passing fits tells small event.1)
    (several : ∀ event ∈ events, (∃ a, event.1 = [a]) ∨ 2 ≤ event.1.length ∧ Passing fits tells small event.1) :
    told fits tells (items events) = events.map Prod.snd ↔ ∀ event ∈ events, Exact fits tells event := by
  induction events with
  | nil => simp [told,items]
  | cons event events ih =>
    have shape : items (event :: events) = event.1 ++ items events := rfl
    have later := ih (fun e mem => passing e (by simp [mem])) (fun e mem => several e (by simp [mem]))
    rw [shape,List.map_cons,List.forall_mem_cons,← later]
    rcases several event (by simp) with ⟨a,single⟩ | ⟨more,pass⟩
    · rw [single,List.singleton_append]
      cases fit : fits a with
      | false =>
        have none : told fits tells (a :: items events) = [] := by simp [told,fit]
        rw [none]
        refine iff_of_false (by simp) ?_
        rintro ⟨⟨b,only,fit',_⟩,_⟩
        rw [single] at only
        cases only
        rw [fit] at fit'
        cases fit'
      | true =>
        have some : told fits tells (a :: items events) = tells a :: told fits tells (items events) := by simp [told,fit]
        rw [some,List.cons_eq_cons]
        refine and_congr_left fun _ => ⟨fun same => ⟨a,single,fit,same⟩,?_⟩
        rintro ⟨b,only,_,same⟩
        rw [single] at only
        cases only
        exact same
    · rw [toldAppend pass]
      refine iff_of_false ?_ ?_
      · intro same
        -- the first item answers the event, and the next one is too much
        obtain ⟨a,rest,parts⟩ := List.exists_cons_of_ne_nil (List.ne_nil_of_length_pos (by omega : 0 < event.1.length))
        rw [parts] at more pass same
        rw [List.map_cons,List.cons_append] at same
        have filled : rest ≠ [] := by
          rintro rfl
          simp at more
        refine @behind _ _ fits tells small _ _ (by simp [filled]) ?_ (fun e mem => passing e (by simp [mem])) (List.cons.inj same).2
        intro x mem
        obtain ⟨b,inside,rfl⟩ := List.mem_map.mp mem
        exact (pass b (by simp [inside])).2
      · rintro ⟨⟨a,only,_⟩,_⟩
        rw [only] at more
        simp at more

end Lagging
