import Mathlib.Data.List.Sort

/-! The first element of a stably sorted list that fits: of the list as it was, one that
fits, with none as good before it and none better behind it. -/
namespace StableFirst

variable {α : Type} {le : α → α → Prop} {p : α → Bool}

def First (le : α → α → Prop) (p : α → Bool) (l : List α) (x : α) : Prop :=
  ∃ earlier later, l = earlier ++ x :: later ∧ p x = true ∧ (∀ y ∈ earlier, p y = true → ¬le y x) ∧
    ∀ y ∈ later, p y = true → le x y

theorem firstMem {l : List α} {x : α} (first : First le p l x) : x ∈ l ∧ p x = true := by
  obtain ⟨earlier,later,rfl,fits,_⟩ := first
  exact ⟨List.mem_append_right _ List.mem_cons_self,fits⟩

theorem firstCons {l : List α} {x z : α} :
    First le p (z :: l) x ↔ (x = z ∧ p z = true ∧ ∀ y ∈ l, p y = true → le z y) ∨ (First le p l x ∧ (p z = true → ¬le z x)) := by
  constructor
  · rintro ⟨earlier,later,whole,fits,before,after⟩
    cases earlier with
    | nil =>
      obtain ⟨rfl,rfl⟩ := List.cons.inj whole
      exact .inl ⟨rfl,fits,after⟩
    | cons e earlier =>
      obtain ⟨rfl,rfl⟩ := List.cons.inj whole
      obtain ⟨head,tail⟩ := List.forall_mem_cons.mp before
      exact .inr ⟨⟨earlier,later,rfl,fits,tail,after⟩,head⟩
  · rintro (⟨rfl,fits,after⟩ | ⟨⟨earlier,later,rfl,fits,before,after⟩,head⟩)
    · exact ⟨[],l,rfl,fits,nofun,after⟩
    · exact ⟨z :: earlier,later,rfl,fits,List.forall_mem_cons.mpr ⟨head,before⟩,after⟩

theorem firstMap {β : Type} {f : β → α} {l : List β} {x : α} :
    First le p (l.map f) x ↔ ∃ y, f y = x ∧ First (fun a b => le (f a) (f b)) (fun a => p (f a)) l y := by
  constructor
  · rintro ⟨earlier,later,whole,fits,before,after⟩
    obtain ⟨first,rest,rfl,rfl,tail⟩ := List.map_eq_append_iff.mp whole
    obtain ⟨y,last,rfl,rfl,rfl⟩ := List.map_eq_cons_iff.mp tail
    exact ⟨y,rfl,first,last,rfl,fits,List.forall_mem_map.mp before,List.forall_mem_map.mp after⟩
  · rintro ⟨y,rfl,earlier,later,rfl,fits,before,after⟩
    exact ⟨earlier.map f,later.map f,by simp,fits,List.forall_mem_map.mpr before,List.forall_mem_map.mpr after⟩

theorem firstFilter {q : α → Bool} {l : List α} {x : α} : First le q (l.filter p) x ↔ First le (fun a => p a && q a) l x := by
  induction l with
  | nil => exact iff_of_false (fun first => nomatch (firstMem first).1) (fun first => nomatch (firstMem first).1)
  | cons z l ih =>
    by_cases kept : p z = true
    · have rest : (∀ y ∈ l.filter p, q y = true → le z y) ↔ ∀ y ∈ l, (p y && q y) = true → le z y := by
        simp only [List.mem_filter,Bool.and_eq_true]
        exact ⟨fun all y mem fits => all y ⟨mem,fits.1⟩ fits.2,fun all y mem fits => all y mem.1 ⟨mem.2,fits⟩⟩
      rw [List.filter_cons_of_pos kept,firstCons,firstCons,ih,rest]
      simp only [kept,Bool.true_and]
    · rw [List.filter_cons_of_neg kept,firstCons,ih]
      simp [kept]

theorem firstLeast [Std.Total le] {l : List α} {x : α} (first : First le p l x) : ∀ y ∈ l, p y = true → le x y := by
  obtain ⟨earlier,later,rfl,_,before,after⟩ := first
  intro y mem fits
  rcases List.mem_append.mp mem with early | late
  · exact (Std.Total.total x y).resolve_right (before y early fits)
  · rcases List.mem_cons.mp late with rfl | later
    · exact (Std.Total.total y y).elim id id
    · exact after y later fits

section
variable [DecidableRel le]

theorem insertFind [IsTrans α le] {s : List α} (sorted : s.Pairwise le) (z : α) (fits : p z = true) :
    (s.orderedInsert le z).find? p = match s.find? p with
      | none => some z
      | some x => if le z x then some z else some x := by
  induction s with
  | nil => simp [fits]
  | cons w rest ih =>
    obtain ⟨least,tail⟩ := List.pairwise_cons.mp sorted
    by_cases here : le z w
    · rw [List.orderedInsert_cons_of_le le rest here,List.find?_cons_of_pos fits]
      cases found : (w :: rest).find? p with
      | none => rfl
      | some x =>
        have above : le z x := by
          rcases List.mem_cons.mp (List.mem_of_find?_eq_some found) with rfl | mem
          · exact here
          · exact trans_of le here (least x mem)
        exact (if_pos above).symm
    · rw [List.orderedInsert_of_not_le le rest here]
      by_cases first : p w = true
      · rw [List.find?_cons_of_pos first,List.find?_cons_of_pos first]
        exact (if_neg here).symm
      · rw [List.find?_cons_of_neg first,List.find?_cons_of_neg first,ih tail]

theorem insertSkip {s : List α} (z : α) (misses : p z ≠ true) : (s.orderedInsert le z).find? p = s.find? p := by
  induction s with
  | nil => simp [misses]
  | cons w rest ih =>
    by_cases here : le z w
    · rw [List.orderedInsert_cons_of_le le rest here,List.find?_cons_of_neg misses]
    · rw [List.orderedInsert_of_not_le le rest here,List.find?_cons,List.find?_cons,ih]

theorem sortedFind [Std.Total le] [IsTrans α le] (l : List α) (x : α) : (l.insertionSort le).find? p = some x ↔ First le p l x := by
  induction l generalizing x with
  | nil => exact iff_of_false nofun (fun first => nomatch (firstMem first).1)
  | cons z l ih =>
    rw [List.insertionSort_cons,firstCons]
    by_cases fits : p z = true
    · rw [insertFind (List.pairwise_insertionSort le l) z fits]
      cases found : (l.insertionSort le).find? p with
      | none =>
        have none : ∀ y ∈ l, p y ≠ true := by
          rw [List.find?_eq_none] at found
          exact fun y mem => found y ((List.mem_insertionSort le).mpr mem)
        constructor
        · intro same
          exact .inl ⟨(Option.some_inj.mp same).symm,fits,fun y mem other => absurd other (none y mem)⟩
        · rintro (⟨rfl,_⟩ | ⟨first,_⟩)
          · rfl
          · exact absurd (firstMem first).2 (none x (firstMem first).1)
      | some w =>
        have least := (ih w).mp found
        have only (first : First le p l x) : x = w := Option.some_inj.mp (((ih x).mpr first).symm.trans found)
        by_cases before : le z w
        · constructor
          · intro same
            have same : some z = some x := (if_pos before).symm.trans same
            exact .inl ⟨(Option.some_inj.mp same).symm,fits,fun y mem other => trans_of le before (firstLeast least y mem other)⟩
          · rintro (⟨rfl,_⟩ | ⟨first,behind⟩)
            · exact if_pos before
            · exact absurd (only first ▸ before) (behind fits)
        · constructor
          · intro same
            have same : some w = some x := (if_neg before).symm.trans same
            rw [← Option.some_inj.mp same]
            exact .inr ⟨least,fun _ => before⟩
          · rintro (⟨_,_,after⟩ | ⟨first,_⟩)
            · exact absurd (after w (firstMem least).1 (firstMem least).2) before
            · rw [only first]
              exact if_neg before
    · rw [insertSkip z fits,ih]
      constructor
      · exact fun first => .inr ⟨first,fun held => absurd held fits⟩
      · rintro (⟨_,held,_⟩ | ⟨first,_⟩)
        · exact absurd held fits
        · exact first

end

end StableFirst
