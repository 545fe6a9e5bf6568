import ContainerWS.Separated

/-! Lists in which every occurrence of a list, from the left and without overlap, has been
replaced by a mask: what the mask cannot be part of comes from the list before, and what
has been replaced is gone. -/
namespace Masked
open Separated

variable {α : Type}

/- `strings.ReplaceAll` of something. -/
def replaceAll [DecidableEq α] (mask old l : List α) : List α := mask.intercalate (split old l)

/- It does not overlap the mask, is not in it and does not contain it. -/
structure Apart (mask t : List α) : Prop where
  first : ∀ x, x ≠ [] → x <+: t → ¬x <:+ mask
  last : ∀ x, x ≠ [] → x <:+ t → ¬x <+: mask
  whole : ¬mask <:+: t
  inside : ¬t <:+: mask

section
variable {mask t : List α}

theorem apartAround (apart : Apart mask t) {p r : List α} (inside : t <:+: p ++ (mask ++ r)) : t <:+: p ∨ t <:+: r := by
  rcases List.infix_append_iff_ne_nil.mp inside with left | right | ⟨x,y,_,some,rfl,_,front⟩
  · exact .inl left
  · rcases List.infix_append_iff_ne_nil.mp right with own | later | ⟨x,y,some,_,rfl,back,_⟩
    · exact absurd own apart.inside
    · exact .inr later
    · exact absurd back (apart.first x some (List.prefix_append x y))
  · rcases Nat.lt_or_ge mask.length y.length with long | short
    · have longer := List.prefix_of_prefix_length_le (List.prefix_append mask r) front (Nat.le_of_lt long)
      exact absurd (longer.isInfix.trans (List.suffix_append x y).isInfix) apart.whole
    · have under := List.prefix_of_prefix_length_le front (List.prefix_append mask r) short
      exact absurd under (apart.last y some (List.suffix_append x y))

theorem apartJoined (apart : Apart mask t) (some : t ≠ []) {parts : List (List α)} (inside : t <:+: mask.intercalate parts) :
    ∃ p ∈ parts, t <:+: p := by
  induction parts with
  | nil => exact absurd (List.infix_nil.mp (by simpa using inside)) some
  | cons p rest ih =>
    cases rest with
    | nil => exact ⟨p,List.mem_cons_self,by simpa using inside⟩
    | cons q rest =>
      rw [List.intercalate_cons_cons,List.append_assoc] at inside
      rcases apartAround apart inside with here | later
      · exact ⟨p,List.mem_cons_self,here⟩
      · obtain ⟨r,mem,deep⟩ := ih later
        exact ⟨r,List.mem_cons_of_mem _ mem,deep⟩

/- What begins a list that it also begins behind another one has only elements of that one. -/
theorem cyclic {e x : List α} (some : e ≠ []) (front : x <+: e ++ x) : ∀ c ∈ x, c ∈ e := by
  have each : ∀ n : Nat, ∀ i < n, ∀ c, x[i]? = Option.some c → c ∈ e := by
    intro n
    induction n with
    | zero => exact fun i small => absurd small (Nat.not_lt_zero i)
    | succ n ih =>
      intro i small c here
      have same : (e ++ x)[i]? = Option.some c := by
        obtain ⟨w,whole⟩ := front
        rw [← whole,List.getElem?_append_left (List.getElem?_eq_some_iff.mp here).1]
        exact here
      rcases Nat.lt_or_ge i e.length with early | late
      · rw [List.getElem?_append_left early] at same
        exact List.mem_of_getElem? same
      · rw [List.getElem?_append_right late] at same
        have step := List.length_pos_iff.mpr some
        exact ih (i-e.length) (by omega) c same
  intro c mem
  obtain ⟨i,small,rfl⟩ := List.getElem_of_mem mem
  exact each (i+1) i (Nat.lt_succ_self i) x[i] (List.getElem?_eq_getElem small)

end

variable [DecidableEq α]

theorem cutHead (sep l : List α) : ∃ first more, cut sep 0 l = first :: more ∧ first <+: l := by
  cases l with
  | nil => exact ⟨[],[],rfl,List.nil_prefix⟩
  | cons a rest =>
    rw [cut]
    split
    · exact ⟨[],_,rfl,List.nil_prefix⟩
    · obtain ⟨first,more,shape,front⟩ := cutHead sep rest
      exact ⟨a :: first,more,by rw [shape]; rfl,List.cons_prefix_cons.mpr ⟨rfl,front⟩⟩

/- The parts are of the list, and none has the separator in it. -/
theorem cutParts {sep : List α} (some : sep ≠ []) (skip : Nat) (l : List α) : ∀ p ∈ cut sep skip l, p <:+: l ∧ ¬sep <:+: p := by
  have nothing : ¬sep <:+: ([] : List α) := fun inside => some (List.infix_nil.mp inside)
  fun_induction cut sep skip l with
  | case1 skip =>
    intro p mem
    rw [List.mem_singleton.mp mem]
    exact ⟨List.infix_rfl,nothing⟩
  | case2 skip a rest ih =>
    intro p mem
    exact ⟨(ih p mem).1.trans (List.infix_cons List.infix_rfl),(ih p mem).2⟩
  | case3 a rest start ih =>
    intro p mem
    rcases List.mem_cons.mp mem with rfl | later
    · exact ⟨List.nil_infix,nothing⟩
    · exact ⟨(ih p later).1.trans (List.infix_cons List.infix_rfl),(ih p later).2⟩
  | case4 a rest other ih =>
    intro p mem
    obtain ⟨first,more,shape,front⟩ := cutHead sep rest
    rw [shape] at mem ih
    rcases List.mem_cons.mp mem with rfl | later
    · refine ⟨(List.cons_prefix_cons.mpr ⟨rfl,front⟩).isInfix,?_⟩
      intro inside
      rcases List.infix_cons_iff.mp inside with start | deep
      · exact other (List.isPrefixOf_iff_prefix.mpr (start.trans (List.cons_prefix_cons.mpr ⟨rfl,front⟩)))
      · exact (ih first List.mem_cons_self).2 deep
    · exact ⟨(ih p (List.mem_cons_of_mem _ later)).1.trans (List.infix_cons List.infix_rfl),(ih p (List.mem_cons_of_mem _ later)).2⟩

/- The list is cut where the separator comes first. -/
theorem splitFound {sep u rest : List α} (some : sep ≠ [])
    (first : ∀ v w, v ++ (sep ++ w) = u ++ (sep ++ rest) → u.length ≤ v.length) : split sep (u ++ (sep ++ rest)) = u :: split sep rest := by
  induction u with
  | nil =>
    obtain ⟨a,s,rfl⟩ := List.exists_cons_of_ne_nil some
    exact splitStart a s rest
  | cons b u ih =>
    have other : sep.isPrefixOf (b :: (u ++ (sep ++ rest))) = false := by
      refine Bool.eq_false_iff.mpr (fun start => ?_)
      obtain ⟨w,whole⟩ := List.isPrefixOf_iff_prefix.mp start
      have early := first [] w whole
      simp at early
    have later := ih (fun v w whole => by
      have next := first (b :: v) w (congrArg (b :: ·) whole)
      simpa using next)
    rw [split] at later
    rw [split,List.cons_append,cut,other,later]
    rfl

section
variable {mask t : List α}

/- Masking brings nothing that is apart from the mask, -/
theorem apartKept (apart : Apart mask t) (some : t ≠ []) {old l : List α} (filled : old ≠ []) (absent : ¬t <:+: l) :
    ¬t <:+: replaceAll mask old l := by
  intro inside
  obtain ⟨p,mem,here⟩ := apartJoined apart some inside
  exact absent (here.trans (cutParts filled 0 l p mem).1)

/- and takes away what is masked. -/
theorem apartGone (apart : Apart mask t) (some : t ≠ []) (l : List α) : ¬t <:+: replaceAll mask t l := by
  intro inside
  obtain ⟨p,mem,here⟩ := apartJoined apart some inside
  exact (cutParts some 0 l p mem).2 here

theorem replaceFree {old l : List α} (free : ¬old <:+: l) : replaceAll mask old l = l := by
  rw [replaceAll,splitFree free,List.intercalate_singleton]

theorem replaceFound {old u rest : List α} (some : old ≠ [])
    (first : ∀ v w, v ++ (old ++ w) = u ++ (old ++ rest) → u.length ≤ v.length) (free : ¬old <:+: rest) :
    replaceAll mask old (u ++ (old ++ rest)) = u ++ (mask ++ rest) := by
  rw [replaceAll,splitFound some first,splitFree free,List.intercalate_cons_cons,List.intercalate_singleton,List.append_assoc]

end

end Masked
