import Mathlib.Data.List.Basic
import Mathlib.Data.List.Infix

/-! Lists cut at a separator of several elements, from the left and without overlap, as Go's
`strings.Split` cuts a text. -/
namespace Separated

variable {α : Type}

/- Where the first element of the separator is not in it again, it does not begin before it stands. -/
theorem startsLater {a : α} {s : List α} (once : a ∉ s) {p rest : List α} (some : p ≠ []) (free : ¬(a :: s) <:+: p) :
    ¬(a :: s) <+: p ++ (a :: s ++ rest) := by
  intro start
  rcases Nat.lt_or_ge p.length (a :: s).length with short | long
  · obtain ⟨left,whole⟩ := List.prefix_of_prefix_length_le (List.prefix_append p _) start (Nat.le_of_lt short)
    rw [← whole,List.prefix_append_right_inj] at start
    cases left with
    | nil =>
      rw [List.append_nil] at whole
      rw [whole] at short
      exact absurd short (Nat.lt_irrefl _)
    | cons b left =>
      obtain ⟨c,tail,rfl⟩ := List.exists_cons_of_ne_nil some
      obtain ⟨same,_⟩ := List.cons_prefix_cons.mp start
      obtain ⟨first,behind⟩ := List.cons.inj whole
      apply once
      rw [← behind,← first,← same]
      exact List.mem_append_right _ List.mem_cons_self
  · exact free (List.prefix_of_prefix_length_le start (List.prefix_append p _) long).isInfix

theorem intercalateMem {sep : List α} {parts : List (List α)} {a : α} (mem : a ∈ sep.intercalate parts) :
    a ∈ sep ∨ ∃ p ∈ parts, a ∈ p := by
  induction parts with
  | nil => simp at mem
  | cons p rest ih =>
    cases rest with
    | nil => exact .inr ⟨p,List.mem_cons_self,by simpa using mem⟩
    | cons q rest =>
      rw [List.intercalate_cons_cons,List.append_assoc,List.mem_append,List.mem_append] at mem
      rcases mem with here | between | later
      · exact .inr ⟨p,List.mem_cons_self,here⟩
      · exact .inl between
      · rcases ih later with between | ⟨r,there,inside⟩
        · exact .inl between
        · exact .inr ⟨r,List.mem_cons_of_mem _ there,inside⟩

section
variable [DecidableEq α]

/- `skip` elements of a separator found before are passed over first. -/
def cut (sep : List α) : Nat → List α → List (List α)
  | _, [] => [[]]
  | skip+1, _ :: rest => cut sep skip rest
  | 0, a :: rest =>
    if sep.isPrefixOf (a :: rest) then [] :: cut sep (sep.length-1) rest
    else (cut sep 0 rest).modifyHead (a :: ·)

def split (sep l : List α) : List (List α) := cut sep 0 l

theorem cutSkip (sep gone rest : List α) : cut sep gone.length (gone ++ rest) = cut sep 0 rest := by
  induction gone with
  | nil => rfl
  | cons a gone ih => exact ih

theorem splitStart (a : α) (s rest : List α) : split (a :: s) (a :: s ++ rest) = [] :: split (a :: s) rest := by
  have start : (a :: s).isPrefixOf (a :: (s ++ rest)) = true := List.isPrefixOf_iff_prefix.mpr (List.prefix_append (a :: s) rest)
  rw [split,List.cons_append,cut,if_pos start]
  exact congrArg ([] :: ·) (cutSkip (a :: s) s rest)

/- A list without the separator is one part. -/
theorem splitFree {sep l : List α} (free : ¬sep <:+: l) : split sep l = [l] := by
  induction l with
  | nil => rfl
  | cons a rest ih =>
    have other : sep.isPrefixOf (a :: rest) = false :=
      Bool.eq_false_iff.mpr (fun start => free (List.isPrefixOf_iff_prefix.mp start).isInfix)
    have later := ih (fun inside => free (inside.trans (List.infix_cons_iff.mpr (.inr List.infix_rfl))))
    rw [split] at later
    rw [split,cut,other,later]
    rfl

theorem splitFirst {a : α} {s : List α} (once : a ∉ s) {p : List α} (free : ¬(a :: s) <:+: p) (rest : List α) :
    split (a :: s) (p ++ (a :: s ++ rest)) = p :: split (a :: s) rest := by
  induction p with
  | nil => exact splitStart a s rest
  | cons b p ih =>
    have other : (a :: s).isPrefixOf (b :: (p ++ (a :: s ++ rest))) = false :=
      Bool.eq_false_iff.mpr (fun start => startsLater once (List.cons_ne_nil b p) free (List.isPrefixOf_iff_prefix.mp start))
    have later := ih (fun inside => free (inside.trans (List.infix_cons_iff.mpr (.inr List.infix_rfl))))
    rw [split] at later
    rw [split,List.cons_append,cut,other,later]
    rfl

/- Parts without the separator are found again between its places. -/
theorem splitJoin {a : α} {s : List α} (once : a ∉ s) {parts : List (List α)} (some : parts ≠ [])
    (free : ∀ p ∈ parts, ¬(a :: s) <:+: p) : split (a :: s) ((a :: s).intercalate parts) = parts := by
  induction parts with
  | nil => exact absurd rfl some
  | cons p rest ih =>
    obtain ⟨here,later⟩ := List.forall_mem_cons.mp free
    cases rest with
    | nil =>
      rw [List.intercalate_singleton]
      exact splitFree here
    | cons q rest =>
      rw [List.intercalate_cons_cons,List.append_assoc,splitFirst once here,ih (List.cons_ne_nil _ _) later]

end

end Separated
