import ContainerWS.GoStrings

/-! `strconv.Quote`, which writes a text in double quotes for a reader of Go. -/
namespace GoQuote

/- `unicode.IsPrint`: any table that is as known on ASCII. -/
structure PrintTable where
  isPrint : Char → Bool
  onAscii : ∀ c, c.toNat < 128 → isPrint c = (decide (32 ≤ c.toNat) && decide (c.toNat < 127))

def lowerhex : List Char := ['0','1','2','3','4','5','6','7','8','9','a','b','c','d','e','f']

/- The last digits of a number, as many as are asked for. -/
def hexDigits : Nat → Nat → List Char
  | 0,_ => []
  | k+1,n => hexDigits k (n / 16) ++ [lowerhex.getD (n % 16) '0']

/- The characters with an escape of one letter. -/
def letters : List (Nat × Char) := [(7,'a'),(8,'b'),(12,'f'),(10,'n'),(13,'r'),(9,'t'),(11,'v')]

def numeric (n : Nat) : List Char :=
  if n < 32 ∨ n = 127 then 'x' :: hexDigits 2 n else if n < 0x10000 then 'u' :: hexDigits 4 n else 'U' :: hexDigits 8 n

/- What follows the backslash of a character that is not printable. -/
def hidden (c : Char) : List Char :=
  match letters.lookup c.toNat with
  | some d => [d]
  | none => numeric c.toNat

/- One character. -/
def escape (t : PrintTable) (c : Char) : List Char :=
  if c = '"' ∨ c = '\\' then ['\\',c] else if t.isPrint c then [c] else '\\' :: hidden c

def Quote (t : PrintTable) (s : String) : String := String.ofList ('"' :: s.toList.flatMap (escape t) ++ ['"'])

/- A character that stays. -/
def Plain (t : PrintTable) (c : Char) : Prop := t.isPrint c = true ∧ c ≠ '"' ∧ c ≠ '\\'

section
variable {t : PrintTable} {c : Char}

theorem escapePlain (plain : Plain t c) : escape t c = [c] := by
  unfold escape
  rw [if_neg (not_or.mpr plain.2),if_pos plain.1]

theorem numericFilled (n : Nat) : numeric n ≠ [] := by
  unfold numeric
  split
  · exact List.cons_ne_nil _ _
  split
  · exact List.cons_ne_nil _ _
  · exact List.cons_ne_nil _ _

theorem hiddenFilled (c : Char) : hidden c ≠ [] := by
  unfold hidden
  split
  · exact List.cons_ne_nil _ _
  · exact numericFilled _

/- Any other character is written with a backslash. -/
theorem escapeOther (other : ¬Plain t c) : ∃ d rest, escape t c = '\\' :: d :: rest := by
  by_cases mark : c = '"' ∨ c = '\\'
  · exact ⟨c,[],if_pos mark⟩
  · have unseen : ¬t.isPrint c = true := fun shown => other ⟨shown,not_or.mp mark⟩
    obtain ⟨d,rest,shape⟩ := List.exists_cons_of_ne_nil (hiddenFilled c)
    refine ⟨d,rest,?_⟩
    rw [escape,if_neg mark,if_neg unseen,shape]

theorem lowerhexFree (n : Nat) : lowerhex.getD n '0' ≠ '"' := by
  have all : ∀ c ∈ lowerhex, c ≠ '"' := fun c mem => of_decide_eq_true (List.all_eq_true.mp (by decide : lowerhex.all (· ≠ '"')) c mem)
  rw [List.getD_eq_getElem?_getD]
  cases digit : lowerhex[n]? with
  | none => decide
  | some c => exact all c (List.mem_of_getElem? digit)

theorem hexDigitsFree (k n : Nat) : '"' ∉ hexDigits k n := by
  induction k generalizing n with
  | zero => exact List.not_mem_nil
  | succ k ih =>
    intro mem
    rcases List.mem_append.mp mem with front | last
    · exact ih _ front
    · exact lowerhexFree _ (List.mem_singleton.mp last).symm

theorem numericFree (n : Nat) : '"' ∉ numeric n := by
  unfold numeric
  split
  · exact List.not_mem_cons_of_ne_of_not_mem (by decide) (hexDigitsFree _ _)
  split
  · exact List.not_mem_cons_of_ne_of_not_mem (by decide) (hexDigitsFree _ _)
  · exact List.not_mem_cons_of_ne_of_not_mem (by decide) (hexDigitsFree _ _)

theorem hiddenFree (c : Char) : '"' ∉ hidden c := by
  have all : ∀ p ∈ letters, p.2 ≠ '"' := fun p mem => of_decide_eq_true (List.all_eq_true.mp (by decide : letters.all (·.2 ≠ '"')) p mem)
  unfold hidden
  split
  · rename_i d here
    obtain ⟨before,after,shape,_⟩ := List.lookup_eq_some_iff.mp here
    have mem : (c.toNat,d) ∈ letters := by
      rw [shape]
      simp
    exact fun same => all _ mem (List.mem_singleton.mp same).symm
  · exact numericFree _

/- Only a quote is written with one. -/
theorem escapeQuote (mem : '"' ∈ escape t c) : c = '"' := by
  unfold escape at mem
  split at mem
  · simpa [eq_comm] using mem
  split at mem
  · exact (List.mem_singleton.mp mem).symm
  · exact absurd ((List.mem_cons.mp mem).resolve_left (by decide)) (hiddenFree c)

theorem escapeFilled (t : PrintTable) (c : Char) : 1 ≤ (escape t c).length := by
  by_cases plain : Plain t c
  · rw [escapePlain plain]
    exact Nat.le_refl 1
  · obtain ⟨d,rest,shape⟩ := escapeOther plain
    rw [shape]
    exact Nat.succ_pos _

theorem escapesLength (t : PrintTable) (cs : List Char) : cs.length ≤ (cs.flatMap (escape t)).length := by
  induction cs with
  | nil => exact Nat.le_refl 0
  | cons c cs ih =>
    have here := escapeFilled t c
    rw [List.flatMap_cons,List.length_append,List.length_cons]
    omega

/- A text stays between the quotes if and only if each of its characters does. -/
theorem escapesSelf {cs : List Char} : cs.flatMap (escape t) = cs ↔ ∀ c ∈ cs, Plain t c := by
  induction cs with
  | nil => simp
  | cons c cs ih =>
    rw [List.flatMap_cons,List.forall_mem_cons,← ih]
    by_cases plain : Plain t c
    · rw [escapePlain plain]
      simp [plain]
    · refine iff_of_false (fun same => ?_) (fun both => plain both.1)
      obtain ⟨d,rest,shape⟩ := escapeOther plain
      have more := escapesLength t cs
      have count := congrArg List.length same
      rw [shape,List.length_append,List.length_cons,List.length_cons,List.length_cons] at count
      omega

end

end GoQuote
