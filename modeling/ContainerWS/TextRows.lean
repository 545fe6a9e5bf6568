import ContainerWS.GoStrings

/-! Rows of a text: parts joined by a character, split at it, and trimmed at both ends.
For each way back the texts on which nothing is lost. -/
namespace TextRows
open GoStrings

/- Without the blanks at both ends. -/
def trimBoth (blank : Char → Bool) (s : String) : String :=
  String.ofList ((s.toList.dropWhile blank).reverse.dropWhile blank).reverse

/- Parts with a character between them. -/
def join (sep : Char) (parts : List String) : String := String.ofList ([sep].intercalate (parts.map String.toList))

/- What stands between the separators, without the empty ones. -/
def words (sep : Char → Bool) (s : String) : List String :=
  ((s.toList.splitOnP sep).map String.ofList).filter (fun w => w ≠ "")

theorem trimSpaceBoth (s : String) : trimSpace s = trimBoth isSpace s := rfl

section
variable {α β : Type} {blank : Char → Bool}

/- A filter that gives a list back has let every element through as it is. -/
theorem filterMapSelf {f : α → Option α} {l : List α} (same : l.filterMap f = l) : ∀ x ∈ l, f x = some x := by
  have all : ∀ x ∈ l, (f x).isSome = true := List.filterMap_length_eq_length.mp (congrArg List.length same)
  have pairs : (l.filterMap f).map some = (l.map f).filter Option.isSome := List.map_filterMap_some_eq_filter_map_isSome
  rw [same,List.filter_eq_self.mpr (by simpa using all)] at pairs
  intro x mem
  exact (List.map_inj_left.mp pairs x mem).symm

theorem filterMapSelfIff {f : α → Option α} {l : List α} : l.filterMap f = l ↔ ∀ x ∈ l, f x = some x := by
  refine ⟨filterMapSelf,?_⟩
  intro all
  rw [List.filterMap_congr all,List.filterMap_some]

/- A text stays when it begins and ends with no blank. -/
theorem trimBothIff {s : String} :
    trimBoth blank s = s ↔ (∀ c, s.toList.head? = some c → blank c = false) ∧ ∀ c, s.toList.getLast? = some c → blank c = false := by
  have stays (cs : List Char) : cs.dropWhile blank = cs ↔ ∀ c, cs.head? = some c → blank c = false := by
    cases cs with
    | nil => simp
    | cons c rest =>
      constructor
      · intro same d first
        have stop := List.head?_dropWhile_not blank (c :: rest)
        rw [same] at stop
        cases first
        exact stop
      · intro head
        simp [head c rfl]
  have last (cs : List Char) : (cs.reverse.dropWhile blank).reverse = cs ↔ ∀ c, cs.getLast? = some c → blank c = false := by
    rw [List.reverse_eq_iff,stays,List.head?_reverse]
  constructor
  · intro same
    have trimmed : ((s.toList.dropWhile blank).reverse.dropWhile blank).reverse = s.toList := by
      have whole := congrArg String.toList same
      rwa [trimBoth,String.toList_ofList] at whole
    have left : s.toList.dropWhile blank = s.toList := by
      apply List.IsSuffix.eq_of_length (List.dropWhile_suffix blank)
      apply Nat.le_antisymm (List.dropWhile_suffix blank).length_le
      have shorter := (List.dropWhile_suffix (l := (s.toList.dropWhile blank).reverse) blank).length_le
      rw [List.length_reverse] at shorter
      rw [← List.length_reverse,trimmed] at shorter
      exact shorter
    rw [left] at trimmed
    exact ⟨(stays _).mp left,(last _).mp trimmed⟩
  · rintro ⟨first,final⟩
    rw [trimBoth,(stays _).mpr first,(last _).mpr final,String.ofList_toList]

theorem trimBothSublist (blank : Char → Bool) (s : String) : (trimBoth blank s).toList.Sublist s.toList := by
  rw [trimBoth,String.toList_ofList]
  have inner := List.dropWhile_sublist (l := (s.toList.dropWhile blank).reverse) blank
  rw [← List.reverse_sublist,List.reverse_reverse] at inner
  exact inner.trans (List.dropWhile_sublist blank)

theorem trimBothMem {s : String} {c : Char} (mem : c ∈ (trimBoth blank s).toList) : c ∈ s.toList :=
  (trimBothSublist blank s).subset mem

theorem dropWhileCount {cs : List Char} {c : Char} (solid : blank c = false) : (cs.dropWhile blank).count c = cs.count c := by
  have none : (cs.takeWhile blank).count c = 0 := by
    rw [List.count_eq_zero]
    intro mem
    have gap := List.mem_takeWhile_imp mem
    rw [solid] at gap
    cases gap
  have whole := congrArg (List.count c) (List.takeWhile_append_dropWhile (p := blank) (l := cs))
  rwa [List.count_append,none,Nat.zero_add] at whole

/- What is no blank is as often there as before. -/
theorem trimBothCount {s : String} {c : Char} (solid : blank c = false) :
    (trimBoth blank s).toList.count c = s.toList.count c := by
  rw [trimBoth,String.toList_ofList,List.count_reverse,dropWhileCount solid,List.count_reverse,dropWhileCount solid]

theorem dropWhileHead {cs : List Char} {c : Char} (here : (cs.dropWhile blank).head? = some c) : blank c = false := by
  have stop := List.head?_dropWhile_not blank cs
  rw [here] at stop
  exact stop

theorem trimBothSolid (s : String) :
    (∀ c, (trimBoth blank s).toList.head? = some c → blank c = false) ∧
      ∀ c, (trimBoth blank s).toList.getLast? = some c → blank c = false := by
  rw [trimBoth,String.toList_ofList]
  refine ⟨?_,?_⟩
  · intro c here
    have shorter : ((s.toList.dropWhile blank).reverse.dropWhile blank).reverse <+: s.toList.dropWhile blank := by
      rw [← List.reverse_suffix,List.reverse_reverse]
      exact List.dropWhile_suffix _
    obtain ⟨rest,whole⟩ := shorter
    apply dropWhileHead
    rw [← whole,List.head?_append,here]
    rfl
  · intro c here
    rw [List.getLast?_reverse] at here
    exact dropWhileHead here

theorem trimBothTwice (s : String) : trimBoth blank (trimBoth blank s) = trimBoth blank s :=
  trimBothIff.mpr (trimBothSolid s)

/- Without the blanks it begins with. -/
def left (blank : Char → Bool) (s : String) : String := String.ofList (s.toList.dropWhile blank)

theorem leftSelf {s : String} : left blank s = s ↔ ∀ c, s.toList.head? = some c → blank c = false := by
  constructor
  · intro same c head
    rw [← same,left,String.toList_ofList] at head
    exact dropWhileHead head
  · intro solid
    have stays : s.toList.dropWhile blank = s.toList := by
      cases chars : s.toList with
      | nil => rfl
      | cons c rest =>
        rw [chars] at solid
        simp [solid c rfl]
    rw [left,stays,String.ofList_toList]

/- Where a text ends with no blank, it is trimmed at its beginning. -/
theorem trimBothLeft {s : String} (last : ∀ c, s.toList.getLast? = some c → blank c = false) : trimBoth blank s = left blank s := by
  have solid : ∀ c, (s.toList.dropWhile blank).reverse.head? = some c → blank c = false := by
    intro c head
    rw [List.head?_reverse] at head
    apply last
    obtain ⟨gone,whole⟩ := List.dropWhile_suffix (l := s.toList) blank
    rw [← whole,List.getLast?_append,head]
    rfl
  have stays : (s.toList.dropWhile blank).reverse.dropWhile blank = (s.toList.dropWhile blank).reverse := by
    cases chars : (s.toList.dropWhile blank).reverse with
    | nil => rfl
    | cons c rest =>
      rw [chars] at solid
      simp [solid c rfl]
  rw [trimBoth,stays,List.reverse_reverse,left]

/- A blank at the beginning of a text is one of its first part. -/
theorem leftAppend {a b : String} {sep : Char} (solid : blank sep = false) :
    left blank (a ++ String.singleton sep ++ b) = left blank a ++ String.singleton sep ++ b := by
  apply String.toList_inj.mp
  simp only [left,String.toList_append,String.toList_ofList,String.toList_singleton,List.append_assoc,List.singleton_append,
    List.dropWhile_append]
  split
  · rename_i none
    rw [List.isEmpty_iff.mp none]
    simp [solid]
  · rfl

/- A text that two trims leave is left by each. -/
theorem trimBothEach {other : Char → Bool} {s : String} (same : trimBoth other (trimBoth blank s) = s) :
    trimBoth blank s = s ∧ trimBoth other s = s := by
  have shorter := trimBothSublist other (trimBoth blank s)
  rw [same] at shorter
  have first : trimBoth blank s = s := String.toList_inj.mp ((trimBothSublist blank s).antisymm shorter)
  rw [first] at same
  exact ⟨first,same⟩

theorem leftSublist (blank : Char → Bool) (s : String) : (left blank s).toList.Sublist s.toList := by
  rw [left,String.toList_ofList]
  exact List.dropWhile_sublist _

theorem leftEach {other : Char → Bool} {s : String} (same : left other (trimBoth blank s) = s) :
    trimBoth blank s = s ∧ left other s = s := by
  have shorter := leftSublist other (trimBoth blank s)
  rw [same] at shorter
  have whole : trimBoth blank s = s := String.toList_inj.mp ((trimBothSublist blank s).antisymm shorter)
  rw [whole] at same
  exact ⟨whole,same⟩

/- Without the blanks it ends with. -/
def trimEnd (blank : Char → Bool) (cs : List Char) : List Char := (cs.reverse.dropWhile blank).reverse

theorem trimEndSelf {cs : List Char} : trimEnd blank cs = cs ↔ ∀ c, cs.getLast? = some c → blank c = false := by
  rw [trimEnd,List.reverse_eq_iff,← List.head?_reverse]
  cases cs.reverse with
  | nil => simp
  | cons c rest =>
    rw [List.head?_cons]
    constructor
    · intro same d here
      cases here
      have stop := List.head?_dropWhile_not blank (c :: rest)
      rw [same] at stop
      exact stop
    · intro solid
      exact List.dropWhile_cons_of_neg (by rw [solid c rfl]; simp)

theorem trimBothBlank {s : String} {e : Char} (gap : blank e = true) :
    trimBoth blank (s ++ String.singleton e) = trimBoth blank s := by
  simp only [trimBoth,String.toList_append,String.toList_singleton,List.dropWhile_append]
  split
  · rename_i none
    rw [List.isEmpty_iff.mp none]
    simp [gap]
  · rw [List.reverse_append,List.reverse_singleton,List.singleton_append,List.dropWhile_cons_of_pos gap]

theorem trimBothEnd (cs : List Char) : trimBoth blank (String.ofList (trimEnd blank cs)) = trimBoth blank (String.ofList cs) := by
  induction cs using List.reverseRecOn with
  | nil => rfl
  | append_singleton cs d ih =>
    cases space : blank d with
    | true =>
      have shorter : trimEnd blank (cs ++ [d]) = trimEnd blank cs := by
        rw [trimEnd,List.reverse_append,List.reverse_singleton,List.singleton_append,List.dropWhile_cons_of_pos space]
        rfl
      rw [shorter,ih,String.ofList_append,← String.singleton_eq_ofList,trimBothBlank space]
    | false =>
      have stays : trimEnd blank (cs ++ [d]) = cs ++ [d] := trimEndSelf.mpr fun c last => by
        rw [List.getLast?_concat] at last
        cases last
        exact space
      rw [stays]

/- Behind a text that begins and ends with no blank, only the end is trimmed. -/
theorem trimBothFront {n w : List Char} {sep : Char} (solid : blank sep = false) (filled : n ≠ [])
    (head : ∀ c, n.head? = some c → blank c = false) :
    trimBoth blank (String.ofList (n ++ sep :: w)) = String.ofList (n ++ sep :: trimEnd blank w) := by
  obtain ⟨c,rest,rfl⟩ := List.exists_cons_of_ne_nil filled
  have first : ¬blank c = true := by
    rw [head c rfl]
    simp
  have sign : ¬blank sep = true := by
    rw [solid]
    simp
  have turned : (c :: rest ++ sep :: w).reverse = w.reverse ++ sep :: (c :: rest).reverse := by simp
  unfold trimBoth trimEnd
  rw [String.toList_ofList,List.cons_append,List.dropWhile_cons_of_neg first,← List.cons_append,turned,List.dropWhile_append]
  split
  · rename_i none
    rw [List.isEmpty_iff.mp none,List.dropWhile_cons_of_neg sign]
    simp
  · simp

end

section
variable {sep : Char}

theorem splitOnMem {α : Type} [BEq α] [LawfulBEq α] {sep : α} {cs part : List α} (mem : part ∈ cs.splitOn sep) : sep ∉ part ∧ ∀ c ∈ part, c ∈ cs := by
  induction cs generalizing part with
  | nil => simp_all
  | cons c rest ih =>
    rw [List.splitOn_cons_eq_if_modifyHead] at mem
    split at mem
    · rcases List.mem_cons.mp mem with first | later
      · simp [first]
      · exact ⟨(ih later).1,fun d inside => List.mem_cons_of_mem _ ((ih later).2 d inside)⟩
    · rename_i other
      cases parts : rest.splitOn sep with
      | nil => exact absurd parts (List.splitOn_ne_nil sep rest)
      | cons first later =>
        rw [parts] at mem ih
        rcases List.mem_cons.mp mem with here | there
        · rw [here]
          refine ⟨?_,?_⟩
          · rw [List.mem_cons,not_or]
            exact ⟨fun same => other (by simp [same]),(ih List.mem_cons_self).1⟩
          · intro d inside
            rcases List.mem_cons.mp inside with same | within
            · exact List.mem_cons.mpr (.inl same)
            · exact List.mem_cons_of_mem _ ((ih List.mem_cons_self).2 d within)
        · have held := ih (List.mem_cons_of_mem _ there)
          exact ⟨held.1,fun d inside => List.mem_cons_of_mem _ (held.2 d inside)⟩

/- A part has no separator and comes from the text. -/
theorem splitMem {s p : String} (mem : p ∈ split sep s) : sep ∉ p.toList ∧ ∀ c ∈ p.toList, c ∈ s.toList := by
  obtain ⟨cs,there,rfl⟩ := List.mem_map.mp mem
  rw [String.toList_ofList]
  exact splitOnMem there

/- A text has the parts that it is joined from. -/
theorem splitIff {s : String} {parts : List String} :
    split sep s = parts ↔ parts ≠ [] ∧ (∀ p ∈ parts, sep ∉ p.toList) ∧ join sep parts = s := by
  constructor
  · rintro rfl
    refine ⟨by simp [split],?_,?_⟩
    · exact fun p mem => (splitMem mem).1
    · have back : (String.toList ∘ String.ofList) = id := funext (fun _ => String.toList_ofList)
      rw [join,split,List.map_map,back,List.map_id,List.intercalate_splitOn,String.ofList_toList]
  · rintro ⟨some,clean,rfl⟩
    have lists : ∀ cs ∈ parts.map String.toList, sep ∉ cs := by
      intro cs mem
      obtain ⟨p,there,rfl⟩ := List.mem_map.mp mem
      exact clean p there
    have back : (String.ofList ∘ String.toList) = id := funext (fun _ => String.ofList_toList)
    rw [split,join,String.toList_ofList,List.splitOn_intercalate sep lists (by simpa using some),List.map_map,back,List.map_id]

theorem joinSplit (sep : Char) (s : String) : join sep (split sep s) = s := (splitIff.mp rfl).2.2

theorem splitLength (sep : Char) (s : String) : (split sep s).length = s.toList.count sep+1 := by
  rw [split,List.length_map]
  induction s.toList with
  | nil => rfl
  | cons c rest ih =>
    rw [List.splitOn_cons_eq_if_modifyHead,List.count_cons]
    split
    · rw [List.length_cons,ih]
    · rw [List.length_modifyHead,ih]

theorem splitJoin {parts : List String} (some : parts ≠ []) (clean : ∀ p ∈ parts, sep ∉ p.toList) :
    split sep (join sep parts) = parts := splitIff.mpr ⟨some,clean,rfl⟩

theorem joinOne (p : String) : join sep [p] = p := by simp [join]

theorem joinCons (p q : String) (rest : List String) :
    (join sep (p :: q :: rest)).toList = p.toList ++ sep :: (join sep (q :: rest)).toList := by
  simp [join,List.intercalate_cons_cons]

theorem joinTwo (p q : String) : join sep [p,q] = p ++ String.singleton sep ++ q := by
  apply String.toList_inj.mp
  simp [join,List.intercalate]

theorem joinThree (p q r : String) : join sep [p,q,r] = p ++ String.singleton sep ++ q ++ String.singleton sep ++ r := by
  apply String.toList_inj.mp
  simp [join,List.intercalate]

theorem joinMem {parts : List String} {c : Char} (mem : c ∈ (join sep parts).toList) : c = sep ∨ ∃ p ∈ parts, c ∈ p.toList := by
  induction parts with
  | nil => simp [join,List.intercalate] at mem
  | cons p rest ih =>
    cases rest with
    | nil =>
      rw [joinOne] at mem
      exact .inr ⟨p,List.mem_cons_self,mem⟩
    | cons q rest =>
      rw [joinCons,List.mem_append,List.mem_cons] at mem
      rcases mem with here | same | later
      · exact .inr ⟨p,List.mem_cons_self,here⟩
      · exact .inl same
      · rcases ih later with same | ⟨r,there,inside⟩
        · exact .inl same
        · exact .inr ⟨r,List.mem_cons_of_mem _ there,inside⟩

theorem memJoin {parts : List String} {p : String} {c : Char} (here : p ∈ parts) (mem : c ∈ p.toList) :
    c ∈ (join sep parts).toList := by
  induction parts with
  | nil => cases here
  | cons q rest ih =>
    cases rest with
    | nil =>
      rw [joinOne]
      rwa [← List.mem_singleton.mp here]
    | cons r rest =>
      rw [joinCons,List.mem_append,List.mem_cons]
      rcases List.mem_cons.mp here with same | later
      · exact .inl (same ▸ mem)
      · exact .inr (.inr (ih later))

theorem joinEmpty (q : String) (rest : List String) (empty : (join sep (q :: rest)).toList = []) : q = "" := by
  apply String.toList_inj.mp
  cases rest with
  | nil => rwa [joinOne] at empty
  | cons r rest =>
    rw [joinCons] at empty
    exact (List.append_eq_nil_iff.mp empty).1

theorem joinAppend {parts : List String} (some : parts ≠ []) (q : String) :
    join sep (parts ++ [q]) = join sep parts ++ String.singleton sep ++ q := by
  apply String.toList_inj.mp
  induction parts with
  | nil => cases some rfl
  | cons p rest ih =>
    cases rest with
    | nil => simp [joinCons,joinOne]
    | cons r rest =>
      rw [List.cons_append,List.cons_append,joinCons,← List.cons_append,ih (List.cons_ne_nil _ _)]
      simp [joinCons]

/- A part more after those of a text. -/
theorem splitAppend (s t : String) : split sep (s ++ String.singleton sep ++ t) = split sep s ++ split sep t := by
  have chars : (s ++ String.singleton sep ++ t).toList = s.toList ++ sep :: t.toList := by simp
  rw [split,chars,List.splitOn_append_cons_self,List.map_append,split,split]

theorem joinConcat (init : List String) (last first : String) (rest : List String) :
    join sep (init ++ [last]) ++ join sep (first :: rest) = join sep (init ++ (last ++ first) :: rest) := by
  apply String.toList_inj.mp
  induction init with
  | nil =>
    cases rest with
    | nil => simp [joinOne]
    | cons q rest => simp [joinOne,joinCons]
  | cons p init ih =>
    have shape : ∀ l : List String, l ≠ [] → (join sep (p :: l)).toList = p.toList ++ sep :: (join sep l).toList := by
      rintro (_ | ⟨q,l⟩) some
      · exact absurd rfl some
      · exact joinCons p q l
    rw [List.cons_append,List.cons_append,String.toList_append,shape _ (by simp),shape _ (by simp),← ih]
    simp

/- Two texts in a row share the part that the first ends with and the second begins with. -/
theorem splitConcat {s t last first : String} {init rest : List String} (before : split sep s = init ++ [last])
    (behind : split sep t = first :: rest) : split sep (s ++ t) = init ++ (last ++ first) :: rest := by
  obtain ⟨_,clean,joined⟩ := splitIff.mp before
  obtain ⟨_,free,made⟩ := splitIff.mp behind
  refine splitIff.mpr ⟨by simp,?_,?_⟩
  · intro p mem
    rcases List.mem_append.mp mem with early | late
    · exact clean p (List.mem_append_left _ early)
    · rcases List.mem_cons.mp late with rfl | later
      · rw [String.toList_append,List.mem_append,not_or]
        exact ⟨clean last (by simp),free first List.mem_cons_self⟩
      · exact free p (List.mem_cons_of_mem _ later)
  · rw [← joined,← made,joinConcat]

/- The last part of a text that it has been put at the end of. -/
theorem splitLast (parts : List String) {q : String} (clean : sep ∉ q.toList) :
    (split sep (join sep (parts ++ [q]))).getLast? = some q := by
  have last : split sep q = [q] := splitIff.mpr ⟨List.cons_ne_nil _ _,by simpa using clean,joinOne q⟩
  cases parts with
  | nil => rw [List.nil_append,joinOne,last,List.getLast?_singleton]
  | cons p rest => rw [joinAppend (List.cons_ne_nil _ _),splitAppend,last,List.getLast?_concat]

end

section
variable {blank : Char → Bool}

theorem wordsMem {s w : String} (mem : w ∈ words blank s) : w ≠ "" ∧ ∀ c ∈ w.toList, blank c = false := by
  obtain ⟨there,solid⟩ := List.mem_filter.mp mem
  refine ⟨of_decide_eq_true solid,?_⟩
  obtain ⟨cs,part,rfl⟩ := List.mem_map.mp there
  rw [String.toList_ofList]
  clear solid mem there
  generalize s.toList = all at part
  induction all generalizing cs with
  | nil => simp_all
  | cons c rest ih =>
    rw [List.splitOnP_cons_eq_if_modifyHead] at part
    split at part
    · rcases List.mem_cons.mp part with first | later
      · simp [first]
      · exact ih cs later
    · rename_i solid
      cases parts : rest.splitOnP blank with
      | nil => exact absurd parts (List.splitOnP_ne_nil blank rest)
      | cons first later =>
        rw [parts] at part ih
        rcases List.mem_cons.mp part with here | there
        · intro d inside
          rw [here] at inside
          rcases List.mem_cons.mp inside with same | within
          · simpa [same] using solid
          · exact ih first List.mem_cons_self d within
        · exact ih cs (List.mem_cons_of_mem _ there)

/- Words joined by a blank are read back. -/
theorem wordsJoin {sep : Char} (gap : blank sep = true) {parts : List String}
    (solid : ∀ p ∈ parts, p ≠ "" ∧ ∀ c ∈ p.toList, blank c = false) : words blank (join sep parts) = parts := by
  induction parts with
  | nil => simp [join,words,List.intercalate]
  | cons p rest ih =>
    obtain ⟨here,later⟩ := List.forall_mem_cons.mp solid
    cases rest with
    | nil =>
      rw [joinOne,words,List.splitOnP_eq_singleton here.2,List.map_singleton,String.ofList_toList]
      exact List.filter_eq_self.mpr (by simpa using here.1)
    | cons q rest =>
      rw [words,joinCons,List.splitOnP_append_cons _ _ gap,List.splitOnP_eq_singleton here.2,List.map_append,
        List.map_singleton,String.ofList_toList,List.singleton_append,List.filter_cons,if_pos (by simpa using here.1)]
      exact congrArg (p :: ·) (ih later)

/- Words joined by a blank have no blank at their ends. -/
theorem joinTrimmed {sep : Char} {parts : List String} (solid : ∀ p ∈ parts, p ≠ "" ∧ ∀ c ∈ p.toList, blank c = false) :
    trimBoth blank (join sep parts) = join sep parts := by
  rw [trimBothIff]
  induction parts with
  | nil => simp [join,List.intercalate]
  | cons p rest ih =>
    obtain ⟨here,later⟩ := List.forall_mem_cons.mp solid
    have first : p.toList ≠ [] := fun empty => here.1 (String.toList_inj.mp empty)
    cases rest with
    | nil =>
      rw [joinOne]
      exact ⟨fun c head => here.2 c (List.mem_of_head? head),fun c last => here.2 c (List.mem_of_getLast? last)⟩
    | cons q rest =>
      rw [joinCons]
      refine ⟨?_,?_⟩
      · intro c head
        rw [List.head?_append_of_ne_nil _ first] at head
        exact here.2 c (List.mem_of_head? head)
      · intro c last
        have some : (join sep (q :: rest)).toList ≠ [] := by
          intro empty
          exact (later q List.mem_cons_self).1 (joinEmpty q rest empty)
        rw [List.getLast?_append_of_ne_nil _ (List.cons_ne_nil _ _),List.getLast?_cons_of_ne_nil some] at last
        exact (ih later).2 c last

end

end TextRows
