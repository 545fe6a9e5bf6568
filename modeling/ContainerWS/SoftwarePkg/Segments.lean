import Mathlib.Algebra.Group.Nat.Even
import ContainerWS.SoftwarePkg.Paths

/-! What `sanitizeSegment` leaves of a text. The separators go after the pairs of dots, so that what
a separator held apart meets, and a blank behind one comes to an end of the segment. -/
namespace ContainerWS.SoftwarePkg
open GoStrings

def isSeparator (c : Char) : Bool := c == '/' || c == '\\'

/- A character that is no part of a path and not blank. -/
structure Letter (c : Char) : Prop where
  solid : isSpace c = false
  name : c ≠ '.'
  inside : isSeparator c = false

instance (c : Char) : Decidable (Letter c) :=
  decidable_of_iff (isSpace c = false ∧ c ≠ '.' ∧ isSeparator c = false) ⟨fun ⟨a,b,d⟩ => ⟨a,b,d⟩,fun ⟨a,b,d⟩ => ⟨a,b,d⟩⟩

/- `unicode.ToLower` turns letters into letters. -/
structure LetterMap extends LowerMap where
  letters : ∀ c, lower c ≠ c → Letter c ∧ Letter (lower c)

theorem letterNat {c : Char} (low : 65 ≤ c.toNat) (high : c.toNat ≤ 122) (back : c.toNat ≠ 92) : Letter c := by
  refine ⟨?_,?_,?_⟩
  · simp only [isSpace,Bool.or_eq_false_iff,Bool.and_eq_false_iff,decide_eq_false_iff_not,beq_eq_false_iff_ne]
    omega
  · rintro rfl
    exact absurd low (by decide)
  · simp only [isSeparator,Bool.or_eq_false_iff,beq_eq_false_iff_ne]
    refine ⟨?_,?_⟩
    · rintro rfl
      exact absurd low (by decide)
    · rintro rfl
      exact back (by decide)

def asciiLetters : LetterMap where
  toLowerMap := asciiLower
  letters := by
    intro c change
    have code := lowerNat c
    by_cases upper : 65 ≤ c.toNat ∧ c.toNat ≤ 90
    · rw [if_pos upper] at code
      have after : (asciiLower.lower c).toNat = c.toNat+32 := code
      exact ⟨letterNat (by omega) (by omega) (by omega),letterNat (by omega) (by omega) (by omega)⟩
    · rw [if_neg upper] at code
      exact absurd (Char.toNat_inj.mp code) change

/- What is left of a text without its pairs of dots and then its separators. -/
def kept (cs : List Char) : List Char := (dropPairs cs).filter (fun c => !isSeparator c)

/- Separators and pairs of dots only. -/
inductive Vanishes : List Char → Prop
  | nil : Vanishes []
  | separator {c cs} (cut : isSeparator c = true) (rest : Vanishes cs) : Vanishes (c :: cs)
  | pair {cs} (rest : Vanishes cs) : Vanishes ('.' :: '.' :: cs)

def Divided (cs : List Char) : Prop := ∃ c ∈ cs, isSeparator c = true

/- One dot and nothing else that stays. -/
def Lone (cs : List Char) : Prop := ∃ u v, Vanishes u ∧ Vanishes v ∧ cs = u ++ '.' :: v

/- Two dots that a separator holds apart, and nothing else that stays. -/
def Twin (cs : List Char) : Prop :=
  ∃ u v w, Vanishes u ∧ Vanishes v ∧ Divided v ∧ Vanishes w ∧ cs = u ++ '.' :: (v ++ '.' :: w)

/- An even number of dots, or none, at the start. -/
def Evenly (cs : List Char) : Prop := Even (cs.takeWhile (fun c => c == '.')).length

/- Two dots that stay, with nothing between them that does. -/
def Joined (cs : List Char) : Prop :=
  ∃ a v b, Evenly a.reverse ∧ Vanishes v ∧ Divided v ∧ Evenly b ∧ cs = a ++ '.' :: (v ++ '.' :: b)

/- Spaces become dashes; the other blanks stay blank. -/
def Blank (c : Char) : Prop := isSpace c = true ∧ c ≠ ' '

structure Firm (cs : List Char) : Prop where
  filled : ¬Vanishes cs
  apart : ¬Joined cs
  left : ∀ u c v, Vanishes u → Blank c → cs ≠ u ++ c :: v
  right : ∀ u c v, Vanishes v → Blank c → cs ≠ u ++ c :: v

theorem dropDot {cs : List Char} (single : cs.head? ≠ some '.') : dropPairs ('.' :: cs) = '.' :: dropPairs cs := by
  cases cs with
  | nil => rfl
  | cons d cs =>
    rw [dropPairs]
    intro rest _ same
    exact single (by rw [same]; rfl)

theorem dropOther {c : Char} (other : c ≠ '.') (cs : List Char) : dropPairs (c :: cs) = c :: dropPairs cs := by
  rw [dropPairs]
  exact fun rest same => absurd same other

theorem separatorOther {c : Char} (cut : isSeparator c = true) : c ≠ '.' := by
  rintro rfl
  exact absurd cut (by decide)

theorem keptPair (cs : List Char) : kept ('.' :: '.' :: cs) = kept cs := by rw [kept,dropPairs,kept]

theorem keptSeparator {c : Char} (cut : isSeparator c = true) (cs : List Char) : kept (c :: cs) = kept cs := by
  rw [kept,dropOther (separatorOther cut),List.filter_cons_of_neg (by simp [cut]),kept]

theorem keptOther {c : Char} (other : c ≠ '.') (inside : isSeparator c = false) (cs : List Char) :
    kept (c :: cs) = c :: kept cs := by
  rw [kept,dropOther other,List.filter_cons_of_pos (by simp [inside]),kept]

theorem keptDot {cs : List Char} (single : cs.head? ≠ some '.') : kept ('.' :: cs) = '.' :: kept cs := by
  rw [kept,dropDot single,List.filter_cons_of_pos (by decide),kept]

theorem vanishedLeft {u : List Char} (gone : Vanishes u) (w : List Char) : kept (u ++ w) = kept w := by
  induction gone with
  | nil => rfl
  | separator cut _ ih => rw [List.cons_append,keptSeparator cut,ih]
  | pair _ ih => rw [List.cons_append,List.cons_append,keptPair,ih]

/- A dot stays in front of what holds it apart. -/
theorem dividedDot {v : List Char} (gone : Vanishes v) (divided : Divided v) (w : List Char) :
    kept ('.' :: (v ++ w)) = '.' :: kept w := by
  induction gone with
  | nil => exact absurd divided (by simp [Divided])
  | @separator c v cut gone _ =>
    rw [List.cons_append,keptDot (by simpa using separatorOther cut),keptSeparator cut,vanishedLeft gone]
  | @pair v gone ih =>
    have rest : Divided v := by
      obtain ⟨c,mem,cut⟩ := divided
      rcases List.mem_cons.mp mem with same | mem
      · exact absurd same (separatorOther cut)
      · rcases List.mem_cons.mp mem with same | mem
        · exact absurd same (separatorOther cut)
        · exact ⟨c,mem,cut⟩
    rw [List.cons_append,List.cons_append,keptPair]
    exact ih rest

theorem lastDot {v : List Char} (gone : Vanishes v) : kept ('.' :: v) = ['.'] := by
  induction gone with
  | nil => rfl
  | @separator c v cut gone _ =>
    have lost : kept v = [] := by
      rw [← List.append_nil v,vanishedLeft gone]
      rfl
    rw [keptDot (by simpa using separatorOther cut),keptSeparator cut,lost]
  | pair _ ih => rw [keptPair,ih]

theorem evenlyPair {cs : List Char} : Evenly ('.' :: '.' :: cs) ↔ Evenly cs := by
  simp [Evenly,Nat.even_add_one]

/- The dot before an even number of them is the one that stays. -/
theorem evenDot : ∀ {b : List Char}, Evenly b → kept ('.' :: b) = '.' :: kept b
  | [],_ => rfl
  | ['.'],even => by simp [Evenly] at even
  | '.' :: '.' :: b,even => by rw [keptPair,keptPair,evenDot (evenlyPair.mp even)]
  | c :: b,even => by
    by_cases dot : c = '.'
    · subst dot
      cases b with
      | nil => simp [Evenly] at even
      | cons d b =>
        by_cases next : d = '.'
        · subst next
          rw [keptPair,keptPair,evenDot (evenlyPair.mp even)]
        · simp [Evenly,next] at even
    · exact keptDot (by simpa using dot)

/- Whether the last dots of a text are even in number turns on what comes before only where there is
nothing but dots after it. -/
theorem evenlyMore {a : List Char} (shown : ∃ d ∈ a, d ≠ '.') (w : List Char) : Evenly (a ++ w) ↔ Evenly a := by
  have short : (a.takeWhile (fun c => c == '.')).length ≠ a.length := by
    obtain ⟨d,mem,other⟩ := shown
    intro whole
    have all := List.mem_takeWhile_imp ((List.takeWhile_prefix _).eq_of_length whole ▸ mem)
    exact other (by simpa using all)
  rw [Evenly,List.takeWhile_append,if_neg short,Evenly]

theorem evenlyOther {c : Char} (other : c ≠ '.') (a : List Char) : Evenly (a ++ [c]) ↔ Evenly a := by
  rw [Evenly,List.takeWhile_append]
  split
  · rename_i whole
    rw [Evenly,whole]
    simp [other]
  · rfl

theorem evenlyEnd (a : List Char) : Evenly (a ++ ['.','.']) ↔ Evenly a := by
  rw [Evenly,List.takeWhile_append]
  split
  · rename_i whole
    rw [Evenly,whole]
    simp [Nat.even_add_one]
  · rfl

/- Texts are cut one by one unless a pair of dots has one in each. -/
theorem keptAppend {a w : List Char} (whole : w.head? = some '.' → Evenly a.reverse) :
    kept (a ++ w) = kept a ++ kept w := by
  induction a using dropPairs.induct with
  | case1 a ih =>
    have before : w.head? = some '.' → Evenly a.reverse := by
      intro dot
      have even := whole dot
      rwa [List.reverse_cons,List.reverse_cons,List.append_assoc,List.singleton_append,evenlyEnd] at even
    rw [List.cons_append,List.cons_append,keptPair,keptPair,ih before]
  | case2 c a single ih =>
    by_cases dot : c = '.'
    · subst dot
      cases a with
      | nil =>
        have other : w.head? ≠ some '.' := fun next => by simpa [Evenly] using whole next
        exact keptDot other
      | cons d a =>
        have other : d ≠ '.' := fun same => single a rfl (by rw [same])
        have before : w.head? = some '.' → Evenly (d :: a).reverse := by
          intro next
          have even := whole next
          rwa [List.reverse_cons,evenlyMore ⟨d,by simp,other⟩] at even
        rw [List.cons_append,keptDot (by simpa using other),keptDot (by simpa using other),ih before]
        rfl
    · have before : w.head? = some '.' → Evenly a.reverse := by
        intro next
        have even := whole next
        rwa [List.reverse_cons,evenlyOther dot] at even
      cases cut : isSeparator c with
      | true => rw [List.cons_append,keptSeparator cut,keptSeparator cut,ih before]
      | false => rw [List.cons_append,keptOther dot cut,keptOther dot cut,ih before,List.cons_append]
  | case3 => rfl

/- A character that stays between two texts. -/
structure Stands (a : List Char) (k : Char) (b : List Char) : Prop where
  inside : isSeparator k = false
  even : k = '.' → Evenly a.reverse
  single : k = '.' → b.head? ≠ some '.'

theorem Stands.here {k : Char} {b : List Char} (stands : Stands [] k b) : kept (k :: b) = k :: kept b := by
  by_cases dot : k = '.'
  · subst dot
    exact keptDot (stands.single rfl)
  · exact keptOther dot stands.inside b

theorem standsFirst {c : Char} {cs : List Char} (cut : ¬isSeparator c = true)
    (single : ∀ rest, c = '.' → cs = '.' :: rest → False) : Stands [] c cs := by
  refine ⟨by simpa using cut,fun _ => by simp [Evenly],?_⟩
  intro dot head
  obtain ⟨rest,same⟩ := List.head?_eq_some_iff.mp head
  exact single rest dot same

/- What stays stands somewhere, and its neighbours come from either side. -/
theorem placed {cs p q : List Char} {k : Char} (stays : kept cs = p ++ k :: q) :
    ∃ a b, cs = a ++ k :: b ∧ kept a = p ∧ kept b = q ∧ Stands a k b := by
  induction cs using dropPairs.induct generalizing p with
  | case1 cs ih =>
    rw [keptPair] at stays
    obtain ⟨a,b,rfl,left,right,stands⟩ := ih stays
    refine ⟨'.' :: '.' :: a,b,rfl,(keptPair a).trans left,right,stands.inside,?_,stands.single⟩
    intro dot
    rw [List.reverse_cons,List.reverse_cons,List.append_assoc,List.singleton_append,evenlyEnd]
    exact stands.even dot
  | case2 c cs single ih =>
    by_cases cut : isSeparator c = true
    · rw [keptSeparator cut] at stays
      obtain ⟨a,b,rfl,left,right,stands⟩ := ih stays
      refine ⟨c :: a,b,rfl,(keptSeparator cut a).trans left,right,stands.inside,?_,stands.single⟩
      intro dot
      rw [List.reverse_cons,evenlyOther (separatorOther cut)]
      exact stands.even dot
    · have first := standsFirst cut single
      rw [first.here] at stays
      cases p with
      | nil =>
        obtain ⟨rfl,rest⟩ := List.cons.inj stays
        exact ⟨[],cs,rfl,rfl,rest,first⟩
      | cons d p =>
        obtain ⟨rfl,rest⟩ := List.cons.inj stays
        obtain ⟨a,b,rfl,left,right,stands⟩ := ih rest
        have start : Stands [] c a := by
          refine ⟨first.inside,first.even,?_⟩
          intro dot head
          exact first.single dot (by rw [List.head?_append,head]; rfl)
        refine ⟨c :: a,b,rfl,by rw [start.here,left],right,stands.inside,?_,stands.single⟩
        intro dot
        rw [List.reverse_cons]
        by_cases same : c = '.'
        · -- the text between two dots that stay is not empty, and its first character is no dot
          cases a with
          | nil => exact absurd (by rw [dot]; rfl) (first.single same)
          | cons d a =>
            have other : d ≠ '.' := fun next => start.single same (by rw [next]; rfl)
            rw [evenlyMore ⟨d,by simp,other⟩]
            exact stands.even dot
        · rw [evenlyOther same]
          exact stands.even dot
  | case3 => exact absurd stays (by simp [kept,dropPairs])

theorem keptNone {cs : List Char} : kept cs = [] ↔ Vanishes cs := by
  constructor
  · intro lost
    induction cs using dropPairs.induct with
    | case1 cs ih => exact .pair (ih (by rwa [keptPair] at lost))
    | case2 c cs single ih =>
      by_cases cut : isSeparator c = true
      · exact .separator cut (ih (by rwa [keptSeparator cut] at lost))
      · exact absurd ((standsFirst cut single).here.symm.trans lost) (by simp)
    | case3 => exact .nil
  · intro gone
    rw [← List.append_nil cs,vanishedLeft gone]
    rfl

theorem dividedHead {v : List Char} (gone : Vanishes v) (filled : v ≠ []) (head : v.head? ≠ some '.') : Divided v := by
  cases gone with
  | nil => exact absurd rfl filled
  | separator cut _ => exact ⟨_,by simp,cut⟩
  | pair _ => exact absurd rfl head

theorem keptLone {cs : List Char} : kept cs = ['.'] ↔ Lone cs := by
  constructor
  · intro one
    obtain ⟨u,v,whole,left,right,_⟩ := placed (show kept cs = [] ++ '.' :: [] from one)
    exact ⟨u,v,keptNone.mp left,keptNone.mp right,whole⟩
  · rintro ⟨u,v,left,right,rfl⟩
    rw [vanishedLeft left,lastDot right]

/- Between two dots that stay next to each other is a separator. -/
theorem keptBetween {b q : List Char} (next : kept b = '.' :: q) (single : b.head? ≠ some '.') :
    ∃ v w, b = v ++ '.' :: w ∧ Vanishes v ∧ Divided v ∧ kept w = q ∧ Stands v '.' w := by
  obtain ⟨v,w,rfl,left,right,stands⟩ := placed (show kept b = [] ++ '.' :: q from next)
  have gone := keptNone.mp left
  refine ⟨v,w,rfl,gone,?_,right,stands⟩
  cases v with
  | nil => exact absurd rfl single
  | cons c v => exact dividedHead gone (by simp) (by simpa using single)

theorem keptTwin {cs : List Char} : kept cs = ['.','.'] ↔ Twin cs := by
  constructor
  · intro two
    obtain ⟨u,b,rfl,left,right,stands⟩ := placed (show kept cs = [] ++ '.' :: ['.'] from two)
    obtain ⟨v,w,rfl,gone,divided,last,_⟩ := keptBetween right (stands.single rfl)
    exact ⟨u,v,w,keptNone.mp left,gone,divided,keptNone.mp last,rfl⟩
  · rintro ⟨u,v,w,left,gone,divided,right,rfl⟩
    rw [vanishedLeft left,dividedDot gone divided,lastDot right]

theorem keptJoined {cs : List Char} : ['.','.'] <:+: kept cs ↔ Joined cs := by
  constructor
  · rintro ⟨p,q,whole⟩
    have stays : kept cs = p ++ '.' :: ('.' :: q) := by rw [← whole]; simp
    obtain ⟨a,rest,rfl,_,right,stands⟩ := placed stays
    obtain ⟨v,b,rfl,gone,divided,_,last⟩ := keptBetween right (stands.single rfl)
    have even : Evenly b := by
      cases b with
      | nil => simp [Evenly]
      | cons d b =>
        have other : d ≠ '.' := by simpa using last.single rfl
        simp [Evenly,other]
    exact ⟨a,v,b,stands.even rfl,gone,divided,even,rfl⟩
  · rintro ⟨a,v,b,even,gone,divided,more,rfl⟩
    rw [keptAppend (fun _ => even),dividedDot gone divided,evenDot more]
    exact ⟨kept a,kept b,by simp⟩

theorem Blank.other {c : Char} (blank : Blank c) : c ≠ '.' := by
  rintro rfl
  exact absurd blank.1 (by decide)

theorem Blank.inside {c : Char} (blank : Blank c) : isSeparator c = false := by
  have slash : c ≠ '/' := by
    rintro rfl
    exact absurd blank.1 (by decide)
  have back : c ≠ '\\' := by
    rintro rfl
    exact absurd blank.1 (by decide)
  simp [isSeparator,slash,back]

theorem keptFirst {cs : List Char} :
    (∃ c, (kept cs).head? = some c ∧ Blank c) ↔ ∃ u c v, Vanishes u ∧ Blank c ∧ cs = u ++ c :: v := by
  constructor
  · rintro ⟨c,head,blank⟩
    obtain ⟨q,first⟩ := List.head?_eq_some_iff.mp head
    obtain ⟨u,v,whole,left,_,_⟩ := placed (show kept cs = [] ++ c :: q from first)
    exact ⟨u,c,v,keptNone.mp left,blank,whole⟩
  · rintro ⟨u,c,v,gone,blank,rfl⟩
    rw [vanishedLeft gone,keptOther blank.other blank.inside]
    exact ⟨c,rfl,blank⟩

theorem keptLast {cs : List Char} :
    (∃ c, (kept cs).getLast? = some c ∧ Blank c) ↔ ∃ u c v, Vanishes v ∧ Blank c ∧ cs = u ++ c :: v := by
  constructor
  · rintro ⟨c,last,blank⟩
    obtain ⟨p,stays⟩ := List.getLast?_eq_some_iff.mp last
    obtain ⟨u,v,whole,_,right,_⟩ := placed (show kept cs = p ++ c :: [] from stays)
    exact ⟨u,c,v,keptNone.mp right,blank,whole⟩
  · rintro ⟨u,c,v,gone,blank,rfl⟩
    have cut : (c :: v).head? = some '.' → Evenly u.reverse := fun dot => absurd (by simpa using dot) blank.other
    rw [keptAppend cut,keptOther blank.other blank.inside,keptNone.mpr gone]
    exact ⟨c,by simp,blank⟩

theorem firmIff {cs : List Char} :
    Firm cs ↔ kept cs ≠ [] ∧ ¬['.','.'] <:+: kept cs ∧
      (∀ c, (kept cs).head? = some c → ¬Blank c) ∧ ∀ c, (kept cs).getLast? = some c → ¬Blank c := by
  have first : (∀ c, (kept cs).head? = some c → ¬Blank c) ↔ ∀ u c v, Vanishes u → Blank c → cs ≠ u ++ c :: v := by
    constructor
    · intro solid u c v gone blank whole
      obtain ⟨d,here,also⟩ := keptFirst.mpr ⟨u,c,v,gone,blank,whole⟩
      exact solid d here also
    · intro solid c here blank
      obtain ⟨u,d,v,gone,also,whole⟩ := keptFirst.mp ⟨c,here,blank⟩
      exact solid u d v gone also whole
  have last : (∀ c, (kept cs).getLast? = some c → ¬Blank c) ↔ ∀ u c v, Vanishes v → Blank c → cs ≠ u ++ c :: v := by
    constructor
    · intro solid u c v gone blank whole
      obtain ⟨d,here,also⟩ := keptLast.mpr ⟨u,c,v,gone,blank,whole⟩
      exact solid d here also
    · intro solid c here blank
      obtain ⟨u,d,v,gone,also,whole⟩ := keptLast.mp ⟨c,here,blank⟩
      exact solid u d v gone also whole
  rw [first,last,keptJoined,Ne,keptNone]
  exact ⟨fun ⟨a,b,c,d⟩ => ⟨a,b,c,d⟩,fun ⟨a,b,c,d⟩ => ⟨a,b,c,d⟩⟩

theorem keptSublist (cs : List Char) : (kept cs).Sublist cs := by
  induction cs using dropPairs.induct with
  | case1 cs ih =>
    rw [keptPair]
    exact (ih.cons _).cons _
  | case2 c cs single ih =>
    by_cases cut : isSeparator c = true
    · rw [keptSeparator cut]
      exact ih.cons c
    · rw [(standsFirst cut single).here]
      exact ih.cons_cons c
  | case3 => exact List.Sublist.refl []

theorem keptSelf {cs : List Char} : kept cs = cs ↔ ¬['.','.'] <:+: cs ∧ ∀ c ∈ cs, isSeparator c = false := by
  constructor
  · intro same
    refine ⟨?_,?_⟩
    · induction cs using dropPairs.induct with
      | case1 cs ih =>
        have shorter := (keptSublist cs).length_le
        rw [keptPair] at same
        rw [same,List.length_cons,List.length_cons] at shorter
        omega
      | case2 c cs single ih =>
        by_cases cut : isSeparator c = true
        · have shorter := (keptSublist cs).length_le
          rw [keptSeparator cut] at same
          rw [same,List.length_cons] at shorter
          omega
        · rw [(standsFirst cut single).here] at same
          intro pair
          rcases List.infix_cons_iff.mp pair with front | inside
          · obtain ⟨rest,whole⟩ := front
            obtain ⟨dot,more⟩ := List.cons.inj whole
            exact single rest dot.symm more.symm
          · exact ih (List.cons.inj same).2 inside
      | case3 => simp
    · intro c mem
      rw [← same] at mem
      simpa using (List.mem_filter.mp mem).2
  · rintro ⟨apart,inside⟩
    induction cs using dropPairs.induct with
    | case1 cs ih => exact absurd ⟨[],cs,rfl⟩ apart
    | case2 c cs single ih =>
      rw [(standsFirst (by simp [inside c]) single).here,ih]
      · intro here
        exact apart (here.trans (List.suffix_cons c cs).isInfix)
      · exact fun d mem => inside d (by simp [mem])
    | case3 => rfl

section
variable (m : LetterMap)

/- A character of a segment. -/
def tidy (c : Char) : Char := if m.lower c = ' ' then '-' else m.lower c

theorem tidyCases (c : Char) :
    (c = ' ' ∧ tidy m c = '-') ∨ (c ≠ ' ' ∧ tidy m c = c) ∨ (Letter c ∧ Letter (tidy m c)) := by
  by_cases same : m.lower c = c
  · by_cases space : c = ' '
    · left
      refine ⟨space,?_⟩
      rw [tidy,same,if_pos space]
    · right
      left
      refine ⟨space,?_⟩
      rw [tidy,same,if_neg space]
  · right
    right
    obtain ⟨first,next⟩ := m.letters c same
    have filled : m.lower c ≠ ' ' := fun space => absurd next.solid (by rw [space]; decide)
    rw [tidy,if_neg filled]
    exact ⟨first,next⟩

theorem tidyDot (c : Char) : tidy m c = '.' ↔ c = '.' := by
  rcases tidyCases m c with ⟨rfl,same⟩ | ⟨_,same⟩ | ⟨first,next⟩
  · simp [same]
  · rw [same]
  · exact ⟨fun dot => absurd dot next.name,fun dot => absurd dot first.name⟩

theorem tidySeparator (c : Char) : isSeparator (tidy m c) = isSeparator c := by
  rcases tidyCases m c with ⟨rfl,same⟩ | ⟨_,same⟩ | ⟨first,next⟩
  · rw [same]
    decide
  · rw [same]
  · rw [first.inside,next.inside]

theorem tidySpace (c : Char) : isSpace (tidy m c) = true ↔ Blank c := by
  rcases tidyCases m c with ⟨rfl,same⟩ | ⟨other,same⟩ | ⟨first,next⟩
  · rw [same]
    simp only [Blank]
    decide
  · rw [same]
    exact ⟨fun blank => ⟨blank,other⟩,fun blank => blank.1⟩
  · simp [next.solid,Blank,first.solid]

theorem tidyTwice (c : Char) : tidy m (tidy m c) = tidy m c := by
  by_cases space : m.lower c = ' '
  · have dash : m.lower '-' = '-' := m.onAscii '-' (by decide)
    simp [tidy,space,dash]
  · have same : tidy m c = m.lower c := if_neg space
    rw [same,tidy,m.idempotent,if_neg space]

theorem dropTidy (cs : List Char) : dropPairs (cs.map (tidy m)) = (dropPairs cs).map (tidy m) := by
  induction cs using dropPairs.induct with
  | case1 cs ih =>
    have dot : tidy m '.' = '.' := (tidyDot m '.').mpr rfl
    rw [List.map_cons,List.map_cons,dot,dropPairs,ih,dropPairs]
  | case2 c cs single ih =>
    by_cases dot : c = '.'
    · subst dot
      have head : cs.head? ≠ some '.' := (standsFirst (by decide) single).single rfl
      have after : (cs.map (tidy m)).head? ≠ some '.' := by
        rw [List.head?_map]
        intro next
        obtain ⟨d,first,same⟩ := Option.map_eq_some_iff.mp next
        rw [tidyDot] at same
        exact head (by rw [first,same])
      have same : tidy m '.' = '.' := (tidyDot m '.').mpr rfl
      rw [dropDot head,List.map_cons,same,dropDot after,ih,List.map_cons,same]
    · rw [dropOther dot,List.map_cons,dropOther (by simpa [tidyDot] using dot),ih,List.map_cons]
  | case3 => rfl

theorem keptTidy (cs : List Char) : kept (cs.map (tidy m)) = (kept cs).map (tidy m) := by
  rw [kept,dropTidy,List.filter_map,kept]
  congr 1
  exact List.filter_congr (fun c _ => by simp [tidySeparator])

theorem sanitizeKept (s : String) :
    sanitizeSegment m.toCaseMap s = String.ofList ((kept (trimSpace s).toList).map (tidy m)) := by
  rw [← keptTidy]
  have cut : (fun c => decide (c ≠ '\\') && decide (c ≠ '/')) = fun c => !isSeparator c := by
    funext c
    by_cases slash : c = '/' <;> by_cases back : c = '\\' <;> simp [isSeparator,slash,back]
  simp only [sanitizeSegment,replaceAll,CaseMap.toLower,dropAll,String.toList_ofList,List.map_map,List.filter_filter,kept]
  rw [cut]
  rfl

theorem sanitizeInside (s : String) : ∀ c ∈ (sanitizeSegment m.toCaseMap s).toList, isSeparator c = false := by
  rw [sanitizeKept,String.toList_ofList]
  intro c mem
  obtain ⟨d,here,rfl⟩ := List.mem_map.mp mem
  rw [tidySeparator]
  simpa using (List.mem_filter.mp here).2

theorem sanitizeNone (s : String) : sanitizeSegment m.toCaseMap s = "" ↔ Vanishes (trimSpace s).toList := by
  rw [sanitizeKept,← keptNone,← String.toList_inj,String.toList_ofList]
  simp

theorem tidyDots (cs : List Char) (n : Nat) : cs.map (tidy m) = List.replicate n '.' ↔ cs = List.replicate n '.' := by
  induction cs generalizing n with
  | nil => simp
  | cons c cs ih =>
    cases n with
    | zero => simp
    | succ n => rw [List.map_cons,List.replicate_succ,List.cons.injEq,List.cons.injEq,tidyDot,ih]

theorem sanitizeLone (s : String) : sanitizeSegment m.toCaseMap s = "." ↔ Lone (trimSpace s).toList := by
  rw [sanitizeKept,← keptLone,← String.toList_inj,String.toList_ofList]
  exact tidyDots m _ 1

theorem sanitizeTwin (s : String) : sanitizeSegment m.toCaseMap s = ".." ↔ Twin (trimSpace s).toList := by
  rw [sanitizeKept,← keptTwin,← String.toList_inj,String.toList_ofList]
  exact tidyDots m _ 2

/- What a segment of a path has to be. -/
structure Segment (s : String) : Prop where
  filled : sanitizeSegment m.toCaseMap s ≠ ""
  up : sanitizeSegment m.toCaseMap s ≠ ".."
  one : ∀ c ∈ (sanitizeSegment m.toCaseMap s).toList, isSeparator c = false
  twice : sanitizeSegment m.toCaseMap (sanitizeSegment m.toCaseMap s) = sanitizeSegment m.toCaseMap s

theorem trimSublist (s : String) : (trimSpace s).toList.Sublist s.toList := by
  rw [trimSpace,String.toList_ofList,← List.reverse_sublist,List.reverse_reverse]
  exact ((List.dropWhile_suffix _).sublist).trans ((List.dropWhile_suffix _).sublist.reverse)

/- A second pass finds nothing where no dots have met and the ends are solid. -/
theorem sanitizeTwice (s : String) : sanitizeSegment m.toCaseMap (sanitizeSegment m.toCaseMap s) =
    sanitizeSegment m.toCaseMap s ↔ ¬['.','.'] <:+: kept (trimSpace s).toList ∧
      (∀ c, (kept (trimSpace s).toList).head? = some c → ¬Blank c) ∧
      ∀ c, (kept (trimSpace s).toList).getLast? = some c → ¬Blank c := by
  let t := kept (trimSpace s).toList
  let o := t.map (tidy m)
  have out : sanitizeSegment m.toCaseMap s = String.ofList o := sanitizeKept m s
  have ends : Solid o ↔ (∀ c, t.head? = some c → ¬Blank c) ∧ ∀ c, t.getLast? = some c → ¬Blank c := by
    simp [Solid,o,← tidySpace m]
  have apart : kept o = o ↔ ¬['.','.'] <:+: t := by
    have inside : ∀ c ∈ t, isSeparator c = false := fun c mem => by simpa using (List.mem_filter.mp mem).2
    have same : kept o = (kept t).map (tidy m) := keptTidy m t
    have self : kept t = t ↔ ¬['.','.'] <:+: t ∧ ∀ c ∈ t, isSeparator c = false := keptSelf
    rw [← and_iff_left (a := ¬['.','.'] <:+: t) inside,← self,same]
    constructor
    · intro whole
      apply (keptSublist t).eq_of_length
      simpa [o] using congrArg List.length whole
    · intro whole
      rw [whole]
  rw [out,sanitizeKept m (String.ofList o),String.ofList_inj,← ends,← apart]
  constructor
  · intro whole
    have first := keptSublist (trimSpace (String.ofList o)).toList
    have next := trimSublist (String.ofList o)
    have long : (kept (trimSpace (String.ofList o)).toList).length = o.length := by
      simpa using congrArg List.length whole
    rw [String.toList_ofList] at next
    have trimmed : (trimSpace (String.ofList o)).toList = o := by
      apply next.eq_of_length
      have up := first.length_le
      have down := next.length_le
      omega
    rw [trimmed] at long
    refine ⟨(keptSublist o).eq_of_length long,?_⟩
    rw [← trimmed]
    exact trimSpaceSolid _
  · rintro ⟨self,solid⟩
    rw [trimSpaceEnds (by rwa [String.toList_ofList]),String.toList_ofList,self]
    simp only [o,List.map_map]
    exact List.map_congr_left (fun c _ => tidyTwice m c)

theorem segmentIff (s : String) : Segment m s ↔ Firm (trimSpace s).toList := by
  rw [firmIff,← sanitizeTwice]
  constructor
  · intro sound
    refine ⟨?_,sound.twice⟩
    rw [Ne,keptNone,← sanitizeNone m]
    exact sound.filled
  · rintro ⟨filled,twice⟩
    rw [Ne,keptNone,← sanitizeNone m] at filled
    refine ⟨filled,?_,sanitizeInside m s,twice⟩
    intro up
    rw [up] at twice
    have lost : sanitizeSegment m.toCaseMap ".." = "" := by
      rw [sanitizeNone]
      exact .pair .nil
    rw [lost] at twice
    exact absurd twice (by decide)

end

end ContainerWS.SoftwarePkg
