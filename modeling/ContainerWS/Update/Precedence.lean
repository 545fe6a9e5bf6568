import ContainerWS.Separated
import ContainerWS.Update.Semver
import Mathlib.Data.Sum.Order

/-! The versions of SemVer 2.0 and their precedence, and which of them compareSemver of
modules/settings/update/semver.go puts in its order. -/
namespace ContainerWS.Update
open GoStrings ThreeWay

def idChar (c : Char) : Bool := c.isDigit || ('a' ≤ c && c ≤ 'z') || ('A' ≤ c && c ≤ 'Z') || c = '-'

/- A build identifier. -/
structure Word where
  text : String
  filled : text ≠ ""
  chars : ∀ c ∈ text.toList, idChar c = true
  deriving DecidableEq

/- A text of digits only is a number. -/
def number (text : String) : Option Nat := Decimals.digits text.toList

/- A pre-release identifier: no number has a zero in front. -/
structure Identifier extends Word where
  plain : ∀ n ∈ number text, text = n.repr
  deriving DecidableEq

structure SemVer where
  major : Nat
  minor : Nat
  patch : Nat
  pre : List Identifier
  build : List Word
  deriving DecidableEq

def dotted (texts : List String) : String := String.ofList (['.'].intercalate (texts.map String.toList))

/- What is there stands behind its mark. -/
def behind (mark : String) (texts : List String) : String := if texts = [] then "" else mark ++ dotted texts

def SemVer.preTexts (v : SemVer) : List String := v.pre.map (fun i => i.text)

def SemVer.buildTexts (v : SemVer) : List String := v.build.map Word.text

def SemVer.text (v : SemVer) : String :=
  dotted [v.major.repr,v.minor.repr,v.patch.repr] ++ behind "-" v.preTexts ++ behind "+" v.buildTexts

def SemVer.written (lead : Bool) (v : SemVer) : String := (if lead then "v" else "") ++ v.text

/- Numbers are below the other identifiers. -/
abbrev Key := Nat ⊕ₗ String

def key (text : String) : Key :=
  match number text with
  | some n => Sum.inlₗ n
  | none => Sum.inrₗ text

/- A pre-release is below its release. -/
def preRank (texts : List String) : WithTop (List Key) := if texts = [] then ⊤ else ((texts.map key : List Key) : WithTop (List Key))

abbrev Precedence := Nat ×ₗ Nat ×ₗ Nat ×ₗ WithTop (List Key)

def SemVer.precedence (v : SemVer) : Precedence := toLex (v.major,toLex (v.minor,toLex (v.patch,preRank v.preTexts)))

/- The parts between the dots: the first of what follows a mark is in the part of the last before it. -/
def attach (mark : String) : List String → List String → List String
  | [],more => more
  | [x],[] => [x]
  | [x],y :: more => (x ++ mark ++ y) :: more
  | x :: y :: rest,more => x :: attach mark (y :: rest) more

/- The parts with the patch number and the pre-release. -/
def SemVer.pieces (v : SemVer) : List String := attach "-" [v.patch.repr] v.preTexts

def SemVer.parts (v : SemVer) : List String := v.major.repr :: v.minor.repr :: attach "+" v.pieces v.buildTexts

/- The first of the parts that are read otherwise is read as less. -/
inductive Before : List String → List String → Prop where
  | here {as bs : List String} (less : partRank (as.headD "") < partRank (bs.headD "")) : Before as bs
  | later {as bs : List String} (same : partRank (as.headD "") = partRank (bs.headD "")) (rest : Before as.tail bs.tail) : Before as bs

/- No part is read otherwise. -/
def Alike (as bs : List String) : Prop := ∀ i, partRank (as.getD i "") = partRank (bs.getD i "")

/- The greatest number of 64 bits. -/
def limit : Nat := 9223372036854775807

def lead (text : String) : Int := (splitNumSuffix text).1

/- When the lower of two pre-releases of the same release is read as the lower one, where
`k` identifiers of theirs are the same. -/
def PreBelow (a b : SemVer) (k : Nat) : List String → List String → Prop
  | x :: p,y :: q =>
    if x = y then PreBelow a b (k+1) p q
    else if k = 0 then x < y
    else
      match number x,number y with
      | some n,some _ => n < limit ∨ Before (a.parts.drop (k+2)) (b.parts.drop (k+2))
      | some _,none => lead x < lead y ∨ lead x = lead y ∧ p = [] ∧ a.build ≠ []
      | none,_ => partRank x < partRank y ∨ partRank x = partRank y ∧ Before (a.parts.drop (k+2)) (b.parts.drop (k+2))
  | [],_ :: _ =>
    if a.build = [] then Before [] (b.parts.drop (k+2)) else 2 ≤ k ∧ (a.preTexts.getLast?.bind number).isSome = true
  | _,[] => b.build = []

/- When the lower of two versions is read as the lower one. -/
def Below (a b : SemVer) : Prop :=
  if a.major ≠ b.major then a.major < limit ∨ Before (a.parts.drop 1) (b.parts.drop 1)
  else if a.minor ≠ b.minor then a.minor < limit ∨ Before (a.parts.drop 2) (b.parts.drop 2)
  else if a.patch ≠ b.patch then a.patch < limit ∨ Before (a.parts.drop 2) (b.parts.drop 2)
  else PreBelow a b 0 a.preTexts b.preTexts

section Parts

theorem attachCons (mark x : String) {xs : List String} (some : xs ≠ []) (more : List String) :
    attach mark (x :: xs) more = x :: attach mark xs more := by
  obtain ⟨y,rest,rfl⟩ := List.exists_cons_of_ne_nil some
  rw [attach]

theorem attachFilled {mark : String} {xs : List String} (some : xs ≠ []) (more : List String) : attach mark xs more ≠ [] := by
  fun_cases attach mark xs more with
  | case1 => exact absurd rfl some
  | case2 => simp
  | case3 => simp
  | case4 => simp

theorem attachAppend (mark : String) (front : List String) {xs : List String} (some : xs ≠ []) (more : List String) :
    attach mark (front ++ xs) more = front ++ attach mark xs more := by
  induction front with
  | nil => rfl
  | cons x front ih => rw [List.cons_append,attachCons _ _ (by simp [some]),ih,List.cons_append]

theorem attachNone {mark : String} {xs : List String} (some : xs ≠ []) : attach mark xs [] = xs := by
  induction xs with
  | nil => exact absurd rfl some
  | cons x xs ih =>
    cases xs with
    | nil => rfl
    | cons y xs => rw [attachCons _ _ (List.cons_ne_nil _ _),ih (List.cons_ne_nil _ _)]

theorem dottedCons (x : String) {xs : List String} (some : xs ≠ []) : dotted (x :: xs) = x ++ "." ++ dotted xs := by
  obtain ⟨y,rest,rfl⟩ := List.exists_cons_of_ne_nil some
  apply String.toList_inj.mp
  simp [dotted]

theorem dottedOne (x : String) : dotted [x] = x := by
  simp [dotted]

theorem attachDotted {mark : String} {xs : List String} (some : xs ≠ []) (more : List String) :
    dotted (attach mark xs more) = dotted xs ++ behind mark more := by
  induction xs with
  | nil => exact absurd rfl some
  | cons x xs ih =>
    cases xs with
    | nil =>
      cases more with
      | nil => simp [attach,behind]
      | cons y more =>
        rw [attach,dottedOne,behind,if_neg (List.cons_ne_nil _ _)]
        cases more with
        | nil => rw [dottedOne,dottedOne,String.append_assoc]
        | cons z more =>
          rw [dottedCons _ (List.cons_ne_nil _ _),dottedCons _ (List.cons_ne_nil _ _)]
          simp only [String.append_assoc]
    | cons y xs =>
      rw [attachCons _ _ (List.cons_ne_nil _ _),dottedCons _ (attachFilled (List.cons_ne_nil _ _) _),ih (List.cons_ne_nil _ _),
        dottedCons _ (List.cons_ne_nil _ _)]
      simp only [String.append_assoc]

theorem attachChars {P : Char → Prop} {mark : String} {xs more : List String} (marked : ∀ c ∈ mark.toList, P c)
    (left : ∀ x ∈ xs, ∀ c ∈ x.toList, P c) (right : ∀ x ∈ more, ∀ c ∈ x.toList, P c) : ∀ x ∈ attach mark xs more, ∀ c ∈ x.toList, P c := by
  fun_induction attach mark xs more with
  | case1 more => exact right
  | case2 x => exact left
  | case3 x y more =>
    intro z mem c here
    rcases List.mem_cons.mp mem with rfl | rest
    · rw [String.toList_append,String.toList_append,List.append_assoc] at here
      rcases List.mem_append.mp here with own | other
      · exact left x (by simp) c own
      · rcases List.mem_append.mp other with own | own
        · exact marked c own
        · exact right y (by simp) c own
    · exact right z (List.mem_cons_of_mem _ rest) c here
  | case4 x y rest more ih =>
    intro z mem c here
    rcases List.mem_cons.mp mem with rfl | behind
    · exact left z (by simp) c here
    · exact ih (fun w inside => left w (List.mem_cons_of_mem _ inside)) right z behind c here

theorem splitDotted {parts : List String} (free : ∀ x ∈ parts, '.' ∉ x.toList) (some : parts ≠ []) : split '.' (dotted parts) = parts := by
  have cut : (['.'].intercalate (parts.map String.toList)).splitOn '.' = parts.map String.toList := by
    apply List.splitOn_intercalate
    · intro part mem
      obtain ⟨x,inside,same⟩ := List.mem_map.mp mem
      exact same ▸ free x inside
    · simpa using some
  rw [split,dotted,String.toList_ofList,cut,List.map_map]
  simp [Function.comp_def]

/- What a part is written in. -/
def partChar (c : Char) : Prop := idChar c = true ∨ c = '+'

theorem digitId {c : Char} (digit : c.isDigit = true) : idChar c = true := by
  simp [idChar,digit]

theorem reprId (n : Nat) : ∀ c ∈ n.repr.toList, idChar c = true := fun c mem => digitId ((Decimals.reprDigits n).2 c mem)

variable (v : SemVer)

theorem preChars : ∀ x ∈ v.preTexts, ∀ c ∈ x.toList, idChar c = true := by
  intro x mem
  obtain ⟨i,_,rfl⟩ := List.mem_map.mp mem
  exact i.chars

theorem buildChars : ∀ x ∈ v.buildTexts, ∀ c ∈ x.toList, idChar c = true := by
  intro x mem
  obtain ⟨w,_,rfl⟩ := List.mem_map.mp mem
  exact w.chars

theorem piecesFilled : v.pieces ≠ [] := attachFilled (List.cons_ne_nil _ _) _

theorem piecesChars : ∀ x ∈ v.pieces, ∀ c ∈ x.toList, idChar c = true := by
  refine attachChars (List.all_eq_true.mp (by decide)) ?_ (preChars v)
  intro x mem
  rw [List.mem_singleton.mp mem]
  exact reprId v.patch

theorem partsChars : ∀ x ∈ v.parts, ∀ c ∈ x.toList, partChar c := by
  intro x mem c here
  rcases List.mem_cons.mp mem with rfl | rest
  · exact .inl (reprId _ c here)
  rcases List.mem_cons.mp rest with rfl | rest
  · exact .inl (reprId _ c here)
  refine attachChars (P := partChar) ?_ (fun x mem c here => .inl (piecesChars v x mem c here))
    (fun x mem c here => .inl (buildChars v x mem c here)) x rest c here
  intro c plus
  exact .inr (by simpa using plus)

theorem textDotted : v.text = dotted v.parts := by
  have front : dotted [v.major.repr,v.minor.repr,v.patch.repr] ++ behind "-" v.preTexts = dotted (v.major.repr :: v.minor.repr :: v.pieces) := by
    rw [SemVer.pieces,← attachCons _ _ (List.cons_ne_nil _ _),← attachCons _ _ (List.cons_ne_nil _ _),attachDotted (List.cons_ne_nil _ _)]
  rw [SemVer.text,front,SemVer.parts,← attachCons _ _ (piecesFilled v),← attachCons _ _ (List.cons_ne_nil _ _),
    attachDotted (List.cons_ne_nil _ _)]

theorem idNat {c : Char} (part : idChar c = true) : 45 ≤ c.toNat ∧ c.toNat ≤ 122 ∧ c.toNat ≠ 46 := by
  simp only [idChar,Char.isDigit,Bool.or_eq_true,Bool.and_eq_true,decide_eq_true_eq,ge_iff_le,Char.le_def,UInt32.le_iff_toNat_le] at part
  rcases part with (((digit | small) | big) | dash)
  · have low : 48 ≤ c.toNat ∧ c.toNat ≤ 57 := digit
    omega
  · have low : 97 ≤ c.toNat ∧ c.toNat ≤ 122 := small
    omega
  · have low : 65 ≤ c.toNat ∧ c.toNat ≤ 90 := big
    omega
  · rw [dash]
    decide

theorem charPlain {c : Char} (part : partChar c) : c ≠ '.' ∧ isSpace c = false := by
  have range : 43 ≤ c.toNat ∧ c.toNat ≤ 122 ∧ c.toNat ≠ 46 := by
    rcases part with word | plus
    · have nat := idNat word
      omega
    · rw [plus]
      decide
  refine ⟨?_,?_⟩
  · rintro rfl
    exact range.2.2 rfl
  · simp only [isSpace,Bool.or_eq_false_iff,Bool.and_eq_false_iff,decide_eq_false_iff_not,beq_eq_false_iff_ne]
    omega

theorem textParts : split '.' v.text = v.parts := by
  rw [textDotted]
  refine splitDotted ?_ (List.cons_ne_nil _ _)
  intro x mem dot
  exact (charPlain (partsChars v x mem '.' dot)).1 rfl

theorem textStart : ∃ c rest, v.text.toList = c :: rest ∧ c.isDigit = true := by
  obtain ⟨some,digit⟩ := Decimals.reprDigits v.major
  obtain ⟨c,cs,shape⟩ := List.exists_cons_of_ne_nil (String.toList_eq_nil_iff.not.mpr some)
  rw [textDotted,SemVer.parts,dottedCons _ (List.cons_ne_nil _ _),String.toList_append,String.toList_append,shape]
  exact ⟨c,_,rfl,digit c (by simp [shape])⟩

theorem textSolid : ∀ c ∈ v.text.toList, isSpace c = false := by
  intro c mem
  rw [textDotted,dotted,String.toList_ofList] at mem
  rcases Separated.intercalateMem mem with dot | ⟨part,inside,here⟩
  · rw [List.mem_singleton.mp dot]
    decide
  · obtain ⟨x,own,rfl⟩ := List.mem_map.mp inside
    exact (charPlain (partsChars v x own c here)).2

theorem normalizeWritten (lead : Bool) : normalizeVersion (v.written lead) = v.text := by
  obtain ⟨c,rest,shape,digit⟩ := textStart v
  cases lead with
  | true =>
    have chars : (v.written true).toList = 'v' :: v.text.toList := by simp [SemVer.written]
    have stays : trimSpace (v.written true) = v.written true := by
      apply trimSpaceSelf
      rw [chars]
      intro d mem
      rcases List.mem_cons.mp mem with rfl | own
      · decide
      · exact textSolid v d own
    rw [normalizeVersion,stays,chars]
    exact String.ofList_toList
  | false =>
    have same : v.written false = v.text := by simp [SemVer.written]
    rw [same,normalizeVersion,trimSpaceSelf (textSolid v),shape]
    split
    · rename_i first
      cases first
      cases digit
    · rename_i first
      cases first
      cases digit
    · rfl

theorem writtenParts (lead : Bool) : semverParts (v.written lead) = v.parts := by
  rw [semverParts,normalizeWritten,textParts]

theorem writtenSolid (lead : Bool) : ¬Marked (v.written lead) := by
  obtain ⟨c,rest,shape,digit⟩ := textStart v
  rw [Marked,normalizeWritten]
  rintro (none | mark)
  · rw [none] at shape
    cases shape
  · rw [mark] at shape
    obtain ⟨rfl,_⟩ := List.cons.inj shape
    cases digit

end Parts

section Order

theorem beforeSelf (as : List String) : ¬Before as as := by
  intro before
  generalize same : as = bs at before
  have both : Before as bs := same ▸ before
  clear before
  induction both with
  | here less =>
    rw [same] at less
    exact lt_irrefl _ less
  | later _ _ ih => exact ih (by rw [same])

theorem beforeIff {n : Nat} {as bs : List String} (left : as.length ≤ n) (right : bs.length ≤ n) :
    ranks n as < ranks n bs ↔ Before as bs := by
  induction n generalizing as bs with
  | zero =>
    rw [List.length_eq_zero_iff.mp (Nat.le_zero.mp left),List.length_eq_zero_iff.mp (Nat.le_zero.mp right)]
    exact iff_of_false (lt_irrefl _) (beforeSelf [])
  | succ n ih =>
    have rest := @ih as.tail bs.tail (by rw [List.length_tail]; omega) (by rw [List.length_tail]; omega)
    rw [ranks,ranks,List.cons_lt_cons_iff,rest]
    constructor
    · rintro (less | ⟨same,behind⟩)
      · exact .here less
      · exact .later same behind
    · intro before
      cases before with
      | here less => exact .inl less
      | later same behind => exact .inr ⟨same,behind⟩

theorem alikeIff {n : Nat} {as bs : List String} (left : as.length ≤ n) (right : bs.length ≤ n) :
    ranks n as = ranks n bs ↔ Alike as bs := by
  induction n generalizing as bs with
  | zero =>
    rw [List.length_eq_zero_iff.mp (Nat.le_zero.mp left),List.length_eq_zero_iff.mp (Nat.le_zero.mp right)]
    exact iff_of_true rfl (fun _ => rfl)
  | succ n ih =>
    have rest := @ih as.tail bs.tail (by rw [List.length_tail]; omega) (by rw [List.length_tail]; omega)
    have first (l : List String) : l.headD "" = l.getD 0 "" := by cases l <;> rfl
    have next (l : List String) (i : Nat) : l.tail.getD i "" = l.getD (i+1) "" := by cases l <;> simp
    rw [ranks,ranks,List.cons.injEq,rest,first,first]
    constructor
    · rintro ⟨here,behind⟩ i
      cases i with
      | zero => exact here
      | succ i => rw [← next,← next,behind i]
    · intro alike
      exact ⟨alike 0,fun i => by rw [next,next,alike (i+1)]⟩

theorem beforeCons {x y : String} {as bs : List String} :
    Before (x :: as) (y :: bs) ↔ partRank x < partRank y ∨ partRank x = partRank y ∧ Before as bs := by
  constructor
  · intro before
    cases before with
    | here less => exact .inl less
    | later same rest => exact .inr ⟨same,rest⟩
  · rintro (less | ⟨same,rest⟩)
    · exact .here less
    · exact .later same rest

theorem beforeAppend (front as bs : List String) : Before (front ++ as) (front ++ bs) ↔ Before as bs := by
  induction front with
  | nil => rfl
  | cons x front ih => rw [List.cons_append,List.cons_append,beforeCons,ih,or_iff_right (lt_irrefl _),and_iff_right rfl]

end Order

section Reading

def suffix (text : String) : String := (splitNumSuffix text).2

theorem partRead (text : String) : partRank text = toLex (lead text,suffixRank (suffix text)) := rfl

theorem leadText (text : String) : lead text = (Decimals.signed 1 (text.toList.takeWhile Char.isDigit)).1 := by
  unfold lead splitNumSuffix
  cases text.toList.takeWhile Char.isDigit with
  | nil => exact (show (Decimals.signed 1 []).1 = 0 by decide).symm
  | cons c cs => rfl

theorem suffixText (text : String) : (suffix text).toList = text.toList.dropWhile Char.isDigit := by
  unfold suffix splitNumSuffix
  cases front : text.toList.takeWhile Char.isDigit with
  | nil =>
    have whole := List.takeWhile_append_dropWhile (p := Char.isDigit) (l := text.toList)
    rw [front,List.nil_append] at whole
    exact whole.symm
  | cons c cs => exact String.toList_ofList

/- Behind a part may stand what begins with no digit. -/
def Stops (s : String) : Prop := ∀ c, s.toList.head? = some c → c.isDigit = false

theorem takeStops {t s : List Char} (stops : ∀ c, s.head? = some c → c.isDigit = false) :
    (t ++ s).takeWhile Char.isDigit = t.takeWhile Char.isDigit ∧ (t ++ s).dropWhile Char.isDigit = t.dropWhile Char.isDigit ++ s := by
  induction t with
  | nil =>
    cases s with
    | nil => exact ⟨rfl,rfl⟩
    | cons c s =>
      have other := stops c rfl
      simp [other]
  | cons c t ih =>
    cases digit : c.isDigit with
    | true => simpa [digit] using ih
    | false => simp [digit]

theorem leadAppend {s : String} (stops : Stops s) (t : String) : lead (t ++ s) = lead t := by
  rw [leadText,leadText,String.toList_append,(takeStops stops).1]

theorem suffixAppend {s : String} (stops : Stops s) (t : String) : suffix (t ++ s) = suffix t ++ s := by
  apply String.toList_inj.mp
  rw [suffixText,String.toList_append,String.toList_append,suffixText,(takeStops stops).2]

/- A number as the nearest of 64 bits. -/
def clamp (n : Nat) : Int := (Decimals.within n).1

theorem clampNat (n : Nat) : clamp n = if n < limit then (n : Int) else (limit : Int) := by
  unfold clamp Decimals.within limit
  have big : (2 : Int)^63 = 9223372036854775808 := by norm_num
  rw [big,if_neg (by omega)]
  split
  · rw [if_neg (by omega)]
    rfl
  · split
    · rfl
    · omega

theorem clampLess {n m : Nat} (less : n < m) : clamp n < clamp m ↔ n < limit := by
  rw [clampNat,clampNat]
  split
  · split <;> omega
  · rw [if_neg (by omega)]
    simp [*]

theorem clampSame {n m : Nat} (less : n < m) (far : ¬n < limit) : clamp n = clamp m := by
  rw [clampNat,clampNat,if_neg far,if_neg (by omega)]

theorem numberDigits {text : String} {n : Nat} (held : number text = some n) :
    (∀ c ∈ text.toList, c.isDigit = true) ∧ n = Nat.ofDigitChars 10 text.toList 0 := by
  unfold number Decimals.digits at held
  split at held
  · rename_i all
    exact ⟨List.all_eq_true.mp all.2,(Option.some.inj held).symm⟩
  · cases held

theorem numberLead {text : String} {n : Nat} (held : number text = some n) : lead text = clamp n ∧ suffix text = "" := by
  obtain ⟨all,_⟩ := numberDigits held
  have take : text.toList.takeWhile Char.isDigit = text.toList := List.takeWhile_eq_self_iff.mpr all
  have drop : text.toList.dropWhile Char.isDigit = [] := List.dropWhile_eq_nil_iff.mpr all
  refine ⟨?_,String.toList_eq_nil_iff.mp (by rw [suffixText,drop])⟩
  rw [leadText,take,Decimals.signed,show Decimals.digits text.toList = some n from held,clamp]
  dsimp only
  rw [one_mul]

theorem numberNone {text : String} (filled : text ≠ "") (none : number text = none) : suffix text ≠ "" := by
  intro empty
  have drop : text.toList.dropWhile Char.isDigit = [] := by rw [← suffixText,empty]; rfl
  unfold number Decimals.digits at none
  rw [if_pos ⟨String.toList_eq_nil_iff.not.mpr filled,List.all_eq_true.mpr (List.dropWhile_eq_nil_iff.mp drop)⟩] at none
  cases none

theorem numberRepr (n : Nat) : number n.repr = some n := Decimals.digitsRepr n

/- The build behind the last identifier. -/
def closing (p more : List String) : String := if p = [] then (more.head?.map ("+" ++ ·)).getD "" else ""

theorem attachHead (x : String) (p more : List String) : ∃ rest, attach "+" (x :: p) more = (x ++ closing p more) :: rest := by
  cases p with
  | nil =>
    cases more with
    | nil => exact ⟨[],by simp [attach,closing]⟩
    | cons y more => exact ⟨more,by simp [attach,closing,String.append_assoc]⟩
  | cons y p => exact ⟨attach "+" (y :: p) more,by simp [attach,closing]⟩

theorem closingForm (p more : List String) :
    ((p ≠ [] ∨ more = []) ∧ closing p more = "") ∨ p = [] ∧ more ≠ [] ∧ ∃ cs, (closing p more).toList = '+' :: cs := by
  unfold closing
  by_cases empty : p = []
  · cases more with
    | nil => exact .inl ⟨.inr rfl,by simp⟩
    | cons y more => exact .inr ⟨empty,by simp,by simp [empty]⟩
  · exact .inl ⟨.inl empty,if_neg empty⟩

theorem closingStops (p more : List String) : Stops (closing p more) := by
  intro c head
  rcases closingForm p more with ⟨_,none⟩ | ⟨_,_,cs,shape⟩
  · rw [none] at head
    cases head
  · rw [shape] at head
    cases head
    decide

theorem plusLess {c : Char} (word : idChar c = true) : '+' < c := by
  have low : (45 : Nat) ≤ c.toNat := (idNat word).1
  rw [Char.lt_def,UInt32.lt_iff_toNat_lt]
  exact Nat.lt_of_lt_of_le (by decide) low

/- What closes a text comes before what goes on. -/
theorem closeLess {p more p' more' : List String} {x y : String} (word : ∀ c ∈ y.toList, idChar c = true) (less : x < y) :
    x ++ closing p more < y ++ closing p' more' := by
  have chars : ∀ xs ys s t : List Char, (∀ c ∈ ys, idChar c = true) → (s = [] ∨ ∃ cs, s = '+' :: cs) → xs < ys → xs ++ s < ys ++ t := by
    intro xs
    induction xs with
    | nil =>
      intro ys s t word close less
      cases ys with
      | nil => exact absurd less (lt_irrefl _)
      | cons c ys =>
        rcases close with rfl | ⟨cs,rfl⟩
        · exact List.nil_lt_cons c _
        · exact List.cons_lt_cons_iff.mpr (.inl (plusLess (word c List.mem_cons_self)))
    | cons a xs ih =>
      intro ys s t word close less
      cases ys with
      | nil => exact absurd less (List.not_lt_nil _)
      | cons c ys =>
        rcases List.cons_lt_cons_iff.mp less with here | ⟨same,rest⟩
        · exact List.cons_lt_cons_iff.mpr (.inl here)
        · exact List.cons_lt_cons_iff.mpr (.inr ⟨same,ih ys s t (fun d mem => word d (List.mem_cons_of_mem _ mem)) close rest⟩)
  rw [String.lt_iff_toList_lt,String.toList_append,String.toList_append]
  refine chars _ _ _ _ word ?_ (String.lt_iff_toList_lt.mp less)
  rcases closingForm p more with ⟨_,none⟩ | ⟨_,_,cs,shape⟩
  · exact .inl (by rw [none]; rfl)
  · exact .inr ⟨cs,shape⟩

end Reading

section Heads
variable {x y : String} {p more p' more' : List String}

theorem rankFilled {t : String} (filled : suffix t ≠ "") : partRank t = toLex (lead t,(suffix t : WithTop String)) := by
  rw [partRead,suffixRank,if_neg filled]

theorem suffixChars {t : String} (word : ∀ c ∈ t.toList, idChar c = true) : ∀ c ∈ (suffix t).toList, idChar c = true := by
  intro c mem
  rw [suffixText] at mem
  exact word c (List.dropWhile_subset _ mem)

/- What stands behind a text that is no number makes it more. -/
theorem rankGrows {t s : String} (filled : suffix t ≠ "") (stops : Stops s) (some : s ≠ "") : partRank t < partRank (t ++ s) := by
  have grown : suffix (t ++ s) ≠ "" := by
    rw [suffixAppend stops]
    simp [filled]
  rw [rankFilled filled,rankFilled grown,leadAppend stops,suffixAppend stops]
  refine Prod.Lex.toLex_lt_toLex.mpr (.inr ⟨rfl,WithTop.coe_lt_coe.mpr ?_⟩)
  rw [String.lt_iff_toList_lt,String.toList_append]
  obtain ⟨c,cs,shape⟩ := List.exists_cons_of_ne_nil (String.toList_eq_nil_iff.not.mpr some)
  have longer : ∀ xs : List Char, xs < xs ++ c :: cs := by
    intro xs
    induction xs with
    | nil => exact List.nil_lt_cons c cs
    | cons a xs ih => exact List.cons_lt_cons_iff.mpr (.inr ⟨rfl,ih⟩)
  rw [shape]
  exact longer _

theorem rankNumber {n : Nat} (held : number x = some n) (p more : List String) :
    partRank (x ++ closing p more) = toLex (clamp n,suffixRank (closing p more)) := by
  obtain ⟨front,none⟩ := numberLead held
  rw [partRead,leadAppend (closingStops p more),suffixAppend (closingStops p more),front,none,String.empty_append]

theorem numbersBefore {n m : Nat} (left : number x = some n) (right : number y = some m) (less : n < m) (small : n < limit) :
    partRank (x ++ closing p more) < partRank (y ++ closing p' more') := by
  rw [rankNumber left,rankNumber right]
  exact Prod.Lex.toLex_lt_toLex.mpr (.inl ((clampLess less).mpr small))

theorem rankLetters {t : String} (filled : t ≠ "") (none : number t = none) (p more : List String) :
    partRank (t ++ closing p more) = toLex (lead t,((suffix t ++ closing p more : String) : WithTop String)) := by
  have grown : suffix (t ++ closing p more) ≠ "" := by
    rw [suffixAppend (closingStops p more)]
    simp [numberNone filled none]
  rw [rankFilled grown,leadAppend (closingStops p more),suffixAppend (closingStops p more)]

/- A number is read below another identifier when it is less than the number in front of
that, or when the two are the same and the build stands behind it. -/
theorem mixedBefore {n : Nat} {r r' : List String} (left : number x = some n) (filled : y ≠ "") (right : number y = none)
    (word : ∀ c ∈ y.toList, idChar c = true) :
    Before ((x ++ closing p more) :: r) ((y ++ closing p' more') :: r') ↔ lead x < lead y ∨ lead x = lead y ∧ p = [] ∧ more ≠ [] := by
  rw [beforeCons,rankNumber left,rankLetters filled right,(numberLead left).1,Prod.Lex.toLex_lt_toLex]
  have some := numberNone filled right
  rcases closingForm p more with ⟨open',none⟩ | ⟨last,some',cs,shape⟩
  · rw [none,suffixRank,if_pos rfl]
    have apart : ¬toLex (clamp n,(⊤ : WithTop String)) = toLex (lead y,((suffix y ++ closing p' more' : String) : WithTop String)) := by
      intro same
      have second := (Prod.mk.inj (toLex_inj.mp same)).2
      exact WithTop.coe_ne_top second.symm
    have topmost (s : WithTop String) : ¬(⊤ : WithTop String) < s := not_top_lt
    constructor
    · rintro ((less | ⟨_,top⟩) | ⟨same,_⟩)
      · exact .inl less
      · exact absurd top (topmost _)
      · exact absurd same apart
    · rintro (less | ⟨_,empty,build⟩)
      · exact .inl (.inl less)
      · exact (open'.elim (fun other => other empty) build).elim
  · have closed : closing p more ≠ "" := by
      intro none
      rw [none] at shape
      cases shape
    have under : suffixRank (closing p more) < ((suffix y ++ closing p' more' : String) : WithTop String) := by
      rw [suffixRank,if_neg closed,WithTop.coe_lt_coe,String.lt_iff_toList_lt,shape,String.toList_append]
      obtain ⟨c,rest,chars⟩ := List.exists_cons_of_ne_nil (String.toList_eq_nil_iff.not.mpr some)
      rw [chars]
      refine List.cons_lt_cons_iff.mpr (.inl (plusLess (suffixChars word c ?_)))
      rw [chars]
      exact List.mem_cons_self
    constructor
    · rintro (less | ⟨same,_⟩)
      · rcases less with less | ⟨same,_⟩
        · exact .inl less
        · exact .inr ⟨same,last,some'⟩
      · exact absurd (Prod.mk.inj (toLex_inj.mp same)).2 (ne_of_lt under)
    · rintro (less | ⟨same,_⟩)
      · exact .inl (.inl less)
      · exact .inl (.inr ⟨same,under⟩)

theorem lettersLess (filled : x ≠ "") (left : number x = none) (filled' : y ≠ "") (right : number y = none)
    (word : ∀ c ∈ y.toList, idChar c = true) (less : partRank x < partRank y) :
    partRank (x ++ closing p more) < partRank (y ++ closing p' more') := by
  rw [rankFilled (numberNone filled left),rankFilled (numberNone filled' right),Prod.Lex.toLex_lt_toLex] at less
  rw [rankLetters filled left,rankLetters filled' right,Prod.Lex.toLex_lt_toLex]
  rcases less with front | ⟨same,rest⟩
  · exact .inl front
  · exact .inr ⟨same,WithTop.coe_lt_coe.mpr (closeLess (suffixChars word) (WithTop.coe_lt_coe.mp rest))⟩

theorem lettersBefore {r r' : List String} (filled : x ≠ "") (left : number x = none) (filled' : y ≠ "") (right : number y = none)
    (word : ∀ c ∈ x.toList, idChar c = true) (word' : ∀ c ∈ y.toList, idChar c = true) :
    Before ((x ++ closing p more) :: r) ((y ++ closing p' more') :: r') ↔ partRank x < partRank y ∨
      partRank x = partRank y ∧ Before ((x ++ closing p more) :: r) ((y ++ closing p' more') :: r') := by
  rcases lt_trichotomy (partRank x) (partRank y) with less | same | more''
  · exact iff_of_true (.here (lettersLess filled left filled' right word' less)) (.inl less)
  · rw [and_iff_right same,or_iff_right (by rw [same]; exact lt_irrefl _)]
  · refine iff_of_false ?_ ?_
    · rw [beforeCons]
      have higher : partRank (y ++ closing p' more') < partRank (x ++ closing p more) := lettersLess filled' right filled left word more''
      rintro (less | ⟨same,_⟩)
      · exact lt_asymm higher less
      · exact ne_of_gt higher same
    · rintro (less | ⟨same,_⟩)
      · exact lt_asymm more'' less
      · exact ne_of_gt more'' same

theorem dashStops (t : String) : Stops ("-" ++ t) := by
  intro c head
  rw [String.toList_append] at head
  cases head
  decide

theorem rankDash (n : Nat) (t : String) : partRank (n.repr ++ ("-" ++ t)) = toLex (clamp n,(("-" ++ t : String) : WithTop String)) := by
  obtain ⟨front,none⟩ := numberLead (numberRepr n)
  rw [partRead,leadAppend (dashStops t),suffixAppend (dashStops t),front,none,String.empty_append,suffixRank,if_neg (by simp)]

/- The first identifiers are compared as texts. -/
theorem firstBefore {n : Nat} {r r' : List String} (word : ∀ c ∈ x.toList, idChar c = true) (word' : ∀ c ∈ y.toList, idChar c = true)
    (other : x ≠ y) : Before ((n.repr ++ "-" ++ x ++ closing p more) :: r) ((n.repr ++ "-" ++ y ++ closing p' more') :: r') ↔ x < y := by
  have reads (t s : String) : n.repr ++ "-" ++ t ++ s = n.repr ++ ("-" ++ (t ++ s)) := by simp only [String.append_assoc]
  have dash {s t : String} (less : s < t) : "-" ++ s < "-" ++ t := by
    rw [String.lt_iff_toList_lt,String.toList_append,String.toList_append]
    exact List.cons_lt_cons_iff.mpr (.inr ⟨rfl,String.lt_iff_toList_lt.mp less⟩)
  rw [beforeCons,reads,reads,rankDash,rankDash,Prod.Lex.toLex_lt_toLex]
  rcases lt_or_gt_of_ne other with less | later
  · exact iff_of_true (.inl (.inr ⟨rfl,WithTop.coe_lt_coe.mpr (dash (closeLess word' less))⟩)) less
  · have under : ((("-" ++ (y ++ closing p' more') : String)) : WithTop String) < ("-" ++ (x ++ closing p more) : String) :=
      WithTop.coe_lt_coe.mpr (dash (closeLess word later))
    refine iff_of_false ?_ (lt_asymm later)
    rintro ((front | ⟨_,less⟩) | ⟨same,_⟩)
    · exact lt_irrefl _ front
    · exact lt_asymm under less
    · exact ne_of_gt under (Prod.mk.inj (toLex_inj.mp same)).2

end Heads

section Precedence

/- No number in it has a zero in front. -/
def Settled (texts : List String) : Prop := ∀ x ∈ texts, ∀ n ∈ number x, x = n.repr

theorem preSettled (v : SemVer) : Settled v.preTexts := by
  intro x mem
  obtain ⟨i,_,rfl⟩ := List.mem_map.mp mem
  exact i.plain

theorem preFilled (v : SemVer) : ∀ x ∈ v.preTexts, x ≠ "" := by
  intro x mem
  obtain ⟨i,_,rfl⟩ := List.mem_map.mp mem
  exact i.filled

theorem keyInj {x y : String} (left : ∀ n ∈ number x, x = n.repr) (right : ∀ n ∈ number y, y = n.repr) (same : key x = key y) : x = y := by
  unfold key at same
  cases first : number x with
  | some n =>
    cases second : number y with
    | some m =>
      rw [first,second] at same
      rw [left n first,right m second,Sum.inl.inj (toLex_inj.mp same)]
    | none =>
      rw [first,second] at same
      cases toLex_inj.mp same
  | none =>
    cases second : number y with
    | some m =>
      rw [first,second] at same
      cases toLex_inj.mp same
    | none =>
      rw [first,second] at same
      exact Sum.inr.inj (toLex_inj.mp same)

/- Of two lists of identifiers the lower one has the lower identifier where they part, or ends there. -/
theorem keysLess {p q : List String} (left : Settled p) (right : Settled q) (less : p.map key < q.map key) :
    ∃ c, (∃ x p' y q', p = c ++ x :: p' ∧ q = c ++ y :: q' ∧ key x < key y) ∨ ∃ y q', p = c ∧ q = c ++ y :: q' := by
  induction p generalizing q with
  | nil =>
    cases q with
    | nil => exact absurd less (lt_irrefl _)
    | cons y q => exact ⟨[],.inr ⟨y,q,rfl,rfl⟩⟩
  | cons x p ih =>
    cases q with
    | nil => exact absurd less (List.not_lt_nil _)
    | cons y q =>
      rcases List.cons_lt_cons_iff.mp less with here | ⟨same,rest⟩
      · exact ⟨[],.inl ⟨x,p,y,q,rfl,rfl,here⟩⟩
      · have equal := keyInj (left x List.mem_cons_self) (right y List.mem_cons_self) same
        obtain ⟨c,parted | ⟨z,q',rfl,rfl⟩⟩ := ih (fun z mem => left z (List.mem_cons_of_mem _ mem))
          (fun z mem => right z (List.mem_cons_of_mem _ mem)) rest
        · obtain ⟨x',p',y',q',rfl,rfl,under⟩ := parted
          exact ⟨x :: c,.inl ⟨x',p',y',q',rfl,by rw [equal]; rfl,under⟩⟩
        · exact ⟨x :: p,.inr ⟨z,q',rfl,by rw [equal]; rfl⟩⟩

theorem keyLess {x y : String} (less : key x < key y) :
    (∃ n m, number x = some n ∧ number y = some m ∧ n < m) ∨ (∃ n, number x = some n ∧ number y = none) ∨
      number x = none ∧ number y = none ∧ x < y := by
  unfold key at less
  cases left : number x with
  | some n =>
    cases right : number y with
    | some m =>
      rw [left,right] at less
      exact .inl ⟨n,m,rfl,rfl,Sum.Lex.inl_lt_inl_iff.mp less⟩
    | none => exact .inr (.inl ⟨n,rfl,rfl⟩)
  | none =>
    cases right : number y with
    | some m =>
      rw [left,right] at less
      exact absurd less Sum.Lex.not_inr_lt_inl
    | none =>
      rw [left,right] at less
      exact .inr (.inr ⟨rfl,rfl,Sum.Lex.inr_lt_inr_iff.mp less⟩)

variable {a b : SemVer}

theorem preBelowAppend (c p q : List String) (k : Nat) : PreBelow a b k (c ++ p) (c ++ q) ↔ PreBelow a b (k+c.length) p q := by
  induction c generalizing k with
  | nil => rfl
  | cons x c ih =>
    rw [List.cons_append,List.cons_append,PreBelow,if_pos rfl,ih,List.length_cons]
    rw [show k+1+c.length = k+(c.length+1) by omega]

/- The pieces of a version whose first identifier is known. -/
theorem piecesHead {v : SemVer} {x : String} {p : List String} (pre : v.preTexts = x :: p) : v.pieces = (v.patch.repr ++ "-" ++ x) :: p := by
  rw [SemVer.pieces,pre,attach]

theorem partsBefore (major : a.major = b.major) (minor : a.minor = b.minor) :
    Before a.parts b.parts ↔ Before (attach "+" a.pieces a.buildTexts) (attach "+" b.pieces b.buildTexts) := by
  rw [SemVer.parts,SemVer.parts,major,minor]
  exact beforeAppend [b.major.repr,b.minor.repr] _ _

theorem buildEmpty {v : SemVer} : v.buildTexts = [] ↔ v.build = [] := List.map_eq_nil_iff

theorem releaseBefore {x : String} {p : List String} (patch : a.patch = b.patch) (pre : a.preTexts = x :: p) (none : b.preTexts = []) :
    Before (attach "+" a.pieces a.buildTexts) (attach "+" b.pieces b.buildTexts) ↔ b.build = [] := by
  have bare : b.pieces = [b.patch.repr] := by rw [SemVer.pieces,none]; rfl
  obtain ⟨r,left⟩ := attachHead (a.patch.repr ++ "-" ++ x) p a.buildTexts
  obtain ⟨r',right⟩ := attachHead b.patch.repr [] b.buildTexts
  have read : a.patch.repr ++ "-" ++ x ++ closing p a.buildTexts = a.patch.repr ++ ("-" ++ (x ++ closing p a.buildTexts)) := by
    simp only [String.append_assoc]
  rw [piecesHead pre,bare,left,right,beforeCons,read,rankDash,rankNumber (numberRepr b.patch),patch,Prod.Lex.toLex_lt_toLex,
    ← buildEmpty]
  rcases closingForm [] b.buildTexts with ⟨open',shape⟩ | ⟨_,some,cs,shape⟩
  · rw [shape,suffixRank,if_pos rfl]
    exact iff_of_true (.inl (.inr ⟨rfl,WithTop.coe_lt_top _⟩)) (open'.resolve_left (fun other => other rfl))
  · have closed : closing [] b.buildTexts ≠ "" := by
      intro empty
      rw [empty] at shape
      cases shape
    have under : suffixRank (closing [] b.buildTexts) < (("-" ++ (x ++ closing p a.buildTexts) : String) : WithTop String) := by
      rw [suffixRank,if_neg closed,WithTop.coe_lt_coe,String.lt_iff_toList_lt,shape,String.toList_append]
      exact List.cons_lt_cons_iff.mpr (.inl (by decide))
    refine iff_of_false ?_ some
    rintro ((front | ⟨_,less⟩) | ⟨same,_⟩)
    · exact lt_irrefl _ front
    · exact lt_asymm under less
    · exact ne_of_gt under (Prod.mk.inj (toLex_inj.mp same)).2

/- The identifiers part behind others. -/
theorem laterBefore {c p q : List String} {x y : String} (patch : a.patch = b.patch)
    (some : c ≠ []) (pre : a.preTexts = c ++ x :: p) (pre' : b.preTexts = c ++ y :: q) (less : key x < key y) :
    Before (attach "+" a.pieces a.buildTexts) (attach "+" b.pieces b.buildTexts) ↔ PreBelow a b c.length (x :: p) (y :: q) := by
  obtain ⟨x₀,c,rfl⟩ := List.exists_cons_of_ne_nil some
  rw [List.cons_append] at pre pre'
  have left : attach "+" a.pieces a.buildTexts = (b.patch.repr ++ "-" ++ x₀) :: c ++ attach "+" (x :: p) a.buildTexts := by
    rw [piecesHead pre,patch,← List.cons_append,attachAppend _ _ (List.cons_ne_nil _ _)]
  have right : attach "+" b.pieces b.buildTexts = (b.patch.repr ++ "-" ++ x₀) :: c ++ attach "+" (y :: q) b.buildTexts := by
    rw [piecesHead pre',← List.cons_append,attachAppend _ _ (List.cons_ne_nil _ _)]
  have dropLeft : a.parts.drop ((x₀ :: c).length+2) = attach "+" (x :: p) a.buildTexts := by
    rw [SemVer.parts,left]
    simp
  have dropRight : b.parts.drop ((x₀ :: c).length+2) = attach "+" (y :: q) b.buildTexts := by
    rw [SemVer.parts,right]
    simp
  have filled := preFilled a x (by rw [pre]; simp)
  have filled' := preFilled b y (by rw [pre']; simp)
  have word := preChars a x (by rw [pre]; simp)
  have word' := preChars b y (by rw [pre']; simp)
  have other : x ≠ y := by
    rintro rfl
    exact lt_irrefl _ less
  rw [left,right,beforeAppend,PreBelow,if_neg other,if_neg (by simp),dropLeft,dropRight]
  obtain ⟨r,head⟩ := attachHead x p a.buildTexts
  obtain ⟨r',head'⟩ := attachHead y q b.buildTexts
  rcases keyLess less with ⟨n,m,first,second,under⟩ | ⟨n,first,second⟩ | ⟨first,second,_⟩
  · rw [first,second]
    dsimp only
    by_cases small : n < limit
    · refine iff_of_true ?_ (.inl small)
      rw [head,head']
      exact .here (numbersBefore first second under small)
    · rw [or_iff_right small]
  · rw [first,second,head,head']
    dsimp only
    rw [mixedBefore first filled' second word',ne_eq,buildEmpty]
  · rw [first,head,head']
    exact lettersBefore filled first filled' second word word'

/- One list of identifiers ends where the other goes on. -/
theorem shorterBefore {q : List String} {y : String} (patch : a.patch = b.patch)
    (some : a.preTexts ≠ []) (pre : b.preTexts = a.preTexts ++ y :: q) :
    Before (attach "+" a.pieces a.buildTexts) (attach "+" b.pieces b.buildTexts) ↔ PreBelow a b a.preTexts.length [] (y :: q) := by
  obtain ⟨x,c,own⟩ := List.exists_cons_of_ne_nil some
  rw [own,List.cons_append] at pre
  have left : a.pieces = (b.patch.repr ++ "-" ++ x) :: c := by rw [piecesHead own,patch]
  have right : attach "+" b.pieces b.buildTexts = (b.patch.repr ++ "-" ++ x) :: c ++ attach "+" (y :: q) b.buildTexts := by
    rw [piecesHead pre,← List.cons_append,attachAppend _ _ (List.cons_ne_nil _ _)]
  have dropped : b.parts.drop (a.preTexts.length+2) = attach "+" (y :: q) b.buildTexts := by
    rw [SemVer.parts,right,own]
    simp
  rw [PreBelow,dropped,left,right]
  by_cases bare : a.build = []
  · rw [if_pos bare,buildEmpty.mpr bare,attachNone (List.cons_ne_nil _ _)]
    have same := beforeAppend ((b.patch.repr ++ "-" ++ x) :: c) [] (attach "+" (y :: q) b.buildTexts)
    rwa [List.append_nil] at same
  rw [if_neg bare]
  rcases closingForm [] a.buildTexts with ⟨open',_⟩ | ⟨_,_,cs,shape⟩
  · exact absurd (buildEmpty.mp (open'.resolve_left (fun other => other rfl))) bare
  have closed : closing [] a.buildTexts ≠ "" := by
    intro empty
    rw [empty] at shape
    cases shape
  rcases List.eq_nil_or_concat' c with rfl | ⟨front,z,rfl⟩
  · -- The only identifier is behind the mark, and with the build it is more.
    obtain ⟨r,head⟩ := attachHead (b.patch.repr ++ "-" ++ x) [] a.buildTexts
    have dash : suffix (b.patch.repr ++ "-" ++ x) ≠ "" := by
      rw [String.append_assoc,suffixAppend (dashStops x)]
      simp
    have more := rankGrows dash (closingStops [] a.buildTexts) closed
    rw [head,List.singleton_append,beforeCons,own]
    refine iff_of_false ?_ (fun two => absurd two.1 (by simp))
    rintro (less | ⟨same,_⟩)
    · exact lt_asymm more less
    · exact ne_of_gt more same
  · obtain ⟨r,head⟩ := attachHead z [] a.buildTexts
    have last : a.preTexts.getLast? = Option.some z := by
      rw [own,← List.cons_append]
      exact List.getLast?_concat
    have inside : z ∈ a.preTexts := List.mem_of_getLast? last
    rw [← List.cons_append,attachAppend _ _ (List.cons_ne_nil _ _),head,List.append_assoc,beforeAppend,List.singleton_append,beforeCons,
      last,Option.bind_some]
    have two : 2 ≤ a.preTexts.length := by
      rw [own]
      simp
    cases held : number z with
    | some n =>
      refine iff_of_true (.inl ?_) ⟨two,rfl⟩
      rw [rankNumber held,partRead,(numberLead held).1,(numberLead held).2,suffixRank,suffixRank,if_neg closed,if_pos rfl]
      exact Prod.Lex.toLex_lt_toLex.mpr (.inr ⟨rfl,WithTop.coe_lt_top _⟩)
    | none =>
      have more := rankGrows (numberNone (preFilled a z inside) held) (closingStops [] a.buildTexts) closed
      refine iff_of_false ?_ (fun two => by cases two.2)
      rintro (less | ⟨same,_⟩)
      · exact lt_asymm more less
      · exact ne_of_gt more same

theorem preBelowIff (major : a.major = b.major) (minor : a.minor = b.minor) (patch : a.patch = b.patch)
    (less : preRank a.preTexts < preRank b.preTexts) : Before a.parts b.parts ↔ PreBelow a b 0 a.preTexts b.preTexts := by
  rw [partsBefore major minor]
  cases own : a.preTexts with
  | nil =>
    rw [own,preRank,if_pos rfl] at less
    exact absurd less not_top_lt
  | cons x p =>
    cases other : b.preTexts with
    | nil => exact releaseBefore patch own other
    | cons y q =>
      rw [preRank,preRank,if_neg (by simp [own]),if_neg (by simp [other]),WithTop.coe_lt_coe] at less
      obtain ⟨c,parted | ⟨z,q',left,right⟩⟩ := keysLess (preSettled a) (preSettled b) less
      · obtain ⟨x',p',y',q',left,right,under⟩ := parted
        by_cases first : c = []
        · rw [first,List.nil_append] at left right
          have apart : x' ≠ y' := by
            rintro rfl
            exact lt_irrefl _ under
          obtain ⟨r,head⟩ := attachHead (a.patch.repr ++ "-" ++ x') p' a.buildTexts
          obtain ⟨r',head'⟩ := attachHead (b.patch.repr ++ "-" ++ y') q' b.buildTexts
          rw [← own,← other,piecesHead left,piecesHead right,head,head',left,right,PreBelow,if_neg apart,if_pos rfl,patch]
          exact firstBefore (preChars a x' (by rw [left]; simp)) (preChars b y' (by rw [right]; simp)) apart
        · rw [← own,← other,laterBefore patch first left right under,left,right,preBelowAppend,Nat.zero_add]
      · have some : a.preTexts ≠ [] := by simp [own]
        rw [← left] at right
        rw [← own,← other,shorterBefore patch some right,right]
        have whole := preBelowAppend (a := a) (b := b) a.preTexts [] (z :: q') 0
        rw [List.append_nil,Nat.zero_add] at whole
        exact whole.symm

theorem coreBefore {n m : Nat} {as bs : List String} (less : n < m) : Before (n.repr :: as) (m.repr :: bs) ↔ n < limit ∨ Before as bs := by
  have read (n : Nat) : partRank n.repr = toLex (clamp n,(⊤ : WithTop String)) := by
    obtain ⟨front,none⟩ := numberLead (numberRepr n)
    rw [partRead,front,none,suffixRank,if_pos rfl]
  rw [beforeCons,read,read]
  by_cases small : n < limit
  · exact iff_of_true (.inl (Prod.Lex.toLex_lt_toLex.mpr (.inl ((clampLess less).mpr small)))) (.inl small)
  · rw [clampSame less small,or_iff_right (lt_irrefl _),and_iff_right rfl,or_iff_right small]

/- The part with the patch number has it in front. -/
theorem patchLead (v : SemVer) : ∃ x rest, attach "+" v.pieces v.buildTexts = x :: rest ∧ lead x = clamp v.patch := by
  have front : ∃ t p, v.pieces = (v.patch.repr ++ t) :: p ∧ Stops t := by
    cases pre : v.preTexts with
    | nil =>
      refine ⟨"",[],?_,fun c head => by cases head⟩
      rw [SemVer.pieces,pre,String.append_empty]
      rfl
    | cons x p => exact ⟨"-" ++ x,p,by rw [piecesHead pre,String.append_assoc],dashStops x⟩
  obtain ⟨t,p,pieces,stops⟩ := front
  obtain ⟨rest,head⟩ := attachHead (v.patch.repr ++ t) p v.buildTexts
  refine ⟨_,rest,by rw [pieces,head],?_⟩
  rw [leadAppend (closingStops p v.buildTexts),leadAppend stops,(numberLead (numberRepr v.patch)).1]

/- The lower version is read as the lower one exactly then. -/
theorem belowIff (less : a.precedence < b.precedence) : Before a.parts b.parts ↔ Below a b := by
  unfold SemVer.precedence at less
  simp only [Prod.Lex.toLex_lt_toLex] at less
  unfold Below
  rcases less with major | ⟨major,minor | ⟨minor,patch | ⟨patch,pre⟩⟩⟩
  · rw [if_pos (ne_of_lt major),SemVer.parts,SemVer.parts,coreBefore major]
    rfl
  · rw [if_neg (not_not.mpr major),if_pos (ne_of_lt minor)]
    have rest := @coreBefore _ _ (attach "+" a.pieces a.buildTexts) (attach "+" b.pieces b.buildTexts) minor
    have front := beforeAppend [b.major.repr] (a.minor.repr :: attach "+" a.pieces a.buildTexts)
      (b.minor.repr :: attach "+" b.pieces b.buildTexts)
    rw [SemVer.parts,SemVer.parts,major]
    exact front.trans rest
  · rw [if_neg (not_not.mpr major),if_neg (not_not.mpr minor),if_pos (ne_of_lt patch),partsBefore major minor]
    change _ ↔ a.patch < limit ∨ Before (attach "+" a.pieces a.buildTexts) (attach "+" b.pieces b.buildTexts)
    by_cases small : a.patch < limit
    · obtain ⟨x,r,head,front⟩ := patchLead a
      obtain ⟨y,r',head',front'⟩ := patchLead b
      refine iff_of_true ?_ (.inl small)
      rw [head,head']
      refine .here ?_
      show partRank x < partRank y
      rw [partRead,partRead,front,front']
      exact Prod.Lex.toLex_lt_toLex.mpr (.inl ((clampLess patch).mpr small))
    · rw [or_iff_right small]
  · rw [if_neg (not_not.mpr major),if_neg (not_not.mpr minor),if_neg (not_not.mpr patch)]
    exact preBelowIff major minor patch pre

end Precedence

/- The versions come in the order that compareSemver reads. -/
structure InOrder (a b : SemVer) : Prop where
  below : a.precedence < b.precedence → Below a b
  above : b.precedence < a.precedence → Below b a
  same : a.precedence = b.precedence → Alike a.parts b.parts

theorem compareWritten (a b : SemVer) (lead lead' : Bool) :
    compareSemver (a.written lead) (b.written lead') = sign a.precedence b.precedence ↔ InOrder a b := by
  have room : (semverParts (a.written lead)).length ≤ a.parts.length+b.parts.length := by rw [writtenParts]; omega
  have room' : (semverParts (b.written lead')).length ≤ a.parts.length+b.parts.length := by rw [writtenParts]; omega
  rw [compareSemverSign (writtenSolid a lead) (writtenSolid b lead') room room',writtenParts,writtenParts]
  have left : a.parts.length ≤ a.parts.length+b.parts.length := by omega
  have right : b.parts.length ≤ a.parts.length+b.parts.length := by omega
  generalize a.parts.length+b.parts.length = n at left right
  rcases lt_trichotomy a.precedence b.precedence with less | same | more
  · rw [signLess less,signBelow,beforeIff left right,belowIff less]
    exact ⟨fun held => ⟨fun _ => held,fun other => absurd other (lt_asymm less),fun other => absurd other (ne_of_lt less)⟩,
      fun order => order.below less⟩
  · rw [same,signSelf,signZero,alikeIff left right]
    exact ⟨fun held => ⟨fun other => absurd same (ne_of_lt other),fun other => absurd same (ne_of_gt other),fun _ => held⟩,
      fun order => order.same same⟩
  · rw [signMore more,signOver,beforeIff right left,belowIff more]
    exact ⟨fun held => ⟨fun other => absurd other (lt_asymm more),fun _ => held,fun other => absurd other (ne_of_gt more)⟩,
      fun order => order.above more⟩

def alone (text : String) (filled : text ≠ "") (chars : ∀ c ∈ text.toList, idChar c = true) (plain : ∀ n ∈ number text, text = n.repr) : SemVer :=
  ⟨1,0,0,[⟨⟨text,filled,chars⟩,plain⟩],[]⟩

def built (text : String) (filled : text ≠ "") (chars : ∀ c ∈ text.toList, idChar c = true) : SemVer := ⟨1,0,0,[],[⟨text,filled,chars⟩]⟩

def nine : SemVer := alone "9" (by decide) (List.all_eq_true.mp (by decide)) (by decide)

def ten : SemVer := alone "10" (by decide) (List.all_eq_true.mp (by decide)) (by decide)

def builtA : SemVer := built "a" (by decide) (List.all_eq_true.mp (by decide))

theorem bFilled : "b" ≠ "" := by decide

def builtB : SemVer := built "b" bFilled (List.all_eq_true.mp (by decide))

/- The tenth pre-release is read as older than the ninth, and builds of one release as older and newer ones. -/
theorem tenthOlder : compareSemver "v1.0.0-9" "v1.0.0-10" = 1 ∧ nine.written true = "v1.0.0-9" ∧ ten.written true = "v1.0.0-10" ∧
    sign nine.precedence ten.precedence = -1 ∧ compareSemver "1.0.0+a" "1.0.0+b" = -1 ∧ builtA.written false = "1.0.0+a" ∧
    builtB.written false = "1.0.0+b" ∧ sign builtA.precedence builtB.precedence = 0 := by
  refine ⟨by decide +kernel,by decide +kernel,by decide +kernel,?_,by decide +kernel,by decide +kernel,by decide +kernel,?_⟩
  · rw [signBelow]
    decide +kernel
  · rw [signZero]
    rfl

end ContainerWS.Update
