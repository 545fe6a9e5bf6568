import ContainerWS.Kubernetes.ManifestScopes
import ContainerWS.TrimmedLines
import Mathlib.Algebra.GroupWithZero.Nat
import Mathlib.Data.List.Forall2

/-! Streams of YAML documents and what SplitYAMLDocuments makes of them: the documents that were joined, or other ones. -/
namespace ContainerWS.Kubernetes.Streams
open GoStrings TrimmedLines

def mark : List Char := "---".toList

/- A line that separates documents. -/
def Separates (line : List Char) : Prop := mark <+: line ∧ ∀ c ∈ (line.drop 3).head?, isSpace c = true

/- A line of a document. -/
structure Line where
  chars : List Char
  noBreak : '\n' ∉ chars
  noReturn : '\x0d' ∉ chars
  own : ¬Separates chars

abbrev charsOf (lines : List Line) : List (List Char) := lines.map Line.chars

/- Documents, and what is empty or a comment only between them. What is first has a line. -/
structure Stream where
  first : List Line
  rest : List (List Line)
  begins : first ≠ []

def lineEnd (crlf : Bool) : List Char := if crlf then ['\x0d','\n'] else ['\n']

/- Lines, with line ends of either kind between them. -/
def written (crlf : Nat → Bool) : List (List Char) → List Char
  | [] => []
  | [l] => l
  | l :: q :: rest => l ++ (lineEnd (crlf 0) ++ written (fun i => crlf (i+1)) (q :: rest))

def Stream.lines (s : Stream) : List (List Char) := charsOf s.first ++ s.rest.flatMap fun d => mark :: charsOf d

def Stream.text (s : Stream) (crlf : Nat → Bool) : String := String.ofList (written crlf s.lines)

/- Lines between two separators, before the first one or behind the last. -/
structure Block where
  lines : List (List Char)
  follows : Bool
  ended : Bool
  deriving DecidableEq

def blocksAfter : List (List Line) → List Block
  | [] => []
  | d :: rest => ⟨charsOf d,true,!rest.isEmpty⟩ :: blocksAfter rest

def Stream.blocks (s : Stream) : List Block := ⟨charsOf s.first,false,!s.rest.isEmpty⟩ :: blocksAfter s.rest

/- A line that is blank or a comment. -/
def idle (line : List Char) : Bool :=
  decide (trimSpace (String.ofList line) = "") || hasPrefix (trimSpace (String.ofList line)) "#"

def Block.document (b : Block) : Bool := b.lines.any fun l => !idle l

def Stream.documents (s : Stream) : List Block := s.blocks.filter Block.document

/- Lines without blank lines and comments at the front and without blanks at the end. -/
def core (lines : List (List Char)) : List (List Char) := back isSpace (lines.dropWhile idle)

/- The same line behind another indentation. -/
def Moved (p q l o : List Char) : Prop := (∃ m, l = p ++ m ∧ o = q ++ m) ∨ (l.all isSpace = true ∧ o.all isSpace = true)

/- The blanks and line ends at the end. -/
def tailOf (cs : List Char) : List Char := cs.rtakeWhile isSpace

def Block.text (b : Block) : List Char := joinedLines '\n' b.lines ++ if b.ended then ['\n'] else []

/- The same content: each line is there, all of them indented more or less by the same, and blanks at the end where the reader of YAML
counts them as content, as in a block scalar. -/
structure Same (counts : Block → Prop) (b : Block) (out : String) : Prop where
  lines : ∃ p q, p.all isSpace = true ∧ q.all isSpace = true ∧ List.Forall₂ (Moved p q) (core b.lines) (core (out.toList.splitOn '\n'))
  tail : counts b → tailOf b.text = tailOf out.toList

/- The stream is split into its documents. -/
def Restores (counts : Block → Prop) (s : Stream) (crlf : Nat → Bool) : Prop :=
  List.Forall₂ (Same counts) s.documents (SplitYAMLDocuments (s.text crlf))

/- No line of a document begins with the mark, save the first of the stream. -/
def Uncut (s : Stream) : Prop := (∀ l ∈ s.first.tail, ¬mark <+: l.chars) ∧ ∀ d ∈ s.rest, ∀ l ∈ d, ¬mark <+: l.chars

/- What is left of the lines behind a separator. -/
def behindLines : List (List Char) → List (List Char)
  | [] => []
  | l :: ls => if ls ≠ [] ∧ (idle l = true ∨ trimSpace (String.ofList l) = "...") then ls else l :: ls

def Block.behind (b : Block) : List (List Char) := if b.follows then behindLines b.lines else b.lines

/- The first line that is not blank is a comment, or not indented, or alone. -/
def Level (lines : List (List Char)) : Prop :=
  match lines.dropWhile (fun l => l.all isSpace) with
  | [] => True
  | l :: ls => idle l = true ∨ trimLeft l = l ∨ ∀ q ∈ ls, q.all isSpace = true

/- A document that is left as it is. -/
structure Safe (counts : Block → Prop) (b : Block) : Prop where
  noEnd : b.follows = true → ∀ l ∈ b.lines.head?, trimSpace (String.ofList l) ≠ "..."
  filled : trimSpace (String.ofList (joinedLines '\n' b.behind)) ≠ "..."
  level : Level b.behind
  tail : counts b → tailOf b.text = []

/-! The lines of the text. -/
theorem unixOther {c : Char} (other : c ≠ '\x0d') (rest : List Char) : unixEnds (c :: rest) = c :: unixEnds rest := by
  rw [unixEnds]
  rintro _ rfl _
  exact other rfl

theorem unixPlain {l : List Char} (plain : '\x0d' ∉ l) (rest : List Char) : unixEnds (l ++ rest) = l ++ unixEnds rest := by
  induction l with
  | nil => rfl
  | cons c l ih =>
    rw [List.mem_cons,not_or] at plain
    rw [List.cons_append,unixOther fun same => plain.1 same.symm,ih plain.2]
    rfl

theorem unixWritten {ls : List (List Char)} (plain : ∀ l ∈ ls, '\x0d' ∉ l) (crlf : Nat → Bool) :
    unixEnds (written crlf ls) = joinedLines '\n' ls := by
  induction ls generalizing crlf with
  | nil => rfl
  | cons l ls ih =>
    obtain ⟨here,later⟩ := List.forall_mem_cons.mp plain
    cases ls with
    | nil =>
      have whole := unixPlain here []
      rw [List.append_nil,unixEnds,List.append_nil] at whole
      rw [written,whole,textOne]
    | cons q ls =>
      have ends (crlf : Bool) (rest : List Char) : unixEnds (lineEnd crlf ++ rest) = '\n' :: unixEnds rest := by
        cases crlf with
        | false => exact unixOther (by decide) rest
        | true => rfl
      rw [written,unixPlain here,ends,ih later,textCons]

theorem linesPlain (s : Stream) : ∀ l ∈ s.lines, '\n' ∉ l ∧ '\x0d' ∉ l := by
  intro l mem
  rcases List.mem_append.mp mem with first | later
  · obtain ⟨line,-,rfl⟩ := List.mem_map.mp first
    exact ⟨line.noBreak,line.noReturn⟩
  · obtain ⟨d,-,inside⟩ := List.mem_flatMap.mp later
    rcases List.mem_cons.mp inside with rfl | inside
    · decide
    · obtain ⟨line,-,rfl⟩ := List.mem_map.mp inside
      exact ⟨line.noBreak,line.noReturn⟩

/-! Where the text is cut: at each later line that begins with the mark. -/
def groups : List (List Char) → List (List Char) × List (List (List Char))
  | [] => ([],[])
  | l :: ls => if mark.isPrefixOf l then ([],(l.drop 3 :: (groups ls).1) :: (groups ls).2) else (l :: (groups ls).1,(groups ls).2)

theorem intercalateStart {a : List Char} (m x : List Char) (parts : List (List Char)) :
    m.intercalate ((a ++ x) :: parts) = a ++ m.intercalate (x :: parts) := by
  cases parts with
  | nil => rw [List.intercalate_singleton,List.intercalate_singleton]
  | cons y parts => rw [List.intercalate_cons_cons,List.intercalate_cons_cons,List.append_assoc,List.append_assoc,List.append_assoc]

theorem marked {l : List Char} (start : mark.isPrefixOf l = true) : l = mark ++ l.drop 3 :=
  (List.prefix_append_drop (List.isPrefixOf_iff_prefix.mp start))

theorem groupsText (first : List Char) (ls : List (List Char)) :
    joinedLines '\n' (first :: ls) =
      newlineMark.intercalate (joinedLines '\n' (first :: (groups ls).1) :: (groups ls).2.map (joinedLines '\n')) := by
  induction ls generalizing first with
  | nil => exact List.intercalate_singleton.symm
  | cons l ls ih =>
    rw [groups]
    split
    · rename_i start
      rw [textCons,marked start,textStart,ih,← marked start,List.map_cons,List.intercalate_cons_cons,textOne,List.append_assoc]
      rfl
    · dsimp only
      have glued := intercalateStart (a := first ++ ['\n']) newlineMark (joinedLines '\n' (l :: (groups ls).1))
        ((groups ls).2.map (joinedLines '\n'))
      rw [List.append_assoc,List.append_assoc] at glued
      rw [textCons,ih,textCons]
      exact glued.symm

theorem infixBehind {m x rest : List Char} {c : Char} (free : c ∉ x) (inside : (c :: m) <:+: x ++ rest) : (c :: m) <:+: rest := by
  induction x with
  | nil => exact inside
  | cons d x ih =>
    rw [List.mem_cons,not_or] at free
    rcases List.infix_cons_iff.mp inside with start | later
    · exact absurd (List.cons_prefix_cons.mp start).1 free.1
    · exact ih free.2 later

theorem markLine {y rest : List Char} (start : mark <+: y ++ '\n' :: rest) : mark <+: y := by
  rcases List.prefix_or_prefix_of_prefix start (List.prefix_append y ('\n' :: rest)) with here | ⟨more,whole⟩
  · exact here
  · rw [← whole,List.prefix_append_right_inj] at start
    cases more with
    | nil => rw [← whole,List.append_nil]
    | cons c more =>
      have same := (List.cons_prefix_cons.mp start).1
      have inside : '\n' ∈ mark := by
        rw [← whole,same]
        exact List.mem_append_right y List.mem_cons_self
      exact absurd inside (by decide)

theorem pieceFree {x : List Char} {ys : List (List Char)} (clean : ∀ l ∈ x :: ys, '\n' ∉ l) (unmarked : ∀ l ∈ ys, ¬mark <+: l) :
    ¬newlineMark <:+: joinedLines '\n' (x :: ys) := by
  have shape : newlineMark = '\n' :: mark := rfl
  induction ys generalizing x with
  | nil =>
    rw [textOne]
    intro inside
    exact clean x List.mem_cons_self (inside.subset List.mem_cons_self)
  | cons y ys ih =>
    obtain ⟨here,later⟩ := List.forall_mem_cons.mp clean
    obtain ⟨first,others⟩ := List.forall_mem_cons.mp unmarked
    intro inside
    rw [textCons,shape] at inside
    rcases List.infix_cons_iff.mp (infixBehind here inside) with start | rest
    · have begins := (List.cons_prefix_cons.mp start).2
      refine first ?_
      cases ys with
      | nil => rwa [textOne] at begins
      | cons z ys =>
        rw [textCons] at begins
        exact markLine begins
    · exact ih later others rest

/- The pieces, and the lines of each but its first, have no mark. -/
theorem groupsClean {ls : List (List Char)} (clean : ∀ l ∈ ls, '\n' ∉ l) :
    ((∀ l ∈ (groups ls).1, '\n' ∉ l) ∧ ∀ l ∈ (groups ls).1, ¬mark <+: l) ∧
    ∀ g ∈ (groups ls).2, ∃ x ys, g = x :: ys ∧ (∀ l ∈ x :: ys, '\n' ∉ l) ∧ ∀ l ∈ ys, ¬mark <+: l := by
  induction ls with
  | nil => exact ⟨⟨List.forall_mem_nil _,List.forall_mem_nil _⟩,List.forall_mem_nil _⟩
  | cons l ls ih =>
    obtain ⟨here,later⟩ := List.forall_mem_cons.mp clean
    obtain ⟨one,others⟩ := ih later
    rw [groups]
    split
    · refine ⟨⟨List.forall_mem_nil _,List.forall_mem_nil _⟩,List.forall_mem_cons.mpr ⟨⟨_,_,rfl,?_,one.2⟩,others⟩⟩
      exact List.forall_mem_cons.mpr ⟨fun mem => here (List.mem_of_mem_drop mem),one.1⟩
    · rename_i other
      rw [List.isPrefixOf_iff_prefix] at other
      exact ⟨⟨List.forall_mem_cons.mpr ⟨here,one.1⟩,List.forall_mem_cons.mpr ⟨other,one.2⟩⟩,others⟩

theorem splitGroups {first : List Char} {ls : List (List Char)} (clean : ∀ l ∈ first :: ls, '\n' ∉ l) :
    Separated.split newlineMark (joinedLines '\n' (first :: ls)) =
      joinedLines '\n' (first :: (groups ls).1) :: (groups ls).2.map (joinedLines '\n') := by
  obtain ⟨here,later⟩ := List.forall_mem_cons.mp clean
  obtain ⟨one,others⟩ := groupsClean later
  rw [groupsText]
  refine Separated.splitJoin (by decide) (List.cons_ne_nil _ _) (List.forall_mem_cons.mpr ⟨?_,?_⟩)
  · exact pieceFree (List.forall_mem_cons.mpr ⟨here,one.1⟩) one.2
  · intro p mem
    obtain ⟨g,there,rfl⟩ := List.mem_map.mp mem
    obtain ⟨x,ys,rfl,plain,unmarked⟩ := others g there
    exact pieceFree plain unmarked

/-! What is made of a piece. -/
def kept (lines : List (List Char)) : Option String := keepDocument (String.ofList (joinedLines '\n' lines))

/- The lines of a piece behind the mark. -/
def behindMark : List (List Char) → List (List Char)
  | [] => []
  | l :: ls => behindLines (if l = [] then ls else l :: ls)

theorem dropsIdle (l : List Char) : (trimSpace (String.ofList l) = "" ∨ hasPrefix (trimSpace (String.ofList l)) "#" = true ∨
    trimSpace (String.ofList l) = "...") ↔ idle l = true ∨ trimSpace (String.ofList l) = "..." := by
  rw [idle,Bool.or_eq_true,decide_eq_true_eq,or_assoc]

theorem takeLine {l : List Char} (clean : '\n' ∉ l) (rest : List Char) : (l ++ '\n' :: rest).takeWhile (fun c => c != '\n') = l := by
  have all : ∀ c ∈ l, (c != '\n') = true := by
    intro c mem
    rw [bne_iff_ne]
    rintro rfl
    exact clean mem
  rw [List.takeWhile_append_of_pos all,List.takeWhile_cons_of_neg (by decide),List.append_nil]

theorem dropLine {l : List Char} (clean : '\n' ∉ l) (rest : List Char) :
    (l ++ '\n' :: rest).dropWhile (fun c => c != '\n') = '\n' :: rest := by
  have all : ∀ c ∈ l, (c != '\n') = true := by
    intro c mem
    rw [bne_iff_ne]
    rintro rfl
    exact clean mem
  rw [List.dropWhile_append_of_pos all,List.dropWhile_cons_of_neg (by decide)]

/- Without the rest of the separator's line. -/
theorem behindText {ls : List (List Char)} (clean : ∀ l ∈ ls, '\n' ∉ l) :
    (if '\n' ∈ joinedLines '\n' ls then
      let first := trimSpace (firstLine (joinedLines '\n' ls))
      if first = "" ∨ hasPrefix first "#" = true ∨ first = "..." then ((joinedLines '\n' ls).dropWhile (fun c => c != '\n')).tail
      else joinedLines '\n' ls
    else joinedLines '\n' ls) = joinedLines '\n' (behindLines ls) := by
  cases ls with
  | nil => rfl
  | cons l ls =>
    obtain ⟨here,later⟩ := List.forall_mem_cons.mp clean
    cases ls with
    | nil =>
      rw [textOne,if_neg here,behindLines,if_neg fun both => both.1 rfl,textOne]
    | cons q ls =>
      have broken : '\n' ∈ l ++ '\n' :: joinedLines '\n' (q :: ls) := List.mem_append_right l List.mem_cons_self
      rw [textCons,if_pos broken]
      dsimp only
      rw [firstLine,takeLine here,dropLine here,behindLines]
      simp only [dropsIdle]
      by_cases drops : idle l = true ∨ trimSpace (String.ofList l) = "..."
      · rw [if_pos drops,if_pos ⟨List.cons_ne_nil q ls,drops⟩]
        rfl
      · rw [if_neg drops,if_neg fun both => drops both.2,textCons]

theorem afterMarkText {g : List (List Char)} (clean : ∀ l ∈ g, '\n' ∉ l) (marked : g ≠ []) :
    afterMark (joinedLines '\n' g) = joinedLines '\n' (behindMark g) := by
  cases g with
  | nil => exact absurd rfl marked
  | cons l ls =>
    obtain ⟨here,later⟩ := List.forall_mem_cons.mp clean
    have opened : (if (joinedLines '\n' (l :: ls)).head? = some '\n' then (joinedLines '\n' (l :: ls)).tail
        else joinedLines '\n' (l :: ls)) =
        joinedLines '\n' (if l = [] then ls else l :: ls) := by
      cases l with
      | nil =>
        rw [if_pos rfl]
        cases ls with
        | nil => rfl
        | cons q ls => rfl
      | cons c l =>
        have other : c ≠ '\n' := fun same => here (same ▸ List.mem_cons_self)
        have head : (joinedLines '\n' ((c :: l) :: ls)).head? = some c := by
          exact congrArg List.head? (textStart [c] l ls)
        rw [head,if_neg (fun same => other (Option.some.inj same)),if_neg (List.cons_ne_nil c l)]
    have rest : ∀ q ∈ (if l = [] then ls else l :: ls), '\n' ∉ q := by
      split
      · exact later
      · exact clean
    unfold afterMark
    rw [opened]
    exact behindText rest

end ContainerWS.Kubernetes.Streams
