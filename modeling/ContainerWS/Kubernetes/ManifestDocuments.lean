import ContainerWS.Kubernetes.ManifestStreams

/-! When a stream of YAML documents is split into these documents: what the lines of its pieces weigh, and what becomes of one document. -/
namespace ContainerWS.Kubernetes.Streams
open GoStrings TrimmedLines

variable {counts : Block → Prop} {s : Stream} {crlf : Nat → Bool}

/-! What the lines of a text weigh: the characters that are no blanks, where the line is not idle. -/
def weight (line : List Char) : Nat := if idle line then 0 else line.countP fun c => !isSpace c

def total (lines : List (List Char)) : Nat := (lines.map weight).sum

theorem idleSame {l q : List Char} (same : trimSpace (String.ofList l) = trimSpace (String.ofList q)) : idle l = idle q := by
  rw [idle,idle,same]

theorem trimDrop (l : List Char) : trimSpace (String.ofList (l.dropWhile isSpace)) = trimSpace (String.ofList l) := by
  unfold trimSpace trimLeft
  rw [String.toList_ofList,String.toList_ofList,List.dropWhile_idempotent]

theorem trimClip (l : List Char) : trimSpace (String.ofList (l.rdropWhile isSpace)) = trimSpace (String.ofList l) := TextRows.trimBothEnd l

theorem trimBlank {l : List Char} (all : l.all isSpace = true) : trimSpace (String.ofList l) = "" := by
  rw [← trimDrop,dropAll all]
  decide

theorem blankIdle (l : List Char) (all : l.all isSpace = true) : idle l = true := by
  rw [idle,trimBlank all]
  decide

theorem idleDrop (l : List Char) : idle (l.dropWhile isSpace) = idle l := idleSame (trimDrop l)

theorem idleClip (l : List Char) : idle (l.rdropWhile isSpace) = idle l := idleSame (trimClip l)

theorem countDrop (l : List Char) : (l.dropWhile isSpace).countP (fun c => !isSpace c) = l.countP fun c => !isSpace c := by
  induction l with
  | nil => rfl
  | cons c l ih =>
    by_cases gap : isSpace c = true
    · rw [List.dropWhile_cons_of_pos gap,ih,List.countP_cons_of_neg (by rw [gap]; decide)]
    · rw [List.dropWhile_cons_of_neg gap]

theorem weightDrop (l : List Char) : weight (l.dropWhile isSpace) = weight l := by
  rw [weight,weight,idleDrop,countDrop]

theorem weightClip (l : List Char) : weight (l.rdropWhile isSpace) = weight l := by
  have count : (l.rdropWhile isSpace).countP (fun c => !isSpace c) = l.countP fun c => !isSpace c := by
    rw [List.rdropWhile,List.countP_reverse,countDrop,List.countP_reverse]
  rw [weight,weight,idleClip,count]

theorem weightBlank (l : List Char) (all : l.all isSpace = true) : weight l = 0 := by rw [weight,if_pos (blankIdle l all)]

theorem weightZero {l : List Char} : weight l = 0 ↔ idle l = true := by
  rw [weight]
  split
  · rename_i here
    exact iff_of_true rfl here
  · rename_i busy
    refine iff_of_false (fun none => busy (blankIdle l ?_)) busy
    rw [List.all_eq_true]
    intro c mem
    simpa using List.countP_eq_zero.mp none c mem

theorem totalCons (l : List Char) (lines : List (List Char)) : total (l :: lines) = weight l+total lines := List.sum_cons

theorem totalZero {lines : List (List Char)} : total lines = 0 ↔ ∀ l ∈ lines, idle l = true := by
  induction lines with
  | nil => exact iff_of_true rfl (List.forall_mem_nil _)
  | cons l lines ih => rw [totalCons,Nat.add_eq_zero_iff,weightZero,ih,List.forall_mem_cons]

theorem totalTrim (lines : List (List Char)) : total (back isSpace (front isSpace lines)) = total lines :=
  (backSum weightBlank weightClip _).trans (frontSum weightBlank weightDrop lines)

theorem totalCore (lines : List (List Char)) : total (core lines) = total lines := by
  refine (backSum weightBlank weightClip _).trans ?_
  induction lines with
  | nil => rfl
  | cons l lines ih =>
    by_cases here : idle l = true
    · rw [List.dropWhile_cons_of_pos here,ih,totalCons,weightZero.mpr here,Nat.zero_add]
    · rw [List.dropWhile_cons_of_neg here]
      rfl

theorem totalMoved {p q : List Char} (left : p.all isSpace = true) (right : q.all isSpace = true) {ls os : List (List Char)}
    (moved : List.Forall₂ (Moved p q) ls os) : total ls = total os := by
  have same {l o : List Char} (one : Moved p q l o) : weight l = weight o := by
    rcases one with ⟨m,rfl,rfl⟩ | ⟨here,there⟩
    · have solid {p : List Char} (blank : p.all isSpace = true) : weight (p ++ m) = weight m := by
        rw [← weightDrop (p ++ m),List.dropWhile_append,dropAll blank,if_pos (by rfl),weightDrop]
      rw [solid left,solid right]
    · rw [weightBlank l here,weightBlank o there]
  induction moved with
  | nil => rfl
  | cons one _ ih => rw [totalCons,totalCons,same one,ih]

/- A text's lines. -/
theorem linesBack {lines : List (List Char)} (clean : ∀ l ∈ lines, '\n' ∉ l) (some : lines ≠ []) :
    (joinedLines '\n' lines).splitOn '\n' = lines :=
  List.splitOn_intercalate '\n' clean some

theorem trimClean {lines : List (List Char)} (clean : ∀ l ∈ lines, '\n' ∉ l) : ∀ l ∈ back isSpace (front isSpace lines), '\n' ∉ l := by
  intro l mem inside
  obtain ⟨q,there,same⟩ := backMem mem
  obtain ⟨r,here,other⟩ := frontMem there
  exact clean r here (other _ (same _ inside))

theorem trimText (lines : List (List Char)) :
    trimSpace (String.ofList (joinedLines '\n' lines)) = String.ofList (joinedLines '\n' (back isSpace (front isSpace lines))) := by
  have trimmed : ((joinedLines '\n' lines).dropWhile isSpace).rdropWhile isSpace = joinedLines '\n' (back isSpace (front isSpace lines)) :=
    textTrim (by decide) lines
  rw [← trimmed]
  unfold trimSpace
  rw [String.toList_ofList]
  rfl

/- A piece is kept where it has a line that is not idle, and is no lone end mark. -/
theorem keptIff {lines : List (List Char)} (clean : ∀ l ∈ lines, '\n' ∉ l) {out : String} : kept lines = some out ↔
    out = trimSpace (String.ofList (joinedLines '\n' lines)) ∧ out ≠ "..." ∧ total lines ≠ 0 := by
  have inside := trimClean clean
  have same := totalTrim lines
  rw [kept,keepDocument,trimText]
  generalize back isSpace (front isSpace lines) = t at inside same ⊢
  rw [← same]
  have idles : onlyComments (String.ofList (joinedLines '\n' t)) = ((joinedLines '\n' t).splitOn '\n').all idle := by
    rw [onlyComments,split,String.toList_ofList,List.all_map]
    rfl
  by_cases none : t = []
  · have empty : total t = 0 := by
      rw [none]
      rfl
    rw [if_pos (.inl (by rw [none]; rfl))]
    exact iff_of_false (by simp) fun held => held.2.2 empty
  · have zero : total t ≠ 0 ↔ ¬∀ l ∈ t, idle l = true := not_congr totalZero
    rw [idles,linesBack inside none,zero]
    by_cases lone : String.ofList (joinedLines '\n' t) = "..."
    · rw [if_pos (.inr lone)]
      refine iff_of_false (by simp) fun held => held.2.1 ?_
      rw [held.1,lone]
    · by_cases all : ∀ l ∈ t, idle l = true
      · have every : t.all idle = true := List.all_eq_true.mpr all
        rw [every,if_pos rfl,ite_self]
        exact iff_of_false (by simp) fun held => held.2.2 all
      · have some : ¬t.all idle = true := fun every => all (List.all_eq_true.mp every)
        have filled : String.ofList (joinedLines '\n' t) ≠ "" := by
          intro empty
          have gone : joinedLines '\n' t = [] := by rw [← String.toList_ofList (l := joinedLines '\n' t),empty]; rfl
          have whole := linesBack inside none
          rw [gone] at whole
          rw [← whole] at some
          exact some (by decide)
        rw [if_neg (not_or.mpr ⟨filled,lone⟩),if_neg some,Option.some_inj]
        constructor
        · rintro rfl
          exact ⟨rfl,lone,all⟩
        · exact fun held => held.1.symm

/-! What is cut off. -/
def cutWeight (line : List Char) : Nat := if mark.isPrefixOf line then weight (line.drop 3) else weight line

theorem markedBusy (r : List Char) : idle (mark ++ r) = false := by
  have head : (trimSpace (String.ofList (mark ++ r))).toList.head? = some '-' := trimHead (by decide)
  obtain ⟨filled,other⟩ := commentHead head (by decide)
  rw [idle,other,decide_eq_false filled]
  rfl

theorem weightLe (l : List Char) : weight l ≤ l.countP fun c => !isSpace c := by
  rw [weight]
  split
  · exact Nat.zero_le _
  · exact Nat.le_refl _

theorem cutLost {l : List Char} (start : mark <+: l) : cutWeight l < weight l := by
  obtain ⟨r,rfl⟩ := start
  have shorter := weightLe r
  have longer : weight (mark ++ r) = 3+r.countP fun c => !isSpace c := by
    rw [weight,markedBusy,if_neg (by decide),List.countP_append]
    rfl
  rw [cutWeight,if_pos (List.isPrefixOf_iff_prefix.mpr (List.prefix_append mark r)),longer]
  exact Nat.lt_of_le_of_lt shorter (by omega)

theorem cutLess (l : List Char) : cutWeight l ≤ weight l := by
  by_cases start : mark <+: l
  · exact Nat.le_of_lt (cutLost start)
  · rw [cutWeight,if_neg fun same => start (List.isPrefixOf_iff_prefix.mp same)]

theorem groupsTotal (ls : List (List Char)) : total (groups ls).1+((groups ls).2.map total).sum = (ls.map cutWeight).sum := by
  induction ls with
  | nil => rfl
  | cons l ls ih =>
    rw [groups,List.map_cons,List.sum_cons,cutWeight,← ih]
    split
    · rw [List.map_cons,List.sum_cons,totalCons,Nat.add_assoc]
      exact Nat.zero_add _
    · rw [totalCons,Nat.add_assoc]

theorem behindLess (lines : List (List Char)) : total (behindLines lines) ≤ total lines := by
  cases lines with
  | nil => exact Nat.le_refl _
  | cons l ls =>
    rw [behindLines]
    split
    · rw [totalCons]
      exact Nat.le_add_left _ _
    · exact Nat.le_refl _

theorem markLess (g : List (List Char)) : total (behindMark g) ≤ total g := by
  cases g with
  | nil => exact Nat.le_refl _
  | cons l ls =>
    refine (behindLess _).trans ?_
    split
    · rw [totalCons]
      exact Nat.le_add_left _ _
    · exact Nat.le_refl _

theorem behindMem {lines : List (List Char)} {l : List Char} (mem : l ∈ behindLines lines) : l ∈ lines := by
  cases lines with
  | nil => exact mem
  | cons q ls =>
    rw [behindLines] at mem
    split at mem
    · exact List.mem_cons_of_mem q mem
    · exact mem

theorem markMem {g : List (List Char)} {l : List Char} (mem : l ∈ behindMark g) : l ∈ g := by
  cases g with
  | nil => exact mem
  | cons q ls =>
    have inside := behindMem mem
    split at inside
    · exact List.mem_cons_of_mem q inside
    · exact inside

def outTotal (out : String) : Nat := total (out.toList.splitOn '\n')

theorem outLines {lines : List (List Char)} (clean : ∀ l ∈ lines, '\n' ∉ l) (busy : total lines ≠ 0) :
    (trimSpace (String.ofList (joinedLines '\n' lines))).toList.splitOn '\n' = back isSpace (front isSpace lines) := by
  rw [trimText,String.toList_ofList,linesBack (trimClean clean)]
  intro none
  have same := totalTrim lines
  rw [none] at same
  exact busy same.symm

theorem keptTotal {lines : List (List Char)} (clean : ∀ l ∈ lines, '\n' ∉ l) {out : String} (made : kept lines = some out) :
    outTotal out = total lines := by
  obtain ⟨rfl,-,busy⟩ := (keptIff clean).mp made
  rw [outTotal,outLines clean busy,totalTrim]

theorem keptsTotal {pieces : List (List (List Char))} (clean : ∀ g ∈ pieces, ∀ l ∈ g, '\n' ∉ l) :
    ((pieces.filterMap kept).map outTotal).sum ≤ (pieces.map total).sum := by
  induction pieces with
  | nil => exact Nat.le_refl _
  | cons g pieces ih =>
    obtain ⟨here,later⟩ := List.forall_mem_cons.mp clean
    have rest := ih later
    rw [List.map_cons,List.sum_cons]
    cases made : kept g with
    | none =>
      rw [List.filterMap_cons_none made]
      exact rest.trans (Nat.le_add_left _ _)
    | some out =>
      rw [List.filterMap_cons_some made,List.map_cons,List.sum_cons,keptTotal here made]
      exact Nat.add_le_add_left rest _

/-! The pieces of a stream. -/
def after (first : List Line) (rest : List (List Line)) : List (List Char) := charsOf first ++ rest.flatMap fun d => mark :: charsOf d

def pieces (f : Line) (fs : List Line) (rest : List (List Line)) : List (List (List Char)) :=
  (f.chars :: (groups (after fs rest)).1) :: (groups (after fs rest)).2.map behindMark

theorem piecesClean {f : Line} {fs : List Line} (shape : s.first = f :: fs) : ∀ g ∈ pieces f fs s.rest, ∀ l ∈ g, '\n' ∉ l := by
  have lines : s.lines = f.chars :: after fs s.rest := by
    rw [Stream.lines,shape]
    rfl
  have plain := linesPlain s
  rw [lines] at plain
  obtain ⟨here,later⟩ := List.forall_mem_cons.mp plain
  obtain ⟨one,others⟩ := groupsClean fun l mem => (later l mem).1
  refine List.forall_mem_cons.mpr ⟨List.forall_mem_cons.mpr ⟨here.1,one.1⟩,?_⟩
  intro g mem l inside
  obtain ⟨h,there,rfl⟩ := List.mem_map.mp mem
  obtain ⟨x,ys,rfl,clean,-⟩ := others h there
  exact clean l (markMem inside)

theorem keptEach (gs : List (List (List Char))) :
    (gs.map (joinedLines '\n')).filterMap (fun doc => keepDocument (String.ofList doc)) = gs.filterMap kept := by
  rw [List.filterMap_map]
  exact List.filterMap_congr fun g _ => by rw [Function.comp_apply,kept]

theorem splitStream {f : Line} {fs : List Line} (shape : s.first = f :: fs) :
    SplitYAMLDocuments (s.text crlf) = (pieces f fs s.rest).filterMap kept := by
  have lines : s.lines = f.chars :: after fs s.rest := by
    rw [Stream.lines,shape]
    rfl
  have plain := linesPlain s
  rw [lines] at plain
  have clean : ∀ l ∈ f.chars :: after fs s.rest, '\n' ∉ l := fun l mem => (plain l mem).1
  have behind : ((groups (after fs s.rest)).2.map (joinedLines '\n')).map afterMark =
      ((groups (after fs s.rest)).2.map behindMark).map (joinedLines '\n') := by
    rw [List.map_map,List.map_map]
    refine List.map_congr_left fun g mem => ?_
    obtain ⟨x,ys,rfl,inside,-⟩ := (groupsClean (List.forall_mem_cons.mp clean).2).2 g mem
    exact afterMarkText inside (List.cons_ne_nil x ys)
  rw [SplitYAMLDocuments,Stream.text,String.toList_ofList,lines,unixWritten fun l mem => (plain l mem).2,splitGroups clean]
  dsimp only
  rw [behind,← List.map_cons,keptEach,pieces]

/-! Nothing may be cut off. -/
theorem sumLe {α : Type} {f g : α → Nat} {l : List α} (less : ∀ x ∈ l, f x ≤ g x) : (l.map f).sum ≤ (l.map g).sum := by
  induction l with
  | nil => exact Nat.le_refl _
  | cons x l ih =>
    obtain ⟨here,later⟩ := List.forall_mem_cons.mp less
    exact Nat.add_le_add here (ih later)

theorem sumForced {α : Type} {f g : α → Nat} {l : List α} (less : ∀ x ∈ l, f x ≤ g x) (whole : (l.map g).sum ≤ (l.map f).sum) :
    ∀ x ∈ l, g x ≤ f x := by
  induction l with
  | nil => exact List.forall_mem_nil _
  | cons x l ih =>
    obtain ⟨here,later⟩ := List.forall_mem_cons.mp less
    have rest := sumLe later
    rw [List.map_cons,List.map_cons,List.sum_cons,List.sum_cons] at whole
    exact List.forall_mem_cons.mpr ⟨by omega,ih later (by omega)⟩

theorem sameTotal {b : Block} {out : String} (same : Same counts b out) : outTotal out = total b.lines := by
  obtain ⟨p,q,left,right,moved⟩ := same.lines
  have both := totalMoved left right moved
  rw [totalCore,totalCore] at both
  exact both.symm

theorem samesTotal {bs : List Block} {outs : List String} (same : List.Forall₂ (Same counts) bs outs) :
    (bs.map fun b => total b.lines).sum = (outs.map outTotal).sum := by
  induction same with
  | nil => rfl
  | cons one _ ih => rw [List.map_cons,List.map_cons,List.sum_cons,List.sum_cons,ih,sameTotal one]

theorem documentTotal {b : Block} : b.document = true ↔ total b.lines ≠ 0 := by
  rw [Block.document,List.any_eq_true,ne_eq,totalZero]
  simp

theorem documentsTotal (bs : List Block) :
    ((bs.filter Block.document).map fun b => total b.lines).sum = (bs.map fun b => total b.lines).sum := by
  induction bs with
  | nil => rfl
  | cons b bs ih =>
    rw [List.map_cons,List.sum_cons,← ih]
    by_cases here : b.document = true
    · rw [List.filter_cons_of_pos here,List.map_cons,List.sum_cons]
    · have none : total b.lines = 0 := not_not.mp (mt documentTotal.mpr here)
      rw [List.filter_cons_of_neg here,none,Nat.zero_add]

theorem afterTotal (rest : List (List Line)) :
    ((blocksAfter rest).map fun b => total b.lines).sum = (rest.flatten.map fun l => weight l.chars).sum := by
  induction rest with
  | nil => rfl
  | cons d rest ih =>
    have own : total (charsOf d) = (d.map fun l => weight l.chars).sum := by
      rw [total,List.map_map]
      exact congrArg List.sum (List.map_congr_left fun l _ => Function.comp_apply)
    rw [blocksAfter,List.map_cons,List.sum_cons,ih,List.flatten_cons,List.map_append,List.sum_append,own]

theorem cutTotal (fs : List Line) (rest : List (List Line)) :
    ((after fs rest).map cutWeight).sum = ((fs ++ rest.flatten).map fun l => cutWeight l.chars).sum := by
  rw [after,List.map_append,List.map_append,List.sum_append,List.sum_append,List.map_map]
  refine congrArg _ ?_
  induction rest with
  | nil => rfl
  | cons d rest ih =>
    have none : cutWeight mark = 0 := by decide
    rw [List.flatMap_cons,List.cons_append,List.map_cons,List.sum_cons,none,Nat.zero_add,List.map_append,List.sum_append,ih,
      List.flatten_cons,List.map_append,List.sum_append,List.map_map]
    rfl

theorem piecesTotal (f : Line) (fs : List Line) (rest : List (List Line)) :
    ((pieces f fs rest).map total).sum ≤ weight f.chars+((after fs rest).map cutWeight).sum := by
  rw [pieces,List.map_cons,List.sum_cons,totalCons,← groupsTotal,List.map_map,Nat.add_assoc]
  exact Nat.add_le_add_left (Nat.add_le_add_left (sumLe fun g _ => markLess g) _) _

theorem uncutIff {f : Line} {fs : List Line} (shape : s.first = f :: fs) : Uncut s ↔ ∀ l ∈ fs ++ s.rest.flatten, ¬mark <+: l.chars := by
  rw [Uncut,shape,List.tail_cons,List.forall_mem_append]
  refine and_congr_right fun _ => ?_
  constructor
  · intro held l mem
    obtain ⟨d,there,inside⟩ := List.mem_flatten.mp mem
    exact held d there l inside
  · exact fun held d there l inside => held l (List.mem_flatten_of_mem there inside)

theorem restoresUncut (restored : Restores counts s crlf) : Uncut s := by
  obtain ⟨f,fs,shape⟩ := List.exists_cons_of_ne_nil s.begins
  have same : (s.documents.map fun b => total b.lines).sum = ((SplitYAMLDocuments (s.text crlf)).map outTotal).sum := samesTotal restored
  have blocks : (s.blocks.map fun b => total b.lines).sum = weight f.chars+((fs ++ s.rest.flatten).map fun l => weight l.chars).sum := by
    rw [Stream.blocks,List.map_cons,List.sum_cons,afterTotal,shape,List.map_append,List.sum_append]
    have own : total (charsOf fs) = (fs.map fun l => weight l.chars).sum := by
      rw [total,List.map_map]
      exact congrArg List.sum (List.map_congr_left fun l _ => Function.comp_apply)
    rw [charsOf,List.map_cons,totalCons,own,Nat.add_assoc]
  have less := (keptsTotal (piecesClean shape)).trans (piecesTotal f fs s.rest)
  have whole : SplitYAMLDocuments (s.text crlf) = (pieces f fs s.rest).filterMap kept := splitStream shape
  rw [← whole,← same,Stream.documents,documentsTotal,blocks,cutTotal] at less
  have forced := sumForced (fun (l : Line) _ => cutLess l.chars) (Nat.le_of_add_le_add_left less)
  rw [uncutIff shape]
  exact fun l mem start => absurd (forced l mem) (Nat.not_le.mpr (cutLost start))

/-! Where nothing is cut, each block is a piece. -/
theorem groupsAppend {xs : List (List Char)} (unmarked : ∀ l ∈ xs, ¬mark <+: l) (ys : List (List Char)) :
    groups (xs ++ ys) = (xs ++ (groups ys).1,(groups ys).2) := by
  induction xs with
  | nil => rfl
  | cons l xs ih =>
    obtain ⟨here,later⟩ := List.forall_mem_cons.mp unmarked
    rw [List.cons_append,groups,if_neg fun same => here (List.isPrefixOf_iff_prefix.mp same),ih later]
    rfl

theorem groupsMarks {rest : List (List Line)} (unmarked : ∀ l ∈ rest.flatten, ¬mark <+: l.chars) :
    groups (rest.flatMap fun d => mark :: charsOf d) = ([],rest.map fun d => [] :: charsOf d) := by
  induction rest with
  | nil => rfl
  | cons d rest ih =>
    rw [List.flatten_cons,List.forall_mem_append] at unmarked
    have own : ∀ l ∈ charsOf d, ¬mark <+: l := List.forall_mem_map.mpr unmarked.1
    rw [List.flatMap_cons,List.cons_append,groups,if_pos (by decide),groupsAppend own,ih unmarked.2,List.append_nil]
    rfl

theorem piecesUncut {f : Line} {fs : List Line} (shape : s.first = f :: fs) (uncut : Uncut s) :
    pieces f fs s.rest = s.blocks.map Block.behind := by
  rw [uncutIff shape,List.forall_mem_append] at uncut
  have own : ∀ l ∈ charsOf fs, ¬mark <+: l := List.forall_mem_map.mpr uncut.1
  have later (rest : List (List Line)) : rest.map (fun d => behindMark ([] :: charsOf d)) = (blocksAfter rest).map Block.behind := by
    induction rest with
    | nil => rfl
    | cons d rest ih =>
      rw [List.map_cons,ih]
      rfl
  rw [pieces,after,groupsAppend own,groupsMarks uncut.2,List.append_nil,List.map_map,Stream.blocks,List.map_cons,shape,← later]
  rfl

/- Elements that are left out on the one side are left out on the other, so that what is kept stands side by side. -/
theorem alignIff {α β : Type} {p : α → Bool} {f : α → Option β} {R : α → β → Prop} {l : List α}
    (drops : ∀ x ∈ l, p x = false → f x = none) :
    List.Forall₂ R (l.filter p) (l.filterMap f) ↔ ∀ x ∈ l, p x = true → ∃ y, f x = some y ∧ R x y := by
  have shorter {l : List α} (drops : ∀ x ∈ l, p x = false → f x = none) : (l.filterMap f).length ≤ (l.filter p).length := by
    induction l with
    | nil => exact Nat.le_refl _
    | cons x l ih =>
      obtain ⟨here,later⟩ := List.forall_mem_cons.mp drops
      have rest := ih later
      cases kept : p x with
      | true =>
        rw [List.filter_cons_of_pos kept,List.length_cons]
        cases made : f x with
        | none =>
          rw [List.filterMap_cons_none made]
          exact rest.trans (Nat.le_succ _)
        | some y =>
          rw [List.filterMap_cons_some made]
          exact Nat.succ_le_succ rest
      | false =>
        rw [List.filterMap_cons_none (here kept),List.filter_cons_of_neg (by rw [kept]; decide)]
        exact rest
  induction l with
  | nil => exact iff_of_true .nil (List.forall_mem_nil _)
  | cons x l ih =>
    obtain ⟨here,later⟩ := List.forall_mem_cons.mp drops
    rw [List.forall_mem_cons]
    cases kept : p x with
    | true =>
      rw [List.filter_cons_of_pos kept]
      cases made : f x with
      | none =>
        rw [List.filterMap_cons_none made]
        refine iff_of_false (fun both => ?_) fun both => ?_
        · have same := both.length_eq
          have less := shorter later
          rw [List.length_cons] at same
          omega
        · obtain ⟨y,made,-⟩ := both.1 rfl
          cases made
      | some y =>
        rw [List.filterMap_cons_some made,List.forall₂_cons]
        refine and_congr ?_ (ih later)
        simp
    | false =>
      rw [List.filterMap_cons_none (here kept),List.filter_cons_of_neg (by rw [kept]; decide)]
      exact (ih later).trans (and_iff_right fun none => absurd none (by decide)).symm

/-! One document. -/
theorem skipBlank {l : List Char} {lines : List (List Char)} (blank : l.all isSpace = true) :
    (l :: lines).dropWhile (fun l => l.all isSpace) = lines.dropWhile fun l => l.all isSpace :=
  List.dropWhile_cons_of_pos (p := fun l : List Char => l.all isSpace) blank

theorem stopBlank {l : List Char} {lines : List (List Char)} (solid : ¬l.all isSpace = true) :
    (l :: lines).dropWhile (fun l => l.all isSpace) = l :: lines :=
  List.dropWhile_cons_of_neg (p := fun l : List Char => l.all isSpace) solid

theorem frontShape {lines : List (List Char)} : front isSpace lines =
    match lines.dropWhile (fun l => l.all isSpace) with
    | [] => []
    | l :: ls => l.dropWhile isSpace :: ls := by
  induction lines with
  | nil => rfl
  | cons l lines ih =>
    rw [front]
    by_cases blank : l.all isSpace = true
    · rw [if_pos blank,ih,skipBlank blank]
    · rw [if_neg blank,stopBlank blank]

theorem coreShape (lines : List (List Char)) : core (lines.dropWhile fun l => l.all isSpace) = core lines := by
  induction lines with
  | nil => rfl
  | cons l lines ih =>
    by_cases blank : l.all isSpace = true
    · rw [skipBlank blank,ih,core,core,List.dropWhile_cons_of_pos (blankIdle l blank)]
    · rw [stopBlank blank]

theorem movedSelf (lines : List (List Char)) : List.Forall₂ (Moved [] []) lines lines :=
  List.forall₂_same.mpr fun l _ => .inl ⟨l,rfl,rfl⟩

/- A line that is not blank and that is the same here and there has the same indentation. -/
theorem movedEqual {p q l : List Char} (busy : ¬l.all isSpace = true) (moved : Moved p q l l) : p = q := by
  rcases moved with ⟨m,here,there⟩ | ⟨blank,-⟩
  · exact List.append_cancel_right (here.symm.trans there)
  · exact absurd blank busy

theorem clipDrop {l : List Char} (busy : ¬l.all isSpace = true) :
    l.rdropWhile isSpace = l.takeWhile isSpace ++ (l.dropWhile isSpace).rdropWhile isSpace := by
  have left : ¬(l.dropWhile isSpace).reverse.all isSpace = true := by
    rw [List.all_reverse]
    intro all
    have none := dropAll all
    rw [List.dropWhile_idempotent] at none
    exact dropSome busy none
  have whole : l.reverse = (l.dropWhile isSpace).reverse ++ (l.takeWhile isSpace).reverse := by
    rw [← List.reverse_append,List.takeWhile_append_dropWhile]
  rw [List.rdropWhile,whole,dropAppend left,List.reverse_append,List.reverse_reverse]
  rfl

/- The lines of a text that is trimmed are those of the text, more or less indented, if and only if the first is a comment, or not indented,
or alone. -/
theorem headIff {h : List Char} {t : List (List Char)} (busy : ¬h.all isSpace = true) (some : total (h :: t) ≠ 0) :
    (∃ p q, p.all isSpace = true ∧ q.all isSpace = true ∧
      List.Forall₂ (Moved p q) (core (h :: t)) (core (back isSpace (h.dropWhile isSpace :: t)))) ↔
    idle h = true ∨ trimLeft h = h ∨ ∀ q ∈ t, q.all isSpace = true := by
  have same : idle (h.dropWhile isSpace) = idle h := idleDrop h
  by_cases comment : idle h = true
  · refine iff_of_true ?_ (.inl comment)
    rw [totalCons,weightZero.mpr comment,Nat.zero_add,ne_eq,totalZero] at some
    have more : ¬∀ l ∈ t, l.all isSpace = true := fun all => some fun l mem => blankIdle l (all l mem)
    have content : ∃ l ∈ t, idle l = false := by simpa using some
    have left : core (h :: t) = core t := by rw [core,core,List.dropWhile_cons_of_pos comment]
    have right : core (back isSpace (h.dropWhile isSpace :: t)) = core t := by
      rw [backMore more,core,List.dropWhile_cons_of_pos (same.trans comment),backSkip blankIdle idleClip content,backTwice]
      rfl
    rw [left,right]
    exact ⟨[],[],rfl,rfl,movedSelf _⟩
  · have here : ¬idle (h.dropWhile isSpace) = true := fun busy_ => comment (same.symm.trans busy_)
    have left : core (h :: t) = back isSpace (h :: t) := by rw [core,List.dropWhile_cons_of_neg comment]
    have filled : ¬(h.dropWhile isSpace).all isSpace = true := fun all => here (blankIdle _ all)
    by_cases alone : ∀ q ∈ t, q.all isSpace = true
    · refine iff_of_true ⟨h.takeWhile isSpace,[],List.all_takeWhile,rfl,?_⟩ (.inr (.inr alone))
      have clipped : ¬idle ((h.dropWhile isSpace).rdropWhile isSpace) = true := by
        rw [idleClip]
        exact here
      rw [left,backLast alone busy,backLast alone filled,core,List.dropWhile_cons_of_neg clipped,
        backLast (List.forall_mem_nil _) (clipSome filled),List.rdropWhile_idempotent,clipDrop busy]
      exact .cons (.inl ⟨_,rfl,rfl⟩) .nil
    · have rest : ¬∀ l ∈ back isSpace t, l.all isSpace = true := by
        rw [← backNil,backTwice,backNil]
        exact alone
      have right : core (back isSpace (h.dropWhile isSpace :: t)) = h.dropWhile isSpace :: back isSpace t := by
        rw [backMore alone,core,List.dropWhile_cons_of_neg here,backMore rest,backTwice]
      rw [left,right,backMore alone]
      constructor
      · rintro ⟨p,q,-,-,moved⟩
        obtain ⟨first,others⟩ := List.forall₂_cons.mp moved
        obtain ⟨l,mem,solid⟩ : ∃ l ∈ back isSpace t, ¬l.all isSpace = true := by simpa using rest
        obtain rfl := movedEqual solid (List.forall₂_same.mp others l mem)
        rcases first with ⟨m,one,two⟩ | ⟨blank,-⟩
        · exact .inr (.inl (two.trans one.symm))
        · exact absurd blank busy
      · rintro (idle_ | plain | all)
        · exact absurd idle_ comment
        · have equal : h.dropWhile isSpace = h := plain
          rw [equal]
          exact ⟨[],[],rfl,rfl,movedSelf _⟩
        · exact absurd all alone

theorem levelIff {lines : List (List Char)} (clean : ∀ l ∈ lines, '\n' ∉ l) (busy : total lines ≠ 0) :
    (∃ p q, p.all isSpace = true ∧ q.all isSpace = true ∧ List.Forall₂ (Moved p q) (core lines)
      (core ((trimSpace (String.ofList (joinedLines '\n' lines))).toList.splitOn '\n'))) ↔ Level lines := by
  have weighs : total (lines.dropWhile fun l => l.all isSpace) = total lines := by
    rw [← totalCore,coreShape,totalCore]
  rw [outLines clean busy,← coreShape lines,frontShape,Level]
  rw [← weighs] at busy
  have solid (l : List Char) (mem : l ∈ (lines.dropWhile fun l => l.all isSpace).head?) : ¬l.all isSpace = true := by
    have first := List.head?_dropWhile_not (fun l => l.all isSpace) lines
    rw [mem] at first
    rw [first]
    decide
  generalize lines.dropWhile (fun l => l.all isSpace) = rest at busy solid ⊢
  cases rest with
  | nil => exact absurd rfl busy
  | cons h t => exact headIff (solid h rfl) busy

theorem behindDropped {lines : List (List Char)} (kept : ∀ l ∈ lines.head?, trimSpace (String.ofList l) ≠ "...") :
    core (behindLines lines) = core lines ∧ total (behindLines lines) = total lines := by
  cases lines with
  | nil => exact ⟨rfl,rfl⟩
  | cons l ls =>
    rw [behindLines]
    split
    · rename_i drops
      have here : idle l = true := drops.2.resolve_right (kept l rfl)
      have same : core ls = core (l :: ls) := by rw [core,core,List.dropWhile_cons_of_pos here]
      exact ⟨same,by rw [totalCons,weightZero.mpr here,Nat.zero_add]⟩
    · exact ⟨rfl,rfl⟩

theorem endBusy {l : List Char} (ends : trimSpace (String.ofList l) = "...") : idle l = false := by
  rw [idle,ends]
  decide

/- All of the lines are there behind a separator only where the first is no end mark, or is alone. -/
theorem behindWhole {lines : List (List Char)} (whole : total (behindLines lines) = total lines)
    (other : trimSpace (String.ofList (joinedLines '\n' (behindLines lines))) ≠ "...") :
    ∀ l ∈ lines.head?, trimSpace (String.ofList l) ≠ "..." := by
  intro l mem ends
  cases lines with
  | nil => cases mem
  | cons q ls =>
    obtain rfl := Option.some.inj mem
    rw [behindLines] at whole other
    split at whole
    · rw [totalCons] at whole
      have none : weight q = 0 := by omega
      rw [weightZero,endBusy ends] at none
      cases none
    · rename_i stays
      have alone : ls = [] := by
        by_contra more
        exact stays ⟨more,.inr ends⟩
      rw [if_neg stays,alone,textOne] at other
      exact other ends

theorem tailTrimmed (s : String) : tailOf (trimSpace s).toList = [] := by
  have shape : (trimSpace s).toList = (trimLeft s.toList).rdropWhile isSpace := String.toList_ofList
  rw [tailOf,shape,List.rtakeWhile_eq_nil_iff]
  exact fun some => List.rdropWhile_last_not isSpace (trimLeft s.toList) some

theorem blocksClean (s : Stream) : ∀ b ∈ s.blocks, ∀ l ∈ b.lines, '\n' ∉ l := by
  have chars (d : List Line) : ∀ l ∈ charsOf d, '\n' ∉ l := List.forall_mem_map.mpr fun l _ => l.noBreak
  have later (rest : List (List Line)) : ∀ b ∈ blocksAfter rest, ∀ l ∈ b.lines, '\n' ∉ l := by
    induction rest with
    | nil => exact List.forall_mem_nil _
    | cons d rest ih => exact List.forall_mem_cons.mpr ⟨chars d,ih⟩
  exact List.forall_mem_cons.mpr ⟨chars s.first,later s.rest⟩

theorem blockLess (b : Block) : total b.behind ≤ total b.lines := by
  rw [Block.behind]
  split
  · exact behindLess b.lines
  · exact Nat.le_refl _

theorem blockMem {b : Block} {l : List Char} (mem : l ∈ b.behind) : l ∈ b.lines := by
  rw [Block.behind] at mem
  split at mem
  · exact behindMem mem
  · exact mem

theorem safeWhole {b : Block} (noEnd : b.follows = true → ∀ l ∈ b.lines.head?, trimSpace (String.ofList l) ≠ "...") :
    core b.behind = core b.lines ∧ total b.behind = total b.lines := by
  rw [Block.behind]
  split
  · rename_i follows
    exact behindDropped (noEnd follows)
  · exact ⟨rfl,rfl⟩

theorem safeIff {b : Block} (clean : ∀ l ∈ b.lines, '\n' ∉ l) (document : b.document = true) :
    (∃ out, kept b.behind = some out ∧ Same counts b out) ↔ Safe counts b := by
  have inside : ∀ l ∈ b.behind, '\n' ∉ l := fun l mem => clean l (blockMem mem)
  rw [documentTotal] at document
  constructor
  · rintro ⟨out,made,same⟩
    obtain ⟨shape,other,busy⟩ := (keptIff inside).mp made
    have whole : total b.behind = total b.lines := (keptTotal inside made).symm.trans (sameTotal same)
    rw [shape] at other same
    have noEnd : b.follows = true → ∀ l ∈ b.lines.head?, trimSpace (String.ofList l) ≠ "..." := by
      intro follows
      rw [Block.behind,if_pos follows] at whole other
      exact behindWhole whole other
    refine ⟨noEnd,other,?_,fun counted => (same.tail counted).trans (tailTrimmed _)⟩
    rw [← levelIff inside busy,(safeWhole noEnd).1]
    exact same.lines
  · rintro ⟨noEnd,filled,level,tail⟩
    obtain ⟨lines,whole⟩ := safeWhole noEnd
    have busy : total b.behind ≠ 0 := by rwa [whole]
    refine ⟨_,(keptIff inside).mpr ⟨rfl,filled,busy⟩,?_,fun counted => (tail counted).trans (tailTrimmed _).symm⟩
    rw [← levelIff inside busy,lines] at level
    exact level

theorem idleDropped {b : Block} (clean : ∀ l ∈ b.lines, '\n' ∉ l) (none : b.document = false) : kept b.behind = .none := by
  have empty : total b.lines = 0 := not_not.mp (mt documentTotal.mpr (by rw [none]; decide))
  have inside : ∀ l ∈ b.behind, '\n' ∉ l := fun l mem => clean l (blockMem mem)
  cases made : kept b.behind with
  | none => rfl
  | some out =>
    have busy := ((keptIff inside).mp made).2.2
    exact absurd (Nat.le_zero.mp (empty ▸ blockLess b)) busy

/- A stream is split into its documents if and only if no line of them is taken for a separator and each is left as it is. -/
theorem restoresIff (counts : Block → Prop) (s : Stream) (crlf : Nat → Bool) :
    Restores counts s crlf ↔ Uncut s ∧ ∀ b ∈ s.documents, Safe counts b := by
  obtain ⟨f,fs,shape⟩ := List.exists_cons_of_ne_nil s.begins
  have each (uncut : Uncut s) : Restores counts s crlf ↔ ∀ b ∈ s.documents, Safe counts b := by
    have clean := blocksClean s
    have drops : ∀ b ∈ s.blocks, b.document = false → kept b.behind = none := fun b mem idle_ => idleDropped (clean b mem) idle_
    have made : (s.blocks.map Block.behind).filterMap kept = s.blocks.filterMap fun b => kept b.behind := by
      rw [List.filterMap_map]
      exact List.filterMap_congr fun b _ => Function.comp_apply
    rw [Restores,splitStream shape,piecesUncut shape uncut,made,Stream.documents,
      alignIff (p := Block.document) (f := fun b => kept b.behind) (R := Same counts) drops]
    constructor
    · intro held b mem
      obtain ⟨there,document⟩ := List.mem_filter.mp mem
      exact (safeIff (clean b there) document).mp (held b there document)
    · exact fun safe b there document => (safeIff (clean b there) document).mpr (safe b (List.mem_filter.mpr ⟨there,document⟩))
  exact ⟨fun restored => ⟨restoresUncut restored,(each (restoresUncut restored)).mp restored⟩,fun held => (each held.1).mpr held.2⟩

def indented : Stream :=
  ⟨[⟨"  a: 1".toList,by decide,by decide,fun separates => absurd separates.1 (by decide)⟩,
    ⟨"  b: 2".toList,by decide,by decide,fun separates => absurd separates.1 (by decide)⟩],[],List.cons_ne_nil _ _⟩

/- Of a document that is indented, the first line is indented no more. -/
theorem firstOutdented : ¬Restores (fun _ => False) indented fun _ => false := by
  have documents : indented.documents = [⟨["  a: 1".toList,"  b: 2".toList],false,false⟩] := by decide
  have outs : SplitYAMLDocuments (indented.text fun _ => false) = ["a: 1\n  b: 2"] := by decide
  have before : core ["  a: 1".toList,"  b: 2".toList] = ["  a: 1".toList,"  b: 2".toList] := by decide
  have behind : core ("a: 1\n  b: 2".toList.splitOn '\n') = ["a: 1".toList,"  b: 2".toList] := by decide
  intro restored
  rw [Restores,documents,outs] at restored
  obtain ⟨same,-⟩ := List.forall₂_cons.mp restored
  obtain ⟨p,q,-,-,moved⟩ := same.lines
  rw [before,behind] at moved
  obtain ⟨first,later⟩ := List.forall₂_cons.mp moved
  obtain rfl := movedEqual (by decide) (List.forall₂_cons.mp later).1
  rcases first with ⟨m,here,there⟩ | ⟨blank,-⟩
  · exact absurd (here.trans there.symm) (by decide)
  · exact absurd blank (by decide)

end ContainerWS.Kubernetes.Streams
