import ContainerWS.GoBytes
import ContainerWS.TextRows
import Mathlib.Data.List.DropRight

/-! The writers that modules/codeserver/clone.go puts behind a git that runs: its output, cut into writes at any place, as lines
of the log. A text is the bytes of it. -/
namespace ContainerWS.CodeServer
open GoBytes

def lineFeed : UInt8 := 0x0A
def carriageReturn : UInt8 := 0x0D

/- `strings.TrimRight` of the carriage returns. -/
def trimReturns (line : List UInt8) : List UInt8 := line.rdropWhile (· == carriageReturn)

/- The log is what onLine was called with, and nothing where onLine is nil. -/
structure LineWriter where
  stream : String
  onLine : Bool
  also : Option (List UInt8)
  buf : List UInt8
  log : List (List UInt8 × String)
  deriving DecidableEq, Repr

def LineWriter.deliver (w : LineWriter) (line : List UInt8) : List (List UInt8 × String) :=
  if w.onLine && !blank line then [(line,w.stream)] else []

/- The loop of Write; each round takes a byte at least from the buffer. -/
def LineWriter.drain : Nat → LineWriter → LineWriter
  | 0, w => w
  | rounds+1, w =>
    match w.buf.idxOf? lineFeed with
    | none => w
    | some i => drain rounds {w with buf := w.buf.drop (i+1), log := w.log ++ w.deliver (trimReturns (w.buf.take i))}

def LineWriter.Write (w : LineWriter) (p : List UInt8) : LineWriter :=
  drain (w.buf ++ p).length {w with also := w.also.map (· ++ p), buf := w.buf ++ p}

/- The writer that `run` makes; git ends without a further call. -/
def newLineWriter (stream : String) (also : Option (List UInt8)) : LineWriter := ⟨stream,true,also,[],[]⟩

/- The lines with a line feed at their end, and what stands behind the last one. -/
def terminated (out : List UInt8) : List (List UInt8) := (out.splitOn lineFeed).dropLast

def unterminated (out : List UInt8) : List UInt8 := (out.splitOn lineFeed).getLastD []

/- The lines of the whole output that are not blank, the last one with or without a line feed. -/
def nonBlankLines (out : List UInt8) : List (List UInt8) :=
  ((out.splitOn lineFeed).map trimReturns).filter (fun line => !blank line)

/- The same where a carriage return alone ends a line too. -/
def nonBlankPieces (out : List UInt8) : List (List UInt8) :=
  ((out.splitOn lineFeed).flatMap (·.splitOn carriageReturn)).filter (fun line => !blank line)

theorem blankReturn (b : List UInt8) : blank (carriageReturn :: b) = blank b := by
  rcases b with _ | ⟨x,_ | ⟨y,rest⟩⟩
  · rfl
  · simp [blank,carriageReturn,oneByteSpace,twoByteSpace]
  · simp [blankLong,carriageReturn,oneByteSpace,twoByteSpace,threeByteSpace]

/- A carriage return is a space of its own wherever it stands. -/
theorem blankAround (a b : List UInt8) : blank (a ++ carriageReturn :: b) = (blank a && blank b) := by
  have second (x : UInt8) : twoByteSpace x carriageReturn = false := by simp [twoByteSpace,carriageReturn]
  have middle (x y : UInt8) : threeByteSpace x carriageReturn y = false := by simp [threeByteSpace,carriageReturn]
  have third (x y : UInt8) : threeByteSpace x y carriageReturn = false := by simp [threeByteSpace,carriageReturn]
  have single (x : UInt8) : blank (x :: carriageReturn :: b) = (oneByteSpace x && blank b) := by
    cases b with
    | nil => simp [blank,second,show oneByteSpace carriageReturn = true by decide]
    | cons y rest => rw [blankLong,second,middle,blankReturn,Bool.false_and,Bool.false_and,Bool.or_false,Bool.or_false]
  induction a using blank.induct with
  | case1 => exact (blankReturn b).trans (Bool.true_and _).symm
  | case2 x => exact single x
  | case3 x y =>
    have whole : blank (x :: y :: carriageReturn :: b) = ((oneByteSpace x && blank (y :: carriageReturn :: b)) || (twoByteSpace x y && blank b)) := by
      rw [blankLong,third,blankReturn,Bool.false_and,Bool.or_false]
    have pair : blank [x,y] = ((oneByteSpace x && oneByteSpace y) || twoByteSpace x y) := rfl
    rw [List.cons_append,List.cons_append,List.nil_append,whole,pair]
    rw [single,← Bool.and_assoc,Bool.and_or_distrib_right]
  | case4 x y z rest first two three =>
    simp only [List.cons_append] at first two three ⊢
    rw [blankLong,first,two,three,blankLong]
    simp only [← Bool.and_assoc,Bool.and_or_distrib_right]

theorem trimmedBack (line : List UInt8) : ∃ n, line = trimReturns line ++ List.replicate n carriageReturn := by
  refine ⟨(line.rtakeWhile (· == carriageReturn)).length,?_⟩
  have returns : line.rtakeWhile (· == carriageReturn) = List.replicate (line.rtakeWhile (· == carriageReturn)).length carriageReturn :=
    List.eq_replicate_of_mem fun b mem => beq_iff_eq.mp (List.mem_rtakeWhile_imp (p := fun x => x == carriageReturn) mem)
  rw [← returns]
  exact (List.rdropWhile_append_rtakeWhile (l := line) (p := fun x => x == carriageReturn)).symm

theorem blankTrimmed (line : List UInt8) : blank (trimReturns line) = blank line := by
  have returns (n : Nat) : blank (List.replicate n carriageReturn) = true := by
    induction n with
    | zero => rfl
    | succ n ih => rw [List.replicate_succ,blankReturn,ih]
  obtain ⟨n,back⟩ := trimmedBack line
  cases n with
  | zero => rw [List.replicate_zero,List.append_nil] at back; rw [← back]
  | succ n =>
    have whole := congrArg blank back
    rw [List.replicate_succ,blankAround,returns,Bool.and_true] at whole
    exact whole.symm

theorem blankRows {rows : List (List UInt8)} (some : rows ≠ []) : blank ([carriageReturn].intercalate rows) = rows.all blank := by
  induction rows with
  | nil => exact absurd rfl some
  | cons a rest ih =>
    cases rest with
    | nil => rw [List.intercalate_singleton,List.all_cons,List.all_nil,Bool.and_true]
    | cons b rest =>
      rw [List.intercalate_cons_cons,List.append_assoc,List.singleton_append,blankAround,ih (List.cons_ne_nil b rest)]
      rfl

/- A line is blank when all that its carriage returns part is. -/
theorem blankPieces (line : List UInt8) : (line.splitOn carriageReturn).all blank = blank line := by
  rw [← blankRows (List.splitOn_ne_nil carriageReturn line),List.intercalate_splitOn]

/- What a line gives to the lines of the output, and what it gives where a carriage return ends a line as well. -/
def nonBlank (line : List UInt8) : List (List UInt8) := [trimReturns line].filter (fun line => !blank line)

def pieces (line : List UInt8) : List (List UInt8) := (line.splitOn carriageReturn).filter (fun line => !blank line)

theorem piecesFree {line : List UInt8} (free : carriageReturn ∉ trimReturns line) : pieces line = nonBlank line := by
  obtain ⟨n,back⟩ := trimmedBack line
  have split (n : Nat) : (trimReturns line ++ List.replicate n carriageReturn).splitOn carriageReturn = trimReturns line :: List.replicate n [] := by
    induction n with
    | zero => rw [List.replicate_zero,List.append_nil,List.splitOn_eq_singleton free,List.replicate_zero]
    | succ n ih =>
      rw [List.replicate_succ',← List.append_assoc,List.splitOn_append_cons_self,ih,List.splitOn_nil,List.replicate_succ',List.cons_append]
  have cut := split n
  rw [← back] at cut
  rw [pieces,nonBlank,cut,List.filter_cons,List.filter_cons]
  simp [blank]

theorem piecesBlank (line : List UInt8) : pieces line = [] ↔ blank line = true := by
  rw [← blankPieces,pieces,List.filter_eq_nil_iff,List.all_eq_true]
  simp

/- A piece has no carriage return, so a line that keeps one is none. -/
theorem piecesIff (lines : List (List UInt8)) (rest : List UInt8) :
    lines.flatMap nonBlank = (lines ++ [rest]).flatMap pieces ↔
      blank rest = true ∧ ∀ line ∈ lines, blank line = true ∨ carriageReturn ∉ trimReturns line := by
  have gives (line : List UInt8) : nonBlank line = if blank line then [] else [trimReturns line] := by
    cases dull : blank line <;> simp [nonBlank,blankTrimmed,dull]
  have same {lines : List (List UInt8)} (free : ∀ line ∈ lines, blank line = true ∨ carriageReturn ∉ trimReturns line) :
      lines.flatMap nonBlank = lines.flatMap pieces := by
    refine List.flatMap_congr fun line mem => ?_
    rcases free line mem with dull | free
    · rw [gives,if_pos dull,(piecesBlank line).mpr dull]
    · exact (piecesFree free).symm
  rw [List.flatMap_append,List.flatMap_singleton]
  constructor
  · intro equal
    have free : ∀ line ∈ lines, blank line = true ∨ carriageReturn ∉ trimReturns line := by
      intro line mem
      rw [or_iff_not_imp_left]
      intro solid
      have given : trimReturns line ∈ lines.flatMap nonBlank :=
        List.mem_flatMap.mpr ⟨line,mem,by rw [gives,if_neg solid]; exact List.mem_singleton_self _⟩
      rw [equal,← List.flatMap_singleton pieces rest,← List.flatMap_append] at given
      obtain ⟨row,-,piece⟩ := List.mem_flatMap.mp given
      exact (TextRows.splitOnMem (List.mem_filter.mp piece).1).1
    rw [same free] at equal
    exact ⟨(piecesBlank rest).mp (List.self_eq_append_right.mp equal),free⟩
  · rintro ⟨dull,free⟩
    rw [same free,(piecesBlank rest).mpr dull,List.append_nil]

theorem linesIff (lines : List (List UInt8)) (rest : List UInt8) :
    lines.flatMap nonBlank = (lines ++ [rest]).flatMap nonBlank ↔ blank rest = true := by
  rw [List.flatMap_append,List.flatMap_singleton,List.self_eq_append_right,← blankTrimmed rest]
  simp [nonBlank]

/- What a writer has of the output it was given: the lines that it cut off, each in the log unless it is blank, and the buffer. -/
structure Fed (w : LineWriter) (stream : String) (lines : List (List UInt8)) (out : List UInt8) : Prop where
  onLine : w.onLine = true
  named : w.stream = stream
  whole : out = (lines.map (· ++ [lineFeed])).flatten ++ w.buf
  free : ∀ line ∈ lines, lineFeed ∉ line
  log : w.log = (lines.flatMap nonBlank).map (·,stream)

theorem fedSplit {w : LineWriter} {stream : String} {lines : List (List UInt8)} {out : List UInt8} (fed : Fed w stream lines out)
    (rest : lineFeed ∉ w.buf) : out.splitOn lineFeed = lines ++ [w.buf] := by
  have cut (lines : List (List UInt8)) (free : ∀ line ∈ lines, lineFeed ∉ line) :
      ((lines.map (· ++ [lineFeed])).flatten ++ w.buf).splitOn lineFeed = lines ++ [w.buf] := by
    induction lines with
    | nil => exact List.splitOn_eq_singleton rest
    | cons line lines ih =>
      rw [List.map_cons,List.flatten_cons,List.append_assoc,List.append_assoc,List.singleton_append,
        List.splitOn_append_cons_self_of_not_mem (free line List.mem_cons_self),ih fun l mem => free l (List.mem_cons_of_mem _ mem)]
      rfl
  rw [fed.whole]
  exact cut lines fed.free

/- A round of the loop moves a line from the buffer to the log; enough rounds leave no line feed. -/
theorem drainFed {stream : String} {out : List UInt8} (rounds : Nat) {w : LineWriter} {lines : List (List UInt8)} (fed : Fed w stream lines out)
    (enough : w.buf.length ≤ rounds) : ∃ lines, Fed (w.drain rounds) stream lines out ∧ lineFeed ∉ (w.drain rounds).buf := by
  induction rounds generalizing w lines with
  | zero =>
    refine ⟨lines,fed,?_⟩
    rw [LineWriter.drain,List.eq_nil_of_length_eq_zero (Nat.le_zero.mp enough)]
    exact List.not_mem_nil
  | succ rounds ih =>
    rw [LineWriter.drain]
    cases found : w.buf.idxOf? lineFeed with
    | none => exact ⟨lines,fed,List.idxOf?_eq_none_iff.mp found⟩
    | some i =>
      obtain ⟨inside,this,before⟩ := List.idxOf?_eq_some_iff.mp found
      have parts : w.buf = w.buf.take i ++ lineFeed :: w.buf.drop (i+1) := by
        rw [← this,← List.drop_eq_getElem_cons inside,List.take_append_drop]
      have solid : lineFeed ∉ w.buf.take i := by
        intro mem
        obtain ⟨j,near,equal⟩ := List.mem_take_iff_getElem.mp mem
        exact before j (by omega) equal
      have shorter : (w.buf.drop (i+1)).length ≤ rounds := by rw [List.length_drop]; omega
      refine @ih _ (lines ++ [w.buf.take i]) ⟨fed.onLine,fed.named,?_,?_,?_⟩ shorter
      · rw [fed.whole]
        conv_lhs => rw [parts]
        simp
      · intro line mem
        rcases List.mem_append.mp mem with old | new
        · exact fed.free line old
        · exact List.mem_singleton.mp new ▸ solid
      · rw [List.flatMap_append,List.map_append,List.flatMap_singleton,← fed.log]
        simp only [LineWriter.deliver,fed.onLine,fed.named,nonBlank,Bool.true_and]
        cases dull : blank (trimReturns (w.buf.take i)) <;> simp [dull]

theorem writesFed {stream : String} (writes : List (List UInt8)) {w : LineWriter} {lines : List (List UInt8)} {out : List UInt8}
    (fed : Fed w stream lines out) (rest : lineFeed ∉ w.buf) :
    ∃ lines, Fed (writes.foldl LineWriter.Write w) stream lines (out ++ writes.flatten) ∧ lineFeed ∉ (writes.foldl LineWriter.Write w).buf := by
  induction writes generalizing w lines out with
  | nil => exact ⟨lines,by rwa [List.flatten_nil,List.append_nil],rest⟩
  | cons p writes ih =>
    have taken : Fed {w with also := w.also.map (· ++ p), buf := w.buf ++ p} stream lines (out ++ p) :=
      ⟨fed.onLine,fed.named,by rw [fed.whole,List.append_assoc],fed.free,fed.log⟩
    obtain ⟨next,fed,rest⟩ := drainFed _ taken (Nat.le_refl _)
    obtain ⟨final,done,last⟩ := ih (w := w.Write p) fed rest
    exact ⟨final,by rwa [List.append_assoc] at done,last⟩

/- However the output is cut, the log is that of the terminated lines. -/
theorem logTerminated (stream : String) (also : Option (List UInt8)) (writes : List (List UInt8)) :
    (writes.foldl LineWriter.Write (newLineWriter stream also)).log = ((terminated writes.flatten).flatMap nonBlank).map (·,stream) := by
  have start : Fed (newLineWriter stream also) stream [] [] := ⟨rfl,rfl,rfl,List.forall_mem_nil _,rfl⟩
  obtain ⟨lines,fed,rest⟩ := writesFed writes start List.not_mem_nil
  rw [List.nil_append] at fed
  rw [fed.log,terminated,fedSplit fed rest,List.dropLast_concat]

/- The cuts never matter. What is delivered is all the lines when nothing but blanks stands behind the last line feed; and, where
a carriage return ends a line too, when further no line that is delivered keeps one. -/
theorem deliversIff (stream : String) (also : Option (List UInt8)) (writes : List (List UInt8)) :
    let log := (writes.foldl LineWriter.Write (newLineWriter stream also)).log
    log = ((newLineWriter stream also).Write writes.flatten).log ∧
    (log = (nonBlankLines writes.flatten).map (·,stream) ↔ blank (unterminated writes.flatten) = true) ∧
    (log = (nonBlankPieces writes.flatten).map (·,stream) ↔ blank (unterminated writes.flatten) = true ∧
      ∀ line ∈ terminated writes.flatten, blank line = true ∨ carriageReturn ∉ trimReturns line) := by
  have pair : Function.Injective fun line : List UInt8 => (line,stream) := fun _ _ equal => (Prod.mk.inj equal).1
  have parts : writes.flatten.splitOn lineFeed = terminated writes.flatten ++ [unterminated writes.flatten] := by
    have some := List.splitOn_ne_nil lineFeed writes.flatten
    rw [terminated,unterminated,List.getLastD_eq_getLast?,List.getLast?_eq_some_getLast some]
    exact (List.dropLast_append_getLast some).symm
  have rows : nonBlankLines writes.flatten = (writes.flatten.splitOn lineFeed).flatMap nonBlank := by
    unfold nonBlankLines nonBlank
    induction writes.flatten.splitOn lineFeed with
    | nil => rfl
    | cons line lines ih => rw [List.flatMap_cons,← ih,List.map_cons,← List.filter_append,List.singleton_append]
  have ends : nonBlankPieces writes.flatten = (writes.flatten.splitOn lineFeed).flatMap pieces := by
    rw [nonBlankPieces,List.filter_flatMap]
    rfl
  refine ⟨?_,?_,?_⟩
  · rw [logTerminated]
    have once := logTerminated stream also [writes.flatten]
    rw [List.flatten_singleton] at once
    exact once.symm
  · rw [logTerminated,(List.map_injective_iff.mpr pair).eq_iff,rows,parts]
    exact linesIff _ _
  · rw [logTerminated,(List.map_injective_iff.mpr pair).eq_iff,ends,parts]
    exact piecesIff _ _

/- A message of git with no line feed at its end is not in the log. -/
theorem lastLineLost : ((newLineWriter "stderr" (some [])).Write [0x61,0x0A,0x62]).log ≠ (nonBlankLines [0x61,0x0A,0x62]).map (·,"stderr") := by
  decide

end ContainerWS.CodeServer
