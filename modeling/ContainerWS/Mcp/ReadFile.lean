import ContainerWS.GoClean

/-! ReadFileTool of modules/mcp/tools/filesystem/files.go: the lines of a file that a request gets, with the
numbers of 64 bits it counts them with. -/
namespace ContainerWS.Mcp
open GoPath GoStrings

def maxReadBytes : Nat := 1024*1024

structure ReadFileInput where
  path : String
  offset : Int64
  limit : Int64
  deriving DecidableEq

structure ReadFileOutput where
  path : String
  content : List UInt8
  size : Int64
  truncated : Bool
  linesFrom : Int64
  linesTo : Int64
  deriving DecidableEq

structure FileInfo where
  isDir : Bool
  size : Int64
  deriving DecidableEq

def lineEnd : UInt8 := 10

/- What was read of a file: a slice of its lines has a length. -/
structure Data where
  bytes : List UInt8
  counted : (bytes.splitOn lineEnd).length < 9223372036854775808

def Data.lines (d : Data) : List (List UInt8) := d.bytes.splitOn lineEnd

def Data.count (d : Data) : Int64 := Int64.ofNat d.lines.length

/- Start and end of the lines. -/
def window (count offset limit : Int64) : Int64 × Int64 :=
  let start := if 0 < offset then offset-1 else 0
  let start := if start < 0 then 0 else start
  let start := if count < start then count else start
  let stop := if 0 < limit ∧ start+limit < count then start+limit else count
  (start,stop)

/- A slice expression, which panics out of range. -/
def slice {α : Type} (l : List α) (range : Int64 × Int64) : Option (List α) :=
  if 0 ≤ range.1.toInt ∧ range.1.toInt ≤ range.2.toInt ∧ range.2.toInt ≤ l.length then
    some ((l.take range.2.toInt.toNat).drop range.1.toInt.toNat)
  else none

def joinLines (lines : List (List UInt8)) : List UInt8 := [lineEnd].intercalate lines

inductive Answer where
  | failed (message : String)
  | panicked
  | read (out : ReadFileOutput)

/- From the content on. -/
def cutOff (out : ReadFileOutput) (content : List UInt8) : ReadFileOutput :=
  if maxReadBytes < content.length then
    {out with
      content := content.take maxReadBytes ++ ("\n...[truncated to " ++ maxReadBytes.repr ++ " bytes]").toUTF8.toList,
      truncated := true}
  else {out with content := content}

def resolvePath (wd path : String) : Except String String :=
  if trimSpace path = "" then .error "path is required"
  else if hasPrefix (trimSpace path) "/" then .ok (cleanText (trimSpace path))
  else .ok (cleanText (wd ++ "/" ++ trimSpace path))

def ReadFileTool (wd : String) (stat : String → Except String FileInfo) (readFile : String → Except String Data) (input : ReadFileInput) : Answer :=
  match resolvePath wd input.path with
  | .error text => .failed text
  | .ok path =>
    match stat path with
    | .error text => .failed text
    | .ok info =>
      if info.isDir then .failed ("path is a directory: " ++ path)
      else
        match readFile path with
        | .error text => .failed text
        | .ok data =>
          let out : ReadFileOutput := ⟨path,[],info.size,false,0,0⟩
          if 0 < input.offset ∨ 0 < input.limit then
            let range := window data.count input.offset input.limit
            match slice data.lines range with
            | none => .panicked
            | some lines => .read (cutOff {out with linesFrom := range.1+1, linesTo := range.2} (joinLines lines))
          else .read (cutOff out data.bytes)

/- The window is in the lines. -/
def InRange (d : Data) (offset limit : Int64) : Prop :=
  let range := window d.count offset limit
  0 ≤ range.1.toInt ∧ range.1.toInt ≤ range.2.toInt ∧ range.2.toInt ≤ d.lines.length

/- The line from which it reads, as far as there are lines. -/
def Data.start (d : Data) (offset : Int64) : Nat := min (offset.toInt-1).toNat d.lines.length

/- The end that is asked for is a number of 64 bits. -/
def EndFits (d : Data) (offset limit : Int64) : Prop := 0 < limit.toInt → d.start offset+limit.toInt < 9223372036854775808

/- The offsets 1, 1+Limit, 1+2*Limit, ... that can be sent. -/
def Sendable (limit : Int64) (k : Nat) : Prop := 1+k*limit.toInt < 9223372036854775808

def offsetOf (limit : Int64) (k : Nat) : Int64 := Int64.ofInt (1+k*limit.toInt)

def windowAt (d : Data) (limit : Int64) (k : Nat) : Option (List (List UInt8)) := slice d.lines (window d.count (offsetOf limit k) limit)

/- As soon as the windows reach the end, they are the lines of the file. -/
def Concatenates (d : Data) (limit : Int64) : Prop :=
  ∀ m : Nat, (∀ k < m, Sendable limit k) → d.lines.length ≤ m*limit.toInt →
    ((List.range m).mapM (windowAt d limit)).map List.flatten = some d.lines

section
variable {d : Data} {offset limit : Int64}

theorem linesJoined (d : Data) : joinLines d.lines = d.bytes := List.intercalate_splitOn lineEnd

theorem countInt (d : Data) : d.count.toInt = d.lines.length := by
  have fits : d.lines.length < 9223372036854775808 := d.counted
  rw [Data.count,Int64.toInt_ofNat',Int.bmod_eq_of_le]
  · change (-9223372036854775808 : Int) ≤ _
    omega
  · change _ < (9223372036854775808 : Int)
    omega

/- A sum that is no number of 64 bits comes out below zero. -/
theorem sumInt (a b : Int64) (low : 0 ≤ a.toInt) (low' : 0 ≤ b.toInt) : (a+b).toInt =
    if a.toInt+b.toInt < 9223372036854775808 then a.toInt+b.toInt else a.toInt+b.toInt-18446744073709551616 := by
  have high : a.toInt < 9223372036854775808 := a.toInt_lt
  have high' : b.toInt < 9223372036854775808 := b.toInt_lt
  rw [Int64.toInt_add]
  change (a.toInt+b.toInt).bmod 18446744073709551616 = _
  rw [Int.bmod_def]
  split <;> split <;> omega

theorem startInt (d : Data) (offset limit : Int64) : (window d.count offset limit).1.toInt = d.start offset := by
  have count := countInt d
  have low : -9223372036854775808 ≤ offset.toInt := offset.le_toInt
  have zero : (0 : Int64).toInt = 0 := rfl
  have before : 0 < offset → (offset-1).toInt = offset.toInt-1 := by
    intro positive
    have filled := Int64.lt_iff_toInt_lt.mp positive
    have high : offset.toInt < 9223372036854775808 := offset.toInt_lt
    rw [Int64.toInt_sub]
    change (offset.toInt-1).bmod 18446744073709551616 = _
    rw [Int.bmod_def]
    split <;> omega
  unfold window Data.start
  dsimp only
  simp only [Int64.lt_iff_toInt_lt] at before ⊢
  split <;> split <;> split <;> simp only [zero] at * <;> omega

theorem startLines (d : Data) (offset : Int64) : d.start offset ≤ d.lines.length := Nat.min_le_right _ _

/- The end that is asked for, as the sum comes out. -/
theorem endInt (filled : 0 < limit.toInt) : ((window d.count offset limit).1+limit).toInt =
    if d.start offset+limit.toInt < 9223372036854775808 then d.start offset+limit.toInt
    else d.start offset+limit.toInt-18446744073709551616 := by
  rw [sumInt _ _ (by rw [startInt]; omega) (by omega),startInt]

theorem stopInt (d : Data) (offset limit : Int64) : (window d.count offset limit).2.toInt =
    if 0 < limit.toInt ∧ ((window d.count offset limit).1+limit).toInt < d.lines.length
    then ((window d.count offset limit).1+limit).toInt else d.lines.length := by
  have stop : (window d.count offset limit).2 = if 0 < limit ∧ (window d.count offset limit).1+limit < d.count
      then (window d.count offset limit).1+limit else d.count := rfl
  have zero : (0 : Int64).toInt = 0 := rfl
  rw [stop]
  simp only [Int64.lt_iff_toInt_lt,countInt,zero]
  split
  · rfl
  · exact countInt d

/- A sum that fits ends the window at its line or at the last one. -/
theorem stopFits (fits : EndFits d offset limit) (filled : 0 < limit.toInt) :
    (window d.count offset limit).2.toInt = min (d.start offset+limit.toInt) d.lines.length := by
  rw [stopInt,endInt filled,if_pos (fits filled)]
  split <;> omega

/- A sum that does not fit ends it below zero. -/
theorem stopWraps (wraps : ¬EndFits d offset limit) : (window d.count offset limit).2.toInt < 0 := by
  obtain ⟨filled,more⟩ := Classical.not_imp.mp wraps
  have high : limit.toInt < 9223372036854775808 := limit.toInt_lt
  have start := startLines d offset
  have count : d.lines.length < 9223372036854775808 := d.counted
  rw [stopInt,endInt filled,if_neg more,if_pos]
  · omega
  · omega

theorem inRangeIff (d : Data) (offset limit : Int64) : InRange d offset limit ↔ EndFits d offset limit := by
  have start := startLines d offset
  constructor
  · rintro ⟨low,less,_⟩
    by_contra wraps
    have negative := stopWraps wraps
    omega
  · intro fits
    unfold InRange
    dsimp only
    rw [startInt]
    by_cases filled : 0 < limit.toInt
    · rw [stopFits fits filled]
      omega
    · rw [stopInt,if_neg (fun both => filled both.1)]
      omega

theorem sliceIff {α : Type} (l : List α) (range : Int64 × Int64) :
    (slice l range).isSome ↔ 0 ≤ range.1.toInt ∧ range.1.toInt ≤ range.2.toInt ∧ range.2.toInt ≤ l.length := by
  unfold slice
  split <;> simp_all

theorem offsetStart {k : Nat} (filled : 0 < limit.toInt) (sent : Sendable limit k) :
    (d.start (offsetOf limit k) : Int) = min (k*limit.toInt) d.lines.length := by
  have low : (0 : Int) ≤ k*limit.toInt := Int.mul_nonneg (Int.natCast_nonneg k) (Int.le_of_lt filled)
  unfold Sendable at sent
  unfold Data.start offsetOf
  rw [Int64.toInt_ofInt_of_le (by omega) (by omega)]
  omega

/- A window that is in the lines has Limit of them from its offset on. -/
theorem windowRead {k : Nat} (filled : 0 < limit.toInt) (sent : Sendable limit k) (fits : EndFits d (offsetOf limit k) limit) :
    windowAt d limit k = some ((d.lines.drop (k*limit.toInt.toNat)).take limit.toInt.toNat) := by
  have range := (inRangeIff d _ limit).mpr fits
  have start := @offsetStart d limit k filled sent
  have product : (k*limit.toInt.toNat : Nat) = k*limit.toInt := by
    rw [Int.natCast_mul,Int.toNat_of_nonneg (Int.le_of_lt filled)]
  unfold InRange at range
  unfold windowAt slice
  dsimp only at range
  rw [if_pos range,stopFits fits filled,startInt]
  generalize d.start (offsetOf limit k) = first at start ⊢
  generalize k*limit.toInt.toNat = before at product ⊢
  refine congrArg some ?_
  rw [List.drop_take]
  by_cases inside : before ≤ d.lines.length
  · have same : first = before := by omega
    rw [same,Int.toNat_natCast,List.take_eq_take_iff,List.length_drop]
    omega
  · rw [List.drop_eq_nil_of_le (by omega),List.drop_eq_nil_of_le (by omega : d.lines.length ≤ before),List.take_nil,List.take_nil]

/- Pieces of one length, one behind the other. -/
theorem piecesFlat {α : Type} (l : List α) (n m : Nat) :
    ((List.range m).map fun k => (l.drop (k*n)).take n).flatten = l.take (m*n) := by
  induction m with
  | zero => simp
  | succ m ih =>
    rw [List.range_succ,List.map_append,List.flatten_append,ih,Nat.succ_mul,List.take_add]
    simp

theorem mapMRead {α β : Type} {f : α → Option β} {g : α → β} {l : List α} (reads : ∀ a ∈ l, f a = some (g a)) :
    l.mapM f = some (l.map g) := by
  induction l with
  | nil => rfl
  | cons a l ih =>
    rw [List.mapM_cons,reads a (by simp),ih fun b mem => reads b (by simp [mem])]
    rfl

theorem mapMEach {α β : Type} {f : α → Option β} {l : List α} (read : (l.mapM f).isSome) {a : α} (mem : a ∈ l) : (f a).isSome := by
  induction l with
  | nil => cases mem
  | cons b l ih =>
    rw [List.mapM_cons] at read
    cases here : f b with
    | none => simp [here] at read
    | some x =>
      cases rest : l.mapM f with
      | none => simp [here,rest] at read
      | some xs =>
        rcases List.mem_cons.mp mem with rfl | later
        · rw [here]
          rfl
        · exact ih (by rw [rest]; rfl) later

/- Whole windows up to the end of the lines are few enough for their offsets to be sent. -/
theorem reachesEnd (d : Data) (filled : 0 < limit.toInt) :
    ∃ m : Nat, (∀ k < m, Sendable limit k) ∧ d.lines.length ≤ m*limit.toInt := by
  obtain ⟨n,size⟩ : ∃ n : Nat, limit.toInt = n := ⟨limit.toInt.toNat,by omega⟩
  have count : d.lines.length < 9223372036854775808 := d.counted
  have positive : 0 < n := by omega
  refine ⟨(d.lines.length-1)/n+1,?_,?_⟩
  · intro k below
    have less := Nat.mul_le_of_le_div _ _ _ (Nat.le_of_lt_succ below)
    unfold Sendable
    rw [size,← Int.natCast_mul]
    omega
  · have more := Nat.lt_mul_div_succ (d.lines.length-1) positive
    rw [Nat.mul_comm] at more
    rw [size,← Int.natCast_mul]
    omega

theorem concatenatesIff (d : Data) (filled : 0 < limit.toInt) :
    Concatenates d limit ↔ ∀ k, Sendable limit k → EndFits d (offsetOf limit k) limit := by
  constructor
  · intro whole k sent
    obtain ⟨m,all,ends⟩ := reachesEnd d filled
    -- as many windows as reach both the end and the k-th offset
    have read := whole (max (k+1) m) ?_ ?_
    · have each : (windowAt d limit k).isSome := by
        refine mapMEach (l := List.range (max (k+1) m)) ?_ (List.mem_range.mpr (by omega))
        obtain ⟨ws,same,_⟩ := Option.map_eq_some_iff.mp read
        rw [same]
        rfl
      exact (inRangeIff d _ limit).mp ((sliceIff _ _).mp each)
    · intro j below
      by_cases early : j ≤ k
      · have less : (j : Int)*limit.toInt ≤ k*limit.toInt := Int.mul_le_mul_of_nonneg_right (by exact_mod_cast early) (Int.le_of_lt filled)
        unfold Sendable at sent ⊢
        omega
      · exact all j (by omega)
    · have less : (m : Int)*limit.toInt ≤ (max (k+1) m : Nat)*limit.toInt :=
        Int.mul_le_mul_of_nonneg_right (by exact_mod_cast le_max_right _ _) (Int.le_of_lt filled)
      omega
  · intro fits m sent ends
    have each : ∀ k ∈ List.range m, windowAt d limit k = some ((d.lines.drop (k*limit.toInt.toNat)).take limit.toInt.toNat) := by
      intro k mem
      have here := sent k (List.mem_range.mp mem)
      exact windowRead filled here (fits k here)
    rw [mapMRead each,Option.map_some,piecesFlat,List.take_of_length_le]
    have product : (m*limit.toInt.toNat : Nat) = m*limit.toInt := by
      rw [Int.natCast_mul,Int.toNat_of_nonneg (Int.le_of_lt filled)]
    omega

end

/- A request panics only where the end that it asks for does not fit. -/
theorem readPanics (wd : String) (stat : String → Except String FileInfo) (readFile : String → Except String Data) (input : ReadFileInput) :
    ReadFileTool wd stat readFile input = .panicked ↔ ∃ path info d, resolvePath wd input.path = .ok path ∧ stat path = .ok info ∧
      info.isDir = false ∧ readFile path = .ok d ∧ ¬EndFits d input.offset input.limit := by
  have asked (d : Data) (wraps : ¬EndFits d input.offset input.limit) : 0 < input.offset ∨ 0 < input.limit :=
    .inr (Int64.lt_iff_toInt_lt.mpr (Classical.not_imp.mp wraps).1)
  have ends (d : Data) : (slice d.lines (window d.count input.offset input.limit)).isSome ↔ EndFits d input.offset input.limit :=
    (sliceIff _ _).trans (inRangeIff d _ _)
  constructor
  · intro panics
    unfold ReadFileTool at panics
    cases at' : resolvePath wd input.path with
    | error => simp [at'] at panics
    | ok path =>
      cases here : stat path with
      | error => simp [at',here] at panics
      | ok info =>
        simp only [at',here] at panics
        split at panics
        · cases panics
        · rename_i file
          cases read : readFile path with
          | error => simp [read] at panics
          | ok d =>
            refine ⟨path,info,d,rfl,here,Bool.not_eq_true _ ▸ file,read,fun fits => ?_⟩
            obtain ⟨lines,part⟩ := Option.isSome_iff_exists.mp ((ends d).mpr fits)
            simp only [read,part] at panics
            split at panics <;> cases panics
  · rintro ⟨path,info,d,at',here,file,read,wraps⟩
    have part : slice d.lines (window d.count input.offset input.limit) = none :=
      Option.not_isSome_iff_eq_none.mp (fun some => wraps ((ends d).mp some))
    simp [ReadFileTool,at',here,file,read,part,asked d wraps]

/- The window of every request is in the lines if and only if its end is a number of 64 bits, and the windows of a
Limit are the file if and only if all their ends are. -/
theorem windowsIff : ∀ (d : Data) (offset limit : Int64), (InRange d offset limit ↔ EndFits d offset limit) ∧
    (0 < limit → (Concatenates d limit ↔ ∀ k, Sendable limit k → EndFits d (offsetOf limit k) limit)) := by
  intro d offset limit
  exact ⟨inRangeIff d offset limit,fun filled => concatenatesIff d (Int64.lt_iff_toInt_lt.mp filled)⟩

/- Three lines. -/
def threeLines : Data where
  bytes := [97,10,98,10,99]
  counted := by decide

/- Two of them and as many more as a number of 64 bits says. -/
def mostLines : ReadFileInput := ⟨"/three",2,9223372036854775807⟩

theorem windowWraps : window threeLines.count mostLines.offset mostLines.limit = (1,-9223372036854775808) ∧
    ¬InRange threeLines mostLines.offset mostLines.limit ∧
    ReadFileTool "/" (fun _ => .ok ⟨false,5⟩) (fun _ => .ok threeLines) mostLines = .panicked := by
  have wraps : ¬EndFits threeLines mostLines.offset mostLines.limit := by
    unfold EndFits
    decide
  refine ⟨by decide,fun range => wraps ((inRangeIff _ _ _).mp range),?_⟩
  exact (readPanics _ _ _ _).mpr ⟨"/three",⟨false,5⟩,threeLines,by decide,rfl,rfl,rfl,wraps⟩

end ContainerWS.Mcp
