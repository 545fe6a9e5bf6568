import ContainerWS.Lagging
import ContainerWS.TextRows

/-! The log of a container, LogsAPI of modules/docker/containers/handlers.go: lines are scanned in the stream of
frames that the daemon sends for a container without a terminal, and what looks like the header of a frame is cut off them. -/
namespace ContainerWS.Docker.Logs

abbrev Bytes := List UInt8

def lineFeed : UInt8 := 10

def carriageReturn : UInt8 := 13

/- The options of the daemon's call. -/
structure LogsOptions where
  showStdout : Bool
  showStderr : Bool
  timestamps : Bool
  tail : String
  deriving DecidableEq

/- The buffer that `scanner.Buffer` sets at most. -/
def maxTokenSize : Nat := 1024*1024

/- What stands before the line feeds, and behind the last one. -/
def rawLines (data : Bytes) : List Bytes :=
  let parts := data.splitOn lineFeed
  if parts.getLast? = some [] then parts.dropLast else parts

/- A line and its line feed are in the buffer at once. -/
def fits (raw : Bytes) : Bool := raw.length+1 ≤ maxTokenSize

/- Without one carriage return at its end. -/
def dropCR (raw : Bytes) : Bytes := if raw.getLast? = some carriageReturn then raw.dropLast else raw

/- What begins like a header of stdout or stderr. -/
def marked (line : Bytes) : Bool := 8 < line.length && (line.head? = some 1 || line.head? = some 2)

def written (raw : Bytes) : Bytes := if marked (dropCR raw) then (dropCR raw).drop 8 else dropCR raw

/- Each line with a line feed. -/
def ended (lines : List Bytes) : Bytes := lines.flatMap (· ++ [lineFeed])

/- The loop over `scanner.Scan`, which stops at a line that does not fit. -/
def scanned (data : Bytes) : Bytes := ended (Lagging.told fits written (rawLines data))

def LogsAPI (containerLogs : LogsOptions → Except String Bytes) (tail : Option String) : Except String Bytes :=
  (containerLogs ⟨true,true,true,tail.getD "200"⟩).map scanned

/- A frame of the stream: one of the two streams, and whole lines that are shorter than a mebibyte. -/
structure Frame where
  stream : UInt8
  payload : Bytes
  known : stream = 1 ∨ stream = 2
  closed : payload.getLast? = some lineFeed
  short : payload.length < 1024*1024

/- The length, from the highest byte down. -/
def lengthBytes (n : Nat) : Bytes := [UInt8.ofNat (n / 16777216),UInt8.ofNat (n / 65536),UInt8.ofNat (n / 256),UInt8.ofNat n]

def Frame.header (f : Frame) : Bytes := f.stream :: 0 :: 0 :: 0 :: lengthBytes f.payload.length

def stream (frames : List Frame) : Bytes := frames.flatMap fun f => f.header ++ f.payload

def Frame.lines (f : Frame) : List Bytes := rawLines f.payload

/- The lines of the payloads. -/
def payloadLines (frames : List Frame) : Bytes := ended ((frames.flatMap Frame.lines).map dropCR)

/- A frame whose lines are found: no byte of its length is a line feed, its first line is not empty and fits with the
header in front, and no later line begins like a header. -/
structure Frame.Found (f : Frame) : Prop where
  whole : lineFeed ∉ lengthBytes f.payload.length
  first : ∀ l, f.lines.head? = some l → dropCR l ≠ [] ∧ 8+l.length+1 ≤ maxTokenSize
  later : ∀ l ∈ f.lines.tail, marked (dropCR l) = false

section
variable {f : Frame} {lines : List Bytes} {l : Bytes}

theorem endedAppend (front rest : List Bytes) : ended (front ++ rest) = ended front ++ ended rest := List.flatMap_append

/- Bytes that are cut at each line feed, with the line feeds back. -/
theorem endedSplit (bs : Bytes) : ended (bs.splitOn lineFeed) = bs ++ [lineFeed] := by
  have joined (parts : List Bytes) (some : parts ≠ []) : ended parts = [lineFeed].intercalate parts ++ [lineFeed] := by
    induction parts with
    | nil => exact absurd rfl some
    | cons p parts ih =>
      cases parts with
      | nil => simp [ended]
      | cons q rest =>
        have shape : ended (p :: q :: rest) = p ++ lineFeed :: ended (q :: rest) := by simp [ended]
        rw [shape,ih (List.cons_ne_nil _ _),List.intercalate_cons_cons]
        simp
  rw [joined _ (List.splitOn_ne_nil _ _),List.intercalate_splitOn]

/- Lines without line feeds are found again behind each other. -/
theorem linesBack (clean : ∀ l ∈ lines, lineFeed ∉ l) : rawLines (ended lines) = lines := by
  have parts : (ended lines).splitOn lineFeed = lines ++ [[]] := by
    induction lines with
    | nil => rfl
    | cons l lines ih =>
      have shape : ended (l :: lines) = l ++ lineFeed :: ended lines := by simp [ended]
      rw [shape,List.splitOn_append_cons_self_of_not_mem (clean l (by simp)),ih fun m mem => clean m (by simp [mem])]
      rfl
  unfold rawLines
  rw [parts]
  simp

theorem endedInj {more : List Bytes} (clean : ∀ l ∈ lines, lineFeed ∉ l) (clean' : ∀ l ∈ more, lineFeed ∉ l) (same : ended lines = ended more) :
    lines = more := by
  rw [← linesBack clean,same,linesBack clean']

/- Bytes that end with a line feed are their lines. -/
theorem linesClosed {data : Bytes} (closed : data.getLast? = some lineFeed) :
    ended (rawLines data) = data ∧ rawLines data ≠ [] ∧ ∀ l ∈ rawLines data, lineFeed ∉ l := by
  obtain ⟨front,rfl⟩ := List.getLast?_eq_some_iff.mp closed
  have parts : (front ++ [lineFeed]).splitOn lineFeed = front.splitOn lineFeed ++ [[]] := List.splitOn_append_cons_self front []
  have lines : rawLines (front ++ [lineFeed]) = front.splitOn lineFeed := by
    unfold rawLines
    rw [parts]
    simp
  rw [lines]
  exact ⟨endedSplit front,List.splitOn_ne_nil _ _,fun l mem => (TextRows.splitOnMem mem).1⟩

theorem dropCRPrefix (raw : Bytes) : dropCR raw <+: raw := by
  unfold dropCR
  split
  · exact List.dropLast_prefix raw
  · exact List.prefix_rfl

theorem dropCRLength (raw : Bytes) : raw.length ≤ (dropCR raw).length+1 := by
  unfold dropCR
  split
  · rw [List.length_dropLast]
    omega
  · omega

theorem writtenMem {raw : Bytes} {b : UInt8} (mem : b ∈ written raw) : b ∈ raw := by
  unfold written at mem
  split at mem
  · exact (dropCRPrefix raw).subset (List.mem_of_mem_drop mem)
  · exact (dropCRPrefix raw).subset mem

theorem writtenLength (raw : Bytes) : (written raw).length ≤ (dropCR raw).length := by
  unfold written
  split
  · rw [List.length_drop]
    omega
  · exact Nat.le_refl _

theorem endedLength {r : Bytes} (mem : r ∈ lines) : r.length+1 ≤ (ended lines).length := by
  obtain ⟨front,rest,rfl⟩ := List.append_of_mem mem
  have here : ended (front ++ r :: rest) = ended front ++ (r ++ lineFeed :: ended rest) := by
    rw [endedAppend]
    simp [ended]
  rw [here,List.length_append,List.length_append,List.length_cons]
  omega

theorem pieceLength {bs r : Bytes} (mem : r ∈ bs.splitOn lineFeed) : r.length ≤ bs.length := by
  have whole := endedLength mem
  rw [endedSplit,List.length_append,List.length_singleton] at whole
  omega

/- The frame as its lines: the first one behind the header, and what each of them should give. -/
def Frame.events (f : Frame) : List (List Bytes × Bytes) :=
  match f.lines with
  | [] => []
  | l :: rest => ((f.header ++ l).splitOn lineFeed,dropCR l) :: rest.map fun l => ([l],dropCR l)

theorem eventsTold (f : Frame) : f.events.map Prod.snd = f.lines.map dropCR := by
  unfold Frame.events
  cases f.lines with
  | nil => rfl
  | cons l rest =>
    rw [List.map_cons,List.map_cons,List.map_map]
    rfl

theorem eventsItems (f : Frame) : ended (Lagging.items f.events) = f.header ++ f.payload ∧ ∀ r ∈ Lagging.items f.events, lineFeed ∉ r := by
  obtain ⟨whole,some,clean⟩ := linesClosed f.closed
  obtain ⟨l,rest,shape⟩ := List.exists_cons_of_ne_nil some
  have lines : f.lines = l :: rest := shape
  have singles (ls : List Bytes) : Lagging.items (ls.map fun l => ([l],dropCR l)) = ls := by
    induction ls with
    | nil => rfl
    | cons l ls ih => exact congrArg (l :: ·) ih
  have items : Lagging.items f.events = (f.header ++ l).splitOn lineFeed ++ rest := by
    unfold Frame.events
    rw [lines]
    exact congrArg (_ ++ ·) (singles rest)
  rw [items]
  constructor
  · have first : ended (l :: rest) = l ++ lineFeed :: ended rest := by simp [ended]
    rw [shape,first] at whole
    rw [endedAppend,endedSplit,← whole]
    simp
  · intro r mem
    rcases List.mem_append.mp mem with piece | later
    · exact (TextRows.splitOnMem piece).1
    · exact clean r (by rw [shape]; simp [later])

/- The raw lines of the stream. -/
theorem streamLines (frames : List Frame) : rawLines (stream frames) = Lagging.items (frames.flatMap Frame.events) := by
  have flat : Lagging.items (frames.flatMap Frame.events) = frames.flatMap fun f => Lagging.items f.events := List.flatMap_assoc
  have whole : ended (frames.flatMap fun f => Lagging.items f.events) = stream frames := by
    induction frames with
    | nil => rfl
    | cons f frames ih =>
      rw [List.flatMap_cons,endedAppend,ih (List.flatMap_assoc),(eventsItems f).1]
      rfl
  rw [flat,← whole]
  refine linesBack fun r mem => ?_
  obtain ⟨f,_,inside⟩ := List.mem_flatMap.mp mem
  exact (eventsItems f).2 r inside

/- What a header may bring too much stays below this. -/
def Small (line : Bytes) : Prop := line.length ≤ 1048340

theorem lengthBound {n : Nat} (short : n < 1024*1024) (broken : lineFeed ∈ lengthBytes n) : n ≤ 1048330 := by
  simp only [lengthBytes,List.mem_cons,List.not_mem_nil,or_false,← UInt8.toNat_inj,UInt8.toNat_ofNat'] at broken
  have ten : lineFeed.toNat = 10 := rfl
  rw [ten] at broken
  omega

theorem headerLength (f : Frame) : f.header.length = 8 := rfl

theorem headerMem (f : Frame) : lineFeed ∈ f.header ↔ lineFeed ∈ lengthBytes f.payload.length := by
  have apart : lineFeed ≠ f.stream := by
    rcases f.known with one | two
    · rw [one]
      decide
    · rw [two]
      decide
  have zero : lineFeed ≠ 0 := by decide
  simp [Frame.header,apart,zero]

theorem lineShort (mem : l ∈ f.lines) : l.length+1 ≤ f.payload.length := by
  have short := endedLength mem
  rwa [Frame.lines,(linesClosed f.closed).1] at short

theorem lineFree (mem : l ∈ f.lines) : lineFeed ∉ l := (linesClosed f.closed).2.2 l mem

/- A header with a line feed in it brings several raw lines, and short ones. -/
theorem brokenHeader (mem : l ∈ f.lines) (broken : lineFeed ∈ lengthBytes f.payload.length) :
    2 ≤ ((f.header ++ l).splitOn lineFeed).length ∧ Lagging.Passing fits written Small ((f.header ++ l).splitOn lineFeed) := by
  have inside : lineFeed ∈ f.header ++ l := List.mem_append_left l ((headerMem f).mpr broken)
  constructor
  · obtain ⟨front,rest,shape,free⟩ := List.eq_append_cons_of_mem inside
    have more := List.length_pos_of_ne_nil (List.splitOn_ne_nil lineFeed rest)
    rw [shape,List.splitOn_append_cons_self_of_not_mem free,List.length_cons]
    omega
  · intro r piece
    have short := lineShort mem
    have bound := lengthBound f.short broken
    have length := pieceLength piece
    have less := writtenLength r
    have cut := (dropCRPrefix r).length_le
    rw [List.length_append,headerLength] at length
    refine ⟨decide_eq_true ?_,?_⟩
    · unfold maxTokenSize
      omega
    · unfold Small
      omega

/- Any other header is in one raw line with the first line. -/
theorem wholeHeader (mem : l ∈ f.lines) (whole : lineFeed ∉ lengthBytes f.payload.length) :
    (f.header ++ l).splitOn lineFeed = [f.header ++ l] := by
  refine List.splitOn_eq_singleton fun inside => ?_
  rcases List.mem_append.mp inside with front | line
  · exact whole ((headerMem f).mp front)
  · exact lineFree mem line

theorem dropCRBehind (front : Bytes) {l : Bytes} (some : l ≠ []) : dropCR (front ++ l) = front ++ dropCR l := by
  unfold dropCR
  rw [List.getLast?_append_of_ne_nil _ some]
  split
  · exact List.dropLast_append_of_ne_nil some
  · rfl

/- The header is cut off a line that is not empty. -/
theorem writtenBehind (f : Frame) (filled : dropCR l ≠ []) : written (f.header ++ l) = dropCR l := by
  have some : l ≠ [] := by
    rintro rfl
    exact filled rfl
  have long := List.length_pos_of_ne_nil filled
  have mark : marked (f.header ++ dropCR l) = true := by
    have head : (f.header ++ dropCR l).head? = Option.some f.stream := rfl
    unfold marked
    rw [head,List.length_append,headerLength]
    rcases f.known with one | two
    · simp [one]
      omega
    · simp [two]
      omega
  rw [written,dropCRBehind _ some,if_pos mark]
  exact List.drop_left' (headerLength f)

/- Before an empty line the header is left. -/
theorem writtenEmpty (f : Frame) (empty : dropCR l = []) : (written (f.header ++ l)).length ≤ 8 ∧ written (f.header ++ l) ≠ [] := by
  have short := dropCRLength l
  have long := dropCRLength (f.header ++ l)
  rw [empty,List.length_nil] at short
  rw [List.length_append,headerLength] at long
  have most : (dropCR (f.header ++ l)).length ≤ 8 := by
    by_cases none : l = []
    · rw [none,List.append_nil]
      exact (dropCRPrefix f.header).length_le
    · rw [dropCRBehind _ none,empty,List.append_nil,headerLength]
  have bare : marked (dropCR (f.header ++ l)) = false := by
    unfold marked
    rw [decide_eq_false (by omega),Bool.false_and]
  have same : written (f.header ++ l) = dropCR (f.header ++ l) := by
    rw [written,bare]
    rfl
  rw [same]
  exact ⟨most,List.ne_nil_of_length_pos (by omega)⟩

theorem laterFits (mem : l ∈ f.lines) : fits l = true := by
  have short := lineShort mem
  have bound := f.short
  refine decide_eq_true ?_
  unfold maxTokenSize
  omega

theorem eventsPassing (f : Frame) : ∀ event ∈ f.events, Small event.2 → event.1 ≠ [] ∧ Lagging.Passing fits written Small event.1 := by
  intro event mem
  obtain ⟨l,rest,lines⟩ := List.exists_cons_of_ne_nil (linesClosed f.closed).2.1
  have lines : f.lines = l :: rest := lines
  unfold Frame.events at mem
  rw [lines] at mem
  rcases List.mem_cons.mp mem with rfl | later
  · intro small
    refine ⟨List.splitOn_ne_nil _ _,?_⟩
    have here : l ∈ f.lines := by simp [lines]
    by_cases broken : lineFeed ∈ lengthBytes f.payload.length
    · exact (brokenHeader here broken).2
    · intro r piece
      have cut := dropCRLength l
      rw [wholeHeader here broken,List.mem_singleton] at piece
      subst piece
      unfold Small at small
      dsimp only at small
      refine ⟨decide_eq_true ?_,?_⟩
      · rw [List.length_append,headerLength]
        unfold maxTokenSize
        omega
      · unfold Small
        by_cases empty : dropCR l = []
        · exact Nat.le_trans (writtenEmpty f empty).1 (by omega)
        · rw [writtenBehind f empty]
          exact small
  · obtain ⟨l',inside,rfl⟩ := List.mem_map.mp later
    intro small
    refine ⟨List.cons_ne_nil _ _,fun r only => ?_⟩
    rw [List.mem_singleton.mp only]
    have own : l' ∈ f.lines := by
      rw [lines]
      exact List.mem_cons_of_mem l inside
    exact ⟨laterFits own,Nat.le_trans (writtenLength l') small⟩

theorem eventsSeveral (f : Frame) : ∀ event ∈ f.events,
    (∃ a, event.1 = [a]) ∨ 2 ≤ event.1.length ∧ Lagging.Passing fits written Small event.1 := by
  intro event mem
  obtain ⟨l,rest,lines⟩ := List.exists_cons_of_ne_nil (linesClosed f.closed).2.1
  have lines : f.lines = l :: rest := lines
  unfold Frame.events at mem
  rw [lines] at mem
  rcases List.mem_cons.mp mem with rfl | later
  · have here : l ∈ f.lines := by simp [lines]
    by_cases broken : lineFeed ∈ lengthBytes f.payload.length
    · exact .inr (brokenHeader here broken)
    · exact .inl ⟨_,wholeHeader here broken⟩
  · obtain ⟨l',_,rfl⟩ := List.mem_map.mp later
    exact .inl ⟨l',rfl⟩

theorem firstExact (mem : l ∈ f.lines) : Lagging.Exact fits written ((f.header ++ l).splitOn lineFeed,dropCR l) ↔
    lineFeed ∉ lengthBytes f.payload.length ∧ dropCR l ≠ [] ∧ 8+l.length+1 ≤ maxTokenSize := by
  constructor
  · rintro ⟨a,single,fit,same⟩
    dsimp only at single same
    have whole : lineFeed ∉ lengthBytes f.payload.length := by
      intro broken
      have more := (brokenHeader mem broken).1
      rw [single] at more
      simp at more
    rw [wholeHeader mem whole] at single
    cases single
    refine ⟨whole,?_,?_⟩
    · intro empty
      exact (writtenEmpty f empty).2 (same.trans empty)
    · have length := of_decide_eq_true fit
      rwa [List.length_append,headerLength] at length
  · rintro ⟨whole,filled,short⟩
    refine ⟨f.header ++ l,wholeHeader mem whole,decide_eq_true ?_,writtenBehind f filled⟩
    rwa [List.length_append,headerLength]

theorem laterExact (mem : l ∈ f.lines) : Lagging.Exact fits written ([l],dropCR l) ↔ marked (dropCR l) = false := by
  constructor
  · rintro ⟨a,single,_,same⟩
    cases single
    dsimp only at same
    by_contra mark
    rw [Bool.not_eq_false] at mark
    rw [written,if_pos mark] at same
    have long : 8 < (dropCR l).length := by
      unfold marked at mark
      rw [Bool.and_eq_true,decide_eq_true_eq] at mark
      exact mark.1
    have count := congrArg List.length same
    rw [List.length_drop] at count
    omega
  · intro bare
    refine ⟨l,rfl,laterFits mem,?_⟩
    dsimp only
    rw [written,bare]
    rfl

theorem eventsExact (f : Frame) : (∀ event ∈ f.events, Lagging.Exact fits written event) ↔ f.Found := by
  obtain ⟨l,rest,lines⟩ := List.exists_cons_of_ne_nil (linesClosed f.closed).2.1
  have lines : f.lines = l :: rest := lines
  have here : l ∈ f.lines := by simp [lines]
  have behind : ∀ l' ∈ rest, l' ∈ f.lines := fun l' mem => by simp [lines,mem]
  have events : f.events = ((f.header ++ l).splitOn lineFeed,dropCR l) :: rest.map fun l => ([l],dropCR l) := by
    unfold Frame.events
    rw [lines]
  rw [events,List.forall_mem_cons,firstExact here,List.forall_mem_map]
  constructor
  · rintro ⟨⟨whole,filled,short⟩,later⟩
    refine ⟨whole,fun l' head => ?_,fun l' mem => ?_⟩
    · rw [lines] at head
      cases head
      exact ⟨filled,short⟩
    · rw [lines] at mem
      exact (laterExact (behind l' mem)).mp (later l' mem)
  · intro found
    obtain ⟨filled,short⟩ := found.first l (by rw [lines]; rfl)
    refine ⟨⟨found.whole,filled,short⟩,fun l' mem => (laterExact (behind l' mem)).mpr (found.later l' ?_)⟩
    rw [lines]
    exact mem

end

/- What the handler answers with is the lines of the payloads if and only if each frame's lines are found. -/
theorem logsIff : ∀ (frames : List Frame) (tail : Option String),
    LogsAPI (fun _ => .ok (stream frames)) tail = .ok (payloadLines frames) ↔ ∀ f ∈ frames, f.Found := by
  intro frames tail
  have events : ∀ event ∈ frames.flatMap Frame.events, ∃ f ∈ frames, event ∈ f.events := fun event mem => List.mem_flatMap.mp mem
  have expected : (frames.flatMap Frame.lines).map dropCR = (frames.flatMap Frame.events).map Prod.snd := by
    rw [List.map_flatMap,List.map_flatMap]
    exact List.flatMap_congr fun f _ => (eventsTold f).symm
  have free : ∀ b ∈ Lagging.told fits written (rawLines (stream frames)), lineFeed ∉ b := by
    intro b mem broken
    obtain ⟨r,inside,rfl⟩ := List.mem_map.mp mem
    rw [streamLines] at inside
    have raw := (List.takeWhile_sublist _).subset inside
    obtain ⟨event,there,piece⟩ := List.mem_flatMap.mp raw
    obtain ⟨f,_,own⟩ := events event there
    exact (eventsItems f).2 r (List.mem_flatMap.mpr ⟨event,own,piece⟩) (writtenMem broken)
  have clean : ∀ b ∈ (frames.flatMap Frame.lines).map dropCR, lineFeed ∉ b := by
    intro b mem broken
    obtain ⟨l,inside,rfl⟩ := List.mem_map.mp mem
    obtain ⟨f,_,own⟩ := List.mem_flatMap.mp inside
    exact lineFree own ((dropCRPrefix l).subset broken)
  have lines : LogsAPI (fun _ => .ok (stream frames)) tail = .ok (payloadLines frames) ↔
      Lagging.told fits written (Lagging.items (frames.flatMap Frame.events)) = (frames.flatMap Frame.events).map Prod.snd := by
    rw [← streamLines,← expected]
    constructor
    · exact fun same => endedInj free clean (Except.ok.inj same)
    · exact fun same => congrArg (fun ls => Except.ok (ended ls)) same
  rw [lines,@Lagging.toldIff _ _ fits written Small]
  · constructor
    · exact fun all f mem => (eventsExact f).mp fun event own => all event (List.mem_flatMap.mpr ⟨f,mem,own⟩)
    · intro all event mem
      obtain ⟨f,there,own⟩ := events event mem
      exact (eventsExact f).mpr (all f there) event own
  · intro event mem
    obtain ⟨f,_,own⟩ := events event mem
    exact eventsPassing f event own
  · intro event mem
    obtain ⟨f,_,own⟩ := events event mem
    exact eventsSeveral f event own

/- `2026-01-01T00:00:00.000000000Z `. -/
def timestamp : Bytes := "2026-01-01T00:00:00.000000000Z ".toList.map fun c => UInt8.ofNat c.toNat

/- A line with a timestamp whose length, 266, has a line feed for its last byte. -/
def stampedLine : Bytes := timestamp ++ List.replicate 234 0x61 ++ [lineFeed]

theorem stampedClosed : stampedLine.getLast? = some lineFeed ∧ stampedLine.length < 1024*1024 := by decide +kernel

def stamped : Frame where
  stream := 1
  payload := stampedLine
  known := .inl rfl
  closed := stampedClosed.1
  short := stampedClosed.2

/- The header is in the text as a line of its own. -/
theorem headerShown : LogsAPI (fun _ => .ok (stream [stamped])) none = .ok ([1,0,0,0,0,0,1,lineFeed] ++ stamped.payload) ∧
    payloadLines [stamped] = stamped.payload := by
  decide +kernel

end ContainerWS.Docker.Logs
