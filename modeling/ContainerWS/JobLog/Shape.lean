import ContainerWS.JobLog.Steps

/-! What the goroutines of a job may be doing, by the state of the job. Before
`finish` one script, or the two readers it waits for, append lines; afterwards
only the terminal events of that call are under way. -/
namespace ContainerWS.JobLog
open Install Interleaving GoStrings

/- Events sent before `finish`: the start of the run, or a line of the log. -/
inductive Announces (s : Shared) : StreamEvent → Prop where
  | start {j message} : Announces s (Job.startEvent j message)
  | line {j q line} (here : s.job.lines[q]? = some line) : Announces s (Job.logEvent j q line)

/- No line is taken back. -/
def Longer (s s' : Shared) : Prop :=
  ∀ (q : Nat) (line : JobLogLine), s.job.lines[q]? = some line → s'.job.lines[q]? = some line

def Aimed (s : Shared) (subs : List Nat) : Prop := ∀ i ∈ subs, i < s.clients.length

inductive Fits (s : Shared) : Goroutine → Prop where
  | script {ops} (running : s.job.final = none) (alone : s.readers = 0) (pending : Pending ops) :
      Fits s (.voice (.script ops))
  | spoken {ev subs ops} (running : s.job.final = none) (alone : s.readers = 0) (pending : Pending ops)
      (event : Announces s ev) (aimed : Aimed s subs) : Fits s (.sends ev subs (.script ops))
  | waiting {stage} (running : s.job.final = none) : Fits s (.voice (.script [.wait stage]))
  | reader {stream} (running : s.job.final = none) : Fits s (.voice (.reader stream))
  | tail {text} (running : s.job.final = none) : Fits s (.voice (.tail text))
  | heard {ev subs stream text} (running : s.job.final = none) (event : Announces s ev)
      (own : ev.stream = some stream) (aimed : Aimed s subs) : Fits s (.sends ev subs (afterRead stream text))
  | closing {f ops} (finished : s.job.final = some f) (closing : Closing s.job f ops) :
      Fits s (.voice (.script ops))
  | telling {f ev subs ops} (finished : s.job.final = some f) (closing : Closing s.job f ops)
      (mem : ev ∈ s.job.finishEvents f) (more : .close ∈ ops) : Fits s (.sends ev subs (.script ops))
  | closer (finished : s.job.final ≠ none) : Fits s .closer
  | idle {g} (idle : g.idle = true) : Fits s g

def Goroutine.voiceOf : Goroutine → Option Voice
  | .voice v => some v
  | .sends _ _ v => some v
  | _ => none

def scripting (t : Goroutine) : Nat :=
  match t.voiceOf with
  | some (.script _) => 1
  | _ => 0

def reading (t : Goroutine) : Nat :=
  match t.voiceOf with
  | some (.reader _) => 1
  | some (.tail _) => 1
  | _ => 0

def waits : List Op → Bool
  | .wait _ :: _ => true
  | _ => false

def waiting (t : Goroutine) : Nat :=
  match t.voiceOf with
  | some (.script ops) => (waits ops).toNat
  | _ => 0

/- Who may append a line of a stream: its reader, or the script when it does not
wait for the readers. -/
def speaks (stream : LogStream) (t : Goroutine) : Nat :=
  match t.voiceOf with
  | some (.script ops) => (!waits ops).toNat
  | some (.reader own) => if own = stream then 1 else 0
  | some (.tail _) => if .stderr = stream then 1 else 0
  | none => 0

/- The events a subscriber has got so far, written or not. One that attached
after `finish` does not look at its channel. -/
def Client.arrived (cl : Client) : List StreamEvent :=
  cl.written ++ (cl.todo ++ if cl.running then cl.channel else [])

/- The events that tell how a job ended; some of them stop a writer. -/
def StreamEvent.terminal (ev : StreamEvent) : Bool :=
  ev.type == .done || ev.type == .cancelled || ev.type == .error

/- A subscriber of a running job. -/
structure Attached (subscribers : List Nat) (i : Nat) (cl : Client) : Prop where
  running : cl.running = true
  closed : cl.closed = false
  calm : ∀ ev ∈ cl.arrived, ev.terminal = false
  listed : cl.position = .following → subscribers.count i = 1

def Opened (s : Shared) : Prop :=
  ∀ (i : Nat) (cl : Client), s.clients[i]? = some cl → Attached s.subscribers i cl

structure Shape (c : Process) : Prop where
  fits : ∀ t ∈ c.pool, Fits c.shared t
  scripts : load scripting c.pool ≤ 1
  reads : load reading c.pool = c.shared.readers
  speaks : ∀ stream, load (speaks stream) c.pool ≤ 1
  opened : c.shared.job.final = none → Opened c.shared
  inside : ∀ i ∈ c.shared.subscribers, i < c.shared.clients.length

/- Steps that leave the status alone. -/
structure Later (s s' : Shared) : Prop where
  job : s'.job = {s.job with lines := s'.job.lines}
  lines : Longer s s'
  alone : s.readers = 0 → s'.readers = 0
  clients : s.clients.length ≤ s'.clients.length

theorem announcesLater {s s' : Shared} {ev : StreamEvent} (longer : Longer s s')
    (event : Announces s ev) : Announces s' ev := by
  cases event with
  | start => exact .start
  | line here => exact .line (longer _ _ here)

theorem aimedLater {s s' : Shared} {subs : List Nat} (more : s.clients.length ≤ s'.clients.length)
    (aimed : Aimed s subs) : Aimed s' subs := fun i mem => Nat.lt_of_lt_of_le (aimed i mem) more

theorem closingLines {j : Job} {f : Final} {ops : List Op} (lines : List JobLogLine)
    (closing : Closing j f ops) : Closing {j with lines := lines} f ops := by
  cases closing with
  | tell reason => exact .tell reason
  | close => exact .close
  | finished => exact .finished

theorem fitsLater {s s' : Shared} {t : Goroutine} (later : Later s s') (fits : Fits s t) : Fits s' t := by
  have same : s'.job.final = s.job.final := by rw [later.job]
  cases fits with
  | script running alone pending => exact .script (same.trans running) (later.alone alone) pending
  | spoken running alone pending event aimed =>
    exact .spoken (same.trans running) (later.alone alone) pending (announcesLater later.lines event)
      (aimedLater later.clients aimed)
  | waiting running => exact .waiting (same.trans running)
  | reader running => exact .reader (same.trans running)
  | tail running => exact .tail (same.trans running)
  | heard running event own aimed =>
    exact .heard (same.trans running) (announcesLater later.lines event) own (aimedLater later.clients aimed)
  | closing finished closing =>
    refine .closing (same.trans finished) ?_
    rw [later.job]
    exact closingLines _ closing
  | telling finished closing mem more =>
    refine .telling (same.trans finished) ?_ ?_ more
    · rw [later.job]
      exact closingLines _ closing
    · rw [later.job]
      exact mem
  | closer finished => exact .closer (by rw [same]; exact finished)
  | idle idle => exact .idle idle

/- Starting the readers concerns the script alone. -/
theorem fitsSpawn {s : Shared} {t : Goroutine} {readers : Nat} {tail : List String} (other : scripting t = 0)
    (fits : Fits s t) : Fits {s with readers := readers,tail := tail} t := by
  cases fits with
  | script running alone pending => contradiction
  | spoken running alone pending event aimed => contradiction
  | waiting running => contradiction
  | reader running => exact .reader running
  | tail running => exact .tail running
  | heard running event own aimed =>
    have same : Longer s {s with readers := readers,tail := tail} := fun _ _ here => here
    exact .heard running (announcesLater same event) own aimed
  | closing finished closing => contradiction
  | telling finished closing mem more => contradiction
  | closer finished => exact .closer finished
  | idle idle => exact .idle idle

/- When `finish` runs, no other goroutine speaks for the job. -/
theorem fitsFinish {s : Shared} {t : Goroutine} (f : Final) (other : scripting t = 0) (silent : reading t = 0)
    (fits : Fits s t) : Fits {s with job := {s.job with final := some f}} t := by
  cases fits with
  | script running alone pending => contradiction
  | spoken running alone pending event aimed => contradiction
  | waiting running => contradiction
  | reader running => contradiction
  | tail running => contradiction
  | heard running event own aimed =>
    unfold afterRead at silent
    split at silent <;> contradiction
  | closing finished closing => contradiction
  | telling finished closing mem more => contradiction
  | closer finished => exact .closer (by simp)
  | idle idle => exact .idle idle

theorem announcesCalm {s : Shared} {ev : StreamEvent} (event : Announces s ev) : ev.terminal = false := by
  cases event with
  | start => rfl
  | line here =>
    unfold Job.logEvent
    split <;> rfl

theorem fitsOver {s : Shared} {ops : List Op} {f : Final} (fits : Fits s (.voice (.script ops)))
    (finished : s.job.final = some f) : Closing s.job f ops := by
  cases fits with
  | script running alone pending =>
    rw [finished] at running
    contradiction
  | waiting running =>
    rw [finished] at running
    contradiction
  | closing ended closing =>
    rw [finished] at ended
    cases Option.some.inj ended
    exact closing
  | idle idle => contradiction

theorem fitsReading {s : Shared} {stream : LogStream} (fits : Fits s (.voice (.reader stream))) :
    s.job.final = none := by
  cases fits with
  | reader running => exact running
  | idle idle => contradiction

theorem laterSame {s s' : Shared} (job : s'.job = s.job) (alone : s.readers = 0 → s'.readers = 0)
    (clients : s.clients.length ≤ s'.clients.length) : Later s s' := by
  refine ⟨?_,?_,alone,clients⟩
  · rw [job]
  · intro q line here
    rw [job]
    exact here

theorem laterLine (s : Shared) (line : JobLogLine) : Later s (s.withLine line) := by
  constructor
  · rfl
  · intro q old here
    have bound := (List.getElem?_eq_some_iff.mp here).1
    simp only [Shared.withLine]
    rw [List.getElem?_append_left bound]
    exact here
  · exact id
  · exact Nat.le_refl _

theorem announcesNew (s : Shared) (line : JobLogLine) :
    Announces (s.withLine line) (s.job.logEvent s.job.lines.length line) :=
  .line List.getElem?_concat_length

theorem copyAimed {s : Shared} {subs : List Nat} (inside : Aimed s s.subscribers)
    (copy : subs.Perm s.subscribers) : Aimed s subs := fun i mem => inside i (copy.mem_iff.mp mem)

/- Two goroutines of the pool are not both the script. -/
theorem besideScript {c : Process} {i j : Nat} {t u : Goroutine} (shape : Shape c) (different : j ≠ i)
    (found : c.pool[i]? = some t) (here : scripting t = 1) (other : c.pool[j]? = some u) :
    scripting u = 0 := by
  have both := loadTwo scripting different other found
  have most := shape.scripts
  omega

theorem silentReading {c : Process} (shape : Shape c) (alone : c.shared.readers = 0) :
    ∀ u ∈ c.pool, reading u = 0 := by
  have none : load reading c.pool = 0 := shape.reads.trans alone
  exact (loadZero reading c.pool).mp none

theorem fitsRest {s : Shared} {ev : StreamEvent} {i : Nat} {rest : List Nat} {after : Voice}
    (fits : Fits s (.sends ev (i :: rest) after)) : Fits s (.sends ev rest after) := by
  have fewer : Aimed s (i :: rest) → Aimed s rest := fun aimed k mem => aimed k (List.mem_cons_of_mem _ mem)
  cases fits with
  | spoken running alone pending event aimed => exact .spoken running alone pending event (fewer aimed)
  | heard running event own aimed => exact .heard running event own (fewer aimed)
  | telling finished closing mem more => exact .telling finished closing mem more
  | idle idle => contradiction

theorem fitsSent {s : Shared} {ev : StreamEvent} {after : Voice} (fits : Fits s (.sends ev [] after)) :
    Fits s (.voice after) := by
  cases fits with
  | spoken running alone pending event aimed => exact .script running alone pending
  | heard running event own aimed =>
    unfold afterRead
    split
    · exact .tail running
    · exact .reader running
  | telling finished closing mem more => exact .closing finished closing
  | idle idle => contradiction

theorem filesIdle {s : Shared} {t g : Goroutine} {row : Option Row} (files : Files s t row g) :
    g.idle = true := by
  cases files with
  | tick g next =>
    rcases next with rfl | rfl
    · rfl
    · rfl
  | store p answer row =>
    cases p with
    | main => rfl
    | ticker => rfl
  | _ => rfl

theorem fitsStep {s s' : Shared} {pool new : List Goroutine} {i : Nat} {t g : Goroutine}
    (shape : Shape ⟨s,pool⟩) (found : pool[i]? = some t) (step : Step s t s' g new) :
    ∀ u ∈ pool.set i g ++ new, Fits s' u := by
  have own : Fits s t := shape.fits t (List.mem_of_getElem? found)
  have kept : ∀ {s₁ : Shared}, Later s s₁ → Fits s₁ g → (∀ u ∈ new, Fits s₁ u) →
      ∀ u ∈ pool.set i g ++ new, Fits s₁ u := fun later self started =>
    everyStep (fun u mem => fitsLater later (shape.fits u mem)) self started
  have same : Later s s := laterSame rfl id (Nat.le_refl _)
  cases step with
  | publish copy =>
    apply kept same _ (by simp)
    cases own with
    | script running alone pending =>
      cases pending with
      | publish rest => exact .spoken running alone rest .start (copyAimed shape.inside copy)
      | last turns => contradiction
    | closing finished closing => cases closing
    | idle idle => contradiction
  | append copy =>
    apply kept (laterLine s _) _ (by simp)
    cases own with
    | script running alone pending =>
      cases pending with
      | append rest =>
        exact .spoken running alone rest (announcesNew s _) (copyAimed shape.inside copy)
      | last turns => contradiction
    | closing finished closing => cases closing
    | idle idle => contradiction
  | read copy =>
    apply kept (laterLine s _) _ (by simp)
    cases own with
    | reader running => exact .heard running (announcesNew s _) rfl (copyAimed shape.inside copy)
    | idle idle => contradiction
  | turn turns pending =>
    apply kept same _ (by simp)
    cases own with
    | script running alone _ => exact .script running alone pending
    | waiting running => contradiction
    | closing finished closing => cases closing <;> contradiction
    | idle idle => contradiction
  | awake ready pending =>
    apply kept same _ (by simp)
    cases own with
    | script running alone _ => exact .script running alone pending
    | waiting running => exact .script running ready pending
    | closing finished closing => cases closing
    | idle idle => contradiction
  | spawn =>
    have running : s.job.final = none := by
      cases own with
      | script running alone _ => exact running
      | closing finished closing => cases closing
      | idle idle => contradiction
    apply everyBeside
    · intro j u different other
      exact fitsSpawn (besideScript shape different found rfl other) (shape.fits u (List.mem_of_getElem? other))
    · exact .waiting running
    · intro u mem
      simp only [List.mem_cons,List.not_mem_nil,or_false] at mem
      rcases mem with rfl | rfl
      · exact .reader running
      · exact .reader running
  | eof =>
    refine kept (laterSame rfl ?_ (Nat.le_refl _)) (.idle rfl) (by simp)
    intro alone
    simp only
    omega
  | note =>
    refine kept (laterSame rfl id (Nat.le_refl _)) ?_ (by simp)
    cases own with
    | tail running => exact .reader running
    | idle idle => contradiction
  | @finish f subs ops copy =>
    have alone : s.readers = 0 := by
      cases own with
      | script running alone _ => exact alone
      | closing finished closing => cases closing
      | idle idle => contradiction
    apply everyBeside
    · intro j u different other
      have mem := List.mem_of_getElem? other
      exact fitsFinish f (besideScript shape different found rfl other) (silentReading shape alone u mem)
        (shape.fits u mem)
    · refine .telling rfl (closingAfter _ f subs) List.mem_cons_self ?_
      unfold afterFinish
      split <;> simp
    · simp
  | tell =>
    apply kept same _ (by simp)
    cases own with
    | script running alone pending =>
      cases pending with
      | last turns => contradiction
    | closing finished closing =>
      cases closing with
      | tell reason =>
        refine .telling finished .close ?_ List.mem_cons_self
        unfold Job.finishEvents
        rw [if_pos reason]
        simp
    | idle idle => contradiction
  | close =>
    cases own with
    | script running alone pending =>
      cases pending with
      | last turns => contradiction
    | closing finished closing =>
      cases closing with
      | close =>
        apply kept same (.closing finished .finished)
        intro u mem
        rw [List.mem_singleton.mp mem]
        exact .closer (by rw [finished]; simp)
    | idle idle => contradiction
  | returned => exact kept same (.idle rfl) (by simp)
  | accept there opened room =>
    refine kept (laterSame rfl id (by simp)) ?_ (by simp)
    refine fitsLater ?_ (fitsRest own)
    exact laterSame rfl id (by simp)
  | drop there opened full => exact kept same (fitsRest own) (by simp)
  | sent => exact kept same (fitsSent own) (by simp)
  | closeAll =>
    refine kept (laterSame rfl id ?_) (.idle rfl) (by simp)
    simp [closeAll]
  | file files => exact kept (laterSame rfl id (Nat.le_refl _)) (.idle (filesIdle files)) (by simp)
  | attach => exact kept (laterSame rfl id (by simp)) (.idle rfl) (by simp)
  | write there moved => exact kept (laterSame rfl id (by simp)) (.idle rfl) (by simp)

theorem filesSilent {s : Shared} {t g : Goroutine} {row : Option Row} (files : Files s t row g) :
    t.voiceOf = none ∧ g.voiceOf = none := by
  have after := filesIdle files
  constructor
  · cases files <;> rfl
  · cases g <;> first | rfl | contradiction

theorem scriptingStep {s s' : Shared} {t g : Goroutine} {new : List Goroutine} (step : Step s t s' g new) :
    scripting g + load scripting new ≤ scripting t := by
  cases step with
  | read copy =>
    unfold afterRead
    split <;> exact Nat.le_refl 0
  | file files =>
    obtain ⟨before,after⟩ := filesSilent files
    simp [scripting,before,after]
  | returned => exact Nat.zero_le 1
  | _ => exact Nat.le_refl _

theorem readsStep {s s' : Shared} {pool new : List Goroutine} {i : Nat} {t g : Goroutine}
    (shape : Shape ⟨s,pool⟩) (found : pool[i]? = some t) (step : Step s t s' g new) :
    load reading (pool.set i g ++ new) = s'.readers := by
  have moved := loadStep reading g new found
  have mine := loadMember reading (List.mem_of_getElem? found)
  have reads : load reading pool = s.readers := shape.reads
  cases step with
  | @read stream text subs copy =>
    have one : reading (.sends (s.job.logEvent s.job.lines.length ⟨stream,text⟩) subs
        (afterRead stream text)) = 1 := by
      unfold afterRead
      split <;> rfl
    have was : reading (.voice (.reader stream)) = 1 := rfl
    simp only [loadNil] at moved
    simp only [Shared.withLine]
    omega
  | @spawn stage ops =>
    have alone : s.readers = 0 := by
      cases shape.fits _ (List.mem_of_getElem? found) with
      | script running alone _ => exact alone
      | closing finished closing => cases closing
      | idle idle => contradiction
    have was : reading (.voice (.script (.start stage :: ops))) = 0 := rfl
    have none : reading (.voice (.script [.wait stage])) = 0 := rfl
    have two : load reading [.voice (.reader .stdout),.voice (.reader .stderr)] = 2 := rfl
    simp only
    omega
  | @eof stream =>
    have was : reading (.voice (.reader stream)) = 1 := rfl
    have none : reading .done = 0 := rfl
    simp only [loadNil] at moved
    simp only
    omega
  | file files =>
    obtain ⟨before,after⟩ := filesSilent files
    simp only [reading,before,after,loadNil] at moved
    simpa [reads] using moved
  | accept there opened room => simpa [reading,Goroutine.voiceOf,reads] using moved
  | drop there opened full => simpa [reading,Goroutine.voiceOf,reads] using moved
  | sent => simpa [reading,Goroutine.voiceOf,reads] using moved
  | _ => simpa [reading,Goroutine.voiceOf,reads,Shared.withLine,closeAll] using moved

theorem speaksBelow (stream : LogStream) (t : Goroutine) :
    waiting t + speaks stream t ≤ scripting t + reading t := by
  unfold waiting speaks scripting reading
  cases t.voiceOf with
  | none => exact Nat.le_refl 0
  | some v =>
    cases v with
    | script ops =>
      simp only
      cases waits ops <;> exact Nat.le_refl 1
    | reader own =>
      simp only
      split <;> omega
    | tail text =>
      simp only
      split <;> omega

/- A script that waits for no reader any more is the only one left to speak. -/
theorem silentSpeaks {c : Process} {i : Nat} {stage : Stage} {ops : List Op} (stream : LogStream)
    (shape : Shape c) (found : c.pool[i]? = some (.voice (.script (.wait stage :: ops))))
    (ready : c.shared.readers = 0) : load (speaks stream) c.pool = 0 := by
  have below := loadLe (speaksBelow stream) c.pool
  rw [loadAdd,loadAdd] at below
  have mine : waiting (.voice (.script (.wait stage :: ops))) ≤ load waiting c.pool :=
    loadMember waiting (List.mem_of_getElem? found)
  have one : waiting (.voice (.script (.wait stage :: ops))) = 1 := rfl
  have scripts := shape.scripts
  have reads := shape.reads
  omega

theorem speaksScript (stream : LogStream) (ops : List Op) : speaks stream (.voice (.script ops)) ≤ 1 :=
  Bool.toNat_le _

/- Every other step hands on the right to speak, or gives it up. -/
theorem speaksMoves {s s' : Shared} {t g : Goroutine} {new : List Goroutine} (stream : LogStream)
    (other : ∀ stage ops, t ≠ .voice (.script (.wait stage :: ops))) (step : Step s t s' g new) :
    speaks stream g + load (speaks stream) new ≤ speaks stream t := by
  cases step with
  | publish copy => exact speaksScript stream _
  | append copy => exact speaksScript stream _
  | @read own text subs copy =>
    unfold afterRead
    split
    · rename_i here
      rw [here]
      exact Nat.le_refl _
    · exact Nat.le_refl _
  | @turn op ops then_ turns pending =>
    have here : speaks stream (.voice (.script (op :: ops))) = 1 := by
      cases op <;> first | rfl | contradiction
    rw [here]
    exact speaksScript stream _
  | awake ready pending => exact absurd rfl (other _ _)
  | spawn =>
    cases stream with
    | stdout => exact Nat.le_refl 1
    | stderr => exact Nat.le_refl 1
    | system => exact Nat.zero_le 1
  | eof => exact Nat.zero_le _
  | note => exact Nat.le_refl _
  | finish copy => exact speaksScript stream _
  | tell => exact speaksScript stream _
  | close => exact speaksScript stream _
  | returned => exact Nat.zero_le _
  | accept there opened room => exact Nat.le_refl _
  | drop there opened full => exact Nat.le_refl _
  | sent => exact Nat.le_refl _
  | closeAll => exact Nat.le_refl _
  | file files =>
    obtain ⟨before,after⟩ := filesSilent files
    simp [speaks,before,after]
  | attach => exact Nat.le_refl _
  | write there moved => exact Nat.le_refl _

theorem speaksStep {s s' : Shared} {pool new : List Goroutine} {i : Nat} {t g : Goroutine}
    (shape : Shape ⟨s,pool⟩) (found : pool[i]? = some t) (step : Step s t s' g new) (stream : LogStream) :
    load (speaks stream) (pool.set i g ++ new) ≤ 1 := by
  have moved := loadStep (speaks stream) g new found
  have most : load (speaks stream) pool ≤ 1 := shape.speaks stream
  by_cases waits : ∃ stage ops, t = .voice (.script (.wait stage :: ops))
  · obtain ⟨stage,ops,rfl⟩ := waits
    cases step with
    | turn turns pending => contradiction
    | @awake stage ops then_ ready pending =>
      have silent := silentSpeaks stream shape found ready
      have one := speaksScript stream then_
      simp only [loadNil] at moved silent
      omega
    | file files => cases files
  · have hands := speaksMoves stream (fun stage ops same => waits ⟨stage,ops,same⟩) step
    omega

theorem stopsTerminal {ev : StreamEvent} (stops : ev.stops = true) : ev.terminal = true := by
  unfold StreamEvent.stops at stops
  unfold StreamEvent.terminal
  simp only [Bool.or_eq_true,Bool.and_eq_true] at stops ⊢
  rcases stops with (cancelled | done) | error
  · exact .inl (.inr cancelled)
  · exact .inl (.inl done.1)
  · exact .inr error

theorem calmStops {ev : StreamEvent} (calm : ev.terminal = false) : ev.stops = false := by
  cases stops : ev.stops with
  | false => rfl
  | true =>
    rw [stopsTerminal stops] at calm
    contradiction

theorem setCases {clients : List Client} {i j : Nat} {cl target : Client}
    (there : (clients.set j target)[i]? = some cl) :
    i = j ∧ cl = target ∨ i ≠ j ∧ clients[i]? = some cl := by
  by_cases here : j = i
  · subst here
    left
    have bound := (List.getElem?_eq_some_iff.mp there).1
    rw [List.length_set] at bound
    rw [List.getElem?_set_self bound] at there
    exact ⟨rfl,(Option.some.inj there).symm⟩
  · right
    rw [List.getElem?_set_ne here] at there
    exact ⟨Ne.symm here,there⟩

theorem concatCases {clients : List Client} {i : Nat} {cl target : Client}
    (there : (clients ++ [target])[i]? = some cl) :
    i = clients.length ∧ cl = target ∨ clients[i]? = some cl := by
  rcases Nat.lt_or_ge i clients.length with old | new
  · right
    rw [List.getElem?_append_left old] at there
    exact there
  · left
    have last : i = clients.length := by
      have bound := (List.getElem?_eq_some_iff.mp there).1
      simp only [List.length_append,List.length_singleton] at bound
      omega
    subst last
    rw [List.getElem?_concat_length] at there
    exact ⟨rfl,(Option.some.inj there).symm⟩

theorem arrivedPushed (cl : Client) (ev : StreamEvent) :
    Client.arrived {cl with channel := cl.channel ++ [ev]} =
      if cl.running then cl.arrived ++ [ev] else cl.arrived := by
  unfold Client.arrived
  cases cl.running <;> simp

theorem lineCalm (j : Job) (q : Nat) (line : JobLogLine) : (j.logEvent q line).terminal = false := by
  unfold Job.logEvent
  split <;> rfl

theorem snapshotCalm {j : Job} {ev : StreamEvent} (mem : ev ∈ j.snapshotEvents) : ev.terminal = false := by
  obtain ⟨q,bound,same⟩ := List.mem_mapIdx.mp mem
  rw [← same]
  exact lineCalm j q _

/- A subscriber that attaches to a running job has the snapshot in hand. -/
theorem attachArrived {j : Job} (running : j.final = none) :
    (attachJobSSE j).arrived = j.sessionEvent :: j.snapshotEvents := by
  simp [Client.arrived,attachJobSSE,running]

theorem attachOpened {s : Shared} (running : s.job.final = none) (opened : Opened s)
    (inside : Aimed s s.subscribers) : Opened {s with
      clients := s.clients ++ [attachJobSSE s.job]
      subscribers := s.subscribers ++ [s.clients.length]} := by
  intro i cl found
  have absent : s.clients.length ∉ s.subscribers := fun mem => Nat.lt_irrefl _ (inside _ mem)
  rcases concatCases found with ⟨rfl,rfl⟩ | old
  · refine ⟨by simp [attachJobSSE,running],rfl,?_,?_⟩
    · intro ev mem
      rw [attachArrived running] at mem
      rcases List.mem_cons.mp mem with rfl | line
      · rfl
      · exact snapshotCalm line
    · intro _
      rw [List.count_append,List.count_eq_zero.mpr absent]
      simp
  · have was := opened i cl old
    have bound := (List.getElem?_eq_some_iff.mp old).1
    refine ⟨was.running,was.closed,was.calm,?_⟩
    intro following
    have other : List.count i [s.clients.length] = 0 := List.count_eq_zero.mpr (by simp; omega)
    rw [List.count_append,other,was.listed following]

theorem acceptOpened {s : Shared} {i : Nat} {cl : Client} {ev : StreamEvent} (opened : Opened s)
    (found : s.clients[i]? = some cl) (calm : ev.terminal = false) :
    Opened {s with clients := s.clients.set i {cl with channel := cl.channel ++ [ev]}} := by
  intro j cl' there
  rcases setCases there with ⟨rfl,rfl⟩ | ⟨_,old⟩
  · have was := opened j cl found
    refine ⟨was.running,was.closed,?_,was.listed⟩
    intro e mem
    rw [arrivedPushed,if_pos was.running] at mem
    rcases List.mem_append.mp mem with old | last
    · exact was.calm e old
    · rw [List.mem_singleton.mp last]
      exact calm
  · exact opened j cl' old

theorem movesArrived {cl cl' : Client} (moved : Moves cl cl') (following : cl'.position = .following) :
    cl.position = .following ∧ cl'.arrived = cl.arrived := by
  cases moved with
  | write here todo =>
    refine ⟨here,?_⟩
    simp [Client.arrived,todo]
  | fail here => contradiction
  | receive here todo running channel =>
    refine ⟨here,?_⟩
    simp [Client.arrived,todo,running,channel]
  | finished here todo last => contradiction
  | past before after fewer => contradiction

theorem movesKeep {cl cl' : Client} (moved : Moves cl cl') :
    cl'.running = cl.running ∧ cl'.closed = cl.closed ∧ cl'.arrived ⊆ cl.arrived := by
  cases moved with
  | write here todo => simp [Client.arrived,todo]
  | fail here => simp [Client.arrived]
  | receive here todo running channel => simp [Client.arrived,todo,running,channel]
  | finished here todo last => simp [Client.arrived]
  | past before after fewer =>
    refine ⟨rfl,rfl,?_⟩
    unfold Client.arrived
    cases cl.running with
    | false => simp
    | true =>
      intro ev mem
      simp only [if_true,List.mem_append] at mem ⊢
      rcases mem with written | todo | channel
      · exact .inl written
      · exact .inr (.inl todo)
      · exact .inr (.inr (fewer channel))

theorem writeOpened {s : Shared} {i : Nat} {cl cl' : Client} (opened : Opened s)
    (found : s.clients[i]? = some cl) (moved : Moves cl cl') : Opened {s with
      clients := s.clients.set i cl'
      subscribers := if cl.position = .leaving then s.subscribers.erase i else s.subscribers} := by
  intro j other there
  rcases setCases there with ⟨rfl,rfl⟩ | ⟨different,old⟩
  · have was := opened _ cl found
    obtain ⟨running,closed,arrived⟩ := movesKeep moved
    refine ⟨running.trans was.running,closed.trans was.closed,fun ev mem => was.calm ev (arrived mem),?_⟩
    intro following
    have here := (movesArrived moved following).1
    simp only [here,reduceCtorEq,if_false]
    exact was.listed here
  · have was := opened j other old
    refine ⟨was.running,was.closed,was.calm,?_⟩
    intro following
    simp only
    split
    · rw [List.count_erase_of_ne different]
      exact was.listed following
    · exact was.listed following

/- What a send still has to do before `finish` is an announcement. -/
theorem sendsCalm {s : Shared} {ev : StreamEvent} {subs : List Nat} {after : Voice}
    (fits : Fits s (.sends ev subs after)) (running : s.job.final = none) : Announces s ev := by
  cases fits with
  | spoken _ alone pending event aimed => exact event
  | heard _ event own aimed => exact event
  | telling finished closing mem more =>
    rw [running] at finished
    contradiction
  | idle idle => contradiction

theorem openedStep {s s' : Shared} {t g : Goroutine} {new : List Goroutine} (own : Fits s t)
    (opened : s.job.final = none → Opened s) (inside : Aimed s s.subscribers) (step : Step s t s' g new)
    (running : s'.job.final = none) : Opened s' := by
  cases step with
  | finish copy => contradiction
  | accept there room closed => exact acceptOpened (opened running) there (announcesCalm (sendsCalm own running))
  | closeAll =>
    cases own with
    | closer finished => exact absurd running finished
    | idle idle => contradiction
  | attach => exact attachOpened running (opened running) inside
  | write there moved => exact writeOpened (opened running) there moved
  | _ => exact opened running

theorem insideStep {s s' : Shared} {t g : Goroutine} {new : List Goroutine}
    (inside : Aimed s s.subscribers) (step : Step s t s' g new) : Aimed s' s'.subscribers := by
  cases step with
  | accept there opened room =>
    intro i mem
    simpa using inside i mem
  | closeAll =>
    intro i mem
    simp [closeAll] at mem
  | attach =>
    intro i mem
    simp only [List.length_append,List.length_singleton]
    rcases List.mem_append.mp mem with old | last
    · have bound := inside i old
      omega
    · have here := List.mem_singleton.mp last
      omega
  | write there moved =>
    intro j mem
    simp only [List.length_set]
    simp only at mem
    split at mem
    · exact inside j (List.mem_of_mem_erase mem)
    · exact inside j mem
  | _ => exact inside

theorem shapeStep {s s' : Shared} {pool new : List Goroutine} {i : Nat} {t g : Goroutine}
    (shape : Shape ⟨s,pool⟩) (found : pool[i]? = some t) (step : Step s t s' g new) :
    Shape ⟨s',pool.set i g ++ new⟩ := by
  have own : Fits s t := shape.fits t (List.mem_of_getElem? found)
  constructor
  · exact fitsStep shape found step
  · have moved := loadStep scripting g new found
    have hands := scriptingStep step
    have most : load scripting pool ≤ 1 := shape.scripts
    show load scripting (pool.set i g ++ new) ≤ 1
    omega
  · exact readsStep shape found step
  · exact speaksStep shape found step
  · exact openedStep own shape.opened shape.inside step
  · exact insideStep shape.inside step

theorem shapePreserved (ok : Process → Goroutine → Prop) : Preserved system ok Shape := by
  constructor
  · intro c call shape
    have kept : ∀ w : Goroutine → Nat, w .attach = 0 → load w (c.pool ++ [.attach]) = load w c.pool := by
      intro w zero
      simp [zero]
    constructor
    · intro t mem
      rcases List.mem_append.mp mem with old | last
      · exact shape.fits t old
      · rw [List.mem_singleton.mp last]
        exact .idle rfl
    · exact (kept scripting rfl).trans_le shape.scripts
    · exact (kept reading rfl).trans shape.reads
    · exact fun stream => (kept (speaks stream) rfl).trans_le (shape.speaks stream)
    · exact shape.opened
    · exact shape.inside
  · intro c i t k s' g new shape found _ stepped
    exact shapeStep shape found (nextStep stepped)

theorem launchShape {j : Job} (running : j.final = none) (body : String) (row : Option Row) :
    Shape (launch j body row) := by
  constructor
  · intro t mem
    simp only [launch,List.mem_cons,List.not_mem_nil,or_false] at mem
    rcases mem with rfl | rfl
    · exact .script running rfl (pendingRun j body)
    · exact .idle rfl
  · exact Nat.le_refl 1
  · rfl
  · intro stream
    have one := speaksScript stream (runSoftwareScript j body)
    have zero : speaks stream .tick = 0 := rfl
    simp only [launch,loadCons,loadNil]
    omega
  · intro _ i cl found
    simp [launch] at found
  · intro i mem
    simp [launch] at mem

end ContainerWS.JobLog
