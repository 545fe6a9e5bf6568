import ContainerWS.JobLog.Shape

/-! attachJobSSE replays the log without a gap or a repetition. For a subscriber
whose channel has room, each line of the log is in the snapshot, on the channel,
or carried by one send that still has the subscriber ahead of it. -/
namespace ContainerWS.JobLog
open Install Interleaving GoStrings

def seqs (events : List StreamEvent) : List Nat := events.filterMap StreamEvent.seq

/- A line on its way to a subscriber. -/
def flight (i q : Nat) : Goroutine → Nat
  | .sends ev subs _ => if ev.seq = some q then subs.count i else 0
  | _ => 0

def carries (i : Nat) : Goroutine → Option StreamEvent
  | .sends ev subs _ => if i ∈ subs then some ev else none
  | _ => none

/- Lines of one stream in the order of the log. -/
def InOrder (a b : StreamEvent) : Prop :=
  a.stream = b.stream → ∀ p q, a.seq = some p → b.seq = some q → p < q

def Follows (a b : StreamEvent) : Prop := InOrder a b ∧ (a.stops = true → b.seq = none)

def Quotes (lines : List JobLogLine) (ev : StreamEvent) : Prop :=
  ∀ q, ev.seq = some q → ∃ line, lines[q]? = some line ∧ ev.stream = some line.stream ∧ ev.line = line.text

/- What a subscriber has got, and what it wrote once it left its loop. -/
def Client.view (cl : Client) : List StreamEvent :=
  if cl.position = .following then cl.arrived else cl.written

def once (n q : Nat) : Nat := if q < n then 1 else 0

structure Feed (i : Nat) (c : Process) (cl : Client) : Prop where
  each : cl.position = .following → ∀ q,
    (seqs cl.arrived).count q + load (flight i q) c.pool = once c.shared.job.lines.length q
  whole : cl.position ≠ .following → cl.connected = true →
    c.shared.job.final ≠ none ∧ ∀ q, (seqs cl.written).count q = once c.shared.job.lines.length q
  quotes : ∀ ev ∈ cl.view, Quotes c.shared.job.lines ev
  follows : cl.view.Pairwise Follows
  ahead : cl.position = .following → ∀ t ∈ c.pool, ∀ ev, carries i t = some ev → ∀ e ∈ cl.arrived, InOrder e ev

def Feeds (i : Nat) (c : Process) : Prop :=
  ∀ cl, c.shared.clients[i]? = some cl → Feed i c cl

/- The channel of subscriber `i` has room whenever something is sent to it. -/
def NeverFull (i : Nat) (c : Process) : Goroutine → Prop
  | .sends _ (j :: _) _ => j = i → ∀ cl ∈ c.shared.clients[i]?, cl.channel.length < bufferSize
  | _ => True

instance (i : Nat) (c : Process) (t : Goroutine) : Decidable (NeverFull i c t) := by
  unfold NeverFull
  split <;> infer_instance

theorem seqsAppend (a b : List StreamEvent) : seqs (a ++ b) = seqs a ++ seqs b :=
  List.filterMap_append

theorem seqsSilent {events : List StreamEvent} (silent : ∀ ev ∈ events, ev.seq = none) : seqs events = [] :=
  List.filterMap_eq_nil_iff.mpr silent

theorem viewFollowing {cl : Client} (following : cl.position = .following) : cl.view = cl.arrived :=
  if_pos following

theorem viewPast {cl : Client} (past : cl.position ≠ .following) : cl.view = cl.written := if_neg past

theorem viewPushed (cl : Client) (ev : StreamEvent) :
    Client.view {cl with channel := cl.channel ++ [ev]} =
      if cl.position = .following ∧ cl.running = true then cl.view ++ [ev] else cl.view := by
  by_cases following : cl.position = .following
  · have pushed : Client.view {cl with channel := cl.channel ++ [ev]} =
        Client.arrived {cl with channel := cl.channel ++ [ev]} := viewFollowing following
    rw [pushed,arrivedPushed,viewFollowing following]
    simp [following]
  · have pushed : Client.view {cl with channel := cl.channel ++ [ev]} = cl.written := viewPast following
    rw [pushed,viewPast following]
    simp [following]

theorem silentAfter {a b : StreamEvent} (silent : b.seq = none) : Follows a b := by
  constructor
  · intro _ p q _ here
    rw [silent] at here
    contradiction
  · exact fun _ => silent

theorem snapshotSeqs (j : Job) : seqs j.snapshotEvents = List.range j.lines.length := by
  unfold Job.snapshotEvents
  induction j.lines using List.reverseRecOn with
  | nil => rfl
  | append_singleton lines line ih =>
    rw [List.mapIdx_concat,seqsAppend,ih,List.length_append,List.length_singleton,List.range_succ]
    rfl

theorem snapshotOrdered (j : Job) : j.snapshotEvents.Pairwise Follows := by
  rw [List.pairwise_iff_getElem]
  intro p q left right before
  simp only [Job.snapshotEvents,List.getElem_mapIdx]
  constructor
  · intro _ a b here there
    cases Option.some.inj here
    cases Option.some.inj there
    exact before
  · intro stops
    rw [calmStops (lineCalm _ _ _)] at stops
    contradiction

theorem lineQuotes {lines : List JobLogLine} {j : Job} {q : Nat} {line : JobLogLine}
    (here : lines[q]? = some line) : Quotes lines (j.logEvent q line) := by
  intro p same
  cases Option.some.inj same
  exact ⟨line,here,rfl,rfl⟩

theorem snapshotQuotes {j : Job} {ev : StreamEvent} (mem : ev ∈ j.snapshotEvents) : Quotes j.lines ev := by
  obtain ⟨q,bound,same⟩ := List.mem_mapIdx.mp mem
  rw [← same]
  exact lineQuotes (List.getElem?_eq_getElem bound)

theorem lateSilent {j : Job} {f : Final} {ev : StreamEvent} (mem : ev ∈ j.lateEvents f) : ev.seq = none := by
  unfold Job.lateEvents at mem
  split at mem
  · rw [List.mem_singleton.mp mem]
  · rcases List.mem_cons.mp mem with rfl | reason
    · rfl
    · split at reason
      · rw [List.mem_singleton.mp reason]
        rfl
      · contradiction

theorem finishSilent {j : Job} {f : Final} {ev : StreamEvent} (mem : ev ∈ j.finishEvents f) : ev.seq = none := by
  unfold Job.finishEvents at mem
  rcases List.mem_cons.mp mem with rfl | reason
  · rfl
  · split at reason
    · rw [List.mem_singleton.mp reason]
      rfl
    · contradiction

/- A subscriber starts with the whole log of the moment it attaches. -/
theorem attachFeed {c : Process} {i : Nat} (silent : ∀ t ∈ c.pool, ∀ q, flight i q t = 0)
    (empty : ∀ t ∈ c.pool, ∀ ev, carries i t = some ev → ev.seq = none) :
    Feed i c (attachJobSSE c.shared.job) := by
  have arrived : ∃ late, (attachJobSSE c.shared.job).arrived =
      c.shared.job.sessionEvent :: c.shared.job.snapshotEvents ++ late ∧ ∀ ev ∈ late, ev.seq = none := by
    cases finished : c.shared.job.final with
    | none => exact ⟨[],by simp [Client.arrived,attachJobSSE,finished],by simp⟩
    | some f =>
      exact ⟨c.shared.job.lateEvents f,by simp [Client.arrived,attachJobSSE,finished],fun ev => lateSilent⟩
  obtain ⟨late,arrived,quiet⟩ := arrived
  have view : (attachJobSSE c.shared.job).view = (attachJobSSE c.shared.job).arrived := viewFollowing rfl
  constructor
  · intro _ q
    have zero : load (flight i q) c.pool = 0 :=
      (loadZero (flight i q) c.pool).mpr (fun t mem => silent t mem q)
    have first : seqs (c.shared.job.sessionEvent :: c.shared.job.snapshotEvents) =
        seqs c.shared.job.snapshotEvents := rfl
    rw [arrived,seqsAppend,first,seqsSilent quiet,List.append_nil,snapshotSeqs,List.count_range,zero]
    rfl
  · intro past
    exact absurd rfl past
  · intro ev mem
    rw [view,arrived] at mem
    rcases List.mem_append.mp mem with inside | last
    · rcases List.mem_cons.mp inside with rfl | line
      · intro q here
        contradiction
      · exact snapshotQuotes line
    · intro q here
      rw [quiet ev last] at here
      contradiction
  · rw [view,arrived,List.pairwise_append,List.pairwise_cons]
    refine ⟨⟨?_,snapshotOrdered _⟩,?_,?_⟩
    · intro ev mem
      exact ⟨fun _ p q here => by contradiction,fun stops => by contradiction⟩
    · exact List.pairwise_of_forall_mem_list (fun a _ b mem => silentAfter (quiet b mem))
    · exact fun a _ b mem => silentAfter (quiet b mem)
  · intro _ t mem ev here e _ _ p q _ there
    rw [empty t mem ev here] at there
    contradiction

/- Steps that bring no line and deliver none. -/
theorem feedKept {s s' : Shared} {pool new : List Goroutine} {i k : Nat} {t g : Goroutine} {cl : Client}
    (feed : Feed i ⟨s,pool⟩ cl) (found : pool[k]? = some t) (lines : s'.job.lines = s.job.lines)
    (finished : s.job.final ≠ none → s'.job.final ≠ none)
    (flights : ∀ q, flight i q g + load (flight i q) new = flight i q t)
    (carried : ∀ u, u = g ∨ u ∈ new → ∀ ev, carries i u = some ev → ev.seq = none ∨ carries i t = some ev) :
    Feed i ⟨s',pool.set k g ++ new⟩ cl := by
  have moved : ∀ q, load (flight i q) (pool.set k g ++ new) = load (flight i q) pool := by
    intro q
    have step := loadStep (flight i q) g new found
    have hands := flights q
    omega
  constructor
  · intro following q
    rw [moved q,lines]
    exact feed.each following q
  · intro past connected
    rw [lines]
    obtain ⟨ended,each⟩ := feed.whole past connected
    exact ⟨finished ended,each⟩
  · rw [lines]
    exact feed.quotes
  · exact feed.follows
  · intro following u mem ev here e inside
    have behind : ∀ u, u = g ∨ u ∈ new → carries i u = some ev → InOrder e ev := by
      intro u fresh there
      rcases carried u fresh ev there with silent | before
      · exact (silentAfter silent).1
      · exact feed.ahead following t (List.mem_of_getElem? found) ev before e inside
    rcases memStep mem with old | rfl | fresh
    · exact feed.ahead following u old ev here e inside
    · exact behind _ (.inl rfl) here
    · exact behind u (.inr fresh) here

/- A line is appended and sent to the subscribers of that moment. -/
theorem feedLine {s : Shared} {pool : List Goroutine} {i k : Nat} {t : Goroutine} {cl : Client}
    {line : JobLogLine} {subs : List Nat} {after : Voice} (feed : Feed i ⟨s,pool⟩ cl)
    (found : pool[k]? = some t) (idle : ∀ q, flight i q t = 0) (running : s.job.final = none)
    (listed : cl.position = .following → subs.count i = 1) :
    Feed i ⟨s.withLine line,
      pool.set k (.sends (s.job.logEvent s.job.lines.length line) subs after) ++ []⟩ cl := by
  constructor
  · intro following q
    have moved := loadStep (flight i q) (.sends (s.job.logEvent s.job.lines.length line) subs after) [] found
    have sum : (seqs cl.arrived).count q + load (flight i q) pool = once s.job.lines.length q :=
      feed.each following q
    have one := listed following
    have zero := idle q
    have mine : flight i q (.sends (s.job.logEvent s.job.lines.length line) subs after) =
        if s.job.lines.length = q then 1 else 0 := by
      simp only [flight,Job.logEvent,Option.some.injEq]
      rw [one]
    show (seqs cl.arrived).count q + load (flight i q) _ = once (s.job.lines ++ [line]).length q
    rw [mine] at moved
    simp only [once,List.length_append,List.length_singleton,loadNil] at sum moved ⊢
    split_ifs at sum moved ⊢ <;> omega
  · intro past connected
    exact absurd running (feed.whole past connected).1
  · intro ev mem q here
    obtain ⟨old,there,same⟩ := feed.quotes ev mem q here
    have bound := (List.getElem?_eq_some_iff.mp there).1
    refine ⟨old,?_,same⟩
    show (s.job.lines ++ [line])[q]? = some old
    rw [List.getElem?_append_left bound]
    exact there
  · exact feed.follows
  · intro following u mem ev here e inside
    rcases memStep mem with old | rfl | fresh
    · exact feed.ahead following u old ev here e inside
    · intro _ p q at_ next
      have bound : p < s.job.lines.length := by
        obtain ⟨old,there,_⟩ := feed.quotes e (by rw [viewFollowing following]; exact inside) p at_
        exact (List.getElem?_eq_some_iff.mp there).1
      simp only [carries] at here
      split at here <;> try contradiction
      cases Option.some.inj here
      cases Option.some.inj next
      exact bound
    · contradiction

theorem pendingSpeaks {ops : List Op} (pending : Pending ops) : waits ops = false := by
  cases pending with
  | publish rest => rfl
  | append rest => rfl
  | @last op turns => cases op <;> first | rfl | contradiction

/- A line is sent by the one goroutine that may speak for its stream. -/
theorem lineSpeaks {s : Shared} {ev : StreamEvent} {subs : List Nat} {after : Voice} {q : Nat}
    (fits : Fits s (.sends ev subs after)) (here : ev.seq = some q) :
    s.job.final = none ∧ ∃ line, s.job.lines[q]? = some line ∧ ev.stream = some line.stream ∧
      ev.line = line.text ∧ speaks line.stream (.sends ev subs after) = 1 := by
  have quoted : ∀ {e}, Announces s e → e.seq = some q →
      ∃ line, s.job.lines[q]? = some line ∧ e.stream = some line.stream ∧ e.line = line.text := by
    intro e event at_
    cases event with
    | start => contradiction
    | line inside => exact lineQuotes inside q at_
  cases fits with
  | spoken running alone pending event aimed =>
    obtain ⟨line,inside,stream,text⟩ := quoted event here
    refine ⟨running,line,inside,stream,text,?_⟩
    simp [speaks,Goroutine.voiceOf,pendingSpeaks pending]
  | @heard _ _ own text running event same aimed =>
    obtain ⟨line,inside,stream,text⟩ := quoted event here
    refine ⟨running,line,inside,stream,text,?_⟩
    rw [same] at stream
    cases Option.some.inj stream
    unfold afterRead
    split
    · rename_i stderr
      simp [speaks,Goroutine.voiceOf,stderr]
    · simp [speaks,Goroutine.voiceOf]
  | telling finished closing mem more =>
    rw [finishSilent mem] at here
    contradiction
  | idle idle => contradiction

theorem seqsPushed (events : List StreamEvent) (ev : StreamEvent) (q : Nat) :
    (seqs (events ++ [ev])).count q = (seqs events).count q + if ev.seq = some q then 1 else 0 := by
  rw [seqsAppend,List.count_append]
  cases here : ev.seq with
  | none => simp [seqs,here]
  | some p => simp [seqs,here,List.count_singleton]

theorem carriesSends {i : Nat} {u : Goroutine} {ev : StreamEvent} (carried : carries i u = some ev) :
    ∃ subs after, u = .sends ev subs after ∧ i ∈ subs := by
  cases u with
  | sends own subs after =>
    simp only [carries] at carried
    split at carried <;> try contradiction
    rename_i mem
    cases Option.some.inj carried
    exact ⟨subs,after,rfl,mem⟩
  | _ => contradiction

/- Two sends of one stream cannot be under way. -/
theorem oneSend {c : Process} {k j : Nat} {ev other : StreamEvent} {subs more : List Nat}
    {after then_ : Voice} {p q : Nat} (shape : Shape c) (different : j ≠ k)
    (found : c.pool[k]? = some (.sends ev subs after)) (here : ev.seq = some p)
    (there : c.pool[j]? = some (.sends other more then_)) (at_ : other.seq = some q) :
    ev.stream ≠ other.stream := by
  intro same
  obtain ⟨_,line,_,stream,_,speaks⟩ := lineSpeaks (shape.fits _ (List.mem_of_getElem? found)) here
  obtain ⟨_,next,_,stream',_,speaks'⟩ := lineSpeaks (shape.fits _ (List.mem_of_getElem? there)) at_
  have equal : line.stream = next.stream := by
    rw [stream,stream'] at same
    exact Option.some.inj same
  rw [← equal] at speaks'
  have both := loadTwo (JobLog.speaks line.stream) different there found
  have most := shape.speaks line.stream
  omega

theorem feedAccept {s : Shared} {pool : List Goroutine} {i k : Nat} {ev : StreamEvent} {rest : List Nat}
    {after : Voice} {cl : Client} (shape : Shape ⟨s,pool⟩) (feed : Feed i ⟨s,pool⟩ cl)
    (found : pool[k]? = some (.sends ev (i :: rest) after)) (there : s.clients[i]? = some cl) :
    Feed i ⟨{s with clients := s.clients.set i {cl with channel := cl.channel ++ [ev]}},
      pool.set k (.sends ev rest after) ++ []⟩ {cl with channel := cl.channel ++ [ev]} := by
  have fits : Fits s (.sends ev (i :: rest) after) := shape.fits _ (List.mem_of_getElem? found)
  have hearing : ∀ q, ev.seq = some q → cl.running = true := fun q here =>
    (shape.opened (lineSpeaks fits here).1 i cl there).running
  have calm : ∀ q, ev.seq = some q → ∀ e ∈ cl.arrived, e.stops = false := fun q here =>
    fun e mem => calmStops ((shape.opened (lineSpeaks fits here).1 i cl there).calm e mem)
  have carried : carries i (.sends ev (i :: rest) after) = some ev := by simp [carries]
  have arrived := arrivedPushed cl ev
  constructor
  · intro following q
    have moved := loadStep (flight i q) (.sends ev rest after) [] found
    have sum : (seqs cl.arrived).count q + load (flight i q) pool = once s.job.lines.length q :=
      feed.each following q
    rw [arrived]
    by_cases here : ev.seq = some q
    · have before : flight i q (.sends ev (i :: rest) after) = rest.count i + 1 := by simp [flight,here]
      have now : flight i q (.sends ev rest after) = rest.count i := by simp [flight,here]
      rw [if_pos (hearing q here),seqsPushed,if_pos here]
      simp only [loadNil] at moved ⊢
      omega
    · have before : flight i q (.sends ev (i :: rest) after) = 0 := by simp [flight,here]
      have now : flight i q (.sends ev rest after) = 0 := by simp [flight,here]
      have same : (seqs (if cl.running = true then cl.arrived ++ [ev] else cl.arrived)).count q =
          (seqs cl.arrived).count q := by
        split
        · rw [seqsPushed,if_neg here]
          rfl
        · rfl
      rw [same]
      simp only [loadNil] at moved ⊢
      omega
  · exact feed.whole
  · intro e mem q here
    rw [viewPushed] at mem
    split at mem
    · rcases List.mem_append.mp mem with old | last
      · exact feed.quotes e old q here
      · rw [List.mem_singleton.mp last] at here ⊢
        obtain ⟨_,line,inside,stream,text,_⟩ := lineSpeaks fits here
        exact ⟨line,inside,stream,text⟩
    · exact feed.quotes e mem q here
  · rw [viewPushed]
    split
    · rename_i live
      rw [List.pairwise_append]
      refine ⟨feed.follows,List.pairwise_singleton _ _,?_⟩
      intro e mem e' last
      rw [viewFollowing live.1] at mem
      rw [List.mem_singleton.mp last]
      refine ⟨feed.ahead live.1 _ (List.mem_of_getElem? found) ev carried e mem,?_⟩
      intro stops
      cases here : ev.seq with
      | none => rfl
      | some q =>
        rw [calm q here e mem] at stops
        contradiction
    · exact feed.follows
  · intro following
    have behind : ∀ u ∈ pool, ∀ e', carries i u = some e' → ∀ e ∈ cl.arrived, InOrder e e' :=
      fun u mem e' here => feed.ahead following u mem e' here
    rw [arrived]
    apply everyBeside
    · intro j u different other e' here e mem
      obtain ⟨subs,then_,rfl,_⟩ := carriesSends here
      have old := behind _ (List.mem_of_getElem? other) e' here e
      split at mem
      · rcases List.mem_append.mp mem with inside | last
        · exact old inside
        · rw [List.mem_singleton.mp last]
          intro same p q at_ next
          exact absurd same (oneSend shape different found at_ other next)
      · exact old mem
    · intro e' here e mem
      obtain ⟨subs,then_,same,again⟩ := carriesSends here
      cases same
      have old := behind _ (List.mem_of_getElem? found) ev carried e
      split at mem
      · rcases List.mem_append.mp mem with inside | last
        · exact old inside
        · rw [List.mem_singleton.mp last]
          intro _ p q at_ _
          -- the copy of the subscribers holds nobody twice
          have sum : (seqs cl.arrived).count p + load (flight i p) pool = once s.job.lines.length p :=
            feed.each following p
          have mine := loadMember (flight i p) (List.mem_of_getElem? found)
          have twice : flight i p (.sends ev (i :: rest) after) = rest.count i + 1 := by simp [flight,at_]
          have more := List.count_pos_iff.mpr again
          unfold once at sum
          split_ifs at sum <;> omega
      · exact old mem
    · simp

/- After `finish` no line is under way. -/
theorem overLanded {c : Process} (shape : Shape c) (finished : c.shared.job.final ≠ none) (i q : Nat) :
    load (flight i q) c.pool = 0 := by
  rw [loadZero]
  intro t mem
  cases t with
  | sends ev subs after =>
    have silent : ev.seq ≠ some q := fun here => finished (lineSpeaks (shape.fits _ mem) here).1
    simp [flight,silent]
  | _ => rfl

/- The writer goes on with the same events. -/
theorem feedFollowing {i : Nat} {c : Process} {cl cl' : Client} (feed : Feed i c cl)
    (here : cl.position = .following) (stays : cl'.position = .following)
    (same : cl'.arrived = cl.arrived) : Feed i c cl' := by
  have view : cl'.view = cl.view := by rw [viewFollowing stays,viewFollowing here,same]
  constructor
  · intro _ q
    rw [same]
    exact feed.each here q
  · exact fun past => absurd stays past
  · rw [view]
    exact feed.quotes
  · rw [view]
    exact feed.follows
  · intro _
    rw [same]
    exact feed.ahead here

/- The writer leaves its loop: what it wrote is the front of what it got. -/
theorem feedLeaving {i : Nat} {c : Process} {cl cl' : Client} {more : List StreamEvent} (feed : Feed i c cl)
    (here : cl.position = .following) (left : cl'.position ≠ .following)
    (front : cl.arrived = cl'.written ++ more)
    (whole : cl'.connected = true → c.shared.job.final ≠ none ∧ seqs more = [] ∧
      ∀ q, load (flight i q) c.pool = 0) : Feed i c cl' := by
  have view : cl.view = cl'.written ++ more := by rw [viewFollowing here,front]
  constructor
  · exact fun following => absurd following left
  · intro _ connected
    obtain ⟨finished,silent,landed⟩ := whole connected
    refine ⟨finished,?_⟩
    intro q
    have sum := feed.each here q
    rw [front,seqsAppend,silent,List.append_nil,landed q] at sum
    exact sum
  · rw [viewPast left]
    intro ev mem
    exact feed.quotes ev (by rw [view]; exact List.mem_append_left _ mem)
  · rw [viewPast left]
    have follows := feed.follows
    rw [view] at follows
    exact (List.pairwise_append.mp follows).1
  · exact fun following => absurd following left

theorem feedWrite {i : Nat} {c : Process} {cl cl' : Client} (shape : Shape c)
    (there : c.shared.clients[i]? = some cl) (feed : Feed i c cl) (moved : Moves cl cl') : Feed i c cl' := by
  cases moved with
  | @write ev rest here todo =>
    have front : cl.arrived = (cl.written ++ [ev]) ++ (rest ++ if cl.running then cl.channel else []) := by
      simp [Client.arrived,todo]
    by_cases stops : ev.stops = true
    · have finished : c.shared.job.final ≠ none := by
        intro running
        have calm := calmStops ((shape.opened running i cl there).calm ev (by rw [front]; simp))
        rw [stops] at calm
        contradiction
      apply feedLeaving feed here _ front
      · intro _
        refine ⟨finished,?_,overLanded shape finished i⟩
        have follows := feed.follows
        rw [viewFollowing here,front,List.pairwise_append] at follows
        exact seqsSilent (fun e mem => (follows.2.2 ev (by simp) e mem).2 stops)
      · simp [stops]
    · apply feedFollowing feed here
      · simp [stops]
      · rw [front]
        simp [Client.arrived]
  | fail here => exact feedLeaving feed here (by simp) rfl (fun connected => by contradiction)
  | receive here todo running channel =>
    exact feedFollowing feed here here (movesArrived (.receive here todo running channel) here).2
  | finished here todo last =>
    have finished : c.shared.job.final ≠ none := by
      intro running
      have attached := shape.opened running i cl there
      have closed := (last attached.running).2
      rw [attached.closed] at closed
      contradiction
    have front : cl.arrived = cl.written ++ [] := by
      unfold Client.arrived
      rw [todo]
      split
      · rename_i running
        rw [(last running).1]
        rfl
      · rfl
    exact feedLeaving feed here (by simp) front (fun _ => ⟨finished,rfl,overLanded shape finished i⟩)
  | past before after fewer =>
    have same : ∀ {channel position}, position ≠ .following →
        Client.view {cl with position := position,channel := channel} = cl.view := by
      intro channel position left
      rw [viewPast before]
      exact viewPast left
    constructor
    · exact fun following => absurd following after
    · exact fun _ connected => feed.whole before connected
    · rw [same after]
      exact feed.quotes
    · rw [same after]
      exact feed.follows
    · exact fun following => absurd following after

theorem unaimed {s : Shared} {t : Goroutine} (fits : Fits s t) (q : Nat) :
    flight s.clients.length q t = 0 := by
  cases t with
  | sends ev subs after =>
    simp only [flight]
    split
    · rename_i here
      apply List.count_eq_zero.mpr
      intro mem
      cases fits with
      | spoken running alone pending event aimed => exact Nat.lt_irrefl _ (aimed _ mem)
      | heard running event own aimed => exact Nat.lt_irrefl _ (aimed _ mem)
      | telling finished closing finishes more =>
        rw [finishSilent finishes] at here
        contradiction
      | idle idle => contradiction
    · rfl
  | _ => rfl

theorem unaimedSilent {s : Shared} {t : Goroutine} (fits : Fits s t) {ev : StreamEvent}
    (here : carries s.clients.length t = some ev) : ev.seq = none := by
  obtain ⟨subs,after,rfl,mem⟩ := carriesSends here
  cases at_ : ev.seq with
  | none => rfl
  | some q =>
    have zero := unaimed fits q
    simp only [flight,at_,if_true] at zero
    exact absurd mem (List.count_eq_zero.mp zero)

/- Sends of other goroutines to other subscribers, and events that carry no line. -/
theorem feedOther {s s' : Shared} {pool : List Goroutine} {i j k : Nat} {ev : StreamEvent} {rest : List Nat}
    {after : Voice} {cl : Client} (feed : Feed i ⟨s,pool⟩ cl)
    (found : pool[k]? = some (.sends ev (j :: rest) after)) (job : s'.job = s.job) (other : j ≠ i) :
    Feed i ⟨s',pool.set k (.sends ev rest after) ++ []⟩ cl := by
  apply feedKept feed found (by rw [job]) (by rw [job]; exact id)
  · intro q
    simp [flight,other]
  · intro u fresh e here
    right
    rcases fresh with rfl | absent
    · simp only [carries] at here ⊢
      split at here <;> try contradiction
      rename_i mem
      rw [if_pos (List.mem_cons_of_mem _ mem)]
      exact here
    · contradiction

/- A send starts with an event that is no line. -/
theorem feedSilent {s s' : Shared} {pool : List Goroutine} {i k : Nat} {t : Goroutine} {ev : StreamEvent}
    {subs : List Nat} {after : Voice} {cl : Client} (feed : Feed i ⟨s,pool⟩ cl) (found : pool[k]? = some t)
    (lines : s'.job.lines = s.job.lines) (finished : s.job.final ≠ none → s'.job.final ≠ none)
    (idle : ∀ q, flight i q t = 0) (silent : ev.seq = none) :
    Feed i ⟨s',pool.set k (.sends ev subs after) ++ []⟩ cl := by
  apply feedKept feed found lines finished
  · intro q
    rw [idle q]
    simp [flight,silent]
  · intro u fresh e here
    left
    rcases fresh with rfl | absent
    · simp only [carries] at here
      split at here <;> try contradiction
      cases Option.some.inj here
      exact silent
    · contradiction

theorem voiceless {i : Nat} {t : Goroutine} (none : t.voiceOf = none) (q : Nat) :
    flight i q t = 0 ∧ carries i t = .none := by
  cases t with
  | sends ev subs after => contradiction
  | _ => exact ⟨rfl,rfl⟩

theorem feedsStep {i : Nat} {s s' : Shared} {pool new : List Goroutine} {k : Nat} {t g : Goroutine}
    (shape : Shape ⟨s,pool⟩) (feeds : Feeds i ⟨s,pool⟩) (found : pool[k]? = some t)
    (room : NeverFull i ⟨s,pool⟩ t) (step : Step s t s' g new) : Feeds i ⟨s',pool.set k g ++ new⟩ := by
  have own : Fits s t := shape.fits t (List.mem_of_getElem? found)
  have listed : ∀ {subs : List Nat} {cl : Client}, subs.Perm s.subscribers → s.job.final = none →
      s.clients[i]? = some cl → cl.position = .following → subs.count i = 1 := by
    intro subs cl copy running there following
    rw [copy.count_eq]
    exact (shape.opened running i cl there).listed following
  intro cl there
  cases step with
  | publish copy =>
    apply feedSilent (feeds cl there) found rfl id (fun _ => rfl)
    cases own with
    | script running alone pending =>
      cases pending with
      | publish rest => rfl
      | last turns => contradiction
    | closing finished closing => cases closing
    | idle idle => contradiction
  | append copy =>
    have running : s.job.final = none := by
      cases own with
      | script running alone pending => exact running
      | closing finished closing => cases closing
      | idle idle => contradiction
    exact feedLine (feeds cl there) found (fun _ => rfl) running (listed copy running there)
  | read copy =>
    have running : s.job.final = none := by
      cases own with
      | reader running => exact running
      | idle idle => contradiction
    exact feedLine (feeds cl there) found (fun _ => rfl) running (listed copy running there)
  | finish copy => exact feedSilent (feeds cl there) found rfl (fun _ => by simp) (fun _ => rfl) rfl
  | tell =>
    apply feedSilent (feeds cl there) found rfl id (fun _ => rfl)
    cases own with
    | script running alone pending =>
      cases pending with
      | last turns => contradiction
    | closing finished closing =>
      cases closing with
      | tell reason => rfl
    | idle idle => contradiction
  | @accept ev j rest after target reached opened space =>
    rcases setCases there with ⟨rfl,rfl⟩ | ⟨different,old⟩
    · exact feedAccept shape (feeds target reached) found reached
    · exact feedOther (feeds cl old) found rfl (Ne.symm different)
  | @drop ev j rest after target reached opened full =>
    by_cases here : j = i
    · subst here
      have space := room rfl target reached
      omega
    · exact feedOther (feeds cl there) found rfl here
  | sent =>
    apply feedKept (feeds cl there) found rfl id
    · intro q
      simp [flight]
    · simp [carries]
  | closeAll =>
    have shut : ∀ {c cl}, Feed i c cl → Feed i c {cl with closed := true} :=
      fun feed => ⟨feed.each,feed.whole,feed.quotes,feed.follows,feed.ahead⟩
    simp only [closeAll,List.getElem?_mapIdx,Option.map_eq_some_iff] at there
    obtain ⟨old,was,same⟩ := there
    have kept : Feed i ⟨closeAll s,pool.set k .done ++ []⟩ old :=
      feedKept (feeds old was) found rfl id (fun _ => rfl) (by simp [carries])
    split at same
    · cases same
      exact shut kept
    · cases same
      exact kept
  | attach =>
    rcases concatCases there with ⟨rfl,rfl⟩ | old
    · apply attachFeed
      · exact everyStep (fun t mem => unaimed (shape.fits t mem)) (fun _ => rfl) (by simp)
      · exact everyStep (fun t mem ev => unaimedSilent (shape.fits t mem)) (by simp [carries]) (by simp)
    · exact feedKept (feeds cl old) found rfl id (fun _ => rfl) (by simp [carries])
  | @write j cl₀ cl₁ reached moved =>
    have silent : ∀ {s₁ : Shared} {other}, s₁.job = s.job → Feed i ⟨s,pool⟩ other →
        Feed i ⟨s₁,pool.set k (.sse j) ++ []⟩ other := by
      intro s₁ other job feed
      exact feedKept feed found (by rw [job]) (by rw [job]; exact id) (fun _ => rfl) (by simp [carries])
    rcases setCases there with ⟨rfl,rfl⟩ | ⟨_,old⟩
    · exact silent rfl (feedWrite shape reached (feeds cl₀ reached) moved)
    · exact silent rfl (feeds cl old)
  | file files =>
    obtain ⟨before,after⟩ := filesSilent files
    refine feedKept (feeds cl there) found rfl id ?_ ?_
    · intro q
      rw [(voiceless before q).1,(voiceless after q).1]
      rfl
    · intro u fresh ev here
      rcases fresh with rfl | absent
      · rw [(voiceless after 0).2] at here
        contradiction
      · contradiction
  | spawn => exact feedKept (feeds cl there) found rfl id (fun _ => rfl) (by simp [carries])
  | close => exact feedKept (feeds cl there) found rfl id (fun _ => rfl) (by simp [carries])
  | _ => exact feedKept (feeds cl there) found rfl id (fun _ => rfl) (by simp [carries])

theorem feedsPreserved (i : Nat) :
    Preserved system (NeverFull i) (fun c => Shape c ∧ Feeds i c) := by
  constructor
  · intro c call holds
    refine ⟨(shapePreserved (NeverFull i)).call c call holds.1,?_⟩
    intro cl there
    have feed := holds.2 cl there
    have pool : ∀ q, load (flight i q) (c.pool ++ [.attach]) = load (flight i q) c.pool := by
      intro q
      rw [loadAppend]
      rfl
    refine ⟨?_,feed.whole,feed.quotes,feed.follows,?_⟩
    · intro following q
      rw [← feed.each following q]
      exact congrArg _ (pool q)
    · intro following t mem ev here
      rcases List.mem_append.mp mem with old | last
      · exact feed.ahead following t old ev here
      · rw [List.mem_singleton.mp last] at here
        contradiction
  · intro c k t choice s' g new holds found room stepped
    have step := nextStep stepped
    exact ⟨shapeStep holds.1 found step,feedsStep holds.1 holds.2 found room step⟩

/- Each line has reached the subscriber once or is on its way to it once; when
the subscriber left its loop and was not cut off, it has written each line once;
and what it got are lines of the log, each stream in order. -/
structure Replayed (i : Nat) (c : Process) (cl : Client) : Prop where
  each : cl.position = .following → ∀ q < c.shared.job.lines.length,
    (seqs cl.arrived).count q + load (flight i q) c.pool = 1
  whole : cl.position ≠ .following → cl.connected = true → ∀ q < c.shared.job.lines.length,
    (seqs cl.written).count q = 1
  quotes : ∀ ev ∈ cl.view, Quotes c.shared.job.lines ev
  ordered : cl.view.Pairwise InOrder

theorem logReplay {j : Job} (running : j.final = none) (body : String) (row : Option Row) (i : Nat)
    {events : List (Event Call Choice)} {c : Process} {cl : Client}
    (guarded : Along system (NeverFull i) (launch j body row) events)
    (ran : run system (launch j body row) events = some c) (attached : c.shared.clients[i]? = some cl) :
    Replayed i c cl := by
  have empty : Feeds i (launch j body row) := by
    intro cl there
    simp [launch] at there
  obtain ⟨_,feeds⟩ := runPreserved (feedsPreserved i) ⟨launchShape running body row,empty⟩ guarded ran
  have feed := feeds cl attached
  constructor
  · intro following q inside
    have sum := feed.each following q
    rw [once,if_pos inside] at sum
    exact sum
  · intro left connected q inside
    have count := (feed.whole left connected).2 q
    rw [once,if_pos inside] at count
    exact count
  · exact feed.quotes
  · exact feed.follows.imp (fun follows => follows.1)

def sampleJob : Job := prepared "a1b2c3d4" "demo" "1.0" .install

/- The subscriber attaches when five lines are in the log; the reader of stdout
has appended a line and not yet sent it, the reader of stderr has sent its own. -/
def attachBetween : List (Event Call Choice) :=
  (List.replicate 11 (.step 0 {}) : Events) ++
    ([.step 2 {text := "first"},.call .attach,.step 4 {},.step 2 {},.step 2 {text := "out"},
      .step 3 {text := "err"},.step 3 {}] : Events)

theorem logReplayBetween : ∃ c cl, run system (launch sampleJob "" none) attachBetween = some c ∧
    c.shared.clients[0]? = some cl ∧ c.shared.job.lines.length = 7 ∧
    (seqs cl.arrived).count 5 + load (flight 0 5) c.pool = 1 := by
  obtain ⟨c,ran,seven⟩ := (Option.any_eq_true _ _).mp
    (by decide : (run system (launch sampleJob "" none) attachBetween).any
      (fun c => c.shared.clients.length = 1 ∧ c.shared.job.lines.length = 7 ∧
        c.shared.clients.all (fun cl => cl.position == .following)) = true)
  obtain ⟨one,lines,all⟩ := of_decide_eq_true seven
  have inside : 0 < c.shared.clients.length := by omega
  have there : c.shared.clients[0]? = some c.shared.clients[0] := List.getElem?_eq_getElem inside
  have replayed := logReplay rfl "" none 0 (by decide) ran there
  have following := List.all_eq_true.mp all _ (List.getElem_mem inside)
  exact ⟨c,_,ran,there,lines,replayed.each (eq_of_beq following) 5 (by omega)⟩

end ContainerWS.JobLog
