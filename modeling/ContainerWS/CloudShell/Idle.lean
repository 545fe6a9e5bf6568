import ContainerWS.CloudShell.Sessions

/-! Which sessions an idle timer ends. Its callback looks for a client and destroys the session
later, under the lock again: a client that attaches in between is thrown out, and a callback
that was on its way when a client came and went does not know of it. -/
namespace ContainerWS.CloudShell
variable {size : Nat}

/- The timer has not looked for a client yet. -/
def TimerPoint.early : TimerPoint → Bool
  | .sleeping => true
  | .stopped => true
  | .get => true
  | .check => true
  | _ => false

/- A timer that ended the session has found no client, none has attached since it looked, and none
since it was scheduled. -/
def Spared (s : Session size) : Prop :=
  ∀ e i, s.history.ended = some e → e.cause = .timer i → e.client = none ∧
    ∃ t, s.timers[i]? = some t ∧ t.checked = some e.attaches ∧ t.born = e.attaches

structure Idle (s : Session size) : Prop where
  armed : ∀ (i : Nat) (t : Timer), s.timers[i]? = some t → t.point = .sleeping → s.idleTimer = some i ∧ t.born = s.clients.length
  early : ∀ (i : Nat) (t : Timer), s.timers[i]? = some t → t.point.early = true → t.checked = none
  resolved : ∀ (i : Nat) (t : Timer), s.timers[i]? = some t → t.point = .destroy .lock → s.closed = false →
    s.attach = none ∧ t.checked = some s.clients.length ∧ t.born = s.clients.length
  spared : Spared s

/- The runtime stops the timer that the session knows. -/
theorem stopAtGet {timers : List Timer} {known : Option Nat} {i : Nat} {t : Timer} (found : (stopAt timers known)[i]? = some t) :
    ∃ t0, timers[i]? = some t0 ∧ t = if known = some i then stop t0 else t0 := by
  cases known with
  | none => exact ⟨t,found,rfl⟩
  | some j =>
    rw [stopAt,List.getElem?_modify] at found
    obtain ⟨t0,here,same⟩ := Option.map_eq_some_iff.mp found
    refine ⟨t0,here,?_⟩
    rw [← same]
    by_cases own : j = i
    · rw [if_pos own,if_pos (congrArg some own)]
    · rw [if_neg own,if_neg (fun other => own (Option.some.inj other))]

theorem stopAtKeeps {timers : List Timer} {i : Nat} {t0 : Timer} (known : Option Nat) (found : timers[i]? = some t0) :
    ∃ t, (stopAt timers known)[i]? = some t ∧ t.checked = t0.checked ∧ t.born = t0.born := by
  have kept (t : Timer) : (stop t).checked = t.checked ∧ (stop t).born = t.born := by
    unfold stop
    split <;> exact ⟨rfl,rfl⟩
  cases known with
  | none => exact ⟨t0,found,rfl,rfl⟩
  | some j =>
    refine ⟨_,by rw [stopAt,List.getElem?_modify,found]; rfl,?_⟩
    dsimp only
    split
    · exact kept t0
    · exact ⟨rfl,rfl⟩

theorem stopPoint (t : Timer) : (stop t).point ≠ .sleeping ∧ ((stop t).point.early = t.point.early) ∧
    ((stop t).point = .destroy .lock → stop t = t) := by
  unfold stop
  split
  · rename_i sleeping
    exact ⟨by simp,by rw [sleeping]; rfl,by simp⟩
  · rename_i other
    exact ⟨other,rfl,fun _ => rfl⟩

/- Behind `cancelIdle` no timer sleeps, and those that run are as they were. -/
theorem cancelled {s : Session size} (idle : Idle s) {i : Nat} {t : Timer} (found : (stopAt s.timers s.idleTimer)[i]? = some t) :
    t.point ≠ .sleeping ∧ (t.point.early = true → t.checked = none) ∧ (t.point = .destroy .lock → s.timers[i]? = some t) := by
  obtain ⟨t0,before,rfl⟩ := stopAtGet found
  split
  · obtain ⟨awake,early,same⟩ := stopPoint t0
    have checked : (stop t0).checked = t0.checked := by
      unfold stop
      split <;> rfl
    refine ⟨awake,?_,?_⟩
    · intro soon
      rw [checked]
      exact idle.early i t0 before (early ▸ soon)
    · intro locked
      rw [same locked]
      exact before
  · rename_i other
    exact ⟨fun sleeping => other (idle.armed i t0 before sleeping).1,idle.early i t0 before,fun _ => before⟩

theorem sparedStop {s t : Session size} (spared : Spared s) (ended : t.history.ended = s.history.ended)
    (kept : ∀ (i : Nat) (t0 : Timer), s.timers[i]? = some t0 → ∃ t1 : Timer, t.timers[i]? = some t1 ∧ t1.checked = t0.checked ∧ t1.born = t0.born) :
    Spared t := by
  intro e i finished cause
  obtain ⟨none,t0,found,checked,born⟩ := spared e i (ended ▸ finished) cause
  obtain ⟨t1,still,same,same'⟩ := kept i t0 found
  exact ⟨none,t1,still,same.trans checked,same'.trans born⟩

/- A step that leaves the timers alone. -/
theorem idleBeside {s t : Session size} (idle : Idle s) (timers : t.timers = s.timers) (known : t.idleTimer = s.idleTimer)
    (clients : t.clients.length = s.clients.length) (closed : t.closed = s.closed)
    (attach : t.attach = s.attach ∨ t.attach = none) (ended : t.history.ended = s.history.ended) : Idle t := by
  refine ⟨?_,?_,?_,?_⟩
  · rw [timers,known,clients]
    exact idle.armed
  · rw [timers]
    exact idle.early
  · rw [timers,closed,clients]
    intro i t' found locked isOpen
    obtain ⟨none,rest⟩ := idle.resolved i t' found locked isOpen
    refine ⟨?_,rest⟩
    rcases attach with same | gone
    · exact same.trans none
    · exact gone
  · intro e i finished cause
    rw [timers]
    exact idle.spared e i (ended ▸ finished) cause

theorem idleAttach {s : Session size} (idle : Idle s) (fails : Bool)
    (calm : s.closed = true ∨ ∀ t ∈ s.timers, t.point ≠ .destroy .lock) : Idle (s.attachSink fails) := by
  unfold Session.attachSink
  split
  · exact idle
  · rename_i isOpen
    have calm := calm.resolve_left isOpen
    refine ⟨?_,?_,?_,?_⟩
    · intro i t found sleeping
      exact absurd sleeping (cancelled idle found).1
    · intro i t found
      exact (cancelled idle found).2.1
    · intro i t found locked
      exact absurd locked (calm t (List.mem_of_getElem? ((cancelled idle found).2.2 locked)))
    · exact sparedStop idle.spared rfl (fun i t0 found => stopAtKeeps s.idleTimer found)

theorem idleSchedule {s : Session size} (idle : Idle s) : Idle s.scheduleIdle := by
  have place {i : Nat} {t : Timer} (found : s.scheduleIdle.timers[i]? = some t) :
      (stopAt s.timers s.idleTimer)[i]? = some t ∨
      i = (stopAt s.timers s.idleTimer).length ∧ t = ⟨.sleeping,s.clients.length,none⟩ := by
    have found : (stopAt s.timers s.idleTimer ++ [(⟨.sleeping,s.clients.length,none⟩ : Timer)])[i]? = some t := found
    rcases Nat.lt_trichotomy i (stopAt s.timers s.idleTimer).length with less | same | more
    · rw [List.getElem?_append_left less] at found
      exact .inl found
    · subst same
      rw [List.getElem?_concat_length] at found
      exact .inr ⟨rfl,(Option.some.inj found).symm⟩
    · rw [List.getElem?_eq_none (by simp; omega)] at found
      contradiction
  refine ⟨?_,?_,?_,?_⟩
  · intro i t found sleeping
    rcases place found with old | ⟨rfl,rfl⟩
    · exact absurd sleeping (cancelled idle old).1
    · exact ⟨rfl,rfl⟩
  · intro i t found early
    rcases place found with old | ⟨_,rfl⟩
    · exact (cancelled idle old).2.1 early
    · rfl
  · intro i t found locked isOpen
    rcases place found with old | ⟨_,rfl⟩
    · exact idle.resolved i t ((cancelled idle old).2.2 locked) locked isOpen
    · contradiction
  · refine sparedStop idle.spared rfl (fun i t0 found => ?_)
    obtain ⟨t1,still,same⟩ := stopAtKeeps s.idleTimer found
    refine ⟨t1,?_,same⟩
    show (stopAt s.timers s.idleTimer ++ [_])[i]? = some t1
    rw [List.getElem?_append_left (List.getElem?_eq_some_iff.mp still).1]
    exact still

/- Who takes the lock to end the session is a timer only if it has found no client. -/
theorem idleDestroy {s : Session size} (idle : Idle s) (cause : Cause) (fails : Bool) (d : Destroying)
    (own : d = .lock → ∀ i, cause = .timer i → ∃ t, s.timers[i]? = some t ∧ t.point = .destroy .lock) :
    Idle (s.destroy cause fails d).1 := by
  cases d with
  | lock =>
    simp only [Session.destroy,Session.destroyLocked]
    split
    · exact idle
    · rename_i isOpen
      refine ⟨?_,?_,?_,?_⟩
      · intro i t found sleeping
        exact absurd sleeping (cancelled idle found).1
      · intro i t found
        exact (cancelled idle found).2.1
      · intro i t found locked wrong
        contradiction
      · intro e i finished by'
        cases Option.some.inj finished
        obtain ⟨t0,found,locked⟩ := own rfl i by'
        obtain ⟨none,checked,born⟩ := idle.resolved i t0 found locked (by simpa using isOpen)
        obtain ⟨t1,still,same,same'⟩ := stopAtKeeps s.idleTimer found
        exact ⟨none,t1,still,same.trans checked,same'.trans born⟩
  | remove change => exact idleBeside idle rfl rfl rfl rfl (.inl rfl) rfl
  | persist change => exact idleBeside idle rfl rfl rfl rfl (.inl rfl) rfl
  | done => exact idle

theorem timerSet {timers : List Timer} {i j : Nat} {t t' u : Timer} (found : timers[i]? = some t)
    (here : (timers.set i t')[j]? = some u) : j = i ∧ u = t' ∨ j ≠ i ∧ timers[j]? = some u := by
  by_cases same : i = j
  · subst same
    rw [List.getElem?_set_self (List.getElem?_eq_some_iff.mp found).1] at here
    exact .inl ⟨rfl,(Option.some.inj here).symm⟩
  · rw [List.getElem?_set_ne same] at here
    exact .inr ⟨Ne.symm same,here⟩

/- One timer goes on. -/
theorem idleSet {s : Session size} (idle : Idle s) {i : Nat} {t t' : Timer} (found : s.timers[i]? = some t)
    (awake : t'.point ≠ .sleeping) (early : t'.point.early = true → t'.checked = none)
    (resolved : t'.point = .destroy .lock → s.closed = false →
      s.attach = none ∧ t'.checked = some s.clients.length ∧ t'.born = s.clients.length)
    (checked : t.checked ≠ none → t'.checked = t.checked) (born : t'.born = t.born) : Idle (s.setTimer i t') := by
  refine ⟨?_,?_,?_,?_⟩
  · intro j u here sleeping
    rcases timerSet found here with ⟨_,rfl⟩ | ⟨_,old⟩
    · exact absurd sleeping awake
    · exact idle.armed j u old sleeping
  · intro j u here soon
    rcases timerSet found here with ⟨_,rfl⟩ | ⟨_,old⟩
    · exact early soon
    · exact idle.early j u old soon
  · intro j u here locked isOpen
    rcases timerSet found here with ⟨_,rfl⟩ | ⟨_,old⟩
    · exact resolved locked isOpen
    · exact idle.resolved j u old locked isOpen
  · intro e j finished cause
    obtain ⟨none,t0,there,counted,drawn⟩ := idle.spared e j finished cause
    refine ⟨none,?_⟩
    by_cases same : j = i
    · subst same
      cases Option.some.inj (found.symm.trans there)
      refine ⟨t',List.getElem?_set_self (List.getElem?_eq_some_iff.mp found).1,?_,born.trans drawn⟩
      rw [checked (by rw [counted]; simp),counted]
    · exact ⟨t0,(List.getElem?_set_ne (Ne.symm same)).trans there,counted,drawn⟩

/- No client attaches between the check of a callback and its Destroy, and a callback that finds no
client has missed none that attached since its timer was scheduled. -/
def Unhurried (s : Session size) : Move → Prop
  | .connect _ => s.closed = true ∨ s.timers.all (fun t => t.point != .destroy .lock) = true
  | .timer i _ => (s.timers[i]?).all (fun t => t.point != .check || s.attach.isSome || t.born == s.clients.length) = true
  | _ => True

theorem idleFire {s : Session size} (idle : Idle s) {i : Nat} {t : Timer} (found : s.timers[i]? = some t) (fails : Bool)
    (unmissed : t.point = .check → s.attach = none → t.born = s.clients.length) : Idle (s.fire i t fails) := by
  unfold Session.fire
  split
  · rename_i here
    have none := idle.early i t found (by rw [here]; rfl)
    exact idleSet idle found (by simp) (fun _ => none) (by simp) (fun _ => rfl) rfl
  · rename_i here
    have none := idle.early i t found (by rw [here]; rfl)
    refine idleSet idle found ?_ (fun _ => none) ?_ (fun _ => rfl) rfl
    · cases s.registered <;> simp
    · cases s.registered <;> simp
  · rename_i here
    have none := idle.early i t found (by rw [here]; rfl)
    split
    · exact idleSet idle found (by simp) (by simp [TimerPoint.early]) (by simp) (fun _ => rfl) rfl
    · rename_i free
      exact idleSet idle found (by simp) (by simp [TimerPoint.early]) (fun _ _ => ⟨free,rfl,unmissed here free⟩)
        (fun some => absurd none some) rfl
  · rename_i d here
    have kept := idleDestroy idle (.timer i) fails d (by
      intro lock j same
      cases same
      exact ⟨t,found,by rw [here,lock]⟩)
    have still : ∃ t1, (s.destroy (.timer i) fails d).1.timers[i]? = some t1 ∧ t1.checked = t.checked ∧ t1.born = t.born := by
      cases d with
      | lock =>
        simp only [Session.destroy,Session.destroyLocked]
        split
        · exact ⟨t,found,rfl,rfl⟩
        · exact stopAtKeeps s.idleTimer found
      | remove change => exact ⟨t,found,rfl,rfl⟩
      | persist change => exact ⟨t,found,rfl,rfl⟩
      | done => exact ⟨t,found,rfl,rfl⟩
    obtain ⟨t1,here',checked,born⟩ := still
    have past : (s.destroy (.timer i) fails d).2 ≠ .lock := by
      cases d with
      | lock =>
        simp only [Session.destroy,Session.destroyLocked]
        split <;> simp
      | remove change => simp [Session.destroy]
      | persist change => simp [Session.destroy]
      | done => simp [Session.destroy]
    exact idleSet kept here' (by simp) (by simp [TimerPoint.early]) (by simp [past]) (fun _ => checked.symm) born.symm
  · exact idle
  · exact idle

theorem idleServe {s : Session size} (idle : Idle s) (i : Nat) (c : Client) (message : Message) (fails : Bool) :
    Idle (s.serve i c message fails) := by
  have set {t : Session size} (kept : Idle t) (c' : Client) : Idle (t.setClient i c') :=
    idleBeside kept rfl rfl List.length_set rfl (.inl rfl) rfl
  unfold Session.serve
  split
  · exact set idle _
  · exact set idle _
  · cases message <;> exact set idle _
  · exact set idle _
  · exact set (idleDestroy idle (.client i) fails _ (fun _ _ other => nomatch other)) _
  · exact set idle _
  · refine set ?_ _
    unfold Session.detach
    split
    · exact idleBeside idle rfl rfl rfl rfl (.inr rfl) rfl
    · exact idle
  · exact set (t := s.persist fails _ .detached) (idleBeside idle rfl rfl rfl rfl (.inl rfl) rfl) _
  · exact set (idleSchedule idle) _
  · exact idle

theorem idleAdvance {s : Session size} (idle : Idle s) (input : Input) (fails : Bool) : Idle (s.advance input fails) := by
  have sent (sink : Nat) (f : Frame) : (s.deliver sink f).clients.length = s.clients.length := List.length_modify _ _ _
  unfold Session.advance
  split
  · split
    · exact idleBeside idle rfl rfl rfl rfl (.inl rfl) rfl
    · exact idleBeside idle rfl rfl rfl rfl (.inl rfl) rfl
  · exact idleBeside idle rfl rfl (sent _ _) rfl (.inl rfl) rfl
  · exact idleBeside idle rfl rfl rfl rfl (.inl rfl) rfl
  · exact idleBeside idle rfl rfl (sent _ _) rfl (.inl rfl) rfl
  · exact idleBeside idle rfl rfl (sent _ _) rfl (.inl rfl) rfl
  · exact idleBeside (idleDestroy idle .reader fails _ (fun _ _ other => nomatch other)) rfl rfl rfl rfl (.inl rfl) rfl

theorem idleStep {s t : Session size} {m : Move} (idle : Idle s) (unhurried : Unhurried s m) (moved : step s m = some t) :
    Idle t := by
  cases m with
  | connect fails =>
    cases moved
    refine idleAttach idle fails (unhurried.imp id (fun all t mem => ?_))
    simpa using List.all_eq_true.mp all t mem
  | client i message fails =>
    obtain ⟨c,_,rfl⟩ := Option.map_eq_some_iff.mp moved
    exact idleServe idle i c message fails
  | lose i =>
    obtain ⟨c,_,rfl⟩ := Option.map_eq_some_iff.mp moved
    exact idleBeside idle rfl rfl List.length_set rfl (.inl rfl) rfl
  | kill =>
    cases moved
    exact idleBeside idle rfl rfl rfl rfl (.inl rfl) rfl
  | killer i fails =>
    obtain ⟨d,_,rfl⟩ := Option.map_eq_some_iff.mp moved
    exact idleBeside (idleDestroy idle .kill fails d (fun _ _ other => nomatch other)) rfl rfl rfl rfl (.inl rfl) rfl
  | timer i fails =>
    obtain ⟨t,found,rfl⟩ := Option.map_eq_some_iff.mp moved
    refine idleFire idle found fails ?_
    intro here free
    have unmissed : (s.timers[i]?).all (fun t => t.point != .check || s.attach.isSome || t.born == s.clients.length) = true := unhurried
    rw [found] at unmissed
    simpa [here,free] using unmissed
  | reader input fails =>
    cases moved
    exact idleAdvance idle input fails

theorem idleCreate (n : Nat) : Idle (create n) := by
  refine ⟨?_,?_,?_,?_⟩
  · intro i t found
    contradiction
  · intro i t found
    contradiction
  · intro i t found
    contradiction
  · intro e i finished
    contradiction

/- An idle timer ends only sessions that have been without a client since it was scheduled, wherever
the Attaches of a run fall that keep clear of the gap in its callback. -/
theorem idleSpares {n : Nat} {moves : List Move} {s : Session (ringSize n)} (unhurried : Runs.Guided step Unhurried (create n) moves)
    (ran : Runs.run step (create n) moves = some s) : Spared s :=
  (Runs.runGuided idleStep (idleCreate n) unhurried ran).spared

/- A client comes and leaves, and the timer it leaves behind fires. -/
def left : List Move :=
  [.connect false,.client 0 .ping false,.client 0 .ping false,.client 0 .leave false,.client 0 .ping false,.client 0 .ping false,
    .client 0 .ping false,.timer 0 false,.timer 0 false,.timer 0 false]

theorem leftEnds (ring : RingBuffer UInt8 size) : ∃ s, Runs.run step (opened ring) (left ++ [.timer 0 false]) = some s ∧
    s.history.ended = some ⟨.timer 0,none,1⟩ := ⟨_,rfl,rfl⟩

theorem leftUnhurried (ring : RingBuffer UInt8 size) : Runs.Guided step Unhurried (opened ring) (left ++ [.timer 0 false]) :=
  ⟨.inr rfl,trivial,trivial,trivial,trivial,trivial,trivial,rfl,rfl,rfl,rfl,trivial⟩

theorem idleSparesLeft : ∃ s, Runs.run step (create sessionRingBytes) (left ++ [.timer 0 false]) = some s ∧ Spared s := by
  obtain ⟨s,ran,_⟩ := leftEnds (newByteRing sessionRingBytes)
  exact ⟨s,ran,idleSpares (leftUnhurried _) ran⟩

theorem returnsEnded (ring : RingBuffer UInt8 size) :
    ∃ s, Runs.run step (opened ring) (left ++ [.connect false,.timer 0 false]) = some s ∧
      s.history.ended = some ⟨.timer 0,some 1,2⟩ := ⟨_,rfl,rfl⟩

/- The next client attaches behind the check: its session is destroyed. -/
theorem attachedDestroyed : ¬∀ moves s, Runs.run step (create sessionRingBytes) moves = some s → Spared s := by
  intro all
  obtain ⟨s,ran,ended⟩ := returnsEnded (newByteRing sessionRingBytes)
  have none := (all _ s ran _ 0 ended rfl).1
  contradiction

end ContainerWS.CloudShell
