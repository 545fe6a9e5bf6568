import ContainerWS.CloudShell.Sessions

/-! What the row of a session says of it. Attach writes the row under the lock, Detach and
Destroy behind it: their writes may come when the session has changed again. The last change
has the last word as long as no write comes later than one that belongs to a later change. -/
namespace ContainerWS.CloudShell
variable {size : Nat}

/- A row write that is still to come: the change it belongs to and what it writes. -/
abbrev Debt := Nat × ShellSessionStatus

def Destroying.debt : Destroying → Option Debt
  | .remove change => some (change,.closed)
  | .persist change => some (change,.closed)
  | _ => none

def ClientPoint.debt : ClientPoint → Option Debt
  | .persist change => some (change,.detached)
  | .destroy d => d.debt
  | _ => none

def TimerPoint.debt : TimerPoint → Option Debt
  | .destroy d => d.debt
  | _ => none

def Reader.debt : Reader → Option Debt
  | .destroy d => d.debt
  | _ => none

def Client.debt (c : Client) : Option Debt := c.point.debt

def Timer.debt (t : Timer) : Option Debt := t.point.debt

def Session.debts (s : Session size) : List Debt :=
  s.clients.filterMap Client.debt ++ s.timers.filterMap Timer.debt ++ s.kills.filterMap Destroying.debt ++ s.reader.debt.toList

/- What the row should say. -/
def Session.status (s : Session size) : ShellSessionStatus :=
  if s.closed then .closed else if s.attach.isSome then .active else .detached

/- With no operation half done the row agrees with the session, once it has had its first client. -/
def Agrees (s : Session size) : Prop := s.debts = [] → 0 < s.history.changes → s.row = s.status

/- Each write belongs to a change that has happened, the one of the last change says what holds, and
when that one is no longer to come the row has it. -/
structure Settled (s : Session size) : Prop where
  owed : ∀ n status, (n,status) ∈ s.debts → n ≤ s.history.changes ∧ (n = s.history.changes → status = s.status)
  last : (∃ status, (s.history.changes,status) ∈ s.debts) ∨
    s.history.landed = s.history.changes ∧ (0 < s.history.changes → s.row = s.status)
  shut : s.closed = true → s.attach = none

/- What one step of a party does to the row and the session, by the write that is to come from that
party before and after it. -/
inductive Effect (s t : Session size) : Option Debt → Option Debt → Prop where
  | silent {debt} (status : t.status = s.status) (changes : t.history.changes = s.history.changes)
      (landed : t.history.landed = s.history.landed) (row : t.row = s.row) : Effect s t debt debt
  | change (changes : t.history.changes = s.history.changes + 1) : Effect s t none (some (t.history.changes,t.status))
  | landing {n status} (same : t.status = s.status) (changes : t.history.changes = s.history.changes)
      (landed : t.history.landed = n) (row : t.row = status) : Effect s t (some (n,status)) none

/- The writes to come change at one party only. -/
structure Turns (s t : Session size) (old new : Option Debt) : Prop where
  from' : ∀ y ∈ t.debts, y ∈ s.debts ∨ new = some y
  kept : ∀ y ∈ s.debts, old ≠ some y → y ∈ t.debts
  comes : ∀ y, new = some y → y ∈ t.debts

theorem settledEffect {s t : Session size} {old new : Option Debt} (settled : Settled s) (effect : Effect s t old new)
    (turns : Turns s t old new) (own : ∀ y, old = some y → y ∈ s.debts)
    (orderly : ∀ n status, old = some (n,status) → new = none → s.history.landed ≤ n)
    (shut : t.closed = true → t.attach = none) : Settled t := by
  cases effect with
  | silent status changes landed row =>
    refine ⟨?_,?_,shut⟩
    · intro n st mem
      rw [changes,status]
      rcases turns.from' _ mem with before | mine
      · exact settled.owed n st before
      · exact settled.owed n st (own _ mine)
    · rw [changes,landed,row,status]
      rcases settled.last with ⟨st,mem⟩ | done
      · by_cases mine : old = some (s.history.changes,st)
        · exact .inl ⟨st,turns.comes _ mine⟩
        · exact .inl ⟨st,turns.kept _ mem mine⟩
      · exact .inr done
  | change changes =>
    refine ⟨?_,.inl ⟨_,turns.comes _ rfl⟩,shut⟩
    intro n st mem
    rcases turns.from' _ mem with before | mine
    · obtain ⟨less,_⟩ := settled.owed n st before
      exact ⟨by omega,by omega⟩
    · cases mine
      exact ⟨Nat.le_refl _,fun _ => rfl⟩
  | @landing n status same changes landed row =>
    obtain ⟨bound,right⟩ := settled.owed n status (own _ rfl)
    have late := orderly n status rfl rfl
    refine ⟨?_,?_,shut⟩
    · intro m st mem
      rw [changes,same]
      rcases turns.from' _ mem with before | mine
      · exact settled.owed m st before
      · contradiction
    · rw [changes,landed,row,same]
      by_cases newest : n = s.history.changes
      · exact .inr ⟨newest,fun _ => right newest⟩
      · rcases settled.last with ⟨st,mem⟩ | ⟨done,_⟩
        · refine .inl ⟨st,turns.kept _ mem ?_⟩
          intro mine
          cases mine
          exact newest rfl
        · omega

/- The write to come of one element of a list. -/
theorem filterMapSet {α : Type} {f : α → Option Debt} {l : List α} {i : Nat} {a b : α} (found : l[i]? = some a) :
    (∀ y ∈ (l.set i b).filterMap f, y ∈ l.filterMap f ∨ f b = some y) ∧
    (∀ y ∈ l.filterMap f, f a ≠ some y → y ∈ (l.set i b).filterMap f) ∧
    (∀ y, f b = some y → y ∈ (l.set i b).filterMap f) := by
  have inside := (List.getElem?_eq_some_iff.mp found).1
  refine ⟨?_,?_,?_⟩
  · intro y mem
    obtain ⟨x,there,same⟩ := List.mem_filterMap.mp mem
    rcases List.mem_or_eq_of_mem_set there with old | rfl
    · exact .inl (List.mem_filterMap.mpr ⟨x,old,same⟩)
    · exact .inr same
  · intro y mem other
    obtain ⟨x,there,same⟩ := List.mem_filterMap.mp mem
    obtain ⟨j,here⟩ := List.mem_iff_getElem?.mp there
    have apart : i ≠ j := by
      rintro rfl
      cases Option.some.inj (found.symm.trans here)
      exact other same
    have still : (l.set i b)[j]? = some x := (List.getElem?_set_ne apart).trans here
    exact List.mem_filterMap.mpr ⟨x,List.mem_of_getElem? still,same⟩
  · intro y same
    exact List.mem_filterMap.mpr ⟨b,List.mem_of_getElem? (List.getElem?_set_self inside),same⟩

theorem memDebts {s : Session size} {y : Debt} : y ∈ s.debts ↔
    y ∈ s.clients.filterMap Client.debt ∨ y ∈ s.timers.filterMap Timer.debt ∨ y ∈ s.kills.filterMap Destroying.debt ∨
      s.reader.debt = some y := by
  simp [Session.debts]

/- Nobody has a write to come while its timer still sleeps. -/
theorem stopAtDebts (timers : List Timer) (known : Option Nat) :
    (stopAt timers known).filterMap Timer.debt = timers.filterMap Timer.debt := by
  have same (t : Timer) : (stop t).debt = t.debt := by
    unfold stop
    split
    · rename_i sleeping
      rw [Timer.debt,Timer.debt,sleeping]
      rfl
    · rfl
  cases known with
  | none => rfl
  | some i =>
    rw [stopAt]
    induction timers generalizing i with
    | nil => rw [List.modify_nil]
    | cons t rest ih =>
      cases i with
      | zero =>
        rw [List.modify_zero_cons,List.filterMap_cons,List.filterMap_cons,same]
      | succ i =>
        rw [List.modify_succ_cons,List.filterMap_cons,List.filterMap_cons,ih]

/- The session apart from its parties. -/
structure Alike (s t : Session size) : Prop where
  clients : t.clients = s.clients
  timers : t.timers.filterMap Timer.debt = s.timers.filterMap Timer.debt
  kills : t.kills = s.kills
  reader : t.reader = s.reader

theorem alikeSelf (s : Session size) : Alike s s := ⟨rfl,rfl,rfl,rfl⟩

theorem destroyAlike (s : Session size) (cause : Cause) (fails : Bool) (d : Destroying) : Alike s (s.destroy cause fails d).1 := by
  cases d with
  | lock =>
    simp only [Session.destroy,Session.destroyLocked]
    split
    · exact alikeSelf s
    · exact ⟨rfl,stopAtDebts _ _,rfl,rfl⟩
  | remove change => exact ⟨rfl,rfl,rfl,rfl⟩
  | persist change => exact ⟨rfl,rfl,rfl,rfl⟩
  | done => exact alikeSelf s

theorem destroyEffect (s : Session size) (cause : Cause) (d : Destroying) :
    Effect s (s.destroy cause false d).1 d.debt (s.destroy cause false d).2.debt := by
  cases d with
  | lock =>
    simp only [Session.destroy,Session.destroyLocked]
    split
    · exact .silent rfl rfl rfl rfl
    · exact .change rfl
  | remove change => exact .silent rfl rfl rfl rfl
  | persist change => exact .landing rfl rfl rfl rfl
  | done => exact .silent rfl rfl rfl rfl

theorem destroyShut {s : Session size} (shut : s.closed = true → s.attach = none) (cause : Cause) (fails : Bool) (d : Destroying) :
    (s.destroy cause fails d).1.closed = true → (s.destroy cause fails d).1.attach = none := by
  cases d with
  | lock =>
    simp only [Session.destroy,Session.destroyLocked]
    split
    · exact shut
    · exact fun _ => rfl
  | remove change => exact shut
  | persist change => exact shut
  | done => exact shut

theorem turnsClient {s t : Session size} (alike : Alike s t) {i : Nat} {c c' : Client} (found : s.clients[i]? = some c) :
    Turns s (t.setClient i c') c.debt c'.debt := by
  obtain ⟨from',kept,comes⟩ := filterMapSet (f := Client.debt) (b := c') found
  have clients : (t.setClient i c').clients = s.clients.set i c' := by rw [Session.setClient,alike.clients]
  have timers : (t.setClient i c').timers.filterMap Timer.debt = s.timers.filterMap Timer.debt := alike.timers
  have kills : (t.setClient i c').kills = s.kills := alike.kills
  have reader : (t.setClient i c').reader = s.reader := alike.reader
  refine ⟨?_,?_,?_⟩
  · intro y mem
    rw [memDebts,clients,timers,kills,reader] at mem
    rw [memDebts]
    rcases mem with mine | other
    · exact (from' y mine).imp .inl id
    · exact .inl (.inr other)
  · intro y mem mine
    rw [memDebts] at mem
    rw [memDebts,clients,timers,kills,reader]
    exact mem.imp (fun here => kept y here mine) id
  · intro y new
    rw [memDebts,clients]
    exact .inl (comes y new)

theorem turnsTimer {s t : Session size} (alike : Alike s t) {i : Nat} {u u' : Timer} (found : t.timers[i]? = some u) :
    Turns s (t.setTimer i u') u.debt u'.debt := by
  obtain ⟨from',kept,comes⟩ := filterMapSet (f := Timer.debt) (b := u') found
  have clients : (t.setTimer i u').clients = s.clients := alike.clients
  have kills : (t.setTimer i u').kills = s.kills := alike.kills
  have reader : (t.setTimer i u').reader = s.reader := alike.reader
  refine ⟨?_,?_,?_⟩
  · intro y mem
    rw [memDebts,clients,kills,reader] at mem
    rw [memDebts,← alike.timers]
    rcases mem with first | mine | other
    · exact .inl (.inl first)
    · exact (from' y mine).imp (fun old => .inr (.inl old)) id
    · exact .inl (.inr (.inr other))
  · intro y mem mine
    rw [memDebts,← alike.timers] at mem
    rw [memDebts,clients,kills,reader]
    exact mem.imp id (.imp (fun here => kept y here mine) id)
  · intro y new
    rw [memDebts]
    exact .inr (.inl (comes y new))

theorem turnsKill {s t : Session size} (alike : Alike s t) {i : Nat} {d d' : Destroying} (found : s.kills[i]? = some d) :
    Turns s {t with kills := s.kills.set i d'} d.debt d'.debt := by
  obtain ⟨from',kept,comes⟩ := filterMapSet (f := Destroying.debt) (b := d') found
  refine ⟨?_,?_,?_⟩
  · intro y mem
    rw [memDebts] at mem ⊢
    simp only [alike.clients,alike.timers,alike.reader] at mem
    rcases mem with first | second | mine | last
    · exact .inl (.inl first)
    · exact .inl (.inr (.inl second))
    · exact (from' y mine).imp (fun old => .inr (.inr (.inl old))) id
    · exact .inl (.inr (.inr (.inr last)))
  · intro y mem mine
    rw [memDebts] at mem ⊢
    simp only [alike.clients,alike.timers,alike.reader]
    exact mem.imp id (.imp id (.imp (fun here => kept y here mine) id))
  · intro y new
    rw [memDebts]
    exact .inr (.inr (.inl (comes y new)))

theorem turnsReader {s t : Session size} (alike : Alike s t) (r : Reader) :
    Turns s {t with reader := r} s.reader.debt r.debt := by
  refine ⟨?_,?_,?_⟩
  · intro y mem
    rw [memDebts] at mem ⊢
    simp only [alike.clients,alike.timers,alike.kills] at mem
    rcases mem with first | second | third | mine
    · exact .inl (.inl first)
    · exact .inl (.inr (.inl second))
    · exact .inl (.inr (.inr (.inl third)))
    · exact .inr mine
  · intro y mem mine
    rw [memDebts] at mem ⊢
    simp only [alike.clients,alike.timers,alike.kills]
    exact mem.imp id (.imp id (.imp id (fun here => absurd here mine)))
  · intro y new
    rw [memDebts]
    exact .inr (.inr (.inr new))

/- The change that the next step of a party writes to the row. -/
def Destroying.writes : Destroying → Option Nat
  | .persist change => some change
  | _ => none

def ClientPoint.writes : ClientPoint → Option Nat
  | .persist change => some change
  | .destroy d => d.writes
  | _ => none

def TimerPoint.writes : TimerPoint → Option Nat
  | .destroy d => d.writes
  | _ => none

def Reader.writes : Reader → Option Nat
  | .destroy d => d.writes
  | _ => none

def Move.fails : Move → Bool
  | .connect fails => fails
  | .client _ _ fails => fails
  | .killer _ fails => fails
  | .timer _ fails => fails
  | .reader _ fails => fails
  | _ => false

def Session.writes (s : Session size) : Move → Option Nat
  | .connect _ => if s.closed then none else some (s.history.changes+1)
  | .client i _ _ => (s.clients[i]?).bind (·.point.writes)
  | .killer i _ => (s.kills[i]?).bind (·.writes)
  | .timer i _ => (s.timers[i]?).bind (·.point.writes)
  | .reader _ _ => s.reader.writes
  | _ => none

/- A write works, and it does not come later than that of a later change. -/
def Orderly (s : Session size) (m : Move) : Prop :=
  (s.writes m).all (fun n => !m.fails && s.history.landed ≤ n) = true

/- Where a party has a write to come and has none behind its step, that step is the write. -/
theorem destroyWrites {s : Session size} {cause : Cause} {fails : Bool} {d : Destroying} {n : Nat} {status : ShellSessionStatus}
    (owes : d.debt = some (n,status)) (finished : (s.destroy cause fails d).2.debt = none) : d.writes = some n := by
  cases d with
  | persist change =>
    cases owes
    rfl
  | remove change => cases finished
  | lock => cases owes
  | done => cases owes

theorem destroyWorks {s : Session size} {cause : Cause} {fails : Bool} {d : Destroying} (works : d.writes ≠ none → fails = false) :
    s.destroy cause fails d = s.destroy cause false d := by
  cases d with
  | persist change => rw [works (by simp [Destroying.writes])]
  | _ => rfl

theorem effectSame {s t u : Session size} {old new : Option Debt} (effect : Effect s t old new) (status : u.status = t.status)
    (row : u.row = t.row) (history : u.history = t.history) : Effect s u old new := by
  cases effect with
  | silent same changes landed kept =>
    exact .silent (status.trans same) (by rw [history,changes]) (by rw [history,landed]) (row.trans kept)
  | change changes =>
    rw [← status,← history]
    exact .change (by rw [history,changes])
  | landing same changes landed written =>
    exact .landing (status.trans same) (by rw [history,changes]) (by rw [history,landed]) (row.trans written)

/- One lemma for each kind of party. -/

theorem settledClient {s t : Session size} (settled : Settled s) (alike : Alike s t) {i : Nat} {c c' : Client}
    (found : s.clients[i]? = some c) (effect : Effect s t c.debt c'.debt)
    (orderly : ∀ n status, c.debt = some (n,status) → c'.debt = none → s.history.landed ≤ n)
    (shut : t.closed = true → t.attach = none) : Settled (t.setClient i c') := by
  refine settledEffect settled (effectSame effect rfl rfl rfl) (turnsClient alike found) ?_ orderly shut
  intro y mine
  exact memDebts.mpr (.inl (List.mem_filterMap.mpr ⟨c,List.mem_of_getElem? found,mine⟩))

theorem settledTimer {s t : Session size} (settled : Settled s) (alike : Alike s t) {i : Nat} {u u' : Timer}
    (found : t.timers[i]? = some u) (effect : Effect s t u.debt u'.debt)
    (orderly : ∀ n status, u.debt = some (n,status) → u'.debt = none → s.history.landed ≤ n)
    (shut : t.closed = true → t.attach = none) : Settled (t.setTimer i u') := by
  refine settledEffect settled (effectSame effect rfl rfl rfl) (turnsTimer alike found) ?_ orderly shut
  intro y mine
  refine memDebts.mpr (.inr (.inl ?_))
  rw [← alike.timers]
  exact List.mem_filterMap.mpr ⟨u,List.mem_of_getElem? found,mine⟩

theorem settledKill {s t : Session size} (settled : Settled s) (alike : Alike s t) {i : Nat} {d d' : Destroying}
    (found : s.kills[i]? = some d) (effect : Effect s t d.debt d'.debt)
    (orderly : ∀ n status, d.debt = some (n,status) → d'.debt = none → s.history.landed ≤ n)
    (shut : t.closed = true → t.attach = none) : Settled {t with kills := s.kills.set i d'} := by
  refine settledEffect settled (effectSame effect rfl rfl rfl) (turnsKill alike found) ?_ orderly shut
  intro y mine
  exact memDebts.mpr (.inr (.inr (.inl (List.mem_filterMap.mpr ⟨d,List.mem_of_getElem? found,mine⟩))))

theorem settledReader {s t : Session size} (settled : Settled s) (alike : Alike s t) {r : Reader}
    (effect : Effect s t s.reader.debt r.debt)
    (orderly : ∀ n status, s.reader.debt = some (n,status) → r.debt = none → s.history.landed ≤ n)
    (shut : t.closed = true → t.attach = none) : Settled {t with reader := r} := by
  refine settledEffect settled (effectSame effect rfl rfl rfl) (turnsReader alike r) ?_ orderly shut
  intro y mine
  exact memDebts.mpr (.inr (.inr (.inr mine)))

/- A step that writes nothing and changes nothing of the session. -/
theorem effectIdle {s : Session size} {old new : Option Debt} (same : new = old) : Effect s s old new := by
  subst same
  exact .silent rfl rfl rfl rfl

/- What a call of Destroy needs of the run to keep the row right. -/
structure Ready (s : Session size) (fails : Bool) (d : Destroying) : Prop where
  works : d.writes ≠ none → fails = false
  late : ∀ n, d.writes = some n → s.history.landed ≤ n

theorem readyAll {s : Session size} {fails : Bool} {d : Destroying}
    (orderly : d.writes.all (fun n => !fails && s.history.landed ≤ n) = true) : Ready s fails d := by
  cases d with
  | persist change =>
    simp only [Destroying.writes,Option.all_some,Bool.and_eq_true,Bool.not_eq_true',decide_eq_true_eq] at orderly
    refine ⟨fun _ => orderly.1,?_⟩
    intro n same
    cases same
    exact orderly.2
  | _ => exact ⟨fun some => absurd rfl some,fun n wrong => absurd wrong (by simp [Destroying.writes])⟩

theorem destroyLate {s : Session size} {cause : Cause} {fails : Bool} {d : Destroying} (ready : Ready s fails d) :
    ∀ n status, d.debt = some (n,status) → (s.destroy cause fails d).2.debt = none → s.history.landed ≤ n :=
  fun n _ owes finished => ready.late n (destroyWrites owes finished)

theorem destroyKeeps {s : Session size} (cause : Cause) {fails : Bool} {d : Destroying} (ready : Ready s fails d) :
    Effect s (s.destroy cause fails d).1 d.debt (s.destroy cause fails d).2.debt := by
  rw [destroyWorks ready.works]
  exact destroyEffect s cause d

theorem settledServe {s : Session size} (settled : Settled s) {i : Nat} {c : Client} (found : s.clients[i]? = some c)
    (message : Message) (fails : Bool) (orderly : c.point.writes.all (fun n => !fails && s.history.landed ≤ n) = true) :
    Settled (s.serve i c message fails) := by
  have quiet {c' : Client} (clear : c.point.debt = none) (same : c'.point.debt = none) : Settled (s.setClient i c') :=
    settledClient settled (alikeSelf s) found (effectIdle (same.trans clear.symm))
      (fun n status owes => absurd (clear.symm.trans owes) (by simp)) settled.shut
  have sent (f : Frame) : (c.send f).point = c.point := by
    unfold Client.send
    split <;> rfl
  unfold Session.serve
  split
  · rename_i here
    exact quiet (by rw [here]; rfl) rfl
  · rename_i here
    exact quiet (by rw [here]; rfl) rfl
  · rename_i here
    have none : c.point.debt = none := by rw [here]; rfl
    cases message with
    | ping => exact quiet none (by rw [sent]; exact none)
    | kill => exact quiet none rfl
    | leave => exact quiet none rfl
  · rename_i here
    exact quiet (by rw [here]; rfl) rfl
  · rename_i d _ here
    have owes : c.debt = d.debt := by rw [Client.debt,here]; rfl
    have ready : Ready s fails d := readyAll (by rw [here] at orderly; exact orderly)
    refine settledClient settled (destroyAlike s (.client i) fails d) found ?_ ?_ (destroyShut settled.shut (.client i) fails d)
    · rw [owes]
      exact destroyKeeps (.client i) ready
    · rw [owes]
      exact destroyLate ready
  · rename_i here
    exact quiet (by rw [here]; rfl) rfl
  · rename_i here
    have none : c.debt = none := by rw [Client.debt,here]; rfl
    unfold Session.detach
    split
    · rename_i mine
      have free : s.closed = false := by
        cases shut : s.closed with
        | false => rfl
        | true => rw [settled.shut shut] at mine; contradiction
      refine settledClient (t := {s with attach := .none, history := {s.history with changes := s.history.changes+1}}) settled
        ⟨rfl,rfl,rfl,rfl⟩ found ?_ (fun n status owes => absurd (none.symm.trans owes) (by simp)) (fun _ => rfl)
      rw [none]
      have after : ({s with attach := .none, history := {s.history with changes := s.history.changes+1}} : Session size).status =
          .detached := by
        simp [Session.status,free]
      have change := Effect.change (s := s)
        (t := {s with attach := .none, history := {s.history with changes := s.history.changes+1}}) rfl
      rw [after] at change
      exact change
    · exact quiet none rfl
  · rename_i change here
    rw [here] at orderly
    simp only [ClientPoint.writes,Option.all_some,Bool.and_eq_true,Bool.not_eq_true',decide_eq_true_eq] at orderly
    have owes : c.debt = some (change,.detached) := by rw [Client.debt,here]; rfl
    refine settledClient (t := s.persist fails change .detached) settled ⟨rfl,rfl,rfl,rfl⟩ found ?_ ?_ settled.shut
    · rw [owes,orderly.1]
      exact .landing rfl rfl rfl rfl
    · intro n status same _
      cases owes.symm.trans same
      exact orderly.2
  · rename_i here
    have none : c.debt = none := by rw [Client.debt,here]; rfl
    refine settledClient (t := s.scheduleIdle) settled ⟨rfl,?_,rfl,rfl⟩ found ?_ (fun n status owes => absurd (none.symm.trans owes) (by simp)) settled.shut
    · show (stopAt s.timers s.idleTimer ++ [_]).filterMap Timer.debt = _
      rw [List.filterMap_append,stopAtDebts]
      exact List.append_nil _
    · rw [none]
      exact .silent rfl rfl rfl rfl
  · exact settled

theorem settledFire {s : Session size} (settled : Settled s) {i : Nat} {t : Timer} (found : s.timers[i]? = some t)
    (fails : Bool) (orderly : t.point.writes.all (fun n => !fails && s.history.landed ≤ n) = true) :
    Settled (s.fire i t fails) := by
  have quiet {t' : Timer} (clear : t.point.debt = none) (same : t'.point.debt = none) : Settled (s.setTimer i t') :=
    settledTimer settled (alikeSelf s) found (effectIdle (same.trans clear.symm))
      (fun n status owes => absurd (clear.symm.trans owes) (by simp)) settled.shut
  unfold Session.fire
  split
  · rename_i here
    exact quiet (by rw [here]; rfl) rfl
  · rename_i here
    refine quiet (by rw [here]; rfl) ?_
    cases s.registered <;> rfl
  · rename_i here
    split <;> exact quiet (by rw [here]; rfl) rfl
  · rename_i d here
    have ready : Ready s fails d := readyAll (by rw [here] at orderly; exact orderly)
    -- The timer is stopped by the call that it makes, but it does not sleep any more.
    have still : (s.destroy (.timer i) fails d).1.timers[i]? = some t := by
      cases d with
      | lock =>
        simp only [Session.destroy,Session.destroyLocked]
        split
        · exact found
        · show (stopAt s.timers s.idleTimer)[i]? = some t
          have same : stop t = t := by rw [stop,if_neg (by rw [here]; exact fun wrong => TimerPoint.noConfusion wrong)]
          cases s.idleTimer with
          | none => exact found
          | some j =>
            rw [stopAt,List.getElem?_modify,found,Option.map_eq_map,Option.map_some]
            split
            · rw [same]
            · rfl
      | remove change => exact found
      | persist change => exact found
      | done => exact found
    have owes : t.debt = d.debt := by rw [Timer.debt,here]; rfl
    refine settledTimer settled (destroyAlike s (.timer i) fails d) still ?_ ?_ (destroyShut settled.shut (.timer i) fails d)
    · rw [owes]
      exact destroyKeeps (.timer i) ready
    · rw [owes]
      exact destroyLate ready
  · exact settled
  · exact settled

/- The loop hands frames to clients; what these still have to write stays. -/
theorem deliverAlike (s : Session size) (sink : Nat) (f : Frame) (r : Reader) :
    ({s.deliver sink f with reader := r} : Session size).debts = ({s with reader := r} : Session size).debts := by
  have same (c : Client) : (c.send f).debt = c.debt := by
    unfold Client.send
    split <;> rfl
  have clients : (s.clients.modify sink (·.send f)).filterMap Client.debt = s.clients.filterMap Client.debt := by
    induction s.clients generalizing sink with
    | nil => rw [List.modify_nil]
    | cons c rest ih =>
      cases sink with
      | zero => rw [List.modify_zero_cons,List.filterMap_cons,List.filterMap_cons,same]
      | succ sink => rw [List.modify_succ_cons,List.filterMap_cons,List.filterMap_cons,ih]
  simp only [Session.debts,Session.deliver,clients]

theorem settledBeside {s t : Session size} (settled : Settled s) (debts : t.debts = s.debts) (status : t.status = s.status)
    (row : t.row = s.row) (changes : t.history.changes = s.history.changes) (landed : t.history.landed = s.history.landed)
    (shut : t.closed = true → t.attach = none) : Settled t := by
  refine ⟨?_,?_,shut⟩
  · rw [debts,changes,status]
    exact settled.owed
  · rw [debts,changes,landed,row,status]
    exact settled.last

theorem settledAdvance {s : Session size} (settled : Settled s) (input : Input) (fails : Bool)
    (orderly : s.reader.writes.all (fun n => !fails && s.history.landed ≤ n) = true) : Settled (s.advance input fails) := by
  have quiet {t : Session size} {r : Reader} (alike : Alike s t) (status : t.status = s.status) (row : t.row = s.row)
      (changes : t.history.changes = s.history.changes) (landed : t.history.landed = s.history.landed)
      (shut : t.closed = true → t.attach = none) (clear : s.reader.debt = none) (same : r.debt = none) :
      Settled {t with reader := r} := by
    refine settledReader settled alike ?_ (fun n status owes => absurd (clear.symm.trans owes) (by simp)) shut
    rw [clear,same]
    exact .silent status changes landed row
  have rest (err : Option Bool) : (afterRead err).debt = none := by
    cases err <;> rfl
  have sent {sink : Nat} {f : Frame} {r : Reader} (clear : s.reader.debt = none) (same : r.debt = none) :
      Settled {s.deliver sink f with reader := r} :=
    settledBeside (quiet (alikeSelf s) rfl rfl rfl rfl settled.shut clear same) (deliverAlike s sink f r) rfl rfl rfl rfl settled.shut
  unfold Session.advance
  split
  · rename_i here
    have clear : s.reader.debt = none := by rw [here]; rfl
    split
    · exact quiet (alikeSelf s) rfl rfl rfl rfl settled.shut clear (rest _)
    · refine quiet (t := s.record input.chunk) ⟨rfl,rfl,rfl,rfl⟩ rfl rfl rfl rfl settled.shut clear ?_
      cases s.attach with
      | none => exact rest _
      | some sink => rfl
  · rename_i here
    exact sent (by rw [here]; rfl) (rest _)
  · rename_i eof here
    refine quiet (alikeSelf s) rfl rfl rfl rfl settled.shut (by rw [here]; rfl) ?_
    cases s.attach with
    | none => rfl
    | some sink => cases eof <;> rfl
  · rename_i here
    exact sent (by rw [here]; rfl) rfl
  · rename_i here
    exact sent (by rw [here]; rfl) rfl
  · rename_i d here
    have ready : Ready s fails d := readyAll (by rw [here] at orderly; exact orderly)
    have owes : s.reader.debt = d.debt := by rw [here]; rfl
    refine settledReader settled (destroyAlike s .reader fails d) ?_ ?_ (destroyShut settled.shut .reader fails d)
    · rw [owes]
      exact destroyKeeps .reader ready
    · rw [owes]
      exact destroyLate ready

/- Attach has written its row when it lets go of the lock. -/
theorem settledAttach {s : Session size} (settled : Settled s) : Settled (s.attachSink false) := by
  unfold Session.attachSink
  split
  · exact settled
  · rename_i isOpen
    have free : s.closed = false := by simpa using isOpen
    have debts : (s.attachOpen false).debts = s.debts := by
      have clients : (s.clients ++ [s.newClient]).filterMap Client.debt = s.clients.filterMap Client.debt := by
        rw [List.filterMap_append]
        exact List.append_nil _
      show (s.clients ++ [s.newClient]).filterMap Client.debt ++ (stopAt s.timers s.idleTimer).filterMap Timer.debt ++ _ ++ _ = _
      rw [clients,stopAtDebts]
      rfl
    have status : (s.attachOpen false).status = .active := by simp [Session.status,Session.attachOpen,Session.persist,Session.cancelIdle,free]
    refine ⟨?_,.inr ⟨rfl,fun _ => status.symm⟩,?_⟩
    · intro n st mem
      obtain ⟨less,_⟩ := settled.owed n st (debts ▸ mem)
      have next : (s.attachOpen false).history.changes = s.history.changes + 1 := rfl
      exact ⟨by omega,by omega⟩
    · intro shut
      have same : (s.attachOpen false).closed = s.closed := rfl
      rw [same,free] at shut
      contradiction

theorem bindAll {α : Type} {l : Option α} {f : α → Option Nat} {p : Nat → Bool} {a : α} (found : l = some a)
    (all : (l.bind f).all p = true) : (f a).all p = true := by
  subst found
  exact all

theorem settledStep {s t : Session size} {m : Move} (settled : Settled s) (orderly : Orderly s m) (moved : step s m = some t) :
    Settled t := by
  cases m with
  | connect fails =>
    cases moved
    cases isOpen : s.closed with
    | true =>
      rw [Session.attachSink,if_pos isOpen]
      exact settled
    | false =>
      have works : fails = false := by
        rw [Orderly,Session.writes,if_neg (by simp [isOpen]),Option.all_some,Bool.and_eq_true,Bool.not_eq_true'] at orderly
        exact orderly.1
      subst works
      exact settledAttach settled
  | client i message fails =>
    obtain ⟨c,found,rfl⟩ := Option.map_eq_some_iff.mp moved
    exact settledServe settled found message fails (bindAll (f := fun c : Client => c.point.writes) found orderly)
  | lose i =>
    obtain ⟨c,found,rfl⟩ := Option.map_eq_some_iff.mp moved
    refine settledClient settled (alikeSelf s) found (effectIdle rfl) ?_ settled.shut
    intro n status owes finished
    exact absurd (owes.symm.trans finished) (by simp)
  | kill =>
    cases moved
    refine settledBeside settled ?_ rfl rfl rfl rfl settled.shut
    simp [Session.debts,Destroying.debt]
  | killer i fails =>
    obtain ⟨d,found,rfl⟩ := Option.map_eq_some_iff.mp moved
    have ready : Ready s fails d := readyAll (bindAll found orderly)
    exact settledKill settled (destroyAlike s .kill fails d) found (destroyKeeps .kill ready) (destroyLate ready)
      (destroyShut settled.shut .kill fails d)
  | timer i fails =>
    obtain ⟨t,found,rfl⟩ := Option.map_eq_some_iff.mp moved
    exact settledFire settled found fails (bindAll (f := fun t : Timer => t.point.writes) found orderly)
  | reader input fails =>
    cases moved
    exact settledAdvance settled input fails orderly

theorem settledCreate (n : Nat) : Settled (create n) :=
  ⟨fun _ _ mem => absurd mem (List.not_mem_nil),.inr ⟨rfl,fun wrong => absurd wrong (Nat.lt_irrefl 0)⟩,fun _ => rfl⟩

theorem settledAgrees {s : Session size} (settled : Settled s) : Agrees s := by
  intro quiet some
  rcases settled.last with ⟨status,mem⟩ | ⟨_,right⟩
  · rw [quiet] at mem
    contradiction
  · exact right some

/- With every operation over the row says what became of the session, as long as the writes have come
in the order of the changes. -/
theorem rowAgrees {n : Nat} {moves : List Move} {s : Session (ringSize n)} (orderly : Runs.Guided step Orderly (create n) moves)
    (ran : Runs.run step (create n) moves = some s) : Agrees s :=
  settledAgrees (Runs.runGuided settledStep (settledCreate n) orderly ran)

/- A client takes over from one whose Detach has not written its row yet. -/
def takeover : List Move :=
  [.connect false,.client 0 .ping false,.client 0 .ping false,.client 0 .leave false,.client 0 .ping false,.connect false]

def lateDetach : List Move := [.client 0 .ping false,.client 0 .ping false]

theorem takeoverRow (ring : RingBuffer UInt8 size) : ∃ s, Runs.run step (opened ring) (takeover ++ lateDetach) = some s ∧
    s.debts = [] ∧ s.history.changes = 3 ∧ s.row = .detached ∧ s.status = .active := ⟨_,rfl,rfl,rfl,rfl,rfl⟩

theorem detachInOrder (ring : RingBuffer UInt8 size) : ∃ s, Runs.run step (opened ring) (takeover.dropLast ++ lateDetach) = some s ∧
    s.debts = [] ∧ s.history.changes = 2 ∧ s.row = .detached := ⟨_,rfl,rfl,rfl,rfl⟩

theorem detachOrderly (ring : RingBuffer UInt8 size) : Runs.Guided step Orderly (opened ring) (takeover.dropLast ++ lateDetach) :=
  ⟨rfl,rfl,rfl,rfl,rfl,rfl,rfl,trivial⟩

theorem rowAgreesDetached : ∃ s, Runs.run step (create sessionRingBytes) (takeover.dropLast ++ lateDetach) = some s ∧ Agrees s := by
  obtain ⟨s,ran,_⟩ := detachInOrder (newByteRing sessionRingBytes)
  exact ⟨s,ran,rowAgrees (detachOrderly _) ran⟩

theorem takenOverDetached : ¬∀ moves s, Runs.run step (create sessionRingBytes) moves = some s → Agrees s := by
  intro all
  obtain ⟨s,ran,quiet,changes,row,status⟩ := takeoverRow (newByteRing sessionRingBytes)
  have agrees := all _ s ran quiet (by rw [changes]; decide)
  rw [row,status] at agrees
  contradiction

end ContainerWS.CloudShell
