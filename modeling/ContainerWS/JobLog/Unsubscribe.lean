import ContainerWS.Fairness
import ContainerWS.JobLog.TerminalEvent

/-! Whether `unsubscribe` returns. It takes its channel out of the map, and drains it until a receive
would block; a closed channel never blocks. -/
namespace ContainerWS.JobLog
open Install Interleaving GoStrings

/- The events that a goroutine is still going to offer to a subscriber. -/
def aims (i : Nat) : Goroutine → Nat
  | .voice (.script ops) => tellsTo i ops
  | .sends _ subs (.script ops) => subs.count i + tellsTo i ops
  | .sends _ subs _ => subs.count i
  | _ => 0

/- The map holds channels of subscribers that have not left. -/
structure Tidy (s : Shared) : Prop where
  once : s.subscribers.Nodup
  inside : ∀ i ∈ s.subscribers, i < s.clients.length
  away : ∀ i cl, s.clients[i]? = some cl → cl.position = .draining ∨ cl.position = .gone → i ∉ s.subscribers

theorem followingStays {fails : Bool} {cl cl' : Client} (here : cl.position = .following) (stepped : cl.next fails = some cl') :
    cl'.position = .following ∨ cl'.position = .leaving := by
  unfold Client.next at stepped
  rw [here] at stepped
  dsimp only at stepped
  split at stepped
  · split at stepped <;> cases stepped
    · exact .inr rfl
    · dsimp only
      split
      · exact .inr rfl
      · exact .inl rfl
  · split at stepped
    · split at stepped
      · cases stepped
        exact .inl rfl
      · split at stepped <;> cases stepped
        exact .inr rfl
    · cases stepped
      exact .inr rfl

theorem nextLeft {fails : Bool} {cl cl' : Client} (stepped : cl.next fails = some cl')
    (left : cl'.position = .draining ∨ cl'.position = .gone) : cl.position = .leaving ∨ cl.position = .draining := by
  cases here : cl.position with
  | leaving => exact .inl rfl
  | draining => exact .inr rfl
  | gone =>
    unfold Client.next at stepped
    rw [here] at stepped
    cases stepped
  | following =>
    rcases followingStays here stepped with same | same <;> rw [same] at left <;> rcases left with other | other <;> cases other

theorem sseCases {k : Choice} {s s' : Shared} {i : Nat} {g : Goroutine} {new : List Goroutine} (stepped : sseNext k s i = some (s',g,new)) :
    ∃ cl cl', s.clients[i]? = some cl ∧ cl.next k.fails = some cl' ∧ g = .sse i ∧ new = [] ∧ s' = {s with
      clients := s.clients.set i cl'
      subscribers := if cl.position = .leaving then s.subscribers.erase i else s.subscribers} := by
  unfold sseNext at stepped
  split at stepped <;> try contradiction
  rename_i cl found
  split at stepped <;> cases stepped
  rename_i cl' moved
  exact ⟨cl,cl',found,moved,rfl,rfl,rfl⟩

theorem tidySse {k : Choice} {s s' : Shared} {j : Nat} {g : Goroutine} {new : List Goroutine} (tidy : Tidy s)
    (stepped : sseNext k s j = some (s',g,new)) : Tidy s' := by
  obtain ⟨old,now,reached,moved,rfl,rfl,rfl⟩ := sseCases stepped
  have fewer : (if old.position = .leaving then s.subscribers.erase j else s.subscribers).Sublist s.subscribers := by
    split
    · exact List.erase_sublist
    · exact List.Sublist.refl _
  refine ⟨tidy.once.sublist fewer,?_,?_⟩
  · intro i mem
    have inside := tidy.inside i (fewer.subset mem)
    simpa using inside
  · intro i cl there left mem
    rcases setCases there with ⟨rfl,rfl⟩ | ⟨_,same⟩
    · rcases nextLeft moved left with leaving | draining
      · rw [if_pos leaving] at mem
        exact (tidy.once.mem_erase_iff.mp mem).1 rfl
      · exact tidy.away i old reached (.inl draining) (fewer.subset mem)
    · exact tidy.away i cl same left (fewer.subset mem)

/- A step that leaves the map, or empties it, and no position. -/
theorem tidySame {s s' : Shared} (tidy : Tidy s) (fewer : s'.subscribers.Sublist s.subscribers) (more : s.clients.length ≤ s'.clients.length)
    (positions : ∀ (i : Nat) (cl : Client), s'.clients[i]? = some cl → ∃ old, s.clients[i]? = some old ∧ old.position = cl.position) : Tidy s' := by
  refine ⟨tidy.once.sublist fewer,fun i mem => Nat.lt_of_lt_of_le (tidy.inside i (fewer.subset mem)) more,?_⟩
  intro i cl there left mem
  obtain ⟨old,was,same⟩ := positions i cl there
  rw [← same] at left
  exact tidy.away i old was left (fewer.subset mem)

theorem tidyStep {s s' : Shared} {t g : Goroutine} {new : List Goroutine} (tidy : Tidy s) (step : Step s t s' g new)
    (other : ∀ i, t ≠ .sse i) : Tidy s' := by
  have kept (i : Nat) (cl : Client) (there : s.clients[i]? = some cl) : ∃ old, s.clients[i]? = some old ∧ old.position = cl.position :=
    ⟨cl,there,rfl⟩
  cases step with
  | accept reached opened room =>
    refine tidySame tidy (.refl _) (by simp) ?_
    intro i cl there
    rcases setCases there with ⟨rfl,rfl⟩ | ⟨_,same⟩
    · exact ⟨_,reached,rfl⟩
    · exact kept i cl same
  | closeAll =>
    refine tidySame tidy (List.nil_sublist _) (by simp [closeAll]) ?_
    intro i cl there
    simp only [closeAll,List.getElem?_mapIdx,Option.map_eq_some_iff] at there
    obtain ⟨old,was,shut⟩ := there
    refine ⟨old,was,?_⟩
    rw [← shut]
    split
    · rfl
    · rfl
  | attach =>
    refine ⟨?_,?_,?_⟩
    · refine List.nodup_append.mpr ⟨tidy.once,by simp,?_⟩
      intro i mem j last same
      have inside := tidy.inside i mem
      rw [same,List.mem_singleton.mp last] at inside
      exact Nat.lt_irrefl _ inside
    · intro i mem
      rw [List.length_append,List.length_singleton]
      rcases List.mem_append.mp mem with old | new
      · exact Nat.lt_succ_of_lt (tidy.inside i old)
      · rw [List.mem_singleton.mp new]
        exact Nat.lt_succ_self _
    · intro i cl there left mem
      rcases concatCases there with ⟨rfl,rfl⟩ | was
      · rcases left with other | other <;> cases other
      · rcases List.mem_append.mp mem with old | new
        · exact tidy.away i cl was left old
        · have bound := (List.getElem?_eq_some_iff.mp was).1
          rw [List.mem_singleton.mp new] at bound
          exact Nat.lt_irrefl _ bound
  | @write i cl cl' reached moved => exact absurd rfl (other i)
  | _ => exact tidySame tidy (.refl _) (Nat.le_refl _) kept

theorem tidyNext {k : Choice} {s s' : Shared} {t g : Goroutine} {new : List Goroutine} (tidy : Tidy s)
    (stepped : next k s t = some (s',g,new)) : Tidy s' := by
  by_cases writer : ∃ i, t = .sse i
  · obtain ⟨i,rfl⟩ := writer
    exact tidySse tidy stepped
  · exact tidyStep tidy (nextStep stepped) (fun i here => writer ⟨i,here⟩)

theorem pendingTells (i : Nat) {ops : List Op} (pending : Pending ops) : tellsTo i ops = 0 := by
  induction pending with
  | publish rest ih => exact ih
  | append rest ih => exact ih
  | @last op turns => cases op <;> first | rfl | cases turns

theorem copyNone {i : Nat} {s : Shared} {subs : List Nat} (away : i ∉ s.subscribers) (copy : subs.Perm s.subscribers) : subs.count i = 0 := by
  rw [copy.count_eq]
  exact List.count_eq_zero_of_not_mem away

/- What goes on around a channel that is out of the map. -/
theorem besideDrain {i : Nat} {s s' : Shared} {t g : Goroutine} {new : List Goroutine} {cl : Client} (step : Step s t s' g new)
    (other : t ≠ .sse i) (away : i ∉ s.subscribers) (found : s.clients[i]? = some cl) :
    ∃ cl', s'.clients[i]? = some cl' ∧ cl'.position = cl.position ∧ cl'.closed = cl.closed ∧
      cl'.channel.length + (aims i g + load (aims i) new) ≤ cl.channel.length + aims i t := by
  have same (h : aims i g + load (aims i) new ≤ aims i t) (clients : s'.clients[i]? = some cl) :
      ∃ cl', s'.clients[i]? = some cl' ∧ cl'.position = cl.position ∧ cl'.closed = cl.closed ∧
        cl'.channel.length + (aims i g + load (aims i) new) ≤ cl.channel.length + aims i t :=
    ⟨cl,clients,rfl,rfl,Nat.add_le_add_left h _⟩
  cases step with
  | publish copy =>
    refine same ?_ found
    simp [aims,copyNone away copy,tellsTo]
  | append copy =>
    refine same ?_ found
    simp [aims,copyNone away copy,tellsTo]
  | @read stream text subs copy =>
    refine same ?_ found
    unfold afterRead
    split <;> simp [aims,copyNone away copy]
  | turn turns pending =>
    refine same ?_ found
    simp [aims,pendingTells i pending]
  | awake ready pending =>
    refine same ?_ found
    simp [aims,pendingTells i pending]
  | spawn => exact same (Nat.zero_le _) found
  | eof => exact same (Nat.zero_le _) found
  | note => exact same (Nat.zero_le _) found
  | @finish f subs ops copy =>
    refine same ?_ found
    unfold afterFinish
    split <;> simp [aims,copyNone away copy,tellsTo]
  | tell => exact same (Nat.le_refl _) found
  | close => exact same (Nat.le_refl _) found
  | returned => exact same (Nat.zero_le _) found
  | @accept ev j rest after target reached opened room =>
    by_cases here : i = j
    · subst here
      cases Option.some.inj (reached.symm.trans found)
      refine ⟨_,List.getElem?_set_self (List.getElem?_eq_some_iff.mp found).1,rfl,rfl,?_⟩
      have one : aims i (.sends ev (i :: rest) after) = aims i (.sends ev rest after) + 1 := by
        cases after with
        | script ops =>
          simp only [aims,List.count_cons_self]
          omega
        | _ => simp only [aims,List.count_cons_self]
      rw [one]
      simp only [List.length_append,List.length_singleton,loadNil]
      omega
    · refine same ?_ ((List.getElem?_set_ne (Ne.symm here)).trans found)
      cases after <;> simp [aims,List.count_cons_of_ne (Ne.symm here)]
  | @drop ev j rest after target reached opened full =>
    refine same ?_ found
    have fewer : rest.count i ≤ (j :: rest).count i := (List.sublist_cons_self j rest).count_le i
    cases after <;> simp only [aims,loadNil] <;> omega
  | @sent ev after =>
    refine same ?_ found
    cases after <;> simp [aims]
  | closeAll =>
    refine same (Nat.zero_le _) ?_
    simp only [closeAll,List.getElem?_mapIdx,found,Option.map_some,if_neg away]
  | file files =>
    refine same ?_ found
    have silent : aims i g = 0 := by
      have idle := filesIdle files
      cases g <;> first | rfl | cases idle
    simp [silent]
  | attach => exact same (Nat.zero_le _) ((List.getElem?_append_left (List.getElem?_eq_some_iff.mp found).1).trans found)
  | @write j target target' reached moved =>
    have apart : j ≠ i := by
      rintro rfl
      exact other rfl
    exact same (Nat.zero_le _) ((List.getElem?_set_ne apart).trans found)

/- The writer of a subscriber is at work. -/
def Turn (i : Nat) (c : Process) : Event Call Choice → Prop
  | .call _ => False
  | .step p _ => c.pool[p]? = some (.sse i)

def At (i : Nat) (position : Position) (closed : Bool) (c : Process) : Prop :=
  ∃ cl, c.shared.clients[i]? = some cl ∧ cl.position = position ∧ cl.closed = closed

def Gone (i : Nat) (c : Process) : Prop := ∃ cl, c.shared.clients[i]? = some cl ∧ cl.position = .gone

/- In every schedule that gives it its turns the call comes to its end. -/
def Returns (i : Nat) (c : Process) : Prop := ∀ r : Schedule system c, Fair (Turn i) (Gone i) r → ∃ n, Gone i (r.states n)

/- What is in the channel or may still come. -/
def ahead (i : Nat) (c : Process) : Nat := ((c.shared.clients[i]?).map (fun cl => cl.channel.length)).getD 0 + load (aims i) c.pool

theorem aheadIs {i : Nat} {c : Process} {cl : Client} (found : c.shared.clients[i]? = some cl) :
    ahead i c = cl.channel.length + load (aims i) c.pool := by
  rw [ahead,found]
  rfl

/- A turn takes an event out, or finds none. -/
theorem drainTurn {i : Nat} {c d : Process} {p : Nat} {k : Choice} (tidy : Tidy c.shared) (open_ : At i .draining false c)
    (here : c.pool[p]? = some (.sse i)) (ran : exec system c (.step p k) = some d) :
    Gone i d ∨ (Tidy d.shared ∧ At i .draining false d) ∧ ahead i d < ahead i c := by
  obtain ⟨cl,found,position,closed⟩ := open_
  have bound := (List.getElem?_eq_some_iff.mp found).1
  cases execMoved ran with
  | @step _ _ t s' g new there stepped =>
    cases Option.some.inj (here.symm.trans there)
    have tidy' := tidySse tidy stepped
    obtain ⟨old,now,reached,moved,rfl,rfl,rfl⟩ := sseCases stepped
    cases Option.some.inj (found.symm.trans reached)
    have after : (c.shared.clients.set i now)[i]? = some now := List.getElem?_set_self bound
    have loads := loadStep (aims i) (.sse i) [] here
    unfold Client.next at moved
    rw [position] at moved
    dsimp only at moved
    cases channel : cl.channel with
    | nil =>
      rw [channel,closed] at moved
      cases moved
      exact .inl ⟨_,after,rfl⟩
    | cons ev rest =>
      rw [channel] at moved
      cases moved
      refine .inr ⟨⟨tidy',_,after,rfl,closed⟩,?_⟩
      rw [aheadIs found,aheadIs after,channel]
      simp only [List.length_cons,loadNil] at loads ⊢
      omega

theorem drainBeside {i : Nat} {c d : Process} {e : Event Call Choice} (tidy : Tidy c.shared) (open_ : At i .draining false c)
    (other : ¬Turn i c e) (ran : exec system c e = some d) : (Tidy d.shared ∧ At i .draining false d) ∧ ahead i d ≤ ahead i c := by
  obtain ⟨cl,found,position,closed⟩ := open_
  cases execMoved ran with
  | call request =>
    refine ⟨⟨tidy,cl,found,position,closed⟩,?_⟩
    have after : ahead i ⟨c.shared,c.pool ++ [system.start request]⟩ = cl.channel.length + load (aims i) (c.pool ++ [system.start request]) :=
      aheadIs found
    rw [aheadIs found,after,loadAppend]
    exact Nat.le_refl _
  | @step p k t s' g new there stepped =>
    have apart : t ≠ .sse i := by
      rintro rfl
      exact other there
    obtain ⟨cl',after,position',closed',less⟩ :=
      besideDrain (nextStep stepped) apart (tidy.away i cl found (.inl position)) found
    refine ⟨⟨tidyNext tidy stepped,cl',after,position'.trans position,closed'.trans closed⟩,?_⟩
    have loads := loadStep (aims i) g new there
    have later : ahead i ⟨s',c.pool.set p g ++ new⟩ = cl'.channel.length + load (aims i) (c.pool.set p g ++ new) := aheadIs after
    rw [aheadIs found,later]
    omega

theorem openReturns {i : Nat} {c : Process} (tidy : Tidy c.shared) (open_ : At i .draining false c) : Returns i c := by
  intro r fair
  have keep {c d : Process} {e : Event Call Choice} (held : Tidy c.shared ∧ At i .draining false c) (ran : exec system c e = some d) :
      Gone i d ∨ (Tidy d.shared ∧ At i .draining false d) ∧ ahead i d ≤ ahead i c ∧ (Turn i c e → ahead i d < ahead i c) := by
    obtain ⟨tidy,open_⟩ := held
    by_cases turn : Turn i c e
    · cases e with
      | call request => exact turn.elim
      | step p k =>
        rcases drainTurn tidy open_ turn ran with gone | ⟨inv,less⟩
        · exact .inl gone
        · exact .inr ⟨inv,Nat.le_of_lt less,fun _ => less⟩
    · obtain ⟨inv,less⟩ := drainBeside tidy open_ turn ran
      exact .inr ⟨inv,less,fun taken => absurd taken turn⟩
  exact fairEnds keep ⟨tidy,open_⟩ r fair

/- On a closed channel each turn leads to the next one. -/
theorem closedSpins {i p : Nat} {c : Process} (spinning : At i .draining true c ∧ c.pool[p]? = some (.sse i)) :
    ∃ d, exec system c (.step p {}) = some d ∧ At i .draining true d ∧ d.pool[p]? = some (.sse i) := by
  obtain ⟨⟨cl,found,position,closed⟩,here⟩ := spinning
  have bound := (List.getElem?_eq_some_iff.mp found).1
  have place := (List.getElem?_eq_some_iff.mp here).1
  have again : ∃ cl', cl.next false = some cl' ∧ cl'.position = .draining ∧ cl'.closed = true := by
    unfold Client.next
    rw [position]
    dsimp only
    cases cl.channel with
    | nil =>
      rw [closed]
      exact ⟨cl,rfl,position,closed⟩
    | cons ev rest => exact ⟨_,rfl,rfl,closed⟩
  obtain ⟨cl',moved,position',closed'⟩ := again
  have stepped : system.next {} c.shared (.sse i) = some ({c.shared with
      clients := c.shared.clients.set i cl'
      subscribers := if cl.position = .leaving then c.shared.subscribers.erase i else c.shared.subscribers},.sse i,[]) := by
    show sseNext {} c.shared i = _
    unfold sseNext
    rw [found]
    dsimp only
    rw [moved]
  refine ⟨_,execStep here stepped,⟨cl',List.getElem?_set_self bound,position',closed'⟩,?_⟩
  rw [List.append_nil]
  exact List.getElem?_set_self place

theorem closedForever {i p : Nat} {c : Process} (closed : At i .draining true c) (here : c.pool[p]? = some (.sse i)) : ¬Returns i c := by
  intro returns
  obtain ⟨r,stays⟩ := forever closedSpins ⟨closed,here⟩
  have fair : Fair (Turn i) (Gone i) r := by
    intro n
    refine .inr ⟨n,Nat.le_refl n,?_⟩
    rw [(stays n).2]
    exact (stays n).1.2
  obtain ⟨n,cl,found,gone⟩ := returns r fair
  obtain ⟨cl',found',position,_⟩ := (stays n).1.1
  cases Option.some.inj (found.symm.trans found')
  cases gone.symm.trans position

theorem runTidy {c d : Process} {events : List (Event Call Choice)} (tidy : Tidy c.shared) (ran : run system c events = some d) :
    Tidy d.shared := by
  have keep : Preserved system (fun _ _ => True) (fun c => Tidy c.shared) :=
    ⟨fun _ _ held => held,fun _ _ _ _ _ _ _ held _ _ stepped => tidyNext held stepped⟩
  have free (c : Process) (es : List (Event Call Choice)) : Along system (fun _ _ => True) c es := by
    induction es generalizing c with
    | nil => trivial
    | cons e es ih =>
      refine ⟨?_,?_⟩
      · cases e with
        | call request => trivial
        | step p k => exact fun _ _ => trivial
      · cases exec system c e with
        | none => trivial
        | some d => exact ih d
  exact runPreserved keep tidy (free c events) ran

theorem launchTidy (j : Job) (body : String) (row : Option Row) : Tidy (launch j body row).shared := by
  refine ⟨List.nodup_nil,?_,?_⟩
  · rintro _ ⟨⟩
  · rintro _ _ _ _ ⟨⟩

/- Taking its channel out of the map, a subscriber is the last to find it there. -/
theorem leaveTurn {i p : Nat} {k : Choice} {c d : Process} {cl : Client} (found : c.shared.clients[i]? = some cl)
    (leaving : cl.position = .leaving) (here : c.pool[p]? = some (.sse i)) (left : exec system c (.step p k) = some d) :
    At i .draining cl.closed d ∧ d.pool[p]? = some (.sse i) := by
  have bound := (List.getElem?_eq_some_iff.mp found).1
  have place := (List.getElem?_eq_some_iff.mp here).1
  cases execMoved left with
  | @step _ _ t s' g new there stepped =>
    cases Option.some.inj (here.symm.trans there)
    obtain ⟨old,now,reached,moved,rfl,rfl,rfl⟩ := sseCases stepped
    cases Option.some.inj (found.symm.trans reached)
    unfold Client.next at moved
    rw [leaving] at moved
    cases moved
    refine ⟨⟨_,List.getElem?_set_self bound,rfl,rfl⟩,?_⟩
    rw [List.append_nil]
    exact List.getElem?_set_self place

/- Of a subscriber that takes its channel out of the map the call returns exactly when the channel is still
open there. -/
theorem unsubscribeReturns {j : Job} {body : String} {row : Option Row} {events : List (Event Call Choice)} {c d : Process}
    {i p : Nat} {k : Choice} {cl : Client} (ran : run system (launch j body row) events = some c)
    (found : c.shared.clients[i]? = some cl) (leaving : cl.position = .leaving) (here : c.pool[p]? = some (.sse i))
    (left : exec system c (.step p k) = some d) : Returns i d ↔ cl.closed = false := by
  obtain ⟨draining,still⟩ := leaveTurn found leaving here left
  have tidy : Tidy d.shared := by
    refine runTidy (runTidy (launchTidy j body row) ran) (show run system c [.step p k] = some d from ?_)
    rw [run,left]
    rfl
  cases closed : cl.closed with
  | false =>
    rw [closed] at draining
    exact iff_of_true (openReturns tidy draining) rfl
  | true =>
    rw [closed] at draining
    exact iff_of_false (closedForever draining still) (by simp)

/- Nothing keeps it from taking the channel out. -/
theorem leaves {i p : Nat} (k : Choice) {c : Process} {cl : Client} (found : c.shared.clients[i]? = some cl)
    (leaving : cl.position = .leaving) (here : c.pool[p]? = some (.sse i)) : ∃ d, exec system c (.step p k) = some d := by
  have moved : cl.next k.fails = some {cl with position := .draining} := by
    unfold Client.next
    rw [leaving]
  have stepped : system.next k c.shared (.sse i) = some ({c.shared with
      clients := c.shared.clients.set i {cl with position := .draining}
      subscribers := if cl.position = .leaving then c.shared.subscribers.erase i else c.shared.subscribers},.sse i,[]) := by
    show sseNext k c.shared i = _
    unfold sseNext
    rw [found]
    dsimp only
    rw [moved]
  exact ⟨_,execStep here stepped⟩

/- The only subscriber is about to leave. -/
def AboutToLeave (closed : Bool) (c : Process) : Prop :=
  c.shared.clients.map (fun cl => (cl.position,cl.closed)) = [(.leaving,closed)] ∧ c.pool[2]? = some (.sse 0)

instance (closed : Bool) (c : Process) : Decidable (AboutToLeave closed c) := inferInstanceAs (Decidable (_ ∧ _))

theorem aboutFound {closed : Bool} {c : Process} (about : AboutToLeave closed c) :
    ∃ cl, c.shared.clients[0]? = some cl ∧ cl.position = .leaving ∧ cl.closed = closed := by
  have first : (c.shared.clients.map (fun cl => (cl.position,cl.closed)))[0]? = some (.leaving,closed) := by
    rw [about.1]
    rfl
  rw [List.getElem?_map,Option.map_eq_some_iff] at first
  obtain ⟨cl,found,same⟩ := first
  exact ⟨cl,found,(Prod.mk.inj same).1,(Prod.mk.inj same).2⟩

theorem unsubscribeReturnsQuiet : ∃ c d, run system (launch quietJob "" none) quietRun = some c ∧
    exec system c (.step 2 {}) = some d ∧ Returns 0 d := by
  obtain ⟨c,ran,about⟩ := (Option.any_eq_true _ _).mp
    (by decide : (run system (launch quietJob "" none) quietRun).any (fun c => AboutToLeave false c) = true)
  have about := of_decide_eq_true about
  obtain ⟨cl,found,leaving,closed⟩ := aboutFound about
  obtain ⟨d,left⟩ := leaves {} found leaving about.2
  exact ⟨c,d,ran,left,(unsubscribeReturns ran found leaving about.2 left).mpr closed⟩

/- The channels are closed before the subscriber has read the last event. -/
def lateReader : List (Event Call Choice) :=
  ([.call .attach,.step 2 {}] : Events) ++ (List.replicate 16 (.step 0 {}) : Events) ++
    ([.step 3 {eof := true},.step 4 {eof := true}] : Events) ++ (List.replicate 10 (.step 0 {}) : Events) ++
    ([.step 5 {}] : Events) ++ (List.replicate 15 (.step 2 {}) : Events)

theorem unsubscribeSpins : ¬∀ (j : Job) (body : String) (row : Option Row) (events : List (Event Call Choice)) (c d : Process)
    (i p : Nat) (k : Choice) (cl : Client), run system (launch j body row) events = some c → c.shared.clients[i]? = some cl →
    cl.position = .leaving → c.pool[p]? = some (.sse i) → exec system c (.step p k) = some d → Returns i d := by
  intro always
  obtain ⟨c,ran,about⟩ := (Option.any_eq_true _ _).mp
    (by decide : (run system (launch quietJob "" none) lateReader).any (fun c => AboutToLeave true c) = true)
  have about := of_decide_eq_true about
  obtain ⟨cl,found,leaving,closed⟩ := aboutFound about
  obtain ⟨d,left⟩ := leaves {} found leaving about.2
  obtain ⟨draining,still⟩ := leaveTurn found leaving about.2 left
  rw [closed] at draining
  exact closedForever draining still (always quietJob "" none lateReader c d 0 2 {} cl ran found leaving about.2 left)

end ContainerWS.JobLog
