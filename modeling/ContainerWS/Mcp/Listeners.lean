import ContainerWS.Mcp.Runtime

/-! Which listeners are alive when all calls have returned: an app that may still listen is the one that the
runtime refers to, or a call has it in hand. -/
namespace ContainerWS.Mcp
open GoStrings Interleaving

def Alive (r : StandaloneRuntime) (a : Nat) : Prop := r.apps[a]? = some .bound ∨ r.apps[a]? = some .serving

/- It listens, or it may come to. -/
def Unclosed (r : StandaloneRuntime) (a : Nat) : Prop := ∃ l, r.apps[a]? = some l ∧ l ≠ .closed

/- All calls have returned, and each goroutine that has not ended serves. -/
def Quiet (c : Config StandaloneRuntime Call) : Prop :=
  ∀ t ∈ c.pool, (∃ err, t = .done err) ∨ ∃ a, t = .listening a ∧ c.shared.apps[a]? = some .serving

/- One listener at most, which the runtime refers to and a stop closes. -/
structure Single (c : Config StandaloneRuntime Call) : Prop where
  one : ∀ a b, Alive c.shared a → Alive c.shared b → a = b
  refers : ∀ a, Alive c.shared a → c.shared.app = some a
  stops : ∀ a, Alive c.shared a → ∀ k, ∃ d,
    run system c [.call .stop,.step c.pool.length .ok,.step c.pool.length .ok,.step c.pool.length k] = some d ∧ ∀ b, ¬Alive d.shared b

/- The app that a restart puts in place takes the place of none that may still listen, and one that is shut
down listens already or is closed. -/
def Orderly (r : StandaloneRuntime) : Call → Prop
  | .running _ _ _ => ∀ a, r.app = some a → r.apps[a]? = some .closed
  | .stopping a _ => r.apps[a]? = some .serving ∨ r.apps[a]? = some .closed
  | .replacing a _ _ _ => r.apps[a]? = some .serving ∨ r.apps[a]? = some .closed
  | _ => True

instance (r : StandaloneRuntime) (t : Call) : Decidable (Orderly r t) :=
  match t with
  | .running _ _ _ =>
    match h : r.app with
    | none => isTrue (by intro a same; rw [h] at same; cases same)
    | some b => decidable_of_iff (r.apps[b]? = some .closed)
        ⟨by intro closed a same; rw [h] at same; cases same; exact closed,fun all => all b h⟩
  | .stopping _ _ => inferInstanceAs (Decidable (_ ∨ _))
  | .replacing _ _ _ _ => inferInstanceAs (Decidable (_ ∨ _))
  | .asked _ | .storing _ _ | .stop _ | .restart _ _ _ | .making _ _ _ | .starting _ _ | .settling _ | .checking _ _ | .reporting _ _
  | .disabling _ | .listening _ | .failed _ _ | .done _ => isTrue trivial

/- The app that a call has in hand. -/
def held : Call → Option Nat
  | .stopping a _ => some a
  | .replacing a _ _ _ => some a
  | .running a _ _ => some a
  | _ => none

structure Sound (r : StandaloneRuntime) (pool : List Call) : Prop where
  kept : ∀ a, Unclosed r a → r.app = some a ∨ ∃ t ∈ pool, held t = some a
  served : ∀ a, Alive r a → .listening a ∈ pool
  ended : ∀ a err, .failed a err ∈ pool → r.apps[a]? = some .closed

section
variable {r r' : StandaloneRuntime} {pool new : List Call} {t t' : Call} {i : Nat}

theorem aliveUnclosed {a : Nat} (alive : Alive r a) : Unclosed r a := by
  rcases alive with here | here
  · exact ⟨_,here,by decide⟩
  · exact ⟨_,here,by decide⟩

/- What a step has to say of the app it moves, so that the others stay as they are. -/
structure Carries (r : StandaloneRuntime) (t : Call) (r' : StandaloneRuntime) (t' : Call) (new : List Call) : Prop where
  opens : ∀ a, Unclosed r' a → Unclosed r a ∨ held t' = some a
  refers : ∀ a, Unclosed r' a → r.app = some a → r'.app = some a ∨ held t' = some a
  hands : ∀ a, Unclosed r' a → held t = some a → r'.app = some a ∨ held t' = some a
  serves : ∀ a, Alive r' a → Alive r a ∨ t' = .listening a
  listens : ∀ a, Alive r' a → t = .listening a → t' = .listening a
  stays : ∀ a : Nat, r.apps[a]? = some .closed → r'.apps[a]? = some .closed
  fails : ∀ a err, t' = .failed a err → r'.apps[a]? = some .closed
  begins : ∀ t ∈ new, ∃ a, t = .listening a

theorem soundCarried (sound : Sound r pool) (found : pool[i]? = some t) (carries : Carries r t r' t' new) :
    Sound r' (pool.set i t' ++ new) := by
  have inside : t' ∈ pool.set i t' ++ new :=
    List.mem_append_left _ (List.mem_set (List.getElem?_eq_some_iff.mp found).1 t')
  refine ⟨?_,?_,?_⟩
  · intro a unclosed
    have given : r'.app = some a ∨ held t' = some a → r'.app = some a ∨ ∃ u ∈ pool.set i t' ++ new, held u = some a :=
      Or.imp_right (fun here => ⟨t',inside,here⟩)
    rcases carries.opens a unclosed with before | here
    · rcases sound.kept a before with refers | ⟨u,mem,holds⟩
      · exact given (carries.refers a unclosed refers)
      · by_cases own : u = t
        · subst own
          exact given (carries.hands a unclosed holds)
        · exact .inr ⟨u,memKeep found mem own,holds⟩
    · exact given (.inr here)
  · intro a alive
    rcases carries.serves a alive with before | here
    · by_cases own : Call.listening a = t
      · exact carries.listens a alive own.symm ▸ inside
      · exact memKeep found (sound.served a before) own
    · exact here ▸ inside
  · intro a err mem
    rcases memStep mem with old | here | fresh
    · exact carries.stays a (sound.ended a err old)
    · exact carries.fails a err here.symm
    · obtain ⟨b,same⟩ := carries.begins _ fresh
      cases same

/- A step that moves no app. -/
theorem carriesSame (apps : r'.apps = r.apps) (app : r'.app = r.app) (hand : held t' = held t) (quiet : ∀ a, t ≠ .listening a)
    (fine : ∀ a err, t' ≠ .failed a err) (begins : ∀ t ∈ new, ∃ a, t = .listening a) : Carries r t r' t' new := by
  refine ⟨?_,?_,?_,?_,?_,?_,?_,begins⟩
  · intro a unclosed
    exact .inl (by rwa [Unclosed,apps] at unclosed)
  · intro a _ refers
    exact .inl (app.trans refers)
  · intro a _ holds
    exact .inr (hand.trans holds)
  · intro a alive
    exact .inl (by rwa [Alive,apps] at alive)
  · intro a _ same
    exact absurd same (quiet a)
  · intro a closed
    exact apps ▸ closed
  · intro a err same
    exact absurd same (fine a err)

/- An app is taken out of the runtime, into the hands of the call. -/
theorem carriesTaken (apps : r'.apps = r.apps) (taken : ∀ a, r.app = some a → held t' = some a) (free : held t = none)
    (quiet : ∀ a, t ≠ .listening a) (fine : ∀ a err, t' ≠ .failed a err) : Carries r t r' t' [] := by
  refine ⟨?_,?_,?_,?_,?_,?_,?_,by simp⟩
  · intro a unclosed
    exact .inl (by rwa [Unclosed,apps] at unclosed)
  · intro a _ refers
    exact .inr (taken a refers)
  · intro a _ holds
    rw [free] at holds
    cases holds
  · intro a alive
    exact .inl (by rwa [Alive,apps] at alive)
  · intro a _ same
    exact absurd same (quiet a)
  · intro a closed
    exact apps ▸ closed
  · intro a err same
    exact absurd same (fine a err)

theorem becomeAt (r : StandaloneRuntime) (a b : Nat) (l : Listener) :
    (r.become a l).apps[b]? = if a = b ∧ b < r.apps.length then some l else r.apps[b]? := by
  show (r.apps.set a l)[b]? = _
  rw [List.getElem?_set]
  by_cases same : a = b
  · subst same
    by_cases inside : a < r.apps.length
    · simp [inside]
    · simp [inside]
  · simp [same]

/- The call closes the app that it has in hand. -/
theorem carriesShut {b : Nat} (hand : held t = some b) (before : r.apps[b]? = some .serving ∨ r.apps[b]? = some .closed)
    (quiet : ∀ a, t ≠ .listening a) (fine : ∀ a err, t' ≠ .failed a err) : Carries r t (r.Shutdown b) t' [] := by
  have app : (r.Shutdown b).app = r.app := by
    unfold StandaloneRuntime.Shutdown
    split <;> rfl
  have at_ : ∀ a, (r.Shutdown b).apps[a]? = if a = b then some .closed else r.apps[a]? := by
    intro a
    unfold StandaloneRuntime.Shutdown
    split
    · rename_i serving
      have inside := (List.getElem?_eq_some_iff.mp serving).1
      rw [becomeAt]
      by_cases same : a = b
      · subst same
        simp [inside]
      · rw [if_neg (fun both => same both.1.symm),if_neg same]
    · rename_i other
      by_cases same : a = b
      · subst same
        rw [if_pos rfl,before.resolve_left other]
      · rw [if_neg same]
  have others : ∀ a, a ≠ b → (r.Shutdown b).apps[a]? = r.apps[a]? := fun a different => (at_ a).trans (if_neg different)
  have closed : (r.Shutdown b).apps[b]? = some .closed := (at_ b).trans (if_pos rfl)
  have different : ∀ {a}, Unclosed (r.Shutdown b) a → a ≠ b := by
    rintro a ⟨l,here,open_⟩ rfl
    exact open_ (Option.some.inj (here.symm.trans closed))
  refine ⟨?_,?_,?_,?_,?_,?_,?_,by simp⟩
  · intro a unclosed
    have apart := different unclosed
    exact .inl (by rwa [Unclosed,others a apart] at unclosed)
  · intro a _ refers
    exact .inl (app.trans refers)
  · intro a unclosed holds
    exact absurd (Option.some.inj (holds.symm.trans hand)) (different unclosed)
  · intro a alive
    have apart := different (aliveUnclosed alive)
    exact .inl (by rwa [Alive,others a apart] at alive)
  · intro a _ same
    exact absurd same (quiet a)
  · intro a shut
    rw [at_]
    split
    · rfl
    · exact shut
  · intro a err same
    exact absurd same (fine a err)

theorem carriesMade {addr : String} {applied : Bool} (free : held t = none) (quiet : ∀ a, t ≠ .listening a) :
    Carries r t { r with apps := r.apps ++ [.created] } (.running r.apps.length addr applied) [] := by
  have at_ : ∀ a l, (r.apps ++ [Listener.created])[a]? = some l → r.apps[a]? = some l ∨ a = r.apps.length ∧ l = .created := by
    intro a l here
    rw [List.getElem?_append] at here
    split at here
    · exact .inl here
    · rename_i late
      obtain ⟨inside,same⟩ := List.getElem?_eq_some_iff.mp here
      simp only [List.length_singleton] at inside
      rw [List.getElem_singleton] at same
      exact .inr ⟨by omega,same.symm⟩
  refine ⟨?_,fun a _ refers => .inl refers,?_,?_,?_,?_,?_,by simp⟩
  · rintro a ⟨l,here,open_⟩
    rcases at_ a l here with old | ⟨rfl,_⟩
    · exact .inl ⟨l,old,open_⟩
    · exact .inr rfl
  · intro a _ holds
    rw [free] at holds
    cases holds
  · intro a alive
    left
    rcases alive with here | here
    · exact .inl ((at_ a _ here).resolve_right (by rintro ⟨_,other⟩; cases other))
    · exact .inr ((at_ a _ here).resolve_right (by rintro ⟨_,other⟩; cases other))
  · intro a _ same
    exact absurd same (quiet a)
  · intro a closed
    exact (List.getElem?_append_left (List.getElem?_eq_some_iff.mp closed).1).trans closed
  · rintro a err ⟨⟩

/- The goroutine of an app moves it on, or ends it. -/
theorem carriesBecome {b : Nat} {was l : Listener} (here : r.apps[b]? = some was) (open_ : was ≠ .closed)
    (goes : t' = .listening b ∨ l = .closed) (fails : ∀ a err, t' = .failed a err → a = b ∧ l = .closed) :
    Carries r (.listening b) (r.become b l) t' [] := by
  have inside := (List.getElem?_eq_some_iff.mp here).1
  have own : (r.become b l).apps[b]? = some l := by
    rw [becomeAt,if_pos ⟨rfl,inside⟩]
  have others : ∀ {a}, a ≠ b → (r.become b l).apps[a]? = r.apps[a]? := by
    intro a different
    rw [becomeAt,if_neg (fun both => different both.1.symm)]
  have moving : ∀ {a}, Unclosed (r.become b l) a → a = b → t' = .listening a := by
    rintro a ⟨m,at_,alive⟩ rfl
    rcases goes with going | shut
    · exact going
    · exact absurd (Option.some.inj (at_.symm.trans (own.trans (congrArg some shut)))) alive
  refine ⟨?_,fun a _ refers => .inl refers,by rintro a _ ⟨⟩,?_,?_,?_,?_,by simp⟩
  · intro a unclosed
    by_cases same : a = b
    · exact .inl ⟨was,same ▸ here,open_⟩
    · exact .inl (by rwa [Unclosed,others same] at unclosed)
  · intro a alive
    by_cases same : a = b
    · exact .inr (moving (aliveUnclosed alive) same)
    · exact .inl (by rwa [Alive,others same] at alive)
  · intro a alive same
    exact moving (aliveUnclosed alive) (Call.listening.inj same).symm
  · intro a closed
    by_cases same : a = b
    · subst same
      exact absurd (Option.some.inj (here.symm.trans closed)) open_
    · exact (others same).trans closed
  · intro a err failing
    obtain ⟨rfl,rfl⟩ := fails a err failing
    exact own

/- The app that a restart puts in place. -/
theorem carriesRunning {b : Nat} {addr : String} {applied : Bool} (free : ∀ a, r.app = some a → r.apps[a]? = some .closed) :
    Carries r (.running b addr applied) (r.setRunning b addr) (.starting b applied) [] := by
  refine ⟨fun a unclosed => .inl unclosed,?_,?_,fun a alive => .inl alive,by rintro a _ ⟨⟩,fun a closed => closed,by rintro a err ⟨⟩,by simp⟩
  · rintro a ⟨l,here,open_⟩ refers
    exact absurd (Option.some.inj (here.symm.trans (free a refers))) open_
  · intro a _ holds
    exact .inl holds

theorem failHeld (err : String) (applied disable : Bool) : held (fail err applied disable) = none := by
  cases applied <;> rfl

theorem failCalm (err : String) (applied disable : Bool) : ∀ a e, fail err applied disable ≠ .failed a e := by
  intro a e
  cases applied <;> rintro ⟨⟩

theorem listenCarries {b : Nat} {k : Choice} (moved : Listen r b k = some (r',t',new)) : Carries r (.listening b) r' t' new := by
  unfold Listen at moved
  split at moved
  · rename_i here
    cases Option.some.inj moved
    exact carriesBecome here (by decide) (.inl rfl) (by rintro a err ⟨⟩)
  · rename_i here
    cases Option.some.inj moved
    refine carriesBecome here (by decide) (.inr rfl) ?_
    intro a err same
    exact ⟨(Call.failed.inj same).1.symm,rfl⟩
  · rename_i here
    cases Option.some.inj moved
    exact carriesBecome here (by decide) (.inl rfl) (by rintro a err ⟨⟩)
  · cases moved
  · rename_i here
    cases Option.some.inj moved
    refine carriesBecome here (by decide) (.inr rfl) ?_
    intro a err same
    exact ⟨(Call.failed.inj same).1.symm,rfl⟩
  · rename_i here
    cases Option.some.inj moved
    refine ⟨fun a unclosed => .inl unclosed,fun a _ refers => .inl refers,by rintro a _ ⟨⟩,fun a alive => .inl alive,?_,
      fun a closed => closed,by rintro a err ⟨⟩,by simp⟩
    intro a alive same
    cases same
    obtain ⟨l,at_,open_⟩ := aliveUnclosed alive
    exact absurd (Option.some.inj (at_.symm.trans here)) open_
  · cases moved

theorem nextCarries {k : Choice} (sound : Sound r pool) (mem : t ∈ pool) (orderly : Orderly r t) (moved : next k r t = some (r',t',new)) :
    Carries r t r' t' new := by
  cases t with
  | asked q =>
    cases q with
    | apply enabled address port =>
      dsimp only [next,ApplyStandaloneConfig] at moved
      split at moved <;> cases Option.some.inj moved <;>
        exact carriesSame rfl rfl rfl (by rintro a ⟨⟩) (by rintro a e ⟨⟩) (by simp)
    | restart | stop =>
      cases Option.some.inj moved
      exact carriesSame rfl rfl rfl (by rintro a ⟨⟩) (by rintro a e ⟨⟩) (by simp)
  | storing o row =>
    dsimp only [next] at moved
    split at moved <;> cases Option.some.inj moved
    · exact carriesSame rfl rfl rfl (by rintro a ⟨⟩) (by rintro a e ⟨⟩) (by simp)
    · have kind : held (stored o row) = none ∧ ∀ a e, stored o row ≠ .failed a e := by
        cases row <;> unfold stored
        · exact ⟨rfl,by rintro a e ⟨⟩⟩
        · exact ⟨rfl,by rintro a e ⟨⟩⟩
        · dsimp only
          split
          · exact ⟨rfl,by rintro a e ⟨⟩⟩
          · exact ⟨rfl,by rintro a e ⟨⟩⟩
      exact carriesSame rfl rfl kind.1 (by rintro a ⟨⟩) kind.2 (by simp)
  | stop applied =>
    cases Option.some.inj moved
    refine carriesTaken rfl ?_ rfl (by rintro a ⟨⟩) ?_
    · intro a refers
      rw [refers]
      rfl
    · intro a e
      cases r.app <;> rintro ⟨⟩
  | stopping b applied =>
    cases Option.some.inj moved
    refine carriesShut rfl orderly (by rintro a ⟨⟩) ?_
    intro a e
    cases k with
    | ok => rintro ⟨⟩
    | fails err => exact failCalm err applied false a e
  | restart address port applied =>
    cases Option.some.inj moved
    refine carriesTaken rfl ?_ rfl (by rintro a ⟨⟩) ?_
    · intro a refers
      rw [refers]
      rfl
    · intro a e
      cases r.app <;> rintro ⟨⟩
  | replacing b address port applied =>
    cases Option.some.inj moved
    exact carriesShut rfl orderly (by rintro a ⟨⟩) (by rintro a e ⟨⟩)
  | making address port applied =>
    dsimp only [next] at moved
    split at moved <;> cases Option.some.inj moved
    · exact carriesSame rfl rfl (failHeld _ _ _) (by rintro a ⟨⟩) (failCalm _ _ _) (by simp)
    · exact carriesMade rfl (by rintro a ⟨⟩)
  | running b addr applied =>
    cases Option.some.inj moved
    exact carriesRunning orderly
  | starting b applied =>
    cases Option.some.inj moved
    refine carriesSame rfl rfl rfl (by rintro a ⟨⟩) (by rintro a e ⟨⟩) ?_
    intro t mem
    exact ⟨b,List.mem_singleton.mp mem⟩
  | settling applied =>
    cases Option.some.inj moved
    exact carriesSame rfl rfl rfl (by rintro a ⟨⟩) (by rintro a e ⟨⟩) (by simp)
  | checking errMsg applied =>
    obtain ⟨rfl,rest⟩ := Prod.mk.inj (Option.some.inj moved)
    obtain ⟨rfl,rfl⟩ := Prod.mk.inj rest
    split
    · exact carriesSame rfl rfl (failHeld _ _ _) (by rintro a ⟨⟩) (failCalm _ _ _) (by simp)
    · exact carriesSame rfl rfl rfl (by rintro a ⟨⟩) (by rintro a e ⟨⟩) (by simp)
  | reporting err disable =>
    cases Option.some.inj moved
    cases disable <;> exact carriesSame rfl rfl rfl (by rintro a ⟨⟩) (by rintro a e ⟨⟩) (by simp)
  | disabling err =>
    cases k <;> cases Option.some.inj moved <;> exact carriesSame rfl rfl rfl (by rintro a ⟨⟩) (by rintro a e ⟨⟩) (by simp)
  | listening b => exact listenCarries moved
  | failed b err =>
    have closed := sound.ended b err mem
    obtain ⟨rfl,rest⟩ := Prod.mk.inj (Option.some.inj moved)
    obtain ⟨rfl,rfl⟩ := Prod.mk.inj rest
    split
    · rename_i refers
      refine ⟨fun a unclosed => .inl unclosed,?_,by rintro a _ ⟨⟩,fun a alive => .inl alive,by rintro a _ ⟨⟩,fun a closed => closed,
        by rintro a e ⟨⟩,by simp⟩
      rintro a ⟨l,here,open_⟩ same
      cases Option.some.inj (refers.symm.trans same)
      exact absurd (Option.some.inj (here.symm.trans closed)) open_
    · exact carriesSame rfl rfl rfl (by rintro a ⟨⟩) (by rintro a e ⟨⟩) (by simp)
  | done err => cases moved

theorem soundPreserved : Preserved system (fun c => Orderly c.shared) (fun c => Sound c.shared c.pool) := by
  constructor
  · intro c q sound
    refine ⟨?_,?_,?_⟩
    · intro a unclosed
      rcases sound.kept a unclosed with refers | ⟨t,mem,holds⟩
      · exact .inl refers
      · exact .inr ⟨t,List.mem_append_left _ mem,holds⟩
    · intro a alive
      exact List.mem_append_left _ (sound.served a alive)
    · intro a err mem
      rcases List.mem_append.mp mem with old | new
      · exact sound.ended a err old
      · cases List.mem_singleton.mp new
  · intro c i t k s t' new sound found orderly moved
    exact soundCarried sound found (nextCarries sound (List.mem_of_getElem? found) orderly moved)

theorem soundInitial (options : Options) : Sound (initial options) [] := by
  refine ⟨?_,?_,by simp⟩
  · rintro a ⟨l,here,_⟩
    simp [initial] at here
  · rintro a (here | here) <;> simp [initial] at here

/- The step of the last call. -/
theorem runLast {k : Choice} {es : List (Event Request Choice)} (moved : next k r t = some (r',t',[])) :
    run system ⟨r,pool ++ [t]⟩ (.step pool.length k :: es) = run system ⟨r',pool ++ [t']⟩ es := by
  have here : (pool ++ [t])[pool.length]? = some t := by simp
  simp only [run,exec,here,system,moved]
  simp

/- A stop of a runtime that refers to a serving app. -/
theorem stopCloses {c : Config StandaloneRuntime Call} {a : Nat} (refers : c.shared.app = some a)
    (serving : c.shared.apps[a]? = some .serving) (k : Choice) :
    ∃ d, run system c [.call .stop,.step c.pool.length .ok,.step c.pool.length .ok,.step c.pool.length k] = some d ∧
      d.shared.apps = c.shared.apps.set a .closed := by
  have asks : next .ok c.shared (.asked .stop) = some (c.shared,.stop false,[]) := rfl
  have takes : next .ok c.shared (.stop false) = some (c.shared.clear,.stopping a false,[]) := by
    dsimp only [next]
    rw [refers]
  have shuts : c.shared.clear.Shutdown a = c.shared.clear.become a .closed := if_pos serving
  refine ⟨_,(runLast asks).trans ((runLast takes).trans (runLast rfl)),?_⟩
  show (c.shared.clear.Shutdown a).apps = _
  rw [shuts]
  rfl

/- In every run whose restarts and stops are orderly, one listener is left when all is quiet, and it can be
stopped. -/
theorem singleListener {options : Options} {c : Config StandaloneRuntime Call} {es : List (Event Request Choice)}
    (orderly : Along system (fun c => Orderly c.shared) ⟨initial options,[]⟩ es) (ran : run system ⟨initial options,[]⟩ es = some c)
    (quiet : Quiet c) : Single c := by
  have sound := runPreserved soundPreserved (soundInitial options) orderly ran
  have refers : ∀ a, Alive c.shared a → c.shared.app = some a := by
    intro a alive
    refine (sound.kept a (aliveUnclosed alive)).resolve_right ?_
    rintro ⟨t,mem,holds⟩
    rcases quiet t mem with ⟨err,rfl⟩ | ⟨b,rfl,_⟩ <;> cases holds
  have serves : ∀ a, Alive c.shared a → c.shared.apps[a]? = some .serving := by
    intro a alive
    rcases quiet _ (sound.served a alive) with ⟨err,same⟩ | ⟨b,same,serving⟩
    · cases same
    · cases same
      exact serving
  refine ⟨?_,refers,?_⟩
  · intro a b first second
    exact Option.some.inj ((refers a first).symm.trans (refers b second))
  · intro a alive k
    obtain ⟨d,stopped,apps⟩ := stopCloses (refers a alive) (serves a alive) k
    refine ⟨d,stopped,?_⟩
    intro b later
    rw [Alive,apps] at later
    by_cases same : a = b
    · subst same
      rw [List.getElem?_set_self (List.getElem?_eq_some_iff.mp (serves a alive)).1] at later
      rcases later with ⟨⟨⟩⟩ | ⟨⟨⟩⟩
    · rw [List.getElem?_set_ne same] at later
      exact same (Option.some.inj ((refers a alive).symm.trans (refers b later)))

end

/- One restart, up to its listener and its answer. -/
def oneRestart : List (Event Request Choice) :=
  .call (.restart "127.0.0.1" 9100) :: (List.replicate 5 (.step 0 .ok) ++ [.step 1 .ok,.step 1 .ok,.step 0 .ok,.step 0 .ok])

theorem singleListenerOne : ∃ c, run system ⟨initial ⟨false,"",0⟩,[]⟩ oneRestart = some c ∧ Single c := by
  have ran : run system ⟨initial ⟨false,"",0⟩,[]⟩ oneRestart =
      some ⟨⟨some 0,"127.0.0.1:9100","",[.serving],⟨false,"",0⟩⟩,[.done none,.listening 0]⟩ := by rfl
  refine ⟨_,ran,singleListener (by decide) ran ?_⟩
  intro t mem
  rcases List.mem_cons.mp mem with rfl | rest
  · exact .inl ⟨none,rfl⟩
  · exact .inr ⟨0,List.mem_singleton.mp rest,rfl⟩

/- Two restarts: each stops what is there before the other has put its app in place. -/
def twoRestarts : List (Event Request Choice) :=
  [.call (.restart "127.0.0.1" 9100),.call (.restart "127.0.0.1" 9200),.step 0 .ok,.step 1 .ok,.step 0 .ok,.step 1 .ok,
    .step 0 .ok,.step 1 .ok,.step 0 .ok,.step 0 .ok,.step 1 .ok,.step 1 .ok,.step 2 .ok,.step 2 .ok,.step 3 .ok,.step 3 .ok,
    .step 0 .ok,.step 0 .ok,.step 1 .ok,.step 1 .ok]

/- Both listen, and the runtime knows of the second one only. -/
theorem listenerLost : ¬∀ (options : Options) (es : List (Event Request Choice)) (c : Config StandaloneRuntime Call),
    run system ⟨initial options,[]⟩ es = some c → Quiet c → Single c := by
  intro always
  have ran : run system ⟨initial ⟨false,"",0⟩,[]⟩ twoRestarts =
      some ⟨⟨some 1,"127.0.0.1:9200","",[.serving,.serving],⟨false,"",0⟩⟩,[.done none,.done none,.listening 0,.listening 1]⟩ := by
    rfl
  have quiet : Quiet ⟨⟨some 1,"127.0.0.1:9200","",[.serving,.serving],⟨false,"",0⟩⟩,[.done none,.done none,.listening 0,.listening 1]⟩ := by
    intro t mem
    simp only [List.mem_cons,List.not_mem_nil,or_false] at mem
    rcases mem with rfl | rfl | rfl | rfl
    · exact .inl ⟨none,rfl⟩
    · exact .inl ⟨none,rfl⟩
    · exact .inr ⟨0,rfl,rfl⟩
    · exact .inr ⟨1,rfl,rfl⟩
  have single := always _ _ _ ran quiet
  have same := single.one 0 1 (.inr rfl) (.inr rfl)
  cases same

/- A stop that comes before the app listens closes nothing. -/
example : run system ⟨initial ⟨false,"",0⟩,[]⟩
    [.call (.restart "127.0.0.1" 9100),.call .stop,.step 0 .ok,.step 0 .ok,.step 0 .ok,.step 0 .ok,.step 0 .ok,.step 1 .ok,.step 1 .ok,
      .step 1 .ok,.step 2 .ok,.step 2 .ok,.step 0 .ok,.step 0 .ok] =
    some ⟨⟨none,"","",[.serving],⟨false,"",0⟩⟩,[.done none,.done none,.listening 0]⟩ := by rfl

end ContainerWS.Mcp
