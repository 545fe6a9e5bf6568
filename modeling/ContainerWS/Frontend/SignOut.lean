import ContainerWS.Frontend.Network

/-! The sign-out that the response interceptor forces: it acts on the session that is
current when the failure is handled, whichever session the request was sent for. -/
namespace ContainerWS.Frontend

/- The failure leaves nothing to try: no refresh is allowed any more, or there is nothing to refresh with. -/
def Client.hopeless (w : Client) (c : Config) (r : Response) : Bool :=
  r.status = 401 && !w.accessDenied r && !(Client.refreshable r && !c.authRetried && w.currentRefreshToken.isSome)

/- The request whose failure makes the client sign out at this step. -/
def forcing (w : Client) : Event → Option Config
  | .respond n r _ =>
    match w.configs[n]? with
    | some c => if c.stage = .sent ∧ w.hopeless c r = true then some c else none
    | none => none
  | .resumeRetry n =>
    match w.configs[n]? with
    | some c =>
      match c.stage with
      | .retrying refresh => if w.settled refresh = some none then some c else none
      | _ => none
    | none => none
  | _ => none

theorem respondSignsOut {w : Client} {n : Nat} {c : Config} {r : Response} {fresh : Fresh} (hopeless : w.hopeless c r = true) :
    (w.respond n c r fresh).store = w.store.signOut := by
  unfold Client.hopeless at hopeless
  simp only [Bool.and_eq_true,decide_eq_true_eq,Bool.not_eq_true'] at hopeless
  obtain ⟨⟨unauthorized,rights⟩,last⟩ := hopeless
  unfold Client.respond
  rw [if_neg (by omega),rights,if_neg (by simp),if_pos unauthorized]
  split
  · rename_i retry
    rw [retry,Bool.true_and,Option.isSome_eq_false_iff,Option.isNone_iff_eq_none] at last
    rw [last]
    rfl
  · rfl

theorem forcingSignsOut {w : Client} {e : Event} {c : Config} (forced : forcing w e = some c) :
    (advance w e).store = w.store.signOut := by
  cases e with
  | respond n r fresh =>
    rw [forcing] at forced
    rw [advance]
    cases found : w.configs[n]? with
    | none =>
      rw [found] at forced
      cases forced
    | some d =>
      rw [found] at forced
      dsimp only at forced ⊢
      by_cases held : d.stage = .sent ∧ w.hopeless d r = true
      · rw [if_pos held.1]
        exact respondSignsOut held.2
      · rw [if_neg held] at forced
        cases forced
  | resumeRetry n =>
    rw [forcing] at forced
    rw [advance]
    cases found : w.configs[n]? with
    | none =>
      rw [found] at forced
      cases forced
    | some d =>
      rw [found] at forced
      dsimp only at forced ⊢
      cases waits : d.stage with
      | retrying refresh =>
        rw [waits] at forced
        dsimp only at forced ⊢
        by_cases settled : w.settled refresh = some none
        · rw [settled]
          rfl
        · rw [if_neg settled] at forced
          cases forced
      | _ =>
        rw [waits] at forced
        cases forced
  | _ => cases forced

/- A forced sign-out takes away no session but the one with whose token the request was sent. -/
def SparesOthers (w : Client) (e : Event) : Prop :=
  ∀ c, forcing w e = some c → ∀ s ∈ w.store.sessions, c.authorization.map Held.owner ≠ some s.sessionId →
    s ∈ (advance w e).store.sessions

/- It comes while that session is the current one, or none is. -/
def Current (w : Client) (e : Event) : Prop :=
  ∀ c, forcing w e = some c → ∀ s ∈ w.store.sessions, w.store.currentSession.is s.sessionId = true →
    c.authorization.map Held.owner = some s.sessionId

theorem sparesIff (w : Client) (e : Event) : SparesOthers w e ↔ Current w e := by
  refine forall_congr' (fun c => forall_congr' (fun forced => forall₂_congr (fun s mem => ?_)))
  rw [forcingSignsOut forced]
  have kept : s ∈ w.store.signOut.sessions ↔ w.store.currentSession.is s.sessionId = false := by
    unfold AuthorizationState.signOut
    simp [mem]
  rw [kept]
  constructor
  · intro spares current
    by_contra other
    cases current.symm.trans (spares other)
  · intro own other
    by_contra current
    exact other (own (by simpa using current))

theorem alongIff {p q : Client → Event → Prop} (same : ∀ w e, p w e ↔ q w e) (w : Client) (events : List Event) :
    Along p w events ↔ Along q w events := by
  induction events generalizing w with
  | nil => exact Iff.rfl
  | cons e rest ih => exact and_congr (same w e) (ih _)

/- In a run of whatever order no other session is lost by a forced sign-out exactly when each
comes while the session of its request is current. -/
theorem runSpares (s : AuthorizationState) (events : List Event) :
    Along SparesOthers (loaded s) events ↔ Along Current (loaded s) events :=
  alongIff sparesIff (loaded s) events

def invalidCredentials : Response := ⟨401,some "INVALID_CREDENTIALS",none⟩

/- Two requests of one session fail, one after the other. -/
def twoFailures : List Event :=
  [.request,.request,.intercept 0 false,.intercept 1 false,.respond 0 invalidCredentials ⟨"x",by decide⟩,
    .respond 1 invalidCredentials ⟨"x",by decide⟩]

/- The second failure signs the other account out. -/
theorem secondFailureTakesOther : ¬Along SparesOthers (loaded twoAccounts) twoFailures := by
  intro spares
  have last := spares.2.2.2.2.2.1 ⟨"f",some ⟨"a1","a"⟩,false,some "a",.sent⟩ (by decide)
    (sampleSession "b" "b1" "rb") (List.Mem.head _) (by decide)
  exact List.not_mem_nil last

end ContainerWS.Frontend
