import ContainerWS.Frontend.Network
import ContainerWS.Runs

/-! One call through the client of lib/network, followed to its end: the requests and the refreshes that it sends,
whatever the server answers and whatever other calls do to the store meanwhile. A config that is submitted again keeps its flags. -/
namespace ContainerWS.Frontend
open Runs

/- What an answer carries. Tokens that come without a user cannot be signed in with. -/
inductive Body where
  | text (s : String)
  | fields (code : Option String) (reauthorize : Option (Option SignInResponse))

def Body.reauthorize : Body → Option (Option SignInResponse)
  | .text _ => none
  | .fields _ again => again

structure Reply where
  status : Nat
  data : Body

/- `getResponseCode`. -/
def Reply.code (r : Reply) : Option String :=
  match r.data with
  | .text _ => none
  | .fields code _ => code

def Reply.ok (r : Reply) : Bool := decide (200 ≤ r.status ∧ r.status < 300)

/- Where `refreshAccessToken` was called: in the request interceptor, which falls back on the token it had, or behind a 401
with its code. -/
inductive Await where
  | before (accessToken : String)
  | after (code : Option String)
  deriving DecidableEq

/- The config of a refresh, whose `_isRefresh` is set. -/
structure RefreshConfig where
  authorization : String
  authRetried : Bool
  deriving DecidableEq

inductive Point where
  | made
  | refreshing (why : Await) (config : RefreshConfig)
  | joined (why : Await)
  | sent
  | settled (resolved : Bool)
  deriving DecidableEq

/- A call, the store it runs on, and whether the refresh of another call is in flight. -/
structure Attempt where
  store : AuthorizationState
  busy : Bool
  cra : String
  authorization : Option String
  authRetried : Bool
  stage : Point
  toasts : List String
  requests : Nat
  refreshes : Nat

def begun (store : AuthorizationState) (busy : Bool) : Attempt := ⟨store,busy,"",none,false,.made,[],0,0⟩

inductive Move where
  | elsewhere (store : AuthorizationState) (busy : Bool)
  | intercept (stale : Bool)
  | answer (reply : Option Reply) (fresh : Fresh)
  | shared (newAccess : Option String)

section
-- Whether `jwtDecode` reads a token.
variable (decodes : String → Bool)

def isValidJwtFormat (token : String) : Bool := token ≠ "" && decodes token

namespace Attempt

def send (a : Attempt) : Attempt := { a with stage := .sent, requests := a.requests+1 }

/- `refreshAccessToken`: the refresh in flight, or one of its own. -/
def refreshAccessToken (a : Attempt) (why : Await) (refreshToken : String) : Attempt :=
  if a.busy then { a with stage := .joined why }
  else { a with stage := .refreshing why ⟨refreshToken,false⟩, refreshes := a.refreshes+1 }

def accessToken (a : Attempt) : String := (a.store.getCurrentTokens.map Tokens.accessToken).getD ""

def refreshToken (a : Attempt) : String := (a.store.getCurrentTokens.map Tokens.refreshToken).getD ""

/- The last resort is the token that may have expired. -/
def sendWith (a : Attempt) (token : String) : Attempt :=
  ({ a with authorization := if token ≠ "" then some token else a.authorization }).send

def intercept (a : Attempt) (stale : Bool) : Attempt :=
  if a.accessToken = "" ∧ a.refreshToken = "" then ({ a with cra := "t" }).send
  else
    let b := { a with cra := "f" }
    if a.accessToken ≠ "" ∧ stale = false then b.sendWith a.accessToken
    else if a.refreshToken ≠ "" then b.refreshAccessToken (.before a.accessToken) a.refreshToken
    else b.sendWith a.accessToken

def forceSignOut (a : Attempt) (code : Option String) : Attempt :=
  { a with
    store := a.store.signOut
    toasts := a.toasts ++ [if code = some "INVALID_CREDENTIALS" then "Invalid credentials" else "Session expired. Please sign in again."]
    stage := .settled false }

/- What waited for a refresh goes on. -/
def resume (a : Attempt) (why : Await) (newAccess : Option String) : Attempt :=
  match why,newAccess with
  | .before _,some token => ({ a with authorization := some token }).send
  | .before accessToken,none => a.sendWith accessToken
  | .after _,some token => { a with authorization := some token, stage := .made }
  | .after code,none => a.forceSignOut code

/- The end of `performRefresh`, on what its request came back with. -/
def received (a : Attempt) (why : Await) (data : Body) : Attempt :=
  match data with
  | .text token => if isValidJwtFormat decodes token then ({ a with store := a.store.setAccessToken token }).resume why (some token) else a.resume why none
  | .fields _ _ => a.resume why none

/- A refresh request is answered. The handler of an answer that went well does not ask whose it is. -/
def answerRefresh (a : Attempt) (why : Await) (config : RefreshConfig) (reply : Option Reply) (fresh : Fresh) : Attempt :=
  match reply with
  | none => a.resume why none
  | some r =>
    if r.ok then
      match r.data.reauthorize with
      | none => a.received decodes why r.data
      | some again =>
        if r.status = 200 then
          match again with
          | none => a.resume why none
          | some input =>
            let a := { a with store := a.store.signIn { input with sessionId := none } false fresh }
            if config.authRetried = false then
              { a with stage := .refreshing why { config with authRetried := true }, refreshes := a.refreshes+1 }
            else a.received decodes why r.data
        else a.received decodes why r.data
    else a.resume why none

def accessDenied (a : Attempt) (status : Nat) (code : Option String) : Bool :=
  code.any (fun code => permissionCodes.contains code) || status = 403 || (a.store.isSignedIn && code = some "UNAUTHORIZED")

/- The request itself is answered. -/
def respond (a : Attempt) (reply : Option Reply) (fresh : Fresh) : Attempt :=
  match reply with
  | none => { a with stage := .settled false }
  | some r =>
    if r.ok then
      match r.data.reauthorize with
      | none => { a with stage := .settled true }
      | some again =>
        if r.status = 200 then
          match again with
          | none => { a with stage := .settled false }
          | some input =>
            let a := { a with store := a.store.signIn { input with sessionId := none } false fresh }
            if a.authRetried = false then { a with authRetried := true, stage := .made } else { a with stage := .settled true }
        else { a with stage := .settled true }
    else if a.accessDenied r.status r.code then { a with store := { a.store with accessDenied := true }, stage := .settled false }
    else if r.status = 401 then
      if Client.refreshable ⟨r.status,r.code,none⟩ ∧ a.authRetried = false ∧ a.refreshToken ≠ "" then
        ({ a with authRetried := true }).refreshAccessToken (.after r.code) a.refreshToken
      else a.forceSignOut r.code
    else { a with stage := .settled false }

end Attempt

/- A move that is not due is none. -/
def Attempt.step (a : Attempt) : Move → Option Attempt
  | .elsewhere store busy => some { a with store := store, busy := busy }
  | .intercept stale => if a.stage = .made then some (a.intercept stale) else none
  | .answer reply fresh =>
    match a.stage with
    | .refreshing why config => some (a.answerRefresh decodes why config reply fresh)
    | .sent => some (a.respond reply fresh)
    | _ => none
  | .shared newAccess =>
    match a.stage with
    | .joined why => some (a.resume why (newAccess.filter (fun token => token ≠ "")))
    | _ => none

end

/- A move of the call itself. -/
def Move.own : Move → Bool
  | .elsewhere _ _ => false
  | _ => true

/- No refresh is answered as a sign-in. -/
def Plain (a : Attempt) (m : Move) : Prop :=
  match a.stage,m with
  | .refreshing _ _,.answer (some r) _ => ¬ (r.status = 200 ∧ r.data.reauthorize.isSome = true)
  | _,_ => True

instance (a : Attempt) (m : Move) : Decidable (Plain a m) := by
  unfold Plain
  split <;> infer_instance

/- What a request, a refresh and a move count, and how often one refresh may be sent. -/
structure Prices where
  request : Nat
  refresh : Nat
  move : Nat
  each : Nat

namespace Prices
variable (p : Prices)

def round : Nat := p.each*(p.refresh+p.move)

def sentLeft (retried : Bool) : Nat :=
  if retried then p.move else p.move+p.round+(p.move+p.round+p.request+p.move)

def madeLeft (retried : Bool) : Nat := p.move+p.round+p.request+p.sentLeft retried

def behind (retried : Bool) : Await → Nat
  | .before _ => p.request+p.sentLeft retried
  | .after _ => p.madeLeft retried

/- The most that is still to come. -/
def left (a : Attempt) : Nat :=
  match a.stage with
  | .made => p.madeLeft a.authRetried
  | .refreshing why config => p.move+(if config.authRetried then 0 else (p.each-1)*(p.refresh+p.move))+p.behind a.authRetried why
  | .joined why => p.move+p.behind a.authRetried why
  | .sent => p.sentLeft a.authRetried
  | .settled _ => 0

def spent (a : Attempt) : Nat := p.request*a.requests+p.refresh*a.refreshes

def weight (a : Attempt) : Nat := p.spent a+p.left a

theorem weightSend (a : Attempt) : p.weight a.send = p.spent a+(p.request+p.sentLeft a.authRetried) := by
  simp only [weight,spent,left,Attempt.send,Nat.mul_add,Nat.mul_one]
  omega

theorem weightSendWith (a : Attempt) (token : String) : p.weight (a.sendWith token) = p.spent a+(p.request+p.sentLeft a.authRetried) :=
  p.weightSend _

/- One refresh, whether it is sent or joined, and what comes behind it. -/
theorem weightRefresh (once : 1 ≤ p.each) (a : Attempt) (why : Await) (refreshToken : String) :
    p.weight (a.refreshAccessToken why refreshToken) ≤ p.spent a+p.round+p.behind a.authRetried why := by
  have round : p.round = (p.each-1)*(p.refresh+p.move)+(p.refresh+p.move) := by
    rw [Prices.round,← Nat.succ_mul,Nat.succ_eq_add_one,Nat.sub_add_cancel once]
  unfold Attempt.refreshAccessToken
  split
  · simp only [weight,spent,left]
    omega
  · simp only [weight,spent,left,Nat.mul_add,Nat.mul_one,Bool.false_eq_true,if_false] at round ⊢
    omega

theorem weightResume (a : Attempt) (why : Await) (newAccess : Option String) :
    p.weight (a.resume why newAccess) ≤ p.spent a+p.behind a.authRetried why := by
  cases why with
  | before accessToken =>
    cases newAccess with
    | none => exact Nat.le_of_eq (p.weightSendWith a accessToken)
    | some token => exact Nat.le_of_eq (p.weightSend _)
  | after code =>
    cases newAccess with
    | none => exact Nat.le_add_right _ _
    | some token => exact Nat.le_refl _

theorem weightReceived (decodes : String → Bool) (a : Attempt) (why : Await) (data : Body) :
    p.weight (a.received decodes why data) ≤ p.spent a+p.behind a.authRetried why := by
  unfold Attempt.received
  split
  · split
    · exact p.weightResume _ why _
    · exact p.weightResume a why none
  · exact p.weightResume a why none

/- The request interceptor: a refresh at most, and then the request. -/
theorem weightIntercept (once : 1 ≤ p.each) (a : Attempt) (stale : Bool) :
    p.weight (a.intercept stale)+p.move ≤ p.spent a+p.madeLeft a.authRetried := by
  have sends (b : Attempt) (spent : p.spent b = p.spent a) (flag : b.authRetried = a.authRetried) (token : String) :
      p.weight (b.sendWith token)+p.move ≤ p.spent a+p.madeLeft a.authRetried := by
    rw [weightSendWith,spent,flag,madeLeft]
    omega
  unfold Attempt.intercept
  split
  · rw [weightSend]
    show p.spent a+(p.request+p.sentLeft a.authRetried)+p.move ≤ _
    rw [madeLeft]
    omega
  · dsimp only
    split
    · exact sends { a with cra := "f" } rfl rfl a.accessToken
    · split
      · have one := p.weightRefresh once { a with cra := "f" } (.before a.accessToken) a.refreshToken
        have same : p.spent { a with cra := "f" } = p.spent a := rfl
        rw [same] at one
        rw [madeLeft]
        simp only [behind] at one
        omega
      · exact sends { a with cra := "f" } rfl rfl a.accessToken

/- The answer to a refresh: it may be sent again only when it is answered as a sign-in. -/
theorem weightAnswer {decodes : String → Bool} {a : Attempt} {why : Await} {config : RefreshConfig} {reply : Option Reply} (fresh : Fresh)
    (here : a.stage = .refreshing why config) (enough : 2 ≤ p.each ∨ Plain a (.answer reply fresh)) :
    p.weight (a.answerRefresh decodes why config reply fresh)+p.move ≤ p.weight a := by
  have whole : p.weight a = p.spent a+
      (p.move+(if config.authRetried then 0 else (p.each-1)*(p.refresh+p.move))+p.behind a.authRetried why) := by
    simp only [weight,left,here]
  have ends (b : Attempt) (bound : p.weight b ≤ p.spent a+p.behind a.authRetried why) : p.weight b+p.move ≤ p.weight a := by
    rw [whole]
    omega
  unfold Attempt.answerRefresh
  split
  · exact ends _ (p.weightResume a why none)
  · rename_i r
    split
    · split
      · exact ends _ (p.weightReceived decodes a why _)
      · rename_i again some
        split
        · rename_i good
          split
          · exact ends _ (p.weightResume a why none)
          · dsimp only
            split
            · rename_i first
              have twice : 2 ≤ p.each := by
                refine enough.resolve_right fun plain => ?_
                simp only [Plain,here,some] at plain
                exact plain ⟨good,rfl⟩
              have more : p.refresh+p.move ≤ (p.each-1)*(p.refresh+p.move) := Nat.le_mul_of_pos_left _ (by omega)
              rw [whole,first]
              simp only [weight,spent,left,Nat.mul_add,Nat.mul_one,Bool.false_eq_true,if_false,if_true] at more ⊢
              omega
            · exact ends _ (p.weightReceived decodes _ why _)
        · exact ends _ (p.weightReceived decodes a why _)
    · exact ends _ (p.weightResume a why none)

/- The answer to the request: it is sent again once. -/
theorem weightRespond (once : 1 ≤ p.each) (a : Attempt) (reply : Option Reply) (fresh : Fresh) :
    p.weight (a.respond reply fresh)+p.move ≤ p.spent a+p.sentLeft a.authRetried := by
  have ends (b : Attempt) (bound : p.weight b = p.spent a) : p.weight b+p.move ≤ p.spent a+p.sentLeft a.authRetried := by
    rw [bound,sentLeft]
    split <;> omega
  unfold Attempt.respond
  split
  · exact ends _ rfl
  · rename_i r
    split
    · split
      · exact ends _ rfl
      · split
        · split
          · exact ends _ rfl
          · dsimp only
            split
            · rename_i first
              show p.spent a+p.madeLeft true+p.move ≤ _
              rw [first]
              simp only [madeLeft,sentLeft,Bool.false_eq_true,if_false,if_true]
              omega
            · exact ends _ rfl
        · exact ends _ rfl
    · split
      · exact ends _ rfl
      · split
        · split
          · rename_i held
            have one := p.weightRefresh once { a with authRetried := true } (.after r.code) a.refreshToken
            have same : p.spent { a with authRetried := true } = p.spent a := rfl
            rw [same] at one
            simp only [behind,madeLeft,sentLeft,if_true] at one
            rw [sentLeft,held.2.1]
            simp only [Bool.false_eq_true,if_false]
            omega
          · exact ends _ rfl
        · exact ends _ rfl

variable {p} in
theorem leftNone (positive : 0 < p.move) {a : Attempt} (none : p.left a = 0) : ∃ resolved, a.stage = .settled resolved := by
  have sent (retried : Bool) : 0 < p.sentLeft retried := by
    unfold sentLeft
    split <;> omega
  have made := sent a.authRetried
  unfold left madeLeft at none
  split at none
  · omega
  · omega
  · omega
  · omega
  · exact ⟨_,by assumption⟩

variable {decodes : String → Bool} {a t : Attempt}

/- Every move of the call is paid for. -/
theorem stepPays (once : 1 ≤ p.each) {m : Move} (enough : 2 ≤ p.each ∨ Plain a m) (moved : a.step decodes m = some t) :
    p.weight t+(if m.own then p.move else 0) ≤ p.weight a := by
  cases m with
  | elsewhere store busy =>
    cases moved
    exact Nat.le_refl _
  | intercept stale =>
    simp only [Attempt.step] at moved
    split at moved
    · rename_i made
      cases moved
      have whole : p.weight a = p.spent a+p.madeLeft a.authRetried := by simp only [weight,left,made]
      rw [whole]
      exact p.weightIntercept once a stale
    · cases moved
  | answer reply fresh =>
    simp only [Attempt.step] at moved
    split at moved
    · rename_i why config here
      cases moved
      exact p.weightAnswer fresh here enough
    · rename_i sent
      cases moved
      have whole : p.weight a = p.spent a+p.sentLeft a.authRetried := by simp only [weight,left,sent]
      rw [whole]
      exact p.weightRespond once a reply fresh
    · cases moved
  | shared newAccess =>
    simp only [Attempt.step] at moved
    split at moved
    · rename_i why joined
      cases moved
      have whole : p.weight a = p.spent a+(p.move+p.behind a.authRetried why) := by simp only [weight,left,joined]
      have one := p.weightResume a why (newAccess.filter (fun token => token ≠ ""))
      rw [whole]
      show _+p.move ≤ _
      omega
    · cases moved

end Prices

theorem costOwn (price : Nat) (moves : List Move) : (moves.map fun m => if m.own then price else 0).sum = price*moves.countP Move.own := by
  induction moves with
  | nil => rfl
  | cons m rest ih =>
    rw [List.map_cons,List.sum_cons,ih,List.countP_cons]
    cases m.own
    · simp
    · simp [Nat.mul_add,Nat.add_comm]

section
variable {decodes : String → Bool} {store : AuthorizationState} {busy : Bool} {moves : List Move} {t : Attempt}

theorem runPaid (p : Prices) (once : 1 ≤ p.each) (enough : 2 ≤ p.each ∨ Guided (Attempt.step decodes) Plain (begun store busy) moves)
    (ran : Runs.run (Attempt.step decodes) (begun store busy) moves = some t) :
    p.weight t+p.move*moves.countP Move.own ≤ p.move+p.round+p.request+(p.move+p.round+(p.move+p.round+p.request+p.move)) := by
  have start : p.weight (begun store busy) = p.move+p.round+p.request+(p.move+p.round+(p.move+p.round+p.request+p.move)) := by
    simp only [Prices.weight,Prices.spent,Prices.left,begun,Prices.madeLeft,Prices.sentLeft,Nat.mul_zero,Nat.zero_add,Bool.false_eq_true,if_false]
  rw [← start,← costOwn]
  rcases enough with twice | plain
  · exact runPays (fun _ moved => p.stepPays once (.inl twice) moved) (guidedFree moves _) ran
  · exact runPays (fun plain moved => p.stepPays once (.inr plain) moved) plain ran

/- A call that has not settled waits for a move of its own. -/
theorem attemptMoves (a : Attempt) : (∃ resolved, a.stage = .settled resolved) ∨ ∃ m t, m.own = true ∧ a.step decodes m = some t := by
  cases here : a.stage with
  | made => exact .inr ⟨.intercept true,_,rfl,by rw [Attempt.step,if_pos here]⟩
  | refreshing why config => exact .inr ⟨.answer none ⟨"a",by decide⟩,_,rfl,by simp only [Attempt.step,here]; rfl⟩
  | joined why => exact .inr ⟨.shared none,_,rfl,by simp only [Attempt.step,here]; rfl⟩
  | sent => exact .inr ⟨.answer none ⟨"a",by decide⟩,_,rfl,by simp only [Attempt.step,here]; rfl⟩
  | settled resolved => exact .inl ⟨resolved,rfl⟩

/- Whatever the server answers, a call sends two requests, and with each of three refreshes two. -/
theorem callEnds (ran : Runs.run (Attempt.step decodes) (begun store busy) moves = some t) :
    t.requests ≤ 2 ∧ t.refreshes ≤ 6 ∧ moves.countP Move.own ≤ 10 ∧ (moves.countP Move.own = 10 → ∃ resolved, t.stage = .settled resolved) := by
  have requests := runPaid ⟨1,0,0,2⟩ (by decide) (.inl (by decide)) ran
  have refreshes := runPaid ⟨0,1,0,2⟩ (by decide) (.inl (by decide)) ran
  have own := runPaid ⟨0,0,1,2⟩ (by decide) (.inl (by decide)) ran
  simp only [Prices.weight,Prices.spent,Prices.round] at requests refreshes own
  refine ⟨by omega,by omega,by omega,?_⟩
  intro ten
  exact Prices.leftNone (p := ⟨0,0,1,2⟩) Nat.one_pos (by omega)

/- In every run of a call whose refreshes are not answered as sign-ins: two requests and three refreshes at most, and after
ten moves of its own the call has settled; until then it can move. -/
theorem callBounded (guided : Guided (Attempt.step decodes) Plain (begun store busy) moves)
    (ran : Runs.run (Attempt.step decodes) (begun store busy) moves = some t) :
    t.requests ≤ 2 ∧ t.refreshes ≤ 3 ∧ moves.countP Move.own ≤ 10 ∧ (moves.countP Move.own = 10 → ∃ resolved, t.stage = .settled resolved) ∧
    ((∃ resolved, t.stage = .settled resolved) ∨ ∃ m u, m.own = true ∧ t.step decodes m = some u) := by
  have ⟨requests,_,own,settles⟩ := callEnds ran
  have refreshes := runPaid ⟨0,1,0,1⟩ (by decide) (.inr guided) ran
  simp only [Prices.weight,Prices.spent,Prices.round] at refreshes
  exact ⟨requests,by omega,own,settles,attemptMoves t⟩

end

def signedIn : AuthorizationState := ⟨.str "a",[sampleSession "a" "a1" "ra"],.str "",false⟩

def someName : Fresh := ⟨"b",by decide⟩

def token : Reply := ⟨200,.text "a2"⟩

def again : Reply := ⟨200,.fields none (some (some ⟨⟨"a",[]⟩,⟨"a3","rb"⟩,none⟩))⟩

def expired : Reply := ⟨401,.fields (some "TOKEN_EXPIRED") none⟩

/- Every token is stale and every refresh brings another one. -/
def staleMoves : List Move :=
  [.intercept true,.answer (some token) someName,.answer (some expired) someName,.answer (some token) someName,
    .intercept true,.answer (some token) someName,.answer (some expired) someName]

/- Where the call stands after them. -/
def staleEnd : Attempt := (Runs.run (Attempt.step fun _ => true) (begun signedIn false) staleMoves).getD (begun signedIn false)

theorem staleBounded :
    (staleEnd.requests,staleEnd.refreshes) = (2,3) ∧
    staleEnd.requests ≤ 2 ∧ staleEnd.refreshes ≤ 3 ∧ staleMoves.countP Move.own ≤ 10 ∧
    (staleMoves.countP Move.own = 10 → ∃ resolved, staleEnd.stage = .settled resolved) ∧
    ((∃ resolved, staleEnd.stage = .settled resolved) ∨ ∃ m u, m.own = true ∧ staleEnd.step (fun _ => true) m = some u) :=
  ⟨by decide,@callBounded (fun _ => true) signedIn false staleMoves staleEnd (by decide) rfl⟩

/- Each refresh is answered as a sign-in once. -/
def againMoves : List Move :=
  [.intercept true,.answer (some again) someName,.answer (some token) someName,.answer (some expired) someName,
    .answer (some again) someName,.answer (some token) someName,.intercept true,.answer (some again) someName,.answer (some token) someName]

/- And each is sent twice. -/
theorem againDoubles : ((Runs.run (Attempt.step fun _ => true) (begun signedIn false) againMoves).map fun t => (t.requests,t.refreshes)) = some (2,6) := by
  decide

end ContainerWS.Frontend
