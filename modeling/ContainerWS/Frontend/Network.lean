import ContainerWS.Frontend.Store

/-! The interceptors of lib/network/interceptors.ts and the shared refresh of
lib/network/refresh.ts, cut at every await. Requests, answers and account switches
come in any order. -/
namespace ContainerWS.Frontend

/- A token, and the session whose tokens it is or was obtained with. The code knows the token alone. -/
structure Held where
  token : String
  owner : String
  deriving DecidableEq

inductive Stage where
  | made
  | waiting (refresh : Nat) (accessToken : String)
  | sent
  | retrying (refresh : Nat)
  | done
  deriving DecidableEq

/- The config of a request: `cra` and `Authorization` are its headers, `ranAs` is the session
that was current when its request interceptor ran. -/
structure Config where
  cra : String
  authorization : Option Held
  authRetried : Bool
  ranAs : Option String
  stage : Stage
  deriving DecidableEq

/- A round trip with a refresh token, and what came of it. -/
structure Refresh where
  sentWith : Held
  result : Option (Option String)
  deriving DecidableEq

structure Client where
  accounts : World
  configs : List Config
  refreshes : List Refresh
  inFlight : Option Nat
  -- Every token that a session was given, by a sign-in or by a refresh of its own.
  given : List Held

structure Response where
  status : Nat
  code : Option String
  reauthorize : Option SignInResponse

def fatalAuthCodes : List String := ["INVALID_CREDENTIALS"]

def refreshableAuthCodes : List String := ["TOKEN_EXPIRED","TOKEN_INVALID","AUTH_REQUIRED"]

def permissionCodes : List String := ["INSUFFICIENT_PERMISSIONS","ROLE_NOT_ALLOWED","API_KEY_FORBIDDEN"]

inductive Event where
  | account (op : Op)
  | request
  | intercept (config : Nat) (stale : Bool)
  | resume (config : Nat)
  | answer (refresh : Nat) (jwt : Option String)
  | settle
  | respond (config : Nat) (response : Response) (fresh : Fresh)
  | lost (config : Nat)
  | resumeRetry (config : Nat)

namespace Client

def store (w : Client) : AuthorizationState := w.accounts.store

def write (w : Client) (f : AuthorizationState → AuthorizationState) : Client := { w with accounts := w.accounts.write f }

def put (w : Client) (n : Nat) (c : Config) : Client := { w with configs := w.configs.set n c }

def currentId (w : Client) : Option String := w.store.getCurrentSession.map AuthSession.sessionId

/- `refreshAccessToken`: all callers share the one in flight. -/
def refreshAccessToken (w : Client) (refreshToken : Held) : Client × Nat :=
  match w.inFlight with
  | some n => (w,n)
  | none => ({ w with refreshes := w.refreshes ++ [⟨refreshToken,none⟩], inFlight := some w.refreshes.length },w.refreshes.length)

/- What a settled refresh gave; until its `finally` has run nobody goes on. -/
def settled (w : Client) (n : Nat) : Option (Option Held) :=
  if w.inFlight = some n then none else
    w.refreshes[n]?.bind (fun r => r.result.map (fun jwt => jwt.map (fun t => ⟨t,r.sentWith.owner⟩)))

/- The request interceptor up to its await. -/
def intercept (w : Client) (n : Nat) (c : Config) (stale : Bool) : Client :=
  let c := { c with ranAs := w.currentId }
  match w.store.getCurrentSession with
  | none => w.put n { c with cra := "t", stage := .sent }
  | some s =>
    if s.tokens.accessToken = "" ∧ s.tokens.refreshToken = "" then w.put n { c with cra := "t", stage := .sent }
    else if s.tokens.accessToken ≠ "" ∧ !stale then
      w.put n { c with cra := "f", authorization := some ⟨s.tokens.accessToken,s.sessionId⟩, stage := .sent }
    else if s.tokens.refreshToken ≠ "" then
      let (w,refresh) := w.refreshAccessToken ⟨s.tokens.refreshToken,s.sessionId⟩
      w.put n { c with cra := "f", stage := .waiting refresh s.tokens.accessToken }
    else w.put n { c with cra := "f", authorization := some ⟨s.tokens.accessToken,s.sessionId⟩, stage := .sent }

/- And after it: the new token, or as a last resort the one the session had. -/
def resume (w : Client) (n : Nat) (c : Config) (jwt : Option Held) (accessToken : String) : Client :=
  match jwt with
  | some h => w.put n { c with authorization := some h, stage := .sent }
  | none =>
    match c.ranAs with
    | some id => w.put n { c with
        authorization := if accessToken ≠ "" then some ⟨accessToken,id⟩ else c.authorization
        stage := .sent }
    | none => w.put n { c with stage := .sent }

def forceSignOut (w : Client) : Client := w.write .signOut

/- Lacking rights is no reason to sign out. -/
def accessDenied (w : Client) (r : Response) : Bool :=
  r.code.any (fun code => permissionCodes.contains code) || r.status = 403 || (w.store.isSignedIn && r.code = some "UNAUTHORIZED")

def refreshable (r : Response) : Bool :=
  r.code.all (fun code => code = "" || refreshableAuthCodes.contains code) && !r.code.any (fun code => fatalAuthCodes.contains code)

/- The refresh token of the session that is current when a request failed. -/
def currentRefreshToken (w : Client) : Option Held :=
  w.store.getCurrentSession.bind (fun s => if s.tokens.refreshToken ≠ "" then some ⟨s.tokens.refreshToken,s.sessionId⟩ else none)

/- The response interceptor up to its await. -/
def respond (w : Client) (n : Nat) (c : Config) (r : Response) (fresh : Fresh) : Client :=
  if 200 ≤ r.status ∧ r.status < 300 then
    match r.reauthorize with
    | some data =>
      if r.status = 200 then
        let id := resolveSessionId data.user none fresh
        let w : Client := { w.write (·.signIn { data with sessionId := none } false fresh) with
          given := w.given ++ [⟨data.tokens.accessToken,id⟩,⟨data.tokens.refreshToken,id⟩] }
        w.put n { c with authRetried := true, stage := if c.authRetried then .done else .made }
      else w.put n { c with stage := .done }
    | none => w.put n { c with stage := .done }
  else if w.accessDenied r then (w.write (fun s => { s with accessDenied := true })).put n { c with stage := .done }
  else if r.status = 401 then
    if refreshable r && !c.authRetried then
      match w.currentRefreshToken with
      | some h =>
        let (w,refresh) := w.refreshAccessToken h
        w.put n { c with authRetried := true, stage := .retrying refresh }
      | none => w.forceSignOut.put n { c with stage := .done }
    else w.forceSignOut.put n { c with stage := .done }
  else w.put n { c with stage := .done }

def resumeRetry (w : Client) (n : Nat) (c : Config) (jwt : Option Held) : Client :=
  match jwt with
  | some h => w.put n { c with authorization := some h, stage := .made }
  | none => w.forceSignOut.put n { c with stage := .done }

end Client

/- The access token is written by a refresh alone, and the storage is read before the first request. -/
def Op.ofAccounts : Op → Bool
  | .setAccessToken _ => false
  | .rehydrate _ => false
  | _ => true

/- The tokens that come with a sign-in, or with a check that went well. -/
def delivered (w : World) : Op → List Held
  | .signIn input _ fresh =>
    let id := resolveSessionId input.user input.sessionId fresh
    [⟨input.tokens.accessToken,id⟩,⟨input.tokens.refreshToken,id⟩]
  | .checked n (some data) fresh =>
    if w.checks[n]?.isSome then
      let id := resolveSessionId data.user data.sessionId fresh
      [⟨data.tokens.accessToken,id⟩,⟨data.tokens.refreshToken,id⟩]
    else []
  | _ => []

/- An event that is not due changes nothing. -/
def advance (w : Client) : Event → Client
  | .account op =>
    if op.ofAccounts then { w with accounts := step w.accounts op, given := w.given ++ delivered w.accounts op } else w
  | .request => { w with configs := w.configs ++ [⟨"",none,false,none,.made⟩] }
  | .intercept n stale =>
    match w.configs[n]? with
    | some c => if c.stage = .made then w.intercept n c stale else w
    | none => w
  | .resume n =>
    match w.configs[n]? with
    | some c =>
      match c.stage with
      | .waiting refresh accessToken =>
        match w.settled refresh with
        | some jwt => w.resume n c jwt accessToken
        | none => w
      | _ => w
    | none => w
  | .answer n jwt =>
    match w.refreshes[n]? with
    | some r =>
      if r.result.isSome then w else
        let w := { w with refreshes := w.refreshes.set n { r with result := some jwt } }
        match jwt with
        | some token => { w.write (·.setAccessToken token) with given := w.given ++ [⟨token,r.sentWith.owner⟩] }
        | none => w
    | none => w
  | .settle =>
    match w.inFlight.bind (fun n => w.refreshes[n]?) with
    | some r => if r.result.isSome then { w with inFlight := none } else w
    | none => w
  | .respond n r fresh =>
    match w.configs[n]? with
    | some c => if c.stage = .sent then w.respond n c r fresh else w
    | none => w
  | .lost n =>
    match w.configs[n]? with
    | some c => if c.stage = .sent then w.put n { c with stage := .done } else w
    | none => w
  | .resumeRetry n =>
    match w.configs[n]? with
    | some c =>
      match c.stage with
      | .retrying refresh =>
        match w.settled refresh with
        | some jwt => w.resumeRetry n c jwt
        | none => w
      | _ => w
    | none => w

/- A page that was loaded with these sessions. -/
def loaded (s : AuthorizationState) : Client :=
  ⟨⟨s,[]⟩,[],[],none,s.sessions.flatMap (fun t => [⟨t.tokens.accessToken,t.sessionId⟩,⟨t.tokens.refreshToken,t.sessionId⟩])⟩

def advances (w : Client) (events : List Event) : Client := events.foldl advance w

/- A property of every state that a run goes through. -/
def Through (p : Client → Prop) : Client → List Event → Prop
  | w,[] => p w
  | w,e :: rest => p w ∧ Through p (advance w e) rest

/- A property of every step of a run. -/
def Along (p : Client → Event → Prop) : Client → List Event → Prop
  | _,[] => True
  | w,e :: rest => p w e ∧ Along p (advance w e) rest

/- What is stored in a session was given to it, and what is sent with a token is sent with
one of the session that was current when the request interceptor ran. -/
structure Attributed (w : Client) : Prop where
  stored : ∀ s ∈ w.store.sessions, ⟨s.tokens.accessToken,s.sessionId⟩ ∈ w.given
  sent : ∀ c ∈ w.configs, c.stage = .sent → ∀ h, c.authorization = some h → c.ranAs = some h.owner ∧ h ∈ w.given

/- A token that the config carries from its first try is one of the session that is current. -/
def Carries (current : Option String) (c : Config) : Prop := ∀ h, c.authorization = some h → current = some h.owner

/- The request interceptor leaves the header of a first try as it is. -/
def LeavesHeader (w : Client) : Prop :=
  ∀ s, w.store.getCurrentSession = some s → s.tokens.accessToken = "" ∧ s.tokens.refreshToken = ""

/- No refresh comes back to another session than it was started for, neither to the store
nor to a request that waited for it, and no retry keeps the token of another session. -/
def Calm (w : Client) : Event → Prop
  | .answer n (some _) => ∀ r, w.refreshes[n]? = some r → ∀ s ∈ w.store.sessions,
      w.store.currentSession.is s.sessionId = true → s.sessionId = r.sentWith.owner
  | .intercept n _ => LeavesHeader w → ∀ c, w.configs[n]? = some c → Carries w.currentId c
  | .resume n => ∀ c refresh accessToken jwt, w.configs[n]? = some c → c.stage = .waiting refresh accessToken →
      w.settled refresh = some jwt →
        (∀ h, jwt = some h → c.ranAs = some h.owner) ∧ (jwt = none → accessToken = "" → Carries c.ranAs c)
  | _ => True

/- Both tokens of a session were given to it. -/
structure Owns (given : List Held) (s : AuthSession) : Prop where
  access : ⟨s.tokens.accessToken,s.sessionId⟩ ∈ given
  refresh : ⟨s.tokens.refreshToken,s.sessionId⟩ ∈ given

/- What a config carries, or falls back on, was given to its owner. -/
structure Fits (given : List Held) (c : Config) : Prop where
  header : ∀ h, c.authorization = some h → h ∈ given
  waiting : ∀ refresh t, c.stage = .waiting refresh t → ∃ id, c.ranAs = some id ∧ ⟨t,id⟩ ∈ given
  sent : c.stage = .sent → ∀ h, c.authorization = some h → c.ranAs = some h.owner

/- A refresh was started with a token of its owner, and what came back is its owner's. -/
structure Earned (given : List Held) (r : Refresh) : Prop where
  start : r.sentWith ∈ given
  result : ∀ t, r.result = some (some t) → ⟨t,r.sentWith.owner⟩ ∈ given

structure Kept (w : Client) : Prop where
  sessions : ∀ s ∈ w.store.sessions, Owns w.given s
  refreshes : ∀ r ∈ w.refreshes, Earned w.given r
  configs : ∀ c ∈ w.configs, Fits w.given c

theorem Kept.attributed {w : Client} (kept : Kept w) : Attributed w :=
  ⟨fun s mem => (kept.sessions s mem).access,
    fun c mem sent h carried => ⟨(kept.configs c mem).sent sent h carried,(kept.configs c mem).header h carried⟩⟩

theorem currentIdSome {w : Client} {s : AuthSession} (current : w.store.getCurrentSession = some s) :
    w.currentId = some s.sessionId := by
  rw [Client.currentId,current]
  rfl

/- A config that is sent with the header it has. -/
theorem fitsSent {given : List Held} {c : Config} (header : ∀ h, c.authorization = some h → h ∈ given)
    (carries : Carries c.ranAs c) (stage : c.stage = .sent) : Fits given c :=
  ⟨header,fun _ _ here => (nomatch stage.symm.trans here),fun _ => carries⟩

/- A config that nothing is sent with. -/
theorem fitsIdle {given : List Held} {c : Config} (header : ∀ h, c.authorization = some h → h ∈ given)
    (idle : c.stage ≠ .sent ∧ ∀ refresh t, c.stage ≠ .waiting refresh t) : Fits given c :=
  ⟨header,fun refresh t here => absurd here (idle.2 refresh t),fun sent => absurd sent idle.1⟩

section
variable {w : Client} (kept : Kept w)
include kept

/- More tokens were given, and what the sessions hold is among them. -/
theorem keptGiven {accounts : World} {more : List Held} (owned : ∀ s ∈ accounts.store.sessions, Owns (w.given ++ more) s) :
    Kept { w with accounts := accounts, given := w.given ++ more } := by
  refine ⟨owned,?_,?_⟩
  · intro r mem
    have old := kept.refreshes r mem
    exact ⟨List.mem_append_left _ old.start,fun t came => List.mem_append_left _ (old.result t came)⟩
  · intro c mem
    have old := kept.configs c mem
    refine ⟨fun h carried => List.mem_append_left _ (old.header h carried),?_,old.sent⟩
    intro refresh t here
    obtain ⟨id,ran,held⟩ := old.waiting refresh t here
    exact ⟨id,ran,List.mem_append_left _ held⟩

theorem keptWrite {f : AuthorizationState → AuthorizationState} (owned : ∀ s ∈ (f w.store).sessions, Owns w.given s) :
    Kept (w.write f) := ⟨owned,kept.refreshes,kept.configs⟩

theorem keptPut {n : Nat} {c : Config} (fits : Fits w.given c) : Kept (w.put n c) := by
  refine ⟨kept.sessions,kept.refreshes,?_⟩
  intro d mem
  rcases List.mem_or_eq_of_mem_set mem with old | rfl
  · exact kept.configs d old
  · exact fits

theorem keptSignOut : Kept w.forceSignOut := keptWrite kept (fun s mem => kept.sessions s (List.mem_filter.mp mem).1)

/- A refresh is started with a token of its owner; joining one changes nothing. -/
theorem keptRefresh {h : Held} (own : h ∈ w.given) :
    Kept (w.refreshAccessToken h).1 ∧ (w.refreshAccessToken h).1.given = w.given := by
  unfold Client.refreshAccessToken
  split
  · exact ⟨kept,rfl⟩
  · refine ⟨⟨kept.sessions,?_,kept.configs⟩,rfl⟩
    intro r mem
    rcases List.mem_append.mp mem with old | new
    · exact kept.refreshes r old
    · rw [List.mem_singleton.mp new]
      exact ⟨own,fun t came => nomatch came⟩

theorem settledGiven {n : Nat} {h : Held} (here : w.settled n = some (some h)) : h ∈ w.given := by
  unfold Client.settled at here
  split at here
  · cases here
  · obtain ⟨r,found,here⟩ := Option.bind_eq_some_iff.mp here
    obtain ⟨jwt,came,here⟩ := Option.map_eq_some_iff.mp here
    obtain ⟨t,rfl,rfl⟩ := Option.map_eq_some_iff.mp here
    exact (kept.refreshes r (List.mem_of_getElem? found)).result t came

theorem currentOwns {s : AuthSession} (current : w.store.getCurrentSession = some s) : Owns w.given s := by
  unfold AuthorizationState.getCurrentSession at current
  split at current
  · exact kept.sessions s (List.mem_of_find?_eq_some current)
  · cases current

theorem keptIntercept {n : Nat} {c : Config} {stale : Bool} (mem : c ∈ w.configs)
    (calm : LeavesHeader w → Carries w.currentId c) : Kept (w.intercept n c stale) := by
  have old := (kept.configs c mem).header
  unfold Client.intercept
  cases current : w.store.getCurrentSession with
  | none =>
    refine keptPut kept (fitsSent old (calm ?_) rfl)
    intro s here
    cases current.symm.trans here
  | some s =>
    have own := currentOwns kept current
    have ran := currentIdSome current
    dsimp only
    split
    · rename_i blank
      refine keptPut kept (fitsSent old (calm ?_) rfl)
      intro t here
      cases current.symm.trans here
      exact blank
    · split
      · refine keptPut kept (fitsSent ?_ ?_ rfl)
        · intro h carried
          cases carried
          exact own.access
        · intro h carried
          cases carried
          exact ran
      · split
        · obtain ⟨after,same⟩ := keptRefresh kept own.refresh
          refine keptPut after ⟨?_,?_,?_⟩
          · rw [same]
            exact old
          · intro refresh t here
            cases here
            rw [same]
            exact ⟨s.sessionId,ran,own.access⟩
          · intro sent
            cases sent
        · refine keptPut kept (fitsSent ?_ ?_ rfl)
          · intro h carried
            cases carried
            exact own.access
          · intro h carried
            cases carried
            exact ran

theorem keptResume {n refresh : Nat} {c : Config} {jwt : Option Held} {accessToken : String} (mem : c ∈ w.configs)
    (waits : c.stage = .waiting refresh accessToken) (settled : w.settled refresh = some jwt)
    (calm : (∀ h, jwt = some h → c.ranAs = some h.owner) ∧ (jwt = none → accessToken = "" → Carries c.ranAs c)) :
    Kept (w.resume n c jwt accessToken) := by
  have fits := kept.configs c mem
  unfold Client.resume
  cases jwt with
  | some h =>
    refine keptPut kept (fitsSent ?_ ?_ rfl)
    · intro h' carried
      cases carried
      exact settledGiven kept settled
    · intro h' carried
      cases carried
      exact calm.1 h rfl
  | none =>
    obtain ⟨id,ran,held⟩ := fits.waiting refresh accessToken waits
    rw [ran]
    dsimp only
    split
    · refine keptPut kept (fitsSent ?_ ?_ rfl)
      · intro h carried
        cases carried
        exact held
      · intro h carried
        cases carried
        rfl
    · rename_i blank
      have carries := calm.2 rfl (not_not.mp blank)
      rw [ran] at carries
      exact keptPut kept (fitsSent fits.header carries rfl)

theorem keptResumeRetry {n refresh : Nat} {c : Config} {jwt : Option Held} (mem : c ∈ w.configs)
    (settled : w.settled refresh = some jwt) : Kept (w.resumeRetry n c jwt) := by
  unfold Client.resumeRetry
  cases jwt with
  | some h =>
    refine keptPut kept (fitsIdle ?_ ⟨nofun,nofun⟩)
    intro h' carried
    cases carried
    exact settledGiven kept settled
  | none => exact keptPut (keptSignOut kept) (fitsIdle (kept.configs c mem).header ⟨nofun,nofun⟩)

end

theorem ownsMore {given : List Held} {s : AuthSession} (own : Owns given s) (more : List Held) : Owns (given ++ more) s :=
  ⟨List.mem_append_left _ own.access,List.mem_append_left _ own.refresh⟩

/- A sign-in leaves the other sessions and brings its tokens. -/
theorem signInOwned {s : AuthorizationState} {given : List Held} (owned : ∀ t ∈ s.sessions, Owns given t) (input : SignInResponse)
    (trusted : Bool) (fresh : Fresh) : ∀ t ∈ (s.signIn input trusted fresh).sessions,
      Owns (given ++ [⟨input.tokens.accessToken,resolveSessionId input.user input.sessionId fresh⟩,
        ⟨input.tokens.refreshToken,resolveSessionId input.user input.sessionId fresh⟩]) t := by
  intro t mem
  rcases List.mem_append.mp mem with old | new
  · exact ownsMore (owned t (List.mem_filter.mp old).1) _
  · rw [List.mem_singleton.mp new]
    exact ⟨by simp,by simp⟩

theorem failsOwned {s : AuthorizationState} {given : List Held} (owned : ∀ t ∈ s.sessions, Owns given t) (attempted : String)
    (previous : Json) : ∀ t ∈ (s.verifyFails attempted previous).sessions, Owns given t := by
  intro t mem
  have kept : t ∈ (s.removeStoredSession attempted).sessions := by
    unfold AuthorizationState.verifyFails AuthorizationState.restorePreviousSession at mem
    split at mem
    · exact mem
    · split at mem
      · rwa [switchedSessions] at mem
      · exact mem
  exact owned t (List.mem_filter.mp kept).1

/- The sessions that a step on the accounts leaves had their tokens before, or they come with it. -/
theorem stepOwned {w : World} {given : List Held} (owned : ∀ s ∈ w.store.sessions, Owns given s) {op : Op}
    (ofAccounts : op.ofAccounts = true) : ∀ s ∈ (step w op).store.sessions, Owns (given ++ delivered w op) s := by
  cases op with
  | signIn input trusted fresh => exact signInOwned owned input trusted fresh
  | signOut => exact fun s mem => ownsMore (owned s (List.mem_filter.mp mem).1) _
  | signOutAll => exact fun s mem => absurd mem List.not_mem_nil
  | setTrusted id trusted =>
    intro s mem
    obtain ⟨t,old,rfl⟩ := List.mem_map.mp mem
    have own := ownsMore (owned t old) (delivered w (.setTrusted id trusted))
    split
    · exact ⟨own.access,own.refresh⟩
    · exact own
  | setCurrentSession id =>
    intro s mem
    rw [step,World.write,switchedSessions] at mem
    exact ownsMore (owned s mem) _
  | setAccessToken token => cases ofAccounts
  | removeStoredSession id => exact fun s mem => ownsMore (owned s (List.mem_filter.mp mem).1) _
  | verifyStoredSession session previous =>
    intro s mem
    rw [step] at mem
    split at mem
    · exact ownsMore (failsOwned owned _ _ s mem) _
    · rw [switchedSessions] at mem
      exact ownsMore (owned s mem) _
  | checked n answer fresh =>
    intro s mem
    rw [step] at mem
    split at mem
    · exact ownsMore (owned s mem) _
    · rename_i c pending
      split at mem
      · rename_i data
        rw [delivered,pending,if_pos Option.isSome_some]
        exact signInOwned owned data false fresh s mem
      · exact ownsMore (failsOwned owned _ _ s mem) _
  | rehydrate parsed => cases ofAccounts

section
variable {w : Client} (kept : Kept w)
include kept

theorem keptRespond {n : Nat} {c : Config} (mem : c ∈ w.configs) (r : Response) (fresh : Fresh) :
    Kept (w.respond n c r fresh) := by
  have old := (kept.configs c mem).header
  have done : Fits w.given { c with stage := .done } := fitsIdle old ⟨nofun,nofun⟩
  unfold Client.respond
  split
  · split
    · split
      · rename_i data _ _
        have owned := signInOwned kept.sessions { data with sessionId := none } false fresh
        have after := @keptGiven w kept (w.accounts.write (·.signIn { data with sessionId := none } false fresh)) _ owned
        refine keptPut after (fitsIdle (fun h carried => List.mem_append_left _ (old h carried)) ?_)
        dsimp only
        split <;> exact ⟨nofun,nofun⟩
      · exact keptPut kept done
    · exact keptPut kept done
  · split
    · exact keptPut (keptWrite kept kept.sessions) done
    · split
      · split
        · split
          · rename_i h here
            obtain ⟨s,current,here⟩ := Option.bind_eq_some_iff.mp here
            split at here
            · cases here
              obtain ⟨after,same⟩ := keptRefresh kept (currentOwns kept current).refresh
              exact keptPut after (fitsIdle (by rw [same]; exact old) ⟨nofun,nofun⟩)
            · cases here
          · exact keptPut (keptSignOut kept) done
        · exact keptPut (keptSignOut kept) done
      · exact keptPut kept done

/- What comes back is written to the session that is current: it has to be the one that asked. -/
theorem keptAnswer {n : Nat} {r : Refresh} {token : String} (found : w.refreshes[n]? = some r)
    (calm : ∀ s ∈ w.store.sessions, w.store.currentSession.is s.sessionId = true → s.sessionId = r.sentWith.owner) :
    Kept { { w with refreshes := w.refreshes.set n { r with result := some (some token) } }.write (·.setAccessToken token) with
      given := w.given ++ [⟨token,r.sentWith.owner⟩] } := by
  have start := (kept.refreshes r (List.mem_of_getElem? found)).start
  have owned : ∀ s ∈ (w.store.setAccessToken token).sessions, Owns (w.given ++ [⟨token,r.sentWith.owner⟩]) s := by
    intro s mem
    obtain ⟨t,old,rfl⟩ := List.mem_map.mp mem
    have own := ownsMore (kept.sessions t old) [⟨token,r.sentWith.owner⟩]
    split
    · rename_i current
      refine ⟨?_,own.refresh⟩
      dsimp only
      rw [calm t old current]
      exact List.mem_append_right _ List.mem_cons_self
    · exact own
  have more := @keptGiven w kept (w.accounts.write (·.setAccessToken token)) _ owned
  refine ⟨more.sessions,?_,more.configs⟩
  intro q mem
  rcases List.mem_or_eq_of_mem_set mem with old | rfl
  · exact more.refreshes q old
  · refine ⟨List.mem_append_left _ start,?_⟩
    intro t came
    cases came
    exact List.mem_append_right _ List.mem_cons_self

/- One calm step. -/
theorem keptAdvance {e : Event} (calm : Calm w e) : Kept (advance w e) := by
  cases e with
  | account op =>
    rw [advance]
    split
    · exact keptGiven kept (stepOwned kept.sessions (by assumption))
    · exact kept
  | request =>
    refine ⟨kept.sessions,kept.refreshes,?_⟩
    intro c mem
    rcases List.mem_append.mp mem with old | new
    · exact kept.configs c old
    · rw [List.mem_singleton.mp new]
      exact fitsIdle nofun ⟨nofun,nofun⟩
  | intercept n stale =>
    rw [advance]
    split
    · rename_i c found
      split
      · exact keptIntercept kept (List.mem_of_getElem? found) (fun leaves => calm leaves c found)
      · exact kept
    · exact kept
  | resume n =>
    rw [advance]
    split
    · rename_i c found
      split
      · rename_i refresh accessToken waits
        split
        · rename_i jwt settled
          exact keptResume kept (List.mem_of_getElem? found) waits settled (calm c refresh accessToken jwt found waits settled)
        · exact kept
      · exact kept
    · exact kept
  | answer n jwt =>
    rw [advance]
    split
    · rename_i r found
      split
      · exact kept
      · cases jwt with
        | some token => exact keptAnswer kept found (calm r found)
        | none =>
          refine ⟨kept.sessions,?_,kept.configs⟩
          intro q mem
          rcases List.mem_or_eq_of_mem_set mem with old | rfl
          · exact kept.refreshes q old
          · exact ⟨(kept.refreshes r (List.mem_of_getElem? found)).start,fun t came => nomatch came⟩
    · exact kept
  | settle =>
    rw [advance]
    split
    · split
      · exact ⟨kept.sessions,kept.refreshes,kept.configs⟩
      · exact kept
    · exact kept
  | respond n r fresh =>
    rw [advance]
    split
    · rename_i c found
      split
      · exact keptRespond kept (List.mem_of_getElem? found) r fresh
      · exact kept
    · exact kept
  | lost n =>
    rw [advance]
    split
    · rename_i c found
      split
      · exact keptPut kept (fitsIdle (kept.configs c (List.mem_of_getElem? found)).header ⟨nofun,nofun⟩)
      · exact kept
    · exact kept
  | resumeRetry n =>
    rw [advance]
    split
    · rename_i c found
      split
      · split
        · rename_i jwt settled
          exact keptResumeRetry kept (List.mem_of_getElem? found) settled
        · exact kept
      · exact kept
    · exact kept

theorem keptThrough {events : List Event} (calm : Along Calm w events) : Through Attributed w events := by
  induction events generalizing w with
  | nil => exact kept.attributed
  | cons e rest ih => exact ⟨kept.attributed,ih (keptAdvance kept calm.1) calm.2⟩

end

theorem loadedKept (s : AuthorizationState) : Kept (loaded s) := by
  refine ⟨?_,fun r mem => absurd mem List.not_mem_nil,fun c mem => absurd mem List.not_mem_nil⟩
  intro t mem
  exact ⟨List.mem_flatMap.mpr ⟨t,mem,by simp⟩,List.mem_flatMap.mpr ⟨t,mem,by simp⟩⟩

/- In a run where every refresh comes back to the session that asked, tokens are where they belong. -/
theorem runAttributed (s : AuthorizationState) (events : List Event) (calm : Along Calm (loaded s) events) :
    Through Attributed (loaded s) events := keptThrough (loadedKept s) calm

theorem throughEnd {p : Client → Prop} {w : Client} {events : List Event} (through : Through p w events) :
    p (advances w events) := by
  induction events generalizing w with
  | nil => exact through
  | cons e rest ih => exact ih through.2

def sampleSession (id access refresh : String) : AuthSession := ⟨id,true,⟨id,[]⟩,⟨access,refresh⟩⟩

/- Two accounts of which the first is current. -/
def twoAccounts : AuthorizationState :=
  ⟨.str "a",[sampleSession "a" "a1" "ra",sampleSession "b" "b1" "rb"],.str "",false⟩

def refreshed : List Event := [.request,.intercept 0 true,.answer 0 (some "a2"),.settle,.resume 0]

theorem refreshedAttributed : Along Calm (loaded twoAccounts) refreshed ∧ Through Attributed (loaded twoAccounts) refreshed := by
  have calm : Along Calm (loaded twoAccounts) refreshed := by
    refine ⟨trivial,?_,?_,trivial,?_,trivial⟩
    · intro _ c found h carried
      cases found
      cases carried
    · intro r found s _ current
      have owner : r.sentWith.owner = "a" := by
        cases found
        rfl
      have same : Json.str "a" = .str s.sessionId := isIff.mp current
      rw [owner]
      exact (Json.str.inj same).symm
    · intro c refresh accessToken jwt found waits settled
      cases found
      cases waits
      cases settled
      exact ⟨fun h here => by cases here; rfl,nofun⟩
  exact ⟨calm,runAttributed twoAccounts refreshed calm⟩

/- The account is switched while its token is on the way. -/
def switched : List Event := [.request,.intercept 0 true,.account (.setCurrentSession (.str "b")),.answer 0 (some "a2")]

/- And the other account gets it. -/
theorem switchedMisplaces : ¬Through Attributed (loaded twoAccounts) switched := by
  intro through
  have stored := (throughEnd through).stored
  have lost : ¬∀ s ∈ (advances (loaded twoAccounts) switched).store.sessions,
      (⟨s.tokens.accessToken,s.sessionId⟩ : Held) ∈ (advances (loaded twoAccounts) switched).given := by decide
  exact lost stored

end ContainerWS.Frontend
