import Mathlib.Data.List.Nodup
import Mathlib.Data.Rat.Defs

/-! The authorization store of store/authorization.ts and the two ways that
lib/switch-account.ts writes to it. Each write is one step; what is read back
from the browser's storage is any value `JSON.parse` can give. -/
namespace ContainerWS.Frontend

inductive Json where
  | null
  | bool (b : Bool)
  | num (n : Rat)
  | str (s : String)
  | arr (items : List Json)
  | obj (fields : List (String × Json))

def Json.truthy : Json → Bool
  | .null => false
  | .bool b => b
  | .num n => n ≠ 0
  | .str s => s ≠ ""
  | .arr _ => true
  | .obj _ => true

/- A property, where `undefined` is none. -/
def Json.get (v : Json) (key : String) : Option Json :=
  match v with
  | .obj fields => fields.lookup key
  | _ => none

def Json.isObject : Json → Bool
  | .arr _ => true
  | .obj _ => true
  | _ => false

/- `===` with a text. -/
def Json.is (v : Json) (text : String) : Bool :=
  match v with
  | .str s => s = text
  | _ => false

/- `??` -/
def orElse (v : Option Json) (other : Json) : Json :=
  match v with
  | none => other
  | some .null => other
  | some v => v

structure Tokens where
  accessToken : String
  refreshToken : String
  deriving DecidableEq

structure User where
  id : String
  profile : List (String × Json)

structure AuthSession where
  sessionId : String
  trusted : Bool
  user : User
  tokens : Tokens

/- The current session is a text, or what the storage held in its place. -/
structure AuthorizationState where
  currentSession : Json
  sessions : List AuthSession
  redirectUrl : Json
  accessDenied : Bool

def AuthorizationState.getCurrentSession (s : AuthorizationState) : Option AuthSession :=
  if s.currentSession.truthy then s.sessions.find? (fun t => s.currentSession.is t.sessionId) else none

def AuthorizationState.getCurrentTokens (s : AuthorizationState) : Option Tokens := s.getCurrentSession.map AuthSession.tokens

def AuthorizationState.isSignedIn (s : AuthorizationState) : Bool :=
  s.getCurrentTokens.any (fun t => t.accessToken ≠ "" || t.refreshToken ≠ "")

/- A name made up by the browser: random or from the clock. -/
structure Fresh where
  name : String
  some : name ≠ ""

def resolveSessionId (user : User) (sessionId : Option String) (fresh : Fresh) : String :=
  if user.id ≠ "" then user.id else
    match sessionId with
    | some id => if id ≠ "" then id else fresh.name
    | none => fresh.name

structure SignInResponse where
  user : User
  tokens : Tokens
  sessionId : Option String

/- `sessions[0]?.session_id ?? ""` -/
def firstId : List AuthSession → Json
  | [] => .str ""
  | s :: _ => .str s.sessionId

namespace AuthorizationState

def signIn (s : AuthorizationState) (input : SignInResponse) (trusted : Bool) (fresh : Fresh) : AuthorizationState :=
  let id := resolveSessionId input.user input.sessionId fresh
  { s with
    sessions := s.sessions.filter (fun t => t.sessionId ≠ id) ++ [⟨id,trusted,input.user,input.tokens⟩]
    currentSession := .str id
    accessDenied := false }

def signOut (s : AuthorizationState) : AuthorizationState :=
  let sessions := s.sessions.filter (fun t => !s.currentSession.is t.sessionId)
  { s with
    sessions := sessions
    currentSession := firstId sessions
    accessDenied := false }

def signOutAll (s : AuthorizationState) : AuthorizationState :=
  { s with
    sessions := []
    currentSession := .str ""
    accessDenied := false }

def setTrusted (s : AuthorizationState) (id : String) (trusted : Bool) : AuthorizationState :=
  { s with sessions := s.sessions.map (fun t => if t.sessionId = id then { t with trusted := trusted } else t) }

def setCurrentSession (s : AuthorizationState) (id : Json) : AuthorizationState :=
  if s.sessions.any (fun t => id.is t.sessionId) then { s with currentSession := id, accessDenied := false } else s

def setAccessToken (s : AuthorizationState) (token : String) : AuthorizationState :=
  { s with
    sessions := s.sessions.map (fun t =>
      if s.currentSession.is t.sessionId then { t with tokens := { t.tokens with accessToken := token } } else t) }

def removeStoredSession (s : AuthorizationState) (id : String) : AuthorizationState :=
  let next := s.sessions.filter (fun t => t.sessionId ≠ id)
  { s with
    sessions := next
    currentSession := if s.currentSession.is id then firstId next else s.currentSession }

def restorePreviousSession (s : AuthorizationState) (previous : Json) (attempted : String) : AuthorizationState :=
  if !previous.truthy || previous.is attempted then s
  else if s.sessions.any (fun t => previous.is t.sessionId) then s.setCurrentSession previous else s

/- The end of a check that failed. -/
def verifyFails (s : AuthorizationState) (attempted : String) (previous : Json) : AuthorizationState :=
  (s.removeStoredSession attempted).restorePreviousSession previous attempted

end AuthorizationState

/- A stored session as it is taken over: it is named by its user. -/
def normalizeSession (raw : Json) : Option AuthSession := do
  let user ← raw.get "user"
  let .obj profile := user | none
  let .str id ← user.get "id" | none
  if id = "" then none else
  let tokens ← raw.get "tokens"
  let .str access ← tokens.get "access_token" | none
  let .str refresh ← tokens.get "refresh_token" | none
  if access = "" ∧ refresh = "" then none else
  some ⟨id,((raw.get "trusted").map Json.truthy).getD false,⟨id,profile⟩,⟨access,refresh⟩⟩

/- `Map.set`: a key keeps its place. -/
def mapSet (kept : List AuthSession) (s : AuthSession) : List AuthSession :=
  if kept.any (fun t => t.sessionId = s.sessionId) then kept.map (fun t => if t.sessionId = s.sessionId then s else t)
  else kept ++ [s]

def isTruthy (v : Option Json) : Bool := v.any Json.truthy

/- The stored session of the older form, where it can be taken over. -/
def migrateSingle (user tokens : Json) : List AuthSession :=
  (normalizeSession (.obj [("user",user),("tokens",tokens),("trusted",.bool false)])).toList

def migratePersistedState (persisted : Option Json) : List AuthSession × Json :=
  match persisted with
  | none => ([],.str "")
  | some persisted =>
    if !persisted.truthy then ([],.str "") else
    match persisted.get "sessions" with
    | some (.arr raw) =>
      let sessions := (raw.filterMap normalizeSession).foldl mapSet []
      let current := (persisted.get "current_session").getD .null
      (sessions,if current.truthy && sessions.any (fun t => current.is t.sessionId) then current else firstId sessions)
    | _ =>
      match persisted.get "user",persisted.get "tokens" with
      | some user,some tokens =>
        if user.truthy && tokens.truthy then (migrateSingle user tokens,firstId (migrateSingle user tokens))
        else ([],orElse (persisted.get "current_session") (.str ""))
      | _,_ => ([],orElse (persisted.get "current_session") (.str ""))

/- A state that was stored without an envelope. -/
def bareSnapshot (parsed : Json) : Option Json :=
  match parsed.get "sessions" with
  | some (.arr _) => some parsed
  | _ => none

/- `parsePersistedSnapshot` on what `JSON.parse` gave, if anything. -/
def parsePersistedSnapshot (parsed : Option Json) : Option Json :=
  match parsed with
  | none => none
  | some parsed =>
    match parsed.get "state" with
    | none => bareSnapshot parsed
    | some .null => none
    | some state => if state.isObject then some state else bareSnapshot parsed

def AuthorizationState.merge (s : AuthorizationState) (persisted : Option Json) : AuthorizationState :=
  let (sessions,current) := migratePersistedState persisted
  { s with
    sessions := sessions
    currentSession :=
      if current.truthy && !sessions.any (fun t => current.is t.sessionId) then firstId sessions else current
    redirectUrl := orElse (persisted.bind (·.get "redirectUrl")) s.redirectUrl }

/- A check that waits for its answer. -/
structure Check where
  session : AuthSession
  previous : Json

structure World where
  store : AuthorizationState
  checks : List Check

inductive Op where
  | signIn (input : SignInResponse) (trusted : Bool) (fresh : Fresh)
  | signOut
  | signOutAll
  | setTrusted (id : String) (trusted : Bool)
  | setCurrentSession (id : Json)
  | setAccessToken (token : String)
  | removeStoredSession (id : String)
  | verifyStoredSession (session : AuthSession) (previous : Json)
  | checked (check : Nat) (answer : Option SignInResponse) (fresh : Fresh)
  | rehydrate (parsed : Option Json)

def World.write (w : World) (f : AuthorizationState → AuthorizationState) : World := { w with store := f w.store }

/- Without a refresh token `verifyStoredSession` fails at once, else it waits for the server. -/
def step (w : World) : Op → World
  | .signIn input trusted fresh => w.write (·.signIn input trusted fresh)
  | .signOut => w.write .signOut
  | .signOutAll => w.write .signOutAll
  | .setTrusted id trusted => w.write (·.setTrusted id trusted)
  | .setCurrentSession id => w.write (·.setCurrentSession id)
  | .setAccessToken token => w.write (·.setAccessToken token)
  | .removeStoredSession id => w.write (·.removeStoredSession id)
  | .verifyStoredSession session previous =>
    if session.tokens.refreshToken = "" then w.write (·.verifyFails session.sessionId previous)
    else ⟨w.store.setCurrentSession (.str session.sessionId),w.checks ++ [⟨session,previous⟩]⟩
  | .checked n answer fresh =>
    match w.checks[n]? with
    | none => w
    | some c =>
      let rest := w.checks.eraseIdx n
      match answer with
      | some data => ⟨w.store.signIn data false fresh,rest⟩
      | none => ⟨w.store.verifyFails c.session.sessionId c.previous,rest⟩
  | .rehydrate parsed => w.write (·.merge (parsePersistedSnapshot parsed))

def run (w : World) (ops : List Op) : World := ops.foldl step w

def initial : World := ⟨⟨.str "",[],.str "",false⟩,[]⟩

/- A session has a name, and one name has one session; the current one is empty, as the code
tests it, when there is no session, and else it names one. -/
structure Coherent (s : AuthorizationState) : Prop where
  named : ∀ t ∈ s.sessions, t.sessionId ≠ ""
  distinct : (s.sessions.map AuthSession.sessionId).Nodup
  empty : s.currentSession.truthy = false ↔ s.sessions = []
  stored : s.currentSession.truthy = true → ∃ t ∈ s.sessions, s.currentSession = .str t.sessionId

theorem isIff {v : Json} {text : String} : v.is text = true ↔ v = .str text := by
  cases v <;> simp [Json.is]

/- What a list of sessions and a current one are coherent by. -/
theorem coherentOf {s : AuthorizationState} (named : ∀ t ∈ s.sessions, t.sessionId ≠ "")
    (distinct : (s.sessions.map AuthSession.sessionId).Nodup)
    (current : s.sessions = [] ∧ s.currentSession.truthy = false ∨ ∃ t ∈ s.sessions, s.currentSession = .str t.sessionId) :
    Coherent s := by
  refine ⟨named,distinct,?_,?_⟩
  · rcases current with ⟨none,falsy⟩ | ⟨t,mem,names⟩
    · exact ⟨fun _ => none,fun _ => falsy⟩
    · constructor
      · intro falsy
        rw [names] at falsy
        simp [Json.truthy,named t mem] at falsy
      · intro none
        rw [none] at mem
        cases mem
  · intro truthy
    rcases current with ⟨_,falsy⟩ | stored
    · cases truthy.symm.trans falsy
    · exact stored

theorem Coherent.current {s : AuthorizationState} (held : Coherent s) :
    s.sessions = [] ∧ s.currentSession.truthy = false ∨ ∃ t ∈ s.sessions, s.currentSession = .str t.sessionId := by
  cases truthy : s.currentSession.truthy with
  | false => exact .inl ⟨held.empty.mp truthy,rfl⟩
  | true => exact .inr (held.stored truthy)

theorem firstCurrent (sessions : List AuthSession) :
    sessions = [] ∧ (firstId sessions).truthy = false ∨ ∃ t ∈ sessions, firstId sessions = .str t.sessionId := by
  cases sessions with
  | nil => exact .inl ⟨rfl,rfl⟩
  | cons t rest => exact .inr ⟨t,List.mem_cons_self,rfl⟩

/- Fewer sessions stay named and distinct. -/
theorem keptDistinct {sessions : List AuthSession} (p : AuthSession → Bool) (distinct : (sessions.map AuthSession.sessionId).Nodup) :
    ((sessions.filter p).map AuthSession.sessionId).Nodup :=
  distinct.sublist (List.filter_sublist.map _)

theorem resolvedNamed (user : User) (id : Option String) (fresh : Fresh) : resolveSessionId user id fresh ≠ "" := by
  unfold resolveSessionId
  split
  · assumption
  · split
    · split
      · assumption
      · exact fresh.some
    · exact fresh.some

theorem signInCoherent {s : AuthorizationState} (held : Coherent s) (input : SignInResponse) (trusted : Bool) (fresh : Fresh) :
    Coherent (s.signIn input trusted fresh) := by
  unfold AuthorizationState.signIn
  dsimp only
  have solid := resolvedNamed input.user input.sessionId fresh
  generalize resolveSessionId input.user input.sessionId fresh = id at solid
  apply coherentOf
  · intro t mem
    rcases List.mem_append.mp mem with old | new
    · exact held.named t (List.mem_filter.mp old).1
    · rw [List.mem_singleton.mp new]
      exact solid
  · rw [List.map_append,List.nodup_append]
    refine ⟨keptDistinct _ held.distinct,List.nodup_singleton _,?_⟩
    intro a old b new
    obtain ⟨t,mem,rfl⟩ := List.mem_map.mp old
    rw [List.mem_singleton.mp new]
    simpa using (List.mem_filter.mp mem).2
  · exact .inr ⟨_,List.mem_append_right _ List.mem_cons_self,rfl⟩

theorem signOutCoherent {s : AuthorizationState} (held : Coherent s) : Coherent s.signOut :=
  coherentOf (fun t mem => held.named t (List.mem_filter.mp mem).1) (keptDistinct _ held.distinct) (firstCurrent _)

theorem removedCoherent {s : AuthorizationState} (held : Coherent s) (id : String) : Coherent (s.removeStoredSession id) := by
  apply coherentOf
  · exact fun t mem => held.named t (List.mem_filter.mp mem).1
  · exact keptDistinct _ held.distinct
  · unfold AuthorizationState.removeStoredSession
    dsimp only
    split
    · exact firstCurrent _
    · rename_i other
      rcases held.current with ⟨none,falsy⟩ | ⟨t,mem,names⟩
      · exact .inl ⟨by rw [none]; rfl,falsy⟩
      · refine .inr ⟨t,List.mem_filter.mpr ⟨mem,?_⟩,names⟩
        rw [isIff,names] at other
        simpa using other

/- A change of sessions that keeps their names. -/
theorem renamedCoherent {s : AuthorizationState} (held : Coherent s) (f : AuthSession → AuthSession)
    (keeps : ∀ t, (f t).sessionId = t.sessionId) : Coherent { s with sessions := s.sessions.map f } := by
  have same : (s.sessions.map f).map AuthSession.sessionId = s.sessions.map AuthSession.sessionId := by
    rw [List.map_map]
    exact List.map_congr_left (fun t _ => keeps t)
  apply coherentOf
  · intro t mem
    obtain ⟨u,old,rfl⟩ := List.mem_map.mp mem
    rw [keeps]
    exact held.named u old
  · rw [same]
    exact held.distinct
  · rcases held.current with ⟨none,falsy⟩ | ⟨t,mem,names⟩
    · exact .inl ⟨by simp [none],falsy⟩
    · exact .inr ⟨f t,List.mem_map_of_mem mem,by rw [keeps]; exact names⟩

theorem switchedCoherent {s : AuthorizationState} (held : Coherent s) (id : Json) : Coherent (s.setCurrentSession id) := by
  unfold AuthorizationState.setCurrentSession
  split
  · rename_i some
    obtain ⟨t,mem,names⟩ := List.any_eq_true.mp some
    exact coherentOf held.named held.distinct (.inr ⟨t,mem,isIff.mp names⟩)
  · exact held

theorem failsCoherent {s : AuthorizationState} (held : Coherent s) (attempted : String) (previous : Json) :
    Coherent (s.verifyFails attempted previous) := by
  unfold AuthorizationState.verifyFails AuthorizationState.restorePreviousSession
  split
  · exact removedCoherent held attempted
  · split
    · exact switchedCoherent (removedCoherent held attempted) previous
    · exact removedCoherent held attempted

theorem normalizedNamed {raw : Json} {s : AuthSession} (made : normalizeSession raw = some s) : s.sessionId ≠ "" := by
  unfold normalizeSession at made
  simp only [Option.bind_eq_bind,Option.bind_eq_some_iff] at made
  obtain ⟨user,_,made⟩ := made
  split at made <;> try cases made
  obtain ⟨id,_,made⟩ := Option.bind_eq_some_iff.mp made
  split at made <;> try cases made
  split at made
  · cases made
  · rename_i solid
    obtain ⟨tokens,_,made⟩ := Option.bind_eq_some_iff.mp made
    obtain ⟨access,_,made⟩ := Option.bind_eq_some_iff.mp made
    split at made <;> try cases made
    obtain ⟨refresh,_,made⟩ := Option.bind_eq_some_iff.mp made
    split at made <;> try cases made
    split at made
    · cases made
    · cases made
      exact solid

theorem mapSetMem {kept : List AuthSession} {s t : AuthSession} (mem : t ∈ mapSet kept s) : t ∈ kept ∨ t = s := by
  unfold mapSet at mem
  split at mem
  · obtain ⟨u,old,same⟩ := List.mem_map.mp mem
    split at same
    · exact .inr same.symm
    · exact .inl (same ▸ old)
  · rcases List.mem_append.mp mem with old | new
    · exact .inl old
    · exact .inr (List.mem_singleton.mp new)

theorem mapSetDistinct {kept : List AuthSession} (s : AuthSession) (distinct : (kept.map AuthSession.sessionId).Nodup) :
    ((mapSet kept s).map AuthSession.sessionId).Nodup := by
  unfold mapSet
  split
  · have same : (kept.map (fun t => if t.sessionId = s.sessionId then s else t)).map AuthSession.sessionId =
        kept.map AuthSession.sessionId := by
      rw [List.map_map]
      refine List.map_congr_left ?_
      intro t _
      dsimp only [Function.comp]
      split
      · exact (by assumption : t.sessionId = s.sessionId).symm
      · rfl
    rw [same]
    exact distinct
  · rename_i fresh
    rw [List.map_append,List.nodup_append]
    refine ⟨distinct,List.nodup_singleton _,?_⟩
    intro a old b new same
    obtain ⟨t,mem,rfl⟩ := List.mem_map.mp old
    rw [List.map_singleton,List.mem_singleton] at new
    exact fresh (List.any_eq_true.mpr ⟨t,mem,by simp [same,new]⟩)

/- What a map is filled with is in it, once. -/
theorem filled (new kept : List AuthSession) (distinct : (kept.map AuthSession.sessionId).Nodup) :
    ((new.foldl mapSet kept).map AuthSession.sessionId).Nodup ∧ ∀ t ∈ new.foldl mapSet kept, t ∈ kept ∨ t ∈ new := by
  induction new generalizing kept with
  | nil => exact ⟨distinct,fun _ mem => .inl mem⟩
  | cons s rest ih =>
    obtain ⟨once,from'⟩ := ih _ (mapSetDistinct s distinct)
    refine ⟨once,?_⟩
    intro t mem
    rcases from' t mem with old | later
    · rcases mapSetMem old with here | rfl
      · exact .inl here
      · exact .inr List.mem_cons_self
    · exact .inr (List.mem_cons_of_mem _ later)

theorem migratedSessions (persisted : Option Json) :
    (∀ t ∈ (migratePersistedState persisted).1, t.sessionId ≠ "") ∧
      ((migratePersistedState persisted).1.map AuthSession.sessionId).Nodup := by
  have none : (∀ t ∈ ([] : List AuthSession), t.sessionId ≠ "") ∧ (([] : List AuthSession).map AuthSession.sessionId).Nodup :=
    ⟨fun _ mem => absurd mem List.not_mem_nil,List.nodup_nil⟩
  unfold migratePersistedState
  split
  · exact none
  · split
    · exact none
    · split
      · rename_i raw _
        obtain ⟨once,from'⟩ := filled (raw.filterMap normalizeSession) [] List.nodup_nil
        refine ⟨?_,once⟩
        intro t mem
        rcases from' t mem with old | taken
        · cases old
        · obtain ⟨_,_,made⟩ := List.mem_filterMap.mp taken
          exact normalizedNamed made
      · split
        · split
          · rename_i user tokens _ _ _
            unfold migrateSingle
            cases made : normalizeSession (.obj [("user",user),("tokens",tokens),("trusted",.bool false)]) with
            | none => exact none
            | some s => exact ⟨fun _ mem => List.mem_singleton.mp mem ▸ normalizedNamed made,List.nodup_singleton _⟩
          · exact none
        · exact none

/- Where no session was taken over, the current one is empty or it names nothing. -/
theorem migratedCurrent (persisted : Option Json) :
    (migratePersistedState persisted).1 = [] ∨
      ∃ t ∈ (migratePersistedState persisted).1, (migratePersistedState persisted).2 = .str t.sessionId := by
  unfold migratePersistedState
  split
  · exact .inl rfl
  · split
    · exact .inl rfl
    · split
      · dsimp only
        split
        · rename_i held
          obtain ⟨t,mem,names⟩ := List.any_eq_true.mp (Bool.and_eq_true_iff.mp held).2
          exact .inr ⟨t,mem,isIff.mp names⟩
        · exact (firstCurrent _).imp And.left id
      · split
        · split
          · exact (firstCurrent _).imp And.left id
          · exact .inl rfl
        · exact .inl rfl

theorem mergedCoherent (s : AuthorizationState) (persisted : Option Json) : Coherent (s.merge persisted) := by
  have sessions := migratedSessions persisted
  apply coherentOf sessions.1 sessions.2
  unfold AuthorizationState.merge
  rcases migratedCurrent persisted with none | ⟨t,mem,names⟩
  · refine .inl ⟨none,?_⟩
    dsimp only
    rw [none]
    split
    · rfl
    · rename_i empty
      simpa using empty
  · refine .inr ⟨t,mem,?_⟩
    have kept : (migratePersistedState persisted).1.any (fun u => (migratePersistedState persisted).2.is u.sessionId) = true :=
      List.any_eq_true.mpr ⟨t,mem,isIff.mpr names⟩
    dsimp only
    rw [kept,if_neg (by simp)]
    exact names

theorem stepCoherent {w : World} (held : Coherent w.store) (op : Op) : Coherent (step w op).store := by
  cases op with
  | signIn input trusted fresh => exact signInCoherent held input trusted fresh
  | signOut => exact signOutCoherent held
  | signOutAll => exact coherentOf (fun _ mem => absurd mem List.not_mem_nil) List.nodup_nil (.inl ⟨rfl,rfl⟩)
  | setTrusted id trusted =>
    refine renamedCoherent held _ ?_
    intro t
    split <;> rfl
  | setCurrentSession id => exact switchedCoherent held id
  | setAccessToken token =>
    refine renamedCoherent held _ ?_
    intro t
    split <;> rfl
  | removeStoredSession id => exact removedCoherent held id
  | verifyStoredSession session previous =>
    rw [step]
    split
    · exact failsCoherent held _ _
    · exact switchedCoherent held _
  | checked n answer fresh =>
    rw [step]
    split
    · exact held
    · split
      · exact signInCoherent held _ _ _
      · exact failsCoherent held _ _
  | rehydrate parsed => exact mergedCoherent _ _

theorem runCoherent {w : World} (held : Coherent w.store) (ops : List Op) : Coherent (run w ops).store := by
  induction ops generalizing w with
  | nil => exact held
  | cons op rest ih => exact ih (stepCoherent held op)

theorem initialCoherent : Coherent initial.store :=
  coherentOf (fun _ mem => absurd mem List.not_mem_nil) List.nodup_nil (.inl ⟨rfl,rfl⟩)

/- A failed check takes the attempted session away and no other, and where the previous one
is still there it is the current one. -/
def FailsOnly (before after : AuthorizationState) (attempted : String) (previous : Json) : Prop :=
  after.sessions = before.sessions.filter (fun t => t.sessionId ≠ attempted) ∧
    ∀ t ∈ after.sessions, previous = .str t.sessionId → after.currentSession = previous

theorem switchedSessions (s : AuthorizationState) (id : Json) : (s.setCurrentSession id).sessions = s.sessions := by
  unfold AuthorizationState.setCurrentSession
  split <;> rfl

theorem failsOnly {s : AuthorizationState} (held : Coherent s) (attempted : String) (previous : Json) :
    FailsOnly s (s.verifyFails attempted previous) attempted previous := by
  have sessions : (s.verifyFails attempted previous).sessions = s.sessions.filter (fun t => t.sessionId ≠ attempted) := by
    unfold AuthorizationState.verifyFails AuthorizationState.restorePreviousSession
    split
    · rfl
    · split
      · exact switchedSessions _ _
      · rfl
  refine ⟨sessions,?_⟩
  intro t mem names
  rw [sessions] at mem
  obtain ⟨old,other⟩ := List.mem_filter.mp mem
  unfold AuthorizationState.verifyFails AuthorizationState.restorePreviousSession
  split
  · rename_i skipped
    rcases Bool.or_eq_true_iff.mp skipped with empty | same
    · rw [names] at empty
      simp [Json.truthy,held.named t old] at empty
    · rw [isIff,names] at same
      simp [Json.str.inj same] at other
  · have there : (s.removeStoredSession attempted).sessions.any (fun u => previous.is u.sessionId) = true :=
      List.any_eq_true.mpr ⟨t,mem,isIff.mpr names⟩
    rw [if_pos there,AuthorizationState.setCurrentSession,if_pos there]

/- Whatever is written in whatever order, the store is coherent, and a check that fails then,
at once or by its answer, takes away what was attempted and no more. -/
theorem storeCoherent (ops : List Op) :
    Coherent (run initial ops).store ∧
    (∀ n c fresh, (run initial ops).checks[n]? = some c →
      FailsOnly (run initial ops).store (run initial (ops ++ [.checked n none fresh])).store c.session.sessionId c.previous) ∧
    ∀ session previous, session.tokens.refreshToken = "" →
      FailsOnly (run initial ops).store (run initial (ops ++ [.verifyStoredSession session previous])).store session.sessionId previous := by
  have held := runCoherent initialCoherent ops
  have last : ∀ op, run initial (ops ++ [op]) = step (run initial ops) op := fun op => List.foldl_concat step initial op ops
  refine ⟨held,?_,?_⟩
  · intro n c fresh pending
    rw [last,step,pending]
    exact failsOnly held _ _
  · intro session previous blank
    rw [last,step,if_pos blank]
    exact failsOnly held _ _

end ContainerWS.Frontend
