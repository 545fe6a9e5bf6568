import ContainerWS.Runs
import ContainerWS.Vnc.PortMap

/-! The operations of modules/vncnovnc/install/adduser on the map of ports, and when no two users come
to have one port or display. Each operation has the map for itself; the start of a session makes one
at its beginning and one at its end, and others may come between. -/
namespace ContainerWS.Vnc
open GoStrings TextRows Decimals Runs

/- Whether the file of the map can be read, and whether it can be written. -/
structure Access where
  readable : Bool
  saved : Bool
  deriving DecidableEq, Repr

/- A port that the system gives for port 0, and whether it is still free a moment later. -/
structure Offer where
  port : Nat
  free : Bool
  deriving DecidableEq, Repr

/- What the system answers to each listen, if it can. -/
abbrev Offers := Nat → Option Offer

inductive SessionError where
  | usernameRequired
  | passwordRequired
  | account
  | readMap
  | writeMap
  | listen
  | noPort
  | noDisplay
  | prepare
  | startVNC
  | startNoVNC
  deriving DecidableEq, Repr

structure StartOptions where
  username : String
  password : String
  vncPort : Int
  noVncPort : Int
  deriving DecidableEq, Repr

/- What the machine answers while a session starts: the file of the user's display, the displays
with a lock or a socket, and which steps succeed. -/
structure Machine where
  displayFile : Option String
  locked : Nat → Bool
  prepared : Bool
  vnc : Bool
  novnc : Bool
  access : Access

def usedPortsFromMap (rows : List PortAssignment) : List Int := rows.flatMap (fun row => [row.vncPort,row.noVncPort])

def pickUnused (used : List Int) (offers : Offers) : Nat → Nat → Except SessionError Int
  | 0,_ => .error .noPort
  | left+1,i =>
    match offers i with
    | none => .error .listen
    | some o =>
      if o.port < 1024 then pickUnused used offers left (i+1)
      else if (o.port : Int) ∈ used then pickUnused used offers left (i+1)
      else if !o.free then pickUnused used offers left (i+1)
      else .ok o.port

def PickUnusedLocalPort (used : List Int) (offers : Offers) : Except SessionError Int := pickUnused used offers 64 0

def PickFreeDisplay (locked : Nat → Bool) : Option Nat := (List.range' 1 999).find? (fun d => !locked d)

def DisplayFromVNCPort (vncPort : Int) : Int := vncPort-5900

def loadDisplayFile (content : Option String) : Int :=
  match content with
  | none => 0
  | some text => (Atoi (trimSpace text)).1

section
variable (a : Access) (file : Option String)

def AllocateOrReusePorts (username : String) (extraUsed : List Int) (first second : Offers) :
    Option String × Except SessionError PortAssignment :=
  if !a.readable then (file,.error .readMap)
  else
    let rows := LoadPortMap file
    match rows.find? (fun row => row.username = username) with
    | some row => (file,.ok row)
    | none =>
      let used := usedPortsFromMap rows ++ extraUsed
      match PickUnusedLocalPort used first with
      | .error e => (file,.error e)
      | .ok vncPort =>
        match PickUnusedLocalPort (vncPort :: used) second with
        | .error e => (file,.error e)
        | .ok novncPort =>
          let row : PortAssignment := ⟨username,vncPort,novncPort,0⟩
          if a.saved then (some (portMapText (rows ++ [row])),.ok row) else (file,.error .writeMap)

def RemovePortAssignment (username : String) : Option String × Except SessionError Unit :=
  if !a.readable then (file,.error .readMap)
  else if a.saved then (some (portMapText ((LoadPortMap file).filter (fun row => row.username ≠ username))),.ok ())
  else (file,.error .writeMap)

/- The first row of the user is replaced, or one is added. -/
def upsertRow (row : PortAssignment) : List PortAssignment → List PortAssignment
  | [] => [row]
  | r :: rows => if r.username = row.username then row :: rows else r :: upsertRow row rows

def upsertAssignment (row : PortAssignment) : Option String × Except SessionError Unit :=
  if !a.readable then (file,.error .readMap)
  else if a.saved then (some (portMapText (upsertRow row (LoadPortMap file))),.ok ())
  else (file,.error .writeMap)

/- StartUserSession up to its assignment; whether the override is written is not looked at. -/
def beginSession (opts : StartOptions) (account : Bool) (first second : Offers) :
    Option String × Except SessionError PortAssignment :=
  let username := trimSpace opts.username
  if username = "" then (file,.error .usernameRequired)
  else if trimSpace opts.password = "" then (file,.error .passwordRequired)
  else if !account then (file,.error .account)
  else if 0 < opts.vncPort ∧ 0 < opts.noVncPort then
    let assignment : PortAssignment := ⟨username,opts.vncPort,opts.noVncPort,0⟩
    ((upsertAssignment a file assignment).1,.ok assignment)
  else AllocateOrReusePorts a file username [] first second

end

def chooseDisplay (assignment : PortAssignment) (m : Machine) : Option Int :=
  if 0 < assignment.display then some assignment.display
  else if 0 < loadDisplayFile m.displayFile then some (loadDisplayFile m.displayFile)
  else if 5901 ≤ assignment.vncPort ∧ assignment.vncPort ≤ 5999 then some (DisplayFromVNCPort assignment.vncPort)
  else (PickFreeDisplay m.locked).map Int.ofNat

/- StartUserSession from its assignment on; whether the display is written is not looked at. -/
def finishSession (file : Option String) (assignment : PortAssignment) (m : Machine) :
    Option String × Except SessionError PortAssignment :=
  match chooseDisplay assignment m with
  | none => (file,.error .noDisplay)
  | some display =>
    if !m.prepared then (file,.error .prepare)
    else if !m.vnc then (file,.error .startVNC)
    else if !m.novnc then (file,.error .startNoVNC)
    else
      let assignment := { assignment with display }
      ((upsertAssignment m.access file assignment).1,.ok assignment)

/- The map and the sessions that are starting. -/
structure Desk where
  file : Option String
  starting : List PortAssignment
  deriving DecidableEq, Repr

inductive Turn where
  | allocate (username : String) (extraUsed : List Int) (a : Access) (first second : Offers)
  | remove (username : String) (a : Access)
  | start (opts : StartOptions) (account : Bool) (a : Access) (first second : Offers)
  | finish (i : Nat) (m : Machine)

def turn (s : Desk) : Turn → Option Desk
  | .allocate username extraUsed a first second =>
    some { s with file := (AllocateOrReusePorts a s.file username extraUsed first second).1 }
  | .remove username a => some { s with file := (RemovePortAssignment a s.file username).1 }
  | .start opts account a first second =>
    match beginSession a s.file opts account first second with
    | (file,.ok assignment) => some ⟨file,s.starting ++ [assignment]⟩
    | (file,.error _) => some { s with file }
  | .finish i m =>
    match s.starting[i]? with
    | none => none
    | some assignment => some ⟨(finishSession s.file assignment m).1,s.starting.eraseIdx i⟩

def Shares (r s : PortAssignment) : Prop :=
  r.vncPort = s.vncPort ∨ r.noVncPort = s.noVncPort ∨ (0 < r.display ∧ r.display = s.display)

instance (r s : PortAssignment) : Decidable (Shares r s) := inferInstanceAs (Decidable (_ ∨ _ ∨ _))

/- No two users have a port or a display in common. -/
def Apart (rows : List PortAssignment) : Prop := ∀ r ∈ rows, ∀ s ∈ rows, r.username ≠ s.username → ¬Shares r s

instance (rows : List PortAssignment) : Decidable (Apart rows) := inferInstanceAs (Decidable (∀ r ∈ rows, ∀ s ∈ rows, _))

/- What is written for a user is nothing that another has. -/
structure Free (rows : List PortAssignment) (row : PortAssignment) : Prop where
  own : Apart (readBack row)
  others : ∀ new ∈ readBack row, ∀ r ∈ rows, new.username ≠ r.username → ¬Shares new r

/- The row that a user who had none is given. -/
def allocated (a : Access) (file : Option String) (username : String) (extraUsed : List Int) (first second : Offers) :
    Option PortAssignment :=
  match (LoadPortMap file).find? (fun row => row.username = username),
    (AllocateOrReusePorts a file username extraUsed first second).2 with
  | none,.ok row => some row
  | _,_ => none

/- The row that a turn writes. -/
def written (s : Desk) : Turn → Option PortAssignment
  | .allocate username extraUsed a first second => allocated a s.file username extraUsed first second
  | .remove _ _ => none
  | .start opts account a first second =>
    if trimSpace opts.username = "" ∨ trimSpace opts.password = "" ∨ account = false then none
    else if 0 < opts.vncPort ∧ 0 < opts.noVncPort then
      if a.readable ∧ a.saved then some ⟨trimSpace opts.username,opts.vncPort,opts.noVncPort,0⟩ else none
    else allocated a s.file (trimSpace opts.username) [] first second
  | .finish i m =>
    match s.starting[i]? with
    | none => none
    | some assignment =>
      if m.prepared ∧ m.vnc ∧ m.novnc ∧ m.access.readable ∧ m.access.saved then
        (chooseDisplay assignment m).map (fun display => { assignment with display })
      else none

def Meets (s : Desk) (t : Turn) : Prop := ∀ row, written s t = some row → Free (LoadPortMap s.file) row

theorem Shares.symm {r s : PortAssignment} (both : Shares r s) : Shares s r := by
  rcases both with vnc | novnc | ⟨shown,display⟩
  · exact .inl vnc.symm
  · exact .inr (.inl novnc.symm)
  · exact .inr (.inr ⟨by omega,display.symm⟩)

/- What is not written of a display is none. -/
theorem sharesShown {r s : PortAssignment} : Shares r s.shown ↔ Shares r s := by
  unfold Shares PortAssignment.shown
  dsimp only
  split
  · rfl
  · rename_i lost
    refine or_congr Iff.rfl (or_congr Iff.rfl ⟨?_,?_⟩)
    · rintro ⟨shown,same⟩
      exact absurd same (by omega)
    · rintro ⟨shown,same⟩
      exact absurd shown (by omega)

theorem sharesBoth {r s : PortAssignment} : Shares r.shown s.shown ↔ Shares r s := by
  rw [sharesShown]
  exact ⟨fun both => (sharesShown.mp both.symm).symm,fun both => (sharesShown.mpr both.symm).symm⟩

/- Rows that are kept are read as they were. -/
theorem keptBack {file : Option String} {rows : List PortAssignment} (part : ∀ r ∈ rows, r ∈ LoadPortMap file) :
    rows.flatMap readBack = rows.map PortAssignment.shown := by
  rw [List.map_eq_flatMap]
  exact List.flatMap_congr (fun r mem => backHeld (loadHeld (part r mem)))

theorem apartKept {file : Option String} {rows : List PortAssignment} (part : ∀ r ∈ rows, r ∈ LoadPortMap file)
    (apart : Apart (LoadPortMap file)) : Apart (LoadPortMap (some (portMapText rows))) := by
  rw [loadText,keptBack part]
  intro r first s second other both
  obtain ⟨r,memR,rfl⟩ := List.mem_map.mp first
  obtain ⟨s,memS,rfl⟩ := List.mem_map.mp second
  exact apart r (part r memR) s (part s memS) other (sharesBoth.mp both)

/- The rows of the others stay, and one of the user's goes. -/
theorem upsertParts (row : PortAssignment) (rows : List PortAssignment) :
    ∃ before after, upsertRow row rows = before ++ row :: after ∧
      (∀ r ∈ before ++ after, r ∈ rows) ∧ ∀ r ∈ rows, r ∈ before ++ after ∨ r.username = row.username := by
  induction rows with
  | nil => exact ⟨[],[],rfl,by simp,by simp⟩
  | cons r rows ih =>
    rw [upsertRow]
    split
    · rename_i same
      refine ⟨[],rows,rfl,fun s mem => List.mem_cons_of_mem r mem,?_⟩
      intro s mem
      rcases List.mem_cons.mp mem with rfl | mem
      · exact .inr same
      · exact .inl mem
    · obtain ⟨before,after,whole,part,rest⟩ := ih
      refine ⟨r :: before,after,by rw [whole]; rfl,?_,?_⟩
      · intro s mem
        rcases List.mem_cons.mp mem with rfl | mem
        · exact List.mem_cons_self
        · exact List.mem_cons_of_mem r (part s mem)
      · intro s mem
        rcases List.mem_cons.mp mem with rfl | mem
        · exact .inl List.mem_cons_self
        · exact (rest s mem).imp (List.mem_cons_of_mem r) id

theorem upsertNew {row : PortAssignment} {rows : List PortAssignment} (new : ∀ r ∈ rows, r.username ≠ row.username) :
    upsertRow row rows = rows ++ [row] := by
  induction rows with
  | nil => rfl
  | cons r rows ih =>
    rw [upsertRow,if_neg (new r List.mem_cons_self),ih (fun s mem => new s (List.mem_cons_of_mem r mem)),List.cons_append]

/- A username that the map has is read back as it is. -/
theorem backName {file : Option String} {row new r : PortAssignment} (mem : r ∈ LoadPortMap file)
    (same : r.username = row.username) (back : new ∈ readBack row) : new.username = row.username := by
  have held := loadHeld mem
  have name := (backPorts (same ▸ held.fields) (same ▸ held.lines) back).1
  rwa [leftSelf.mpr (same ▸ held.solid)] at name

/- A row that is written keeps the users apart exactly when it takes nothing from another. -/
theorem upsertApart {file : Option String} {row : PortAssignment} (apart : Apart (LoadPortMap file)) :
    Apart (LoadPortMap (some (portMapText (upsertRow row (LoadPortMap file))))) ↔ Free (LoadPortMap file) row := by
  obtain ⟨before,after,whole,part,rest⟩ := upsertParts row (LoadPortMap file)
  have read : ∀ x, x ∈ LoadPortMap (some (portMapText (upsertRow row (LoadPortMap file)))) ↔
      x ∈ readBack row ∨ ∃ r ∈ before ++ after, x = r.shown := by
    intro x
    rw [loadText,whole,List.flatMap_append,List.flatMap_cons,
      keptBack (fun r mem => part r (List.mem_append_left _ mem)),keptBack (fun r mem => part r (List.mem_append_right _ mem))]
    simp only [List.mem_append,List.mem_map]
    grind
  constructor
  · intro all
    refine ⟨?_,?_⟩
    · intro r first s second
      exact all r ((read r).mpr (.inl first)) s ((read s).mpr (.inl second))
    · intro new back r mem other both
      rcases rest r mem with stays | same
      · exact all new ((read new).mpr (.inl back)) r.shown ((read _).mpr (.inr ⟨r,stays,rfl⟩)) other (sharesShown.mpr both)
      · exact other ((backName mem same back).trans same.symm)
  · intro free r first s second other both
    rcases (read r).mp first with newR | ⟨r,memR,rfl⟩ <;> rcases (read s).mp second with newS | ⟨s,memS,rfl⟩
    · exact free.own r newR s newS other both
    · exact free.others r newR s (part s memS) other (sharesShown.mp both)
    · exact free.others s newS r (part r memR) other.symm (sharesShown.mp both.symm)
    · exact apart r (part r memR) s (part s memS) other (sharesBoth.mp both)

/- The file with a row more, or as it was. -/
def withRow (file : Option String) : Option PortAssignment → Option String
  | some row => some (portMapText (upsertRow row (LoadPortMap file)))
  | none => file

theorem allocateFile (a : Access) (file : Option String) (username : String) (extraUsed : List Int) (first second : Offers) :
    (AllocateOrReusePorts a file username extraUsed first second).1 =
      withRow file (allocated a file username extraUsed first second) := by
  unfold allocated AllocateOrReusePorts
  split
  · cases (LoadPortMap file).find? (fun row => row.username = username) <;> rfl
  · dsimp only
    cases found : (LoadPortMap file).find? (fun row => row.username = username) with
    | some row => rfl
    | none =>
      have new : ∀ r ∈ LoadPortMap file, r.username ≠ username := by simpa using found
      dsimp only
      cases PickUnusedLocalPort (usedPortsFromMap (LoadPortMap file) ++ extraUsed) first with
      | error e => rfl
      | ok vncPort =>
        dsimp only
        cases PickUnusedLocalPort (vncPort :: (usedPortsFromMap (LoadPortMap file) ++ extraUsed)) second with
        | error e => rfl
        | ok novncPort =>
          dsimp only
          split
          · rw [withRow,upsertNew new]
          · rfl

theorem upsertFile (a : Access) (file : Option String) (row : PortAssignment) :
    (upsertAssignment a file row).1 = withRow file (if a.readable ∧ a.saved then some row else none) := by
  unfold upsertAssignment
  cases a.readable <;> cases a.saved <;> rfl

theorem removeApart {a : Access} {file : Option String} {username : String} (apart : Apart (LoadPortMap file)) :
    Apart (LoadPortMap (RemovePortAssignment a file username).1) := by
  unfold RemovePortAssignment
  split
  · exact apart
  · split
    · exact apartKept (fun r mem => (List.mem_filter.mp mem).1) apart
    · exact apart

/- A turn writes its row, takes the rows of a user away, or leaves the map. -/
theorem turnFile {s t : Desk} {e : Turn} (moved : turn s e = some t) :
    t.file = withRow s.file (written s e) ∨ ∃ username a, e = .remove username a ∧
      t.file = (RemovePortAssignment a s.file username).1 := by
  cases e with
  | allocate username extraUsed a first second =>
    cases Option.some.inj moved
    exact .inl (allocateFile a s.file username extraUsed first second)
  | remove username a =>
    cases Option.some.inj moved
    exact .inr ⟨username,a,rfl,rfl⟩
  | start opts account a first second =>
    left
    have same : t.file = (beginSession a s.file opts account first second).1 := by
      rw [turn] at moved
      split at moved
      · rename_i began
        rw [began,← Option.some.inj moved]
      · rename_i began
        rw [began,← Option.some.inj moved]
    rw [same,written]
    unfold beginSession
    dsimp only
    by_cases name : trimSpace opts.username = ""
    · rw [if_pos name,if_pos (.inl name)]
      rfl
    by_cases password : trimSpace opts.password = ""
    · rw [if_neg name,if_pos password,if_pos (.inr (.inl password))]
      rfl
    cases account with
    | false =>
      rw [if_neg name,if_neg password,if_pos (show (!false) = true from rfl),if_pos (.inr (.inr rfl))]
      rfl
    | true =>
      have begun : ¬(trimSpace opts.username = "" ∨ trimSpace opts.password = "" ∨ true = false) := by
        simp [name,password]
      rw [if_neg name,if_neg password,if_neg (show ¬(!true) = true by decide),if_neg begun]
      split
      · exact upsertFile a s.file _
      · exact allocateFile a s.file _ [] first second
  | finish i m =>
    left
    rw [turn] at moved
    rw [written]
    cases here : s.starting[i]? with
    | none =>
      rw [here] at moved
      contradiction
    | some assignment =>
      rw [here] at moved
      rw [← Option.some.inj moved]
      dsimp only
      unfold finishSession
      cases chooseDisplay assignment m with
      | none =>
        rw [Option.map_none,ite_self]
        rfl
      | some display =>
        dsimp only
        cases m.prepared
        · rfl
        cases m.vnc
        · rfl
        cases m.novnc
        · rfl
        · simpa using upsertFile m.access s.file { assignment with display }

theorem turnApart {s t : Desk} {e : Turn} (apart : Apart (LoadPortMap s.file)) (moved : turn s e = some t) :
    Apart (LoadPortMap t.file) ↔ Meets s e := by
  rcases turnFile moved with wrote | ⟨username,a,rfl,removed⟩
  · rw [wrote]
    unfold Meets
    cases row : written s e with
    | none => exact iff_of_true apart (fun row none => nomatch none)
    | some new =>
      rw [withRow,upsertApart apart]
      exact ⟨fun free other same => Option.some.inj same ▸ free,fun all => all new rfl⟩
  · rw [removed]
    exact iff_of_true (removeApart apart) (fun row none => nomatch none)

theorem turnStuck {s : Desk} {e : Turn} (stuck : turn s e = none) : Meets s e := by
  intro row wrote
  cases e with
  | allocate username extraUsed a first second => contradiction
  | remove username a => contradiction
  | start opts account a first second =>
    rw [turn] at stuck
    split at stuck <;> contradiction
  | finish i m =>
    cases here : s.starting[i]? with
    | none =>
      rw [written,here] at wrote
      contradiction
    | some assignment =>
      rw [turn,here] at stuck
      contradiction

theorem pickUnusedSpares {used : List Int} {offers : Offers} {left i : Nat} {port : Int}
    (picked : pickUnused used offers left i = .ok port) : port ∉ used := by
  induction left generalizing i with
  | zero => contradiction
  | succ left ih =>
    rw [pickUnused] at picked
    split at picked
    · contradiction
    · split at picked
      · exact ih picked
      · split at picked
        · exact ih picked
        · rename_i spare
          split at picked
          · exact ih picked
          · cases Except.ok.inj picked
            exact spare

theorem allocateNew {a : Access} {file : Option String} {username : String} {extraUsed : List Int} {first second : Offers}
    {row : PortAssignment} (lost : (LoadPortMap file).find? (fun row => row.username = username) = none)
    (ok : (AllocateOrReusePorts a file username extraUsed first second).2 = .ok row) :
    ∃ vncPort novncPort, vncPort ∉ usedPortsFromMap (LoadPortMap file) ∧ novncPort ∉ usedPortsFromMap (LoadPortMap file) ∧
      row = ⟨username,vncPort,novncPort,0⟩ := by
  unfold AllocateOrReusePorts at ok
  split at ok
  · contradiction
  · simp only [lost] at ok
    split at ok
    · contradiction
    · rename_i vncPort vnc
      split at ok
      · contradiction
      · rename_i novncPort novnc
        split at ok
        · refine ⟨vncPort,novncPort,?_,?_,(Except.ok.inj ok).symm⟩
          · exact fun mem => pickUnusedSpares vnc (List.mem_append_left _ mem)
          · exact fun mem => pickUnusedSpares novnc (List.mem_cons_of_mem _ (List.mem_append_left _ mem))
        · contradiction

/- A user is given ports that no row has, and no display. -/
theorem allocatedFree {a : Access} {file : Option String} {username : String} {extraUsed : List Int} {first second : Offers}
    (fields : ':' ∉ username.toList) (lines : '\n' ∉ username.toList) {row : PortAssignment}
    (given : allocated a file username extraUsed first second = some row) : Free (LoadPortMap file) row := by
  have ports : ∃ vncPort novncPort, vncPort ∉ usedPortsFromMap (LoadPortMap file) ∧
      novncPort ∉ usedPortsFromMap (LoadPortMap file) ∧ row = ⟨username,vncPort,novncPort,0⟩ := by
    unfold allocated at given
    split at given
    · rename_i new lost ok
      exact allocateNew lost (Option.some.inj given ▸ ok)
    · contradiction
  obtain ⟨vncPort,novncPort,spareVnc,spareNoVnc,rfl⟩ := ports
  refine ⟨?_,?_⟩
  · intro r first s second other
    exact absurd ((backPorts fields lines first).1.trans (backPorts fields lines second).1.symm) other
  · intro new mem r old _ both
    obtain ⟨_,vnc,novnc,display⟩ := backPorts fields lines mem
    rcases both with same | same | ⟨shown,_⟩
    · exact spareVnc (List.mem_flatMap.mpr ⟨r,old,by simp [← same,vnc]⟩)
    · exact spareNoVnc (List.mem_flatMap.mpr ⟨r,old,by simp [← same,novnc]⟩)
    · exact absurd (display le_rfl) (by omega)

/- A start without ports of its own. -/
theorem startFree {s : Desk} {opts : StartOptions} {account : Bool} {a : Access} {first second : Offers}
    (fields : ':' ∉ opts.username.toList) (lines : '\n' ∉ opts.username.toList)
    (own : ¬(0 < opts.vncPort ∧ 0 < opts.noVncPort)) : Meets s (.start opts account a first second) := by
  intro row wrote
  have part : ∀ c ∈ (trimSpace opts.username).toList, c ∈ opts.username.toList := by
    rw [trimSpaceBoth]
    exact fun c mem => trimBothMem mem
  rw [written,if_neg own] at wrote
  split at wrote
  · contradiction
  · exact allocatedFree (fun mem => fields (part _ mem)) (fun mem => lines (part _ mem)) wrote

/- Over every run of the operations the users stay apart exactly when each row that is written takes
nothing from another user, as it does for who is given ports. -/
theorem portsApart {s : Desk} (apart : Apart (LoadPortMap s.file)) (turns : List Turn) :
    ((∀ n t, run turn s (turns.take n) = some t → Apart (LoadPortMap t.file)) ↔ Guided turn Meets s turns) ∧
    (∀ t username extraUsed a first second, ':' ∉ username.toList → '\n' ∉ username.toList →
      Meets t (.allocate username extraUsed a first second)) ∧
    (∀ t username a, Meets t (.remove username a)) ∧
    ∀ t opts account a first second, ':' ∉ opts.username.toList → '\n' ∉ opts.username.toList →
      ¬(0 < opts.vncPort ∧ 0 < opts.noVncPort) → Meets t (.start opts account a first second) :=
  ⟨guidedIff (fun apart moved => turnApart apart moved) (fun stuck => turnStuck stuck) apart,
    fun _ _ _ _ _ _ fields lines _ given => allocatedFree fields lines given,
    fun t username a row wrote => absurd wrote (by simp [written]),
    fun _ _ _ _ _ _ fields lines own => startFree fields lines own⟩

/- One user's ports are freed before another takes them. -/
theorem portsApartMoved :
    Apart (LoadPortMap (some "alice:5901:6080:1\n")) ∧
    ((∀ n t, run turn ⟨some "alice:5901:6080:1\n",[]⟩
      ([.remove "alice" ⟨true,true⟩,.start ⟨"bob","secret",5901,6080⟩ true ⟨true,true⟩ (fun _ => none) (fun _ => none)].take n) =
        some t → Apart (LoadPortMap t.file)) ↔
      Guided turn Meets ⟨some "alice:5901:6080:1\n",[]⟩
        [.remove "alice" ⟨true,true⟩,.start ⟨"bob","secret",5901,6080⟩ true ⟨true,true⟩ (fun _ => none) (fun _ => none)]) := by
  have apart : Apart (LoadPortMap (some "alice:5901:6080:1\n")) := by decide
  exact ⟨apart,(portsApart (s := ⟨some "alice:5901:6080:1\n",[]⟩) apart _).1⟩

/- Two users start with the same ports given. -/
theorem portGivenTwice :
    ∃ t, run turn ⟨none,[]⟩
      [.start ⟨"alice","secret",5901,6080⟩ true ⟨true,true⟩ (fun _ => none) (fun _ => none),
        .start ⟨"bob","secret",5901,6080⟩ true ⟨true,true⟩ (fun _ => none) (fun _ => none)] = some t ∧
      LoadPortMap t.file = [⟨"alice",5901,6080,0⟩,⟨"bob",5901,6080,0⟩] ∧ ¬Apart (LoadPortMap t.file) := by
  refine ⟨_,rfl,by decide +kernel,by decide +kernel⟩

end ContainerWS.Vnc
