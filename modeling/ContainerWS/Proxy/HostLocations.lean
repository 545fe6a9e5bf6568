import ContainerWS.Proxy.HostUpstream
import Mathlib.Data.List.TakeDrop

/-! UpdateAPI and replaceLocations of modules/proxymanager/hosts: the locations of a host are deleted and
written again row by row, with no transaction around them. `fails` tells which step of a request fails. The
read of the row for the answer and MarkDirty, whose errors are ignored, are left out. -/
namespace ContainerWS.Proxy.Rows
open GoStrings

structure LocationRow where
  id : String := ""
  hostID : String
  pathPrefix : String
  upstreamType : String
  upstreamTarget : String
  stripPrefix : Bool
  websocket : Bool
  extras : Option (List (String × Extra))
  orderNr : Int
  enabled : Bool
  deriving DecidableEq, Repr

def normalizedLocation (m : LowerMap) (loc : LocationRow) : LocationRow :=
  {loc with
    pathPrefix := normalizedPrefix loc.pathPrefix
    upstreamType := normalizedType m.toCaseMap loc.upstreamType
    upstreamTarget := trimSpace loc.upstreamTarget
    extras := some (loc.extras.getD [])}

/- The i-th location of a body. -/
def locationOf (m : LowerMap) (hostID : String) (i : Nat) (lb : LocationBody) : LocationRow :=
  normalizedLocation m
    {hostID := hostID
     pathPrefix := lb.pathPrefix
     upstreamType := lb.upstreamType
     upstreamTarget := lb.upstreamTarget
     stripPrefix := lb.stripPrefix
     websocket := lb.websocket
     extras := lb.extras
     orderNr := if lb.orderNr = 0 then i else lb.orderNr
     enabled := lb.enabled.getD true}

/- A field with a zero value is stored as the default of its column. -/
def orDefault {α : Type} [DecidableEq α] (zero default value : α) : α := if value = zero then default else value

/- What gorm stores for a row that it creates: the columns with a default are these. -/
structure Orm where
  stored : LocationRow → LocationRow
  defaults : ∀ r, stored r =
    {r with
      upstreamType := orDefault "" upstreamURL r.upstreamType
      stripPrefix := orDefault false false r.stripPrefix
      websocket := orDefault false false r.websocket
      orderNr := orDefault 0 0 r.orderNr
      enabled := orDefault false true r.enabled}

/- `uuid.New`, draw by draw. -/
structure Ids where
  id : Nat → String
  distinct : Function.Injective id

/- The rows that are not deleted, in the order of their creation. -/
structure Store (ids : Ids) where
  hosts : List ProxyHost
  locations : List LocationRow
  drawn : Nat
  unused : ∀ r ∈ locations, ∀ n, drawn ≤ n → r.id ≠ ids.id n

inductive Point where
  | find
  | bind
  | save
  | delete
  | create (i : Nat)
  deriving DecidableEq, Repr

inductive UpdateError where
  | notFound
  | body (e : BodyError)
  | failed (p : Point)
  deriving DecidableEq, Repr

variable (m : LowerMap) (parse : String → Option ParsedURL) (orm : Orm) {ids : Ids} (fails : Point → Bool)

/- The hooks normalize the row and give it its id. -/
def createdRow (s : Store ids) (loc : LocationRow) : LocationRow :=
  orm.stored (normalizedLocation m {normalizedLocation m loc with id := ids.id s.drawn})

theorem createdId (s : Store ids) (loc : LocationRow) : (createdRow m orm s loc).id = ids.id s.drawn := by
  unfold createdRow
  rw [orm.defaults]
  rfl

theorem createdUnused (s : Store ids) (loc : LocationRow) :
    ∀ r ∈ s.locations ++ [createdRow m orm s loc], ∀ n, s.drawn+1 ≤ n → r.id ≠ ids.id n := by
  intro r inside n above
  rcases List.mem_append.mp inside with old | new
  · exact s.unused r old n (by omega)
  · rw [List.mem_singleton.mp new,createdId]
    intro same
    have := ids.distinct same
    omega

def Store.create (s : Store ids) (loc : LocationRow) : Store ids :=
  ⟨s.hosts,s.locations ++ [createdRow m orm s loc],s.drawn+1,createdUnused m orm s loc⟩

theorem deletedUnused (s : Store ids) (hostID : String) :
    ∀ r ∈ s.locations.filter (fun r => r.hostID ≠ hostID), ∀ n, s.drawn ≤ n → r.id ≠ ids.id n :=
  fun r inside => s.unused r (List.mem_filter.mp inside).1

def Store.deleteLocations (s : Store ids) (hostID : String) : Store ids :=
  ⟨s.hosts,s.locations.filter (fun r => r.hostID ≠ hostID),s.drawn,deletedUnused s hostID⟩

def Store.save (s : Store ids) (row : ProxyHost) : Store ids :=
  {s with hosts := s.hosts.map (fun h => if h.id = row.id then row else h)}

def Store.locationsOf (s : Store ids) (hostID : String) : List LocationRow := s.locations.filter (fun r => r.hostID = hostID)

/- The loop of replaceLocations from the i-th location on. -/
def createLocations (hostID : String) : Nat → List LocationBody → Store ids → Except UpdateError Unit × Store ids
  | _, [], s => (.ok (),s)
  | i, lb :: rest, s =>
    if fails (.create i) then (.error (.failed (.create i)),s)
    else createLocations hostID (i+1) rest (s.create m orm (locationOf m hostID i lb))

def replaceLocations (hostID : String) (locs : List LocationBody) (s : Store ids) : Except UpdateError Unit × Store ids :=
  if fails .delete then (.error (.failed .delete),s)
  else createLocations m orm fails hostID 0 locs (s.deleteLocations hostID)

def UpdateAPI (id : String) (body : HostBody) (s : Store ids) : Except UpdateError Unit × Store ids :=
  if fails .find then (.error (.failed .find),s)
  else
    match s.hosts.find? (fun h => h.id = id) with
    | none => (.error .notFound,s)
    | some row =>
      if fails .bind then (.error (.failed .bind),s)
      else
        match applyHostBody m parse row body false with
        | .error e => (.error (.body e),s)
        | .ok row =>
          if fails .save then (.error (.failed .save),s)
          else
            let s := s.save (Normalize m parse row)
            match body.locations with
            | none => (.ok (),s)
            | some locs => replaceLocations m orm fails row.id locs s

/- What an administrator reads of a location. -/
def LocationRow.content (r : LocationRow) : LocationRow := {r with id := ""}

/- A failed request leaves the locations of the host, and one that is answered stores those it gave. -/
def Atomic (id : String) (body : HostBody) (before : Store ids) (answer : Except UpdateError Unit × Store ids) : Prop :=
  match answer.1, body.locations with
  | .ok _, some locs => (answer.2.locationsOf id).map LocationRow.content = locs.mapIdx (locationOf m id)
  | _, _ => answer.2.locationsOf id = before.locationsOf id

instance (id : String) (body : HostBody) (before : Store ids) (answer : Except UpdateError Unit × Store ids) :
    Decidable (Atomic m id body before answer) := by
  unfold Atomic
  split <;> infer_instance

/- The step at which the loop stops. -/
def firstFailing : Nat → List LocationBody → Option Nat
  | _, [] => none
  | i, _ :: rest => if fails (.create i) then some i else firstFailing (i+1) rest

/- The request comes as far as the loop. -/
def Deletes (id : String) (body : HostBody) (s : Store ids) : Prop :=
  (∀ p ∈ [Point.find,.bind,.save,.delete], fails p = false) ∧
    ∃ row applied, s.hosts.find? (fun h => h.id = id) = some row ∧ applyHostBody m parse row body false = .ok applied

/- No location is written over one that was deleted, and none is switched off. -/
def Spared (id : String) (s : Store ids) (locs : List LocationBody) : Prop :=
  match firstFailing fails 0 locs with
  | none => ∀ lb ∈ locs, lb.enabled ≠ some false
  | some 0 => s.locationsOf id = []
  | some _ => False

theorem normalizedPrefixTrimmed (p : String) : trimSpace (normalizedPrefix p) = normalizedPrefix p := by
  unfold normalizedPrefix
  dsimp only
  split
  · decide
  · rename_i filled
    split
    · exact trimSpaceTwice p
    · have solid := trimSpaceSolid p
      refine trimSpaceEnds ⟨?_,?_⟩
      · intro c here
        rw [String.toList_append] at here
        cases here
        decide
      · intro c here
        have some : (trimSpace p).toList ≠ [] := fun none => filled (String.toList_eq_nil_iff.mp none)
        rw [String.toList_append,List.getLast?_append_of_ne_nil _ some] at here
        exact solid.2 c here

theorem normalizedPrefixTwice (p : String) : normalizedPrefix (normalizedPrefix p) = normalizedPrefix p := by
  have rooted := normalizedRooted p
  have trimmed := normalizedPrefixTrimmed p
  generalize normalizedPrefix p = q at *
  unfold normalizedPrefix
  rw [trimmed]
  dsimp only
  rw [if_pos rooted,if_neg]
  rintro rfl
  cases rooted

theorem normalizedLocationTwice (loc : LocationRow) :
    normalizedLocation m (normalizedLocation m loc) = normalizedLocation m loc := by
  unfold normalizedLocation
  dsimp only
  rw [normalizedPrefixTwice,trimSpaceTwice,typeStays m (typeKnown m loc.upstreamType)]
  rfl

theorem normalizedWithId (loc : LocationRow) (id : String) :
    normalizedLocation m {loc with id := id} = {normalizedLocation m loc with id := id} := by
  simp only [normalizedLocation]

theorem typeFilled (loc : LocationRow) : (normalizedLocation m loc).upstreamType ≠ "" := by
  simp only [normalizedLocation]
  rcases typeKnown m loc.upstreamType with path | url
  · rw [path]
    decide
  · rw [url]
    decide

/- Of a row with a type, the defaults change the flag only. -/
theorem defaultsContent {r : LocationRow} (kind : r.upstreamType ≠ "") (id : String) :
    (orm.stored {r with id := id}).content = {r with id := "", enabled := true} := by
  have type : orDefault "" upstreamURL r.upstreamType = r.upstreamType := if_neg kind
  have off : ∀ b, orDefault false false b = b := by decide
  have on : ∀ b, orDefault false true b = true := by decide
  have order : orDefault 0 0 r.orderNr = r.orderNr := by
    unfold orDefault
    split
    · rename_i zero
      exact zero.symm
    · rfl
  rw [orm.defaults]
  simp only [LocationRow.content,type,off,on,order]

/- What the hooks and the defaults make of a location of a body. -/
theorem createdContent (s : Store ids) (hostID : String) (i : Nat) (lb : LocationBody) :
    (createdRow m orm s (locationOf m hostID i lb)).content = {locationOf m hostID i lb with enabled := true} := by
  have plain : (locationOf m hostID i lb).id = "" := by simp only [locationOf,normalizedLocation]
  have twice : normalizedLocation m (locationOf m hostID i lb) = locationOf m hostID i lb := normalizedLocationTwice m _
  have kind : (locationOf m hostID i lb).upstreamType ≠ "" := typeFilled m _
  unfold createdRow
  rw [normalizedWithId,twice,twice]
  generalize locationOf m hostID i lb = loc at *
  rw [defaultsContent orm kind,← plain]

theorem createdHost (s : Store ids) (loc : LocationRow) : (createdRow m orm s loc).hostID = loc.hostID := by
  unfold createdRow
  rw [orm.defaults]
  simp only [normalizedLocation]

theorem firstFailingFrom {i k : Nat} {locs : List LocationBody} (stops : firstFailing fails i locs = some k) : i ≤ k := by
  induction locs generalizing i with
  | nil => cases stops
  | cons lb rest ih =>
    unfold firstFailing at stops
    split at stops
    · cases stops
      rfl
    · exact Nat.le_of_succ_le (ih stops)

/- The rows that the loop has written when it ends. -/
theorem createdRows (hostID : String) (locs : List LocationBody) :
    ∀ i (s : Store ids), ∃ rows, (createLocations m orm fails hostID i locs s).2.locations = s.locations ++ rows ∧
      (∀ r ∈ rows, r.hostID = hostID ∧ ∃ n, s.drawn ≤ n ∧ r.id = ids.id n) ∧
      match firstFailing fails i locs with
      | none =>
        (createLocations m orm fails hostID i locs s).1 = .ok () ∧
          rows.map LocationRow.content = locs.mapIdx (fun k lb => {locationOf m hostID (i+k) lb with enabled := true})
      | some k => (createLocations m orm fails hostID i locs s).1 = .error (.failed (.create k)) ∧ rows.length = k - i := by
  induction locs with
  | nil => exact fun i s => ⟨[],(List.append_nil _).symm,by simp,rfl,rfl⟩
  | cons lb rest ih =>
    intro i s
    unfold createLocations firstFailing
    split
    · exact ⟨[],(List.append_nil _).symm,by simp,rfl,(Nat.sub_self i).symm⟩
    · obtain ⟨rows,written,own,outcome⟩ := ih (i+1) (s.create m orm (locationOf m hostID i lb))
      have row : (locationOf m hostID i lb).hostID = hostID := by simp only [locationOf,normalizedLocation]
      refine ⟨createdRow m orm s (locationOf m hostID i lb) :: rows,?_,?_,?_⟩
      · rw [written]
        exact List.append_assoc _ _ _
      · intro r inside
        rcases List.mem_cons.mp inside with rfl | later
        · exact ⟨(createdHost m orm s _).trans row,s.drawn,le_refl _,createdId m orm s _⟩
        · obtain ⟨here,n,above,drawn⟩ := own r later
          exact ⟨here,n,Nat.le_of_succ_le above,drawn⟩
      · cases stops : firstFailing fails (i+1) rest with
        | none =>
          rw [stops] at outcome
          refine ⟨outcome.1,?_⟩
          rw [List.map_cons,createdContent,outcome.2,List.mapIdx_cons]
          simp only [Nat.add_zero,Nat.add_assoc,Nat.add_comm 1]
        | some k =>
          rw [stops] at outcome
          have above := firstFailingFrom fails stops
          refine ⟨outcome.1,?_⟩
          rw [List.length_cons,outcome.2]
          omega

theorem mapsSame {hostID : String} {locs : List LocationBody} :
    locs.mapIdx (fun k lb => {locationOf m hostID (0+k) lb with enabled := true}) = locs.mapIdx (locationOf m hostID) ↔
      ∀ lb ∈ locs, lb.enabled ≠ some false := by
  have one : ∀ k lb, ({locationOf m hostID (0+k) lb with enabled := true} : LocationRow) = locationOf m hostID k lb ↔
      lb.enabled ≠ some false := by
    intro k lb
    rw [Nat.zero_add]
    constructor
    · intro same off
      have on := congrArg LocationRow.enabled same
      simp [locationOf,normalizedLocation,off] at on
    · intro on
      have shown : lb.enabled.getD true = true := by
        rcases given : lb.enabled with _ | _ | _
        · rfl
        · exact absurd given on
        · rfl
      simp only [locationOf,normalizedLocation,shown]
  rw [List.mapIdx_eq_mapIdx_iff]
  constructor
  · intro same lb inside
    obtain ⟨k,below,rfl⟩ := List.getElem_of_mem inside
    exact (one k _).mp (same k below)
  · intro on k below
    exact (one k _).mpr (on _ (List.getElem_mem below))

/- The rows of the host are the ones that were written. -/
theorem replacedOf {hostID : String} {s : Store ids} {rows : List LocationRow} (own : ∀ r ∈ rows, r.hostID = hostID) :
    ((s.deleteLocations hostID).locations ++ rows).filter (fun r => r.hostID = hostID) = rows := by
  have gone : (s.deleteLocations hostID).locations.filter (fun r => decide (r.hostID = hostID)) = [] := by
    rw [List.filter_eq_nil_iff]
    intro r inside here
    have other := (List.mem_filter.mp inside).2
    simp only [decide_eq_true_eq] at here other
    exact other here
  rw [List.filter_append,gone,List.nil_append,List.filter_eq_self]
  intro r inside
  exact decide_eq_true (own r inside)

/- A loop that runs keeps the promise exactly when it spares the locations. -/
theorem loopAtomic {id : String} {body : HostBody} {locs : List LocationBody} (listed : body.locations = some locs) (s t : Store ids)
    (drawn : t.drawn = s.drawn) :
    Atomic m id body s (createLocations m orm fails id 0 locs (t.deleteLocations id)) ↔ Spared fails id s locs := by
  obtain ⟨rows,written,own,outcome⟩ := createdRows m orm fails id locs 0 (t.deleteLocations id)
  have held : (createLocations m orm fails id 0 locs (t.deleteLocations id)).2.locationsOf id = rows := by
    unfold Store.locationsOf
    rw [written]
    exact replacedOf (fun r inside => (own r inside).1)
  unfold Atomic Spared
  rw [listed,held]
  cases stops : firstFailing fails 0 locs with
  | none =>
    rw [stops] at outcome
    rw [outcome.1]
    dsimp only
    rw [outcome.2]
    exact mapsSame m
  | some k =>
    rw [stops] at outcome
    rw [outcome.1]
    dsimp only
    cases k with
    | zero =>
      rw [List.eq_nil_of_length_eq_zero outcome.2]
      exact eq_comm
    | succ k =>
      -- the first row that was written again has an id that no row had
      refine iff_of_false ?_ (fun no => no)
      intro back
      obtain ⟨r,inside⟩ := List.exists_mem_of_length_pos (show 0 < rows.length by omega)
      obtain ⟨_,n,above,named⟩ := own r inside
      rw [back] at inside
      refine s.unused r (List.mem_of_mem_filter inside) n ?_ named
      rw [← drawn]
      exact above

theorem appliedId {row applied : ProxyHost} {body : HostBody} (done : applyHostBody m parse row body false = .ok applied) :
    applied.id = row.id := by
  have kept : (Normalize m parse (bodyFilled row body false)).id = row.id := by
    obtain ⟨scheme,host,port,target,_,settled⟩ := settleFrame m parse (cleanedScheme m (bodyFilled row body false))
    unfold Normalize
    rw [settled]
    simp only [cleaned,bodyFilled]
  unfold applyHostBody at done
  rw [if_neg (by rintro ⟨no,_⟩; cases no)] at done
  dsimp only at done
  split at done
  · cases done
  · rw [← Except.ok.inj done]
    exact kept

/- A request that ends before the loop keeps what was there. -/
theorem stoppedAtomic {id : String} {body : HostBody} {s : Store ids} {answer : Except UpdateError Unit × Store ids}
    (kept : answer.2.locations = s.locations) (early : (∃ e, answer.1 = .error e) ∨ body.locations = none) :
    Atomic m id body s answer := by
  have same : answer.2.locationsOf id = s.locationsOf id := by
    unfold Store.locationsOf
    rw [kept]
  unfold Atomic
  split
  · rename_i ended listed
    rcases early with ⟨e,stopped⟩ | left
    · rw [ended] at stopped
      cases stopped
    · rw [listed] at left
      cases left
  · exact same

/- An update is atomic exactly when it stops before the deletion, leaves the list out, or spares the locations. -/
theorem updateAtomicIff (id : String) (body : HostBody) (s : Store ids) :
    Atomic m id body s (UpdateAPI m parse orm fails id body s) ↔
      ∀ locs, body.locations = some locs → Deletes m parse fails id body s → Spared fails id s locs := by
  have fine : ∀ p ∈ [Point.find,.bind,.save,.delete], ¬ (fails p = false) →
      ∀ locs, body.locations = some locs → Deletes m parse fails id body s → Spared fails id s locs :=
    fun p inside stops _ _ deletes => absurd (deletes.1 p inside) stops
  unfold UpdateAPI
  by_cases find : fails .find = true
  · rw [if_pos find]
    exact iff_of_true (stoppedAtomic m rfl (.inl ⟨_,rfl⟩)) (fine .find (by simp) (by simp [find]))
  rw [if_neg find]
  cases found : s.hosts.find? (fun h => h.id = id) with
  | none =>
    refine iff_of_true (stoppedAtomic m rfl (.inl ⟨_,rfl⟩)) ?_
    rintro locs _ ⟨_,row,_,other,_⟩
    rw [found] at other
    cases other
  | some row =>
    have named : row.id = id := by simpa using List.find?_some found
    dsimp only
    by_cases bind : fails .bind = true
    · rw [if_pos bind]
      exact iff_of_true (stoppedAtomic m rfl (.inl ⟨_,rfl⟩)) (fine .bind (by simp) (by simp [bind]))
    rw [if_neg bind]
    cases done : applyHostBody m parse row body false with
    | error e =>
      refine iff_of_true (stoppedAtomic m rfl (.inl ⟨_,rfl⟩)) ?_
      rintro locs _ ⟨_,other,applied,here,accepted⟩
      rw [found] at here
      cases here
      rw [done] at accepted
      cases accepted
    | ok applied =>
      have same : applied.id = id := (appliedId m parse done).trans named
      dsimp only
      by_cases save : fails .save = true
      · rw [if_pos save]
        exact iff_of_true (stoppedAtomic m rfl (.inl ⟨_,rfl⟩)) (fine .save (by simp) (by simp [save]))
      rw [if_neg save]
      cases listed : body.locations with
      | none => exact iff_of_true (stoppedAtomic m rfl (.inr listed)) (by rintro locs other; cases other)
      | some locs =>
        dsimp only
        unfold replaceLocations
        by_cases delete : fails .delete = true
        · rw [if_pos delete,← listed]
          exact iff_of_true (stoppedAtomic m rfl (.inl ⟨_,rfl⟩)) (fine .delete (by simp) (by simp [delete]))
        rw [if_neg delete,same,loopAtomic m orm fails listed s (s.save (Normalize m parse applied)) rfl]
        have deletes : Deletes m parse fails id body s := by
          refine ⟨?_,row,applied,found,done⟩
          simp only [List.mem_cons,List.not_mem_nil,or_false,forall_eq_or_imp,forall_eq]
          simp only [Bool.not_eq_true] at find bind save delete
          exact ⟨find,bind,save,delete⟩
        constructor
        · intro spared other here _
          cases here
          exact spared
        · exact fun spared => spared locs rfl deletes

def defaultsOrm : Orm :=
  ⟨fun r =>
    {r with
      upstreamType := orDefault "" upstreamURL r.upstreamType
      stripPrefix := orDefault false false r.stripPrefix
      websocket := orDefault false false r.websocket
      orderNr := orDefault 0 0 r.orderNr
      enabled := orDefault false true r.enabled},fun _ => rfl⟩

theorem countedDistinct : Function.Injective (fun n => String.ofList (List.replicate n 'a')) := by
  intro a b same
  simpa using congrArg (fun s => s.toList.length) same

def countedIds : Ids := ⟨_,countedDistinct⟩

def oneHost : Store countedIds := ⟨[{id := "h", forwardHost := "app"}],[],0,fun _ inside => absurd inside List.not_mem_nil⟩

def oneLocation : Store countedIds :=
  oneHost.create asciiLower defaultsOrm (locationOf asciiLower "h" 0 {pathPrefix := "/api"})

/- A location that is switched off is stored as one that is on; and a second one that cannot be written leaves
the first alone behind. -/
set_option maxRecDepth 4000 in
theorem switchedOn :
    (¬ ∀ id body (s : Store countedIds),
      Atomic asciiLower id body s (UpdateAPI asciiLower (fun _ => none) defaultsOrm (fun _ => false) id body s)) ∧
    ¬ ∀ id body (s : Store countedIds),
      Atomic asciiLower id body s
        (UpdateAPI asciiLower (fun _ => none) defaultsOrm (fun p => p = .create 1) id body s) := by
  constructor
  · intro all
    have same := all "h" {locations := some [{enabled := some false}]} oneHost
    revert same
    decide
  · intro all
    have same := all "h" {locations := some [{},{}]} oneLocation
    revert same
    decide

end ContainerWS.Proxy.Rows
