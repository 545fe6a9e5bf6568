import ContainerWS.Environments.BootSync

/-! The cursors of the change log and of the Redis revision. They are read after
the rows, so a change that commits in between is acknowledged without having been
applied; without one they say that the rows applied are the current ones. -/
namespace ContainerWS.Environments
open GoStrings SoftDelete Interleaving

variable {m : UpperMap} (p : Setting m)

/- The next poll sees no change, by the revision or by the change log. -/
def Covered (s : Managed) : Prop :=
  s.maxID ≤ s.lastWatcherEventID ∨ p.redis = true ∧ s.revision = s.lastRedisRevision

instance (s : Managed) : Decidable (Covered p s) := inferInstanceAs (Decidable (_ ∨ _))

/- No row change has committed since the rows were loaded. -/
def Recent (s : Managed) (loaded : Loaded) : Prop := loaded.version = s.version

instance (s : Managed) (loaded : Loaded) : Decidable (Recent s loaded) :=
  inferInstanceAs (Decidable (loaded.version = s.version))

/- Nor have others been applied. -/
def Held (s : Managed) (loaded : Loaded) : Prop :=
  Recent s loaded ∧ s.lastFingerprint = fingerprint p.hash.digest loaded.rows

instance (s : Managed) (loaded : Loaded) : Decidable (Held p s loaded) := inferInstanceAs (Decidable (_ ∧ _))

/- Stale rows are not applied once the cursors cover all changes, and a cursor is
moved up to the last change only while the rows loaded before are still held. -/
def Serial (c : Process) (k : Choice) : Task → Prop
  | .reloadApply loaded _ => Covered p c.shared → Recent c.shared loaded
  | .pollApply _ loaded => Covered p c.shared → Recent c.shared loaded
  | .initApply loaded => Covered p c.shared → Recent c.shared loaded
  | .raise loaded message => Covered p (c.shared.raise message) → Held p c.shared loaded
  | .cursorEvents loaded => k.fails = false → Held p c.shared loaded
  | .initEvents loaded => k.fails = false → Held p c.shared loaded
  | .cursorRevision loaded => p.redis = true ∧ k.fails = false → Held p c.shared loaded
  | .initRevision loaded => p.redis = true ∧ k.fails = false → Held p c.shared loaded
  | .initStore loaded => c.shared.lastFingerprint = fingerprint p.hash.digest loaded.rows
  | _ => True

instance (c : Process) (k : Choice) (t : Task) : Decidable (Serial p c k t) := by
  apply @Task.casesOn (fun t => Decidable (Serial p c k t)) t <;> intros <;> dsimp only [Serial] <;> infer_instance

def Current (s : Managed) (rows : List OsEnvironment) : Prop :=
  fingerprint p.hash.digest rows = fingerprint p.hash.digest (s.load p).rows

/- The rows applied are the current ones, or none have been applied yet and the
next poll is a full audit. -/
def UpToDate (s : Managed) : Prop :=
  match s.applied with
  | none => s.lastFullAudit = false
  | some rows => Current p s rows

def Task.message : Task → Option SyncQueueMessage
  | .publish own eventID revision => some ⟨own,eventID,revision⟩
  | .reload message => message
  | .reloadApply _ message => message
  | .raise _ message => some message
  | _ => none

def Known (s : Managed) (message : SyncQueueMessage) : Prop :=
  message.eventID ≤ s.maxID ∧ message.revision ≤ s.revision

/- What a task knows of the database. -/
structure Informed (s : Managed) (t : Task) : Prop where
  loaded : ∀ l, t.loaded = some l → l.version ≤ s.version ∧ (l.version = s.version → l.rows = (s.load p).rows)
  message : ∀ message, t.message = some message → Known s message
  bumped : ∀ own revision, t = .event own revision → revision ≤ s.revision

structure Bounded (s : Managed) : Prop where
  events : s.lastWatcherEventID ≤ s.maxID
  revision : s.lastRedisRevision ≤ s.revision
  inbox : ∀ message ∈ s.inbox, Known s message

/- The database only grows. -/
structure Later (s s' : Managed) : Prop where
  version : s.version ≤ s'.version
  table : s.version = s'.version → s.table = s'.table
  maxID : s.maxID ≤ s'.maxID
  revision : s.revision ≤ s'.revision

variable {p}

theorem effectLater {k : Choice} {s s' : Managed} {t : Task} (effect : Effect p k s t s') : Later s s' := by
  cases effect with
  | commit here =>
    refine ⟨Nat.le_succ _,fun same => absurd same (Nat.ne_of_lt (Nat.lt_succ_self _)),Nat.le_succ _,?_⟩
    dsimp only
    split
    · exact Nat.le_succ _
    · exact Nat.le_refl _
  | bump => exact ⟨Nat.le_refl _,fun _ => rfl,Nat.le_refl _,Nat.le_succ _⟩
  | event => exact ⟨Nat.le_refl _,fun _ => rfl,Nat.le_succ _,Nat.le_refl _⟩
  | _ => exact ⟨Nat.le_refl _,fun _ => rfl,Nat.le_refl _,Nat.le_refl _⟩

theorem knownLater {s s' : Managed} {message : SyncQueueMessage} (later : Later s s') (known : Known s message) :
    Known s' message := ⟨Nat.le_trans known.1 later.maxID,Nat.le_trans known.2 later.revision⟩

theorem informedLater {s s' : Managed} {t : Task} (later : Later s s') (informed : Informed p s t) :
    Informed p s' t := by
  refine ⟨?_,fun message here => knownLater later (informed.message message here),?_⟩
  · intro l here
    obtain ⟨below,rows⟩ := informed.loaded l here
    have grows := later.version
    refine ⟨Nat.le_trans below grows,?_⟩
    intro same
    have still : s.version = s'.version := by omega
    rw [rows (by omega),Managed.load,Managed.load,later.table still]
  · exact fun own revision here => Nat.le_trans (informed.bumped own revision here) later.revision

theorem boundedEffect {k : Choice} {s s' : Managed} {t : Task} (effect : Effect p k s t s') (informed : Informed p s t)
    (bounded : Bounded s) : Bounded s' := by
  have later := effectLater effect
  obtain ⟨events,revision,inbox⟩ := bounded
  have kept : ∀ message ∈ s.inbox, Known s' message := fun message mem => knownLater later (inbox message mem)
  cases effect with
  | commit here => exact ⟨Nat.le_trans events later.maxID,Nat.le_trans revision later.revision,kept⟩
  | bump => exact ⟨events,Nat.le_trans revision later.revision,kept⟩
  | event => exact ⟨Nat.le_trans events later.maxID,revision,kept⟩
  | publish here =>
    refine ⟨events,revision,?_⟩
    intro message mem
    rcases List.mem_append.mp mem with old | fresh
    · exact kept message old
    · rw [List.mem_singleton.mp fresh]
      exact knownLater later (informed.message _ (by rw [here]; rfl))
  | raise here =>
    have known := informed.message _ (by rw [here]; rfl)
    exact ⟨Nat.max_le.mpr ⟨events,known.1⟩,Nat.max_le.mpr ⟨revision,known.2⟩,kept⟩
  | events reads answers => exact ⟨Nat.le_refl _,revision,kept⟩
  | revision reads answers => exact ⟨events,Nat.le_refl _,kept⟩
  | _ => exact ⟨events,revision,kept⟩

/- Rows just loaded are those of the present version. -/
theorem loadInformed (s : Managed) : (s.load p).version ≤ s.version ∧
    ((s.load p).version = s.version → (s.load p).rows = (s.load p).rows) := ⟨Nat.le_refl _,fun _ => rfl⟩

theorem informedLoad {s : Managed} {t : Task} (loaded : t.loaded = some (s.load p)) (message : t.message = none)
    (quiet : ∀ own revision, t ≠ .event own revision) : Informed p s t := by
  refine ⟨?_,by simp [message],fun own revision here => absurd here (quiet own revision)⟩
  intro l here
  rw [loaded] at here
  cases here
  exact loadInformed s

/- A task keeps the rows it has loaded. -/
theorem informedKeep {s : Managed} {t t' : Task} (informed : Informed p s t) (loaded : t'.loaded = t.loaded)
    (message : t'.message = none) (quiet : ∀ own revision, t' ≠ .event own revision) : Informed p s t' :=
  ⟨by rw [loaded]; exact informed.loaded,by simp [message],fun own revision here => absurd here (quiet own revision)⟩

theorem informedFree {s : Managed} {t : Task} (loaded : t.loaded = none) (message : t.message = none)
    (quiet : ∀ own revision, t ≠ .event own revision) : Informed p s t :=
  ⟨by simp [loaded],by simp [message],fun own revision here => absurd here (quiet own revision)⟩

theorem informedNext {k : Choice} {s s' : Managed} {t t' : Task} {new : List Task}
    (stepped : t.next p k s = some (s',t',new)) (informed : Informed p s t) (bounded : Bounded s) :
    Informed p s' t' := by
  have later := effectLater (Task.effects stepped).1
  cases t with
  | bump own =>
    simp only [Task.next] at stepped
    split at stepped <;> cases stepped
    · exact ⟨(by intros; contradiction),(by intros; contradiction),fun own revision here => by cases here; exact Nat.zero_le _⟩
    · exact ⟨(by intros; contradiction),(by intros; contradiction),fun own revision here => by cases here; exact Nat.le_refl _⟩
  | event own revision =>
    have below := informed.bumped own revision rfl
    simp only [Task.next] at stepped
    split at stepped <;> cases stepped
    · exact informedFree rfl rfl (by rintro _ _ ⟨⟩)
    · refine ⟨(by intros; contradiction),?_,(by intros; contradiction)⟩
      intro message here
      cases here
      exact ⟨Nat.le_refl _,below⟩
  | publish own eventID revision =>
    simp only [Task.next] at stepped
    split at stepped <;> cases stepped <;> cases own <;> exact informedFree rfl rfl (by rintro _ _ ⟨⟩)
  | receive =>
    simp only [Task.next] at stepped
    split at stepped <;> cases stepped
    rename_i message found
    have known := bounded.inbox message (List.mem_of_getElem? found)
    split
    · exact informedFree rfl rfl (by rintro _ _ ⟨⟩)
    · refine ⟨(by intros; contradiction),?_,(by intros; contradiction)⟩
      intro other here
      cases here
      exact known
  | reload message =>
    simp only [Task.next] at stepped
    split at stepped <;> cases stepped
    · exact informedFree rfl rfl (by rintro _ _ ⟨⟩)
    · refine ⟨?_,informed.message,(by intros; contradiction)⟩
      intro l here
      cases here
      exact loadInformed s
  | reloadApply loaded message =>
    have told := informedLater later informed
    cases stepped
    cases message with
    | none => exact informedFree rfl rfl (by rintro _ _ ⟨⟩)
    | some message => exact ⟨told.loaded,told.message,(by intros; contradiction)⟩
  | pollLoad full lastFingerprint =>
    simp only [Task.next] at stepped
    split at stepped
    · cases stepped
      exact informedFree rfl rfl (by rintro _ _ ⟨⟩)
    · split at stepped
      · cases stepped
        cases full <;> exact informedLoad rfl rfl (by rintro _ _ ⟨⟩)
      · cases stepped
        exact informedLoad rfl rfl (by rintro _ _ ⟨⟩)
  | pollApply full loaded =>
    have told := informedLater later informed
    cases stepped
    cases full <;> exact informedKeep told rfl rfl (by rintro _ _ ⟨⟩)
  | audited loaded =>
    have told := informedLater later informed
    cases stepped
    exact informedKeep told rfl rfl (by rintro _ _ ⟨⟩)
  | cursorEvents loaded =>
    have told := informedLater later informed
    simp only [Task.next] at stepped
    split at stepped <;> cases stepped <;> exact informedKeep told rfl rfl (by rintro _ _ ⟨⟩)
  | initStore loaded =>
    have told := informedLater later informed
    cases stepped
    exact informedKeep told rfl rfl (by rintro _ _ ⟨⟩)
  | initEvents loaded =>
    have told := informedLater later informed
    simp only [Task.next] at stepped
    split at stepped <;> cases stepped <;> exact informedKeep told rfl rfl (by rintro _ _ ⟨⟩)
  | init =>
    simp only [Task.next] at stepped
    split at stepped <;> cases stepped
    · exact informedFree rfl rfl (by rintro _ _ ⟨⟩)
    · exact informedLoad rfl rfl (by rintro _ _ ⟨⟩)
  | initState =>
    simp only [Task.next] at stepped
    split at stepped <;> cases stepped
    · exact informedFree rfl rfl (by rintro _ _ ⟨⟩)
    · exact informedLoad rfl rfl (by rintro _ _ ⟨⟩)
  | pollRead changed =>
    simp only [Task.next] at stepped
    split at stepped
    · cases stepped
      exact informedFree rfl rfl (by rintro _ _ ⟨⟩)
    · split at stepped <;> cases stepped <;> exact informedFree rfl rfl (by rintro _ _ ⟨⟩)
  | done => contradiction
  | _ =>
    simp only [Task.next,stay] at stepped
    first
      | cases stepped
        exact informedFree rfl rfl (by rintro _ _ ⟨⟩)
      | split at stepped <;> cases stepped <;> exact informedFree rfl rfl (by rintro _ _ ⟨⟩)

/- A task that still holds the rows it loaded finds them applied. -/
theorem heldUpToDate {s : Managed} {loaded : Loaded} (held : Held p s loaded) (matched : Matches p s)
    (rows : loaded.version = s.version → loaded.rows = (s.load p).rows) : UpToDate p s := by
  obtain ⟨recent,stored⟩ := held
  have applied := matchesApplied matched (stored ▸ fingerprintFilled _)
  unfold Matches at matched
  unfold UpToDate
  split
  · rename_i none
    exact absurd none applied
  · rename_i last here
    simp only [here] at matched
    rw [Current,← matched,stored,rows recent]

structure Caught (p : Setting m) (c : Process) : Prop where
  faithful : Faithful p c
  bounded : Bounded c.shared
  informed : ∀ t ∈ c.pool, Informed p c.shared t
  covered : Covered p c.shared → UpToDate p c.shared

theorem serialRechecks {c : Process} {k : Choice} {t : Task} (serial : Serial p c k t) : Rechecks p c t := by
  cases t with
  | initStore loaded => exact serial
  | _ => trivial

theorem serialApplies {c : Process} {k : Choice} {t : Task} {loaded : Loaded} (serial : Serial p c k t)
    (applies : t.applies = true) (carried : t.loaded = some loaded) (covered : Covered p c.shared) :
    Recent c.shared loaded := by
  cases t with
  | reloadApply own message =>
    cases carried
    exact serial covered
  | pollApply full own =>
    cases carried
    exact serial covered
  | initApply own =>
    cases carried
    exact serial covered
  | _ => contradiction

theorem serialEvents {c : Process} {k : Choice} {t : Task} (serial : Serial p c k t) (reads : t.readsEvents = true)
    (answers : k.fails = false) : ∃ loaded, t.loaded = some loaded ∧ Held p c.shared loaded := by
  cases t with
  | cursorEvents loaded => exact ⟨loaded,rfl,serial answers⟩
  | initEvents loaded => exact ⟨loaded,rfl,serial answers⟩
  | _ => contradiction

theorem serialRevision {c : Process} {k : Choice} {t : Task} (serial : Serial p c k t) (reads : t.readsRevision = true)
    (answers : p.redis = true ∧ k.fails = false) : ∃ loaded, t.loaded = some loaded ∧ Held p c.shared loaded := by
  cases t with
  | cursorRevision loaded => exact ⟨loaded,rfl,serial answers⟩
  | initRevision loaded => exact ⟨loaded,rfl,serial answers⟩
  | _ => contradiction

/- What happens in the database uncovers the change or leaves the table alone. -/
theorem coveredEffect {k : Choice} {c : Process} {s' : Managed} {t : Task} (effect : Effect p k c.shared t s')
    (serial : Serial p c k t) (matched : Matches p c.shared) (told : Told c.shared t)
    (informed : Informed p c.shared t) (bounded : Bounded c.shared)
    (before : Covered p c.shared → UpToDate p c.shared) (covered : Covered p s') : UpToDate p s' := by
  obtain ⟨events,revision,_⟩ := bounded
  -- Rows that the task still holds are the ones applied.
  have holds {loaded : Loaded} (carried : t.loaded = some loaded) (held : Held p c.shared loaded) :
      UpToDate p c.shared := heldUpToDate held matched (informed.loaded loaded carried).2
  unfold Covered at covered
  cases effect with
  | quiet => exact before covered
  | commit here =>
    rcases covered with seen | ⟨redis,seen⟩
    · dsimp only at seen
      omega
    · dsimp only at seen
      rw [if_pos redis] at seen
      omega
  | bump =>
    rcases covered with seen | ⟨redis,seen⟩
    · exact before (.inl seen)
    · dsimp only at seen
      omega
  | event =>
    rcases covered with seen | seen
    · dsimp only at seen
      omega
    · exact before (.inr seen)
  | publish here => exact before covered
  | @sync loaded applies carried =>
    have recent := serialApplies serial applies carried covered
    have rows := (informed.loaded loaded carried).2 recent
    unfold UpToDate Current
    rw [show (c.shared.sync p loaded.rows).applied = some loaded.rows from rfl]
    exact congrArg (fingerprint p.hash.digest) rows
  | @raise loaded message here =>
    subst here
    exact holds rfl (serial covered)
  | audit settled =>
    have applied := told.settled settled
    have current := before covered
    unfold UpToDate at current ⊢
    cases here : c.shared.applied with
    | none => exact absurd here applied
    | some rows =>
      rw [here] at current
      exact current
  | events reads answers =>
    obtain ⟨loaded,carried,held⟩ := serialEvents serial reads answers
    exact holds carried held
  | revision reads answers =>
    obtain ⟨loaded,carried,held⟩ := serialRevision serial reads answers
    exact holds carried held
  | store here => exact before covered

theorem caughtStep {c d : Process} {e : Event Request Choice} (caught : Caught p c)
    (serial : Permitted (Serial p) c e) (ran : exec (watcher p) c e = some d) : Caught p d := by
  obtain ⟨faithful,bounded,informed,covered⟩ := caught
  cases execMoved ran with
  | call r =>
    refine ⟨(faithfulPreserved p).call c r faithful,bounded,?_,covered⟩
    intro t mem
    rcases List.mem_append.mp mem with old | fresh
    · exact informed t old
    · rw [List.mem_singleton.mp fresh]
      cases r <;> exact informedFree rfl rfl (by rintro _ _ ⟨⟩)
  | @step i k t s' t' new found stepped =>
    have guard := serial t found
    have mine := informed t (List.mem_of_getElem? found)
    have told := faithful.told t (List.mem_of_getElem? found)
    obtain ⟨effect,none⟩ := Task.effects stepped
    have later := effectLater effect
    refine ⟨?_,boundedEffect effect mine bounded,?_,coveredEffect effect guard faithful.matched told mine bounded covered⟩
    · exact (faithfulPreserved p).step c i t k s' t' new faithful found (serialRechecks guard) stepped
    · subst none
      exact everyStep (fun u mem => informedLater later (informed u mem)) (informedNext stepped mine bounded) (by simp)

theorem caughtNew (table : OsEnvironments) (maxID revision : Nat) (env : Environ) :
    Caught p (newManager table maxID revision env) := by
  refine ⟨faithfulNew table maxID revision env,⟨Nat.zero_le _,Nat.zero_le _,by simp [newManager]⟩,?_,fun _ => rfl⟩
  intro t mem
  rw [List.mem_singleton.mp mem]
  exact informedFree rfl rfl (by rintro _ _ ⟨⟩)

/- Cursors that cover every change say that what the process has is what the
table holds. -/
theorem noLostUpdate (p : Setting m) (table : OsEnvironments) (maxID revision : Nat) (env : Environ)
    {events : List (Event Request Choice)} {c : Process}
    (serial : Guided (watcher p) (Permitted (Serial p)) (newManager table maxID revision env) events)
    (ran : run (watcher p) (newManager table maxID revision env) events = some c)
    (covered : Covered p c.shared) :
    UpToDate p c.shared ∧ (Function.Injective p.hash.digest → ∀ rows, c.shared.applied = some rows →
      content rows = content (loadFromDB p.config c.shared.table)) := by
  have caught := runGuided caughtStep (caughtNew table maxID revision env) serial ran
  have current := caught.covered covered
  refine ⟨current,?_⟩
  intro injective rows applied
  unfold UpToDate at current
  rw [applied] at current
  exact injective current

/- The row after one more change. -/
def changed (value : String) : OsEnvironments :=
  reach oneRow [(Call.update (some 0) ⟨none,some value,none,none,none,none⟩ : Call asciiUpper)]

/- A change, and the poll that brings it. -/
def changePolled : List (Event Request Choice) :=
  bootSync ++ ([.call (.write (changed "2")),.step 1 {},.call .tick] : Events) ++
    (List.replicate 8 (.step 2 {}) : Events)

theorem noLostUpdatePolled :
    ∃ c, run (watcher plainSetting) (newManager oneRow 1 0 noEnviron) changePolled = some c ∧
      c.shared.lastWatcherEventID = 2 ∧ UpToDate plainSetting c.shared := by
  obtain ⟨c,ran,held⟩ := (Option.any_eq_true _ _).mp
    (by decide +kernel : (run (watcher plainSetting) (newManager oneRow 1 0 noEnviron) changePolled).any
      (fun c => decide (c.shared.lastWatcherEventID = 2) && decide (Covered plainSetting c.shared)) = true)
  simp only [Bool.and_eq_true,decide_eq_true_eq] at held
  have current := noLostUpdate plainSetting oneRow 1 0 noEnviron (by decide +kernel) ran held.2
  exact ⟨c,ran,held.1,current.1⟩

/- A second change commits between the load of that poll and its cursor. -/
def changeLost : List (Event Request Choice) :=
  bootSync ++ ([.call (.write (changed "2")),.step 1 {},.call .tick] : Events) ++
    (List.replicate 5 (.step 2 {}) : Events) ++ ([.call (.write (changed "3")),.step 3 {}] : Events) ++
    (List.replicate 3 (.step 2 {}) : Events)

theorem updateLost :
    ∃ c, run (watcher plainSetting) (newManager oneRow 1 0 noEnviron) changeLost = some c ∧
      Covered plainSetting c.shared ∧ c.shared.lastFullAudit = true ∧
      (c.shared.applied.map content) = some [⟨"FOO","2",false⟩] ∧
      content (loadFromDB plainSetting.config c.shared.table) = [⟨"FOO","3",false⟩] := by
  obtain ⟨c,ran,held⟩ := (Option.any_eq_true _ _).mp
    (by decide +kernel : (run (watcher plainSetting) (newManager oneRow 1 0 noEnviron) changeLost).any
      (fun c => decide (Covered plainSetting c.shared) && c.shared.lastFullAudit &&
        decide ((c.shared.applied.map content) = some [⟨"FOO","2",false⟩]) &&
        decide (content (loadFromDB plainSetting.config c.shared.table) = [⟨"FOO","3",false⟩])) = true)
  simp only [Bool.and_eq_true,decide_eq_true_eq] at held
  obtain ⟨⟨⟨covered,audited⟩,applied⟩,stored⟩ := held
  exact ⟨c,ran,covered,audited,applied,stored⟩

end ContainerWS.Environments
