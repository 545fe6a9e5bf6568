import ContainerWS.Environments.History
import ContainerWS.Environments.Watcher

/-! The stored fingerprint and the rows last applied. applySync writes both at
once; initWatcherState writes the fingerprint of rows that it has only loaded. -/
namespace ContainerWS.Environments
open GoStrings SoftDelete Interleaving

variable {m : UpperMap} (p : Setting m)

def Matches (s : Managed) : Prop :=
  match s.applied with
  | none => s.lastFingerprint = ""
  | some rows => s.lastFingerprint = fingerprint p.hash.digest rows

/- initWatcherState finds the rows as Init has applied them. -/
def Rechecks (c : Process) : Task → Prop
  | .initStore loaded => c.shared.lastFingerprint = fingerprint p.hash.digest loaded.rows
  | _ => True

instance (c : Process) (t : Task) : Decidable (Rechecks p c t) := by
  unfold Rechecks
  split <;> infer_instance

/- The fingerprint a poll will compare its rows with. -/
def Task.previous : Task → Option String
  | .pollLoad _ lastFingerprint => some lastFingerprint
  | _ => none

structure Told (s : Managed) (t : Task) : Prop where
  previous : ∀ f, t.previous = some f → f ≠ "" → s.applied ≠ none
  settled : t.settled = true → s.applied ≠ none

structure Faithful (c : Process) : Prop where
  matched : Matches p c.shared
  due : c.shared.applied = none → c.shared.lastFullAudit = false
  told : ∀ t ∈ c.pool, Told c.shared t

variable {p}

theorem toldFree {s : Managed} {t : Task} (free : t.previous = none ∧ t.settled = false) : Told s t := by
  refine ⟨?_,?_⟩
  · intro f here
    rw [free.1] at here
    contradiction
  · intro here
    rw [free.2] at here
    contradiction

theorem matchesApplied {s : Managed} (matched : Matches p s) (filled : s.lastFingerprint ≠ "") : s.applied ≠ none := by
  intro none
  simp only [Matches,none] at matched
  exact filled matched

theorem fingerprintFilled (rows : List OsEnvironment) : fingerprint p.hash.digest rows ≠ "" := p.hash.nonempty _

theorem effectApplied {k : Choice} {s s' : Managed} {t : Task} (effect : Effect p k s t s')
    (applied : s.applied ≠ none) : s'.applied ≠ none := by
  cases effect with
  | sync applies carried => exact (by rintro ⟨⟩)
  | _ => exact applied

theorem toldKept {k : Choice} {s s' : Managed} {t u : Task} (effect : Effect p k s t s') (told : Told s u) : Told s' u :=
  ⟨fun f here filled => effectApplied effect (told.previous f here filled),
    fun here => effectApplied effect (told.settled here)⟩

theorem matchesEffect {k : Choice} {c : Process} {s' : Managed} {t : Task} (effect : Effect p k c.shared t s')
    (matched : Matches p c.shared) (rechecks : Rechecks p c t) : Matches p s' := by
  cases effect with
  | sync applies carried => exact rfl
  | store here =>
    subst here
    unfold Matches at matched ⊢
    unfold Rechecks at rechecks
    rw [← rechecks]
    exact matched
  | _ => exact matched

theorem dueEffect {k : Choice} {s s' : Managed} {t : Task} (effect : Effect p k s t s') (told : Told s t)
    (due : s.applied = none → s.lastFullAudit = false) : s'.applied = none → s'.lastFullAudit = false := by
  cases effect with
  | sync applies carried => exact (by intros; contradiction)
  | audit settled => exact fun none => absurd none (told.settled settled)
  | _ => exact due

theorem toldNext {k : Choice} {c : Process} {s' : Managed} {t t' : Task} {new : List Task}
    (stepped : t.next p k c.shared = some (s',t',new)) (matched : Matches p c.shared) (told : Told c.shared t)
    (rechecks : Rechecks p c t) : Told s' t' := by
  have free (known : t'.previous = none ∧ t'.settled = false) : Told s' t' := toldFree known
  cases t with
  | pollRead changed =>
    have kept : ∀ full, Told c.shared (.pollLoad full c.shared.lastFingerprint) := by
      intro full
      refine ⟨?_,(by intros; contradiction)⟩
      intro f here filled
      cases here
      exact matchesApplied matched filled
    simp only [Task.next] at stepped
    split at stepped
    · cases stepped
      exact kept false
    · split at stepped <;> cases stepped
      · exact kept true
      · exact free ⟨rfl,rfl⟩
  | pollLoad full f =>
    simp only [Task.next] at stepped
    split at stepped
    · cases stepped
      exact free ⟨rfl,rfl⟩
    · split at stepped
      · rename_i same
        cases stepped
        have filled : f ≠ "" := same ▸ fingerprintFilled _
        refine ⟨?_,fun _ => told.previous f rfl filled⟩
        intro g here
        cases full <;> contradiction
      · cases stepped
        exact free ⟨rfl,rfl⟩
  | pollApply full loaded =>
    cases stepped
    refine ⟨?_,(by rintro _ ⟨⟩)⟩
    intro f here
    cases full <;> contradiction
  | initStore loaded =>
    cases stepped
    have filled : c.shared.lastFingerprint ≠ "" := by
      rw [show c.shared.lastFingerprint = _ from rechecks]
      exact fingerprintFilled _
    have applied := matchesApplied matched filled
    exact ⟨(by intros; contradiction),fun _ => applied⟩
  | initEvents loaded =>
    have applied := told.settled rfl
    simp only [Task.next] at stepped
    split at stepped <;> cases stepped <;> exact ⟨(by intros; contradiction),fun _ => applied⟩
  | initRevision loaded =>
    have applied := told.settled rfl
    simp only [Task.next] at stepped
    split at stepped <;> cases stepped <;> exact ⟨(by intros; contradiction),fun _ => applied⟩
  | publish own eventID revision =>
    simp only [Task.next] at stepped
    split at stepped <;> cases stepped <;> cases own <;> exact free ⟨rfl,rfl⟩
  | receive =>
    simp only [Task.next] at stepped
    split at stepped <;> cases stepped
    refine free ?_
    split <;> exact ⟨rfl,rfl⟩
  | reloadApply loaded message =>
    cases stepped
    cases message <;> exact free ⟨rfl,rfl⟩
  | done => contradiction
  | _ =>
    simp only [Task.next,stay] at stepped
    first
      | cases stepped
        exact free ⟨rfl,rfl⟩
      | split at stepped <;> cases stepped <;> exact free ⟨rfl,rfl⟩

theorem faithfulPreserved (p : Setting m) : Preserved (watcher p) (Rechecks p) (Faithful p) := by
  refine ⟨?_,?_⟩
  · rintro c r ⟨matched,due,told⟩
    refine ⟨matched,due,?_⟩
    intro t mem
    rcases List.mem_append.mp mem with old | fresh
    · exact told t old
    · rw [List.mem_singleton.mp fresh]
      cases r <;> exact toldFree ⟨rfl,rfl⟩
  · rintro c i t k s' t' new ⟨matched,due,told⟩ found rechecks stepped
    obtain ⟨effect,none⟩ := Task.effects stepped
    have mine := told t (List.mem_of_getElem? found)
    refine ⟨matchesEffect effect matched rechecks,dueEffect effect mine due,?_⟩
    subst none
    exact everyStep (fun u mem => toldKept effect (told u mem)) (toldNext stepped matched mine rechecks) (by simp)

theorem faithfulNew (table : OsEnvironments) (maxID revision : Nat) (env : Environ) :
    Faithful p (newManager table maxID revision env) := by
  refine ⟨rfl,fun _ => rfl,?_⟩
  intro t mem
  rw [List.mem_singleton.mp mem]
  exact toldFree ⟨rfl,rfl⟩

/- The stored fingerprint is that of the rows last applied. While none have been
applied a full audit is due, and no poll under way takes its rows for known. -/
theorem fingerprintOfApplied (p : Setting m) (table : OsEnvironments) (maxID revision : Nat) (env : Environ)
    {events : List (Event Request Choice)} {c : Process}
    (guarded : Along (watcher p) (Rechecks p) (newManager table maxID revision env) events)
    (ran : run (watcher p) (newManager table maxID revision env) events = some c) :
    Matches p c.shared ∧
    (c.shared.applied = none → c.shared.lastFullAudit = false ∧
      ∀ full f, Task.pollLoad full f ∈ c.pool → ∀ rows, fingerprint p.hash.digest rows ≠ f) := by
  obtain ⟨matched,due,told⟩ :=
    runPreserved (faithfulPreserved p) (faithfulNew table maxID revision env) guarded ran
  refine ⟨matched,?_⟩
  intro none
  refine ⟨due none,?_⟩
  rintro full f mem rows same
  exact (told _ mem).previous f rfl (same ▸ fingerprintFilled rows) none

def plainHash : Hash := ⟨fun entries => "#" ++ String.join (entries.map (fun e => e.name ++ e.value)),by
  intro entries empty
  simp at empty⟩

def plainSetting : Setting asciiUpper := ⟨unpinned "containerws",plainHash,false⟩

def oneRow : OsEnvironments :=
  reach (empty schema) [Call.create (unpinned (m := asciiUpper) "containerws") (payload "FOO" "1")]

def noEnviron : Environ := fun _ => none

/- Init and initWatcherState as they should go. -/
def bootSync : List (Event Request Choice) := List.replicate 7 (.step 0 {})

theorem fingerprintOfAppliedBoot : ∃ c, run (watcher plainSetting) (newManager oneRow 1 0 noEnviron) bootSync = some c ∧
    c.shared.lastFullAudit = true ∧ Matches plainSetting c.shared := by
  obtain ⟨c,ran,audited⟩ := (Option.any_eq_true _ _).mp
    (by decide : (run (watcher plainSetting) (newManager oneRow 1 0 noEnviron) bootSync).any
      (fun c => c.shared.lastFullAudit) = true)
  have faithful := fingerprintOfApplied plainSetting oneRow 1 0 noEnviron (by decide +kernel) ran
  exact ⟨c,ran,audited,faithful.1⟩

/- The load of Init fails, that of initWatcherState does not; a later audit finds
the fingerprint and skips. -/
def bootFails : List (Event Request Choice) :=
  (.step 0 {fails := true} :: List.replicate 5 (.step 0 {}) : Events) ++ ([.call .tick] : Events) ++
    (List.replicate 3 (.step 1 {}) : Events) ++ (List.replicate 4 (.step 1 {due := true}) : Events)

theorem fingerprintOfUnapplied : ∃ c, run (watcher plainSetting) (newManager oneRow 1 0 noEnviron) bootFails = some c ∧
    c.shared.applied = none ∧ c.shared.lastFullAudit = true ∧
    c.shared.lastFingerprint = fingerprint plainHash.digest (loadFromDB plainSetting.config oneRow) ∧
    ¬Matches plainSetting c.shared := by
  obtain ⟨c,ran,held⟩ := (Option.any_eq_true _ _).mp
    (by decide +kernel : (run (watcher plainSetting) (newManager oneRow 1 0 noEnviron) bootFails).any
      (fun c => c.shared.applied.isNone && c.shared.lastFullAudit && decide (c.shared.lastFingerprint =
        fingerprint plainHash.digest (loadFromDB plainSetting.config oneRow))) = true)
  simp only [Bool.and_eq_true,Option.isNone_iff_eq_none,decide_eq_true_eq] at held
  obtain ⟨⟨none,audited⟩,stored⟩ := held
  refine ⟨c,ran,none,audited,stored,?_⟩
  intro matched
  exact matchesApplied matched (stored ▸ plainHash.nonempty _) none

end ContainerWS.Environments
