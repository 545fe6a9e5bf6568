import ContainerWS.JobLog.Shape

/-! The row of a job and its two writers. A `persist` first copies the job and
writes the copy later, so the row can go back to an older state of the job. -/
namespace ContainerWS.JobLog
open Install Interleaving GoStrings

/- The part of runSoftwareScript up to the write of its deferred `persist`. -/
def unfiled : Goroutine → Nat
  | .voice (.script _) => 1
  | .sends _ _ (.script _) => 1
  | .snapshot .main => 1
  | .logJSON .main _ => 1
  | .lookup .main _ => 1
  | .store .main _ _ => 1
  | _ => 0

/- A `persist` of the ticker. -/
def ticking : Goroutine → Nat
  | .snapshot .ticker => 1
  | .logJSON .ticker _ => 1
  | .lookup .ticker _ => 1
  | .store .ticker _ _ => 1
  | _ => 0

def isRunning (snap : Snapshot) : Nat := if snap.status = .running then 1 else 0

/- The ticker holds a copy taken while the job was running. -/
def stale : Goroutine → Nat
  | .logJSON .ticker snap => isRunning snap
  | .lookup .ticker row => isRunning row.snap
  | .store .ticker _ row => isRunning row.snap
  | _ => 0

def lands (answer : Lookup) (row : Option Row) : Bool :=
  match answer with
  | .found => true
  | .missing => row.isNone
  | .failed => false

/- At the last write of runSoftwareScript the ticker holds no stale copy, and the
write goes through or the row is beyond "running" already. -/
def LastWrite (c : Process) : Goroutine → Prop
  | .store .main answer _ => load stale c.pool = 0 ∧
      (lands answer c.shared.row = true ∨ ∃ r ∈ c.shared.row, r.snap.status ≠ .running)
  | _ => True

instance (c : Process) (t : Goroutine) : Decidable (LastWrite c t) := by
  unfold LastWrite
  split <;> infer_instance

def Complete (s : Shared) (row : Row) : Prop :=
  s.job.final ≠ none ∧ row = ⟨s.job.snapshot,s.job.lines⟩

/- What a `persist` holds is the finished job, or a stale copy of the ticker. -/
def Holds (s : Shared) : Goroutine → Prop
  | .snapshot .main => s.job.final ≠ none
  | .logJSON p snap => s.job.final ≠ none ∧ snap = s.job.snapshot ∨ p = .ticker ∧ snap.status = .running
  | .lookup p row => Complete s row ∨ p = .ticker ∧ row.snap.status = .running
  | .store p _ row => Complete s row ∨ p = .ticker ∧ row.snap.status = .running
  | _ => True

structure Filing (c : Process) : Prop where
  holds : ∀ t ∈ c.pool, Holds c.shared t
  row : ∀ r, c.shared.row = some r → Complete c.shared r ∨ r.snap.status = .running
  filed : load unfiled c.pool = 0 →
    c.shared.job.final ≠ none ∧ load stale c.pool = 0 ∧ ∃ r, c.shared.row = some r ∧ Complete c.shared r

theorem snapshotRunning {j : Job} (running : j.final = none) : j.snapshot.status = .running := by
  unfold Job.snapshot
  rw [running]

theorem snapshotOver {j : Job} (finished : j.final ≠ none) : j.snapshot.status ≠ .running := by
  unfold Job.snapshot
  cases final : j.final with
  | none => exact absurd final finished
  | some f =>
    cases status : f.status <;> simp [status,Terminal.status]

/- Copies of a running job stay stale whatever becomes of the job. -/
theorem holdsRunning {s s' : Shared} {t : Goroutine} (running : s.job.final = none) (holds : Holds s t) :
    Holds s' t := by
  have never : ∀ {r}, ¬ Complete s r := fun complete => complete.1 running
  cases t with
  | snapshot p =>
    cases p with
    | main => exact absurd running holds
    | ticker => trivial
  | logJSON p snap =>
    rcases holds with ⟨finished,_⟩ | copy
    · exact absurd running finished
    · exact .inr copy
  | lookup p row =>
    rcases holds with complete | copy
    · exact absurd complete never
    · exact .inr copy
  | store p answer row =>
    rcases holds with complete | copy
    · exact absurd complete never
    · exact .inr copy
  | _ => trivial

theorem holdsSame {s s' : Shared} {t : Goroutine} (job : s'.job = s.job) (holds : Holds s t) : Holds s' t := by
  have same : ∀ {r}, Complete s r → Complete s' r := by
    intro r complete
    unfold Complete
    rw [job]
    exact complete
  cases t with
  | snapshot p =>
    cases p with
    | main =>
      show s'.job.final ≠ none
      rw [job]
      exact holds
    | ticker => trivial
  | logJSON p snap =>
    show s'.job.final ≠ none ∧ snap = s'.job.snapshot ∨ _
    rw [job]
    exact holds
  | lookup p row => exact holds.imp_left same
  | store p answer row => exact holds.imp_left same
  | _ => trivial

/- Only a running job changes. -/
theorem jobStep {s s' : Shared} {t g : Goroutine} {new : List Goroutine} (own : Fits s t)
    (step : Step s t s' g new) : s.job.final = none ∨ s'.job = s.job := by
  cases finished : s.job.final with
  | none => exact .inl rfl
  | some f =>
    right
    cases step with
    | append copy => cases fitsOver own finished
    | read copy =>
      rw [fitsReading own] at finished
      contradiction
    | finish copy => cases fitsOver own finished
    | _ => rfl

theorem holdsLater {s s' : Shared} {t u g : Goroutine} {new : List Goroutine} (own : Fits s t)
    (step : Step s t s' g new) (holds : Holds s u) : Holds s' u := by
  rcases jobStep own step with running | job
  · exact holdsRunning running holds
  · exact holdsSame job holds

theorem unfiledMoves {s s' : Shared} {t g : Goroutine} {new : List Goroutine} (step : Step s t s' g new)
    (other : ∀ answer row, t ≠ .store .main answer row) :
    unfiled g + load unfiled new = unfiled t := by
  cases step with
  | read copy =>
    unfold afterRead
    split <;> rfl
  | file files =>
    cases files with
    | tick g next =>
      rcases next with rfl | rfl
      · rfl
      · rfl
    | snapshot p => cases p <;> rfl
    | logJSON p snap => cases p <;> rfl
    | lookup p row fails => cases p <;> rfl
    | store p answer row =>
      cases p with
      | main => exact absurd rfl (other _ _)
      | ticker => rfl
    | _ => rfl
  | @accept ev i rest after => cases after <;> rfl
  | @drop ev i rest after => cases after <;> rfl
  | @sent ev after => cases after <;> rfl
  | _ => rfl

/- A copy of the finished job is not stale. -/
theorem staleMoves {s s' : Shared} {t g : Goroutine} {new : List Goroutine} (finished : s.job.final ≠ none)
    (step : Step s t s' g new) : stale g + load stale new ≤ stale t := by
  cases step with
  | read copy =>
    unfold afterRead
    split <;> exact Nat.le_refl 0
  | file files =>
    cases files with
    | tick g next =>
      rcases next with rfl | rfl
      · exact Nat.le_refl 0
      · exact Nat.le_refl 0
    | finished ended => exact Nat.le_refl 0
    | due running => exact Nat.le_refl 0
    | snapshot p =>
      cases p with
      | main => exact Nat.le_refl 0
      | ticker =>
        have fresh := snapshotOver finished
        simp [stale,isRunning,fresh]
    | logJSON p snap => cases p <;> exact Nat.le_refl _
    | lookup p row fails => cases p <;> exact Nat.le_refl _
    | store p answer row => cases p <;> exact Nat.zero_le _
  | _ => exact Nat.le_refl 0

/- What the stepping goroutine holds afterwards. -/
theorem holdsSelf {s s' : Shared} {t g : Goroutine} {new : List Goroutine} (own : Fits s t)
    (holds : Holds s t) (step : Step s t s' g new) : Holds s' g ∧ ∀ u ∈ new, Holds s' u := by
  cases step with
  | returned =>
    refine ⟨?_,by simp⟩
    cases own with
    | script running alone pending => cases pending
    | closing finished closing =>
      show s.job.final ≠ none
      simp [finished]
    | idle idle => contradiction
  | spawn => exact ⟨trivial,by simp [Holds]⟩
  | close => exact ⟨trivial,by simp [Holds]⟩
  | file files =>
    refine ⟨?_,by simp⟩
    cases files with
    | tick g next =>
      rcases next with rfl | rfl
      · trivial
      · trivial
    | finished finished => trivial
    | due running => trivial
    | snapshot p =>
      cases finished : s.job.final with
      | none =>
        cases p with
        | main => exact absurd finished holds
        | ticker => exact .inr ⟨rfl,snapshotRunning finished⟩
      | some f => exact .inl ⟨by simp [finished],rfl⟩
    | logJSON p snap =>
      rcases holds with ⟨finished,same⟩ | copy
      · exact .inl ⟨finished,by rw [same]⟩
      · exact .inr copy
    | lookup p row fails => exact holds
    | store p answer row => cases p <;> trivial
  | _ => exact ⟨trivial,by simp⟩

theorem storeCases (answer : Lookup) (new : Row) (row : Option Row) :
    store answer new row = some new ∨ store answer new row = row := by
  cases answer with
  | found => exact .inl rfl
  | missing =>
    cases row with
    | none => exact .inl rfl
    | some old => exact .inr rfl
  | failed => exact .inr rfl

theorem storeLands {answer : Lookup} {row : Option Row} (new : Row) (goes : lands answer row = true) :
    store answer new row = some new := by
  cases answer with
  | found => rfl
  | missing =>
    cases row with
    | none => rfl
    | some old => contradiction
  | failed => contradiction

/- A `persist` leaves the row alone or puts in what it holds. -/
theorem rowStep {s s' : Shared} {t g : Goroutine} {new : List Goroutine} (step : Step s t s' g new) :
    s'.row = s.row ∨ ∃ p answer r, t = .store p answer r ∧ s'.row = some r := by
  cases step with
  | file files =>
    cases files with
    | store p answer row =>
      rcases storeCases answer row s.row with lands | same
      · exact .inr ⟨p,answer,row,rfl,lands⟩
      · exact .inl same
    | _ => exact .inl rfl
  | _ => exact .inl rfl

theorem completeLater {s s' : Shared} {t g : Goroutine} {new : List Goroutine} {r : Row} (own : Fits s t)
    (step : Step s t s' g new) (complete : Complete s r) : Complete s' r := by
  rcases jobStep own step with running | job
  · exact absurd running complete.1
  · unfold Complete
    rw [job]
    exact complete

/- The last write of runSoftwareScript leaves the finished job in the row. -/
theorem filedLast {s s' : Shared} {pool new : List Goroutine} {k : Nat} {g : Goroutine} {answer : Lookup}
    {row : Row} (shape : Shape ⟨s,pool⟩) (filing : Filing ⟨s,pool⟩)
    (found : pool[k]? = some (.store .main answer row))
    (guard : LastWrite ⟨s,pool⟩ (.store .main answer row)) (step : Step s (.store .main answer row) s' g new) :
    s'.job.final ≠ none ∧ load stale (pool.set k g ++ new) = 0 ∧ ∃ r, s'.row = some r ∧ Complete s' r := by
  have mem := List.mem_of_getElem? found
  obtain ⟨fresh,goes⟩ := guard
  have complete : Complete s row := by
    rcases filing.holds _ mem with complete | ⟨ticker,_⟩
    · exact complete
    · contradiction
  have moved := loadStep stale g new found
  have hands := staleMoves complete.1 step
  have written : s'.row = store answer row s.row := by
    cases step with
    | file files =>
      cases files
      rfl
  have result : ∃ r, s'.row = some r ∧ Complete s r := by
    rw [written]
    rcases goes with lands | ⟨r,here,past⟩
    · exact ⟨row,storeLands row lands,complete⟩
    · rcases storeCases answer row s.row with new | same
      · exact ⟨row,new,complete⟩
      · rcases filing.row r here with old | running
        · exact ⟨r,same.trans here,old⟩
        · exact absurd running past
  obtain ⟨r,here,old⟩ := result
  have later := completeLater (shape.fits _ mem) step old
  have zero : load stale pool = 0 := fresh
  exact ⟨later.1,by omega,r,here,later⟩

/- Afterwards only current copies of the job are written. -/
theorem filedKept {s s' : Shared} {pool new : List Goroutine} {k : Nat} {t g : Goroutine}
    (shape : Shape ⟨s,pool⟩) (filing : Filing ⟨s,pool⟩) (found : pool[k]? = some t)
    (step : Step s t s' g new) (nobody : load unfiled pool = 0) :
    s'.job.final ≠ none ∧ load stale (pool.set k g ++ new) = 0 ∧ ∃ r, s'.row = some r ∧ Complete s' r := by
  have mem := List.mem_of_getElem? found
  have own : Fits s t := shape.fits t mem
  obtain ⟨finished,fresh,r,here,complete⟩ := filing.filed nobody
  have zero : load stale pool = 0 := fresh
  have ended : s.job.final ≠ none := finished
  have moved := loadStep stale g new found
  have hands := staleMoves ended step
  have later := completeLater own step complete
  refine ⟨later.1,by omega,?_⟩
  rcases rowStep step with same | ⟨p,answer,held,rfl,written⟩
  · exact ⟨r,same.trans here,later⟩
  · have mine := loadMember stale mem
    have current : Complete s held := by
      rcases filing.holds _ mem with current | ⟨rfl,running⟩
      · exact current
      · simp [stale,isRunning,running,zero] at mine
    exact ⟨held,written,completeLater own step current⟩

theorem filingStep {s s' : Shared} {pool new : List Goroutine} {k : Nat} {t g : Goroutine}
    (shape : Shape ⟨s,pool⟩) (filing : Filing ⟨s,pool⟩) (found : pool[k]? = some t)
    (guard : LastWrite ⟨s,pool⟩ t) (step : Step s t s' g new) : Filing ⟨s',pool.set k g ++ new⟩ := by
  have mem := List.mem_of_getElem? found
  have own : Fits s t := shape.fits t mem
  have holds : Holds s t := filing.holds t mem
  obtain ⟨self,started⟩ := holdsSelf own holds step
  constructor
  · exact everyStep (fun u inside => holdsLater own step (filing.holds u inside)) self started
  · intro r here
    rcases rowStep step with same | ⟨p,answer,held,rfl,written⟩
    · exact (filing.row r (same.symm.trans here)).imp_left (completeLater own step)
    · cases Option.some.inj (written.symm.trans here)
      rcases holds with current | ⟨_,running⟩
      · exact .inl (completeLater own step current)
      · exact .inr running
  · intro nobody
    by_cases last : ∃ answer row, t = .store .main answer row
    · obtain ⟨answer,row,rfl⟩ := last
      exact filedLast shape filing found guard step
    · have moved := loadStep unfiled g new found
      have hands := unfiledMoves step (fun answer row here => last ⟨answer,row,here⟩)
      have after : load unfiled (pool.set k g ++ new) = 0 := nobody
      exact filedKept shape filing found step (by omega)

theorem filingPreserved : Preserved system LastWrite (fun c => Shape c ∧ Filing c) := by
  constructor
  · intro c call holds
    have kept : ∀ w : Goroutine → Nat, w .attach = 0 → load w (c.pool ++ [.attach]) = load w c.pool := by
      intro w zero
      simp [zero]
    refine ⟨(shapePreserved LastWrite).call c call holds.1,?_,holds.2.row,?_⟩
    · intro t mem
      rcases List.mem_append.mp mem with old | last
      · exact holds.2.holds t old
      · rw [List.mem_singleton.mp last]
        trivial
    · intro nobody
      obtain ⟨finished,fresh,row⟩ := holds.2.filed ((kept unfiled rfl).symm.trans nobody)
      exact ⟨finished,(kept stale rfl).trans fresh,row⟩
  · intro c k t choice s' g new holds found guard stepped
    have step := nextStep stepped
    exact ⟨shapeStep holds.1 found step,filingStep holds.1 holds.2 found guard step⟩

/- Once runSoftwareScript and each `persist` are over, the row is that of the
finished job. -/
def Filed (c : Process) : Prop :=
  (∀ t ∈ c.pool, unfiled t = 0 ∧ ticking t = 0) →
    ∃ f, c.shared.job.final = some f ∧
      c.shared.row = some ⟨⟨f.status.status,f.message,f.failureReason,f.exitCode⟩,c.shared.job.lines⟩

theorem rowFiled {j : Job} (running : j.final = none) (body : String) {row : Option Row}
    (fresh : ∀ r ∈ row, r.snap.status = .running) {events : List (Event Call Choice)} {c : Process}
    (guarded : Along system LastWrite (launch j body row) events)
    (ran : run system (launch j body row) events = some c) : Filed c := by
  have started : Filing (launch j body row) := by
    constructor
    · intro t mem
      simp only [launch,List.mem_cons,List.not_mem_nil,or_false] at mem
      rcases mem with rfl | rfl
      · trivial
      · trivial
    · exact fun r here => .inr (fresh r here)
    · intro nobody
      have one : load unfiled (launch j body row).pool = 1 := rfl
      omega
  obtain ⟨_,filing⟩ := runPreserved filingPreserved ⟨launchShape running body row,started⟩ guarded ran
  intro quiet
  have nobody : load unfiled c.pool = 0 := (loadZero unfiled c.pool).mpr (fun t mem => (quiet t mem).1)
  obtain ⟨finished,_,r,here,_,same⟩ := filing.filed nobody
  cases final : c.shared.job.final with
  | none => exact absurd final finished
  | some f =>
    refine ⟨f,rfl,?_⟩
    rw [here,same]
    unfold Job.snapshot
    rw [final]

/- The row that prepareInstallJob writes. -/
def preparedRow (j : Job) : Row :=
  ⟨⟨.running,verb j.mode ++ "ing " ++ j.label,"",none⟩,[]⟩

def filedJob : Job := prepared "a1b2c3d4" "demo" "1.0" .install

/- The function from its first operation to its last, without subscribers. -/
def scriptRun : List (Event Call Choice) :=
  (List.replicate 11 (.step 0 {}) : Events) ++ ([.step 2 {eof := true},.step 3 {eof := true}] : Events) ++
    (List.replicate 13 (.step 0 {}) : Events) ++ ([.step 4 {}] : Events)

def finished (c : Process) : Bool := c.pool.all (fun t => unfiled t == 0 && ticking t == 0)

theorem overQuiet {c : Process} (ends : finished c = true) : ∀ t ∈ c.pool, unfiled t = 0 ∧ ticking t = 0 := by
  intro t mem
  have both := List.all_eq_true.mp ends t mem
  simp only [Bool.and_eq_true,beq_iff_eq] at both
  exact both

/- The ticker persists once before the run ends and then finds it done. -/
def tickedRun : List (Event Call Choice) :=
  (List.replicate 6 (.step 1 {}) : Events) ++ scriptRun ++ (List.replicate 2 (.step 1 {}) : Events)

theorem rowFiledTicked : ∃ c f,
    run system (launch filedJob "" (some (preparedRow filedJob))) tickedRun = some c ∧
    c.shared.job.final = some f ∧
    c.shared.row = some ⟨⟨f.status.status,f.message,f.failureReason,f.exitCode⟩,c.shared.job.lines⟩ := by
  obtain ⟨c,ran,ends⟩ := (Option.any_eq_true _ _).mp
    (by decide : (run system (launch filedJob "" (some (preparedRow filedJob))) tickedRun).any finished = true)
  have filed := rowFiled rfl "" (by simp [preparedRow]) (by decide) ran
  obtain ⟨f,final,row⟩ := filed (overQuiet ends)
  exact ⟨c,f,ran,final,row⟩

/- The ticker copies the running job and writes the copy after the run is over. -/
def staleRun : List (Event Call Choice) :=
  (List.replicate 3 (.step 1 {}) : Events) ++ scriptRun ++ (List.replicate 5 (.step 1 {}) : Events)

theorem rowStale : ∃ c, run system (launch filedJob "" (some (preparedRow filedJob))) staleRun = some c ∧
    (∃ r ∈ c.shared.row, r.snap.status = .running) ∧ ¬ Filed c := by
  obtain ⟨c,ran,facts⟩ := (Option.any_eq_true _ _).mp
    (by decide : (run system (launch filedJob "" (some (preparedRow filedJob))) staleRun).any
      (fun c => finished c && c.shared.row.any (fun r => r.snap.status == .running)) = true)
  simp only [Bool.and_eq_true] at facts
  obtain ⟨ends,stale⟩ := facts
  obtain ⟨r,here,running⟩ := (Option.any_eq_true _ _).mp stale
  have status := eq_of_beq running
  refine ⟨c,ran,⟨r,here,status⟩,?_⟩
  intro filed
  obtain ⟨f,_,row⟩ := filed (overQuiet ends)
  cases Option.some.inj (here.symm.trans row)
  cases ended : f.status <;> simp [ended,Terminal.status] at status

end ContainerWS.JobLog
