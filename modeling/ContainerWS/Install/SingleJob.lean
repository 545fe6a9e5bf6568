import Mathlib.Data.List.Nodup
import ContainerWS.System

/-! One running job per software. StreamInstallAPI, runQueuedInstall and
runQueuedUninstall ask activeJobForSoftware in one critical section and call
registerJob in a later one; in between they stand in a window. The registry is
sound when no two goroutines share the window of one software. -/
namespace ContainerWS.Install
open Interleaving GoStrings

/- The registry on its own: identifiers are distinct, and the index of a
software points at its running job, which the map still holds. -/
structure Sound (drawn : Nat) (jobs : Jobs) : Prop where
  distinct : (jobs.heap.map (·.id)).Nodup
  drawn : ∀ j ∈ jobs.heap, j.id < drawn
  undone : ∀ j ∈ jobs.heap, j.status = .running → j.done = false
  kept : ∀ j ∈ jobs.heap, j.status = .running → j.id ∈ jobs.byID
  indexed : ∀ j ∈ jobs.heap, j.status = .running → jobs.bySoftware j.softwareID = some j.id

theorem findDistinct {heap : List InstallJob} (distinct : (heap.map (·.id)).Nodup) {j : InstallJob}
    (mem : j ∈ heap) : heap.find? (fun other => other.id == j.id) = some j := by
  induction heap with
  | nil => contradiction
  | cons head tail ih =>
    rw [List.map_cons,List.nodup_cons] at distinct
    rcases List.mem_cons.mp mem with rfl | inside
    · simp
    · have other : head.id ≠ j.id := by
        intro same
        exact distinct.1 (same ▸ List.mem_map_of_mem inside)
      rw [List.find?_cons_of_neg (by simpa using other)]
      exact ih distinct.2 inside

theorem soundAt {drawn : Nat} {jobs : Jobs} (sound : Sound drawn jobs) {j : InstallJob}
    (mem : j ∈ jobs.heap) : jobs.at j.id = some j := findDistinct sound.distinct mem

theorem soundSame {drawn : Nat} {jobs : Jobs} (sound : Sound drawn jobs) {a b : InstallJob}
    (left : a ∈ jobs.heap) (right : b ∈ jobs.heap) (same : a.id = b.id) : a = b := by
  have first := soundAt sound left
  rw [same,soundAt sound right] at first
  exact (Option.some.inj first).symm

theorem soundGrow {drawn later : Nat} {jobs : Jobs} (sound : Sound drawn jobs) (more : drawn ≤ later) :
    Sound later jobs :=
  ⟨sound.distinct,fun j mem => Nat.lt_of_lt_of_le (sound.drawn j mem) more,sound.undone,sound.kept,
    sound.indexed⟩

theorem soundModify {drawn : Nat} {jobs : Jobs} (id : UUID) {f : InstallJob → InstallJob}
    (same : ∀ j, (f j).id = j.id) (stays : ∀ j, (f j).status = .running → f j = j)
    (sound : Sound drawn jobs) : Sound drawn (jobs.modify id f) ∧
      ∀ j ∈ (jobs.modify id f).heap, j.status = .running → j ∈ jobs.heap := by
  have old : ∀ j ∈ (jobs.modify id f).heap, j.status = .running → j ∈ jobs.heap := by
    intro j mem running
    obtain ⟨before,inside,rfl⟩ := memModify mem
    split at running
    · rw [if_pos (by assumption),stays before running]
      exact inside
    · rw [if_neg (by assumption)]
      exact inside
  refine ⟨⟨?_,?_,?_,?_,?_⟩,old⟩
  · have ids : (jobs.modify id f).heap.map (·.id) = jobs.heap.map (·.id) := by
      simp only [Jobs.modify,List.map_map]
      apply List.map_congr_left
      intro j mem
      simp only [Function.comp_apply]
      split <;> simp [same]
    rw [ids]
    exact sound.distinct
  · intro j mem
    obtain ⟨before,inside,rfl⟩ := memModify mem
    have bound := sound.drawn before inside
    split
    · rw [same]
      exact bound
    · exact bound
  · intro j mem running
    exact sound.undone j (old j mem running) running
  · intro j mem running
    exact sound.kept j (old j mem running) running
  · intro j mem running
    exact sound.indexed j (old j mem running) running

theorem finishRecordStays (status : Terminal) (message : String) (j : InstallJob)
    (running : (finishRecord status message j).status = .running) : finishRecord status message j = j :=
  absurd running (terminalNotRunning status)

theorem dismissRecordStays (j : InstallJob) (running : (dismissRecord j).status = .running) :
    dismissRecord j = j := by
  unfold dismissRecord at running ⊢
  split
  · rfl
  · rename_i stopped
    simp [stopped] at running

theorem soundDismiss {drawn : Nat} {jobs : Jobs} (id : UUID) (sound : Sound drawn jobs) :
    Sound drawn (dismissJob jobs id) ∧
      ∀ j ∈ (dismissJob jobs id).heap, j.status = .running → j ∈ jobs.heap := by
  unfold dismissJob
  split
  · exact soundModify id dismissRecordID dismissRecordStays sound
  · exact ⟨sound,fun _ mem _ => mem⟩

theorem soundDismissAll {drawn : Nat} {jobs : Jobs} (ids : List UUID) (sound : Sound drawn jobs) :
    Sound drawn (dismissJobs jobs ids) ∧
      ∀ j ∈ (dismissJobs jobs ids).heap, j.status = .running → j ∈ jobs.heap := by
  induction ids generalizing jobs with
  | nil => exact ⟨sound,fun _ mem _ => mem⟩
  | cons id ids ih =>
    obtain ⟨first,old⟩ := soundDismiss id sound
    obtain ⟨rest,older⟩ := ih first
    exact ⟨rest,fun j mem running => old j (older j mem running) running⟩

theorem soundPrune {drawn : Nat} {jobs : Jobs} (id : UUID) (sound : Sound drawn jobs) :
    Sound drawn (pruneJob jobs id) ∧
      ∀ j ∈ (pruneJob jobs id).heap, j.status = .running → j ∈ jobs.heap := by
  unfold pruneJob
  split
  · exact ⟨sound,fun _ mem _ => mem⟩
  · rename_i j found
    split
    · rename_i finished
      refine ⟨⟨sound.distinct,sound.drawn,sound.undone,?_,sound.indexed⟩,fun _ mem _ => mem⟩
      intro other mem running
      refine List.mem_filter.mpr ⟨sound.kept other mem running,?_⟩
      simp only [bne_iff_ne]
      intro same
      obtain ⟨inside,here⟩ := jobAtMem found
      cases soundSame sound mem inside (same.trans here.symm)
      rw [sound.undone j mem running] at finished
      contradiction
    · exact ⟨sound,fun _ mem _ => mem⟩

theorem soundRegister {drawn : Nat} {jobs : Jobs} {softwareID : String} (p : Prepared)
    (free : ∀ j ∈ jobs.heap, j.status = .running → j.softwareID ≠ softwareID)
    (sound : Sound drawn jobs) : Sound (drawn+1) (registerJob jobs (newJob drawn softwareID p)) := by
  refine ⟨?_,?_,?_,?_,?_⟩
  · simp only [registerJob,List.map_append,List.map_cons,List.map_nil]
    rw [List.nodup_append]
    refine ⟨sound.distinct,by simp,?_⟩
    intro id old id' last same
    obtain ⟨j,mem,rfl⟩ := List.mem_map.mp old
    rw [List.mem_singleton.mp last] at same
    have bound := sound.drawn j mem
    rw [same] at bound
    exact Nat.lt_irrefl _ bound
  · intro j mem
    rcases List.mem_append.mp mem with old | last
    · exact Nat.lt_succ_of_lt (sound.drawn j old)
    · rw [List.mem_singleton.mp last]
      exact Nat.lt_succ_self _
  · intro j mem running
    rcases List.mem_append.mp mem with old | last
    · exact sound.undone j old running
    · rw [List.mem_singleton.mp last]
      rfl
  · intro j mem running
    rcases List.mem_append.mp mem with old | last
    · exact List.mem_append_left _ (sound.kept j old running)
    · rw [List.mem_singleton.mp last]
      exact List.mem_append_right _ (List.mem_singleton.mpr rfl)
  · intro j mem running
    rcases List.mem_append.mp mem with old | last
    · have other : j.softwareID ≠ (newJob drawn softwareID p).softwareID := free j old running
      simp only [registerJob]
      rw [Function.update_of_ne other]
      exact sound.indexed j old running
    · rw [List.mem_singleton.mp last]
      simp [registerJob]

/- The software whose activeJobForSoftware is about to be asked. -/
def checking : Goroutine → Option String
  | .worker (.check it) => some it.softwareID
  | .stream (.check softwareID) => some softwareID
  | _ => none

/- From the answer of getLatestJobForSoftware to registerJob: the software, and
the job whose status is still to be read. -/
def window : Goroutine → Option (String × Option UUID)
  | .worker (.checkJob it job) => some (it.softwareID,some job)
  | .worker (.prepare it) => some (it.softwareID,none)
  | .worker (.register it _) => some (it.softwareID,none)
  | .stream (.checkJob softwareID job) => some (softwareID,some job)
  | .stream (.prepare softwareID) => some (softwareID,none)
  | .stream (.register softwareID _) => some (softwareID,none)
  | _ => none

def inWindow (softwareID : String) (t : Goroutine) : Nat :=
  if (window t).map Prod.fst = some softwareID then 1 else 0

/- What a goroutine in the window knows. -/
def Clear (jobs : Jobs) (w : String × Option UUID) : Prop :=
  ∀ j ∈ jobs.heap, j.status = .running → j.softwareID = w.1 → some j.id = w.2

structure Single (c : Process) : Prop where
  sound : Sound c.shared.drawn c.shared.jobs
  alone : ∀ softwareID, load (inWindow softwareID) c.pool ≤ 1
  clear : ∀ t ∈ c.pool, ∀ w, window t = some w → Clear c.shared.jobs w

/- Nobody else is between the question and registerJob for this software. -/
def AloneAtCheck (c : Process) (t : Goroutine) : Prop :=
  ∀ u ∈ c.pool, ∀ softwareID ∈ checking t, (window u).map Prod.fst ≠ some softwareID

instance (c : Process) (t : Goroutine) : Decidable (AloneAtCheck c t) := by
  unfold AloneAtCheck
  infer_instance

theorem clearLatest {drawn : Nat} {jobs : Jobs} (sound : Sound drawn jobs) (softwareID : String) :
    Clear jobs (softwareID,(getLatestJobForSoftware jobs softwareID).map (·.id)) := by
  intro j mem running same
  have indexed := sound.indexed j mem running
  dsimp only at same ⊢
  rw [same] at indexed
  simp [getLatestJobForSoftware,indexed,getJob,sound.kept j mem running,soundAt sound mem]

theorem clearStopped {drawn : Nat} {jobs : Jobs} {softwareID : String} {job : UUID}
    (sound : Sound drawn jobs) (clear : Clear jobs (softwareID,some job))
    (stopped : jobs.runningAt job = false) : Clear jobs (softwareID,none) := by
  intro j mem running same
  have here := Option.some.inj (clear j mem running same)
  rw [← here,Jobs.runningAt,soundAt sound mem] at stopped
  simp [running] at stopped

/- What a step does to the window of its goroutine and to the registry. -/
inductive WindowStep (s s' : Shared) (t g : Goroutine) : Prop where
  | enter {softwareID job} (asks : checking t = some softwareID) (there : window g = some (softwareID,job))
      (clear : Clear s.jobs (softwareID,job)) (jobs : s'.jobs = s.jobs) (drawn : s'.drawn = s.drawn)
  | inside {softwareID job job'} (here : window t = some (softwareID,job))
      (there : window g = some (softwareID,job')) (clear : Clear s.jobs (softwareID,job'))
      (jobs : s'.jobs = s.jobs) (drawn : s'.drawn = s.drawn)
  | register {softwareID p} (here : window t = some (softwareID,none)) (there : window g = none)
      (jobs : s'.jobs = registerJob s.jobs (newJob s.drawn softwareID p)) (drawn : s'.drawn = s.drawn+1)
  | outside (there : window g = none) (sound : Sound s'.drawn s'.jobs)
      (fewer : ∀ j ∈ s'.jobs.heap, j.status = .running → j ∈ s.jobs.heap)

theorem outsideSame {s s' : Shared} {t g : Goroutine} (sound : Sound s.drawn s.jobs)
    (there : window g = none) (jobs : s'.jobs = s.jobs) (drawn : s.drawn ≤ s'.drawn) :
    WindowStep s s' t g := by
  refine .outside there ?_ ?_
  · rw [jobs]
    exact soundGrow sound drawn
  · rw [jobs]
    exact fun _ mem _ => mem

theorem outsideAfter {s s' : Shared} {t g : Goroutine} {jobs : Jobs} (there : window g = none)
    (after : s'.jobs = jobs) (drawn : s'.drawn = s.drawn)
    (change : Sound s.drawn jobs ∧ ∀ j ∈ jobs.heap, j.status = .running → j ∈ s.jobs.heap) :
    WindowStep s s' t g := by
  rw [← after,← drawn] at change
  exact .outside there change.1 change.2

theorem quietOutside {g : Goroutine} (silent : g.quiet = true) : window g = none := by
  cases g with
  | request r => rfl
  | done => rfl
  | _ => contradiction

theorem requestWindow {m : CaseMap} {s s' : Shared} {r : Request} {g : Goroutine} {new : List Goroutine}
    (sound : Sound s.drawn s.jobs) (step : Request.Step m s r s' g new) :
    WindowStep s s' (.request r) g ∧ ∀ u ∈ new, window u = none := by
  cases step with
  | quiet ids before after =>
    exact ⟨outsideAfter (quietOutside after) rfl rfl (soundDismissAll ids sound),by simp⟩
  | dismissRows ids after =>
    exact ⟨outsideAfter (quietOutside after) rfl rfl (soundDismissAll ids sound),by simp⟩
  | retryFind after => exact ⟨outsideSame sound (quietOutside after) rfl (Nat.le_refl _),by simp⟩
  | switchCancel after => exact ⟨outsideSame sound (quietOutside after) rfl (Nat.le_refl _),by simp⟩
  | switchComplete after => exact ⟨outsideSame sound (quietOutside after) rfl (Nat.le_refl _),by simp⟩
  | spawn => exact ⟨outsideSame sound rfl rfl (Nat.le_refl _),by simp [window]⟩
  | apiItem => exact ⟨outsideSame sound rfl rfl (Nat.le_add_right _ _),by simp⟩
  | actions => exact ⟨outsideSame sound rfl rfl (Nat.le_add_right _ _),by simp⟩
  | missingCandidate at_ todo => exact ⟨outsideSame sound rfl rfl (Nat.le_add_right _ _),by simp⟩
  | brewItems made => exact ⟨outsideSame sound rfl rfl (Nat.le_add_right _ _),by simp⟩
  | retryItem row => exact ⟨outsideSame sound rfl rfl (Nat.le_add_right _ _),by simp⟩
  | _ => exact ⟨outsideSame sound rfl rfl (Nat.le_refl _),by simp⟩

theorem scriptOutside {s s' : Shared} {run : ScriptRun} {point : Option ScriptPoint} {t g : Goroutine}
    (there : window g = none) (sound : Sound s.drawn s.jobs) (step : run.Step s s' point) :
    WindowStep s s' t g := by
  cases step with
  | finish here =>
    exact outsideAfter there rfl rfl
      (soundModify run.job (fun _ => rfl) (finishRecordStays _ _) sound)
  | _ => exact outsideSame sound there rfl (Nat.le_refl _)

theorem dispatchOutside (it : QueueItem) : window (.worker (dispatch it)) = none := by
  unfold dispatch
  split <;> rfl

theorem clearFound {drawn : Nat} {jobs : Jobs} {softwareID : String} {j : InstallJob}
    (sound : Sound drawn jobs) (latest : getLatestJobForSoftware jobs softwareID = some j) :
    Clear jobs (softwareID,some j.id) := by
  have clear := clearLatest sound softwareID
  rw [latest] at clear
  exact clear

theorem clearAbsent {drawn : Nat} {jobs : Jobs} {softwareID : String} (sound : Sound drawn jobs)
    (latest : getLatestJobForSoftware jobs softwareID = none) : Clear jobs (softwareID,none) := by
  have clear := clearLatest sound softwareID
  rw [latest] at clear
  exact clear

theorem workerWindow {s s' : Shared} {w : Worker} {g : Goroutine} {new : List Goroutine}
    (sound : Sound s.drawn s.jobs) (clear : ∀ x, window (.worker w) = some x → Clear s.jobs x)
    (step : Worker.Step s w s' g new) :
    WindowStep s s' (.worker w) g ∧ ∀ u ∈ new, window u = none := by
  cases step with
  | claim claimed => exact ⟨outsideSame sound (dispatchOutside _) rfl (Nat.le_refl _),by simp⟩
  | found latest => exact ⟨.enter rfl rfl (clearFound sound latest) rfl rfl,by simp⟩
  | absent latest => exact ⟨.enter rfl rfl (clearAbsent sound latest) rfl rfl,by simp⟩
  | idle stopped => exact ⟨.inside rfl rfl (clearStopped sound (clear _ rfl) stopped) rfl rfl,by simp⟩
  | prepared => exact ⟨.inside rfl rfl (clear _ rfl) rfl rfl,by simp⟩
  | register => exact ⟨.register rfl rfl rfl rfl,by simp⟩
  | script inner => exact ⟨scriptOutside rfl sound inner,by simp⟩
  | scripted inner => exact ⟨scriptOutside rfl sound inner,by simp [window]⟩
  | _ => exact ⟨outsideSame sound rfl rfl (Nat.le_refl _),by simp⟩

theorem streamWindow {s s' : Shared} {v : Stream} {g : Goroutine} {new : List Goroutine}
    (sound : Sound s.drawn s.jobs) (clear : ∀ x, window (.stream v) = some x → Clear s.jobs x)
    (step : Stream.Step s v s' g new) :
    WindowStep s s' (.stream v) g ∧ ∀ u ∈ new, window u = none := by
  cases step with
  | leave => exact ⟨outsideSame sound rfl rfl (Nat.le_refl _),by simp⟩
  | found latest => exact ⟨.enter rfl rfl (clearFound sound latest) rfl rfl,by simp⟩
  | absent latest => exact ⟨.enter rfl rfl (clearAbsent sound latest) rfl rfl,by simp⟩
  | idle stopped => exact ⟨.inside rfl rfl (clearStopped sound (clear _ rfl) stopped) rfl rfl,by simp⟩
  | prepared => exact ⟨.inside rfl rfl (clear _ rfl) rfl rfl,by simp⟩
  | register => exact ⟨.register rfl rfl rfl rfl,by simp [window]⟩

theorem stepWindow {m : CaseMap} {k : Choice} {s s' : Shared} {t g : Goroutine} {new : List Goroutine}
    (sound : Sound s.drawn s.jobs) (clear : ∀ x, window t = some x → Clear s.jobs x)
    (stepped : next m k s t = some (s',g,new)) : WindowStep s s' t g ∧ ∀ u ∈ new, window u = none := by
  cases t with
  | request r => exact requestWindow sound (Request.steps stepped)
  | worker w => exact workerWindow sound clear (Worker.steps stepped)
  | stream v => exact streamWindow sound clear (Stream.steps stepped)
  | install run =>
    cases installSteps stepped with
    | script inner => exact ⟨scriptOutside rfl sound inner,by simp⟩
    | scripted inner => exact ⟨scriptOutside rfl sound inner,by simp [window]⟩
  | prune job =>
    cases stepped
    exact ⟨outsideAfter rfl rfl rfl (soundPrune job sound),by simp⟩
  | setup v =>
    obtain ⟨_,jobs,_,_,_,drawn,self,others⟩ := setupFrame stepped
    refine ⟨outsideSame sound ?_ jobs drawn,?_⟩
    · rcases self with rfl | ⟨w,rfl⟩ <;> rfl
    · intro u mem
      obtain ⟨w,rfl⟩ := others u mem
      rfl
  | done => contradiction

theorem soundStep {s s' : Shared} {t g : Goroutine} (sound : Sound s.drawn s.jobs)
    (clear : ∀ x, window t = some x → Clear s.jobs x) (step : WindowStep s s' t g) :
    Sound s'.drawn s'.jobs := by
  cases step with
  | enter asks there found jobs drawn =>
    rw [jobs,drawn]
    exact sound
  | inside here there found jobs drawn =>
    rw [jobs,drawn]
    exact sound
  | register here there jobs drawn =>
    rw [jobs,drawn]
    refine soundRegister _ ?_ sound
    intro j mem running same
    have known := clear _ here j mem running same
    contradiction
  | outside there after fewer => exact after

/- What another goroutine in a window knows survives: only a registration for
its own software could spoil it, and that would be a second one in the window. -/
theorem clearStep {s s' : Shared} {t g : Goroutine} {w : String × Option UUID}
    (clear : Clear s.jobs w) (other : (window t).map Prod.fst ≠ some w.1)
    (step : WindowStep s s' t g) : Clear s'.jobs w := by
  cases step with
  | enter asks there found jobs drawn =>
    rw [jobs]
    exact clear
  | inside here there found jobs drawn =>
    rw [jobs]
    exact clear
  | register here there jobs drawn =>
    rw [jobs]
    intro j mem running same
    rcases List.mem_append.mp mem with old | last
    · exact clear j old running same
    · rw [List.mem_singleton.mp last] at same
      rw [here,← same] at other
      exact absurd rfl other
  | outside there after fewer => exact fun j mem running same => clear j (fewer j mem running) running same

theorem clearSelf {s s' : Shared} {t g : Goroutine} {w : String × Option UUID} (there : window g = some w)
    (step : WindowStep s s' t g) : Clear s'.jobs w := by
  cases step with
  | enter asks here found jobs drawn =>
    rw [here] at there
    cases Option.some.inj there
    rw [jobs]
    exact found
  | inside old here found jobs drawn =>
    rw [here] at there
    cases Option.some.inj there
    rw [jobs]
    exact found
  | register old here jobs drawn =>
    rw [here] at there
    contradiction
  | outside here after fewer =>
    rw [here] at there
    contradiction

theorem inWindowStep {s s' : Shared} {t g : Goroutine} (softwareID : String) (step : WindowStep s s' t g) :
    inWindow softwareID g ≤ inWindow softwareID t ∨ checking t = some softwareID := by
  cases step with
  | enter asks here found jobs drawn =>
    rename_i other job
    by_cases same : other = softwareID
    · subst same
      exact .inr asks
    · left
      simp [inWindow,here,same]
  | inside old here found jobs drawn =>
    left
    simp [inWindow,old,here]
  | register old here jobs drawn =>
    left
    simp [inWindow,here]
  | outside here after fewer =>
    left
    simp [inWindow,here]

theorem inWindowNone {softwareID : String} {pool : List Goroutine}
    (alone : ∀ u ∈ pool, (window u).map Prod.fst ≠ some softwareID) : load (inWindow softwareID) pool = 0 :=
  (loadZero _ _).mpr (by
    intro u mem
    simp [inWindow,alone u mem])

theorem inWindowOutside (softwareID : String) {pool : List Goroutine}
    (outside : ∀ u ∈ pool, window u = none) : load (inWindow softwareID) pool = 0 :=
  inWindowNone (by
    intro u mem
    simp [outside u mem])

theorem startedOutside {m : CaseMap} {g : Goroutine} (started : Started m g) : window g = none := by
  cases started with
  | quiet silent => exact quietOutside silent
  | _ => rfl

theorem aloneStep {s s' : Shared} {pool new : List Goroutine} {i : Nat} {t g : Goroutine}
    (single : Single ⟨s,pool⟩) (found : pool[i]? = some t) (alone : AloneAtCheck ⟨s,pool⟩ t)
    (step : WindowStep s s' t g) (outside : ∀ u ∈ new, window u = none) (softwareID : String) :
    load (inWindow softwareID) (pool.set i g ++ new) ≤ 1 := by
  have moved := loadStep (inWindow softwareID) g new found
  have none := inWindowOutside softwareID outside
  have before : load (inWindow softwareID) pool ≤ 1 := single.alone softwareID
  rcases inWindowStep softwareID step with fewer | asks
  · omega
  · have empty : load (inWindow softwareID) pool = 0 :=
      inWindowNone (fun u mem => alone u mem softwareID asks)
    have most : inWindow softwareID g ≤ 1 := by
      unfold inWindow
      split <;> omega
    omega

/- Any other goroutine that keeps its window has it for a different software. -/
theorem clearOthers {s s' : Shared} {pool : List Goroutine} {i j : Nat} {t g u : Goroutine}
    {w : String × Option UUID} (single : Single ⟨s,pool⟩) (found : pool[i]? = some t)
    (other : pool[j]? = some u) (different : i ≠ j) (here : window u = some w)
    (step : WindowStep s s' t g) : Clear s'.jobs w := by
  apply clearStep (single.clear u (List.mem_of_getElem? other) w here) _ step
  intro same
  have two := loadTwo (inWindow w.1) different found other
  have mine : inWindow w.1 t = 1 := by simp [inWindow,same]
  have theirs : inWindow w.1 u = 1 := by simp [inWindow,here]
  have most := single.alone w.1
  dsimp only at most
  omega

theorem singlePreserved (m : CaseMap) : Preserved (host m) AloneAtCheck Single := by
  constructor
  · intro c call single
    have outside : window ((host m).start call) = none := startedOutside (startCases m call)
    refine ⟨single.sound,?_,?_⟩
    · intro softwareID
      have before := single.alone softwareID
      simpa [inWindow,outside] using before
    · intro u mem w here
      rcases List.mem_append.mp mem with old | fresh
      · exact single.clear u old w here
      · rw [List.mem_singleton.mp fresh,outside] at here
        contradiction
  · intro c i t k s' g new single found alone stepped
    have clear := single.clear t (List.mem_of_getElem? found)
    obtain ⟨step,outside⟩ := stepWindow single.sound clear stepped
    refine ⟨soundStep single.sound clear step,aloneStep single found alone step outside,?_⟩
    intro u mem w here
    rcases List.mem_append.mp mem with kept | fresh
    · obtain ⟨j,bound,same⟩ := List.getElem_of_mem kept
      rw [List.getElem_set] at same
      split at same
      · exact clearSelf (same ▸ here) step
      · rename_i different
        have there : c.pool[j]? = some u := by
          rw [← same]
          exact List.getElem?_eq_getElem _
        exact clearOthers single found there different here step
    · rw [outside u fresh] at here
      contradiction

theorem singleBoot (installed : Installed) : Single (boot installed) := by
  refine ⟨⟨?_,?_,?_,?_,?_⟩,?_,?_⟩ <;> simp [boot]

def runningJobs (softwareID : String) (jobs : Jobs) : List InstallJob :=
  jobs.heap.filter (fun j => j.softwareID == softwareID && j.status == .running)

theorem soundSingle {drawn : Nat} {jobs : Jobs} (sound : Sound drawn jobs) (softwareID : String) :
    (runningJobs softwareID jobs).length ≤ 1 := by
  have distinct : (runningJobs softwareID jobs).Nodup := (List.Nodup.of_map _ sound.distinct).filter _
  have same : ∀ a ∈ runningJobs softwareID jobs, ∀ b ∈ runningJobs softwareID jobs, a = b := by
    intro a left b right
    simp only [runningJobs,List.mem_filter,Bool.and_eq_true,beq_iff_eq] at left right
    have first := sound.indexed a left.1 left.2.2
    have second := sound.indexed b right.1 right.2.2
    rw [left.2.1] at first
    rw [right.2.1,first] at second
    exact soundSame sound left.1 right.1 (Option.some.inj second)
  cases h : runningJobs softwareID jobs with
  | nil => exact Nat.zero_le 1
  | cons a rest =>
    cases rest with
    | nil => exact Nat.le_refl 1
    | cons b rest =>
      rw [h] at distinct same
      have equal := same a (by simp) b (by simp)
      simp [equal] at distinct

theorem oneRunningJob (m : CaseMap) (installed : Installed) {events : List (Event Call Choice)}
    {c : Process} (guarded : Along (host m) AloneAtCheck (boot installed) events)
    (ran : run (host m) (boot installed) events = some c) (softwareID : String) :
    (runningJobs softwareID c.shared.jobs).length ≤ 1 := by
  have single := runPreserved (singlePreserved m) (singleBoot installed) guarded ran
  exact soundSingle single.sound softwareID

/- The second request asks after the first one has registered its job. -/
def streamTwice : List (Event Call Choice) :=
  [.call (.streamInstallAPI "a"),.step 0 {},.step 0 {},.step 0 {},.call (.streamInstallAPI "a"),
    .step 2 {},.step 2 {}]

theorem oneRunningJobTwice : ∃ c, run (host ascii) (boot (fun _ => none)) streamTwice = some c ∧
    (runningJobs "a" c.shared.jobs).length ≤ 1 := by
  obtain ⟨c,ran⟩ := Option.isSome_iff_exists.mp
    (by decide : (run (host ascii) (boot (fun _ => none)) streamTwice).isSome = true)
  exact ⟨c,ran,oneRunningJob ascii _ (by decide) ran "a"⟩

/- Both requests ask before either registers. -/
def streamTogether : List (Event Call Choice) :=
  [.call (.streamInstallAPI "a"),.call (.streamInstallAPI "a"),.step 0 {},.step 1 {},.step 0 {},.step 1 {},
    .step 0 {},.step 1 {}]

theorem twoRunningJobs : ∃ c, run (host ascii) (boot (fun _ => none)) streamTogether = some c ∧
    1 < (runningJobs "a" c.shared.jobs).length := by
  have both : (run (host ascii) (boot (fun _ => none)) streamTogether).any
      (fun c => 1 < (runningJobs "a" c.shared.jobs).length) = true := by decide
  obtain ⟨c,ran,two⟩ := (Option.any_eq_true _ _).mp both
  exact ⟨c,ran,by simpa using two⟩

end ContainerWS.Install
