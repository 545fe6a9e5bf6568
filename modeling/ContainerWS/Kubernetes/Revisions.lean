import ContainerWS.Kubernetes.Applications
import ContainerWS.Kubernetes.ManifestScopes

/-! What the revisions of an application say, over all overlaps of the requests that write it. A request
saves the row that it has read; the version it writes is new as long as no other one has saved in between. -/
namespace ContainerWS.Kubernetes.Applications
open GoStrings Interleaving Newest Numbered

/- What a revision says of the application. -/
def K8sApplication.shown (a : K8sApplication) : Int × String × String × String := (a.version,a.name,a.namespace_,a.yaml)

def K8sApplicationRevision.shown (r : K8sApplicationRevision) : Int × String × String × String :=
  (r.version,r.name,r.namespace_,r.yaml)

def Store.newer (s : Store) (v : Int) : Nat := Newest.newer K8sApplicationRevision.version s.revisions.rows v

/- The version of the row has a revision. -/
def Recorded (s : Store) : Prop := ∃ r ∈ s.revisions.rows, r.version = s.app.version

instance (s : Store) : Decidable (Recorded s) := inferInstanceAs (Decidable (∃ r ∈ _, _))

def Distinct (s : Store) : Prop := (s.revisions.rows.map K8sApplicationRevision.version).Nodup

instance (s : Store) : Decidable (Distinct s) := inferInstanceAs (Decidable (List.Nodup _))

/- A manifest that a request has answered as saved is in a revision while at most n revisions are newer. -/
def SavedKept (n : Nat) (c : Config Store Call) : Prop :=
  ∀ a, .answered (.saved a) ∈ c.pool → c.shared.newer a.version ≤ n → ∃ r ∈ c.shared.revisions.rows, r.yaml = a.yaml

def Quiet (c : Config Store Call) : Prop := ∀ t ∈ c.pool, ∃ answer, t = .answered answer

/- The revisions as the claimed history of the application, with at most n newer ones. -/
structure Consistent (n : Nat) (c : Config Store Call) : Prop where
  distinct : Distinct c.shared
  kept : SavedKept n c
  current : Quiet c → Recorded c.shared ∧ ∀ r ∈ c.shared.revisions.rows, r.version = c.shared.app.version → r.shown = c.shared.app.shown

/- The row is read when its version has its revision, and saved while it has the version that was read. -/
def Orderly (s : Store) : Call → Prop
  | .asked (.update _) => Recorded s
  | .asked (.restore _) => Recorded s
  | .seeking _ => Recorded s
  | .saving existing _ _ _ => existing.version = s.app.version
  | _ => True

instance (s : Store) (t : Call) : Decidable (Orderly s t) := by
  unfold Orderly
  split <;> infer_instance

/- A row that was read: where the version is still that one, so is the rest. -/
def Holds (s : Store) (e : K8sApplication) : Prop :=
  e.version ≤ s.app.version ∧ (e.version = s.app.version → e.shown = s.app.shown ∧ Recorded s)

def Kept (s : Store) (a : K8sApplication) : Prop :=
  (∃ r ∈ s.revisions.rows, r.shown = a.shown) ∨ maxAppRevisions ≤ s.newer a.version

def Fits (s : Store) : Call → Prop
  | .found e _ => Holds s e
  | .saving e _ _ _ => Holds s e
  | .recording a _ _ => a.shown = s.app.shown ∧ ∀ r ∈ s.revisions.rows, r.version < s.app.version
  | .trimming a => Kept s a
  | .deleting a ids => Kept s a ∧ (∀ n ∈ ids, n < s.revisions.drawn) ∧
      ∀ r ∈ s.revisions.rows, r.id ∈ ids → maxAppRevisions ≤ s.newer r.version
  | .answered (.saved a) => Kept s a
  | _ => True

/- A request that has saved a new version and has yet to record it. -/
def pending : Call → Nat
  | .recording _ _ _ => 1
  | _ => 0

structure Sound (s : Store) (pool : List Call) : Prop where
  trimmed : s.app.Normalize = s.app
  positive : 0 < s.app.version
  distinct : Distinct s
  below : ∀ r ∈ s.revisions.rows, r.version ≤ s.app.version
  right : ∀ r ∈ s.revisions.rows, r.version = s.app.version → r.shown = s.app.shown
  single : load pending pool ≤ 1
  recorded : load pending pool = 0 → Recorded s
  fits : ∀ t ∈ pool, Fits s t

section
variable {a b e next : K8sApplication} {s : Store} {t u : Call}

theorem normalizeTwice (a : K8sApplication) : a.Normalize.Normalize = a.Normalize := by
  simp only [K8sApplication.Normalize,trimSpaceTwice]

theorem normalizeShown (same : a.shown = b.shown) : a.Normalize.shown = b.Normalize.shown := by
  obtain ⟨version,name,namespace_,yaml⟩ : a.version = b.version ∧ a.name = b.name ∧ a.namespace_ = b.namespace_ ∧ a.yaml = b.yaml := by
    simpa [K8sApplication.shown] using same
  simp only [K8sApplication.shown,K8sApplication.Normalize,version,name,namespace_,yaml]

theorem shownVersion (same : a.shown = b.shown) : a.version = b.version := (Prod.mk.inj same).1

theorem revisionShown (n : Nat) (source note : String) (positive : 0 < a.version) :
    (kind.number n (revisionOf a source note)).shown = a.Normalize.shown := by
  simp only [kind,revisionOf,K8sApplicationRevision.BeforeCreate,K8sApplicationRevision.shown,K8sApplication.shown,K8sApplication.Normalize,
    if_neg (Int.not_le.mpr positive)]

/- What is saved: what was read, or a version more. -/
theorem bumpCases (next : K8sApplication) (positive : 0 < e.version) :
    (bumpRevisionIfChanged e next).2 = false ∧ (bumpRevisionIfChanged e next).1.shown = e.shown ∨
    (bumpRevisionIfChanged e next).2 = true ∧ (bumpRevisionIfChanged e next).1.version = e.version + 1 := by
  have notNew : ¬e.version ≤ 0 := Int.not_le.mpr positive
  unfold bumpRevisionIfChanged
  cases changed : (decide (e.yaml ≠ next.yaml) || decide (e.namespace_ ≠ next.namespace_) || decide (e.name ≠ next.name)) with
  | false =>
    left
    obtain ⟨⟨yaml,namespace_⟩,name⟩ : (e.yaml = next.yaml ∧ e.namespace_ = next.namespace_) ∧ e.name = next.name := by
      simpa using changed
    simp [K8sApplication.shown,positive,yaml,namespace_,name]
  | true =>
    right
    simp [notNew]

theorem newerGrows {r : K8sApplicationRevision} {v : Int} :
    s.newer v ≤ Store.newer { s with revisions := s.revisions.insert r } v := by
  show List.countP _ _ ≤ List.countP _ (_ ++ _)
  rw [List.countP_append]
  exact Nat.le_add_right _ _

theorem keptGrows {r : K8sApplicationRevision} (kept : Kept s a) : Kept { s with revisions := s.revisions.insert r } a := by
  rcases kept with ⟨q,mem,same⟩ | many
  · exact .inl ⟨q,memInsert.mpr (.inl mem),same⟩
  · exact .inr (many.trans newerGrows)

/- The row is saved over with the same version. -/
theorem fitsSame (same : a.shown = s.app.shown) (fits : Fits s t) : Fits { s with app := a } t := by
  have version := shownVersion same
  have holds : ∀ {e}, Holds s e → Holds { s with app := a } e := by
    rintro e ⟨least,right⟩
    refine ⟨version ▸ least,?_⟩
    intro here
    obtain ⟨shown,r,mem,is⟩ := right (here.trans version)
    exact ⟨shown.trans same.symm,r,mem,is.trans version.symm⟩
  cases t with
  | found | saving => exact holds fits
  | recording =>
    obtain ⟨shown,all⟩ := fits
    refine ⟨shown.trans same.symm,?_⟩
    intro r mem
    exact version ▸ all r mem
  | asked | seeking | trimming | deleting => exact fits
  | answered answer => cases answer <;> exact fits

/- The row is saved over with a new version. -/
theorem fitsBumped (new : a.version = s.app.version + 1) (fits : Fits s t) (other : pending t = 0) : Fits { s with app := a } t := by
  have holds : ∀ {e}, Holds s e → Holds { s with app := a } e := by
    rintro e ⟨least,_⟩
    have less : e.version < a.version := by omega
    exact ⟨Int.le_of_lt less,fun here => absurd here (Int.ne_of_lt less)⟩
  cases t with
  | found | saving => exact holds fits
  | recording => cases other
  | asked | seeking | trimming | deleting => exact fits
  | answered answer => cases answer <;> exact fits

theorem fitsInserted {r : K8sApplicationRevision} (fits : Fits s t) (other : pending t = 0) :
    Fits { s with revisions := s.revisions.insert r } t := by
  have holds : ∀ {e}, Holds s e → Holds { s with revisions := s.revisions.insert r } e := by
    rintro e ⟨least,right⟩
    refine ⟨least,?_⟩
    intro here
    obtain ⟨shown,q,mem,is⟩ := right here
    exact ⟨shown,q,memInsert.mpr (.inl mem),is⟩
  cases t with
  | found | saving => exact holds fits
  | recording => cases other
  | trimming => exact keptGrows fits
  | deleting app ids =>
    obtain ⟨kept,drawn,old⟩ := fits
    refine ⟨keptGrows kept,fun n mem => Nat.lt_succ_of_lt (drawn n mem),?_⟩
    intro q mem gone
    rcases memInsert.mp mem with before | rfl
    · exact (old q before gone).trans newerGrows
    · exact absurd (drawn _ gone) (Nat.lt_irrefl _)
  | answered answer =>
    cases answer with
    | saved => exact keptGrows fits
    | refused | applied | another => trivial
  | asked | seeking => trivial

section
variable {ids : List Nat} (old : ∀ r ∈ s.revisions.rows, r.id ∈ ids → maxAppRevisions ≤ s.newer r.version)
include old

theorem newerRemoved {v : Int} (many : maxAppRevisions ≤ s.newer v) :
    maxAppRevisions ≤ Store.newer { s with revisions := s.revisions.remove ids } v := by
  refine newerKept (fun r => ids.contains r.id) ?_ many
  intro r mem gone
  exact old r mem (List.contains_iff_mem.mp gone)

theorem keptRemoved (kept : Kept s a) : Kept { s with revisions := s.revisions.remove ids } a := by
  rcases kept with ⟨r,mem,same⟩ | many
  · by_cases gone : r.id ∈ ids
    · refine .inr (newerRemoved old ?_)
      have version : r.version = a.version := (Prod.mk.inj same).1
      exact version ▸ old r mem gone
    · exact .inl ⟨r,List.mem_filter.mpr ⟨mem,by simpa [kind] using gone⟩,same⟩
  · exact .inr (newerRemoved old many)

/- The revision of the newest version stays. -/
theorem recordedRemoved (below : ∀ r ∈ s.revisions.rows, r.version ≤ s.app.version) (recorded : Recorded s) :
    Recorded { s with revisions := s.revisions.remove ids } := by
  obtain ⟨r,mem,is⟩ := recorded
  refine ⟨r,List.mem_filter.mpr ⟨mem,?_⟩,is⟩
  have none : s.newer r.version = 0 := by
    refine List.countP_eq_zero.mpr ?_
    intro q there
    have least := below q there
    simp only [decide_eq_true_eq]
    omega
  by_contra gone
  have many := old r mem (by simpa [kind] using gone)
  rw [none] at many
  cases many

theorem fitsRemoved (below : ∀ r ∈ s.revisions.rows, r.version ≤ s.app.version) (fits : Fits s t) :
    Fits { s with revisions := s.revisions.remove ids } t := by
  have holds : ∀ {e}, Holds s e → Holds { s with revisions := s.revisions.remove ids } e := by
    rintro e ⟨least,right⟩
    exact ⟨least,fun here => ⟨(right here).1,recordedRemoved old below (right here).2⟩⟩
  cases t with
  | found | saving => exact holds fits
  | recording =>
    obtain ⟨shown,all⟩ := fits
    exact ⟨shown,fun r mem => all r (List.mem_of_mem_filter mem)⟩
  | trimming => exact keptRemoved old fits
  | deleting app others =>
    obtain ⟨kept,drawn,stale⟩ := fits
    exact ⟨keptRemoved old kept,drawn,fun r mem gone => newerRemoved old (stale r (List.mem_of_mem_filter mem) gone)⟩
  | answered answer =>
    cases answer with
    | saved => exact keptRemoved old fits
    | refused | applied | another => trivial
  | asked | seeking => trivial

end
end

section
variable {ν : Type} {codec : Yaml ν} {k : Choice ν} {s s' : Store} {t t' : Call} {pool : List Call} {i : Nat}

/- A row that is read now. -/
theorem holdsRead (recorded : Recorded s) : Holds s s.app := ⟨Int.le_refl _,fun _ => ⟨rfl,recorded⟩⟩

theorem updateLooks {body : Option SaveBody} (recorded : Recorded s) (moved : UpdateAPI codec body s k = some (s',t')) :
    s' = s ∧ pending t' = 0 ∧ Fits s t' := by
  unfold UpdateAPI refuse at moved
  split at moved
  · cases Option.some.inj moved
    exact ⟨rfl,rfl,trivial⟩
  · split at moved
    · cases Option.some.inj moved
      exact ⟨rfl,rfl,trivial⟩
    · split at moved
      · cases Option.some.inj moved
        exact ⟨rfl,rfl,trivial⟩
      · cases Option.some.inj moved
        exact ⟨rfl,rfl,holdsRead recorded⟩
  · cases moved

theorem applyLooks {body : Option ApplyBody} (moved : ApplyAPI codec body s k = some (s',t')) :
    s' = s ∧ pending t' = 0 ∧ Fits s t' := by
  unfold ApplyAPI refuse at moved
  split at moved
  · cases Option.some.inj moved
    exact ⟨rfl,rfl,trivial⟩
  · dsimp only at moved
    split at moved
    · cases Option.some.inj moved
      exact ⟨rfl,rfl,trivial⟩
    · split at moved
      · cases Option.some.inj moved
        exact ⟨rfl,rfl,trivial⟩
      · split at moved
        · cases Option.some.inj moved
          exact ⟨rfl,rfl,trivial⟩
        · cases Option.some.inj moved
          exact ⟨rfl,rfl,trivial⟩
    · cases moved

theorem restoreLooks {ver : Option Int} (recorded : Recorded s) (moved : RestoreRevisionAPI ver s k = some (s',t')) :
    s' = s ∧ pending t' = 0 ∧ Fits s t' := by
  unfold RestoreRevisionAPI refuse at moved
  split at moved
  · cases Option.some.inj moved
    exact ⟨rfl,rfl,trivial⟩
  · split at moved
    · cases Option.some.inj moved
      exact ⟨rfl,rfl,trivial⟩
    · dsimp only at moved
      split at moved
      · cases Option.some.inj moved
        exact ⟨rfl,rfl,trivial⟩
      · cases Option.some.inj moved
        exact ⟨rfl,rfl,holdsRead recorded⟩
      · cases moved

/- The rows behind the newest ones have enough newer ones. -/
theorem trimFits {app : K8sApplication} (distinct : Distinct s) (kept : Kept s app) :
    Fits s (.deleting app ((behind K8sApplicationRevision.version maxAppRevisions s.revisions.rows).map K8sApplicationRevision.id)) := by
  refine ⟨kept,?_,?_⟩
  · intro n mem
    obtain ⟨r,there,rfl⟩ := List.mem_map.mp mem
    exact s.revisions.bounded r (memBehind there)
  · intro r mem gone
    obtain ⟨q,there,number⟩ := List.mem_map.mp gone
    cases same s.revisions (memBehind there) mem number
    exact behindNewer distinct there

theorem soundLook (sound : Sound s pool) (found : pool[i]? = some t) (before : pending t = 0) (after : pending t' = 0)
    (fits : Fits s t') : Sound s (pool.set i t' ++ []) := by
  have moved := loadStep pending t' [] found
  rw [before,after,loadNil,Nat.add_zero,Nat.add_zero] at moved
  refine ⟨sound.trimmed,sound.positive,sound.distinct,sound.below,sound.right,?_,?_,everyStep sound.fits fits (by simp)⟩
  · rw [moved]
    exact sound.single
  · rw [moved]
    exact sound.recorded

/- While the version of the row has its revision, nobody has one to record. -/
theorem recordedNone (sound : Sound s pool) (recorded : Recorded s) : load pending pool = 0 := by
  rw [loadZero]
  intro t mem
  cases t with
  | recording a source note =>
    obtain ⟨r,there,is⟩ := recorded
    have less := (sound.fits _ mem).2 r there
    omega
  | asked | seeking | found | saving | trimming | deleting | answered => rfl

/- What was read is saved again: the revision of the version is still the one of the row. -/
theorem soundSame {a : K8sApplication} (sound : Sound s pool) (found : pool[i]? = some t) (before : pending t = 0) (recorded : Recorded s)
    (trimmed : a.Normalize = a) (same : a.shown = s.app.shown) : Sound { s with app := a } (pool.set i (.answered (.saved a)) ++ []) := by
  have version := shownVersion same
  have counted := loadStep pending (.answered (.saved a)) [] found
  rw [recordedNone sound recorded,before] at counted
  obtain ⟨r,there,is⟩ := recorded
  refine ⟨trimmed,version ▸ sound.positive,sound.distinct,fun r mem => version ▸ sound.below r mem,?_,?_,?_,?_⟩
  · intro r mem here
    exact (sound.right r mem (here.trans version)).trans same.symm
  · exact Nat.le_trans (Nat.le_of_eq counted) (Nat.zero_le 1)
  · intro _
    exact ⟨r,there,is.trans version.symm⟩
  · refine everyStep (fun u mem => fitsSame same (sound.fits u mem)) ?_ (by simp)
    exact .inl ⟨r,there,(sound.right r there is).trans same.symm⟩

/- A new version is saved, and is to be recorded. -/
theorem soundBumped {a : K8sApplication} {source note : String} (sound : Sound s pool) (found : pool[i]? = some t) (before : pending t = 0)
    (recorded : Recorded s) (trimmed : a.Normalize = a) (new : a.version = s.app.version + 1) :
    Sound { s with app := a } (pool.set i (.recording a source note) ++ []) := by
  have none := recordedNone sound recorded
  have counted := loadStep pending (.recording a source note) [] found
  rw [none,before] at counted
  have one : load pending (pool.set i (.recording a source note) ++ []) = 1 := counted
  have less : ∀ r ∈ s.revisions.rows, r.version < a.version := by
    intro r mem
    have least := sound.below r mem
    omega
  have positive := sound.positive
  refine ⟨trimmed,?_,sound.distinct,fun r mem => Int.le_of_lt (less r mem),?_,Nat.le_of_eq one,?_,?_⟩
  · show 0 < a.version
    omega
  · intro r mem here
    exact absurd here (Int.ne_of_lt (less r mem))
  · intro zero
    exact absurd (one.symm.trans zero) Nat.one_ne_zero
  · refine everyStep ?_ ⟨rfl,less⟩ (by simp)
    intro u mem
    exact fitsBumped new (sound.fits u mem) ((loadZero pending pool).mp none u mem)

theorem soundSave {e n : K8sApplication} {source note : String} (sound : Sound s pool) (found : pool[i]? = some (.saving e n source note))
    (orderly : e.version = s.app.version) (moved : next codec k s (.saving e n source note) = some (s',t')) :
    Sound s' (pool.set i t' ++ []) := by
  obtain ⟨_,right⟩ : Holds s e := sound.fits _ (List.mem_of_getElem? found)
  obtain ⟨shown,recorded⟩ := right orderly
  have positive : 0 < e.version := orderly ▸ sound.positive
  dsimp only [next] at moved
  obtain ⟨rfl,rfl⟩ := Prod.mk.inj (Option.some.inj moved)
  rcases bumpCases n positive with ⟨plain,same⟩ | ⟨record,new⟩
  · rw [plain,if_neg Bool.false_ne_true]
    refine soundSame sound found rfl recorded (normalizeTwice _) ?_
    rw [normalizeShown (same.trans shown),sound.trimmed]
  · have version : (bumpRevisionIfChanged e n).1.Normalize.version = s.app.version + 1 := by
      rw [K8sApplication.Normalize,new,orderly]
    rw [record,if_pos rfl]
    exact soundBumped sound found rfl recorded (normalizeTwice _) version

theorem soundRecord {a : K8sApplication} {source note : String} (sound : Sound s pool) (found : pool[i]? = some (.recording a source note)) :
    Sound { s with revisions := s.revisions.insert (revisionOf a source note) } (pool.set i (.trimming a) ++ []) := by
  obtain ⟨shown,less⟩ : a.shown = s.app.shown ∧ ∀ r ∈ s.revisions.rows, r.version < s.app.version :=
    sound.fits _ (List.mem_of_getElem? found)
  have counted := loadStep pending (.trimming a) [] found
  have before : pending (.recording a source note) = 1 := rfl
  have after : pending (.trimming a) = 0 := rfl
  rw [before,after,loadNil,Nat.add_zero,Nat.add_zero] at counted
  have single := sound.single
  have positive : 0 < a.version := shownVersion shown ▸ sound.positive
  have trimmed : a.Normalize.shown = a.shown := by rw [normalizeShown shown,sound.trimmed,shown]
  have new : (kind.number s.revisions.drawn (revisionOf a source note)).shown = s.app.shown :=
    ((revisionShown _ _ _ positive).trans trimmed).trans shown
  have version : (kind.number s.revisions.drawn (revisionOf a source note)).version = s.app.version := (Prod.mk.inj new).1
  refine ⟨sound.trimmed,sound.positive,?_,?_,?_,by omega,?_,?_⟩
  · show (List.map _ (_ ++ [_])).Nodup
    rw [List.map_append,List.nodup_append]
    refine ⟨sound.distinct,by simp,?_⟩
    intro v old w fresh
    obtain ⟨r,mem,rfl⟩ := List.mem_map.mp old
    rw [List.map_singleton,List.mem_singleton] at fresh
    rw [fresh,version]
    exact Int.ne_of_lt (less r mem)
  · intro r mem
    rcases memInsert.mp mem with old | rfl
    · exact sound.below r old
    · exact Int.le_of_eq version
  · intro r mem here
    rcases memInsert.mp mem with old | rfl
    · exact sound.right r old here
    · exact new
  · intro _
    exact ⟨_,memInsert.mpr (.inr rfl),version⟩
  · refine everyBeside ?_ (.inl ⟨_,memInsert.mpr (.inr rfl),new.trans shown.symm⟩) (by simp)
    intro j u other there
    have both := loadTwo pending other there found
    exact fitsInserted (sound.fits u (List.mem_of_getElem? there)) (by omega)

theorem soundDelete {a : K8sApplication} {ids : List Nat} (sound : Sound s pool) (found : pool[i]? = some (.deleting a ids)) :
    Sound { s with revisions := s.revisions.remove ids } (pool.set i (.answered (.saved a)) ++ []) := by
  obtain ⟨kept,_,old⟩ : Fits s (.deleting a ids) := sound.fits _ (List.mem_of_getElem? found)
  have counted : load pending (pool.set i (.answered (.saved a)) ++ []) = load pending pool := loadStep pending (.answered (.saved a)) [] found
  refine ⟨sound.trimmed,sound.positive,sound.distinct.sublist ((List.filter_sublist).map _),?_,?_,?_,?_,?_⟩
  · exact fun r mem => sound.below r (List.mem_of_mem_filter mem)
  · exact fun r mem => sound.right r (List.mem_of_mem_filter mem)
  · rw [counted]
    exact sound.single
  · rw [counted]
    exact fun none => recordedRemoved old sound.below (sound.recorded none)
  · exact everyStep (fun u mem => fitsRemoved old sound.below (sound.fits u mem)) (keptRemoved old kept) (by simp)

theorem nextSound (sound : Sound s pool) (found : pool[i]? = some t) (orderly : Orderly s t)
    (moved : next codec k s t = some (s',t')) : Sound s' (pool.set i t' ++ []) := by
  have fits := sound.fits _ (List.mem_of_getElem? found)
  have look : pending t = 0 → s' = s ∧ pending t' = 0 ∧ Fits s t' → Sound s' (pool.set i t' ++ []) := by
    rintro before ⟨rfl,after,fits⟩
    exact soundLook sound found before after fits
  cases t with
  | asked r =>
    cases r with
    | update body =>
      rw [next] at moved
      exact look rfl (updateLooks orderly moved)
    | apply body =>
      rw [next] at moved
      exact look rfl (applyLooks moved)
    | restore ver =>
      rw [next] at moved
      exact look rfl (restoreLooks orderly moved)
  | seeking n =>
    refine look rfl ?_
    dsimp only [next] at moved
    split at moved
    · cases Option.some.inj moved
      exact ⟨rfl,rfl,trivial⟩
    · cases Option.some.inj moved
      exact ⟨rfl,rfl,holdsRead orderly⟩
    · cases moved
  | found e ver =>
    refine look rfl ?_
    dsimp only [next,refuse] at moved
    split at moved
    · cases Option.some.inj moved
      exact ⟨rfl,rfl,trivial⟩
    · split at moved
      · cases moved
      · cases Option.some.inj moved
        exact ⟨rfl,rfl,fits⟩
    · cases moved
  | saving e n source note => exact soundSave sound found orderly moved
  | recording a source note =>
    cases Option.some.inj moved
    exact soundRecord sound found
  | trimming a =>
    refine look rfl ?_
    dsimp only [next] at moved
    split at moved
    · cases Option.some.inj moved
      exact ⟨rfl,rfl,fits⟩
    · obtain ⟨rfl,rfl⟩ := Prod.mk.inj (Option.some.inj moved)
      refine ⟨rfl,?_⟩
      split
      · exact ⟨rfl,fits⟩
      · exact ⟨rfl,trimFits sound.distinct fits⟩
    · cases moved
  | deleting a ids =>
    cases Option.some.inj moved
    exact soundDelete sound found
  | answered answer => cases moved

theorem soundPreserved : Preserved (system codec) (fun c => Orderly c.shared) (fun c => Sound c.shared c.pool) := by
  constructor
  · intro c r sound
    refine ⟨sound.trimmed,sound.positive,sound.distinct,sound.below,sound.right,?_,?_,?_⟩
    · rw [loadAppend]
      exact sound.single
    · intro none
      rw [loadAppend] at none
      exact sound.recorded none
    · intro t mem
      rcases List.mem_append.mp mem with old | new
      · exact sound.fits t old
      · rw [List.mem_singleton.mp new]
        cases r <;> trivial
  · intro c i t k s' t' new sound found orderly moved
    obtain ⟨⟨s,u⟩,stepped,same⟩ := Option.map_eq_some_iff.mp moved
    obtain ⟨rfl,rest⟩ := Prod.mk.inj same
    obtain ⟨rfl,rfl⟩ := Prod.mk.inj rest
    exact nextSound sound found orderly stepped

theorem soundCreated (prepared : K8sApplication) : Sound (created prepared) [] := by
  have shown : ∀ r ∈ (created prepared).revisions.rows, r.shown = (created prepared).app.shown := by
    intro r mem
    rcases memInsert.mp mem with none | rfl
    · cases none
    · exact (revisionShown _ _ _ Int.one_pos).trans (congrArg _ (normalizeTwice _))
  refine ⟨normalizeTwice _,Int.one_pos,?_,?_,fun r mem _ => shown r mem,Nat.zero_le _,?_,by simp⟩
  · exact List.nodup_singleton _
  · exact fun r mem => Int.le_of_eq (Prod.mk.inj (shown r mem)).1
  · intro _
    obtain ⟨r,mem⟩ : ∃ r, r ∈ (created prepared).revisions.rows := ⟨_,List.mem_singleton.mpr rfl⟩
    exact ⟨r,mem,(Prod.mk.inj (shown r mem)).1⟩

/- The revisions are the history of the application in every run whose requests read and save the row in turn. -/
theorem revisionsKept {prepared : K8sApplication} {c : Config Store Call} {es : List (Event Request (Choice ν))}
    (orderly : Along (system codec) (fun c => Orderly c.shared) ⟨created prepared,[]⟩ es)
    (ran : run (system codec) ⟨created prepared,[]⟩ es = some c) : Consistent (maxAppRevisions - 1) c := by
  have sound := runPreserved soundPreserved (soundCreated prepared) orderly ran
  refine ⟨sound.distinct,?_,?_⟩
  · intro a mem few
    rcases (sound.fits _ mem : Kept c.shared a) with ⟨r,there,same⟩ | many
    · exact ⟨r,there,(Prod.mk.inj (Prod.mk.inj (Prod.mk.inj same).2).2).2⟩
    · simp only [maxAppRevisions] at few many
      omega
  · intro quiet
    refine ⟨sound.recorded ((loadZero pending c.pool).mpr ?_),sound.right⟩
    intro t mem
    obtain ⟨answer,rfl⟩ := quiet t mem
    rfl

end

/-! An application whose manifest is saved once more, and is then written over under two names in turn. -/

def shop : K8sApplication := ⟨"shop","team",zoneText,0,[]⟩

def rename (name : String) : Request := .update (some ⟨name,"team",zoneText⟩)

def renamed (name : String) (version : Int) : K8sApplication := ⟨name,"team",placedText,version,zoneAnalysis.resources⟩

def nameAt (n : Nat) : String := if n % 2 = 0 then "left" else "right"

/- Both have read version 1. -/
def twoUpdates : List (Event Request (Choice String)) :=
  [.call (rename (nameAt 1)),.call (rename (nameAt 2)),.step 0 .done,.step 1 .done,.step 0 .done,.step 1 .done,.step 0 .done,.step 1 .done]

/- One update, up to its revision. -/
def written (n : Nat) : List (Event Request (Choice String)) :=
  [.call (rename (nameAt n)),.step n .done,.step n .done,.step n .done]

def updates : Nat → List (Event Request (Choice String))
  | 0 => [.call (.restore (some 1)),.step 0 .done,.step 0 (.revision 0),.step 0 .done]
  | n+1 => updates n ++ (written (n+1) ++ [.step (n+1) .done])

/- The last one of them finds the first revision behind fifty newer ones. -/
def fiftyUpdates : List (Event Request (Choice String)) := updates 49 ++ (written 50 ++ [.step 50 .done,.step 50 .done])

/- What is saved of an accepted request. -/
theorem prepareAccepted {ν : Type} {codec : Yaml ν} {name target text rewritten ns : String} {analysis : ManifestAnalysis}
    (accepted : EnsureUniformNamespace codec text target = .ok (rewritten,ns,analysis)) (trimmed : trimSpace name = name)
    (filled : name ≠ "") (placed : ns ≠ "") : prepareSave codec ⟨name,target,text⟩ = .ok ⟨name,ns,rewritten,0,analysis.resources⟩ := by
  unfold prepareSave
  dsimp only
  rw [trimmed,if_neg filled,accepted]
  dsimp only
  rw [if_neg placed]

theorem prepared (even : Bool) (name : String) (is : name = if even then "left" else "right") :
    prepareSave zoneYaml ⟨name,"team",zoneText⟩ = .ok (renamed name 0) ∧ trimSpace name = name ∧ name ≠ "" := by
  have trimmed : trimSpace name = name ∧ name ≠ "" := by
    cases even <;> subst is <;> exact ⟨by decide,by decide⟩
  exact ⟨prepareAccepted zoneAccepted trimmed.1 trimmed.2 (by decide),trimmed⟩

theorem nameAtPrepared (n : Nat) :
    prepareSave zoneYaml ⟨nameAt n,"team",zoneText⟩ = .ok (renamed (nameAt n) 0) ∧ trimSpace (nameAt n) = nameAt n ∧ nameAt n ≠ "" := by
  by_cases even : n % 2 = 0
  · exact prepared true _ (if_pos even)
  · exact prepared false _ (if_neg even)

theorem nameAtTurns (n : Nat) : nameAt n ≠ nameAt (n+1) := by
  unfold nameAt
  split <;> split <;> first | omega | decide

theorem teamTrimmed : trimSpace "team" = "team" := by decide

theorem renamedNormal {name : String} {version : Int} (trimmed : trimSpace name = name) : (renamed name version).Normalize = renamed name version := by
  unfold renamed K8sApplication.Normalize
  dsimp only
  rw [trimmed,teamTrimmed,placedPlain.trimmed]

section
variable {n : Nat} {s : Store} {pool : List Call}

theorem runStep {c : Config Store Call} {i : Nat} {k : Choice String} {s' : Store} {t t' : Call} {es : List (Event Request (Choice String))}
    (found : c.pool[i]? = some t) (moved : next zoneYaml k c.shared t = some (s',t')) :
    run (system zoneYaml) c (.step i k :: es) = run (system zoneYaml) ⟨s',c.pool.set i t'⟩ es := by
  simp only [run,exec,found,system,moved,Option.map_some,List.append_nil]

theorem runCall (c : Config Store Call) (r : Request) (es : List (Event Request (Choice String))) :
    run (system zoneYaml) c (.call r :: es) = run (system zoneYaml) ⟨c.shared,c.pool ++ [.asked r]⟩ es := rfl

/- The step of the last goroutine. -/
theorem runLast {k : Choice String} {s' : Store} {t t' : Call} {es : List (Event Request (Choice String))} (length : pool.length = n)
    (moved : next zoneYaml k s t = some (s',t')) :
    run (system zoneYaml) ⟨s,pool ++ [t]⟩ (.step n k :: es) = run (system zoneYaml) ⟨s',pool ++ [t']⟩ es := by
  subst length
  rw [runStep (by simp) moved]
  simp

theorem alongLast {k : Choice String} {s' : Store} {t t' : Call} {es : List (Event Request (Choice String))} (length : pool.length = n)
    (moved : next zoneYaml k s t = some (s',t')) (orderly : Orderly s t)
    (rest : Along (system zoneYaml) (fun c => Orderly c.shared) ⟨s',pool ++ [t']⟩ es) :
    Along (system zoneYaml) (fun c => Orderly c.shared) ⟨s,pool ++ [t]⟩ (.step n k :: es) := by
  subst length
  have here : (pool ++ [t])[pool.length]? = some t := by simp
  have there : (pool ++ [t]).set pool.length t' = pool ++ [t'] := by simp
  refine ⟨?_,?_⟩
  · intro u found
    cases Option.some.inj (here.symm.trans found)
    exact orderly
  · simpa only [exec,here,system,moved,Option.map_some,there,List.append_nil] using rest

/- After n updates. -/
structure Level (n : Nat) (s : Store) : Prop where
  version : s.app.version = (n : Int) + 1
  name : s.app.name ≠ nameAt (n+1)
  versions : s.revisions.rows.map K8sApplicationRevision.version = (List.range (n+1)).map (fun i : Nat => (i : Int) + 1)
  later : ∀ r ∈ s.revisions.rows, r.version ≠ 1 → r.yaml = placedText

theorem levelRecorded (level : Level n s) : Recorded s := by
  have mem : s.app.version ∈ s.revisions.rows.map K8sApplicationRevision.version := by
    rw [level.versions,level.version]
    exact List.mem_map.mpr ⟨n,List.mem_range.mpr (Nat.lt_succ_self n),rfl⟩
  exact List.mem_map.mp mem

/- What one update writes. -/
def wrote (n : Nat) (s : Store) : Store :=
  let app := renamed (nameAt n) (s.app.version + 1)
  ⟨app,s.revisions.insert (revisionOf app "save" "")⟩

theorem levelWrote (level : Level n s) : Level (n+1) (wrote (n+1) s) := by
  have version : (wrote (n+1) s).app.version = ((n+1 : Nat) : Int) + 1 := by
    show s.app.version + 1 = _
    rw [level.version]
    omega
  have positive : 0 < (renamed (nameAt (n+1)) (s.app.version + 1)).version := by
    show 0 < s.app.version + 1
    rw [level.version]
    omega
  have shown := revisionShown s.revisions.drawn "save" "" positive
  rw [renamedNormal (nameAtPrepared (n+1)).2.1] at shown
  refine ⟨version,nameAtTurns (n+1),?_,?_⟩
  · show List.map _ (_ ++ [_]) = _
    rw [List.map_append,level.versions,List.range_succ (n := n+1),List.map_append]
    refine congrArg _ ?_
    exact congrArg (fun v => [v]) ((Prod.mk.inj shown).1.trans version)
  · intro r mem other
    rcases memInsert.mp mem with old | rfl
    · exact level.later r old other
    · exact (Prod.mk.inj (Prod.mk.inj (Prod.mk.inj shown).2).2).2

theorem readStep (n : Nat) (s : Store) :
    next zoneYaml .done s (.asked (rename (nameAt n))) = some (s,.saving s.app (renamed (nameAt n) 0) "save" "") := by
  obtain ⟨made,trimmed,filled⟩ := nameAtPrepared n
  unfold rename next UpdateAPI
  dsimp only
  rw [if_neg (by rwa [trimmed]),made]

theorem saveStep {e : K8sApplication} (s : Store) (positive : 0 < e.version) (other : e.name ≠ nameAt n) :
    next zoneYaml .done s (.saving e (renamed (nameAt n) 0) "save" "") =
      some ({ s with app := renamed (nameAt n) (e.version + 1) },.recording (renamed (nameAt n) (e.version + 1)) "save" "") := by
  have bumped : bumpRevisionIfChanged e (renamed (nameAt n) 0) = (renamed (nameAt n) (e.version + 1),true) := by
    unfold bumpRevisionIfChanged
    have changed : (decide (e.yaml ≠ (renamed (nameAt n) 0).yaml) || decide (e.namespace_ ≠ (renamed (nameAt n) 0).namespace_) ||
        decide (e.name ≠ (renamed (nameAt n) 0).name)) = true := by
      rw [Bool.or_eq_true]
      exact .inr (decide_eq_true other)
    dsimp only
    rw [changed,if_neg (by simp),if_neg (Int.not_le.mpr positive),if_pos rfl]
    rfl
  unfold next
  dsimp only
  rw [bumped]
  dsimp only
  rw [if_pos rfl,renamedNormal (nameAtPrepared n).2.1]

theorem turnRuns (level : Level n s) (length : pool.length = n+1) (es : List (Event Request (Choice String))) :
    run (system zoneYaml) ⟨s,pool⟩ (written (n+1) ++ es) = run (system zoneYaml) ⟨wrote (n+1) s,pool ++ [.trimming (wrote (n+1) s).app]⟩ es ∧
    (Along (system zoneYaml) (fun c => Orderly c.shared) ⟨wrote (n+1) s,pool ++ [.trimming (wrote (n+1) s).app]⟩ es →
      Along (system zoneYaml) (fun c => Orderly c.shared) ⟨s,pool⟩ (written (n+1) ++ es)) := by
  have first := readStep (n+1) s
  have second := saveStep s (show 0 < s.app.version by rw [level.version]; omega) level.name
  constructor
  · exact (runLast length first).trans ((runLast length second).trans (runLast length rfl))
  · intro rest
    exact ⟨trivial,alongLast length first (levelRecorded level) (alongLast length second rfl (alongLast length rfl trivial rest))⟩

/- The requests so far. -/
structure After (n : Nat) (s : Store) (pool : List Call) : Prop where
  ran : run (system zoneYaml) ⟨created shop,[]⟩ (updates n) = some ⟨s,pool⟩
  orderly : Along (system zoneYaml) (fun c => Orderly c.shared) ⟨created shop,[]⟩ (updates n)
  level : Level n s
  length : pool.length = n+1
  first : .answered (.saved (created shop).app) ∈ pool

theorem shopCreated : created shop = ⟨{ shop with version := 1 },(empty kind).insert ⟨0,1,"shop","team",zoneText,[],"create",""⟩⟩ := by
  have normal : K8sApplication.Normalize { shop with version := 1 } = { shop with version := 1 } := by
    unfold shop K8sApplication.Normalize
    dsimp only
    rw [teamTrimmed,zonePlain.trimmed,show trimSpace "shop" = "shop" by decide]
  have revision : revisionOf { shop with version := 1 } "create" "" = ⟨0,1,"shop","team",zoneText,[],"create",""⟩ := by
    unfold shop revisionOf K8sApplicationRevision.BeforeCreate
    dsimp only
    rw [teamTrimmed,zonePlain.trimmed,show trimSpace "shop" = "shop" by decide,show trimSpace "create" = "create" by decide,
      show trimSpace "" = "" by decide]
    rfl
  unfold created
  dsimp only
  rw [normal,revision]

theorem afterNone : After 0 (created shop) [.answered (.saved (created shop).app)] := by
  have app : (created shop).app = { shop with version := 1 } := congrArg Store.app shopCreated
  have normal : (created shop).app.Normalize = (created shop).app := normalizeTwice _
  have rows : (created shop).revisions.rows = [⟨0,1,"shop","team",zoneText,[],"create",""⟩] := by rw [shopCreated]; rfl
  have recorded : Recorded (created shop) := ⟨_,by rw [rows]; exact List.mem_singleton.mpr rfl,by rw [app]⟩
  have reads : next zoneYaml .done (created shop) (.asked (.restore (some 1))) = some (created shop,.found (created shop).app 1) := rfl
  have finds : next zoneYaml (.revision 0) (created shop) (.found (created shop).app 1) =
      some (created shop,.saving (created shop).app ⟨"shop","team",zoneText,0,[]⟩ "restore" "restored from v1") := by
    unfold next
    dsimp only
    rw [rows]
    rfl
  have saves : next zoneYaml .done (created shop) (.saving (created shop).app ⟨"shop","team",zoneText,0,[]⟩ "restore" "restored from v1") =
      some (created shop,.answered (.saved (created shop).app)) := by
    have same : bumpRevisionIfChanged (created shop).app ⟨"shop","team",zoneText,0,[]⟩ = ((created shop).app,false) := by
      rw [app]
      simp [bumpRevisionIfChanged,shop]
    unfold next
    dsimp only
    rw [same]
    dsimp only
    rw [normal,if_neg Bool.false_ne_true]
  have alone : ([] : List Call).length = 0 := rfl
  refine ⟨?_,?_,⟨by rw [app]; rfl,by rw [app]; decide,by rw [rows]; rfl,?_⟩,rfl,List.mem_singleton.mpr rfl⟩
  · exact (runLast alone reads).trans ((runLast alone finds).trans (runLast alone saves))
  · exact ⟨trivial,alongLast alone reads recorded (alongLast alone finds trivial
      (alongLast alone saves rfl trivial))⟩
  · intro r mem other
    rw [rows,List.mem_singleton] at mem
    subst mem
    exact absurd rfl other

theorem levelLength (level : Level n s) : s.revisions.rows.length = n+1 := by
  have same := congrArg List.length level.versions
  rwa [List.length_map,List.length_map,List.length_range] at same

theorem afterNext (after : After n s pool) (few : n+2 ≤ maxAppRevisions) :
    After (n+1) (wrote (n+1) s) (pool ++ [.answered (.saved (wrote (n+1) s).app)]) := by
  have level := levelWrote after.level
  have short : behind K8sApplicationRevision.version maxAppRevisions (wrote (n+1) s).revisions.rows = [] := by
    refine List.drop_eq_nil_of_le ?_
    rw [latestFirst,List.length_mergeSort,levelLength level]
    exact few
  have ends : next zoneYaml .done (wrote (n+1) s) (.trimming (wrote (n+1) s).app) =
      some (wrote (n+1) s,.answered (.saved (wrote (n+1) s).app)) := by
    unfold next
    dsimp only
    rw [if_pos short]
  obtain ⟨ran,orderly⟩ := turnRuns after.level after.length [.step (n+1) .done]
  refine ⟨?_,?_,level,by simp [after.length],List.mem_append_left _ after.first⟩
  · rw [updates,runAppend,after.ran]
    exact ran.trans (runLast after.length ends)
  · exact alongAppend after.ran after.orderly (orderly (alongLast after.length ends trivial trivial))

theorem afterAll (n : Nat) (few : n < maxAppRevisions) : ∃ s pool, After n s pool := by
  induction n with
  | zero => exact ⟨_,_,afterNone⟩
  | succ n ih =>
    obtain ⟨s,pool,after⟩ := ih (Nat.lt_of_succ_lt few)
    exact ⟨_,_,afterNext after few⟩

/- The newest version of the first revision is behind fifty newer ones. -/
theorem newerFirst (level : Level n s) : s.newer 1 = n := by
  have counted : s.newer 1 = ((List.range (n+1)).map (fun i : Nat => (i : Int) + 1)).countP (fun v => decide (1 < v)) := by
    rw [← level.versions,List.countP_map]
    rfl
  rw [counted,List.countP_map,List.range_succ_eq_map,List.countP_cons,List.countP_map]
  have all : (List.range n).countP (((fun v => decide (1 < v)) ∘ fun i : Nat => (i : Int) + 1) ∘ Nat.succ) = n := by
    rw [List.countP_eq_length.mpr,List.length_range]
    intro i _
    simp only [Function.comp_apply,decide_eq_true_eq]
    omega
  rw [all]
  rfl

/- Both updates save version 2. -/
def clashed : Store :=
  let app := fun n => renamed (nameAt n) ((created shop).app.version + 1)
  ⟨app 2,((created shop).revisions.insert (revisionOf (app 1) "save" "")).insert (revisionOf (app 2) "save" "")⟩

theorem updatesClash : ∃ pool, run (system zoneYaml) ⟨created shop,[]⟩ twoUpdates = some ⟨clashed,pool⟩ ∧ ¬Distinct clashed := by
  have app : (created shop).app = { shop with version := 1 } := congrArg Store.app shopCreated
  have positive : 0 < (created shop).app.version := by rw [app]; decide
  have left : (created shop).app.name ≠ nameAt 1 := by rw [app]; decide
  have right : (created shop).app.name ≠ nameAt 2 := by rw [app]; decide
  have versions : clashed.revisions.rows.map K8sApplicationRevision.version = [1,2,2] := by
    unfold clashed
    rw [shopCreated]
    rfl
  refine ⟨[.trimming (renamed (nameAt 1) ((created shop).app.version + 1)),.trimming (renamed (nameAt 2) ((created shop).app.version + 1))],?_,?_⟩
  · rw [twoUpdates,runCall,runCall,runStep (i := 0) rfl (readStep 1 _),runStep (i := 1) rfl (readStep 2 _)]
    rw [runStep (i := 0) rfl (saveStep _ positive left),runStep (i := 1) rfl (saveStep _ positive right)]
    rw [runStep (i := 0) rfl rfl,runStep (i := 1) rfl rfl]
    rfl
  · rw [Distinct,versions]
    decide

theorem oldestGone : ∃ c : Config Store Call, run (system zoneYaml) ⟨created shop,[]⟩ fiftyUpdates = some c ∧
    Along (system zoneYaml) (fun c => Orderly c.shared) ⟨created shop,[]⟩ fiftyUpdates ∧ ¬SavedKept maxAppRevisions c := by
  obtain ⟨s,pool,after⟩ := afterAll 49 (by decide)
  have level := levelWrote after.level
  have first : (1 : Int) ∈ (wrote 50 s).revisions.rows.map K8sApplicationRevision.version := by
    rw [level.versions]
    exact List.mem_map.mpr ⟨0,List.mem_range.mpr (by decide),rfl⟩
  obtain ⟨r,mem,is⟩ := List.mem_map.mp first
  have old : ∀ q ∈ (wrote 50 s).revisions.rows, q.version = 1 → q ∈ behind K8sApplicationRevision.version maxAppRevisions (wrote 50 s).revisions.rows := by
    intro q there one
    refine newerBehind there ?_
    rw [one]
    exact Nat.le_of_eq (newerFirst level).symm
  have trims : next zoneYaml .done (wrote 50 s) (.trimming (wrote 50 s).app) = some (wrote 50 s,.deleting (wrote 50 s).app
      ((behind K8sApplicationRevision.version maxAppRevisions (wrote 50 s).revisions.rows).map K8sApplicationRevision.id)) := by
    unfold next
    dsimp only
    rw [if_neg (List.ne_nil_of_mem (old r mem is))]
  obtain ⟨ran,orderly⟩ := turnRuns after.level after.length [.step 50 .done,.step 50 .done]
  refine ⟨⟨⟨(wrote 50 s).app,(wrote 50 s).revisions.remove
    ((behind K8sApplicationRevision.version maxAppRevisions (wrote 50 s).revisions.rows).map K8sApplicationRevision.id)⟩,pool ++ [.answered (.saved (wrote 50 s).app)]⟩,?_,?_,?_⟩
  · rw [fiftyUpdates,runAppend,after.ran]
    exact ran.trans ((runLast after.length trims).trans (runLast after.length rfl))
  · exact alongAppend after.ran after.orderly (orderly (alongLast after.length trims trivial (alongLast after.length rfl trivial trivial)))
  · intro kept
    have app : (created shop).app = { shop with version := 1 } := congrArg Store.app shopCreated
    have few : Newest.newer K8sApplicationRevision.version ((wrote 50 s).revisions.remove
        ((behind K8sApplicationRevision.version maxAppRevisions (wrote 50 s).revisions.rows).map K8sApplicationRevision.id)).rows 1 ≤ 50 :=
      (List.Sublist.countP_le List.filter_sublist).trans (Nat.le_of_eq (newerFirst level))
    obtain ⟨q,there,yaml⟩ := kept (created shop).app (List.mem_append_left _ after.first) (by rw [app]; exact few)
    obtain ⟨there,kept⟩ := List.mem_filter.mp there
    by_cases one : q.version = 1
    · have gone := List.mem_map_of_mem (f := K8sApplicationRevision.id) (old q there one)
      rw [show kind.ident q = q.id from rfl,List.contains_iff_mem.mpr gone] at kept
      cases kept
    · rw [level.later q there one,app] at yaml
      revert yaml
      decide

/- Two updates that both have read version 1 record it twice; and of updates that follow each other the
fiftieth takes away a manifest that has been answered as saved. -/
theorem revisionsLost :
    (∃ c, run (system zoneYaml) ⟨created shop,[]⟩ twoUpdates = some c ∧ ¬Consistent maxAppRevisions c) ∧
    ∃ c, run (system zoneYaml) ⟨created shop,[]⟩ fiftyUpdates = some c ∧
      Along (system zoneYaml) (fun c => Orderly c.shared) ⟨created shop,[]⟩ fiftyUpdates ∧ ¬Consistent maxAppRevisions c := by
  constructor
  · obtain ⟨pool,ran,clash⟩ := updatesClash
    exact ⟨_,ran,fun consistent => clash consistent.distinct⟩
  · obtain ⟨c,ran,orderly,lost⟩ := oldestGone
    exact ⟨c,ran,orderly,fun consistent => lost consistent.kept⟩

/- The updates that follow each other, one less. -/
theorem revisionsKeptShop : ∃ c, run (system zoneYaml) ⟨created shop,[]⟩ (updates 49) = some c ∧ Consistent 49 c := by
  obtain ⟨s,pool,after⟩ := afterAll 49 (by decide)
  exact ⟨_,after.ran,revisionsKept after.orderly after.ran⟩

end
end ContainerWS.Kubernetes.Applications
