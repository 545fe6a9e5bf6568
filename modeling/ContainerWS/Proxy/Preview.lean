import ContainerWS.Proxy.Apply

/-! What a preview leaves as it was. It generates where an Apply does: in the directory of the
engine that the settings name. -/
namespace ContainerWS.Proxy
open GoPath GoStrings Nginx Disks Frames

/- What tells of the last Apply; where there is no row, its default is meant. -/
def World.flags (w : World) : Bool × Option Nat × String × Bool :=
  let s := w.settings.getD defaultSettings
  (s.dirty,s.lastAppliedAt,s.lastApplyEngine,s.lastApplyFailed)

structure Spares (touched : Path → Prop) (w w' : World) : Prop where
  flags : w'.flags = w.flags
  table : w'.table = w.table
  files : ∀ q, ¬touched q → w'.files.get q = w.files.get q

/- The files that the engine of the settings is given. -/
def fileGroups (p : Process) (s : ApplySnapshot) : List (List (Path × Content)) :=
  let engine := s.settings.activeEngine
  let dir := engineDir p s.settings engine
  if engine = engineFiber then [[(routesFile p s,.routes (fiberTable p s))]]
  else if engine = engineNginx then nginxConf s dir ++ certificateGroups (join dir "ssl") s.certificates ++ confGroups p s dir
  else if engine = engineTraefik then traefikGroups p s dir
  else []

/- These files with the ones next to them, and the host files of nginx. -/
def Generated (p : Process) (s : ApplySnapshot) (q : Path) : Prop :=
  (∃ g ∈ fileGroups p s, ∃ f ∈ g, q = f.1 ∨ q = tmp f.1) ∨
    s.settings.activeEngine = engineNginx ∧ ∃ n, isConf n = true ∧ q = join (engineDir p s.settings engineNginx) "conf.d" ++ [n]

section
variable {touched : Path → Prop}

instance : IsPreorder World (Spares touched) where
  refl _ := ⟨rfl,rfl,fun _ _ => rfl⟩
  trans _ _ _ first second := ⟨second.flags.trans first.flags,second.table.trans first.table,
    fun q free => (second.files q free).trans (first.files q free)⟩

theorem called (w : World) : ∃ r plan, call.run w = (r,{ w with plan := plan }) := by
  unfold call
  cases here : w.plan with
  | nil =>
    simp only [StateT.run,modifyGet,MonadStateOf.modifyGet,StateT.modifyGet,here]
    exact ⟨.fine,w.plan,rfl⟩
  | cons f plan =>
    simp only [StateT.run,modifyGet,MonadStateOf.modifyGet,StateT.modifyGet,here]
    exact ⟨f,plan,rfl⟩

theorem callSpares : Keeps (Spares touched) call := by
  intro w
  obtain ⟨r,plan,same⟩ := called w
  rw [same]
  exact ⟨rfl,rfl,fun _ _ => rfl⟩

theorem askSpares : Keeps (Spares touched) ask := keepsBind callSpares (fun _ => keepsPure _)

theorem changeSpares {f : World → World} (spares : ∀ w, Spares touched w (f w)) : Keeps (Spares touched) (change f) := by
  refine keepsBind callSpares fun r => ?_
  cases r with
  | fine => exact keepsBind (keepsModify spares) (fun _ => keepsPure _)
  | refused => exact keepsPure _
  | torn => exact keepsPure _

/- A change of the world that it starts from, or nothing. -/
theorem changeAt {f : World → World} {w : World} (spares : ∀ plan, Spares touched w (f { w with plan := plan })) :
    Spares touched w ((change f).run w).2 := by
  obtain ⟨r,plan,same⟩ := called w
  unfold change
  rw [StateT.run_bind,same]
  cases r with
  | fine => exact spares plan
  | refused => exact ⟨rfl,rfl,fun _ _ => rfl⟩
  | torn => exact ⟨rfl,rfl,fun _ _ => rfl⟩

theorem putSpares {path : Path} {c : Content} (here : touched path) (w : World) :
    Spares touched w { w with files := w.files.put path c } := by
  refine ⟨rfl,rfl,fun q free => ?_⟩
  have apart : q ≠ path := fun same => free (same ▸ here)
  exact getPut.trans (if_neg apart)

theorem removeSpares {path : Path} (here : touched path) (w : World) : Spares touched w { w with files := w.files.remove path } := by
  refine ⟨rfl,rfl,fun q free => ?_⟩
  have apart : q ≠ path := fun same => free (same ▸ here)
  exact getRemove.trans (if_neg apart)

theorem writeFileSpares {path : Path} {c : Content} (here : touched path) (beside : touched (tmp path)) :
    Keeps (Spares touched) (writeFile path c) := by
  refine keepsBind askSpares fun made => ?_
  cases made with
  | false => exact keepsPure _
  | true =>
    refine keepsBind callSpares fun r => ?_
    cases r with
    | refused => exact keepsPure _
    | torn => exact keepsBind (keepsModify (putSpares beside)) (fun _ => keepsPure _)
    | fine =>
      refine keepsBind (keepsModify (putSpares beside)) (fun _ => changeSpares fun w => ?_)
      exact IsTrans.trans _ _ _ (removeSpares beside w) (putSpares here { w with files := w.files.remove (tmp path) })

theorem writeFilesSpares {files : List (Path × Content)} (here : ∀ f ∈ files, touched f.1 ∧ touched (tmp f.1)) :
    Keeps (Spares touched) (writeFiles files) := by
  induction files with
  | nil => exact keepsPure _
  | cons f rest ih =>
    obtain ⟨path,beside⟩ := here f List.mem_cons_self
    refine keepsBind (writeFileSpares path beside) fun written => ?_
    cases written with
    | true => exact ih (fun g mem => here g (List.mem_cons_of_mem _ mem))
    | false => exact keepsPure _

theorem writeGroupsSpares {groups : List (List (Path × Content))} (here : ∀ g ∈ groups, ∀ f ∈ g, touched f.1 ∧ touched (tmp f.1)) :
    Keeps (Spares touched) (writeGroups groups) := by
  induction groups with
  | nil => exact keepsPure _
  | cons g rest ih =>
    refine keepsBind (writeFilesSpares (here g List.mem_cons_self)) fun written => ?_
    cases written with
    | true => exact keepsBind (ih fun g mem => here g (List.mem_cons_of_mem _ mem)) (fun _ => keepsPure _)
    | false => exact keepsPure _

theorem clearConfSpares {confd : Path} (here : ∀ n, isConf n = true → touched (confd ++ [n])) : Keeps (Spares touched) (clearConf confd) := by
  refine keepsBind askSpares fun read => ?_
  cases read with
  | false => exact keepsPure _
  | true =>
    refine keepsBind keepsGet fun w => keepsEach fun n mem => ?_
    exact keepsBind (changeSpares (removeSpares (here n (List.mem_filter.mp mem).2))) (fun _ => keepsPure _)

/- The row is created as it would be read, and only its directory may be moved. -/
theorem ensureSettingsSpares {p : Process} : Keeps (Spares touched) (EnsureSettings p) := by
  refine keepsBind callSpares fun r => ?_
  cases r with
  | fine =>
    refine keepsRead fun w => ?_
    cases here : w.settings with
    | some row =>
      dsimp only
      split
      · exact changeAt fun plan => ⟨by simp [World.flags,here],rfl,fun _ _ => rfl⟩
      · exact refl w
    | none =>
      have created : Spares touched w ((change fun w => { w with
          settings := some { defaultSettings.Normalize p.m with configDir := render (AbsoluteConfigDir p "") } }).run w).2 :=
        changeAt fun plan => ⟨by simp [World.flags,here,SettingsRow.Normalize],rfl,fun _ _ => rfl⟩
      refine keepsThen created ?_
      split
      · exact keepsPure _
      · exact keepsPure _
  | refused => exact keepsPure _
  | torn => exact keepsPure _

theorem loadSnapshotSpares {p : Process} : Keeps (Spares touched) (LoadSnapshot p) := by
  refine keepsBind ensureSettingsSpares fun row => ?_
  cases row with
  | none => exact keepsPure _
  | some settings =>
    refine keepsBind askSpares fun a => keepsBind askSpares fun b => keepsBind askSpares fun c => keepsBind askSpares fun d => ?_
    split
    · exact keepsBind keepsGet (fun _ => keepsPure _)
    · exact keepsPure _

section
variable {p : Process} {s : ApplySnapshot}

/- What the generator of the engine writes is all among its files. -/
theorem groupsGenerated {groups : List (List (Path × Content))} (inside : ∀ g ∈ groups, g ∈ fileGroups p s) :
    Keeps (Spares (Generated p s)) (writeGroups groups) :=
  writeGroupsSpares fun g mem f here => ⟨.inl ⟨g,inside g mem,f,here,.inl rfl⟩,.inl ⟨g,inside g mem,f,here,.inr rfl⟩⟩

theorem nginxSpares (active : s.settings.activeEngine = engineNginx) :
    Keeps (Spares (Generated p s)) (nginxGenerate p s (engineDir p s.settings engineNginx)) := by
  have groups : fileGroups p s = nginxConf s (engineDir p s.settings engineNginx) ++
      certificateGroups (join (engineDir p s.settings engineNginx) "ssl") s.certificates ++ confGroups p s (engineDir p s.settings engineNginx) := by
    unfold fileGroups
    rw [active]
    rfl
  refine keepsBind askSpares fun _ => keepsBind askSpares fun _ => ?_
  refine keepsBind (groupsGenerated fun g mem => by simp [groups,mem]) fun main => ?_
  obtain ⟨main,ok⟩ := main
  cases ok with
  | false => exact keepsPure _
  | true =>
    refine keepsBind (groupsGenerated fun g mem => by simp [groups,mem]) fun certs => ?_
    obtain ⟨certs,ok⟩ := certs
    cases ok with
    | false => exact keepsPure _
    | true =>
      refine keepsBind (clearConfSpares fun n conf => .inr ⟨active,n,conf,rfl⟩) fun _ => ?_
      exact keepsBind (groupsGenerated fun g mem => by simp [groups,mem]) (fun _ => keepsPure _)

theorem traefikSpares (active : s.settings.activeEngine = engineTraefik) :
    Keeps (Spares (Generated p s)) (traefikGenerate p s (engineDir p s.settings engineTraefik)) := by
  have groups : fileGroups p s = traefikGroups p s (engineDir p s.settings engineTraefik) := by
    unfold fileGroups
    rw [active]
    rfl
  refine keepsBind askSpares fun _ => keepsBind askSpares fun _ => ?_
  exact groupsGenerated fun g mem => groups ▸ mem

theorem fiberSpares (active : s.settings.activeEngine = engineFiber) : Keeps (Spares (Generated p s)) (applyFiber p true s) := by
  have groups : fileGroups p s = [[(routesFile p s,.routes (fiberTable p s))]] := by
    unfold fileGroups
    rw [active]
    rfl
  have listed : [(routesFile p s,.routes (fiberTable p s))] ∈ fileGroups p s := by
    rw [groups]
    exact List.mem_singleton_self _
  have written : Keeps (Spares (Generated p s)) (writeFile (routesFile p s) (.routes (fiberTable p s))) :=
    writeFileSpares (.inl ⟨_,listed,_,List.mem_singleton_self _,.inl rfl⟩) (.inl ⟨_,listed,_,List.mem_singleton_self _,.inr rfl⟩)
  have generated : Keeps (Spares (Generated p s)) (GenerateFiber p s) := by
    refine keepsBind (keepsBind askSpares fun made => ?_) fun dir => ?_
    · cases made with
      | true => exact keepsPure _
      | false => exact keepsPure _
    · cases dir with
      | none => exact keepsPure _
      | some dir =>
        refine keepsBind written fun ok => ?_
        cases ok with
        | true => exact keepsPure _
        | false => exact keepsPure _
  refine keepsBind generated fun r => ?_
  obtain ⟨files,err⟩ := r
  cases err with
  | none => exact keepsPure _
  | some e => exact keepsPure _

theorem configDirGives (settings : SettingsRow) (engine : String) :
    Gives (fun dir => dir = none ∨ dir = some (engineDir p settings engine)) (ConfigDirFor p settings engine) := by
  refine givesBind fun made => ?_
  cases made with
  | true => exact givesPure (.inr rfl)
  | false => exact givesPure (.inl rfl)

theorem engineSpares {engine : String} {generate : Path → StateM World (List Path × Bool)}
    (spares : Keeps (Spares (Generated p s)) (generate (engineDir p s.settings engine))) :
    Keeps (Spares (Generated p s)) (applyEngine p true s engine generate) := by
  have placed : Keeps (Spares (Generated p s)) (ConfigDirFor p s.settings engine) := by
    refine keepsBind askSpares fun made => ?_
    cases made with
    | true => exact keepsPure _
    | false => exact keepsPure _
  refine keepsGiven placed (configDirGives s.settings engine) fun dir here => ?_
  rcases here with rfl | rfl
  · exact keepsPure _
  · refine keepsBind spares fun r => ?_
    obtain ⟨files,ok⟩ := r
    cases ok with
    | false => exact keepsPure _
    | true => exact keepsPure _

theorem activeSpares : Keeps (Spares (Generated p s)) (applyActive p true s) := by
  unfold applyActive
  dsimp only
  split
  · rename_i active
    exact fiberSpares active
  · split
    · rename_i active
      exact engineSpares (nginxSpares active)
    · split
      · rename_i active
        exact engineSpares (traefikSpares active)
      · exact keepsPure _

theorem spareMore {few many : Path → Prop} {w w' : World} (within : ∀ q, few q → many q) (spares : Spares few w w') : Spares many w w' :=
  ⟨spares.flags,spares.table,fun q free => spares.files q (fun touched => free (within q touched))⟩

end

/- What a preview of these rows writes. -/
def Previewed (p : Process) (w : World) (q : Path) : Prop := ∃ s, ((LoadSnapshot p).run w).1 = some s ∧ Generated p s q

theorem previewKeeps {p : Process} {w : World} : Spares (Previewed p w) w ((Apply p true).run w).2 := by
  unfold Apply
  refine keepsThen (loadSnapshotSpares w) ?_
  cases loaded : ((LoadSnapshot p).run w).1 with
  | none => exact keepsPure _
  | some s =>
    have within : ∀ q, Generated p s q → Previewed p w q := fun q here => ⟨s,loaded,here⟩
    dsimp only
    split
    · exact keepsPure _
    · refine keepsBind askSpares fun made => ?_
      cases made with
      | false => exact keepsPure _
      | true =>
        refine keepsBind keepsGet fun v => keepsBind (changeSpares fun w => ⟨rfl,rfl,fun _ _ => rfl⟩) fun recorded => ?_
        cases recorded with
        | false => exact keepsPure _
        | true =>
          refine keepsBind (fun w => spareMore within (activeSpares w)) fun r => ?_
          exact keepsBind (changeSpares fun w => ⟨rfl,rfl,fun _ _ => rfl⟩) (fun _ => keepsPure _)

/- A program that, where it has no result, has changed no file. -/
def Early (x : StateM World (Option ApplyResult × Option ApplyError)) : Prop :=
  ∀ w, (x.run w).1.1 = none → Spares (fun _ => False) w (x.run w).2

theorem earlyKept {x : StateM World (Option ApplyResult × Option ApplyError)} (kept : Keeps (Spares fun _ => False) x) : Early x :=
  fun w _ => kept w

theorem earlyBind {α : Type} {x : StateM World α} {f : α → StateM World (Option ApplyResult × Option ApplyError)}
    (first : Keeps (Spares fun _ => False) x) (rest : ∀ a, Early (f a)) : Early (x >>= f) :=
  fun w missing => IsTrans.trans _ _ _ (first w) (rest _ _ missing)

theorem recordedResult {p : Process} {previewOnly : Bool} {s : ApplySnapshot} {i : Nat} :
    Gives (fun r => r.1 ≠ none) (applyRecorded p previewOnly s i) := by
  refine givesBind fun r => givesBind fun _ => ?_
  cases previewOnly with
  | false => exact givesBind fun _ => givesPure (Option.some_ne_none _)
  | true => exact givesPure (Option.some_ne_none _)

theorem applyEarly {p : Process} {previewOnly : Bool} : Early (Apply p previewOnly) := by
  refine earlyBind loadSnapshotSpares fun loaded => ?_
  cases loaded with
  | none => exact earlyKept (keepsPure _)
  | some s =>
    dsimp only
    split
    · exact earlyKept (keepsPure _)
    · refine earlyBind askSpares fun made => ?_
      cases made with
      | false => exact earlyKept (keepsPure _)
      | true =>
        refine earlyBind keepsGet fun v => earlyBind (changeSpares fun w => ⟨rfl,rfl,fun _ _ => rfl⟩) fun recorded => ?_
        cases recorded with
        | false => exact earlyKept (keepsPure _)
        | true =>
          -- the run is on record, and there is a result from here on
          intro w missing
          exact absurd missing (recordedResult w)

/- Whatever fails, what tells of the last Apply, the route table and the files that are not
generated are as before; and so is every file where no run came about. -/
theorem previewSpares {p : Process} {w : World} : Spares (Previewed p w) w ((Apply p true).run w).2 ∧
    (((Apply p true).run w).1.1 = none → ∀ q, ((Apply p true).run w).2.files.get q = w.files.get q) :=
  ⟨previewKeeps,fun missing q => (applyEarly w missing).files q id⟩

/- What a running engine reads of its directory. -/
def EngineReads (dir : Path) (engine : String) (q : Path) : Prop :=
  engine = engineNginx ∧ (q = dir ++ ["nginx.conf"] ∨ ∃ n, q = dir ++ ["conf.d",n] ∧ isConf n = true ∨ q = dir ++ ["ssl",n]) ∨
    engine = engineTraefik ∧ (q = dir ++ ["traefik.yml"] ∨ ∃ n, q = dir ++ ["dynamic",n] ∨ q = dir ++ ["ssl",n])

/- A host was deleted; nginx still runs with its file. -/
def staleHost : World where
  settings := some { defaultSettings with activeEngine := engineNginx, configDir := "/config/containerws/proxymanager", dirty := false }
  hosts := []
  redirects := []
  certificates := []
  runs := []
  files := ⟨[(["config","containerws","proxymanager","nginx","conf.d","host-000-a.conf"],.other "server")]⟩
  table := none
  now := 0
  plan := []

def plainProcess : Process := ⟨ascii,fun _ => true,[],"/config/containerws/proxymanager","",fun _ _ _ => pure true⟩

theorem previewDeletes : ¬∀ {p : Process} {w : World} {s : ApplySnapshot}, ((LoadSnapshot p).run w).1 = some s → ∀ engine q,
    EngineReads (engineDir p s.settings engine) engine q → ((Apply p true).run w).2.files.get q = w.files.get q := by
  intro leaves
  obtain ⟨s,loaded,dir⟩ : ∃ s, ((LoadSnapshot plainProcess).run staleHost).1 = some s ∧
      engineDir plainProcess s.settings engineNginx = ["config","containerws","proxymanager","nginx"] := ⟨_,rfl,by decide⟩
  have same := leaves loaded engineNginx (["config","containerws","proxymanager","nginx"] ++ ["conf.d","host-000-a.conf"])
    (.inl ⟨rfl,.inr ⟨"host-000-a.conf",.inl ⟨by rw [dir],by decide⟩⟩⟩)
  have kept := congrArg Option.isSome same
  exact absurd kept (by decide)

end

end ContainerWS.Proxy
