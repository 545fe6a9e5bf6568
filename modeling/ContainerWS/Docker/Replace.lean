import ContainerWS.Docker.Create
import Mathlib.Data.List.Nodup

/-! `UpdateAPI` and `RecreateAPI` of modules/docker/containers/handlers.go: the old container
is stopped and removed before its replacement is created. Every call to the engine takes
effect or reports an error. -/
namespace ContainerWS.Docker
open GoStrings

/- A container, its name without the leading separator. -/
structure Container where
  id : String
  name : String
  imageID : String
  spec : Spec
  running : Bool
  named : name ≠ ""

/- The containers of an engine, of which no two have one name, and the images it has. -/
structure Engine where
  containers : List Container
  images : List String
  distinct : (containers.map Container.name).Nodup

/- What a call reports instead of taking effect. -/
abbrev Fault := Option String

structure Faults where
  client : Fault
  inspect : Fault
  stop : Fault
  remove : Fault
  imageInspect : Fault
  pull : Fault
  create : Fault
  start : Fault
  inspectCreated : Fault

/- The id and, where the request gives none, the name that the engine makes up. -/
structure Chosen where
  id : String
  name : String
  imageID : String
  named : name ≠ ""

inductive Failure where
  | invalidBody (message : String)
  | validation (message : String)
  | engine (message : String)
  | crash

def call (f : Fault) : Except Failure Unit :=
  match f with
  | some message => .error (.engine message)
  | none => .ok ()

namespace Engine

def ContainerInspect (e : Engine) (id : String) : Option Container := e.containers.find? (fun c => c.id = id)

def mapContainers (e : Engine) (f : Container → Container) (keeps : ∀ c, (f c).name = c.name) : Engine where
  containers := e.containers.map f
  images := e.images
  distinct := by
    have same : (e.containers.map f).map Container.name = e.containers.map Container.name := by
      rw [List.map_map]
      exact List.map_congr_left (fun c _ => keeps c)
    rw [same]
    exact e.distinct

def setRunning (e : Engine) (id : String) (running : Bool) : Engine :=
  e.mapContainers (fun c => if c.id = id then { c with running := running } else c) (fun c => by split <;> rfl)

/- An error of a stop is ignored. -/
def ContainerStop (e : Engine) (f : Fault) (id : String) : Engine := if f.isSome then e else e.setRunning id false

def ContainerRemove (e : Engine) (id : String) : Engine where
  containers := e.containers.filter (fun c => c.id ≠ id)
  images := e.images
  distinct := e.distinct.sublist (List.filter_sublist.map _)

def ImagePull (e : Engine) (image : String) : Engine := { e with images := image :: e.images }

def hasName (e : Engine) (name : String) : Bool := e.containers.any (fun c => c.name = name)

def add (e : Engine) (c : Container) (free : e.hasName c.name = false) : Engine where
  containers := e.containers ++ [c]
  images := e.images
  distinct := by
    rw [List.map_append,List.nodup_append]
    refine ⟨e.distinct,List.nodup_singleton _,?_⟩
    intro a old b new same
    obtain ⟨d,mem,rfl⟩ := List.mem_map.mp old
    rw [List.map_singleton,List.mem_singleton] at new
    have taken : e.hasName c.name = true := List.any_eq_true.mpr ⟨d,mem,by simp [same,new]⟩
    cases free.symm.trans taken

/- A name can be given once. -/
def ContainerCreate (e : Engine) (f : Fault) (new : Container) : Except Failure Unit × Engine :=
  match f with
  | some message => (.error (.engine message),e)
  | none =>
    if free : e.hasName new.name = false then (.ok (),e.add new free)
    else (.error (.engine "name in use"),e)

end Engine

def Chosen.container (chosen : Chosen) (name : String) (spec : Spec) : Container where
  id := chosen.id
  name := if name = "" then chosen.name else name
  imageID := chosen.imageID
  spec := spec
  running := false
  named := by
    split
    · exact chosen.named
    · assumption

/- What `createFromBody` does once the spec is known. -/
def createAndStart (f : Faults) (e : Engine) (chosen : Chosen) (name : String) (spec : Spec) (start : Bool) :
    Except Failure Unit × Engine :=
  match e.ContainerCreate f.create (chosen.container name spec) with
  | (.error failure,e) => (.error failure,e)
  | (.ok _,e) =>
    if start then
      match f.start with
      | some message => (.error (.engine message),e)
      | none => (.ok (),e.setRunning chosen.id true)
    else (.ok (),e)

/- The image is looked for and, where the body wants it, pulled. -/
def resolveImage (f : Faults) (e : Engine) (body : CreateBody) : Except Failure Unit × Engine :=
  let image := trimSpace body.image
  let missing := f.imageInspect.isSome || !e.images.contains image
  if body.alwaysPull || (body.pullIfMissing && missing) then
    match f.pull with
    | some message => (.error (.engine message),e)
    | none => (.ok (),e.ImagePull image)
  else if missing then (.error (.validation "image not found locally; enable Always pull or pull the image first"),e)
  else (.ok (),e)

variable (lib : Library) (m : CaseMap) (f : Faults) (e : Engine) (chosen : Chosen)

def createFromBody (body : CreateBody) : Except Failure Unit × Engine :=
  if trimSpace body.image = "" then (.error (.validation "image is required"),e) else
  match resolveImage f e body with
  | (.error failure,e) => (.error failure,e)
  | (.ok _,e) =>
    match readBody lib m body with
    | .error message => (.error (.validation message),e)
    | .ok spec => createAndStart f e chosen (trimSpace body.name) spec (body.start.getD true)

/- The body as it was bound, or why it could not be. -/
def UpdateAPI (id : String) (body : Except String CreateBody) : Except Failure Unit × Engine :=
  match f.client with
  | some message => (.error (.engine message),e)
  | none =>
  match body with
  | .error message => (.error (.invalidBody message),e)
  | .ok body =>
  match f.inspect,e.ContainerInspect id with
  | some message,_ => (.error (.engine message),e)
  | none,none => (.error (.engine "no such container"),e)
  | none,some old =>
    let body := if trimSpace body.name = "" then { body with name := old.name } else body
    let e := e.ContainerStop f.stop id
    match f.remove with
    | some message => (.error (.engine message),e)
    | none => createFromBody lib m f (e.ContainerRemove id) chosen body

/- The replacement is created from what the inspection gave. -/
def RecreateAPI (id : String) (pull : Bool) : Except Failure Unit × Engine :=
  match f.client with
  | some message => (.error (.engine message),e)
  | none =>
  match f.inspect,e.ContainerInspect id with
  | some message,_ => (.error (.engine message),e)
  | none,none => (.error (.engine "no such container"),e)
  | none,some old =>
    let image := if trimSpace old.spec.config.image = "" then trimSpace old.imageID else trimSpace old.spec.config.image
    if (pull && image ≠ "") && f.pull.isSome then (.error (.engine (f.pull.getD "")),e) else
    let e := if pull && image ≠ "" then e.ImagePull image else e
    let e := e.ContainerStop f.stop id
    match f.remove with
    | some message => (.error (.engine message),e)
    | none =>
      match createAndStart f (e.ContainerRemove id) chosen old.name old.spec old.running with
      | (.error failure,e) => (.error failure,e)
      -- The report of the new container is read without looking at the error.
      | (.ok _,e) => (if f.inspectCreated.isSome then .error .crash else .ok (),e)

inductive Request where
  | update (body : Except String CreateBody)
  | recreate (pull : Bool)

def answer (id : String) : Request → Except Failure Unit × Engine
  | .update body => UpdateAPI lib m f e chosen id body
  | .recreate pull => RecreateAPI f e chosen id pull

/- With an error a container of the old name and configuration is still there. -/
def KeepsOriginal (old : Container) (r : Except Failure Unit × Engine) : Prop :=
  ∀ failure, r.1 = .error failure → ∃ d ∈ r.2.containers, d.name = old.name ∧ d.spec = old.spec

/- The image is there, or it can be pulled where the body wants that. -/
def ImageComes (images : List String) (body : CreateBody) : Prop :=
  if body.alwaysPull || (body.pullIfMissing && (f.imageInspect.isSome || !images.contains (trimSpace body.image))) then f.pull = none
  else f.imageInspect = none ∧ trimSpace body.image ∈ images

/- The name of a replacement. -/
def replacedName (old : Container) (body : CreateBody) : String :=
  let name := trimSpace (if trimSpace body.name = "" then old.name else body.name)
  if name = "" then chosen.name else name

/- The replacement that a body asks for comes to be, and if it cannot be started it is the same as the old one. -/
def Replaces (old : Container) (body : CreateBody) : Prop :=
  trimSpace body.image ≠ "" ∧ ImageComes f e.images body ∧ ∃ spec, readBody lib m body = .ok spec ∧
    f.create = none ∧ (∀ d ∈ e.containers, d.id ≠ old.id → d.name ≠ replacedName chosen old body) ∧
    (body.start.getD true = false ∨ f.start = none ∨ replacedName chosen old body = old.name ∧ spec = old.spec)

/- Nothing fails between the removal of the old container and the creation of the new one. -/
def Spares (old : Container) : Request → Prop
  | .update (.error _) => True
  | .update (.ok body) => f.client.isSome ∨ f.inspect.isSome ∨ f.remove.isSome ∨ Replaces lib m f e chosen old body
  | .recreate pull => f.client.isSome ∨ f.inspect.isSome ∨
      (pull = true ∧ (trimSpace old.spec.config.image ≠ "" ∨ trimSpace old.imageID ≠ "") ∧ f.pull.isSome) ∨ f.remove.isSome ∨
      f.create = none

variable {lib m f e chosen}

theorem hasNameIff {name : String} : e.hasName name = true ↔ ∃ d ∈ e.containers, d.name = name := by
  simp [Engine.hasName]

/- A stop leaves the containers what they are. -/
theorem stopMem {s : Fault} {id : String} {d : Container} (mem : d ∈ (e.ContainerStop s id).containers) :
    ∃ c ∈ e.containers, c.id = d.id ∧ c.name = d.name ∧ c.spec = d.spec := by
  unfold Engine.ContainerStop at mem
  split at mem
  · exact ⟨d,mem,rfl,rfl,rfl⟩
  · obtain ⟨c,here,rfl⟩ := List.mem_map.mp mem
    refine ⟨c,here,?_⟩
    split <;> exact ⟨rfl,rfl,rfl⟩

theorem memStop (s : Fault) (id : String) {c : Container} (mem : c ∈ e.containers) :
    ∃ d ∈ (e.ContainerStop s id).containers, d.id = c.id ∧ d.name = c.name ∧ d.spec = c.spec := by
  unfold Engine.ContainerStop
  split
  · exact ⟨c,mem,rfl,rfl,rfl⟩
  · refine ⟨_,List.mem_map_of_mem mem,?_⟩
    split <;> exact ⟨rfl,rfl,rfl⟩

/- The names that are left when a container has been stopped and removed. -/
theorem removedName (s : Fault) (id name : String) :
    ((e.ContainerStop s id).ContainerRemove id).hasName name = true ↔ ∃ d ∈ e.containers, d.id ≠ id ∧ d.name = name := by
  rw [hasNameIff]
  constructor
  · rintro ⟨d,mem,names⟩
    obtain ⟨here,other⟩ := List.mem_filter.mp mem
    obtain ⟨c,old,same,name',_⟩ := stopMem here
    exact ⟨c,old,by simpa [same] using other,name'.trans names⟩
  · rintro ⟨c,mem,other,names⟩
    obtain ⟨d,here,same,name',_⟩ := memStop s id mem
    exact ⟨d,List.mem_filter.mpr ⟨here,by simpa [same] using other⟩,name'.trans names⟩

theorem stopImages (s : Fault) (id : String) : (e.ContainerStop s id).images = e.images := by
  unfold Engine.ContainerStop
  split <;> rfl

/- Where the old container is gone, only the new one can stand for it. -/
theorem createdKeeps {old : Container} {name : String} {spec : Spec} {start : Bool} (gone : e.hasName old.name = false) :
    KeepsOriginal old (createAndStart f e chosen name spec start) ↔
      f.create = none ∧ e.hasName (chosen.container name spec).name = false ∧
        (start = false ∨ f.start = none ∨ (chosen.container name spec).name = old.name ∧ spec = old.spec) := by
  have lost : ¬∃ d ∈ e.containers, d.name = old.name ∧ d.spec = old.spec := by
    rintro ⟨d,mem,names,_⟩
    cases gone.symm.trans (hasNameIff.mpr ⟨d,mem,names⟩)
  unfold createAndStart Engine.ContainerCreate
  cases f.create with
  | some message => exact iff_of_false (fun keeps => lost (keeps _ rfl)) nofun
  | none =>
    by_cases free : e.hasName (chosen.container name spec).name = false
    · rw [dif_pos free]
      dsimp only
      cases start with
      | false => exact iff_of_true nofun ⟨rfl,free,.inl rfl⟩
      | true =>
        cases f.start with
        | none => exact iff_of_true nofun ⟨rfl,free,.inr (.inl rfl)⟩
        | some message =>
          constructor
          · intro keeps
            obtain ⟨d,mem,names,same⟩ := keeps _ rfl
            rcases List.mem_append.mp mem with old | new
            · exact absurd ⟨d,old,names,same⟩ lost
            · rw [List.mem_singleton.mp new] at names same
              exact ⟨rfl,free,.inr (.inr ⟨names,same⟩)⟩
          · rintro ⟨_,_,never | never | ⟨names,same⟩⟩ failure _
            · cases never
            · cases never
            · exact ⟨_,List.mem_append_right _ List.mem_cons_self,names,same⟩
    · rw [dif_neg free]
      exact iff_of_false (fun keeps => lost (keeps _ rfl)) (fun held => free held.2.1)

/- A replacement that was created is there, started or not. -/
theorem createdThere {name : String} {spec : Spec} (start : Bool) (clear : f.create = none)
    (free : e.hasName (chosen.container name spec).name = false) :
    ∃ d ∈ (createAndStart f e chosen name spec start).2.containers, d.name = (chosen.container name spec).name ∧ d.spec = spec := by
  have there : ∃ d ∈ (e.add (chosen.container name spec) free).containers, d.name = (chosen.container name spec).name ∧ d.spec = spec :=
    ⟨_,List.mem_append_right _ List.mem_cons_self,rfl,rfl⟩
  unfold createAndStart Engine.ContainerCreate
  rw [clear]
  dsimp only
  rw [dif_pos free]
  dsimp only
  split
  · cases f.start with
    | some message => exact there
    | none =>
      obtain ⟨d,mem,names,same⟩ := there
      refine ⟨_,List.mem_map_of_mem mem,?_⟩
      split <;> exact ⟨names,same⟩
  · exact there

theorem resolvedContainers (body : CreateBody) : (resolveImage f e body).2.containers = e.containers := by
  unfold resolveImage
  dsimp only
  split
  · cases f.pull <;> rfl
  · split <;> rfl

theorem resolvedOk (body : CreateBody) : (∃ u, (resolveImage f e body).1 = .ok u) ↔ ImageComes f e.images body := by
  unfold resolveImage ImageComes
  dsimp only
  split
  · cases f.pull <;> simp
  · split
    · rename_i missing
      refine iff_of_false nofun ?_
      rintro ⟨seen,there⟩
      simp [seen,there] at missing
    · rename_i here
      refine iff_of_true ⟨(),rfl⟩ ?_
      simpa using here

/- The body of an update after the old container has gone. -/
theorem bodyKeeps {old : Container} {body : CreateBody} (gone : e.hasName old.name = false) :
    KeepsOriginal old (createFromBody lib m f e chosen body) ↔
      trimSpace body.image ≠ "" ∧ ImageComes f e.images body ∧ ∃ spec, readBody lib m body = .ok spec ∧
        f.create = none ∧ e.hasName (chosen.container (trimSpace body.name) spec).name = false ∧
        (body.start.getD true = false ∨ f.start = none ∨
          (chosen.container (trimSpace body.name) spec).name = old.name ∧ spec = old.spec) := by
  have lost (failure : Failure) (e' : Engine) (same : e'.containers = e.containers) :
      ¬KeepsOriginal old (.error failure,e') := by
    intro keeps
    obtain ⟨d,mem,names,_⟩ := keeps failure rfl
    cases gone.symm.trans (hasNameIff.mpr ⟨d,same ▸ mem,names⟩)
  unfold createFromBody
  by_cases blank : trimSpace body.image = ""
  · rw [if_pos blank]
    exact iff_of_false (lost _ e rfl) (fun held => held.1 blank)
  · rw [if_neg blank]
    have comes := resolvedOk (f := f) (e := e) body
    have same := resolvedContainers (f := f) (e := e) body
    cases found : resolveImage f e body with
    | mk r e' =>
      rw [found] at comes same
      have hasSame (name : String) : e'.hasName name = e.hasName name := by rw [Engine.hasName,Engine.hasName,same]
      cases r with
      | error failure =>
        refine iff_of_false (lost failure e' same) ?_
        intro held
        obtain ⟨u,here⟩ := comes.mpr held.2.1
        cases here
      | ok u =>
        dsimp only
        cases read : readBody lib m body with
        | error message => exact iff_of_false (lost _ e' same) (fun ⟨_,_,_,here,_⟩ => nomatch here)
        | ok spec =>
          dsimp only
          rw [createdKeeps ((hasSame old.name).trans gone),hasSame]
          constructor
          · exact fun held => ⟨blank,comes.mp ⟨u,rfl⟩,spec,rfl,held⟩
          · rintro ⟨_,_,_,here,held⟩
            cases here
            exact held

/- An error before the removal leaves the old container. -/
theorem earlyKeeps {old : Container} {e' : Engine} {failure : Failure}
    (there : ∃ d ∈ e'.containers, d.name = old.name ∧ d.spec = old.spec) : KeepsOriginal old (.error failure,e') :=
  fun _ _ => there

section
variable {id : String} {old : Container} (found : e.ContainerInspect id = some old)
include found

theorem foundIs : old ∈ e.containers ∧ old.id = id := by
  refine ⟨List.mem_of_find?_eq_some found,?_⟩
  simpa using List.find?_some found

theorem oldGone (s : Fault) : ((e.ContainerStop s id).ContainerRemove id).hasName old.name = false := by
  obtain ⟨mem,same⟩ := foundIs found
  rw [← Bool.not_eq_true,removedName]
  rintro ⟨d,here,other,names⟩
  have one := List.inj_on_of_nodup_map e.distinct here mem names
  exact other (one ▸ same)

theorem removedFree (s : Fault) (name : String) :
    ((e.ContainerStop s id).ContainerRemove id).hasName name = false ↔ ∀ d ∈ e.containers, d.id ≠ old.id → d.name ≠ name := by
  rw [← Bool.not_eq_true,removedName,(foundIs found).2]
  push Not
  exact Iff.rfl

theorem stillThere (s : Fault) : ∃ d ∈ (e.ContainerStop s id).containers, d.name = old.name ∧ d.spec = old.spec := by
  obtain ⟨d,mem,_,names,spec⟩ := memStop s id (foundIs found).1
  exact ⟨d,mem,names,spec⟩

theorem updateKeeps (body : CreateBody) :
    KeepsOriginal old (UpdateAPI lib m f e chosen id (.ok body)) ↔ Spares lib m f e chosen old (.update (.ok body)) := by
  have there : ∃ d ∈ e.containers, d.name = old.name ∧ d.spec = old.spec := ⟨old,(foundIs found).1,rfl,rfl⟩
  unfold UpdateAPI Spares
  cases f.client with
  | some message => exact iff_of_true (earlyKeeps there) (.inl rfl)
  | none =>
    cases f.inspect with
    | some message => exact iff_of_true (earlyKeeps there) (.inr (.inl rfl))
    | none =>
      rw [found]
      cases f.remove with
      | some message => exact iff_of_true (earlyKeeps (stillThere found f.stop)) (.inr (.inr (.inl rfl)))
      | none =>
        dsimp only
        rw [bodyKeeps (oldGone found f.stop)]
        simp only [Option.isSome_none,Bool.false_eq_true,false_or,removedFree found]
        have images : ((e.ContainerStop f.stop id).ContainerRemove id).images = e.images := stopImages f.stop id
        rw [images]
        by_cases blank : trimSpace body.name = ""
        · simp only [Replaces,replacedName,blank,if_true]
          exact Iff.rfl
        · simp only [Replaces,replacedName,Chosen.container,blank,if_false]

/- A replacement of the same name and configuration is as good as the old one, once it is there. -/
theorem recreatedKeeps :
    KeepsOriginal old (match createAndStart f ((e.ContainerStop f.stop id).ContainerRemove id) chosen old.name old.spec old.running with
      | (.error failure,e) => (.error failure,e)
      | (.ok _,e) => (if f.inspectCreated.isSome then .error .crash else .ok (),e)) ↔ f.create = none := by
  have gone := oldGone found f.stop
  generalize (e.ContainerStop f.stop id).ContainerRemove id = left at gone
  have name : (chosen.container old.name old.spec).name = old.name := if_neg old.named
  have keeps : KeepsOriginal old (createAndStart f left chosen old.name old.spec old.running) ↔ _ := createdKeeps gone
  rw [name] at keeps
  have comes : f.create = none → ∃ d ∈ (createAndStart f left chosen old.name old.spec old.running).2.containers,
      d.name = old.name ∧ d.spec = old.spec := by
    intro clear
    obtain ⟨d,mem,names,spec⟩ := createdThere old.running clear (name.symm ▸ gone)
    exact ⟨d,mem,names.trans name,spec⟩
  cases result : createAndStart f left chosen old.name old.spec old.running with
  | mk r e' =>
    rw [result] at keeps comes
    cases r with
    | error failure => exact keeps.trans ⟨And.left,fun clear => ⟨clear,gone,.inr (.inr ⟨rfl,rfl⟩)⟩⟩
    | ok u =>
      have clear := (keeps.mp nofun).1
      exact iff_of_true (fun _ _ => comes clear) clear

theorem recreateKeeps (pull : Bool) :
    KeepsOriginal old (RecreateAPI f e chosen id pull) ↔ Spares lib m f e chosen old (.recreate pull) := by
  have there : ∃ d ∈ e.containers, d.name = old.name ∧ d.spec = old.spec := ⟨old,(foundIs found).1,rfl,rfl⟩
  unfold RecreateAPI Spares
  cases f.client with
  | some message => exact iff_of_true (earlyKeeps there) (.inl rfl)
  | none =>
    cases f.inspect with
    | some message => exact iff_of_true (earlyKeeps there) (.inr (.inl rfl))
    | none =>
      rw [found]
      dsimp only
      have some : (if trimSpace old.spec.config.image = "" then trimSpace old.imageID else trimSpace old.spec.config.image) ≠ "" ↔
          trimSpace old.spec.config.image ≠ "" ∨ trimSpace old.imageID ≠ "" := by
        split
        · rename_i blank
          simp [blank]
        · rename_i solid
          simp [solid]
      rw [← some]
      generalize (if trimSpace old.spec.config.image = "" then trimSpace old.imageID else trimSpace old.spec.config.image) = image
      by_cases fails : ((pull && image ≠ "") && f.pull.isSome) = true
      · rw [if_pos fails]
        simp only [Bool.and_eq_true,decide_eq_true_eq,ne_eq] at fails
        exact iff_of_true (earlyKeeps there) (.inr (.inr (.inl ⟨fails.1.1,fails.1.2,fails.2⟩)))
      · rw [if_neg fails]
        have late : ¬(pull = true ∧ image ≠ "" ∧ f.pull.isSome = true) := by
          rintro ⟨wanted,known,failed⟩
          exact fails (by simp [wanted,known,failed])
        have pulled : (if pull && image ≠ "" then e.ImagePull image else e).ContainerInspect id = Option.some old := by
          split
          · exact found
          · exact found
        generalize (if pull && image ≠ "" then e.ImagePull image else e) = e' at pulled
        cases f.remove with
        | some message => exact iff_of_true (earlyKeeps (stillThere pulled f.stop)) (.inr (.inr (.inr (.inl rfl))))
        | none =>
          dsimp only
          simp only [late,Option.isSome_none,Bool.false_eq_true,false_or]
          exact recreatedKeeps pulled

end

def plainPorts : Library := ⟨fun proto port => .ok (port ++ "/" ++ proto),fun _ => none,fun _ => 0⟩

def bodyOf (image : String) : CreateBody :=
  ⟨image,"",[],[],[],[],false,[],[],"no",0,"",0,"","","",false,false,false,[],[],[],[],[],[],false,false,none,false,false,"",[]⟩

def webSpec : Spec := specOf plainPorts (bodyOf "nginx") [] 0

def web : Container := ⟨"1","web","sha256:0",webSpec,true,by decide⟩

def oneContainer : Engine := ⟨[web],["nginx"],List.nodup_singleton _⟩

def noFaults : Faults := ⟨none,none,none,none,none,none,none,none,none⟩

def sampleChosen : Chosen := ⟨"2","fresh","sha256:0",by decide⟩

end ContainerWS.Docker
