import ContainerWS.Decimals
import ContainerWS.Docker.EditedPorts

/-! A container that is loaded into the edit page and saved again without a change: when the
container that takes its place has what the old one had. -/
namespace ContainerWS.Docker
open GoStrings TextRows

/- A container as the page finds it. An id is given once, a name has no blanks around it,
labels and ports are maps, and a limit of memory is a number of 64 bits. -/
structure Edited where
  engine : Engine
  old : Container
  found : engine.ContainerInspect old.id = some old
  mounts : List Mount
  state : String
  chosen : Chosen
  fresh : ∀ c ∈ engine.containers, c.id ≠ chosen.id
  solidName : trimSpace (trim old.name) = old.name
  labels : (old.spec.config.labels.map Prod.fst).Nodup
  ports : (old.spec.host.portBindings.map Prod.fst).Nodup
  memory : old.spec.host.memory < 2^63

variable (rt : Runtime)

/- The page is saved as it was loaded. -/
def resubmit (x : Edited) : Option (Except Failure Unit × Engine) :=
  (buildBody rt (load rt x.old x.mounts x.state)).map
    (fun body => UpdateAPI rt.toLibrary rt.lower noFaults x.engine x.chosen x.old.id (decoded rt body))

/- The settings of two containers agree; labels and ports are compared as maps. -/
structure SameSettings (new old : Spec) : Prop where
  cmd : new.config.cmd = old.config.cmd
  entrypoint : new.config.entrypoint = old.config.entrypoint
  env : new.config.env = old.config.env
  labels : ∀ key, new.config.labels.lookup key = old.config.labels.lookup key
  binds : new.host.binds = old.host.binds
  portBindings : ∀ key, new.host.portBindings.lookup key = old.host.portBindings.lookup key
  devices : new.host.devices = old.host.devices
  memory : new.host.memory = old.host.memory
  restartPolicy : new.host.restartPolicy = old.host.restartPolicy

/- There is a new container, and it has the settings of the old one. -/
def RoundTrips (x : Edited) : Prop :=
  ∃ r, resubmit rt x = some r ∧ ∃ d ∈ r.2.containers, d.id = x.chosen.id ∧ SameSettings d.spec x.old.spec

/- The image is there, and nothing of the settings is lost on the page. -/
structure Editable (x : Edited) : Prop where
  image : trimSpace (trim x.old.spec.config.image) ≠ "" ∧ trimSpace (trim x.old.spec.config.image) ∈ x.engine.images
  cmd : ∀ part ∈ x.old.spec.config.cmd, Word part
  entrypoint : ∀ part ∈ x.old.spec.config.entrypoint, Word part
  env : ∀ line ∈ x.old.spec.config.env, Named line
  labels : ∀ e ∈ x.old.spec.config.labels, LabelKept e.1
  binds : ∀ bind ∈ x.old.spec.host.binds, BindKept bind
  mounts : x.old.spec.host.binds = [] → ∀ m ∈ x.mounts, ¬Mounted m
  ports : PortsKept rt x.old.spec.host.portBindings
  devices : ∀ d ∈ x.old.spec.host.devices, DeviceKept d
  memory : 0 ≤ x.old.spec.host.memory ∧ rt.double x.old.spec.host.memory = x.old.spec.host.memory
  restartName : x.old.spec.host.restartPolicy.name ≠ "" ∧
    trimSpace x.old.spec.host.restartPolicy.name = x.old.spec.host.restartPolicy.name
  restartCount : rt.readInt (rt.string (rt.double x.old.spec.host.restartPolicy.maximumRetryCount)) =
    some x.old.spec.host.restartPolicy.maximumRetryCount

section
variable {lib : Library} {m : CaseMap} {e : Engine} {chosen : Chosen} {P : Spec → Prop}

/- Only the new container has the new id. -/
theorem createdOnly {f : Faults} {name : String} {spec : Spec} {start : Bool} (clear : f.create = none)
    (free : e.hasName (chosen.container name spec).name = false) (fresh : ∀ c ∈ e.containers, c.id ≠ chosen.id) :
    (∃ d ∈ (createAndStart f e chosen name spec start).2.containers, d.id = chosen.id ∧ P d.spec) ↔ P spec := by
  have added : (∃ d ∈ (e.add (chosen.container name spec) free).containers, d.id = chosen.id ∧ P d.spec) ↔ P spec := by
    constructor
    · rintro ⟨d,mem,same,held⟩
      rcases List.mem_append.mp mem with old | new
      · exact absurd same (fresh d old)
      · rwa [List.mem_singleton.mp new] at held
    · exact fun held => ⟨_,List.mem_append_right _ List.mem_cons_self,rfl,held⟩
  have running : (∃ d ∈ ((e.add (chosen.container name spec) free).setRunning chosen.id true).containers, d.id = chosen.id ∧ P d.spec) ↔
      P spec := by
    have kept (c : Container) : (if c.id = chosen.id then { c with running := true } else c).id = c.id ∧
        (if c.id = chosen.id then { c with running := true } else c).spec = c.spec := by
      split <;> exact ⟨rfl,rfl⟩
    rw [← added]
    constructor
    · rintro ⟨d,mem,same,held⟩
      obtain ⟨c,here,rfl⟩ := List.mem_map.mp mem
      exact ⟨c,here,(kept c).1.symm.trans same,(kept c).2 ▸ held⟩
    · rintro ⟨c,mem,same,held⟩
      exact ⟨_,List.mem_map_of_mem mem,(kept c).1.trans same,(kept c).2.symm ▸ held⟩
  unfold createAndStart Engine.ContainerCreate
  rw [clear]
  dsimp only
  rw [dif_pos free]
  dsimp only
  split
  · cases f.start with
    | some message => exact added
    | none => exact running
  · exact added

theorem updateCreates {id : String} {old : Container} (body : CreateBody) (found : e.ContainerInspect id = some old)
    (fresh : ∀ c ∈ e.containers, c.id ≠ chosen.id) (name : trimSpace body.name = old.name) (always : body.alwaysPull = false)
    (missing : body.pullIfMissing = false) :
    (∃ d ∈ (UpdateAPI lib m noFaults e chosen id (.ok body)).2.containers, d.id = chosen.id ∧ P d.spec) ↔
      trimSpace body.image ≠ "" ∧ trimSpace body.image ∈ e.images ∧ ∃ spec, readBody lib m body = .ok spec ∧ P spec := by
  have real : trimSpace body.name ≠ "" := name ▸ old.named
  have update : UpdateAPI lib m noFaults e chosen id (.ok body) =
      createFromBody lib m noFaults ((e.ContainerStop none id).ContainerRemove id) chosen body := by
    unfold UpdateAPI
    rw [found]
    change createFromBody lib m noFaults _ chosen (if trimSpace body.name = "" then _ else body) = _
    rw [if_neg real]
    rfl
  have images : ((e.ContainerStop none id).ContainerRemove id).images = e.images := rfl
  have gone : ((e.ContainerStop none id).ContainerRemove id).hasName old.name = false := oldGone found none
  have ids : ∀ c ∈ ((e.ContainerStop none id).ContainerRemove id).containers, c.id ≠ chosen.id := by
    intro c mem
    obtain ⟨d,there,same,_⟩ := stopMem (List.mem_of_mem_filter mem)
    exact same ▸ fresh d there
  rw [update]
  generalize (e.ContainerStop none id).ContainerRemove id = left at images gone ids
  have lost (r : Except Failure Unit) : ¬∃ d ∈ (r,left).2.containers, d.id = chosen.id ∧ P d.spec :=
    fun ⟨d,mem,same,_⟩ => ids d mem same
  unfold createFromBody
  by_cases blank : trimSpace body.image = ""
  · rw [if_pos blank]
    exact iff_of_false (lost _) (fun held => held.1 blank)
  · rw [if_neg blank]
    unfold resolveImage
    dsimp only
    rw [always,missing,images]
    by_cases here : trimSpace body.image ∈ e.images
    · have pulls : (false || (false && (noFaults.imageInspect.isSome || !e.images.contains (trimSpace body.image)))) = false := by simp
      have known : (noFaults.imageInspect.isSome || !e.images.contains (trimSpace body.image)) = false := by simpa [noFaults] using here
      rw [pulls,known,if_neg Bool.false_ne_true,if_neg Bool.false_ne_true]
      dsimp only
      cases read : readBody lib m body with
      | error message => exact iff_of_false (lost _) (fun ⟨_,_,_,never,_⟩ => nomatch never)
      | ok spec =>
        dsimp only
        have given : (chosen.container (trimSpace body.name) spec).name = old.name := (if_neg real).trans name
        have free : left.hasName (chosen.container (trimSpace body.name) spec).name = false := given ▸ gone
        rw [createdOnly rfl free ids]
        constructor
        · exact fun held => ⟨blank,here,spec,rfl,held⟩
        · rintro ⟨_,_,_,same,held⟩
          cases same
          exact held
    · have pulls : (false || (false && (noFaults.imageInspect.isSome || !e.images.contains (trimSpace body.image)))) = false := by simp
      have unknown : (noFaults.imageInspect.isSome || !e.images.contains (trimSpace body.image)) = true := by simpa [noFaults] using here
      rw [pulls,unknown,if_neg Bool.false_ne_true,if_pos rfl]
      exact iff_of_false (lost _) (fun held => here held.2.1)

end

theorem readBodyOk {lib : Library} {m : CaseMap} {body : CreateBody} {spec : Spec} :
    readBody lib m body = .ok spec ↔ ∃ bindings mem, parsePortBindings lib m body.ports = .ok bindings ∧
      parseMemory lib m body.memory = .ok mem ∧ specOf lib body bindings mem = spec := by
  unfold readBody
  cases parsePortBindings lib m body.ports with
  | error message => exact iff_of_false nofun (fun ⟨_,_,never,_⟩ => nomatch never)
  | ok bindings =>
    cases parseMemory lib m body.memory with
    | error message => exact iff_of_false nofun (fun ⟨_,_,_,never,_⟩ => nomatch never)
    | ok mem =>
      constructor
      · intro same
        exact ⟨bindings,mem,rfl,rfl,Except.ok.inj same⟩
      · rintro ⟨b,n,same,read,whole⟩
        cases same
        cases read
        exact congrArg Except.ok whole

variable {rt}

/- What the server decides on of the request. -/
theorem bodyFields {x : Edited} {body : CreateBody} (built : buildBody rt (load rt x.old x.mounts x.state) = some body) :
    body.image = trim x.old.spec.config.image ∧ body.name = trim x.old.name ∧ body.alwaysPull = false ∧ body.pullIfMissing = false ∧
      body.restartRetries = rt.double x.old.spec.host.restartPolicy.maximumRetryCount := by
  unfold buildBody at built
  split at built
  · cases built
  · cases built
    exact ⟨rfl,rfl,rfl,rfl,rt.numberString _ (rt.doubleTwice _)⟩

/- The new container has the old settings exactly where each field has come back. -/
theorem settingsBack {x : Edited} {body : CreateBody} (built : buildBody rt (load rt x.old x.mounts x.state) = some body) (retries : Int) :
    (∃ spec, readBody rt.toLibrary rt.lower { body with restartRetries := retries } = .ok spec ∧ SameSettings spec x.old.spec) ↔
      ((∀ part ∈ x.old.spec.config.cmd, Word part) ∧ (∀ part ∈ x.old.spec.config.entrypoint, Word part) ∧
      (∀ line ∈ x.old.spec.config.env, Named line) ∧ (∀ e ∈ x.old.spec.config.labels, LabelKept e.1) ∧
      ((∀ bind ∈ x.old.spec.host.binds, BindKept bind) ∧ (x.old.spec.host.binds = [] → ∀ m ∈ x.mounts, ¬Mounted m))) ∧
      PortsKept rt x.old.spec.host.portBindings ∧ (∀ d ∈ x.old.spec.host.devices, DeviceKept d) ∧
      (0 ≤ x.old.spec.host.memory ∧ rt.double x.old.spec.host.memory = x.old.spec.host.memory) ∧
      (x.old.spec.host.restartPolicy.name ≠ "" ∧
        trimSpace x.old.spec.host.restartPolicy.name = x.old.spec.host.restartPolicy.name) ∧
      retries = x.old.spec.host.restartPolicy.maximumRetryCount := by
  have image : trim (load rt x.old x.mounts x.state).image ≠ "" := by
    intro blank
    rw [buildBody,if_pos blank] at built
    cases built
  rw [buildBody,if_neg image] at built
  cases built
  rw [← wordsLoaded,← wordsLoaded,← envLoaded,← labelsLoaded x.labels,← volumesLoaded,← portsLoaded rt x.ports,← devicesLoaded,
    ← memoryLoaded rt x.memory.le,← restartLoaded]
  constructor
  · rintro ⟨spec,read,same⟩
    obtain ⟨bindings,mem,ports,memory,rfl⟩ := readBodyOk.mp read
    have devices := same.devices
    simp only [specOf,load] at devices
    exact ⟨⟨same.cmd,same.entrypoint,same.env,same.labels,same.binds⟩,⟨bindings,ports,same.portBindings⟩,devices,
      ⟨mem,memory,same.memory⟩,same.restartPolicy⟩
  · rintro ⟨⟨cmd,entrypoint,env,labels,binds⟩,⟨bindings,ports,portBindings⟩,devices,⟨mem,read,memory⟩,restart⟩
    refine ⟨_,readBodyOk.mpr ⟨bindings,mem,ports,read,rfl⟩,?_⟩
    constructor
    case cmd => exact cmd
    case entrypoint => exact entrypoint
    case env => exact env
    case labels => exact labels
    case binds => exact binds
    case portBindings => exact portBindings
    case devices =>
      simp only [specOf,load]
      exact devices
    case memory => exact memory
    case restartPolicy => exact restart

/- A container that is saved as it was loaded comes back with its settings exactly when each of them
is one that the page can write. -/
theorem resubmitKeeps (rt : Runtime) (x : Edited) : RoundTrips rt x ↔ Editable rt x := by
  unfold RoundTrips resubmit
  cases built : buildBody rt (load rt x.old x.mounts x.state) with
  | none =>
    refine iff_of_false (fun ⟨_,never,_⟩ => nomatch never) ?_
    intro held
    have blank : trimSpace "" = "" := by decide
    unfold buildBody at built
    split at built
    · rename_i none
      have none : trim x.old.spec.config.image = "" := none
      apply held.image.1
      rw [none]
      exact blank
    · cases built
  | some body =>
    obtain ⟨image,name,always,missing,retries⟩ := bodyFields built
    have result : (∃ r, some (UpdateAPI rt.toLibrary rt.lower noFaults x.engine x.chosen x.old.id (decoded rt body)) = some r ∧
          ∃ d ∈ r.2.containers, d.id = x.chosen.id ∧ SameSettings d.spec x.old.spec) ↔
        ∃ d ∈ (UpdateAPI rt.toLibrary rt.lower noFaults x.engine x.chosen x.old.id (decoded rt body)).2.containers,
          d.id = x.chosen.id ∧ SameSettings d.spec x.old.spec := by
      constructor
      · rintro ⟨r,same,held⟩
        rwa [Option.some_inj.mp same]
      · exact fun held => ⟨_,rfl,held⟩
    rw [Option.map_some,result,decoded,retries]
    cases count : rt.readInt (rt.string (rt.double x.old.spec.host.restartPolicy.maximumRetryCount)) with
    | none =>
      refine iff_of_false ?_ (fun held => nomatch count.symm.trans held.restartCount)
      rintro ⟨d,mem,same,_⟩
      exact x.fresh d mem same
    | some n =>
      dsimp only
      rw [updateCreates (P := fun spec => SameSettings spec x.old.spec) { body with restartRetries := n } x.found x.fresh
        (name.symm ▸ x.solidName) always missing,settingsBack built n]
      dsimp only
      rw [image]
      constructor
      · rintro ⟨solid,here,⟨cmd,entrypoint,env,labels,binds,mounts⟩,ports,devices,memory,restart,rfl⟩
        exact ⟨⟨solid,here⟩,cmd,entrypoint,env,labels,binds,mounts,ports,devices,memory,restart,count⟩
      · intro held
        have number : n = x.old.spec.host.restartPolicy.maximumRetryCount := Option.some_inj.mp (count.symm.trans held.restartCount)
        exact ⟨held.image.1,held.image.2,⟨held.cmd,held.entrypoint,held.env,held.labels,held.binds,held.mounts⟩,held.ports,
          held.devices,held.memory,held.restartName,number⟩

/- A decimal number without a sign. -/
def decimal (s : String) : Option Nat :=
  if s ≠ "" ∧ s.toList.all Char.isDigit = true then some (Nat.ofDigitChars 10 s.toList 0) else none

theorem decimalRepr (n : Nat) : decimal n.repr = some n := by
  rw [decimal,if_pos ⟨(Decimals.reprDigits n).1,List.all_eq_true.mpr (Decimals.reprDigits n).2⟩,Nat.toList_repr,Nat.ofDigitChars_ten_toDigits]

def signed (n : Int) : String := if n < 0 then "-" ++ n.natAbs.repr else n.natAbs.repr

def unsigned (s : String) : Option Int :=
  if s.toList.head? = some '-' then (decimal (String.ofList s.toList.tail)).map Int.negOfNat else (decimal s).map Int.ofNat

theorem unsignedSigned (n : Int) : unsigned (signed n) = some n := by
  unfold signed
  split
  · rename_i negative
    have tail : String.ofList ("-" ++ n.natAbs.repr).toList.tail = n.natAbs.repr := by
      apply String.toList_inj.mp
      simp
    have back : (Int.ofNat n.natAbs) = -n := Int.ofNat_natAbs_of_nonpos negative.le
    rw [unsigned,if_pos (by simp),tail,decimalRepr,Option.map_some,Int.negOfNat_eq,back,Int.neg_neg]
  · rename_i nonneg
    have plain : n.natAbs.repr.toList.head? ≠ some '-' := by
      intro minus
      have digit := (Decimals.reprDigits n.natAbs).2 '-' (List.mem_of_head? minus)
      revert digit
      decide
    rw [unsigned,if_neg plain,decimalRepr,Option.map_some]
    congr 1
    exact Int.natAbs_of_nonneg (by omega)

def plainPort (proto port : String) : Except String String :=
  match decimal (if port = "" then "0" else port) with
  | some n => .ok (n.repr ++ "/" ++ proto)
  | none => .error ("invalid port: " ++ port)

theorem plainPortOk {proto port key : String} (ok : plainPort proto port = .ok key) : ∃ n : Nat, key = n.repr ++ "/" ++ proto := by
  unfold plainPort at ok
  split at ok
  · exact ⟨_,(Except.ok.inj ok).symm⟩
  · cases ok

theorem plainPortRepr (proto : String) (n : Nat) : plainPort proto n.repr = .ok (n.repr ++ "/" ++ proto) := by
  rw [plainPort,if_neg (Decimals.reprDigits n).1,decimalRepr]

theorem asciiOnAscii (c : Char) (_ : c.toNat < 128) : ascii.lower c = c.toLower := rfl

theorem asciiSlash (c : Char) (same : ascii.lower c = '/') : c = '/' := by
  have code := lowerNat c
  rw [show c.toLower = '/' from same] at code
  apply Char.toNat_inj.mp
  split at code
  · have never : ('/' : Char).toNat = 47 := rfl
    omega
  · exact code.symm

theorem asciiSolid (c : Char) (solid : isSpace c = false) : isSpace (ascii.lower c) = false := by
  have code := lowerNat c
  by_cases upper : 65 ≤ c.toNat ∧ c.toNat ≤ 90
  · rw [if_pos upper] at code
    have lower : ascii.lower c = c.toLower := rfl
    simp only [isSpace,lower,code,Bool.or_eq_false_iff,Bool.and_eq_false_iff,decide_eq_false_iff_not,beq_eq_false_iff_ne]
    omega
  · rw [if_neg upper] at code
    rwa [show ascii.lower c = c from Char.toNat_inj.mp code]

theorem plainPortWhole {proto port key other again : String} (ok : plainPort proto port = .ok key) : plainPort other key ≠ .ok again := by
  obtain ⟨n,rfl⟩ := plainPortOk ok
  have slash : '/' ∈ (n.repr ++ "/" ++ proto).toList := by simp
  have none : decimal (n.repr ++ "/" ++ proto) = none := by
    refine if_neg (fun held => ?_)
    have digit := List.all_eq_true.mp held.2 '/' slash
    revert digit
    decide
  have some : n.repr ++ "/" ++ proto ≠ "" := by
    intro empty
    rw [empty] at slash
    revert slash
    decide
  rw [plainPort,if_neg some,none]
  rintro ⟨⟩

theorem signedDigits (n : Int) (positive : 0 < n) :
    signed n ≠ "" ∧ signed n ≠ "0" ∧ (∀ c ∈ (signed n).toList, c.isDigit = true) ∧
      (decimal (signed n)).map (fun n => ((Int.ofNat n : Int) : Rat)) = some (n : Rat) := by
  obtain ⟨some,digits⟩ := Decimals.reprDigits n.natAbs
  have text : signed n = n.natAbs.repr := if_neg (by omega)
  have value : Int.ofNat n.natAbs = n := Int.natAbs_of_nonneg positive.le
  rw [text]
  refine ⟨some,?_,digits,?_⟩
  · intro zero
    have read := decimalRepr n.natAbs
    rw [zero] at read
    have none : decimal "0" = Option.some 0 := decimalRepr 0
    have same := Option.some_inj.mp (none.symm.trans read)
    omega
  · rw [decimalRepr,Option.map_some,value]

theorem signedNumber (n : Int) : (unsigned (signed n)).getD 0 = n := by
  rw [unsignedSigned]
  rfl

/- Whole numbers that are all doubles, and ports that are single numbers. -/
def plainRuntime : Runtime where
  newPort := plainPort
  parseFloat := fun s => (decimal s).map (fun n => ((Int.ofNat n : Int) : Rat))
  nanoCPUs := fun q => truncate (q*1000000000)
  lower := ascii
  lowerAscii := asciiOnAscii
  lowerSlash := asciiSlash
  lowerSolid := asciiSolid
  toLowerCase := ascii.toLower
  toLowerCaseSelf := fun _ same => same
  port := by
    intro proto port key ok
    obtain ⟨n,rfl⟩ := plainPortOk ok
    exact ⟨n.repr,rfl,(Decimals.reprDigits n).1,fun c mem => .inl ((Decimals.reprDigits n).2 c mem),plainPortRepr proto n⟩
  portWhole := plainPortWhole
  double := id
  doubleZero := rfl
  doubleTwice := fun _ => rfl
  doubleNonneg := fun _ nonneg => nonneg
  doubleBound := fun _ small => small
  doublePart := fun _ _ _ => rfl
  string := signed
  stringDigits := fun n positive _ _ => signedDigits n positive
  number := fun s => (unsigned s).getD 0
  numberString := fun n _ => signedNumber n
  readInt := unsigned
  cpusString := signed
  cpusNumber := fun s => ((unsigned s).getD 0 : Int)

def shellConfig : Config :=
  { webSpec.config with cmd := ["sh","-c","echo hi"] }

def shellContainer : Container := { web with spec := { webSpec with config := shellConfig } }

def shellEdited : Edited where
  engine := ⟨[shellContainer],["nginx"],List.nodup_singleton _⟩
  old := shellContainer
  found := rfl
  mounts := []
  state := "running"
  chosen := sampleChosen
  fresh := by
    intro c mem
    rw [List.mem_singleton.mp mem]
    decide
  solidName := by decide
  labels := List.nodup_nil
  ports := List.nodup_nil
  memory := by decide

/- An argument with a blank comes back as two. -/
theorem argumentSplit : ¬RoundTrips plainRuntime shellEdited := by
  rintro ⟨r,same,d,mem,_,settings⟩
  have saved : (resubmit plainRuntime shellEdited).map (fun r => r.2.containers.map (fun c => c.spec.config.cmd)) =
      some [["sh","-c","echo","hi"]] := by decide
  rw [same,Option.map_some] at saved
  have found : d.spec.config.cmd ∈ r.2.containers.map (fun c => c.spec.config.cmd) := List.mem_map_of_mem mem
  rw [Option.some_inj.mp saved,List.mem_singleton,settings.cmd] at found
  revert found
  decide

end ContainerWS.Docker
