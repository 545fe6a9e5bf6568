import ContainerWS.GoStrings
import ContainerWS.Grouping
import ContainerWS.TextRows
import Mathlib.Algebra.GroupWithZero.Nat
import Mathlib.Algebra.Ring.Int.Defs
import Mathlib.Data.List.Infix

/-! The graphics devices of packages/machine/gpu.go: what nvidia-smi reports and what sysfs has, gathered by the PCI address that
both print, each in its own way. -/
namespace ContainerWS.Machine
open GoStrings TextRows Grouping

/- Where a device is on the PCI buses. -/
@[ext] structure Address where
  domain : Nat
  bus : Nat
  device : Nat
  function : Nat
  domainFits : domain < 0x100000000
  busFits : bus < 0x100
  deviceFits : device < 0x20
  functionFits : function < 8
  deriving DecidableEq, Repr

/- The last hexadecimal digits of a number. -/
def nibbles : Nat → Nat → List Nat
  | 0,_ => []
  | width+1,n => nibbles width (n/16) ++ [n%16]

def upper (d : Nat) : Char := ['0','1','2','3','4','5','6','7','8','9','A','B','C','D','E','F'].getD d '0'

def lower (d : Nat) : Char := ['0','1','2','3','4','5','6','7','8','9','a','b','c','d','e','f'].getD d '0'

def hex (digit : Nat → Char) (width n : Nat) : List Char := (nibbles width n).map digit

def behindDomain (digit : Nat → Char) (a : Address) : List Char :=
  ':' :: (hex digit 2 a.bus ++ ':' :: (hex digit 2 a.device ++ '.' :: hex digit 1 a.function))

def spelled (digit : Nat → Char) (width : Nat) (a : Address) : String := String.ofList (hex digit width a.domain ++ behindDomain digit a)

/- `pci.bus_id` of nvidia-smi, and `PCI_SLOT_NAME` of sysfs. -/
def busId (a : Address) : String := spelled upper 8 a

def slotName (a : Address) : String := spelled lower 4 a

/- The text is ASCII, and a character a byte. -/
def normalizePCIBusID (bus : String) : String :=
  let bus := trimSpace bus
  if bus = "" then ""
  else match split ':' bus with
    | [domain,rest,last] =>
      if 4 < domain.toList.length then join ':' [String.ofList (domain.toList.drop (domain.toList.length-4)),rest,last] else bus
    | _ => bus

structure GPUConnector where
  name : String
  type : String
  status : String
  enabled : String
  deriving DecidableEq, Repr

/- The numbers that the source has as floats are of any type with a zero. -/
structure GPUMetrics (ν : Type) where
  index : Nat
  name : String
  vendor : String
  vendorID : String
  deviceID : String
  pciSlot : String
  driver : String
  drmCard : String
  bootVGA : Bool
  brand : String
  memoryTotalBytes : Int
  memoryUsedBytes : Int
  memoryFreeBytes : Int
  memoryTotalHuman : String
  memoryUsedHuman : String
  memoryFreeHuman : String
  memoryPercent : ν
  utilizationPercent : ν
  memoryUtilPercent : ν
  temperatureC : ν
  powerDrawW : ν
  powerLimitW : ν
  fanSpeedPercent : ν
  clockGraphicsMHz : Int
  clockMaxGraphicsMHz : Int
  clockMinGraphicsMHz : Int
  clockMemoryMHz : Int
  uuid : String
  driverVersion : String
  cudaVersion : String
  computeCapability : String
  connectors : List GPUConnector
  deriving DecidableEq, Repr

/- What is outside: the tables of letter case, the names that the host knows, and how bytes and percents are shown. -/
structure Host (ν : Type) where
  lower : CaseMap
  upper : String → String
  gpuDisplayName : String → String → String → String
  humanBytes : Int → String
  percent : Int → Int → ν

section
variable {ν : Type} [Zero ν] [DecidableEq ν] (o : Host ν)

def looksGenericGPUName (name : String) : Bool :=
  let n := o.lower.toLower (trimSpace name)
  n = "" || hasPrefix n "pci " || n = "vga compatible controller" || n = "3d controller" || n = "display controller"

def orText (dst src : String) : String := if dst = "" then src else dst

def orZero {μ : Type} [Zero μ] [DecidableEq μ] (dst src : μ) : μ := if dst = 0 then src else dst

def mergeGPU (dst src : GPUMetrics ν) : GPUMetrics ν :=
  { dst with
    name := if (dst.name = "" ∨ looksGenericGPUName o dst.name = true) ∧ src.name ≠ "" then src.name else dst.name
    vendor := orText dst.vendor src.vendor
    vendorID := orText dst.vendorID src.vendorID
    deviceID := orText dst.deviceID src.deviceID
    pciSlot := orText dst.pciSlot src.pciSlot
    driver := orText dst.driver src.driver
    drmCard := orText dst.drmCard src.drmCard
    brand := if dst.brand = "" ∨ dst.brand = "other" then src.brand else dst.brand
    bootVGA := src.bootVGA || dst.bootVGA
    memoryTotalBytes := orZero dst.memoryTotalBytes src.memoryTotalBytes
    memoryUsedBytes := if dst.memoryTotalBytes = 0 then src.memoryUsedBytes else dst.memoryUsedBytes
    memoryFreeBytes := if dst.memoryTotalBytes = 0 then src.memoryFreeBytes else dst.memoryFreeBytes
    utilizationPercent := orZero dst.utilizationPercent src.utilizationPercent
    memoryUtilPercent := orZero dst.memoryUtilPercent src.memoryUtilPercent
    temperatureC := orZero dst.temperatureC src.temperatureC
    powerDrawW := orZero dst.powerDrawW src.powerDrawW
    powerLimitW := orZero dst.powerLimitW src.powerLimitW
    fanSpeedPercent := orZero dst.fanSpeedPercent src.fanSpeedPercent
    clockGraphicsMHz := orZero dst.clockGraphicsMHz src.clockGraphicsMHz
    clockMaxGraphicsMHz := orZero dst.clockMaxGraphicsMHz src.clockMaxGraphicsMHz
    clockMinGraphicsMHz := orZero dst.clockMinGraphicsMHz src.clockMinGraphicsMHz
    clockMemoryMHz := orZero dst.clockMemoryMHz src.clockMemoryMHz
    uuid := orText dst.uuid src.uuid
    driverVersion := orText dst.driverVersion src.driverVersion
    cudaVersion := orText dst.cudaVersion src.cudaVersion
    computeCapability := orText dst.computeCapability src.computeCapability
    connectors := if dst.connectors = [] then src.connectors else dst.connectors }

def gpuBrand (vendorID driver : String) : String :=
  let v := o.lower.toLower vendorID
  let d := o.lower.toLower driver
  let has (s : String) : Bool := decide (s.toList <:+: d.toList)
  if v = "10de" then "nvidia"
  else if v = "1002" ∨ v = "1022" then "amd"
  else if v = "8086" then "intel"
  else if has "nvidia" then "nvidia"
  else if has "amdgpu" || has "radeon" then "amd"
  else if has "i915" || has "xe" then "intel"
  else "other"

def vendorNames : List (String × String) :=
  [("10de","NVIDIA"),("1002","AMD"),("1022","AMD"),("8086","Intel"),("1a03","ASPEED"),("15ad","VMware"),("1234","QEMU"),("1414","Microsoft")]

def gpuVendorName (vendorID : String) : String :=
  match vendorNames.lookup (o.lower.toLower vendorID) with
  | some name => name
  | none => if vendorID = "" then "" else "PCI " ++ o.upper vendorID

def finalizeGPU (g : GPUMetrics ν) : GPUMetrics ν :=
  let free := if g.memoryFreeBytes = 0 ∧ 0 < g.memoryTotalBytes ∧ 0 ≤ g.memoryUsedBytes then max (g.memoryTotalBytes-g.memoryUsedBytes) 0
    else g.memoryFreeBytes
  { g with
    memoryFreeBytes := free
    memoryPercent := if 0 < g.memoryTotalBytes then o.percent g.memoryUsedBytes g.memoryTotalBytes else g.memoryPercent
    memoryTotalHuman := if 0 < g.memoryTotalBytes then o.humanBytes g.memoryTotalBytes else g.memoryTotalHuman
    memoryUsedHuman := if 0 < g.memoryTotalBytes then o.humanBytes g.memoryUsedBytes else g.memoryUsedHuman
    memoryFreeHuman := if 0 < g.memoryTotalBytes then o.humanBytes free else g.memoryFreeHuman
    name := if g.name = "" then o.gpuDisplayName g.vendorID g.deviceID g.vendor else g.name
    brand := if g.brand = "" then gpuBrand o g.vendorID g.driver else g.brand
    vendor := if g.vendor = "" then gpuVendorName o g.vendorID else g.vendor }

/- What identifies an entry, where so many are there. -/
def entryKey (count : Nat) (g : GPUMetrics ν) : String :=
  if g.pciSlot ≠ "" then g.pciSlot
  else if g.uuid ≠ "" then g.uuid
  else if g.drmCard ≠ "" then g.drmCard
  else "gpu-" ++ count.repr

/- The map and the order of its keys are one list. -/
def upsertGPU (byPCI : List (String × GPUMetrics ν)) (g : GPUMetrics ν) : List (String × GPUMetrics ν) :=
  upsert (entryKey byPCI.length) (mergeGPU o) byPCI g

def readGPUMetrics (nvidia drm : List (GPUMetrics ν)) : List (GPUMetrics ν) :=
  ((nvidia ++ drm).foldl (upsertGPU o) []).mapIdx fun i e => finalizeGPU o { e.2 with index := i }

/- What is known of a device, and where it is. The device of a card has a domain of four digits. -/
structure NvidiaReport (ν : Type) where
  place : Address
  read : GPUMetrics ν

structure DRMReport (ν : Type) where
  place : Address
  small : place.domain < 0x10000
  read : GPUMetrics ν

def NvidiaReport.gpu (r : NvidiaReport ν) : GPUMetrics ν :=
  { r.read with pciSlot := normalizePCIBusID (busId r.place), vendorID := "10de", vendor := "NVIDIA", brand := "nvidia", driver := "nvidia", drmCard := "" }

def DRMReport.gpu (r : DRMReport ν) : GPUMetrics ν := { r.read with pciSlot := slotName r.place }

end

/- What both print of an address, and whether a digit of it is a letter. -/
def Address.low (a : Address) : Nat × Nat × Nat × Nat := (a.domain % 0x10000,a.bus,a.device,a.function)

def Address.digits (a : Address) : List Nat := nibbles 4 a.domain ++ (nibbles 2 a.bus ++ (nibbles 2 a.device ++ nibbles 1 a.function))

def Address.Lettered (a : Address) : Prop := ∃ d ∈ a.digits, 10 ≤ d

theorem nibblesLength (width n : Nat) : (nibbles width n).length = width := by
  induction width generalizing n with
  | zero => rfl
  | succ width ih => rw [nibbles,List.length_append,ih,List.length_singleton]

theorem nibblesBelow (width n : Nat) : ∀ d ∈ nibbles width n, d < 16 := by
  induction width generalizing n with
  | zero => exact List.forall_mem_nil _
  | succ width ih =>
    intro d mem
    rcases List.mem_append.mp mem with left | right
    · exact ih _ d left
    · rw [List.mem_singleton.mp right]
      exact Nat.mod_lt n (by decide)

theorem nibblesDrop (more width n : Nat) : (nibbles (width+more) n).drop more = nibbles width n := by
  induction width generalizing n with
  | zero =>
    rw [Nat.zero_add,List.drop_of_length_le (nibblesLength more n).le]
    rfl
  | succ width ih =>
    rw [Nat.add_right_comm,nibbles,nibbles,List.drop_append_of_le_length (by rw [nibblesLength]; omega),ih]

/- Digits tell a number up to as many of them. -/
theorem nibblesIff (width m n : Nat) : nibbles width m = nibbles width n ↔ m % 16^width = n % 16^width := by
  induction width generalizing m n with
  | zero => simp [nibbles,Nat.mod_one]
  | succ width ih =>
    rw [nibbles,nibbles,List.append_singleton_inj,ih,Nat.pow_succ',Nat.mod_mul,Nat.mod_mul]
    omega

/- A digit and another one are written alike: the same digit, and one of a kind. -/
def Alike (f g : Nat → Char) (P : Nat → Prop) : Prop := ∀ d < 16, ∀ e < 16, f d = g e ↔ d = e ∧ P d

theorem upperAlike : Alike upper upper fun _ => True := by unfold Alike; decide

theorem lowerAlike : Alike lower lower fun _ => True := by unfold Alike; decide

theorem mixedAlike : Alike upper lower fun d => d < 10 := by unfold Alike; decide

theorem mapAlike {f g : Nat → Char} {P : Nat → Prop} (alike : Alike f g P) {l m : List Nat} (left : ∀ d ∈ l, d < 16) (right : ∀ e ∈ m, e < 16) :
    l.map f = m.map g ↔ l = m ∧ ∀ d ∈ l, P d := by
  induction l generalizing m with
  | nil =>
    cases m with
    | nil => simp
    | cons e m => simp
  | cons d l ih =>
    cases m with
    | nil => simp
    | cons e m =>
      obtain ⟨first,left⟩ := List.forall_mem_cons.mp left
      obtain ⟨second,right⟩ := List.forall_mem_cons.mp right
      rw [List.map_cons,List.map_cons,List.cons_eq_cons,alike d first e second,ih left right,List.cons_eq_cons,List.forall_mem_cons]
      exact and_and_and_comm

theorem spelledIff {f g : Nat → Char} {P : Nat → Prop} (alike : Alike f g P) (a b : Address) :
    spelled f 4 a = spelled g 4 b ↔ a.low = b.low ∧ ∀ d ∈ a.digits, P d := by
  have split (f : Nat → Char) (a : Address) : spelled f 4 a = String.ofList (hex f 4 a.domain ++ behindDomain f a) := rfl
  have long (f : Nat → Char) (width n : Nat) : (hex f width n).length = width := by rw [hex,List.length_map,nibblesLength]
  have part (width m n : Nat) : hex f width m = hex g width n ↔ m % 16^width = n % 16^width ∧ ∀ d ∈ nibbles width m, P d := by
    rw [hex,hex,mapAlike alike (nibblesBelow width m) (nibblesBelow width n),nibblesIff]
  have chars : spelled f 4 a = spelled g 4 b ↔ hex f 4 a.domain = hex g 4 b.domain ∧ hex f 2 a.bus = hex g 2 b.bus ∧
      hex f 2 a.device = hex g 2 b.device ∧ hex f 1 a.function = hex g 1 b.function := by
    rw [split,split]
    constructor
    · intro same
      obtain ⟨one,rest⟩ := List.append_inj (String.ofList_injective same) (by rw [long,long])
      obtain ⟨two,rest⟩ := List.append_inj (List.cons.inj rest).2 (by rw [long,long])
      obtain ⟨three,rest⟩ := List.append_inj (List.cons.inj rest).2 (by rw [long,long])
      exact ⟨one,two,three,(List.cons.inj rest).2⟩
    · rintro ⟨one,two,three,four⟩
      rw [behindDomain,behindDomain,one,two,three,four]
  have bus (a : Address) : a.bus % 16^2 = a.bus := Nat.mod_eq_of_lt a.busFits
  have device (a : Address) : a.device % 16^2 = a.device := Nat.mod_eq_of_lt (by have := a.deviceFits; omega)
  have function (a : Address) : a.function % 16^1 = a.function := Nat.mod_eq_of_lt (by have := a.functionFits; omega)
  rw [chars,part,part,part,part,bus,bus,device,device,function,function]
  simp only [Address.low,Prod.mk.injEq,Address.digits,List.forall_mem_append]
  tauto

theorem hexMem {digit : Nat → Char} {width n : Nat} {c : Char} (mem : c ∈ hex digit width n) : ∃ d < 16, c = digit d := by
  obtain ⟨d,inside,rfl⟩ := List.mem_map.mp mem
  exact ⟨d,nibblesBelow width n d inside,rfl⟩

theorem upperPlain : ∀ d < 16, isSpace (upper d) = false ∧ upper d ≠ ':' := by decide

/- nvidia-smi's spelling loses the first four digits of the domain, and keeps its letters. -/
theorem normalizeBus (a : Address) : normalizePCIBusID (busId a) = spelled upper 4 a := by
  have plain {width n : Nat} : ∀ c ∈ hex upper width n, isSpace c = false ∧ c ≠ ':' := by
    intro c mem
    obtain ⟨d,below,rfl⟩ := hexMem mem
    exact upperPlain d below
  have solid : ∀ c ∈ (busId a).toList, isSpace c = false := by
    intro c mem
    simp only [busId,spelled,behindDomain,String.toList_ofList,List.mem_append,List.mem_cons] at mem
    rcases mem with here | rfl | here | rfl | here | rfl | here
    · exact (plain c here).1
    · decide
    · exact (plain c here).1
    · decide
    · exact (plain c here).1
    · decide
    · exact (plain c here).1
  have parts : split ':' (busId a) = [String.ofList (hex upper 8 a.domain),String.ofList (hex upper 2 a.bus),
      String.ofList (hex upper 2 a.device ++ '.' :: hex upper 1 a.function)] := by
    refine splitIff.mpr ⟨List.cons_ne_nil _ _,?_,?_⟩
    · intro p mem
      simp only [List.mem_cons,List.not_mem_nil,or_false] at mem
      rcases mem with rfl | rfl | rfl
      · rw [String.toList_ofList]
        exact fun mem => (plain _ mem).2 rfl
      · rw [String.toList_ofList]
        exact fun mem => (plain _ mem).2 rfl
      · rw [String.toList_ofList]
        intro mem
        rcases List.mem_append.mp mem with left | right
        · exact (plain _ left).2 rfl
        · rcases List.mem_cons.mp right with same | right
          · exact absurd same (by decide)
          · exact (plain _ right).2 rfl
    · simp [join,busId,spelled,behindDomain]
  have long : (hex upper 8 a.domain).length = 8 := by rw [hex,List.length_map,nibblesLength]
  have short : (hex upper 8 a.domain).drop 4 = hex upper 4 a.domain := by rw [hex,hex,← List.map_drop,nibblesDrop 4 4]
  have some : busId a ≠ "" := by
    intro empty
    have none := congrArg (fun s => s.toList.length) empty
    simp [busId,spelled,behindDomain] at none
  unfold normalizePCIBusID
  dsimp only
  rw [trimSpaceSelf solid,if_neg some,parts]
  dsimp only
  rw [String.toList_ofList,long,if_pos (by decide),short]
  simp [join,spelled,behindDomain]

section
variable {ν : Type} [Zero ν] [DecidableEq ν]

/- Everything that is reported, with the place of it. -/
def reports (nvidia : List (NvidiaReport ν)) (drm : List (DRMReport ν)) : List (Address × GPUMetrics ν) :=
  nvidia.map (fun r => (r.place,r.gpu)) ++ drm.map fun r => (r.place,r.gpu)

def mergePlaced (o : Host ν) (e f : Address × GPUMetrics ν) : Address × GPUMetrics ν := (e.1,mergeGPU o e.2 f.2)

/- What a datum that is there stays. -/
def KeptText (g h : String) : Prop := g ≠ "" → h = g

def KeptNumber {μ : Type} [Zero μ] (g h : μ) : Prop := g ≠ 0 → h = g

/- An entry has the data of a device as nvidia-smi gave them. -/
structure Keeps (o : Host ν) (g h : GPUMetrics ν) : Prop where
  name : g.name ≠ "" → looksGenericGPUName o g.name = false → h.name = g.name
  vendor : KeptText g.vendor h.vendor
  vendorID : KeptText g.vendorID h.vendorID
  deviceID : KeptText g.deviceID h.deviceID
  pciSlot : KeptText g.pciSlot h.pciSlot
  driver : KeptText g.driver h.driver
  brand : g.brand ≠ "" → g.brand ≠ "other" → h.brand = g.brand
  memory : g.memoryTotalBytes ≠ 0 → h.memoryTotalBytes = g.memoryTotalBytes ∧ h.memoryUsedBytes = g.memoryUsedBytes ∧
    KeptNumber g.memoryFreeBytes h.memoryFreeBytes
  utilizationPercent : KeptNumber g.utilizationPercent h.utilizationPercent
  memoryUtilPercent : KeptNumber g.memoryUtilPercent h.memoryUtilPercent
  temperatureC : KeptNumber g.temperatureC h.temperatureC
  powerDrawW : KeptNumber g.powerDrawW h.powerDrawW
  powerLimitW : KeptNumber g.powerLimitW h.powerLimitW
  fanSpeedPercent : KeptNumber g.fanSpeedPercent h.fanSpeedPercent
  clockGraphicsMHz : KeptNumber g.clockGraphicsMHz h.clockGraphicsMHz
  clockMaxGraphicsMHz : KeptNumber g.clockMaxGraphicsMHz h.clockMaxGraphicsMHz
  clockMemoryMHz : KeptNumber g.clockMemoryMHz h.clockMemoryMHz
  uuid : KeptText g.uuid h.uuid
  driverVersion : KeptText g.driverVersion h.driverVersion
  cudaVersion : KeptText g.cudaVersion h.cudaVersion
  computeCapability : KeptText g.computeCapability h.computeCapability

theorem keptText {g h : String} (kept : KeptText g h) (s : String) : KeptText g (orText h s) := by
  intro some
  rw [kept some,orText,if_neg some]

theorem keptNumber {μ : Type} [Zero μ] [DecidableEq μ] {g h : μ} (kept : KeptNumber g h) (s : μ) : KeptNumber g (orZero h s) := by
  intro some
  rw [kept some,orZero,if_neg some]

omit [DecidableEq ν] in
theorem keepsSelf (o : Host ν) (g : GPUMetrics ν) : Keeps o g g := by
  refine ⟨fun _ _ => rfl,fun _ => rfl,fun _ => rfl,fun _ => rfl,fun _ => rfl,fun _ => rfl,fun _ _ => rfl,fun _ => ⟨rfl,rfl,fun _ => rfl⟩,?_,?_,
    ?_,?_,?_,?_,?_,?_,?_,fun _ => rfl,fun _ => rfl,fun _ => rfl,fun _ => rfl⟩ <;> exact fun _ => rfl

/- Another report adds to an entry what is not there. -/
theorem keepsMerge {o : Host ν} {g h : GPUMetrics ν} (kept : Keeps o g h) (s : GPUMetrics ν) : Keeps o g (mergeGPU o h s) where
  name some own := by
    have same := kept.name some own
    have stays : (mergeGPU o h s).name = h.name := if_neg (by rw [same,own]; exact fun held => held.1.elim some Bool.false_ne_true)
    exact stays.trans same
  vendor := keptText kept.vendor _
  vendorID := keptText kept.vendorID _
  deviceID := keptText kept.deviceID _
  pciSlot := keptText kept.pciSlot _
  driver := keptText kept.driver _
  brand some own := by
    have same := kept.brand some own
    have stays : (mergeGPU o h s).brand = h.brand := if_neg (by rw [same]; exact fun held => held.elim some own)
    exact stays.trans same
  memory some := by
    obtain ⟨total,used,free⟩ := kept.memory some
    have there : h.memoryTotalBytes ≠ 0 := by rwa [total]
    have one : (mergeGPU o h s).memoryTotalBytes = h.memoryTotalBytes := if_neg there
    have two : (mergeGPU o h s).memoryUsedBytes = h.memoryUsedBytes := if_neg there
    have three : (mergeGPU o h s).memoryFreeBytes = h.memoryFreeBytes := if_neg there
    rw [one,two,three]
    exact ⟨total,used,free⟩
  utilizationPercent := keptNumber kept.utilizationPercent _
  memoryUtilPercent := keptNumber kept.memoryUtilPercent _
  temperatureC := keptNumber kept.temperatureC _
  powerDrawW := keptNumber kept.powerDrawW _
  powerLimitW := keptNumber kept.powerLimitW _
  fanSpeedPercent := keptNumber kept.fanSpeedPercent _
  clockGraphicsMHz := keptNumber kept.clockGraphicsMHz _
  clockMaxGraphicsMHz := keptNumber kept.clockMaxGraphicsMHz _
  clockMemoryMHz := keptNumber kept.clockMemoryMHz _
  uuid := keptText kept.uuid _
  driverVersion := keptText kept.driverVersion _
  cudaVersion := keptText kept.cudaVersion _
  computeCapability := keptText kept.computeCapability _

omit [DecidableEq ν] in
/- What is derived at the end takes nothing away. -/
theorem keepsFinal {o : Host ν} {g h : GPUMetrics ν} (kept : Keeps o g h) (i : Nat) : Keeps o g (finalizeGPU o { h with index := i }) where
  name some own := by
    have same := kept.name some own
    have stays : (finalizeGPU o { h with index := i }).name = h.name := if_neg (by rwa [same])
    exact stays.trans same
  vendor some := by
    have stays : (finalizeGPU o { h with index := i }).vendor = h.vendor := if_neg (by rwa [kept.vendor some])
    exact stays.trans (kept.vendor some)
  vendorID := kept.vendorID
  deviceID := kept.deviceID
  pciSlot := kept.pciSlot
  driver := kept.driver
  brand some own := by
    have same := kept.brand some own
    have stays : (finalizeGPU o { h with index := i }).brand = h.brand := if_neg (by rwa [same])
    exact stays.trans same
  memory some := by
    obtain ⟨total,used,free⟩ := kept.memory some
    refine ⟨total,used,fun known => ?_⟩
    have stays : (finalizeGPU o { h with index := i }).memoryFreeBytes = h.memoryFreeBytes :=
      if_neg (by rw [free known]; exact fun held => known held.1)
    exact stays.trans (free known)
  utilizationPercent := kept.utilizationPercent
  memoryUtilPercent := kept.memoryUtilPercent
  temperatureC := kept.temperatureC
  powerDrawW := kept.powerDrawW
  powerLimitW := kept.powerLimitW
  fanSpeedPercent := kept.fanSpeedPercent
  clockGraphicsMHz := kept.clockGraphicsMHz
  clockMaxGraphicsMHz := kept.clockMaxGraphicsMHz
  clockMemoryMHz := kept.clockMemoryMHz
  uuid := kept.uuid
  driverVersion := kept.driverVersion
  cudaVersion := kept.cudaVersion
  computeCapability := kept.computeCapability

omit [Zero ν] [DecidableEq ν] in
theorem finalSlot (o : Host ν) (g : GPUMetrics ν) : (finalizeGPU o g).pciSlot = g.pciSlot := rfl

/- Every device that was reported has one entry, and the entries are those of the devices: what is said of a device, merged in turn;
and the data of nvidia-smi, where it reports a device once, are in the entry. -/
def Listed (o : Host ν) (nvidia : List (NvidiaReport ν)) (drm : List (DRMReport ν)) : Prop :=
  let out := readGPUMetrics o (nvidia.map NvidiaReport.gpu) (drm.map DRMReport.gpu)
  (∃ table : List (Address × GPUMetrics ν), (table.map Prod.fst).Nodup ∧
    (∀ a, a ∈ table.map Prod.fst ↔ ∃ e ∈ reports nvidia drm, e.1 = a) ∧
    (∀ e ∈ table, Merged Prod.fst (mergePlaced o) e.1 (reports nvidia drm) e) ∧
    out = table.mapIdx fun i e => finalizeGPU o { e.2 with index := i }) ∧
  ∀ r ∈ nvidia, (∀ s ∈ nvidia, s.place = r.place → s = r) → ∃ g ∈ out, Keeps o r.gpu g

/- Devices of nvidia-smi do not differ in the first digits of the domain alone; and one of nvidia-smi and one of sysfs that agree up to
these digits are the same device when no digit is a letter, and not otherwise. -/
def Apart (nvidia : List (NvidiaReport ν)) (drm : List (DRMReport ν)) : Prop :=
  (∀ r ∈ nvidia, ∀ s ∈ nvidia, r.place.low = s.place.low → r.place = s.place) ∧
  ∀ r ∈ nvidia, ∀ s ∈ drm, r.place.low = s.place.low → (r.place = s.place ↔ ¬ r.place.Lettered)

theorem spelledSome (digit : Nat → Char) (width : Nat) (a : Address) : spelled digit width a ≠ "" := by
  intro empty
  have none := congrArg (fun s => s.toList.length) empty
  simp [spelled,behindDomain] at none

omit [Zero ν] [DecidableEq ν] in
theorem nvidiaSlot (r : NvidiaReport ν) : r.gpu.pciSlot = spelled upper 4 r.place := by
  unfold NvidiaReport.gpu
  dsimp only
  rw [normalizeBus]

omit [Zero ν] [DecidableEq ν] in
/- How the slot of a report is spelled. -/
theorem reportSlot {nvidia : List (NvidiaReport ν)} {drm : List (DRMReport ν)} {e : Address × GPUMetrics ν} (mem : e ∈ reports nvidia drm) :
    (∃ r ∈ nvidia, r.place = e.1 ∧ e.2.pciSlot = spelled upper 4 e.1) ∨ ∃ s ∈ drm, s.place = e.1 ∧ e.2.pciSlot = spelled lower 4 e.1 := by
  rcases List.mem_append.mp mem with left | right
  · obtain ⟨r,inside,rfl⟩ := List.mem_map.mp left
    exact .inl ⟨r,inside,rfl,nvidiaSlot r⟩
  · obtain ⟨s,inside,rfl⟩ := List.mem_map.mp right
    exact .inr ⟨s,inside,rfl,rfl⟩

theorem lowSmall {a b : Address} (left : a.domain < 0x10000) (right : b.domain < 0x10000) : a.low = b.low ↔ a = b := by
  refine ⟨fun low => ?_,congrArg Address.low⟩
  simp only [Address.low,Prod.mk.injEq,Nat.mod_eq_of_lt left,Nat.mod_eq_of_lt right] at low
  exact Address.ext low.1 low.2.1 low.2.2.1 low.2.2.2

theorem letteredLow {a b : Address} (low : a.low = b.low) : a.Lettered ↔ b.Lettered := by
  simp only [Address.low,Prod.mk.injEq] at low
  have domain : nibbles 4 a.domain = nibbles 4 b.domain := (nibblesIff 4 _ _).mpr low.1
  rw [Address.Lettered,Address.Lettered,Address.digits,Address.digits,domain,low.2.1,low.2.2.1,low.2.2.2]

theorem mixedIff (a b : Address) : spelled upper 4 a = spelled lower 4 b ↔ a.low = b.low ∧ ¬ a.Lettered := by
  rw [spelledIff mixedAlike,Address.Lettered]
  simp only [not_exists,not_and,not_le]

theorem upperIff (a b : Address) : spelled upper 4 a = spelled upper 4 b ↔ a.low = b.low := by
  rw [spelledIff upperAlike]
  simp

theorem lowerIff (a b : Address) : spelled lower 4 a = spelled lower 4 b ↔ a.low = b.low := by
  rw [spelledIff lowerAlike]
  simp

def slotOf (e : Address × GPUMetrics ν) : String := e.2.pciSlot

omit [Zero ν] [DecidableEq ν] in
/- Then the slot tells the devices apart that the place does. -/
theorem slotAlike {nvidia : List (NvidiaReport ν)} {drm : List (DRMReport ν)} (apart : Apart nvidia drm) :
    ∀ e ∈ reports nvidia drm, ∀ f ∈ reports nvidia drm, slotOf e = slotOf f ↔ e.1 = f.1 := by
  intro e left f right
  unfold slotOf
  have mixed (r : NvidiaReport ν) (nv : r ∈ nvidia) (s : DRMReport ν) (card : s ∈ drm) :
      spelled upper 4 r.place = spelled lower 4 s.place ↔ r.place = s.place := by
    rw [mixedIff]
    constructor
    · rintro ⟨low,plain⟩
      exact (apart.2 r nv s card low).mpr plain
    · intro same
      have low := congrArg Address.low same
      exact ⟨low,(apart.2 r nv s card low).mp same⟩
  rcases reportSlot left with ⟨r,nv,here,slot⟩ | ⟨s,card,here,slot⟩ <;> rcases reportSlot right with ⟨q,other,there,name⟩ | ⟨t,other,there,name⟩
  · rw [slot,name,upperIff,← here,← there]
    exact ⟨apart.1 r nv q other,congrArg Address.low⟩
  · rw [slot,name,← here,← there]
    exact mixed r nv t other
  · rw [slot,name,← here,← there,eq_comm,mixed q other s card]
    exact eq_comm
  · rw [slot,name,lowerIff,← here,← there]
    exact lowSmall s.small t.small

/- The loop gathers by the slots, as every report has one. -/
theorem readGathered (o : Host ν) (nvidia : List (NvidiaReport ν)) (drm : List (DRMReport ν)) :
    readGPUMetrics o (nvidia.map NvidiaReport.gpu) (drm.map DRMReport.gpu) =
      ((gather slotOf (mergePlaced o) (reports nvidia drm)).map Prod.snd).mapIdx fun i e => finalizeGPU o { e.2 with index := i } := by
  have all : nvidia.map NvidiaReport.gpu ++ drm.map DRMReport.gpu = (reports nvidia drm).map Prod.snd := by
    rw [reports,List.map_append,List.map_map,List.map_map]
    rfl
  have some : ∀ g ∈ (reports nvidia drm).map Prod.snd, g.pciSlot ≠ "" := by
    intro g mem
    obtain ⟨e,inside,rfl⟩ := List.mem_map.mp mem
    rcases reportSlot inside with ⟨-,-,-,slot⟩ | ⟨-,-,-,slot⟩ <;> rw [slot] <;> exact spelledSome _ _ _
  have loop : ((reports nvidia drm).map Prod.snd).foldl (upsertGPU o) [] =
      gather GPUMetrics.pciSlot (mergeGPU o) ((reports nvidia drm).map Prod.snd) := by
    refine List.foldl_ext _ _ _ fun t g mem => ?_
    have key : entryKey t.length g = g.pciSlot := if_pos (some g mem)
    rw [upsertGPU,upsert,upsert,key]
  have through : gather GPUMetrics.pciSlot (mergeGPU o) ((reports nvidia drm).map Prod.snd) =
      (gather slotOf (mergePlaced o) (reports nvidia drm)).map fun e => (e.1,e.2.2) := gatherMap (fun _ _ => rfl) _
  rw [readGPUMetrics,all,loop,through]
  refine List.ext_getElem? fun i => ?_
  rw [List.getElem?_mapIdx,List.getElem?_mapIdx,List.getElem?_map,List.getElem?_map,Option.map_map,Option.map_map]
  rfl

/- The slot of an entry is that of the first report in it. -/
theorem mergedSlot {κ : Type} [DecidableEq κ] {key : Address × GPUMetrics ν → κ} {o : Host ν} {k : κ} {l : List (Address × GPUMetrics ν)}
    {e : Address × GPUMetrics ν} (merged : Merged key (mergePlaced o) k l e) (known : ∀ f ∈ l, slotOf f ≠ "") :
    ∃ f, l.find? (fun f => key f == k) = some f ∧ e.1 = f.1 ∧ slotOf e = slotOf f := by
  obtain ⟨f,found,place,slot⟩ := mergedFirst merged (R := fun f e => e.1 = f.1 ∧ (slotOf f ≠ "" → slotOf e = slotOf f))
    (fun f => ⟨rfl,fun _ => rfl⟩) fun f e g held => ⟨held.1,fun there => by
      have same := held.2 there
      have stays : slotOf (mergePlaced o e g) = slotOf e := if_neg (by rw [← same] at there; exact there)
      exact stays.trans same⟩
  exact ⟨f,found,place,slot (known f (List.mem_of_find?_eq_some found))⟩

omit [Zero ν] [DecidableEq ν] in
theorem slotKnown {nvidia : List (NvidiaReport ν)} {drm : List (DRMReport ν)} : ∀ e ∈ reports nvidia drm, slotOf e ≠ "" := by
  intro e mem
  rcases reportSlot mem with ⟨-,-,-,slot⟩ | ⟨-,-,-,slot⟩ <;> rw [slotOf,slot] <;> exact spelledSome _ _ _

omit [Zero ν] [DecidableEq ν] in
/- The first report of a device is one of nvidia-smi if there is one. -/
theorem firstReport {nvidia : List (NvidiaReport ν)} {drm : List (DRMReport ν)} {a : Address} {e : Address × GPUMetrics ν}
    (found : (reports nvidia drm).find? (fun e => e.1 == a) = some e) :
    e.1 = a ∧ ((∃ r ∈ nvidia, r.place = a ∧ e = (r.place,r.gpu)) ∨ (∀ r ∈ nvidia, r.place ≠ a) ∧
      a.domain < 0x10000 ∧ slotOf e = spelled lower 4 a) := by
  have here : e.1 = a := by simpa using List.find?_some found
  refine ⟨here,?_⟩
  rw [reports,List.find?_append] at found
  cases first : (nvidia.map fun r => (r.place,r.gpu)).find? (fun e => e.1 == a) with
  | some f =>
    rw [first,Option.some_or] at found
    cases Option.some.inj found
    obtain ⟨r,mem,rfl⟩ := List.mem_map.mp (List.mem_of_find?_eq_some first)
    exact .inl ⟨r,mem,here,rfl⟩
  | none =>
    rw [first,Option.none_or] at found
    obtain ⟨s,-,rfl⟩ := List.mem_map.mp (List.mem_of_find?_eq_some found)
    refine .inr ⟨fun r mem same => ?_,here ▸ s.small,?_⟩
    · exact List.find?_eq_none.mp first _ (List.mem_map_of_mem mem) (beq_iff_eq.mpr same)
    · rw [← here]
      rfl

/- Where the entries are those of the devices, a slot belongs to one device. -/
theorem listedApart {o : Host ν} {nvidia : List (NvidiaReport ν)} {drm : List (DRMReport ν)} (listed : Listed o nvidia drm) : Apart nvidia drm := by
  obtain ⟨⟨table,-,devices,merged,out⟩,-⟩ := listed
  rw [readGathered] at out
  have slots : (gather slotOf (mergePlaced o) (reports nvidia drm)).map Prod.fst = table.map slotOf := by
    have entries := congrArg (List.map GPUMetrics.pciSlot) out
    have own : (gather slotOf (mergePlaced o) (reports nvidia drm)).map Prod.fst =
        ((gather slotOf (mergePlaced o) (reports nvidia drm)).map Prod.snd).map slotOf := by
      rw [List.map_map]
      refine List.map_congr_left fun e mem => ?_
      obtain ⟨f,found,-,slot⟩ := mergedSlot (gatherMerged _ e mem) slotKnown
      have first : slotOf f = e.1 := by simpa using List.find?_some found
      exact first.symm.trans slot.symm
    rw [own]
    refine List.ext_getElem? fun i => ?_
    have at_ := congrArg (fun l => l[i]?) entries
    simp only [List.getElem?_map,List.getElem?_mapIdx,Option.map_map,Function.comp_def,finalSlot] at at_ ⊢
    exact at_
  obtain ⟨once,all⟩ := @gatherKeys _ _ _ slotOf (mergePlaced o) (reports nvidia drm)
  rw [slots] at once all
  have same {e f : Address × GPUMetrics ν} (left : e ∈ table) (right : f ∈ table) (slot : slotOf e = slotOf f) : e = f :=
    List.inj_on_of_nodup_map once left right slot
  have head (e : Address × GPUMetrics ν) (mem : e ∈ table) : ((∃ r ∈ nvidia, r.place = e.1) ∧ slotOf e = spelled upper 4 e.1) ∨
      (∀ r ∈ nvidia, r.place ≠ e.1) ∧ e.1.domain < 0x10000 ∧ slotOf e = spelled lower 4 e.1 := by
    obtain ⟨f,found,-,slot⟩ := mergedSlot (merged e mem) slotKnown
    rcases (firstReport found).2 with ⟨r,nv,here,rfl⟩ | ⟨other,small,low⟩
    · exact .inl ⟨⟨r,nv,here⟩,slot.trans ((nvidiaSlot r).trans (by rw [here]))⟩
    · exact .inr ⟨other,small,slot.trans low⟩
  have entry (e : Address × GPUMetrics ν) (mem : e ∈ reports nvidia drm) : ∃ f ∈ table, f.1 = e.1 :=
    List.mem_map.mp ((devices e.1).mpr ⟨e,mem,rfl⟩)
  have known (r : NvidiaReport ν) (nv : r ∈ nvidia) : ∃ f ∈ table, f.1 = r.place ∧ slotOf f = spelled upper 4 r.place := by
    obtain ⟨f,mem,here⟩ := entry (r.place,r.gpu) (List.mem_append_left _ (List.mem_map_of_mem nv))
    refine ⟨f,mem,here,?_⟩
    rcases head f mem with ⟨-,slot⟩ | ⟨other,-⟩
    · rw [slot,here]
    · exact absurd here.symm (other r nv)
  refine ⟨?_,?_⟩
  · intro r nv s other low
    obtain ⟨e,left,here,slot⟩ := known r nv
    obtain ⟨f,right,there,name⟩ := known s other
    rw [← here,← there,same left right (by rw [slot,name,upperIff,low])]
  · intro r nv s card low
    have report : (s.place,s.gpu) ∈ reports nvidia drm := List.mem_append_right _ (List.mem_map_of_mem card)
    constructor
    · intro both lettered
      obtain ⟨g,mem,slot⟩ := List.mem_map.mp ((all (spelled lower 4 s.place)).mpr ⟨_,report,rfl⟩)
      rcases head g mem with ⟨-,name⟩ | ⟨other,small,name⟩
      · obtain ⟨agree,plain⟩ := (mixedIff _ _).mp (name.symm.trans slot)
        exact plain ((letteredLow (agree.trans low.symm)).mpr lettered)
      · have agree := (lowSmall small s.small).mp ((lowerIff _ _).mp (name.symm.trans slot))
        exact other r nv (both.trans agree.symm)
    · intro plain
      obtain ⟨e,left,here,slot⟩ := known r nv
      obtain ⟨f,right,there⟩ := entry _ report
      have equal : slotOf e = slotOf f := by
        rcases head f right with ⟨-,name⟩ | ⟨-,-,name⟩
        · rw [slot,name,there,upperIff,low]
        · rw [slot,name,there]
          exact (mixedIff _ _).mpr ⟨low,plain⟩
      rw [← here,same left right equal,there]

/- An entry has the data of the first report of its device. -/
theorem mergedKeeps {κ : Type} [DecidableEq κ] {key : Address × GPUMetrics ν → κ} {o : Host ν} {k : κ} {l : List (Address × GPUMetrics ν)}
    {e : Address × GPUMetrics ν} (merged : Merged key (mergePlaced o) k l e) :
    ∃ f, l.find? (fun f => key f == k) = some f ∧ Keeps o f.2 e.2 :=
  mergedFirst merged (R := fun f e => Keeps o f.2 e.2) (fun f => keepsSelf o f.2) fun _ _ g held => keepsMerge held g.2

/- Each device is listed once, with what nvidia-smi says of it, if and only if the slots tell the devices apart. -/
theorem listsDevices (o : Host ν) (nvidia : List (NvidiaReport ν)) (drm : List (DRMReport ν)) : Listed o nvidia drm ↔ Apart nvidia drm := by
  refine ⟨listedApart,fun apart => ?_⟩
  have keys := @gatherKeys _ _ _ Prod.fst (mergePlaced o) (reports nvidia drm)
  have entries (e : Address × (Address × GPUMetrics ν)) (mem : e ∈ gather Prod.fst (mergePlaced o) (reports nvidia drm)) :
      Merged Prod.fst (mergePlaced o) e.1 (reports nvidia drm) e.2 ∧ e.2.1 = e.1 := by
    have merged := gatherMerged _ e mem
    obtain ⟨f,found,place,-⟩ := mergedSlot merged slotKnown
    have here : f.1 = e.1 := by simpa using List.find?_some found
    exact ⟨merged,place.trans here⟩
  have places : ((gather Prod.fst (mergePlaced o) (reports nvidia drm)).map Prod.snd).map Prod.fst =
      (gather Prod.fst (mergePlaced o) (reports nvidia drm)).map Prod.fst := by
    rw [List.map_map]
    exact List.map_congr_left fun e mem => (entries e mem).2
  have out : readGPUMetrics o (nvidia.map NvidiaReport.gpu) (drm.map DRMReport.gpu) =
      ((gather Prod.fst (mergePlaced o) (reports nvidia drm)).map Prod.snd).mapIdx fun i e => finalizeGPU o { e.2 with index := i } := by
    rw [readGathered,gatherCongr (slotAlike apart)]
  refine ⟨⟨(gather Prod.fst (mergePlaced o) (reports nvidia drm)).map Prod.snd,by rw [places]; exact keys.1,?_,?_,out⟩,?_⟩
  · intro a
    rw [places]
    exact keys.2 a
  · intro e mem
    obtain ⟨f,inside,rfl⟩ := List.mem_map.mp mem
    obtain ⟨merged,here⟩ := entries f inside
    rwa [here]
  · intro r nv alone
    obtain ⟨e,mem,here⟩ := List.mem_map.mp ((keys.2 r.place).mpr ⟨_,List.mem_append_left _ (List.mem_map_of_mem nv),rfl⟩)
    obtain ⟨f,found,kept⟩ := mergedKeeps (entries e mem).1
    have first : f.2 = r.gpu := by
      rcases (firstReport found).2 with ⟨q,other,same,rfl⟩ | ⟨other,-⟩
      · rw [alone q other (same.trans here)]
      · exact absurd here.symm (other r nv)
    rw [first] at kept
    obtain ⟨i,inside⟩ := List.mem_iff_getElem?.mp mem
    refine ⟨finalizeGPU o { e.2.2 with index := i },?_,keepsFinal kept i⟩
    rw [out,List.mem_iff_getElem?]
    exact ⟨i,by rw [List.getElem?_mapIdx,List.getElem?_map,inside]; rfl⟩

end

/- A host where nothing has a name. -/
def bare : Host Nat := ⟨ascii,id,fun _ _ _ => "",fun _ => "",fun _ _ => 0⟩

def unread : GPUMetrics Nat :=
  ⟨0,"","","","","","","",false,"",0,0,0,"","","",0,0,0,0,0,0,0,0,0,0,0,"","","","",[]⟩

/- Bus 10, which one writes 0A and the other 0a. -/
def busTen : Address := ⟨0,10,0,0,by decide,by decide,by decide,by decide⟩

theorem letterTwice : ¬ Listed bare [⟨busTen,unread⟩] [⟨busTen,by decide,unread⟩] := by
  intro listed
  have same := (listedApart listed).2 _ List.mem_cons_self _ List.mem_cons_self rfl
  exact same.mp rfl ⟨10,by decide,Nat.le_refl 10⟩

end ContainerWS.Machine
