import ContainerWS.Docker.EditPage

/-! Each field of a container through the edit page and back: what of an inspection is shown
in rows and texts, written into a request and read there as it was. -/
namespace ContainerWS.Docker
open GoStrings TextRows

/- An argument that the shell words keep. -/
def Word (part : String) : Prop := part ≠ "" ∧ ∀ c ∈ part.toList, jsSpace c = false

/- A line of the environment that has a name. -/
def Named (line : String) : Prop :=
  '=' ∈ line.toList ∧ before '=' line ≠ "" ∧ trim (before '=' line) = before '=' line

def LabelKept (key : String) : Prop := key ≠ "" ∧ trim key = key ∧ key ≠ "__proto__"

/- One side of a bind. -/
def PathKept (path : String) : Prop := path ≠ "" ∧ trim path = path ∧ ':' ∉ path.toList

def BindKept (bind : String) : Prop :=
  ∃ host container, PathKept host ∧ PathKept container ∧
    (bind = host ++ ":" ++ container ∨ bind = host ++ ":" ++ container ++ ":ro")

/- A mount that would be written as a bind. -/
def Mounted (m : Mount) : Prop := trim m.source ≠ "" ∧ trim m.destination ≠ ""

def DeviceKept (d : DeviceMapping) : Prop :=
  (∀ part ∈ [d.pathOnHost,d.pathInContainer,d.cgroupPermissions], part ≠ "" ∧ ':' ∉ part.toList ∧ '\n' ∉ part.toList) ∧
  trim (deviceLine d) = deviceLine d ∧ trimSpace (deviceLine d) = deviceLine d

theorem wordsLoaded (parts : List String) :
    (if decide (shellJoin parts ≠ "") = true then shellSplit (shellJoin parts) else []) = parts ↔ ∀ part ∈ parts, Word part := by
  have gap : jsSpace ' ' = true := by decide
  constructor
  · intro same part mem
    split at same
    · exact wordsMem (same.symm ▸ mem)
    · rw [← same] at mem
      cases mem
  · intro solid
    have back : shellSplit (shellJoin parts) = parts := by
      rw [shellSplit,trim,shellJoin,joinTrimmed solid,wordsJoin gap solid]
    split
    · exact back
    · rename_i none
      rw [not_not.mp (fun some => none (decide_eq_true some))] at back
      rw [← back]
      decide

theorem envKept (line : String) : envString (envRow line) = some line ↔ Named line := by
  unfold envString envRow Named
  split
  · rename_i sign
    have whole : before '=' line ++ "=" ++ after '=' line = line := by
      apply String.toList_inj.mp
      have stop : line.toList.dropWhile (fun d => d != '=') = '=' :: (line.toList.dropWhile (fun d => d != '=')).tail := by
        cases rest : line.toList.dropWhile (fun d => d != '=') with
        | nil =>
          have none := List.dropWhile_eq_nil_iff.mp rest '=' sign
          simp at none
        | cons c tail =>
          have first := List.head?_dropWhile_not (fun d => d != '=') line.toList
          rw [rest] at first
          have same : c = '=' := by simpa using first
          rw [same]
          rfl
      have parts := List.takeWhile_append_dropWhile (p := fun d => d != '=') (l := line.toList)
      rw [stop] at parts
      simpa [before,after] using parts
    split
    · rename_i blank
      refine iff_of_false nofun ?_
      rintro ⟨_,solid,same⟩
      exact solid (same.symm.trans blank)
    · rename_i solid
      dsimp only at solid ⊢
      rw [Option.some_inj]
      constructor
      · intro same
        have key : trim (before '=' line) = before '=' line := by
          have tails : trim (before '=' line) ++ ("=" ++ after '=' line) = before '=' line ++ ("=" ++ after '=' line) := by
            rw [← String.append_assoc,← String.append_assoc,same,whole]
          exact String.append_left_inj _ |>.mp tails
        exact ⟨sign,key ▸ solid,key⟩
      · rintro ⟨_,_,key⟩
        rw [key,whole]
  · rename_i bare
    refine iff_of_false ?_ (fun named => bare named.1)
    dsimp only
    split
    · nofun
    · intro same
      apply bare
      rw [← Option.some_inj.mp same]
      simp

theorem envLoaded (env : List String) : (envFromInspect env).filterMap envString = env ↔ ∀ line ∈ env, Named line := by
  rw [envFromInspect,List.filterMap_map,filterMapSelfIff]
  simp only [Function.comp_apply,envKept]

theorem setFresh {object : List (String × String)} {key : String} (value : String) (real : key ≠ "__proto__")
    (fresh : ∀ e ∈ object, e.1 ≠ key) : setProperty object key value = object ++ [(key,value)] := by
  have none : object.any (fun e => e.1 = key) = false := by
    rw [List.any_eq_false]
    exact fun e mem => by simpa using fresh e mem
  rw [setProperty,if_neg real,none]
  rfl

/- Labels under distinct names that can be kept are kept in order. -/
theorem labelsBuilt {labels : List (String × String)} (distinct : (labels.map Prod.fst).Nodup)
    (kept : ∀ e ∈ labels, LabelKept e.1) : objectOf (labelsFromInspect labels) = labels := by
  have walk (before rest : List (String × String)) (whole : ((before ++ rest).map Prod.fst).Nodup)
      (kept : ∀ e ∈ rest, LabelKept e.1) :
      (labelsFromInspect rest).foldl (fun object r => if trim r.key = "" then object else setProperty object (trim r.key) r.value) before =
        before ++ rest := by
    induction rest generalizing before with
    | nil => simp [labelsFromInspect]
    | cons e rest ih =>
      obtain ⟨⟨solid,same,real⟩,later⟩ := List.forall_mem_cons.mp kept
      have fresh : ∀ d ∈ before, d.1 ≠ e.1 := by
        rw [List.map_append,List.map_cons,List.nodup_append] at whole
        intro d mem
        exact whole.2.2 d.1 (List.mem_map_of_mem mem) e.1 List.mem_cons_self
      have step := ih (before ++ [e]) (by simpa using whole) later
      rw [List.append_assoc,List.singleton_append] at step
      rw [labelsFromInspect,List.map_cons,List.foldl_cons,same,if_neg solid,setFresh e.2 real fresh]
      exact step
  exact walk [] labels (by simpa using distinct) kept

theorem propertyKept {object : List (String × String)} {key value : String} {e : String × String}
    (mem : e ∈ setProperty object key value) : e ∈ object ∨ e.1 = key ∧ key ≠ "__proto__" := by
  unfold setProperty at mem
  split at mem
  · exact .inl mem
  · rename_i real
    split at mem
    · obtain ⟨d,there,same⟩ := List.mem_map.mp mem
      split at same
      · rw [← same]
        exact .inr ⟨rfl,real⟩
      · exact .inl (same ▸ there)
    · rcases List.mem_append.mp mem with old | new
      · exact .inl old
      · rw [List.mem_singleton.mp new]
        exact .inr ⟨rfl,real⟩

/- What is set has a trimmed name. -/
theorem objectKept {rows : List KvRow} {e : String × String} (mem : e ∈ objectOf rows) : LabelKept e.1 := by
  have walk (object : List (String × String)) (held : ∀ d ∈ object, LabelKept d.1) :
      ∀ d ∈ rows.foldl (fun object r => if trim r.key = "" then object else setProperty object (trim r.key) r.value) object,
        LabelKept d.1 := by
    clear mem
    induction rows generalizing object with
    | nil => exact held
    | cons r rest ih =>
      rw [List.foldl_cons]
      refine ih _ ?_
      split
      · exact held
      · rename_i solid
        intro d mem
        rcases propertyKept mem with old | ⟨same,real⟩
        · exact held d old
        · rw [same]
          exact ⟨solid,trimBothTwice r.key,real⟩
  exact walk [] nofun e mem

theorem lookupMem {α : Type} {entries : List (String × α)} (distinct : (entries.map Prod.fst).Nodup) {key : String} {value : α}
    (mem : (key,value) ∈ entries) : entries.lookup key = some value := by
  rw [List.lookup_eq_some_iff]
  obtain ⟨earlier,later,rfl⟩ := List.append_of_mem mem
  refine ⟨earlier,later,rfl,?_⟩
  intro e there
  rw [List.map_append,List.map_cons,List.nodup_append] at distinct
  have other := distinct.2.2 e.1 (List.mem_map_of_mem there) key List.mem_cons_self
  simpa using other.symm

theorem memLookup {α : Type} {entries : List (String × α)} {key : String} {value : α} (found : entries.lookup key = some value) :
    (key,value) ∈ entries := by
  obtain ⟨earlier,later,rfl,_⟩ := List.lookup_eq_some_iff.mp found
  simp

theorem labelsLoaded {labels : List (String × String)} (distinct : (labels.map Prod.fst).Nodup) :
    (∀ key, (objectOf (labelsFromInspect labels)).lookup key = labels.lookup key) ↔ ∀ e ∈ labels, LabelKept e.1 := by
  constructor
  · intro same e mem
    have found := lookupMem distinct mem
    rw [← same] at found
    exact objectKept (memLookup found)
  · intro kept key
    rw [labelsBuilt distinct kept]

theorem splitTwo {sep : Char} {a b : String} (left : sep ∉ a.toList) (right : sep ∉ b.toList) :
    split sep (a ++ String.singleton sep ++ b) = [a,b] := by
  rw [← joinTwo]
  exact splitJoin (List.cons_ne_nil _ _) (by simp [left,right])

theorem splitThree {sep : Char} {a b c : String} (left : sep ∉ a.toList) (middle : sep ∉ b.toList) (right : sep ∉ c.toList) :
    split sep (a ++ String.singleton sep ++ b ++ String.singleton sep ++ c) = [a,b,c] := by
  rw [← joinThree]
  exact splitJoin (List.cons_ne_nil _ _) (by simp [left,middle,right])

theorem markedReadOnly (path : String) : path ++ ":ro" = path ++ String.singleton ':' ++ "ro" := by
  rw [String.append_assoc]
  exact congrArg (path ++ ·) rfl

/- A bind as the page writes it. -/
theorem bindWritten {host container : String} (left : ':' ∉ host.toList) (right : ':' ∉ container.toList) (readOnly : Bool) :
    split ':' (trim host ++ ":" ++ trim container ++ (if readOnly then ":ro" else "")) =
      trim host :: trim container :: (if readOnly then ["ro"] else []) := by
  have trimmedLeft : ':' ∉ (trim host).toList := fun mem => left (trimBothMem mem)
  have trimmedRight : ':' ∉ (trim container).toList := fun mem => right (trimBothMem mem)
  cases readOnly with
  | false =>
    rw [if_neg Bool.false_ne_true,if_neg Bool.false_ne_true,String.append_empty]
    exact splitTwo trimmedLeft trimmedRight
  | true =>
    rw [if_pos rfl,if_pos rfl,markedReadOnly]
    exact splitThree trimmedLeft trimmedRight (by decide)

theorem bindStringSome {v : VolumeRow} {s : String} :
    bindString v = some s ↔ trim v.host ≠ "" ∧ trim v.container ≠ "" ∧
      trim v.host ++ ":" ++ trim v.container ++ (if v.readOnly then ":ro" else "") = s := by
  unfold bindString
  split
  · rename_i solid
    rw [Option.some_inj]
    exact ⟨fun same => ⟨solid.1,solid.2,same⟩,fun held => held.2.2⟩
  · rename_i blank
    exact iff_of_false nofun (fun held => blank ⟨held.1,held.2.1⟩)

theorem bindKept (bind : String) : bindString (volumeOf bind) = some bind ↔ BindKept bind := by
  have noContainer : trim "" = "" := by decide
  rw [bindStringSome]
  constructor
  · intro held
    have parts : ∀ p ∈ split ':' bind, ':' ∉ p.toList := fun p mem => (splitMem mem).1
    have whole : join ':' (split ':' bind) = bind := joinSplit ':' bind
    unfold volumeOf at held
    split at held
    · exact absurd noContainer held.2.1
    · exact absurd noContainer held.2.1
    · rename_i h c found
      obtain ⟨host,container,same⟩ := held
      rw [found] at parts whole
      have left := parts h List.mem_cons_self
      have right := parts c (List.mem_cons_of_mem _ List.mem_cons_self)
      have written := bindWritten left right false
      rw [if_neg Bool.false_ne_true,if_neg Bool.false_ne_true,String.append_empty] at written
      rw [if_neg Bool.false_ne_true,String.append_empty] at same
      rw [same,found] at written
      injection written with hostSame rest
      injection rest with containerSame _
      rw [joinTwo] at whole
      exact ⟨h,c,⟨hostSame ▸ host,hostSame.symm,left⟩,⟨containerSame ▸ container,containerSame.symm,right⟩,.inl whole.symm⟩
    · rename_i h c flag rest found
      obtain ⟨host,container,same⟩ := held
      rw [found] at parts whole
      have left := parts h List.mem_cons_self
      have right := parts c (List.mem_cons_of_mem _ List.mem_cons_self)
      have written := bindWritten left right (flag = "ro")
      rw [same,found] at written
      injection written with hostSame tail
      injection tail with containerSame flags
      split at flags
      · rename_i readOnly
        injection flags with flagSame restSame
        rw [flagSame,restSame,joinThree,← markedReadOnly] at whole
        exact ⟨h,c,⟨hostSame ▸ host,hostSame.symm,left⟩,⟨containerSame ▸ container,containerSame.symm,right⟩,.inr whole.symm⟩
      · cases flags
  · rintro ⟨h,c,⟨host,hostTrimmed,left⟩,⟨container,containerTrimmed,right⟩,rfl | rfl⟩
    · have parts : split ':' (h ++ ":" ++ c) = [h,c] := splitTwo left right
      rw [volumeOf,parts]
      refine ⟨hostTrimmed.symm ▸ host,containerTrimmed.symm ▸ container,?_⟩
      rw [if_neg Bool.false_ne_true,String.append_empty,hostTrimmed,containerTrimmed]
    · have parts : split ':' (h ++ ":" ++ c ++ ":ro") = [h,c,"ro"] := by
        rw [markedReadOnly]
        exact splitThree left right (by decide)
      rw [volumeOf,parts]
      refine ⟨hostTrimmed.symm ▸ host,containerTrimmed.symm ▸ container,?_⟩
      rw [hostTrimmed,containerTrimmed]
      simp

theorem volumesLoaded (binds : List String) (mounts : List Mount) :
    (volumesFromInspect binds mounts).filterMap bindString = binds ↔
      (∀ bind ∈ binds, BindKept bind) ∧ (binds = [] → ∀ m ∈ mounts, ¬Mounted m) := by
  unfold volumesFromInspect
  split
  · rename_i some
    rw [List.filterMap_map,filterMapSelfIff]
    simp only [Function.comp_apply,bindKept]
    exact (and_iff_left (fun none => absurd none some)).symm
  · rename_i none
    rw [not_not.mp none]
    have unwritten (m : Mount) : bindString ⟨m.source,m.destination,!m.rw⟩ = Option.none ↔ ¬Mounted m := by
      unfold bindString Mounted
      split
      · rename_i solid
        exact iff_of_false nofun (not_not.mpr solid)
      · rename_i blank
        exact iff_of_true rfl blank
    have blankSource : trim "" = "" := by decide
    rw [List.filterMap_map,List.filterMap_eq_nil_iff]
    simp only [Function.comp_apply,unwritten,List.mem_filter,List.not_mem_nil,false_implies,implies_true,true_and,forall_const]
    constructor
    · intro skipped m mem mounted
      refine skipped m ⟨mem,decide_eq_true (.inr ?_)⟩ mounted
      intro empty
      exact mounted.1 (empty.symm ▸ blankSource)
    · exact fun none m mem => none m mem.1

/- One line of the devices, on the page and on the server. -/
def readDevice (line : String) : Option DeviceMapping :=
  if trimSpace (trim line) = "" then none else some (parseDevice (trimSpace (trim line)))

theorem devicesRead (text : String) : parseDevices (entriesOf lineBreak text) = (split '\n' text).filterMap readDevice := by
  have blank : trimSpace "" = "" := by decide
  have lines : ((text.toList.splitOnP lineBreak).map String.ofList) = split '\n' text := by
    rw [split,List.splitOn_eq_splitOnP]
    rfl
  rw [parseDevices,entriesOf,lines]
  induction split '\n' text with
  | nil => rfl
  | cons line rest ih =>
    rw [List.filterMap_cons,← ih,readDevice,List.map_cons,List.filter_cons]
    by_cases empty : trim line = ""
    · rw [empty,blank]
      simp
    · by_cases space : trimSpace (trim line) = ""
      · simp [empty,space]
      · simp [empty,space]

theorem forallThree {P : String → Prop} {a b c : String} (first : P a) (second : P b) (third : P c) : ∀ part ∈ [a,b,c], P part := by
  simp only [List.forall_mem_cons]
  exact ⟨first,second,third,nofun⟩

/- A device has three parts of its line, or says what is allowed by itself. -/
theorem deviceParts (text : String) :
    (∃ a, split ':' text = [a] ∧ parseDevice text = ⟨a,a,"rwm"⟩) ∨
    (∃ a b, split ':' text = [a,b] ∧ parseDevice text = ⟨a,b,"rwm"⟩) ∨
    ∃ a b c rest, split ':' text = a :: b :: c :: rest ∧ parseDevice text = ⟨a,b,c⟩ := by
  unfold parseDevice
  split
  · rename_i none
    exact absurd none (splitIff.mp rfl).1
  · rename_i a found
    exact .inl ⟨a,found,rfl⟩
  · rename_i a b found
    exact .inr (.inl ⟨a,b,found,rfl⟩)
  · rename_i a b c rest found
    exact .inr (.inr ⟨a,b,c,rest,found,rfl⟩)

theorem readClean {line : String} {d : DeviceMapping} (read : readDevice line = some d) :
    ∀ part ∈ [d.pathOnHost,d.pathInContainer,d.cgroupPermissions],
      ':' ∉ part.toList ∧ ∀ c ∈ part.toList, c ∈ line.toList ∨ c ∈ "rwm".toList := by
  unfold readDevice at read
  split at read
  · cases read
  · have inside (part : String) (mem : part ∈ split ':' (trimSpace (trim line))) :
        ':' ∉ part.toList ∧ ∀ c ∈ part.toList, c ∈ line.toList ∨ c ∈ "rwm".toList := by
      refine ⟨(splitMem mem).1,fun c there => .inl ?_⟩
      have spaced : c ∈ (trimSpace (trim line)).toList := (splitMem mem).2 c there
      rw [trimSpaceBoth] at spaced
      exact trimBothMem (trimBothMem spaced)
    have rwm : ':' ∉ "rwm".toList ∧ ∀ c ∈ "rwm".toList, c ∈ line.toList ∨ c ∈ "rwm".toList := ⟨by decide,fun c mem => .inr mem⟩
    rw [← Option.some_inj.mp read]
    rcases deviceParts (trimSpace (trim line)) with ⟨a,found,same⟩ | ⟨a,b,found,same⟩ | ⟨a,b,c,rest,found,same⟩
    · rw [same]
      have first := inside a (found ▸ List.mem_cons_self)
      exact forallThree first first rwm
    · rw [same]
      have first := inside a (found ▸ List.mem_cons_self)
      have second := inside b (found ▸ List.mem_cons_of_mem _ List.mem_cons_self)
      exact forallThree first second rwm
    · rw [same]
      have first := inside a (found ▸ List.mem_cons_self)
      have second := inside b (found ▸ List.mem_cons_of_mem _ List.mem_cons_self)
      have third := inside c (found ▸ List.mem_cons_of_mem _ (List.mem_cons_of_mem _ List.mem_cons_self))
      exact forallThree first second third

/- The parts of a device that are written. -/
def deviceTexts (d : DeviceMapping) : List String :=
  [d.pathOnHost,d.pathInContainer,d.cgroupPermissions].filter (fun part => part ≠ "")

theorem lineClean {d : DeviceMapping} (parts : ∀ part ∈ [d.pathOnHost,d.pathInContainer,d.cgroupPermissions], '\n' ∉ part.toList) :
    '\n' ∉ (deviceLine d).toList := by
  intro mem
  rcases joinMem mem with never | ⟨part,there,inside⟩
  · revert never
    decide
  · exact parts part (List.mem_of_mem_filter there) inside

theorem splitLine {d : DeviceMapping} (some : deviceTexts d ≠ [])
    (clean : ∀ part ∈ [d.pathOnHost,d.pathInContainer,d.cgroupPermissions], ':' ∉ part.toList) :
    split ':' (deviceLine d) = deviceTexts d :=
  splitJoin some (fun part mem => clean part (List.mem_of_mem_filter mem))

/- A line that is read back as its device has all three parts. -/
theorem readTexts {d : DeviceMapping} (read : readDevice (deviceLine d) = some d) :
    trimSpace (trim (deviceLine d)) = deviceLine d ∧
      deviceTexts d = [d.pathOnHost,d.pathInContainer,d.cgroupPermissions] := by
  have clean := readClean read
  unfold readDevice at read
  split at read
  · cases read
  · rename_i solid
    have counts (c : Char) (js : jsSpace c = false) (go : isSpace c = false) :
        (trimSpace (trim (deviceLine d))).toList.count c = (deviceLine d).toList.count c :=
      (trimBothCount go).trans (trimBothCount js)
    have some : deviceTexts d ≠ [] := by
      intro none
      apply solid
      have empty : deviceLine d = "" := by
        rw [deviceLine]
        exact congrArg (join ':') none
      rw [empty]
      decide
    have line := splitLine some (fun part mem => (clean part mem).1)
    have colons := counts ':' (by decide) (by decide)
    have letters := counts 'r' (by decide) (by decide)
    have lengths : (split ':' (trimSpace (trim (deviceLine d)))).length = (deviceTexts d).length := by
      rw [← line,splitLength,splitLength,colons]
    have whole := joinSplit ':' (trimSpace (trim (deviceLine d)))
    have wholeLine := joinSplit ':' (deviceLine d)
    have parts := deviceParts (trimSpace (trim (deviceLine d)))
    rw [Option.some_inj.mp read] at parts
    rw [line] at wholeLine
    rcases parts with ⟨a,found,rfl⟩ | ⟨a,b,found,rfl⟩ | ⟨a,b,c,rest,found,rfl⟩
    · rw [found,joinOne] at whole
      rw [← whole] at solid
      rw [found] at lengths
      simp [deviceTexts,solid] at lengths
    · -- The letters of what is allowed would have to come from the line.
      rw [found] at lengths whole
      rw [← whole,← wholeLine,joinTwo] at letters
      by_cases noHost : a = ""
      · by_cases noContainer : b = ""
        · simp [deviceTexts,noHost,noContainer] at lengths
        · simp [deviceTexts,noHost,noContainer,joinTwo] at letters
      · by_cases noContainer : b = ""
        · simp [deviceTexts,noHost,noContainer,joinTwo] at letters
        · simp [deviceTexts,noHost,noContainer] at lengths
    · have full : deviceTexts ⟨a,b,c⟩ = [a,b,c] := by
        apply List.filter_sublist.eq_of_length_le
        rw [found] at lengths
        have short : (deviceTexts ⟨a,b,c⟩).length = rest.length+3 := lengths.symm
        have less : (deviceTexts ⟨a,b,c⟩).length ≤ [a,b,c].length := List.length_filter_le _ _
        rw [List.length_cons,List.length_cons,List.length_singleton]
        exact short ▸ Nat.le_add_left 3 _
      have none : rest = [] := by
        rw [found,full] at lengths
        exact List.eq_nil_of_length_eq_zero (by simpa using lengths)
      rw [found,none] at whole
      rw [full] at wholeLine
      exact ⟨whole.symm.trans wholeLine,full⟩

theorem deviceKept (d : DeviceMapping) : readDevice (deviceLine d) = some d ∧ '\n' ∉ (deviceLine d).toList ↔ DeviceKept d := by
  constructor
  · rintro ⟨read,line⟩
    have clean := readClean read
    obtain ⟨same,texts⟩ := readTexts read
    rw [trimSpaceBoth,trim] at same
    obtain ⟨js,go⟩ := trimBothEach same
    refine ⟨?_,js,go⟩
    intro part mem
    have written : part ∈ deviceTexts d := texts ▸ mem
    refine ⟨of_decide_eq_true (List.mem_filter.mp written).2,(clean part mem).1,?_⟩
    rw [← splitLine (List.ne_nil_of_mem written) (fun part mem => (clean part mem).1)] at written
    exact fun inside => line ((splitMem written).2 _ inside)
  · rintro ⟨clean,js,go⟩
    have full : deviceTexts d = [d.pathOnHost,d.pathInContainer,d.cgroupPermissions] :=
      List.filter_eq_self.mpr (fun part mem => decide_eq_true (clean part mem).1)
    have parts := splitLine (full ▸ List.cons_ne_nil _ _) (fun part mem => (clean part mem).2.1)
    rw [full] at parts
    refine ⟨?_,lineClean (fun part mem => (clean part mem).2.2)⟩
    have some : deviceLine d ≠ "" := by
      intro empty
      have lengths := congrArg List.length parts
      rw [empty,splitLength] at lengths
      cases lengths
    rw [readDevice,js,go,if_neg some,parseDevice,parts]

theorem devicesLoaded (devices : List DeviceMapping) :
    parseDevices (entriesOf lineBreak (join '\n' (devices.map deviceLine))) = devices ↔ ∀ d ∈ devices, DeviceKept d := by
  rw [devicesRead]
  by_cases none : devices = []
  · rw [none]
    refine iff_of_true ?_ nofun
    decide
  · have some : devices.map deviceLine ≠ [] := fun empty => none (List.map_eq_nil_iff.mp empty)
    constructor
    · intro same d mem
      have oneLine (d : DeviceMapping) (mem : d ∈ devices) : '\n' ∉ (deviceLine d).toList := by
        rw [← same] at mem
        obtain ⟨line,there,read⟩ := List.mem_filterMap.mp mem
        have clean : '\n' ∉ line.toList := (splitMem there).1
        have parts : ∀ part ∈ [d.pathOnHost,d.pathInContainer,d.cgroupPermissions], '\n' ∉ part.toList := by
          intro part mem inside
          rcases (readClean read part mem).2 '\n' inside with here | never
          · exact clean here
          · revert never
            decide
        exact lineClean parts
      rw [splitJoin some (by simpa using oneLine),List.filterMap_map] at same
      have read := filterMapSelf same d mem
      rw [Function.comp_apply] at read
      exact (deviceKept d).mp ⟨read,oneLine d mem⟩
    · intro kept
      have lines : ∀ line ∈ devices.map deviceLine, '\n' ∉ line.toList := by
        intro line mem
        obtain ⟨d,there,rfl⟩ := List.mem_map.mp mem
        exact ((deviceKept d).mpr (kept d there)).2
      rw [splitJoin some lines,List.filterMap_map,filterMapSelfIff]
      intro d mem
      rw [Function.comp_apply]
      exact ((deviceKept d).mpr (kept d mem)).1

/- The characters that sizes are written with. -/
def SizeChar (c : Char) : Prop := c.isDigit = true ∨ c = 'g' ∨ c = 'm'

theorem sizeCode {c : Char} (size : SizeChar c) : (48 ≤ c.toNat ∧ c.toNat ≤ 57) ∨ c.toNat = 103 ∨ c.toNat = 109 := by
  rcases size with digit | rfl | rfl
  · exact .inl (Char.isDigit_iff_toNat.mp digit)
  · exact .inr (.inl rfl)
  · exact .inr (.inr rfl)

theorem sizeSolid {c : Char} (size : SizeChar c) : jsSpace c = false ∧ isSpace c = false := by
  have code := sizeCode size
  simp only [jsSpace,isSpace,Bool.or_eq_false_iff,Bool.and_eq_false_iff,decide_eq_false_iff_not,beq_eq_false_iff_ne]
  omega

theorem sizeLower {c : Char} (size : SizeChar c) : c.toLower = c := by
  have code := sizeCode size
  unfold Char.toLower
  split
  · rename_i upper
    have low : 65 ≤ c.toNat := upper.1
    have high : c.toNat ≤ 90 := upper.2
    omega
  · rfl

theorem truncateInt (n : Int) : truncate (n : Rat) = n := by
  unfold truncate
  split
  · exact Int.ceil_intCast n
  · exact Int.floor_intCast n

theorem restartLoaded {policy : RestartPolicy} {retries : Int} :
    (⟨if trimSpace (if policy.name = "" then "no" else policy.name) = "" then "no"
      else trimSpace (if policy.name = "" then "no" else policy.name),retries⟩ : RestartPolicy) = policy ↔
      (policy.name ≠ "" ∧ trimSpace policy.name = policy.name) ∧ retries = policy.maximumRetryCount := by
  have no : trimSpace "no" = "no" := by decide
  cases policy with
  | mk name count =>
    rw [RestartPolicy.mk.injEq]
    refine and_congr_left (fun _ => ?_)
    dsimp only
    by_cases none : name = ""
    · rw [if_pos none,no,if_neg (by decide),none]
      exact iff_of_false (by decide) (fun held => held.1 rfl)
    · rw [if_neg none]
      constructor
      · intro same
        refine ⟨none,?_⟩
        split at same
        · rename_i blank
          rw [← same]
          exact no
        · exact same
      · rintro ⟨_,same⟩
        rw [same,if_neg none]

section
variable (rt : Runtime)

/- A size is read as it is written. -/
theorem sizeText {s : String} (size : ∀ c ∈ s.toList, SizeChar c) : trim s = s ∧ trimSpace (rt.lower.toLower s) = s := by
  have lower : rt.lower.toLower s = s := by
    have same : ∀ c ∈ s.toList, rt.lower.lower c = id c := by
      intro c mem
      have code := sizeCode (size c mem)
      rw [rt.lowerAscii c (by omega),sizeLower (size c mem),id]
    rw [CaseMap.toLower,List.map_congr_left same,List.map_id,String.ofList_toList]
  refine ⟨?_,?_⟩
  · exact trimBothIff.mpr ⟨fun c head => (sizeSolid (size c (List.mem_of_head? head))).1,
      fun c last => (sizeSolid (size c (List.mem_of_getLast? last))).1⟩
  · rw [lower]
    exact trimSpaceSelf (fun c mem => (sizeSolid (size c mem)).2)

theorem digitsSize {s : String} (digits : ∀ c ∈ s.toList, c.isDigit = true) {suffix : String} (unit : suffix = "g" ∨ suffix = "m") :
    ∀ c ∈ (s ++ suffix).toList, SizeChar c := by
  intro c mem
  rw [String.toList_append,List.mem_append] at mem
  rcases mem with digit | letter
  · exact .inl (digits c digit)
  · rcases unit with rfl | rfl
    · exact .inr (.inl (by simpa using letter))
    · exact .inr (.inr (by simpa using letter))

/- A positive size that is a double is read from its digits, and from those of its units. -/
theorem plainSize {n : Int} (positive : 0 < n) (small : n ≤ 2^63) (exact : rt.double n = n) :
    parseMemory rt.toLibrary rt.lower (trim (rt.string n)) = .ok n := by
  obtain ⟨some,nonzero,digits,value⟩ := rt.stringDigits n positive small exact
  obtain ⟨js,go⟩ := sizeText rt (fun c mem => .inl (digits c mem))
  have noLetter (c : Char) (letter : c.isDigit = false) : hasSuffix (rt.string n) c = false := by
    rw [hasSuffix,decide_eq_false_iff_not]
    intro last
    rw [digits c (List.mem_of_getLast? last)] at letter
    cases letter
  unfold parseMemory
  rw [js,go]
  simp only [some,nonzero,or_self,if_false,noLetter 'g' (by decide),noLetter 'm' (by decide),noLetter 'k' (by decide),
    noLetter 'b' (by decide),Bool.false_eq_true,value,mul_one,truncateInt]

theorem unitEnds (s : String) (letter : Char) :
    (∀ c, hasSuffix (s ++ String.singleton letter) c = decide (letter = c)) ∧ trimSuffix (s ++ String.singleton letter) = s ∧
      s ++ String.singleton letter ≠ "" := by
  refine ⟨fun c => by simp [hasSuffix],by simp [trimSuffix],?_⟩
  intro empty
  have lengths := congrArg String.toList empty
  simp at lengths

theorem gigaSize {n : Int} (positive : 0 < n) (small : n ≤ 2^63) (exact : rt.double n = n) :
    parseMemory rt.toLibrary rt.lower (trim (rt.string n ++ "g")) = .ok (n*(1024*1024*1024)) := by
  obtain ⟨some,nonzero,digits,value⟩ := rt.stringDigits n positive small exact
  obtain ⟨js,go⟩ := sizeText rt (digitsSize digits (.inl rfl))
  obtain ⟨ends,cut,whole⟩ := unitEnds (rt.string n) 'g'
  have notZero : rt.string n ++ "g" ≠ "0" := by
    intro same
    have last := ends '0'
    rw [show String.singleton 'g' = "g" from rfl,same] at last
    revert last
    decide
  have units : ((n : Rat)*(1024*1024*1024)) = ((n*(1024*1024*1024) : Int) : Rat) := by
    push_cast
    norm_num
  have ends' : hasSuffix (rt.string n ++ "g") 'g' = true := ends 'g'
  have cut' : trimSuffix (rt.string n ++ "g") = rt.string n := cut
  unfold parseMemory
  rw [js,go]
  simp only [notZero,show rt.string n ++ "g" ≠ "" from whole,or_self,if_false,ends',if_true,cut',value,units,truncateInt]

theorem megaSize {n : Int} (positive : 0 < n) (small : n ≤ 2^63) (exact : rt.double n = n) :
    parseMemory rt.toLibrary rt.lower (trim (rt.string n ++ "m")) = .ok (n*(1024*1024)) := by
  obtain ⟨some,nonzero,digits,value⟩ := rt.stringDigits n positive small exact
  obtain ⟨js,go⟩ := sizeText rt (digitsSize digits (.inr rfl))
  obtain ⟨ends,cut,whole⟩ := unitEnds (rt.string n) 'm'
  have notZero : rt.string n ++ "m" ≠ "0" := by
    intro same
    have last := ends '0'
    rw [show String.singleton 'm' = "m" from rfl,same] at last
    revert last
    decide
  have units : ((n : Rat)*(1024*1024)) = ((n*(1024*1024) : Int) : Rat) := by
    push_cast
    norm_num
  have notGiga : hasSuffix (rt.string n ++ "m") 'g' = false := ends 'g'
  have ends' : hasSuffix (rt.string n ++ "m") 'm' = true := ends 'm'
  have cut' : trimSuffix (rt.string n ++ "m") = rt.string n := cut
  unfold parseMemory
  rw [js,go]
  simp only [notZero,show rt.string n ++ "m" ≠ "" from whole,or_self,if_false,notGiga,Bool.false_eq_true,ends',if_true,cut',
    value,units,truncateInt]

/- A positive double is read from what the page shows of it. -/
theorem memoryRead {n : Int} (positive : 0 < n) (small : n ≤ 2^63) (exact : rt.double n = n) :
    parseMemory rt.toLibrary rt.lower (trim (memoryFromBytes rt n)) = .ok n := by
  unfold memoryFromBytes
  rw [if_neg (ne_of_gt positive)]
  split
  · rename_i whole
    have parts : n/(1024*1024*1024)*(1024*1024*1024) = n := Int.ediv_mul_cancel (Int.dvd_of_emod_eq_zero whole)
    have double : rt.double (n/(1024*1024*1024)) = n/(1024*1024*1024) := by
      apply rt.doublePart 30
      have power : (2 : Int)^30*(n/(1024*1024*1024)) = n := by omega
      rw [power,exact]
    rw [gigaSize rt (by omega) (by omega) double,parts]
  · split
    · rename_i whole
      have parts : n/(1024*1024)*(1024*1024) = n := Int.ediv_mul_cancel (Int.dvd_of_emod_eq_zero whole)
      have double : rt.double (n/(1024*1024)) = n/(1024*1024) := by
        apply rt.doublePart 20
        have power : (2 : Int)^20*(n/(1024*1024)) = n := by omega
        rw [power,exact]
      rw [megaSize rt (by omega) (by omega) double,parts]
    · exact plainSize rt positive small exact

theorem memoryLoaded {n : Int} (small : n ≤ 2^63) :
    (∃ mem, parseMemory rt.toLibrary rt.lower (trim (memoryFromBytes rt (rt.double n))) = .ok mem ∧ (if 0 < mem then mem else 0) = n) ↔
      0 ≤ n ∧ rt.double n = n := by
  have unset : parseMemory rt.toLibrary rt.lower (trim (memoryFromBytes rt 0)) = .ok 0 := by
    have empty : trim (memoryFromBytes rt 0) = "" := by
      rw [memoryFromBytes,if_pos rfl]
      decide
    have blank : trimSpace (rt.lower.toLower "") = "" := by
      have lowered : rt.lower.toLower "" = "" := by simp [CaseMap.toLower]
      rw [lowered]
      decide
    rw [empty,parseMemory,blank]
    rfl
  constructor
  · rintro ⟨mem,read,same⟩
    have nonneg : 0 ≤ n := by
      rw [← same]
      split
      · rename_i positive
        exact positive.le
      · rfl
    refine ⟨nonneg,?_⟩
    rcases (rt.doubleNonneg n nonneg).eq_or_lt with zero | positive
    · rw [← zero] at read
      have none := Except.ok.inj (unset.symm.trans read)
      rw [← none] at same
      rw [← same]
      exact rt.doubleZero
    · have value := Except.ok.inj ((memoryRead rt positive (rt.doubleBound n small) (rt.doubleTwice n)).symm.trans read)
      rw [← value,if_pos positive] at same
      exact same
  · rintro ⟨nonneg,exact⟩
    rw [exact]
    rcases nonneg.eq_or_lt with zero | positive
    · rw [← zero]
      exact ⟨0,unset,rfl⟩
    · exact ⟨n,memoryRead rt positive small exact,if_pos positive⟩

end

end ContainerWS.Docker
