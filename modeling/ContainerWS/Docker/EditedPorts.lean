import ContainerWS.Docker.EditedRows

/-! The ports of a container through the edit page and back. A port that is read has the name
that a port is written with, so no binding can come to be in the place of another. -/
namespace ContainerWS.Docker
open GoStrings TextRows

variable (rt : Runtime)

/- A port under the name that it is read with: a number or a range, and a protocol. -/
def PortKey (number proto key : String) : Prop :=
  key = number ++ "/" ++ proto ∧ number ≠ "" ∧ (∀ c ∈ number.toList, c.isDigit = true ∨ c = '-') ∧
  '/' ∉ proto.toList ∧ rt.lower.toLower proto = proto ∧ (∀ c, proto.toList.getLast? = some c → isSpace c = false) ∧
  rt.newPort proto number = .ok key

def KeyKept (key : String) : Prop := ∃ number proto, PortKey rt number proto key ∧ proto ≠ ""

/- One side of an address of the host. -/
def HostKept (s : String) : Prop := trim s = s ∧ ':' ∉ s.toList ∧ '/' ∉ s.toList

/- Either nothing of the host is said, or its port is, and what is written begins with no blank. -/
def BindingKept (b : PortBinding) : Prop :=
  b = ⟨"",""⟩ ∨ b.hostPort ≠ "" ∧ HostKept b.hostIP ∧ HostKept b.hostPort ∧
    ∀ c, (b.hostIP ++ b.hostPort).toList.head? = some c → isSpace c = false

def PortsKept (bindings : PortMap) : Prop :=
  ∀ e ∈ bindings, KeyKept rt e.1 ∧ e.2 ≠ [] ∧ ∀ b ∈ e.2, BindingKept b

/- A binding with its port. -/
abbrev Pair := String × PortBinding

def pairs (bindings : PortMap) : List Pair := bindings.flatMap (fun e => e.2.map (fun b => (e.1,b)))

def rowOf (x : Pair) : PortRow := ⟨x.2.hostIP,x.2.hostPort,portOf x.1,protocolOf rt x.1⟩

def protoAndRest (raw : String) : String × String :=
  match split '/' raw with
  | [port,proto] => (rt.lower.toLower proto,port)
  | _ => ("tcp",raw)

def bindingOf (proto raw : String) : Except String (Option Pair) :=
  match split ':' raw with
  | [containerPort] => (rt.newPort proto containerPort).map (fun p => some (p,⟨"",""⟩))
  | [hostPort,containerPort] => (rt.newPort proto containerPort).map (fun p => some (p,⟨"",hostPort⟩))
  | [hostIP,hostPort,containerPort] => (rt.newPort proto containerPort).map (fun p => some (p,⟨hostIP,hostPort⟩))
  | _ => .error ("invalid port mapping: " ++ raw)

/- The parts of what is left of an entry. -/
def Parts (raw containerPort : String) (b : PortBinding) : Prop :=
  split ':' raw = [containerPort] ∧ b = ⟨"",""⟩ ∨ (∃ hp, split ':' raw = [hp,containerPort] ∧ b = ⟨"",hp⟩) ∨
    ∃ hi hp, split ':' raw = [hi,hp,containerPort] ∧ b = ⟨hi,hp⟩

theorem parsePortIs (entry : String) : parsePort rt.toLibrary rt.lower entry =
    if trimSpace entry = "" then .ok none
    else bindingOf rt (protoAndRest rt (trimSpace entry)).1 (protoAndRest rt (trimSpace entry)).2 := by
  unfold parsePort protoAndRest
  dsimp only
  by_cases blank : trimSpace entry = ""
  · rw [if_pos blank,if_pos blank]
  · rw [if_neg blank,if_neg blank]
    unfold bindingOf
    rcases split '/' (trimSpace entry) with _ | ⟨a,_ | ⟨b,_ | ⟨c,rest⟩⟩⟩
    all_goals
      -- what is left turns on the number of parts between the colons
      generalize split ':' _ = parts
      rcases parts with _ | ⟨x,_ | ⟨y,_ | ⟨z,_ | ⟨w,more⟩⟩⟩⟩ <;> rfl

variable {rt}

theorem bindingOfSome {proto raw : String} {y : Pair} :
    bindingOf rt proto raw = .ok (some y) ↔ ∃ containerPort, rt.newPort proto containerPort = .ok y.1 ∧ Parts raw containerPort y.2 := by
  have mapped {port : String} {b : PortBinding} :
      (rt.newPort proto port).map (fun p => some (p,b)) = .ok (some y) ↔ rt.newPort proto port = .ok y.1 ∧ y.2 = b := by
    cases rt.newPort proto port with
    | error message => exact iff_of_false nofun (fun held => nomatch held.1)
    | ok k =>
      constructor
      · intro same
        cases same
        exact ⟨rfl,rfl⟩
      · rintro ⟨key,binding⟩
        cases key
        rw [← binding]
        rfl
  unfold bindingOf Parts
  split
  · rename_i cp found
    rw [mapped,found]
    simp
  · rename_i hp cp found
    rw [mapped,found]
    simp
  · rename_i hi hp cp found
    rw [mapped,found]
    simp
  · rename_i one two three
    refine iff_of_false nofun ?_
    rintro ⟨cp,_,⟨found,_⟩ | ⟨hp,found,_⟩ | ⟨hi,hp,found,_⟩⟩
    · exact one cp found
    · exact two hp cp found
    · exact three hi hp cp found

/- A protocol that an entry can be read with. -/
theorem protoRead (rt : Runtime) (entry : String) :
    '/' ∉ (protoAndRest rt (trimSpace entry)).1.toList ∧
      rt.lower.toLower (protoAndRest rt (trimSpace entry)).1 = (protoAndRest rt (trimSpace entry)).1 ∧
      (∀ c, (protoAndRest rt (trimSpace entry)).1.toList.getLast? = some c → isSpace c = false) ∧
      ((protoAndRest rt (trimSpace entry)).1 = "" → (trimSpace entry).toList.getLast? = some '/') := by
  have solid := (trimSpaceSolid entry).2
  generalize trimSpace entry = raw at solid
  unfold protoAndRest
  split
  · rename_i port proto found
    have whole := joinSplit '/' raw
    rw [found,joinTwo] at whole
    refine ⟨?_,rt.lower.toLowerTwice proto,?_,?_⟩
    · intro mem
      rw [CaseMap.toLower,String.toList_ofList,List.mem_map] at mem
      obtain ⟨c,there,same⟩ := mem
      rw [rt.lowerSlash c same] at there
      exact (splitMem (found ▸ List.mem_cons_of_mem _ List.mem_cons_self)).1 there
    · intro c last
      rw [CaseMap.toLower,String.toList_ofList,List.getLast?_map,Option.map_eq_some_iff] at last
      obtain ⟨d,final,rfl⟩ := last
      apply rt.lowerSolid
      apply solid
      rw [← whole,String.toList_append,List.getLast?_append,final]
      rfl
    · intro empty
      have none : proto = "" := by
        have chars := congrArg String.toList empty
        rw [CaseMap.toLower,String.toList_ofList] at chars
        exact String.toList_inj.mp (List.map_eq_nil_iff.mp chars)
      rw [← whole,none]
      simp
  · have tcp : '/' ∉ "tcp".toList ∧ ∀ c, "tcp".toList.getLast? = some c → isSpace c = false := by
      refine ⟨by decide,?_⟩
      intro c last
      cases last
      decide
    have lower : rt.lower.toLower "tcp" = "tcp" := by simp [CaseMap.toLower,rt.lowerAscii]
    exact ⟨tcp.1,lower,tcp.2,fun empty => absurd (show "tcp" = "" from empty) (by decide)⟩

theorem resultKey {entry : String} {y : Pair} (read : parsePort rt.toLibrary rt.lower entry = .ok (some y)) :
    ∃ number proto, PortKey rt number proto y.1 ∧ (proto = "" → (trimSpace entry).toList.getLast? = some '/') := by
  rw [parsePortIs] at read
  split at read
  · cases read
  · obtain ⟨cp,port,_⟩ := bindingOfSome.mp read
    obtain ⟨slash,lower,solid,bare⟩ := protoRead rt entry
    obtain ⟨number,key,some,digits,again⟩ := rt.port port
    exact ⟨number,_,⟨key,some,digits,slash,lower,solid,again⟩,bare⟩

/- The sides of the host that are written. -/
def hostsOf (b : PortBinding) : List String :=
  if trim b.hostIP ≠ "" ∧ trim b.hostPort ≠ "" then [trim b.hostIP,trim b.hostPort]
  else if trim b.hostPort ≠ "" then [trim b.hostPort]
  else []

def protoOr (proto : String) : String := if proto = "" then "tcp" else proto

def entryOf (hosts : List String) (number proto : String) : String := join ':' (hosts ++ [number]) ++ "/" ++ proto

section
variable {number proto key : String} (held : PortKey rt number proto key)
include held

theorem numberCode {c : Char} (mem : c ∈ number.toList) : (48 ≤ c.toNat ∧ c.toNat ≤ 57) ∨ c.toNat = 45 := by
  rcases held.2.2.1 c mem with digit | rfl
  · exact .inl (Char.isDigit_iff_toNat.mp digit)
  · exact .inr rfl

theorem numberSolid {c : Char} (mem : c ∈ number.toList) : jsSpace c = false ∧ isSpace c = false ∧ c ≠ ':' ∧ c ≠ '/' := by
  have code := numberCode held mem
  refine ⟨?_,?_,?_,?_⟩
  · simp only [jsSpace,Bool.or_eq_false_iff,Bool.and_eq_false_iff,decide_eq_false_iff_not,beq_eq_false_iff_ne]
    omega
  · simp only [isSpace,Bool.or_eq_false_iff,Bool.and_eq_false_iff,decide_eq_false_iff_not,beq_eq_false_iff_ne]
    omega
  · rintro rfl
    revert code
    decide
  · rintro rfl
    revert code
    decide

theorem keySplit : split '/' key = [number,proto] := by
  rw [held.1]
  exact splitTwo (fun mem => (numberSolid held mem).2.2.2 rfl) held.2.2.2.1

theorem protoOrLower : rt.lower.toLower (protoOr proto) = protoOr proto := by
  unfold protoOr
  split
  · simp [CaseMap.toLower,rt.lowerAscii]
  · exact held.2.2.2.2.1

theorem protoOrSolid : protoOr proto ≠ "" ∧ '/' ∉ (protoOr proto).toList ∧
    ∀ c, (protoOr proto).toList.getLast? = some c → isSpace c = false := by
  unfold protoOr
  split
  · refine ⟨by decide,by decide,?_⟩
    intro c last
    cases last
    decide
  · rename_i some
    exact ⟨some,held.2.2.2.1,held.2.2.2.2.2.1⟩

theorem writtenIs (b : PortBinding) : portString (rowOf rt (key,b)) = some (entryOf (hostsOf b) number (protoOr proto)) := by
  have port : portOf key = number := by rw [portOf,keySplit held,List.headD_cons]
  have protocol : protocolOf rt key = protoOr proto := by
    rw [protocolOf,keySplit held]
    exact rt.toLowerCaseSelf _ (protoOrLower held)
  have plain : trim number = number :=
    trimBothIff.mpr ⟨fun c head => (numberSolid held (List.mem_of_head? head)).1,
      fun c last => (numberSolid held (List.mem_of_getLast? last)).1⟩
  unfold portString rowOf
  dsimp only
  rw [port,protocol,plain,if_neg (protoOrSolid held).1,if_neg held.2.1]
  unfold hostsOf entryOf
  split
  · rw [List.cons_append,List.singleton_append,joinThree]
    rfl
  · split
    · rw [List.singleton_append,joinTwo]
      rfl
    · rw [List.nil_append,joinOne]

end

/- The sides of the host without the blanks they begin with. -/
def trimHead : List String → List String
  | [] => []
  | host :: rest => left isSpace host :: rest

section
variable {number proto key : String} (held : PortKey rt number proto key)
include held

theorem entryTrimmed (hosts : List String) {last : String} (real : last ≠ "")
    (solid : ∀ c, last.toList.getLast? = some c → isSpace c = false) :
    trimSpace (entryOf hosts number last) = entryOf (trimHead hosts) number last := by
  have ends : ∀ c, (entryOf hosts number last).toList.getLast? = some c → isSpace c = false := by
    intro c final
    have chars : last.toList ≠ [] := fun none => real (String.toList_inj.mp none)
    rw [entryOf,String.toList_append,List.getLast?_append_of_ne_nil _ chars] at final
    exact solid c final
  rw [trimSpaceBoth,trimBothLeft ends]
  cases hosts with
  | nil =>
    rw [trimHead,leftSelf]
    intro c first
    have chars : number.toList ≠ [] := fun none => held.2.1 (String.toList_inj.mp none)
    rw [entryOf,List.nil_append,joinOne,String.toList_append,String.toList_append,List.append_assoc,
      List.head?_append_of_ne_nil _ chars] at first
    exact (numberSolid held (List.mem_of_head? first)).2.1
  | cons host rest =>
    have split (h : String) : entryOf (h :: rest) number last = h ++ String.singleton ':' ++ (join ':' (rest ++ [number]) ++ "/" ++ last) := by
      apply String.toList_inj.mp
      cases rest with
      | nil => simp [entryOf,joinTwo,joinOne]
      | cons next rest => simp [entryOf,joinCons]
    rw [split,leftAppend (by decide),trimHead,split]

end

theorem partsLast {raw cp : String} {b : PortBinding} (parts : Parts raw cp b) : (split ':' raw).getLast? = some cp := by
  rcases parts with ⟨found,_⟩ | ⟨hp,found,_⟩ | ⟨hi,hp,found,_⟩
  · rw [found,List.getLast?_singleton]
  · rw [found,List.getLast?_cons_cons,List.getLast?_singleton]
  · rw [found,List.getLast?_cons_cons,List.getLast?_cons_cons,List.getLast?_singleton]

/- An entry without a second separator is read in two; any other one is taken for a TCP port. -/
theorem protoAndRestOf (base : String) {proto : String} (slash : '/' ∉ proto.toList) :
    protoAndRest rt (base ++ "/" ++ proto) = if '/' ∈ base.toList then ("tcp",base ++ "/" ++ proto) else (rt.lower.toLower proto,base) := by
  have last : split '/' proto = [proto] := splitIff.mpr ⟨List.cons_ne_nil _ _,by simpa using slash,joinOne proto⟩
  have parts : split '/' (base ++ "/" ++ proto) = split '/' base ++ [proto] := last ▸ splitAppend base proto
  have count := splitLength '/' base
  unfold protoAndRest
  rw [parts]
  by_cases inside : '/' ∈ base.toList
  · rw [if_pos inside]
    have some := List.count_pos_iff.mpr inside
    generalize split '/' base = first at count
    rcases first with _ | ⟨a,_ | ⟨b,rest⟩⟩
    · rfl
    · rw [List.length_singleton] at count
      omega
    · cases rest <;> rfl
  · rw [if_neg inside]
    have one : split '/' base = [base] := splitIff.mpr ⟨List.cons_ne_nil _ _,by simpa using inside,joinOne base⟩
    rw [one]
    rfl

/- What the sides of the host are read as. -/
def Sides (hosts : List String) (b : PortBinding) : Prop :=
  hosts = [] ∧ b = ⟨"",""⟩ ∨ hosts = [b.hostPort] ∧ b.hostIP = "" ∨ hosts = [b.hostIP,b.hostPort]

theorem partsClean {raw cp : String} {b : PortBinding} (parts : Parts raw cp b) : ':' ∉ b.hostIP.toList ∧ ':' ∉ b.hostPort.toList := by
  have part (p : String) (mem : p ∈ split ':' raw) : ':' ∉ p.toList := (splitMem mem).1
  have none : ':' ∉ "".toList := by decide
  rcases parts with ⟨_,rfl⟩ | ⟨hp,found,rfl⟩ | ⟨hi,hp,found,rfl⟩
  · exact ⟨none,none⟩
  · exact ⟨none,part hp (found ▸ List.mem_cons_self)⟩
  · exact ⟨part hi (found ▸ List.mem_cons_self),part hp (found ▸ List.mem_cons_of_mem _ List.mem_cons_self)⟩

theorem partsSides {hosts : List String} {number : String} {b : PortBinding} (clean : ':' ∉ number.toList)
    (sides : ∀ host ∈ hosts, ':' ∉ host.toList) : Parts (join ':' (hosts ++ [number])) number b ↔ Sides hosts b := by
  have parts : split ':' (join ':' (hosts ++ [number])) = hosts ++ [number] := by
    refine splitJoin (by simp) ?_
    intro p mem
    rcases List.mem_append.mp mem with host | last
    · exact sides p host
    · rwa [List.mem_singleton.mp last]
  unfold Parts Sides
  rw [parts]
  constructor
  · rintro (⟨found,rfl⟩ | ⟨hp,found,rfl⟩ | ⟨hi,hp,found,rfl⟩)
    · have hosts : hosts ++ [number] = [] ++ [number] := found
      exact .inl ⟨List.append_cancel_right hosts,rfl⟩
    · have hosts : hosts ++ [number] = [hp] ++ [number] := found
      exact .inr (.inl ⟨List.append_cancel_right hosts,rfl⟩)
    · have hosts : hosts ++ [number] = [hi,hp] ++ [number] := found
      exact .inr (.inr (List.append_cancel_right hosts))
  · rintro (⟨rfl,same⟩ | ⟨rfl,same⟩ | rfl)
    · exact .inl ⟨rfl,same⟩
    · exact .inr (.inl ⟨b.hostPort,rfl,by rw [← same]⟩)
    · exact .inr (.inr ⟨b.hostIP,b.hostPort,rfl,rfl⟩)

/- Both sides are written, or the port alone, or nothing. -/
theorem hostsCases (b : PortBinding) :
    (trim b.hostIP ≠ "" ∧ trim b.hostPort ≠ "" ∧ trimHead (hostsOf b) = [left isSpace (trim b.hostIP),trim b.hostPort]) ∨
    (trim b.hostPort ≠ "" ∧ trimHead (hostsOf b) = [left isSpace (trim b.hostPort)]) ∨ trimHead (hostsOf b) = [] := by
  unfold hostsOf
  split
  · rename_i both
    exact .inl ⟨both.1,both.2,rfl⟩
  · split
    · rename_i some
      exact .inr (.inl ⟨some,rfl⟩)
    · exact .inr (.inr rfl)

section
variable {b : PortBinding} (ip : ':' ∉ b.hostIP.toList) (port : ':' ∉ b.hostPort.toList)
include ip port

theorem hostsClean : ∀ host ∈ trimHead (hostsOf b), ':' ∉ host.toList := by
  have trimmedIP : ':' ∉ (trim b.hostIP).toList := fun mem => ip (trimBothMem mem)
  have trimmedPort : ':' ∉ (trim b.hostPort).toList := fun mem => port (trimBothMem mem)
  have cut {s : String} (clean : ':' ∉ s.toList) : ':' ∉ (left isSpace s).toList := fun mem => clean ((leftSublist isSpace s).subset mem)
  rcases hostsCases b with ⟨_,_,hosts⟩ | ⟨_,hosts⟩ | hosts
  · simpa [hosts] using ⟨cut trimmedIP,trimmedPort⟩
  · simpa [hosts] using cut trimmedPort
  · simp [hosts]

theorem bothKept (someIP : trim b.hostIP ≠ "") (somePort : trim b.hostPort ≠ "") (ipSame : left isSpace (trim b.hostIP) = b.hostIP)
    (portSame : trim b.hostPort = b.hostPort) (ipSlash : '/' ∉ b.hostIP.toList) (portSlash : '/' ∉ b.hostPort.toList) : BindingKept b := by
  obtain ⟨same,solid⟩ := leftEach ipSame
  refine .inr ⟨portSame ▸ somePort,⟨same,ip,ipSlash⟩,⟨portSame,port,portSlash⟩,?_⟩
  have chars : b.hostIP.toList ≠ [] := fun none => someIP (same.trans (String.toList_inj.mp none))
  rw [String.toList_append,List.head?_append_of_ne_nil _ chars]
  exact leftSelf.mp solid

theorem portKept (somePort : trim b.hostPort ≠ "") (none : b.hostIP = "") (portSame : left isSpace (trim b.hostPort) = b.hostPort)
    (portSlash : '/' ∉ b.hostPort.toList) : BindingKept b := by
  have blank : trim "" = "" := by decide
  have noSlash : '/' ∉ "".toList := by decide
  obtain ⟨same,solid⟩ := leftEach portSame
  refine .inr ⟨same ▸ somePort,⟨none ▸ blank,ip,none ▸ noSlash⟩,⟨same,port,portSlash⟩,?_⟩
  rw [none,String.empty_append]
  exact leftSelf.mp solid

/- The sides are those of the binding exactly when nothing is lost of them. -/
theorem sidesKept : (Sides (trimHead (hostsOf b)) b ∧ ∀ host ∈ trimHead (hostsOf b), '/' ∉ host.toList) ↔ BindingKept b := by
  constructor
  · rintro ⟨sides,slashes⟩
    rcases hostsCases b with ⟨someIP,somePort,hosts⟩ | ⟨somePort,hosts⟩ | hosts
    · rw [hosts] at sides slashes
      rcases sides with ⟨never,_⟩ | ⟨never,_⟩ | same
      · simp at never
      · simp at never
      · obtain ⟨first,rest⟩ := List.cons.inj same
        obtain ⟨second,_⟩ := List.cons.inj rest
        have ipSlash := slashes _ List.mem_cons_self
        have portSlash := slashes _ (List.mem_cons_of_mem _ List.mem_cons_self)
        rw [first] at ipSlash
        rw [second] at portSlash
        exact bothKept ip port someIP somePort first second ipSlash portSlash
    · rw [hosts] at sides slashes
      rcases sides with ⟨never,_⟩ | ⟨same,none⟩ | never
      · simp at never
      · obtain ⟨first,_⟩ := List.cons.inj same
        have portSlash := slashes _ List.mem_cons_self
        rw [first] at portSlash
        exact portKept ip port somePort none first portSlash
      · simp at never
    · rw [hosts] at sides
      rcases sides with ⟨_,same⟩ | ⟨never,_⟩ | never
      · exact .inl same
      · simp at never
      · simp at never
  · rintro (rfl | ⟨some,⟨ipSame,_,ipSlash⟩,⟨portSame,_,portSlash⟩,head⟩)
    · have none : hostsOf ⟨"",""⟩ = [] := by decide
      rw [none]
      exact ⟨.inl ⟨rfl,rfl⟩,nofun⟩
    · unfold hostsOf
      rw [ipSame,portSame]
      by_cases none : b.hostIP = ""
      · rw [none,String.empty_append] at head
        rw [if_neg (fun both => both.1 none),if_pos some,trimHead,leftSelf.mpr head]
        exact ⟨.inr (.inl ⟨rfl,none⟩),by simpa using portSlash⟩
      · have chars : b.hostIP.toList ≠ [] := fun empty => none (String.toList_inj.mp empty)
        rw [String.toList_append,List.head?_append_of_ne_nil _ chars] at head
        rw [if_pos ⟨none,some⟩,trimHead,leftSelf.mpr head]
        exact ⟨.inr (.inr rfl),by simpa using ⟨ipSlash,portSlash⟩⟩

end

theorem keptClean {b : PortBinding} (kept : BindingKept b) : ':' ∉ b.hostIP.toList ∧ ':' ∉ b.hostPort.toList := by
  rcases kept with rfl | ⟨_,ip,port,_⟩
  · exact ⟨by decide,by decide⟩
  · exact ⟨ip.2.1,port.2.1⟩

section
variable {number proto key : String} (held : PortKey rt number proto key) (real : proto ≠ "")
include held real

theorem rowRead (b : PortBinding) : parsePort rt.toLibrary rt.lower (entryOf (hostsOf b) number (protoOr proto)) =
    if '/' ∈ (join ':' (trimHead (hostsOf b) ++ [number])).toList
    then bindingOf rt "tcp" (entryOf (trimHead (hostsOf b)) number proto)
    else bindingOf rt proto (join ':' (trimHead (hostsOf b) ++ [number])) := by
  obtain ⟨some,slash,solid⟩ := protoOrSolid held
  have same : protoOr proto = proto := if_neg real
  have raw := entryTrimmed held (hostsOf b) some solid
  have text : trimSpace (entryOf (hostsOf b) number (protoOr proto)) ≠ "" := by
    rw [raw]
    intro empty
    have chars := congrArg String.toList empty
    simp [entryOf] at chars
  rw [parsePortIs,if_neg text,raw,same,entryOf,protoAndRestOf _ held.2.2.2.1,held.2.2.2.2.1]
  split <;> rfl

/- A binding is read under the port of its row, or it belongs to a port whose protocol cannot be written
and comes under one whose can. -/
theorem rowCases {b : PortBinding} {y : Pair}
    (read : parsePort rt.toLibrary rt.lower (entryOf (hostsOf b) number (protoOr proto)) = .ok (some y)) :
    ('/' ∉ (join ':' (trimHead (hostsOf b) ++ [number])).toList ∧ y.1 = key ∧
      Parts (join ':' (trimHead (hostsOf b) ++ [number])) number y.2) ∨ (':' ∈ key.toList ∧ ':' ∉ y.1.toList) := by
  have clean : ':' ∉ number.toList := fun mem => (numberSolid held mem).2.2.1 rfl
  rw [rowRead held real] at read
  split at read
  · obtain ⟨cp,port,parts⟩ := bindingOfSome.mp read
    right
    constructor
    · by_contra none
      have last := splitLast (trimHead (hostsOf b)) none
      have whole : entryOf (trimHead (hostsOf b)) number proto = join ':' (trimHead (hostsOf b) ++ [key]) := by
        rw [entryOf]
        cases hosts : trimHead (hostsOf b) with
        | nil => rw [List.nil_append,List.nil_append,joinOne,joinOne,held.1]
        | cons h rest =>
          rw [joinAppend (List.cons_ne_nil _ _),joinAppend (List.cons_ne_nil _ _),held.1]
          apply String.toList_inj.mp
          simp
      rw [← whole,partsLast parts] at last
      rw [Option.some_inj.mp last] at port
      exact rt.portWhole held.2.2.2.2.2.2 port
    · obtain ⟨n,same,_,digits,_⟩ := rt.port port
      rw [same,String.toList_append,String.toList_append,List.mem_append,List.mem_append]
      rintro ((inside | never) | never)
      · rcases digits ':' inside with digit | dash
        · revert digit
          decide
        · revert dash
          decide
      · revert never
        decide
      · revert never
        decide
  · rename_i outside
    obtain ⟨cp,port,parts⟩ := bindingOfSome.mp read
    have last := splitLast (trimHead (hostsOf b)) clean
    rw [partsLast parts] at last
    rw [Option.some_inj.mp last] at port parts
    exact .inl ⟨outside,Except.ok.inj (port.symm.trans held.2.2.2.2.2.2),parts⟩

/- A binding comes back as it was exactly when it is written without loss. -/
theorem rowKept (b : PortBinding) :
    parsePort rt.toLibrary rt.lower (entryOf (hostsOf b) number (protoOr proto)) = .ok (some (key,b)) ↔ BindingKept b := by
  have clean : ':' ∉ number.toList := fun mem => (numberSolid held mem).2.2.1 rfl
  have noSlash : '/' ∉ number.toList := fun mem => (numberSolid held mem).2.2.2 rfl
  constructor
  · intro read
    rcases rowCases held real read with ⟨outside,_,parts⟩ | ⟨inside,none⟩
    · obtain ⟨ip,port⟩ := partsClean parts
      have sides := (partsSides clean (hostsClean ip port)).mp parts
      refine (sidesKept ip port).mp ⟨sides,?_⟩
      intro host mem inside
      exact outside (memJoin (List.mem_append_left _ mem) inside)
    · exact absurd inside none
  · intro kept
    have ip := (keptClean kept).1
    have port := (keptClean kept).2
    obtain ⟨sides,slashes⟩ := (sidesKept ip port).mpr kept
    have outside : '/' ∉ (join ':' (trimHead (hostsOf b) ++ [number])).toList := by
      intro mem
      rcases joinMem mem with never | ⟨part,there,inside⟩
      · revert never
        decide
      · rcases List.mem_append.mp there with host | last
        · exact slashes part host inside
        · rw [List.mem_singleton.mp last] at inside
          exact noSlash inside
    rw [rowRead held real,if_neg outside]
    exact bindingOfSome.mpr ⟨number,held.2.2.2.2.2.2,(partsSides clean (hostsClean ip port)).mpr sides⟩

end

/- The bindings of one port. -/
def under (key : String) (l : List Pair) : List PortBinding := (l.filter (fun x => x.1 = key)).map Prod.snd

theorem underCons (key : String) (x : Pair) (l : List Pair) :
    under key (x :: l) = if x.1 = key then x.2 :: under key l else under key l := by
  unfold under
  rw [List.filter_cons]
  split
  · rename_i same
    rw [if_pos (of_decide_eq_true same),List.map_cons]
  · rename_i other
    rw [if_neg (by simpa using other)]

theorem underMem {key : String} {b : PortBinding} {l : List Pair} (mem : b ∈ under key l) : (key,b) ∈ l := by
  obtain ⟨x,there,rfl⟩ := List.mem_map.mp mem
  obtain ⟨here,same⟩ := List.mem_filter.mp there
  rwa [← of_decide_eq_true same]

theorem lookupCons {α : Type} (e : String × α) (rest : List (String × α)) (key : String) :
    (e :: rest).lookup key = if e.1 = key then some e.2 else rest.lookup key := by
  rw [List.lookup_cons]
  split
  · rename_i same
    rw [if_pos (beq_iff_eq.mp same).symm]
  · rename_i other
    rw [if_neg (fun same => by simp [same] at other)]

theorem addBindingLookup (bindings : PortMap) (p : String) (b : PortBinding) (key : String) :
    (addBinding bindings p b).lookup key = if p = key then some ((bindings.lookup key).getD [] ++ [b]) else bindings.lookup key := by
  have mapped (rest : PortMap) (other : p ≠ key) :
      (rest.map (fun q => if q.1 = p then (q.1,q.2 ++ [b]) else q)).lookup key = rest.lookup key := by
    induction rest with
    | nil => rfl
    | cons e rest ih =>
      rw [List.map_cons,lookupCons,lookupCons,ih]
      split
      · rename_i here
        rw [if_neg (here ▸ other),if_neg (here ▸ other)]
      · rfl
  induction bindings with
  | nil =>
    rw [addBinding,List.any_nil,if_neg Bool.false_ne_true,List.nil_append,lookupCons]
    rfl
  | cons e rest ih =>
    by_cases here : e.1 = p
    · have grown : addBinding (e :: rest) p b = (e.1,e.2 ++ [b]) :: rest.map (fun q => if q.1 = p then (q.1,q.2 ++ [b]) else q) := by
        rw [addBinding,List.any_cons,decide_eq_true here,Bool.true_or,if_pos rfl,List.map_cons,if_pos here]
      rw [grown,lookupCons,lookupCons]
      by_cases same : p = key
      · simp [here,same]
      · rw [if_neg (here ▸ same),if_neg same,mapped rest same,if_neg (here ▸ same)]
    · have grown : addBinding (e :: rest) p b = e :: addBinding rest p b := by
        rw [addBinding,addBinding,List.any_cons,decide_eq_false here,Bool.false_or,List.map_cons,if_neg here]
        split <;> rfl
      rw [grown,lookupCons,lookupCons,ih]
      by_cases same : p = key
      · rw [if_neg (same ▸ here),if_pos same,if_pos same,if_neg (same ▸ here)]
      · rw [if_neg same,if_neg same]

theorem groupLookup (l : List Pair) (key : String) :
    (l.foldl (fun bindings e => addBinding bindings e.1 e.2) []).lookup key = if under key l = [] then none else some (under key l) := by
  have walk (bindings : PortMap) : (l.foldl (fun bindings e => addBinding bindings e.1 e.2) bindings).lookup key =
      if under key l = [] then bindings.lookup key else some ((bindings.lookup key).getD [] ++ under key l) := by
    induction l generalizing bindings with
    | nil => rfl
    | cons x rest ih =>
      rw [List.foldl_cons,ih,addBindingLookup,underCons]
      by_cases same : x.1 = key
      · simp only [same,if_true,List.cons_ne_nil,if_false,Option.getD_some,List.append_assoc,List.singleton_append]
        split
        · rename_i none
          rw [none]
        · rfl
      · simp only [same,if_false]
  simpa using walk []

theorem underPairs {bindings : PortMap} (distinct : (bindings.map Prod.fst).Nodup) (key : String) :
    under key (pairs bindings) = (bindings.lookup key).getD [] := by
  induction bindings with
  | nil => rfl
  | cons e rest ih =>
    rw [List.map_cons,List.nodup_cons] at distinct
    have split : under key (pairs (e :: rest)) = (if e.1 = key then e.2 else []) ++ under key (pairs rest) := by
      unfold under pairs
      rw [List.flatMap_cons,List.filter_append,List.map_append]
      congr 1
      split
      · rename_i same
        rw [List.filter_eq_self.mpr (by simp [same]),List.map_map]
        exact List.map_id e.2
      · rename_i other
        rw [List.filter_eq_nil_iff.mpr (by simp [other])]
        rfl
    rw [split,ih distinct.2,lookupCons]
    by_cases same : e.1 = key
    · have gone : rest.lookup key = none := by
        cases found : rest.lookup key with
        | none => rfl
        | some bs => exact absurd (List.mem_map_of_mem (memLookup found)) (same ▸ distinct.1)
      simp [same,gone]
    · simp [same]

theorem mapMOk {α β : Type} {f : α → Except String β} {l : List α} {r : List β} :
    l.mapM f = .ok r ↔ l.map f = r.map .ok := by
  induction l generalizing r with
  | nil =>
    cases r with
    | nil => exact iff_of_true rfl rfl
    | cons b rest => exact iff_of_false nofun nofun
  | cons a rest ih =>
    rw [List.mapM_cons,List.map_cons]
    cases read : f a with
    | error message =>
      refine iff_of_false nofun ?_
      cases r <;> simp
    | ok b =>
      cases later : rest.mapM f with
      | error message =>
        refine iff_of_false nofun ?_
        intro same
        cases r with
        | nil => cases same
        | cons c r =>
          have held := ih.mpr (List.cons.inj same).2
          rw [later] at held
          cases held
      | ok s =>
        have held := ih.mp later
        constructor
        · intro same
          cases same
          rw [held]
          rfl
        · intro same
          cases r with
          | nil => cases same
          | cons c r =>
            obtain ⟨first,rest⟩ := List.cons.inj same
            cases first
            rw [held] at rest
            rw [List.map_injective_iff.mpr (fun a b same => Except.ok.inj same) rest]
            rfl

/- Where rows keep their ports, or those of odd protocols come under other ones, and all ports
have as many bindings as before, every row has come back as it was. -/
theorem sameRows {l : List Pair} {g : Pair → Option Pair} (Odd : String → Prop)
    (kept : ∀ x ∈ l, ∃ y, g x = some y ∧ (y.1 = x.1 ∨ Odd x.1 ∧ ¬Odd y.1)) (same : ∀ key, under key (l.filterMap g) = under key l) :
    ∀ x ∈ l, g x = some x := by
  have shorter (l : List Pair) (kept : ∀ x ∈ l, ∃ y, g x = some y ∧ (y.1 = x.1 ∨ Odd x.1 ∧ ¬Odd y.1)) (key : String) (odd : Odd key) :
      (under key (l.filterMap g)).length ≤ (under key l).length := by
    induction l with
    | nil => exact Nat.le_refl _
    | cons x rest ih =>
      obtain ⟨⟨y,here,ports⟩,later⟩ := List.forall_mem_cons.mp kept
      have less := ih later
      rw [List.filterMap_cons,here,underCons,underCons]
      split
      · rename_i mine
        rcases ports with port | ⟨_,even⟩
        · rw [if_pos (port.symm.trans mine),List.length_cons,List.length_cons]
          exact Nat.succ_le_succ less
        · exact absurd (mine ▸ odd) even
      · split
        · rw [List.length_cons]
          omega
        · exact less
  induction l with
  | nil => exact nofun
  | cons x rest ih =>
    obtain ⟨⟨y,here,ports⟩,later⟩ := List.forall_mem_cons.mp kept
    rw [List.filterMap_cons,here] at same
    have split (key : String) := (underCons key y (rest.filterMap g)).symm.trans ((same key).trans (underCons key x rest))
    have port : y.1 = x.1 := by
      rcases ports with port | ⟨odd,even⟩
      · exact port
      · have mine := split x.1
        rw [if_pos rfl,if_neg (fun (back : y.1 = x.1) => even (back ▸ odd))] at mine
        have less := shorter rest later x.1 odd
        rw [mine,List.length_cons] at less
        omega
    have first := split x.1
    rw [if_pos port,if_pos rfl] at first
    obtain ⟨binding,_⟩ := List.cons.inj first
    have whole : y = x := Prod.ext port binding
    refine List.forall_mem_cons.mpr ⟨whole ▸ here,ih later ?_⟩
    intro key
    have tail := split key
    rw [whole] at tail
    split_ifs at tail
    · exact (List.cons.inj tail).2
    · exact tail

def read : Except String (Option Pair) → Option Pair
  | .ok o => o
  | .error _ => none

/- What an entry is read as. -/
def readEntry (rt : Runtime) (entry : String) : Option Pair := read (parsePort rt.toLibrary rt.lower entry)

def reread (rt : Runtime) (x : Pair) : Option Pair := (portString (rowOf rt x)).bind (readEntry rt)

theorem rowsOfPairs {bindings : PortMap} (some : ∀ e ∈ bindings, e.2 ≠ []) :
    portsFromInspect rt bindings = (pairs bindings).map (rowOf rt) := by
  induction bindings with
  | nil => rfl
  | cons e rest ih =>
    obtain ⟨here,later⟩ := List.forall_mem_cons.mp some
    have tail := ih later
    unfold portsFromInspect pairs at tail ⊢
    rw [List.flatMap_cons,List.flatMap_cons,List.map_append,tail,if_neg here,List.map_map]
    rfl

/- The ports that a request is read with. -/
theorem portsRead {rows : List PortRow} {result : PortMap} :
    parsePortBindings rt.toLibrary rt.lower (rows.filterMap portString) = .ok result ↔
      (∀ row ∈ rows, ∀ entry, portString row = some entry → ∃ o, parsePort rt.toLibrary rt.lower entry = .ok o) ∧
        (rows.filterMap (fun row => (portString row).bind (readEntry rt))).foldl (fun bindings e => addBinding bindings e.1 e.2) [] = result := by
  have entries (es : List (Option Pair)) (same : (rows.filterMap portString).map (parsePort rt.toLibrary rt.lower) = es.map .ok) :
      es.filterMap id = rows.filterMap (fun row => (portString row).bind (readEntry rt)) := by
    have values : (es.map Except.ok).filterMap read = es.filterMap id := List.filterMap_map
    rw [← values,← same,List.filterMap_map]
    exact List.filterMap_filterMap
  have steps : parsePortBindings rt.toLibrary rt.lower (rows.filterMap portString) =
      ((rows.filterMap portString).mapM (parsePort rt.toLibrary rt.lower)).map
        (fun es => (es.filterMap id).foldl (fun bindings e => addBinding bindings e.1 e.2) []) := by
    unfold parsePortBindings
    cases (rows.filterMap portString).mapM (parsePort rt.toLibrary rt.lower) <;> rfl
  rw [steps]
  constructor
  · intro parsed
    cases all : (rows.filterMap portString).mapM (parsePort rt.toLibrary rt.lower) with
    | error message =>
      rw [all] at parsed
      cases parsed
    | ok es =>
      rw [all] at parsed
      have same := mapMOk.mp all
      refine ⟨?_,?_⟩
      · intro row mem entry written
        have here : entry ∈ rows.filterMap portString := List.mem_filterMap.mpr ⟨row,mem,written⟩
        have value : parsePort rt.toLibrary rt.lower entry ∈ es.map Except.ok := same ▸ List.mem_map_of_mem here
        obtain ⟨o,_,back⟩ := List.mem_map.mp value
        exact ⟨o,back.symm⟩
      · rw [← entries es same]
        exact Except.ok.inj parsed
  · rintro ⟨allRead,grouped⟩
    have same : (rows.filterMap portString).map (parsePort rt.toLibrary rt.lower) =
        ((rows.filterMap portString).map (readEntry rt)).map .ok := by
      rw [List.map_map]
      apply List.map_congr_left
      intro entry mem
      obtain ⟨row,there,written⟩ := List.mem_filterMap.mp mem
      obtain ⟨o,parsed⟩ := allRead row there entry written
      rw [Function.comp_apply,readEntry,parsed]
      rfl
    rw [mapMOk.mpr same,← grouped,← entries _ same]
    rfl

theorem rereadSome {x y : Pair} : reread rt x = some y ↔
    ∃ entry, portString (rowOf rt x) = some entry ∧ parsePort rt.toLibrary rt.lower entry = .ok (some y) := by
  have value (entry : String) : readEntry rt entry = some y ↔ parsePort rt.toLibrary rt.lower entry = .ok (some y) := by
    unfold readEntry
    cases parsePort rt.toLibrary rt.lower entry with
    | error message => exact iff_of_false nofun nofun
    | ok o => exact ⟨fun (same : o = some y) => congrArg Except.ok same,Except.ok.inj⟩
  unfold reread
  rw [Option.bind_eq_some_iff]
  exact exists_congr (fun entry => and_congr_right (fun _ => value entry))

theorem bindingOfReal (proto raw : String) : bindingOf rt proto raw ≠ .ok none := by
  have real {port : String} {b : PortBinding} : (rt.newPort proto port).map (fun p => some (p,b)) ≠ .ok none := by
    cases rt.newPort proto port <;> nofun
  unfold bindingOf
  split
  · exact real
  · exact real
  · exact real
  · nofun

section
variable {bindings : PortMap}

theorem pairsMem {x : Pair} : x ∈ pairs bindings ↔ ∃ bs, (x.1,bs) ∈ bindings ∧ x.2 ∈ bs := by
  unfold pairs
  rw [List.mem_flatMap]
  constructor
  · rintro ⟨e,there,mem⟩
    obtain ⟨b,inside,rfl⟩ := List.mem_map.mp mem
    exact ⟨e.2,there,inside⟩
  · rintro ⟨bs,there,inside⟩
    exact ⟨(x.1,bs),there,List.mem_map_of_mem inside⟩

/- What is left of the bindings as a map is what every port has. -/
theorem groupSame {l : List Pair} (distinct : (bindings.map Prod.fst).Nodup) (some : ∀ e ∈ bindings, e.2 ≠ []) :
    (∀ key, (l.foldl (fun bindings e => addBinding bindings e.1 e.2) []).lookup key = bindings.lookup key) ↔
      ∀ key, under key l = under key (pairs bindings) := by
  refine forall_congr' (fun key => ?_)
  rw [groupLookup,underPairs distinct]
  cases found : bindings.lookup key with
  | none =>
    split
    · rename_i none
      exact iff_of_true rfl none
    · rename_i other
      exact iff_of_false nofun other
  | some bs =>
    have real := some _ (memLookup found)
    split
    · rename_i none
      exact iff_of_false nofun (fun same => real (same.symm.trans none))
    · exact Option.some_inj

/- Every port of the result has been read of an entry, and so has a name that is written again. -/
theorem keysKept {l : List Pair} (sources : ∀ y ∈ l, ∃ x ∈ pairs bindings, reread rt x = some y)
    (same : ∀ key, under key l = under key (pairs bindings)) : ∀ x ∈ pairs bindings, KeyKept rt x.1 := by
  have source (x : Pair) (mem : x ∈ pairs bindings) : ∃ x' ∈ pairs bindings, ∃ entry, portString (rowOf rt x') = some entry ∧
      parsePort rt.toLibrary rt.lower entry = .ok (some x) := by
    have mine : x.2 ∈ under x.1 (pairs bindings) :=
      List.mem_map_of_mem (List.mem_filter.mpr ⟨mem,decide_eq_true rfl⟩)
    rw [← same] at mine
    obtain ⟨x',there,value⟩ := sources x (underMem mine)
    exact ⟨x',there,rereadSome.mp value⟩
  have named (x : Pair) (mem : x ∈ pairs bindings) : ∃ number proto, PortKey rt number proto x.1 := by
    obtain ⟨_,_,entry,_,value⟩ := source x mem
    obtain ⟨number,proto,held,_⟩ := resultKey value
    exact ⟨number,proto,held⟩
  intro x mem
  obtain ⟨x',there,entry,written,value⟩ := source x mem
  obtain ⟨number,proto,held,bare⟩ := resultKey value
  refine ⟨number,proto,held,?_⟩
  intro none
  obtain ⟨number',proto',held'⟩ := named x' there
  obtain ⟨some,slash,solid⟩ := protoOrSolid held'
  have text : portString (rowOf rt x') = Option.some (entryOf (hostsOf x'.2) number' (protoOr proto')) := writtenIs held' x'.2
  rw [written] at text
  have last := bare none
  have chars : (protoOr proto').toList ≠ [] := fun empty => some (String.toList_inj.mp empty)
  rw [Option.some_inj.mp text,entryTrimmed held' _ some solid,entryOf,String.toList_append,
    List.getLast?_append_of_ne_nil _ chars] at last
  exact slash (List.mem_of_getLast? last)

end

theorem portsLoaded (rt : Runtime) {bindings : PortMap} (distinct : (bindings.map Prod.fst).Nodup) :
    (∃ result, parsePortBindings rt.toLibrary rt.lower ((portsFromInspect rt bindings).filterMap portString) = .ok result ∧
      ∀ key, result.lookup key = bindings.lookup key) ↔ PortsKept rt bindings := by
  constructor
  · rintro ⟨result,read,same⟩
    obtain ⟨allRead,group⟩ := portsRead.mp read
    have some : ∀ e ∈ bindings, e.2 ≠ [] := by
      intro e mem
      have found := (same e.1).trans (lookupMem distinct mem)
      rw [← group,groupLookup] at found
      split at found
      · cases found
      · rename_i real
        rwa [← Option.some_inj.mp found]
    rw [rowsOfPairs some] at allRead group
    have steps : (fun row => (portString row).bind (readEntry rt)) ∘ rowOf rt = reread rt := by
      funext x
      rw [Function.comp_apply,reread]
    rw [List.filterMap_map,steps] at group
    rw [← group,groupSame distinct some] at same
    have sources : ∀ y ∈ (pairs bindings).filterMap (reread rt), ∃ x ∈ pairs bindings, reread rt x = Option.some y :=
      fun y mem => List.mem_filterMap.mp mem
    have keys := keysKept sources same
    have rows : ∀ x ∈ pairs bindings, ∃ y, reread rt x = Option.some y ∧ (y.1 = x.1 ∨ ':' ∈ x.1.toList ∧ ¬(':' ∈ y.1.toList)) := by
      intro x mem
      obtain ⟨number,proto,held,real⟩ := keys x mem
      have written : portString (rowOf rt x) = Option.some (entryOf (hostsOf x.2) number (protoOr proto)) := writtenIs held x.2
      obtain ⟨o,parsed⟩ := allRead (rowOf rt x) (List.mem_map_of_mem mem) _ written
      cases o with
      | none =>
        rw [rowRead held real] at parsed
        split at parsed
        · exact absurd parsed (bindingOfReal _ _)
        · exact absurd parsed (bindingOfReal _ _)
      | some y =>
        refine ⟨y,rereadSome.mpr ⟨_,written,parsed⟩,?_⟩
        rcases rowCases held real parsed with ⟨_,port,_⟩ | other
        · exact .inl port
        · exact .inr other
    have back := sameRows (fun key => ':' ∈ key.toList) rows same
    intro e mem
    obtain ⟨b,inside⟩ := List.exists_mem_of_ne_nil _ (some e mem)
    have pair (b : PortBinding) (inside : b ∈ e.2) : (e.1,b) ∈ pairs bindings := pairsMem.mpr ⟨e.2,mem,inside⟩
    refine ⟨keys _ (pair b inside),some e mem,?_⟩
    intro b inside
    obtain ⟨number,proto,held,real⟩ := keys _ (pair b inside)
    obtain ⟨entry,written,parsed⟩ := rereadSome.mp (back _ (pair b inside))
    have text := writtenIs held b
    rw [written] at text
    rw [Option.some_inj.mp text] at parsed
    exact (rowKept held real b).mp parsed
  · intro kept
    have some : ∀ e ∈ bindings, e.2 ≠ [] := fun e mem => (kept e mem).2.1
    have row (x : Pair) (mem : x ∈ pairs bindings) : ∃ entry, portString (rowOf rt x) = Option.some entry ∧
        parsePort rt.toLibrary rt.lower entry = .ok (Option.some x) := by
      obtain ⟨bs,there,inside⟩ := pairsMem.mp mem
      obtain ⟨⟨number,proto,held,real⟩,_,bindingKept⟩ := kept _ there
      exact ⟨_,writtenIs held x.2,(rowKept held real x.2).mpr (bindingKept x.2 inside)⟩
    refine ⟨_,portsRead.mpr ⟨?_,rfl⟩,?_⟩
    · rw [rowsOfPairs some]
      intro r mem entry written
      obtain ⟨x,there,rfl⟩ := List.mem_map.mp mem
      obtain ⟨entry',written',read⟩ := row x there
      rw [written] at written'
      exact ⟨_,Option.some_inj.mp written' ▸ read⟩
    · rw [rowsOfPairs some,groupSame distinct some,List.filterMap_map]
      have back : (pairs bindings).filterMap ((fun row => (portString row).bind (readEntry rt)) ∘ rowOf rt) = pairs bindings := by
        apply filterMapSelfIff.mpr
        intro x mem
        obtain ⟨entry,written,value⟩ := row x mem
        rw [Function.comp_apply,written,Option.bind_some,readEntry,value]
        rfl
      rw [back]
      exact fun _ => rfl

end ContainerWS.Docker
