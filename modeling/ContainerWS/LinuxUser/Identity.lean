import ContainerWS.GoStrings

/-! GenerateIdentity of packages/linuxuser/sshkeys.go on the directory .ssh: its names, what stands
at them, and where its links lead. How a key pair is made is outside. -/
namespace ContainerWS.LinuxUser
open GoStrings

inductive Node where
  | file (content : String)
  | directory
  | link (target : String)
  deriving DecidableEq, Repr

abbrev SshDir := String → Option Node

/- The name that a name leads to; the kernel follows forty links. -/
def follow (d : SshDir) : Nat → String → Option String
  | 0,_ => none
  | n+1,name =>
    match d name with
    | some (.link target) => follow d n target
    | _ => some name

def maxLinks : Nat := 41

/- The file that is opened under a name. -/
def fileAt (d : SshDir) (name : String) : Option String :=
  match (follow d maxLinks name).bind d with
  | some (.file content) => some content
  | _ => none

def fileExists (d : SshDir) (name : String) : Bool := (fileAt d name).isSome

/- How `os.WriteFile` ends: before it has changed anything, after some characters, or well. -/
inductive WriteEnd where
  | refused
  | stopped (n : Nat)
  | whole
  deriving DecidableEq, Repr

def writeFile (k : WriteEnd) (d : SshDir) (name content : String) : SshDir × Bool :=
  match follow d maxLinks name with
  | none => (d,false)
  | some x =>
    match d x with
    | some .directory => (d,false)
    | _ =>
      match k with
      | .refused => (d,false)
      | .stopped n => (fun y => if y = x then some (.file (String.ofList (content.toList.take n))) else d y,false)
      | .whole => (fun y => if y = x then some (.file content) else d y,true)

/- `os.Remove`, whose error nobody reads. -/
def remove (works : Bool) (d : SshDir) (name : String) : SshDir :=
  if works then fun y => if y = name then none else d y else d

structure GenerateIdentityOptions where
  type : String := ""
  comment : String := ""
  passphrase : String := ""
  overwrite : Bool := false
  bits : Int := 0

/- The host around one request; `generate` makes a key pair of a type, with the bits of an RSA key. -/
structure IdentityHost where
  account : Option String := some "bob"
  mkdir : Bool := true
  generate : String → Int → String → String → Option (String × String)
  privWrite : WriteEnd := .whole
  pubWrite : WriteEnd := .whole
  removes : String → Bool := fun _ => true
  status : Bool := true

inductive IdentityError where
  | account
  | bits
  | unsupported (type : String)
  | mkdir
  | already (name : String)
  | generate
  | writePrivate
  | writePublic
  | status
  deriving DecidableEq, Repr

def identityED25519 : String := "id_ed25519"
def identityRSA : String := "id_rsa"

/- The file name and the bits for a requested type. -/
def identityName (m : CaseMap) (opts : GenerateIdentityOptions) : Except IdentityError (String × String × Int) :=
  let keyType := if m.toLower (trimSpace opts.type) = "" then "ed25519" else m.toLower (trimSpace opts.type)
  if keyType = "ed25519" then .ok (keyType,identityED25519,opts.bits)
  else if keyType = "rsa" then
    let bits := if opts.bits ≤ 0 then 4096 else opts.bits
    if bits < 2048 then .error .bits else .ok (keyType,identityRSA,bits)
  else .error (.unsupported opts.type)

def alternative (base : String) : String := if base = identityRSA then identityED25519 else identityRSA

/- The key pair is written, then the other algorithm's files are removed. -/
def writeIdentity (h : IdentityHost) (d : SshDir) (base : String) (pair : String × String) :
    SshDir × Except IdentityError String :=
  let priv := writeFile h.privWrite d base pair.1
  if !priv.2 then (priv.1,.error .writePrivate)
  else
    let pub := writeFile h.pubWrite priv.1 (base ++ ".pub") pair.2
    if !pub.2 then (pub.1,.error .writePublic)
    else
      let alt := alternative base
      let after := remove (h.removes (alt ++ ".pub")) (remove (h.removes alt) pub.1 alt) (alt ++ ".pub")
      if h.status then (after,.ok pair.1) else (after,.error .status)

/- The directory as the call leaves it, and the private key that it answers with. -/
def GenerateIdentity (m : CaseMap) (h : IdentityHost) (d : SshDir) (opts : GenerateIdentityOptions) :
    SshDir × Except IdentityError String :=
  match h.account with
  | none => (d,.error .account)
  | some username =>
    match identityName m opts with
    | .error e => (d,.error e)
    | .ok (keyType,base,bits) =>
      if !h.mkdir then (d,.error .mkdir)
      else if !opts.overwrite && (fileExists d base || fileExists d (base ++ ".pub")) then (d,.error (.already base))
      else
        let comment := if trimSpace opts.comment = "" then username ++ "@containerws" else trimSpace opts.comment
        match h.generate keyType bits comment opts.passphrase with
        | none => (d,.error .generate)
        | some pair => writeIdentity h d base pair

/- The key files of an algorithm, and of all. -/
def pairNames (base : String) : List String := [base,base ++ ".pub"]

def keyFiles : List String := pairNames identityED25519 ++ pairNames identityRSA

/- Where nothing was, there may be a file now; the rest is as it was. -/
def Grows (d after : SshDir) : Prop := ∀ x, after x = d x ∨ (d x = none ∧ ∃ content, after x = some (.file content))

theorem growsSelf (d : SshDir) : Grows d d := fun _ => .inl rfl

theorem followGrows {d after : SshDir} (grows : Grows d after) : ∀ n name, follow after n name = follow d n name
  | 0,_ => rfl
  | n+1,name => by
    unfold follow
    rcases grows name with same | ⟨none,content,new⟩
    · rw [same]
      split
      · exact followGrows grows n _
      · rfl
    · rw [none,new]

/- A file that was there is there, under the same name and with the same content. -/
theorem fileGrows {d after : SshDir} (grows : Grows d after) {name content : String} (there : fileAt d name = some content) :
    after name = d name ∧ fileAt after name = some content := by
  have held : ∀ x, (d x ≠ none) → after x = d x := by
    intro x some
    rcases grows x with same | ⟨none,_⟩
    · exact same
    · exact absurd none some
  unfold fileAt at there ⊢
  rw [followGrows grows]
  cases lead : follow d maxLinks name with
  | none => rw [lead] at there; cases there
  | some x =>
    rw [lead,Option.bind_some] at there
    have some : d x ≠ none := by
      intro none
      rw [none] at there
      cases there
    refine ⟨held name ?_,by rw [Option.bind_some,held x some]; exact there⟩
    intro none
    have stops : follow d maxLinks name = Option.some name := by
      unfold maxLinks follow
      rw [none]
    rw [stops,Option.some.injEq] at lead
    exact some (lead ▸ none)

/- A write under a name that leads to no file changes no file. -/
theorem writeGrows {d now : SshDir} (grows : Grows d now) {name : String} (free : fileAt d name = none) (k : WriteEnd)
    (content : String) : Grows d (writeFile k now name content).1 := by
  unfold writeFile
  rw [followGrows grows]
  cases lead : follow d maxLinks name with
  | none => exact grows
  | some x =>
    have new : ∀ text, now x ≠ some .directory →
        Grows d (fun y => if y = x then some (.file text) else now y) := by
      intro text plain y
      by_cases here : y = x
      · dsimp only
        rw [if_pos here]
        refine .inr ⟨?_,text,rfl⟩
        rw [here]
        have stops : ∀ n name, follow d n name = some x → ∀ target, d x ≠ some (.link target) := by
          intro n
          induction n with
          | zero => intro name lead; cases lead
          | succ n ih =>
            intro name lead target linked
            unfold follow at lead
            split at lead
            · exact ih _ lead target linked
            · rename_i other
              cases lead
              exact other target linked
        cases node : d x with
        | none => rfl
        | some node' =>
          rw [fileAt,lead,Option.bind_some,node] at free
          rcases grows x with same | ⟨none,_⟩
          · cases node' with
            | file c => cases free
            | directory => exact absurd (same.trans node) plain
            | link target => exact absurd node (stops _ _ lead target)
          · rw [none] at node
            cases node
      · dsimp only
        rw [if_neg here]
        exact grows y
    dsimp only
    split
    · exact grows
    · rename_i plain
      split
      · exact grows
      · exact new _ (fun same => plain same)
      · exact new _ (fun same => plain same)

theorem removeElsewhere (works : Bool) (d : SshDir) {x name : String} (other : name ≠ x) :
    remove works d x name = d name := by
  cases works
  · rfl
  · exact if_neg other

theorem removeEntry (works : Bool) (d : SshDir) (x name : String) :
    remove works d x name = d name ∨ (name = x ∧ remove works d x name = none) := by
  by_cases here : name = x
  · cases works
    · exact .inl rfl
    · exact .inr ⟨here,if_pos here⟩
  · exact .inl (removeElsewhere works d here)

theorem removePair (works worksPub : Bool) (d : SshDir) (base name : String) :
    remove worksPub (remove works d base) (base ++ ".pub") name = d name ∨
      (name ∈ pairNames base ∧ remove worksPub (remove works d base) (base ++ ".pub") name = none) := by
  rcases removeEntry worksPub (remove works d base) (base ++ ".pub") name with same | ⟨here,none⟩
  · rw [same]
    rcases removeEntry works d base name with kept | ⟨here,none⟩
    · exact .inl kept
    · exact .inr ⟨List.mem_cons.mpr (.inl here),none⟩
  · exact .inr ⟨List.mem_cons_of_mem _ (List.mem_singleton.mpr here),none⟩

/- Both files of the requested algorithm are written. -/
def written : Except IdentityError String → Bool
  | .ok _ => true
  | .error .status => true
  | .error _ => false

/- A type that is refused is refused before anything is touched. -/
theorem refusedType (m : CaseMap) (opts : GenerateIdentityOptions) {e : IdentityError}
    (refused : identityName m opts = .error e) : written (.error e) = false := by
  unfold identityName at refused
  generalize (if m.toLower (trimSpace opts.type) = "" then "ed25519" else m.toLower (trimSpace opts.type)) = keyType at refused
  dsimp only at refused
  by_cases ed : keyType = "ed25519"
  · rw [if_pos ed] at refused
    cases refused
  · rw [if_neg ed] at refused
    by_cases rsa : keyType = "rsa"
    · rw [if_pos rsa] at refused
      generalize (if opts.bits ≤ 0 then (4096 : Int) else opts.bits) = bits at refused
      by_cases few : bits < 2048
      · rw [if_pos few] at refused
        cases refused
        rfl
      · rw [if_neg few] at refused
        cases refused
    · rw [if_neg rsa] at refused
      cases refused
      rfl

/- Until both files are written nothing is removed; after that, only the other algorithm's names go. -/
theorem writeIdentityKeeps (h : IdentityHost) {d : SshDir} {base : String} (pair : String × String)
    (free : fileAt d base = none) (freePub : fileAt d (base ++ ".pub") = none) :
    (written (writeIdentity h d base pair).2 = false ∧ Grows d (writeIdentity h d base pair).1) ∨
    (written (writeIdentity h d base pair).2 = true ∧ ∃ mid, Grows d mid ∧
      ∀ name, (writeIdentity h d base pair).1 name = mid name ∨
        (name ∈ pairNames (alternative base) ∧ (writeIdentity h d base pair).1 name = none)) := by
  have priv := writeGrows (growsSelf d) free h.privWrite pair.1
  have pub := writeGrows priv freePub h.pubWrite pair.2
  unfold writeIdentity
  dsimp only
  split
  · exact .inl ⟨rfl,priv⟩
  · split
    · exact .inl ⟨rfl,pub⟩
    · refine .inr ?_
      cases h.status
      · exact ⟨rfl,_,pub,removePair _ _ _ _⟩
      · exact ⟨rfl,_,pub,removePair _ _ _ _⟩

/- The names that a request for this type has removed in the end. -/
def otherNames (m : CaseMap) (opts : GenerateIdentityOptions) : List String :=
  match identityName m opts with
  | .ok (_,base,_) => pairNames (alternative base)
  | .error _ => []

theorem grownEntry {d after : SshDir} (grows : Grows d after) {name : String} {node : Node} (there : d name = some node) :
    after name = some node := by
  rcases grows name with same | ⟨none,_⟩
  · rw [same,there]
  · rw [there] at none
    cases none

theorem keepsIdentities (m : CaseMap) (h : IdentityHost) (d : SshDir) (opts : GenerateIdentityOptions)
    (kept : opts.overwrite = false) :
    (∀ name node, d name = some node → (GenerateIdentity m h d opts).1 name = some node ∨
      (written (GenerateIdentity m h d opts).2 = true ∧ name ∈ otherNames m opts ∧
        (GenerateIdentity m h d opts).1 name = none)) ∧
    (written (GenerateIdentity m h d opts).2 = false → ∀ name content, fileAt d name = some content →
      fileAt (GenerateIdentity m h d opts).1 name = some content) := by
  have still : ∀ e, written (.error e) = false → (∀ name node, d name = some node → d name = some node ∨
      (written (.error e) = true ∧ name ∈ otherNames m opts ∧ d name = none)) ∧
      (written (.error e) = false → ∀ name content, fileAt d name = some content → fileAt d name = some content) :=
    fun _ _ => ⟨fun _ _ there => .inl there,fun _ _ _ there => there⟩
  unfold GenerateIdentity
  cases h.account with
  | none => exact still .account rfl
  | some username =>
    cases named : identityName m opts with
    | error e =>
      exact still e (refusedType m opts named)
    | ok found =>
      rcases found with ⟨keyType,base,bits⟩
      dsimp only
      split
      · exact still .mkdir rfl
      · split
        · exact still (.already base) rfl
        · rename_i open'
          rw [kept,Bool.not_false,Bool.true_and,Bool.or_eq_true,not_or,fileExists,fileExists,
            Option.isSome_iff_ne_none,Option.isSome_iff_ne_none,not_not,not_not] at open'
          split
          · exact still .generate rfl
          · rename_i pair _
            have others : otherNames m opts = pairNames (alternative base) := by rw [otherNames,named]
            rw [others]
            rcases writeIdentityKeeps h pair open'.1 open'.2 with ⟨not,grows⟩ | ⟨done,mid,grows,rest⟩
            · exact ⟨fun name node there => .inl (grownEntry grows there),
                fun _ name content there => (fileGrows grows there).2⟩
            · refine ⟨?_,fun not => absurd (done.symm.trans not) (by decide)⟩
              intro name node there
              rcases rest name with same | ⟨other,none⟩
              · exact .inl (same.trans (grownEntry grows there))
              · exact .inr ⟨done,other,none⟩

/- An RSA key alone, and a request for an Ed25519 one. -/
def rsaOnly : SshDir := fun name => if name = identityRSA then some (.file "old") else none

def pairHost : IdentityHost := { generate := fun _ _ _ _ => some ("private","public") }

theorem keepsIdentitiesRsa : (GenerateIdentity ascii pairHost rsaOnly {}).1 identityRSA = some (.file "old") ∨
    (written (GenerateIdentity ascii pairHost rsaOnly {}).2 = true ∧ identityRSA ∈ otherNames ascii {} ∧
      (GenerateIdentity ascii pairHost rsaOnly {}).1 identityRSA = none) :=
  (keepsIdentities ascii pairHost rsaOnly {} rfl).1 identityRSA (.file "old") rfl

theorem rsaRemoved : ¬ ∀ (m : CaseMap) (h : IdentityHost) (d : SshDir) (opts : GenerateIdentityOptions),
    opts.overwrite = false → ∀ name ∈ keyFiles, ∀ content, fileAt d name = some content →
      fileAt (GenerateIdentity m h d opts).1 name = some content := by
  intro all
  have kept := all ascii pairHost rsaOnly {} rfl identityRSA (by decide) "old" (by decide)
  revert kept
  decide

end ContainerWS.LinuxUser
