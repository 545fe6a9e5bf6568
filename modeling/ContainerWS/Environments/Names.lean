import ContainerWS.GoStrings

/-! Variable names of packages/environments (validate.go, types.go): how an
input is normalised, which names are well formed and which seven are core
server settings. -/
namespace ContainerWS.Environments
open GoStrings

inductive Error where
  | required
  | pattern
  | coreRenamed
  | coreNameReserved
  | coreNotDeletable
  | invalidName
  | nameConflict
  | notFound
  | database
  deriving DecidableEq, Repr

@[irreducible] def normalizeName (m : UpperMap) (raw : String) : String :=
  replaceAll ' ' '_' (replaceAll '-' '_' (m.toUpper (trimSpace raw)))

def isLetter (c : Char) : Bool := 'A' ≤ c && c ≤ 'Z'

def isNameChar (c : Char) : Bool := isLetter c || ('0' ≤ c && c ≤ '9') || c == '_'

/- `^[A-Z][A-Z0-9_]*$`. -/
def namePattern (name : String) : Bool :=
  match name.toList with
  | [] => false
  | c::rest => isLetter c && rest.all isNameChar

def formatName (m : UpperMap) (raw : String) : Except Error String :=
  if normalizeName m raw = "" then .error .required
  else if namePattern (normalizeName m raw) = false then .error .pattern
  else .ok (normalizeName m raw)

def formatGroup (raw : String) : String := trimSpace raw

inductive Core where
  | PORT
  | ADDRESS
  | AUTH_URL
  | JWT_SECRET
  | ENABLE_HTTPS
  | SERVER_SSL_CERTIFICATE
  | SERVER_SSL_KEY
  deriving DecidableEq, Repr

/- The order in which ServerConfigFromDB asks for them. -/
def coreNames : List Core :=
  [.PORT,.ADDRESS,.AUTH_URL,.JWT_SECRET,.ENABLE_HTTPS,.SERVER_SSL_CERTIFICATE,.SERVER_SSL_KEY]

def Core.name : Core → String
  | .PORT => "PORT"
  | .ADDRESS => "ADDRESS"
  | .AUTH_URL => "AUTH_URL"
  | .JWT_SECRET => "JWT_SECRET"
  | .ENABLE_HTTPS => "ENABLE_HTTPS"
  | .SERVER_SSL_CERTIFICATE => "SERVER_SSL_CERTIFICATE"
  | .SERVER_SSL_KEY => "SERVER_SSL_KEY"

def coreNamed (name : String) : Option Core := coreNames.find? (fun c => c.name == name)

def IsCoreName (m : UpperMap) (name : String) : Bool := (coreNamed (normalizeName m name)).isSome

theorem coreListed (c : Core) : c ∈ coreNames := by
  cases c <;> decide

theorem nameInjective {c d : Core} (same : c.name = d.name) : c = d := by
  cases c <;> cases d <;> first | rfl | exact absurd same (by decide)

theorem coreNamedSome {name : String} {c : Core} (found : coreNamed name = some c) : c.name = name := by
  simpa using List.find?_some found

@[simp] theorem coreNamedName (c : Core) : coreNamed c.name = some c := by
  cases c <;> decide

theorem coreNamedIff {name : String} {c : Core} : coreNamed name = some c ↔ name = c.name := by
  constructor
  · exact fun found => (coreNamedSome found).symm
  · rintro rfl
    exact coreNamedName c

/- What the pattern admits is plain upper case. -/
theorem nameCharPlain {c : Char} (plain : isNameChar c = true) :
    isSpace c = false ∧ c.toNat < 128 ∧ c.toUpper = c ∧ c ≠ '-' ∧ c ≠ ' ' := by
  have bound : (65 ≤ c.toNat ∧ c.toNat ≤ 90) ∨ (48 ≤ c.toNat ∧ c.toNat ≤ 57) ∨ c.toNat = 95 := by
    simp only [isNameChar,isLetter,Bool.or_eq_true,Bool.and_eq_true,decide_eq_true_eq,beq_iff_eq,or_assoc] at plain
    rcases plain with ⟨low,high⟩ | ⟨low,high⟩ | rfl
    · exact .inl ⟨low,high⟩
    · exact .inr (.inl ⟨low,high⟩)
    · exact .inr (.inr rfl)
  have small : c.toNat < 128 := by omega
  refine ⟨?_,small,?_,?_,?_⟩
  · simp only [isSpace,Bool.or_eq_false_iff,Bool.and_eq_false_iff,decide_eq_false_iff_not,beq_eq_false_iff_ne]
    omega
  · unfold Char.toUpper
    rw [dif_neg]
    rintro ⟨low,high⟩
    have above : 97 ≤ c.toNat := low
    omega
  · rintro rfl
    revert bound
    decide
  · rintro rfl
    revert bound
    decide

theorem patternChars {name : String} (shape : namePattern name = true) : ∀ c ∈ name.toList, isNameChar c = true := by
  unfold namePattern at shape
  split at shape
  · contradiction
  · rename_i first rest here
    rw [Bool.and_eq_true,List.all_eq_true] at shape
    intro c mem
    rw [here] at mem
    rcases List.mem_cons.mp mem with rfl | inside
    · simp [isNameChar,shape.1]
    · exact shape.2 c inside

/- A well-formed name is its own normal form. -/
theorem normalizedOf (m : UpperMap) (raw : String) : normalizeName m raw = replaceAll ' ' '_' (replaceAll '-' '_' (m.toUpper (trimSpace raw))) := by
  delta normalizeName
  rfl

theorem normalizeSelf (m : UpperMap) {name : String} (shape : namePattern name = true) :
    normalizeName m name = name := by
  have plain := fun c mem => nameCharPlain (patternChars shape c mem)
  have upper : m.toUpper name = name := by
    refine toUpperSelf m (fun c mem => ?_)
    rw [m.onAscii c (plain c mem).2.1]
    exact (plain c mem).2.2.1
  rw [normalizedOf,trimSpaceSelf (fun c mem => (plain c mem).1),upper,
    replaceAllSelf (fun c mem => (plain c mem).2.2.2.1),replaceAllSelf (fun c mem => (plain c mem).2.2.2.2)]

theorem normalizeChars (m : UpperMap) (raw : String) :
    (normalizeName m raw).toList = (trimSpace raw).toList.map (fun c =>
      if (if m.upper c = '-' then '_' else m.upper c) = ' ' then '_' else
        if m.upper c = '-' then '_' else m.upper c) := by
  simp [normalizedOf,replaceAll,UpperMap.toUpper,Function.comp_def]

/- Normalising again changes nothing. -/
theorem normalizeTwice (m : UpperMap) (raw : String) :
    normalizeName m (normalizeName m raw) = normalizeName m raw := by
  have chars := normalizeChars m raw
  have plain : ∀ c ∈ (normalizeName m raw).toList, m.upper c = c ∧ c ≠ '-' ∧ c ≠ ' ' := by
    intro c mem
    rw [chars] at mem
    obtain ⟨d,_,rfl⟩ := List.mem_map.mp mem
    have underscore : m.upper '_' = '_' := m.onAscii '_' (by decide)
    have again := m.idempotent d
    grind
  have ends : trimSpace (normalizeName m raw) = normalizeName m raw := by
    apply trimSpaceEnds
    rw [chars]
    refine solidMap ?_ (trimSpaceSolid raw)
    intro c solid
    have upper := m.solid c solid
    have underscore : isSpace '_' = false := by decide
    grind
  rw [normalizedOf,ends,toUpperSelf m (fun c mem => (plain c mem).1),
    replaceAllSelf (fun c mem => (plain c mem).2.1),replaceAllSelf (fun c mem => (plain c mem).2.2)]

theorem formatOk {m : UpperMap} {raw name : String} :
    formatName m raw = .ok name ↔ name = normalizeName m raw ∧ namePattern (normalizeName m raw) = true := by
  unfold formatName
  split
  · rename_i empty
    simp [empty,namePattern]
  · split
    · rename_i shape
      simp [shape]
    · rename_i shape
      simp only [Bool.not_eq_false] at shape
      simp [shape,eq_comm]

theorem formatSelf (m : UpperMap) {name : String} (shape : namePattern name = true) :
    formatName m name = .ok name := by
  refine formatOk.mpr ?_
  rw [normalizeSelf m shape]
  exact ⟨rfl,shape⟩

theorem corePattern (c : Core) : namePattern c.name = true := by
  cases c <;> decide

theorem isCoreIff {m : UpperMap} {name : String} :
    IsCoreName m name = true ↔ ∃ c : Core, normalizeName m name = c.name := by
  rw [IsCoreName,Option.isSome_iff_exists]
  exact exists_congr (fun c => coreNamedIff)

/- A stored name is a core name only as it stands. -/
theorem isCoreStored (m : UpperMap) {name : String} (shape : namePattern name = true) :
    IsCoreName m name = (coreNamed name).isSome := by
  rw [IsCoreName,normalizeSelf m shape]

end ContainerWS.Environments
