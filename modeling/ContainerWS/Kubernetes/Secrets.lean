import ContainerWS.Base64
import ContainerWS.Kubernetes.Store

/-! modules/kubernetes/configs/handlers.go: the values of a secret as the page shows and returns
them. Texts on their way through JSON are valid UTF-8; bytes are whatever the secret holds. -/
namespace ContainerWS.Kubernetes
open GoMap GoStrings

abbrev Bytes := List UInt8

/- `string(b)` where the bytes are UTF-8. -/
def text (b : Bytes) : Option String := String.fromUTF8? b.toByteArray

/- `[]byte(s)`. -/
def ofText (s : String) : Bytes := s.toByteArray.data.toList

def printable (c : Char) : Bool :=
  c = '\n' || c = '\r' || c = '\t' || !(c.toNat < 32 || c.toNat = 0xFFFD)

/- A byte that begins no character is read as U+FFFD. -/
def isPrintableUTF8 (b : Bytes) : Bool :=
  match text b with
  | some s => s.toList.all printable
  | none => false

def encodeToString (b : Bytes) : String := String.ofList (Base64.encode b)

def decodeString (s : String) : Option Bytes := Base64.decode s.toList

def decodeValue (v : Bytes) : String :=
  match text v with
  | some s => if isPrintableUTF8 v then s else encodeToString v
  | none => encodeToString v

def decodeSecretData (data : Entries Bytes) : Entries String := data.map decodeValue

def encodeValue (v : String) : Bytes :=
  match decodeString (trimSpace v) with
  | some decoded => if 0 < decoded.length ∧ isPrintableUTF8 decoded = false then decoded else ofText v
  | none => ofText v

def encodeSecretData (data : Entries String) : Entries Bytes := data.map encodeValue

structure Secret where
  type : String
  createdAt : String
  labels : Option (Entries String)
  annotations : Option (Entries String)
  data : Entries Bytes
  deriving DecidableEq

structure SecretDetail where
  namespace_ : String
  name : String
  type : String
  keys : Nat
  createdAt : String
  labels : Option (Entries String)
  annotations : Option (Entries String)
  data : Entries String
  deriving DecidableEq

def GetSecretAPI (store : Store Secret) (namespace_ name : String) : Except String SecretDetail := do
  let s ← store.Get "secrets" (trimSpace namespace_) (trimSpace name)
  return ⟨trimSpace namespace_,trimSpace name,s.type,s.data.rows.length,s.createdAt,s.labels,s.annotations,decodeSecretData s.data⟩

/- The body that the request carries, if it can be read. -/
def UpdateSecretAPI (admits : Admission Secret) (store : Store Secret) (namespace_ name : String)
    (body : Option (Entries String)) : Except String (Store Secret × SecretDetail) :=
  match body with
  | none => .error "invalid body"
  | some data => do
    let s ← store.Get "secrets" (trimSpace namespace_) (trimSpace name)
    let updated := { s with data := encodeSecretData data }
    let store ← store.Update admits (trimSpace namespace_) (trimSpace name) s updated
    return (store,⟨trimSpace namespace_,trimSpace name,s.type,updated.data.rows.length,s.createdAt,none,none,
      decodeSecretData updated.data⟩)

/- The text of a printable value is read as the base64 of bytes that are not printable. -/
def Ambiguous (v : Bytes) : Prop :=
  ∃ s, text v = some s ∧ isPrintableUTF8 v = true ∧ ∃ decoded, decodeString (trimSpace s) = some decoded ∧
    decoded ≠ [] ∧ isPrintableUTF8 decoded = false

/- What is loaded and saved with other values under some keys is the secret as it was under all
others, whatever the server lets pass. -/
def EditsKeep (d : Entries Bytes) : Prop :=
  ∀ (admits : Admission Secret) (store store' : Store Secret) (namespace_ name : String) (s : Secret) (shown answer : SecretDetail)
    (body : Entries String),
    store (trimSpace namespace_) (trimSpace name) = some s → s.data = d →
    GetSecretAPI store namespace_ name = .ok shown →
    UpdateSecretAPI admits store namespace_ name (some body) = .ok (store',answer) →
    ∃ s', store' (trimSpace namespace_) (trimSpace name) = some s' ∧
      ∀ k v, d.get k = some v → body.get k = shown.data.get k → s'.data.get k = some v

theorem textOfText (s : String) : text (ofText s) = some s := by
  have whole : (ofText s).toByteArray = s.toByteArray := by
    unfold ofText
    apply ByteArray.ext
    simp
  rw [text,whole,String.fromUTF8?,dif_pos s.isValidUTF8]
  rfl

theorem ofTextText {b : Bytes} {s : String} (here : text b = some s) : ofText s = b := by
  unfold text String.fromUTF8? at here
  split at here <;> try contradiction
  rw [← Option.some_inj.mp here,ofText]
  simp [String.fromUTF8]

theorem printableEmpty : isPrintableUTF8 [] = true := by
  have blank : text [] = some "" := textOfText ""
  simp [isPrintableUTF8,blank]

theorem trimSpaceEncoded (b : Bytes) : trimSpace (encodeToString b) = encodeToString b := by
  have each : Base64.alphabet.all (fun c => !isSpace c) = true := by decide
  have solid : ∀ c ∈ Base64.alphabet, isSpace c = false := by simpa using each
  apply trimSpaceSelf
  intro c mem
  rw [encodeToString,String.toList_ofList] at mem
  rcases Base64.encodeMem mem with digit | rfl
  · exact solid c digit
  · rfl

theorem decodeEncoded (b : Bytes) : decodeString (encodeToString b) = some b := by
  rw [decodeString,encodeToString,String.toList_ofList,Base64.decodeEncode]

/- Bytes that are shown in base64 come back. -/
theorem binaryBack {v : Bytes} (binary : isPrintableUTF8 v = false) : encodeValue (decodeValue v) = v := by
  have shown : decodeValue v = encodeToString v := by
    unfold decodeValue
    cases text v with
    | none => rfl
    | some s => simp [binary]
  have filled : v ≠ [] := by
    rintro rfl
    rw [printableEmpty] at binary
    cases binary
  rw [shown,encodeValue,trimSpaceEncoded,decodeEncoded]
  exact if_pos ⟨List.length_pos_iff.mpr filled,binary⟩

theorem printableText {v : Bytes} (plain : isPrintableUTF8 v = true) : ∃ s, text v = some s ∧ decodeValue v = s := by
  have known := plain
  unfold isPrintableUTF8 at known
  cases here : text v with
  | none =>
    rw [here] at known
    cases known
  | some s =>
    refine ⟨s,rfl,?_⟩
    rw [decodeValue,here]
    exact if_pos plain

/- Texts come back unless they are taken for base64. -/
theorem valueBack (v : Bytes) : encodeValue (decodeValue v) = v ↔ ¬Ambiguous v := by
  cases plain : isPrintableUTF8 v with
  | false =>
    refine ⟨?_,fun _ => binaryBack plain⟩
    rintro _ ⟨s,_,other,_⟩
    rw [plain] at other
    cases other
  | true =>
    obtain ⟨s,here,shown⟩ := printableText plain
    rw [shown,encodeValue]
    cases read : decodeString (trimSpace s) with
    | none =>
      refine ⟨?_,fun _ => ofTextText here⟩
      rintro _ ⟨s',there,_,decoded,other,_⟩
      rw [here] at there
      obtain rfl := Option.some_inj.mp there
      rw [read] at other
      cases other
    | some decoded =>
      dsimp only
      split
      · rename_i taken
        constructor
        · rintro rfl
          rw [plain] at taken
          cases taken.2
        · intro clear
          exact absurd ⟨s,here,plain,decoded,read,List.length_pos_iff.mp taken.1,taken.2⟩ clear
      · rename_i kept
        refine ⟨?_,fun _ => ofTextText here⟩
        rintro _ ⟨s',there,_,decoded',other,filled,binary⟩
        rw [here] at there
        obtain rfl := Option.some_inj.mp there
        rw [read] at other
        obtain rfl := Option.some_inj.mp other
        exact kept ⟨List.length_pos_iff.mpr filled,binary⟩

theorem encodeDecode (d : Entries Bytes) : encodeSecretData (decodeSecretData d) = d ↔ ∀ k v, d.get k = some v → ¬Ambiguous v := by
  rw [encodeSecretData,decodeSecretData,mapMap,mapSelf]
  simp only [Function.comp_apply,valueBack]

theorem getSecretShown {store : Store Secret} {namespace_ name : String} {s : Secret} {shown : SecretDetail}
    (stored : store (trimSpace namespace_) (trimSpace name) = some s) (loaded : GetSecretAPI store namespace_ name = .ok shown) :
    shown.data = decodeSecretData s.data := by
  have here : store.Get "secrets" (trimSpace namespace_) (trimSpace name) = .ok s := getOk.mpr stored
  rw [GetSecretAPI,here] at loaded
  exact congrArg SecretDetail.data (Except.ok.inj loaded).symm

theorem updateSecretStored {admits : Admission Secret} {store store' : Store Secret} {namespace_ name : String} {s : Secret}
    {body : Entries String} {answer : SecretDetail} (stored : store (trimSpace namespace_) (trimSpace name) = some s)
    (saved : UpdateSecretAPI admits store namespace_ name (some body) = .ok (store',answer)) :
    store' (trimSpace namespace_) (trimSpace name) = some { s with data := encodeSecretData body } := by
  have here : store.Get "secrets" (trimSpace namespace_) (trimSpace name) = .ok s := getOk.mpr stored
  simp only [UpdateSecretAPI,here,Store.Update,bind,Except.bind,pure,Except.pure] at saved
  cases answered : admits s { s with data := encodeSecretData body } with
  | error e =>
    rw [answered] at saved
    cases saved
  | ok u =>
    rw [answered] at saved
    rw [← (Prod.mk.inj (Except.ok.inj saved)).1,putSame]

theorem editsKeep {d : Entries Bytes} (clear : ∀ k v, d.get k = some v → ¬Ambiguous v) : EditsKeep d := by
  intro admits store store' namespace_ name s shown answer body stored same loaded saved
  refine ⟨_,updateSecretStored stored saved,?_⟩
  intro k v here kept
  have back := (valueBack v).mpr (clear k v here)
  dsimp only
  rw [encodeSecretData,getMap,kept,getSecretShown stored loaded,same,decodeSecretData,getMap,here,Option.map_some,Option.map_some,back]

theorem secretRoundTrip (d : Entries Bytes) :
    encodeSecretData (decodeSecretData d) = d ∧ EditsKeep d ↔ ∀ k v, d.get k = some v → ¬Ambiguous v :=
  ⟨fun kept => (encodeDecode d).mp kept.1,fun clear => ⟨(encodeDecode d).mpr clear,editsKeep clear⟩⟩

/- Four letters that are the base64 of three bytes. -/
theorem letterValue : ¬encodeSecretData (decodeSecretData (single "token" (ofText "gIGC"))) = single "token" (ofText "gIGC") := by
  have saved : encodeSecretData (decodeSecretData (single "token" (ofText "gIGC"))) = single "token" [0x80,0x81,0x82] := by
    decide
  rw [saved]
  decide

end ContainerWS.Kubernetes
