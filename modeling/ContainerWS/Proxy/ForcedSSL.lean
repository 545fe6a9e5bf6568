import ContainerWS.Proxy.Backends

/-! The redirect to HTTPS of a host with SSL forced: which plain requests its server block answers. The block
is written without the server_name that every other block has. -/
namespace ContainerWS.Proxy
open GoPath GoStrings Nginx StableFirst

section
variable (m : CaseMap) (s : Snapshot) (sslDir : Path) (appBaseURL : String) (v : Visit)

/- The block of the host takes the plain request and sends it to the same place under https. -/
def Secured (x : HostRow × Nat) : Prop :=
  Accepted (included (Generate m s sslDir appBaseURL)) ∧
    ∃ uri, normalizedURI v.path = some uri ∧
      serverFor (itemServer m s appBaseURL) (ruleName m v) (plainItems m s sslDir appBaseURL) = some (.inr x) ∧
      ((itemServer m s appBaseURL (.inr x)).action uri).bind (Action.location s.settings.nginxPorts.1 (requestHost m v.host) v.requestURI) =
        some ("https://" ++ requestHost m v.host ++ v.requestURI)

/- The request is for a domain of the host. -/
def Asked (x : HostRow × Nat) : Prop := (x.1.domainList m).any (ruleName m v) = true

/- The name of the request stands in the block. -/
def Carried (y : Item) : Bool := (itemServer m s appBaseURL y).names.any (ruleName m v)

/- nginx runs with the configuration, on two ports, and reads the path. -/
def Up : Prop := Loads s sslDir appBaseURL ∧ s.clash = false ∧ ∃ uri, normalizedURI v.path = some uri

/- No block carries the name. -/
def Unclaimed : Prop := ∀ y ∈ s.items.filter isPlain, Carried m s appBaseURL v y = false

/- The file of the host is the first of conf.d with a block for plain requests. -/
def ReadFirst (x : HostRow × Nat) : Prop :=
  First (byName (itemName m s sslDir appBaseURL)) (fun _ => true) (s.items.filter isPlain) (.inr x)

/- A request without a name is for the first block without one. -/
def FirstNameless (x : HostRow × Nat) : Prop :=
  requestHost m v.host = "" ∧ First (byName (itemName m s sslDir appBaseURL)) (Carried m s appBaseURL v) (s.items.filter isPlain) (.inr x)

/- For its own domains the block is the one that stands first, and no block has their name; for other
names it is not that, or another block has the name. -/
def Bounded (x : HostRow × Nat) : Prop :=
  (Asked m v x → Up s sslDir appBaseURL v ∧ Unclaimed m s appBaseURL v ∧ ReadFirst m s sslDir appBaseURL x) ∧
    (¬ Asked m v x → Up s sslDir appBaseURL v →
      ¬ FirstNameless m s sslDir appBaseURL v x ∧ ¬ (Unclaimed m s appBaseURL v ∧ ReadFirst m s sslDir appBaseURL x))

end

section
variable {m : CaseMap} {s : Snapshot} {sslDir : Path} {appBaseURL : String} {v : Visit} {x : HostRow × Nat}

theorem forcedLocation (forced : x.1.sslForced = true) (uri : String) :
    ((itemServer m s appBaseURL (.inr x)).action uri).bind (Action.location s.settings.nginxPorts.1 (requestHost m v.host) v.requestURI) =
      some ("https://" ++ requestHost m v.host ++ v.requestURI) := by
  rw [forcedAction forced]
  have target : String.join ([.text "https://",.host,.requestURI].map (Piece.value (requestHost m v.host) v.requestURI)) =
      "https://" ++ requestHost m v.host ++ v.requestURI := by
    simp [String.join,Piece.value]
  have apart : hasPrefix ("https://" ++ requestHost m v.host ++ v.requestURI) "/" = false := by
    rw [Bool.eq_false_iff,Ne,prefixIff]
    simp [String.toList_append]
  simp only [Option.bind_some,Action.location,sentTo,target,apart,Bool.false_eq_true,if_false]

theorem securedServing (forced : x.1.sslForced = true) :
    Secured m s sslDir appBaseURL v x ↔ Up s sslDir appBaseURL v ∧
      Effective (byName (itemName m s sslDir appBaseURL)) (itemServer m s appBaseURL) (ruleName m v) (s.items.filter isPlain) (.inr x) := by
  unfold Secured Up
  rw [acceptedIff]
  simp only [servingIff,forcedLocation forced,and_true]
  unfold Serving
  constructor
  · rintro ⟨loads,uri,normal,apart,effective⟩
    exact ⟨⟨loads,apart,uri,normal⟩,effective⟩
  · rintro ⟨⟨loads,apart,uri,normal⟩,effective⟩
    exact ⟨loads,uri,normal,apart,effective⟩

/- The block carries no name but that of a request without one. -/
theorem forcedCarried (forced : x.1.sslForced = true) : Carried m s appBaseURL v (.inr x) = true ↔ requestHost m v.host = "" := by
  have empty : m.toLower "" = "" := rfl
  simp only [Carried,itemServer,plainServer,forced,if_true,ruleName,List.any_cons,List.any_nil,Bool.or_false,empty,decide_eq_true_eq]
  exact eq_comm

theorem askedNamed (asked : Asked m v x) : requestHost m v.host ≠ "" := by
  obtain ⟨d,listed,named⟩ := List.any_eq_true.mp asked
  have filled : d ≠ "" := by simpa using (List.mem_filter.mp listed).2
  have lower : m.toLower d = requestHost m v.host := of_decide_eq_true named
  intro none
  rw [none] at lower
  apply filled
  have blank := congrArg String.toList lower
  rw [CaseMap.toLower,String.toList_ofList] at blank
  exact String.toList_eq_nil_iff.mp (List.map_eq_nil_iff.mp blank)

theorem effectiveForced (forced : x.1.sslForced = true) :
    Effective (byName (itemName m s sslDir appBaseURL)) (itemServer m s appBaseURL) (ruleName m v) (s.items.filter isPlain) (.inr x) ↔
      FirstNameless m s sslDir appBaseURL v x ∨ (Unclaimed m s appBaseURL v ∧ ReadFirst m s sslDir appBaseURL x) := by
  unfold Effective FirstNameless
  refine or_congr_left ⟨?_,And.right⟩
  intro first
  exact ⟨(forcedCarried forced).mp (firstMem first).2,first⟩

end

def plainRow : HostRow := ⟨hostWith "a.example" [],"",none⟩

def forcedRow : HostRow := ⟨{hostWith "b.example" [] with sslForced := true},"",some "c"⟩

def forcedSnapshot (hosts : List HostRow) : Snapshot where
  settings := ⟨"nginx","host","docker",80,443,"published",""⟩
  hosts := hosts
  redirects := []
  certificates := [⟨"c","path","/c.crt","/c.key"⟩]

def visitName (name : String) : Visit := ⟨⟨name,"/",rfl⟩,"/",rfl,none⟩

theorem forcedLoads : Loads (forcedSnapshot [forcedRow]) [] "" := by
  unfold Loads
  decide

end ContainerWS.Proxy
