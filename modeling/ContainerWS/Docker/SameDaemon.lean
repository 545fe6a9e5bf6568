import ContainerWS.Docker.Clients

/-! Whether docker compose and the client connect to the same daemon for an environment. -/
namespace ContainerWS.Docker.Clients
open GoStrings Docker.Environments

section
variable {R P S : Type} (t : Tools R P S)

/- A certificate without a key, and a key without a certificate, are not looked at. -/
def certified (files : List (String × String)) : Option (TLSConfig R P) :=
  (files.lookup "certs/ca.pem").bind (fun ca => (t.roots ca).bind (fun roots =>
    match files.lookup "certs/cert.pem",files.lookup "certs/key.pem" with
    | some cert,some key => (t.pair cert key).toOption.map (fun pair => ⟨false,some roots,some pair⟩)
    | _,_ => some ⟨false,some roots,none⟩))

/- TLS is for a DOCKER_TLS_VERIFY that is not empty. -/
def secured (verify : String) (files : List (String × String)) : Option (Option (TLSConfig R P)) :=
  if verify = "" then some none else (certified t files).map some

/- No terminal asks for a passphrase. -/
def identity (files : List (String × String)) : Option S :=
  match files.lookup ".ssh/id_key" with
  | some key => (t.signer key "").toOption
  | none => t.own

/- What docker and ssh do by their documentation: the address of DOCKER_HOST; the certificates under
DOCKER_CERT_PATH; a connection over TCP for no address of another kind; the name, the port and the user that
ssh_config gives the host, each of which needs a value; and `docker system dial-stdio` on the remote host. -/
structure Documented : Prop where
  unix : ∀ dir sock files, t.compose dir [("DOCKER_HOST","unix://" ++ sock)] files = if t.takes ("unix://" ++ sock) then some (.socket sock) else none
  tcp : ∀ dir url verify files, hasPrefix url "tcp://" = true →
    t.compose dir (tlsVars dir url verify) files = if t.takes url then (secured t verify files).map (Daemon.tcp url) else none
  other : ∀ dir url verify files u tls, hasPrefix url "tcp://" = false → t.compose dir (tlsVars dir url verify) files ≠ some (.tcp u tls)
  ssh : ∀ dir files, t.compose dir (sshVars dir) files = (files.lookup ".ssh/config").bind (fun config =>
    (t.configured config).bind (fun c => (identity t files).map (fun s => .ssh c.1 c.2.1 c.2.2 s (t.remote c.1 c.2.1 c.2.2))))
  configured : ∀ host user port identity, t.configured (sshConfig host user port identity) = some (host,port,user) ↔
    t.home = true ∧ t.word host = true ∧ t.word user = true ∧ 0 < port ∧ port ≤ 65535
  missing : ∀ host user port identity, host = "" ∨ user = "" ∨ port ≤ 0 → t.configured (sshConfig host user port identity) = none

/- There is a certificate and a key for it. -/
def Paired (b : DockerEnvironment) : Prop := trimSpace b.tlsCert ≠ "" ∧ trimSpace b.tlsKey ≠ ""

/- The files of the certificates are not enough, or cannot be read. -/
def Uncertified (b : DockerEnvironment) : Prop :=
  trimSpace b.tlsCACert = "" ∨ t.roots b.tlsCACert = none ∨ (Paired b ∧ (t.pair b.tlsCert b.tlsKey).toOption = none)

/- The client is not made. -/
def ClientRefuses (dockerHost : String) : Connection → Prop
  | .unix path => t.host ("unix://" ++ if path ≠ "" then path else sockPath dockerHost) ≠ none
  | .tls b => (trimSpace b.tlsCACert ≠ "" ∧ b.tlsSkipVerify = false ∧ t.roots (trimSpace b.tlsCACert) = none) ∨
      (Paired b ∧ (t.pair (trimSpace b.tlsCert) (trimSpace b.tlsKey)).toOption = none) ∨ t.host (clientURL b) ≠ none
  | .ssh b => trimSpace b.sshHost = "" ∨ trimSpace b.sshPrivateKey = "" ∨
      (t.signer (trimSpace b.sshPrivateKey) (trimSpace b.sshPassphrase)).toOption = none ∨ t.host ("unix://" ++ remoteSocket b) ≠ none
  | .unsupported _ => True

/- A file cannot be written, or docker or ssh takes what it is given for no connection. -/
def ComposeRefuses (d : Disk) (dir yaml envFile : String) (c : Connection) : Prop :=
  (∃ w ∈ baseWrites yaml envFile ++ connectionWrites dir c, d.write w.name ≠ none) ∨
    match c with
    | .unix path => t.takes ("unix://" ++ if path ≠ "" then path else defaultSocket) = false
    | .tls b =>
      if hasPrefix (composeURL b) "tcp://" then
        t.takes (composeURL b) = false ∨ (b.tlsSkipVerify = false ∧ Uncertified t b)
      else t.compose dir (tlsVars dir (composeURL b) (verifyOf b)) (filesOf (baseWrites yaml envFile ++ tlsWrites b)) = none
    | .ssh b => t.configured (configFor dir b) = none ∨
        (if trimSpace b.sshPrivateKey = "" then t.own else (t.signer (b.sshPrivateKey ++ "\n") "").toOption) = none
    | .unsupported _ => True

/- The values of the fields that both take for the same. -/
def Agree (dockerHost : String) : Connection → Prop
  | .unix path => path ≠ "" ∨ sockPath dockerHost = defaultSocket
  | .tls b => hasPrefix (composeURL b) "tcp://" = true ∧ (trimSpace b.hostURL ≠ "" ∨ 0 < b.tcpPort) ∧ b.tlsSkipVerify = false ∧
      t.roots b.tlsCACert = t.roots (trimSpace b.tlsCACert) ∧
        (Paired b → (t.pair b.tlsCert b.tlsKey).toOption = (t.pair (trimSpace b.tlsCert) (trimSpace b.tlsKey)).toOption)
  | .ssh b => (t.home = true ∧ t.word (trimSpace b.sshHost) = true ∧ t.word (trimSpace b.sshUser) = true ∧ 0 < b.sshPort ∧ b.sshPort ≤ 65535) ∧
      (t.signer (b.sshPrivateKey ++ "\n") "").toOption = (t.signer (trimSpace b.sshPrivateKey) (trimSpace b.sshPassphrase)).toOption ∧
        t.remote (trimSpace b.sshHost) b.sshPort (trimSpace b.sshUser) = remoteSocket b
  | .unsupported _ => False

/- Both refuse, or neither does and the values agree. -/
def Alike (d : Disk) (dockerHost yaml envFile : String) (c : Connection) : Prop :=
  match d.mkdirTemp with
  | .error _ => ClientRefuses t dockerHost c
  | .ok dir => (ClientRefuses t dockerHost c ∧ ComposeRefuses t d dir yaml envFile c) ∨
      (¬ClientRefuses t dockerHost c ∧ ¬ComposeRefuses t d dir yaml envFile c ∧ Agree t dockerHost c)

end
/-! The client. -/
section
variable {R P S : Type} {t : Tools R P S} {b : DockerEnvironment}

theorem hostNone {host : String} {daemon : Daemon R P S} : (withHost t host daemon).toOption = none ↔ t.host host ≠ none := by
  unfold withHost
  cases t.host host with
  | none => exact iff_of_false (by rintro ⟨⟩) (by simp)
  | some e => exact iff_of_true rfl (by simp)

theorem hostSome {host : String} {daemon x : Daemon R P S} (made : (withHost t host daemon).toOption = some x) : x = daemon := by
  unfold withHost at made
  cases found : t.host host with
  | none =>
    rw [found] at made
    cases made
    rfl
  | some e =>
    rw [found] at made
    cases made

theorem rootsNone : (clientRoots t b).toOption = none ↔ trimSpace b.tlsCACert ≠ "" ∧ b.tlsSkipVerify = false ∧ t.roots (trimSpace b.tlsCACert) = none := by
  unfold clientRoots
  split
  · rename_i asked
    cases found : t.roots (trimSpace b.tlsCACert) with
    | none => exact iff_of_true rfl ⟨asked.1,asked.2,rfl⟩
    | some roots => exact iff_of_false (by rintro ⟨⟩) (by rintro ⟨_,_,⟨⟩⟩)
  · rename_i free
    exact iff_of_false (by rintro ⟨⟩) (fun asked => free ⟨asked.1,asked.2.1⟩)

theorem rootsSome {roots : Option R} (made : clientRoots t b = .ok roots) :
    roots = if trimSpace b.tlsCACert ≠ "" ∧ b.tlsSkipVerify = false then t.roots (trimSpace b.tlsCACert) else none := by
  unfold clientRoots at made
  split at made
  · rename_i asked
    rw [if_pos asked]
    split at made
    · cases made
    · rename_i found
      rw [found]
      exact (Except.ok.inj made).symm
  · rename_i free
    rw [if_neg free]
    exact (Except.ok.inj made).symm

theorem pairNone : (clientPair t b).toOption = none ↔ Paired b ∧ (t.pair (trimSpace b.tlsCert) (trimSpace b.tlsKey)).toOption = none := by
  unfold clientPair Paired
  split
  · rename_i asked
    cases t.pair (trimSpace b.tlsCert) (trimSpace b.tlsKey) with
    | error e => exact iff_of_true rfl ⟨asked,rfl⟩
    | ok pair => exact iff_of_false (by rintro ⟨⟩) (by rintro ⟨_,⟨⟩⟩)
  · rename_i free
    exact iff_of_false (by rintro ⟨⟩) (fun asked => free asked.1)

theorem pairSome {pair : Option P} (made : clientPair t b = .ok pair) :
    (Paired b → pair = (t.pair (trimSpace b.tlsCert) (trimSpace b.tlsKey)).toOption) ∧ (¬Paired b → pair = none) := by
  unfold clientPair at made
  unfold Paired
  split at made
  · rename_i asked
    refine ⟨fun _ => ?_,fun free => absurd asked free⟩
    cases found : t.pair (trimSpace b.tlsCert) (trimSpace b.tlsKey) with
    | error e =>
      rw [found] at made
      cases made
    | ok pair' =>
      rw [found] at made
      exact (Except.ok.inj made).symm
  · rename_i free
    exact ⟨fun asked => absurd asked free,fun _ => (Except.ok.inj made).symm⟩

theorem tlsClientNone : (newTLSClient t b).toOption = none ↔
    (trimSpace b.tlsCACert ≠ "" ∧ b.tlsSkipVerify = false ∧ t.roots (trimSpace b.tlsCACert) = none) ∨
      (Paired b ∧ (t.pair (trimSpace b.tlsCert) (trimSpace b.tlsKey)).toOption = none) ∨ t.host (clientURL b) ≠ none := by
  rw [← rootsNone,← pairNone]
  unfold newTLSClient buildTLSConfig
  cases clientRoots t b with
  | error e => exact iff_of_true rfl (.inl rfl)
  | ok roots =>
    cases clientPair t b with
    | error e => exact iff_of_true rfl (.inr (.inl rfl))
    | ok pair =>
      refine hostNone.trans ⟨fun refused => .inr (.inr refused),?_⟩
      rintro (none | none | refused)
      · exact absurd none (Option.some_ne_none roots)
      · exact absurd none (Option.some_ne_none pair)
      · exact refused

/- Where there is a certificate without its key, or none, no pair is presented. -/
theorem tlsClientSome {x : Daemon R P S} (made : (newTLSClient t b).toOption = some x) :
    ∃ roots pair, x = .tcp (clientURL b) (some ⟨b.tlsSkipVerify,roots,pair⟩) ∧
      (roots = if trimSpace b.tlsCACert ≠ "" ∧ b.tlsSkipVerify = false then t.roots (trimSpace b.tlsCACert) else none) ∧
        (Paired b → pair = (t.pair (trimSpace b.tlsCert) (trimSpace b.tlsKey)).toOption) ∧ (¬Paired b → pair = none) := by
  unfold newTLSClient buildTLSConfig at made
  cases first : clientRoots t b with
  | error e =>
    rw [first] at made
    cases made
  | ok roots =>
    cases second : clientPair t b with
    | error e =>
      rw [first,second] at made
      cases made
    | ok pair =>
      rw [first,second] at made
      exact ⟨roots,pair,hostSome made,rootsSome first,pairSome second⟩

theorem parsedOption (key passphrase : String) : (parseSSHPrivateKey t key passphrase).toOption = (t.signer key passphrase).toOption := by
  unfold parseSSHPrivateKey
  cases t.signer key passphrase with
  | ok signer => rfl
  | error e =>
    dsimp only
    split <;> rfl

theorem sshClientNone : (newSSHClient t b).toOption = none ↔ trimSpace b.sshHost = "" ∨ trimSpace b.sshPrivateKey = "" ∨
    (t.signer (trimSpace b.sshPrivateKey) (trimSpace b.sshPassphrase)).toOption = none ∨ t.host ("unix://" ++ remoteSocket b) ≠ none := by
  rw [← parsedOption]
  unfold newSSHClient sshUnixDialer
  by_cases host : trimSpace b.sshHost = ""
  · rw [if_pos host]
    exact iff_of_true rfl (.inl host)
  · rw [if_neg host,or_iff_right host]
    by_cases key : trimSpace b.sshPrivateKey = ""
    · rw [if_pos key]
      exact iff_of_true rfl (.inl key)
    · rw [if_neg key,or_iff_right key]
      cases parseSSHPrivateKey t (trimSpace b.sshPrivateKey) (trimSpace b.sshPassphrase) with
      | error e => exact iff_of_true rfl (.inl rfl)
      | ok signer => exact hostNone.trans (or_iff_right (Option.some_ne_none signer)).symm

theorem sshClientSome {x : Daemon R P S} (made : (newSSHClient t b).toOption = some x) :
    ∃ signer, (t.signer (trimSpace b.sshPrivateKey) (trimSpace b.sshPassphrase)).toOption = some signer ∧
      x = .ssh (trimSpace b.sshHost) (if b.sshPort ≤ 0 then 22 else b.sshPort)
        (if trimSpace b.sshUser = "" then "root" else trimSpace b.sshUser) signer (remoteSocket b) := by
  rw [← parsedOption]
  unfold newSSHClient sshUnixDialer at made
  split at made
  · cases made
  · split at made
    · cases made
    · cases parsed : parseSSHPrivateKey t (trimSpace b.sshPrivateKey) (trimSpace b.sshPassphrase) with
      | error e =>
        rw [parsed] at made
        cases made
      | ok signer =>
        rw [parsed] at made
        exact ⟨signer,rfl,hostSome made⟩

theorem clientNone {dockerHost : String} {env : Option DockerEnvironment} :
    (newClientFor t dockerHost env).toOption = none ↔ ClientRefuses t dockerHost (connection env) := by
  unfold newClientFor ClientRefuses
  cases connection env with
  | unix path => exact hostNone
  | tls b => exact tlsClientNone
  | ssh b => exact sshClientNone
  | unsupported conn => exact iff_of_true rfl trivial

end
/-! The files that docker and ssh look for. -/
section
variable {yaml envFile dir : String} {b : DockerEnvironment}

theorem writtenAll {d : Disk} {writes : List Write} : writeAll d writes = none ↔ ¬∃ w ∈ writes, d.write w.name ≠ none := by
  unfold writeAll
  rw [List.findSome?_eq_none_iff]
  simp

theorem filesAppend (one two : List Write) : filesOf (one ++ two) = filesOf one ++ filesOf two := List.filterMap_append

/- The files of the project are none of them. -/
theorem lookupBase {name : String} {writes : List Write} (other : name ∉ ["docker-compose.yml",".env","stack.env"]) :
    (filesOf (baseWrites yaml envFile ++ writes)).lookup name = (filesOf writes).lookup name := by
  have compose : (name == "docker-compose.yml") = false := by
    rw [beq_eq_false_iff_ne]
    rintro rfl
    exact other (by decide)
  have env : (name == ".env") = false := by
    rw [beq_eq_false_iff_ne]
    rintro rfl
    exact other (by decide)
  have stack : (name == "stack.env") = false := by
    rw [beq_eq_false_iff_ne]
    rintro rfl
    exact other (by decide)
  rw [filesAppend]
  unfold baseWrites filesOf
  split <;> simp [List.lookup_cons,compose,env,stack]

def filled (body : String) : Option String := if trimSpace body = "" then none else some body

theorem tlsLookup (b : DockerEnvironment) :
    (filesOf (tlsWrites b)).lookup "certs/ca.pem" = filled b.tlsCACert ∧
      (filesOf (tlsWrites b)).lookup "certs/cert.pem" = filled b.tlsCert ∧
        (filesOf (tlsWrites b)).lookup "certs/key.pem" = filled b.tlsKey := by
  unfold filesOf tlsWrites filled
  by_cases ca : trimSpace b.tlsCACert = "" <;> by_cases cert : trimSpace b.tlsCert = "" <;> by_cases key : trimSpace b.tlsKey = "" <;>
    simp [List.lookup_cons,ca,cert,key]

theorem sshLookup (dir : String) (b : DockerEnvironment) :
    (filesOf (sshWrites dir b)).lookup ".ssh/config" = some (configFor dir b) ∧
      (filesOf (sshWrites dir b)).lookup ".ssh/id_key" = if trimSpace b.sshPrivateKey = "" then none else some (b.sshPrivateKey ++ "\n") := by
  unfold filesOf sshWrites
  split <;> simp [List.lookup_cons]

end
/-! The command. -/
section
variable {R P S : Type} {t : Tools R P S} {b : DockerEnvironment} {d : Disk} {env : Option DockerEnvironment} {yaml envFile dir : String}

/- With the files as they are after the writes. -/
def ran (t : Tools R P S) (dir yaml envFile : String) (c : Connection) : Option (Daemon R P S) :=
  match connectionVars dir c with
  | .error _ => none
  | .ok vars => t.compose dir vars (filesOf (baseWrites yaml envFile ++ connectionWrites dir c))

theorem composedRan (made : d.mkdirTemp = .ok dir) :
    composed t d env yaml envFile = if writeAll d (baseWrites yaml envFile ++ connectionWrites dir (connection env)) = none then
      ran t dir yaml envFile (connection env) else none := by
  unfold composed prepareWorkdir ran
  rw [made]
  dsimp only
  cases writeAll d (baseWrites yaml envFile ++ connectionWrites dir (connection env)) with
  | some e => rfl
  | none =>
    rw [if_pos rfl]
    cases connectionVars dir (connection env) <;> rfl

/- What is read of the certificates. -/
def Certified (t : Tools R P S) (b : DockerEnvironment) (cfg : TLSConfig R P) : Prop :=
  ∃ roots pair, cfg = ⟨false,some roots,pair⟩ ∧ trimSpace b.tlsCACert ≠ "" ∧ t.roots b.tlsCACert = some roots ∧
    (Paired b → pair = (t.pair b.tlsCert b.tlsKey).toOption) ∧ (¬Paired b → pair = none)

theorem certifiedFiles {files : List (String × String)} (ca : files.lookup "certs/ca.pem" = filled b.tlsCACert)
    (cert : files.lookup "certs/cert.pem" = filled b.tlsCert) (key : files.lookup "certs/key.pem" = filled b.tlsKey) :
    (certified t files = none ↔ Uncertified t b) ∧ ∀ cfg, certified t files = some cfg → Certified t b cfg := by
  unfold certified Uncertified Certified Paired
  rw [ca,cert,key]
  unfold filled
  by_cases noCA : trimSpace b.tlsCACert = ""
  · rw [if_pos noCA]
    exact ⟨iff_of_true rfl (.inl noCA),by rintro cfg ⟨⟩⟩
  · rw [if_neg noCA,or_iff_right noCA]
    dsimp only [Option.bind_some]
    cases t.roots b.tlsCACert with
    | none => exact ⟨iff_of_true rfl (.inl rfl),by rintro cfg ⟨⟩⟩
    | some roots =>
      dsimp only [Option.bind_some]
      rw [or_iff_right (Option.some_ne_none roots)]
      by_cases noCert : trimSpace b.tlsCert = ""
      · rw [if_pos noCert]
        refine ⟨iff_of_false (by rintro ⟨⟩) (fun both => both.1.1 noCert),?_⟩
        rintro cfg ⟨⟩
        exact ⟨roots,none,rfl,noCA,rfl,fun both => absurd noCert both.1,fun _ => rfl⟩
      · rw [if_neg noCert]
        by_cases noKey : trimSpace b.tlsKey = ""
        · rw [if_pos noKey]
          refine ⟨iff_of_false (by rintro ⟨⟩) (fun both => both.1.2 noKey),?_⟩
          rintro cfg ⟨⟩
          exact ⟨roots,none,rfl,noCA,rfl,fun both => absurd noKey both.2,fun _ => rfl⟩
        · rw [if_neg noKey]
          have paired : trimSpace b.tlsCert ≠ "" ∧ trimSpace b.tlsKey ≠ "" := ⟨noCert,noKey⟩
          dsimp only
          cases t.pair b.tlsCert b.tlsKey with
          | error e => exact ⟨iff_of_true rfl ⟨paired,rfl⟩,by rintro cfg ⟨⟩⟩
          | ok pair =>
            refine ⟨iff_of_false (by rintro ⟨⟩) (fun both => absurd both.2 (Option.some_ne_none pair)),?_⟩
            rintro cfg ⟨⟩
            exact ⟨roots,some pair,rfl,noCA,rfl,fun _ => rfl,fun free => absurd paired free⟩

theorem tlsCertified (t : Tools R P S) (yaml envFile : String) (b : DockerEnvironment) :
    (certified t (filesOf (baseWrites yaml envFile ++ tlsWrites b)) = none ↔ Uncertified t b) ∧
      ∀ cfg, certified t (filesOf (baseWrites yaml envFile ++ tlsWrites b)) = some cfg → Certified t b cfg := by
  obtain ⟨ca,cert,key⟩ := tlsLookup b
  exact certifiedFiles ((lookupBase (by decide)).trans ca) ((lookupBase (by decide)).trans cert) ((lookupBase (by decide)).trans key)

/- The identity file is the key, and without one it is ssh's own. -/
theorem sshIdentity (t : Tools R P S) (dir yaml envFile : String) (b : DockerEnvironment) :
    identity t (filesOf (baseWrites yaml envFile ++ sshWrites dir b)) =
      if trimSpace b.sshPrivateKey = "" then t.own else (t.signer (b.sshPrivateKey ++ "\n") "").toOption := by
  unfold identity
  rw [lookupBase (by decide),(sshLookup dir b).2]
  by_cases blank : trimSpace b.sshPrivateKey = ""
  · rw [if_pos blank,if_pos blank]
  · rw [if_neg blank,if_neg blank]

theorem sshConfigured (dir yaml envFile : String) (b : DockerEnvironment) :
    (filesOf (baseWrites yaml envFile ++ sshWrites dir b)).lookup ".ssh/config" = some (configFor dir b) :=
  (lookupBase (by decide)).trans (sshLookup dir b).1

/- The command does not connect. -/
theorem ranNone (documented : Documented t) (c : Connection) (written : ¬∃ w ∈ baseWrites yaml envFile ++ connectionWrites dir c, d.write w.name ≠ none) :
    ran t dir yaml envFile c = none ↔ ComposeRefuses t d dir yaml envFile c := by
  unfold ran ComposeRefuses
  rw [or_iff_right written]
  cases c with
  | unix path =>
    dsimp only [connectionVars]
    rw [documented.unix]
    cases t.takes ("unix://" ++ if path ≠ "" then path else defaultSocket) with
    | true => exact iff_of_false (by rintro ⟨⟩) (by rintro ⟨⟩)
    | false => exact iff_of_true rfl rfl
  | tls b =>
    dsimp only [connectionVars,connectionWrites]
    by_cases tcp : hasPrefix (composeURL b) "tcp://" = true
    · rw [documented.tcp dir _ _ _ tcp,if_pos tcp]
      cases t.takes (composeURL b) with
      | false => exact iff_of_true rfl (.inl rfl)
      | true =>
        rw [if_pos rfl,or_iff_right (by rintro ⟨⟩),Option.map_eq_none_iff]
        unfold secured verifyOf
        cases b.tlsSkipVerify with
        | true => exact iff_of_false (by rintro ⟨⟩) (by rintro ⟨⟨⟩,_⟩)
        | false =>
          rw [if_neg (by decide),and_iff_right rfl,Option.map_eq_none_iff]
          exact (tlsCertified t yaml envFile b).1
    · rw [if_neg tcp]
  | ssh b =>
    dsimp only [connectionVars,connectionWrites]
    rw [documented.ssh,sshConfigured,sshIdentity]
    dsimp only [Option.bind_some]
    cases t.configured (configFor dir b) with
    | none => exact iff_of_true rfl (.inl rfl)
    | some c =>
      dsimp only [Option.bind_some]
      rw [Option.map_eq_none_iff,or_iff_right (Option.some_ne_none c)]
  | unsupported conn => exact iff_of_true rfl trivial

theorem composedNone (documented : Documented t) (made : d.mkdirTemp = .ok dir) :
    composed t d env yaml envFile = none ↔ ComposeRefuses t d dir yaml envFile (connection env) := by
  rw [composedRan made]
  by_cases written : ∃ w ∈ baseWrites yaml envFile ++ connectionWrites dir (connection env), d.write w.name ≠ none
  · rw [if_neg (fun none => writtenAll.mp none written)]
    exact iff_of_true rfl (.inl written)
  · rw [if_pos (writtenAll.mpr written)]
    exact ranNone documented _ written

/-! Both connect. -/

theorem portOther {port : Int} (low : port ≤ 0) : toString port ≠ "2376" := by
  intro same
  cases port with
  | ofNat n =>
    have zero : n = 0 := by simpa using low
    subst zero
    revert same
    decide
  | negSucc n =>
    have chars := congrArg String.toList same
    change ("-" ++ Nat.repr (n + 1)).toList = _ at chars
    rw [String.toList_append] at chars
    cases chars

/- The default port of the client is not the one of the record. -/
theorem urlSame (b : DockerEnvironment) : clientURL b = composeURL b ↔ trimSpace b.hostURL ≠ "" ∨ 0 < b.tcpPort := by
  unfold clientURL composeURL
  by_cases blank : trimSpace b.hostURL = ""
  · rw [if_pos blank,if_pos blank,or_iff_right (not_not.mpr blank)]
    by_cases low : b.tcpPort ≤ 0
    · rw [if_pos low]
      refine iff_of_false ?_ (by omega)
      intro same
      exact portOther low ((String.append_right_inj _).mp same).symm
    · rw [if_neg low]
      exact iff_of_true rfl (by omega)
  · rw [if_neg blank,if_neg blank]
    exact iff_of_true rfl (.inl blank)

variable {dockerHost : String} {x y : Daemon R P S}

theorem unixAgree {path : String} (documented : Documented t) (client : (newUnixClient t (if path ≠ "" then path else sockPath dockerHost)).toOption = some x)
    (compose : ran t dir yaml envFile (.unix path) = some y) : x = y ↔ Agree t dockerHost (.unix path) := by
  dsimp only [ran,connectionVars] at compose
  rw [documented.unix] at compose
  by_cases taken : t.takes ("unix://" ++ if path ≠ "" then path else defaultSocket) = true
  · rw [if_pos taken] at compose
    cases Option.some.inj compose
    rw [hostSome client,Daemon.socket.injEq]
    unfold Agree
    dsimp only
    by_cases some_ : path ≠ ""
    · rw [if_pos some_,if_pos some_]
      exact iff_of_true rfl (.inl some_)
    · rw [if_neg some_,if_neg some_,or_iff_right some_]
  · rw [if_neg taken] at compose
    cases compose

theorem tlsAgree (documented : Documented t) (client : (newTLSClient t b).toOption = some x) (compose : ran t dir yaml envFile (.tls b) = some y) :
    x = y ↔ Agree t dockerHost (.tls b) := by
  obtain ⟨roots,pair,rfl,asked,paired,free⟩ := tlsClientSome client
  dsimp only [ran,connectionVars,connectionWrites] at compose
  unfold Agree
  dsimp only
  by_cases tcp : hasPrefix (composeURL b) "tcp://" = true
  · rw [documented.tcp dir _ _ _ tcp] at compose
    split at compose
    · rw [and_iff_right tcp,← urlSame]
      obtain ⟨tls,found,rfl⟩ := Option.map_eq_some_iff.mp compose
      rw [Daemon.tcp.injEq]
      refine and_congr_right (fun _ => ?_)
      unfold secured verifyOf at found
      cases skip : b.tlsSkipVerify with
      | true =>
        rw [skip,if_pos rfl] at found
        cases Option.some.inj found
        exact iff_of_false (by rintro ⟨⟩) (by rintro ⟨⟨⟩,_⟩)
      | false =>
        rw [skip,if_neg (by decide)] at found
        obtain ⟨cfg,certified_,rfl⟩ := Option.map_eq_some_iff.mp found
        obtain ⟨roots',pair',rfl,some_,read,paired',free'⟩ := (tlsCertified t yaml envFile b).2 cfg certified_
        rw [if_pos ⟨some_,skip⟩] at asked
        rw [and_iff_right rfl,Option.some.injEq,TLSConfig.mk.injEq,and_iff_right rfl,asked,read]
        refine and_congr eq_comm ?_
        by_cases both : Paired b
        · rw [imp_iff_right both,paired both,paired' both]
          exact eq_comm
        · rw [free both,free' both]
          exact iff_of_true rfl (fun here => absurd here both)
    · cases compose
  · refine iff_of_false ?_ (fun agree => tcp agree.1)
    rintro rfl
    exact documented.other dir _ _ _ _ _ (Bool.eq_false_iff.mpr tcp) compose

theorem sshAgree (documented : Documented t) (client : (newSSHClient t b).toOption = some x) (compose : ran t dir yaml envFile (.ssh b) = some y) :
    x = y ↔ Agree t dockerHost (.ssh b) := by
  obtain ⟨signer,read,rfl⟩ := sshClientSome client
  have key : trimSpace b.sshPrivateKey ≠ "" := by
    intro blank
    have refused := (sshClientNone (t := t) (b := b)).mpr (.inr (.inl blank))
    rw [client] at refused
    cases refused
  dsimp only [ran,connectionVars,connectionWrites] at compose
  rw [documented.ssh,sshConfigured,sshIdentity,if_neg key] at compose
  dsimp only [Option.bind_some] at compose
  obtain ⟨⟨host,port,user⟩,settings,made⟩ := Option.bind_eq_some_iff.mp compose
  obtain ⟨own,identified,rfl⟩ := Option.map_eq_some_iff.mp made
  unfold configFor at settings
  have given : trimSpace b.sshUser ≠ "" ∧ ¬b.sshPort ≤ 0 := by
    constructor
    · intro blank
      rw [documented.missing _ _ _ _ (.inr (.inl blank))] at settings
      cases settings
    · intro low
      rw [documented.missing _ _ _ _ (.inr (.inr low))] at settings
      cases settings
  unfold Agree
  dsimp only
  rw [if_neg given.1,if_neg given.2,Daemon.ssh.injEq,read,identified,
    ← documented.configured (trimSpace b.sshHost) (trimSpace b.sshUser) b.sshPort (identityLines dir b),settings]
  constructor
  · rintro ⟨rfl,rfl,rfl,rfl,socket⟩
    exact ⟨rfl,rfl,socket.symm⟩
  · rintro ⟨named,same,socket⟩
    cases Option.some.inj named
    exact ⟨rfl,rfl,rfl,(Option.some.inj same).symm,socket.symm⟩

theorem eitherSame {α : Type} {a b : Option α} {p q m : Prop} (left : a = none ↔ p) (right : b = none ↔ q)
    (both : ∀ x y, a = some x → b = some y → (x = y ↔ m)) : a = b ↔ (p ∧ q) ∨ (¬p ∧ ¬q ∧ m) := by
  rw [← left,← right]
  cases a with
  | none =>
    cases b with
    | none => exact iff_of_true rfl (.inl ⟨rfl,rfl⟩)
    | some y => simp
  | some x =>
    cases b with
    | none => simp
    | some y => simpa using both x y rfl rfl

end
/-! A docker that takes every address and every certificate, and an ssh that does not look under HOME. -/

def anyTools : Tools String String String where
  roots := some
  pair := fun cert key => .ok (cert ++ key)
  signer := fun key _ => .ok key
  block := fun _ => true
  host := fun _ => none
  compose := fun _ _ _ => none
  takes := fun _ => true
  home := false
  word := fun _ => true
  configured := fun _ => none
  own := none
  remote := fun _ _ _ => defaultSocket

def dockerTools : Tools String String String :=
  { anyTools with
    compose := fun _ vars files =>
      match vars.lookup "DOCKER_HOST",vars.lookup "HOME",vars.lookup "DOCKER_TLS_VERIFY" with
      | some url,none,none => some (.socket (String.ofList (url.toList.drop 7)))
      | some url,none,some verify => if hasPrefix url "tcp://" then (secured anyTools verify files).map (Daemon.tcp url) else none
      | _,_,_ => none }

theorem dockerDocumented : Documented dockerTools where
  unix := by
    intro dir sock files
    change some (Daemon.socket (String.ofList (("unix://" ++ sock).toList.drop 7))) = some (.socket sock)
    rw [String.toList_append]
    exact congrArg (fun s => some (Daemon.socket s)) String.ofList_toList
  tcp := by
    intro dir url verify files tcp
    change (if hasPrefix url "tcp://" then (secured anyTools verify files).map (Daemon.tcp url) else none) = _
    rw [if_pos tcp]
    rfl
  other := by
    intro dir url verify files u tls other
    change (if hasPrefix url "tcp://" then (secured anyTools verify files).map (Daemon.tcp url) else none) ≠ _
    rw [other]
    rintro ⟨⟩
  ssh := by
    intro dir files
    change none = _
    cases files.lookup ".ssh/config" <;> rfl
  configured := by
    intro host user port identity
    exact iff_of_false (by rintro ⟨⟩) (by rintro ⟨⟨⟩,_⟩)
  missing := fun _ _ _ _ _ => rfl

def freeDisk : Disk := ⟨.ok "/tmp/cws-compose-shop-1",fun _ => none⟩

def securedEnvironment : DockerEnvironment :=
  { id := 1, name := "remote", connType := dockerConnTLS, hostURL := "tcp://docker:2376", tcpHost := "docker", tcpPort := 2376, tlsCACert := "ca" }

end ContainerWS.Docker.Clients
