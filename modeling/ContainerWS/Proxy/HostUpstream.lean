import ContainerWS.Proxy.HostRows
import Mathlib.Logic.Function.Iterate

/-! What the upstream of a proxy host becomes when its row is normalized again: on the way into the table, and
when only its target is changed. -/
namespace ContainerWS.Proxy.Rows
open GoStrings Decimals

variable (m : LowerMap) (parse : String → Option ParsedURL)

/- The upstream that the fields stand for. -/
def ProxyHost.encoded (h : ProxyHost) : String × String × Int × String := (h.forwardScheme,h.forwardHost,h.forwardPort,h.upstreamTarget)

/- Normalize is done once, whatever calls it again. -/
def Stable (h : ProxyHost) : Prop :=
  Normalize m parse (Normalize m parse h) = Normalize m parse h ∧
  ∀ n, ((Normalize m parse)^[n] (Normalize m parse h)).encoded = (Normalize m parse h).encoded

/- UpdateAPI: the body is applied, and the row is normalized once more when it is saved. -/
def updated (row : ProxyHost) (body : HostBody) : Except BodyError ProxyHost :=
  match applyHostBody m parse row body false with
  | .error e => .error e
  | .ok row => .ok (Normalize m parse row)

def Reflected (row : ProxyHost) (body : HostBody) : Prop :=
  ∀ stored, updated m parse row body = .ok stored → stored.upstreamTarget = trimSpace body.upstreamTarget

/- The forward fields, of the row itself or of its target. -/
def forwardParts (h : ProxyHost) : String × String × Int :=
  let c := cleaned m h
  if c.forwardHost ≠ "" then (c.forwardScheme,c.forwardHost,c.forwardPort)
  else (forwardOf m parse h.upstreamTarget).getD (c.forwardScheme,"",c.forwardPort)

/- A target that the forward fields which come of it write in the same way; or that names no host, also when
it is read once more. -/
def Rewritten (target scheme host : String) (port : Int) : Prop :=
  if trimSpace host ≠ "" then trimSpace host = host ∧ 0 < port ∧ target = targetOf scheme host port
  else
    match (if target = "" then none else forwardOf m parse target) with
    | none => host = "" ∧ 0 < port
    | some again => again = (scheme,host,port)

/- No URL in the target, a forward host beside it, or a target that is rewritten as it is. -/
def Rebuilt (h : ProxyHost) : Prop :=
  let c := cleaned m h
  let f := forwardParts m parse h
  c.upstreamType = upstreamAppPath ∨ c.forwardHost ≠ "" ∨ h.upstreamTarget = "" ∨
    Rewritten m parse (trimSpace h.upstreamTarget) f.1 f.2.1 f.2.2

/- The target is no URL, or names no host beside a row without one, or is what the forward fields write. -/
def Told (h : ProxyHost) : Prop :=
  let c := cleaned m h
  let f := forwardParts m parse h
  c.upstreamType = upstreamAppPath ∨ trimSpace f.2.1 = "" ∨
    trimSpace h.upstreamTarget = targetOf f.1 (trimSpace f.2.1) (portOr f.1 f.2.2)

theorem lowerSelf {s : String} (small : s.toList.all (fun c => c.toNat < 128)) (low : ascii.toLower s = s) : m.toLower s = s :=
  (toLowerAscii m (fun c member => of_decide_eq_true (List.all_eq_true.mp small c member))).trans low

theorem listenTwice (s : String) : normalizedListen m (normalizedListen m s) = normalizedListen m s := by
  have same : ∀ scheme, scheme = proxySchemeHTTP ∨ scheme = proxySchemeHTTPS ∨ scheme = proxySchemeBoth →
      normalizedListen m scheme = scheme := by
    intro scheme known
    have stays : m.toLower (trimSpace scheme) = scheme := by
      rcases known with rfl | rfl | rfl
      · exact lowerSelf m (by decide) (by decide)
      · exact lowerSelf m (by decide) (by decide)
      · exact lowerSelf m (by decide) (by decide)
    unfold normalizedListen
    rw [stays]
    exact if_pos known
  refine same _ ?_
  unfold normalizedListen
  dsimp only
  split
  · assumption
  · exact .inl rfl

theorem forwardKnown (s : String) : normalizedForward m s = proxySchemeHTTPS ∨ normalizedForward m s = proxySchemeHTTP := by
  unfold normalizedForward
  split
  · exact .inl rfl
  · exact .inr rfl

theorem forwardStays {s : String} (known : s = proxySchemeHTTPS ∨ s = proxySchemeHTTP) : normalizedForward m s = s := by
  unfold normalizedForward
  rcases known with rfl | rfl
  · exact if_pos (lowerSelf m (by decide) (by decide))
  · refine if_neg ?_
    rw [show m.toLower (trimSpace proxySchemeHTTP) = proxySchemeHTTP from lowerSelf m (by decide) (by decide)]
    decide

theorem typeKnown (s : String) : normalizedType m.toCaseMap s = upstreamAppPath ∨ normalizedType m.toCaseMap s = upstreamURL := by
  unfold normalizedType
  split
  · exact .inl rfl
  · exact .inr rfl

theorem typeStays {s : String} (known : s = upstreamAppPath ∨ s = upstreamURL) : normalizedType m.toCaseMap s = s := by
  unfold normalizedType
  rcases known with rfl | rfl
  · exact if_pos (lowerSelf m (by decide) (by decide))
  · refine if_neg ?_
    rw [show m.toLower (trimSpace upstreamURL) = upstreamURL from lowerSelf m (by decide) (by decide)]
    decide

theorem forwardOfKnown {target scheme host : String} {port : Int} (found : forwardOf m parse target = some (scheme,host,port)) :
    scheme = proxySchemeHTTPS ∨ scheme = proxySchemeHTTP := by
  unfold forwardOf at found
  split at found
  · cases found
  · split at found
    · cases found
    · cases found
      split
      · exact .inl rfl
      · exact .inr rfl

theorem defaultPos (scheme : String) : 0 < defaultPort scheme := by
  unfold defaultPort
  split <;> omega

theorem portPos (scheme : String) (port : Int) : 0 < portOr scheme port := by
  unfold portOr
  split
  · exact defaultPos scheme
  · omega

theorem portStays {scheme : String} {port : Int} : portOr scheme port = port ↔ 0 < port := by
  have positive := defaultPos scheme
  unfold portOr
  split <;> omega

/- The rewritten target has no blank at its ends. -/
theorem targetTrimmed {scheme host : String} {port : Int} (known : scheme = proxySchemeHTTPS ∨ scheme = proxySchemeHTTP) :
    trimSpace (targetOf scheme host port) = targetOf scheme host port := by
  refine trimSpaceEnds ⟨?_,?_⟩
  · intro c here
    rcases known with rfl | rfl
    · rw [targetOf,proxySchemeHTTPS] at here
      simp only [String.toList_append,List.append_assoc] at here
      cases here
      decide
    · rw [targetOf,proxySchemeHTTP] at here
      simp only [String.toList_append,List.append_assoc] at here
      cases here
      decide
  · intro c here
    obtain ⟨some,digit⟩ := itoaDigits port
    have filled : (Itoa port).toList ≠ [] := fun none => some (String.toList_eq_nil_iff.mp none)
    rw [targetOf,String.toList_append,List.getLast?_append_of_ne_nil _ filled] at here
    rcases digit c (List.mem_of_getLast? here) with number | rfl
    · have bounds : 48 ≤ c.toNat ∧ c.toNat ≤ 57 := by
        simp only [Char.isDigit,Bool.and_eq_true,decide_eq_true_eq,ge_iff_le,UInt32.le_iff_toNat_le] at number
        exact number
      unfold isSpace
      simp only [Bool.or_eq_false_iff,Bool.and_eq_false_iff,decide_eq_false_iff_not,beq_eq_false_iff_ne]
      omega
    · decide

/- What every normalized row has. -/
structure Clean (h : ProxyHost) : Prop where
  name : trimSpace h.name = h.name
  domains : trimSpace h.domains = h.domains
  kind : normalizedType m.toCaseMap h.upstreamType = h.upstreamType
  listen : normalizedListen m h.listenScheme = h.listenScheme
  scheme : h.forwardScheme = proxySchemeHTTPS ∨ h.forwardScheme = proxySchemeHTTP
  target : trimSpace h.upstreamTarget = h.upstreamTarget
  headers : some (h.customHeaders.getD []) = h.customHeaders

/- Only the upstream is settled. -/
theorem settleFrame {h : ProxyHost} (known : h.forwardScheme = proxySchemeHTTPS ∨ h.forwardScheme = proxySchemeHTTP) :
    ∃ scheme host port target, (scheme = proxySchemeHTTPS ∨ scheme = proxySchemeHTTP) ∧
      settleUpstream m parse h =
        {h with forwardScheme := scheme, forwardHost := host, forwardPort := port, upstreamTarget := target} := by
  unfold settleUpstream
  split
  · split
    · exact ⟨_,_,_,_,known,rfl⟩
    · split
      · unfold syncForwardFromUpstream
        split
        · exact ⟨_,_,_,_,known,rfl⟩
        · rename_i found
          exact ⟨_,_,_,_,forwardOfKnown m parse found,rfl⟩
      · exact ⟨_,_,_,_,known,rfl⟩
  · exact ⟨_,_,_,_,known,rfl⟩

theorem cleanedScheme (h : ProxyHost) :
    (cleaned m h).forwardScheme = proxySchemeHTTPS ∨ (cleaned m h).forwardScheme = proxySchemeHTTP := by
  simp only [cleaned]
  exact forwardKnown m h.forwardScheme

theorem normalizedClean (h : ProxyHost) : Clean m (Normalize m parse h) := by
  obtain ⟨scheme,host,port,target,known,settled⟩ := settleFrame m parse (cleanedScheme m h)
  unfold Normalize
  rw [settled]
  simp only [cleaned]
  constructor <;> dsimp only
  · exact trimSpaceTwice h.name
  · exact trimSpaceTwice h.domains
  · exact typeStays m (typeKnown m h.upstreamType)
  · exact listenTwice m h.listenScheme
  · exact known
  · exact trimSpaceTwice target
  · rfl

/- All that a second cleaning can change. -/
theorem cleanedAgain {y : ProxyHost} (clean : Clean m y) :
    cleaned m y = {y with forwardHost := trimSpace y.forwardHost, forwardPort := portOr y.forwardScheme y.forwardPort} := by
  unfold cleaned
  dsimp only
  rw [clean.name,clean.domains,clean.kind,clean.listen,forwardStays m clean.scheme]

theorem normalizedAgain {y : ProxyHost} (clean : Clean m y) (url : y.upstreamType = upstreamURL) :
    Normalize m parse y =
      if trimSpace y.forwardHost ≠ "" then
        {y with
          forwardHost := trimSpace y.forwardHost
          forwardPort := portOr y.forwardScheme y.forwardPort
          upstreamTarget := targetOf y.forwardScheme (trimSpace y.forwardHost) (portOr y.forwardScheme y.forwardPort)}
      else
        match (if y.upstreamTarget = "" then none else forwardOf m parse y.upstreamTarget) with
        | none => {y with forwardHost := "", forwardPort := portOr y.forwardScheme y.forwardPort}
        | some again => {y with forwardScheme := again.1, forwardHost := again.2.1, forwardPort := again.2.2} := by
  obtain ⟨headers,given⟩ : ∃ headers, y.customHeaders = some headers := ⟨_,clean.headers.symm⟩
  unfold Normalize
  rw [cleanedAgain m clean]
  by_cases filled : trimSpace y.forwardHost = ""
  · by_cases empty : y.upstreamTarget = ""
    · simp [settleUpstream,url,filled,empty,given,(by decide : trimSpace "" = "")]
    · cases found : forwardOf m parse y.upstreamTarget with
      | none => simp [settleUpstream,syncForwardFromUpstream,url,filled,empty,found,given,clean.target]
      | some again => simp [settleUpstream,syncForwardFromUpstream,url,filled,empty,found,given,clean.target]
  · simp [settleUpstream,url,filled,given,targetTrimmed clean.scheme]

/- A URL row is settled when what it writes is what it reads. -/
theorem fixedIff {y : ProxyHost} (clean : Clean m y) (url : y.upstreamType = upstreamURL) :
    Normalize m parse y = y ↔ Rewritten m parse y.upstreamTarget y.forwardScheme y.forwardHost y.forwardPort := by
  rw [normalizedAgain m parse clean url]
  unfold Rewritten
  split
  · constructor
    · intro same
      have host : trimSpace y.forwardHost = y.forwardHost := congrArg ProxyHost.forwardHost same
      have port : portOr y.forwardScheme y.forwardPort = y.forwardPort := congrArg ProxyHost.forwardPort same
      have target := congrArg ProxyHost.upstreamTarget same
      rw [host,port] at target
      exact ⟨host,portStays.mp port,target.symm⟩
    · rintro ⟨host,port,target⟩
      rw [host,portStays.mpr port,← target]
  · cases (if y.upstreamTarget = "" then none else forwardOf m parse y.upstreamTarget) with
    | none =>
      constructor
      · intro same
        exact ⟨(congrArg ProxyHost.forwardHost same).symm,portStays.mp (congrArg ProxyHost.forwardPort same)⟩
      · rintro ⟨host,port⟩
        dsimp only
        rw [portStays.mpr port,← host]
    | some again =>
      constructor
      · intro same
        exact Prod.ext (congrArg ProxyHost.forwardScheme same)
          (Prod.ext (congrArg ProxyHost.forwardHost same) (congrArg ProxyHost.forwardPort same))
      · rintro rfl
        rfl

theorem appAgain {y : ProxyHost} (clean : Clean m y) (path : y.upstreamType ≠ upstreamURL) :
    Normalize m parse y =
      {y with forwardHost := trimSpace y.forwardHost, forwardPort := portOr y.forwardScheme y.forwardPort} := by
  obtain ⟨headers,given⟩ : ∃ headers, y.customHeaders = some headers := ⟨_,clean.headers.symm⟩
  unfold Normalize
  rw [cleanedAgain m clean]
  simp [settleUpstream,path,given,clean.target]

/- A row whose fields are taken as they are. -/
theorem normalizedKept {h : ProxyHost} (kept : (cleaned m h).upstreamType ≠ upstreamURL ∨
      (cleaned m h).forwardHost = "" ∧ h.upstreamTarget = "") :
    Normalize m parse h =
      {cleaned m h with upstreamTarget := trimSpace h.upstreamTarget, customHeaders := some (h.customHeaders.getD [])} := by
  have settled : settleUpstream m parse (cleaned m h) = cleaned m h := by
    unfold settleUpstream
    rcases kept with path | ⟨blank,empty⟩
    · exact if_neg path
    · have none : (cleaned m h).upstreamTarget = "" := empty
      rw [if_neg (not_not.mpr blank),if_neg (not_not.mpr none)]
      exact ite_self _
  unfold Normalize
  rw [settled]
  rfl

theorem normalizedHost {h : ProxyHost} (url : (cleaned m h).upstreamType = upstreamURL) (filled : (cleaned m h).forwardHost ≠ "") :
    Normalize m parse h =
      {cleaned m h with
        upstreamTarget := targetOf (cleaned m h).forwardScheme (cleaned m h).forwardHost (cleaned m h).forwardPort
        customHeaders := some (h.customHeaders.getD [])} := by
  unfold Normalize settleUpstream
  rw [if_pos url,if_pos filled]
  dsimp only
  rw [targetTrimmed (cleanedScheme m h)]
  rfl

theorem normalizedRead {h : ProxyHost} (url : (cleaned m h).upstreamType = upstreamURL) (blank : (cleaned m h).forwardHost = "")
    (filled : h.upstreamTarget ≠ "") :
    Normalize m parse h =
      {cleaned m h with
        forwardScheme := (forwardParts m parse h).1
        forwardHost := (forwardParts m parse h).2.1
        forwardPort := (forwardParts m parse h).2.2
        upstreamTarget := trimSpace h.upstreamTarget
        customHeaders := some (h.customHeaders.getD [])} := by
  have target : (cleaned m h).upstreamTarget = h.upstreamTarget := rfl
  have headers : (cleaned m h).customHeaders = h.customHeaders := rfl
  unfold Normalize forwardParts
  rw [← target] at filled
  rw [← target,← headers]
  clear target headers
  generalize cleaned m h = c at *
  have settled : settleUpstream m parse c = syncForwardFromUpstream m parse c := by
    unfold settleUpstream
    rw [if_pos url,if_neg (not_not.mpr blank),if_pos filled]
  rw [settled]
  dsimp only
  rw [if_neg (not_not.mpr blank)]
  unfold syncForwardFromUpstream
  cases forwardOf m parse c.upstreamTarget with
  | none => simp only [Option.getD_none,← blank]
  | some f => simp only [Option.getD_some]

theorem keptAgain {y : ProxyHost} (clean : Clean m y) (host : trimSpace y.forwardHost = y.forwardHost) (port : 0 < y.forwardPort)
    (kept : y.upstreamType ≠ upstreamURL ∨ Rewritten m parse y.upstreamTarget y.forwardScheme y.forwardHost y.forwardPort) :
    Normalize m parse y = y := by
  by_cases url : y.upstreamType = upstreamURL
  · exact (fixedIff m parse clean url).mpr (kept.resolve_left (not_not.mpr url))
  · rw [appAgain m parse clean url,host,portStays.mpr port]

theorem stableIff {h : ProxyHost} : Stable m parse h ↔ Normalize m parse (Normalize m parse h) = Normalize m parse h := by
  refine ⟨And.left,fun same => ⟨same,?_⟩⟩
  intro n
  rw [Function.iterate_fixed same n]

theorem cleanedHost (h : ProxyHost) : trimSpace (cleaned m h).forwardHost = (cleaned m h).forwardHost := by
  simp only [cleaned,trimSpaceTwice]

theorem cleanedPort (h : ProxyHost) : 0 < (cleaned m h).forwardPort := by
  simp only [cleaned,portPos]

theorem cleanedKind (h : ProxyHost) : (cleaned m h).upstreamType = upstreamAppPath ∨ (cleaned m h).upstreamType = upstreamURL := by
  simp only [cleaned]
  exact typeKnown m h.upstreamType

theorem kindsDiffer : upstreamAppPath ≠ upstreamURL := by decide

theorem rebuiltStable (h : ProxyHost) : Stable m parse h ↔ Rebuilt m parse h := by
  rw [stableIff]
  have clean := normalizedClean m parse h
  have host := cleanedHost m h
  have port := cleanedPort m h
  have kind := cleanedKind m h
  have kept := @normalizedKept m parse h
  have written := @normalizedHost m parse h
  have read := @normalizedRead m parse h
  unfold Rebuilt
  dsimp only
  generalize forwardParts m parse h = f at *
  generalize cleaned m h = c at *
  rcases kind with path | url
  · refine iff_of_true ?_ (.inl path)
    have other : c.upstreamType ≠ upstreamURL := fun url => kindsDiffer (path.symm.trans url)
    rw [kept (.inl other)] at clean ⊢
    exact keptAgain m parse clean host port (.inl other)
  by_cases filled : c.forwardHost = ""
  · by_cases empty : h.upstreamTarget = ""
    · refine iff_of_true ?_ (.inr (.inr (.inl empty)))
      rw [kept (.inr ⟨filled,empty⟩)] at clean ⊢
      refine keptAgain m parse clean host port (.inr ?_)
      unfold Rewritten
      dsimp only
      rw [empty,if_neg (not_not.mpr (host.trans filled)),if_pos (by decide)]
      exact ⟨filled,port⟩
    · rw [read url filled empty] at clean ⊢
      refine (fixedIff m parse clean url).trans ⟨fun again => .inr (.inr (.inr again)),?_⟩
      rintro (path | given | none | again)
      · exact absurd (path.symm.trans url) kindsDiffer
      · exact absurd filled given
      · exact absurd none empty
      · exact again
  · refine iff_of_true ?_ (.inr (.inl filled))
    rw [written url filled] at clean ⊢
    refine keptAgain m parse clean host port (.inr ?_)
    unfold Rewritten
    dsimp only
    rw [if_pos (by rwa [host])]
    exact ⟨host,port,rfl⟩

/- What is stored for a body that gives a target. -/
theorem storedTarget {row : ProxyHost} {body : HostBody} (y : ProxyHost) (named : Normalize m parse (bodyFilled row body false) = y) :
    Reflected m parse row body ↔
      (¬ (y.upstreamType = upstreamURL ∧ trimSpace y.upstreamTarget = "" ∧ trimSpace y.forwardHost = "") →
        (Normalize m parse y).upstreamTarget = trimSpace body.upstreamTarget) := by
  unfold Reflected updated applyHostBody
  rw [if_neg (by rintro ⟨no,_⟩; cases no)]
  dsimp only
  rw [named]
  clear named
  by_cases none : y.upstreamType = upstreamURL ∧ trimSpace y.upstreamTarget = "" ∧ trimSpace y.forwardHost = ""
  · rw [if_pos none]
    refine ⟨fun _ other => absurd none other,?_⟩
    intro _ stored done
    cases done
  · rw [if_neg none]
    constructor
    · exact fun told _ => told _ rfl
    · intro told stored done
      rw [← Except.ok.inj done]
      exact told none

theorem toldReflected {row : ProxyHost} {body : HostBody} (sent : body.upstreamTarget ≠ "") :
    Reflected m parse row body ↔ Told m parse (bodyFilled row body false) := by
  have target : (bodyFilled row body false).upstreamTarget = body.upstreamTarget := if_pos sent
  rw [storedTarget m parse _ rfl]
  rw [← target] at sent ⊢
  clear target
  generalize bodyFilled row body false = h at *
  have clean := normalizedClean m parse h
  have host := cleanedHost m h
  have port := cleanedPort m h
  have kind := cleanedKind m h
  have kept := @normalizedKept m parse h
  have written := @normalizedHost m parse h
  have read := @normalizedRead m parse h
  have parts : (cleaned m h).forwardHost ≠ "" →
      forwardParts m parse h = ((cleaned m h).forwardScheme,(cleaned m h).forwardHost,(cleaned m h).forwardPort) := by
    intro filled
    unfold forwardParts
    exact if_pos filled
  unfold Told
  dsimp only
  generalize forwardParts m parse h = f at *
  generalize cleaned m h = c at *
  rcases kind with path | url
  · refine iff_of_true ?_ (.inl path)
    have other : c.upstreamType ≠ upstreamURL := fun url => kindsDiffer (path.symm.trans url)
    rw [kept (.inl other)] at clean ⊢
    rw [keptAgain m parse clean host port (.inl other)]
    exact fun _ => rfl
  have notPath : c.upstreamType ≠ upstreamAppPath := fun path => kindsDiffer (path.symm.trans url)
  by_cases filled : c.forwardHost = ""
  · rw [read url filled sent] at clean ⊢
    have again := normalizedAgain m parse clean url
    dsimp only at again ⊢
    by_cases blank : trimSpace f.2.1 = ""
    · refine iff_of_true ?_ (.inr (.inl blank))
      intro _
      rw [again,if_neg (not_not.mpr blank)]
      split <;> rfl
    · rw [again,if_pos blank]
      dsimp only
      constructor
      · intro told
        exact .inr (.inr (told (by rintro ⟨_,_,none⟩; exact blank none)).symm)
      · rintro (path | none | same) _
        · exact absurd path notPath
        · exact absurd none blank
        · exact same.symm
  · rw [written url filled] at clean ⊢
    have again := normalizedAgain m parse clean url
    dsimp only at again ⊢
    rw [again,if_pos (by rwa [host]),parts filled]
    dsimp only
    rw [host]
    constructor
    · intro told
      exact .inr (.inr (told (by rintro ⟨_,_,none⟩; exact filled none)).symm)
    · rintro (path | none | same) _
      · exact absurd path notPath
      · exact absurd none filled
      · exact same.symm

/- The row is settled, and a new target is stored, exactly when the target is written as it was read. -/
theorem upstreamIff {row : ProxyHost} {body : HostBody} (sent : body.upstreamTarget ≠ "") (h : ProxyHost) :
    (Stable m parse h ↔ Rebuilt m parse h) ∧ (Reflected m parse row body ↔ Told m parse (bodyFilled row body false)) :=
  ⟨rebuiltStable m parse h,toldReflected m parse sent⟩

/- `url.Parse` on two targets. -/
def parseApp (target : String) : Option ParsedURL :=
  if target = "http://app:3000" ∨ target = "http://app:3000/api" then some ⟨"http","app:3000","app","3000"⟩
  else if target = "http://new:80" then some ⟨"http","new:80","new","80"⟩
  else none

theorem upstreamIffApp :
    (Stable asciiLower parseApp {upstreamTarget := "http://app:3000"} ↔ Rebuilt asciiLower parseApp {upstreamTarget := "http://app:3000"}) ∧
      (Reflected asciiLower parseApp {forwardHost := "app"} {upstreamTarget := "http://new:80"} ↔
        Told asciiLower parseApp (bodyFilled {forwardHost := "app"} {upstreamTarget := "http://new:80"} false)) :=
  upstreamIff asciiLower parseApp (by decide) _

/- The path is lost when the row is saved; and the host that is stored hides the target that is sent. -/
set_option maxRecDepth 4000 in
theorem targetPathLost :
    (¬ ∀ h, Stable asciiLower parseApp h) ∧
      ¬ ∀ row body, body.upstreamTarget ≠ "" → Reflected asciiLower parseApp row body := by
  constructor
  · intro all
    have same := (stableIff asciiLower parseApp).mp (all {upstreamTarget := "http://app:3000/api"})
    have target := congrArg ProxyHost.upstreamTarget same
    revert target
    decide
  · intro all
    have told := all {forwardHost := "app", upstreamTarget := "http://app:3000"} {upstreamTarget := "http://new:80"} (by decide)
    have stored := told (Normalize asciiLower parseApp (Normalize asciiLower parseApp {forwardHost := "app", upstreamTarget := "http://new:80"})) (by decide)
    revert stored
    decide

end ContainerWS.Proxy.Rows
