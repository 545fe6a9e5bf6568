import ContainerWS.SoftwarePkg.Paths

/-! packages/softwarepkg/fetch.go against a registry that does not change: what is under a URL is a
document, of which only matters how it decodes, or nothing, or the URL cannot be asked for. HEAD is
answered as GET is, so that the first method of `probeURL` decides. -/
namespace ContainerWS.SoftwarePkg
open GoPath GoStrings

/- The fields that are looked at. -/
structure PackageMeta where
  name : String
  image : String
  deriving DecidableEq, Repr

structure InstallSpec where
  version : String
  deriving DecidableEq, Repr

/- A document as a package.json and as an install.json. -/
structure Document where
  package : Option PackageMeta
  install : Option InstallSpec
  deriving DecidableEq, Repr

inductive Reply where
  | absent
  | document (d : Document)
  | refused
  deriving DecidableEq, Repr

abbrev Registry := String → Reply

structure FetchResult where
  info : PackageMeta
  install : InstallSpec
  installURL : String
  metaURL : String
  triedPaths : List String
  slug : String
  deriving DecidableEq, Repr

inductive FetchError where
  | nameRequired
  | package (path : String)
  | packageNotFound (tried : List String)
  | install (path : String)
  | version (path : String)
  | installNotFound (slug : String) (tried : List String)
  deriving DecidableEq, Repr

inductive JSONError where
  | notFound
  | failed
  deriving DecidableEq, Repr

structure Query where
  rawBase : String
  softwareName : String
  host : HostFacts
  deriving DecidableEq, Repr

/- Results of earlier probes; they never expire. -/
abbrev Cache := List (String × Bool)

def FetchJSON {α : Type} (r : Registry) (decode : Document → Option α) (url : String) : Except JSONError α :=
  match r url with
  | .absent => .error .notFound
  | .refused => .error .failed
  | .document d =>
    match decode d with
    | some a => .ok a
    | none => .error .failed

def AbsoluteImageURL (rawBase image : String) : String :=
  let image := trimSpace image
  if image = "" then ""
  else if hasPrefix image "data:" then image
  else if hasPrefix image "http://" || hasPrefix image "https://" then image
  else JoinRawURL rawBase (if hasPrefix image "/" then String.ofList (image.toList.drop 1) else image)

section
variable (m : CaseMap) (r : Registry) (q : Query)

def metaURL (slug : String) : String := JoinRawURL q.rawBase (PackageMetaPath m slug)

def installURL (rel : String) : String := JoinRawURL q.rawBase rel

/- The install.json of a slug whose package.json was found. -/
def fetchInstall (slug : String) (info : PackageMeta) (tried : List String) : List String → Except FetchError FetchResult
  | [] => .error (.installNotFound slug tried)
  | rel :: rest =>
    let tried := tried ++ [rel]
    match FetchJSON r Document.install (installURL q rel) with
    | .error .notFound => fetchInstall slug info tried rest
    | .error .failed => .error (.install rel)
    | .ok spec =>
      if trimSpace spec.version = "" then .error (.version rel)
      else .ok ⟨info,spec,installURL q rel,metaURL m q slug,tried,slug⟩

def fetchSlug (triedMeta : List String) : List String → Except FetchError FetchResult
  | [] => .error (.packageNotFound triedMeta)
  | slug :: rest =>
    let triedMeta := triedMeta ++ [PackageMetaPath m slug]
    match FetchJSON r Document.package (metaURL m q slug) with
    | .error .notFound => fetchSlug triedMeta rest
    | .error .failed => .error (.package (PackageMetaPath m slug))
    | .ok info =>
      let info : PackageMeta := ⟨if trimSpace info.name = "" then q.softwareName else info.name,AbsoluteImageURL q.rawBase info.image⟩
      fetchInstall m r q slug info triedMeta (ResolveInstallPaths m slug q.host)

def FetchForHost : Except FetchError FetchResult :=
  match CandidateSlugs m q.softwareName with
  | [] => .error .nameRequired
  | slug :: rest => fetchSlug m r q [] (slug :: rest)

def probeURL (url : String) : Except Unit Bool :=
  match r url with
  | .absent => .ok false
  | .document _ => .ok true
  | .refused => .error ()

/- Whether one of the paths is there; if none is, whether a probe has failed. -/
def probe (failed : Bool) : List String → Bool × Bool
  | [] => (false,failed)
  | rel :: rest =>
    match probeURL r (installURL q rel) with
    | .error _ => probe true rest
    | .ok true => (true,false)
    | .ok false => probe failed rest

def installPaths : List String := (CandidateSlugs m q.softwareName).flatMap (fun slug => ResolveInstallPaths m slug q.host)

/- By the first slug alone. -/
def cacheKey : Option String :=
  match CandidateSlugs m q.softwareName with
  | [] => none
  | name :: _ => some (trimRight '/' q.rawBase ++ "|" ++ name ++ "|" ++ sanitizeSegment m q.host.distroID ++ "|" ++
      sanitizeSegment m q.host.distroVersion ++ "|" ++ sanitizeSegment m (NormalizeArch m q.host.arch))

def HasInstallForHost (cache : Cache) : Except Unit Bool × Cache :=
  match cacheKey m q with
  | none => (.ok false,cache)
  | some key =>
    match cache.lookup key with
    | some ok => (.ok ok,cache)
    | none =>
      let (ok,failed) := probe r q false (installPaths m q)
      (if ok = false ∧ failed = true then .error () else .ok ok,(key,ok) :: cache)

end

/- The cache after these probes. -/
def probed (m : CaseMap) (r : Registry) (history : List Query) : Cache :=
  history.foldl (fun cache q => (HasInstallForHost m r q cache).2) []

section
variable (m : CaseMap) (r : Registry) (q : Query)

/- The two functions of one answer, after probes of the same registry. -/
def Agree (history : List Query) : Prop :=
  (HasInstallForHost m r q (probed m r history)).1 = .ok true ↔ ∃ res, FetchForHost m r q = .ok res

/- The first of them that there is something under the URL of. -/
def FirstThere {α : Type} (url : α → String) (l : List α) (a : α) : Prop :=
  ∃ before after, l = before ++ a :: after ∧ (∀ b ∈ before, r (url b) = .absent) ∧ r (url a) ≠ .absent

/- The first of the paths that is there can be read and names its version. -/
def Resolved (rels : List String) : Prop :=
  ∃ rel d spec, FirstThere r (installURL q) rels rel ∧ r (installURL q rel) = .document d ∧ d.install = some spec ∧
    trimSpace spec.version ≠ ""

/- The first of the slugs with a package.json has one that can be read, and one of its paths is
the install.json. -/
def UsableAmong (slugs : List String) : Prop :=
  ∃ slug d info, FirstThere r (metaURL m q) slugs slug ∧ r (metaURL m q slug) = .document d ∧ d.package = some info ∧
    Resolved r q (ResolveInstallPaths m slug q.host)

def Usable : Prop := UsableAmong m r q (CandidateSlugs m q.softwareName)

/- Some slug has an install.json for the host. -/
def Offers : Prop := ∃ rel ∈ installPaths m q, ∃ d, r (installURL q rel) = .document d

/- The probe that the answer is taken from: the first one under the same key. -/
def probeOf (history : List Query) : Query := ((history ++ [q]).find? (fun p => cacheKey m p = cacheKey m q)).getD q

end

section
variable {m : CaseMap} {r : Registry} {q : Query}

theorem firstNone {α : Type} {url : α → String} {a : α} : ¬FirstThere r url [] a := by
  rintro ⟨before,after,parts,_⟩
  cases before <;> cases parts

theorem firstCons {α : Type} {url : α → String} {b : α} {l : List α} {a : α} :
    FirstThere r url (b :: l) a ↔ b = a ∧ r (url b) ≠ .absent ∨ r (url b) = .absent ∧ FirstThere r url l a := by
  constructor
  · rintro ⟨before,after,parts,absent,there⟩
    cases before with
    | nil =>
      cases parts
      exact .inl ⟨rfl,there⟩
    | cons c before =>
      cases parts
      exact .inr ⟨absent _ List.mem_cons_self,before,after,rfl,fun x mem => absent x (List.mem_cons_of_mem _ mem),there⟩
  · rintro (⟨rfl,there⟩ | ⟨gone,before,after,rfl,absent,there⟩)
    · exact ⟨[],l,rfl,nofun,there⟩
    · refine ⟨b :: before,after,rfl,fun x mem => ?_,there⟩
      rcases List.mem_cons.mp mem with rfl | later
      · exact gone
      · exact absent x later

theorem resolvedCons {rel : String} {rels : List String} : Resolved r q (rel :: rels) ↔
    (∃ d spec, r (installURL q rel) = .document d ∧ d.install = some spec ∧ trimSpace spec.version ≠ "") ∨
      r (installURL q rel) = .absent ∧ Resolved r q rels := by
  unfold Resolved
  constructor
  · rintro ⟨found,d,spec,first,here,read,named⟩
    rcases firstCons.mp first with ⟨rfl,_⟩ | ⟨gone,later⟩
    · exact .inl ⟨d,spec,here,read,named⟩
    · exact .inr ⟨gone,found,d,spec,later,here,read,named⟩
  · rintro (⟨d,spec,here,read,named⟩ | ⟨gone,found,d,spec,later,here,read,named⟩)
    · exact ⟨rel,d,spec,firstCons.mpr (.inl ⟨rfl,by simp [here]⟩),here,read,named⟩
    · exact ⟨found,d,spec,firstCons.mpr (.inr ⟨gone,later⟩),here,read,named⟩

theorem usableCons {slug : String} {slugs : List String} : UsableAmong m r q (slug :: slugs) ↔
    (∃ d info, r (metaURL m q slug) = .document d ∧ d.package = some info ∧ Resolved r q (ResolveInstallPaths m slug q.host)) ∨
      r (metaURL m q slug) = .absent ∧ UsableAmong m r q slugs := by
  unfold UsableAmong
  constructor
  · rintro ⟨found,d,info,first,here,read,resolved⟩
    rcases firstCons.mp first with ⟨rfl,_⟩ | ⟨gone,later⟩
    · exact .inl ⟨d,info,here,read,resolved⟩
    · exact .inr ⟨gone,found,d,info,later,here,read,resolved⟩
  · rintro (⟨d,info,here,read,resolved⟩ | ⟨gone,found,d,info,later,here,read,resolved⟩)
    · exact ⟨slug,d,info,firstCons.mpr (.inl ⟨rfl,by simp [here]⟩),here,read,resolved⟩
    · exact ⟨found,d,info,firstCons.mpr (.inr ⟨gone,later⟩),here,read,resolved⟩

theorem fetchInstallOk {slug : String} {info : PackageMeta} {tried rels : List String} :
    (∃ res, fetchInstall m r q slug info tried rels = .ok res) ↔ Resolved r q rels := by
  induction rels generalizing tried with
  | nil => exact iff_of_false (fun ⟨_,lost⟩ => nomatch lost) (fun ⟨_,_,_,first,_⟩ => firstNone first)
  | cons rel rels ih =>
    rw [resolvedCons]
    simp only [fetchInstall,FetchJSON]
    cases here : r (installURL q rel) with
    | absent =>
      dsimp only
      rw [ih]
      exact ⟨fun later => .inr ⟨rfl,later⟩,fun found => found.elim (fun ⟨_,_,there,_⟩ => nomatch there) And.right⟩
    | refused =>
      exact iff_of_false (fun ⟨_,failed⟩ => nomatch failed)
        (fun found => found.elim (fun ⟨_,_,there,_⟩ => nomatch there) (fun gone => nomatch gone.1))
    | document d =>
      dsimp only
      cases read : d.install with
      | none =>
        refine iff_of_false (fun ⟨_,failed⟩ => nomatch failed) ?_
        rintro (⟨_,spec,there,decoded,_⟩ | ⟨gone,_⟩)
        · cases there
          rw [read] at decoded
          cases decoded
        · cases gone
      | some spec =>
        dsimp only
        split
        · rename_i blank
          refine iff_of_false (fun ⟨_,failed⟩ => nomatch failed) ?_
          rintro (⟨_,other,there,decoded,named⟩ | ⟨gone,_⟩)
          · cases there
            rw [read] at decoded
            cases decoded
            exact named blank
          · cases gone
        · rename_i named
          exact iff_of_true ⟨_,rfl⟩ (.inl ⟨d,spec,rfl,read,named⟩)

theorem fetchSlugOk {tried slugs : List String} : (∃ res, fetchSlug m r q tried slugs = .ok res) ↔ UsableAmong m r q slugs := by
  induction slugs generalizing tried with
  | nil => exact iff_of_false (fun ⟨_,lost⟩ => nomatch lost) (fun ⟨_,_,_,first,_⟩ => firstNone first)
  | cons slug slugs ih =>
    rw [usableCons]
    simp only [fetchSlug,FetchJSON]
    cases here : r (metaURL m q slug) with
    | absent =>
      dsimp only
      rw [ih]
      exact ⟨fun later => .inr ⟨rfl,later⟩,fun found => found.elim (fun ⟨_,_,there,_⟩ => nomatch there) And.right⟩
    | refused =>
      exact iff_of_false (fun ⟨_,failed⟩ => nomatch failed)
        (fun found => found.elim (fun ⟨_,_,there,_⟩ => nomatch there) (fun gone => nomatch gone.1))
    | document d =>
      dsimp only
      cases read : d.package with
      | none =>
        refine iff_of_false (fun ⟨_,failed⟩ => nomatch failed) ?_
        rintro (⟨_,info,there,decoded,_⟩ | ⟨gone,_⟩)
        · cases there
          rw [read] at decoded
          cases decoded
        · cases gone
      | some info =>
        dsimp only
        rw [fetchInstallOk]
        refine ⟨fun resolved => .inl ⟨d,info,rfl,read,resolved⟩,?_⟩
        rintro (⟨_,_,_,_,resolved⟩ | ⟨gone,_⟩)
        · exact resolved
        · cases gone

theorem fetchOk : (∃ res, FetchForHost m r q = .ok res) ↔ Usable m r q := by
  unfold FetchForHost Usable
  cases CandidateSlugs m q.softwareName with
  | nil => exact iff_of_false (fun ⟨_,lost⟩ => nomatch lost) (fun ⟨_,_,_,first,_⟩ => firstNone first)
  | cons slug rest => exact fetchSlugOk

theorem probeFound {failed : Bool} {rels : List String} :
    (probe r q failed rels).1 = true ↔ ∃ rel ∈ rels, ∃ d, r (installURL q rel) = .document d := by
  induction rels generalizing failed with
  | nil => exact iff_of_false nofun (fun ⟨_,mem,_⟩ => nomatch mem)
  | cons rel rels ih =>
    simp only [probe,probeURL,List.mem_cons,exists_eq_or_imp]
    cases here : r (installURL q rel) with
    | absent =>
      dsimp only
      rw [ih]
      exact ⟨.inr,fun found => found.elim (fun ⟨_,there⟩ => nomatch there) id⟩
    | refused =>
      dsimp only
      rw [ih]
      exact ⟨.inr,fun found => found.elim (fun ⟨_,there⟩ => nomatch there) id⟩
    | document d => exact iff_of_true rfl (.inl ⟨d,rfl⟩)

/- What the probe of a query finds. -/
def found (m : CaseMap) (r : Registry) (q : Query) : Bool := (probe r q false (installPaths m q)).1

theorem foundOffers : found m r q = true ↔ Offers m r q := probeFound

/- The first probe under a key leaves what later ones are answered with. -/
theorem probedLookup {history : List Query} {key : String} :
    (probed m r history).lookup key = (history.find? (fun p => cacheKey m p = some key)).map (found m r) := by
  induction history using List.reverseRecOn with
  | nil => rfl
  | append_singleton history q ih =>
    have step : probed m r (history ++ [q]) = (HasInstallForHost m r q (probed m r history)).2 := by
      unfold probed
      rw [List.foldl_append]
      rfl
    rw [step,List.find?_append]
    unfold HasInstallForHost
    cases own : cacheKey m q with
    | none =>
      dsimp only
      rw [ih,List.find?_singleton,if_neg (by simp [own]),Option.or_none]
    | some k =>
      dsimp only
      cases before : (probed m r history).lookup k with
      | some ok =>
        dsimp only
        rw [ih]
        by_cases same : k = key
        · subst same
          rw [before] at ih
          cases earlier : history.find? (fun p => cacheKey m p = some k) with
          | none =>
            rw [earlier] at ih
            cases ih
          | some p => rfl
        · rw [List.find?_singleton,if_neg (by simp [own,same]),Option.or_none]
      | none =>
        dsimp only
        rw [List.lookup_cons]
        by_cases same : key = k
        · subst same
          rw [before] at ih
          have free := Option.map_eq_none_iff.mp ih.symm
          rw [free,List.find?_singleton,if_pos (by simp [own])]
          simp [found]
        · rw [beq_eq_false_iff_ne.mpr same]
          dsimp only
          rw [ih,List.find?_singleton,if_neg (by simp [own,Ne.symm same]),Option.or_none]

theorem hasInstall {history : List Query} :
    (HasInstallForHost m r q (probed m r history)).1 = .ok true ↔ Offers m r (probeOf m q history) := by
  unfold HasInstallForHost probeOf
  rw [List.find?_append,List.find?_singleton,if_pos (by simp)]
  cases own : cacheKey m q with
  | none =>
    have noSlugs : ∀ p : Query, cacheKey m p = none → ¬Offers m r p := by
      rintro p none ⟨rel,mem,_⟩
      unfold cacheKey at none
      unfold installPaths at mem
      cases slugs : CandidateSlugs m p.softwareName with
      | nil =>
        rw [slugs] at mem
        cases mem
      | cons name rest =>
        rw [slugs] at none
        cases none
    refine iff_of_false nofun (noSlugs _ ?_)
    cases earlier : history.find? (fun p => cacheKey m p = none) with
    | none => exact own
    | some p => simpa using List.find?_some earlier
  | some key =>
    dsimp only
    rw [probedLookup]
    cases earlier : history.find? (fun p => cacheKey m p = some key) with
    | some p =>
      simp only [Option.map_some,Option.or_some,Option.getD_some]
      rw [← foundOffers]
      exact ⟨Except.ok.inj,congrArg _⟩
    | none =>
      simp only [Option.map_none,Option.none_or,Option.getD_some]
      rw [← foundOffers]
      unfold found
      obtain ⟨ok,failed⟩ := probe r q false (installPaths m q)
      cases ok <;> cases failed <;> simp

end

/- The answer is that of the fetch where both find an install.json, or neither. -/
theorem probeAgrees {m : CaseMap} {r : Registry} {q : Query} {history : List Query} : Agree m r q history ↔
    Usable m r q ∧ Offers m r (probeOf m q history) ∨ ¬Usable m r q ∧ ¬Offers m r (probeOf m q history) := by
  unfold Agree
  rw [hasInstall,fetchOk]
  by_cases usable : Usable m r q <;> by_cases offers : Offers m r (probeOf m q history) <;> simp [usable,offers]

/- The folder of the whole name has no install.json; the one of its first word is complete. -/
def renamed : Registry := fun url =>
  if url = "https://a.example/softwares/rust-language/package.json" then .document ⟨some ⟨"Rust",""⟩,none⟩
  else if url = "https://a.example/softwares/rust/package.json" then .document ⟨some ⟨"Rust",""⟩,none⟩
  else if url = "https://a.example/softwares/rust/default/install.json" then .document ⟨none,some ⟨"1.0.0"⟩⟩
  else .absent

theorem laterSlug : ¬∀ {m : CaseMap} {r : Registry} {q : Query} {history : List Query}, Agree m r q history := by
  intro agree
  let q : Query := ⟨"https://a.example","Rust Language",⟨"","",""⟩⟩
  have probed : (HasInstallForHost ascii renamed q (probed ascii renamed [])).1 = .ok true := by decide +kernel
  have lost : FetchForHost ascii renamed q = .error (.installNotFound "rust-language"
      ["softwares/rust-language/package.json","softwares/rust-language/default/install.json"]) := by decide +kernel
  obtain ⟨res,here⟩ := agree.mp probed
  rw [lost] at here
  cases here

end ContainerWS.SoftwarePkg
