import ContainerWS.Proxy.Model
import ContainerWS.TraefikRule

/-! The rules that packages/proxymanager/traefik/generate.go writes for the locations
of a proxy host. -/
namespace ContainerWS.Proxy
open GoStrings TraefikRule

def hostRule (m : CaseMap) (h : ProxyHost) : String :=
  " || ".intercalate ((h.domainList m).map (fun d => "Host(`" ++ d ++ "`)"))

/- The path is joined to the whole list of domains. -/
def locationRule (m : CaseMap) (h : ProxyHost) (loc : ProxyLocation) : String :=
  hostRule m h ++ (" && PathPrefix(`" ++ loc.pathPrefix ++ "`)")

/- How such a rule is read: the path binds to the last domain alone. -/
def readParts (start : String) : List String → Rule
  | [] => []
  | [d] => [[.host d,.pathPrefix start]]
  | d :: e :: rest => [.host d] :: readParts start (e :: rest)

theorem writtenRule {ds : List String} (start : String) (some : ds ≠ []) :
    " || ".intercalate (ds.map (fun d => "Host(`" ++ d ++ "`)")) ++ (" && PathPrefix(`" ++ start ++ "`)") =
      ruleText (readParts start ds) := by
  induction ds with
  | nil => exact absurd rfl some
  | cons d rest ih =>
    cases rest with
    | nil =>
      simp only [List.map_cons,List.map_nil,String.intercalate_singleton,readParts,ruleText,partText,
        String.intercalate_cons_cons,Matcher.text,String.append_assoc]
      rfl
    | cons e rest =>
      have others := ih (List.cons_ne_nil _ _)
      have more : (readParts start (e :: rest)).map partText ≠ [] := by cases rest <;> simp [readParts]
      simp only [List.map_cons,String.intercalate_cons_cons] at others ⊢
      rw [String.append_assoc,others,readParts,ruleText,ruleText,List.map_cons,String.intercalate_cons_of_ne_nil more]
      rfl

theorem readHolds {ds : List String} (start host path : String) (some : ds ≠ []) :
    (readParts start ds).holds host path = true ↔ host ∈ ds.dropLast ∨ host = ds.getLast some ∧ hasPrefix path start = true := by
  induction ds with
  | nil => exact absurd rfl some
  | cons d rest ih =>
    cases rest with
    | nil => simp [readParts,Rule.holds,Matcher.holds]
    | cons e rest =>
      have others := ih (List.cons_ne_nil _ _)
      unfold Rule.holds at others ⊢
      rw [readParts,List.any_cons,Bool.or_eq_true,others]
      simp [Matcher.holds,or_assoc]

/- A clean text sees no further than the first backtick. -/
theorem cleanPrefix {start : String} (clean : Clean start) (path : String) :
    hasPrefix path start = hasPrefix (before tick path) start := by
  rw [Bool.eq_iff_iff,prefixIff,prefixIff,before,String.toList_ofList]
  constructor
  · rintro ⟨rest,whole⟩
    have solid : ∀ c ∈ start.toList, (c != tick) = true := by
      intro c mem
      rw [bne_iff_ne]
      exact fun same => clean (same ▸ mem)
    rw [← whole,List.takeWhile_append_of_pos solid]
    exact List.prefix_append _ _
  · exact fun shorter => shorter.trans (List.takeWhile_prefix _)

/- A name with a backtick that is none of these. -/
def otherHost (ds : List String) : String := String.ofList (tick :: (ds.map String.toList).flatten)

theorem otherHostOther (ds : List String) : otherHost ds ∉ ds := by
  intro mem
  have inside := List.mem_map_of_mem (f := String.toList) mem
  have short := (List.sublist_flatten_of_mem inside).length_le
  rw [otherHost,String.toList_ofList,List.length_cons] at short
  omega

theorem otherHostTick (ds : List String) : ¬Clean (otherHost ds) := by simp [Clean,otherHost]

/- What the rule of a location is for. -/
def Meets (ds : List String) (start text : String) : Prop :=
  ∀ r : Request, accepts text r.host r.path = true ↔ r.host ∈ ds ∧ hasPrefix r.path start = true

/- The rule means what it is for when no text has a backtick and there is nothing for the
path to be joined to but one domain, or the path is that of all requests. -/
def Sound (ds : List String) (start : String) : Prop :=
  (∀ d ∈ ds, Clean d) ∧ Clean start ∧ (ds.length = 1 ∨ start = "/")

section
variable {ds : List String} {start : String}

theorem prefixSelf (s : String) : hasPrefix s s = true := prefixIff.mpr (List.prefix_refl _)

/- A rule that lets every request for the location in can be read, and its texts are clean. -/
theorem meetsReads {text d : String} (rooted : hasPrefix start "/" = true) (mem : d ∈ ds) (meets : Meets ds start text) :
    ∃ r, parse text = some r ∧ (∀ part ∈ r, ∀ m ∈ part, Clean m.literal) ∧
      ∀ host path, hasPrefix path "/" = true → (r.holds host path = true ↔ host ∈ ds ∧ hasPrefix path start = true) := by
  have taken := (meets ⟨d,start,rooted⟩).mpr ⟨mem,prefixSelf start⟩
  cases read : parse text with
  | none => simp [accepts,read] at taken
  | some r =>
    refine ⟨r,rfl,parseClean read,?_⟩
    intro host path low
    have same := meets ⟨host,path,low⟩
    simpa [accepts,read] using same

theorem meetsDomains {text : String} (rooted : hasPrefix start "/" = true) (meets : Meets ds start text) :
    ∀ d ∈ ds, Clean d := by
  intro d mem dirty
  obtain ⟨r,_,clean,holds⟩ := meetsReads rooted mem meets
  -- No name of the rule is d, nor the other host: both are let in or none.
  have alike : r.holds d start = r.holds (otherHost ds) start := by
    refine holdsSame clean ?_ (fun _ _ => rfl)
    intro name text
    exact ⟨fun same => absurd dirty (same ▸ text),fun same => absurd (same ▸ text) (otherHostTick ds)⟩
  have taken := (holds d start rooted).mpr ⟨mem,prefixSelf start⟩
  rw [alike] at taken
  exact otherHostOther ds ((holds _ start rooted).mp taken).1

theorem meetsPrefix {text : String} (some : ds ≠ []) (rooted : hasPrefix start "/" = true) (meets : Meets ds start text) :
    Clean start := by
  intro dirty
  have mem := List.head_mem some
  obtain ⟨r,_,clean,holds⟩ := meetsReads rooted mem meets
  have low : hasPrefix (before tick start) "/" = true := by
    rw [← cleanPrefix (by simp [Clean,tick])]
    exact rooted
  have alike : r.holds (ds.head some) start = r.holds (ds.head some) (before tick start) :=
    holdsSame clean (fun _ _ => Iff.rfl) (fun _ text => cleanPrefix text start)
  have taken := (holds _ start rooted).mpr ⟨mem,prefixSelf start⟩
  rw [alike] at taken
  have whole := prefixIff.mp ((holds _ _ low).mp taken).2
  have all := List.takeWhile_prefix (l := start.toList) (fun d => d != tick)
  rw [before,String.toList_ofList] at whole
  have same := List.IsPrefix.eq_of_length_le whole all.length_le
  have solid := List.mem_takeWhile_imp (same ▸ dirty)
  simp at solid

theorem readClean (domains : ∀ d ∈ ds, Clean d) (path : Clean start) : ∀ part ∈ readParts start ds, ∀ m ∈ part, Clean m.literal := by
  induction ds with
  | nil => simp [readParts]
  | cons d rest ih =>
    have first := domains d List.mem_cons_self
    cases rest with
    | nil =>
      simp only [readParts,forall_eq,List.mem_cons,List.not_mem_nil,or_false]
      rintro m (rfl | rfl)
      · exact first
      · exact path
    | cons e rest =>
      have others := ih (fun d mem => domains d (List.mem_cons_of_mem _ mem))
      intro part mem m inside
      rcases List.mem_cons.mp mem with rfl | later
      · cases List.mem_singleton.mp inside
        exact first
      · exact others part later m inside

theorem readFull : ∀ part ∈ readParts start ds, part ≠ [] := by
  induction ds with
  | nil => simp [readParts]
  | cons d rest ih =>
    cases rest with
    | nil => simp [readParts]
    | cons e rest =>
      intro part mem
      rcases List.mem_cons.mp mem with rfl | later
      · exact List.cons_ne_nil _ _
      · exact ih part later

theorem writtenAccepts (some : ds ≠ []) (domains : ∀ d ∈ ds, Clean d) (path : Clean start) (host reqPath : String) :
    accepts (ruleText (readParts start ds)) host reqPath = true ↔
      host ∈ ds.dropLast ∨ host = ds.getLast some ∧ hasPrefix reqPath start = true := by
  have here : readParts start ds ≠ [] := by
    cases ds with
    | nil => exact absurd rfl some
    | cons d rest => cases rest <;> simp [readParts]
  rw [accepts,parseText here readFull (readClean domains path)]
  exact readHolds start host reqPath some

theorem meetsIff (some : ds ≠ []) (rooted : hasPrefix start "/" = true) :
    Meets ds start (ruleText (readParts start ds)) ↔ Sound ds start := by
  constructor
  · intro meets
    have domains := meetsDomains rooted meets
    have path := meetsPrefix some rooted meets
    refine ⟨domains,path,?_⟩
    by_contra neither
    obtain ⟨many,long⟩ := not_or.mp neither
    have early : ds.head some ∈ ds.dropLast := by
      match ds,some,many with
      | [_],_,many => exact absurd rfl many
      | d :: e :: rest,_,_ => exact List.mem_cons_self
    -- The first domain is let in at the root, where the location is not.
    have taken := (writtenAccepts some domains path _ "/").mpr (.inl early)
    have within := ((meets ⟨ds.head some,"/",prefixSelf _⟩).mp taken).2
    have shorter := (prefixIff.mp within).length_le
    have same := List.IsPrefix.eq_of_length_le (prefixIff.mp rooted) shorter
    exact long (String.toList_inj.mp same.symm)
  · rintro ⟨domains,path,single | root⟩ r
    · rw [writtenAccepts some domains path]
      obtain ⟨d,rfl⟩ := List.length_eq_one_iff.mp single
      simp
    · subst root
      rw [writtenAccepts some domains path]
      have all : r.host ∈ ds ↔ r.host ∈ ds.dropLast ∨ r.host = ds.getLast some := by
        conv_lhs => rw [← List.dropLast_append_getLast some]
        rw [List.mem_append,List.mem_singleton]
      rw [all,r.rooted]
      simp

end

/- && binds tighter than ||: the rule of a location as it is saved lets in what it is for
exactly when its host has one domain or the location is the root, and no text has a backtick. -/
theorem locationRuleMeets (m : CaseMap) (h : ProxyHost) (loc : ProxyLocation) (some : h.domainList m ≠ []) :
    Meets (h.domainList m) (loc.Normalize m).pathPrefix (locationRule m h (loc.Normalize m)) ↔
      Sound (h.domainList m) (loc.Normalize m).pathPrefix := by
  have written := writtenRule (loc.Normalize m).pathPrefix some
  unfold locationRule hostRule
  rw [written]
  exact meetsIff some (normalizedRooted _)

def hostWith (domains : String) (locations : List ProxyLocation) : ProxyHost :=
  ⟨"1","",domains,"http","url","http://up:1",false,false,false,false,false,[],locations⟩

def apiLocation : ProxyLocation := ⟨"2","/api","url","",false,false⟩

theorem locationRuleMeetsOne : ["a.example"] ≠ [] ∧ Meets ["a.example"] "/api" "Host(`a.example`) && PathPrefix(`/api`)" := by
  have names : (hostWith "a.example" []).domainList ascii = ["a.example"] := by decide +kernel
  have path : (apiLocation.Normalize ascii).pathPrefix = "/api" := by decide +kernel
  have rule : locationRule ascii (hostWith "a.example" []) (apiLocation.Normalize ascii) =
      "Host(`a.example`) && PathPrefix(`/api`)" := by decide +kernel
  have held := (locationRuleMeets ascii (hostWith "a.example" []) apiLocation (by rw [names]; exact List.cons_ne_nil _ _)).mpr
    (by rw [names,path]; exact ⟨by simp [Clean,tick],by simp [Clean,tick],.inl rfl⟩)
  rw [names,path,rule] at held
  exact ⟨List.cons_ne_nil _ _,held⟩

/- With two domains every path of the first is sent to the location. -/
theorem firstDomainTaken : accepts (locationRule ascii (hostWith "a.example,b.example" []) (apiLocation.Normalize ascii)) "a.example" "/" = true ∧
    ¬Meets ((hostWith "a.example,b.example" []).domainList ascii) (apiLocation.Normalize ascii).pathPrefix
      (locationRule ascii (hostWith "a.example,b.example" []) (apiLocation.Normalize ascii)) := by
  have taken : accepts (locationRule ascii (hostWith "a.example,b.example" []) (apiLocation.Normalize ascii)) "a.example" "/" = true := by
    decide +kernel
  refine ⟨taken,?_⟩
  intro meets
  have within := ((meets ⟨"a.example","/",rfl⟩).mp taken).2
  have outside : hasPrefix "/" (apiLocation.Normalize ascii).pathPrefix = false := by decide +kernel
  cases outside.symm.trans within

end ContainerWS.Proxy
