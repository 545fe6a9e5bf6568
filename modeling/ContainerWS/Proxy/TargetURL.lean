import ContainerWS.Proxy.Fiber
import ContainerWS.GoURL

/-! The URL that packages/proxymanager/fiber/routes.go sends a matched request to: which
path it has, of the upstream and of the request. `parse` is `url.Parse`. -/
namespace ContainerWS.Proxy
open GoPath GoStrings GoURL

/- `path.Join` of two elements. -/
def pathJoin (a b : String) : String :=
  if a = "" then (if b = "" then "" else cleanText b) else if b = "" then cleanText a else cleanText (a ++ "/" ++ b)

/- `strings.TrimPrefix`. -/
def trimPrefix (s start : String) : String := if hasPrefix s start then String.ofList (s.toList.drop start.length) else s

/- The request path, or what is left of it. -/
def Route.requested (r : Route) (reqPath : String) : String :=
  if r.stripPrefix = true ∧ r.pathPrefix ≠ "/" then
    let p := trimPrefix reqPath r.pathPrefix
    if p = "" then "/" else p
  else reqPath

/- The path behind that of the upstream. -/
def joinedPath (a p : String) : String :=
  let joined := pathJoin a p
  if hasPrefix joined "/" then joined else "/" ++ joined

def Route.target (parse : String → Option Parsed) (r : Route) (reqPath rawQuery : String) : Option URL :=
  (parse r.upstreamURL).map (fun base => {base.toURL with path := joinedPath base.path (r.requested reqPath), rawQuery := rawQuery})

def Route.TargetURL (parse : String → Option Parsed) (r : Route) (reqPath rawQuery : String) : Option String :=
  (r.target parse reqPath rawQuery).map URL.String

/- The parts of a path without the dots: a part that goes up takes the one before it
away, and after a dot at the end the path ends with a separator. -/
def resolveDots : List Name → List Name → List Name
  | out, [] => out
  | out, [n] => if n = "." then out ++ [""] else if n = ".." then out.dropLast ++ [""] else out ++ [n]
  | out, n :: rest =>
    if n = "." then resolveDots out rest
    else if n = ".." then resolveDots out.dropLast rest
    else resolveDots (out ++ [n]) rest

/- The directories of the upstream's path. -/
def upstreamDirs (u : URL) : Path := clean (components u.path)

/- How a URL of the upstream writes a path. -/
def written (u : URL) (p : Path) : String := URL.spelledPath {u with path := render p}

def upstreamText (u : URL) : String := if upstreamDirs u = [] then "" else written u (upstreamDirs u)

/- The request path, its dots resolved within it, behind a base. -/
inductive Behind (base : String) : String → String → Prop where
  | none : Behind base "" (if base = "" then "/" else base)
  | path (p : String) : Behind base ("/" ++ p) (base ++ "/" ++ joined (resolveDots [] (components p)))

def Route.stripped (r : Route) : String := if r.stripPrefix = true ∧ r.pathPrefix ≠ "/" then r.pathPrefix else ""

/- The path of the target is that of the upstream and, behind it, that of the request
without the prefix. -/
def Forwarded (parse : String → Option Parsed) (r : Route) (reqPath rawQuery : String) : Prop :=
  ∃ u t text rest, parse r.upstreamURL = some u ∧ r.target parse reqPath rawQuery = some t ∧ t.shownPath = some text ∧
    reqPath = r.stripped ++ rest ∧ Behind (upstreamText u.toURL) rest text

/- How far a path goes up from where it starts, and down again. -/
def relative (p : String) : Cleaned := (components p).foldl Cleaned.push ⟨false,0,[]⟩

def Rooted (u : URL) : Prop := u.path = "" ∨ hasPrefix u.path "/" = true

/- Where the upstream has a second text for its path, and that path is clean, the text is
the usual one. -/
def Usual (u : URL) : Prop :=
  u.rawPath ≠ "" → validEncoded u.rawPath = true → u.path = render (upstreamDirs u) → u.rawPath = escape keepsPath u.path

/- What may stand behind the base: nothing; a separator, where there is no directory; or
names in characters that stay, that are the same when cleaned and do not leave the base. -/
inductive Passes (u : URL) : String → Prop where
  | none (level : Rooted u ∨ (cleaned u.path).up = 0 ∧ upstreamDirs u ≠ []) (usual : upstreamDirs u = [] → Usual u) : Passes u ""
  | root {p : String} (slash : resolveDots [] (components p) = [""]) (top : upstreamDirs u = []) (rooted : Rooted u)
      (usual : Usual u) : Passes u ("/" ++ p)
  | names {p : String} (plain : ∀ n ∈ resolveDots [] (components p), Plain n ∧ ∀ c ∈ n.toList, keepsPath c = true)
      (same : (relative p).names = resolveDots [] (components p)) (inside : (relative p).up = 0 ∨ upstreamDirs u = [])
      (level : Rooted u ∨ (cleaned u.path).up = 0 ∧ (relative p).up = 0) (usual : upstreamDirs u ≠ [] → Usual u) : Passes u ("/" ++ p)

/- A path from some place: it goes up from there, and down again. -/
theorem foldFrom (parts : List Name) (c : Cleaned) :
    let rel := parts.foldl Cleaned.push ⟨false,0,[]⟩
    (parts.foldl Cleaned.push c).names = c.names.take (c.names.length-rel.up) ++ rel.names ∧
    (c.rooted = false → (parts.foldl Cleaned.push c).up = c.up+(rel.up-c.names.length)) := by
  induction parts using List.reverseRecOn with
  | nil => simp
  | append_singleton parts n ih =>
    have loose := foldRooted parts ⟨false,0,[]⟩
    have kind := foldRooted parts c
    simp only [List.foldl_append,List.foldl_cons,List.foldl_nil]
    dsimp only at ih loose
    generalize parts.foldl Cleaned.push ⟨false,0,[]⟩ = rel at *
    generalize parts.foldl Cleaned.push c = d at *
    obtain ⟨names,up⟩ := ih
    by_cases idle : n = "" ∨ n = "."
    · have stays (e : Cleaned) : e.push n = e := if_pos idle
      rw [stays,stays]
      exact ⟨names,up⟩
    by_cases parent : n = ".."
    · have climbs (e : Cleaned) : e.push n =
          if e.names ≠ [] then {e with names := e.names.dropLast} else if e.rooted then e else {e with up := e.up+1} :=
        (if_neg idle).trans (if_pos parent)
      have takes {e : Cleaned} (filled : e.names ≠ []) : e.push n = {e with names := e.names.dropLast} :=
        (climbs e).trans (if_pos filled)
      have stops {e : Cleaned} (empty : e.names = []) (rooted : e.rooted = true) : e.push n = e :=
        (climbs e).trans ((if_neg (not_not.mpr empty)).trans (if_pos rooted))
      have rises {e : Cleaned} (empty : e.names = []) (rooted : e.rooted = false) : e.push n = {e with up := e.up+1} :=
        (climbs e).trans ((if_neg (not_not.mpr empty)).trans (if_neg (by simp [rooted])))
      by_cases below : rel.names = []
      · rw [below,List.append_nil] at names
        rw [rises below loose]
        by_cases gone : d.names = []
        · have top : c.names.length ≤ rel.up := by
            have count := congrArg List.length (names.symm.trans gone)
            rw [List.length_take,List.length_nil] at count
            omega
          dsimp only
          rw [Nat.sub_eq_zero_of_le (Nat.le_succ_of_le top),List.take_zero,below]
          cases rooted : c.rooted with
          | true =>
            rw [stops gone (kind.trans rooted)]
            exact ⟨gone,fun none => by cases none⟩
          | false =>
            rw [rises gone (kind.trans rooted)]
            refine ⟨gone,fun _ => ?_⟩
            dsimp only
            rw [up rooted]
            omega
        · have room : rel.up < c.names.length := by
            by_contra far
            exact gone (by rw [names,Nat.sub_eq_zero_of_le (Nat.le_of_not_lt far),List.take_zero])
          rw [takes gone]
          dsimp only
          rw [below,List.append_nil,names,List.dropLast_eq_take,List.length_take,List.take_take]
          refine ⟨by congr 1; omega,fun rooted => ?_⟩
          rw [up rooted]
          omega
      · have filled : d.names ≠ [] := by
          rw [names]
          exact fun none => below (List.append_eq_nil_iff.mp none).2
        rw [takes filled,takes below]
        exact ⟨by dsimp only; rw [names,List.dropLast_append_of_ne_nil below],up⟩
    · have adds (e : Cleaned) : e.push n = {e with names := e.names ++ [n]} := (if_neg idle).trans (if_neg parent)
      rw [adds,adds]
      exact ⟨by dsimp only; rw [names,List.append_assoc],up⟩

/- Resolving the dots leaves no dots, and all that cleaning leaves. -/
theorem resolvedParts (parts : List Name) (out : List Name) (free : ∀ n ∈ parts, '/' ∉ n.toList)
    (before : ∀ n ∈ out, n ≠ "." ∧ n ≠ ".." ∧ '/' ∉ n.toList) :
    ∀ n ∈ resolveDots out parts, n ≠ "." ∧ n ≠ ".." ∧ '/' ∉ n.toList := by
  fun_induction resolveDots out parts with
  | case1 => exact before
  | case2 out =>
    intro m mem
    rcases List.mem_append.mp mem with old | last
    · exact before m old
    · rw [List.mem_singleton.mp last]
      decide
  | case3 out =>
    intro m mem
    rcases List.mem_append.mp mem with old | last
    · exact before m (List.dropLast_subset out old)
    · rw [List.mem_singleton.mp last]
      decide
  | case4 out n here up =>
    intro m mem
    rcases List.mem_append.mp mem with old | last
    · exact before m old
    · rw [List.mem_singleton.mp last]
      exact ⟨here,up,free n List.mem_cons_self⟩
  | case5 out rest more ih => exact ih (fun m mem => free m (List.mem_cons_of_mem _ mem)) before
  | case6 out rest more here ih =>
    exact ih (fun m mem => free m (List.mem_cons_of_mem _ mem)) (fun m mem => before m (List.dropLast_subset out mem))
  | case7 out n rest more here up ih =>
    refine ih (fun m mem => free m (List.mem_cons_of_mem _ mem)) ?_
    intro m mem
    rcases List.mem_append.mp mem with old | last
    · exact before m old
    · rw [List.mem_singleton.mp last]
      exact ⟨here,up,free n List.mem_cons_self⟩

theorem resolvedFilled (parts out : List Name) (some : parts ≠ []) : resolveDots out parts ≠ [] := by
  fun_induction resolveDots out parts with
  | case1 => exact absurd rfl some
  | case2 out => simp
  | case3 out => simp
  | case4 out n here up => simp
  | case5 out rest more ih => exact ih more
  | case6 out rest more here ih => exact ih more
  | case7 out n rest more here up ih => exact ih more

theorem sublistDropLast {p out : List Name} (below : p.Sublist out) : p.dropLast.Sublist out.dropLast := by
  have turned := below.reverse.tail.reverse
  rwa [List.tail_reverse,List.tail_reverse,List.reverse_reverse,List.reverse_reverse] at turned

theorem pushSublist {p out : List Name} (n : Name) (below : p.Sublist out) :
    (push p n).Sublist (if n = "." then out else if n = ".." then out.dropLast else out ++ [n]) := by
  unfold push
  by_cases empty : n = ""
  · subst empty
    exact below.trans (List.sublist_append_left out _)
  by_cases here : n = "."
  · rw [if_pos (.inr here),if_pos here]
    exact below
  rw [if_neg (by simp [empty,here]),if_neg here]
  split
  · exact sublistDropLast below
  · exact below.append (List.Sublist.refl _)

theorem resolvedSublist (parts p out : List Name) (below : p.Sublist out) : (parts.foldl push p).Sublist (resolveDots out parts) := by
  fun_induction resolveDots out parts generalizing p with
  | case1 => exact below
  | case2 out => exact below.trans (List.sublist_append_left out _)
  | case3 out => exact (pushSublist ".." below).trans (List.sublist_append_left out.dropLast _)
  | case4 out n here up =>
    have next := pushSublist n below
    rwa [if_neg here,if_neg up] at next
  | case5 out rest more ih => exact ih _ (pushSublist "." below)
  | case6 out rest more here ih => exact ih _ (pushSublist ".." below)
  | case7 out n rest more here up ih =>
    have next := pushSublist n below
    rw [if_neg here,if_neg up] at next
    exact ih _ next

/- The place from which a request path leads: the root, where the upstream names none. -/
def start (a : String) : Cleaned := if a = "" then ⟨true,0,[]⟩ else cleaned a

/- The parts of a place behind a separator. -/
def placed (c : Cleaned) : Path := if c.rooted then c.names else if c.parts = [] then ["."] else c.parts

theorem placedOne {c : Cleaned} (proper : c.Proper) : ∀ n ∈ placed c, '/' ∉ n.toList := by
  intro n mem
  unfold placed at mem
  split at mem
  · exact (proper.named n mem).one
  · split at mem
    · rw [List.mem_singleton.mp mem]
      decide
    · exact partsOne proper n mem

theorem placedText {c : Cleaned} (proper : c.Proper) :
    (if hasPrefix c.text "/" then c.text else "/" ++ c.text) = render (placed c) := by
  unfold placed
  cases rooted : c.rooted with
  | true =>
    obtain ⟨rest,text⟩ := textRooted rooted
    rw [if_pos (by simp [hasPrefix,text]),if_pos rfl,Cleaned.text,if_pos rooted]
  | false =>
    rw [if_neg Bool.false_ne_true]
    by_cases empty : c.parts = []
    · rw [(dotText proper).mpr ⟨rooted,empty⟩,if_pos empty]
      decide
    · have text : c.text = joined c.parts := by
        rw [Cleaned.text,if_neg (by simp [rooted]),if_neg empty]
      have bare : ¬hasPrefix (joined c.parts) "/" = true := by
        intro slash
        obtain ⟨n,rest,shape⟩ := List.exists_cons_of_ne_nil empty
        have first : n.toList ≠ [] := by
          intro none
          have mem : n ∈ c.parts := by simp [shape]
          rcases List.mem_append.mp mem with above | below
          · rw [List.eq_of_mem_replicate above] at none
            cases none
          · exact (proper.named n below).filled (String.toList_eq_nil_iff.mp none)
        obtain ⟨x,xs,chars⟩ := List.exists_cons_of_ne_nil first
        have here : x = '/' := by
          obtain ⟨tail,whole⟩ := List.isPrefixOf_iff_prefix.mp slash
          rw [shape] at whole
          cases rest <;> simp [joined,chars] at whole <;> exact whole.1.symm
        refine partsOne proper n (by simp [shape]) ?_
        rw [chars,here]
        exact List.mem_cons_self
      rw [text,if_neg bare,if_neg empty,renderJoined]

theorem startProper (a : String) : (start a).Proper := by
  unfold start
  split
  · exact ⟨fun n none => absurd none List.not_mem_nil,fun _ => rfl⟩
  · exact cleanedProper a

theorem foldProper {parts : List Name} (one : ∀ n ∈ parts, '/' ∉ n.toList) {c : Cleaned} (proper : c.Proper) :
    (parts.foldl Cleaned.push c).Proper := by
  induction parts generalizing c with
  | nil => exact proper
  | cons n parts ih => exact ih (fun m mem => one m (List.mem_cons_of_mem _ mem)) (pushProper proper (one n List.mem_cons_self))

theorem startRooted {u : URL} : (start u.path).rooted = true ↔ Rooted u := by
  unfold start Rooted
  split
  · rename_i empty
    exact iff_of_true rfl (.inl empty)
  · rename_i filled
    rw [cleanedRooted]
    simp [filled]

theorem startUp (a : String) : (start a).up = (cleaned a).up := by
  unfold start
  split
  · rename_i empty
    rw [empty]
    decide
  · rfl

theorem startNames (u : URL) : (start u.path).names = upstreamDirs u := by
  unfold start upstreamDirs
  split
  · rename_i empty
    rw [empty]
    decide
  · exact cleanedNames u.path

theorem slashed (p : String) : components ("/" ++ p) = "" :: components p := by
  have cut := componentsJoin "" p
  rwa [String.empty_append,show components "" = [""] by decide] at cut

theorem joinedFrom (a p : String) : joinedPath a ("/" ++ p) = render (placed ((components p).foldl Cleaned.push (start a))) := by
  rw [← placedText (foldProper (componentsOne p) (startProper a))]
  have some : "/" ++ p ≠ "" := by simp
  have text : pathJoin a ("/" ++ p) = ((components p).foldl Cleaned.push (start a)).text := by
    unfold pathJoin start
    by_cases empty : a = ""
    · rw [if_pos empty,if_neg some,if_pos empty,cleanText,cleaned,slashed]
      simp [hasPrefix,Cleaned.push]
    · have slash : hasPrefix (a ++ "/" ++ ("/" ++ p)) "/" = hasPrefix a "/" := by
        obtain ⟨x,xs,chars⟩ := List.exists_cons_of_ne_nil (String.toList_eq_nil_iff.not.mpr empty)
        simp [hasPrefix,chars,List.isPrefixOf]
      rw [if_neg empty,if_neg some,if_neg empty,cleanText,cleaned,componentsJoin,slashed,slash,List.foldl_append]
      rfl
  rw [joinedPath,text]

theorem joinedStill (a : String) : joinedPath a "" = render (placed (start a)) := by
  rw [← placedText (startProper a)]
  have text : (if hasPrefix (pathJoin a "") "/" then pathJoin a "" else "/" ++ pathJoin a "") =
      if hasPrefix (start a).text "/" then (start a).text else "/" ++ (start a).text := by
    unfold pathJoin start
    by_cases empty : a = ""
    · rw [if_pos empty,if_pos rfl,if_pos empty]
      decide
    · rw [if_neg empty,if_pos rfl,if_neg empty,cleanText]
  rw [← text,joinedPath]

theorem slashKept : keepsPath '/' = true := by decide

theorem escapedRender (q : Path) : escape keepsPath (render q) = "/" ++ escape keepsPath (joined q) := by
  have mark : escape keepsPath "/" = "/" := escapeSelf.mpr (by simpa using slashKept)
  rw [renderJoined,escapeAppend,mark]

/- A URL writes the text that it has of the path, -/
theorem writtenRaw {u : Parsed} {q : Path} (raw : u.rawPath ≠ "") (valid : validEncoded u.rawPath = true) (own : u.path = render q) :
    written u.toURL q = u.rawPath ∨ written u.toURL q = "./" ++ u.rawPath ∧ hasPrefix u.rawPath "/" = false := by
  have read : URL.Encoded {u.toURL with path := render q} := own ▸ u.settled.resolve_left raw
  have text : URL.EscapedPath {u.toURL with path := render q} = u.rawPath := if_pos ⟨raw,valid,read⟩
  unfold written URL.spelledPath
  rw [text,if_neg]
  · split
    · rename_i colon
      refine .inr ⟨rfl,?_⟩
      by_contra slash
      obtain ⟨rest,whole⟩ := List.isPrefixOf_iff_prefix.mp (Bool.not_eq_false _ ▸ slash)
      have none : before '/' u.rawPath = "" := by
        rw [before,← whole]
        rfl
      rw [none] at colon
      exact absurd colon.2 (by simp)
    · exact .inl rfl
  · rintro ⟨_,bare,host⟩
    rcases u.hosted host with none | slash
    · exact raw none
    · rw [slash] at bare
      cases bare

/- or else the path escaped. -/
theorem writtenEither (u : Parsed) (q : Path) : written u.toURL q = escape keepsPath (render q) ∨
    u.path = render q ∧ u.rawPath ≠ "" ∧ validEncoded u.rawPath = true := by
  by_cases raw : u.rawPath ≠ "" ∧ validEncoded u.rawPath = true ∧ URL.Encoded {u.toURL with path := render q}
  · refine .inr ⟨?_,raw.1,raw.2.1⟩
    rcases u.settled with none | read
    · exact absurd none raw.1
    · exact bytesInj (Option.some.inj (read.symm.trans raw.2.2))
  · left
    have star : render q ≠ "*" := by
      intro same
      have first := congrArg String.toList same
      rw [render,String.toList_ofList] at first
      cases first
    have text : URL.EscapedPath {u.toURL with path := render q} = escape keepsPath (render q) := (if_neg raw).trans (if_neg star)
    unfold written URL.spelledPath
    rw [text,escapedRender,if_neg (by simp [hasPrefix]),if_neg (by simp [before])]

theorem usualWritten {u : Parsed} : Usual u.toURL ↔ written u.toURL (upstreamDirs u.toURL) = escape keepsPath (render (upstreamDirs u.toURL)) := by
  constructor
  · intro usual
    rcases writtenEither u (upstreamDirs u.toURL) with text | ⟨own,raw,valid⟩
    · exact text
    · have same := usual raw valid own
      rcases writtenRaw raw valid own with text | ⟨_,bare⟩
      · rw [text,same,own]
      · rw [same,own,escapedRender] at bare
        simp [hasPrefix] at bare
  · intro text raw valid own
    rcases writtenRaw raw valid own with same | ⟨lead,_⟩
    · rw [← same,text,own]
    · rw [text,escapedRender] at lead
      have first := congrArg String.toList lead
      simp at first

theorem joinedInj {p q : List Name} (one : ∀ n ∈ p, '/' ∉ n.toList) (one' : ∀ n ∈ q, '/' ∉ n.toList) (some : p ≠ []) (some' : q ≠ [])
    (same : joined p = joined q) : p = q := by
  rw [← joinedComponents one some,same,joinedComponents one' some']

theorem joinedEmpty {p : List Name} (one : ∀ n ∈ p, '/' ∉ n.toList) (filled : p ≠ []) (none : joined p = "") : p = [""] := by
  rw [← joinedComponents one filled,none]
  decide

theorem renderInj {p q : Path} (one : ∀ n ∈ p, '/' ∉ n.toList) (one' : ∀ n ∈ q, '/' ∉ n.toList) (some : p ≠ []) (some' : q ≠ [])
    (same : render p = render q) : p = q := by
  rw [renderJoined,renderJoined,String.append_right_inj] at same
  exact joinedInj one one' some some' same

theorem ownRooted {u : URL} {q : Path} (same : u.path = render q) : Rooted u := by
  right
  rw [same,renderJoined]
  simp [hasPrefix]

theorem ownDirs {u : URL} {q : Path} (named : ∀ n ∈ q, Plain n) (same : u.path = render q) : upstreamDirs u = q := by
  rw [upstreamDirs,same,renderJoined,slashed]
  by_cases empty : q = []
  · rw [empty]
    decide
  · rw [joinedComponents (fun n mem => (named n mem).one) empty]
    exact pushAll named []

theorem dirsPlain (u : URL) : ∀ n ∈ upstreamDirs u, Plain n := by
  rw [← startNames]
  exact (startProper u.path).named

theorem dirsOne (u : URL) : ∀ n ∈ upstreamDirs u, '/' ∉ n.toList := fun n mem => (dirsPlain u n mem).one

theorem writtenLoose {u : Parsed} (loose : ¬Rooted u.toURL) (q : Path) : written u.toURL q = escape keepsPath (render q) := by
  rcases writtenEither u q with usual | ⟨own,_⟩
  · exact usual
  · exact absurd (ownRooted own) loose

theorem writtenSome (u : Parsed) (q : Path) : written u.toURL q ≠ "" := by
  rcases writtenEither u q with usual | ⟨own,raw,valid⟩
  · rw [usual,escapedRender]
    simp
  · rcases writtenRaw raw valid own with text | ⟨text,_⟩
    · rwa [text]
    · rw [text]
      simp

theorem textNone {u : Parsed} : upstreamText u.toURL = "" ↔ upstreamDirs u.toURL = [] := by
  unfold upstreamText
  split
  · rename_i empty
    exact iff_of_true rfl empty
  · rename_i filled
    exact iff_of_false (writtenSome u _) filled

theorem placedRooted {c : Cleaned} (rooted : c.rooted = true) : placed c = c.names := if_pos rooted

theorem placedLevel {c : Cleaned} (level : c.rooted = true ∨ c.up = 0 ∧ c.names ≠ []) : placed c = c.names := by
  rcases level with rooted | ⟨still,filled⟩
  · exact placedRooted rooted
  · have parts : c.parts = c.names := by simp [Cleaned.parts,still]
    unfold placed
    rw [parts,if_neg filled,ite_self]

/- Without a root above it, what stands behind the separator is a dot or the parts. -/
theorem placedLoose {c : Cleaned} (loose : c.rooted = false) : c.parts = [] ∧ placed c = ["."] ∨ c.parts ≠ [] ∧ placed c = c.parts := by
  unfold placed
  rw [loose,if_neg Bool.false_ne_true]
  by_cases empty : c.parts = []
  · exact .inl ⟨empty,if_pos empty⟩
  · exact .inr ⟨empty,if_neg empty⟩

/- Where a request path leads. -/
def landed (a rest : String) : Cleaned := (components rest).foldl Cleaned.push (start a)

theorem landedNone (a : String) : landed a "" = start a := by
  rw [landed,show components "" = [""] by decide]
  rfl

theorem landedPath (a p : String) : landed a ("/" ++ p) = (components p).foldl Cleaned.push (start a) := by
  rw [landed,slashed]
  rfl

theorem landedProper (a rest : String) : (landed a rest).Proper := foldProper (componentsOne rest) (startProper a)

theorem landedRooted (u : URL) (rest : String) : (landed u.path rest).rooted = true ↔ Rooted u := by
  rw [landed,foldRooted]
  exact startRooted

theorem landedNames (u : URL) (p : String) : (landed u.path ("/" ++ p)).names =
    (upstreamDirs u).take ((upstreamDirs u).length-(relative p).up) ++ (relative p).names := by
  rw [landedPath,← startNames]
  exact (foldFrom (components p) (start u.path)).1

theorem landedUp {u : URL} (loose : ¬Rooted u) (p : String) : (landed u.path ("/" ++ p)).up =
    (cleaned u.path).up+((relative p).up-(upstreamDirs u).length) := by
  rw [landedPath,← startNames,← startUp]
  exact (foldFrom (components p) (start u.path)).2 (Bool.eq_false_iff.mpr (startRooted.not.mpr loose))

/- A request for the place itself reaches the upstream where it has one. -/
theorem behindNone (u : Parsed) :
    written u.toURL (placed (landed u.path "")) = (if upstreamText u.toURL = "" then "/" else upstreamText u.toURL) ↔
      (Rooted u.toURL ∨ (cleaned u.path).up = 0 ∧ upstreamDirs u.toURL ≠ []) ∧ (upstreamDirs u.toURL = [] → Usual u.toURL) := by
  have root : escape keepsPath (render []) = "/" := by decide
  rw [landedNone]
  have rooted := startRooted (u := u.toURL)
  have names := startNames u.toURL
  have up := startUp u.path
  have proper := startProper u.path
  by_cases empty : upstreamDirs u.toURL = []
  · rw [if_pos (textNone.mpr empty)]
    rw [empty] at names
    by_cases held : Rooted u.toURL
    · have here : placed (start u.path) = [] := (placedRooted (rooted.mpr held)).trans names
      rw [here,usualWritten,empty,root]
      exact ⟨fun text => ⟨.inl held,fun _ => text⟩,fun passes => passes.2 rfl⟩
    · refine iff_of_false ?_ (fun passes => passes.1.elim held (fun other => other.2 empty))
      rw [writtenLoose held,escapedRender]
      intro text
      have none : escape keepsPath (joined (placed (start u.path))) = escape keepsPath "" :=
        (String.append_right_inj "/").mp text
      have joinedNone := escapeInj (fun _ => keepsPlain) none
      rcases placedLoose (Bool.eq_false_iff.mpr (rooted.not.mpr held)) with ⟨_,dot⟩ | ⟨filled,parts⟩
      · rw [dot,joinedOne] at joinedNone
        exact absurd joinedNone (by decide)
      · rw [parts] at joinedNone
        have lone := joinedEmpty (partsOne proper) filled joinedNone
        rw [Cleaned.parts,names,List.append_nil] at lone
        have mem : "" ∈ List.replicate (start u.path).up ".." := by simp [lone]
        exact absurd (List.eq_of_mem_replicate mem) (by decide)
  · rw [if_neg (textNone.not.mpr empty),upstreamText,if_neg empty]
    by_cases level : Rooted u.toURL ∨ (cleaned u.path).up = 0 ∧ upstreamDirs u.toURL ≠ []
    · refine iff_of_true ?_ ⟨level,fun none => absurd none empty⟩
      rw [placedLevel (by rwa [rooted,up,names]),names]
    · refine iff_of_false ?_ (fun passes => level passes.1)
      obtain ⟨loose,climbs⟩ := not_or.mp level
      have above : (start u.path).up ≠ 0 := by
        rw [up]
        exact fun still => climbs ⟨still,empty⟩
      rw [writtenLoose loose,writtenLoose loose]
      intro text
      have same := escapeInj (fun _ => keepsPlain) text
      rcases placedLoose (Bool.eq_false_iff.mpr (rooted.not.mpr loose)) with ⟨none,_⟩ | ⟨filled,parts⟩
      · rw [Cleaned.parts,names] at none
        exact empty (List.append_eq_nil_iff.mp none).2
      · rw [parts] at same
        have count := congrArg List.length (renderInj (partsOne proper) (dirsOne u.toURL) filled empty same)
        rw [Cleaned.parts,names,List.length_append,List.length_replicate] at count
        omega

/- The parts of a request path that are written behind the base as they are. -/
theorem passesNames {u : Parsed} {p : String} (plain : ∀ n ∈ resolveDots [] (components p), Plain n ∧ ∀ c ∈ n.toList, keepsPath c = true)
    (same : (relative p).names = resolveDots [] (components p)) (inside : (relative p).up = 0 ∨ upstreamDirs u.toURL = [])
    (level : Rooted u.toURL ∨ (cleaned u.path).up = 0 ∧ (relative p).up = 0) (usual : upstreamDirs u.toURL ≠ [] → Usual u.toURL) :
    written u.toURL (placed (landed u.path ("/" ++ p))) = upstreamText u.toURL ++ "/" ++ joined (resolveDots [] (components p)) := by
  have filled : resolveDots [] (components p) ≠ [] := resolvedFilled _ _ (by simp [components])
  have names : (landed u.path ("/" ++ p)).names = upstreamDirs u.toURL ++ resolveDots [] (components p) := by
    rw [landedNames,same]
    rcases inside with still | top
    · rw [still,Nat.sub_zero,List.take_length]
    · rw [top,List.take_nil]
  have here : placed (landed u.path ("/" ++ p)) = upstreamDirs u.toURL ++ resolveDots [] (components p) := by
    rw [placedLevel,names]
    by_cases rooted : Rooted u.toURL
    · exact .inl ((landedRooted u.toURL _).mpr rooted)
    · obtain ⟨still,none⟩ := level.resolve_left rooted
      refine .inr ⟨?_,by simp [names,filled]⟩
      rw [landedUp rooted,still,none,Nat.zero_sub]
  have named : ∀ n ∈ upstreamDirs u.toURL ++ resolveDots [] (components p), Plain n := by
    intro n mem
    rcases List.mem_append.mp mem with base | own
    · exact dirsPlain _ n base
    · exact (plain n own).1
  have kept : escape keepsPath (joined (resolveDots [] (components p))) = joined (resolveDots [] (components p)) := by
    rw [escapeJoined slashKept]
    congr 1
    refine (List.map_congr_left ?_).trans (List.map_id _)
    exact fun n mem => escapeSelf.mpr (plain n mem).2
  rw [here]
  rcases writtenEither u (upstreamDirs u.toURL ++ resolveDots [] (components p)) with text | ⟨own,_⟩
  · rw [text]
    by_cases top : upstreamDirs u.toURL = []
    · rw [textNone.mpr top,top,List.nil_append,escapedRender,kept,String.empty_append]
    · have mark : escape keepsPath "/" = "/" := escapeSelf.mpr (by simpa using slashKept)
      rw [renderBelow top filled,escapeAppend,escapeAppend,mark,kept,upstreamText,if_neg top,usualWritten.mp (usual top)]
  · have none := ownDirs named own
    exact absurd (List.self_eq_append_right.mp none) filled

/- The names behind the base where it is written: nothing of the base is gone, and the
rest is what it was. -/
theorem namesBehind {u : Parsed} {p : String} {q : Path} (shape : placed (landed u.path ("/" ++ p)) = upstreamDirs u.toURL ++ q)
    (own : q.map (escape keepsPath) = resolveDots [] (components p)) (usual : upstreamDirs u.toURL ≠ [] → Usual u.toURL) :
    Passes u.toURL ("/" ++ p) := by
  have filled : resolveDots [] (components p) ≠ [] := resolvedFilled _ _ (by simp [components])
  have parts := resolvedParts (components p) [] (componentsOne p) (by simp)
  have dots : ∀ n ∈ q, n ≠ "." ∧ n ≠ ".." := by
    intro n mem
    have inside : escape keepsPath n ∈ resolveDots [] (components p) := own ▸ List.mem_map_of_mem mem
    refine ⟨?_,?_⟩
    · rintro rfl
      exact (parts _ inside).1 (by decide)
    · rintro rfl
      exact (parts _ inside).2.1 (by decide)
  have loose : ¬Rooted u.toURL → (landed u.path ("/" ++ p)).up = 0 ∧ (landed u.path ("/" ++ p)).parts ≠ [] := by
    intro open'
    have kind := Bool.eq_false_iff.mpr ((landedRooted u.toURL ("/" ++ p)).not.mpr open')
    have clear : ∀ n ∈ upstreamDirs u.toURL ++ q, n ≠ "." ∧ n ≠ ".." := by
      intro n mem
      rcases List.mem_append.mp mem with base | rest
      · exact ⟨(dirsPlain _ n base).here,(dirsPlain _ n base).up⟩
      · exact dots n rest
    rcases placedLoose kind with ⟨_,dot⟩ | ⟨some,whole⟩
    · rw [dot] at shape
      exact absurd rfl (clear "." (shape ▸ List.mem_singleton_self _)).1
    · refine ⟨?_,some⟩
      by_contra climbs
      have first : ".." ∈ upstreamDirs u.toURL ++ q := by
        rw [← shape,whole,Cleaned.parts]
        exact List.mem_append_left _ (List.mem_replicate.mpr ⟨climbs,rfl⟩)
      exact (clear ".." first).2 rfl
  have here : (landed u.path ("/" ++ p)).names = upstreamDirs u.toURL ++ q := by
    rw [← shape]
    by_cases rooted : Rooted u.toURL
    · exact (placedRooted ((landedRooted u.toURL _).mpr rooted)).symm
    · obtain ⟨still,some⟩ := loose rooted
      rw [Cleaned.parts,still,List.replicate_zero,List.nil_append] at some
      exact (placedLevel (.inr ⟨still,some⟩)).symm
  rw [landedNames] at here
  have below : (relative p).names.Sublist (resolveDots [] (components p)) := by
    rw [relative,foldNames]
    exact resolvedSublist (components p) [] [] (List.Sublist.refl _)
  have count : (relative p).names.length ≤ q.length := by
    have short := below.length_le
    rwa [← own,List.length_map] at short
  have inside : (relative p).up = 0 ∨ upstreamDirs u.toURL = [] := by
    have total := congrArg List.length here
    rw [List.length_append,List.length_append,List.length_take] at total
    by_cases top : upstreamDirs u.toURL = []
    · exact .inr top
    · have some := List.length_pos_iff.mpr top
      exact .inl (by omega)
  have base : (upstreamDirs u.toURL).take ((upstreamDirs u.toURL).length-(relative p).up) = upstreamDirs u.toURL := by
    rcases inside with still | top
    · rw [still,Nat.sub_zero,List.take_length]
    · rw [top,List.take_nil]
  rw [base,List.append_cancel_left_eq] at here
  have same : (relative p).names = resolveDots [] (components p) := by
    refine below.eq_of_length ?_
    rw [here,← own,List.length_map]
  refine .names ?_ same inside ?_ usual
  · intro n mem
    refine ⟨(foldProper (componentsOne p) ⟨fun n none => absurd none List.not_mem_nil,fun _ => rfl⟩).named n (same ▸ mem),?_⟩
    have fixed : q.map (escape keepsPath) = q := own.trans (same.symm.trans here)
    refine escapeSelf.mp ?_
    rw [← same,here] at mem
    obtain ⟨i,small,rfl⟩ := List.getElem_of_mem mem
    have each := congrArg (·[i]?) fixed
    simpa [small] using each
  · by_cases rooted : Rooted u.toURL
    · exact .inl rooted
    · have still := (loose rooted).1
      rw [landedUp rooted] at still
      refine .inr ⟨by omega,?_⟩
      rcases inside with none | top
      · exact none
      · rw [top,List.length_nil] at still
        omega

theorem spelledParts {q : Path} (one : ∀ n ∈ q, '/' ∉ n.toList) (filled : q ≠ []) :
    components (escape keepsPath (render q)) = "" :: q.map (escape keepsPath) := by
  rw [escapeRender slashKept,renderJoined,slashed,joinedComponents ?_ (by simpa using filled)]
  intro n mem
  obtain ⟨m,inside,rfl⟩ := List.mem_map.mp mem
  exact escapeOne (one m inside)

/- A text that the upstream has of its own path, behind which a request stands escaped,
is escaped in the same way. -/
theorem baseUsual {u : Parsed} {d q : List Name} (top : upstreamDirs u.toURL ≠ []) (one : ∀ n ∈ q, '/' ∉ n.toList) (some : d ≠ [])
    (oneD : ∀ n ∈ d, '/' ∉ n.toList) (filled : q ≠ [])
    (text : escape keepsPath (render q) = written u.toURL (upstreamDirs u.toURL) ++ "/" ++ joined d) :
    Usual u.toURL ∧ q.map (escape keepsPath) = (upstreamDirs u.toURL).map (escape keepsPath) ++ d := by
  have cut : "" :: q.map (escape keepsPath) = components (written u.toURL (upstreamDirs u.toURL)) ++ d := by
    have both := congrArg components text
    rwa [componentsJoin,joinedComponents oneD some,spelledParts one filled] at both
  rcases writtenEither u (upstreamDirs u.toURL) with usual | ⟨own,raw,valid⟩
  · rw [usual,spelledParts (dirsOne u.toURL) top,List.cons_append] at cut
    exact ⟨usualWritten.mpr usual,List.tail_eq_of_cons_eq cut⟩
  rcases writtenRaw raw valid own with same | ⟨lead,_⟩
  · -- What the text of the base has is the start of the escaped request.
    rw [same] at cut
    have whole : joined (components u.rawPath) = u.rawPath := by
      rw [joined,components,List.map_map]
      simp [Function.comp_def]
    obtain ⟨x,xs,shape⟩ := List.exists_cons_of_ne_nil (show components u.rawPath ≠ [] by simp [components])
    rw [shape,List.cons_append,List.cons.injEq] at cut
    obtain ⟨rfl,rest⟩ := cut
    obtain ⟨base,more,rfl,here,behind⟩ := List.map_eq_append_iff.mp rest
    have began : base ≠ [] := by
      rintro rfl
      rw [shape,← here] at whole
      exact raw (whole.symm.trans (by decide))
    have usual : u.rawPath = escape keepsPath (render base) := by
      rw [escapeRender slashKept,renderJoined,here,← whole,shape,joinedCons "" ?_]
      · rw [String.empty_append]
      · rw [← here]
        simpa using began
    have read : u.Encoded := u.settled.resolve_left raw
    have paths : render base = render (upstreamDirs u.toURL) := by
      apply bytesInj
      rw [URL.Encoded,usual,unescapeEscape (fun _ => keepsPlain)] at read
      rw [Option.some.inj read,own]
    have dirs := renderInj (fun n mem => one n (List.mem_append_left _ mem)) (dirsOne u.toURL) began top paths
    rw [← dirs]
    refine ⟨?_,by rw [List.map_append,behind]⟩
    rw [usualWritten,← dirs,← usual,dirs,same]
  · rw [lead] at cut
    have first : components ("./" ++ u.rawPath) = "." :: components u.rawPath := by
      have split := componentsJoin "." u.rawPath
      rwa [show components "." = ["."] by decide] at split
    rw [first,List.cons_append,List.cons.injEq] at cut
    exact absurd cut.1 (by decide)

theorem behindPath {u : Parsed} {p : String}
    (text : written u.toURL (placed (landed u.path ("/" ++ p))) = upstreamText u.toURL ++ "/" ++ joined (resolveDots [] (components p))) :
    Passes u.toURL ("/" ++ p) := by
  have filled : resolveDots [] (components p) ≠ [] := resolvedFilled _ _ (by simp [components])
  have parts := resolvedParts (components p) [] (componentsOne p) (by simp)
  have one : ∀ n ∈ placed (landed u.path ("/" ++ p)), '/' ∉ n.toList := placedOne (landedProper _ _)
  have lone (none : joined (resolveDots [] (components p)) = "") : resolveDots [] (components p) = [""] :=
    joinedEmpty (fun n mem => (parts n mem).2.2) filled none
  have root : escape keepsPath (render []) = "/" := by decide
  by_cases still : placed (landed u.path ("/" ++ p)) = upstreamDirs u.toURL
  · by_cases top : upstreamDirs u.toURL = []
    · rw [still,top,textNone.mpr top,String.empty_append] at text
      have rooted : Rooted u.toURL := by
        by_contra loose
        rcases placedLoose (Bool.eq_false_iff.mpr ((landedRooted u.toURL ("/" ++ p)).not.mpr loose)) with ⟨_,dot⟩ | ⟨some,whole⟩
        · rw [still,top] at dot
          cases dot
        · exact some (whole.symm.trans (still.trans top))
      have none : joined (resolveDots [] (components p)) = "" := by
        rcases writtenEither u [] with usual | ⟨own,raw,valid⟩
        · rw [usual,root] at text
          exact (String.append_right_inj "/").mp (text.symm.trans String.append_empty.symm)
        rcases writtenRaw raw valid own with same | ⟨lead,_⟩
        · have read : u.Encoded := u.settled.resolve_left raw
          rw [URL.Encoded,← same,text,own,String.toList_append,show "/".toList = ['/'] by decide,List.singleton_append,
            unescapePlain (by decide)] at read
          obtain ⟨bs,rest,whole⟩ := Option.map_eq_some_iff.mp read
          have empty : bs = [] := by
            have slash : bytes (render []).toList = String.utf8EncodeChar '/' ++ [] := by decide
            rw [slash] at whole
            exact List.append_cancel_left whole
          rw [empty] at rest
          exact String.toList_eq_nil_iff.mp (unescapeNone rest)
        · rw [lead] at text
          have first := congrArg String.toList text
          simp at first
      refine .root (lone none) top rooted ?_
      rw [usualWritten,top,text,none,root]
      rfl
    · rw [still,upstreamText,if_neg top] at text
      have count := congrArg String.length text
      rw [String.length_append,String.length_append,show "/".length = 1 by decide] at count
      omega
  · have usual : written u.toURL (placed (landed u.path ("/" ++ p))) = escape keepsPath (render (placed (landed u.path ("/" ++ p)))) := by
      rcases writtenEither u (placed (landed u.path ("/" ++ p))) with usual | ⟨own,_⟩
      · exact usual
      · have names := placedRooted ((landedRooted u.toURL ("/" ++ p)).mpr (ownRooted own))
        refine absurd (ownDirs ?_ own).symm still
        rw [names]
        exact (landedProper _ _).named
    rw [usual] at text
    have some : placed (landed u.path ("/" ++ p)) ≠ [] := by
      intro none
      have base : upstreamText u.toURL ≠ "" := textNone.not.mpr (fun top => still (none.trans top.symm))
      rw [none,root] at text
      have count := congrArg String.length text
      rw [String.length_append,String.length_append,show "/".length = 1 by decide] at count
      exact base (String.length_eq_zero_iff.mp (by omega))
    by_cases top : upstreamDirs u.toURL = []
    · rw [textNone.mpr top,String.empty_append,escapeRender slashKept,renderJoined,String.append_right_inj] at text
      refine namesBehind (q := placed (landed u.path ("/" ++ p))) (by rw [top,List.nil_append]) ?_ (fun other => absurd top other)
      refine joinedInj ?_ (fun n mem => (parts n mem).2.2) (by simpa using some) filled text
      intro n mem
      obtain ⟨m,inside,rfl⟩ := List.mem_map.mp mem
      exact escapeOne (one m inside)
    · rw [upstreamText,if_neg top] at text
      obtain ⟨same,cut⟩ := baseUsual top one filled (fun n mem => (parts n mem).2.2) some text
      obtain ⟨base,rest,shape,here,own⟩ := List.map_eq_append_iff.mp cut
      have dirs : base = upstreamDirs u.toURL := List.map_injective_iff.mpr (fun _ _ => escapeInj (fun _ => keepsPlain)) here
      exact namesBehind (dirs ▸ shape) own (fun _ => same)

theorem behindIff {u : Parsed} {rest : String} :
    Behind (upstreamText u.toURL) rest (written u.toURL (placed (landed u.path rest))) ↔ Passes u.toURL rest := by
  constructor
  · intro behind
    generalize shown : written u.toURL (placed (landed u.path rest)) = text at behind
    cases behind with
    | none =>
      obtain ⟨level,usual⟩ := (behindNone u).mp shown
      exact .none level usual
    | path p => exact behindPath shown
  · intro passes
    cases passes with
    | none level usual =>
      rw [(behindNone u).mpr ⟨level,usual⟩]
      exact .none
    | @root p slash top rooted usual =>
      have below : (relative p).names.Sublist [""] := by
        rw [relative,foldNames,← slash]
        exact resolvedSublist (components p) [] [] (List.Sublist.refl _)
      have proper : (relative p).Proper := foldProper (componentsOne p) ⟨fun n none => absurd none List.not_mem_nil,fun _ => rfl⟩
      have none : (relative p).names = [] := by
        refine List.eq_nil_iff_forall_not_mem.mpr ?_
        intro n mem
        exact (proper.named n mem).filled (List.mem_singleton.mp (below.subset mem))
      have here : placed (landed u.path ("/" ++ p)) = upstreamDirs u.toURL := by
        rw [placedRooted ((landedRooted u.toURL ("/" ++ p)).mpr rooted),landedNames,none,top]
        simp
      have text : written u.toURL (upstreamDirs u.toURL) = upstreamText u.toURL ++ "/" ++ joined (resolveDots [] (components p)) := by
        rw [usualWritten.mp usual,textNone.mpr top,top,slash]
        decide
      rw [here,text]
      exact .path p
    | @names p plain same inside level usual =>
      rw [passesNames plain same inside level usual]
      exact .path p

/- What is left of a request path is behind the prefix, or the path has no prefix to lose. -/
theorem requestedPath {r : Route} {u : Parsed} (rest : String) (begins : rest = "" ∨ ∃ p, rest = "/" ++ p) :
    joinedPath u.path (r.requested (r.stripped ++ rest)) = render (placed (landed u.path rest)) := by
  have plain : joinedPath u.path rest = render (placed (landed u.path rest)) := by
    rcases begins with rfl | ⟨p,rfl⟩
    · rw [joinedStill,landedNone]
    · rw [joinedFrom,landedPath]
  unfold Route.requested Route.stripped
  split
  · have cut : trimPrefix (r.pathPrefix ++ rest) r.pathPrefix = rest := by
      have starts : hasPrefix (r.pathPrefix ++ rest) r.pathPrefix = true := by simp [hasPrefix]
      rw [trimPrefix,if_pos starts,String.toList_append,← String.length_toList,List.drop_left,String.ofList_toList]
    dsimp only
    rw [cut]
    split
    · rename_i empty
      subst empty
      have slash := joinedFrom u.path ""
      rw [show components "" = [""] by decide,String.append_empty] at slash
      rw [slash,landedNone]
      rfl
    · exact plain
  · rw [String.empty_append,plain]

theorem targetRead {parse : String → Option Parsed} {r : Route} {u : Parsed} {rest : String} (read : parse r.upstreamURL = some u)
    (begins : rest = "" ∨ ∃ p, rest = "/" ++ p) (rawQuery : String) : r.target parse (r.stripped ++ rest) rawQuery =
      some {u.toURL with path := render (placed (landed u.path rest)), rawQuery := rawQuery} := by
  rw [Route.target,read,Option.map_some,requestedPath rest begins]

theorem shownWritten (u : URL) (q : Path) (rawQuery : String) :
    URL.shownPath {u with path := render q, rawQuery := rawQuery} = if u.opaque_ = "" then some (written u q) else none := rfl

theorem forwardedIff (parse : String → Option Parsed) (r : Route) (reqPath rawQuery : String) :
    Forwarded parse r reqPath rawQuery ↔ ∃ u rest, parse r.upstreamURL = some u ∧ u.opaque_ = "" ∧
      reqPath = r.stripped ++ rest ∧ Passes u.toURL rest := by
  have begins {u : URL} {rest : String} (passes : Passes u rest) : rest = "" ∨ ∃ p, rest = "/" ++ p := by
    cases passes with
    | none => exact .inl rfl
    | @root p => exact .inr ⟨p,rfl⟩
    | @names p => exact .inr ⟨p,rfl⟩
  constructor
  · rintro ⟨u,t,text,rest,read,target,shown,rfl,behind⟩
    have start : rest = "" ∨ ∃ p, rest = "/" ++ p := by
      cases behind with
      | none => exact .inl rfl
      | path p => exact .inr ⟨p,rfl⟩
    rw [targetRead read start,Option.some.injEq] at target
    rw [← target,shownWritten] at shown
    split at shown
    · rename_i direct
      rw [← Option.some.inj shown] at behind
      exact ⟨u,rest,read,direct,rfl,behindIff.mp behind⟩
    · cases shown
  · rintro ⟨u,rest,read,direct,rfl,passes⟩
    have shown := (shownWritten u.toURL (placed (landed u.path rest)) rawQuery).trans (if_pos direct)
    exact ⟨u,_,_,rest,read,targetRead read (begins passes) rawQuery,shown,rfl,behindIff.mpr passes⟩

theorem elsewhere {parse : String → Option Parsed} {r : Route} {u : Parsed} {p rawQuery : String} (read : parse r.upstreamURL = some u)
    (whole : r.stripped = "") (other : (r.target parse ("/" ++ p) rawQuery).bind URL.shownPath ≠
      some (upstreamText u.toURL ++ "/" ++ joined (resolveDots [] (components p)))) : ¬Forwarded parse r ("/" ++ p) rawQuery := by
  rintro ⟨v,t,text,rest,again,target,shown,cut,behind⟩
  cases Option.some.inj (read.symm.trans again)
  rw [whole,String.empty_append] at cut
  rw [target,Option.bind_some,shown] at other
  cases behind with
  | none =>
    have first := congrArg String.toList cut
    simp at first
  | path q =>
    rw [(String.append_right_inj "/").mp cut] at other
    exact other rfl

def oneHost : BuildInput := ⟨engineFiber,[sampleHost "1" "a.example" "http://up/base"],[],""⟩

def toBase : Route := rootRoute "" (sampleHost "1" "a.example" "http://up/base") "a.example"

def upBase : Parsed where
  scheme := "http"
  opaque_ := ""
  user := none
  host := "up"
  path := "/base"
  rawPath := ""
  omitHost := false
  forceQuery := false
  rawQuery := ""
  fragment := ""
  settled := .inl rfl
  hosted := fun _ => .inl rfl

/- A request path of the host that goes to a target which is not the one behind the base. -/
def Astray (rest target : String) : Prop :=
  (BuildTable ascii oneHost).Match ascii "a.example" ("/" ++ rest) = some toBase ∧
  toBase.TargetURL (fun _ => some upBase) ("/" ++ rest) "" = some target ∧
  ¬Forwarded (fun _ => some upBase) toBase ("/" ++ rest) ""

/- A separator at the end is gone, what was escaped is escaped again, and dots lead out of the base. -/
theorem pathsLost : Astray "x/" "http://up/base/x" ∧ Astray "a%20b" "http://up/base/a%2520b" ∧ Astray "../x" "http://up/x" := by
  refine ⟨⟨?_,?_,?_⟩,⟨?_,?_,?_⟩,⟨?_,?_,?_⟩⟩
  -- the route of the host, then the text of the target
  · decide +kernel
  · decide +kernel
  · exact elsewhere (u := upBase) rfl rfl (by decide +kernel)
  · decide +kernel
  · decide +kernel
  · exact elsewhere (u := upBase) rfl rfl (by decide +kernel)
  · decide +kernel
  · decide +kernel
  · exact elsewhere (u := upBase) rfl rfl (by decide +kernel)

end ContainerWS.Proxy
