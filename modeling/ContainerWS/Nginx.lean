import ContainerWS.GoPath
import ContainerWS.StableFirst
import Mathlib.Data.List.MinMax
import Mathlib.Data.List.Pairwise

/-! What nginx documents of its configuration: the server block and the location that a
request is for, and where a `return` sends it. Server names are compared as whole texts. -/
namespace Nginx
open GoPath GoStrings StableFirst

/- A text with variables. -/
inductive Piece where
  | text (s : String)
  | host
  | requestURI
  deriving DecidableEq, Repr

inductive Action where
  | answer (code : Nat) (url : List Piece)
  | pass (url : String)
  | page (code : Nat)
  | slash
  deriving DecidableEq, Repr

/- A prefix, or a regular expression without regard to case that is a choice of texts. -/
inductive Matcher where
  | start (s : String)
  | anyOf (texts : List String)
  deriving DecidableEq, Repr

/- A location, with its directives that no choice depends on. -/
structure Location where
  matcher : Matcher
  action : Action
  directives : List String
  deriving DecidableEq, Repr

/- A server block; one that answers itself looks for no location. -/
structure Server where
  listen : Nat
  ssl : Bool
  certificate : String
  key : String
  names : List String
  answer : Option (Nat × List Piece)
  locations : List Location
  deriving DecidableEq, Repr

/- The path that locations are compared with: without empty components and dots, but with its
last separator. One that leads above the root is refused. -/
def pushURI (p : Option Path) (n : Name) : Option Path :=
  match p with
  | none => none
  | some p =>
    if n = "" ∨ n = "." then some p
    else if n = ".." then (if p = [] then none else some p.dropLast)
    else some (p ++ [n])

def normalizedURI (path : String) : Option String :=
  ((components path).foldl pushURI (some [])).map (fun p =>
    if p ≠ [] ∧ (components path).getLast? ∈ [some "",some ".",some ".."] then render p ++ "/" else render p)

def Matcher.accepts (uri : String) : Matcher → Bool
  | .start s => hasPrefix uri s
  | .anyOf texts => texts.any (fun t => (uri.toList.map Char.toLower).tails.any (fun rest => t.toList.isPrefixOf rest))

def Location.start (l : Location) : Option String :=
  match l.matcher with
  | .start s => some s
  | .anyOf _ => none

def Location.length (l : Location) : Nat := (l.start.getD "").length

/- Regular expressions first; without one the location with the longest prefix. -/
def Server.location (s : Server) (uri : String) : Option Location :=
  match s.locations.find? (fun l => l.start.isNone && l.matcher.accepts uri) with
  | some l => some l
  | none => (s.locations.filter (fun l => l.start.isSome && l.matcher.accepts uri)).argmax Location.length

/- A location that is passed on sends the path without its last separator to the one with it. -/
def Location.moves (uri : String) (l : Location) : Bool :=
  match l.start,l.action with
  | some s,.pass _ => s = uri ++ "/"
  | _,_ => false

def Server.action (s : Server) (uri : String) : Option Action :=
  match s.answer with
  | some a => some (.answer a.1 a.2)
  | none => if s.locations.any (Location.moves uri) then some .slash else (s.location uri).map Location.action

/- The servers of a port; where one of them is for SSL the port is. -/
def plainServers (port : Nat) (servers : List Server) : List Server :=
  if servers.any (fun s => s.ssl && s.listen = port) then [] else servers.filter (fun s => s.listen = port)

/- The first server with a name of the request, or the first of all. -/
def serverFor {α : Type} (server : α → Server) (named : String → Bool) (l : List α) : Option α :=
  (l.find? (fun a => (server a).names.any named)).or l.head?

def Action.passable : Action → Bool
  | .pass url => hasPrefix url "http://" || hasPrefix url "https://"
  | _ => true

/- A configuration is taken in when no server has two locations with one prefix, each server for
SSL names its certificate, and requests are passed on over HTTP. -/
def Accepted (servers : List Server) : Prop :=
  ∀ s ∈ servers, (s.locations.filterMap Location.start).Nodup ∧ (s.ssl = true → s.certificate ≠ "" ∧ s.key ≠ "") ∧
    ∀ l ∈ s.locations, l.action.passable = true

instance (servers : List Server) : Decidable (Accepted servers) := inferInstanceAs (Decidable (∀ s ∈ servers, _))

/- What becomes of a plain request. -/
def chosen (servers : List Server) (port : Nat) (named : String → Bool) (path : String) : Option Action :=
  if Accepted servers then
    (normalizedURI path).bind (fun uri => (serverFor id named (plainServers port servers)).bind (fun s => s.action uri))
  else none

def Piece.value (host requestURI : String) : Piece → String
  | .text s => s
  | .host => host
  | .requestURI => requestURI

/- Where a `return` sends a request: a target on this server is completed. -/
def sentTo (port : Nat) (host requestURI : String) (url : List Piece) : String :=
  let target := String.join (url.map (Piece.value host requestURI))
  if hasPrefix target "/" then "http://" ++ host ++ (if port = 80 then "" else ":" ++ toString port) ++ target else target

def Action.location (port : Nat) (host requestURI : String) : Action → Option String
  | .answer _ url => some (sentTo port host requestURI url)
  | _ => none

theorem serverForMap {α : Type} {named : String → Bool} (f : α → Server) (l : List α) :
    serverFor id named (l.map f) = (serverFor f named l).map f := by
  unfold serverFor
  rw [List.find?_map,List.head?_map]
  exact Option.map_or.symm

theorem serverForMem {α : Type} {server : α → Server} {named : String → Bool} {l : List α} {x : α}
    (found : serverFor server named l = some x) : x ∈ l := by
  unfold serverFor at found
  rcases Option.or_eq_some_iff.mp found with has | ⟨_,first⟩
  · exact List.mem_of_find?_eq_some has
  · exact List.mem_of_mem_head? first

theorem plainServersMem {port : Nat} {servers : List Server} {s : Server} (mem : s ∈ plainServers port servers) :
    s ∈ servers ∧ s.ssl = false ∧ s.listen = port := by
  unfold plainServers at mem
  split at mem
  · cases mem
  · rename_i plain
    obtain ⟨inside,listens⟩ := List.mem_filter.mp mem
    have listens := of_decide_eq_true listens
    refine ⟨inside,?_,listens⟩
    by_contra secure
    exact plain (List.any_eq_true.mpr ⟨s,inside,by simp [listens,secure]⟩)

theorem uriRooted {path uri : String} (normal : normalizedURI path = some uri) : hasPrefix uri "/" = true := by
  unfold normalizedURI at normal
  obtain ⟨p,_,rfl⟩ := Option.map_eq_some_iff.mp normal
  split
  · simp [hasPrefix,render]
  · simp [hasPrefix,render]

/- No two locations of a server have one prefix. -/
theorem startSame {locations : List Location} (nodup : (locations.filterMap Location.start).Nodup) {l k : Location} (mem : l ∈ locations)
    (mem' : k ∈ locations) {p : String} (here : l.start = some p) (there : k.start = some p) : l = k := by
  have apart := List.pairwise_filterMap.mp nodup
  by_contra other
  have symm : Std.Symm (fun a b : Location => ∀ c, a.start = some c → ∀ d, b.start = some d → c ≠ d) :=
    ⟨fun _ _ held d second c first same => held c first d second same.symm⟩
  exact apart.forall mem mem' other p here p there rfl

/- Where no regular expression fits, the location is the one with the longest prefix. -/
theorem locationLongest {s : Server} {uri : String} {l : Location} (nodup : (s.locations.filterMap Location.start).Nodup)
    (plain : ∀ k ∈ s.locations, k.start = none → k.matcher.accepts uri = false) :
    s.location uri = some l ↔ l ∈ s.locations ∧ ∃ p, l.start = some p ∧ hasPrefix uri p = true ∧
      ∀ k ∈ s.locations, ∀ q, k.start = some q → hasPrefix uri q = true → q.length ≤ p.length := by
  have regular : s.locations.find? (fun l => l.start.isNone && l.matcher.accepts uri) = none := by
    rw [List.find?_eq_none]
    intro k mem fits
    obtain ⟨none,accepted⟩ := Bool.and_eq_true_iff.mp fits
    rw [plain k mem (Option.isNone_iff_eq_none.mp none)] at accepted
    cases accepted
  have accepts {k : Location} {q : String} (start : k.start = some q) : k.matcher.accepts uri = hasPrefix uri q := by
    unfold Location.start at start
    split at start <;> try contradiction
    rename_i matcher
    rw [matcher,← Option.some_inj.mp start,Matcher.accepts]
  have listed {k : Location} : k ∈ s.locations.filter (fun l => l.start.isSome && l.matcher.accepts uri) ↔
      k ∈ s.locations ∧ ∃ q, k.start = some q ∧ hasPrefix uri q = true := by
    rw [List.mem_filter,Bool.and_eq_true,Option.isSome_iff_exists]
    refine and_congr_right (fun _ => ?_)
    constructor
    · rintro ⟨⟨q,start⟩,fits⟩
      exact ⟨q,start,(accepts start) ▸ fits⟩
    · rintro ⟨q,start,fits⟩
      exact ⟨⟨q,start⟩,(accepts start).symm ▸ fits⟩
  have size {k : Location} {q : String} (start : k.start = some q) : k.length = q.length := by rw [Location.length,start,Option.getD_some]
  unfold Server.location
  rw [regular]
  constructor
  · intro best
    obtain ⟨mem,p,start,fits⟩ := listed.mp (List.argmax_mem best)
    refine ⟨mem,p,start,fits,?_⟩
    intro k inside q other reach
    have upTo := List.le_of_mem_argmax (listed.mpr ⟨inside,q,other,reach⟩) best
    rwa [size start,size other] at upTo
  · rintro ⟨mem,p,start,fits,longest⟩
    have inside := listed.mpr ⟨mem,p,start,fits⟩
    cases best : (s.locations.filter (fun l => l.start.isSome && l.matcher.accepts uri)).argmax Location.length with
    | none =>
      rw [List.argmax_eq_none.mp best] at inside
      cases inside
    | some k =>
      obtain ⟨there,q,other,reach⟩ := listed.mp (List.argmax_mem best)
      have upTo := List.le_of_mem_argmax inside best
      rw [size start,size other] at upTo
      have same : p = q := by
        have one : p.toList <+: uri.toList := List.isPrefixOf_iff_prefix.mp fits
        have two : q.toList <+: uri.toList := List.isPrefixOf_iff_prefix.mp reach
        have long : p.toList.length = q.toList.length := by
          rw [String.length_toList,String.length_toList]
          exact le_antisymm upTo (longest k there q other reach)
        exact String.toList_inj.mp ((List.prefix_of_prefix_length_le one two long.le).eq_of_length long)
      rw [startSame nodup there mem (same ▸ other) start]

/- The server for a name when the blocks stand in an order: the first that has it, or where none
has it the first of all. -/
def Effective {α : Type} (le : α → α → Prop) (server : α → Server) (named : String → Bool) (l : List α) (x : α) : Prop :=
  First le (fun a => (server a).names.any named) l x ∨
    (∀ y ∈ l, (server y).names.any named = false) ∧ First le (fun _ => true) l x

section
variable {α : Type} {le : α → α → Prop}

theorem effectiveMem {server : α → Server} {named : String → Bool} {l : List α} {x : α} (held : Effective le server named l x) : x ∈ l := by
  rcases held with first | ⟨_,first⟩
  · exact (firstMem first).1
  · exact (firstMem first).1

variable [DecidableRel le] [Std.Total le] [IsTrans α le]

/- Of the blocks in their order those that are kept. -/
theorem keptServer (server : α → Server) (named : String → Bool) (kept : α → Bool) (l : List α) (x : α) :
    serverFor server named ((l.insertionSort le).filter kept) = some x ↔ Effective le server named (l.filter kept) x := by
  have both : (fun a => decide (kept a = true ∧ (server a).names.any named = true)) = fun a => kept a && (server a).names.any named := by
    funext a
    rw [Bool.decide_and,Bool.decide_eq_true,Bool.decide_eq_true]
  have none : (∀ y ∈ l.insertionSort le, ¬(kept y && (server y).names.any named) = true) ↔
      ∀ y ∈ l.filter kept, (server y).names.any named = false := by
    simp only [List.mem_insertionSort,List.mem_filter,Bool.and_eq_true,not_and,Bool.not_eq_true,and_imp]
  unfold serverFor Effective
  rw [Option.or_eq_some_iff,List.find?_filter,both,sortedFind,firstFilter,List.find?_eq_none,none,List.head?_filter,sortedFind,firstFilter]
  simp only [Bool.and_true]

theorem sortedServer (server : α → Server) (named : String → Bool) (l : List α) (x : α) :
    serverFor server named (l.insertionSort le) = some x ↔ Effective le server named l x := by
  have all : serverFor server named ((l.insertionSort le).filter (fun _ => true)) = some x ↔
      Effective le server named (l.filter (fun _ => true)) x := keptServer server named (fun _ => true) l x
  rwa [List.filter_true,List.filter_true] at all

end

end Nginx
