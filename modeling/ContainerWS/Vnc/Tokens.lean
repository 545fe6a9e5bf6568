import ContainerWS.FormURL
import ContainerWS.GoBytes
import ContainerWS.TextRows
import Mathlib.Data.List.Infix

/-! What of a request's query the proxy of modules/novnc sends upstream: c.go cuts its own path off, auth.go the access token.
A text is its bytes, and a request target has no fragment. -/
namespace ContainerWS.Vnc
open FormURL GoBytes

/- `/novnc`. -/
def Prefix : List UInt8 := [0x2F,0x6E,0x6F,0x76,0x6E,0x63]

def slash : UInt8 := 0x2F

/- `access_token`. -/
def accessToken : List UInt8 := [0x61,0x63,0x63,0x65,0x73,0x73,0x5F,0x74,0x6F,0x6B,0x65,0x6E]

/- `path`. -/
def pathName : List UInt8 := [0x70,0x61,0x74,0x68]

/- The text that stripAccessTokenQuery looks for, and that a part begins with. -/
def mark : List UInt8 := accessToken ++ [equals]

/- What stands behind the first question mark. -/
def behind (uri : List UInt8) : List UInt8 := (uri.dropWhile (· != question)).drop 1

def stripPrefix (uri : List UInt8) : List UInt8 :=
  let stripped := if Prefix <+: uri then uri.drop Prefix.length else uri
  match stripped with
  | [] => [slash]
  | a :: rest => if a = question then slash :: a :: rest else a :: rest

def stripAccessTokenQuery (requestURI : List UInt8) : List UInt8 :=
  let pathPart := requestURI.takeWhile (· != question)
  let query := behind requestURI
  if query = [] ∨ ¬ mark <:+: query then requestURI
  else
    let kept := (query.splitOn ampersand).filter fun p => ¬ mark <+: p
    if kept = [] then pathPart else pathPart ++ question :: [ampersand].intercalate kept

/- The target of the request that goes upstream. -/
def forwarded (uri : List UInt8) : List UInt8 := stripAccessTokenQuery (stripPrefix uri)

/- The parameters of a query as they are spelled; nothing between two ampersands is none. -/
def parts (query : List UInt8) : List (List UInt8) := (query.splitOn ampersand).filter (· ≠ [])

def parameters (uri : List UInt8) : List (List UInt8) := parts (behind uri)

/- The query branch of extractAccessToken: the first parameter of that name, unless its value is blank. -/
def takesToken (uri : List UInt8) : Bool :=
  match ((parameters uri).map pair).find? (fun p => p.1 == accessToken) with
  | some p => !blank p.2
  | none => false

/- A parameter that says the token: by its name, or in the query of a path. -/
def Tells (p : List UInt8) : Prop :=
  (pair p).1 = accessToken ∨ ((pair p).1 = pathName ∧ ∃ q ∈ parts (query (pair p).2), (pair q).1 = accessToken)

instance (p : List UInt8) : Decidable (Tells p) := inferInstanceAs (Decidable (_ ∨ _))

/- No parameter that is sent tells the token, and all others are sent as they are. -/
def Withheld (uri : List UInt8) : Prop :=
  (∀ p ∈ parameters (forwarded uri), ¬ Tells p) ∧
  (parameters (forwarded uri)).filter (fun p => ¬ Tells p) = (parameters uri).filter fun p => ¬ Tells p

theorem behindMark {front more : List UInt8} (none : question ∉ front) : behind (front ++ question :: more) = more := by
  have before : ∀ b ∈ front, (b != question) = true := fun b mem => bne_iff_ne.mpr fun same => none (same ▸ mem)
  rw [behind,List.dropWhile_append_of_pos before,List.dropWhile_cons_of_neg (by simp)]
  rfl

theorem behindNone {uri : List UInt8} (none : question ∉ uri) : behind uri = [] := by
  have all : ∀ b ∈ uri, (b != question) = true := fun b mem => bne_iff_ne.mpr fun same => none (same ▸ mem)
  rw [behind,List.dropWhile_eq_nil_iff.mpr all,List.drop_nil]

/- The path that is cut off has no query. -/
theorem behindPrefix (uri : List UInt8) : behind (stripPrefix uri) = behind uri := by
  have cut : behind (if Prefix <+: uri then uri.drop Prefix.length else uri) = behind uri := by
    split
    · rename_i here
      obtain ⟨rest,rfl⟩ := here
      have before : ∀ b ∈ Prefix, (b != question) = true := List.all_eq_true.mp (by decide)
      rw [List.drop_left,behind,behind,List.dropWhile_append_of_pos before]
    · rfl
  rw [← cut]
  unfold stripPrefix
  dsimp only
  split
  · rename_i empty
    rw [empty]
    decide
  · rename_i a rest some
    rw [some]
    split
    · rfl
    · rfl

theorem partInfix {query p : List UInt8} (mem : p ∈ query.splitOn ampersand) : p <:+: query := by
  obtain ⟨left,right,rows⟩ := List.append_of_mem mem
  have whole : [ampersand].intercalate (query.splitOn ampersand) = query := List.intercalate_splitOn ampersand
  rw [← whole,rows]
  have front (left : List (List UInt8)) : p <:+: [ampersand].intercalate (left ++ p :: right) := by
    induction left with
    | nil =>
      cases right with
      | nil => simp
      | cons q right =>
        rw [List.nil_append,List.intercalate_cons_cons,List.append_assoc]
        exact (List.prefix_append p _).isInfix
    | cons q left ih =>
      obtain ⟨r,more,next⟩ := List.exists_cons_of_ne_nil (List.append_ne_nil_of_right_ne_nil left (List.cons_ne_nil p right))
      rw [List.cons_append,next,List.intercalate_cons_cons,← next]
      exact ih.trans (List.suffix_append _ _).isInfix
  exact front left

/- What is sent are the parameters that do not begin with the mark. -/
theorem parametersStripped (uri : List UInt8) :
    parameters (stripAccessTokenQuery uri) = (parameters uri).filter fun p => ¬ mark <+: p := by
  unfold stripAccessTokenQuery
  dsimp only
  split
  · rename_i quick
    refine (List.filter_eq_self.mpr fun p mem => ?_).symm
    have inside : p ∈ (behind uri).splitOn ampersand := (List.mem_filter.mp mem).1
    rw [decide_eq_true_eq]
    intro marked
    rcases quick with none | free
    · rw [none,List.splitOn_nil,List.mem_singleton] at inside
      rw [inside] at marked
      exact absurd (List.prefix_nil.mp marked) (by decide)
    · exact free (marked.isInfix.trans (partInfix inside))
  · have swap : (parameters uri).filter (fun p => ¬ mark <+: p) =
        (((behind uri).splitOn ampersand).filter fun p => ¬ mark <+: p).filter (· ≠ []) := by
      rw [parameters,parts,List.filter_filter,List.filter_filter]
      exact List.filter_congr fun p _ => Bool.and_comm _ _
    rw [swap]
    have front : question ∉ uri.takeWhile (· != question) := fun mem => absurd (List.mem_takeWhile_imp mem) (by simp)
    split
    · rename_i none
      rw [none,parameters,behindNone front]
      rfl
    · rename_i some
      rw [parameters,behindMark front,parts,List.splitOn_intercalate]
      · exact fun p mem => (TextRows.splitOnMem (List.mem_filter.mp mem).1).1
      · exact some

/- A parameter that is taken out is one of the name. -/
theorem markTells {p : List UInt8} (marked : mark <+: p) : Tells p := by
  obtain ⟨rest,rfl⟩ := marked
  have plain : ∀ b ∈ accessToken, b ≠ percent ∧ b ≠ plus :=
    fun b mem => of_decide_eq_true (List.all_eq_true.mp (by decide : accessToken.all (fun b => decide (b ≠ percent ∧ b ≠ plus)) = true) b mem)
  have before : ∀ b ∈ accessToken, (b != equals) = true := List.all_eq_true.mp (by decide)
  refine .inl ?_
  rw [pair,mark,List.append_assoc,List.singleton_append,List.takeWhile_append_of_pos before,List.takeWhile_cons_of_neg (by simp),
    List.append_nil,decodeName plain]

/- The token is withheld when every parameter that tells it is spelled with the mark. -/
theorem withheldIff (uri : List UInt8) : Withheld uri ↔ ∀ p ∈ parameters uri, Tells p → mark <+: p := by
  have sent : parameters (forwarded uri) = (parameters uri).filter fun p => ¬ mark <+: p := by
    rw [forwarded,parametersStripped,parameters,parameters,behindPrefix]
  unfold Withheld
  rw [sent]
  constructor
  · rintro ⟨clean,-⟩ p mem tells
    by_contra free
    exact clean p (List.mem_filter.mpr ⟨mem,by simpa using free⟩) tells
  · intro spelled
    refine ⟨?_,?_⟩
    · intro p mem tells
      obtain ⟨inside,free⟩ := List.mem_filter.mp mem
      exact absurd (spelled p inside tells) (by simpa using free)
    · rw [List.filter_filter]
      refine List.filter_congr fun p _ => ?_
      by_cases marked : mark <+: p
      · simp [markTells marked]
      · simp [marked]

/- `/novnc/x?access_token=T&path=w%3Faccess_token%3DT`: the path still has the token. -/
def nestedToken : List UInt8 := pathName ++ [equals,0x77] ++ escapeByte question ++ accessToken ++ escapeByte equals ++ [0x54]

theorem nestedSent : takesToken (Prefix ++ [slash,0x78,question] ++ mark ++ [0x54,ampersand] ++ nestedToken) = true ∧
    ¬ Withheld (Prefix ++ [slash,0x78,question] ++ mark ++ [0x54,ampersand] ++ nestedToken) :=
  ⟨by decide,fun held => held.1 nestedToken (by decide) (by decide)⟩

end ContainerWS.Vnc
