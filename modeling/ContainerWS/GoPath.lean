import ContainerWS.GoStrings

/-! The functions of Go's `path/filepath` on a system whose separator is `/`. A
cleaned absolute path is the list of its components, so the root is the empty one;
text from outside is cut into components first. -/
namespace GoPath
open GoStrings

abbrev Name := String
abbrev Path := List Name

/- What stands between the separators, empty components included. -/
def components (s : String) : List Name := (s.toList.splitOn '/').map String.ofList

/- A component that names something: not empty, not `.`, not `..`. -/
structure Plain (n : Name) : Prop where
  filled : n ≠ ""
  here : n ≠ "."
  up : n ≠ ".."
  one : '/' ∉ n.toList

instance (n : Name) : Decidable (Plain n) :=
  decidable_of_iff (n ≠ "" ∧ n ≠ "." ∧ n ≠ ".." ∧ '/' ∉ n.toList)
    ⟨fun ⟨a,b,c,d⟩ => ⟨a,b,c,d⟩,fun ⟨a,b,c,d⟩ => ⟨a,b,c,d⟩⟩

/- One component of `Clean`: an empty one and `.` go, `..` takes the one before it
away, and at the root there is nothing to take. -/
def push (p : Path) (n : Name) : Path :=
  if n = "" ∨ n = "." then p
  else if n = ".." then p.dropLast
  else p ++ [n]

/- `filepath.Clean` of an absolute path. -/
def clean (parts : List Name) : Path := parts.foldl push []

/- `filepath.Join` on a cleaned absolute path. -/
def join (p : Path) (s : String) : Path := (components s).foldl push p

/- The components of a path as the system reads it, from the root or from the
directory it is relative to. -/
def raw (cwd : Path) (s : String) : List Name :=
  match s.toList with
  | '/' :: rest => components (String.ofList rest)
  | _ => cwd ++ components s

def render (p : Path) : String := String.ofList ('/' :: ['/'].intercalate (p.map String.toList))

/- Without the separators at the end. -/
def stripped (parts : List Name) : List Name := parts.rdropWhile (fun n => n == "")

/- `filepath.Base`; the root has the name of the separator. -/
def base (parts : List Name) : Name := (stripped parts).getLast?.getD "/"

/- `filepath.Dir`. -/
def dir (parts : List Name) : Path := clean parts.dropLast

/- `filepath.Rel` for a path below the base. -/
def rel (base p : Path) : Path := p.drop base.length

/- `filepath.Ext`: from the last dot on. -/
def ext (n : Name) : String :=
  if '.' ∈ n.toList then String.ofList ('.' :: n.toList.rtakeWhile (fun c => c != '.')) else ""

/- `strings.TrimSuffix`. -/
def trimSuffix (s suffix : String) : String :=
  if suffix.toList.isSuffixOf s.toList then String.ofList (s.toList.take (s.length-suffix.length)) else s

theorem componentsFree {s : String} (free : '/' ∉ s.toList) : components s = [s] := by
  rw [components,List.splitOn_eq_singleton free]
  simp

/- The components of a path and of what is put below it. -/
theorem componentsJoin (s t : String) : components (s ++ "/" ++ t) = components s ++ components t := by
  have chars : (s ++ "/" ++ t).toList = s.toList ++ '/' :: t.toList := by simp
  rw [components,chars,List.splitOn_append_cons_self,List.map_append,components,components]

theorem splitFree (cs : List Char) : ∀ part ∈ cs.splitOn '/', '/' ∉ part := by
  induction cs with
  | nil => simp [List.splitOn_nil]
  | cons c cs ih =>
    rw [List.splitOn_cons_eq_if_modifyHead]
    split
    · intro part mem
      rcases List.mem_cons.mp mem with same | rest
      · simp [same]
      · exact ih part rest
    · rename_i other
      cases parts : cs.splitOn '/' with
      | nil => exact nofun
      | cons first rest =>
        rw [parts] at ih
        intro part mem
        rcases List.mem_cons.mp mem with same | inside
        · have clear := ih first (by simp)
          simp only [beq_iff_eq] at other
          simp [same,clear,Ne.symm other]
        · exact ih part (by simp [inside])

theorem componentsOne (s : String) (n : Name) (mem : n ∈ components s) : '/' ∉ n.toList := by
  obtain ⟨part,inside,same⟩ := List.mem_map.mp mem
  rw [← same,String.toList_ofList]
  exact splitFree _ part inside

theorem pushPlain {n : Name} (plain : Plain n) (p : Path) : push p n = p ++ [n] := by
  unfold push
  rw [if_neg (by simp [plain.filled,plain.here]),if_neg plain.up]

theorem joinPlain {n : Name} (plain : Plain n) (p : Path) : join p n = p ++ [n] := by
  rw [join,componentsFree plain.one]
  exact pushPlain plain p

theorem pushAll {parts : List Name} (plain : ∀ n ∈ parts, Plain n) (p : Path) : parts.foldl push p = p ++ parts := by
  induction parts generalizing p with
  | nil => simp
  | cons n parts ih =>
    rw [List.foldl_cons,pushPlain (plain n (by simp)),ih (fun n mem => plain n (by simp [mem]))]
    simp

end GoPath
