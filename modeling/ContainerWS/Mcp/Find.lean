import ContainerWS.Mcp.Selectors
import Mathlib.Data.List.Infix
import Mathlib.Data.Rat.Defs

/-! FindTool of modules/mcp/tools/browser/a11y.go: the script that looks for elements of a page. What the
browser knows of an element and what its selector engines answer is the page. -/
namespace ContainerWS.Mcp.Find
open GoStrings

structure FindInput where
  role : String
  name : String
  text : String
  selector : String
  exact : Bool
  limit : Int

structure Query where
  role : String
  name : String
  text : String
  selector : String
  exact : Bool
  limit : Nat
  deriving DecidableEq

def FindInput.query (input : FindInput) : Query :=
  let limit := if input.limit ≤ 0 then 10 else input.limit
  let limit := if 50 < limit then 50 else limit
  ⟨trimSpace input.role,trimSpace input.name,trimSpace input.text,trimSpace input.selector,input.exact,limit.toNat⟩

/- A selector engine gives nothing for an expression that it does not take; of an XPath some nodes are no elements. -/
structure Page (ε : Type) where
  tag : ε → String
  getAttribute : ε → String → Option String
  editable : ε → Bool
  innerText : ε → String
  textContent : ε → String
  style : ε → Option (String × String)
  box : ε → Rat × Rat
  querySelectorAll : String → Option (List ε)
  evaluate : String → Option (List (Option ε))
  escape : String → String

/- `window.__cwsRefs`, and the attribute that says the ref of an element. -/
structure Marks (ε : Type) where
  refs : List (String × ε)
  mark : ε → Option String

structure FindMatch where
  ref : String
  role : String
  name : String
  tag : String
  selector : String
  deriving DecidableEq

/- White space and line ends of a script. -/
def scriptSpace (c : Char) : Bool :=
  c = '\t' || c = '\n' || c = '\u000B' || c = '\u000C' || c = '\r' || c = ' ' || c = '\u00A0' || c = '\u1680' ||
  ('\u2000' ≤ c && c ≤ '\u200A') || c = '\u2028' || c = '\u2029' || c = '\u202F' || c = '\u205F' || c = '\u3000' || c = '\uFEFF'

def trim (s : String) : String := String.ofList ((s.toList.dropWhile scriptSpace).rdropWhile scriptSpace)

def norm (s : String) : String := String.ofList ([' '].intercalate ((s.toList.splitOnP scriptSpace).filter (fun word => word ≠ [])))

/- `slice(0, n)` counts units of 16 bits; a pair that it would cut is left out. -/
def sliceUnits : Nat → List Char → List Char
  | _, [] => []
  | n, c :: cs =>
    let units := if 0xFFFF < c.toNat then 2 else 1
    if units ≤ n then c :: sliceUnits (n-units) cs else []

/- A selector as the script tells it. -/
inductive Form where
  | none
  | ref (id : String)
  | role (found : Option (String × String × String × String))
  | label (name : String)
  | placeholder (want : String)
  | text (text : String)
  | xpath (xp : String)
  | css (sel : String)
  deriving DecidableEq

/- The forms that say which elements, and not what they are like. -/
def Form.denotes : Form → Bool
  | .ref _ => true
  | .placeholder _ => true
  | .xpath _ => true
  | .css _ => true
  | _ => false

/- The letters of a class without regard to case: a script folds none beyond ASCII to them. -/
def scriptRoleChar (c : Char) : Bool := ('a' ≤ c && c ≤ 'z') || ('A' ≤ c && c ≤ 'Z') || ('0' ≤ c && c ≤ '9') || c = '_' || c = '-'

/- The groups of `^role=([a-z0-9_-]+)(?:\[name=(?:"([^"]*)"|'([^']*)'|([^\]]+))\])?$`. -/
def roleMatch (sel : String) : Option (String × String × String × String) := do
  let cs ← foldPrefix "role=".toList sel.toList
  let role := String.ofList (cs.takeWhile scriptRoleChar)
  if role = "" then none
  else if cs.dropWhile scriptRoleChar = [] then some (role,"","","")
  else
    let inside ← foldPrefix "[name=".toList (cs.dropWhile scriptRoleChar)
    let name ← roleName inside
    some (role,name)

def after (n : Nat) (sel : String) : String := String.ofList (sel.toList.drop n)

section
variable (lower : String → String) {ε : Type} (page : Page ε)

def readForm (q : Query) : Form :=
  let sel := q.selector
  if sel = "" then .none
  else if hasPrefix (lower sel) "ref=" then .ref (trim (after 4 sel))
  else if hasPrefix (lower sel) "role=" then .role (roleMatch sel)
  else if hasPrefix (lower sel) "label=" then .label (trim (after 6 sel))
  else if hasPrefix (lower sel) "placeholder=" then .placeholder (lower (trim (after 12 sel)))
  else if hasPrefix (lower sel) "text=" then .text (trim (after 5 sel))
  else if hasPrefix sel "//" || hasPrefix (lower sel) "xpath=" then .xpath (if hasPrefix (lower sel) "xpath=" then after 6 sel else sel)
  else .css sel

/- `includes`. -/
def includes (s t : String) : Bool := decide (t.toList <:+: s.toList)

def matchName (q : Query) (got want : String) : Bool :=
  if want = "" then true
  else
    let a := lower (norm got)
    let b := lower (norm want)
    if q.exact then a == b else includes a b

def isVisible (el : ε) : Bool :=
  match page.style el with
  | none => false
  | some (display,visibility) => display != "none" && visibility != "hidden" && decide (0 < (page.box el).1) && decide (0 < (page.box el).2)

def attributeText (el : ε) (name : String) : String := (page.getAttribute el name).getD ""

def inputRole (type : String) : String :=
  if ["button","submit","reset","image"].contains type then "button"
  else if type = "checkbox" then "checkbox"
  else if type = "radio" then "radio"
  else "textbox"

def implicitRole (el : ε) : String :=
  let explicit := lower (attributeText page el "role")
  let tag := page.tag el
  if explicit ≠ "" then explicit
  else if tag = "a" ∧ (page.getAttribute el "href").isSome then "link"
  else if tag = "button" then "button"
  else if tag = "input" then inputRole (lower (attributeText page el "type"))
  else if tag = "textarea" then "textbox"
  else if tag = "select" then "combobox"
  else if ["h1","h2","h3","h4","h5","h6"].contains tag then "heading"
  else if page.editable el then "textbox"
  else ""

/- `el.innerText || el.textContent`. -/
def shownText (el : ε) : String := if page.innerText el ≠ "" then page.innerText el else page.textContent el

/- The label that names the element by its id. -/
def labelOf (el : ε) : Option ε :=
  if attributeText page el "id" = "" then none
  else (page.querySelectorAll ("label[for=\"" ++ page.escape (attributeText page el "id") ++ "\"]")).bind List.head?

def accName (el : ε) : String :=
  if attributeText page el "aria-label" ≠ "" then norm (attributeText page el "aria-label")
  else
    match labelOf page el with
    | some lab => norm (page.textContent lab)
    | none =>
      if attributeText page el "placeholder" ≠ "" then norm (attributeText page el "placeholder")
      else String.ofList (sliceUnits 80 (norm (shownText page el)).toList)

def cssHint (el : ε) : String :=
  if attributeText page el "id" ≠ "" then "#" ++ page.escape (attributeText page el "id")
  else if attributeText page el "name" ≠ "" then page.tag el ++ "[name=\"" ++ attributeText page el "name" ++ "\"]"
  else if attributeText page el "data-testid" ≠ "" then "[data-testid=\"" ++ attributeText page el "data-testid" ++ "\"]"
  else page.tag el

/- The first name that is not taken, from the number of names on. -/
def freeRef (refs : List (String × ε)) : String :=
  (((List.range (refs.length+1)).map fun i => "e" ++ (refs.length+1+i).repr).find? fun ref => (refs.lookup ref).isNone).getD ""

variable [DecidableEq ε]

def ensureRef (s : Marks ε) (el : ε) : Marks ε × String :=
  let existing := (s.mark el).getD ""
  if existing ≠ "" ∧ s.refs.lookup existing = some el then (s,existing)
  else
    let ref := freeRef s.refs
    (⟨(ref,el) :: s.refs,fun other => if other = el then some ref else s.mark other⟩,ref)

/- What role, name and text ask for. -/
def asks (q : Query) (el : ε) : Bool :=
  (q.role == "" || implicitRole lower page el == lower q.role) &&
  (q.name == "" || matchName lower q (accName page el) q.name) &&
  (q.text == "" || matchName lower q (shownText page el) q.text)

def passes (q : Query) (el : ε) : Bool := isVisible page el && asks lower page q el

/- What the selector says in place of the role, the name or the text. -/
def replaced (q : Query) : Form → Query
  | .role (some (role,double,single,bare)) =>
    {q with
      role := role
      name := if double ≠ "" then double else if single ≠ "" then single else if trim bare ≠ "" then trim bare else q.name}
  | .label name => {q with name := name}
  | .text text => {q with text := text}
  | _ => q

def placeholderSelector : String := "input[placeholder],textarea[placeholder]"

/- The nodes that the selector denotes, as far as it denotes any. -/
def denoted (refs : List (String × ε)) (q : Query) : Form → Option (List (Option ε))
  | .ref id => some ((refs.lookup id).map some).toList
  | .placeholder want => (page.querySelectorAll placeholderSelector).map fun els =>
      (els.filter fun el =>
        let ph := lower (attributeText page el "placeholder")
        if q.exact then ph == want else includes ph want).map some
  | .xpath xp => page.evaluate xp
  | .css sel => (page.querySelectorAll sel).map (List.map some)
  | _ => some []

def defaultSelector : String := "a,button,input,textarea,select,[role],[contenteditable=\"true\"],h1,h2,h3,h4,h5,h6"

def candidates (refs : List (String × ε)) (q : Query) (form : Form) : Option (List (Option ε)) :=
  match denoted lower page refs q form with
  | none => none
  | some [] => (page.querySelectorAll defaultSelector).map (List.map some)
  | some nodes => some nodes

/- The loop over the candidates, up to the limit. -/
def collect (q : Query) : List (Option ε) → Marks ε → List (ε × FindMatch) → Marks ε × List (ε × FindMatch)
  | [], s, out => (s,out)
  | none :: rest, s, out => collect q rest s out
  | some el :: rest, s, out =>
    if passes lower page q el then
      let (s,ref) := ensureRef s el
      let out := out ++ [(el,⟨ref,implicitRole lower page el,accName page el,page.tag el,cssHint page el⟩)]
      if q.limit ≤ out.length then (s,out) else collect q rest s out
    else collect q rest s out

/- The script; an engine that throws ends it. -/
def find (s : Marks ε) (q : Query) : Option (Marks ε × List (ε × FindMatch)) :=
  (candidates lower page s.refs q (readForm lower q)).map fun nodes => collect lower page (replaced q (readForm lower q)) nodes s []

end

/- The first elements of a list that pass are those with few before them that do. -/
theorem takeFilter {α : Type} (p : α → Bool) (l : List α) (n : Nat) (x : α) :
    x ∈ (l.filter p).take n ↔ ∃ front rest, l = front ++ x :: rest ∧ front.countP p < n ∧ p x = true := by
  induction l generalizing n with
  | nil => simp
  | cons y l ih =>
    -- what stands in front of x is nothing, or it begins with y
    have shapes : (∃ front rest, y :: l = front ++ x :: rest ∧ front.countP p < n ∧ p x = true) ↔
        (y = x ∧ 0 < n ∧ p x = true) ∨ ∃ front rest, l = front ++ x :: rest ∧ (y :: front).countP p < n ∧ p x = true := by
      constructor
      · rintro ⟨front,rest,shape,few,good⟩
        cases front with
        | nil => exact .inl ⟨(List.cons.inj shape).1,few,good⟩
        | cons z front =>
          obtain ⟨same,tail⟩ := List.cons.inj shape
          exact .inr ⟨front,rest,tail,same ▸ few,good⟩
      · rintro (⟨rfl,few,good⟩ | ⟨front,rest,rfl,few,good⟩)
        · exact ⟨[],l,rfl,few,good⟩
        · exact ⟨y :: front,rest,rfl,few,good⟩
    rw [shapes]
    by_cases here : p y = true
    · rw [List.filter_cons_of_pos here]
      simp only [List.countP_cons_of_pos here]
      cases n with
      | zero => simp
      | succ n =>
        rw [List.take_succ_cons,List.mem_cons,ih n]
        simp only [Nat.add_lt_add_iff_right]
        constructor
        · rintro (rfl | inside)
          · exact .inl ⟨rfl,Nat.succ_pos n,here⟩
          · exact .inr inside
        · rintro (⟨rfl,_⟩ | inside)
          · exact .inl rfl
          · exact .inr inside
    · rw [List.filter_cons_of_neg here,ih n]
      simp only [List.countP_cons_of_neg here]
      constructor
      · exact .inr
      · rintro (⟨rfl,_,good⟩ | inside)
        · exact absurd good here
        · exact inside

variable {lower : String → String} {ε : Type} {page : Page ε}

/- The element is one of those that the selector denotes, and it is what the query and the selector ask for. -/
structure Satisfies (lower : String → String) (page : Page ε) (refs : List (String × ε)) (q : Query) (el : ε) : Prop where
  selected : (readForm lower q).denotes = true → ∀ nodes, denoted lower page refs q (readForm lower q) = some nodes → some el ∈ nodes
  asked : asks lower page q el = true
  instead : asks lower page (replaced q (readForm lower q)) el = true

/- A selector that denotes finds something, or no default candidate passes; where another one replaces what is asked for, each
default candidate that passes, with fewer than the limit before it that do, is what the query asks for. -/
structure Sound (lower : String → String) (page : Page ε) (refs : List (String × ε)) (q : Query) (defaults : List ε) : Prop where
  found : (readForm lower q).denotes = true → denoted lower page refs q (readForm lower q) = some [] →
    ∀ el ∈ defaults, passes lower page q el = false
  agrees : (readForm lower q).denotes = false → ∀ front el rest, defaults = front ++ el :: rest →
    front.countP (passes lower page (replaced q (readForm lower q))) < q.limit →
    passes lower page (replaced q (readForm lower q)) el = true → asks lower page q el = true

theorem limitSome (input : FindInput) : 0 < input.query.limit := by
  unfold FindInput.query
  dsimp only
  split <;> split <;> omega

theorem replacedLimit (q : Query) (form : Form) : (replaced q form).limit = q.limit := by
  unfold replaced
  split <;> rfl

theorem replacedDenotes (q : Query) {form : Form} (denotes : form.denotes = true) : replaced q form = q := by
  cases form <;> first | rfl | cases denotes

theorem deniedNothing (refs : List (String × ε)) (q : Query) {form : Form} (denotes : form.denotes = false) :
    denoted lower page refs q form = some [] := by
  cases form <;> first | rfl | cases denotes

variable [DecidableEq ε]

/- What the loop returns: the first elements that pass. -/
theorem collectElements (q : Query) (nodes : List (Option ε)) (s : Marks ε) (out : List (ε × FindMatch)) (room : out.length < q.limit) :
    (collect lower page q nodes s out).2.map Prod.fst =
      out.map Prod.fst ++ ((nodes.filterMap id).filter (passes lower page q)).take (q.limit-out.length) := by
  induction nodes generalizing s out with
  | nil => simp [collect]
  | cons node rest ih =>
    cases node with
    | none =>
      rw [collect,ih s out room,List.filterMap_cons_none rfl]
    | some el =>
      rw [collect,List.filterMap_cons_some (show id (some el) = some el from rfl)]
      by_cases here : passes lower page q el = true
      · rw [if_pos here,List.filter_cons_of_pos here]
        dsimp only
        obtain ⟨left,more⟩ := Nat.exists_eq_add_of_lt room
        split
        · rename_i full
          rw [List.length_append,List.length_singleton] at full
          have one : q.limit-out.length = 1 := by omega
          simp [one]
        · rename_i free
          rw [ih _ _ (Nat.not_le.mp free),List.length_append,List.length_singleton]
          have next : q.limit-out.length = q.limit-(out.length+1)+1 := by
            rw [List.length_append,List.length_singleton] at free
            omega
          rw [next,List.take_succ_cons]
          simp
      · rw [if_neg here,List.filter_cons_of_neg here]
        exact ih s out room

section
variable {s : Marks ε} {q : Query} {out : Marks ε × List (ε × FindMatch)}

/- What the script returns, of the candidates it goes through. -/
theorem findElements (some : 0 < q.limit) {nodes : List (Option ε)}
    (here : candidates lower page s.refs q (readForm lower q) = .some nodes) (ran : find lower page s q = .some out) :
    out.2.map Prod.fst = ((nodes.filterMap id).filter (passes lower page (replaced q (readForm lower q)))).take q.limit := by
  unfold find at ran
  rw [here] at ran
  cases ran
  rw [collectElements _ _ _ _ (by rwa [replacedLimit]),replacedLimit]
  rfl

/- The selector denotes nodes: what is returned is among them. -/
theorem foundSatisfies (positive : 0 < q.limit) (denotes : (readForm lower q).denotes = true) {node : Option ε} {nodes : List (Option ε)}
    (here : denoted lower page s.refs q (readForm lower q) = some (node :: nodes)) (ran : find lower page s q = some out) :
    ∀ x ∈ out.2, Satisfies lower page s.refs q x.1 := by
  intro x mem
  have same := replacedDenotes q denotes
  have all : candidates lower page s.refs q (readForm lower q) = some (node :: nodes) := by rw [candidates,here]
  have inside : x.1 ∈ out.2.map Prod.fst := List.mem_map_of_mem mem
  rw [findElements positive all ran,same] at inside
  obtain ⟨listed,passed⟩ := List.mem_filter.mp (List.mem_of_mem_take inside)
  have asked := (Bool.and_eq_true _ _ ▸ passed : isVisible page x.1 = true ∧ asks lower page q x.1 = true).2
  refine ⟨?_,asked,by rwa [same]⟩
  intro _ others these
  rw [here] at these
  cases these
  simpa using listed

/- Nothing is denoted: the default candidates are gone through. -/
theorem defaultsSatisfy (positive : 0 < q.limit) (here : denoted lower page s.refs q (readForm lower q) = some []) {defaults : List ε}
    (these : page.querySelectorAll defaultSelector = some defaults) (ran : find lower page s q = some out) :
    (∀ x ∈ out.2, Satisfies lower page s.refs q x.1) ↔ Sound lower page s.refs q defaults := by
  have all : candidates lower page s.refs q (readForm lower q) = some (defaults.map some) := by
    rw [candidates,here]
    dsimp only
    rw [these]
    rfl
  have returned := findElements positive all ran
  have plain : (defaults.map some).filterMap id = defaults := by simp
  rw [plain] at returned
  cases denotes : (readForm lower q).denotes with
  | true =>
    rw [replacedDenotes q denotes] at returned
    constructor
    · intro satisfy
      refine ⟨fun _ _ el mem => ?_,fun other => absurd (denotes.symm.trans other) (by decide)⟩
      by_contra passes
      rw [Bool.not_eq_false] at passes
      -- the first that passes is returned, and no element is denoted
      obtain ⟨first,rest,shape⟩ := List.exists_cons_of_ne_nil (List.ne_nil_of_mem (List.mem_filter.mpr ⟨mem,passes⟩))
      have inside : first ∈ out.2.map Prod.fst := by
        rw [returned,shape,← Nat.succ_pred_eq_of_pos positive,List.take_succ_cons]
        exact List.mem_cons_self
      obtain ⟨x,back,rfl⟩ := List.mem_map.mp inside
      exact absurd ((satisfy x back).selected denotes [] here) List.not_mem_nil
    · intro sound x mem
      have inside : x.1 ∈ out.2.map Prod.fst := List.mem_map_of_mem mem
      rw [returned] at inside
      obtain ⟨listed,passed⟩ := List.mem_filter.mp (List.mem_of_mem_take inside)
      rw [sound.found denotes here x.1 listed] at passed
      cases passed
  | false =>
    have shown (el : ε) : el ∈ out.2.map Prod.fst ↔ ∃ front rest, defaults = front ++ el :: rest ∧
        front.countP (passes lower page (replaced q (readForm lower q))) < q.limit ∧
        passes lower page (replaced q (readForm lower q)) el = true := by
      rw [returned]
      exact takeFilter _ _ _ _
    constructor
    · intro satisfy
      refine ⟨fun other => absurd (denotes.symm.trans other) (by decide),?_⟩
      intro _ front el rest shape few passed
      obtain ⟨x,back,rfl⟩ := List.mem_map.mp ((shown el).mpr ⟨front,rest,shape,few,passed⟩)
      exact (satisfy x back).asked
    · intro sound x mem
      obtain ⟨front,rest,shape,few,passed⟩ := (shown x.1).mp (List.mem_map_of_mem mem)
      have instead := passed
      rw [passes,Bool.and_eq_true] at instead
      exact ⟨fun other => absurd (denotes.symm.trans other) (by decide),sound.agrees denotes front x.1 rest shape few passed,instead.2⟩

end

/- Every element that is returned satisfies the query if and only if, for the default candidates of the page, a selector that
denotes is not passed over and one that asks for something else does not let another element through. -/
theorem findIff (lower : String → String) (page : Page ε) (s : Marks ε) (input : FindInput) :
    (∀ out, find lower page s input.query = some out → ∀ x ∈ out.2, Satisfies lower page s.refs input.query x.1) ↔
    ∀ defaults, page.querySelectorAll defaultSelector = some defaults → Sound lower page s.refs input.query defaults := by
  have positive := limitSome input
  generalize input.query = q at positive
  -- where nodes are denoted, or an engine throws, the default candidates do not matter
  have unused (more : denoted lower page s.refs q (readForm lower q) ≠ some []) (defaults : List ε) : Sound lower page s.refs q defaults :=
    ⟨fun _ none => absurd none more,fun other => absurd (deniedNothing s.refs q other) more⟩
  cases here : denoted lower page s.refs q (readForm lower q) with
  | none =>
    refine iff_of_true ?_ fun defaults _ => unused (by rw [here]; simp) defaults
    intro out ran
    rw [find,candidates,here] at ran
    cases ran
  | some nodes =>
    cases nodes with
    | nil =>
      cases these : page.querySelectorAll defaultSelector with
      | none =>
        refine iff_of_true ?_ fun _ none => absurd none (by simp)
        intro out ran
        rw [find,candidates,here] at ran
        dsimp only at ran
        rw [these] at ran
        cases ran
      | some defaults =>
        have ran : find lower page s q = some (collect lower page (replaced q (readForm lower q)) (defaults.map some) s []) := by
          rw [find,candidates,here]
          dsimp only
          rw [these]
          rfl
        constructor
        · intro satisfy _ same
          cases same
          exact (defaultsSatisfy positive here these ran).mp (satisfy _ ran)
        · intro sound out other
          exact (defaultsSatisfy positive here these other).mpr (sound defaults rfl)
    | cons node nodes =>
      have denotes : (readForm lower q).denotes = true := by
        by_contra other
        rw [deniedNothing s.refs q (Bool.not_eq_true _ ▸ other)] at here
        cases here
      exact iff_of_true (fun out ran => foundSatisfies positive denotes here ran) fun defaults _ => unused (by rw [here]; simp) defaults

/- A page with one button. -/
def onePage : Page Nat where
  tag _ := "button"
  getAttribute _ _ := none
  editable _ := false
  innerText _ := "Delete all"
  textContent _ := "Delete all"
  style _ := some ("block","visible")
  box _ := (80,24)
  querySelectorAll sel := if sel = defaultSelector then some [0] else some []
  evaluate _ := some []
  escape s := s

def noMarks : Marks Nat := ⟨[],fun _ => none⟩

def byId : FindInput := ⟨"","","","#save",false,0⟩

/- A selector that denotes no element gives the button. -/
theorem fallsBack :
    denoted ascii.toLower onePage [] byId.query (readForm ascii.toLower byId.query) = some [] ∧
    (find ascii.toLower onePage noMarks byId.query).map (fun out => out.2.map Prod.fst) = some [0] ∧
    ¬ Satisfies ascii.toLower onePage [] byId.query 0 := by
  have nothing : denoted ascii.toLower onePage [] byId.query (readForm ascii.toLower byId.query) = some [] := by decide
  refine ⟨nothing,by decide,fun satisfied => ?_⟩
  exact absurd (satisfied.selected (by decide) [] nothing) List.not_mem_nil

end ContainerWS.Mcp.Find
