import ContainerWS.GoPath

/-! `filepath.Clean` of any path, and `filepath.Rel` between absolute ones. A cleaned path is absolute, or it
first goes up some directories; then it names what it leads to. -/
namespace GoPath
open GoStrings

structure Cleaned where
  rooted : Bool
  up : Nat
  names : Path
  deriving DecidableEq, Repr

/- At the root there is nothing above; else what is above is not known. -/
def Cleaned.push (c : Cleaned) (n : Name) : Cleaned :=
  if n = "" ∨ n = "." then c
  else if n = ".." then
    if c.names ≠ [] then {c with names := c.names.dropLast} else if c.rooted then c else {c with up := c.up+1}
  else {c with names := c.names ++ [n]}

def cleaned (s : String) : Cleaned := (components s).foldl Cleaned.push ⟨hasPrefix s "/",0,[]⟩

def joined (parts : List Name) : String := String.ofList (['/'].intercalate (parts.map String.toList))

def Cleaned.parts (c : Cleaned) : List Name := List.replicate c.up ".." ++ c.names

def Cleaned.text (c : Cleaned) : String :=
  if c.rooted then render c.names else if c.parts = [] then "." else joined c.parts

/- `filepath.Clean`. -/
def cleanText (s : String) : String := (cleaned s).text

def relParts : Path → Path → List Name
  | b :: base, t :: target => if b = t then relParts base target else List.replicate (base.length+1) ".." ++ t :: target
  | base, target => List.replicate base.length ".." ++ target

/- `filepath.Rel` on cleaned absolute paths. -/
def Rel (base target : Path) : String := if relParts base target = [] then "." else joined (relParts base target)

theorem pushNames (c : Cleaned) (n : Name) : (c.push n).names = push c.names n := by
  unfold Cleaned.push push
  split
  · rfl
  split
  · split
    · rfl
    · rename_i empty
      rw [ne_eq,not_not] at empty
      split <;> simp [empty]
  · rfl

theorem pushRooted (c : Cleaned) (n : Name) : (c.push n).rooted = c.rooted := by
  unfold Cleaned.push
  split
  · rfl
  split
  · split
    · rfl
    · split <;> rfl
  · rfl

theorem foldNames (parts : List Name) (c : Cleaned) : (parts.foldl Cleaned.push c).names = parts.foldl push c.names := by
  induction parts generalizing c with
  | nil => rfl
  | cons n parts ih => rw [List.foldl_cons,List.foldl_cons,ih,pushNames]

theorem foldRooted (parts : List Name) (c : Cleaned) : (parts.foldl Cleaned.push c).rooted = c.rooted := by
  induction parts generalizing c with
  | nil => rfl
  | cons n parts ih => rw [List.foldl_cons,ih,pushRooted]

theorem cleanedNames (s : String) : (cleaned s).names = clean (components s) := foldNames _ _

theorem cleanedRooted (s : String) : (cleaned s).rooted = hasPrefix s "/" := foldRooted _ _

/- What cleaning leaves: names, and nothing above the root. -/
structure Cleaned.Proper (c : Cleaned) : Prop where
  named : ∀ n ∈ c.names, Plain n
  still : c.rooted = true → c.up = 0

theorem pushProper {c : Cleaned} {n : Name} (proper : c.Proper) (one : '/' ∉ n.toList) : (c.push n).Proper := by
  unfold Cleaned.push
  split
  · exact proper
  · rename_i filled
    obtain ⟨filled,here⟩ := not_or.mp filled
    split
    · split
      · exact ⟨fun m inside => proper.named m (List.dropLast_subset _ inside),proper.still⟩
      · split
        · exact proper
        · rename_i loose
          exact ⟨proper.named,fun rooted => absurd rooted loose⟩
    · rename_i up
      refine ⟨?_,proper.still⟩
      intro m inside
      rcases List.mem_append.mp inside with old | new
      · exact proper.named m old
      · rw [List.mem_singleton.mp new]
        exact ⟨filled,here,up,one⟩

theorem cleanedProper (s : String) : (cleaned s).Proper := by
  have each : ∀ (parts : List Name) (c : Cleaned), (∀ n ∈ parts, '/' ∉ n.toList) → c.Proper → (parts.foldl Cleaned.push c).Proper := by
    intro parts
    induction parts with
    | nil => exact fun _ _ proper => proper
    | cons n parts ih =>
      intro c one proper
      exact ih _ (fun m inside => one m (List.mem_cons_of_mem _ inside)) (pushProper proper (one n List.mem_cons_self))
  exact each _ _ (componentsOne s) ⟨fun _ none => absurd none List.not_mem_nil,fun _ => rfl⟩

theorem joinedComponents {parts : List Name} (one : ∀ n ∈ parts, '/' ∉ n.toList) (filled : parts ≠ []) :
    components (joined parts) = parts := by
  have cut : (['/'].intercalate (parts.map String.toList)).splitOn '/' = parts.map String.toList := by
    apply List.splitOn_intercalate
    · intro part mem
      obtain ⟨n,inside,same⟩ := List.mem_map.mp mem
      exact same ▸ one n inside
    · simpa using filled
  rw [components,joined,String.toList_ofList,cut,List.map_map]
  simp [Function.comp_def]

theorem joinedCons (n : Name) {rest : List Name} (more : rest ≠ []) : joined (n :: rest) = n ++ "/" ++ joined rest := by
  obtain ⟨m,rest,rfl⟩ := List.exists_cons_of_ne_nil more
  apply String.toList_inj.mp
  simp [joined]

theorem joinedOne (n : Name) : joined [n] = n := by
  simp [joined]

theorem partsOne {c : Cleaned} (proper : c.Proper) : ∀ n ∈ c.parts, '/' ∉ n.toList := by
  intro n inside
  rcases List.mem_append.mp inside with above | below
  · rw [List.eq_of_mem_replicate above]
    decide
  · exact (proper.named n below).one

/- The first of the parts is a name when the path does not go up. -/
theorem partsUp {c : Cleaned} (proper : c.Proper) : c.parts.head? = some ".." ↔ 0 < c.up := by
  unfold Cleaned.parts
  cases c.up with
  | zero =>
    refine iff_of_false ?_ (Nat.lt_irrefl 0)
    rw [List.replicate_zero,List.nil_append]
    intro head
    exact (proper.named ".." (List.mem_of_mem_head? head)).up rfl
  | succ k => exact iff_of_true rfl (Nat.succ_pos k)

theorem textComponents {c : Cleaned} (proper : c.Proper) (loose : c.rooted = false) (filled : c.parts ≠ []) :
    components c.text = c.parts := by
  unfold Cleaned.text
  rw [if_neg (by simp [loose]),if_neg filled]
  exact joinedComponents (partsOne proper) filled

theorem textRooted {c : Cleaned} (rooted : c.rooted = true) : ∃ rest, c.text.toList = '/' :: rest := by
  unfold Cleaned.text
  rw [if_pos rooted]
  exact ⟨_,by rw [render,String.toList_ofList]⟩

theorem dotText {c : Cleaned} (proper : c.Proper) : c.text = "." ↔ c.rooted = false ∧ c.parts = [] := by
  cases rooted : c.rooted with
  | true =>
    refine iff_of_false ?_ (by simp)
    intro same
    obtain ⟨rest,text⟩ := textRooted rooted
    rw [same] at text
    cases text
  | false =>
    by_cases empty : c.parts = []
    · exact iff_of_true (by simp [Cleaned.text,rooted,empty]) ⟨rfl,empty⟩
    · refine iff_of_false ?_ (fun held => empty held.2)
      intro same
      have parts := textComponents proper rooted empty
      rw [same,show components "." = ["."] from by decide] at parts
      have here : "." ∈ c.parts := by simp [← parts]
      rcases List.mem_append.mp here with above | below
      · exact absurd (List.eq_of_mem_replicate above) (by decide)
      · exact (proper.named _ below).here rfl

theorem cleanFilled (name : String) : cleanText name ≠ "" := by
  have proper := cleanedProper name
  unfold cleanText
  cases rooted : (cleaned name).rooted with
  | true =>
    obtain ⟨rest,text⟩ := textRooted rooted
    intro same
    rw [same] at text
    cases text
  | false =>
    by_cases empty : (cleaned name).parts = []
    · rw [(dotText proper).mpr ⟨rooted,empty⟩]
      decide
    · have parts := textComponents proper rooted empty
      intro same
      rw [same,show components "" = [""] from by decide] at parts
      have here : "" ∈ (cleaned name).parts := by simp [← parts]
      rcases List.mem_append.mp here with above | below
      · exact absurd (List.eq_of_mem_replicate above) (by decide)
      · exact (proper.named _ below).filled rfl

/- A path goes up when its text begins with the parent. -/
theorem upText {c : Cleaned} (proper : c.Proper) : hasPrefix c.text "../" = true ∨ c.text = ".." ↔ 0 < c.up := by
  cases rooted : c.rooted with
  | true =>
    rw [proper.still rooted]
    refine iff_of_false ?_ (Nat.lt_irrefl 0)
    obtain ⟨rest,text⟩ := textRooted rooted
    rintro (start | same)
    · rw [hasPrefix,text] at start
      cases start
    · rw [same] at text
      cases text
  | false =>
    rw [← partsUp proper]
    by_cases empty : c.parts = []
    · have text : c.text = "." := (dotText proper).mpr ⟨rooted,empty⟩
      rw [text,empty]
      decide
    · have parts := textComponents proper rooted empty
      constructor
      · rintro (start | same)
        · obtain ⟨rest,whole⟩ := List.isPrefixOf_iff_prefix.mp start
          have text : c.text = ".." ++ "/" ++ String.ofList rest := by
            apply String.toList_inj.mp
            rw [← whole]
            simp
          rw [text,componentsJoin] at parts
          rw [← parts]
          rfl
        · rw [same] at parts
          rw [← parts]
          rfl
      · intro head
        obtain ⟨n,rest,shape⟩ := List.exists_cons_of_ne_nil empty
        rw [shape] at head
        cases head
        have text : c.text = joined c.parts := by
          unfold Cleaned.text
          rw [if_neg (by simp [rooted]),if_neg empty]
        rw [text,shape]
        cases rest with
        | nil => exact .inr (joinedOne _)
        | cons m rest =>
          left
          rw [joinedCons _ (List.cons_ne_nil _ _),hasPrefix,String.toList_append,String.toList_append]
          rfl

/- A text without a separator begins another one when it begins its first part. -/
theorem joinedStart {n : Name} {rest : List Name} {t : String} (free : '/' ∉ t.toList) :
    hasPrefix (joined (n :: rest)) t = true ↔ hasPrefix n t = true := by
  cases rest with
  | nil => rw [joinedOne]
  | cons m rest =>
    rw [joinedCons _ (List.cons_ne_nil _ _)]
    unfold hasPrefix
    rw [List.isPrefixOf_iff_prefix,List.isPrefixOf_iff_prefix,String.toList_append,String.toList_append,List.append_assoc]
    constructor
    · intro start
      rcases Nat.lt_or_ge n.toList.length t.toList.length with short | long
      · obtain ⟨more,whole⟩ := List.prefix_of_prefix_length_le (List.prefix_append n.toList _) start (Nat.le_of_lt short)
        rw [← whole,List.prefix_append_right_inj] at start
        cases more with
        | nil =>
          rw [List.append_nil] at whole
          rw [whole] at short
          exact absurd short (Nat.lt_irrefl _)
        | cons c more =>
          obtain ⟨rfl,_⟩ := List.cons_prefix_cons.mp start
          refine absurd ?_ free
          rw [← whole]
          exact List.mem_append_right _ List.mem_cons_self
      · exact List.prefix_of_prefix_length_le start (List.prefix_append _ _) long
    · exact fun start => start.trans (List.prefix_append _ _)

theorem dotsText {c : Cleaned} (proper : c.Proper) :
    hasPrefix c.text ".." = true ↔ c.rooted = false ∧ ∃ n, c.parts.head? = some n ∧ hasPrefix n ".." = true := by
  cases rooted : c.rooted with
  | true =>
    refine iff_of_false ?_ (by simp)
    obtain ⟨rest,text⟩ := textRooted rooted
    rw [hasPrefix,text]
    simp
  | false =>
    by_cases empty : c.parts = []
    · have text : c.text = "." := (dotText proper).mpr ⟨rooted,empty⟩
      rw [text,empty]
      decide
    · obtain ⟨n,rest,shape⟩ := List.exists_cons_of_ne_nil empty
      have text : c.text = joined c.parts := by
        unfold Cleaned.text
        rw [if_neg (by simp [rooted]),if_neg empty]
      rw [text,shape,joinedStart (by decide)]
      simp

/- A cleaned path that does not go up leads from a directory to what it names. -/
theorem joinText {c : Cleaned} (proper : c.Proper) (still : c.up = 0) (p : Path) : join p c.text = p ++ c.names := by
  unfold join
  cases rooted : c.rooted with
  | true =>
    have text : c.text = "" ++ "/" ++ joined c.names := by
      apply String.toList_inj.mp
      simp [Cleaned.text,rooted,render,joined]
    have first : components "" = [""] := by decide
    rw [text,componentsJoin,first]
    by_cases empty : c.names = []
    · rw [empty]
      have none : joined [] = "" := by decide
      rw [none,first,List.append_nil]
      rfl
    · rw [joinedComponents (fun n inside => (proper.named n inside).one) empty]
      exact pushAll proper.named p
  | false =>
    have parts : c.parts = c.names := by simp [Cleaned.parts,still]
    by_cases empty : c.names = []
    · have text : c.text = "." := (dotText proper).mpr ⟨rooted,parts.trans empty⟩
      rw [text,empty,List.append_nil]
      rfl
    · rw [textComponents proper rooted (by rwa [parts]),parts]
      exact pushAll proper.named p

theorem relBelow (base p : Path) : relParts base (base ++ p) = p := by
  induction base with
  | nil =>
    cases p <;> rfl
  | cons b base ih =>
    rw [List.cons_append,relParts,if_pos rfl,ih]

/- Below a directory that is not the root the texts of the paths begin with its own. -/
theorem renderBelow {p q : Path} (some : p ≠ []) (more : q ≠ []) : render (p ++ q) = render p ++ "/" ++ joined q := by
  have whole : ∀ p : Path, p ≠ [] → joined (p ++ q) = joined p ++ "/" ++ joined q := by
    intro p
    induction p with
    | nil => exact fun none => absurd rfl none
    | cons n p ih =>
      intro _
      cases p with
      | nil => rw [List.singleton_append,joinedCons n more,joinedOne]
      | cons m p =>
        rw [List.cons_append,joinedCons n (by simp),ih (List.cons_ne_nil _ _),joinedCons n (List.cons_ne_nil _ _)]
        simp only [String.append_assoc]
  have rooted : ∀ p : Path, render p = "/" ++ joined p := by
    intro p
    apply String.toList_inj.mp
    simp [render,joined]
  rw [rooted,rooted,whole p some]
  simp only [String.append_assoc]

/- `filepath.Dir`, of what stands in front of the last name. -/
def dirText (s : String) : String := cleanText (String.ofList (s.toList.rdropWhile (fun c => c != '/')))

/- `filepath.Base`. -/
def baseText (s : String) : String :=
  if s = "" then "."
  else
    let bare := s.toList.rdropWhile (fun c => c == '/')
    if bare = [] then "/" else String.ofList (bare.rtakeWhile (fun c => c != '/'))

/- `filepath.Join` of two elements. -/
def joinTwo (a b : String) : String :=
  if a = "" then (if b = "" then "" else cleanText b) else if b = "" then cleanText a else cleanText (a ++ "/" ++ b)

/- The directories that a text leads through. -/
def dirs (s : String) : Path := clean (components s)

theorem cleanAbsolute {s : String} (start : hasPrefix s "/" = true) : cleanText s = render (dirs s) := by
  rw [cleanText,Cleaned.text,cleanedRooted,if_pos start,cleanedNames]
  rfl

theorem slashHead (s : String) : hasPrefix s "/" = true ↔ s.toList.head? = some '/' := by
  have chars : "/".toList = ['/'] := by decide
  rw [hasPrefix,chars]
  cases s.toList with
  | nil => simp
  | cons c cs => simp [@eq_comm _ c]

theorem renderStart (p : Path) : hasPrefix (render p) "/" = true := by
  rw [slashHead,render,String.toList_ofList]
  rfl

theorem cleanLoose {s : String} (loose : hasPrefix s "/" = false) : hasPrefix (cleanText s) "/" = false := by
  have rooted : (cleaned s).rooted = false := (cleanedRooted s).trans loose
  by_cases empty : (cleaned s).parts = []
  · rw [cleanText,(dotText (cleanedProper s)).mpr ⟨rooted,empty⟩]
    decide
  · obtain ⟨n,rest,shape⟩ := List.exists_cons_of_ne_nil empty
    have text : cleanText s = joined (n :: rest) := by
      rw [cleanText,Cleaned.text,if_neg (by simp [rooted]),if_neg empty,shape]
    have inside : n ∈ (cleaned s).parts := by simp [shape]
    have one := partsOne (cleanedProper s) n inside
    have filled : n.toList ≠ [] := by
      intro none
      rcases List.mem_append.mp inside with above | below
      · rw [List.eq_of_mem_replicate above] at none
        exact absurd none (by decide)
      · exact ((cleanedProper s).named n below).filled (String.toList_inj.mp none)
    obtain ⟨c,more,chars⟩ := List.exists_cons_of_ne_nil filled
    rw [chars] at one
    have other : c ≠ '/' := fun same => one (by simp [same])
    rw [text,← Bool.not_eq_true,slashHead]
    cases rest with
    | nil => simp [joinedOne,chars,other]
    | cons m rest => simp [joinedCons n (List.cons_ne_nil m rest),chars,other]

theorem cleanStart (s : String) : hasPrefix (cleanText s) "/" = hasPrefix s "/" := by
  cases start : hasPrefix s "/" with
  | true => rw [cleanAbsolute start,renderStart]
  | false => exact cleanLoose start

theorem dirsPlain (s : String) : ∀ n ∈ dirs s, Plain n := by
  rw [dirs,← cleanedNames]
  exact (cleanedProper s).named

theorem componentsRender {p : Path} (named : ∀ n ∈ p, Plain n) : components (render p) = "" :: if p = [] then [""] else p := by
  have text : render p = "" ++ "/" ++ joined p := by
    apply String.toList_inj.mp
    simp [render,joined]
  rw [text,componentsJoin]
  split
  · rename_i empty
    rw [empty]
    decide
  · rename_i some
    rw [joinedComponents (fun n mem => (named n mem).one) some]
    rfl

theorem dirsRender {p : Path} (named : ∀ n ∈ p, Plain n) : dirs (render p) = p := by
  rw [dirs,componentsRender named]
  split
  · rename_i empty
    rw [empty]
    decide
  · exact (pushAll named []).trans (List.nil_append p)

theorem cleanRender {p : Path} (named : ∀ n ∈ p, Plain n) : cleanText (render p) = render p := by
  rw [cleanAbsolute (renderStart p),dirsRender named]

theorem renderInj {p q : Path} (pNamed : ∀ n ∈ p, Plain n) (qNamed : ∀ n ∈ q, Plain n) (same : render p = render q) : p = q := by
  rw [← dirsRender pNamed,same,dirsRender qNamed]

theorem dirStart {s : String} (start : hasPrefix (dirText s) "/" = true) : hasPrefix s "/" = true := by
  rw [dirText,cleanStart,slashHead,String.toList_ofList] at start
  rw [slashHead]
  obtain ⟨rest,whole⟩ := List.rdropWhile_prefix (fun c => c != '/') s.toList
  rw [← whole,List.head?_append,start]
  rfl

/- What stands in front of the last name of a path ends with the separator. -/
theorem dirRender {p : Path} (named : ∀ n ∈ p, Plain n) : dirText (render p) = render p.dropLast := by
  rcases List.eq_nil_or_concat p with rfl | ⟨q,n,rfl⟩
  · decide
  · rw [List.concat_eq_append] at named ⊢
    have qNamed : ∀ m ∈ q, Plain m := fun m mem => named m (by simp [mem])
    have one : '/' ∉ n.toList := (named n (by simp)).one
    obtain ⟨front,text,parts⟩ : ∃ front : String, render (q ++ [n]) = front ++ "/" ++ n ∧ clean (components front) = q := by
      by_cases empty : q = []
      · refine ⟨"",?_,by rw [empty]; decide⟩
        rw [empty]
        apply String.toList_inj.mp
        simp [render]
      · exact ⟨render q,by rw [renderBelow empty (by simp),joinedOne],dirsRender qNamed⟩
    have dropped : (render (q ++ [n])).toList.rdropWhile (fun c => c != '/') = (front ++ "/").toList := by
      have free : ∀ c ∈ n.toList.reverse, (c != '/') = true := by
        intro c mem
        rw [bne_iff_ne]
        intro same
        exact one (same ▸ List.mem_reverse.mp mem)
      rw [text,String.toList_append,List.rdropWhile,List.reverse_append,List.dropWhile_append_of_pos free]
      simp
    have start : hasPrefix (front ++ "/") "/" = true := by
      have whole := (slashHead _).mp (renderStart (q ++ [n]))
      rw [text] at whole
      rw [slashHead]
      cases chars : front.toList <;> simp_all
    have slashed : front ++ "/" = front ++ "/" ++ "" := by simp
    rw [dirText,dropped,String.ofList_toList,cleanAbsolute start,List.dropLast_concat,dirs,slashed,componentsJoin,clean,List.foldl_append]
    exact congrArg render parts

/- What a path begins with, when that ends with the separator. -/
theorem renderPrefix {p r : Path} (pNamed : ∀ n ∈ p, Plain n) (rNamed : ∀ n ∈ r, Plain n) :
    hasPrefix (render p) (render r ++ "/") = true → r <+: p := by
  intro start
  by_cases empty : r = []
  · exact empty ▸ List.nil_prefix
  · obtain ⟨rest,whole⟩ := List.isPrefixOf_iff_prefix.mp start
    have text : render p = render r ++ "/" ++ String.ofList rest := by
      apply String.toList_inj.mp
      simp [← whole]
    have parts := congrArg components text
    rw [componentsJoin,componentsRender pNamed,componentsRender rNamed,if_neg empty,List.cons_append] at parts
    split at parts
    · obtain ⟨n,more,rfl⟩ := List.exists_cons_of_ne_nil empty
      have first := congrArg List.head? (List.cons.inj parts).2
      exact absurd (Option.some.inj first).symm (rNamed n (by simp)).filled
    · exact ⟨_,(List.cons.inj parts).2.symm⟩

end GoPath
