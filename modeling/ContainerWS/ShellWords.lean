import Mathlib.Data.List.Infix

/-! How a shell cuts its text into words: quotes, expansions, operators and comments. A
hole in the text stands for characters that a word is to have as they are. -/
namespace Shell

inductive Letter where
  | char (c : Char)
  | hole
  deriving DecidableEq, Repr

/- Where the reading stands; after a backslash also whether in a word. -/
inductive Mode where
  | blank
  | word
  | escaped (inside : Bool)
  | single
  | double
  | doubleEscaped
  | comment
  deriving DecidableEq, Repr

/- What is read: a character that stands for itself, one that begins an expansion, an
operator, the end of a word. -/
inductive Mark where
  | lit (c : Char)
  | active (c : Char)
  | op (c : Char)
  | stop
  | hole
  deriving DecidableEq, Repr

def apostrophe : Char := '\x27'

def quotation : Char := '\x22'

def backslash : Char := '\x5c'

def grave : Char := '\x60'

def blanks : List Char := [' ','\t']

def quotes : List Char := [apostrophe,quotation,backslash]

def operators : List Char := ['\n','|','&',';','<','>','(',')']

def expansions : List Char := ['$',grave,'*','?','[','\x7b']

/- A character outside of quotes; a tilde and a comment begin only where a word may. -/
def unquoted (start : Bool) (c : Char) : Mode × List Mark :=
  if c = apostrophe then (.single,[])
  else if c = quotation then (.double,[])
  else if c = backslash then (.escaped !start,[])
  else if c ∈ blanks then (.blank,if start then [] else [.stop])
  else if c ∈ operators then (.blank,if start then [.op c] else [.stop,.op c])
  else if start = true ∧ c = '#' then (.comment,[])
  else if c ∈ expansions ∨ start = true ∧ c = '~' then (.word,[.active c])
  else (.word,[.lit c])

def step : Mode → Letter → Mode × List Mark
  | .blank, .char c => unquoted true c
  | .word, .char c => unquoted false c
  | .escaped inside, .char c =>
    if c = '\n' then (if inside then .word else .blank,[]) else (.word,[.lit c])
  | .single, .char c => if c = apostrophe then (.word,[]) else (.single,[.lit c])
  | .double, .char c =>
    if c = quotation then (.word,[])
    else if c = backslash then (.doubleEscaped,[])
    else if c = '$' ∨ c = grave then (.double,[.active c])
    else (.double,[.lit c])
  | .doubleEscaped, .char c =>
    if c = '\n' then (.double,[])
    else if c = '$' ∨ c = grave ∨ c = quotation ∨ c = backslash then (.double,[.lit c])
    else (.double,[.lit backslash,.lit c])
  | .comment, .char c => if c = '\n' then (.blank,[.op c]) else (.comment,[])
  | .single, .hole => (.single,[.hole])
  | .double, .hole => (.double,[.hole])
  | _, .hole => (.word,[.hole])

def marks : Mode → List Letter → List Mark
  | _, [] => []
  | m, l :: ls => (step m l).2 ++ marks (step m l).1 ls

def after : Mode → List Letter → Mode
  | m, [] => m
  | m, l :: ls => after (step m l).1 ls

/- At the end of the text a word ends. -/
def finish : Mode → List Mark
  | .word => [.stop]
  | _ => []

def lex (ls : List Letter) : List Mark := marks .blank ls ++ finish (after .blank ls)

def chars (cs : List Char) : List Letter := cs.map .char

def letters (s : String) : List Letter := chars s.toList

/- The characters in the place of the hole, each as itself. -/
def fill (value : List Char) : Mark → List Mark
  | .hole => value.map .lit
  | m => [m]

def filled (value : List Char) (ms : List Mark) : List Mark := ms.flatMap (fill value)

theorem lettersAppend (s t : String) : letters (s ++ t) = letters s ++ letters t := by
  simp [letters,chars]

theorem marksAppend (m : Mode) (a b : List Letter) : marks m (a ++ b) = marks m a ++ marks (after m a) b := by
  induction a generalizing m with
  | nil => rfl
  | cons l a ih =>
    rw [List.cons_append,marks,marks,after,ih,List.append_assoc]

theorem afterAppend (m : Mode) (a b : List Letter) : after m (a ++ b) = after (after m a) b := by
  induction a generalizing m with
  | nil => rfl
  | cons l a ih => rw [List.cons_append,after,after,ih]

theorem unquotedHole (start : Bool) (c : Char) : Mark.hole ∉ (unquoted start c).2 := by
  unfold unquoted
  repeat' split
  all_goals cases start <;> simp

theorem stepHole (m : Mode) (c : Char) : Mark.hole ∉ (step m (.char c)).2 := by
  cases m with
  | blank => exact unquotedHole true c
  | word => exact unquotedHole false c
  | escaped inside => cases inside <;> simp only [step] <;> split <;> simp
  | _ =>
    simp only [step]
    repeat' split
    all_goals simp

theorem charsHole (m : Mode) (cs : List Char) : Mark.hole ∉ marks m (chars cs) := by
  induction cs generalizing m with
  | nil => exact List.not_mem_nil
  | cons c cs ih =>
    intro mem
    rcases List.mem_append.mp mem with first | rest
    · exact stepHole m c first
    · exact ih _ rest

/- A text without holes stays as it is. -/
theorem filledNone {value : List Char} {ms : List Mark} (none : Mark.hole ∉ ms) : filled value ms = ms := by
  induction ms with
  | nil => rfl
  | cons m ms ih =>
    have rest := ih (fun mem => none (by simp [mem]))
    rw [filled] at rest
    rw [filled,List.flatMap_cons,rest]
    cases m with
    | hole => exact absurd (by simp) none
    | _ => rfl

theorem filledAppend (value : List Char) (a b : List Mark) : filled value (a ++ b) = filled value a ++ filled value b :=
  List.flatMap_append

theorem filledChars (value : List Char) (m : Mode) (cs : List Char) : filled value (marks m (chars cs)) = marks m (chars cs) :=
  filledNone (charsHole m cs)

/- Where a word may begin or go on. -/
def Open (m : Mode) : Prop := m = .blank ∨ m = .word

/- The text is read as the characters, as a word or in one. -/
def Writes (text value : List Char) : Prop :=
  ∀ m, Open m → marks m (chars text) = value.map .lit ∧ after m (chars text) = .word

/- From here on the text is read as the template with the hole filled. -/
def Follows (value : List Char) (m : Mode) (template text : List Letter) : Prop :=
  marks m text ++ finish (after m text) = filled value (marks m template ++ finish (after m template))

theorem finishFilled (value : List Char) (m : Mode) : filled value (finish m) = finish m := by
  cases m <;> rfl

theorem followsEnd (value : List Char) (m : Mode) (cs : List Char) : Follows value m (chars cs) (chars cs) := by
  rw [Follows,filledAppend,filledChars,finishFilled]

theorem followsText {value : List Char} {m : Mode} {cs : List Char} {template text : List Letter} :
    Follows value m (chars cs ++ template) (chars cs ++ text) ↔ Follows value (after m (chars cs)) template text := by
  unfold Follows
  rw [marksAppend,marksAppend,afterAppend,afterAppend,List.append_assoc,List.append_assoc,filledAppend,filledChars,
    List.append_cancel_left_eq]

theorem followsHole {value written : List Char} {m : Mode} {template text : List Letter} (writes : Writes written value)
    (here : Open m) : Follows value m (Letter.hole :: template) (chars written ++ text) ↔ Follows value .word template text := by
  have hole : step m .hole = (.word,[.hole]) := by
    rcases here with rfl | rfl <;> rfl
  obtain ⟨reads,ends⟩ := writes m here
  have start : filled value [Mark.hole] = value.map .lit := by simp [filled,fill]
  unfold Follows
  rw [marksAppend,afterAppend,reads,ends,marks,after,hole]
  dsimp only
  rw [List.append_assoc,List.append_assoc,filledAppend,start,List.append_cancel_left_eq]

/- The character of a mark. -/
def kept : Mark → Option Char
  | .lit c => some c
  | .active c => some c
  | .op c => some c
  | _ => none

/- A backslash in double quotes is kept back until it is known what follows. -/
def pending : Mode → List Char
  | .doubleEscaped => [backslash]
  | _ => []

theorem stepKept (m : Mode) (c : Char) :
    List.Sublist ((step m (.char c)).2.filterMap kept ++ pending (step m (.char c)).1) (pending m ++ [c]) := by
  have bare (start : Bool) : List.Sublist ((unquoted start c).2.filterMap kept ++ pending (unquoted start c).1) [c] := by
    unfold unquoted
    repeat' split
    all_goals cases start <;> simp [List.filterMap_cons,kept,pending]
  cases m with
  | blank => exact bare true
  | word => exact bare false
  | escaped inside => cases inside <;> simp only [step] <;> split <;> simp [kept,pending]
  | _ =>
    simp only [step]
    repeat' split
    all_goals simp_all [kept,pending]

/- What is read is part of the text, in its order. -/
theorem marksKept (m : Mode) (cs : List Char) : List.Sublist ((marks m (chars cs)).filterMap kept) (pending m ++ cs) := by
  induction cs generalizing m with
  | nil => exact List.nil_sublist _
  | cons c cs ih =>
    have first := stepKept m c
    have rest := ih (step m (.char c)).1
    show List.Sublist (((step m (.char c)).2 ++ marks (step m (.char c)).1 (chars cs)).filterMap kept) (pending m ++ c :: cs)
    rw [List.filterMap_append]
    refine (rest.append_left _).trans ?_
    rw [← List.append_assoc,show pending m ++ c :: cs = (pending m ++ [c]) ++ cs by simp]
    exact first.append_right cs

/- A character that a word has as it stands. -/
structure Ordinary (c : Char) : Prop where
  quote : c ∉ quotes
  blank : c ∉ blanks
  operator : c ∉ operators
  expansion : c ∉ expansions

instance (c : Char) : Decidable (Ordinary c) :=
  decidable_of_iff (c ∉ quotes ∧ c ∉ blanks ∧ c ∉ operators ∧ c ∉ expansions)
    ⟨fun ⟨a,b,d,e⟩ => ⟨a,b,d,e⟩,fun ⟨a,b,d,e⟩ => ⟨a,b,d,e⟩⟩

/- One that a word may begin with. -/
structure Leading (c : Char) : Prop extends Ordinary c where
  comment : c ≠ '#'
  tilde : c ≠ '~'

theorem unquotedOrdinary {c : Char} (ordinary : Ordinary c) : unquoted false c = (.word,[.lit c]) := by
  have quote := ordinary.quote
  simp only [quotes,List.mem_cons,List.not_mem_nil,or_false,not_or] at quote
  unfold unquoted
  rw [if_neg quote.1,if_neg quote.2.1,if_neg quote.2.2,if_neg ordinary.blank,if_neg ordinary.operator,if_neg (by simp),
    if_neg (by simp [ordinary.expansion])]

theorem unquotedLeading {c : Char} (leading : Leading c) : unquoted true c = (.word,[.lit c]) := by
  have quote := leading.quote
  simp only [quotes,List.mem_cons,List.not_mem_nil,or_false,not_or] at quote
  unfold unquoted
  rw [if_neg quote.1,if_neg quote.2.1,if_neg quote.2.2,if_neg leading.blank,if_neg leading.operator,
    if_neg (by simp [leading.comment]),if_neg (by simp [leading.expansion,leading.tilde])]

theorem wordReads {cs : List Char} (ordinary : ∀ c ∈ cs, Ordinary c) :
    marks .word (chars cs) = cs.map .lit ∧ after .word (chars cs) = .word := by
  induction cs with
  | nil => exact ⟨rfl,rfl⟩
  | cons c cs ih =>
    have here : step .word (.char c) = (.word,[.lit c]) := unquotedOrdinary (ordinary c (by simp))
    obtain ⟨reads,ends⟩ := ih (fun d mem => ordinary d (by simp [mem]))
    rw [chars] at reads ends
    rw [chars,List.map_cons,marks,after,here]
    exact ⟨by rw [reads]; rfl,ends⟩

/- Characters that are ordinary are read as themselves. -/
theorem ordinaryWrites {c : Char} {cs : List Char} (leading : Leading c) (ordinary : ∀ d ∈ cs, Ordinary d) : Writes (c :: cs) (c :: cs) := by
  obtain ⟨reads,ends⟩ := wordReads ordinary
  have first (m : Mode) (here : Open m) : step m (.char c) = (.word,[.lit c]) := by
    rcases here with rfl | rfl
    · exact unquotedLeading leading
    · exact unquotedOrdinary leading.toOrdinary
  intro m here
  rw [chars] at reads ends
  rw [chars,List.map_cons,marks,after,first m here]
  exact ⟨by rw [reads]; rfl,ends⟩

/- Without its first character a text has no room for itself, even with gaps behind it. -/
theorem noRoom {c : Char} {cs gaps : List Char} (last : ∀ d, (c :: cs).getLast? = some d → d ∉ gaps) :
    ¬List.Sublist (c :: cs) (cs ++ gaps) := by
  have shorter : ∀ gaps : List Char, (∀ d, (c :: cs).getLast? = some d → d ∉ gaps) → List.Sublist (c :: cs) (cs ++ gaps) →
      List.Sublist (c :: cs) cs := by
    intro gaps
    induction gaps using List.reverseRecOn with
    | nil => exact fun _ sub => by rwa [List.append_nil] at sub
    | append_singleton gaps g ih =>
      intro last sub
      refine ih (fun d here mem => last d here (by simp [mem])) ?_
      rw [← List.append_assoc] at sub
      obtain ⟨init,d,whole⟩ : ∃ init d, c :: cs = init ++ [d] :=
        ⟨(c :: cs).dropLast,(c :: cs).getLast (by simp),(List.dropLast_append_getLast (by simp)).symm⟩
      have other : d ≠ g := by
        rintro rfl
        exact last d (by rw [whole]; simp) (by simp)
      rw [whole] at sub ⊢
      have back := sub.reverse
      rw [List.reverse_concat,List.reverse_concat] at back
      cases back with
      | cons _ rest =>
        have forth := rest.reverse
        rwa [List.reverse_reverse,List.reverse_cons,List.reverse_reverse] at forth
      | cons_cons _ rest => exact absurd rfl other
  intro sub
  have short := (shorter gaps last sub).length_le
  rw [List.length_cons] at short
  omega

theorem quoteRoom {c : Char} {cs gaps t : List Char} {rest : List Mark} {m m' : Mode} (last : ∀ d, (c :: cs).getLast? = some d → d ∉ gaps)
    (keeps : rest.filterMap kept = t) (clear : pending m = []) :
    marks m (chars (cs ++ gaps ++ t)) ++ finish m' ≠ (c :: cs).map .lit ++ .stop :: rest := by
  intro reads
  have part := marksKept m (cs ++ gaps ++ t)
  have own : ((c :: cs).map Mark.lit ++ .stop :: rest).filterMap kept = c :: cs ++ t := by
    rw [List.filterMap_append,List.filterMap_map]
    have same : (kept ∘ Mark.lit) = some := rfl
    rw [same,List.filterMap_some]
    show c :: cs ++ rest.filterMap kept = c :: cs ++ t
    rw [keeps]
  have none : (finish m').filterMap kept = [] := by cases m' <;> rfl
  have same := congrArg (List.filterMap kept) reads
  rw [List.filterMap_append,none,List.append_nil,own] at same
  rw [same,clear,List.nil_append,List.append_sublist_append_right] at part
  exact noRoom last part

/- A word that is read as its own characters has ordinary ones only. -/
theorem wordOrdinary {cs gaps t : List Char} {rest : List Mark} {m' : Mode} (last : ∀ d, cs.getLast? = some d → d ∉ gaps)
    (keeps : rest.filterMap kept = t)
    (reads : marks .word (chars (cs ++ gaps ++ t)) ++ finish m' = cs.map .lit ++ .stop :: rest) : ∀ c ∈ cs, Ordinary c := by
  induction cs with
  | nil => exact fun c mem => absurd mem List.not_mem_nil
  | cons c cs ih =>
    have turn : (unquoted false c).2 ++ marks (unquoted false c).1 (chars (cs ++ gaps ++ t)) ++ finish m' =
        .lit c :: (cs.map .lit ++ .stop :: rest) := reads
    rw [List.append_assoc] at turn
    have room {m : Mode} (clear : pending m = []) :
        marks m (chars (cs ++ gaps ++ t)) ++ finish m' ≠ .lit c :: (cs.map .lit ++ .stop :: rest) := quoteRoom last keeps clear
    unfold unquoted at turn
    split at turn
    · exact absurd turn (room rfl)
    split at turn
    · exact absurd turn (room rfl)
    split at turn
    · exact absurd turn (room rfl)
    rename_i quote quote' quote''
    split at turn
    · cases turn
    split at turn
    · cases turn
    rename_i blank operator
    rw [if_neg (by simp)] at turn
    split at turn
    · cases turn
    rename_i expansion
    simp only [Bool.false_eq_true,false_and,or_false] at expansion
    have ordinary : Ordinary c := ⟨by simp [quotes,quote,quote',quote''],blank,operator,expansion⟩
    have next := ih (fun d here => last d (by rw [List.getLast?_cons,here]; rfl)) (List.cons.inj turn).2
    intro d mem
    rcases List.mem_cons.mp mem with rfl | more
    · exact ordinary
    · exact next d more

theorem blankLeading {c : Char} {cs gaps t : List Char} {rest : List Mark} {m' : Mode}
    (last : ∀ d, (c :: cs).getLast? = some d → d ∉ gaps) (keeps : rest.filterMap kept = t)
    (reads : marks .blank (chars (c :: cs ++ gaps ++ t)) ++ finish m' = (c :: cs).map .lit ++ .stop :: rest) :
    Leading c ∧ (∀ d ∈ cs, Ordinary d) := by
  have turn : (unquoted true c).2 ++ marks (unquoted true c).1 (chars (cs ++ gaps ++ t)) ++ finish m' =
      .lit c :: (cs.map .lit ++ .stop :: rest) := reads
  rw [List.append_assoc] at turn
  have room {m : Mode} (clear : pending m = []) :
      marks m (chars (cs ++ gaps ++ t)) ++ finish m' ≠ .lit c :: (cs.map .lit ++ .stop :: rest) := quoteRoom last keeps clear
  unfold unquoted at turn
  split at turn
  · exact absurd turn (room rfl)
  split at turn
  · exact absurd turn (room rfl)
  split at turn
  · exact absurd turn (room rfl)
  rename_i quote quote' quote''
  split at turn
  · exact absurd turn (room rfl)
  split at turn
  · cases turn
  rename_i blank operator
  split at turn
  · exact absurd turn (room rfl)
  rename_i comment
  split at turn
  · cases turn
  rename_i expansion
  simp only [true_and,not_or] at comment expansion
  refine ⟨⟨⟨by simp [quotes,quote,quote',quote''],blank,operator,expansion.1⟩,comment,expansion.2⟩,?_⟩
  exact wordOrdinary (fun d here => last d (by rw [List.getLast?_cons,here]; rfl)) keeps (List.cons.inj turn).2

/- The words that the marks of a plain text make. -/
def gather : List Char → List Mark → List (List Char)
  | _, [] => []
  | w, .lit c :: ms => gather (w ++ [c]) ms
  | w, .stop :: ms => w :: gather [] ms
  | w, _ :: ms => gather w ms

def words (cs : List Char) : List (List Char) := gather [] (lex (chars cs))

end Shell
