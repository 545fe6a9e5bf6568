import ContainerWS.GoStrings
import ContainerWS.ShellWords

/-! The command of an exec session, as modules/docker/containers/exec_ws.go takes it apart and modules/kubernetes/workloads/exec_ws.go does
again: words written in quotes come back, and a text without expansions and operators has the words that a shell reads. -/
namespace ContainerWS.Docker.ExecCommand
open GoStrings Shell

abbrev Word := List Char

def gap (c : Char) : Bool := c == ' ' || c == '\t' || c == '\n'

/- What has been read of a word; a word without characters is none. -/
def flush (current : Word) : List Word := if current = [] then [] else [current]

def splitFrom : Option Char → Bool → Word → List Char → List Word
  | _, _, current, [] => flush current
  | quote, true, current, r :: s => splitFrom quote false (current ++ [r]) s
  | quote, false, current, r :: s =>
    if r = backslash ∧ quote ≠ some apostrophe then splitFrom quote true current s
    else
      match quote with
      | some q => if r = q then splitFrom none false current s else splitFrom quote false (current ++ [r]) s
      | none =>
        if r = apostrophe ∨ r = quotation then splitFrom (some r) false current s
        else if gap r then flush current ++ splitFrom none false [] s
        else splitFrom none false (current ++ [r]) s

def splitCommand (s : List Char) : List Word := splitFrom none false [] s

def shells : List String := ["/bin/bash","/bin/sh","/bin/ash","/bin/zsh","/bin/dash","bash","sh","ash","zsh","dash"]

def parseExecCommand (command : String) : List String :=
  let command := trimSpace command
  if command = "" then []
  else if command ∈ shells then (if hasPrefix command "/" then [command] else ["/bin/" ++ command])
  else (splitCommand command.toList).map String.ofList

theorem splitPlain (quote : Option Char) (current : Word) (r : Char) (s : List Char) :
    splitFrom quote false current (r :: s) =
      if r = backslash ∧ quote ≠ some apostrophe then splitFrom quote true current s
      else
        match quote with
        | some q => if r = q then splitFrom none false current s else splitFrom quote false (current ++ [r]) s
        | none =>
          if r = apostrophe ∨ r = quotation then splitFrom (some r) false current s
          else if gap r then flush current ++ splitFrom none false [] s
          else splitFrom none false (current ++ [r]) s := by
  rw [splitFrom.eq_def]

/-! Words in quotes. -/
inductive Style where
  | single
  | double
  deriving DecidableEq

/- An apostrophe ends the quotes, stands behind a backslash, and opens them again; in the other quotes the backslash is enough. -/
def written : Style → Char → List Char
  | .single, c => if c = apostrophe then [apostrophe,backslash,apostrophe,apostrophe] else [c]
  | .double, c => if c = quotation ∨ c = backslash then [backslash,c] else [c]

def Style.mark : Style → Char
  | .single => apostrophe
  | .double => quotation

def quoted (style : Style) (w : Word) : List Char := style.mark :: (w.flatMap (written style) ++ [style.mark])

theorem writtenRead (style : Style) (c : Char) (current s : List Char) :
    splitFrom (some style.mark) false current (written style c ++ s) = splitFrom (some style.mark) false (current ++ [c]) s := by
  cases style with
  | single =>
    by_cases here : c = apostrophe
    · rw [written,if_pos here,here]
      rfl
    · rw [written,if_neg here,List.singleton_append,Style.mark,splitPlain,if_neg fun both => both.2 rfl]
      exact if_neg here
  | double =>
    by_cases here : c = quotation ∨ c = backslash
    · rw [written,if_pos here]
      rcases here with rfl | rfl
      · rfl
      · rfl
    · rw [written,if_neg here,List.singleton_append,Style.mark]
      rw [not_or] at here
      rw [splitPlain,if_neg fun both => here.2 both.1]
      exact if_neg here.1

theorem wordRead (style : Style) (w current s : List Char) :
    splitFrom (some style.mark) false current (w.flatMap (written style) ++ s) = splitFrom (some style.mark) false (current ++ w) s := by
  induction w generalizing current with
  | nil => rw [List.flatMap_nil,List.nil_append,List.append_nil]
  | cons c w ih => rw [List.flatMap_cons,List.append_assoc,writtenRead,ih,List.append_assoc,List.singleton_append]

/- A word in quotes goes on with what stood in front of it, and what stands behind it goes on with the word. -/
theorem quotedRead (style : Style) (w current s : List Char) :
    splitFrom none false current (quoted style w ++ s) = splitFrom none false (current ++ w) s := by
  have opens : splitFrom none false current (quoted style w ++ s) =
      splitFrom (some style.mark) false current (w.flatMap (written style) ++ ([style.mark] ++ s)) := by
    rw [quoted,List.cons_append,List.append_assoc]
    cases style <;> rfl
  rw [opens,wordRead]
  cases style <;> rfl

def command : List (Style × Word) → List Char
  | [] => []
  | [w] => quoted w.1 w.2
  | w :: rest => quoted w.1 w.2 ++ ' ' :: command rest

def full (ws : List Word) : List Word := ws.filter (· ≠ [])

theorem fullCons (w : Word) (ws : List Word) : full (w :: ws) = flush w ++ full ws := by
  by_cases empty : w = []
  · rw [empty]
    rfl
  · rw [full,flush,if_neg empty,List.filter_cons_of_pos (by simpa using empty)]
    rfl

theorem splitQuoted (ws : List (Style × Word)) : splitCommand (command ws) = full (ws.map Prod.snd) := by
  induction ws with
  | nil => rfl
  | cons w rest ih =>
    obtain ⟨style,w⟩ := w
    cases rest with
    | nil =>
      have read := quotedRead style w [] []
      rw [List.append_nil,List.nil_append] at read
      exact read.trans ((List.append_nil _).symm.trans (fullCons w []).symm)
    | cons v rest =>
      have read := quotedRead style w [] (' ' :: command (v :: rest))
      rw [List.nil_append] at read
      have behind : splitFrom none false w (' ' :: command (v :: rest)) = flush w ++ splitCommand (command (v :: rest)) := rfl
      rw [command,splitCommand,read,behind,ih]
      · exact (fullCons w _).symm
      · exact List.cons_ne_nil _ _

theorem commandEnds (w : Style × Word) (rest : List (Style × Word)) :
    ∃ first last : Style, (command (w :: rest)).head? = some first.mark ∧ (command (w :: rest)).getLast? = some last.mark := by
  have opens (w : Style × Word) : (quoted w.1 w.2).head? = some w.1.mark := rfl
  have closes (w : Style × Word) : (quoted w.1 w.2).getLast? = some w.1.mark := by
    rw [quoted,← List.cons_append,List.getLast?_append]
    rfl
  induction rest generalizing w with
  | nil => exact ⟨w.1,w.1,opens w,closes w⟩
  | cons v rest ih =>
    obtain ⟨_,last,_,ends⟩ := ih v
    have text : command (w :: v :: rest) = quoted w.1 w.2 ++ ' ' :: command (v :: rest) := command.eq_3 w (v :: rest) (List.cons_ne_nil _ _)
    refine ⟨w.1,last,?_,?_⟩
    · rw [text,List.head?_append,opens]
      rfl
    · rw [text,List.getLast?_append,List.getLast?_cons,ends]
      rfl

/-! The words of a shell. -/
/- The steps at which both read alike: what follows is no expansion, no operator and no comment, and a backslash stands before what it
takes. -/
def Alike : Mode → Char → Prop
  | .blank, c => c ∉ operators ∧ c ∉ expansions ∧ c ≠ '#' ∧ c ≠ '~'
  | .word, c => c ∉ operators ∧ c ∉ expansions
  | .escaped _, c => c ≠ '\n'
  | .single, _ => True
  | .double, c => c ≠ '$' ∧ c ≠ grave
  | .doubleEscaped, c => c = '$' ∨ c = grave ∨ c = quotation ∨ c = backslash
  | .comment, _ => False

inductive Common : Mode → List Char → Prop where
  | done {m : Mode} (ends : Open m) : Common m []
  | next {m : Mode} {c : Char} {s : List Char} (alike : Alike m c) (rest : Common (Shell.step m (.char c)).1 s) : Common m (c :: s)

instance : (m : Mode) → (c : Char) → Decidable (Alike m c)
  | .blank, c => inferInstanceAs (Decidable (c ∉ operators ∧ c ∉ expansions ∧ c ≠ '#' ∧ c ≠ '~'))
  | .word, c => inferInstanceAs (Decidable (c ∉ operators ∧ c ∉ expansions))
  | .escaped _, c => inferInstanceAs (Decidable (c ≠ '\n'))
  | .single, _ => .isTrue trivial
  | .double, c => inferInstanceAs (Decidable (c ≠ '$' ∧ c ≠ grave))
  | .doubleEscaped, c => inferInstanceAs (Decidable (c = '$' ∨ c = grave ∨ c = quotation ∨ c = backslash))
  | .comment, _ => .isFalse id

instance decidableCommon : (m : Mode) → (s : List Char) → Decidable (Common m s)
  | m, [] => decidable_of_iff (m = .blank ∨ m = .word) ⟨.done,fun (.done ends) => ends⟩
  | m, c :: s =>
    have := decidableCommon (Shell.step m (.char c)).1 s
    decidable_of_iff (Alike m c ∧ Common (Shell.step m (.char c)).1 s)
      ⟨fun both => .next both.1 both.2,fun (.next alike rest) => ⟨alike,rest⟩⟩

/- How the two stand beside each other, with the same word begun. -/
def Beside : Mode → Option Char → Bool → Word → Prop
  | .blank, quote, escape, w => quote = none ∧ escape = false ∧ w = []
  | .word, quote, escape, _ => quote = none ∧ escape = false
  | .escaped inside, quote, escape, w => quote = none ∧ escape = true ∧ (inside = false → w = [])
  | .single, quote, escape, _ => quote = some apostrophe ∧ escape = false
  | .double, quote, escape, _ => quote = some quotation ∧ escape = false
  | .doubleEscaped, quote, escape, _ => quote = some quotation ∧ escape = true
  | .comment, _, _, _ => False

/- What the shell reads from here on. -/
def onward (m : Mode) (s : List Char) : List Mark := marks m (chars s) ++ finish (Shell.after m (chars s))

/- From two readers that stand beside each other the same words come. -/
def Runs (s : List Char) : Prop :=
  ∀ (m : Mode) (quote : Option Char) (escape : Bool) (w : Word), Common m s → Beside m quote escape w →
    splitFrom quote escape w s = full (gather w (onward m s))

theorem bareRuns {s : List Char} (run : Runs s) (start : Bool) {c : Char} (plain : c ∉ operators ∧ c ∉ expansions)
    (first : start = true → c ≠ '#' ∧ c ≠ '~') {w : Word} (fresh : start = true → w = []) (rest : Common (unquoted start c).1 s) :
    splitFrom none false w (c :: s) = full (gather w ((unquoted start c).2 ++ onward (unquoted start c).1 s)) := by
  have read := splitPlain none w c s
  unfold unquoted at rest ⊢
  by_cases single : c = apostrophe
  · rw [if_pos single] at rest ⊢
    rw [read,single]
    exact run .single (some apostrophe) false w rest ⟨rfl,rfl⟩
  rw [if_neg single] at rest ⊢
  by_cases double : c = quotation
  · rw [if_pos double] at rest ⊢
    rw [read,double]
    exact run .double (some quotation) false w rest ⟨rfl,rfl⟩
  rw [if_neg double] at rest ⊢
  by_cases slash : c = backslash
  · rw [if_pos slash] at rest ⊢
    rw [read,slash]
    exact run (.escaped !start) none true w rest ⟨rfl,rfl,fun inside => fresh (by simpa using inside)⟩
  rw [if_neg slash] at rest ⊢
  rw [if_neg fun both => slash both.1] at read
  dsimp only at read
  rw [if_neg (not_or.mpr ⟨single,double⟩)] at read
  by_cases blank : c ∈ blanks
  · rw [if_pos blank] at rest ⊢
    have between : gap c = true := by
      rcases List.mem_cons.mp blank with rfl | tab
      · rfl
      · rw [List.mem_singleton.mp tab]
        rfl
    rw [read,if_pos between,run .blank none false [] rest ⟨rfl,rfl,rfl⟩]
    cases start with
    | true =>
      rw [fresh rfl]
      rfl
    | false => exact (fullCons w _).symm
  · rw [if_neg blank,if_neg plain.1,if_neg fun both => (first both.1).1 both.2,
      if_neg fun some => some.elim plain.2 fun both => (first both.1).2 both.2] at rest ⊢
    have inside : ¬gap c = true := by
      intro between
      rw [gap,Bool.or_eq_true,Bool.or_eq_true,beq_iff_eq,beq_iff_eq,beq_iff_eq] at between
      rcases between with (rfl | rfl) | rfl
      · exact blank (by decide)
      · exact blank (by decide)
      · exact plain.1 (by decide)
    rw [read,if_neg inside]
    exact run .word none false (w ++ [c]) rest ⟨rfl,rfl⟩

theorem besideRuns (s : List Char) : Runs s := by
  induction s with
  | nil =>
    intro m quote escape w common beside
    have flushed : splitFrom quote escape w [] = flush w := by
      cases quote <;> cases escape <;> rfl
    rw [flushed]
    rcases common with ⟨rfl | rfl⟩
    · obtain ⟨-,-,rfl⟩ := beside
      rfl
    · show flush w = full (w :: [])
      rw [fullCons]
      exact (List.append_nil _).symm
  | cons c s ih =>
    intro m quote escape w common beside
    obtain _ | ⟨alike,rest⟩ := common
    have turn : onward m (c :: s) = (Shell.step m (.char c)).2 ++ onward (Shell.step m (.char c)).1 s :=
      List.append_assoc _ _ _
    rw [turn]
    cases m with
    | comment => cases beside
    | blank =>
      obtain ⟨rfl,rfl,rfl⟩ := beside
      exact bareRuns ih true ⟨alike.1,alike.2.1⟩ (fun _ => alike.2.2) (fun _ => rfl) rest
    | word =>
      obtain ⟨rfl,rfl⟩ := beside
      exact bareRuns ih false alike (fun no => by cases no) (fun no => by cases no) rest
    | escaped inside =>
      obtain ⟨rfl,rfl,-⟩ := beside
      have here : Shell.step (.escaped inside) (.char c) = (.word,[.lit c]) := if_neg alike
      rw [here] at rest ⊢
      exact ih .word none false (w ++ [c]) rest ⟨rfl,rfl⟩
    | single =>
      obtain ⟨rfl,rfl⟩ := beside
      rw [splitPlain,if_neg fun both => both.2 rfl]
      dsimp only
      by_cases closes : c = apostrophe
      · have here : Shell.step .single (.char c) = (.word,[]) := if_pos closes
        rw [here] at rest ⊢
        rw [if_pos closes]
        exact ih .word none false w rest ⟨rfl,rfl⟩
      · have here : Shell.step .single (.char c) = (.single,[.lit c]) := if_neg closes
        rw [here] at rest ⊢
        rw [if_neg closes]
        exact ih .single (some apostrophe) false (w ++ [c]) rest ⟨rfl,rfl⟩
    | double =>
      obtain ⟨rfl,rfl⟩ := beside
      have other : some quotation ≠ some apostrophe := by decide
      rw [splitPlain]
      by_cases closes : c = quotation
      · have here : Shell.step .double (.char c) = (.word,[]) := if_pos closes
        rw [here] at rest ⊢
        rw [closes]
        exact ih .word none false w rest ⟨rfl,rfl⟩
      by_cases slash : c = backslash
      · have here : Shell.step .double (.char c) = (.doubleEscaped,[]) := (if_neg closes).trans (if_pos slash)
        rw [here] at rest ⊢
        rw [if_pos ⟨slash,other⟩]
        exact ih .doubleEscaped (some quotation) true w rest ⟨rfl,rfl⟩
      · have here : Shell.step .double (.char c) = (.double,[.lit c]) :=
          (if_neg closes).trans ((if_neg slash).trans (if_neg (not_or.mpr alike)))
        rw [here] at rest ⊢
        rw [if_neg fun both => slash both.1]
        dsimp only
        rw [if_neg closes]
        exact ih .double (some quotation) false (w ++ [c]) rest ⟨rfl,rfl⟩
    | doubleEscaped =>
      obtain ⟨rfl,rfl⟩ := beside
      have here : Shell.step .doubleEscaped (.char c) = (.double,[.lit c]) := by
        rcases alike with rfl | rfl | rfl | rfl
        all_goals rfl
      rw [here] at rest ⊢
      exact ih .double (some quotation) false (w ++ [c]) rest ⟨rfl,rfl⟩

theorem splitAsShell {s : List Char} (common : Common .blank s) : splitCommand s = full (words s) :=
  besideRuns s .blank none false [] common ⟨rfl,rfl,rfl⟩

def bareShells : List String := ["bash","sh","ash","zsh","dash"]

end ContainerWS.Docker.ExecCommand
