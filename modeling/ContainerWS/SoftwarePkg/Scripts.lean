import ContainerWS.ShellWords
import ContainerWS.TextRows
import ContainerWS.GoPath

/-! The scripts of packages/softwarepkg/scaffold.go that install, remove and upgrade a
package, and where a shell finds the name of the package in them. -/
namespace ContainerWS.SoftwarePkg
open GoStrings Shell

/- What a script is built from. -/
structure PackageTarget where
  packageFamily : String
  pkgName : String
  deriving DecidableEq, Repr

/- Lines of a text, each with its end. -/
def lines (ls : List String) : String := String.join (ls.map (fun l => l ++ "\n"))

def header : String := lines ["#!/usr/bin/env bash","set -euo pipefail"]

def noninteractive : String := lines ["export DEBIAN_FRONTEND=noninteractive"]

def aptUpdateSafeBash : String := lines [
  "# Prefer distro archives only — ignore broken third-party repos (exit 100).",
  "apt_update_safe() \x7b",
  "  local opts=(-o APT::Get::List-Cleanup=0)",
  "  if [[ -f /etc/apt/sources.list.d/ubuntu.sources ]]; then",
  "    apt-get update \"$\x7bopts[@]\x7d\" \\",
  "      -o Dir::Etc::sourcelist=sources.list.d/ubuntu.sources \\",
  "      -o Dir::Etc::sourceparts=- && return 0",
  "  fi",
  "  if [[ -f /etc/apt/sources.list.d/debian.sources ]]; then",
  "    apt-get update \"$\x7bopts[@]\x7d\" \\",
  "      -o Dir::Etc::sourcelist=sources.list.d/debian.sources \\",
  "      -o Dir::Etc::sourceparts=- && return 0",
  "  fi",
  "  if [[ -f /etc/apt/sources.list.d/kali.sources ]]; then",
  "    apt-get update \"$\x7bopts[@]\x7d\" \\",
  "      -o Dir::Etc::sourcelist=sources.list.d/kali.sources \\",
  "      -o Dir::Etc::sourceparts=- && return 0",
  "  fi",
  "  if [[ -f /etc/apt/sources.list ]]; then",
  "    apt-get update \"$\x7bopts[@]\x7d\" \\",
  "      -o Dir::Etc::sourcelist=sources.list \\",
  "      -o Dir::Etc::sourceparts=- && return 0",
  "  fi",
  "  apt-get update \\",
  "    -o Acquire::AllowInsecureRepositories=true \\",
  "    -o Acquire::AllowDowngradeToInsecureRepositories=true",
  "\x7d",
  "apt_update_safe"]

def indentBlock (s prefix_ : String) : String :=
  TextRows.join '\n' ((split '\n' (GoPath.trimSuffix s "\n")).map (fun line => if line = "" then line else prefix_ ++ line)) ++ "\n"

def shellSafe (r : Char) : Bool :=
  r = '-' || r = '_' || r = '.' || r = '+' || ('a' ≤ r && r ≤ 'z') || ('A' ≤ r && r ≤ 'Z') || ('0' ≤ r && r ≤ '9')

/- `strings.ReplaceAll` of an apostrophe. -/
def closeReopen (c : Char) : List Char :=
  if c = apostrophe then [apostrophe,quotation,apostrophe,quotation,apostrophe] else [c]

def shellQuote (s : String) : String :=
  let s := trimSpace s
  if s = "" then String.ofList [apostrophe,apostrophe]
  else if s.toList.all shellSafe then s
  else String.ofList (apostrophe :: s.toList.flatMap closeReopen ++ [apostrophe])

section Builders
variable {α : Type} [Append α]

/- The three builders, over texts or over what a shell reads: the package name is put
in as it has been quoted, or bare. -/
def installScript (text : String → α) (family : String) (pkg bare : α) : α :=
  match family with
  | "apt" => text (header ++ noninteractive ++ aptUpdateSafeBash ++ "apt-get install -y --no-install-recommends ") ++
    (pkg ++ (text "\ncommand -v " ++ (bare ++ text " >/dev/null\n")))
  | "dnf" => text (header ++ "dnf install -y ") ++ (pkg ++ text "\n")
  | "apk" => text (header ++ "apk add --no-cache ") ++ (pkg ++ text "\n")
  | "pacman" => text (header ++ "pacman -Sy --noconfirm ") ++ (pkg ++ text "\n")
  | _ => text (header ++ "PKG=") ++ (pkg ++ text ("\n" ++ lines [
      "if command -v apt-get >/dev/null 2>&1; then",
      "  export DEBIAN_FRONTEND=noninteractive"] ++ indentBlock aptUpdateSafeBash "  " ++ lines [
      "  apt-get install -y --no-install-recommends \"$PKG\"",
      "elif command -v dnf >/dev/null 2>&1; then",
      "  dnf install -y \"$PKG\"",
      "elif command -v apk >/dev/null 2>&1; then",
      "  apk add --no-cache \"$PKG\"",
      "elif command -v pacman >/dev/null 2>&1; then",
      "  pacman -Sy --noconfirm \"$PKG\"",
      "else",
      "  echo \"unsupported package manager\" >&2",
      "  exit 1",
      "fi"]))

def uninstallScript (text : String → α) (family : String) (pkg : α) : α :=
  match family with
  | "apt" => text (header ++ noninteractive ++ "apt-get remove -y ") ++ (pkg ++ text (" || true\n" ++ lines ["apt-get autoremove -y || true"]))
  | "dnf" => text (header ++ "dnf remove -y ") ++ (pkg ++ text " || true\n")
  | "apk" => text (header ++ "apk del ") ++ (pkg ++ text " || true\n")
  | "pacman" => text (header ++ "pacman -R --noconfirm ") ++ (pkg ++ text " || true\n")
  | _ => text (header ++ "PKG=") ++ (pkg ++ text ("\n" ++ lines [
      "if command -v apt-get >/dev/null 2>&1; then",
      "  export DEBIAN_FRONTEND=noninteractive",
      "  apt-get remove -y \"$PKG\" || true",
      "elif command -v dnf >/dev/null 2>&1; then",
      "  dnf remove -y \"$PKG\" || true",
      "elif command -v apk >/dev/null 2>&1; then",
      "  apk del \"$PKG\" || true",
      "elif command -v pacman >/dev/null 2>&1; then",
      "  pacman -R --noconfirm \"$PKG\" || true",
      "fi"]))

def upgradeScript (text : String → α) (family : String) (pkg bare : α) : α :=
  match family with
  | "apt" => text (header ++ noninteractive ++ aptUpdateSafeBash ++ "apt-get install -y --only-upgrade ") ++ (pkg ++ text "\n")
  | "dnf" => text (header ++ "dnf upgrade -y ") ++ (pkg ++ text "\n")
  | "apk" => text (header ++ "apk upgrade ") ++ (pkg ++ text "\n")
  | "pacman" => text (header ++ "pacman -Syu --noconfirm ") ++ (pkg ++ text "\n")
  | _ => installScript text family pkg bare

end Builders

def BuildInstallScript (t : PackageTarget) : String := installScript id t.packageFamily (shellQuote t.pkgName) t.pkgName

def BuildUninstallScript (t : PackageTarget) : String := uninstallScript id t.packageFamily (shellQuote t.pkgName)

def BuildUpgradeScript (t : PackageTarget) : String := upgradeScript id t.packageFamily (shellQuote t.pkgName) t.pkgName

/- A line that a shell has read to its end when the line ends. -/
def Whole (l : String) : Prop := after .blank (letters l ++ letters "\n") = .blank

instance (l : String) : Decidable (Whole l) := inferInstanceAs (Decidable (_ = _))

theorem linesCons (l : String) (ls : List String) : lines (l :: ls) = l ++ "\n" ++ lines ls := by
  apply String.toList_inj.mp
  simp [lines]

theorem afterLines {ls : List String} (whole : ∀ l ∈ ls, Whole l) : after .blank (letters (lines ls)) = .blank := by
  induction ls with
  | nil => rfl
  | cons l ls ih =>
    have first : Whole l := whole l (by simp)
    unfold Whole at first
    rw [linesCons,lettersAppend,lettersAppend,afterAppend,first]
    exact ih (fun k mem => whole k (by simp [mem]))

theorem headerWhole : after .blank (letters header) = .blank := afterLines (by decide)

theorem noninteractiveWhole : after .blank (letters noninteractive) = .blank := afterLines (by decide)

theorem updateWhole : after .blank (letters aptUpdateSafeBash) = .blank := by
  have opts : Whole "    apt-get update \"$\x7bopts[@]\x7d\" \\" := by decide +kernel
  have parts : Whole "      -o Dir::Etc::sourceparts=- && return 0" := by decide +kernel
  have fi : Whole "  fi" := by decide +kernel
  refine afterLines ?_
  simp only [List.forall_mem_cons]
  refine ⟨?_,?_,?_,?_,opts,?_,parts,fi,?_,opts,?_,parts,fi,?_,opts,?_,parts,fi,?_,opts,?_,parts,fi,?_,?_,?_,?_,?_,?_⟩
  all_goals decide +kernel

theorem headerThen {s : String} (here : after .blank (letters s) = .blank) : Open (after .blank (letters (header ++ s))) := by
  rw [lettersAppend,afterAppend,headerWhole]
  exact .inl here

/- A text without its blank ends. -/
theorem trimmedParts (s : String) : ∃ lead trail, s.toList = lead ++ (trimSpace s).toList ++ trail ∧ ∀ c ∈ lead ++ trail, isSpace c = true := by
  refine ⟨s.toList.takeWhile isSpace,((trimLeft s.toList).reverse.takeWhile isSpace).reverse,?_,?_⟩
  · have right : (trimSpace s).toList ++ ((trimLeft s.toList).reverse.takeWhile isSpace).reverse = trimLeft s.toList := by
      rw [trimSpace,String.toList_ofList,← List.reverse_append]
      show ((trimLeft s.toList).reverse.takeWhile isSpace ++ (trimLeft s.toList).reverse.dropWhile isSpace).reverse = _
      rw [List.takeWhile_append_dropWhile,List.reverse_reverse]
    rw [List.append_assoc,right]
    exact List.takeWhile_append_dropWhile.symm
  · intro c mem
    rcases List.mem_append.mp mem with first | last
    · exact List.mem_takeWhile_imp first
    · exact List.mem_takeWhile_imp (List.mem_reverse.mp last)

/- Inside apostrophes. -/
theorem singleReads (cs : List Char) (rest : List Char) :
    marks .single (chars (cs.flatMap closeReopen ++ rest)) = cs.map .lit ++ marks .single (chars rest) ∧
    after .single (chars (cs.flatMap closeReopen ++ rest)) = after .single (chars rest) := by
  induction cs with
  | nil => exact ⟨rfl,rfl⟩
  | cons c cs ih =>
    obtain ⟨reads,ends⟩ := ih
    rw [List.flatMap_cons,List.append_assoc]
    by_cases same : c = apostrophe
    · subst same
      exact ⟨congrArg (Mark.lit apostrophe :: ·) reads,ends⟩
    · have here : step .single (.char c) = (.single,[.lit c]) := if_neg same
      have stays : closeReopen c = [c] := if_neg same
      rw [chars] at reads ends
      rw [chars,stays,List.singleton_append,List.map_cons,marks,after,here]
      exact ⟨by rw [reads]; rfl,ends⟩

theorem safeLeading {c : Char} (safe : shellSafe c = true) : Leading c := by
  have codes : c = '-' ∨ c = '_' ∨ c = '.' ∨ c = '+' ∨ ('a' ≤ c ∧ c ≤ 'z') ∨ ('A' ≤ c ∧ c ≤ 'Z') ∨ ('0' ≤ c ∧ c ≤ '9') := by
    simpa [shellSafe,or_assoc] using safe
  have apart (d : Char) (unsafe_ : shellSafe d = false) : c ≠ d := by
    rintro rfl
    rw [safe] at unsafe_
    cases unsafe_
  have none {l : List Char} (bad : l.all fun d => !shellSafe d) : c ∉ l := fun mem =>
    apart c ((Bool.not_eq_true' _).mp (List.all_eq_true.mp bad c mem)) rfl
  exact ⟨⟨none (by decide),none (by decide),none (by decide),none (by decide)⟩,apart '#' (by decide),apart '~' (by decide)⟩

/- What shellQuote gives is read as the name. -/
theorem shellQuoteWrites (s : String) : Writes (shellQuote s).toList (trimSpace s).toList := by
  unfold shellQuote
  dsimp only
  split
  · rename_i empty
    rw [empty]
    rintro m (rfl | rfl) <;> exact ⟨rfl,rfl⟩
  split
  · rename_i filled safe
    cases name : (trimSpace s).toList with
    | nil => exact absurd (String.toList_eq_nil_iff.mp name) filled
    | cons c cs =>
      rw [name,List.all_eq_true] at safe
      exact ordinaryWrites (safeLeading (safe c (by simp))) (fun d mem => (safeLeading (safe d (by simp [mem]))).toOrdinary)
  · rw [String.toList_ofList]
    generalize (trimSpace s).toList = cs
    obtain ⟨reads,ends⟩ := singleReads cs [apostrophe]
    have opens (m : Mode) (here : Open m) : step m (.char apostrophe) = (.single,[]) := by
      rcases here with rfl | rfl <;> rfl
    intro m here
    rw [chars] at reads ends
    rw [chars,List.cons_append,List.map_cons,marks,after,opens m here]
    dsimp only
    rw [reads,ends]
    exact ⟨List.append_nil _,rfl⟩

variable {name : String} {value : List Char}

/- One hole in a text, filled. -/
theorem oneHole {a b : String} {p : String} (here : Open (after .blank (letters a))) (writes : Writes p.toList value) :
    Follows value .blank (letters a ++ ([.hole] ++ letters b)) (letters a ++ (letters p ++ letters b)) :=
  followsText.mpr ((followsHole writes here).mpr (followsEnd value .word b.toList))

/- A name that may stand in a script as it is: what the shell takes for itself, with
nothing but spaces and tabs around it. -/
structure BareName (name : String) : Prop where
  parts : ∃ c cs lead trail, (trimSpace name).toList = c :: cs ∧ name.toList = lead ++ (c :: cs) ++ trail ∧
    Leading c ∧ (∀ d ∈ cs, Ordinary d) ∧ ∀ d ∈ lead ++ trail, d ∈ blanks

theorem spaceRead {c : Char} (start : Bool) (space : isSpace c = true) :
    (c ∈ blanks ∧ unquoted start c = (.blank,if start then [] else [.stop])) ∨
    (c = '\n' ∧ unquoted start c = (.blank,if start then [.op c] else [.stop,.op c])) ∨ unquoted start c = (.word,[.lit c]) := by
  have apart (d : Char) (solid : isSpace d = false) : c ≠ d := by
    rintro rfl
    rw [space] at solid
    cases solid
  have none {l : List Char} (solid : l.all fun d => !isSpace d) : c ∉ l := fun mem =>
    apart c ((Bool.not_eq_true' _).mp (List.all_eq_true.mp solid c mem)) rfl
  unfold unquoted
  rw [if_neg (apart _ (by decide)),if_neg (apart _ (by decide)),if_neg (apart _ (by decide))]
  split
  · rename_i blank
    exact .inl ⟨blank,rfl⟩
  rename_i blank
  split
  · rename_i operator
    refine .inr (.inl ⟨?_,rfl⟩)
    rcases List.mem_cons.mp operator with here | more
    · exact here
    · exact absurd more (none (by decide))
  · refine .inr (.inr ?_)
    rw [if_neg (by simp [apart '#' (by decide)]),if_neg]
    rw [not_or]
    exact ⟨none (by decide),by simp [apart '~' (by decide)]⟩

/- Blank characters in front of a mark that is none of them. -/
theorem spacesRead {cs rest : List Char} {f : Mark} {r fin : List Mark} (spaces : ∀ c ∈ cs, isSpace c = true)
    (line : f ≠ .op '\n') (lit : ∀ c, f = .lit c → isSpace c = false)
    (reads : marks .blank (chars (cs ++ rest)) ++ fin = f :: r) :
    (∀ c ∈ cs, c ∈ blanks) ∧ marks .blank (chars rest) ++ fin = f :: r := by
  induction cs with
  | nil => exact ⟨fun c mem => absurd mem List.not_mem_nil,reads⟩
  | cons c cs ih =>
    have space := spaces c (by simp)
    have turn : (unquoted true c).2 ++ marks (unquoted true c).1 (chars (cs ++ rest)) ++ fin = f :: r := reads
    rcases spaceRead true space with ⟨blank,here⟩ | ⟨rfl,here⟩ | here
    · rw [here] at turn
      obtain ⟨more,same⟩ := ih (fun d mem => spaces d (by simp [mem])) turn
      refine ⟨?_,same⟩
      intro d mem
      rcases List.mem_cons.mp mem with rfl | inside
      · exact blank
      · exact more d inside
    · rw [here] at turn
      exact absurd (List.cons.inj turn).1.symm line
    · rw [here] at turn
      have solid := lit c (List.cons.inj turn).1.symm
      rw [space] at solid
      cases solid

/- What follows the bare name. -/
def redirect : List Mark := .op '>' :: "/dev/null".toList.map .lit ++ [.stop,.op '\n']

theorem redirectReads : marks .blank (letters ">/dev/null\n") = redirect ∧ after .blank (letters ">/dev/null\n") = .blank := by decide

theorem redirectKept : redirect.filterMap Shell.kept = ">/dev/null\n".toList := by decide

theorem tailParts : " >/dev/null\n".toList = ' ' :: ">/dev/null\n".toList := by decide

theorem blanksRead {cs : List Char} (blank : ∀ c ∈ cs, c ∈ blanks) (rest : List Char) :
    marks .blank (chars (cs ++ rest)) = marks .blank (chars rest) ∧ after .blank (chars (cs ++ rest)) = after .blank (chars rest) := by
  induction cs with
  | nil => exact ⟨rfl,rfl⟩
  | cons c cs ih =>
    have here : step .blank (.char c) = (.blank,[]) := by
      have mem := blank c (by simp)
      simp only [blanks,List.mem_cons,List.not_mem_nil,or_false] at mem
      rcases mem with rfl | rfl <;> rfl
    obtain ⟨reads,ends⟩ := ih (fun d mem => blank d (by simp [mem]))
    rw [chars] at reads ends
    rw [chars,List.cons_append,List.map_cons,marks,after,here]
    exact ⟨reads,ends⟩

/- Blanks and the redirection end the word. -/
theorem tailReads {trail : List Char} (blank : ∀ c ∈ trail, c ∈ blanks) :
    marks .word (chars (trail ++ " >/dev/null\n".toList)) = .stop :: redirect ∧
    after .word (chars (trail ++ " >/dev/null\n".toList)) = .blank := by
  obtain ⟨reads,ends⟩ := redirectReads
  have ends' : ∀ c cs, c ∈ blanks → (∀ d ∈ cs, d ∈ blanks) →
      marks .word (chars (c :: (cs ++ ">/dev/null\n".toList))) = .stop :: redirect ∧
      after .word (chars (c :: (cs ++ ">/dev/null\n".toList))) = .blank := by
    intro c cs mem more
    have here : step .word (.char c) = (.blank,[.stop]) := by
      simp only [blanks,List.mem_cons,List.not_mem_nil,or_false] at mem
      rcases mem with rfl | rfl <;> rfl
    obtain ⟨reads',ends'⟩ := blanksRead more ">/dev/null\n".toList
    rw [chars] at reads' ends'
    rw [chars,List.map_cons,marks,after,here]
    exact ⟨by rw [reads']; exact congrArg (Mark.stop :: ·) reads,ends'.trans ends⟩
  rw [tailParts]
  cases trail with
  | nil => exact ends' ' ' [] (by decide) (by simp)
  | cons c cs =>
    have shape : c :: cs ++ ' ' :: ">/dev/null\n".toList = c :: ((cs ++ [' ']) ++ ">/dev/null\n".toList) := by simp
    rw [shape]
    refine ends' c (cs ++ [' ']) (blank c (by simp)) ?_
    intro d mem
    rcases List.mem_append.mp mem with old | new
    · exact blank d (by simp [old])
    · rw [List.mem_singleton.mp new]
      decide

/- A name that is put in bare is read as itself exactly when it may stand so. -/
theorem bareIff : Follows (trimSpace name).toList .blank ([.hole] ++ letters " >/dev/null\n") (letters name ++ letters " >/dev/null\n") ↔
    BareName name := by
  obtain ⟨tail,_⟩ := @tailReads [] (by simp)
  have ends : after .word (letters " >/dev/null\n") = .blank := (@tailReads [] (by simp)).2
  have whole : filled (trimSpace name).toList (marks .blank ([.hole] ++ letters " >/dev/null\n") ++
      finish (after .blank ([.hole] ++ letters " >/dev/null\n"))) = (trimSpace name).toList.map .lit ++ .stop :: redirect := by
    have shape : marks .blank ([.hole] ++ letters " >/dev/null\n") = .hole :: marks .word (letters " >/dev/null\n") := rfl
    have last : after .blank ([.hole] ++ letters " >/dev/null\n") = after .word (letters " >/dev/null\n") := rfl
    rw [shape,last,ends]
    show filled _ ([Mark.hole] ++ marks .word (letters " >/dev/null\n") ++ []) = _
    rw [List.append_nil,filledAppend,letters,filledChars]
    have reads : marks .word (chars " >/dev/null\n".toList) = .stop :: redirect := tail
    rw [reads]
    simp [filled,fill]
  unfold Follows
  rw [whole]
  constructor
  · intro reads
    obtain ⟨lead,trail,parts,spaces⟩ := trimmedParts name
    have solid := trimSpaceSolid name
    have text : letters name ++ letters " >/dev/null\n" = chars (lead ++ ((trimSpace name).toList ++ trail ++ " >/dev/null\n".toList)) := by
      rw [letters,letters,parts]
      simp [chars]
    rw [text] at reads
    generalize after .blank (chars (lead ++ ((trimSpace name).toList ++ trail ++ " >/dev/null\n".toList))) = m at reads
    have inLead : ∀ d ∈ lead, isSpace d = true := fun d mem => spaces d (by simp [mem])
    have inTrail : ∀ d ∈ trail, isSpace d = true := fun d mem => spaces d (by simp [mem])
    cases value : (trimSpace name).toList with
    | nil =>
      rw [value,List.nil_append] at reads
      obtain ⟨_,reads⟩ := spacesRead inLead (by simp) (by simp) reads
      obtain ⟨_,reads⟩ := spacesRead inTrail (by simp) (by simp) reads
      rw [tailParts] at reads
      have blank := (@blanksRead [' '] (by simp [blanks]) ">/dev/null\n".toList).1
      rw [List.singleton_append] at blank
      rw [blank] at reads
      have first : redirect ++ finish m = .stop :: redirect := redirectReads.1 ▸ reads
      cases (List.cons.inj first).1
    | cons c cs =>
      rw [value] at reads parts solid
      obtain ⟨leadBlank,reads⟩ := spacesRead inLead (by simp)
        (by rintro d same; cases same; exact solid.1 c rfl) reads
      have gaps : ∀ d, (c :: cs).getLast? = some d → d ∉ trail ++ [' '] := by
        intro d last mem
        have flat := solid.2 d last
        rcases List.mem_append.mp mem with old | new
        · rw [inTrail d old] at flat
          cases flat
        · rw [List.mem_singleton.mp new] at flat
          revert flat
          decide
      have shape : c :: cs ++ trail ++ " >/dev/null\n".toList = c :: cs ++ (trail ++ [' ']) ++ ">/dev/null\n".toList := by
        rw [tailParts]
        simp
      obtain ⟨leading,ordinary⟩ := blankLeading gaps redirectKept (shape ▸ reads)
      obtain ⟨word,ends'⟩ := ordinaryWrites leading ordinary .blank (.inl rfl)
      have split : chars (c :: cs ++ trail ++ " >/dev/null\n".toList) = chars (c :: cs) ++ chars (trail ++ " >/dev/null\n".toList) := by
        simp [chars]
      have rest : marks .word (chars (trail ++ " >/dev/null\n".toList)) ++ finish m = .stop :: redirect := by
        have all := reads
        rw [split,marksAppend,word,ends',List.append_assoc] at all
        exact List.append_cancel_left all
      refine ⟨c,cs,lead,trail,value,parts,leading,ordinary,?_⟩
      intro d mem
      rcases List.mem_append.mp mem with old | new
      · exact leadBlank d old
      · -- The first blank behind the name ends the word, the others are passed over.
        cases trail with
        | nil => exact absurd new List.not_mem_nil
        | cons e trail =>
          have turn : (unquoted false e).2 ++ marks (unquoted false e).1 (chars (trail ++ " >/dev/null\n".toList)) ++ finish m =
              .stop :: redirect := rest
          rcases spaceRead false (inTrail e (by simp)) with ⟨blank,here⟩ | ⟨rfl,here⟩ | here
          · rw [here] at turn
            have more := (spacesRead (fun k mem => inTrail k (by simp [mem])) (by simp) (by simp) (List.cons.inj turn).2).1
            rcases List.mem_cons.mp new with rfl | inside
            · exact blank
            · exact more d inside
          · rw [here] at turn
            cases (List.cons.inj (List.cons.inj turn).2).1
          · rw [here] at turn
            cases (List.cons.inj turn).1
  · rintro ⟨c,cs,lead,trail,value,parts,leading,ordinary,blank⟩
    obtain ⟨word,ends'⟩ := ordinaryWrites leading ordinary .blank (.inl rfl)
    obtain ⟨reads,close⟩ := @tailReads trail (fun d mem => blank d (by simp [mem]))
    have text : letters name ++ letters " >/dev/null\n" =
        chars (lead ++ (c :: cs ++ (trail ++ " >/dev/null\n".toList))) := by
      rw [letters,letters,parts]
      simp [chars]
    obtain ⟨skip,skip'⟩ := @blanksRead lead (fun d mem => blank d (by simp [mem])) (c :: cs ++ (trail ++ " >/dev/null\n".toList))
    have split : chars (c :: cs ++ (trail ++ " >/dev/null\n".toList)) = chars (c :: cs) ++ chars (trail ++ " >/dev/null\n".toList) := by
      simp [chars]
    rw [text,skip,skip',split,marksAppend,afterAppend,word,ends',reads,close,value]
    exact List.append_nil _

theorem installLetters (family p b : String) :
    letters (installScript id family p b) = installScript letters family (letters p) (letters b) := by
  unfold installScript
  split <;> simp only [id,lettersAppend]

theorem uninstallLetters (family p : String) : letters (uninstallScript id family p) = uninstallScript letters family (letters p) := by
  unfold uninstallScript
  split <;> simp only [id,lettersAppend]

theorem upgradeLetters (family p b : String) :
    letters (upgradeScript id family p b) = upgradeScript letters family (letters p) (letters b) := by
  unfold upgradeScript
  split
  all_goals first | simp only [id,lettersAppend] | exact installLetters family p b

/- The scripts are read as if the name stood in them as one word, or as the value of one
variable, and it is no option. -/
structure Confined (t : PackageTarget) : Prop where
  install : lex (letters (BuildInstallScript t)) =
    filled (trimSpace t.pkgName).toList (lex (installScript letters t.packageFamily [.hole] [.hole]))
  uninstall : lex (letters (BuildUninstallScript t)) =
    filled (trimSpace t.pkgName).toList (lex (uninstallScript letters t.packageFamily [.hole]))
  upgrade : lex (letters (BuildUpgradeScript t)) =
    filled (trimSpace t.pkgName).toList (lex (upgradeScript letters t.packageFamily [.hole] [.hole]))
  argument : (trimSpace t.pkgName).toList.head? ≠ some '-'

section Read
variable {p b : String}

theorem aptOpen {s : String} (here : after .blank (letters s) = .blank) :
    Open (after .blank (letters (header ++ noninteractive ++ aptUpdateSafeBash ++ s))) := by
  rw [lettersAppend,lettersAppend,lettersAppend,afterAppend,afterAppend,afterAppend,headerWhole,noninteractiveWhole,updateWhole]
  exact .inl here

theorem assignOpen : Open (after .blank (letters (header ++ "PKG="))) := by
  rw [lettersAppend,afterAppend,headerWhole]
  exact .inr (by decide)

theorem installRead (writes : Writes p.toList value) (family : String) (bare : family = "apt" →
      (Follows value .blank ([.hole] ++ letters " >/dev/null\n") (letters b ++ letters " >/dev/null\n") ↔ BareName b)) :
    Follows value .blank (installScript letters family [.hole] [.hole]) (installScript letters family (letters p) (letters b)) ↔
      (family = "apt" → BareName b) := by
  unfold installScript
  split
  · have between : after .word (letters "\ncommand -v ") = .blank := by decide
    have start := aptOpen (s := "apt-get install -y --no-install-recommends ") (by decide +kernel)
    refine (followsText.trans ((followsHole writes start).trans followsText)).trans ?_
    rw [show after .word (chars "\ncommand -v ".toList) = .blank from between]
    exact (bare rfl).trans ⟨fun held _ => held,fun held => held rfl⟩
  · exact iff_of_true (oneHole (headerThen (by decide)) writes) (by simp)
  · exact iff_of_true (oneHole (headerThen (by decide)) writes) (by simp)
  · exact iff_of_true (oneHole (headerThen (by decide)) writes) (by simp)
  · rename_i other _ _ _
    exact iff_of_true (oneHole assignOpen writes) (fun apt => absurd apt other)

theorem uninstallRead (writes : Writes p.toList value) (family : String) :
    Follows value .blank (uninstallScript letters family [.hole]) (uninstallScript letters family (letters p)) := by
  unfold uninstallScript
  split
  · refine oneHole ?_ writes
    rw [lettersAppend,lettersAppend,afterAppend,afterAppend,headerWhole,noninteractiveWhole]
    exact .inl (by decide)
  · exact oneHole (headerThen (by decide)) writes
  · exact oneHole (headerThen (by decide)) writes
  · exact oneHole (headerThen (by decide)) writes
  · exact oneHole assignOpen writes

theorem upgradeRead (writes : Writes p.toList value) (family : String) :
    Follows value .blank (upgradeScript letters family [.hole] [.hole]) (upgradeScript letters family (letters p) (letters b)) := by
  unfold upgradeScript
  split
  · exact oneHole (aptOpen (by decide)) writes
  · exact oneHole (headerThen (by decide)) writes
  · exact oneHole (headerThen (by decide)) writes
  · exact oneHole (headerThen (by decide)) writes
  · rename_i other _ _ _
    exact (installRead writes family (fun apt => absurd apt other)).mpr (fun apt => absurd apt other)

end Read

/- The name is confined unless it is an option, or the script is an install script for
apt, which asks for it bare. -/
theorem confinedIff (t : PackageTarget) : Confined t ↔
    (t.packageFamily = "apt" → BareName t.pkgName) ∧ (trimSpace t.pkgName).toList.head? ≠ some '-' := by
  have writes := shellQuoteWrites t.pkgName
  have install := installRead (b := t.pkgName) writes t.packageFamily (fun _ => bareIff)
  rw [← installLetters] at install
  constructor
  · intro confined
    exact ⟨install.mp confined.install,confined.argument⟩
  · rintro ⟨bare,argument⟩
    refine ⟨install.mpr bare,?_,?_,argument⟩
    · have read := uninstallRead writes t.packageFamily
      rw [← uninstallLetters] at read
      exact read
    · have read := upgradeRead (b := t.pkgName) writes t.packageFamily
      rw [← upgradeLetters] at read
      exact read

/- A name with a command in it, and one that is an option. -/
theorem commandAdded : ¬Confined ⟨"apt","vim; reboot"⟩ ∧ ¬Confined ⟨"dnf","--version"⟩ := by
  constructor
  · intro confined
    have install := confined.install
    unfold BuildInstallScript at install
    rw [installLetters] at install
    obtain ⟨c,cs,lead,trail,name,_,_,ordinary,_⟩ :=
      (installRead (shellQuoteWrites "vim; reboot") "apt" (fun _ => bareIff)).mp install rfl
    have trimmed : (trimSpace "vim; reboot").toList = 'v' :: "im; reboot".toList := by decide
    have rest : cs = "im; reboot".toList := (List.cons.inj (name.symm.trans trimmed)).2
    have semicolon : Ordinary ';' := ordinary ';' (by rw [rest]; decide)
    exact semicolon.operator (by decide)
  · intro confined
    exact confined.argument (by decide)

end ContainerWS.SoftwarePkg
