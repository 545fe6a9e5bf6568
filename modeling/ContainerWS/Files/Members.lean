import ContainerWS.GoClean

/-! Where the members of an archive go: safeUnzipPath of modules/filemanager/ops/archive.go, and the same
decision in extractZip of modules/mcp/tools/filesystem/archive.go. A destination is a cleaned absolute path. -/
namespace ContainerWS.Files
open GoPath GoStrings

inductive UnzipError where
  | invalid
  | escapes
  deriving DecidableEq, Repr

def UnzipError.text : UnzipError → String
  | .invalid => "invalid archive entry"
  | .escapes => "archive entry escapes destination"

def safeUnzipPath (destDir : Path) (name : String) : Except UnzipError Path :=
  let clean := cleanText name
  if clean = "." ∨ clean = "" then .error .invalid
  else if hasPrefix clean "../" ∨ clean = ".." then .error .escapes
  else
    let target := join destDir clean
    if hasPrefix (Rel destDir target) ".." then .error .escapes else .ok target

/- A member that is passed over, one that ends the extraction, and one that is written. -/
inductive Taken where
  | skipped
  | refused
  | written (target : Path)
  deriving DecidableEq, Repr

def mcpUnzipPath (destAbs : Path) (fileName : String) : Taken :=
  let name := cleanText fileName
  if name = "." ∨ hasPrefix name ".." then .skipped
  else
    let target := join destAbs name
    if ¬ hasPrefix (render target) (render destAbs ++ "/") ∧ render target ≠ render destAbs then .refused else .written target

/- A name whose first component only begins like the parent. -/
def Dotted (name : String) : Prop := (cleaned name).up = 0 ∧ ∃ n, (cleaned name).names.head? = some n ∧ hasPrefix n ".." = true

/- The name leads somewhere, and by itself not out. -/
def Leads (name : String) : Prop := cleanText name ≠ "." ∧ cleanText name ≠ ".." ∧ hasPrefix (cleanText name) "../" = false

theorem leadsIff (name : String) : Leads name ↔ cleanText name ≠ "." ∧ (cleaned name).up = 0 := by
  have goes := upText (cleanedProper name)
  unfold Leads
  refine and_congr_right (fun _ => ?_)
  rw [← Nat.le_zero,← Nat.not_lt,← goes,not_or,and_comm,Bool.not_eq_true]
  rfl

theorem relDots (destDir names : Path) :
    hasPrefix (Rel destDir (destDir ++ names)) ".." = true ↔ ∃ n, names.head? = some n ∧ hasPrefix n ".." = true := by
  unfold GoPath.Rel
  rw [relBelow]
  cases names with
  | nil => exact iff_of_false (by decide) (by simp)
  | cons n rest =>
    rw [if_neg (List.cons_ne_nil _ _),joinedStart (by decide)]
    simp

theorem safeIff (destDir : Path) (name : String) (p : Path) :
    safeUnzipPath destDir name = .ok p ↔ Leads name ∧ ¬ Dotted name ∧ destDir ++ (cleaned name).names = p := by
  have proper := cleanedProper name
  unfold safeUnzipPath
  dsimp only
  by_cases here : cleanText name = "."
  · rw [if_pos (.inl here)]
    exact iff_of_false nofun (fun held => held.1.1 here)
  rw [if_neg (by rintro (same | same); exacts [here same,cleanFilled name same])]
  by_cases goes : hasPrefix (cleanText name) "../" = true ∨ cleanText name = ".."
  · rw [if_pos goes]
    refine iff_of_false nofun ?_
    rintro ⟨⟨_,other,still⟩,_⟩
    rcases goes with start | same
    · rw [still] at start
      cases start
    · exact other same
  · have leads : Leads name := ⟨here,fun same => goes (.inr same),Bool.eq_false_iff.mpr (fun start => goes (.inl start))⟩
    have still := ((leadsIff name).mp leads).2
    have lands : join destDir (cleanText name) = destDir ++ (cleaned name).names := joinText proper still destDir
    rw [if_neg goes,lands]
    by_cases dots : hasPrefix (Rel destDir (destDir ++ (cleaned name).names)) ".." = true
    · rw [if_pos dots]
      exact iff_of_false nofun (fun held => held.2.1 ⟨still,(relDots _ _).mp dots⟩)
    · rw [if_neg dots,Except.ok.injEq]
      exact ⟨fun same => ⟨leads,fun dotted => dots ((relDots _ _).mpr dotted.2),same⟩,fun held => held.2.2⟩

/- A name that the MCP tools do not pass over leads in, and is not dotted unless it is absolute. -/
theorem keptLeads {name : String} (kept : ¬ (cleanText name = "." ∨ hasPrefix (cleanText name) ".." = true)) : Leads name := by
  obtain ⟨here,dots⟩ := not_or.mp kept
  refine ⟨here,?_,?_⟩
  · intro same
    rw [same] at dots
    exact dots (by decide)
  · refine Bool.eq_false_iff.mpr (fun start => dots ?_)
    have first := List.isPrefixOf_iff_prefix.mp start
    exact List.isPrefixOf_iff_prefix.mpr ((show "..".toList <+: "../".toList by decide).trans first)

theorem keptIff {name : String} (plain : ¬ Dotted name) :
    ¬ (cleanText name = "." ∨ hasPrefix (cleanText name) ".." = true) ↔ Leads name := by
  have proper := cleanedProper name
  refine ⟨keptLeads,?_⟩
  intro leads
  have still := ((leadsIff name).mp leads).2
  rw [not_or]
  refine ⟨leads.1,?_⟩
  intro dots
  obtain ⟨_,n,head,start⟩ := (dotsText proper).mp dots
  refine plain ⟨still,n,?_,start⟩
  rwa [Cleaned.parts,still] at head

/- Below a destination that is not the root all is inside. -/
theorem insideText {destAbs : Path} (some : destAbs ≠ []) (names : Path) :
    ¬ (¬ hasPrefix (render (destAbs ++ names)) (render destAbs ++ "/") = true ∧ render (destAbs ++ names) ≠ render destAbs) := by
  rintro ⟨outside,other⟩
  by_cases empty : names = []
  · rw [empty,List.append_nil] at other
    exact other rfl
  · apply outside
    rw [renderBelow some empty,hasPrefix,List.isPrefixOf_iff_prefix,String.toList_append,String.toList_append,String.toList_append]
    exact List.prefix_append _ _

theorem mcpWritten {destAbs : Path} {name : String} {p : Path} (done : mcpUnzipPath destAbs name = .written p) :
    Leads name ∧ destAbs ++ (cleaned name).names = p := by
  unfold mcpUnzipPath at done
  dsimp only at done
  split at done
  · cases done
  · rename_i kept
    have leads := keptLeads kept
    refine ⟨leads,?_⟩
    rw [← joinText (cleanedProper name) ((leadsIff name).mp leads).2]
    split at done
    · cases done
    · exact Taken.written.inj done

theorem mcpIff {destAbs : Path} (some : destAbs ≠ []) {name : String} (plain : ¬ Dotted name) (p : Path) :
    mcpUnzipPath destAbs name = .written p ↔ Leads name ∧ destAbs ++ (cleaned name).names = p := by
  refine ⟨mcpWritten,?_⟩
  rintro ⟨leads,rfl⟩
  unfold mcpUnzipPath
  dsimp only
  rw [if_neg ((keptIff plain).mpr leads)]
  rw [show join destAbs (cleanText name) = destAbs ++ (cleaned name).names from
    joinText (cleanedProper name) ((leadsIff name).mp leads).2 destAbs]
  exact if_neg (insideText some _)

/- What is written stays inside, in both; a name is taken for what it is when it is cleaned, not for where it would
lead from the destination. -/
theorem membersInside (destDir : Path) (name : String) :
    (∀ p, safeUnzipPath destDir name = .ok p ∨ mcpUnzipPath destDir name = .written p →
      p = join destDir (cleanText name) ∧ destDir <+: p) ∧
    (¬ Dotted name → ((∃ p, safeUnzipPath destDir name = .ok p) ↔ Leads name)) ∧
    (¬ Dotted name → destDir ≠ [] → ∀ p, mcpUnzipPath destDir name = .written p ↔ safeUnzipPath destDir name = .ok p) := by
  refine ⟨?_,?_,?_⟩
  · intro p taken
    have both : Leads name ∧ destDir ++ (cleaned name).names = p := by
      rcases taken with safe | mcp
      · exact ⟨((safeIff _ _ _).mp safe).1,((safeIff _ _ _).mp safe).2.2⟩
      · exact mcpWritten mcp
    obtain ⟨leads,rfl⟩ := both
    exact ⟨(joinText (cleanedProper name) ((leadsIff name).mp leads).2 destDir).symm,List.prefix_append _ _⟩
  · intro plain
    constructor
    · rintro ⟨p,safe⟩
      exact ((safeIff _ _ _).mp safe).1
    · exact fun leads => ⟨_,(safeIff _ _ _).mpr ⟨leads,plain,rfl⟩⟩
  · intro plain some p
    rw [mcpIff some plain,safeIff]
    exact ⟨fun held => ⟨held.1,plain,held.2⟩,fun held => ⟨held.1,held.2.2⟩⟩

/- One name that would come back is refused, and one that would lead out is taken for what it names. -/
theorem cleanedFirst :
    safeUnzipPath ["a","b"] "../b/x" = .error .escapes ∧ ["a","b"] <+: join ["a","b"] "../b/x" ∧
      safeUnzipPath ["a","b"] "/../x" = .ok ["a","b","x"] ∧ ¬ ["a","b"] <+: join ["a","b"] "/../x" := by
  decide

end ContainerWS.Files
