import ContainerWS.Softwares.Matching

/-! Which of two versions for one host MatchingVersion prefers, when one of them says more. -/
namespace ContainerWS.SoftwareMatch
open GoStrings

variable (m : CaseMap) (fold : Char → Char)

/- The same fields, but some where only the second takes any host. -/
def Refines (v w : SoftwareVersion) : Prop :=
  List.Forall₂ (fun a b => a = b ∨ (wildcard fold b = true ∧ wildcard fold a = false)) v.fields w.fields ∧ v.fields ≠ w.fields

/- The one that says more scores higher, and the other is picked from no list that has both. -/
def Prefers (v w : SoftwareVersion) (h : HostIdentity) : Prop :=
  SpecificityScore v > SpecificityScore w ∧ ∀ versions preferLatest, v ∈ versions → w ∈ versions →
    MatchingVersion m fold versions h preferLatest ≠ some w ∧ pickBestVersion m fold versions h preferLatest ≠ some w

/- A field that the first fills and the second leaves blank. -/
def leftBlank (p : String × String) : Bool := p.1 ≠ p.2 && trimSpace p.2 = ""

theorem blankWild {s : String} (blank : trimSpace s = "") : wildcard fold s = true := by
  rw [wildcard,decide_eq_true blank]
  rfl

/- The score rises by the blank fields that are filled, and by no other wildcard. -/
theorem countRefined {as bs : List String}
    (refined : List.Forall₂ (fun a b => a = b ∨ (wildcard fold b = true ∧ wildcard fold a = false)) as bs) :
    as.countP (fun f => decide (trimSpace f ≠ "")) =
      bs.countP (fun f => decide (trimSpace f ≠ ""))+(as.zip bs).countP leftBlank := by
  induction refined with
  | nil => rfl
  | @cons a b as bs head _ ih =>
    rw [List.zip_cons_cons,List.countP_cons,List.countP_cons,List.countP_cons,ih]
    rcases head with same | ⟨wild,concrete⟩
    · have kept : leftBlank (a,b) = false := by rw [leftBlank,same,decide_eq_false (fun other => other rfl),Bool.false_and]
      rw [kept,same,if_neg Bool.false_ne_true]
      omega
    · have solid : trimSpace a ≠ "" := fun blank => Bool.false_ne_true (concrete.symm.trans (blankWild fold blank))
      have other : a ≠ b := by
        intro same
        rw [same] at concrete
        exact Bool.false_ne_true (concrete.symm.trans wild)
      rw [decide_eq_true solid,if_pos rfl]
      by_cases blank : trimSpace b = ""
      · have filled : leftBlank (a,b) = true := by rw [leftBlank,decide_eq_true other,decide_eq_true blank]; rfl
        rw [filled,if_pos rfl,decide_eq_false (not_not.mpr blank),if_neg Bool.false_ne_true]
        omega
      · have kept : leftBlank (a,b) = false := by rw [leftBlank,decide_eq_false blank,Bool.and_false]
        rw [kept,if_neg Bool.false_ne_true,decide_eq_true blank,if_pos rfl]
        omega

theorem scoreNonneg (preferLatest : Bool) (v : SoftwareVersion) : -1 < versionScore preferLatest v := by
  unfold versionScore SpecificityScore
  split <;> omega

theorem scoreOrder {v w : SoftwareVersion} (same : v.isLatest = w.isLatest) (preferLatest : Bool) :
    versionScore preferLatest w < versionScore preferLatest v ↔ SpecificityScore w < SpecificityScore v := by
  unfold versionScore
  rw [same]
  split <;> omega

/- Where one that matches scores higher, the other is never picked. -/
theorem higherPicked {v w : SoftwareVersion} {h : HostIdentity} (fits : MatchesHost m fold v h = true)
    (same : v.isLatest = w.isLatest) (more : SpecificityScore v > SpecificityScore w) {versions : List SoftwareVersion}
    (mem : v ∈ versions) (preferLatest : Bool) :
    MatchingVersion m fold versions h preferLatest ≠ some w ∧ pickBestVersion m fold versions h preferLatest ≠ some w := by
  have notPicked : MatchingVersion m fold versions h preferLatest ≠ some w := by
    intro picked
    have above := Best.pickAbove _ _ picked mem fits
    exact absurd ((scoreOrder same preferLatest).mpr more) (by omega)
  refine ⟨notPicked,?_⟩
  obtain ⟨best,found⟩ := Best.pickSome (fun v => MatchesHost m fold v h) (versionScore preferLatest) mem fits
    (scoreNonneg preferLatest v)
  have picked : MatchingVersion m fold versions h preferLatest = some best := found
  unfold pickBestVersion
  rw [picked] at notPicked ⊢
  exact notPicked

theorem prefersIff {v w : SoftwareVersion} {h : HostIdentity} (fits : MatchesHost m fold v h = true)
    (same : v.isLatest = w.isLatest) (refines : Refines fold v w) :
    Prefers m fold v w h ↔ ∃ p ∈ v.fields.zip w.fields, p.1 ≠ p.2 ∧ trimSpace p.2 = "" := by
  have rises : SpecificityScore v > SpecificityScore w ↔ ∃ p ∈ v.fields.zip w.fields, p.1 ≠ p.2 ∧ trimSpace p.2 = "" := by
    have count := countRefined fold refines.1
    have some : 0 < (v.fields.zip w.fields).countP leftBlank ↔ ∃ p ∈ v.fields.zip w.fields, p.1 ≠ p.2 ∧ trimSpace p.2 = "" := by
      rw [List.countP_pos_iff]
      simp only [leftBlank,Bool.and_eq_true,decide_eq_true_eq]
    unfold SpecificityScore
    rw [← some,count]
    omega
  rw [← rises]
  exact ⟨fun prefers => prefers.1,fun more => ⟨more,fun _ preferLatest mem _ => higherPicked m fold fits same more mem preferLatest⟩⟩

def anyArch : SoftwareVersion := { id := "w", os := "linux", arch := "any" }

def amd64Build : SoftwareVersion := { id := "v", os := "linux", arch := "amd64" }

def amd64Host : HostIdentity := { os := "linux", arch := "amd64" }

theorem refinesAny : Refines Char.toLower amd64Build anyArch := by
  unfold Refines
  decide

theorem prefersIffAny : Prefers ascii Char.toLower amd64Build anyArch amd64Host ↔
    ∃ p ∈ amd64Build.fields.zip anyArch.fields, p.1 ≠ p.2 ∧ trimSpace p.2 = "" :=
  prefersIff ascii Char.toLower (by decide) rfl refinesAny

/- Both score two, so the order of the rows decides. -/
theorem anyPicked : ¬ ∀ (m : CaseMap) (fold : Char → Char) (v w : SoftwareVersion) (h : HostIdentity),
    MatchesHost m fold v h = true → MatchesHost m fold w h = true → v.isLatest = w.isLatest → Refines fold v w →
      Prefers m fold v w h := by
  intro all
  have more := (all ascii Char.toLower amd64Build anyArch amd64Host (by decide) (by decide) rfl refinesAny).1
  revert more
  decide

end ContainerWS.SoftwareMatch
