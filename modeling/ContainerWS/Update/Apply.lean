import ContainerWS.GoPath
import ContainerWS.GoStrings

/-! downloadAndInstall of modules/settings/update/apply.go: the executable, its backup and the staged
copy, each a file of its own, under operations that end as the host lets them. Signatures, sync and
restart are outside. -/
namespace ContainerWS.Update
open GoStrings

abbrev Binary := List UInt8

/- `filepath.Base`. -/
def fileBase (name : String) : String := if name = "" then "." else GoPath.base (GoPath.components name)

def hasSuffix (s last : String) : Bool := last.toList.isSuffixOf s.toList

/- What the tar reader gives next; `data` is what stands in the file after the copy. -/
inductive TarStep where
  | member (regular : Bool) (name : String) (data : Binary) (opens copies : Bool)
  | broken

inductive ApplyError where
  | missingURL
  | resolve
  | tempDir
  | download
  | unsupported (name : String)
  | archive
  | noBinary
  | chmod
  | stage
  | chmodStaged
  | replace
  deriving DecidableEq, Repr

def extractTarGzBinary : Option Binary → List TarStep → Except ApplyError Binary
  | found,[] =>
    match found with
    | none => .error .noBinary
    | some binary => .ok binary
  | _,.broken :: _ => .error .archive
  | found,.member regular name data opens copies :: rest =>
    if !regular then extractTarGzBinary found rest
    else if fileBase name ≠ "containerws" ∧ fileBase name ≠ "containerws.exe" ∧ fileBase name ≠ "cws" then
      extractTarGzBinary found rest
    else if !opens || !copies then .error .archive
    else if fileBase name = "containerws" ∨ fileBase name = "containerws.exe" then .ok data
    else extractTarGzBinary (some data) rest

/- How a copy ends: at the open of either file, after some bytes, or well. -/
inductive CopyEnd where
  | refused
  | stopped (n : Nat)
  | whole
  deriving DecidableEq, Repr

structure ApplyHost where
  resolve : Bool := true
  tempDir : Option String := some "/tmp/containerws-update-1"
  download : Bool := true
  tar : List TarStep
  chmod : Bool := true
  removeBak : Bool := true
  backup : CopyEnd := .whole
  removeNew : Bool := true
  stage : CopyEnd := .whole
  chmodStaged : Bool := true
  removeStaged : Bool := true
  rename : Bool := true
  removeExe : Bool := true
  renameAgain : Bool := true
  copyOver : CopyEnd := .whole
  removeLeft : Bool := true

structure Disk where
  exe : Option Binary
  bak : Option Binary
  new : Option Binary
  deriving DecidableEq, Repr

def removed (works : Bool) (at' : Option Binary) : Option Binary := if works then none else at'

/- `copyFile`: the target is cut off when it is opened, and filled from there. -/
def copyFile (k : CopyEnd) (src : Option Binary) (dst : Option Binary) : Option Binary × Bool :=
  match src with
  | none => (dst,false)
  | some data =>
    match k with
    | .refused => (dst,false)
    | .stopped n => (some (data.take n),false)
    | .whole => (some data,true)

/- Up to the binary in the temporary directory. -/
def prepare (m : CaseMap) (h : ApplyHost) (assetURL assetName : String) : Except ApplyError Binary :=
  if trimSpace assetURL = "" then .error .missingURL
  else if !h.resolve then .error .resolve
  else
    match h.tempDir with
    | none => .error .tempDir
    | some tmpDir =>
      let archivePath := tmpDir ++ "/" ++ fileBase assetName
      if !h.download then .error .download
      else if !hasSuffix (m.toLower archivePath) ".tar.gz" && !hasSuffix (m.toLower archivePath) ".tgz" then
        .error (.unsupported (fileBase archivePath))
      else
        match extractTarGzBinary none h.tar with
        | .error e => .error e
        | .ok binary => if !h.chmod then .error .chmod else .ok binary

/- The last fallback: over the executable, when neither rename has worked. -/
def copyOver (h : ApplyHost) (d : Disk) : Disk × Option ApplyError :=
  let copied := copyFile h.copyOver d.new d.exe
  ({d with exe := copied.1, new := removed h.removeLeft d.new},if copied.2 then none else some .replace)

def replaceBinary (h : ApplyHost) (d : Disk) : Disk × Option ApplyError :=
  if h.rename then ({d with exe := d.new, new := none},none)
  else
    let bare := {d with exe := removed h.removeExe d.exe}
    if h.renameAgain then ({bare with exe := bare.new, new := none},none) else copyOver h bare

def downloadAndInstall (m : CaseMap) (h : ApplyHost) (d : Disk) (assetURL assetName : String) : Disk × Option ApplyError :=
  match prepare m h assetURL assetName with
  | .error e => (d,some e)
  | .ok binary =>
    let backed := {d with bak := (copyFile h.backup d.exe (removed h.removeBak d.bak)).1}
    let staged := copyFile h.stage (some binary) (removed h.removeNew backed.new)
    let d' := {backed with new := staged.1}
    if !staged.2 then (d',some .stage)
    else if !h.chmodStaged then ({d' with new := removed h.removeStaged d'.new},some .chmodStaged)
    else replaceBinary h d'

/- The executable is the one that was there, or the one that was downloaded. -/
def Complete (m : CaseMap) (h : ApplyHost) (assetURL assetName : String) (old : Binary) (d : Disk) : Prop :=
  d.exe = some old ∨ ∃ binary, prepare m h assetURL assetName = .ok binary ∧ d.exe = some binary

/- Both renames fail, and the copy leaves the executable missing or cut off. -/
def Lost (h : ApplyHost) (old binary : Binary) : Prop :=
  h.stage = .whole ∧ h.chmodStaged = true ∧ h.rename = false ∧ h.renameAgain = false ∧
    ((h.removeExe = true ∧ h.copyOver = .refused) ∨
      ∃ n, h.copyOver = .stopped n ∧ binary.take n ≠ binary ∧ binary.take n ≠ old)

theorem stagedWhole {k : CopyEnd} {binary : Binary} {dst : Option Binary} (done : (copyFile k (some binary) dst).2 = true) :
    k = .whole ∧ (copyFile k (some binary) dst).1 = some binary := by
  cases k with
  | refused => cases done
  | stopped n => cases done
  | whole => exact ⟨rfl,rfl⟩

/- The last fallback with a complete staged file. -/
theorem copyOverLost (h : ApplyHost) {old binary : Binary} {d : Disk} (new : d.new = some binary)
    (exe : d.exe = removed h.removeExe (some old)) (failed : (copyOver h d).2 ≠ none) :
    ((copyOver h d).1.exe = some old ∨ (copyOver h d).1.exe = some binary) ↔
      ¬ ((h.removeExe = true ∧ h.copyOver = .refused) ∨
        ∃ n, h.copyOver = .stopped n ∧ binary.take n ≠ binary ∧ binary.take n ≠ old) := by
  have left : (copyOver h d).1.exe = (copyFile h.copyOver (some binary) (removed h.removeExe (some old))).1 := by
    rw [copyOver,new,exe]
  rw [left]
  cases ends : h.copyOver with
  | refused =>
    cases works : h.removeExe
    · exact iff_of_true (.inl rfl) (by rintro (⟨⟨⟩,_⟩ | ⟨_,⟨⟩,_⟩))
    · refine iff_of_false ?_ (fun safe => safe (.inl ⟨rfl,rfl⟩))
      rintro (kept | kept)
      · exact Option.some_ne_none _ kept.symm
      · exact Option.some_ne_none _ kept.symm
  | stopped n =>
    have short : (copyFile (.stopped n) (some binary) (removed h.removeExe (some old))).1 = some (binary.take n) := rfl
    rw [short,Option.some.injEq,Option.some.injEq]
    constructor
    · rintro kept (⟨_,⟨⟩⟩ | ⟨k,same,notNew,notOld⟩)
      cases same
      exact kept.elim notOld notNew
    · intro safe
      by_cases isOld : binary.take n = old
      · exact .inl isOld
      · refine .inr ?_
        by_contra notNew
        exact safe (.inr ⟨n,rfl,notNew,isOld⟩)
  | whole =>
    refine absurd ?_ failed
    rw [copyOver,new,ends]
    rfl

theorem completeIff (m : CaseMap) (h : ApplyHost) (old : Binary) (bak new : Option Binary) (assetURL assetName : String)
    (failed : (downloadAndInstall m h ⟨some old,bak,new⟩ assetURL assetName).2 ≠ none) :
    Complete m h assetURL assetName old (downloadAndInstall m h ⟨some old,bak,new⟩ assetURL assetName).1 ↔
      ∀ binary, prepare m h assetURL assetName = .ok binary → ¬ Lost h old binary := by
  unfold Complete
  revert failed
  unfold downloadAndInstall
  cases ready : prepare m h assetURL assetName with
  | error e => exact fun _ => iff_of_true (.inl rfl) (by rintro _ ⟨⟩)
  | ok binary =>
    have only : ∀ p : Binary → Prop, (∀ b, Except.ok (ε := ApplyError) binary = .ok b → p b) ↔ p binary :=
      fun p => ⟨fun all => all binary rfl,fun here b same => Except.ok.inj same ▸ here⟩
    have either : ∀ at' : Option Binary, (at' = some old ∨ ∃ b, Except.ok (ε := ApplyError) binary = .ok b ∧ at' = some b) ↔
        (at' = some old ∨ at' = some binary) := by
      intro at'
      refine or_congr_right ⟨?_,fun here => ⟨binary,rfl,here⟩⟩
      rintro ⟨b,same,here⟩
      cases same
      exact here
    rw [only,either]
    dsimp only
    by_cases staged : (copyFile h.stage (some binary) (removed h.removeNew new)).2 = true
    · rw [staged,Bool.not_true,if_neg Bool.false_ne_true]
      rcases stagedWhole staged with ⟨whole,file⟩
      rw [file]
      cases mode : h.chmodStaged
      · intro _
        refine iff_of_true (.inl rfl) ?_
        rintro ⟨_,chmod,_⟩
        rw [mode] at chmod
        cases chmod
      · rw [Bool.not_true,if_neg Bool.false_ne_true,replaceBinary]
        cases first : h.rename
        · rw [if_neg Bool.false_ne_true]
          cases again : h.renameAgain
          · rw [if_neg Bool.false_ne_true]
            intro failed
            rw [copyOverLost h rfl rfl failed,Lost]
            refine not_congr ⟨fun lost => ⟨whole,mode,first,again,lost⟩,?_⟩
            rintro ⟨_,_,_,_,lost⟩
            exact lost
          · exact fun failed => absurd rfl failed
        · exact fun failed => absurd rfl failed
    · rw [Bool.not_eq_true] at staged
      rw [staged,Bool.not_false,if_pos rfl]
      intro _
      refine iff_of_true (.inl rfl) ?_
      rintro ⟨whole,_⟩
      rw [whole] at staged
      cases staged

/- A busy directory: both renames fail, the executable is removed, and no file can be opened for the copy. -/
def refusing : ApplyHost :=
  { tar := [.member true "containerws" [1,2] true true], rename := false, renameAgain := false, copyOver := .refused }

def assetName : String := "containerws_2_linux_amd64.tar.gz"

set_option maxRecDepth 4000 in
theorem preparedRefusing : prepare ascii refusing "u" assetName = .ok [1,2] := by decide

theorem installRefusing : downloadAndInstall ascii refusing ⟨some [7],none,none⟩ "u" assetName =
    (⟨none,some [7],none⟩,some .replace) := by
  rw [downloadAndInstall,preparedRefusing]
  rfl

theorem completeIffRefusing : Complete ascii refusing "u" assetName [7]
      (downloadAndInstall ascii refusing ⟨some [7],none,none⟩ "u" assetName).1 ↔
    ∀ binary, prepare ascii refusing "u" assetName = .ok binary → ¬ Lost refusing [7] binary :=
  completeIff ascii refusing [7] none none "u" assetName (by rw [installRefusing]; rintro ⟨⟩)

theorem executableLost : ¬ ∀ (m : CaseMap) (h : ApplyHost) (old : Binary) (bak new : Option Binary) (url name : String),
    (downloadAndInstall m h ⟨some old,bak,new⟩ url name).2 ≠ none →
      Complete m h url name old (downloadAndInstall m h ⟨some old,bak,new⟩ url name).1 := by
  intro all
  have kept := all ascii refusing [7] none none "u" assetName (by rw [installRefusing]; rintro ⟨⟩)
  rw [installRefusing] at kept
  rcases kept with kept | ⟨binary,_,kept⟩
  · exact Option.some_ne_none _ kept.symm
  · exact Option.some_ne_none _ kept.symm

end ContainerWS.Update
