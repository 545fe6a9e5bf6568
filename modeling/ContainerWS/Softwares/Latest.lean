import ContainerWS.Softwares.Versions

/-! At most one version of a software is flagged as its latest. Each handler clears the flag of the others
before it sets it; the seed clears by the version's text and sets by the first row that has it. -/
namespace ContainerWS.Softwares
open GoStrings

def Flagged (v : SoftwareVersion) : Prop := v.deleted = false ∧ v.isLatest = true

def Latest (t : Tables) (softwareID id : String) : Prop :=
  ∃ v ∈ t.versions, v.softwareID = softwareID ∧ v.id = id ∧ Flagged v

def AtMostOne (t : Tables) : Prop := ∀ softwareID a b, Latest t softwareID a → Latest t softwareID b → a = b

/- A row is put into the table, in the place of the one with its identifier or as a new one. -/
def Puts (t t' : Tables) (row : SoftwareVersion) : Prop := ∀ o, o ∈ t'.versions ↔ (o ∈ t.versions ∧ o.id ≠ row.id) ∨ o = row

variable {t t' : Tables} {row : SoftwareVersion} {p : SoftwareVersion → Bool}

theorem firstMem {ρ : Type} {le : ρ → ρ → Bool} {rows : List ρ} {r : ρ} (first : firstBy le rows = some r) : r ∈ rows := by
  induction rows generalizing r with
  | nil => cases first
  | cons head rest ih =>
    unfold firstBy at first
    split at first <;> cases first
    · exact List.mem_cons_self
    · rename_i s found
      split
      · exact List.mem_cons_self
      · exact List.mem_cons_of_mem _ (ih found)

theorem versionMem {v : SoftwareVersion} (found : t.version p = some v) : v ∈ t.versions ∧ v.deleted = false ∧ p v = true := by
  have mem := List.mem_filter.mp (firstMem found)
  simp only [Bool.and_eq_true,Bool.not_eq_true'] at mem
  exact mem

theorem softwareMem {q : Software → Bool} {sw : Software} (found : t.software q = some sw) : sw ∈ t.softwares :=
  (List.mem_filter.mp (firstMem found)).1

theorem savePuts {ver : SoftwareVersion} (mem : ver ∈ t.versions) (id : row.id = ver.id) (softwareID : row.softwareID = ver.softwareID) :
    Puts t (t.save row) row := by
  intro o
  have here : saved row ver = row := by
    rw [saved,if_pos id.symm,← id,← softwareID]
  simp only [Tables.save,Tables.rewrite,List.mem_map]
  constructor
  · rintro ⟨old,inside,rfl⟩
    by_cases same : old.id = row.id
    · rw [List.inj_on_of_nodup_map t.ids inside mem (same.trans id)]
      exact .inr here
    · rw [saved,if_neg same]
      exact .inl ⟨inside,same⟩
  · rintro (⟨inside,other⟩ | rfl)
    · exact ⟨o,inside,if_neg other⟩
    · exact ⟨ver,mem,here⟩

theorem insertPuts (inserted : t.insert row = some t') : Puts t t' row := by
  unfold Tables.insert at inserted
  split at inserted <;> cases inserted
  rename_i fresh
  intro o
  simp only [List.mem_append,List.mem_singleton]
  refine or_congr_left ?_
  constructor
  · intro mem
    exact ⟨mem,fun same => fresh.2.1 (same ▸ List.mem_map_of_mem mem)⟩
  · exact And.left

theorem latestPuts (puts : Puts t t' row) {softwareID a : String} :
    Latest t' softwareID a ↔ (a ≠ row.id ∧ Latest t softwareID a) ∨ (a = row.id ∧ softwareID = row.softwareID ∧ Flagged row) := by
  constructor
  · rintro ⟨v,mem,rfl,rfl,flagged⟩
    rcases (puts v).mp mem with ⟨old,other⟩ | rfl
    · exact .inl ⟨other,v,old,rfl,rfl,flagged⟩
    · exact .inr ⟨rfl,rfl,flagged⟩
  · rintro (⟨other,v,mem,rfl,rfl,flagged⟩ | ⟨rfl,rfl,flagged⟩)
    · exact ⟨v,(puts v).mpr (.inl ⟨mem,other⟩),rfl,rfl,flagged⟩
    · exact ⟨row,(puts row).mpr (.inr rfl),rfl,rfl,flagged⟩

theorem latestClear {softwareID a : String} :
    Latest (t.clear p) softwareID a ↔ ∃ v ∈ t.versions, v.softwareID = softwareID ∧ v.id = a ∧ Flagged v ∧ p v = false := by
  have flag (v : SoftwareVersion) : Flagged (cleared p v) ↔ Flagged v ∧ p v = false := by
    unfold cleared Flagged
    cases deleted : v.deleted <;> cases p v <;> simp [deleted]
  constructor
  · rintro ⟨o,mem,softwareID,id,flagged⟩
    obtain ⟨v,inside,rfl⟩ := List.mem_map.mp mem
    exact ⟨v,inside,(clearedSame p v).2.symm.trans softwareID,(clearedSame p v).1.symm.trans id,(flag v).mp flagged⟩
  · rintro ⟨v,mem,softwareID,id,flagged⟩
    exact ⟨cleared p v,List.mem_map_of_mem mem,(clearedSame p v).2.trans softwareID,(clearedSame p v).1.trans id,(flag v).mpr flagged⟩

theorem clearFewer {softwareID a : String} (latest : Latest (t.clear p) softwareID a) : Latest t softwareID a := by
  obtain ⟨v,mem,here,id,flagged,_⟩ := latestClear.mp latest
  exact ⟨v,mem,here,id,flagged⟩

theorem oneFewer (one : AtMostOne t) (fewer : ∀ softwareID a, Latest t' softwareID a → Latest t softwareID a) : AtMostOne t' :=
  fun softwareID a b left right => one softwareID a b (fewer _ _ left) (fewer _ _ right)

/- A software may be left with one flag only. -/
theorem oneLeft (softwareID id : String) (one : AtMostOne t) (here : ∀ a, Latest t' softwareID a → a = id)
    (elsewhere : ∀ other a, other ≠ softwareID → Latest t' other a → Latest t other a) : AtMostOne t' := by
  intro other a b left right
  by_cases same : other = softwareID
  · subst same
    exact (here a left).trans (here b right).symm
  · exact one other a b (elsewhere other a same left) (elsewhere other b same right)

theorem putFewer (one : AtMostOne t) (puts : Puts t t' row) (flag : Flagged row → Latest t row.softwareID row.id) : AtMostOne t' := by
  refine oneFewer one ?_
  intro softwareID a latest
  rcases (latestPuts puts).mp latest with ⟨_,old⟩ | ⟨rfl,rfl,flagged⟩
  · exact old
  · exact flag flagged

/- The flags of the software are cleared, of all rows but the one that is put. -/
theorem putCleared (one : AtMostOne t) (puts : Puts (t.clear p) t' row)
    (clears : ∀ v ∈ t.versions, v.softwareID = row.softwareID → v.id ≠ row.id → p v = true) : AtMostOne t' := by
  refine oneLeft row.softwareID row.id one ?_ ?_
  · intro a latest
    rcases (latestPuts puts).mp latest with ⟨other,old⟩ | ⟨same,_⟩
    · obtain ⟨v,mem,here,rfl,_,left⟩ := latestClear.mp old
      rw [clears v mem here other] at left
      cases left
    · exact same
  · intro softwareID a other latest
    rcases (latestPuts puts).mp latest with ⟨_,old⟩ | ⟨_,same,_⟩
    · exact clearFewer old
    · exact absurd same other

theorem insertOr {none' : Tables} (one : AtMostOne none') (inserted : ∀ t', t.insert row = some t' → AtMostOne t') :
    AtMostOne ((t.insert row).getD none') := by
  cases here : t.insert row with
  | none => exact one
  | some t' => exact inserted t' here

theorem createOne (k : Faults) (id : String) (now : Nat) (softwareID version : String) (isLatest : Option Bool) (one : AtMostOne t) :
    AtMostOne (createVersionAPI k id now softwareID version isLatest t) := by
  unfold createVersionAPI
  dsimp only
  split
  · exact one
  · generalize isLatest.getD _ = latest
    split
    · exact one
    · refine insertOr one (fun t' inserted => ?_)
      cases latest with
      | true => exact putCleared one (insertPuts inserted) (fun v _ here _ => beq_iff_eq.mpr here)
      | false => exact putFewer one (insertPuts inserted) (fun flagged => absurd flagged.2 (by simp))

/- A row that has been read is saved, with the flag that it is to have. -/
theorem saveOne {ver : SoftwareVersion} (one : AtMostOne t) (mem : ver ∈ t.versions) (id : row.id = ver.id)
    (softwareID : row.softwareID = ver.softwareID) (flag : Flagged row → Flagged ver) : AtMostOne (t.save row) :=
  putFewer one (savePuts mem id softwareID) (fun flagged => ⟨ver,mem,softwareID.symm,id.symm,flag flagged⟩)

theorem saveCleared {ver : SoftwareVersion} (one : AtMostOne t) (mem : ver ∈ t.versions) (id : row.id = ver.id)
    (softwareID : row.softwareID = ver.softwareID)
    (clears : ∀ v ∈ t.versions, v.softwareID = row.softwareID → v.id ≠ row.id → p v = true) (spares : p ver = false) :
    AtMostOne ((t.clear p).save row) := by
  have left : cleared p ver = ver := by
    rw [cleared,spares,Bool.and_false]
    rfl
  have still : ver ∈ (t.clear p).versions := left ▸ List.mem_map_of_mem mem
  exact putCleared one (savePuts still id softwareID) clears

theorem updateOne (k : Faults) (softwareID versionID version : String) (isLatest : Option Bool) (one : AtMostOne t) :
    AtMostOne (updateVersionAPI k softwareID versionID version isLatest t) := by
  unfold updateVersionAPI
  dsimp only
  split
  · exact one
  · split
    · exact one
    · rename_i ver found
      obtain ⟨mem,live,fits⟩ := versionMem found
      simp only [Bool.and_eq_true,beq_iff_eq] at fits
      split
      · exact one
      · split
        · refine saveCleared one mem rfl rfl ?_ (by simp)
          intro v _ here other
          simp only [Bool.and_eq_true,beq_iff_eq,bne_iff_ne]
          exact ⟨here.trans fits.2,other⟩
        · rename_i other
          refine saveOne one mem rfl rfl ?_
          rintro ⟨_,flag⟩
          cases isLatest with
          | none => exact ⟨live,flag⟩
          | some b => exact absurd (congrArg some flag) other

theorem deleteOne (k : Faults) (softwareID versionID : String) (one : AtMostOne t) : AtMostOne (deleteVersionAPI k softwareID versionID t) := by
  unfold deleteVersionAPI
  dsimp only
  split
  · exact one
  · split
    · exact one
    · rename_i ver found
      obtain ⟨mem,live,fits⟩ := versionMem found
      simp only [Bool.and_eq_true,beq_iff_eq] at fits
      split
      · exact one
      · have gone : Puts t (t.save {ver with deleted := true}) {ver with deleted := true} := savePuts mem rfl rfl
        have fewer : AtMostOne (t.save {ver with deleted := true}) := putFewer one gone (fun flagged => absurd flagged.1 (by simp))
        split
        · exact fewer
        · rename_i was
          split
          · exact fewer
          · rename_i next first
            obtain ⟨inside,of⟩ := List.mem_filter.mp (firstMem first)
            simp only [SoftwareVersion.of,Bool.and_eq_true,Bool.not_eq_true',beq_iff_eq] at of
            have promoted : Puts (t.save {ver with deleted := true}) _ {next with isLatest := true} := savePuts inside rfl rfl
            -- the flag that is gone was the only one
            have none (a : String) (latest : Latest (t.save {ver with deleted := true}) ver.softwareID a) : False := by
              rcases (latestPuts gone).mp latest with ⟨other,old⟩ | ⟨_,_,flagged⟩
              · have flagged : Flagged ver := ⟨live,by simpa using (not_or.mp was).1⟩
                exact other (one ver.softwareID a ver.id old ⟨ver,mem,rfl,rfl,flagged⟩)
              · cases flagged.1
            refine oneLeft ver.softwareID next.id fewer ?_ ?_
            · intro a latest
              rcases (latestPuts promoted).mp latest with ⟨_,old⟩ | ⟨same,_⟩
              · exact (none a old).elim
              · exact same
            · intro other a apart latest
              rcases (latestPuts promoted).mp latest with ⟨_,old⟩ | ⟨_,same,_⟩
              · exact old
              · exact absurd (same.trans (of.2.trans fits.2.symm)) apart

theorem upsertVersionOne {id : String} {now : Nat} {softwareID version : String} {isLatest : Option Bool} (one : AtMostOne t)
    (upserted : upsertVersion id now softwareID version isLatest t = some t') : AtMostOne t' := by
  unfold upsertVersion at upserted
  dsimp only at upserted
  generalize isLatest.getD true = latest at upserted
  split at upserted
  · rename_i ver found
    obtain ⟨mem,live,fits⟩ := versionMem found
    simp only [Bool.and_eq_true,beq_iff_eq] at fits
    cases upserted
    cases latest with
    | true =>
      refine saveCleared one mem rfl rfl ?_ (by simp)
      intro v _ here other
      simp only [Bool.and_eq_true,beq_iff_eq,bne_iff_ne]
      exact ⟨here.trans fits.1,other⟩
    | false => exact saveOne one mem rfl rfl (fun flagged => absurd flagged.2 (by simp))
  · cases latest with
    | true =>
      refine putCleared one (insertPuts upserted) ?_
      intro v mem here _
      simp only [Bool.and_eq_true,beq_iff_eq,bne_iff_ne]
      exact ⟨here,t.named v mem⟩
    | false => exact putFewer one (insertPuts upserted) (fun flagged => absurd flagged.2 (by simp))

/- What only writes the softwares. -/
theorem oneSame (one : AtMostOne t) (same : t'.versions = t.versions) : AtMostOne t' := by
  intro softwareID a b left right
  rw [Latest,same] at left right
  exact one softwareID a b left right

theorem upsertSoftwareVersions {m : CaseMap} {id : String} {x : Package} {result : Tables × String}
    (upserted : upsertSoftware m id x t = some result) : result.1.versions = t.versions := by
  unfold upsertSoftware at upserted
  split at upserted
  · cases upserted
    rfl
  · obtain ⟨t',added,rfl⟩ := Option.map_eq_some_iff.mp upserted
    unfold Tables.addSoftware at added
    split at added <;> cases added
    rfl

theorem packageOne (m : CaseMap) (k : Faults) (softwareID versionID : String) (now : Nat) (x : Package) (one : AtMostOne t) :
    AtMostOne (importPackage m k softwareID versionID now x t) := by
  unfold importPackage
  split
  · exact one
  · split
    · exact one
    · rename_i t₁ id upserted
      have before : AtMostOne t₁ := oneSame one (upsertSoftwareVersions upserted)
      cases inserted : upsertVersion versionID now id x.version x.isLatest t₁ with
      | none => exact one
      | some t₂ => exact upsertVersionOne before inserted

/- The row that an item of the seed writes. -/
def seedWritten (k : Faults) (id : String) (item : CatalogItem) (softwareID : String) (t : Tables) : Option String :=
  if k.write then none
  else match seedFound k item softwareID t with
  | some ver => some ver.id
  | none => if id = "" ∨ id ∈ t.versions.map SoftwareVersion.id then none else some id

/- When an item flags a row, each other flagged row of the software has another text, and the flags of
those are cleared. -/
def SeedFair (k : Faults) (id : String) (item : CatalogItem) (softwareID : String) (t : Tables) : Prop :=
  item.isLatest = true → ∀ target, seedWritten k id item softwareID t = some target →
    ∀ o ∈ t.versions, o.softwareID = softwareID → Flagged o → o.id ≠ target → o.version ≠ item.version ∧ k.clear = false

def Fair (t : Tables) : Move → Prop
  | .seedItem item k => ∀ sw, existing k.faults item t = some sw → SeedFair k.faults k.versionID item sw.id t
  | _ => True

/- The first half of an item. -/
def seedWrite (k : Faults) (id : String) (now : Nat) (item : CatalogItem) (softwareID : String) (t : Tables) : Tables :=
  match seedFound k item softwareID t with
  | some ver => if k.write then t else t.save {ver with isLatest := item.isLatest}
  | none => if k.write then t else (t.insert ⟨id,softwareID,item.version,item.isLatest,now,false⟩).getD t

structure Seeds (item : CatalogItem) (softwareID target : String) (row : SoftwareVersion) : Prop where
  id : row.id = target
  softwareID : row.softwareID = softwareID
  version : row.version = item.version
  flag : Flagged row ↔ item.isLatest = true

theorem seedFoundMem {k : Faults} {item : CatalogItem} {softwareID : String} {ver : SoftwareVersion}
    (found : seedFound k item softwareID t = some ver) :
    ver ∈ t.versions ∧ ver.deleted = false ∧ ver.softwareID = softwareID ∧ ver.version = item.version := by
  unfold seedFound at found
  split at found
  · cases found
  · obtain ⟨mem,live,fits⟩ := versionMem found
    simp only [Bool.and_eq_true,beq_iff_eq] at fits
    exact ⟨mem,live,fits.1,fits.2⟩

theorem seedWrites (k : Faults) (id : String) (now : Nat) (item : CatalogItem) {softwareID : String}
    (there : softwareID ∈ t.softwares.map Software.id) :
    match seedWritten k id item softwareID t with
    | none => seedWrite k id now item softwareID t = t
    | some target => ∃ row, Puts t (seedWrite k id now item softwareID t) row ∧ Seeds item softwareID target row := by
  unfold seedWritten seedWrite
  by_cases failed : k.write = true
  · simp only [if_pos failed]
    split <;> rfl
  · simp only [if_neg failed]
    cases found : seedFound k item softwareID t with
    | some ver =>
      obtain ⟨mem,live,here,text⟩ := seedFoundMem found
      exact ⟨_,savePuts mem rfl rfl,rfl,here,text,by simp [Flagged,live]⟩
    | none =>
      by_cases taken : id = "" ∨ id ∈ t.versions.map SoftwareVersion.id
      · simp only [if_pos taken]
        have refused : ¬Insertable t ⟨id,softwareID,item.version,item.isLatest,now,false⟩ := by
          rintro ⟨some',fresh,_⟩
          exact taken.elim some' fresh
        rw [Tables.insert,dif_neg refused,Option.getD_none]
      · simp only [if_neg taken]
        have fresh : Insertable t ⟨id,softwareID,item.version,item.isLatest,now,false⟩ :=
          ⟨fun none => taken (.inl none),fun mem => taken (.inr mem),there⟩
        obtain ⟨t',inserted⟩ : ∃ t', t.insert ⟨id,softwareID,item.version,item.isLatest,now,false⟩ = some t' :=
          ⟨_,by rw [Tables.insert,dif_pos fresh]⟩
        rw [inserted,Option.getD_some]
        exact ⟨_,insertPuts inserted,rfl,rfl,rfl,by simp [Flagged]⟩

/- Rows of another text are cleared. -/
theorem clearSeeds {item : CatalogItem} {softwareID target : String} (clears : Bool) (one : AtMostOne t) (puts : Puts t t' row)
    (seeds : Seeds item softwareID target row) (latest : item.isLatest = true) :
    AtMostOne (if clears then t'.clear (fun v => v.softwareID == softwareID && v.version != item.version) else t') ↔
      ∀ o ∈ t.versions, o.softwareID = softwareID → Flagged o → o.id ≠ target → o.version ≠ item.version ∧ clears = true := by
  obtain ⟨rfl,rfl,text,flag⟩ := seeds
  have own : Latest t' row.softwareID row.id := (latestPuts puts).mpr (.inr ⟨rfl,rfl,flag.mpr latest⟩)
  have stays : row ∈ t'.versions := (puts row).mpr (.inr rfl)
  cases clears with
  | false =>
    simp only [Bool.false_eq_true,if_false,and_false]
    constructor
    · intro left o mem here flagged other
      exact other (left _ _ _ ((latestPuts puts).mpr (.inl ⟨other,o,mem,here,rfl,flagged⟩)) own)
    · intro none
      refine oneLeft row.softwareID row.id one ?_ ?_
      · intro a now
        rcases (latestPuts puts).mp now with ⟨other,o,mem,here,rfl,flagged⟩ | ⟨same,_⟩
        · exact (none o mem here flagged other).elim
        · exact same
      · intro softwareID a apart now
        rcases (latestPuts puts).mp now with ⟨_,old⟩ | ⟨_,same,_⟩
        · exact old
        · exact absurd same apart
  | true =>
    simp only [if_true,and_true]
    have kept : Latest (t'.clear (fun v => v.softwareID == row.softwareID && v.version != item.version)) row.softwareID row.id :=
      latestClear.mpr ⟨row,stays,rfl,rfl,flag.mpr latest,by simp [text]⟩
    constructor
    · intro left o mem here flagged other same
      have inside : o ∈ t'.versions := (puts o).mpr (.inl ⟨mem,other⟩)
      exact other (left _ _ _ (latestClear.mpr ⟨o,inside,here,rfl,flagged,by simp [same]⟩) kept)
    · intro others
      refine oneLeft row.softwareID row.id one ?_ ?_
      · intro a now
        obtain ⟨o,mem,here,rfl,flagged,passed⟩ := latestClear.mp now
        rcases (puts o).mp mem with ⟨old,other⟩ | rfl
        · have apart := others o old here flagged other
          simp [here,apart] at passed
        · rfl
      · intro softwareID a apart now
        rcases (latestPuts puts).mp (clearFewer now) with ⟨_,old⟩ | ⟨_,same,_⟩
        · exact old
        · exact absurd same apart

theorem seedVersionOne {k : Faults} {id : String} {now : Nat} {item : CatalogItem} {softwareID : String}
    (there : softwareID ∈ t.softwares.map Software.id) (one : AtMostOne t) :
    AtMostOne (seedVersion k id now item softwareID t) ↔ SeedFair k id item softwareID t := by
  have whole : seedVersion k id now item softwareID t =
      if item.isLatest = false ∨ k.clear then seedWrite k id now item softwareID t
      else (seedWrite k id now item softwareID t).clear (fun v => v.softwareID == softwareID && v.version != item.version) := rfl
  have writes := seedWrites k id now item there
  rw [whole,SeedFair]
  cases written : seedWritten k id item softwareID t with
  | none =>
    rw [written] at writes
    simp only at writes
    rw [writes]
    refine iff_of_true ?_ (by rintro _ _ ⟨⟩)
    split
    · exact one
    · exact oneFewer one (fun _ _ => clearFewer)
  | some target =>
    rw [written] at writes
    obtain ⟨row,puts,seeds⟩ := writes
    cases latest : item.isLatest with
    | false =>
      rw [if_pos (.inl rfl)]
      refine iff_of_true (putFewer one puts (fun flagged => ?_)) (by rintro ⟨⟩)
      rw [seeds.flag,latest] at flagged
      cases flagged
    | true =>
      have split' := clearSeeds (!k.clear) one puts seeds latest
      cases cleared : k.clear with
      | true => simpa [cleared] using split'
      | false => simpa [cleared] using split'

theorem addedOne {sw : Software} {t₁ : Tables} (added : t.addSoftware sw = some t₁) :
    t₁.versions = t.versions ∧ sw.id ∉ t.softwares.map Software.id := by
  unfold Tables.addSoftware at added
  split at added <;> cases added
  rename_i fresh
  exact ⟨rfl,fun old => fresh (.inr old)⟩

theorem existingMem {k : Faults} {item : CatalogItem} {sw : Software} (there : existing k item t = some sw) :
    sw.id ∈ t.softwares.map Software.id := by
  unfold existing at there
  split at there
  · cases there
  · exact List.mem_map_of_mem (softwareMem there)

/- A software that is new has no other version. -/
theorem insertAddedOne {sw : Software} {t₁ t₂ : Tables} (one : AtMostOne t) (added : t.addSoftware sw = some t₁)
    (here : row.softwareID = sw.id) (inserted : t₁.insert row = some t₂) : AtMostOne t₂ := by
  obtain ⟨same,fresh⟩ := addedOne added
  have before : AtMostOne t₁ := oneSame one same
  have puts := insertPuts inserted
  refine oneLeft sw.id row.id before ?_ ?_
  · intro a latest
    rcases (latestPuts puts).mp latest with ⟨_,v,mem,owner,_⟩ | ⟨id,_⟩
    · exact absurd (owner ▸ t.owned v (same ▸ mem)) fresh
    · exact id
  · intro other a apart latest
    rcases (latestPuts puts).mp latest with ⟨_,old⟩ | ⟨_,softwareID,_⟩
    · exact old
    · exact absurd (softwareID.trans here) apart

theorem seedItemOne {item : CatalogItem} {k : SeedTurn} (one : AtMostOne t) :
    AtMostOne (seedItem item k t) ↔ Fair t (.seedItem item k) := by
  cases there : existing k.faults item t with
  | some sw =>
    have mem := existingMem there
    have fair : Fair t (.seedItem item k) ↔ SeedFair k.faults k.versionID item sw.id t := by
      simp only [Fair,there,Option.some.injEq,forall_eq']
    rw [fair,seedItem,there]
    dsimp only
    split
    · exact seedVersionOne mem one
    · exact seedVersionOne (t := t.rewriteSoftwares (seeded true sw.id) (seededSame true sw.id))
        (rewrittenKept (seededSame true sw.id) mem) (oneSame one rfl)
  | none =>
    have fair : Fair t (.seedItem item k) := by
      intro sw found
      rw [there] at found
      cases found
    refine iff_of_true ?_ fair
    rw [seedItem,there]
    dsimp only
    cases added : (if k.faults.update then none else t.addSoftware ⟨k.softwareID,item.name,"",true,false⟩) with
    | none => exact one
    | some t₁ =>
      have added : t.addSoftware ⟨k.softwareID,item.name,"",true,false⟩ = some t₁ := by
        split at added
        · cases added
        · exact added
      have before : AtMostOne t₁ := oneSame one (addedOne added).1
      dsimp only
      split
      · exact before
      · exact insertOr before (fun t₂ inserted => insertAddedOne one added rfl inserted)

theorem stepOne {m : CaseMap} {e : Move} (one : AtMostOne t) (moved : step m t e = some t') : AtMostOne t' ↔ Fair t e := by
  cases e with
  | create k id now softwareID version isLatest =>
    cases moved
    exact iff_of_true (createOne k id now softwareID version isLatest one) trivial
  | update k softwareID versionID version isLatest =>
    cases moved
    exact iff_of_true (updateOne k softwareID versionID version isLatest one) trivial
  | delete k softwareID versionID =>
    cases moved
    exact iff_of_true (deleteOne k softwareID versionID one) trivial
  | package k softwareID versionID now x =>
    cases moved
    exact iff_of_true (packageOne m k softwareID versionID now x one) trivial
  | seedItem item k =>
    cases moved
    exact seedItemOne one
  | seedEnd k =>
    cases moved
    refine iff_of_true ?_ trivial
    unfold seedEnd
    split
    · exact one
    · exact oneSame one rfl

/- From the empty tables on there is at most one latest version of each software exactly as long as each
item of a seed is fair. -/
theorem latestUnique (m : CaseMap) (requests : List Request) :
    (∀ n t, Runs.run (step m) empty ((requests.flatMap Request.moves).take n) = some t → AtMostOne t) ↔
      Runs.Guided (step m) Fair empty (requests.flatMap Request.moves) := by
  refine Runs.guidedIff (fun one moved => stepOne one moved) ?_ (by rintro _ _ _ ⟨_,⟨⟩,_⟩)
  intro t e stuck
  cases e <;> cases stuck

/- A version with the text of the seeded one is created as the latest, and the seed runs again. -/
def seedAgain : List Request :=
  let turn (item : CatalogItem) : SeedTurn := ⟨{},item.name,"seed " ++ item.name,0⟩
  [.seedIfEmpty turn {},.move (.create {} "yours" 1 "Go" "1.26.5" (some true)),.seedIfEmpty turn {}]

def latestIDs (softwareID : String) (t : Tables) : List String :=
  (t.versions.filter (fun v => v.softwareID = softwareID && (!v.deleted && v.isLatest))).map SoftwareVersion.id

theorem latestIDsMem {softwareID id : String} (mem : id ∈ latestIDs softwareID t) : Latest t softwareID id := by
  obtain ⟨v,inside,same⟩ := List.mem_map.mp mem
  obtain ⟨row,fits⟩ := List.mem_filter.mp inside
  simp only [Bool.and_eq_true,Bool.not_eq_true',decide_eq_true_eq] at fits
  exact ⟨v,row,fits.1,same,fits.2⟩

theorem twoLatest : ¬∀ (requests : List Request) (n : Nat) (t : Tables),
    Runs.run (step ascii) empty ((requests.flatMap Request.moves).take n) = some t → AtMostOne t := by
  intro always
  have both : (Runs.run (step ascii) empty ((seedAgain.flatMap Request.moves).take 17)).map (latestIDs "Go") = some ["seed Go","yours"] := by
    decide
  obtain ⟨t,ran,flags⟩ := Option.map_eq_some_iff.mp both
  have seed : Latest t "Go" "seed Go" := latestIDsMem (flags ▸ by simp)
  have yours : Latest t "Go" "yours" := latestIDsMem (flags ▸ by simp)
  exact absurd (always seedAgain 17 t ran "Go" _ _ seed yours) (by decide)

end ContainerWS.Softwares
