import ContainerWS.Fallible
import ContainerWS.Files.Archive
import ContainerWS.Files.Stage

/-! What empties the trash of modules/filemanager/fsutil/trash.go. Each directory of the trash is judged and removed in turn, and no error
ends the loop; the faults of the calls are in the plan. -/
namespace FileTree

/- A loop that adds up what its rounds return. -/
def total {α : Type} (f : α → Sys Nat) : List α → Nat → Sys Nat
  | [], n => pure n
  | a :: rest, n => do
    let m ← f a
    total f rest (n + m)

theorem ensuresTotal {α : Type} {halts : Prop} {E : Errno → World → Prop} {l : List α} {f : α → Sys Nat}
    {I : List α → Nat → World → Prop}
    (round : ∀ before a after n, l = before ++ a :: after → Ensures halts (I before n) (f a) (fun m => I (before ++ [a]) (n + m)) E) :
    Ensures halts (I [] 0) (total f l 0) (I l) E := by
  have rest : ∀ after before n, l = before ++ after → Ensures halts (I before n) (total f after n) (I l) E := by
    intro after
    induction after with
    | nil =>
      intro before n split
      rw [List.append_nil] at split
      exact split ▸ ensuresPure (fun _ held => held)
    | cons a after ih =>
      intro before n split
      exact ensuresBind (round before a after n split) (fun m => ih (before ++ [a]) (n + m) (by simp [split]))
  exact rest l [] 0 rfl

end FileTree

namespace ContainerWS.Files
open GoPath FileTree Fallible

def TrashRetention : Nat := 30 * 24 * 3600 * 1000000000

/- The age of the item has come. -/
def expired (p : Setting) (home : Path) (now : Nat) (id : Name) : Sys Bool := do
  match ← Sys.attempt (do readTrashInfo p (← Sys.next) home id) with
  | .error _ => pure false
  | .ok info => pure (decide (info.deletedAt + TrashRetention ≤ now))

/- One entry of the trash; the count of what was removed. -/
def sweepEntry (doomed : Name → Sys Bool) (home : Path) (e : Name × Bool) : Sys Nat :=
  if e.2 = false then pure 0
  else do
    if ← doomed e.1 then
      match ← Sys.attempt (do Os.removeAll (← Sys.next) (trashItemDir home e.1)) with
      | .ok () => pure 1
      | .error _ => pure 0
    else pure 0

def sweep (doomed : Name → Sys Bool) (home : Path) : Sys Nat := do
  match ← Sys.attempt (do Os.readDir (← Sys.next) (trashRoot home)) with
  | .error e => if e.isNotExist then pure 0 else Sys.fail e
  | .ok entries => total (sweepEntry doomed home) entries 0

def purgeExpiredTrash (p : Setting) (home : Path) (now : Nat) : Sys Nat := sweep (expired p home now) home

def emptyTrash (home : Path) : Sys Nat := sweep (fun _ => pure true) home

/-! What is judged. -/
/- The age as info.json has it. -/
def expiredAt (p : Setting) (home : Path) (now : Nat) (t : Tree) (id : Name) : Bool :=
  match t.openFile (trashInfoPath home id) with
  | .error _ => false
  | .ok l =>
    match t.read l with
    | .error _ => false
    | .ok raw =>
      match p.json.unmarshal raw with
      | .error _ => false
      | .ok info => decide (info.deletedAt + TrashRetention ≤ now)

theorem expiredRead (p : Setting) (home : Path) (now : Nat) {t : Tree} {id : Name} {l : Path} {raw : Bytes}
    (opened : t.openFile (trashInfoPath home id) = .ok l) (read : t.read l = .ok raw) :
    expiredAt p home now t id =
      match p.json.unmarshal raw with
      | .error _ => false
      | .ok info => decide (info.deletedAt + TrashRetention ≤ now) := by
  rw [expiredAt,opened]
  dsimp only
  rw [read]

/- A judgement looks at the tree only; without faults it is the one that is said. -/
def Judges (calm : Prop) (doomed : Name → Sys Bool) (D : Tree → Name → Bool) : Prop :=
  ∀ c id, Ensures True (Quietly calm (fun t => t = c)) (doomed id)
    (fun yes => Quietly calm (fun t => t = c ∧ (yes = true → D c id = true) ∧ (calm → yes = D c id))) (fun _ _ => False)

theorem expiredJudges (calm : Prop) (p : Setting) (home : Path) (now : Nat) :
    Judges calm (expired p home now) (expiredAt p home now) := by
  intro c id
  let told (info : TrashInfo) (t : Tree) : Prop := t = c ∧ expiredAt p home now c id = decide (info.deletedAt + TrashRetention ≤ now)
  let untold (t : Tree) : Prop := t = c ∧ (calm → expiredAt p home now c id = false)
  have reads : Ensures True (Quietly calm (fun t => t = c)) (do readTrashInfo p (← Sys.next) home id)
      (fun info => Quietly calm (told info)) (fun _ => Quietly calm untold) := by
    refine ensuresPlanned (fun f quiet => ensuresBind (Q := fun raw => Quietly calm (fun t => t = c ∧
      ∃ l, c.openFile (trashInfoPath home id) = .ok l ∧ c.read l = .ok raw)) (ensuresAsked quiet ?_ ?_ ?_) (fun raw => ?_))
    · rintro t raw rfl asked
      obtain ⟨l,opened,read⟩ := bindOk.mp asked
      exact ⟨rfl,l,opened,read⟩
    · rintro t e rfl failed
      refine ⟨rfl,fun _ => ?_⟩
      unfold expiredAt
      cases opened : t.openFile (trashInfoPath home id) with
      | error e => rfl
      | ok l =>
        rw [opened] at failed
        dsimp only
        rw [show t.read l = .error e from failed]
    · rintro noise t rfl
      exact ⟨rfl,fun peace => absurd peace noise⟩
    · cases decoded : p.json.unmarshal raw with
      | ok info =>
        refine ensuresPure (fun w held => ⟨held.1,held.2.1,?_⟩)
        obtain ⟨-,-,l,opened,read⟩ := held
        rw [expiredRead p home now opened read,decoded]
      | error message =>
        refine ensuresFail (fun w held => ⟨held.1,held.2.1,fun _ => ?_⟩)
        obtain ⟨-,-,l,opened,read⟩ := held
        rw [expiredRead p home now opened read,decoded]
  refine ensuresBind (ensuresTried reads) (fun r => ?_)
  cases r with
  | ok info =>
    refine ensuresPure (fun w held => ⟨held.1,held.2.1,fun yes => ?_,fun _ => ?_⟩)
    · exact held.2.2.trans yes
    · exact held.2.2.symm
  | error e =>
    exact ensuresPure (fun w held => ⟨held.1,held.2.1,(fun no => by cases no),fun peace => (held.2.2 peace).symm⟩)

theorem allJudged (calm : Prop) : Judges calm (fun _ => pure true) (fun _ _ => true) := by
  intro c id
  exact ensuresPure (fun w held => ⟨held.1,held.2,fun _ => rfl,fun _ => rfl⟩)

/- What is judged in a part of a tree is judged so in the whole. -/
theorem expiredWhole {p : Setting} {home : Path} {now : Nat} {b c : Tree} {id : Name} (keeps : Keeps c b)
    (old : expiredAt p home now c id = true) : expiredAt p home now b id = true := by
  unfold expiredAt at old ⊢
  split at old
  · cases old
  · rename_i l opened
    split at old
    · cases old
    · rename_i raw read
      obtain ⟨mode,file⟩ := readFound.mp read
      rw [openFound.mpr (followGrows (keepsGrows keeps) (openFound.mp opened))]
      dsimp only
      rw [readFound.mpr ⟨mode,keeps l _ file⟩]
      exact old

/-! What a sweep takes. -/
/- Nothing is written, and what has gone stood in a directory of the trash that is judged. -/
def Sifted (D : Tree → Name → Bool) (home : Path) (b c : Tree) : Prop :=
  ∀ q, c.get q = b.get q ∨ c.get q = none ∧
    ∃ id l, Plain id ∧ b.locate (trashItemDir home id) = .found l ∧ b.isDirAt l = true ∧ l <+: q ∧ D b id = true

theorem siftedSelf (D : Tree → Name → Bool) (home : Path) (b : Tree) : Sifted D home b b := fun _ => .inl rfl

theorem siftedKeeps {D : Tree → Name → Bool} {home : Path} {b c : Tree} (spares : Sifted D home b c) : Keeps c b := by
  intro q e here
  rcases spares q with same | ⟨gone,-⟩
  · exact same.symm.trans here
  · rw [gone] at here
    cases here

/- An entry of the trash, as it was read. -/
structure Listed (home : Path) (b : Tree) (e : Name × Bool) : Prop where
  plain : Plain e.1
  kind : ∀ l, b.follow (trashRoot home) = .found l → e.2 = b.isDirAt (l ++ [e.1])

theorem entrySifts {calm : Prop} {doomed : Name → Sys Bool} {D : Tree → Name → Bool} (judges : Judges calm doomed D)
    (whole : ∀ {b c : Tree} {id : Name}, Keeps c b → D c id = true → D b id = true) {home : Path} {b : Tree} {e : Name × Bool}
    (listed : Listed home b e) :
    Ensures True (Quietly calm (Sifted D home b)) (sweepEntry doomed home e) (fun _ => Quietly calm (Sifted D home b))
      (fun _ _ => False) := by
  unfold sweepEntry
  split
  · exact ensuresPure (fun _ held => held)
  · rename_i dir
    refine ensuresFix (fun c spared => ensuresBind (judges c e.1) (fun yes => ?_))
    cases yes with
    | false =>
      refine ensuresPure (fun w held => ⟨held.1,?_⟩)
      rw [held.2.1]
      exact spared
    | true =>
      refine ensuresBind (Q := fun _ => Quietly calm (Sifted D home b)) ?_ (fun r => ?_)
      · refine ensuresAttempt (ensuresPlanned (fun f _ => ?_))
        have cut (t t' : Tree) (held : t = c ∧ (true = true → D c e.1 = true) ∧ (calm → true = D c e.1))
            (pruned : Pruned (trashItemDir home e.1) t t') : Sifted D home b t' := by
          obtain ⟨rfl,old,-⟩ := held
          intro q
          rcases pruned q with same | ⟨gone,l,located,below⟩
          · rw [same]
            exact spared q
          · have keeps := keepsGrows (siftedKeeps spared)
            have place := located
            rw [itemDirNamed listed.plain] at place
            obtain ⟨area,found,rfl⟩ := locateName listed.plain place
            refine .inr ⟨gone,e.1,_,listed.plain,locateGrows keeps located,?_,below,whole (siftedKeeps spared) (old rfl)⟩
            rw [← listed.kind area (followGrows keeps found)]
            exact Bool.eq_true_of_not_eq_false dir
        refine ensuresMet (fun t _ t' _ held result => ?_) (fun t _ t' _ held result => ?_) ?_
        iterate 2
          have prunes := removeAllPrunes t (trashItemDir home e.1)
          rw [result] at prunes
          exact cut t t' held prunes
        · exact fun fault t _ held => cut t _ held (removeSomePrunes t _ _)
      · cases r with
        | ok _ => exact ensuresPure (fun _ held => held)
        | error _ => exact ensuresPure (fun _ held => held)

theorem listedAll {home : Path} {b : Tree} {entries : List (Name × Bool)} (read : b.readDir (trashRoot home) = .ok entries) :
    ∀ e ∈ entries, Listed home b e := by
  obtain ⟨l,found,-,rfl⟩ := readDirNames read
  intro e mem
  obtain ⟨n,inside,rfl⟩ := List.mem_map.mp mem
  refine ⟨getNamed (memNames.mp inside) n (by simp),fun l' found' => ?_⟩
  rw [found] at found'
  cases found'
  rfl

theorem sweepSifts {calm : Prop} {doomed : Name → Sys Bool} {D : Tree → Name → Bool} (judges : Judges calm doomed D)
    (whole : ∀ {b c : Tree} {id : Name}, Keeps c b → D c id = true → D b id = true) (home : Path) (b : Tree) :
    Ensures True (Quietly calm (fun t => t = b)) (sweep doomed home) (fun _ => Quietly calm (Sifted D home b))
      (fun _ => Quietly calm (Sifted D home b)) := by
  let read (entries : List (Name × Bool)) (t : Tree) : Prop := t = b ∧ ∀ e ∈ entries, Listed home b e
  have reads : Ensures True (Quietly calm (fun t => t = b)) (do Os.readDir (← Sys.next) (trashRoot home))
      (fun entries => Quietly calm (read entries)) (fun _ => Quietly calm (fun t => t = b)) := by
    refine ensuresPlanned (fun f quiet => ensuresAsked quiet ?_ ?_ ?_)
    · rintro t entries rfl listed
      exact ⟨rfl,listedAll listed⟩
    · exact fun t _ same _ => same
    · exact fun _ t same => same
  refine ensuresBind (ensuresTried reads) (fun r => ?_)
  have still (w : World) (held : Quietly calm (fun t => t = b) w) : Quietly calm (Sifted D home b) w := by
    refine ⟨held.1,?_⟩
    rw [show w.tree = b from held.2]
    exact siftedSelf D home b
  cases r with
  | error e =>
    dsimp only
    split
    · exact ensuresPure still
    · exact ensuresFail still
  | ok entries =>
    intro w held
    obtain ⟨peace,same,listed⟩ := held
    have swept : Ensures True (Quietly calm (Sifted D home b)) (total (sweepEntry doomed home) entries 0)
        (fun _ => Quietly calm (Sifted D home b)) (fun _ => Quietly calm (Sifted D home b)) := by
      refine ensuresTotal (I := fun _ _ => Quietly calm (Sifted D home b)) (fun before e after n split => ?_)
      exact ensuresWeaken (entrySifts judges whole (listed e (by simp [split]))) (fun _ held => held) (fun _ _ held => held)
        (fun _ _ failed => failed.elim)
    exact swept w (still w ⟨peace,same⟩)

/- A program that always ends does so with what is ensured. -/
theorem ensuredEnd {α : Type} {P : World → Prop} {x : Sys α} {R : Tree → Prop} (held : Ensures True P x (fun _ => Quietly False R)
    (fun _ => Quietly False R)) {w : World} (before : P w) : ∃ r w', x w = some (r,w') ∧ R w'.tree := by
  have here := held w before
  cases ran : x w with
  | none =>
    rw [ran] at here
    exact absurd trivial here
  | some result =>
    obtain ⟨r,w'⟩ := result
    rw [ran] at here
    cases r with
    | ok a => exact ⟨.ok a,w',rfl,here.2⟩
    | error e => exact ⟨.error e,w',rfl,here.2⟩

theorem purgeSifts (p : Setting) (home : Path) (now : Nat) (w : World) :
    ∃ r w', purgeExpiredTrash p home now w = some (r,w') ∧ Sifted (expiredAt p home now) home w.tree w'.tree :=
  ensuredEnd (sweepSifts (expiredJudges False p home now) expiredWhole home w.tree) ⟨fun no => no.elim,rfl⟩

/- Whatever faults the calls meet, the purge ends, writes nothing, and takes only what stands in a directory of the trash whose info.json
was old enough before it began. -/
theorem purgeSpares (p : Setting) (home : Path) (now : Nat) (w : World) :
    ∃ r w', purgeExpiredTrash p home now w = some (r,w') ∧ ∀ q, w'.tree.get q = w.tree.get q ∨ w'.tree.get q = none ∧
      ∃ id l, Plain id ∧ w.tree.locate (trashItemDir home id) = .found l ∧ w.tree.isDirAt l = true ∧ l <+: q ∧
        expiredAt p home now w.tree id = true := purgeSifts p home now w

/-! A sweep without faults. -/
theorem followDir {t : Tree} {p : Path} (dir : t.isDirAt p = true) : t.follow p = .found p := @followInside t [] [] p rfl dir

/- The entries before have been judged, and exactly the ones that fell have gone. -/
def Swept (falls : Name × Bool → Bool) (root : Path) (b : Tree) (before : List (Name × Bool)) (n : Nat) (c : Tree) : Prop :=
  n = (before.filter falls).length ∧ ∀ q, c.get q = if ∃ e ∈ before.filter falls, root ++ [e.1] <+: q then none else b.get q

section
variable {doomed : Name → Sys Bool} {D : Tree → Name → Bool} {home : Path} {b : Tree}

/- The judgement of an item does not hang on the other ones. -/
def Stable (D : Tree → Name → Bool) (root : Path) (b : Tree) : Prop :=
  ∀ c id, Plain id → b.isDirAt (root ++ [id]) = true → c.isDirAt root = true →
    (∀ x, c.get (root ++ [id] ++ x) = b.get (root ++ [id] ++ x)) → D c id = D b id

def fallen (D : Tree → Name → Bool) (b : Tree) (e : Name × Bool) : Bool := e.2 && D b e.1

theorem sweptRoot {falls : Name × Bool → Bool} {root : Path} {before : List (Name × Bool)} {n : Nat} {c : Tree}
    (swept : Swept falls root b before n c) (dir : b.isDirAt root = true) : c.isDirAt root = true := by
  rw [Tree.isDirAt,swept.2,if_neg]
  · exact dir
  · rintro ⟨e,-,below⟩
    have short := below.length_le
    simp at short

/- An item that is not among them is as it was. -/
theorem sweptOther {falls : Name × Bool → Bool} {root : Path} {before : List (Name × Bool)} {n : Nat} {c : Tree}
    (swept : Swept falls root b before n c) {id : Name} (other : id ∉ before.map Prod.fst) (x : Path) :
    c.get (root ++ [id] ++ x) = b.get (root ++ [id] ++ x) := by
  rw [swept.2,if_neg]
  rintro ⟨e,mem,below⟩
  rw [List.append_assoc,List.prefix_append_right_inj,List.singleton_append,List.cons_prefix_cons] at below
  exact other (below.1 ▸ List.mem_map_of_mem (List.mem_of_mem_filter mem))

theorem entrySwept (judges : Judges True doomed D) (stable : Stable D (trashRoot home) b) (dir : b.isDirAt (trashRoot home) = true)
    {before : List (Name × Bool)} {n : Nat} {e : Name × Bool} (plain : Plain e.1) (other : e.1 ∉ before.map Prod.fst)
    (own : e.2 = b.isDirAt (trashRoot home ++ [e.1])) :
    Ensures True (Quietly True (Swept (fallen D b) (trashRoot home) b before n)) (sweepEntry doomed home e)
      (fun m => Quietly True (Swept (fallen D b) (trashRoot home) b (before ++ [e]) (n + m))) (fun _ _ => False) := by
  have stays {c : Tree} (swept : Swept (fallen D b) (trashRoot home) b before n c) (stands : fallen D b e = false) :
      Swept (fallen D b) (trashRoot home) b (before ++ [e]) (n + 0) c := by
    have same : (before ++ [e]).filter (fallen D b) = before.filter (fallen D b) := by
      rw [List.filter_append,List.filter_cons_of_neg (by rw [stands]; exact Bool.false_ne_true),List.filter_nil,List.append_nil]
    rw [Swept,same]
    exact swept
  unfold sweepEntry
  split
  · rename_i file
    exact ensuresPure (fun w held => ⟨held.1,stays held.2 (by rw [fallen,file]; rfl)⟩)
  · rename_i open'
    have kind : e.2 = true := Bool.eq_true_of_not_eq_false open'
    refine ensuresFix (fun c swept => ensuresBind (judges c e.1) (fun yes => ?_))
    have root := sweptRoot swept dir
    have judged : D c e.1 = D b e.1 := stable c e.1 plain (own ▸ kind) root (sweptOther swept other)
    cases yes with
    | false =>
      refine ensuresPure (fun w held => ⟨held.1,?_⟩)
      rw [held.2.1]
      refine stays swept ?_
      rw [fallen,← judged,← held.2.2.2 trivial,Bool.and_false]
    | true =>
      have follow : c.follow (trashRoot home) = .found (trashRoot home) := followDir root
      have located : c.locate (trashItemDir home e.1) = .found (trashRoot home ++ [e.1]) := by
        rw [itemDirNamed plain]
        refine locateBelow follow (List.cons_ne_nil _ _) ?_
        have same := sweptOther swept other []
        rw [List.append_nil] at same
        rw [same]
        exact dirThere (own ▸ kind)
      have removed := removeFound located (by simp)
      refine ensuresBind (Q := fun r w => r = .ok () ∧ Quietly True (Swept (fallen D b) (trashRoot home) b (before ++ [e]) (n + 1)) w)
        (ensuresAttempt (ensuresPlanned (fun f quiet => ensuresCall ?_ ?_))) (fun r => ?_)
      · rintro - w ⟨peace,same,old,-⟩
        rw [show w.tree = c from same,removed]
        refine ⟨rfl,peace,?_⟩
        have fell : fallen D b e = true := by rw [fallen,kind,← judged,old rfl]; rfl
        have more : (before ++ [e]).filter (fallen D b) = before.filter (fallen D b) ++ [e] := by
          rw [List.filter_append,List.filter_cons_of_pos fell,List.filter_nil]
        refine ⟨?_,fun q => ?_⟩
        · rw [more,List.length_append,swept.1]
          rfl
        · show (c.remove (trashRoot home ++ [e.1])).get q = _
          rw [getRemove,swept.2 q,more]
          by_cases here : trashRoot home ++ [e.1] <+: q
          · have filled : q ≠ [] := by
              rintro rfl
              have empty := List.prefix_nil.mp here
              simp at empty
            rw [if_pos ⟨here,filled⟩,if_pos ⟨e,by simp,here⟩]
          · rw [if_neg fun both => here both.1]
            have same : (∃ d ∈ before.filter (fallen D b), trashRoot home ++ [d.1] <+: q) ↔
                ∃ d ∈ before.filter (fallen D b) ++ [e], trashRoot home ++ [d.1] <+: q := by
              constructor
              · rintro ⟨d,mem,below⟩
                exact ⟨d,List.mem_append_left _ mem,below⟩
              · rintro ⟨d,mem,below⟩
                rcases List.mem_append.mp mem with old | new
                · exact ⟨d,old,below⟩
                · rw [List.mem_singleton.mp new] at below
                  exact absurd below here
            exact if_congr same rfl rfl
      · rintro fault met
        rw [quiet trivial] at met
        cases met
      · cases r with
        | ok _ => exact ensuresPure (fun w held => held.2)
        | error _ => exact fun w held => by cases held.1

/- The directories of the trash that are to go. -/
def doomedIn (D : Tree → Name → Bool) (home : Path) (b : Tree) : List Name :=
  (b.names (trashRoot home)).filter (fun id => b.isDirAt (trashRoot home ++ [id]) && D b id)

/- The tree without them, and their number. -/
def Emptied (D : Tree → Name → Bool) (home : Path) (b : Tree) (n : Nat) (c : Tree) : Prop :=
  n = (doomedIn D home b).length ∧ ∀ q, c.get q = if ∃ id ∈ doomedIn D home b, trashRoot home ++ [id] <+: q then none else b.get q

theorem sweepEmpties (judges : Judges True doomed D) (stable : Stable D (trashRoot home) b) (dir : b.isDirAt (trashRoot home) = true) :
    Ensures True (Quietly True (fun t => t = b)) (sweep doomed home) (fun n => Quietly True (Emptied D home b n)) (fun _ _ => False) := by
  let entries := (b.names (trashRoot home)).map (fun n => (n,b.isDirAt (trashRoot home ++ [n])))
  have read : b.readDir (trashRoot home) = .ok entries := by
    have follow : b.follow (trashRoot home) = .found (trashRoot home) := followDir dir
    rw [Tree.readDir,follow]
    exact if_pos dir
  have names : entries.map Prod.fst = b.names (trashRoot home) := by
    rw [List.map_map]
    exact List.map_id _
  have gone : (entries.filter (fallen D b)).map Prod.fst = doomedIn D home b := by
    rw [List.filter_map,List.map_map]
    exact List.map_id _
  have reads : Ensures True (Quietly True (fun t => t = b)) (do Os.readDir (← Sys.next) (trashRoot home))
      (fun listed => Quietly True (fun t => listed = entries ∧ t = b)) (fun _ => Quietly True (fun _ => False)) := by
    refine ensuresPlanned (fun f quiet => ensuresAsked quiet ?_ ?_ (fun noise => absurd trivial noise))
    · rintro t listed rfl asked
      rw [read] at asked
      exact ⟨(Except.ok.inj asked).symm,rfl⟩
    · rintro t e rfl failed
      rw [read] at failed
      cases failed
  refine ensuresBind (ensuresTried reads) (fun r => ?_)
  cases r with
  | error e => exact fun w held => held.2.elim
  | ok listed =>
    intro w held
    obtain ⟨peace,here,same⟩ := held
    subst here
    have rounds : Ensures True (Quietly True (Swept (fallen D b) (trashRoot home) b [] 0)) (total (sweepEntry doomed home) entries 0)
        (fun n => Quietly True (Swept (fallen D b) (trashRoot home) b entries n)) (fun _ _ => False) := by
      refine ensuresTotal (I := fun before n => Quietly True (Swept (fallen D b) (trashRoot home) b before n))
        (fun before e after n split => ?_)
      have inside : e ∈ entries := by simp [split]
      obtain ⟨name,mem,rfl⟩ := List.mem_map.mp inside
      refine entrySwept judges stable dir (getNamed (memNames.mp mem) name (by simp)) ?_ rfl
      have distinct := namesNodup b (trashRoot home)
      rw [← names,split,List.map_append,List.map_cons,List.nodup_append] at distinct
      exact fun inside => distinct.2.2 _ inside _ List.mem_cons_self rfl
    have start : Quietly True (Swept (fallen D b) (trashRoot home) b [] 0) w := by
      refine ⟨peace,rfl,fun q => ?_⟩
      rw [show w.tree = b from same]
      exact (if_neg (by simp)).symm
    refine ensuresWeaken rounds (fun _ held => held) (fun n w held => ⟨held.1,?_,fun q => ?_⟩) (fun _ _ failed => failed) w start
    · rw [held.2.1,← gone,List.length_map]
    · rw [held.2.2 q,← gone]
      exact if_congr (by simp) rfl rfl

theorem emptiedEnd {x : Sys Nat} (held : Ensures True (Quietly True (fun t => t = b)) x (fun n => Quietly True (Emptied D home b n))
    (fun _ _ => False)) {w : World} (same : w.tree = b) (still : Calm w) :
    ∃ n w', x w = some (.ok n,w') ∧ Emptied D home b n w'.tree := by
  have here := held w ⟨fun _ => still,same⟩
  cases ran : x w with
  | none =>
    rw [ran] at here
    exact absurd trivial here
  | some result =>
    obtain ⟨r,w'⟩ := result
    rw [ran] at here
    cases r with
    | ok n => exact ⟨n,w',rfl,here.2⟩
    | error e => exact here.elim

end

/- The age that an entry tells. -/
def oldInfo (p : Setting) (now : Nat) : Option Entry → Bool
  | some (.file _ raw) =>
    match p.json.unmarshal raw with
    | .error _ => false
    | .ok info => decide (info.deletedAt + TrashRetention ≤ now)
  | _ => false

theorem expiredHere {p : Setting} {home : Path} {now : Nat} {t : Tree} {id : Name} (plain : Plain id)
    (item : t.isDirAt (trashRoot home ++ [id]) = true) (solid : t.isLinkAt (trashRoot home ++ [id] ++ ["info.json"]) = false) :
    expiredAt p home now t id = oldInfo p now (t.get (trashRoot home ++ [id] ++ ["info.json"])) := by
  have follow : t.follow (trashRoot home ++ [id]) = .found (trashRoot home ++ [id]) := followDir item
  have leads := followName (n := "info.json") (by decide) follow item solid
  unfold expiredAt
  rw [infoPathNamed plain,Tree.openFile,leads]
  cases here : t.get (trashRoot home ++ [id] ++ ["info.json"]) with
  | none => rfl
  | some e =>
    rw [if_neg (Option.some_ne_none e)]
    dsimp only
    rw [Tree.read,here]
    cases e with
    | file mode raw => rfl
    | link target => rfl
    | dir mode => rfl

/- An item whose info.json is the byte that stands for the first of all times, and one without. -/
def agedSetting : Setting where
  umask := 0o022
  cwd := []
  json := ⟨fun _ => [0],fun raw => if raw = [0] then .ok ⟨"7","/d","d",false,0,0⟩ else .error "invalid"⟩

def agedTrash : Tree :=
  ((((Tree.bare.put [".containerws"] (.dir 0o700)).put [".containerws","trash"] (.dir 0o700)).put [".containerws","trash","7"]
    (.dir 0o700)).put [".containerws","trash","8"] (.dir 0o700)).put [".containerws","trash","7","info.json"] (.file 0o600 [0])

theorem linkless {t : Tree} (none : ∀ e ∈ t.entries, e.2.isLink = false) (q : Path) : t.isLinkAt q = false := by
  cases here : t.get q with
  | none => rw [Tree.isLinkAt,here]; rfl
  | some e =>
    rw [Tree.isLinkAt,here]
    obtain ⟨before,after,split,-⟩ := List.lookup_eq_some_iff.mp here
    exact none (q,e) (by simp [split])

/- Purges one after the other, each at its own time and with faults of its own. -/
def purges (p : Setting) (home : Path) : List (Nat × List (Option Fault)) → Tree → Option Tree
  | [], t => some t
  | (now,plan) :: rest, t =>
    match purgeExpiredTrash p home now ⟨t,plan⟩ with
    | some (_,w) => purges p home rest w.tree
    | none => none

/- An item keeps all that is in it through every purge before its age has come. -/
theorem keptUntilExpiry {p : Setting} {home : Path} {t : Tree} {id : Name} {mode : Nat} {raw : Bytes} {info : TrashInfo} (plain : Plain id)
    (described : t.get (trashRoot home ++ [id] ++ ["info.json"]) = some (.file mode raw)) (decoded : p.json.unmarshal raw = .ok info)
    (runs : List (Nat × List (Option Fault))) (early : ∀ r ∈ runs, r.1 < info.deletedAt + TrashRetention) :
    ∃ c, purges p home runs t = some c ∧ ∀ x, c.get (trashRoot home ++ [id] ++ x) = t.get (trashRoot home ++ [id] ++ x) := by
  induction runs generalizing t with
  | nil => exact ⟨t,rfl,fun _ => rfl⟩
  | cons run runs ih =>
    obtain ⟨now,plan⟩ := run
    obtain ⟨r,w,ran,spared⟩ := purgeSifts p home now ⟨t,plan⟩
    have there : t.get (trashRoot home ++ [id] ++ ["info.json"]) ≠ none := by
      rw [described]
      exact Option.some_ne_none _
    have item : t.isDirAt (trashRoot home ++ [id]) = true := isDirAtIff.mpr (getAbove there (List.cons_ne_nil _ _))
    have root : t.follow (trashRoot home) = .found (trashRoot home) := followDir (dirPrefix item)
    have young : expiredAt p home now t id = false := by
      rw [expiredHere plain item (by rw [Tree.isLinkAt,described]; rfl),described,oldInfo,decoded]
      exact decide_eq_false (Nat.not_le.mpr (early _ List.mem_cons_self))
    have same (x : Path) : w.tree.get (trashRoot home ++ [id] ++ x) = t.get (trashRoot home ++ [id] ++ x) := by
      rcases spared (trashRoot home ++ [id] ++ x) with same | ⟨-,other,l,plain',located,-,below,old⟩
      · exact same
      · rw [itemDirNamed plain'] at located
        obtain ⟨area,found,rfl⟩ := locateName plain' located
        rw [root] at found
        cases found
        rw [List.append_assoc,List.prefix_append_right_inj,List.singleton_append,List.cons_prefix_cons] at below
        rw [below.1,young] at old
        cases old
    obtain ⟨c,rest,kept⟩ := ih ((same ["info.json"]).trans described) (fun r mem => early r (List.mem_cons_of_mem _ mem))
    refine ⟨c,?_,fun x => (kept x).trans (same x)⟩
    rw [purges,ran]
    exact rest

/- Two purges before the time, the first with a fault. -/
theorem agedKept : ∃ c, purges agedSetting [] [(5,[none,none,some ⟨.io,none,[]⟩]),(TrashRetention - 1,[])] agedTrash = some c ∧
    ∀ x, c.get ([".containerws","trash","7"] ++ x) = agedTrash.get ([".containerws","trash","7"] ++ x) :=
  @keptUntilExpiry agedSetting [] agedTrash "7" 0o600 [0] ⟨"7","/d","d",false,0,0⟩ (by decide) (by decide) rfl _ (by decide)

/- Where no info.json is a link, the age of an item does not hang on the other ones. -/
theorem expiredStable {p : Setting} {home : Path} {now : Nat} {b : Tree}
    (solid : ∀ id, b.isLinkAt (trashRoot home ++ [id] ++ ["info.json"]) = false) : Stable (expiredAt p home now) (trashRoot home) b := by
  intro c id plain item root same
  have dir : c.isDirAt (trashRoot home ++ [id]) = true := by
    have here := same []
    rw [List.append_nil] at here
    rw [Tree.isDirAt,here]
    exact item
  have info := same ["info.json"]
  have link : c.isLinkAt (trashRoot home ++ [id] ++ ["info.json"]) = false := by
    rw [Tree.isLinkAt,info]
    exact solid id
  rw [expiredHere plain dir link,expiredHere plain item (solid id),info]

/- Without faults every directory of the trash goes, whatever is in it, and nothing else does. -/
theorem emptyTrashExact (home : Path) (w : World) (still : Calm w) (dir : w.tree.isDirAt (trashRoot home) = true) :
    ∃ n w', emptyTrash home w = some (.ok n,w') ∧ Emptied (fun _ _ => true) home w.tree n w'.tree :=
  emptiedEnd (sweepEmpties (allJudged True) (fun _ _ _ _ _ _ => rfl) dir) rfl still

theorem agedEmptied : ∃ n w', emptyTrash [] ⟨agedTrash,[]⟩ = some (.ok n,w') ∧ Emptied (fun _ _ => true) [] agedTrash n w'.tree :=
  emptyTrashExact [] ⟨agedTrash,[]⟩ (fun _ mem => by cases mem) (by decide)

end ContainerWS.Files
