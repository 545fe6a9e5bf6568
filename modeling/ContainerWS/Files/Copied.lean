import ContainerWS.Files.Walk

/-! A copy that ends has brought every entry of its source to the target. A link has
become a file, the modes are those that the process lets through. -/
namespace ContainerWS.Files
open GoPath FileTree

/- What a copy makes of an entry; where it is exact, of its mode as well. A file that
is copied onto itself is emptied. -/
inductive CopyOf (umask : Nat) (exact same : Prop) : Entry → Entry → Prop where
  | file {m m' : Nat} {data data' : Bytes} (own : exact → m' = Os.masked umask m) (kept : ¬same → data' = data)
      (gone : same → data' = []) : CopyOf umask exact same (.file m data) (.file m' data')
  | dir {m m' : Nat} (own : exact → m' = Os.masked umask m) : CopyOf umask exact same (.dir m) (.dir m')
  | link {target : String} {m' : Nat} {data : Bytes} (own : exact → m' = Os.masked umask 0o777) :
      CopyOf umask exact same (.link target) (.file m' data)

/- The source and the target of a copy, once the directory of the target has been made.
What stands at the target has its place in the source, and the two trees lie apart or
are the same one. -/
structure Copying where
  origin : Tree
  src : Path
  dst : Path
  s : Path
  t : Path
  source : origin.follow src = .found s
  target : origin.follow dst = .found t
  named : ∀ n ∈ dst, Plain n
  fits : ∀ x e, origin.get (t ++ x) = some e → ∃ e0, origin.get (s ++ x) = some e0 ∧ e0.alike e = true ∧ e.isLink = false
  apart : (∀ x y, s ++ x ≠ t ++ y) ∨ s = t

namespace Copying

variable (k : Copying) (umask : Nat) (exact : Prop)

def Done (c : Tree) (x : Path) : Prop :=
  ∃ e e', k.origin.get (k.s ++ x) = some e ∧ c.get (k.t ++ x) = some e' ∧ CopyOf umask exact (k.s = k.t) e e'

/- Where modes are to be exact, the target is new and apart. -/
def Fresh : Prop := (∀ x y, k.s ++ x ≠ k.t ++ y) ∧ ∀ x, x ≠ [] → k.origin.get (k.t ++ x) = none

def LinkFree : Prop := ∀ x e, k.origin.get (k.s ++ x) = some e → e.isLink = false

structure Reached (done : Path → Prop) (c : Tree) : Prop where
  held : Held k.origin k.t c
  inside : ∀ x, c.get (k.t ++ x) = k.origin.get (k.t ++ x) ∨ k.Done umask exact c x
  finished : ∀ x, done x → k.Done umask exact c x

variable {k umask exact} {done : Path → Prop} {c : Tree}

/- The source stands as it stood, unless it is the target. -/
theorem sourceStands (reached : k.Reached umask exact done c) {x : Path} {e : Entry}
    (here : k.origin.get (k.s ++ x) = some e) :
    ∃ e', c.get (k.s ++ x) = some e' ∧ e.alike e' = true ∧ (k.s ≠ k.t → e' = e) := by
  rcases k.apart with apart | same
  · refine ⟨e,?_,alikeSelf e,fun _ => rfl⟩
    rw [reached.held.outside _ (fun ⟨y,below⟩ => apart x y below.symm)]
    exact here
  · have place := reached.inside x
    rw [← same] at place
    rcases place with old | ⟨e0,e',there,new,copy⟩
    · exact ⟨e,old.trans here,alikeSelf e,fun _ => rfl⟩
    · rw [here] at there
      cases there
      rw [← same] at new
      refine ⟨e',new,?_,fun other => absurd same other⟩
      cases copy with
      | file own => rfl
      | dir own => rfl
      | link own =>
        obtain ⟨_,_,_,solid⟩ := k.fits x _ (same ▸ here)
        contradiction

theorem sourceOnly (reached : k.Reached umask exact done c) {x : Path} (there : c.get (k.s ++ x) ≠ none) :
    k.origin.get (k.s ++ x) ≠ none := by
  rcases k.apart with apart | same
  · rwa [reached.held.outside _ (fun ⟨y,below⟩ => apart x y below.symm)] at there
  · have place := reached.inside x
    rw [← same] at place
    rcases place with old | ⟨e0,e',here,_,_⟩
    · rwa [old] at there
    · simp [here]

/- A directory of the source, where the walk finds it. -/
theorem sourceDir (reached : k.Reached umask exact done c) {x : Path} {m : Nat}
    (here : k.origin.get (k.s ++ x) = some (.dir m)) : c.follow (k.src ++ x) = .found (k.s ++ x) ∧ c.isDirAt (k.s ++ x) = true := by
  obtain ⟨e',there,same,_⟩ := sourceStands reached here
  obtain ⟨m',rfl⟩ := alikeDir same
  have inside := isDirAtIff.mpr ⟨m',there⟩
  exact ⟨followInside (followGrows reached.held.grows k.source) inside,inside⟩

theorem targetDir (reached : k.Reached umask exact done c) {x : Path} {m : Nat} (visited : done x)
    (here : k.origin.get (k.s ++ x) = some (.dir m)) : Entered k.origin k.t x c := by
  obtain ⟨e,e',there,new,copy⟩ := reached.finished x visited
  rw [here] at there
  cases there
  cases copy with
  | dir own => exact ⟨reached.held,isDirAtIff.mpr ⟨_,new⟩⟩

/- What stands at the target is of the kind that the source has there. -/
theorem targetKind (reached : k.Reached umask exact done c) {x : Path} {e0 : Entry} (there : c.get (k.t ++ x) = some e0) :
    ∃ e, k.origin.get (k.s ++ x) = some e ∧ (e.isDir = e0.isDir) ∧ e0.isLink = false := by
  rcases reached.inside x with old | ⟨e,e',here,new,copy⟩
  · obtain ⟨e,here,same,solid⟩ := k.fits x e0 (old ▸ there)
    refine ⟨e,here,?_,solid⟩
    cases e <;> cases e0 <;> first | rfl | contradiction
  · rw [there] at new
    cases new
    refine ⟨e,here,?_,?_⟩ <;> cases copy <;> rfl

theorem freshApart (fresh : k.Fresh) : k.s ≠ k.t := fun same => fresh.1 [] [] (by rw [same])

theorem stepDone {x : Path} {e : Entry} {c' : Tree} (reached : k.Reached umask exact done c) (fresh : exact → k.Fresh)
    (here : k.origin.get (k.s ++ x) = some e) (filled : x ≠ [])
    (stepped : Stepped umask exact c (k.src ++ x) (k.t ++ x) e.isDir c') : k.Done umask exact c' x := by
  obtain ⟨e1,there,alike,same⟩ := sourceStands reached here
  have located : c.locate (k.src ++ x) = .found (k.s ++ x) :=
    locateBelow (followGrows reached.held.grows k.source) filled (by simp [there])
  -- With exact modes the target is new, or this entry has been copied before.
  have before {e0 : Entry} (sure : exact) (old : c.get (k.t ++ x) = some e0) : CopyOf umask exact (k.s = k.t) e e0 := by
    rcases reached.inside x with start | ⟨e2,e3,again,new,copy⟩
    · rw [old,(fresh sure).2 x filled] at start
      contradiction
    · rw [here] at again
      cases again
      rw [old] at new
      cases new
      exact copy
  cases e with
  | dir m =>
    obtain ⟨_,dir,m1,new,own⟩ := stepped
    obtain ⟨m2,now⟩ := isDirAtIff.mp dir
    refine ⟨_,_,here,now,.dir ?_⟩
    intro sure
    cases old : c.get (k.t ++ x) with
    | none =>
      rw [old,now] at new
      cases new
      rw [own sure _ _ located there,same (freshApart (fresh sure))]
      rfl
    | some e0 =>
      rw [old,now] at new
      cases new
      cases before sure old with
      | dir own' => exact own' sure
  | file m data =>
    obtain ⟨s',e2,r,place,there',leads,_,m',data',now,mode',wrote⟩ := stepped
    rw [located] at place
    cases place
    rw [there] at there'
    cases there'
    obtain ⟨m1,data1,rfl⟩ := alikeFile alike
    have straight : c.follow (k.src ++ x) = .found (k.s ++ x) :=
      followLocated located (by simp [Tree.isLinkAt,there,Entry.isLink])
    rw [straight] at leads
    cases leads
    refine ⟨_,_,here,now,.file ?_ ?_ ?_⟩
    · intro sure
      rcases mode' with ⟨old,old'⟩ | ⟨_,new⟩
      · cases before sure old' with
        | file own => exact own sure
      · cases same (freshApart (fresh sure))
        exact new
    · intro other
      rcases wrote with ⟨both,_⟩ | ⟨_,m2,read⟩
      · exact absurd (List.append_cancel_right both) other
      · rw [there,same other] at read
        cases read
        rfl
    · intro both
      rcases wrote with ⟨_,empty⟩ | ⟨other,_⟩
      · exact empty
      · exact absurd (by rw [both]) other
  | link target =>
    obtain ⟨s',e2,r,place,there',leads,_,m',data',now,mode',_⟩ := stepped
    rw [located] at place
    cases place
    rw [there] at there'
    cases there'
    refine ⟨_,_,here,now,.link ?_⟩
    intro sure
    rcases mode' with ⟨old,old'⟩ | ⟨_,new⟩
    · cases before sure old' with
      | link own => exact own sure
    · cases e1 <;> first | contradiction | exact new

theorem stepReached {x : Path} {e : Entry} {c' : Tree} (reached : k.Reached umask exact done c) (fresh : exact → k.Fresh)
    (here : k.origin.get (k.s ++ x) = some e) (filled : x ≠ [])
    (stepped : Stepped umask exact c (k.src ++ x) (k.t ++ x) e.isDir c') :
    k.Reached umask exact (fun y => done y ∨ y = x) c' := by
  have new := stepDone reached fresh here filled stepped
  have still {y : Path} (other : y ≠ x) : c'.get (k.t ++ y) = c.get (k.t ++ y) :=
    (steppedOnly stepped).1 _ (fun same => other (List.append_cancel_left same))
  have old {y : Path} (finished : k.Done umask exact c y) : k.Done umask exact c' y := by
    by_cases same : y = x
    · rw [same]
      exact new
    · obtain ⟨e0,e',there,before,copy⟩ := finished
      exact ⟨e0,e',there,(still same).trans before,copy⟩
  refine ⟨heldStepped reached.held stepped,?_,?_⟩
  · intro y
    by_cases same : y = x
    · rw [same]
      exact .inr new
    · rcases reached.inside y with start | finished
      · exact .inl ((still same).trans start)
      · exact .inr (old finished)
  · rintro y (visited | rfl)
    · exact old (reached.finished y visited)
    · exact new

/- What a copy that fails leaves; a smooth one does not fail. -/
def Failed (k : Copying) (smooth : Prop) (c : Tree) : Prop := Kept k.origin k.t c ∧ ¬smooth

variable {halts calm smooth : Prop} {fuel : Nat} {perm : Path → DirEntry → Sys Nat}

theorem dirAt {x : Path} {q : Path} (filled : q ≠ []) (there : k.origin.get (k.s ++ (x ++ q)) ≠ none) :
    ∃ m, k.origin.get (k.s ++ x) = some (.dir m) := by
  rw [← List.append_assoc] at there
  exact getAbove there filled

theorem stepPossible (reached : k.Reached umask exact done c) (plain : k.LinkFree) {x : Path} {e : Entry} (filled : x ≠ [])
    (here : k.origin.get (k.s ++ x) = some e) : Possible c (k.src ++ x) (k.t ++ x) e.isDir := by
  obtain ⟨e1,there,alike,_⟩ := sourceStands reached here
  have located : c.locate (k.src ++ x) = .found (k.s ++ x) :=
    locateBelow (followGrows reached.held.grows k.source) filled (by simp [there])
  have kind (e0 : Entry) (old : c.get (k.t ++ x) = some e0) : e0.isDir = e.isDir := by
    obtain ⟨e2,again,same,_⟩ := targetKind reached old
    rw [here] at again
    cases again
    exact same.symm
  cases e with
  | dir m =>
    cases old : c.get (k.t ++ x) with
    | none => exact .inl old
    | some e0 =>
      refine .inr ?_
      rw [Tree.isDirAt,old]
      exact kind e0 old
  | file m data =>
    obtain ⟨m1,data1,rfl⟩ := alikeFile alike
    refine ⟨⟨k.s ++ x,m1,data1,?_,there⟩,?_,k.s ++ x,located⟩
    · exact followLocated located (by simp [Tree.isLinkAt,there,Entry.isLink])
    · cases old : c.get (k.t ++ x) with
      | none => simp [Tree.isDirAt,old]
      | some e0 =>
        rw [Tree.isDirAt,old]
        exact kind e0 old
  | link target => exact absurd (plain x _ here) (by simp [Entry.isLink])

/- How far down the source goes. -/
def Deep (k : Copying) (bound : Nat) : Prop := ∀ y, k.origin.get (k.s ++ y) ≠ none → y.length ≤ bound

/- What the source has below a path. -/
def Below (k : Copying) (x y : Path) : Prop := x <+: y ∧ k.origin.get (k.s ++ y) ≠ none

theorem reachedWeaken {more : Path → Prop} (reached : k.Reached umask exact more c) (covers : ∀ y, done y → more y) :
    k.Reached umask exact done c := ⟨reached.held,reached.inside,fun y visited => reached.finished y (covers y visited)⟩

/- A directory is listed as the source has it. -/
def Listed (k : Copying) (x : Path) (dirs : List (Name × Bool)) : Prop :=
  (∀ d1 ∈ dirs, ∃ e, k.origin.get (k.s ++ (x ++ [d1.1])) = some e ∧ d1.2 = e.isDir) ∧
  ∀ n, k.origin.get (k.s ++ (x ++ [n])) ≠ none → ∃ d1 ∈ dirs, d1.1 = n

theorem readDirListed (reached : k.Reached umask exact done c) {x : Path} {m : Nat}
    (here : k.origin.get (k.s ++ x) = some (.dir m)) : ∃ dirs, c.readDir (k.src ++ x) = .ok dirs ∧ k.Listed x dirs := by
  obtain ⟨found,inside⟩ := sourceDir reached here
  refine ⟨(c.names (k.s ++ x)).map (fun n => (n,c.isDirAt (k.s ++ x ++ [n]))),?_,?_,?_⟩
  · rw [Tree.readDir,found]
    exact if_pos inside
  · intro d1 mem
    obtain ⟨n,listed,rfl⟩ := List.mem_map.mp mem
    have there := memNames.mp listed
    rw [List.append_assoc] at there
    obtain ⟨e,origin⟩ := Option.ne_none_iff_exists'.mp (sourceOnly reached there)
    obtain ⟨e',now,alike,_⟩ := sourceStands reached origin
    refine ⟨e,origin,?_⟩
    rw [List.append_assoc,Tree.isDirAt,now]
    cases e <;> cases e' <;> first | rfl | contradiction
  · intro n there
    obtain ⟨e,origin⟩ := Option.ne_none_iff_exists'.mp there
    obtain ⟨e',now,_⟩ := sourceStands reached origin
    refine ⟨_,List.mem_map.mpr ⟨n,memNames.mpr ?_,rfl⟩,rfl⟩
    rw [List.append_assoc,now]
    exact Option.some_ne_none e'

/- The rounds of a directory, given what each of them does. -/
theorem entriesCopy (still : smooth → calm) {walk : Path → DirEntry → Sys Unit} {x : Path} {m : Nat} (visited : done x)
    (here : k.origin.get (k.s ++ x) = some (.dir m))
    (round : ∀ n e (done : Path → Prop), done x → k.origin.get (k.s ++ (x ++ [n])) = some e →
      Ensures halts (Quietly calm (k.Reached umask exact done)) (walk (k.src ++ (x ++ [n])) ⟨e.isDir,none⟩)
        (fun _ => Quietly calm (k.Reached umask exact (fun y => done y ∨ k.Below (x ++ [n]) y)))
        (fun _ => Quietly calm (k.Failed smooth))) :
    Ensures halts (Quietly calm (k.Reached umask exact done)) (walkEntries walk (k.src ++ x))
      (fun _ => Quietly calm (k.Reached umask exact (fun y => done y ∨ k.Below x y)))
      (fun _ => Quietly calm (k.Failed smooth)) := by
  unfold walkEntries
  refine ensuresPlanned (fun f quiet => ensuresBind (Q := fun dirs => Quietly calm (fun c =>
    k.Reached umask exact done c ∧ k.Listed x dirs)) ?_ (fun dirs => ?_))
  · refine ensuresAsked quiet ?_ ?_ ?_
    · intro c dirs reached listed
      obtain ⟨dirs',ok,listed'⟩ := readDirListed reached here
      rw [listed] at ok
      cases ok
      exact ⟨reached,listed'⟩
    · intro c e reached failed
      obtain ⟨dirs',ok,_⟩ := readDirListed reached here
      rw [failed] at ok
      contradiction
    · intro noisy c reached
      exact ⟨heldKept reached.held,fun sure => noisy (still sure)⟩
  · refine ensuresFix ?_
    rintro c ⟨reached,listed⟩
    refine ensuresWeaken (ensuresEach (I := fun before => Quietly calm (k.Reached umask exact
      (fun y => done y ∨ ∃ d1 ∈ before, k.Below (x ++ [d1.1]) y))) ?_) ?_ ?_ (fun _ _ failed => failed)
    · rintro before ⟨n,b⟩ after split
      obtain ⟨e,there,kind⟩ := listed.1 (n,b) (by simp [split])
      dsimp only at there kind
      subst kind
      rw [List.append_assoc]
      refine ensuresWeaken (round n e _ (.inl visited) there) (fun _ held => held) ?_ (fun _ _ failed => failed)
      rintro _ w ⟨quiet,after⟩
      refine ⟨quiet,reachedWeaken after ?_⟩
      rintro y (old | ⟨d1,mem,below⟩)
      · exact .inl (.inl old)
      · rcases List.mem_append.mp mem with earlier | last
        · exact .inl (.inr ⟨d1,earlier,below⟩)
        · rw [List.mem_singleton.mp last] at below
          exact .inr below
    · rintro w ⟨quiet,rfl⟩
      refine ⟨quiet,reachedWeaken reached ?_⟩
      rintro y (old | ⟨d1,mem,_⟩)
      · exact old
      · simp at mem
    · rintro _ w ⟨quiet,after⟩
      refine ⟨quiet,reachedWeaken after ?_⟩
      rintro y (old | ⟨⟨rest,rfl⟩,there⟩)
      · exact .inl old
      · cases rest with
        | nil => exact .inl (by rwa [List.append_nil])
        | cons n rest =>
          have step : k.origin.get (k.s ++ (x ++ [n])) ≠ none := by
            intro free
            have gone := getBelow (q := rest) free
            simp only [List.append_assoc,List.singleton_append] at gone
            exact there gone
          obtain ⟨d1,mem,rfl⟩ := listed.2 n step
          exact .inr ⟨d1,mem,⟨rest,by simp⟩,there⟩

section Walked
variable (asks : Asks exact perm) (peace : exact → calm) (fresh : exact → k.Fresh) (still : smooth → calm)
  (plain : smooth → k.LinkFree)
include asks peace fresh still plain

theorem entryCopies {x : Path} {n : Name} {e : Entry} (visited : done x) (here : k.origin.get (k.s ++ (x ++ [n])) = some e) :
    Ensures halts (Quietly calm (k.Reached umask exact done))
      (copyEntry umask perm k.src k.dst (k.src ++ (x ++ [n])) ⟨e.isDir,none⟩)
      (fun _ => Quietly calm (k.Reached umask exact (fun y => done y ∨ y = x ++ [n])))
      (fun _ => Quietly calm (k.Failed smooth)) := by
  refine ensuresFix ?_
  intro c reached
  obtain ⟨m,above⟩ := dirAt (by simp) (show k.origin.get (k.s ++ (x ++ [n])) ≠ none by simp [here])
  obtain ⟨held,inside⟩ := targetDir reached visited above
  have names : ∀ m ∈ k.dst ++ x ++ [n], Plain m := by
    intro m mem
    rw [List.append_assoc] at mem
    rcases List.mem_append.mp mem with first | second
    · exact k.named m first
    · exact getNamed (Option.ne_none_iff_exists'.mpr ⟨_,here⟩) m (List.mem_append_right _ second)
  have below := followInside (followGrows held.grows k.target) inside
  have solid : c.isLinkAt (k.t ++ x ++ [n]) = false := List.append_assoc k.t x [n] ▸ held.solid (x ++ [n])
  refine ensuresWeaken (entrySteps asks peace names below inside solid nofun) (fun _ before => before) ?_ ?_
  · rintro _ w ⟨quiet,stepped⟩
    rw [List.append_assoc] at stepped
    exact ⟨quiet,stepReached reached fresh here (by simp) stepped⟩
  · rintro _ w ⟨quiet,spares,never⟩
    rw [List.append_assoc] at spares never
    refine ⟨quiet,keptSpares held spares,?_⟩
    intro sure
    exact never ⟨still sure,stepPossible reached (plain sure) (by simp) here⟩

/- The walk copies an entry and all that is below it. Where it has to end, its fuel
reaches down to the deepest entry. -/
theorem walkCopies : ∀ {x : Path} {n : Name} {e : Entry} {done : Path → Prop}, done x →
    k.origin.get (k.s ++ (x ++ [n])) = some e →
    (halts → k.Deep (fuel+x.length)) →
    Ensures halts (Quietly calm (k.Reached umask exact done))
      (walkDir (copyEntry umask perm k.src k.dst) fuel (k.src ++ (x ++ [n])) ⟨e.isDir,none⟩)
      (fun _ => Quietly calm (k.Reached umask exact (fun y => done y ∨ k.Below (x ++ [n]) y)))
      (fun _ => Quietly calm (k.Failed smooth)) := by
  induction fuel with
  | zero =>
    intro x n e done visited here enough
    refine ensuresDiverge (fun _ _ ends => ?_)
    have bound := enough ends _ (Option.ne_none_iff_exists'.mpr ⟨_,here⟩)
    rw [List.length_append,List.length_singleton] at bound
    omega
  | succ fuel ih =>
    intro x n e done visited here enough
    unfold walkDir
    refine ensuresBind (entryCopies asks peace fresh still plain visited here) (fun _ => ?_)
    cases e with
    | dir m =>
      rw [if_pos (show (⟨(Entry.dir m).isDir,none⟩ : DirEntry).isDir = true from rfl)]
      refine ensuresWeaken (entriesCopy still (.inr rfl) here ?_) (fun _ held => held) ?_ (fun _ _ failed => failed)
      · intro n' e' done' visited' there
        refine ih visited' there ?_
        intro ends y inside
        have bound := enough ends y inside
        rw [List.length_append,List.length_singleton]
        omega
      · rintro _ w ⟨quiet,reached⟩
        refine ⟨quiet,reachedWeaken reached ?_⟩
        rintro y (old | below)
        · exact .inl (.inl old)
        · exact .inr below
    | _ =>
      rw [if_neg (by simp [Entry.isDir])]
      refine ensuresPure ?_
      rintro w ⟨quiet,reached⟩
      refine ⟨quiet,reachedWeaken reached ?_⟩
      rintro y (old | ⟨⟨rest,rfl⟩,there⟩)
      · exact .inl old
      · -- A file has nothing below it.
        cases rest with
        | nil => exact .inr (List.append_nil _)
        | cons k' rest =>
          rw [← List.append_assoc] at there
          obtain ⟨m,dir⟩ := getAbove there (by simp)
          rw [here] at dir
          cases dir

omit asks peace fresh still plain in
/- The tree from which the walk goes on below the root. -/
theorem startReached {m : Nat} (root : k.origin.get k.s = some (.dir m)) (made : k.origin.isDirAt k.t = true)
    (own : exact → k.origin.get k.t = some (.dir (Os.masked umask m))) :
    k.Reached umask exact (fun y => y = []) k.origin := by
  refine ⟨⟨growsSelf _,fun _ _ => rfl,?_⟩,fun _ => .inl rfl,?_⟩
  · intro x
    rw [solidIff]
    intro target here
    obtain ⟨_,_,_,solid⟩ := k.fits x _ here
    contradiction
  · rintro y rfl
    obtain ⟨m',there⟩ := isDirAtIff.mp made
    refine ⟨.dir m,.dir m',by rwa [List.append_nil],by rwa [List.append_nil],.dir ?_⟩
    intro sure
    rw [own sure] at there
    cases there
    rfl

/- The copy is complete: every entry of the source has been brought over. -/
def Complete (k : Copying) (umask : Nat) (exact : Prop) (c : Tree) : Prop :=
  k.Reached umask exact (fun x => k.origin.get (k.s ++ x) ≠ none) c

theorem rootCopies {m : Nat} (root : k.origin.get k.s = some (.dir m)) (made : k.origin.isDirAt k.t = true)
    (own : exact → k.origin.get k.t = some (.dir (Os.masked umask m))) (enough : halts → k.Deep fuel) :
    Ensures halts (Quietly calm (fun c => c = k.origin))
      (walkEntries (walkDir (copyEntry umask perm k.src k.dst) fuel) k.src)
      (fun _ => Quietly calm (k.Complete umask exact)) (fun _ => Quietly calm (k.Failed smooth)) := by
  have loop : Ensures halts (Quietly calm (k.Reached umask exact (fun y => y = [])))
      (walkEntries (walkDir (copyEntry umask perm k.src k.dst) fuel) (k.src ++ []))
      (fun _ => Quietly calm (k.Reached umask exact (fun y => y = [] ∨ k.Below [] y)))
      (fun _ => Quietly calm (k.Failed smooth)) := entriesCopy (m := m) still rfl
    (by rwa [List.append_nil]) (by
      intro n e done visited here
      exact walkCopies asks peace fresh still plain visited here enough)
  rw [List.append_nil] at loop
  refine ensuresWeaken loop ?_ ?_ (fun _ _ failed => failed)
  · rintro w ⟨quiet,same⟩
    exact ⟨quiet,same.symm ▸ startReached root made own⟩
  · rintro _ w ⟨quiet,reached⟩
    exact ⟨quiet,reachedWeaken reached (fun y there => .inr ⟨List.nil_prefix,there⟩)⟩

end Walked

end Copying

/- The walk of a directory makes the directory of the target and goes on from there. -/
theorem copyTreeStarts {halts calm : Prop} (exact : Prop) {umask fuel : Nat} {perm : Path → DirEntry → Sys Nat} {b : Tree}
    {src dst s : Path} {e : Entry} {Q : Unit → World → Prop} {F : Tree → Prop} (asks : Asks exact perm)
    (peace : exact → calm) (named : ∀ n ∈ dst, Plain n) (located : b.locate src = .found s) (here : b.get s = some e)
    (dir : e.isDir = true)
    (loops : ∀ m o, b.mkdirAll dst (Os.masked umask m) = .ok o → (exact → m = mode e) →
      Ensures halts (Quietly calm (fun c => c = o)) (walkEntries (walkDir (copyEntry umask perm src dst) fuel) src) Q
        (fun _ => Quietly calm F))
    (fails : ∀ c, Keeps b c → (calm → ∃ perm e, b.mkdirAll dst perm = .error e) → F c) :
    Ensures halts (Quietly calm (fun c => c = b)) (copyTree umask perm (fuel+1) src dst) Q (fun _ => Quietly calm F) := by
  have loud {c : Tree} (noisy : ¬calm) (keeps : Keeps b c) : F c := fails c keeps (fun peace => absurd peace noisy)
  have self : Keeps b b := fun _ _ here => here
  unfold copyTree WalkDir
  refine ensuresPlanned (fun f quiet => ensuresBind (Q := fun e' => Quietly calm (fun c => c = b ∧ e' = e)) ?_
    (fun e' => ?_))
  · refine ensuresAsked quiet ?_ ?_ ?_
    · rintro c e' rfl asked
      rw [lstatFound located here] at asked
      cases asked
      exact ⟨rfl,rfl⟩
    · rintro c e' rfl asked
      rw [lstatFound located here] at asked
      contradiction
    · rintro noisy c rfl
      exact loud noisy self
  · refine ensuresFix ?_
    rintro c ⟨rfl,rfl⟩
    unfold walkDir
    refine ensuresBind (Q := fun _ => Quietly calm (fun o => ∃ m, c.mkdirAll dst (Os.masked umask m) = .ok o ∧
      (exact → m = mode e'))) ?_ (fun _ => ?_)
    · unfold copyEntry
      have target : clean (dst ++ rel src src) = dst := by
        rw [rel,List.drop_length,List.append_nil]
        exact cleanNamed named
      rw [target]
      dsimp only
      rw [if_pos dir]
      refine ensuresBind (asks peace ?_) (fun m => ?_)
      · intro e known
        cases known
        exact ⟨s,located,here⟩
      · refine ensuresPlanned (fun f quiet => ensuresChanged quiet ?_ ?_ ?_)
        · rintro t u o ⟨rfl,own⟩ made
          exact ⟨m,plainlyOk.mp made,fun sure => own sure s e' located here⟩
        · rintro t e ⟨rfl,_⟩ made
          exact fails t self (fun _ => ⟨_,e,plainlyError.mp made⟩)
        · rintro noisy fault t ⟨rfl,_⟩
          exact loud noisy (Os.mkdirHalfKeeps _ _ _)
    · dsimp only
      rw [if_pos dir]
      refine ensuresFix ?_
      rintro o ⟨m,made,own⟩
      exact loops m o made own

end ContainerWS.Files
