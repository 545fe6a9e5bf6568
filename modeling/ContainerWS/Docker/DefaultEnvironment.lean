import Mathlib.Data.Set.Subsingleton
import Mathlib.Order.BooleanAlgebra.Set
import ContainerWS.Fallible
import ContainerWS.Docker.Environments

/-! At most one environment is the default, and a request that fails leaves the one that was. -/
namespace ContainerWS.Docker.Environments
open GoStrings SoftDelete

/- The flags of others are cleared and one is set. Unless there are others, both have to be done or none. -/
theorem handover {ι : Type} {flags : Set ι} (one : flags.Subsingleton) (e : ι) (cleared written : Bool) :
    (if written then (insert e ((if cleared then flags ∩ {e} else flags) \ {e})).Subsingleton
      else (if cleared then flags ∩ {e} else flags).Subsingleton ∧ flags ⊆ (if cleared then flags ∩ {e} else flags)) ↔
      ((flags \ {e}).Nonempty → cleared = written) := by
  have within : flags ⊆ {e} ↔ ¬(flags \ {e}).Nonempty := by
    rw [Set.not_nonempty_iff_eq_empty,Set.sdiff_eq_empty]
  cases cleared <;> cases written <;> simp only [Bool.false_eq_true,if_false,if_true,reduceCtorEq,imp_false,implies_true,iff_true]
  · exact ⟨one,subset_rfl⟩
  · rw [← within]
    constructor
    · intro single x mem
      by_contra other
      exact other (single (.inr ⟨mem,other⟩) (.inl rfl))
    · intro inside
      rw [Set.sdiff_eq_empty.mpr inside,insert_empty_eq]
      exact Set.subsingleton_singleton
  · rw [← within]
    constructor
    · intro kept x mem
      exact (kept.2 mem).2
    · intro inside
      exact ⟨one.anti Set.inter_subset_left,fun x mem => ⟨mem,inside mem⟩⟩
  · rw [Set.sdiff_eq_empty.mpr Set.inter_subset_right,insert_empty_eq]
    exact Set.subsingleton_singleton

def defaults (t : DockerEnvironments) : Set Nat :=
  {id | ∃ row ∈ t.rows, row.deletedAt = false ∧ row.isDefault = true ∧ row.id = id}

variable {t u : DockerEnvironments} {row env : DockerEnvironment} {p : DockerEnvironment → Bool} {k : Faults}

theorem loaded {id : Nat} (found : load k t id = some row) : row ∈ t.rows ∧ row.deletedAt = false ∧ row.id = id := by
  unfold load at found
  split at found
  · cases found
  · obtain ⟨mem,live,here⟩ := firstSome found
    exact ⟨mem,live,beq_iff_eq.mp here⟩

theorem defaultsBounded {id : Nat} (mem : id ∈ defaults t) : id < t.drawn := by
  obtain ⟨row,inside,_,_,rfl⟩ := mem
  exact t.bounded row inside

theorem defaultsInsert (live : env.deletedAt = false) (done : t.insert env = some u) :
    defaults u = if env.isDefault then insert t.drawn (defaults t) else defaults t := by
  obtain ⟨_,rows⟩ := insertSome done
  have mem (id : Nat) : id ∈ defaults u ↔ id ∈ defaults t ∨ (id = t.drawn ∧ env.isDefault = true) := by
    constructor
    · rintro ⟨row,inside,alive,flag,rfl⟩
      rw [rows] at inside
      rcases List.mem_append.mp inside with old | new
      · exact .inl ⟨row,old,alive,flag,rfl⟩
      · cases List.mem_singleton.mp new
        exact .inr ⟨rfl,flag⟩
    · rintro (⟨row,old,alive,flag,rfl⟩ | ⟨rfl,flag⟩)
      · exact ⟨row,rows ▸ List.mem_append_left _ old,alive,flag,rfl⟩
      · exact ⟨schema.number t.drawn env,rows ▸ List.mem_append_right _ (List.mem_singleton_self _),live,flag,rfl⟩
  ext id
  rw [mem]
  cases env.isDefault <;> simp [or_comm]

theorem defaultsUpdate (mem : row ∈ t.rows) (live : row.deletedAt = false) (same : env.id = row.id) (done : t.update env = some u) :
    defaults u = if env.deletedAt = false ∧ env.isDefault = true then insert env.id (defaults t \ {env.id}) else defaults t \ {env.id} := by
  obtain ⟨_,rows⟩ := updateSome done
  have here (id : Nat) : id ∈ defaults u ↔ (id ∈ defaults t ∧ id ≠ env.id) ∨ (id = env.id ∧ env.deletedAt = false ∧ env.isDefault = true) := by
    constructor
    · rintro ⟨q,inside,alive,flag,rfl⟩
      rw [rows] at inside
      rcases memPut inside with ⟨old,other | gone⟩ | ⟨rfl,_⟩
      · exact .inl ⟨⟨q,old,alive,flag,rfl⟩,other⟩
      · exact absurd (alive.symm.trans gone) (by simp)
      · exact .inr ⟨rfl,alive,flag⟩
    · rintro (⟨⟨q,old,alive,flag,rfl⟩,other⟩ | ⟨rfl,alive,flag⟩)
      · exact ⟨q,rows ▸ putMem old other,alive,flag,rfl⟩
      · refine ⟨env,rows ▸ List.mem_map.mpr ⟨row,mem,?_⟩,alive,flag,rfl⟩
        exact if_pos ⟨same.symm,live⟩
  ext id
  rw [here]
  split
  · rename_i flag
    simp only [flag,and_self,and_true,Set.mem_insert_iff,Set.mem_sdiff,Set.mem_singleton_iff]
    exact or_comm
  · rename_i other
    simp [other]

/- Where a column is set that is not the flag. -/
theorem defaultsBeside {c : Column schema} (kept : ∀ row, (c.set row).deletedAt = row.deletedAt ∧ (c.set row).isDefault = row.isDefault) :
    defaults (t.set c p) = defaults t := by
  have same (q : DockerEnvironment) : (c.over p q).deletedAt = q.deletedAt ∧ (c.over p q).isDefault = q.isDefault := by
    unfold Column.over
    split
    · exact kept q
    · exact ⟨rfl,rfl⟩
  ext id
  constructor
  · rintro ⟨q,inside,alive,flag,rfl⟩
    obtain ⟨old,mem,rfl⟩ := memSet.mp inside
    exact ⟨old,mem,(same old).1.symm.trans alive,(same old).2.symm.trans flag,(identOver c p old).symm⟩
  · rintro ⟨old,mem,alive,flag,rfl⟩
    exact ⟨_,List.mem_map_of_mem mem,(same old).1.trans alive,(same old).2.trans flag,identOver c p old⟩

theorem defaultsCleared (k : Faults) (p : Nat → Bool) :
    defaults (clearDefault k (fun row => p row.id) t) = if k.clear then defaults t else defaults t \ {id | p id = true} := by
  unfold clearDefault
  split
  · rfl
  · ext id
    constructor
    · rintro ⟨q,inside,alive,flag,rfl⟩
      obtain ⟨old,mem,rfl⟩ := memSet.mp inside
      unfold Column.over at *
      split at flag
      · cases flag
      · rename_i other
        rw [if_neg other] at alive ⊢
        refine ⟨⟨old,mem,alive,flag,rfl⟩,?_⟩
        intro picked
        exact other ⟨alive,(Bool.and_eq_true _ _).mpr ⟨flag,picked⟩⟩
    · rintro ⟨⟨old,mem,alive,flag,rfl⟩,spared⟩
      refine ⟨old,memSet.mpr ⟨old,mem,if_neg ?_⟩,alive,flag,rfl⟩
      rintro ⟨_,picked⟩
      exact spared ((Bool.and_eq_true _ _).mp picked).2

theorem defaultsSet {id : Nat} (mem : row ∈ t.rows) (live : row.deletedAt = false) (here : row.id = id) :
    defaults (t.set (isDefault true) (numbered id)) = insert id (defaults t) := by
  ext x
  constructor
  · rintro ⟨q,inside,alive,flag,rfl⟩
    obtain ⟨old,mem,rfl⟩ := memSet.mp inside
    unfold Column.over at *
    split at flag
    · rename_i picked
      rw [if_pos picked]
      exact .inl (beq_iff_eq.mp picked.2)
    · rename_i other
      rw [if_neg other] at alive ⊢
      exact .inr ⟨old,mem,alive,flag,rfl⟩
  · rintro (rfl | ⟨old,mem,alive,flag,rfl⟩)
    · exact ⟨_,memSet.mpr ⟨row,mem,if_pos ⟨live,beq_iff_eq.mpr here⟩⟩,live,rfl,here⟩
    · refine ⟨_,List.mem_map_of_mem mem,?_,?_,identOver (isDefault true) (numbered id) old⟩ <;> unfold Column.over <;> split
      · exact alive
      · exact alive
      · rfl
      · exact flag

/- What a request does to a record leaves its number and its deletion mark. -/
structure Same (env env' : DockerEnvironment) : Prop where
  id : env'.id = env.id
  deletedAt : env'.deletedAt = env.deletedAt

theorem sameIte {c : Prop} [Decidable c] {left right : DockerEnvironment} (yes : Same env left) (no : Same env right) :
    Same env (if c then left else right) := by
  by_cases held : c
  · rwa [if_pos held]
  · rwa [if_neg held]

theorem okIte {c : Prop} [Decidable c] {ε α : Type} {x y : Except ε α} {a : α} (done : (if c then x else y) = .ok a) : x = .ok a ∨ y = .ok a := by
  by_cases held : c
  · exact .inl ((if_pos held).symm.trans done)
  · exact .inr ((if_neg held).symm.trans done)

theorem filledSame (m : CaseMap) (env : DockerEnvironment) : Same env (env.filled m) := by
  unfold DockerEnvironment.filled
  dsimp only
  refine sameIte ?_ (sameIte ?_ (sameIte ?_ ?_)) <;> exact ⟨rfl,rfl⟩

theorem normalizeSame {m : CaseMap} {env' : DockerEnvironment} (done : env.Normalize m = .ok env') : Same env env' := by
  have filled := filledSame m env
  unfold DockerEnvironment.Normalize at done
  dsimp only at done
  cases url : (env.filled m).url with
  | error e =>
    rw [url] at done
    contradiction
  | ok text =>
    rw [url] at done
    have written : {env.filled m with hostURL := text} = env' := Except.ok.inj done
    subst written
    constructor
    · dsimp only
      exact filled.id
    · dsimp only
      exact filled.deletedAt

theorem connSame {m : CaseMap} {body : UpsertBody} {creating : Bool} {env' : DockerEnvironment}
    (done : upsertConn m body creating env = .ok env') : Same env env' := by
  unfold upsertConn at done
  dsimp only at done
  rcases okIte done with kept | given
  · rw [← Except.ok.inj kept]
    exact ⟨rfl,rfl⟩
  · rcases okIte given with known | unknown
    · rw [← Except.ok.inj known]
      exact ⟨rfl,rfl⟩
    · contradiction

theorem applySame {m : CaseMap} {sock : String} {body : UpsertBody} {creating : Bool} {env' : DockerEnvironment}
    (done : applyUpsert m sock env body creating = .ok env') : Same env env' := by
  rcases okIte done with unnamed | done
  · contradiction
  · obtain ⟨conn,connected,done⟩ := Fallible.bindOk.mp done
    obtain ⟨_,_,done⟩ := Fallible.bindOk.mp done
    have start := connSame connected
    have unix : Same conn (upsertUnix sock body creating conn) := sameIte ⟨rfl,rfl⟩ ⟨rfl,rfl⟩
    have ssh : Same conn (upsertSSH body (upsertUnix sock body creating conn)) := sameIte ⟨unix.id,unix.deletedAt⟩ unix
    have tls : Same conn (upsertTLS body (upsertSSH body (upsertUnix sock body creating conn))) := sameIte ⟨ssh.id,ssh.deletedAt⟩ ssh
    have whole := normalizeSame done
    exact ⟨whole.id.trans (tls.id.trans start.id),whole.deletedAt.trans (tls.deletedAt.trans start.deletedAt)⟩

/- At most one default, and after an error the one that was. -/
def Settled (s : Served) : Prop := (defaults s.table).Subsingleton ∧ (s.failed = true → defaults s.before ⊆ defaults s.table)

/- What else is the default. -/
def Others (t : DockerEnvironments) (id : Nat) : Prop := (defaults t \ {id}).Nonempty

/- A request that makes an environment the default while another one is: the statement that clears the
flags and the one that writes the row fail both or neither; one that sets the default alone does not
write where it has not cleared. -/
def Fair (m : CaseMap) (sock : String) (s : Served) : Request → Prop
  | .create k body => ∀ env, applyUpsert m sock blank body true = .ok env → env.isDefault = true → Others s.table s.table.drawn →
      (k.clear = true ↔ k.write = true ∨ ∃ row ∈ s.table.rows, row.name = env.name)
  | .update k id body => ∀ row env, load k s.table id = some row → applyUpsert m sock row body false = .ok env → env.isDefault = true →
      Others s.table id → (k.clear = true ↔ k.write = true ∨ ¬Free s.table env)
  | .activate k id => ∀ row, load k s.table id = some row → row.isDisabled = false → Others s.table id → k.clear = true → k.write = true
  | _ => True

/- Where the row of a new default is written, or not. -/
theorem finishHandover {w : Option DockerEnvironments} {e : Nat} (one : (defaults t).Subsingleton)
    (cleared : defaults u = if k.clear then defaults t else defaults t ∩ {e})
    (written : ∀ v, w = some v → defaults v = insert e (defaults u \ {e})) (s : Served) (same : s = ⟨(finish k u w).2,t,(finish k u w).1⟩) :
    Settled s ↔ (Others t e → (k.clear = true ↔ k.write = true ∨ w = none)) := by
  have whole := handover one e (!k.clear) (!k.write && w.isSome)
  have flags : (if (!k.clear) = true then defaults t ∩ {e} else defaults t) = defaults u := by
    rw [cleared]
    cases k.clear <;> rfl
  rw [flags] at whole
  subst same
  cases failed : k.write with
  | true =>
    rw [failed] at whole
    simp only [finish,failed,if_true,Settled,forall_const]
    simpa [Others] using whole
  | false =>
    rw [failed] at whole
    cases w with
    | none => simpa [finish,failed,Settled,Others] using whole
    | some v =>
      have after : defaults v = insert e (defaults u \ {e}) := written v rfl
      have answer : finish k u (some v) = (false,v) := by
        rw [finish,failed]
        rfl
      rw [answer,Settled,after]
      simpa [Others] using whole

def Answer.on (t : DockerEnvironments) (a : Answer) : Served := ⟨a.2,t,a.1⟩

theorem refusedSettled (one : (defaults t).Subsingleton) : Settled (Answer.on t (true,t)) := ⟨one,fun _ => subset_rfl⟩

theorem doneSettled (one : (defaults u).Subsingleton) : Settled (Answer.on t (false,u)) := ⟨one,fun failed => absurd failed Bool.false_ne_true⟩

/- A row that is no default is written, or not. -/
theorem finishPlain {w : Option DockerEnvironments} (one : (defaults t).Subsingleton)
    (fewer : ∀ v, w = some v → defaults v ⊆ defaults t) : Settled (Answer.on t (finish k t w)) := by
  unfold finish
  cases failed : k.write with
  | true => exact refusedSettled one
  | false =>
    cases w with
    | none => exact refusedSettled one
    | some v => exact doneSettled (one.anti (fewer v rfl))

theorem insertNone : t.insert env = none ↔ ∃ row ∈ t.rows, row.name = env.name := by
  rw [← Option.not_isSome_iff_eq_none,insertIff]
  push Not
  rfl

theorem updateNone : t.update env = none ↔ ¬Free t env := by
  rw [← Option.not_isSome_iff_eq_none,updateIff]

variable {m : CaseMap} {sock : String} {s : Served}

theorem createSettled {body : UpsertBody} (one : (defaults s.table).Subsingleton) :
    Settled (Answer.on s.table (createAPI m sock k body s.table)) ↔ Fair m sock s (.create k body) := by
  unfold createAPI Fair
  dsimp only
  cases applied : applyUpsert m sock blank body true with
  | error e => exact iff_of_true (refusedSettled one) (by rintro _ ⟨⟩)
  | ok env =>
    have live : env.deletedAt = false := (applySame applied).deletedAt
    simp only [Except.ok.injEq,forall_eq']
    cases flag : env.isDefault with
    | false =>
      rw [if_neg Bool.false_ne_true]
      refine iff_of_true (finishPlain one ?_) (fun other => absurd other Bool.false_ne_true)
      intro v done
      rw [defaultsInsert live done,flag]
      exact subset_rfl
    | true =>
      have low : defaults s.table ∩ {s.table.drawn} = ∅ := by
        ext x
        simp only [Set.mem_inter_iff,Set.mem_singleton_iff,Set.mem_empty_iff_false,iff_false,not_and]
        intro mem
        exact Nat.ne_of_lt (defaultsBounded mem)
      have cleared : defaults (clearDefault k (fun _ => true) s.table) = if k.clear then defaults s.table else defaults s.table ∩ {s.table.drawn} := by
        rw [low,defaultsCleared k (fun _ => true)]
        simp
      have drawn : (clearDefault k (fun _ => true) s.table).drawn = s.table.drawn := by
        unfold clearDefault
        split <;> rfl
      have fails : (∃ row ∈ s.table.rows, row.name = env.name) ↔ (clearDefault k (fun _ => true) s.table).insert env = none := by
        rw [← insertNone,← Option.not_isSome_iff_eq_none,← Option.not_isSome_iff_eq_none]
        unfold clearDefault
        split
        · exact Iff.rfl
        · rw [insertSet]
      have written : ∀ v, (clearDefault k (fun _ => true) s.table).insert env = some v →
          defaults v = insert s.table.drawn (defaults (clearDefault k (fun _ => true) s.table) \ {s.table.drawn}) := by
        intro v done
        have fresh : s.table.drawn ∉ defaults (clearDefault k (fun _ => true) s.table) := by
          rw [← drawn]
          exact fun mem => Nat.lt_irrefl _ (defaultsBounded mem)
        rw [defaultsInsert live done,flag,if_pos rfl,drawn,Set.sdiff_singleton_eq_self fresh]
      rw [if_pos rfl,fails]
      refine (finishHandover one cleared written _ rfl).trans ?_
      exact ⟨fun fair _ => fair,fun fair => fair rfl⟩

theorem clearedOthers (k : Faults) (t : DockerEnvironments) (id : Nat) :
    defaults (clearDefault k (fun other => other.id != id) t) = if k.clear then defaults t else defaults t ∩ {id} := by
  rw [defaultsCleared k (· != id)]
  congr 1
  ext x
  simp

theorem clearedFree : Free (clearDefault k p t) env ↔ Free t env := by
  unfold clearDefault
  split
  · exact Iff.rfl
  · exact freeSet t _ _ env

/- What clearing the flags leaves of a live row. -/
theorem clearedRow (mem : row ∈ t.rows) (live : row.deletedAt = false) :
    ∃ q ∈ (clearDefault k p t).rows, q.deletedAt = false ∧ q.id = row.id := by
  unfold clearDefault
  split
  · exact ⟨row,mem,live,rfl⟩
  · refine ⟨_,memSet.mpr ⟨row,mem,rfl⟩,?_,identOver (isDefault false) _ row⟩
    unfold Column.over
    split
    · exact live
    · exact live

theorem updateSettled {id : Nat} {body : UpsertBody} (one : (defaults s.table).Subsingleton) :
    Settled (Answer.on s.table (updateAPI m sock k id body s.table)) ↔ Fair m sock s (.update k id body) := by
  unfold updateAPI Fair
  dsimp only
  cases found : load k s.table id with
  | none => exact iff_of_true (refusedSettled one) (by rintro _ _ ⟨⟩)
  | some row =>
    obtain ⟨mem,alive,here⟩ := loaded found
    simp only [Option.some.injEq]
    cases applied : applyUpsert m sock row body false with
    | error e =>
      refine iff_of_true (refusedSettled one) ?_
      rintro _ _ rfl other
      rw [applied] at other
      cases other
    | ok env =>
      have same := applySame applied
      have number : env.id = id := same.id.trans here
      have live : env.deletedAt = false := same.deletedAt.trans alive
      have only (h : DockerEnvironment → Prop) : (∀ row' env', row = row' → applyUpsert m sock row' body false = .ok env' → h env') ↔ h env := by
        constructor
        · intro all
          exact all row env rfl applied
        · rintro fair _ _ rfl other
          rw [applied] at other
          rwa [← Except.ok.inj other]
      rw [only]
      subst number
      dsimp only
      cases flag : env.isDefault with
      | false =>
        rw [if_neg Bool.false_ne_true]
        refine iff_of_true (finishPlain one ?_) (fun other => absurd other Bool.false_ne_true)
        intro v done
        rw [defaultsUpdate mem alive same.id done,flag,if_neg (fun both => Bool.false_ne_true both.2)]
        exact Set.sdiff_subset
      | true =>
        have fails : ¬Free s.table env ↔ (clearDefault k (fun other => other.id != env.id) s.table).update env = none := by
          rw [updateNone,clearedFree]
        have written : ∀ v, (clearDefault k (fun other => other.id != env.id) s.table).update env = some v →
            defaults v = insert env.id (defaults (clearDefault k (fun other => other.id != env.id) s.table) \ {env.id}) := by
          intro v done
          obtain ⟨q,inside,still,nr⟩ := clearedRow (k := k) (p := fun other => other.id != env.id) mem alive
          rw [defaultsUpdate inside still (same.id.trans nr.symm) done,if_pos ⟨live,flag⟩]
        rw [if_pos rfl,fails]
        refine (finishHandover one (clearedOthers k s.table env.id) written _ rfl).trans ?_
        exact ⟨fun fair _ => fair,fun fair => fair rfl⟩

/- What the statement that deletes a row leaves. -/
theorem markGone (mem : row ∈ t.rows) (live : row.deletedAt = false) (done : t.update (schema.mark row) = some u) :
    defaults u = defaults t \ {row.id} := by
  have whole := defaultsUpdate mem live (show (schema.mark row).id = row.id from rfl) done
  rwa [if_neg (fun both => Bool.false_ne_true (both.1.symm.trans rfl))] at whole

theorem deleteSettled {id : Nat} (one : (defaults s.table).Subsingleton) : Settled (Answer.on s.table (deleteAPI k id s.table)) := by
  unfold deleteAPI finish
  cases found : load k s.table id with
  | none => exact refusedSettled one
  | some env =>
    obtain ⟨mem,alive,_⟩ := loaded found
    dsimp only
    cases k.write with
    | true => exact refusedSettled one
    | false =>
      rw [if_neg Bool.false_ne_true]
      cases done : s.table.update (schema.mark env) with
      | none => exact refusedSettled one
      | some u =>
        have gone := markGone mem alive done
        have still : (defaults u).Subsingleton := by
          rw [gone]
          exact one.anti Set.sdiff_subset
        dsimp only
        by_cases plain : env.isDefault = false ∨ k.next = true
        · rw [if_pos plain]
          exact doneSettled still
        · rw [if_neg plain]
          have flag : env.isDefault = true := by
            simpa using fun other => plain (.inl other)
          cases next : u.first (fun row => !row.isDisabled) with
          | none => exact doneSettled still
          | some row =>
            obtain ⟨inside,kept,_⟩ := firstSome next
            have none : defaults u = ∅ := by
              rw [gone,Set.sdiff_eq_empty]
              exact fun x held => one held ⟨env,mem,alive,flag,rfl⟩
            refine doneSettled ?_
            rw [defaultsSet inside kept rfl,none,insert_empty_eq]
            exact Set.subsingleton_singleton

theorem clearedAll (k : Faults) (t : DockerEnvironments) : defaults (clearDefault k (fun _ => true) t) = if k.clear then defaults t else ∅ := by
  rw [defaultsCleared k (fun _ => true)]
  congr 1
  ext x
  simp

theorem activateSettled {id : Nat} (one : (defaults s.table).Subsingleton) :
    Settled (Answer.on s.table (activateAPI k id s.table)) ↔ Fair m sock s (.activate k id) := by
  unfold activateAPI Fair
  dsimp only
  cases found : load k s.table id with
  | none => exact iff_of_true (refusedSettled one) (by rintro _ ⟨⟩)
  | some env =>
    obtain ⟨mem,alive,rfl⟩ := loaded found
    simp only [Option.some.injEq,forall_eq']
    cases env.isDisabled with
    | true => exact iff_of_true (refusedSettled one) (fun other => absurd other.symm Bool.false_ne_true)
    | false =>
      rw [if_neg Bool.false_ne_true]
      have cleared := clearedAll k s.table
      cases written : k.write with
      | true =>
        refine iff_of_true (doneSettled ?_) (fun _ _ _ => rfl)
        rw [if_pos rfl,cleared]
        split
        · exact one
        · exact Set.subsingleton_empty
      | false =>
        obtain ⟨q,inside,still,here⟩ := clearedRow (k := k) (p := fun _ => true) mem alive
        have after := defaultsSet inside still here
        rw [cleared] at after
        cases failed : k.clear with
        | false =>
          refine iff_of_true (doneSettled ?_) (fun _ _ other => absurd other Bool.false_ne_true)
          rw [if_neg Bool.false_ne_true,after,failed,if_neg Bool.false_ne_true,insert_empty_eq]
          exact Set.subsingleton_singleton
        | true =>
          rw [failed,if_pos rfl] at after
          have whole := handover one env.id false true
          simp only [if_true,Bool.false_eq_true,if_false,imp_false] at whole
          rw [Set.insert_sdiff_singleton,← after] at whole
          rw [if_neg Bool.false_ne_true]
          constructor
          · rintro ⟨settled,_⟩ _ others _
            exact absurd others (whole.mp settled)
          · intro fair
            exact doneSettled (whole.mpr (fun others => Bool.false_ne_true (fair rfl others rfl)))

theorem seedSettled {found : String → Bool} (one : (defaults s.table).Subsingleton) :
    Settled (Answer.on s.table (false,ensureDefaultLocal k sock found s.table)) := by
  refine doneSettled ?_
  unfold ensureDefaultLocal
  split
  · exact one
  · split
    · unfold reconcileDisabledLocalUnix
      split
      · exact one
      · split
        · exact one
        · dsimp only
          split
          · exact one
          · rw [defaultsBeside (fun _ => ⟨rfl,rfl⟩)]
            exact one
    · rename_i none
      have empty : defaults s.table = ∅ := by
        ext id
        refine iff_of_false ?_ (Set.notMem_empty id)
        rintro ⟨row,mem,live,_⟩
        exact none (List.length_pos_of_mem (memLive.mpr ⟨mem,live⟩))
      unfold finish
      cases k.write with
      | true => exact one
      | false =>
        rw [if_neg Bool.false_ne_true]
        cases done : s.table.insert (seededLocal sock (found sock)) with
        | none => exact one
        | some u =>
          dsimp only
          rw [defaultsInsert rfl done,if_pos (show (seededLocal sock (found sock)).isDefault = true from rfl),empty,insert_empty_eq]
          exact Set.subsingleton_singleton

/- What a single request does. -/
theorem stepSettled {s' : Served} {r : Request} (held : Settled s) (moved : step m sock s r = some s') : Settled s' ↔ Fair m sock s r := by
  have written : Answer.on s.table (r.answer m sock s.table) = s' := Option.some.inj moved
  subst written
  have one := held.1
  cases r with
  | create k body =>
    dsimp only [Request.answer]
    exact createSettled one
  | update k id body =>
    dsimp only [Request.answer]
    exact updateSettled one
  | delete k id =>
    dsimp only [Request.answer]
    exact iff_of_true (deleteSettled one) trivial
  | activate k id =>
    dsimp only [Request.answer]
    exact activateSettled one
  | seed k found =>
    dsimp only [Request.answer]
    exact iff_of_true (seedSettled one) trivial

/- From the empty table on each request leaves at most one default, and the one that was where it fails,
exactly as long as each request is fair. -/
theorem defaultKept (m : CaseMap) (sock : String) (rs : List Request) :
    (∀ n s, Runs.run (step m sock) opening (rs.take n) = some s → Settled s) ↔ Runs.Guided (step m sock) (Fair m sock) opening rs := by
  have start : Settled opening := by
    refine ⟨?_,fun failed => absurd failed Bool.false_ne_true⟩
    rintro _ ⟨_,⟨⟩,_⟩
  exact Runs.guidedIff (fun held moved => stepSettled held moved) (by rintro _ _ ⟨⟩) start

/- The name of the second one is taken. -/
def sameName : List Request :=
  let body : UpsertBody := {name := "Local", connType := "unix", isDefault := some true}
  [.create {} body,.create {} body]

theorem defaultCleared : ¬∀ (m : CaseMap) (sock : String) (rs : List Request) (n : Nat) (s : Served),
    Runs.run (step m sock) opening (rs.take n) = some s → Settled s := by
  intro always
  let flagged (t : DockerEnvironments) : List Nat := (t.rows.filter (fun row => !row.deletedAt && row.isDefault)).map DockerEnvironment.id
  have lost : (Runs.run (step ascii defaultSocket) opening (sameName.take 2)).map (fun s => (s.failed,flagged s.before,flagged s.table)) =
      some (true,[0],[]) := by
    decide
  have flags (t : DockerEnvironments) (id : Nat) : id ∈ flagged t ↔ id ∈ defaults t := by
    simp [flagged,defaults,and_assoc]
  obtain ⟨s,ran,after⟩ := Option.map_eq_some_iff.mp lost
  obtain ⟨failed,before,table⟩ : s.failed = true ∧ flagged s.before = [0] ∧ flagged s.table = [] := by
    simpa using after
  have kept := (always ascii defaultSocket sameName 2 s ran).2 failed ((flags s.before 0).mp (before ▸ List.mem_singleton_self 0))
  rw [← flags,table] at kept
  contradiction

end ContainerWS.Docker.Environments
