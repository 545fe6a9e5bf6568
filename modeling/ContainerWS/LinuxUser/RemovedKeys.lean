import ContainerWS.LinuxUser.AuthorizedKeys

/-! What RemoveAuthorizedKey leaves in authorized_keys. Only lines that count as keys are written
again, each without the blanks around it. -/
namespace ContainerWS.LinuxUser
open GoStrings TextRows

/- The lines without the one of the `i`-th key. -/
def dropKey : Nat → List String → List String
  | _,[] => []
  | i,line :: rest =>
    if isKey (trimSpace line) then
      match i with
      | 0 => rest
      | i+1 => line :: dropKey i rest
    else line :: dropKey i rest

def renumbered (keys : List AuthorizedKey) : List AuthorizedKey := keys.mapIdx (fun i k => {k with index := i})

/- The keys are those before without the `i`-th, and so are the lines. -/
def Removes {P : Type} (ssh : Ssh P) (file after : Option String) (i : Nat) : Prop :=
  readAuthorizedKeys ssh (after.getD "") = renumbered ((readAuthorizedKeys ssh (file.getD "")).eraseIdx i) ∧
    stdinLines (after.getD "") = dropKey i (stdinLines (file.getD ""))

theorem keysOf (raw : String) : keyLines raw = ((stdinLines raw).map trimSpace).filter isKey := by
  unfold keyLines stdinLines
  dsimp only
  split
  · rename_i last
    obtain ⟨init,parts⟩ := List.getLast?_eq_some_iff.mp last
    have blank : isKey (trimSpace "") = false := by decide
    rw [parts,List.dropLast_concat,List.map_append,List.filter_append,List.map_singleton,
      List.filter_cons_of_neg (by simp [blank]),List.filter_nil,List.append_nil]
  · rfl

theorem dropKeyLines : ∀ (i : Nat) (lines : List String), ((dropKey i lines).map trimSpace).filter isKey =
    ((lines.map trimSpace).filter isKey).eraseIdx i
  | _,[] => by simp [dropKey]
  | i,line :: rest => by
    unfold dropKey
    by_cases key : isKey (trimSpace line) = true
    · rw [if_pos key,List.map_cons,List.filter_cons_of_pos key]
      cases i with
      | zero => rw [List.eraseIdx_cons_zero]
      | succ i =>
        rw [List.map_cons,List.filter_cons_of_pos key,List.eraseIdx_cons_succ]
        exact congrArg (trimSpace line :: ·) (dropKeyLines i rest)
    · rw [if_neg key,List.map_cons,List.filter_cons_of_neg key,List.map_cons,List.filter_cons_of_neg key]
      exact dropKeyLines i rest

/- The lines of a text that keys are written in. -/
theorem writtenLines {kept : List String} (lines : ∀ l ∈ kept, '\n' ∉ l.toList) :
    stdinLines (if kept ≠ [] then join '\n' kept ++ "\n" else "") = kept := by
  by_cases none : kept = []
  · rw [if_neg (not_not_intro none),none]
    decide
  · rw [if_pos none,linesFed,splitJoin none lines]

theorem writtenKeys {kept : List String} (lines : ∀ l ∈ kept, '\n' ∉ l.toList ∧ trimSpace l = l ∧ isKey l = true) :
    keyLines (if kept ≠ [] then join '\n' kept ++ "\n" else "") = kept := by
  rw [keysOf,writtenLines (fun l mem => (lines l mem).1),List.map_congr_left (fun l mem => (lines l mem).2.1),List.map_id'',
    List.filter_eq_self.mpr (fun l mem => (lines l mem).2.2)]
  exact fun _ => rfl

section
variable {P : Type} {ssh : Ssh P} {h : KeyHost} {file after : Option String} {index : Int} {keys : List AuthorizedKey}

theorem linesErased (raw : String) (i : Nat) :
    ((readAuthorizedKeys ssh raw).eraseIdx i).map AuthorizedKey.line = (keyLines raw).eraseIdx i := by
  rw [List.eraseIdx_eq_take_drop_succ,List.eraseIdx_eq_take_drop_succ,List.map_append,List.map_take,List.map_drop,linesRead]

theorem entrySelf {raw : String} {k : AuthorizedKey} (mem : k ∈ readAuthorizedKeys ssh raw) : k = entry ssh k.index k.line := by
  obtain ⟨i,here,rfl⟩ := List.mem_mapIdx.mp mem
  have place : (entry ssh i (keyLines raw)[i]).index = i := by
    unfold entry
    split <;> rfl
  rw [entryLine,place]

theorem entryRenumbered (i j : Nat) (line : String) : {entry ssh i line with index := j} = entry ssh j line := by
  unfold entry
  split <;> rfl

theorem renumberedRead {kept : List AuthorizedKey} (read : ∀ k ∈ kept, k = entry ssh k.index k.line) :
    renumbered kept = (kept.map AuthorizedKey.line).mapIdx (entry ssh) := by
  apply List.ext_getElem?
  intro i
  rw [renumbered,List.getElem?_mapIdx,List.getElem?_mapIdx,List.getElem?_map,Option.map_map]
  cases here : kept[i]? with
  | none => rfl
  | some k =>
    have same := read k (List.mem_of_getElem? here)
    exact congrArg some ((congrArg (fun k : AuthorizedKey => {k with index := i}) same).trans (entryRenumbered _ i _))

/- A request that succeeds has written the lines of the other keys. -/
theorem removeWrote (removed : RemoveAuthorizedKey ssh h file index = (after,.ok keys)) : ∃ raw, file = some raw ∧
    0 ≤ index ∧ index < (readAuthorizedKeys ssh raw).length ∧
    after = some (if (keyLines raw).eraseIdx index.toNat ≠ [] then join '\n' ((keyLines raw).eraseIdx index.toNat) ++ "\n" else "") := by
  unfold RemoveAuthorizedKey at removed
  split at removed
  · cases removed
  · split at removed
    · cases removed
    · rename_i raw
      split at removed
      · cases removed
      · dsimp only at removed
        split at removed
        · cases removed
        · rename_i inside
          rw [not_or,Int.not_lt,Int.not_le] at inside
          refine ⟨raw,rfl,inside.1,inside.2,?_⟩
          rw [linesErased] at removed
          split at removed
          · cases removed
          · split at removed
            · cases removed
            · rename_i whole
              have all : h.wrote = none := by simpa using whole
              have same := congrArg Prod.fst removed
              simpa only [KeyHost.written,all] using same.symm

theorem removesIff (removed : RemoveAuthorizedKey ssh h file index = (after,.ok keys)) :
    Removes ssh file after index.toNat ↔
      ∀ l ∈ dropKey index.toNat (stdinLines (file.getD "")), isKey l = true ∧ trimSpace l = l := by
  obtain ⟨raw,rfl,_,_,rfl⟩ := removeWrote removed
  have kept : ∀ l ∈ (keyLines raw).eraseIdx index.toNat, '\n' ∉ l.toList ∧ trimSpace l = l ∧ isKey l = true :=
    fun l mem => keyLinesMem ((List.eraseIdx_sublist _ _).subset mem)
  have read : readAuthorizedKeys ssh (if (keyLines raw).eraseIdx index.toNat ≠ [] then
        join '\n' ((keyLines raw).eraseIdx index.toNat) ++ "\n" else "") =
      renumbered ((readAuthorizedKeys ssh raw).eraseIdx index.toNat) := by
    rw [renumberedRead (fun k mem => entrySelf ((List.eraseIdx_sublist _ _).subset mem)),linesErased,
      readAuthorizedKeys,writtenKeys kept]
  have others := dropKeyLines index.toNat (stdinLines raw)
  rw [← keysOf] at others
  rw [Removes,Option.getD_some,Option.getD_some,writtenLines (fun l mem => (kept l mem).1),← others]
  constructor
  · rintro ⟨_,same⟩ l mem
    rw [← same,others] at mem
    exact ⟨(kept l mem).2.2,(kept l mem).2.1⟩
  · intro tidy
    refine ⟨others ▸ read,?_⟩
    rw [List.map_congr_left (fun l mem => (tidy l mem).2),List.map_id'',
      List.filter_eq_self.mpr (fun l mem => (tidy l mem).1)]
    exact fun _ => rfl

end

/- A parser that knows no key. -/
def noSsh : Ssh Unit := ⟨fun _ => none,fun _ => "",fun _ => "",fun _ => ""⟩

theorem removesIffFirst : ∃ after, (∃ keys, RemoveAuthorizedKey noSsh {} (some "a\nb\n") 0 = (after,.ok keys)) ∧
    Removes noSsh (some "a\nb\n") after 0 := by
  have removed : RemoveAuthorizedKey noSsh {} (some "a\nb\n") 0 = (some "b\n",.ok [⟨0,"b","","(unrecognized key line)",[],"b"⟩]) := by
    decide
  exact ⟨_,⟨_,removed⟩,(removesIff removed).mpr (by decide)⟩

/- The first line of the file says whose key the second is. -/
theorem commentLost : ∃ after, (∃ keys, RemoveAuthorizedKey noSsh {} (some "# bob\nb\na\n") 1 = (after,.ok keys)) ∧
    ¬ Removes noSsh (some "# bob\nb\na\n") after 1 := by
  have removed : RemoveAuthorizedKey noSsh {} (some "# bob\nb\na\n") 1 =
      (some "b\n",.ok [⟨0,"b","","(unrecognized key line)",[],"b"⟩]) := by
    decide
  refine ⟨_,⟨_,removed⟩,?_⟩
  rintro ⟨_,lines⟩
  revert lines
  decide

end ContainerWS.LinuxUser
