import ContainerWS.Runs
import Mathlib.Data.List.Range
import Mathlib.Data.List.Nodup
import Mathlib.Data.Prod.Basic

/-! A loop that hands out the indices of a list to workers, each of which answers one at a time in the place of its index. When the whole is
cancelled the workers skip what they still get, and the loop may stop. Nothing is fair: every list of events is a schedule. -/
namespace FanOut
open Runs

/- A worker waits, has got an index, or is at work on it. -/
inductive Hand where
  | waiting
  | got (i : Nat)
  | working (i : Nat)
  deriving DecidableEq, Repr

def Hand.index : Hand → Option Nat
  | .waiting => none
  | .got i => some i
  | .working i => some i

inductive Event (β : Type) where
  | cancel
  | take (w : Nat)
  | stop
  | look (w : Nat)
  | answer (w : Nat) (b : β)
  deriving DecidableEq, Repr

/- The answers are a record of what was answered; no step reads it. -/
structure State (β : Type) where
  fed : Nat
  stopped : Bool
  cancelled : Bool
  hands : List Hand
  outcomes : List (Option β)
  answers : List (Nat × β)
  deriving DecidableEq, Repr

variable {β : Type}

def begin (workers n : Nat) : State β := ⟨0,false,false,List.replicate workers .waiting,List.replicate n none,[]⟩

variable (n : Nat) (skipped : β)

def step (s : State β) : Event β → Option (State β)
  | .cancel => some { s with cancelled := true }
  | .take w =>
    if s.stopped = false ∧ s.fed < n ∧ s.hands[w]? = some .waiting then
      some { s with fed := s.fed + 1, hands := s.hands.set w (.got s.fed) }
    else none
  | .stop => if s.stopped = false ∧ s.cancelled = true ∧ s.fed < n then some { s with stopped := true } else none
  | .look w =>
    match s.hands[w]? with
    | some (.got i) =>
      if s.cancelled = true then some { s with hands := s.hands.set w .waiting, outcomes := s.outcomes.set i (some skipped) }
      else some { s with hands := s.hands.set w (.working i) }
    | _ => none
  | .answer w b =>
    match s.hands[w]? with
    | some (.working i) =>
      some { s with hands := s.hands.set w .waiting, outcomes := s.outcomes.set i (some b), answers := s.answers ++ [(i,b)] }
    | _ => none

/- All workers are back, and the loop hands nothing out any more. -/
def Joined (s : State β) : Prop := (s.fed = n ∨ s.stopped = true) ∧ ∀ h ∈ s.hands, h = .waiting

instance (s : State β) : Decidable (Joined n s) := inferInstanceAs (Decidable (_ ∧ _))

def Holds (s : State β) (w i : Nat) : Prop := ∃ h, s.hands[w]? = some h ∧ h.index = some i

/- Every index is still to be handed out, in one hand, or answered; and what is answered was so once. -/
structure Sound (s : State β) : Prop where
  places : s.outcomes.length = n
  fed : s.fed ≤ n
  stops : s.stopped = true → s.cancelled = true
  ahead : ∀ i, s.fed ≤ i → i < n → s.outcomes[i]? = some none
  held : ∀ w i, Holds s w i → i < s.fed ∧ s.outcomes[i]? = some none
  apart : ∀ w v i, Holds s w i → Holds s v i → w = v
  left : ∀ i, i < s.fed → s.outcomes[i]? = some none → ∃ w, Holds s w i
  told : ∀ i b, (i,b) ∈ s.answers → s.outcomes[i]? = some (some b)
  known : s.cancelled = false → ∀ i b, s.outcomes[i]? = some (some b) → (i,b) ∈ s.answers
  once : (s.answers.map Prod.fst).Nodup

variable {n} {skipped}

theorem beginSound (workers : Nat) : Sound n (begin workers n : State β) := by
  have idle {w i : Nat} : ¬Holds (begin workers n : State β) w i := by
    rintro ⟨h,there,index⟩
    have waits : h = .waiting := List.eq_of_mem_replicate (List.mem_of_getElem? there)
    rw [waits] at index
    cases index
  have blank {i : Nat} {b : β} : ¬(begin workers n : State β).outcomes[i]? = some (some b) := by
    intro there
    have empty := List.eq_of_mem_replicate (List.mem_of_getElem? there)
    cases empty
  exact {
    places := List.length_replicate
    fed := Nat.zero_le n
    stops := fun no => by cases no
    ahead := fun i _ inside => by simp [begin,inside]
    held := fun w i holds => absurd holds idle
    apart := fun w v i holds => absurd holds idle
    left := fun i none => absurd none (Nat.not_lt_zero i)
    told := fun i b mem => by cases mem
    known := fun _ i b there => absurd there blank
    once := List.nodup_nil }

/- The hands after one of them has changed. -/
theorem holdsSet {s t : State β} {w : Nat} {h : Hand} {old : Hand} (there : s.hands[w]? = some old) (hands : t.hands = s.hands.set w h)
    {v i : Nat} : Holds t v i ↔ if v = w then h.index = some i else Holds s v i := by
  have inside : w < s.hands.length := (List.getElem?_eq_some_iff.mp there).1
  unfold Holds
  rw [hands]
  by_cases same : v = w
  · rw [if_pos same,same,List.getElem?_set_self inside]
    constructor
    · rintro ⟨k,here,index⟩
      cases here
      exact index
    · exact fun index => ⟨h,rfl,index⟩
  · rw [if_neg same,List.getElem?_set_ne (Ne.symm same)]

theorem takeSound {s : State β} (sound : Sound n s) {w : Nat} (more : s.fed < n) (there : s.hands[w]? = some .waiting) :
    Sound n { s with fed := s.fed + 1, hands := s.hands.set w (.got s.fed) } := by
  have holds {v i : Nat} := holdsSet (t := { s with fed := s.fed + 1, hands := s.hands.set w (.got s.fed) }) there rfl (v := v) (i := i)
  have fresh {v : Nat} : ¬Holds s v s.fed := fun old => absurd (sound.held v s.fed old).1 (Nat.lt_irrefl _)
  refine { sound with fed := more, ahead := ?_, held := ?_, apart := ?_, left := ?_ }
  · exact fun i later inside => sound.ahead i (Nat.le_of_succ_le later) inside
  · intro v i here
    rw [holds] at here
    split at here
    · cases here
      exact ⟨Nat.lt_succ_self _,sound.ahead _ (Nat.le_refl _) more⟩
    · obtain ⟨before,none⟩ := sound.held v i here
      exact ⟨Nat.lt_succ_of_lt before,none⟩
  · intro v u i first second
    rw [holds] at first second
    split at first
    · split at second
      · omega
      · cases first
        exact absurd second fresh
    · split at second
      · cases second
        exact absurd first fresh
      · exact sound.apart v u i first second
  · intro i before none
    by_cases new : i = s.fed
    · exact ⟨w,holds.mpr (by rw [if_pos rfl,new]; rfl)⟩
    · obtain ⟨v,here⟩ := sound.left i (by change i < s.fed + 1 at before; omega) none
      refine ⟨v,holds.mpr ?_⟩
      rw [if_neg]
      · exact here
      · rintro rfl
        obtain ⟨h,found,index⟩ := here
        rw [there] at found
        cases found
        cases index

/- A worker that goes on with its index. -/
theorem workSound {s : State β} (sound : Sound n s) {w i : Nat} (there : s.hands[w]? = some (.got i)) :
    Sound n { s with hands := s.hands.set w (.working i) } := by
  have same {v j : Nat} : Holds { s with hands := s.hands.set w (.working i) } v j ↔ Holds s v j := by
    rw [holdsSet there rfl]
    split
    · rename_i own
      rw [own]
      constructor
      · exact fun index => ⟨.got i,there,index⟩
      · rintro ⟨h,found,index⟩
        rw [there] at found
        cases found
        exact index
    · rfl
  refine { sound with held := ?_, apart := ?_, left := ?_ }
  · exact fun v j here => sound.held v j (same.mp here)
  · exact fun v u j first second => sound.apart v u j (same.mp first) (same.mp second)
  · intro j before none
    obtain ⟨v,here⟩ := sound.left j before none
    exact ⟨v,same.mpr here⟩

/- A worker that puts something in the place of its index, which is an answer unless all is cancelled. -/
theorem storeSound {s : State β} (sound : Sound n s) {w i : Nat} {b : β} {old : Hand} (there : s.hands[w]? = some old)
    (index : old.index = some i) {answers : List (Nat × β)}
    (told : s.cancelled = true ∧ answers = s.answers ∨ answers = s.answers ++ [(i,b)]) :
    Sound n { s with hands := s.hands.set w .waiting, outcomes := s.outcomes.set i (some b), answers := answers } := by
  have own : Holds s w i := ⟨old,there,index⟩
  obtain ⟨before,none⟩ := sound.held w i own
  have inside : i < s.outcomes.length := (List.getElem?_eq_some_iff.mp none).1
  have holds {v j : Nat} := holdsSet (t := { s with
    hands := s.hands.set w .waiting, outcomes := s.outcomes.set i (some b), answers := answers }) there rfl (v := v) (i := j)
  have other {v j : Nat} (here : Holds { s with
      hands := s.hands.set w .waiting, outcomes := s.outcomes.set i (some b), answers := answers } v j) : v ≠ w ∧ Holds s v j := by
    rw [holds] at here
    split at here
    · cases here
    · rename_i apart
      exact ⟨apart,here⟩
  have away {v j : Nat} (apart : v ≠ w) (here : Holds s v j) : i ≠ j := by
    rintro rfl
    exact apart (sound.apart v w i here own)
  -- What was told before is not about this index.
  have untold (c : β) : (i,c) ∉ s.answers := by
    intro mem
    have there := sound.told i c mem
    rw [none] at there
    cases there
  refine { sound with places := ?_, ahead := ?_, held := ?_, apart := ?_, left := ?_, told := ?_, known := ?_, once := ?_ }
  · rw [List.length_set]
    exact sound.places
  · intro j later bound
    have apart : i ≠ j := Nat.ne_of_lt (Nat.lt_of_lt_of_le before later)
    rw [List.getElem?_set_ne apart]
    exact sound.ahead j later bound
  · intro v j here
    obtain ⟨apart,here⟩ := other here
    rw [List.getElem?_set_ne (away apart here)]
    exact sound.held v j here
  · exact fun v u j first second => sound.apart v u j (other first).2 (other second).2
  · intro j early none'
    have apart : i ≠ j := by
      rintro rfl
      rw [List.getElem?_set_self inside] at none'
      cases none'
    rw [List.getElem?_set_ne apart] at none'
    obtain ⟨v,here⟩ := sound.left j early none'
    refine ⟨v,holds.mpr ?_⟩
    rw [if_neg]
    · exact here
    · rintro rfl
      obtain ⟨h,found,index'⟩ := here
      rw [there] at found
      cases found
      rw [index] at index'
      exact apart (Option.some.inj index')
  · intro j c mem
    have old' (mem : (j,c) ∈ s.answers) : (s.outcomes.set i (some b))[j]? = some (some c) := by
      rw [List.getElem?_set_ne]
      · exact sound.told j c mem
      · rintro rfl
        exact untold c mem
    rcases told with ⟨-,same⟩ | more
    · exact old' (same ▸ mem)
    · rw [more] at mem
      rcases List.mem_append.mp mem with mem | new
      · exact old' mem
      · cases List.mem_singleton.mp new
        exact List.getElem?_set_self inside
  · intro calm j c here
    rcases told with ⟨cancelled,-⟩ | more
    · rw [show s.cancelled = false from calm] at cancelled
      cases cancelled
    · rw [more]
      by_cases same : i = j
      · rw [← same,List.getElem?_set_self inside] at here
        cases here
        exact List.mem_append_right _ (same ▸ List.mem_singleton_self _)
      · rw [List.getElem?_set_ne same] at here
        exact List.mem_append_left _ (sound.known calm j c here)
  · rcases told with ⟨-,same⟩ | more
    · rw [same]
      exact sound.once
    · rw [more,List.map_append,List.map_singleton,List.nodup_append]
      refine ⟨sound.once,List.nodup_singleton _,?_⟩
      rintro a mem c last rfl
      rw [List.mem_singleton] at last
      obtain ⟨⟨j,d⟩,inside,rfl⟩ := List.mem_map.mp mem
      have same : j = i := last
      exact untold d (same ▸ inside)

theorem stepSound {s t : State β} (sound : Sound n s) {e : Event β} (stepped : step n skipped s e = some t) : Sound n t := by
  cases e with
  | cancel =>
    cases stepped
    exact { sound with stops := fun _ => rfl, known := fun no => by cases no }
  | take w =>
    dsimp only [step] at stepped
    split at stepped
    · rename_i ready
      cases stepped
      exact takeSound sound ready.2.1 ready.2.2
    · cases stepped
  | stop =>
    dsimp only [step] at stepped
    split at stepped
    · rename_i ready
      cases stepped
      exact { sound with stops := fun _ => ready.2.1 }
    · cases stepped
  | look w =>
    dsimp only [step] at stepped
    split at stepped
    · rename_i i there
      split at stepped
      · rename_i cancelled
        cases stepped
        exact storeSound sound there rfl (.inl ⟨cancelled,rfl⟩)
      · cases stepped
        exact workSound sound there
    · cases stepped
  | answer w b =>
    dsimp only [step] at stepped
    split at stepped
    · rename_i i there
      cases stepped
      exact storeSound sound there rfl (.inr rfl)
    · cases stepped

theorem runSound {es : List (Event β)} {s t : State β} (sound : Sound n s) (ran : run (step n skipped) s es = some t) : Sound n t :=
  runKeeps (fun sound stepped => stepSound sound stepped) sound ran

theorem allSome {α : Type} {l : List (Option α)} (filled : none ∉ l) : ∃ rs : List α, l = rs.map some := by
  induction l with
  | nil => exact ⟨[],rfl⟩
  | cons o l ih =>
    obtain ⟨rs,rfl⟩ := ih fun mem => filled (List.mem_cons_of_mem _ mem)
    cases o with
    | none => exact absurd List.mem_cons_self filled
    | some a => exact ⟨a :: rs,rfl⟩

/- When all is joined and nothing was cancelled, each place has the one answer that was given for it. -/
theorem joinedTold {s : State β} (sound : Sound n s) (joined : Joined n s) (calm : s.cancelled = false) :
    ∃ rs : List β, s.outcomes = rs.map some ∧ rs.length = n ∧ s.answers.Perm (rs.zipIdx.map Prod.swap) := by
  have fed : s.fed = n := by
    rcases joined.1 with all | stopped
    · exact all
    · rw [sound.stops stopped] at calm
      cases calm
  have filled : none ∉ s.outcomes := by
    intro mem
    obtain ⟨i,none⟩ := List.mem_iff_getElem?.mp mem
    have inside : i < s.fed := by
      rw [fed,← sound.places]
      exact (List.getElem?_eq_some_iff.mp none).1
    obtain ⟨w,h,there,index⟩ := sound.left i inside none
    rw [joined.2 h (List.mem_of_getElem? there)] at index
    cases index
  obtain ⟨rs,shape⟩ := allSome filled
  have length : rs.length = n := by
    have places := sound.places
    rw [shape,List.length_map] at places
    exact places
  refine ⟨rs,shape,length,(List.perm_ext_iff_of_nodup sound.once.of_map ?_).mpr ?_⟩
  · refine List.Nodup.map Prod.swap_injective (List.Nodup.of_map Prod.snd ?_)
    rw [List.zipIdx_map_snd]
    exact List.nodup_range' _
  · rintro ⟨i,b⟩
    have place : s.outcomes[i]? = some (some b) ↔ rs[i]? = some b := by
      rw [shape,List.getElem?_map]
      cases rs[i]? <;> simp
    have told : (i,b) ∈ s.answers ↔ rs[i]? = some b := by
      rw [← place]
      exact ⟨sound.told i b,sound.known calm i b⟩
    rw [told,List.mem_map]
    constructor
    · exact fun here => ⟨(b,i),List.mk_mem_zipIdx_iff_getElem?.mpr here,rfl⟩
    · rintro ⟨⟨c,j⟩,mem,same⟩
      cases same
      exact List.mk_mem_zipIdx_iff_getElem?.mp mem

/-! What is still to be done. -/
def Hand.weight : Hand → Nat
  | .waiting => 0
  | .got _ => 2
  | .working _ => 1

def weights : List Hand → Nat
  | [] => 0
  | h :: hs => h.weight + weights hs

def remaining (n : Nat) (s : State β) : Nat := 3 * (n - s.fed) + weights s.hands + if s.stopped then 0 else 1

theorem weightsSet {hs : List Hand} {w : Nat} {old h : Hand} (there : hs[w]? = some old) :
    weights (hs.set w h) + old.weight = weights hs + h.weight := by
  induction hs generalizing w with
  | nil => cases there
  | cons k hs ih =>
    cases w with
    | zero =>
      cases there
      simp only [List.set_cons_zero,weights]
      omega
    | succ w =>
      have rest := ih (w := w) there
      simp only [List.set_cons_succ,weights]
      omega

/- But for the cancelling every step leaves less to do. -/
theorem stepRemaining {s t : State β} {e : Event β} (stepped : step n skipped s e = some t) (other : e ≠ .cancel) :
    remaining n t < remaining n s := by
  cases e with
  | cancel => exact absurd rfl other
  | take w =>
    dsimp only [step] at stepped
    split at stepped
    · rename_i ready
      cases stepped
      have change := weightsSet (h := .got s.fed) ready.2.2
      simp only [Hand.weight] at change
      simp only [remaining]
      omega
    · cases stepped
  | stop =>
    dsimp only [step] at stepped
    split at stepped
    · rename_i ready
      cases stepped
      simp only [remaining,ready.1]
      simp
    · cases stepped
  | look w =>
    dsimp only [step] at stepped
    split at stepped
    · rename_i i there
      have back := weightsSet (h := .waiting) there
      have on := weightsSet (h := .working i) there
      simp only [Hand.weight] at back on
      split at stepped
      · cases stepped
        simp only [remaining]
        omega
      · cases stepped
        simp only [remaining]
        omega
    · cases stepped
  | answer w b =>
    dsimp only [step] at stepped
    split at stepped
    · rename_i i there
      cases stepped
      have back := weightsSet (h := .waiting) there
      simp only [Hand.weight] at back
      simp only [remaining]
      omega
    · cases stepped

variable (skipped) in
/- With a worker there is always a step to take until all is joined. -/
theorem stepReady {s : State β} (manned : s.hands ≠ []) (open' : ¬Joined n s) (fed : s.fed ≤ n) :
    ∃ e t, e ≠ .cancel ∧ step n skipped s e = some t := by
  by_cases idle : ∀ h ∈ s.hands, h = .waiting
  · have more : ¬(s.fed = n ∨ s.stopped = true) := fun ends => open' ⟨ends,idle⟩
    rw [not_or] at more
    have going : s.stopped = false := Bool.eq_false_iff.mpr more.2
    have first : s.hands[0]? = some .waiting := by
      cases hands : s.hands with
      | nil => exact absurd hands manned
      | cons h rest =>
        rw [idle h (by rw [hands]; exact List.mem_cons_self)]
        rfl
    exact ⟨.take 0,_,by simp,if_pos ⟨going,by omega,first⟩⟩
  · have busy : ∃ h ∈ s.hands, h ≠ .waiting := by
      by_contra none
      exact idle fun h mem => by_contra fun other => none ⟨h,mem,other⟩
    obtain ⟨h,mem,busy⟩ := busy
    obtain ⟨w,there⟩ := List.mem_iff_getElem?.mp mem
    cases h with
    | waiting => exact absurd rfl busy
    | got i =>
      cases cancelled : s.cancelled with
      | true => exact ⟨.look w,_,by simp,by simp only [step,there,cancelled]; rfl⟩
      | false => exact ⟨.look w,_,by simp,by simp only [step,there,cancelled]; rfl⟩
    | working i => exact ⟨.answer w skipped,_,by simp,by simp only [step,there]; rfl⟩

theorem handsLength {s t : State β} {e : Event β} (stepped : step n skipped s e = some t) : t.hands.length = s.hands.length := by
  unfold step at stepped
  split at stepped
  all_goals
    repeat' split at stepped
    all_goals
      cases stepped
      try simp

theorem runHands {es : List (Event β)} {s t : State β} (ran : run (step n skipped) s es = some t) :
    t.hands.length = s.hands.length := by
  have keep {u v : State β} {e : Event β} (same : u.hands.length = s.hands.length) (stepped : step n skipped u e = some v) :
      v.hands.length = s.hands.length := (handsLength stepped).trans same
  exact runKeeps (fun same stepped => keep same stepped) rfl ran

theorem beginRemaining (workers n : Nat) : remaining n (begin workers n : State β) = 3 * n + 1 := by
  have idle : ∀ k, weights (List.replicate k .waiting) = 0 := by
    intro k
    induction k with
    | zero => rfl
    | succ k ih => simp only [List.replicate_succ,weights,ih,Hand.weight]
  simp [remaining,begin,idle]

/- A schedule has only so many steps. -/
theorem runRemaining [DecidableEq β] {es : List (Event β)} {s t : State β} (ran : run (step n skipped) s es = some t) :
    (es.filter (· ≠ .cancel)).length + remaining n t ≤ remaining n s := by
  induction es generalizing s with
  | nil =>
    cases ran
    simp
  | cons e es ih =>
    unfold run at ran
    split at ran
    · cases ran
    · rename_i u stepped
      have rest := ih ran
      by_cases cancels : e = .cancel
      · rw [cancels] at stepped
        cases stepped
        rw [cancels,List.filter_cons_of_neg (by simp)]
        exact rest
      · have less := stepRemaining stepped cancels
        rw [List.filter_cons_of_pos (by simpa using cancels),List.length_cons]
        omega

variable (skipped) in
/- Every schedule can be carried on until all is joined. -/
theorem runJoins {s : State β} (manned : s.hands ≠ []) (sound : Sound n s) : ∃ es t, run (step n skipped) s es = some t ∧ Joined n t := by
  induction left : remaining n s using Nat.strong_induction_on generalizing s with
  | _ left ih =>
    by_cases joined : Joined n s
    · exact ⟨[],s,rfl,joined⟩
    · obtain ⟨e,t,other,stepped⟩ := stepReady skipped manned joined sound.fed
      have manned' : t.hands ≠ [] := by
        rw [← List.length_pos_iff_ne_nil,handsLength stepped,List.length_pos_iff_ne_nil]
        exact manned
      obtain ⟨es,u,ran,joins⟩ := ih _ (left ▸ stepRemaining stepped other) manned' (stepSound sound stepped) rfl
      exact ⟨e :: es,u,by rw [runNext stepped]; exact ran,joins⟩

end FanOut
