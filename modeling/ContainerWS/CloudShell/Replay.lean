import ContainerWS.CloudShell.Sessions

/-! What a client that resumes is sent first: the Snapshot of the byteRing of modules/cloudshell/sessions.go. -/
namespace ContainerWS.CloudShell

/- `copy` into a slice from some place on: what does not fit is left out. -/
def copyAt (dst : Bytes) (at_ : Nat) (src : Bytes) : Bytes :=
  dst.take at_ ++ src.take (dst.length-at_) ++ dst.drop (at_+src.length)

/- A slice is none where the code returns nil. -/
def Snapshot {size : Nat} (r : RingBuffer UInt8 size) : Option Bytes :=
  if !r.full && r.pos == 0 then none
  else if !r.full then some (copyAt (List.replicate r.pos 0) 0 (r.cells.take r.pos))
  else some (copyAt (copyAt (List.replicate size 0) 0 (r.cells.drop r.pos)) (size-r.pos) (r.cells.take r.pos))

/- The bytes of a slice; nil has none. -/
def slice (s : Option Bytes) : Bytes := s.getD []

theorem copyOver {dst src : Bytes} (same : src.length = dst.length) : copyAt dst 0 src = src := by
  rw [copyAt,List.take_zero,List.nil_append,Nat.sub_zero,Nat.zero_add,same,List.drop_length,List.append_nil,← same,List.take_length]

/- Two slices that fill another one. -/
theorem copyTwice {dst one two : Bytes} (whole : one.length+two.length = dst.length) :
    copyAt (copyAt dst 0 one) one.length two = one ++ two := by
  have first : copyAt dst 0 one = one ++ dst.drop one.length := by
    rw [copyAt,List.take_zero,List.nil_append,Nat.sub_zero,Nat.zero_add,List.take_of_length_le (by omega)]
  have rest : (dst.drop one.length).length = two.length := by rw [List.length_drop]; omega
  have all : one.length+two.length = (one ++ dst.drop one.length).length := by rw [List.length_append,rest]
  rw [first,copyAt,List.take_left,all,List.drop_length,← all,Nat.add_sub_cancel_left,List.take_length,List.append_nil]

/- The copies give what is from the oldest byte on, and then what is in front of it. -/
theorem snapshotSlice {size : Nat} (r : RingBuffer UInt8 size) : slice (Snapshot r) = r.snapshot := by
  have inside := r.inside
  have cells := r.length
  have front : (r.cells.take r.pos).length = r.pos := by rw [List.length_take]; omega
  have back : (r.cells.drop r.pos).length = size-r.pos := by rw [List.length_drop,cells]
  unfold Snapshot RingBuffer.snapshot
  cases full : r.full with
  | false =>
    rw [if_neg (by decide : ¬ (false = true))]
    by_cases start : r.pos = 0
    · simp [start,slice]
    · rw [if_neg (by simp [start]),if_pos (by decide)]
      exact copyOver (by rw [front,List.length_replicate])
  | true =>
    rw [if_neg (by simp),if_neg (by decide),if_pos rfl,← back]
    exact copyTwice (by rw [front,back,List.length_replicate]; omega)

theorem holdsWrites {size : Nat} {r : RingBuffer UInt8 size} {stream : Bytes} (holds : RingBuffer.Holds r stream) (writes : List Bytes) :
    RingBuffer.Holds (writes.foldl RingBuffer.write r) (stream ++ writes.flatten) := by
  induction writes generalizing r stream with
  | nil => simpa using holds
  | cons p writes ih =>
    have next := ih (RingBuffer.holdsWrite holds p)
    rwa [List.append_assoc] at next

/- After any writes the snapshot is the newest of what was written, as many bytes as the ring has. -/
theorem snapshotNewest (n : Int) (writes : List Bytes) :
    let out := slice (Snapshot (writes.foldl RingBuffer.write (newByteRing n.toNat)))
    out <:+ writes.flatten ∧ out.length = min (ringSize n.toNat) writes.flatten.length := by
  have holds := holdsWrites (RingBuffer.holdsNew (0 : UInt8) (ringSizePos n.toNat)) writes
  rw [List.nil_append] at holds
  dsimp only
  rw [snapshotSlice,newByteRing,holds.newest]
  refine ⟨RingBuffer.rtakeSuffix _,?_⟩
  rw [List.rtake,List.length_drop]
  omega

end ContainerWS.CloudShell
