-- SUMMARY: Changing the sender's packet objects in place, and what a retransmission leaves alone of them.
import Zhuge.Sender

/-!
# Changing packet objects

A retransmission changes objects that the history and the queue share. It keeps their names
and encode times, which is all that the history rests on.
-/

namespace Zhuge

namespace PacketSenderUdp

/-! ## One object, several objects -/

theorem deref_update (ref ref' : PktRef) (f : DataPacket → DataPacket) (s : PacketSenderUdp) :
    (s.update ref f).deref ref' =
      if ref' = ref ∧ ref < s.heap.length then f (s.deref ref) else s.deref ref' := by
  simp only [deref, update, List.getD_eq_getElem?_getD, List.getElem?_modify]
  by_cases href : ref' = ref
  · subst href
    by_cases hlt : ref' < s.heap.length
    · simp [hlt]
    · simp [hlt]
  · simp [href, Ne.symm href]

/-- A change that keeps a field of every packet keeps that field of every object. -/
theorem deref_update_field {α : Type} (field : DataPacket → α) {ref : PktRef}
    {f : DataPacket → DataPacket} {s : PacketSenderUdp}
    (hf : field (f (s.deref ref)) = field (s.deref ref)) (ref' : PktRef) :
    field ((s.update ref f).deref ref') = field (s.deref ref') := by
  rw [deref_update]
  split
  case isTrue h => rw [hf, h.1]
  case isFalse => rfl

/-- The sender with other packet objects. -/
def withHeap (heap : List DataPacket) (s : PacketSenderUdp) : PacketSenderUdp :=
  { s with heap := heap }

theorem updateAll_eq (refs : List PktRef) (f : DataPacket → DataPacket) (s : PacketSenderUdp) :
    s.updateAll refs f = s.withHeap (s.updateAll refs f).heap := by
  induction refs generalizing s with
  | nil => rfl
  | cons ref refs ih =>
      have := ih (s.update ref f)
      simp only [updateAll, List.foldl_cons] at this ⊢
      rw [this]
      rfl

theorem writeBack_eq (refs : List PktRef) (pkts : List DataPacket) (s : PacketSenderUdp) :
    s.writeBack refs pkts = s.withHeap (s.writeBack refs pkts).heap := by
  unfold writeBack
  induction refs.zip pkts generalizing s with
  | nil => rfl
  | cons p ps ih =>
      have := ih (s.update p.1 fun _ => p.2)
      simp only [List.foldl_cons] at this ⊢
      rw [this]
      rfl

theorem length_heap_updateAll (refs : List PktRef) (f : DataPacket → DataPacket)
    (s : PacketSenderUdp) : (s.updateAll refs f).heap.length = s.heap.length := by
  induction refs generalizing s with
  | nil => rfl
  | cons ref refs ih =>
      simp only [updateAll, List.foldl_cons] at ih ⊢
      rw [ih, update, List.length_modify]

theorem length_heap_writeBack (refs : List PktRef) (pkts : List DataPacket)
    (s : PacketSenderUdp) : (s.writeBack refs pkts).heap.length = s.heap.length := by
  unfold writeBack
  induction refs.zip pkts generalizing s with
  | nil => rfl
  | cons p ps ih => rw [List.foldl_cons, ih, update, List.length_modify]

theorem deref_updateAll_field {α : Type} (field : DataPacket → α) {f : DataPacket → DataPacket}
    (hf : ∀ pkt, field (f pkt) = field pkt) (refs : List PktRef) (s : PacketSenderUdp)
    (ref' : PktRef) : field ((s.updateAll refs f).deref ref') = field (s.deref ref') := by
  induction refs generalizing s with
  | nil => rfl
  | cons ref refs ih =>
      simp only [updateAll, List.foldl_cons] at ih ⊢
      rw [ih, deref_update_field field (hf _)]

theorem deref_writeBack_field {α : Type} (field : DataPacket → α) {refs : List PktRef}
    {pkts : List DataPacket} {s : PacketSenderUdp}
    (h : ∀ p ∈ refs.zip pkts, field p.2 = field (s.deref p.1)) (ref' : PktRef) :
    field ((s.writeBack refs pkts).deref ref') = field (s.deref ref') := by
  unfold writeBack
  generalize refs.zip pkts = ps at h ⊢
  induction ps generalizing s with
  | nil => rfl
  | cons p ps ih =>
      have hhead := deref_update_field (s := s) (f := fun _ => p.2) field
        (h p List.mem_cons_self)
      rw [List.foldl_cons, ih, hhead]
      intro q hq
      rw [hhead]
      exact h q (List.mem_cons_of_mem _ hq)

/-- A field that the change sets to the same value in every packet. -/
theorem deref_updateAll_const {α : Type} (field : DataPacket → α) {f : DataPacket → DataPacket}
    {a : α} (hf : ∀ pkt, field (f pkt) = a) (refs : List PktRef) (s : PacketSenderUdp)
    (ref' : PktRef) : field ((s.updateAll refs f).deref ref') =
      if ref' ∈ refs ∧ ref' < s.heap.length then a else field (s.deref ref') := by
  induction refs generalizing s with
  | nil => simp [updateAll]
  | cons ref refs ih =>
      have hrest := ih (s.update ref f)
      simp only [updateAll, List.foldl_cons] at hrest ⊢
      rw [hrest, deref_update]
      have hlen : (s.update ref f).heap.length = s.heap.length := List.length_modify ..
      rw [hlen]
      by_cases href : ref' = ref
      · subst href
        by_cases hlt : ref' < s.heap.length
        · simp [hlt, hf]
        · simp [hlt]
      · simp [href]

/-! ## What a retransmission leaves alone -/

/-- What no retransmission changes in a packet. -/
def fixed (pkt : DataPacket) : GroupPacketInfo × Time × Bool :=
  (pkt.groupInfo, pkt.encodeTime, pkt.groupInfoSetFlag)

/-- The name of the packet behind a reference. -/
def infoOf (s : PacketSenderUdp) (ref : PktRef) : GroupPacketInfo := (s.deref ref).groupInfo

/-- What a retransmission leaves alone. -/
structure SameHistory (s s' : PacketSenderUdp) : Prop where
  length : s'.heap.length = s.heap.length
  fixed : ∀ ref, fixed (s'.deref ref) = fixed (s.deref ref)
  dataPktHistory : s'.dataPktHistory = s.dataPktHistory
  acked : s'.acked = s.acked
  delayDdl : s'.delayDdl = s.delayDdl

namespace SameHistory

variable {s s' s'' : PacketSenderUdp}

theorem refl (s : PacketSenderUdp) : SameHistory s s := ⟨rfl, fun _ => rfl, rfl, rfl, rfl⟩

theorem trans (h : SameHistory s s') (h' : SameHistory s' s'') : SameHistory s s'' where
  length := h'.length.trans h.length
  fixed ref := (h'.fixed ref).trans (h.fixed ref)
  dataPktHistory := h'.dataPktHistory.trans h.dataPktHistory
  acked := h'.acked.trans h.acked
  delayDdl := h'.delayDdl.trans h.delayDdl

theorem symm (h : SameHistory s s') : SameHistory s' s where
  length := h.length.symm
  fixed ref := (h.fixed ref).symm
  dataPktHistory := h.dataPktHistory.symm
  acked := h.acked.symm
  delayDdl := h.delayDdl.symm

theorem infoOf (h : SameHistory s s') : s'.infoOf = s.infoOf :=
  funext fun ref => congrArg (·.1) (h.fixed ref)

theorem encodeTime (h : SameHistory s s') (ref : PktRef) :
    (s'.deref ref).encodeTime = (s.deref ref).encodeTime :=
  congrArg (·.2.1) (h.fixed ref)

theorem flag (h : SameHistory s s') (ref : PktRef) :
    (s'.deref ref).groupInfoSetFlag = (s.deref ref).groupInfoSetFlag :=
  congrArg (·.2.2) (h.fixed ref)

end SameHistory

theorem sameHistory_updateAll {f : DataPacket → DataPacket} (hf : ∀ pkt, fixed (f pkt) = fixed pkt)
    (refs : List PktRef) (s : PacketSenderUdp) : SameHistory s (s.updateAll refs f) := by
  have hfixed := deref_updateAll_field fixed hf refs s
  have hlen := length_heap_updateAll refs f s
  rw [updateAll_eq] at hfixed hlen ⊢
  exact ⟨hlen, hfixed, rfl, rfl, rfl⟩

theorem sameHistory_writeBack {refs : List PktRef} {pkts : List DataPacket} {s : PacketSenderUdp}
    (h : ∀ p ∈ refs.zip pkts, fixed p.2 = fixed (s.deref p.1)) :
    SameHistory s (s.writeBack refs pkts) := by
  have hfixed := deref_writeBack_field fixed h
  have hlen := length_heap_writeBack refs pkts s
  rw [writeBack_eq] at hfixed hlen ⊢
  exact ⟨hlen, hfixed, rfl, rfl, rfl⟩

end PacketSenderUdp

end Zhuge
