-- SUMMARY: The two-level map of unacknowledged data packets that the sender keeps.
import Zhuge.Lib.Dict
import Zhuge.WireTrip

/-!
# The packet history

`data_pkt_history` maps a group id and an id within the group to a data packet. A group
without packets is erased, so that no inner map is empty.
-/

namespace Zhuge

/-- `data_pkt_history`, with any kind of pointer to a packet. -/
abbrev PktHistory (V : Type) := Dict UInt32 (Dict UInt16 V)

namespace PktHistory

variable {V : Type}

def find (info : GroupPacketInfo) (h : PktHistory V) : Option V :=
  (h.lookup info.groupId).bind fun group => group.lookup info.pktIdInGroup

/-- `data_pkt_history[group_id][pkt_id_in_group] = pkt`. -/
def store (info : GroupPacketInfo) (pkt : V) (h : PktHistory V) : PktHistory V :=
  h.insert info.groupId
    (((h.lookup info.groupId).getD ∅ : Dict UInt16 V).insert info.pktIdInGroup pkt)

/-- Erase a packet, and its group when that leaves it empty. -/
def remove (info : GroupPacketInfo) (h : PktHistory V) : PktHistory V :=
  match h.lookup info.groupId with
  | none => h
  | some group =>
    if Dict.size (group.erase info.pktIdInGroup) = 0 then h.erase info.groupId
    else h.insert info.groupId (group.erase info.pktIdInGroup)

/-- `RcvACKPacket`. -/
def rcvACKPacket (pkt : AckPacket) (h : PktHistory V) : PktHistory V :=
  pkt.pktInfos.foldl (fun h info => h.remove info) h

/-- No inner map is empty. -/
def NoEmptyGroup (h : PktHistory V) : Prop :=
  ∀ groupId group, h.lookup groupId = some group → Dict.size group ≠ 0

theorem info_eq_iff {info info' : GroupPacketInfo} :
    info' = info ↔ info'.groupId = info.groupId ∧ info'.pktIdInGroup = info.pktIdInGroup := by
  cases info; cases info'; simp

@[simp] theorem find_empty (info : GroupPacketInfo) : (∅ : PktHistory V).find info = none := rfl

theorem find_store (info info' : GroupPacketInfo) (pkt : V) (h : PktHistory V) :
    (h.store info pkt).find info' = if info' = info then some pkt else h.find info' := by
  unfold find store
  by_cases hgroup : info'.groupId = info.groupId
  · have hiff : info' = info ↔ info'.pktIdInGroup = info.pktIdInGroup := by
      simp [info_eq_iff, hgroup]
    rw [hgroup, AList.lookup_insert, Option.bind_some, Dict.lookup_insert_eq]
    simp only [hiff]
    cases h.lookup info.groupId <;> simp
  · rw [AList.lookup_insert_ne hgroup, if_neg fun heq => hgroup (congrArg _ heq)]

theorem lookup_of_size_eq_zero {group : Dict UInt16 V} (h : Dict.size group = 0) (i : UInt16) :
    group.lookup i = none := by
  cases hlookup : group.lookup i with
  | none => rfl
  | some v => exact absurd h (Dict.size_pos_of_lookup hlookup).ne'

theorem find_remove (info info' : GroupPacketInfo) (h : PktHistory V) :
    (h.remove info).find info' = if info' = info then none else h.find info' := by
  unfold find remove
  cases hlookup : h.lookup info.groupId with
  | none =>
      by_cases heq : info' = info
      · rw [if_pos heq, heq, hlookup, Option.bind_none]
      · rw [if_neg heq]
  | some group =>
      by_cases hgroup : info'.groupId = info.groupId
      · have hrest : (group.erase info.pktIdInGroup).lookup info'.pktIdInGroup
            = if info' = info then none else group.lookup info'.pktIdInGroup := by
          simp only [Dict.lookup_erase_eq, info_eq_iff, hgroup, true_and]
        simp only
        split
        case isTrue hzero =>
          rw [hgroup, AList.lookup_erase, hlookup, Option.bind_some, ← hrest,
            lookup_of_size_eq_zero hzero]
          rfl
        case isFalse =>
          rw [hgroup, AList.lookup_insert, hlookup, Option.bind_some, Option.bind_some, hrest]
      · rw [if_neg fun heq => hgroup (congrArg _ heq)]
        simp only
        split
        · rw [AList.lookup_erase_ne hgroup]
        · rw [AList.lookup_insert_ne hgroup]

theorem NoEmptyGroup.store {h : PktHistory V} (hne : h.NoEmptyGroup) (info : GroupPacketInfo)
    (pkt : V) : (h.store info pkt).NoEmptyGroup := by
  intro groupId group hlookup
  simp only [PktHistory.store, Dict.lookup_insert_eq] at hlookup
  split at hlookup
  case isTrue =>
    cases hlookup
    exact (Dict.size_pos_of_lookup (AList.lookup_insert _)).ne'
  case isFalse => exact hne groupId group hlookup

theorem NoEmptyGroup.remove {h : PktHistory V} (hne : h.NoEmptyGroup) (info : GroupPacketInfo) :
    (h.remove info).NoEmptyGroup := by
  intro groupId group hlookup
  unfold PktHistory.remove at hlookup
  cases hold : h.lookup info.groupId with
  | none =>
      rw [hold] at hlookup
      exact hne groupId group hlookup
  | some old =>
      simp only [hold] at hlookup
      split at hlookup
      case isTrue =>
        rw [Dict.lookup_erase_eq] at hlookup
        split at hlookup
        · cases hlookup
        · exact hne groupId group hlookup
      case isFalse hsize =>
        rw [Dict.lookup_insert_eq] at hlookup
        split at hlookup
        · cases hlookup; exact hsize
        · exact hne groupId group hlookup

/-- An acknowledgement removes the packets it names and no others. -/
theorem find_rcvACKPacket (pkt : AckPacket) (info : GroupPacketInfo) (h : PktHistory V) :
    (h.rcvACKPacket pkt).find info = if info ∈ pkt.pktInfos then none else h.find info := by
  unfold rcvACKPacket
  induction pkt.pktInfos generalizing h with
  | nil => simp
  | cons info' infos ih =>
      rw [List.foldl_cons, ih, find_remove]
      by_cases hhead : info = info'
      · simp [hhead]
      · simp [hhead]

theorem NoEmptyGroup.rcvACKPacket {h : PktHistory V} (hne : h.NoEmptyGroup) (pkt : AckPacket) :
    (h.rcvACKPacket pkt).NoEmptyGroup := by
  unfold PktHistory.rcvACKPacket
  induction pkt.pktInfos generalizing h with
  | nil => exact hne
  | cons info infos ih => exact ih (hne.remove info)

end PktHistory

end Zhuge
