-- SUMMARY: When the cache of FastAck holds exactly the segments that the client has not acknowledged.
import Zhuge.FastAckOrder

/-!
# The retransmission cache

A new acknowledgement should take the segments it covers out of the cache.
`OnRecv_snddev` looks for the segment that ends at the acknowledgement before, so
what the new one covers stays. The third acknowledgement of a number takes the
segment that starts there out of the cache, although the client still lacks it.
-/

namespace Zhuge

namespace Segment

/-- The position after the last data byte. -/
def endPos (seg : Segment) : ℕ := seg.pos + seg.dataSize

/-- The end of the segment as the search for it counts, every TCP header with 20 bytes. -/
def countedEnd (seg : Segment) : UInt32 := seg.seq + (seg.payloadSize.toUInt32 - 20)

/-- What the code takes for a data segment, with data in it. -/
structure IsData (recvIP : UInt32) (seg : Segment) : Prop where
  to_client : seg.isTcpTo recvIP = true
  flags_eq : seg.flags = 16
  header_le : 20 ≤ seg.headerSize
  header_lt : seg.headerSize < seg.payloadSize.toNat
  pos_pos : 1 ≤ seg.pos

instance (recvIP : UInt32) (seg : Segment) : Decidable (seg.IsData recvIP) :=
  decidable_of_iff (seg.isTcpTo recvIP = true ∧ seg.flags = 16 ∧ 20 ≤ seg.headerSize ∧
      seg.headerSize < seg.payloadSize.toNat ∧ 1 ≤ seg.pos)
    ⟨fun ⟨h₁, h₂, h₃, h₄, h₅⟩ => ⟨h₁, h₂, h₃, h₄, h₅⟩,
      fun h => ⟨h.to_client, h.flags_eq, h.header_le, h.header_lt, h.pos_pos⟩⟩

variable {recvIP : UInt32} {seg : Segment}

theorem IsData.lt_endPos (h : seg.IsData recvIP) : seg.pos < seg.endPos := by
  have hlt := h.header_lt
  rw [endPos, dataSize]
  omega

theorem IsData.payloadSize_gt (h : seg.IsData recvIP) : seg.payloadSize > 20 := by
  have hle := h.header_le
  have hlt := h.header_lt
  rw [gt_iff_lt, UInt16.lt_iff_toNat_lt]
  change 20 < _
  omega

/-- A segment is too short to end at its own sequence number modulo 2³². -/
theorem IsData.seq_ne_endPos (h : seg.IsData recvIP) : seg.seq ≠ UInt32.ofNat seg.endPos := by
  intro heq
  have hlt := h.header_lt
  have hsize := seg.payloadSize.toNat_lt
  have hmod := congrArg UInt32.toNat heq
  rw [seq, endPos, dataSize, UInt32.toNat_ofNat', UInt32.toNat_ofNat'] at hmod
  omega

/-- The counted end is the end, and the bytes of TCP options. -/
theorem IsData.countedEnd_eq (h : seg.IsData recvIP) :
    seg.countedEnd = UInt32.ofNat (seg.endPos + (seg.headerSize - 20)) := by
  have hle := h.header_le
  have hlt := h.header_lt
  have hsize : seg.payloadSize.toUInt32 - 20 = UInt32.ofNat (seg.payloadSize.toNat - 20) := by
    apply UInt32.toNat.inj
    have hpayload := seg.payloadSize.toNat_lt
    rw [UInt32.toNat_sub, UInt32.toNat_ofNat', UInt16.toNat_toUInt32]
    change (4294967296 - 20 + _) % 4294967296 = _
    omega
  rw [countedEnd, hsize, seq, ← UInt32.ofNat_add, endPos, dataSize]
  congr 1
  omega

end Segment

namespace NetworkQueueFastAck

/-! ## What an acknowledgement does to the cache -/

variable {s : NetworkQueueFastAck} {seq : UInt32} {seg : Segment}

theorem retransmit_cases (seq : UInt32) (s : NetworkQueueFastAck) :
    (∀ packet ∈ s.cache, packet.seq ≠ seq) ∧ (s.retransmit seq).cache = s.cache ∨
      ∃ (i : ℕ) (packet : Segment), s.cache[i]? = some packet ∧ packet.seq = seq ∧
        (s.retransmit seq).cache = s.cache.eraseIdx i := by
  unfold retransmit
  split
  · rename_i i hfind
    obtain ⟨hlt, hseq, -⟩ := List.findIdx?_eq_some_iff_getElem.mp hfind
    exact .inr ⟨i, s.cache[i], List.getElem?_eq_getElem hlt, beq_iff_eq.mp hseq, rfl⟩
  · rename_i hfind
    refine .inl ⟨?_, rfl⟩
    simpa [List.findIdx?_eq_none_iff] using hfind

theorem trimCache_cases (s : NetworkQueueFastAck) :
    (∀ packet ∈ s.cache, packet.countedEnd ≠ s.lastRcvAck) ∧ s.trimCache.cache = s.cache ∨
      ∃ (i : ℕ) (packet : Segment), s.cache[i]? = some packet ∧
        packet.countedEnd = s.lastRcvAck ∧ s.trimCache.cache = s.cache.drop (i + 1) := by
  unfold trimCache
  split
  · rename_i i hfind
    obtain ⟨hlt, hend, -⟩ := List.findIdx?_eq_some_iff_getElem.mp hfind
    exact .inr ⟨i, s.cache[i], List.getElem?_eq_getElem hlt, beq_iff_eq.mp hend, rfl⟩
  · rename_i hfind
    refine .inl ⟨?_, rfl⟩
    simpa [List.findIdx?_eq_none_iff, Segment.countedEnd] using hfind

/-- A segment is not sent again exactly if none starts at the number. -/
theorem cache_retransmit_eq_iff (seq : UInt32) (s : NetworkQueueFastAck) :
    (s.retransmit seq).cache = s.cache ↔ ∀ packet ∈ s.cache, packet.seq ≠ seq := by
  obtain ⟨hnone, hsame⟩ | ⟨i, packet, hget, hseq, herase⟩ := retransmit_cases seq s
  · exact iff_of_true hsame hnone
  · refine iff_of_false ?_ fun hnone => hnone packet (List.mem_of_getElem? hget) hseq
    intro heq
    have hlength := congrArg List.length (herase.symm.trans heq)
    have hlt := (List.getElem?_eq_some_iff.mp hget).1
    rw [List.length_eraseIdx_of_lt hlt] at hlength
    omega

theorem cache_trimCache_eq_iff (s : NetworkQueueFastAck) :
    s.trimCache.cache = s.cache ↔ ∀ packet ∈ s.cache, packet.countedEnd ≠ s.lastRcvAck := by
  obtain ⟨hnone, hsame⟩ | ⟨i, packet, hget, hend, hdrop⟩ := trimCache_cases s
  · exact iff_of_true hsame hnone
  · refine iff_of_false ?_ fun hnone => hnone packet (List.mem_of_getElem? hget) hend
    intro heq
    have hlength := congrArg List.length (hdrop.symm.trans heq)
    have hlt := (List.getElem?_eq_some_iff.mp hget).1
    rw [List.length_drop] at hlength
    omega

/-- A segment that starts elsewhere stays in the cache. -/
theorem mem_cache_retransmit (hmem : seg ∈ s.cache) (hseq : seg.seq ≠ seq) :
    seg ∈ (s.retransmit seq).cache := by
  obtain ⟨-, hsame⟩ | ⟨i, packet, hget, hpacket, herase⟩ := retransmit_cases seq s
  · rwa [hsame]
  · obtain ⟨j, hj⟩ := List.mem_iff_getElem?.mp hmem
    rw [herase, List.mem_eraseIdx_iff_getElem?]
    refine ⟨j, ?_, hj⟩
    rintro rfl
    cases hget.symm.trans hj
    exact hseq hpacket

/-- A pure acknowledgement of the client. -/
def clientAck (ackNumber : UInt32) (windowSize : UInt16) (s : NetworkQueueFastAck) : ClientPacket :=
  ⟨s.sendIP, 6, 16, ackNumber, windowSize⟩

theorem retransmit_congr {t : NetworkQueueFastAck} (h : t.cache = s.cache) (seq : UInt32) :
    (t.retransmit seq).cache = (s.retransmit seq).cache ∧
      (t.retransmit seq).lastRcvAck = t.lastRcvAck := by
  unfold retransmit
  rw [h]
  split
  · exact ⟨rfl, rfl⟩
  · exact ⟨h, rfl⟩

theorem trimCache_congr {t : NetworkQueueFastAck} (h : t.cache = s.cache)
    (hack : t.lastRcvAck = s.lastRcvAck) : t.trimCache.cache = s.trimCache.cache := by
  unfold trimCache
  rw [h, hack]
  split
  · rfl
  · exact h

theorem seqGt_self (seq : UInt32) : seqGt seq seq = false := by
  simp [seqGt, UInt32.lt_irrefl]

/-- What a pure acknowledgement does to the cache and to `m_LastRcvAck`. -/
theorem onRecvSnddev_clientAck (ackNumber : UInt32) (windowSize : UInt16)
    (s : NetworkQueueFastAck) :
    (s.onRecvSnddev (s.clientAck ackNumber windowSize)).cache =
        (if ackNumber = s.lastRcvAck then
          if s.dupNumber + 1 = 3 then (s.retransmit ackNumber).cache else s.cache
        else if seqGt ackNumber s.lastRcvAck then s.trimCache.cache
        else s.cache) ∧
      (s.onRecvSnddev (s.clientAck ackNumber windowSize)).lastRcvAck =
        if seqGt ackNumber s.lastRcvAck then ackNumber else s.lastRcvAck := by
  have hsender : (s.clientAck ackNumber windowSize).destination = s.sendIP ∧
    (s.clientAck ackNumber windowSize).protocol = 6 := ⟨rfl, rfl⟩
  have hpure : (s.clientAck ackNumber windowSize).flags = 16 := rfl
  have hnumber : (s.clientAck ackNumber windowSize).ackNumber = ackNumber := rfl
  rw [onRecvSnddev, if_pos hsender, if_pos hpure]
  simp only [hnumber]
  split_ifs with hsame hthird hgt hgt hgt
  · rw [hsame, seqGt_self] at hgt
    cases hgt
  · apply retransmit_congr (s := s)
    rfl
  · rw [hsame, seqGt_self] at hgt
    cases hgt
  · exact ⟨rfl, rfl⟩
  · exact ⟨trimCache_congr (s := s) rfl rfl, rfl⟩
  · exact ⟨rfl, rfl⟩

/-- `onRecvRcvdev` caches a data segment. -/
theorem onRecvRcvdev_of_isData {packet : Segment} (hcc : s.ccCreate = true)
    (h : packet.IsData s.recvIP) (now : Time) :
    (s.onRecvRcvdev now packet).cache = s.cache ++ [packet] ∧
      (s.onRecvRcvdev now packet).lastRcvAck = s.lastRcvAck ∧
      (s.onRecvRcvdev now packet).ccCreate = s.ccCreate ∧
      (s.onRecvRcvdev now packet).recvIP = s.recvIP := by
  rw [onRecvRcvdev, if_pos ⟨hcc, h.to_client, h.flags_eq, h.payloadSize_gt⟩]
  exact ⟨rfl, rfl, rfl, rfl⟩

/-- A number that is at most some 2¹⁶ below another is not newer. -/
theorem seqGt_sub_eq_false {ack options : UInt32} (h : options.toNat < 2 ^ 16) :
    seqGt (ack - options) ack = false := by
  have hack := ack.toNat_lt
  simp only [seqGt, Bool.or_eq_false_iff, Bool.and_eq_false_iff, decide_eq_false_iff_not, gt_iff_lt,
    UInt32.lt_iff_toNat_lt, UInt32.le_iff_toNat_le, UInt32.toNat_sub]
  change (_ ∨ ¬ _ ≤ 2147483647) ∧ (_ ∨ ¬ 2147483647 < _)
  omega

end NetworkQueueFastAck

/-! ## Runs with a log -/

/-- The queue and its device, with the data segments that have passed and the highest position
the client has acknowledged, 0 before it has sent an acknowledgement. -/
structure CacheLog where
  link : FastAckLink
  forwarded : List Segment
  highestAck : ℕ

namespace CacheLog

inductive Event where
  | segment (now : Time) (packet : Segment)
  | transmit (packet : Segment)
  | checkAck
  /-- The client acknowledges every byte before `pos`. -/
  | ack (pos : ℕ) (windowSize : UInt16)

/-- A data segment that comes after all those before. -/
def InOrder (packet : Segment) (a : CacheLog) : Prop :=
  packet.IsData a.link.queue.recvIP ∧ ∀ earlier ∈ a.forwarded, earlier.endPos ≤ packet.pos

/-- A segment boundary: the first position, or the end of a segment that has passed. -/
def IsBoundary (pos : ℕ) (a : CacheLog) : Prop :=
  pos = 1 ∨ ∃ seg ∈ a.forwarded, seg.endPos = pos

instance (packet : Segment) (a : CacheLog) : Decidable (a.InOrder packet) :=
  inferInstanceAs (Decidable (_ ∧ _))

instance (pos : ℕ) (a : CacheLog) : Decidable (a.IsBoundary pos) :=
  inferInstanceAs (Decidable (_ ∨ _))

/-- One event. `none`: a segment out of order, an acknowledgement that is not at a boundary, or no
`CheckAck` on the calendar. -/
def step (a : CacheLog) : Event → Option CacheLog
  | .segment now packet =>
    if a.InOrder packet then
      (a.link.step (.recvRcvdev now packet)).map fun link =>
        { a with link, forwarded := a.forwarded ++ [packet] }
    else none
  | .transmit packet => (a.link.step (.transmit packet)).map fun link => { a with link }
  | .checkAck => (a.link.step .checkAck).map fun link => { a with link }
  | .ack pos windowSize =>
    if a.IsBoundary pos then
      (a.link.step (.recvSnddev (a.link.queue.clientAck (UInt32.ofNat pos) windowSize))).map
        fun link => { a with link, highestAck := max a.highestAck pos }
    else none

/-- The cache holds the segments that have passed and have their last byte at or beyond the
highest position acknowledged, in order. -/
def HoldsUnacked (a : CacheLog) : Prop :=
  a.link.queue.cache = a.forwarded.filter (a.highestAck < ·.endPos)

/-- The condition on an acknowledgement: it covers no segment. The first one finds no cached
segment whose end is counted as 0 modulo 2³²; and if it is the third of its kind, no cached
segment starts at its number. -/
def CoversNothing (a : CacheLog) : Event → Prop
  | .ack pos _ =>
    a.IsBoundary pos → pos = 1 ∧
      if a.link.queue.lastRcvAck = 1 then
        a.link.queue.dupNumber + 1 = 3 → ∀ packet ∈ a.link.queue.cache, packet.seq ≠ 1
      else ∀ packet ∈ a.link.queue.cache, packet.countedEnd ≠ a.link.queue.lastRcvAck
  | _ => True

instance (a : CacheLog) : (e : Event) → Decidable (a.CoversNothing e)
  | .ack _ _ => inferInstanceAs (Decidable (_ → _))
  | .segment _ _ => .isTrue trivial
  | .transmit _ => .isTrue trivial
  | .checkAck => .isTrue trivial

/-- What holds as long as no acknowledgement has covered a segment. -/
structure Uncovered (a : CacheLog) : Prop where
  cc : a.link.queue.ccCreate = true
  last : a.link.queue.lastRcvAck = UInt32.ofNat a.highestAck
  highest : a.highestAck ≤ 1
  data : ∀ seg ∈ a.forwarded, seg.IsData a.link.queue.recvIP
  sorted : a.forwarded.Pairwise fun earlier packet => earlier.endPos ≤ packet.pos

variable {a b : CacheLog}

/-- Every segment that has passed ends beyond the first position. -/
theorem Uncovered.one_lt_endPos (ha : a.Uncovered) : ∀ seg ∈ a.forwarded, 1 < seg.endPos := by
  intro seg hseg
  exact lt_of_le_of_lt (ha.data seg hseg).pos_pos (ha.data seg hseg).lt_endPos

theorem Uncovered.filter_eq (ha : a.Uncovered) {pos : ℕ} (hpos : pos ≤ 1) :
    a.forwarded.filter (pos < ·.endPos) = a.forwarded := by
  simp only [List.filter_eq_self, decide_eq_true_eq]
  exact fun seg hseg => hpos.trans_lt (ha.one_lt_endPos seg hseg)

theorem Uncovered.cache_eq (ha : a.Uncovered) (hcache : a.HoldsUnacked) :
    a.link.queue.cache = a.forwarded :=
  Eq.trans hcache (ha.filter_eq ha.highest)

/-- What an acknowledgement at a boundary does. -/
theorem step_ack {pos : ℕ} {windowSize : UInt16} (h : a.step (.ack pos windowSize) = some b) :
    b.link.queue = a.link.queue.onRecvSnddev
        (a.link.queue.clientAck (UInt32.ofNat pos) windowSize) ∧
      b.forwarded = a.forwarded ∧ b.highestAck = max a.highestAck pos := by
  simp only [step] at h
  split_ifs at h
  obtain ⟨link, hlink, rfl⟩ := Option.map_eq_some_iff.mp h
  cases hlink
  exact ⟨rfl, rfl, rfl⟩

theorem Uncovered.highestAck_eq_zero (ha : a.Uncovered) (hlast : a.link.queue.lastRcvAck ≠ 1) :
    a.highestAck = 0 := by
  by_contra hne
  have hhighest := ha.highest
  apply hlast
  rw [ha.last, show a.highestAck = 1 by omega]
  rfl

/-- Later segments end later. -/
theorem Uncovered.endPos_lt (ha : a.Uncovered) {i j : ℕ} {earlier packet : Segment} (hij : i < j)
    (hi : a.forwarded[i]? = some earlier) (hj : a.forwarded[j]? = some packet) :
    earlier.endPos < packet.endPos := by
  obtain ⟨hi', rfl⟩ := List.getElem?_eq_some_iff.mp hi
  obtain ⟨hj', rfl⟩ := List.getElem?_eq_some_iff.mp hj
  exact (List.pairwise_iff_getElem.mp ha.sorted i j hi' hj' hij).trans_lt
    (ha.data _ (List.getElem_mem hj')).lt_endPos

/-- If dropping a prefix leaves the segments beyond one of them, this one is the last dropped. -/
theorem Uncovered.eq_of_drop_eq (ha : a.Uncovered) {i : ℕ} {seg packet : Segment}
    (hseg : seg ∈ a.forwarded) (hget : a.forwarded[i]? = some packet)
    (hdrop : a.forwarded.drop (i + 1) = a.forwarded.filter (seg.endPos < ·.endPos)) :
    packet = seg := by
  have hmem_drop : ∀ (k : ℕ) (t : Segment), i < k → a.forwarded[k]? = some t →
      t ∈ a.forwarded.drop (i + 1) := by
    intro k t hk ht
    apply List.mem_of_getElem? (i := k - (i + 1))
    rw [List.getElem?_drop, ← ht]
    congr 1
    omega
  obtain ⟨j, hj⟩ := List.mem_iff_getElem?.mp hseg
  rcases Nat.lt_trichotomy i j with hij | rfl | hji
  · have hkept := hmem_drop j seg hij hj
    rw [hdrop] at hkept
    exact absurd hkept (by simp)
  · exact Option.some.inj (hget.symm.trans hj)
  · have hbeyond : packet ∈ a.forwarded.drop (i + 1) := by
      rw [hdrop, List.mem_filter]
      exact ⟨List.mem_of_getElem? hget, decide_eq_true (ha.endPos_lt hji hj hget)⟩
    obtain ⟨k, hk⟩ := List.mem_iff_getElem?.mp hbeyond
    rw [List.getElem?_drop] at hk
    exact absurd (ha.endPos_lt (by omega) hget hk) (Nat.lt_irrefl _)

/-- An acknowledgement that covers a segment leaves it in the cache, or takes out more. -/
theorem not_holdsUnacked_of_covers (ha : a.Uncovered) (hcache : a.HoldsUnacked) {seg : Segment}
    (hseg : seg ∈ a.forwarded) {windowSize : UInt16}
    (h : a.step (.ack seg.endPos windowSize) = some b) : ¬ b.HoldsUnacked := by
  obtain ⟨hqueue, hforwarded, hhighest⟩ := step_ack h
  have hbeyond := (ha.highest.trans_lt (ha.one_lt_endPos seg hseg)).le
  obtain ⟨hafter, -⟩ := NetworkQueueFastAck.onRecvSnddev_clientAck (UInt32.ofNat seg.endPos)
    windowSize a.link.queue
  have hcached := ha.cache_eq hcache
  intro hholds
  -- the cache would be the segments that end beyond the one covered
  have hrest : (a.link.queue.onRecvSnddev
      (a.link.queue.clientAck (UInt32.ofNat seg.endPos) windowSize)).cache =
      a.forwarded.filter (seg.endPos < ·.endPos) := by
    rwa [HoldsUnacked, hqueue, hforwarded, hhighest, max_eq_right hbeyond] at hholds
  have hgone : seg ∉ a.forwarded.filter (seg.endPos < ·.endPos) := by simp
  have hmem : seg ∈ a.link.queue.cache := hcached ▸ hseg
  rw [hafter] at hrest
  rw [← hrest] at hgone
  split_ifs at hrest hgone with hsame hthird hgt
  · exact hgone (NetworkQueueFastAck.mem_cache_retransmit hmem (ha.data seg hseg).seq_ne_endPos)
  · exact hgone hmem
  · obtain ⟨-, htrim⟩ | ⟨i, packet, hget, hend, hdrop⟩ :=
      NetworkQueueFastAck.trimCache_cases a.link.queue
    · exact hgone (htrim ▸ hmem)
    · rw [hdrop, hcached] at hrest
      rw [hcached] at hget
      -- the last one taken out is the segment itself, which the search does not look for
      obtain rfl : packet = seg := ha.eq_of_drop_eq hseg hget hrest
      rw [(ha.data packet hseg).countedEnd_eq, UInt32.ofNat_add] at hend
      have hoptions : (UInt32.ofNat (packet.headerSize - 20)).toNat < 2 ^ 16 := by
        have hlt := (ha.data packet hseg).header_lt
        have hsize := packet.payloadSize.toNat_lt
        rw [UInt32.toNat_ofNat']
        omega
      have hnewer : NetworkQueueFastAck.seqGt
          (a.link.queue.lastRcvAck - UInt32.ofNat (packet.headerSize - 20))
          a.link.queue.lastRcvAck = false :=
        NetworkQueueFastAck.seqGt_sub_eq_false hoptions
      rw [← hend, UInt32.add_sub_cancel, hend, hgt] at hnewer
      cases hnewer
  · exact hgone hmem

/-- An acknowledgement of position 1 leaves the cache alone exactly if it meets the condition. -/
theorem holdsUnacked_ackOne_iff (ha : a.Uncovered) (hcache : a.HoldsUnacked) {windowSize : UInt16}
    (h : a.step (.ack 1 windowSize) = some b) :
    b.HoldsUnacked ↔ a.CoversNothing (.ack 1 windowSize) := by
  have hboundary : a.IsBoundary 1 := .inl rfl
  obtain ⟨hqueue, hforwarded, hhighest⟩ := step_ack h
  obtain ⟨hafter, -⟩ := NetworkQueueFastAck.onRecvSnddev_clientAck 1 windowSize a.link.queue
  have hfilter := ha.filter_eq (max_le ha.highest (le_refl 1))
  have hone : UInt32.ofNat 1 = 1 := rfl
  rw [HoldsUnacked, hqueue, hforwarded, hhighest, hfilter, ← ha.cache_eq hcache, hone, hafter]
  simp only [CoversNothing, hboundary, true_implies, true_and, eq_comm (a := (1 : UInt32))]
  split_ifs with hlast hthird hgt
  · rw [NetworkQueueFastAck.cache_retransmit_eq_iff]
    exact ⟨fun hnone _ => hnone, fun hnone => hnone hthird⟩
  · exact iff_of_true rfl fun hthird' => absurd hthird' hthird
  · exact NetworkQueueFastAck.cache_trimCache_eq_iff _
  · -- before the first acknowledgement the number 1 is newer
    refine absurd ?_ hgt
    rw [ha.last, ha.highestAck_eq_zero hlast]
    decide

theorem Uncovered.ackOne (ha : a.Uncovered) {windowSize : UInt16}
    (h : a.step (.ack 1 windowSize) = some b) : b.Uncovered := by
  obtain ⟨hqueue, hforwarded, hhighest⟩ := step_ack h
  obtain ⟨-, hlast⟩ := NetworkQueueFastAck.onRecvSnddev_clientAck 1 windowSize a.link.queue
  obtain ⟨hip, hcc⟩ : b.link.queue.recvIP = a.link.queue.recvIP ∧
      b.link.queue.ccCreate = a.link.queue.ccCreate := by
    obtain ⟨_, _, _, _, _, _, hrecv⟩ := NetworkQueueFastAck.onRecvSnddev_frame
      (a.link.queue.clientAck (UInt32.ofNat 1) windowSize) a.link.queue
    rw [hqueue, hrecv]
    exact ⟨rfl, rfl⟩
  have hone : UInt32.ofNat 1 = 1 := rfl
  have hmax : max a.highestAck 1 = 1 := max_eq_right ha.highest
  refine ⟨?_, ?_, ?_, ?_, ?_⟩
  · rw [hcc, ha.cc]
  · rw [hqueue, hhighest, hmax, hone, hlast]
    split_ifs with hgt
    · rfl
    · -- not newer: the same number again
      by_contra hne
      apply hgt
      rw [ha.last, ha.highestAck_eq_zero hne]
      decide
  · rw [hhighest, hmax]
  · rw [hforwarded, hip]
    exact ha.data
  · rw [hforwarded]
    exact ha.sorted

/-- A data segment is cached, and is not acknowledged yet. -/
theorem Uncovered.segment (ha : a.Uncovered) {now : Time} {packet : Segment}
    (h : a.step (.segment now packet) = some b) :
    b.Uncovered ∧ (a.HoldsUnacked → b.HoldsUnacked) := by
  simp only [step] at h
  split_ifs at h with horder
  obtain ⟨link, hlink, rfl⟩ := Option.map_eq_some_iff.mp h
  cases hlink
  obtain ⟨hdata, hafter⟩ := horder
  obtain ⟨hcache, hlast, hcc, hip⟩ :=
    NetworkQueueFastAck.onRecvRcvdev_of_isData ha.cc hdata now
  have hb : Uncovered
      ⟨⟨a.link.queue.onRecvRcvdev now packet, a.link.packetList, a.link.transmitted⟩,
        a.forwarded ++ [packet], a.highestAck⟩ := by
    refine ⟨hcc.trans ha.cc, hlast.trans ha.last, ha.highest, ?_, ?_⟩
    · intro seg hseg
      change seg.IsData (a.link.queue.onRecvRcvdev now packet).recvIP
      rw [hip]
      rcases List.mem_append.mp hseg with hseg | hseg
      · exact ha.data seg hseg
      · rwa [List.mem_singleton.mp hseg]
    · refine List.pairwise_append.mpr ⟨ha.sorted, List.pairwise_singleton _ _, ?_⟩
      intro earlier hearlier later hlater
      rw [List.mem_singleton.mp hlater]
      exact hafter earlier hearlier
  refine ⟨hb, fun hholds => ?_⟩
  rw [HoldsUnacked, hb.filter_eq ha.highest]
  exact hcache.trans (congrArg (· ++ [packet]) (ha.cache_eq hholds))

theorem Uncovered.checkAck (ha : a.Uncovered) (h : a.step .checkAck = some b) :
    b.Uncovered ∧ (a.HoldsUnacked → b.HoldsUnacked) := by
  obtain ⟨link, hlink, rfl⟩ := Option.map_eq_some_iff.mp h
  simp only [FastAckLink.step] at hlink
  split_ifs at hlink
  cases hlink
  obtain ⟨_, _, _, _, _, _, hcheck⟩ :=
    NetworkQueueFastAck.checkAck_frame a.link.packetList a.link.queue
  simp only [hcheck]
  exact ⟨⟨ha.cc, ha.last, ha.highest, ha.data, ha.sorted⟩, fun hholds => hholds⟩

/-- An event keeps the cache to what is not acknowledged exactly if it meets the condition. -/
theorem holdsUnacked_step_iff (ha : a.Uncovered) (hcache : a.HoldsUnacked) {e : Event}
    (h : a.step e = some b) : b.HoldsUnacked ↔ a.CoversNothing e := by
  cases e with
  | segment now packet => exact iff_of_true ((ha.segment h).2 hcache) trivial
  | transmit packet =>
      cases h
      exact iff_of_true hcache trivial
  | checkAck => exact iff_of_true ((ha.checkAck h).2 hcache) trivial
  | ack pos windowSize =>
      have hboundary : a.IsBoundary pos := by
        by_contra hout
        simp only [step, hout, if_false, reduceCtorEq] at h
      by_cases hone : pos = 1
      · subst hone
        exact holdsUnacked_ackOne_iff ha hcache h
      · obtain ⟨seg, hseg, rfl⟩ := hboundary.resolve_left hone
        exact iff_of_false (not_holdsUnacked_of_covers ha hcache hseg h)
          fun hnothing => hone (hnothing hboundary).1

theorem Uncovered.step (ha : a.Uncovered) {e : Event} (he : a.CoversNothing e)
    (h : a.step e = some b) : b.Uncovered := by
  cases e with
  | segment now packet => exact (ha.segment h).1
  | transmit packet =>
      cases h
      exact ⟨ha.cc, ha.last, ha.highest, ha.data, ha.sorted⟩
  | checkAck => exact (ha.checkAck h).1
  | ack pos windowSize =>
      have hboundary : a.IsBoundary pos := by
        by_contra hout
        simp only [CacheLog.step, hout, if_false, reduceCtorEq] at h
      obtain ⟨rfl, -⟩ := he hboundary
      exact ha.ackOne h

/-! ## Runs -/

/-- After `InitSocket`, with TCP. -/
def init (mode : Int) (sendIP recvIP : UInt32) (lastAckId : UInt16) (dupNumber : UInt32) :
    CacheLog :=
  ⟨.init (.init mode true sendIP recvIP lastAckId dupNumber), [], 0⟩

/-- In both modes, over data segments in order and acknowledgements at their boundaries, the cache
holds exactly what the client has not acknowledged if and only if no acknowledgement covers a
segment, the first one finds no end at 0 modulo 2³², and none is the third for a cached segment. -/
theorem holdsUnacked_iff_coversNothing (mode : Int) (sendIP recvIP : UInt32) (lastAckId : UInt16)
    (dupNumber : UInt32) (events : List Event) :
    Run.Always CacheLog.step HoldsUnacked (init mode sendIP recvIP lastAckId dupNumber) events ↔
      Run.Each CacheLog.step CoversNothing (init mode sendIP recvIP lastAckId dupNumber)
        events := by
  apply Run.always_iff_each_of_kept (I := Uncovered)
  · exact fun a e b ha _ he hstep => ha.step he hstep
  · exact fun a e b ha hcache hstep => holdsUnacked_step_iff ha hcache hstep
  · intro a e _ _ hout
    cases e with
    | ack pos windowSize =>
        have hboundary : a.IsBoundary pos := by
          by_contra hno
          exact hout fun hyes => absurd hyes hno
        exact ⟨_, if_pos hboundary⟩
    | _ => exact absurd trivial hout
  · exact ⟨rfl, rfl, Nat.zero_le 1, by simp [init], List.Pairwise.nil⟩
  · rfl

/-- A data segment for client 2, of 1000 bytes. -/
private def thousandBytes (pos : ℕ) : Segment := ⟨2, 6, 1020, 16, 20, pos⟩

/-- The client acknowledges the first of two segments, and both stay in the cache. -/
theorem not_holdsUnacked_firstSegment :
    ¬ Run.Always CacheLog.step HoldsUnacked (init 1 1 2 0 0)
      [.ack 1 65535, .segment 0 (thousandBytes 1), .segment 0 (thousandBytes 1001),
        .ack 1001 65535] := by
  intro h
  obtain ⟨a, ha, hcache, hforwarded, hhighest⟩ : ∃ a, Run.exec CacheLog.step (init 1 1 2 0 0)
      [.ack 1 65535, .segment 0 (thousandBytes 1), .segment 0 (thousandBytes 1001),
        .ack 1001 65535] = some a ∧
      a.link.queue.cache = [thousandBytes 1, thousandBytes 1001] ∧
      a.forwarded = [thousandBytes 1, thousandBytes 1001] ∧ a.highestAck = 1001 :=
    ⟨_, rfl, rfl, rfl, rfl⟩
  have hholds := h.exec ha
  rw [HoldsUnacked, hcache, hforwarded, hhighest] at hholds
  exact absurd hholds (by decide)

end CacheLog

end Zhuge
