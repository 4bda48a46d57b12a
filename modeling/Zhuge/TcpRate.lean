-- SUMMARY: The sending rate that the TCP sender estimates from its writes and from what is pending in the socket.
import Mathlib.Data.UInt
import Zhuge.Lib.Run
import Zhuge.Lib.Sweep
import Zhuge.Policies

/-!
# The sending rate over TCP

`UpdateSendingRate` runs once per window. It adds up the writes of the last window and takes off
what the pending bytes have grown by: the rest went to the network. The socket is modelled by the
bytes in its send buffer that were sent and that are pending.
-/

namespace Zhuge

/-! ## The sender -/

/-- The state of `PacketSenderTcp` that its rate is computed from. -/
structure TcpRateSender where
  kTxRateUpdateWindowMs : UInt32
  txBufSize : UInt32
  /-- `m_time_history` and `m_write_history`, pushed and popped together. -/
  writeHistory : List (ℤ × UInt32)
  dutyState : List Bool
  lastPendingBuf : UInt32
  firstUpdate : Bool
  bitrate : UInt32
  kMinEncodeBps : UInt32
  kMaxEncodeBps : UInt32

namespace TcpRateSender

/-- `SendPacket`, when the socket takes `sendif` bytes. -/
def recordWrite (now : Time) (sendif : UInt32) (s : TcpRateSender) : TcpRateSender :=
  { s with writeHistory := s.writeHistory ++ [(now.getMilliSeconds, sendif)] }

/-- `UpdateDutyRatio`. -/
def updateDutyRatio (now : Time) (sentsize txbuffer : UInt32) (s : TcpRateSender) :
    TcpRateSender :=
  let nowIndex : UInt16 := .ofInt (now.getMilliSeconds % s.kTxRateUpdateWindowMs.toNat)
  { s with dutyState := s.dutyState.set nowIndex.toNat (sentsize + txbuffer < s.txBufSize) }

/-- `curPendingBuf`. -/
def curPendingBuf (sentsize txbufferavailble : UInt32) (s : TcpRateSender) : UInt32 :=
  s.txBufSize - sentsize - txbufferavailble

/-- The history that is left at `timeNow`: older writes are popped from the front. -/
def windowWrites (timeNow : ℤ) (s : TcpRateSender) : List (ℤ × UInt32) :=
  s.writeHistory.dropWhile fun write => timeNow - write.1 > s.kTxRateUpdateWindowMs.toNat

/-- `totalWriteBytes`. -/
def totalWriteBytes (timeNow : ℤ) (s : TcpRateSender) : UInt32 :=
  (s.windowWrites timeNow).foldl (fun total write => total + write.2) 0

/-- `totalSendBytes`. The signed difference of the pending bytes is its 32 bits. -/
def totalSendBytes (timeNow : ℤ) (curPendingBuf : UInt32) (s : TcpRateSender) : UInt32 :=
  s.totalWriteBytes timeNow - (curPendingBuf - s.lastPendingBuf)

/-- `lastSendingRateBps`. -/
def lastSendingRateBps (timeNow : ℤ) (curPendingBuf : UInt32) (s : TcpRateSender) : UInt32 :=
  s.totalSendBytes timeNow curPendingBuf * 1000 * 8 / s.kTxRateUpdateWindowMs

/-- `m_bitrate` after an update that is not the first, before it is bounded. -/
def adaptBitrate (curPendingBuf totalSendBytes lastSendingRateBps : UInt32) (s : TcpRateSender) :
    UInt32 :=
  let bitrate : Binary64 := .ofNat s.bitrate.toNat
  if curPendingBuf > 0 then
    let floor : Binary64 := .ofRat (1 / 10)
    -- one minus infinity is below the floor
    let share := match quotient (.ofNat curPendingBuf.toNat) (.ofNat totalSendBytes.toNat) with
      | none => floor
      | some pending =>
        if floor.val < ((Binary64.ofNat 1).sub pending).val then (Binary64.ofNat 1).sub pending
        else floor
    let sending := share.mul (.ofNat lastSendingRateBps.toNat)
    .ofInt (truncate ((Binary64.ofRat (3 / 4)).mul
      (if sending.val < bitrate.val then sending else bitrate)))
  else
    let dutyRatio := (Binary64.ofNat (s.dutyState.count true)).div
      (.ofNat s.kTxRateUpdateWindowMs.toNat)
    .ofInt (truncate (bitrate.sub (((Binary64.ofRat (1 / 2)).mul
      (dutyRatio.sub (.ofRat (3 / 4)))).mul bitrate)))

/-- `UpdateSendingRate`. -/
def updateSendingRate (now : Time) (sentsize txbufferavailble : UInt32) (s : TcpRateSender) :
    TcpRateSender :=
  let timeNow := now.getMilliSeconds
  let curPendingBuf := s.curPendingBuf sentsize txbufferavailble
  { s with
    writeHistory := s.windowWrites timeNow
    firstUpdate := false
    lastPendingBuf := curPendingBuf
    bitrate :=
      if s.firstUpdate then s.kMinEncodeBps
      else max (min (s.adaptBitrate curPendingBuf (s.totalSendBytes timeNow curPendingBuf)
        (s.lastSendingRateBps timeNow curPendingBuf)) s.kMaxEncodeBps) s.kMinEncodeBps }

end TcpRateSender

/-! ## The socket -/

/-- The bytes in the send buffer of the socket: sent and not acknowledged, and not sent yet. -/
structure SendBuffer where
  sent : ℕ
  pending : ℕ

/-- `GetSentSize`. -/
def SendBuffer.sentSize (b : SendBuffer) : UInt32 := .ofNat b.sent

/-- `GetTxAvailable`, for a buffer of `size` bytes. -/
def SendBuffer.txAvailable (size : UInt32) (b : SendBuffer) : UInt32 :=
  size - .ofNat (b.sent + b.pending)

/-- The sender on a socket, and what has happened since its last update. -/
structure TcpRateRun where
  sender : TcpRateSender
  buffer : SendBuffer
  clock : Time
  updatedAt : Time
  /-- The writes before the last update. -/
  reported : List (ℤ × UInt32)
  /-- The writes since the last update. -/
  unreported : List (ℤ × UInt32)
  /-- The bytes that went to the network since the last update. -/
  moved : ℕ

namespace TcpRateRun

inductive Event where
  | write (now : Time) (bytes : UInt32)
  /-- The socket sends pending bytes. -/
  | transmit (bytes : ℕ)
  /-- Sent bytes leave the buffer. -/
  | acknowledge (bytes : ℕ)
  | updateDutyRatio (now : Time)
  | updateSendingRate (now : Time)

/-- A new sender, which runs from `now` on. -/
def start (window txBufSize kMinEncodeBps kMaxEncodeBps : UInt32) (now : Time) : TcpRateRun where
  sender := {
    kTxRateUpdateWindowMs := window
    txBufSize := txBufSize
    writeHistory := []
    dutyState := List.replicate window.toNat false
    lastPendingBuf := 0
    firstUpdate := true
    bitrate := kMinEncodeBps
    kMinEncodeBps := kMinEncodeBps
    kMaxEncodeBps := kMaxEncodeBps }
  buffer := ⟨0, 0⟩
  clock := now
  updatedAt := now
  reported := []
  unreported := []
  moved := 0

def step (s : TcpRateRun) : Event → Option TcpRateRun
  | .write now bytes => some { s with
      sender := s.sender.recordWrite now bytes
      buffer := { s.buffer with pending := s.buffer.pending + bytes.toNat }
      clock := now
      unreported := s.unreported ++ [(now.getMilliSeconds, bytes)] }
  | .transmit bytes => some { s with
      buffer := ⟨s.buffer.sent + bytes, s.buffer.pending - bytes⟩
      moved := s.moved + bytes }
  | .acknowledge bytes => some { s with buffer := { s.buffer with sent := s.buffer.sent - bytes } }
  | .updateDutyRatio now => some { s with
      sender := s.sender.updateDutyRatio now s.buffer.sentSize
        (s.buffer.txAvailable s.sender.txBufSize) }
  | .updateSendingRate now => some { s with
      sender := s.sender.updateSendingRate now s.buffer.sentSize
        (s.buffer.txAvailable s.sender.txBufSize)
      clock := now
      updatedAt := now
      reported := s.reported ++ s.unreported
      unreported := []
      moved := 0 }

/-- Time goes on, the buffer holds what it is given, and the updates are a window apart. -/
def Proper (s : TcpRateRun) : Event → Prop
  | .write now bytes => s.clock ≤ now ∧
      s.buffer.sent + s.buffer.pending + bytes.toNat ≤ s.sender.txBufSize.toNat
  | .transmit bytes => bytes ≤ s.buffer.pending
  | .acknowledge bytes => bytes ≤ s.buffer.sent
  | .updateDutyRatio _ => True
  | .updateSendingRate now => s.clock ≤ now ∧
      now = s.updatedAt + Time.milliSeconds s.sender.kTxRateUpdateWindowMs.toNat

/-- The rate of an update. -/
def rate (s : TcpRateRun) (now : Time) : UInt32 :=
  s.sender.lastSendingRateBps now.getMilliSeconds
    (s.sender.curPendingBuf s.buffer.sentSize (s.buffer.txAvailable s.sender.txBufSize))

/-- An update counts the writes since the one before, each once, and from the second on its rate
is that of the bytes that went to the network. -/
def Right (s : TcpRateRun) : Event → Prop
  | .updateSendingRate now =>
    s.sender.windowWrites now.getMilliSeconds = s.unreported ∧
    (s.sender.firstUpdate = false →
      (s.rate now).toNat = 8000 * s.moved / s.sender.kTxRateUpdateWindowMs.toNat)
  | _ => True

/-- No write was made before the last update and in the millisecond of it, and the bits per
second, in units of a window, fit in 32 bits. -/
def Fits (s : TcpRateRun) : Event → Prop
  | .updateSendingRate _ =>
    (∀ write ∈ s.reported, write.1 ≠ s.updatedAt.getMilliSeconds) ∧
    (s.sender.firstUpdate = false → 8000 * s.moved < 2 ^ 32)
  | _ => True

/-! ## Milliseconds -/

theorem getMilliSeconds_mono {t t' : Int} (h : 0 ≤ t) (hle : t ≤ t') :
    Time.getMilliSeconds t ≤ Time.getMilliSeconds t' := by
  rw [Time.getMilliSeconds, Time.getMilliSeconds, Int.tdiv_eq_ediv_of_nonneg h,
    Int.tdiv_eq_ediv_of_nonneg (h.trans hle)]
  omega

theorem getMilliSeconds_add {t : Int} (h : 0 ≤ t) (n : ℕ) :
    Time.getMilliSeconds (t + Time.milliSeconds n) = Time.getMilliSeconds t + n := by
  have hsum : 0 ≤ t + (n : Int) * 1000000 := by omega
  rw [Time.getMilliSeconds, Time.getMilliSeconds, Time.milliSeconds, Int.tdiv_eq_ediv_of_nonneg h,
    Int.tdiv_eq_ediv_of_nonneg hsum]
  omega

/-! ## The invariant -/

/-- The bytes of some writes. -/
def bytes (writes : List (ℤ × UInt32)) : ℕ := (writes.map (·.2.toNat)).sum

theorem bytes_append (writes : List (ℤ × UInt32)) (write : ℤ × UInt32) :
    bytes (writes ++ [write]) = bytes writes + write.2.toNat := by
  simp [bytes]

/-- The history has the writes since the last update behind those of a window before it, and the
bytes written since are pending or went to the network. -/
structure Inv (s : TcpRateRun) : Prop where
  window_pos : 0 < s.sender.kTxRateUpdateWindowMs.toNat
  nonneg : 0 ≤ s.updatedAt
  updatedAt_le : s.updatedAt ≤ s.clock
  history : s.sender.writeHistory =
    (s.reported.filter fun write =>
      s.updatedAt.getMilliSeconds ≤ write.1 + s.sender.kTxRateUpdateWindowMs.toNat) ++ s.unreported
  sorted : (s.reported ++ s.unreported).Pairwise fun write write' => write.1 ≤ write'.1
  reported_le : ∀ write ∈ s.reported, write.1 ≤ s.updatedAt.getMilliSeconds
  le_unreported : ∀ write ∈ s.unreported,
    s.updatedAt.getMilliSeconds ≤ write.1 ∧ write.1 ≤ s.clock.getMilliSeconds
  buffer : s.buffer.sent + s.buffer.pending ≤ s.sender.txBufSize.toNat
  balance : s.sender.lastPendingBuf.toNat + bytes s.unreported = s.buffer.pending + s.moved

variable {s s' : TcpRateRun}

theorem inv_start {window : UInt32} (hwindow : 0 < window.toNat) (txBufSize kMinEncodeBps
    kMaxEncodeBps : UInt32) {now : Time} (hnow : 0 ≤ now) :
    (start window txBufSize kMinEncodeBps kMaxEncodeBps now).Inv where
  window_pos := hwindow
  nonneg := hnow
  updatedAt_le := le_rfl
  history := rfl
  sorted := .nil
  reported_le := fun _ h => absurd h List.not_mem_nil
  le_unreported := fun _ h => absurd h List.not_mem_nil
  buffer := Nat.zero_le _
  balance := rfl

theorem Inv.write (h : s.Inv) {now : Time} {sendif : UInt32} (hnow : s.clock ≤ now)
    (hfits : s.buffer.sent + s.buffer.pending + sendif.toNat ≤ s.sender.txBufSize.toNat)
    (hstep : s.step (.write now sendif) = some s') : s'.Inv := by
  cases hstep
  have hclock : s.clock.getMilliSeconds ≤ now.getMilliSeconds :=
    getMilliSeconds_mono (h.nonneg.trans h.updatedAt_le) hnow
  have hupdated : s.updatedAt.getMilliSeconds ≤ s.clock.getMilliSeconds :=
    getMilliSeconds_mono h.nonneg h.updatedAt_le
  refine ⟨h.window_pos, h.nonneg, h.updatedAt_le.trans hnow, ?_, ?_, h.reported_le, ?_, ?_, ?_⟩
  · change s.sender.writeHistory ++ _ = _
    rw [h.history, List.append_assoc]
    rfl
  · change (s.reported ++ (s.unreported ++ [_])).Pairwise _
    rw [← List.append_assoc, List.pairwise_append]
    refine ⟨h.sorted, List.pairwise_singleton _ _, fun write hwrite write' hnew => ?_⟩
    rw [List.mem_singleton.mp hnew]
    rcases List.mem_append.mp hwrite with hold | hwrite
    · exact (h.reported_le write hold).trans (hupdated.trans hclock)
    · exact (h.le_unreported write hwrite).2.trans hclock
  · intro write hwrite
    rcases List.mem_append.mp hwrite with hwrite | hnew
    · exact ⟨(h.le_unreported write hwrite).1, (h.le_unreported write hwrite).2.trans hclock⟩
    · rw [List.mem_singleton.mp hnew]
      exact ⟨hupdated.trans hclock, le_rfl⟩
  · change s.buffer.sent + (s.buffer.pending + sendif.toNat) ≤ s.sender.txBufSize.toNat
    omega
  · have hbalance := h.balance
    change s.sender.lastPendingBuf.toNat + bytes (s.unreported ++ [_]) =
      s.buffer.pending + sendif.toNat + s.moved
    rw [bytes_append]
    dsimp only
    omega

/-- The socket moves bytes out of the pending ones, or drops sent ones. -/
theorem Inv.socket (h : s.Inv) {sent pending moved : ℕ}
    (hbuffer : sent + pending ≤ s.buffer.sent + s.buffer.pending)
    (hbalance : pending + moved = s.buffer.pending + s.moved) :
    Inv { s with buffer := ⟨sent, pending⟩, moved } :=
  { h with
    buffer := hbuffer.trans h.buffer
    balance := h.balance.trans hbalance.symm }

/-! ## An update -/

section

variable {now : Time}

/-- The time of an update in milliseconds is a window later than that of the last one. -/
theorem Inv.getMilliSeconds_eq (h : s.Inv)
    (hnow : now = s.updatedAt + Time.milliSeconds s.sender.kTxRateUpdateWindowMs.toNat) :
    now.getMilliSeconds =
      s.updatedAt.getMilliSeconds + s.sender.kTxRateUpdateWindowMs.toNat := by
  rw [hnow]
  exact getMilliSeconds_add h.nonneg _

/-- An update counts the writes since the last one, and those before it within its
millisecond. -/
theorem Inv.windowWrites_eq (h : s.Inv)
    (hnow : now = s.updatedAt + Time.milliSeconds s.sender.kTxRateUpdateWindowMs.toNat) :
    s.sender.windowWrites now.getMilliSeconds =
      (s.reported.filter fun write => s.updatedAt.getMilliSeconds ≤ write.1) ++ s.unreported := by
  have hold : ∀ write : ℤ × UInt32,
      ¬ now.getMilliSeconds - write.1 > s.sender.kTxRateUpdateWindowMs.toNat ↔
        s.updatedAt.getMilliSeconds ≤ write.1 := by
    intro write
    rw [h.getMilliSeconds_eq hnow]
    omega
  have hsorted : s.sender.writeHistory.Pairwise fun write write' => write.1 ≤ write'.1 := by
    rw [h.history]
    exact h.sorted.sublist (List.filter_sublist.append_right _)
  have hexpired : Sweep.ExpiredFirst (fun write : ℤ × UInt32 =>
      decide (now.getMilliSeconds - write.1 > s.sender.kTxRateUpdateWindowMs.toNat))
      s.sender.writeHistory := by
    refine Sweep.expiredFirst_of_sorted Prod.fst (fun write write' hle hgt => ?_) hsorted
    rw [decide_eq_true_eq] at hgt ⊢
    omega
  rw [TcpRateSender.windowWrites, Sweep.dropWhile_eq_filter_of_expiredFirst hexpired, h.history,
    List.filter_append, List.filter_filter]
  simp only [decide_eq_true_eq, hold]
  congr 1
  · refine List.filter_congr fun write _ => ?_
    rw [← Bool.decide_and, decide_eq_decide]
    omega
  · rw [List.filter_eq_self]
    intro write hwrite
    exact decide_eq_true (h.le_unreported write hwrite).1

/-- The writes counted are those since the last update if there are none before it within its
millisecond. -/
theorem Inv.windowWrites_eq_iff (h : s.Inv)
    (hnow : now = s.updatedAt + Time.milliSeconds s.sender.kTxRateUpdateWindowMs.toNat) :
    s.sender.windowWrites now.getMilliSeconds = s.unreported ↔
      ∀ write ∈ s.reported, write.1 ≠ s.updatedAt.getMilliSeconds := by
  rw [h.windowWrites_eq hnow, List.append_left_eq_self, List.filter_eq_nil_iff]
  refine forall₂_congr fun write hwrite => ?_
  have hle := h.reported_le write hwrite
  rw [decide_eq_true_eq]
  omega

/-- The pending bytes, as the update computes them. -/
theorem curPendingBuf_eq (s : TcpRateRun) :
    s.sender.curPendingBuf s.buffer.sentSize (s.buffer.txAvailable s.sender.txBufSize) =
      .ofNat s.buffer.pending := by
  rw [TcpRateSender.curPendingBuf, SendBuffer.sentSize, SendBuffer.txAvailable, UInt32.ofNat_add]
  grind

theorem foldl_add_eq (writes : List (ℤ × UInt32)) (total : UInt32) :
    writes.foldl (fun total write => total + write.2) total = total + .ofNat (bytes writes) := by
  induction writes generalizing total with
  | nil => exact (add_zero total).symm
  | cons write writes ih =>
    have hbytes : bytes (write :: writes) = write.2.toNat + bytes writes := List.sum_cons
    rw [List.foldl_cons, ih, hbytes, UInt32.ofNat_add, UInt32.ofNat_toNat, add_assoc]

/-- When the writes since the last update are counted, what is left is what went to the
network. -/
theorem Inv.totalSendBytes_eq (h : s.Inv)
    (hwrites : s.sender.windowWrites now.getMilliSeconds = s.unreported) :
    s.sender.totalSendBytes now.getMilliSeconds (.ofNat s.buffer.pending) = .ofNat s.moved := by
  have hbalance := congrArg UInt32.ofNat h.balance
  rw [UInt32.ofNat_add, UInt32.ofNat_add, UInt32.ofNat_toNat] at hbalance
  rw [TcpRateSender.totalSendBytes, TcpRateSender.totalWriteBytes, hwrites, foldl_add_eq, zero_add]
  grind

theorem toNat_rate_eq (moved : ℕ) (window : UInt32) :
    (UInt32.ofNat moved * 1000 * 8 / window).toNat = 8000 * moved % 2 ^ 32 / window.toNat := by
  have hmul : UInt32.ofNat moved * 1000 * 8 = .ofNat (8000 * moved) := by
    rw [UInt32.ofNat_mul, mul_assoc, mul_comm]
    rfl
  rw [hmul, UInt32.toNat_div, UInt32.toNat_ofNat']

/-- A quotient is right after a reduction of the dividend exactly if there was nothing to
reduce. -/
theorem mod_div_eq_iff {n m k : ℕ} (hk : 0 < k) (hle : k ≤ m) : n % m / k = n / k ↔ n < m := by
  constructor
  · intro h
    by_contra hge
    have hsum : n % m + m ≤ n := by
      have hdiv := Nat.mod_add_div n m
      have hpos : 1 ≤ n / m := (Nat.one_le_div_iff (hk.trans_le hle)).mpr (not_lt.mp hge)
      have hmul : m ≤ m * (n / m) := Nat.le_mul_of_pos_right m hpos
      omega
    have hlt : n % m / k < n / k := by
      rw [← Nat.succ_le_iff, Nat.succ_eq_add_one, ← Nat.add_div_right _ hk]
      exact Nat.div_le_div_right (by omega)
    exact hlt.ne h
  · intro h
    rw [Nat.mod_eq_of_lt h]

/-- An update is right exactly under the condition. -/
theorem Inv.right_iff (h : s.Inv) {e : Event} (hproper : s.Proper e) :
    s.Right e ↔ s.Fits e := by
  cases e with
  | updateSendingRate now =>
    rw [Right, Fits, ← h.windowWrites_eq_iff hproper.2]
    refine and_congr_right fun hwrites => imp_congr_right fun _ => ?_
    rw [rate, curPendingBuf_eq, TcpRateSender.lastSendingRateBps, h.totalSendBytes_eq hwrites,
      toNat_rate_eq]
    exact mod_div_eq_iff h.window_pos s.sender.kTxRateUpdateWindowMs.toNat_lt.le
  | write now sendif => exact Iff.rfl
  | transmit bytes => exact Iff.rfl
  | acknowledge bytes => exact Iff.rfl
  | updateDutyRatio now => exact Iff.rfl

theorem Inv.update (h : s.Inv) (hclock : s.clock ≤ now)
    (hnow : now = s.updatedAt + Time.milliSeconds s.sender.kTxRateUpdateWindowMs.toNat)
    (hstep : s.step (.updateSendingRate now) = some s') : s'.Inv := by
  have hpending : s.buffer.pending < 2 ^ 32 :=
    (Nat.le_add_left _ _).trans_lt (h.buffer.trans_lt s.sender.txBufSize.toNat_lt)
  have hms := h.getMilliSeconds_eq hnow
  have hmono : s.clock.getMilliSeconds ≤ now.getMilliSeconds :=
    getMilliSeconds_mono (h.nonneg.trans h.updatedAt_le) hclock
  cases hstep
  refine ⟨h.window_pos, h.nonneg.trans (h.updatedAt_le.trans hclock), le_rfl, ?_, ?_, ?_, ?_,
    h.buffer, ?_⟩
  · change s.sender.windowWrites now.getMilliSeconds =
      ((s.reported ++ s.unreported).filter fun write =>
        now.getMilliSeconds ≤ write.1 + s.sender.kTxRateUpdateWindowMs.toNat) ++ []
    have hkept : ∀ write : ℤ × UInt32,
        now.getMilliSeconds ≤ write.1 + s.sender.kTxRateUpdateWindowMs.toNat ↔
          s.updatedAt.getMilliSeconds ≤ write.1 := by
      intro write
      rw [hms]
      omega
    simp only [h.windowWrites_eq hnow, hkept, List.append_nil, List.filter_append]
    congr 1
    rw [eq_comm, List.filter_eq_self]
    exact fun write hwrite => decide_eq_true (h.le_unreported write hwrite).1
  · change (s.reported ++ s.unreported ++ []).Pairwise _
    rw [List.append_nil]
    exact h.sorted
  · intro write hwrite
    rcases List.mem_append.mp hwrite with hold | hnew
    · have hle := h.reported_le write hold
      change write.1 ≤ now.getMilliSeconds
      omega
    · exact (h.le_unreported write hnew).2.trans hmono
  · exact fun write hwrite => absurd hwrite List.not_mem_nil
  · change (s.sender.curPendingBuf s.buffer.sentSize
      (s.buffer.txAvailable s.sender.txBufSize)).toNat + 0 = s.buffer.pending + 0
    rw [curPendingBuf_eq, UInt32.toNat_ofNat', Nat.mod_eq_of_lt hpending]

end

theorem Inv.step (h : s.Inv) {e : Event} (hproper : s.Proper e) (hstep : s.step e = some s') :
    s'.Inv := by
  cases e with
  | write now sendif => exact h.write hproper.1 hproper.2 hstep
  | transmit bytes =>
    cases hstep
    have hle : bytes ≤ s.buffer.pending := hproper
    exact h.socket (by omega) (by omega)
  | acknowledge bytes =>
    cases hstep
    exact h.socket (Nat.add_le_add_right (Nat.sub_le _ _) _) rfl
  | updateDutyRatio now =>
    cases hstep
    exact ⟨h.window_pos, h.nonneg, h.updatedAt_le, h.history, h.sorted, h.reported_le,
      h.le_unreported, h.buffer, h.balance⟩
  | updateSendingRate now => exact h.update hproper.1 hproper.2 hstep

/-- Every write is counted by one update and every rate is exact if and only if no write comes
before an update within its millisecond and no window moves bytes of `2^32 / 8000` or more. -/
theorem right_iff_fits {window txBufSize kMinEncodeBps kMaxEncodeBps : UInt32}
    (hwindow : 0 < window.toNat) {now : Time} (hnow : 0 ≤ now) {events : List Event}
    (hproper : Run.Each step Proper
      (start window txBufSize kMinEncodeBps kMaxEncodeBps now) events) :
    Run.Each step Right (start window txBufSize kMinEncodeBps kMaxEncodeBps now) events ↔
      Run.Each step Fits (start window txBufSize kMinEncodeBps kMaxEncodeBps now) events :=
  Run.Each.iff_of_each (I := Inv) (fun _ _ _ hinv hok hstep => hinv.step hok hstep)
    (fun _ _ hinv hok => hinv.right_iff hok)
    (inv_start hwindow txBufSize kMinEncodeBps kMaxEncodeBps hnow) hproper

instance (s : TcpRateRun) : (e : Event) → Decidable (s.Proper e)
  | .write _ _ => inferInstanceAs (Decidable (_ ∧ _))
  | .transmit _ => inferInstanceAs (Decidable (_ ≤ _))
  | .acknowledge _ => inferInstanceAs (Decidable (_ ≤ _))
  | .updateDutyRatio _ => .isTrue trivial
  | .updateSendingRate _ => inferInstanceAs (Decidable (_ ∧ _))

instance (s : TcpRateRun) : (e : Event) → Decidable (s.Right e)
  | .updateSendingRate _ => inferInstanceAs (Decidable (_ ∧ (_ → _)))
  | .write _ _ | .transmit _ | .acknowledge _ | .updateDutyRatio _ => .isTrue trivial

instance (s : TcpRateRun) : (e : Event) → Decidable (s.Fits e)
  | .updateSendingRate _ => inferInstanceAs (Decidable ((∀ write ∈ s.reported, _) ∧ (_ → _)))
  | .write _ _ | .transmit _ | .acknowledge _ | .updateDutyRatio _ => .isTrue trivial

/-- A sender with a window of 40 ms. -/
def fortyMs : TcpRateRun := start 40 131072 1000000 8000000 0

/-- Writes between the updates. -/
theorem right_fortyMs : Run.Each step Right fortyMs
    [.write (.milliSeconds 10) 1000, .transmit 1000, .updateSendingRate (.milliSeconds 40),
      .write (.milliSeconds 50) 1000, .transmit 600, .acknowledge 600,
      .updateSendingRate (.milliSeconds 80)] :=
  (right_iff_fits (by decide) (by decide) (by decide +kernel)).mpr (by decide +kernel)

/-- A write in the millisecond of an update and before it is counted again by the next one. -/
theorem not_right_fortyMs :
    Run.Each step Proper fortyMs
      [.write (.milliSeconds 40) 1000, .updateSendingRate (.milliSeconds 40), .transmit 1000,
        .updateSendingRate (.milliSeconds 80)] ∧
    ¬ Run.Each step Right fortyMs
      [.write (.milliSeconds 40) 1000, .updateSendingRate (.milliSeconds 40), .transmit 1000,
        .updateSendingRate (.milliSeconds 80)] := by
  decide +kernel

end TcpRateRun

end Zhuge
