import TcpHw.Basic

/-!
# The numbering stage of `protocol_logic_pipe`

Stage N turns the transmit state and the tail pointer read for a flow into the
next transmit state and a segment descriptor. A pass that carries a retransmit or
timeout flag resends from the acknowledged number; every other pass continues at
`tx_curr_seq_num`.
-/
namespace TcpHw

set_option autoImplicit false

/-- `segment_calculator` at `ptr_w = TX_PAYLOAD_PTR_W`. -/
def segmentCalculator (trailPtr leadPtr : Ptr) : Ptr :=
  let bufSize := leadPtr - trailPtr
  if bufSize.toNat > maxSegSize then BitVec.ofNat 13 maxSegSize
  else if bufSize.toNat < 32 then bufSize
  else (bufSize >>> 5) <<< 5

/-- `timeout_pending | rt_pending` -/
def RtTimeoutFlags.any (f : RtTimeoutFlags) : Bool := f.timeoutPending || f.rtPending

/-- What stage N hands to stage W. -/
structure Numbered where
  nextTxData : TxState
  payloadBuf : PayloadBuf
  txPktSeqNum : BitVec 32
  generatePkt : Bool
  deriving DecidableEq, Inhabited

/-- `tx_timer_exp_n` -/
def txTimerExp (tx : TxState) (now : BitVec 64) : Bool :=
  tx.timer.timerArmed && decide (tx.timer.timestamp < now)

/-- The sequence number a pass starts from: `tx_curr_ack_num` with a flag, otherwise
`tx_curr_seq_num`. -/
def passSeqNum (flags : RtTimeoutFlags) (tx : TxState) : BitVec 32 :=
  if flags.any then tx.txCurrAckState.txCurrAckNum else tx.txCurrSeqNum

/-- `rt_seg_size_n` or `new_seg_size_n`, whichever the pass uses. -/
def passSegSize (flags : RtTimeoutFlags) (tx : TxState) (tailPtr : Ptr) : Ptr :=
  segmentCalculator ((passSeqNum flags tx).setWidth 13) tailPtr

/-- Stage N of one pass; `now` is `timestamp_reg_n`. -/
def numbering (flags : RtTimeoutFlags) (tx : TxState) (tailPtr : Ptr) (now : BitVec 64) :
    Numbered :=
  let segSize := passSegSize flags tx tailPtr
  let generatePkt := flags.any || txTimerExp tx now || segSize != 0
  { nextTxData :=
      { txCurrSeqNum := passSeqNum flags tx + segSize.setWidth 32
        timer :=
          { timestamp := if generatePkt then now + BitVec.ofNat 64 txTimerLen
              else tx.timer.timestamp
            timerArmed := tx.timer.timerArmed || generatePkt }
        txCurrAckState := tx.txCurrAckState }
    payloadBuf :=
      { payloadAddr := ((passSeqNum flags tx).setWidth 12).setWidth 32
        payloadLen := segSize.setWidth 16 }
    txPktSeqNum := passSeqNum flags tx
    generatePkt := generatePkt }

theorem segmentCalculator_toNat (trailPtr leadPtr : Ptr) :
    (segmentCalculator trailPtr leadPtr).toNat =
      if (leadPtr - trailPtr).toNat > 1024 then 1024
      else if (leadPtr - trailPtr).toNat < 32 then (leadPtr - trailPtr).toNat
      else (leadPtr - trailPtr).toNat / 32 * 32 := by
  unfold segmentCalculator
  have hlt := (leadPtr - trailPtr).isLt
  simp only [maxSegSize]
  split
  · rfl
  · split
    · rfl
    · rw [BitVec.toNat_shiftLeft, BitVec.toNat_ushiftRight, Nat.shiftRight_eq_div_pow,
        Nat.shiftLeft_eq]
      omega

/-- A segment never reaches past the tail pointer. -/
theorem segmentCalculator_le (trailPtr leadPtr : Ptr) :
    (segmentCalculator trailPtr leadPtr).toNat ≤ (leadPtr - trailPtr).toNat := by
  rw [segmentCalculator_toNat]
  split
  · omega
  · split <;> omega

theorem segmentCalculator_le_max (trailPtr leadPtr : Ptr) :
    (segmentCalculator trailPtr leadPtr).toNat ≤ 1024 := by
  rw [segmentCalculator_toNat]
  split
  · omega
  · split <;> omega

/-- A flagged pass always generates a packet. -/
theorem numbering_generate_of_any {flags : RtTimeoutFlags} (h : flags.any = true) (tx : TxState)
    (tailPtr : Ptr) (now : BitVec 64) : (numbering flags tx tailPtr now).generatePkt = true := by
  simp [numbering, h]

end TcpHw
