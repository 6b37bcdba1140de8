import TcpHw.Basic

/-!
# The combinational part of `est_pipe` stage C

`rx_ack_engine` decides whether a payload is the next one of the stream,
`tx_ack_engine` processes the acknowledgement number for the transmit side, and
`estCompute` is everything stage C derives from one packet and the state read for
its flow. Verilog widths are kept: an addition wraps at the width of its target
and a comparison is made at the width of its wider operand.
-/
namespace TcpHw

set_option autoImplicit false

/-- `rx_ack_engine`: the pair `(next_ack_num, accept_payload)`. -/
def rxAckEngine (currAckNum packetSeqNum : BitVec 32) (packetPayloadVal : Bool)
    (packetPayloadLen : BitVec 16) : BitVec 32 × Bool :=
  if packetPayloadVal && packetSeqNum == currAckNum then
    (packetSeqNum + packetPayloadLen.setWidth 32, true)
  else (currAckNum, false)

/-- The outputs of `tx_ack_engine`. -/
structure TxAckOut where
  nextAckState : TxAckState
  setRtFlag : Bool
  nextHeadPtr : Ptr
  deriving DecidableEq, Inhabited

/-- `data_unacked` -/
def dataUnacked (currSeqNum currAckNum : BitVec 32) : Bool := !(currSeqNum == currAckNum)

/-- `next_ack_num` of `tx_ack_engine`, with the separate test for a sequence number
that has wrapped while the acknowledgement number has not. -/
def nextAckNum (currAckNum pktAckNum currSeqNum : BitVec 32) : BitVec 32 :=
  if currSeqNum < currAckNum then
    if dataUnacked currSeqNum currAckNum &&
        (pktAckNum > currAckNum || pktAckNum < currSeqNum + 1) then pktAckNum
    else currAckNum
  else
    if dataUnacked currSeqNum currAckNum &&
        (pktAckNum > currAckNum && pktAckNum ≤ currSeqNum + 1) then pktAckNum
    else currAckNum

/-- `tx_ack_engine` -/
def txAckEngine (currAckNum pktAckNum currSeqNum : BitVec 32) (currAckCnt : BitVec 2) :
    TxAckOut :=
  let unacked := dataUnacked currSeqNum currAckNum
  let dupAck := currAckNum == pktAckNum && unacked
  let ackNum := nextAckNum currAckNum pktAckNum currSeqNum
  -- the sum is compared with an untyped parameter, so it does not wrap at two bits
  let setRtFlag := currAckCnt.toNat + dupAck.toNat == rtAckThreshold
  let ackCnt :=
    if !unacked || setRtFlag || !dupAck then 0
    else currAckCnt + BitVec.ofNat 2 dupAck.toNat
  { nextAckState := { txCurrAckCnt := ackCnt, txCurrAckNum := ackNum }
    setRtFlag := setRtFlag
    nextHeadPtr := ackNum.setWidth 13 }

/-- A packet as `est_pipe` receives it. -/
structure EstPkt where
  flowid : FlowId
  tcpHdr : TcpPktHdr
  payloadVal : Bool
  payloadEntry : PayloadBuf
  deriving DecidableEq, Inhabited

/-- What stage C hands to stage W for one packet. -/
structure EstNext where
  nextRecvState : RecvState
  nextAckState : TxAckState
  nextTxHeadPtr : Ptr
  nextTailPtr : Ptr
  acceptPayload : Bool
  setRtFlag : Bool
  deriving DecidableEq, Inhabited

/-- `rx_payload_q_space_left_c` -/
def spaceLeft (headPtr tailPtr : Ptr) : Ptr := 0x1000#13 - (tailPtr - headPtr)

/-- `accept_payload_c` -/
def acceptPayload (recv : RecvState) (headPtr tailPtr : Ptr) (p : EstPkt) : Bool :=
  (rxAckEngine recv.rxCurrAckNum p.tcpHdr.seqNum p.payloadVal p.payloadEntry.payloadLen).2 &&
    decide (p.payloadEntry.payloadLen ≤ (spaceLeft headPtr tailPtr).setWidth 16)

/-- Stage C, after the bypass muxes have chosen the flow's current state. -/
def estCompute (recv : RecvState) (txSeqNum : BitVec 32) (ack : TxAckState)
    (headPtr tailPtr : Ptr) (p : EstPkt) : EstNext :=
  let accept := acceptPayload recv headPtr tailPtr p
  let rxAck := rxAckEngine recv.rxCurrAckNum p.tcpHdr.seqNum p.payloadVal
    p.payloadEntry.payloadLen
  let tx := txAckEngine ack.txCurrAckNum p.tcpHdr.ackNum txSeqNum ack.txCurrAckCnt
  { nextRecvState :=
      { rxCurrAckNum := if accept then rxAck.1 else recv.rxCurrAckNum
        rxCurrWndSize := (spaceLeft headPtr tailPtr).setWidth 16 }
    nextAckState := tx.nextAckState
    nextTxHeadPtr := tx.nextHeadPtr
    nextTailPtr := if accept then tailPtr + p.payloadEntry.payloadLen.setWidth 13 else tailPtr
    acceptPayload := accept
    setRtFlag := tx.setRtFlag }

/-- The acknowledgement of one byte past `tx_curr_seq_num`, which the unwrapped test lets
through and the wrapped one does not. -/
def acksPastSeq (ack pkt seq : BitVec 32) : Prop := ack < seq ∧ seq < pkt ∧ pkt = seq + 1

instance (ack pkt seq : BitVec 32) : Decidable (acksPastSeq ack pkt seq) :=
  inferInstanceAs (Decidable (_ ∧ _ ∧ _))

/-- Apart from that number, the engine takes over nothing outside the window. -/
theorem nextAckNum_le {ack pkt seq : BitVec 32} (h : ¬ acksPastSeq ack pkt seq) :
    (nextAckNum ack pkt seq - ack).toNat ≤ (seq - ack).toNat := by
  unfold nextAckNum
  split
  · split
    · rename_i hlt ha
      simp only [Bool.and_eq_true, Bool.or_eq_true, decide_eq_true_eq] at ha
      bv_omega
    · bv_omega
  · split
    · rename_i hge ha
      simp only [dataUnacked, Bool.and_eq_true, Bool.not_eq_true', beq_eq_false_iff_ne, ne_eq,
        decide_eq_true_eq] at ha
      obtain ⟨hne, hgt, hle⟩ := ha
      have hlt : ack < seq := by bv_omega
      have hp : ¬ (seq < pkt ∧ pkt = seq + 1) := fun he => h ⟨hlt, he⟩
      bv_omega
    · bv_omega

/-- The engine either keeps the current number or takes over the packet's. -/
theorem nextAckNum_cases (ack pkt seq : BitVec 32) :
    nextAckNum ack pkt seq = ack ∨ nextAckNum ack pkt seq = pkt := by
  unfold nextAckNum
  split <;> split <;> simp

theorem acceptPayload_iff (recv : RecvState) (headPtr tailPtr : Ptr) (p : EstPkt) :
    acceptPayload recv headPtr tailPtr p = true ↔
      p.payloadVal = true ∧ p.tcpHdr.seqNum = recv.rxCurrAckNum ∧
        p.payloadEntry.payloadLen.toNat ≤ (spaceLeft headPtr tailPtr).toNat := by
  have hle : p.payloadEntry.payloadLen ≤ (spaceLeft headPtr tailPtr).setWidth 16 ↔
      p.payloadEntry.payloadLen.toNat ≤ (spaceLeft headPtr tailPtr).toNat := by
    bv_omega
  unfold acceptPayload rxAckEngine
  rw [Bool.and_eq_true, decide_eq_true_eq, hle, ← and_assoc]
  split
  · rename_i h
    simpa using fun _ => h
  · rename_i h
    simpa using fun hv hs => absurd (by simp [hv, hs]) h

/-- The receive half of an accepted packet. -/
theorem estCompute_of_accept {recv : RecvState} {headPtr tailPtr : Ptr} {p : EstPkt}
    (txSeqNum : BitVec 32) (ack : TxAckState)
    (h : acceptPayload recv headPtr tailPtr p = true) :
    (estCompute recv txSeqNum ack headPtr tailPtr p).nextRecvState.rxCurrAckNum =
        recv.rxCurrAckNum + BitVec.ofNat 32 p.payloadEntry.payloadLen.toNat ∧
      (estCompute recv txSeqNum ack headPtr tailPtr p).nextTailPtr =
        tailPtr + BitVec.ofNat 13 p.payloadEntry.payloadLen.toNat := by
  obtain ⟨hv, hs, -⟩ := (acceptPayload_iff recv headPtr tailPtr p).mp h
  simp [estCompute, h, rxAckEngine, hv, hs]

/-- A packet that is not accepted keeps the acknowledgement number and the tail. -/
theorem estCompute_of_reject {recv : RecvState} {headPtr tailPtr : Ptr} {p : EstPkt}
    (txSeqNum : BitVec 32) (ack : TxAckState)
    (h : acceptPayload recv headPtr tailPtr p = false) :
    (estCompute recv txSeqNum ack headPtr tailPtr p).nextRecvState.rxCurrAckNum =
        recv.rxCurrAckNum ∧
      (estCompute recv txSeqNum ack headPtr tailPtr p).nextTailPtr = tailPtr := by
  simp [estCompute, h]

end TcpHw
