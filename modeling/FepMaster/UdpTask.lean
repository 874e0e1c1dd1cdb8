import FepMaster.Report
import FepMaster.Sockets
import FepMaster.UartFraming

/-!
# The loop of the server task

`FEP_UDP_Handler` of `Drivers/FEP/fep_udp.c`, one turn of its `while (1)` after the other: the
report, if `Flag_SendUDP` asks for one, then one datagram from the socket and the answer to a Find
Master request.

`server_addr` is where reports go and where `recvfrom` stores the sender; `recv_buf` is never
cleared.  `udpTurn_reply` and `udpTurn_serverAddr` say what a turn does with a datagram;
`answersExactly_iff` compares the answers with the grammar of a request.
-/

namespace FepMaster

/-- `SERVER_PORT`. -/
def serverPort : UInt16 := 1357

/-- `SERVER_IP_ADDR`. -/
def serverIpAddr : UInt32 := inetAton 192 168 1 111

/-- `SOFTWARE_PACKET_LENGTH`. -/
def softwarePacketLength : Nat := 5

/-- The configured server. -/
def configuredServer : Endpoint := ⟨serverIpAddr, serverPort⟩

/-- `server_addr` as the task sets it up: cleared, then family, port and address. -/
def configuredSockaddr : SockaddrIn := ⟨0, afInet, htons serverPort, serverIpAddr⟩

/-- The locals of the task that outlive a turn. -/
structure UdpTask where
  recvBuf : Vector UInt8 10
  serverAddr : SockaddrIn

/-- The task before its loop; nothing has been written to `recv_buf`. -/
def UdpTask.start (recvBuf : Vector UInt8 10) : UdpTask := ⟨recvBuf, configuredSockaddr⟩

/-- What one turn finds: the flag, what `SendGetValue` is given (the contents of its buffer, the
answer of `xSemaphoreTake`, the table), the uninitialised packet of `SendFindMasterReturn`, and the
datagram that waits at the socket. -/
structure Turn where
  flagSendUdp : UInt8
  stack : Vector UInt8 100
  granted : Bool
  fepDevList : DevTable
  tmpPacket : FepPacket
  incoming : Option Datagram

/-- A turn with nothing to report and nothing received. -/
def Turn.idle : Turn :=
  ⟨inactive, Vector.replicate 100 0, false, DevTable.zero, ⟨0, 0, 0, 0, 0, 0⟩, none⟩

/-- What one turn leaves and sends. -/
structure TurnResult where
  task : UdpTask
  flagSendUdp : UInt8
  report : Option Sendto
  reply : Option Sendto

/-- `SendFindMasterReturn`; `tmpPacket` is what the stack holds. -/
def sendFindMasterReturn (tmpPacket : FepPacket) (addr : SockaddrIn) : Sendto :=
  let tmpPacket := tmpPacket.packetSet startFindMaster statusReturn 0 0 0
  ⟨tmpPacket.bytes.take tmpPacket.packetSize.toNat, addr⟩

/-- One turn of `FEP_UDP_Handler`. -/
def udpTurn (u : UdpTask) (t : Turn) : TurnResult :=
  let due := t.flagSendUdp = active
  let flagSendUdp := if due then inactive else t.flagSendUdp
  let report :=
    if due then some ⟨sendGetValue t.stack t.granted t.fepDevList, u.serverAddr⟩ else none
  let (received, recvBuf, serverAddr) :=
    lwipRecvfrom t.incoming u.recvBuf softwarePacketLength u.serverAddr
  let reply :=
    if received = softwarePacketLength then
      let tmpPacket := castPacket recvBuf
      if tmpPacket.packetStart = startFindMaster then
        if tmpPacket.packetState = statusAsk then
          some (sendFindMasterReturn t.tmpPacket serverAddr)
        else none
      else none
    else none
  ⟨⟨recvBuf, serverAddr⟩, flagSendUdp, report, reply⟩

/-! ## Requests -/

/-- What the task looks at: five bytes can be read, and the first of them asks for the master. -/
def Datagram.Asks (d : Datagram) : Prop :=
  softwarePacketLength ≤ d.payload.length ∧
    d.payload.head? = some (startFindMaster + statusAsk)

instance (d : Datagram) : Decidable d.Asks :=
  inferInstanceAs (Decidable (_ ∧ _))

/-- The datagram is one valid packet that asks for the master. -/
def Datagram.IsFindMasterAsk (d : Datagram) : Prop :=
  ∃ p : FepPacket, d.payload = p.frame ∧ p.PacketValid ∧ p.IsFindMasterAsk

/-- The answers to the datagrams of a socket are right: exactly the valid requests are answered,
and an answer is a valid packet, a Find Master Return, to the sender of the request. -/
structure AnswersExactly (incoming : Option Datagram) (reply : Option Sendto) : Prop where
  answered : reply.isSome ↔ ∃ d, incoming = some d ∧ d.IsFindMasterAsk
  answer : ∀ s, reply = some s →
    (∃ d, incoming = some d ∧ s.addr.endpoint = d.source) ∧
    ∃ p : FepPacket, s.payload = p.frame ∧ p.PacketValid ∧
      p.packetStart = startFindMaster ∧ p.packetState = statusReturn

/-! ## What a turn does -/

theorem udpTurn_report (u : UdpTask) (t : Turn) :
    (udpTurn u t).report = if t.flagSendUdp = active then
      some ⟨sendGetValue t.stack t.granted t.fepDevList, u.serverAddr⟩ else none := rfl

/-- Every datagram leaves its sender in `server_addr`. -/
theorem udpTurn_serverAddr (u : UdpTask) (t : Turn) :
    (udpTurn u t).task.serverAddr =
      (t.incoming.map fun d => ip4addrPortToSockaddr d.source).getD u.serverAddr := by
  cases incoming : t.incoming with
  | none => simp only [udpTurn, incoming, lwipRecvfrom, Option.map_none, Option.getD_none]
  | some d => simp only [udpTurn, incoming, lwipRecvfrom, Option.map_some, Option.getD_some]

/-- `SendFindMasterReturn` sends a valid packet of five bytes, whatever the stack held. -/
theorem sendFindMasterReturn_payload (tmpPacket : FepPacket) (addr : SockaddrIn) :
    ∃ p : FepPacket, (sendFindMasterReturn tmpPacket addr).payload = p.frame ∧ p.PacketValid ∧
      p.packetStart = startFindMaster ∧ p.packetState = statusReturn := by
  have start : (startFindMaster + statusReturn) &&& 0xF8 = startFindMaster := by decide
  have state : (startFindMaster + statusReturn) &&& 0x07 = statusReturn := by decide
  exact ⟨tmpPacket.packetSet startFindMaster statusReturn 0 0 0, rfl, ⟨rfl, rfl⟩, start, state⟩

/-- The two tests on the buffer are a test of the datagram's first byte. -/
theorem castPacket_asks {payload : List UInt8} (mem : Vector UInt8 10)
    (enough : softwarePacketLength ≤ payload.length) :
    (castPacket (pbufCopyPartial (payload.take softwarePacketLength) mem)).IsFindMasterAsk ↔
      payload.head? = some (startFindMaster + statusAsk) := by
  cases payload with
  | nil => exact absurd enough (by decide)
  | cons b rest =>
      have first : (castPacket (pbufCopyPartial ((b :: rest).take softwarePacketLength)
          mem)).startState = b := by
        simp [castPacket, pbufCopyPartial, softwarePacketLength]
      rw [FepPacket.isFindMasterAsk_iff, first, List.head?_cons, Option.some_inj]

theorem udpTurn_reply_none {u : UdpTask} {t : Turn} (nothing : t.incoming = none) :
    (udpTurn u t).reply = none := by
  simp only [udpTurn, nothing, lwipRecvfrom]
  rfl

/-- A datagram is answered exactly if it asks, and the answer goes to its sender. -/
theorem udpTurn_reply {u : UdpTask} {t : Turn} {d : Datagram} (incoming : t.incoming = some d) :
    (udpTurn u t).reply = if d.Asks then
      some (sendFindMasterReturn t.tmpPacket (ip4addrPortToSockaddr d.source)) else none := by
  simp only [udpTurn, incoming, lwipRecvfrom]
  by_cases short : d.payload.length < softwarePacketLength
  · rw [if_pos short, if_neg (by omega), if_neg]
    exact fun asks => absurd asks.1 (Nat.not_le.mpr short)
  · rw [if_neg short, if_pos rfl]
    have tests := castPacket_asks u.recvBuf (Nat.le_of_not_lt short)
    unfold FepPacket.IsFindMasterAsk at tests
    rw [← ite_and]
    exact if_congr (tests.trans (and_iff_right (Nat.le_of_not_lt short)).symm) rfl rfl

/-! ## The grammar of a request -/

/-- A packet is read off five bytes. -/
theorem isFindMasterAsk_iff (d : Datagram) :
    d.IsFindMasterAsk ↔ d.Asks ∧ d.payload.length = softwarePacketLength ∧
      d.payload[1]? = some 5 ∧ d.payload[4]? = some checksum := by
  constructor
  · intro request
    rcases request with ⟨p, packet, valid, ask⟩
    rw [Datagram.Asks, packet]
    refine ⟨⟨Nat.le_refl _, ?_⟩, rfl, congrArg some valid.1, congrArg some valid.2⟩
    exact congrArg some (p.isFindMasterAsk_iff.mp ask)
  · intro request
    rcases request with ⟨asks, five, size, trailer⟩
    cases payload : d.payload with
    | nil =>
        rw [payload] at five
        cases five
    | cons b0 rest =>
        rw [payload] at five size trailer
        obtain ⟨b1, b2, b3, b4, rfl⟩ := List.length_eq_four.mp (Nat.succ.inj five)
        rw [Datagram.Asks, payload] at asks
        refine ⟨⟨b0, b1, b2, b3, b4, 0⟩, payload, ?_, ?_⟩
        · exact ⟨Option.some.inj size, Option.some.inj trailer⟩
        · exact (FepPacket.isFindMasterAsk_iff _).mpr (Option.some.inj asks.2)

/-- **Find Master requests.**  A turn answers exactly the valid requests, and answers them as it
should, exactly if its datagram, should its first bytes ask, is five bytes long with the size byte
and the checksum of a valid packet. -/
theorem answersExactly_iff (u : UdpTask) (t : Turn) :
    AnswersExactly t.incoming (udpTurn u t).reply ↔
      ∀ d, t.incoming = some d → d.Asks → d.payload.length = softwarePacketLength ∧
        d.payload[1]? = some 5 ∧ d.payload[4]? = some checksum := by
  cases incoming : t.incoming with
  | none =>
      rw [udpTurn_reply_none incoming]
      refine ⟨fun _ d taken => (by cases taken), fun _ => ⟨?_, fun s sent => (by cases sent)⟩⟩
      refine ⟨fun sent => (by cases sent), fun request => ?_⟩
      rcases request with ⟨d, taken, -⟩
      cases taken
  | some d =>
      rw [udpTurn_reply incoming]
      constructor
      · intro right d' same asks
        cases same
        rw [if_pos asks] at right
        obtain ⟨d', same, request⟩ := right.answered.mp rfl
        cases same
        exact ((isFindMasterAsk_iff d).mp request).2
      · intro valid
        have exactly : d.Asks ↔ d.IsFindMasterAsk := by
          rw [isFindMasterAsk_iff]
          exact ⟨fun asks => ⟨asks, valid d rfl asks⟩, And.left⟩
        by_cases asks : d.Asks
        · rw [if_pos asks]
          refine ⟨⟨fun _ => ⟨d, rfl, exactly.mp asks⟩, fun _ => rfl⟩, fun s sent => ?_⟩
          cases sent
          refine ⟨⟨d, rfl, endpoint_ip4addrPortToSockaddr d.source⟩, ?_⟩
          exact sendFindMasterReturn_payload _ _
        · rw [if_neg asks]
          refine ⟨⟨fun sent => (by cases sent), fun request => ?_⟩, fun s sent => (by cases sent)⟩
          rcases request with ⟨d', same, request⟩
          cases same
          exact absurd (exactly.mpr request) asks

/-- A sixth byte behind a request is cut off, and the request answered. -/
theorem answers_cutRequest :
    ¬ ∀ (u : UdpTask) (t : Turn), AnswersExactly t.incoming (udpTurn u t).reply := by
  intro claim
  let d : Datagram := ⟨⟨0, 0⟩, [0x1B, 0x05, 0x00, 0x00, 0xFE, 0x00]⟩
  have right := claim (.start (Vector.replicate 10 0)) { Turn.idle with incoming := some d }
  have sent : (udpTurn (.start (Vector.replicate 10 0))
      { Turn.idle with incoming := some d }).reply.isSome = true := by decide
  obtain ⟨d', same, p, packet, -⟩ := right.answered.mp sent
  cases same
  have six : 6 = 5 := congrArg List.length packet
  cases six

end FepMaster
