import Armonios.Net.DhcpOptions
import Armonios.Lib.Run
import Mathlib.Data.Vector.Basic

/-!
# The DHCP client

The model of `kernel/net/dhcp.c`. A frame is the list of its bytes. A run is one `net_init` and then any `net_poll`
calls, each with the frames that `virtio_net_recv` gives it.

* `parseEthFrame_reply`: what a frame does is a matter of the reply in it;
* `netRun_keepsLease`: when a lease stays as it was bound.
-/

namespace Armonios

abbrev dhcpDiscover : UInt8 := 1
abbrev dhcpOffer : UInt8 := 2
abbrev dhcpRequest : UInt8 := 3
abbrev dhcpAck : UInt8 := 5

abbrev dhcpPortServer : UInt16 := 67
abbrev dhcpPortClient : UInt16 := 68

abbrev MacAddress := Vector UInt8 6

/-- `net_info_t`. -/
structure NetInfo where
  mac : MacAddress
  ip : UInt32
  subnet : UInt32
  gateway : UInt32
  dns : UInt32
  dhcpServer : UInt32
  dhcpState : UInt8
  discovered : Bool

/-- `g_net_info`, the address and the `ready` flag of `g_net_dev`, `g_net_inited`, `g_net_polling` and
`g_dhcp_xid`. -/
structure Net where
  info : NetInfo
  mac : MacAddress
  ready : Bool
  inited : Bool
  polling : Bool
  xid : UInt32

def netBoot : Net where
  info := ⟨Vector.replicate 6 0, 0, 0, 0, 0, 0, 0, false⟩
  mac := Vector.replicate 6 0
  ready := false
  inited := false
  polling := false
  xid := 0x12345678

/-! ## Sending -/

def putBe16 (value : UInt16) : List UInt8 := [(value >>> 8).toUInt8, value.toUInt8]

/-- The first two loops of `checksum`. -/
def checksumFrom (sum : UInt32) : List UInt8 → UInt32
  | [] => sum
  | [p] => sum + p.toUInt32 <<< 8
  | p :: q :: rest => checksumFrom (sum + (p.toUInt32 <<< 8 ||| q.toUInt32)) rest

theorem checksum_lt {sum : UInt32} (h : ¬ sum >>> 16 = 0) :
    ((sum &&& (0xFFFF : UInt32)) + (sum >>> 16)).toNat < sum.toNat := by
  have hand : (sum &&& (0xFFFF : UInt32)).toNat = sum.toNat % 2 ^ 16 := by
    rw [UInt32.toNat_and]
    exact Nat.and_two_pow_sub_one_eq_mod sum.toNat 16
  have hshift : (sum >>> 16).toNat = sum.toNat / 2 ^ 16 := by
    rw [UInt32.toNat_shiftRight]
    exact Nat.shiftRight_eq_div_pow _ _
  have hne : (sum >>> 16).toNat ≠ 0 := fun hz => h (UInt32.toNat_inj.mp hz)
  rw [hshift] at hne
  have hlt : sum.toNat % 2 ^ 16 + sum.toNat / 2 ^ 16 < sum.toNat := by omega
  rw [UInt32.toNat_add, hand, hshift]
  exact (Nat.mod_le _ _).trans_lt hlt

def checksumFold (sum : UInt32) : UInt32 :=
  if sum >>> 16 = 0 then sum else checksumFold ((sum &&& (0xFFFF : UInt32)) + (sum >>> 16))
termination_by sum.toNat
decreasing_by exact checksum_lt ‹_›

def checksum (data : List UInt8) : UInt16 := ~~~ (checksumFold (checksumFrom 0 data)).toUInt16

def writeEthHeader (net : Net) (ethType : UInt16) : List UInt8 :=
  List.replicate 6 (0xFF : UInt8) ++ net.mac.toList ++ [(ethType >>> 8).toUInt8, ethType.toUInt8]

/-- The header with the given bytes for the checksum. -/
def ipv4Header (net : Net) (totalLen : UInt32) (sum : List UInt8) (destIp : UInt32) (proto : UInt8) : List UInt8 :=
  [0x45, 0] ++ putBe16 totalLen.toUInt16 ++ [0, 0, 0, 0, 64, proto] ++ sum ++
    (if net.info.ip = 0 then [0, 0, 0, 0] else setIpAddr net.info.ip) ++
    (if destIp = 0 then [255, 255, 255, 255] else setIpAddr destIp)

def writeIpv4Header (net : Net) (payloadLen destIp : UInt32) (proto : UInt8) : List UInt8 :=
  let totalLen := 20 + payloadLen
  ipv4Header net totalLen (putBe16 (checksum (ipv4Header net totalLen [0, 0] destIp proto))) destIp proto

/-- The frame that `send_udp_frame` gives to `virtio_net_send`, if the payload is not too long. -/
def sendUdpFrame (net : Net) (payload : List UInt8) (destIp : UInt32) (destPort srcPort : UInt16) :
    Option (List UInt8) :=
  let payloadLen := UInt32.ofNat payload.length
  let udpLen := 8 + payloadLen
  if (1536 - 14 - 20 - 8 : UInt32) < payloadLen then none
  else
    some (writeEthHeader net 0x0800 ++ writeIpv4Header net udpLen destIp 17 ++ putBe16 srcPort ++ putBe16 destPort ++
      putBe16 udpLen.toUInt16 ++ [0, 0] ++ payload)

/-- The `dhcp_packet_t` of a request of the client, with the bytes that are set. -/
def txDhcpPacket (net : Net) (ciaddr : UInt32) (options : List UInt8) : List UInt8 :=
  [1, 1, 6, 0] ++ setIpAddr net.xid ++ [0, 0] ++ [0x80, 0x00] ++ setIpAddr ciaddr ++ List.replicate 12 0 ++
    net.mac.toList ++ List.replicate 202 0 ++ options ++ List.replicate (312 - options.length) 0

def sendDhcpDiscover (net : Net) : Option (List UInt8) :=
  sendUdpFrame net (txDhcpPacket net 0 [0x63, 0x82, 0x53, 0x63, 53, 1, dhcpDiscover, 0xFF]) 0xFFFFFFFF dhcpPortServer
    dhcpPortClient

/-- The options of a request. -/
def requestOptions (serverIp requestedIp : UInt32) : List UInt8 :=
  [0x63, 0x82, 0x53, 0x63, 53, 1, dhcpRequest] ++ (if serverIp ≠ 0 then 54 :: 4 :: setIpAddr serverIp else []) ++
    50 :: 4 :: setIpAddr requestedIp ++ [0xFF]

def sendDhcpRequest (net : Net) (serverIp requestedIp : UInt32) : Option (List UInt8) :=
  sendUdpFrame net (txDhcpPacket net requestedIp (requestOptions serverIp requestedIp)) 0xFFFFFFFF dhcpPortServer
    dhcpPortClient

/-! ## Receiving -/

/-- What the client reads of a reply. -/
structure DhcpReply where
  yiaddr : UInt32
  options : DhcpOptions
  deriving DecidableEq

def parseDhcpOffer (reply : DhcpReply) (info : NetInfo) : NetInfo :=
  { info with
    ip := reply.yiaddr
    dhcpState := if reply.options.messageType = dhcpOffer then dhcpOffer else info.dhcpState
    dhcpServer := reply.options.serverId.getD info.dhcpServer }

def parseDhcpAck (reply : DhcpReply) (info : NetInfo) : NetInfo :=
  { info with
    ip := reply.yiaddr
    dhcpState := if reply.options.messageType = dhcpAck then dhcpAck else info.dhcpState
    discovered := if reply.options.messageType = dhcpAck then true else info.discovered
    subnet := reply.options.subnet.getD info.subnet
    gateway := reply.options.gateway.getD info.gateway
    dns := reply.options.dns.getD info.dns
    dhcpServer := reply.options.serverId.getD info.dhcpServer }

def getBe16 (data : List UInt8) : UInt16 := (data.getD 0 0).toUInt16 <<< 8 ||| (data.getD 1 0).toUInt16

def parseUdpPacket (xid : UInt32) (data : List UInt8) (info : NetInfo) : NetInfo :=
  if data.length < 8 then info
  else if getBe16 (data.drop 2) ≠ dhcpPortClient then info
  else
    let pkt := data.drop 8
    if pkt.length < 548 then info
    else if pkt.getD 0 0 ≠ 2 ∨ getIpAddr (pkt.drop 4) ≠ xid then info
    else
      match dhcpOptionsParse ((pkt.drop 236).take 312) with
      | none => info
      | some options =>
        let reply : DhcpReply := ⟨getIpAddr (pkt.drop 16), options⟩
        if options.messageType = dhcpOffer then parseDhcpOffer reply info
        else if options.messageType = dhcpAck then parseDhcpAck reply info
        else info

def parseIpPacket (xid : UInt32) (data : List UInt8) (info : NetInfo) : NetInfo :=
  if data.length < 20 then info
  else if data.getD 0 0 &&& 0xF0 ≠ 0x40 then info
  else
    let headerLen := (data.getD 0 0 &&& 0x0F).toNat * 4
    if headerLen < 20 ∨ data.length < headerLen then info
    else if data.getD 9 0 = 17 then parseUdpPacket xid (data.drop headerLen) info
    else info

def parseEthFrame (net : Net) (data : List UInt8) : Net :=
  if data.length < 14 then net
  else if data.take 6 ≠ net.mac.toList ∧ data.take 6 ≠ List.replicate 6 0xFF then net
  else if getBe16 (data.drop 12) = 0x0800 then
    { net with info := parseIpPacket net.xid (data.drop 14) net.info }
  else net

/-! ## The client -/

/-- The status, the frame that is sent and the client afterwards. `probe` has the address that
`virtio_net_probe_range` finds, `device` that of the device when `virtio_net_init` succeeds, and `address` is where
`g_net_dev` is. -/
def netInit (probe device : Option MacAddress) (address : UInt64) (net : Net) : Int × Option (List UInt8) × Net :=
  match probe, device with
  | none, _ => (-1, none, net)
  | some _, none => (-1, none, net)
  | some found, some mac =>
    let net : Net :=
      { net with
        mac := mac
        ready := true
        info := ⟨found, 0, 0, 0, 0, 0, 0, false⟩
        inited := true
        xid := 0x12345678 + (address &&& 0xFFFF).toUInt32 }
    (0, sendDhcpDiscover net, net)

/-- The request that is sent, if there is one, and the client afterwards. `frames` are what `virtio_net_recv` gives
before it has no more. -/
def netPoll (frames : List (List UInt8)) (net : Net) : Option (List UInt8) × Net :=
  if ¬ net.inited ∨ ¬ net.ready then (none, net)
  else if net.polling then (none, net)
  else
    let net := frames.foldl parseEthFrame { net with polling := true }
    (if ¬ net.info.discovered ∧ net.info.dhcpState = dhcpOffer then
        sendDhcpRequest net net.info.dhcpServer net.info.ip
      else none,
      { net with polling := false })

/-! ## The replies -/

/-- The reply in a packet for the port of the client, if it is one to its request. -/
def udpReply (xid : UInt32) (data : List UInt8) : Option DhcpReply :=
  let pkt := data.drop 8
  if 8 ≤ data.length ∧ getBe16 (data.drop 2) = dhcpPortClient ∧ 548 ≤ pkt.length ∧ pkt.getD 0 0 = 2 ∧
      getIpAddr (pkt.drop 4) = xid then
    (dhcpOptionsParse ((pkt.drop 236).take 312)).map (⟨getIpAddr (pkt.drop 16), ·⟩)
  else none

def ipReply (xid : UInt32) (data : List UInt8) : Option DhcpReply :=
  let headerLen := (data.getD 0 0 &&& 0x0F).toNat * 4
  if 20 ≤ data.length ∧ data.getD 0 0 &&& 0xF0 = 0x40 ∧ 20 ≤ headerLen ∧ headerLen ≤ data.length ∧
      data.getD 9 0 = 17 then
    udpReply xid (data.drop headerLen)
  else none

/-- The reply in a frame, if it has one that the client accepts. -/
def frameReply (mac : MacAddress) (xid : UInt32) (data : List UInt8) : Option DhcpReply :=
  if 14 ≤ data.length ∧ (data.take 6 = mac.toList ∨ data.take 6 = List.replicate 6 0xFF) ∧
      getBe16 (data.drop 12) = 0x0800 then
    ipReply xid (data.drop 14)
  else none

/-- What the client makes of a reply. -/
def takeReply (info : NetInfo) (reply : DhcpReply) : NetInfo :=
  if reply.options.messageType = dhcpOffer then parseDhcpOffer reply info
  else if reply.options.messageType = dhcpAck then parseDhcpAck reply info
  else info

theorem parseUdpPacket_reply (xid : UInt32) (data : List UInt8) (info : NetInfo) :
    parseUdpPacket xid data info = (udpReply xid data).elim info (takeReply info) := by
  unfold parseUdpPacket udpReply
  dsimp only
  by_cases hlen : 8 ≤ data.length
  swap
  · rw [if_pos (by omega), if_neg fun h => hlen h.1]
    rfl
  rw [if_neg (by omega)]
  by_cases hport : getBe16 (data.drop 2) = dhcpPortClient
  swap
  · rw [if_pos hport, if_neg fun h => hport h.2.1]
    rfl
  rw [if_neg (not_not.mpr hport)]
  by_cases hpkt : 548 ≤ (data.drop 8).length
  swap
  · rw [if_pos (by omega), if_neg fun h => hpkt h.2.2.1]
    rfl
  rw [if_neg (by omega)]
  by_cases hours : (data.drop 8).getD 0 0 = 2 ∧ getIpAddr ((data.drop 8).drop 4) = xid
  swap
  · rw [if_pos (by tauto), if_neg fun h => hours h.2.2.2]
    rfl
  rw [if_neg (by tauto), if_pos ⟨hlen, hport, hpkt, hours⟩]
  cases dhcpOptionsParse (((data.drop 8).drop 236).take 312) <;> rfl

theorem parseIpPacket_reply (xid : UInt32) (data : List UInt8) (info : NetInfo) :
    parseIpPacket xid data info = (ipReply xid data).elim info (takeReply info) := by
  unfold parseIpPacket ipReply
  dsimp only
  by_cases hlen : 20 ≤ data.length
  swap
  · rw [if_pos (by omega), if_neg fun h => hlen h.1]
    rfl
  rw [if_neg (by omega)]
  by_cases hversion : data.getD 0 0 &&& 0xF0 = 0x40
  swap
  · rw [if_pos hversion, if_neg fun h => hversion h.2.1]
    rfl
  rw [if_neg (not_not.mpr hversion)]
  by_cases hheader : 20 ≤ (data.getD 0 0 &&& 0x0F).toNat * 4 ∧ (data.getD 0 0 &&& 0x0F).toNat * 4 ≤ data.length
  swap
  · rw [if_pos (by omega), if_neg fun h => hheader ⟨h.2.2.1, h.2.2.2.1⟩]
    rfl
  rw [if_neg (by omega)]
  by_cases hproto : data.getD 9 0 = 17
  · rw [if_pos hproto, if_pos ⟨hlen, hversion, hheader.1, hheader.2, hproto⟩, parseUdpPacket_reply]
  · rw [if_neg hproto, if_neg fun h => hproto h.2.2.2.2]
    rfl

/-- A frame does what the reply in it does, and nothing else. -/
theorem parseEthFrame_reply (net : Net) (data : List UInt8) : parseEthFrame net data =
    { net with info := (frameReply net.mac net.xid data).elim net.info (takeReply net.info) } := by
  unfold parseEthFrame frameReply
  by_cases hlen : 14 ≤ data.length
  swap
  · rw [if_pos (by omega), if_neg fun h => hlen h.1]
    rfl
  rw [if_neg (by omega)]
  by_cases hours : data.take 6 = net.mac.toList ∨ data.take 6 = List.replicate 6 0xFF
  swap
  · rw [if_pos (not_or.mp hours), if_neg fun h => hours h.2.1]
    rfl
  rw [if_neg (by tauto)]
  by_cases htype : getBe16 (data.drop 12) = 0x0800
  · rw [if_pos htype, if_pos ⟨hlen, hours, htype⟩, parseIpPacket_reply]
  · rw [if_neg htype, if_neg fun h => htype h.2.2]
    rfl

/-! ## The lease -/

variable {net : Net} {frame : List UInt8} {reply : DhcpReply} {info info' : NetInfo}

/-- The frame has a reply of the type. -/
def Accepts (messageType : UInt8) (net : Net) (frame : List UInt8) : Prop :=
  ∃ reply ∈ frameReply net.mac net.xid frame, reply.options.messageType = messageType

structure SameLease (info info' : NetInfo) : Prop where
  ip : info'.ip = info.ip
  subnet : info'.subnet = info.subnet
  gateway : info'.gateway = info.gateway
  dns : info'.dns = info.dns
  dhcpServer : info'.dhcpServer = info.dhcpServer
  dhcpState : info'.dhcpState = info.dhcpState

/-- Once there is a lease, only an ACK changes it. -/
def KeepsLease (net : Net) (frame : List UInt8) : Prop :=
  net.info.discovered = true → ¬ Accepts dhcpAck net frame → SameLease net.info (parseEthFrame net frame).info

/-- Once there is a lease, there are no more offers. -/
def NoLateOffer (net : Net) (frame : List UInt8) : Prop :=
  net.info.discovered = true → ¬ Accepts dhcpOffer net frame

/-- The lease is the one of the last ACK. -/
def LeaseOk (info : NetInfo) : Prop := info.discovered = true → info.dhcpState = dhcpAck

/-- `net_poll` with the frames of each call, one frame after the other. -/
def pollNext (net : Net) (frames : List (List UInt8)) : Net := (netPoll frames net).2

/-- The client inside `net_poll`. -/
def Net.busy (net : Net) : Net := { net with polling := true }

theorem takeReply_offer (h : reply.options.messageType = dhcpOffer) :
    takeReply info reply =
      { info with
        ip := reply.yiaddr
        dhcpState := dhcpOffer
        dhcpServer := reply.options.serverId.getD info.dhcpServer } := by
  rw [takeReply, if_pos h, parseDhcpOffer, if_pos h]

theorem takeReply_other (hoffer : reply.options.messageType ≠ dhcpOffer) (hack : reply.options.messageType ≠ dhcpAck) :
    takeReply info reply = info := by
  rw [takeReply, if_neg hoffer, if_neg hack]

theorem takeReply_ack (h : reply.options.messageType = dhcpAck) :
    (takeReply info reply).discovered = true ∧ (takeReply info reply).dhcpState = dhcpAck := by
  have hoffer : reply.options.messageType ≠ dhcpOffer := by
    rw [h]
    decide
  rw [takeReply, if_neg hoffer, if_pos h, parseDhcpAck, if_pos h, if_pos h]
  exact ⟨rfl, rfl⟩

theorem keepsLease_iff (h : LeaseOk net.info) : KeepsLease net frame ↔ NoLateOffer net frame := by
  unfold KeepsLease NoLateOffer
  refine imp_congr_right fun hbound => ?_
  rw [parseEthFrame_reply]
  constructor
  · rintro hkeeps ⟨reply, hreply, hoffer⟩
    have hack : ¬ Accepts dhcpAck net frame := by
      rintro ⟨reply', hreply', hack⟩
      cases hreply.symm.trans hreply'
      rw [hoffer] at hack
      exact absurd hack (by decide)
    -- the offer takes the state back
    have hstate := (hkeeps hack).dhcpState
    rw [hreply, h hbound] at hstate
    dsimp only [Option.elim_some] at hstate
    rw [takeReply_offer hoffer] at hstate
    exact absurd hstate (show ¬ dhcpOffer = dhcpAck by decide)
  · intro hoffer hack
    cases hreply : frameReply net.mac net.xid frame with
    | none => exact ⟨rfl, rfl, rfl, rfl, rfl, rfl⟩
    | some reply =>
      dsimp only [Option.elim_some]
      rw [takeReply_other (fun hof => hoffer ⟨reply, hreply, hof⟩) fun hak => hack ⟨reply, hreply, hak⟩]
      exact ⟨rfl, rfl, rfl, rfl, rfl, rfl⟩

theorem parseEthFrame_leaseOk (h : LeaseOk net.info) (hno : NoLateOffer net frame) :
    LeaseOk (parseEthFrame net frame).info := by
  rw [parseEthFrame_reply]
  cases hreply : frameReply net.mac net.xid frame with
  | none => exact h
  | some reply =>
    dsimp only [Option.elim_some]
    by_cases hoffer : reply.options.messageType = dhcpOffer
    · rw [takeReply_offer hoffer]
      intro hbound
      exact absurd ⟨reply, hreply, hoffer⟩ (hno hbound)
    · by_cases hack : reply.options.messageType = dhcpAck
      · exact fun _ => (takeReply_ack hack).2
      · rw [takeReply_other hoffer hack]
        exact h

theorem foldl_parseEthFrame (frames : List (List UInt8)) (net : Net) : frames.foldl parseEthFrame net =
    { net with info := (frames.filterMap (frameReply net.mac net.xid)).foldl takeReply net.info } := by
  induction frames generalizing net with
  | nil => rfl
  | cons frame frames ih =>
    rw [List.foldl_cons, ih, parseEthFrame_reply]
    cases hreply : frameReply net.mac net.xid frame with
    | none => simp [hreply]
    | some reply => simp [hreply]

/-- The client between the calls. -/
structure Awake (net : Net) : Prop where
  inited : net.inited = true
  ready : net.ready = true
  idle : net.polling = false

theorem Awake.poll (h : Awake net) (frames : List (List UInt8)) :
    pollNext net frames = { frames.foldl parseEthFrame net.busy with polling := false } := by
  unfold pollNext netPoll Net.busy
  rw [if_neg (by simp [h.inited, h.ready]), if_neg (by simp [h.idle])]

theorem Awake.next (h : Awake net) (frames : List (List UInt8)) : Awake (pollNext net frames) := by
  rw [h.poll, foldl_parseEthFrame]
  exact ⟨h.inited, h.ready, rfl⟩

theorem netInit_awake (found mac : MacAddress) (address : UInt64) :
    Awake (netInit (some found) (some mac) address netBoot).2.2 := ⟨rfl, rfl, rfl⟩

/-- Every frame that is no ACK leaves the lease alone exactly if no offer arrives after an ACK. -/
theorem netRun_keepsLease (found mac : MacAddress) (address : UInt64) (polls : List (List (List UInt8))) :
    EachStep pollNext (fun net frames => EachStep parseEthFrame KeepsLease net.busy frames)
        (netInit (some found) (some mac) address netBoot).2.2 polls ↔
      EachStep pollNext (fun net frames => EachStep parseEthFrame NoLateOffer net.busy frames)
        (netInit (some found) (some mac) address netBoot).2.2 polls := by
  refine eachStep_iff_while (Q := fun net => Awake net ∧ LeaseOk net.info) ?_ ?_ ⟨netInit_awake .., fun hbound => ?_⟩
  · rintro net frames ⟨hawake, hlease⟩ hno
    refine ⟨hawake.next frames, ?_⟩
    rw [hawake.poll]
    exact EachStep.last (Q := fun net => LeaseOk net.info) (fun _ _ => parseEthFrame_leaseOk) hlease hno
  · rintro net frames ⟨-, hlease⟩
    exact eachStep_iff_while (Q := fun net => LeaseOk net.info) (fun _ _ => parseEthFrame_leaseOk)
      (fun _ _ => keepsLease_iff) hlease
  · cases hbound

/-- A reply to the client, with the bytes that it looks at. -/
def replyFrame (xid yiaddr : UInt32) (options : List UInt8) : List UInt8 :=
  List.replicate 6 0xFF ++ List.replicate 6 0 ++ [0x08, 0x00] ++
    [0x45, 0, 0, 0, 0, 0, 0, 0, 64, 17] ++ List.replicate 10 0 ++
    [0, 67, 0, 68, 0, 0, 0, 0] ++
    [2, 1, 6, 0] ++ setIpAddr xid ++ List.replicate 8 0 ++ setIpAddr yiaddr ++ List.replicate 216 0 ++
    options ++ List.replicate (312 - options.length) 0

/-- A second server answers the discovery after the first one has bound the lease. -/
theorem late_offer_changes : ¬ EachStep pollNext (fun net frames => EachStep parseEthFrame KeepsLease net.busy frames)
    (netInit (some (Vector.replicate 6 2)) (some (Vector.replicate 6 2)) 0 netBoot).2.2
    [[replyFrame 0x12345678 0x0F02000A [53, 1, dhcpOffer, 255]],
      [replyFrame 0x12345678 0x0F02000A [53, 1, dhcpAck, 255]],
      [replyFrame 0x12345678 0x6301A8C0 [53, 1, dhcpOffer, 255]]] := by
  rintro ⟨-, -, ⟨hkeeps, -⟩, -⟩
  have hip := (hkeeps (by decide +kernel) (by unfold Accepts; decide +kernel)).ip
  exact absurd hip (by decide +kernel)

end Armonios
