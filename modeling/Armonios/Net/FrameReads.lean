import Armonios.Net.OptionReads
import Armonios.Net.Dhcp

/-!
# The bytes of a frame

The parsers of `kernel/net/dhcp.c` on the receive buffer, with the bytes that they read. `g_net_rx_frame` keeps the bytes of
longer frames behind the one that was received.

* `run_parseEthFrameAt`: the parsers do what those on lists do with the bytes of the frame;
* `parseEthFrameAt_reads`: they read nothing behind it.
-/

namespace Armonios

open Reads

def readBe16 (pos : Nat) : Reads UInt16 := do
  let high ← readByte pos
  let low ← readByte (pos + 1)
  return high.toUInt16 <<< 8 ||| low.toUInt16

def parseDhcpOfferAt (pkt : Nat) (options : DhcpOptionsOut) (info : NetInfo) : Reads NetInfo := do
  let ip ← dhcpGetIpv4 (pkt + 16)
  return { info with
    ip
    dhcpState := if options.messageType = dhcpOffer then dhcpOffer else info.dhcpState
    dhcpServer := if options.flags &&& dhcpOptionsHasServerId ≠ 0 then options.serverId else info.dhcpServer }

def parseDhcpAckAt (pkt : Nat) (options : DhcpOptionsOut) (info : NetInfo) : Reads NetInfo := do
  let ip ← dhcpGetIpv4 (pkt + 16)
  return { info with
    ip
    dhcpState := if options.messageType = dhcpAck then dhcpAck else info.dhcpState
    discovered := if options.messageType = dhcpAck then true else info.discovered
    subnet := if options.flags &&& dhcpOptionsHasSubnet ≠ 0 then options.subnet else info.subnet
    gateway := if options.flags &&& dhcpOptionsHasGateway ≠ 0 then options.gateway else info.gateway
    dns := if options.flags &&& dhcpOptionsHasDns ≠ 0 then options.dns else info.dns
    dhcpServer := if options.flags &&& dhcpOptionsHasServerId ≠ 0 then options.serverId else info.dhcpServer }

/-- What the client makes of a reply in the packet. -/
def takeReplyAt (pkt : Nat) (options : DhcpOptionsOut) (info : NetInfo) : Reads NetInfo :=
  if options.messageType = dhcpOffer then parseDhcpOfferAt pkt options info
  else if options.messageType = dhcpAck then parseDhcpAckAt pkt options info
  else return info

/-- `parse_udp_packet` of the `len` bytes at `data`. -/
def parseUdpPacketAt (xid : UInt32) (data len : Nat) (info : NetInfo) : Reads NetInfo :=
  if len < 8 then return info
  else do
    let destPort ← readBe16 (data + 2)
    if destPort ≠ dhcpPortClient then return info
    else if len - 8 < 548 then return info
    else do
      let op ← readByte (data + 8)
      if op ≠ 2 then return info
      else do
        let pktXid ← dhcpGetIpv4 (data + 8 + 4)
        if pktXid ≠ xid then return info
        else do
          match ← dhcpOptionsParseAt (data + 8 + 236) 312 with
          | none => return info
          | some options => takeReplyAt (data + 8) options info

def parseIpPacketAt (xid : UInt32) (data len : Nat) (info : NetInfo) : Reads NetInfo :=
  if len < 20 then return info
  else do
    let first ← readByte data
    if first &&& 0xF0 ≠ 0x40 then return info
    else do
      let headerLen := (first &&& 0x0F).toNat * 4
      if headerLen < 20 ∨ len < headerLen then return info
      else do
        let proto ← readByte (data + 9)
        if proto = 17 then parseUdpPacketAt xid (data + headerLen) (len - headerLen) info else return info

/-- `parse_eth_frame` of the `len` bytes at the start of the buffer. -/
def parseEthFrameAt (net : Net) (len : Nat) : Reads Net :=
  if len < 14 then return net
  else do
    let dest ← bytes 0 6
    if dest ≠ net.mac.toList ∧ dest ≠ List.replicate 6 0xFF then return net
    else do
      let ethType ← readBe16 12
      if ethType = 0x0800 then do
        return { net with info := ← parseIpPacketAt net.xid 14 (len - 14) net.info }
      else return net

/-! ## What is read -/

variable {P : Nat → Prop} {buffer buffer' : Nat → UInt8}

theorem readBe16_within {pos : Nat} (h : ∀ i < 2, P (pos + i)) : (readBe16 pos).Within P :=
  (within_readByte (h 0 (by decide))).bind fun _ => (within_readByte (h 1 (by decide))).bind fun _ => within_pure _

theorem dhcpGetIpv4_within {pos : Nat} (h : ∀ i < 4, P (pos + i)) : (dhcpGetIpv4 pos).Within P :=
  (within_bytes h).bind fun _ => within_pure _

theorem takeReplyAt_within {pkt : Nat} (h : ∀ i < 548, P (pkt + i)) (options : DhcpOptionsOut) (info : NetInfo) :
    (takeReplyAt pkt options info).Within P := by
  have hip : (dhcpGetIpv4 (pkt + 16)).Within P := by
    refine dhcpGetIpv4_within fun i hi => ?_
    rw [Nat.add_assoc]
    exact h _ (by omega)
  unfold takeReplyAt
  split
  · exact hip.bind fun _ => within_pure _
  split
  · exact hip.bind fun _ => within_pure _
  · exact within_pure _

theorem parseUdpPacketAt_within (xid : UInt32) {data len : Nat} (h : ∀ i < len, P (data + i)) (info : NetInfo) :
    (parseUdpPacketAt xid data len info).Within P := by
  have hat : ∀ base i, base + i < len → P (data + base + i) := by
    intro base i hi
    rw [Nat.add_assoc]
    exact h _ hi
  unfold parseUdpPacketAt
  split
  · exact within_pure _
  refine (readBe16_within fun i hi => hat 2 i (by omega)).bind fun destPort => ?_
  split
  · exact within_pure _
  split
  · exact within_pure _
  refine (within_readByte (h 8 (by omega))).bind fun op => ?_
  split
  · exact within_pure _
  refine (dhcpGetIpv4_within fun i hi => ?_).bind fun pktXid => ?_
  · rw [Nat.add_assoc (data + 8)]
    exact hat 8 _ (by omega)
  split
  · exact within_pure _
  refine Within.bind ((dhcpOptionsParseAt_within _ _).mono fun i hi => ?_) fun parsed => ?_
  · have hp := h (i - data) (by omega)
    rwa [Nat.add_sub_cancel' (by omega)] at hp
  · split
    · exact within_pure _
    · exact takeReplyAt_within (fun i hi => hat 8 i (by omega)) _ _

theorem parseIpPacketAt_within (xid : UInt32) {data len : Nat} (h : ∀ i < len, P (data + i)) (info : NetInfo) :
    (parseIpPacketAt xid data len info).Within P := by
  unfold parseIpPacketAt
  split
  · exact within_pure _
  refine (within_readByte (h 0 (by omega))).bind fun first => ?_
  split
  · exact within_pure _
  dsimp only
  split
  · exact within_pure _
  rename_i hheader
  refine (within_readByte (h 9 (by omega))).bind fun proto => ?_
  split
  · refine parseUdpPacketAt_within xid (fun i hi => ?_) info
    rw [Nat.add_assoc]
    exact h _ (by omega)
  · exact within_pure _

theorem parseEthFrameAt_within (net : Net) (len : Nat) : (parseEthFrameAt net len).Within (· < len) := by
  unfold parseEthFrameAt
  split
  · exact within_pure _
  refine (within_bytes fun i hi => by omega).bind fun dest => ?_
  split
  · exact within_pure _
  refine (readBe16_within fun i hi => by omega).bind fun ethType => ?_
  split
  · exact (parseIpPacketAt_within _ (fun i hi => by omega) _).bind fun _ => within_pure _
  · exact within_pure _

/-! ## The frame as a list -/

/-- The fields with the flags, as options. -/
def DhcpOptionsOut.options (out : DhcpOptionsOut) : DhcpOptions where
  messageType := out.messageType
  subnet := if out.flags &&& dhcpOptionsHasSubnet ≠ 0 then some out.subnet else none
  gateway := if out.flags &&& dhcpOptionsHasGateway ≠ 0 then some out.gateway else none
  dns := if out.flags &&& dhcpOptionsHasDns ≠ 0 then some out.dns else none
  serverId := if out.flags &&& dhcpOptionsHasServerId ≠ 0 then some out.serverId else none

theorem flag_set (flags flag bit : UInt8) : (flags ||| flag) &&& bit = 0 ↔ flags &&& bit = 0 ∧ flag &&& bit = 0 := by
  have hdistrib : (flags ||| flag) &&& bit = flags &&& bit ||| flag &&& bit := by
    apply UInt8.toBitVec_inj.mp
    ext i hi
    simp [Bool.and_or_distrib_right]
  rw [hdistrib, UInt8.or_eq_zero_iff]

/-- No two flags have a bit in common. -/
theorem flags_disjoint : dhcpOptionsHasSubnet &&& dhcpOptionsHasGateway = 0 ∧
    dhcpOptionsHasSubnet &&& dhcpOptionsHasDns = 0 ∧ dhcpOptionsHasSubnet &&& dhcpOptionsHasServerId = 0 ∧
    dhcpOptionsHasGateway &&& dhcpOptionsHasDns = 0 ∧ dhcpOptionsHasGateway &&& dhcpOptionsHasServerId = 0 ∧
    dhcpOptionsHasDns &&& dhcpOptionsHasServerId = 0 := by decide

theorem storeItem_options (out : DhcpOptionsOut) (code : UInt8) (value : List UInt8) :
    (storeItem out (code, value)).options = setOption out.options code value := by
  obtain ⟨h1, h2, h3, h4, h5, h6⟩ := flags_disjoint
  have hne : dhcpOptionsHasSubnet ≠ 0 ∧ dhcpOptionsHasGateway ≠ 0 ∧ dhcpOptionsHasDns ≠ 0 ∧
      dhcpOptionsHasServerId ≠ 0 := by decide
  unfold storeItem setOption
  dsimp only
  split
  · rfl
  split
  · simp [DhcpOptionsOut.options, flag_set, h1, h2, h3, hne]
  split
  · simp [DhcpOptionsOut.options, flag_set, UInt8.and_comm dhcpOptionsHasGateway dhcpOptionsHasSubnet, h1, h4, h5, hne]
  split
  · simp [DhcpOptionsOut.options, flag_set, UInt8.and_comm dhcpOptionsHasDns dhcpOptionsHasSubnet,
      UInt8.and_comm dhcpOptionsHasDns dhcpOptionsHasGateway, h2, h4, h6, hne]
  split
  · simp [DhcpOptionsOut.options, flag_set, UInt8.and_comm dhcpOptionsHasServerId, h3, h5, h6, hne]
  · rfl

theorem run_dhcpOptionsParse (buffer : Nat → UInt8) (start len : Nat) :
    (run buffer (dhcpOptionsParseAt start len)).map DhcpOptionsOut.options =
      dhcpOptionsParse (window buffer start len) := by
  rw [run_dhcpOptionsParseAt, dhcpOptionsParse_tlvs, Option.map_map]
  congr 1
  funext items
  have hfold : ∀ out : DhcpOptionsOut, (items.foldl storeItem out).options =
      items.foldl (fun out tlv => setOption out tlv.1 tlv.2) out.options := by
    induction items with
    | nil => exact fun _ => rfl
    | cons item items ih =>
      intro out
      rw [List.foldl_cons, List.foldl_cons, ih, storeItem_options]
  exact hfold .clear

theorem run_readBe16 (data : Nat) {len i : Nat} (h : i + 1 < len) :
    run buffer (readBe16 (data + i)) = getBe16 ((window buffer data len).drop i) := by
  have hbyte : ∀ j < 2, ((window buffer data len).drop i).getD j 0 = buffer (data + (i + j)) := by
    intro j hj
    rw [window_drop, window_getD buffer _ (by omega), Nat.add_assoc]
  unfold readBe16 getBe16
  rw [run_bind, run_readByte, run_bind, run_readByte, run_pure, hbyte 0 (by decide), hbyte 1 (by decide)]
  rfl

theorem run_dhcpGetIpv4_drop (data : Nat) {len i : Nat} (h : i + 4 ≤ len) :
    run buffer (dhcpGetIpv4 (data + i)) = getIpAddr ((window buffer data len).drop i) := by
  rw [window_drop]
  exact run_dhcpGetIpv4 _ (by omega)

theorem run_takeReplyAt (pkt : Nat) {len : Nat} (h : 548 ≤ len) (options : DhcpOptionsOut) (info : NetInfo) :
    run buffer (takeReplyAt pkt options info) =
      takeReply info ⟨getIpAddr ((window buffer pkt len).drop 16), options.options⟩ := by
  have hip : run buffer (dhcpGetIpv4 (pkt + 16)) = getIpAddr ((window buffer pkt len).drop 16) :=
    run_dhcpGetIpv4_drop pkt (by omega)
  have hget : ∀ (flag : UInt8) (address old : UInt32),
      (if options.flags &&& flag ≠ 0 then some address else none).getD old =
        if options.flags &&& flag ≠ 0 then address else old := by
    intro flag address old
    split <;> rfl
  unfold takeReplyAt takeReply
  by_cases hoffer : options.messageType = dhcpOffer
  · rw [if_pos hoffer]
    refine Eq.trans ?_ (if_pos hoffer).symm
    unfold parseDhcpOfferAt parseDhcpOffer
    rw [run_bind, hip]
    simp only [DhcpOptionsOut.options, hget]
    rfl
  rw [if_neg hoffer]
  refine Eq.trans ?_ (if_neg hoffer).symm
  by_cases hack : options.messageType = dhcpAck
  · rw [if_pos hack]
    refine Eq.trans ?_ (if_pos hack).symm
    unfold parseDhcpAckAt parseDhcpAck
    rw [run_bind, hip]
    simp only [DhcpOptionsOut.options, hget]
    rfl
  · rw [if_neg hack]
    exact (if_neg hack).symm

theorem run_parseUdpPacketAt (xid : UInt32) (data len : Nat) (info : NetInfo) :
    run buffer (parseUdpPacketAt xid data len info) = parseUdpPacket xid (window buffer data len) info := by
  unfold parseUdpPacketAt parseUdpPacket
  dsimp only
  rw [window_length]
  split
  · rfl
  rename_i hlen
  rw [run_bind, run_readBe16 data (by omega : 2 + 1 < len)]
  split
  · rfl
  rw [window_drop, window_length]
  split
  · rfl
  rename_i hpkt
  rw [run_bind, run_readByte, window_getD buffer _ (by omega), Nat.add_zero]
  by_cases hop : buffer (data + 8) = 2
  swap
  · rw [if_pos hop, if_pos (.inl hop)]
    rfl
  rw [if_neg (not_not.mpr hop), run_bind, run_dhcpGetIpv4_drop (data + 8) (by omega : 4 + 4 ≤ len - 8)]
  by_cases hxid : getIpAddr ((window buffer (data + 8) (len - 8)).drop 4) = xid
  swap
  · rw [if_pos hxid, if_pos (.inr hxid)]
    rfl
  rw [if_neg (not_not.mpr hxid), if_neg (by tauto), run_bind, window_drop _ _ _ 236, window_take buffer _ (by omega),
    ← run_dhcpOptionsParse]
  cases run buffer (dhcpOptionsParseAt (data + 8 + 236) 312) with
  | none => rfl
  | some options =>
    rw [Option.map_some]
    exact run_takeReplyAt (data + 8) (by omega) options info

theorem run_parseIpPacketAt (xid : UInt32) (data len : Nat) (info : NetInfo) :
    run buffer (parseIpPacketAt xid data len info) = parseIpPacket xid (window buffer data len) info := by
  unfold parseIpPacketAt parseIpPacket
  rw [window_length]
  split
  · rfl
  rename_i hlen
  rw [run_bind, run_readByte, window_getD buffer data (by omega : 0 < len),
    window_getD buffer data (by omega : 9 < len),
    Nat.add_zero data]
  split
  · rfl
  dsimp only
  split
  · rfl
  rw [run_bind, run_readByte]
  split
  · rw [run_parseUdpPacketAt, window_drop]
  · rfl

/-- The parsers on the buffer do what those on lists do with the bytes of the frame. -/
theorem run_parseEthFrameAt (buffer : Nat → UInt8) (net : Net) (len : Nat) :
    run buffer (parseEthFrameAt net len) = parseEthFrame net (window buffer 0 len) := by
  unfold parseEthFrameAt parseEthFrame
  rw [window_length]
  split
  · rfl
  rename_i hlen
  rw [run_bind, run_bytes, window_take buffer 0 (by omega : 6 ≤ len)]
  split
  · rfl
  rw [run_bind, ← Nat.zero_add 12, run_readBe16 0 (by omega : 12 + 1 < len)]
  split
  · rw [run_bind, run_parseIpPacketAt, window_drop]
    rfl
  · rfl

/-- The network state is a matter of the bytes of the frame, of the state before and of the address of the interface,
whatever the buffer has behind the frame. -/
theorem parseEthFrameAt_reads (net : Net) (len : Nat) : (parseEthFrameAt net len).Within (· < len) ∧
    ∀ buffer buffer', (∀ i < len, buffer i = buffer' i) →
      run buffer (parseEthFrameAt net len) = run buffer' (parseEthFrameAt net len) :=
  ⟨parseEthFrameAt_within net len, fun _ _ hsame => run_congr (parseEthFrameAt_within net len) hsame⟩

end Armonios
