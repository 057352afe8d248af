import Armonios.Net.Dhcp

/-!
# The requests of the DHCP client

Which server and which address are in the requests that `net_poll` sends. The address is that of the last offer, but the
server is that of the last offer that named one.

* `sendDhcpRequest_pair`: what is in the bytes of a request;
* `LeaseInfo`: what the client keeps of the replies;
* `netRun_faithful`: when each request takes both from one offer.
-/

namespace Armonios

/-! ## The bytes of a request -/

/-- The options of a frame of the client. -/
def sentOptions (frame : List UInt8) : List UInt8 := frame.drop (14 + 20 + 8 + 236)

/-- The server that a request is for, `0` if it names none. -/
def requestServer (frame : List UInt8) : UInt32 :=
  ((dhcpOptionsParse (sentOptions frame)).bind DhcpOptions.serverId).getD 0

/-- The address that a request asks for. -/
def requestAddress (frame : List UInt8) : UInt32 :=
  (((tlvs 0 (optionsBody (sentOptions frame))).bind (List.lookup 50)).map getIpAddr).getD 0

theorem tlvs_skip (value options : List UInt8) : tlvs value.length (value ++ options) = tlvs 0 options := by
  induction value with
  | nil => rfl
  | cons byte value ih => exact ih

theorem tlvs_option {code : UInt8} (value options : List UInt8) (hend : code ≠ 255) (hpad : code ≠ 0)
    (hlen : value.length < 256) : tlvs 0 (code :: UInt8.ofNat value.length :: (value ++ options)) =
      (tlvs 0 options).map ((code, value) :: ·) := by
  have hto : (UInt8.ofNat value.length).toNat = value.length := by
    rw [UInt8.toNat_ofNat']
    exact Nat.mod_eq_of_lt hlen
  rw [tlvs, if_neg hend, if_neg hpad, hto, if_neg (by simp), tlvs_skip, List.take_left']
  rfl

theorem tlvs_end (options : List UInt8) : tlvs 0 (255 :: options) = some [] := by
  unfold tlvs
  exact if_pos rfl

theorem length_setIpAddr (ip : UInt32) : (setIpAddr ip).length = 4 := rfl

theorem tlvs_requestOptions (serverIp requestedIp : UInt32) (padding : List UInt8) :
    tlvs 0 (optionsBody (requestOptions serverIp requestedIp ++ padding)) =
      some ((53, [dhcpRequest]) :: (if serverIp ≠ 0 then [(54, setIpAddr serverIp)] else []) ++
        [(50, setIpAddr requestedIp)]) := by
  have haddress : tlvs 0 (50 :: 4 :: (setIpAddr requestedIp ++ 0xFF :: padding)) =
      some [(50, setIpAddr requestedIp)] :=
    (@tlvs_option 50 (setIpAddr requestedIp) (0xFF :: padding) (by decide) (by decide)
      (by rw [length_setIpAddr]; decide)).trans (by rw [tlvs_end]; rfl)
  by_cases hserver : serverIp = 0
  · have hbody : optionsBody (requestOptions serverIp requestedIp ++ padding) =
        53 :: 1 :: ([dhcpRequest] ++ 50 :: 4 :: (setIpAddr requestedIp ++ 0xFF :: padding)) := by
      rw [requestOptions, if_neg (not_not.mpr hserver)]
      rfl
    have htype := @tlvs_option 53 [dhcpRequest] (50 :: 4 :: (setIpAddr requestedIp ++ 0xFF :: padding)) (by decide)
      (by decide) (by decide)
    rw [hbody, if_neg (not_not.mpr hserver)]
    exact htype.trans (by rw [haddress]; rfl)
  · have hbody : optionsBody (requestOptions serverIp requestedIp ++ padding) =
        53 :: 1 :: ([dhcpRequest] ++ 54 :: 4 :: (setIpAddr serverIp ++
          50 :: 4 :: (setIpAddr requestedIp ++ 0xFF :: padding))) := by
      rw [requestOptions, if_pos hserver]
      rfl
    have hname : tlvs 0 (54 :: 4 :: (setIpAddr serverIp ++ 50 :: 4 :: (setIpAddr requestedIp ++ 0xFF :: padding))) =
        some [(54, setIpAddr serverIp), (50, setIpAddr requestedIp)] :=
      (@tlvs_option 54 (setIpAddr serverIp) _ (by decide) (by decide) (by rw [length_setIpAddr]; decide)).trans
        (by rw [haddress]; rfl)
    have htype := @tlvs_option 53 [dhcpRequest] (54 :: 4 :: (setIpAddr serverIp ++
      50 :: 4 :: (setIpAddr requestedIp ++ 0xFF :: padding))) (by decide) (by decide) (by decide)
    rw [hbody, if_pos hserver]
    exact htype.trans (by rw [hname]; rfl)

theorem length_ipv4Header (net : Net) (totalLen : UInt32) {sum : List UInt8} (destIp : UInt32) (proto : UInt8)
    (hsum : sum.length = 2) : (ipv4Header net totalLen sum destIp proto).length = 20 := by
  unfold ipv4Header
  split <;> split <;> simp [hsum, putBe16, setIpAddr]

/-- The frame of a request up to the options. -/
def requestHead (net : Net) (requestedIp : UInt32) : List UInt8 :=
  writeEthHeader net 0x0800 ++ writeIpv4Header net (8 + 548) 0xFFFFFFFF 17 ++ putBe16 dhcpPortClient ++
    putBe16 dhcpPortServer ++ putBe16 (8 + 548) ++ [0, 0] ++ [1, 1, 6, 0] ++ setIpAddr net.xid ++ [0, 0] ++
    [0x80, 0x00] ++ setIpAddr requestedIp ++ List.replicate 12 0 ++ net.mac.toList ++ List.replicate 202 0

theorem length_requestHead (net : Net) (requestedIp : UInt32) : (requestHead net requestedIp).length = 278 := by
  have hip : (writeIpv4Header net (8 + 548) 0xFFFFFFFF 17).length = 20 := length_ipv4Header _ _ _ _ rfl
  simp only [requestHead, writeEthHeader, putBe16, setIpAddr, List.length_append, hip, List.length_replicate,
    Vector.length_toList, List.length_cons, List.length_nil]

theorem length_requestOptions (serverIp requestedIp : UInt32) :
    (requestOptions serverIp requestedIp).length ≤ 20 := by
  unfold requestOptions
  split <;> simp [setIpAddr]

theorem sendDhcpRequest_frame (net : Net) (serverIp requestedIp : UInt32) :
    sendDhcpRequest net serverIp requestedIp =
      some (requestHead net requestedIp ++ (requestOptions serverIp requestedIp ++
        List.replicate (312 - (requestOptions serverIp requestedIp).length) 0)) := by
  have hopt := length_requestOptions serverIp requestedIp
  have hlen : (txDhcpPacket net requestedIp (requestOptions serverIp requestedIp)).length = 548 := by
    simp only [txDhcpPacket, setIpAddr, List.length_append, List.length_replicate, Vector.length_toList,
      List.length_cons, List.length_nil]
    omega
  unfold sendDhcpRequest sendUdpFrame
  rw [hlen]
  dsimp only
  rw [if_neg (by decide)]
  simp only [requestHead, txDhcpPacket, List.append_assoc]
  rfl

/-- A request is for the server, if that is not `0`, and for the address. -/
theorem sendDhcpRequest_pair {net : Net} {serverIp requestedIp : UInt32} {frame : List UInt8}
    (h : sendDhcpRequest net serverIp requestedIp = some frame) :
    requestServer frame = serverIp ∧ requestAddress frame = requestedIp := by
  rw [sendDhcpRequest_frame, Option.some.injEq] at h
  have hoptions : sentOptions frame = requestOptions serverIp requestedIp ++
      List.replicate (312 - (requestOptions serverIp requestedIp).length) 0 := by
    rw [← h, sentOptions, List.drop_left' (length_requestHead net requestedIp)]
  have hget (ip : UInt32) : getIpAddr (setIpAddr ip) = ip := by
    have := getIpAddr_setIpAddr ip []
    rwa [List.append_nil] at this
  unfold requestServer requestAddress
  rw [dhcpOptionsParse_tlvs, hoptions, tlvs_requestOptions]
  by_cases hserver : serverIp = 0
  · rw [if_neg (not_not.mpr hserver), hserver]
    exact ⟨rfl, hget requestedIp⟩
  · rw [if_pos hserver]
    exact ⟨hget serverIp, hget requestedIp⟩

/-! ## Offers -/

variable {net : Net} {info : NetInfo} {replies : List DhcpReply} {reply : DhcpReply} {polls : List (List (List UInt8))}

def offers (replies : List DhcpReply) : List DhcpReply := replies.filter (·.options.messageType = dhcpOffer)

/-- The server that the last of the offers with a server identifier names. -/
def namedServer (offers : List DhcpReply) : UInt32 := (offers.filterMap (·.options.serverId)).getLast?.getD 0

def NoAck (replies : List DhcpReply) : Prop := ∀ reply ∈ replies, reply.options.messageType ≠ dhcpAck

/-- What the client has kept of the replies. -/
structure LeaseInfo (replies : List DhcpReply) (info : NetInfo) : Prop where
  discovered : info.discovered = false ↔ NoAck replies
  ip : NoAck replies → info.ip = ((offers replies).getLast?.map DhcpReply.yiaddr).getD 0
  server : NoAck replies → info.dhcpServer = namedServer (offers replies)
  state : NoAck replies → (info.dhcpState = dhcpOffer ↔ offers replies ≠ [])

theorem noAck_append : NoAck (replies ++ [reply]) ↔ NoAck replies ∧ reply.options.messageType ≠ dhcpAck := by
  simp [NoAck, or_imp, forall_and]

theorem LeaseInfo.take (h : LeaseInfo replies info) (reply : DhcpReply) :
    LeaseInfo (replies ++ [reply]) (takeReply info reply) := by
  by_cases hoffer : reply.options.messageType = dhcpOffer
  · have hack : reply.options.messageType ≠ dhcpAck := by
      rw [hoffer]
      decide
    have hno : NoAck (replies ++ [reply]) ↔ NoAck replies := by
      rw [noAck_append, and_iff_left hack]
    have hoffers : offers (replies ++ [reply]) = offers replies ++ [reply] := by
      simp [offers, hoffer]
    rw [takeReply_offer hoffer]
    refine ⟨h.discovered.trans hno.symm, fun _ => ?_, fun hnone => ?_, fun _ => ?_⟩
    · simp [hoffers]
    · dsimp only
      rw [h.server (hno.mp hnone), hoffers, namedServer, namedServer, List.filterMap_append]
      cases hserver : reply.options.serverId <;> simp [hserver]
    · simp [hoffers]
  by_cases hack : reply.options.messageType = dhcpAck
  · have hno : ¬ NoAck (replies ++ [reply]) := fun hnone => (noAck_append.mp hnone).2 hack
    refine ⟨⟨fun hfalse => ?_, fun hnone => absurd hnone hno⟩, fun hnone => absurd hnone hno,
      fun hnone => absurd hnone hno, fun hnone => absurd hnone hno⟩
    rw [(takeReply_ack hack).1] at hfalse
    cases hfalse
  · have hno : NoAck (replies ++ [reply]) ↔ NoAck replies := by
      rw [noAck_append, and_iff_left hack]
    have hoffers : offers (replies ++ [reply]) = offers replies := by
      simp [offers, hoffer]
    rw [takeReply_other hoffer hack]
    refine ⟨h.discovered.trans hno.symm, fun hnone => ?_, fun hnone => ?_, fun hnone => ?_⟩
    · rw [hoffers]
      exact h.ip (hno.mp hnone)
    · rw [hoffers]
      exact h.server (hno.mp hnone)
    · rw [hoffers]
      exact h.state (hno.mp hnone)

theorem LeaseInfo.foldl (h : LeaseInfo replies info) (more : List DhcpReply) :
    LeaseInfo (replies ++ more) (more.foldl takeReply info) := by
  induction more generalizing replies info with
  | nil => simpa using h
  | cons reply more ih =>
    have hrest := ih (h.take reply)
    rwa [List.append_assoc] at hrest

/-! ## Runs -/

/-- The client with the replies that it has accepted. -/
structure NetTrace where
  net : Net
  replies : List DhcpReply

/-- The replies after a call of `net_poll`. -/
def NetTrace.after (t : NetTrace) (frames : List (List UInt8)) : List DhcpReply :=
  t.replies ++ frames.filterMap (frameReply t.net.mac t.net.xid)

def NetTrace.next (t : NetTrace) (frames : List (List UInt8)) : NetTrace := ⟨pollNext t.net frames, t.after frames⟩

/-- A request is for a server and an address that one of the offers has. -/
def Faithful (t : NetTrace) (frames : List (List UInt8)) : Prop :=
  ∀ sent ∈ (netPoll frames t.net).1, ∃ offer ∈ offers (t.after frames),
    offer.options.serverId.getD 0 = requestServer sent ∧ offer.yiaddr = requestAddress sent

/-- The last offer names its server, no offer before it does, or the server that the last one of these named has also
offered the address. -/
def Unmixed (offers : List DhcpReply) : Prop :=
  ∀ last ∈ offers.getLast?, last.options.serverId.isSome ∨ namedServer offers.dropLast = 0 ∨
    ∃ offer ∈ offers.dropLast, offer.options.serverId = some (namedServer offers.dropLast) ∧ offer.yiaddr = last.yiaddr

/-- The offers are not mixed when the client has no lease yet. -/
def NoMixture (t : NetTrace) (frames : List (List UInt8)) : Prop :=
  NoAck (t.after frames) → Unmixed (offers (t.after frames))

structure TraceOk (t : NetTrace) : Prop where
  awake : Awake t.net
  info : LeaseInfo t.replies t.net.info

variable {t : NetTrace}

theorem TraceOk.info_after (h : TraceOk t) (frames : List (List UInt8)) :
    LeaseInfo (t.after frames) (frames.foldl parseEthFrame t.net.busy).info := by
  rw [foldl_parseEthFrame]
  exact h.info.foldl _

theorem TraceOk.next (h : TraceOk t) (frames : List (List UInt8)) : TraceOk (t.next frames) := by
  refine ⟨h.awake.next frames, ?_⟩
  show LeaseInfo (t.after frames) (pollNext t.net frames).info
  rw [h.awake.poll]
  exact h.info_after frames

theorem namedServer_append (earlier : List DhcpReply) (last : DhcpReply) :
    namedServer (earlier ++ [last]) = last.options.serverId.getD (namedServer earlier) := by
  rw [namedServer, List.filterMap_append]
  cases hserver : last.options.serverId <;> simp [hserver, namedServer]

/-- The last address and the last named server are in one offer. -/
theorem unmixed_iff (earlier : List DhcpReply) (last : DhcpReply) : Unmixed (earlier ++ [last]) ↔
    ∃ offer ∈ earlier ++ [last], offer.options.serverId.getD 0 = namedServer (earlier ++ [last]) ∧
      offer.yiaddr = last.yiaddr := by
  unfold Unmixed
  rw [List.getLast?_concat, List.dropLast_concat, namedServer_append]
  constructor
  · intro h
    rcases h last rfl with hnamed | hzero | ⟨offer, hmem, hserver, haddr⟩
    · obtain ⟨server, hserver⟩ := Option.isSome_iff_exists.mp hnamed
      exact ⟨last, by simp, by rw [hserver]; rfl, rfl⟩
    · exact ⟨last, by simp, by rw [hzero], rfl⟩
    · cases hlast : last.options.serverId with
      | some server => exact ⟨last, by simp, by rw [hlast]; rfl, rfl⟩
      | none => exact ⟨offer, by simp [hmem], by rw [hserver]; rfl, haddr⟩
  · rintro ⟨offer, hmem, hserver, haddr⟩ last' hlast'
    cases hlast'
    cases hlast : last.options.serverId with
    | some server => exact .inl rfl
    | none =>
      right
      rw [hlast, Option.getD_none] at hserver
      by_cases hzero : namedServer earlier = 0
      · exact .inl hzero
      right
      -- the server that is asked is named, so not by the last offer
      rcases List.mem_append.mp hmem with hmem | hmem
      · cases hoffer : offer.options.serverId with
        | none =>
          rw [hoffer] at hserver
          exact absurd hserver.symm hzero
        | some server =>
          rw [hoffer] at hserver
          exact ⟨offer, hmem, by rw [hoffer, ← hserver]; rfl, haddr⟩
      · cases List.mem_singleton.mp hmem
        rw [hlast] at hserver
        exact absurd hserver.symm hzero

theorem faithful_iff (h : TraceOk t) (frames : List (List UInt8)) : Faithful t frames ↔ NoMixture t frames := by
  have hinfo := h.info_after frames
  unfold Faithful NoMixture netPoll
  rw [if_neg (by simp [h.awake.inited, h.awake.ready]), if_neg (by simp [h.awake.idle])]
  dsimp only
  rw [← Net.busy]
  by_cases hno : NoAck (t.after frames)
  swap
  · rw [if_neg fun hsend => hno (hinfo.discovered.mp (by simpa using hsend.1))]
    exact ⟨fun _ hnone => absurd hnone hno, fun _ sent hsent => by cases hsent⟩
  rw [imp_iff_right hno]
  rcases List.eq_nil_or_concat (offers (t.after frames)) with hnil | ⟨earlier, last, hoffers⟩
  · rw [if_neg fun hsend => (hinfo.state hno).mp hsend.2 hnil, hnil]
    constructor
    · intro _ last hlast
      cases hlast
    · intro _ sent hsent
      cases hsent
  rw [List.concat_eq_append] at hoffers
  have hsends : ¬ (frames.foldl parseEthFrame t.net.busy).info.discovered = true ∧
      (frames.foldl parseEthFrame t.net.busy).info.dhcpState = dhcpOffer :=
    ⟨by rw [hinfo.discovered.mpr hno]; decide, (hinfo.state hno).mpr (by rw [hoffers]; simp)⟩
  have hip := hinfo.ip hno
  rw [hoffers, List.getLast?_concat] at hip
  rw [if_pos hsends, hinfo.server hno, hip, hoffers, unmixed_iff]
  constructor
  · intro hall
    have hsent := sendDhcpRequest_frame (frames.foldl parseEthFrame t.net.busy) (namedServer (earlier ++ [last]))
      last.yiaddr
    obtain ⟨offer, hmem, hserver, haddr⟩ := hall _ hsent
    obtain ⟨hs, ha⟩ := sendDhcpRequest_pair hsent
    exact ⟨offer, hmem, hserver.trans hs, haddr.trans ha⟩
  · rintro ⟨offer, hmem, hserver, haddr⟩ sent hsent
    obtain ⟨hs, ha⟩ := sendDhcpRequest_pair hsent
    exact ⟨offer, hmem, hserver.trans hs.symm, haddr.trans ha.symm⟩

/-- The client after `net_init`. -/
theorem netInit_traceOk (found mac : MacAddress) (address : UInt64) :
    TraceOk ⟨(netInit (some found) (some mac) address netBoot).2.2, []⟩ := by
  refine ⟨netInit_awake found mac address, ⟨fun _ reply hreply => ?_, fun _ => rfl⟩, fun _ => rfl, fun _ => rfl,
    fun _ => ⟨fun hstate => ?_, fun h => ?_⟩⟩
  · cases hreply
  · exact absurd hstate (show ¬ (0 : UInt8) = dhcpOffer by decide)
  · exact absurd rfl h

/-- Each request takes its server and its address from one offer exactly if none is sent for mixed offers. -/
theorem netRun_faithful (found mac : MacAddress) (address : UInt64) (polls : List (List (List UInt8))) :
    EachStep NetTrace.next Faithful ⟨(netInit (some found) (some mac) address netBoot).2.2, []⟩ polls ↔
      EachStep NetTrace.next NoMixture ⟨(netInit (some found) (some mac) address netBoot).2.2, []⟩ polls :=
  eachStep_iff (fun _ frames h => h.next frames) (fun _ frames h => faithful_iff h frames)
    (netInit_traceOk found mac address)

/-- After an offer of one server, another one offers another address and does not name itself. -/
theorem request_mixed : ¬ EachStep NetTrace.next Faithful
    ⟨(netInit (some (Vector.replicate 6 2)) (some (Vector.replicate 6 2)) 0 netBoot).2.2, []⟩
    [[replyFrame 0x12345678 0x0F02000A [53, 1, dhcpOffer, 54, 4, 10, 0, 2, 2, 255],
      replyFrame 0x12345678 0x6301A8C0 [53, 1, dhcpOffer, 255]]] := by
  rintro ⟨hfaithful, -⟩
  have hmixture := (faithful_iff (netInit_traceOk _ _ _) _).mp hfaithful
  have hunmixed := hmixture (by unfold NoAck; decide +kernel)
  unfold Unmixed at hunmixed
  exact absurd hunmixed (by decide +kernel)

end Armonios
