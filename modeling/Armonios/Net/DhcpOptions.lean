import Mathlib.Data.List.Basic

/-!
# DHCP options

The model of `kernel/net/dhcp_options.c`. An area of options is a list of codes with their values (`tlvs`), and
`dhcp_options_parse` reads those that it knows one after the other (`dhcpOptionsParse_tlvs`).
-/

namespace Armonios

/-- Four bytes, the low one first. -/
def setIpAddr (ip : UInt32) : List UInt8 := [ip.toUInt8, (ip >>> 8).toUInt8, (ip >>> 16).toUInt8, (ip >>> 24).toUInt8]

/-- `get_ip_addr` and `dhcp_get_ipv4`. -/
def getIpAddr (addr : List UInt8) : UInt32 :=
  (addr.getD 0 0).toUInt32 ||| (addr.getD 1 0).toUInt32 <<< 8 ||| (addr.getD 2 0).toUInt32 <<< 16 |||
    (addr.getD 3 0).toUInt32 <<< 24

theorem getIpAddr_setIpAddr (ip : UInt32) (rest : List UInt8) : getIpAddr (setIpAddr ip ++ rest) = ip := by
  apply UInt32.toBitVec_inj.mp
  apply BitVec.eq_of_getLsbD_eq
  intro i hi
  -- each bit is in one of the bytes
  simp [getIpAddr, setIpAddr, -UInt32.toUInt32_toUInt8]
  grind

/-! ## The parser -/

/-- `dhcp_options_t`. An address whose flag is clear is `none`. -/
structure DhcpOptions where
  messageType : UInt8
  subnet : Option UInt32
  gateway : Option UInt32
  dns : Option UInt32
  serverId : Option UInt32
  deriving DecidableEq

/-- The options after `dhcp_options_clear`. -/
def dhcpOptionsClear : DhcpOptions := ⟨0, none, none, none, none⟩

def dhcpHasMagicCookie (options : List UInt8) : Bool := [0x63, 0x82, 0x53, 0x63].isPrefixOf options

/-- The options with the value of one more code. -/
def setOption (out : DhcpOptions) (code : UInt8) (value : List UInt8) : DhcpOptions :=
  if code = 53 ∧ 1 ≤ value.length then { out with messageType := value.getD 0 0 }
  else if code = 1 ∧ 4 ≤ value.length then { out with subnet := some (getIpAddr value) }
  else if code = 3 ∧ 4 ≤ value.length then { out with gateway := some (getIpAddr value) }
  else if code = 6 ∧ 4 ≤ value.length then { out with dns := some (getIpAddr value) }
  else if code = 54 ∧ 4 ≤ value.length then { out with serverId := some (getIpAddr value) }
  else out

/-- The loop of `dhcp_options_parse`. `skip` bytes of a value that has been read are still ahead. -/
def optionsFrom : Nat → List UInt8 → DhcpOptions → Option DhcpOptions
  | _, [], out => some out
  | skip + 1, _ :: options, out => optionsFrom skip options out
  | 0, code :: options, out =>
    if code = 255 then some out
    else if code = 0 then optionsFrom 0 options out
    else
      match options with
      | [] => none
      | optLen :: options =>
        if options.length < optLen.toNat then none
        else optionsFrom optLen.toNat options (setOption out code (options.take optLen.toNat))

/-- The bytes behind the magic cookie, if there is one. -/
def optionsBody (options : List UInt8) : List UInt8 := if dhcpHasMagicCookie options then options.drop 4 else options

/-- The status is `-1` where there is no result. -/
def dhcpOptionsParse (options : List UInt8) : Option DhcpOptions :=
  optionsFrom 0 (optionsBody options) dhcpOptionsClear

/-! ## The format -/

/-- The codes of an area with their values: up to the end code, without the padding. There are none if a value goes
beyond the area. -/
def tlvs : Nat → List UInt8 → Option (List (UInt8 × List UInt8))
  | _, [] => some []
  | skip + 1, _ :: options => tlvs skip options
  | 0, code :: options =>
    if code = 255 then some []
    else if code = 0 then tlvs 0 options
    else
      match options with
      | [] => none
      | optLen :: options =>
        if options.length < optLen.toNat then none
        else (tlvs optLen.toNat options).map ((code, options.take optLen.toNat) :: ·)

theorem optionsFrom_tlvs (skip : Nat) (options : List UInt8) (out : DhcpOptions) :
    optionsFrom skip options out =
      (tlvs skip options).map fun found => found.foldl (fun out tlv => setOption out tlv.1 tlv.2) out := by
  fun_induction optionsFrom skip options out with
  | case1 => simp [tlvs]
  | case2 skip byte options out ih => rw [ih, tlvs]
  | case3 options out =>
    unfold tlvs
    simp
  | case4 options out hend ih =>
    rw [ih]
    conv_rhs => unfold tlvs
    simp
  | case5 code out hend hpad => simp [tlvs, hend, hpad]
  | case6 code out hend hpad optLen options hlen => simp [tlvs, hend, hpad, hlen]
  | case7 code out hend hpad optLen options hlen ih =>
    rw [ih, tlvs, if_neg hend, if_neg hpad]
    simp [hlen, Function.comp_def]

/-- The parser reads the options of the area in their order, and fails exactly if the area is cut off. -/
theorem dhcpOptionsParse_tlvs (options : List UInt8) : dhcpOptionsParse options =
    (tlvs 0 (optionsBody options)).map fun found =>
      found.foldl (fun out tlv => setOption out tlv.1 tlv.2) dhcpOptionsClear :=
  optionsFrom_tlvs 0 _ _

end Armonios
