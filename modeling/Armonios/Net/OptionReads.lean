import Armonios.Lib.Reads
import Armonios.Net.DhcpOptions
import Mathlib.Data.List.Induction

/-!
# The bytes of DHCP options

`dhcp_options_parse` on a buffer, with the bytes that it reads, and the grammar of an area of options.

* `dhcpOptionsParseAt_spec`: it stays in the area, and reports the last items of the area or that the area is cut off.
-/

namespace Armonios

open Reads

def dhcpOptionsHasSubnet : UInt8 := 1
def dhcpOptionsHasGateway : UInt8 := 2
def dhcpOptionsHasDns : UInt8 := 4
def dhcpOptionsHasServerId : UInt8 := 8

/-- The fields of `dhcp_options_t`. -/
structure DhcpOptionsOut where
  messageType : UInt8
  flags : UInt8
  subnet : UInt32
  gateway : UInt32
  dns : UInt32
  serverId : UInt32
  deriving DecidableEq

def DhcpOptionsOut.clear : DhcpOptionsOut := ⟨0, 0, 0, 0, 0, 0⟩

/-! ## The parser on a buffer -/

/-- `dhcp_has_magic_cookie`. -/
def dhcpHasMagicCookieAt (start len : Nat) : Reads Bool :=
  if len < 4 then return false
  else do return (← bytes start 4) = [0x63, 0x82, 0x53, 0x63]

/-- `dhcp_get_ipv4`. -/
def dhcpGetIpv4 (pos : Nat) : Reads UInt32 := do return getIpAddr (← bytes pos 4)

/-- What the loop does with the value at `value`. -/
def storeOption (code optLen : UInt8) (value : Nat) (out : DhcpOptionsOut) : Reads DhcpOptionsOut :=
  if code = 53 ∧ 1 ≤ optLen then do
    return { out with messageType := ← readByte value }
  else if code = 1 ∧ 4 ≤ optLen then do
    return { out with subnet := ← dhcpGetIpv4 value, flags := out.flags ||| dhcpOptionsHasSubnet }
  else if code = 3 ∧ 4 ≤ optLen then do
    return { out with gateway := ← dhcpGetIpv4 value, flags := out.flags ||| dhcpOptionsHasGateway }
  else if code = 6 ∧ 4 ≤ optLen then do
    return { out with dns := ← dhcpGetIpv4 value, flags := out.flags ||| dhcpOptionsHasDns }
  else if code = 54 ∧ 4 ≤ optLen then do
    return { out with serverId := ← dhcpGetIpv4 value, flags := out.flags ||| dhcpOptionsHasServerId }
  else return out

/-- The loop of `dhcp_options_parse`. -/
def optionsLoop (start len pos : Nat) (out : DhcpOptionsOut) : Reads (Option DhcpOptionsOut) :=
  if pos < len then do
    let code ← readByte (start + pos)
    if code = 255 then return some out
    else if code = 0 then optionsLoop start len (pos + 1) out
    else if len ≤ pos + 1 then return none
    else do
      let optLen ← readByte (start + (pos + 1))
      if len - (pos + 2) < optLen.toNat then return none
      else do
        let out ← storeOption code optLen (start + (pos + 2)) out
        optionsLoop start len (pos + 2 + optLen.toNat) out
  else return some out
termination_by len - pos

/-- `dhcp_options_parse` of the `len` bytes at `start`; the status is `-1` where there is no result. -/
def dhcpOptionsParseAt (start len : Nat) : Reads (Option DhcpOptionsOut) := do
  let cookie ← dhcpHasMagicCookieAt start len
  optionsLoop start len (if cookie then 4 else 0) .clear

/-! ## What is read -/

variable {start len pos : Nat} {out : DhcpOptionsOut} {buffer : Nat → UInt8}

theorem storeOption_within {code optLen : UInt8} {value : Nat} (h : value + optLen.toNat ≤ start + len)
    (hstart : start ≤ value) :
    (storeOption code optLen value out).Within fun i => start ≤ i ∧ i < start + len := by
  have hget : 4 ≤ optLen → (dhcpGetIpv4 value).Within fun i => start ≤ i ∧ i < start + len := by
    intro hlen
    have hfour : 4 ≤ optLen.toNat := hlen
    exact (within_bytes fun i hi => ⟨by omega, by omega⟩).bind fun _ => within_pure _
  unfold storeOption
  split
  · rename_i hcode
    have hone : 1 ≤ optLen.toNat := hcode.2
    exact (within_readByte ⟨hstart, by omega⟩).bind fun _ => within_pure _
  split
  · exact (hget (And.right ‹_›)).bind fun _ => within_pure _
  split
  · exact (hget (And.right ‹_›)).bind fun _ => within_pure _
  split
  · exact (hget (And.right ‹_›)).bind fun _ => within_pure _
  split
  · exact (hget (And.right ‹_›)).bind fun _ => within_pure _
  · exact within_pure _

theorem optionsLoop_within (start len pos : Nat) (out : DhcpOptionsOut) :
    (optionsLoop start len pos out).Within fun i => start ≤ i ∧ i < start + len := by
  -- on the bytes that are ahead
  induction h : len - pos using Nat.strongRecOn generalizing pos out with
  | ind n ih =>
    subst h
    rw [optionsLoop]
    split
    · rename_i hpos
      refine (within_readByte ⟨by omega, by omega⟩).bind fun code => ?_
      split
      · exact within_pure _
      split
      · exact ih _ (by omega) _ _ rfl
      split
      · exact within_pure _
      rename_i hlen
      refine (within_readByte ⟨by omega, by omega⟩).bind fun optLen => ?_
      split
      · exact within_pure _
      rename_i hvalue
      refine (storeOption_within (by omega) (by omega)).bind fun out => ?_
      exact ih _ (by omega) _ _ rfl
    · exact within_pure _

theorem dhcpOptionsParseAt_within (start len : Nat) :
    (dhcpOptionsParseAt start len).Within fun i => start ≤ i ∧ i < start + len := by
  refine Within.bind ?_ fun _ => optionsLoop_within _ _ _ _
  unfold dhcpHasMagicCookieAt
  split
  · exact within_pure _
  · exact (within_bytes fun i hi => ⟨by omega, by omega⟩).bind fun _ => within_pure _

/-! ## The items -/

abbrev OptionItem := UInt8 × List UInt8

/-- The fields with one more item. -/
def storeItem (out : DhcpOptionsOut) (item : OptionItem) : DhcpOptionsOut :=
  if item.1 = 53 ∧ 1 ≤ item.2.length then { out with messageType := item.2.getD 0 0 }
  else if item.1 = 1 ∧ 4 ≤ item.2.length then
    { out with subnet := getIpAddr item.2, flags := out.flags ||| dhcpOptionsHasSubnet }
  else if item.1 = 3 ∧ 4 ≤ item.2.length then
    { out with gateway := getIpAddr item.2, flags := out.flags ||| dhcpOptionsHasGateway }
  else if item.1 = 6 ∧ 4 ≤ item.2.length then
    { out with dns := getIpAddr item.2, flags := out.flags ||| dhcpOptionsHasDns }
  else if item.1 = 54 ∧ 4 ≤ item.2.length then
    { out with serverId := getIpAddr item.2, flags := out.flags ||| dhcpOptionsHasServerId }
  else out

theorem getIpAddr_take {addr : List UInt8} {n : Nat} (h : 4 ≤ n) : getIpAddr (addr.take n) = getIpAddr addr := by
  have hbyte : ∀ i < 4, (addr.take n).getD i 0 = addr.getD i 0 := by
    intro i hi
    simp [show i < n by omega]
  simp only [getIpAddr, hbyte 0 (by decide), hbyte 1 (by decide), hbyte 2 (by decide), hbyte 3 (by decide)]

theorem run_dhcpGetIpv4 (value : Nat) {count : Nat} (h : 4 ≤ count) :
    run buffer (dhcpGetIpv4 value) = getIpAddr (window buffer value count) := by
  unfold dhcpGetIpv4
  rw [run_bind, run_bytes, run_pure, ← window_take buffer value h, getIpAddr_take (Nat.le_refl 4)]

theorem run_storeOption (code optLen : UInt8) (value : Nat) (out : DhcpOptionsOut) :
    run buffer (storeOption code optLen value out) = storeItem out (code, window buffer value optLen.toNat) := by
  have hone : 1 ≤ optLen ↔ 1 ≤ optLen.toNat := UInt8.le_iff_toNat_le
  have hfour : 4 ≤ optLen ↔ 4 ≤ optLen.toNat := UInt8.le_iff_toNat_le
  unfold storeOption storeItem
  simp only [window_length, ← hone, ← hfour]
  split
  · rename_i hcode
    rw [run_bind, run_readByte, run_pure, window_getD buffer value (hone.mp hcode.2)]
    rfl
  split
  · rw [run_bind, run_dhcpGetIpv4 value (hfour.mp (And.right ‹_›)), run_pure]
  split
  · rw [run_bind, run_dhcpGetIpv4 value (hfour.mp (And.right ‹_›)), run_pure]
  split
  · rw [run_bind, run_dhcpGetIpv4 value (hfour.mp (And.right ‹_›)), run_pure]
  split
  · rw [run_bind, run_dhcpGetIpv4 value (hfour.mp (And.right ‹_›)), run_pure]
  · rfl

theorem tlvs_drop {skip : Nat} {options : List UInt8} (h : skip ≤ options.length) :
    tlvs skip options = tlvs 0 (options.drop skip) := by
  induction skip generalizing options with
  | zero => rfl
  | succ skip ih =>
    cases options with
    | nil => simp at h
    | cons b options =>
      rw [tlvs, List.drop_succ_cons]
      exact ih (by simpa using h)

/-- The loop takes the items of the bytes ahead. -/
theorem run_optionsLoop (buffer : Nat → UInt8) (start len pos : Nat) (out : DhcpOptionsOut) :
    run buffer (optionsLoop start len pos out) =
      (tlvs 0 (window buffer (start + pos) (len - pos))).map (·.foldl storeItem out) := by
  induction h : len - pos using Nat.strongRecOn generalizing pos out with
  | ind n ih =>
    subst h
    rw [optionsLoop]
    split
    swap
    · rename_i hpos
      rw [show len - pos = 0 by omega]
      rfl
    rename_i hpos
    rw [window_cons buffer (start + pos) (by omega), run_bind, run_readByte]
    unfold tlvs
    split
    · rfl
    split
    · rw [ih _ (by omega) _ _ rfl]
      rfl
    split
    · rename_i hlen
      rw [show len - pos - 1 = 0 by omega]
      rfl
    rename_i hlen
    rw [window_cons buffer (start + pos + 1) (by omega), run_bind, run_readByte]
    dsimp only
    have hlength : (window buffer (start + pos + 1 + 1) (len - pos - 1 - 1)).length = len - (pos + 2) := by
      rw [window_length]
      omega
    rw [hlength, Nat.add_assoc start pos 1]
    split
    · rfl
    rename_i hvalue
    generalize hn : (buffer (start + (pos + 1))).toNat = n at hvalue ⊢
    have hrest : tlvs n (window buffer (start + (pos + 1) + 1) (len - pos - 1 - 1)) =
        tlvs 0 (window buffer (start + (pos + 2 + n)) (len - (pos + 2 + n))) := by
      rw [tlvs_drop (by rw [window_length]; omega), window_drop]
      congr 2
      all_goals omega
    rw [hrest, run_bind, run_storeOption, ih _ (by omega) _ _ rfl, hn, window_take buffer _ (by omega), Option.map_map]
    rfl

/-! ## The grammar -/

/-- An area with its items: pads and items up to END, or to its end. -/
inductive OptionArea : List UInt8 → List OptionItem → Prop
  | nil : OptionArea [] []
  | stop (rest : List UInt8) : OptionArea (255 :: rest) []
  | pad {rest : List UInt8} {items : List OptionItem} (h : OptionArea rest items) : OptionArea (0 :: rest) items
  | item {code optLen : UInt8} {value rest : List UInt8} {items : List OptionItem} (pad : code ≠ 0) (stop : code ≠ 255)
      (len : value.length = optLen.toNat) (h : OptionArea rest items) :
      OptionArea (code :: optLen :: (value ++ rest)) ((code, value) :: items)

/-- An area in which an item is cut off, with no END before it. -/
inductive OptionsCut : List UInt8 → Prop
  | code {code : UInt8} (pad : code ≠ 0) (stop : code ≠ 255) : OptionsCut [code]
  | value {code optLen : UInt8} {rest : List UInt8} (pad : code ≠ 0) (stop : code ≠ 255)
      (len : rest.length < optLen.toNat) : OptionsCut (code :: optLen :: rest)
  | pad {rest : List UInt8} (h : OptionsCut rest) : OptionsCut (0 :: rest)
  | item {code optLen : UInt8} {value rest : List UInt8} (pad : code ≠ 0) (stop : code ≠ 255)
      (len : value.length = optLen.toNat) (h : OptionsCut rest) : OptionsCut (code :: optLen :: (value ++ rest))

/-- `tlvs` at an item. -/
theorem tlvs_item {code optLen : UInt8} {value rest : List UInt8} (hpad : code ≠ 0) (hstop : code ≠ 255)
    (hlen : value.length = optLen.toNat) : tlvs 0 (code :: optLen :: (value ++ rest)) =
      (tlvs 0 rest).map ((code, value) :: ·) := by
  conv_lhs => unfold tlvs
  rw [if_neg hstop, if_neg hpad]
  dsimp only
  rw [if_neg (by simp [hlen]), tlvs_drop (by simp [hlen]), List.drop_left' hlen, List.take_left' hlen]

theorem tlvs_pad (rest : List UInt8) : tlvs 0 (0 :: rest) = tlvs 0 rest := by
  conv_lhs => unfold tlvs
  rfl

theorem OptionArea.tlvs {options : List UInt8} {items : List OptionItem} (h : OptionArea options items) :
    tlvs 0 options = some items := by
  induction h with
  | nil => rfl
  | stop rest =>
    unfold Armonios.tlvs
    rfl
  | pad h ih => rw [tlvs_pad, ih]
  | item pad stop len h ih =>
    rw [tlvs_item pad stop len, ih]
    rfl

theorem OptionsCut.tlvs {options : List UInt8} (h : OptionsCut options) : tlvs 0 options = none := by
  induction h with
  | code pad stop =>
    unfold Armonios.tlvs
    rw [if_neg stop, if_neg pad]
  | value pad stop len =>
    unfold Armonios.tlvs
    rw [if_neg stop, if_neg pad]
    dsimp only
    rw [if_pos len]
  | pad h ih => rw [tlvs_pad, ih]
  | item pad stop len h ih =>
    rw [tlvs_item pad stop len, ih]
    rfl

/-- Every area is one of the two. -/
theorem optionArea_or_cut (options : List UInt8) : (∃ items, OptionArea options items) ∨ OptionsCut options := by
  induction h : options.length using Nat.strongRecOn generalizing options with
  | ind n ih =>
    subst h
    match options with
    | [] => exact .inl ⟨[], .nil⟩
    | code :: rest =>
      by_cases hstop : code = 255
      · subst hstop
        exact .inl ⟨[], .stop rest⟩
      by_cases hpad : code = 0
      · subst hpad
        rcases ih _ (by simp) rest rfl with ⟨items, harea⟩ | hcut
        · exact .inl ⟨items, .pad harea⟩
        · exact .inr (.pad hcut)
      match rest with
      | [] => exact .inr (.code hpad hstop)
      | optLen :: rest =>
        by_cases hlen : rest.length < optLen.toNat
        · exact .inr (.value hpad hstop hlen)
        have htake : (rest.take optLen.toNat).length = optLen.toNat := by
          rw [List.length_take]
          omega
        have hdrop : (rest.drop optLen.toNat).length < (code :: optLen :: rest).length := by
          simp only [List.length_drop, List.length_cons]
          omega
        rw [← List.take_append_drop optLen.toNat rest]
        rcases ih _ hdrop _ rfl with ⟨items, harea⟩ | hcut
        · exact .inl ⟨_, .item hpad hstop htake harea⟩
        · exact .inr (.item hpad hstop htake hcut)

theorem tlvs_some {options : List UInt8} {items : List OptionItem} :
    tlvs 0 options = some items ↔ OptionArea options items := by
  refine ⟨fun h => ?_, OptionArea.tlvs⟩
  rcases optionArea_or_cut options with ⟨items', harea⟩ | hcut
  · rw [harea.tlvs] at h
    cases h
    exact harea
  · rw [hcut.tlvs] at h
    cases h

theorem tlvs_none {options : List UInt8} : tlvs 0 options = none ↔ OptionsCut options := by
  refine ⟨fun h => ?_, OptionsCut.tlvs⟩
  rcases optionArea_or_cut options with ⟨items, harea⟩ | hcut
  · rw [harea.tlvs] at h
    cases h
  · exact hcut

/-! ## What is reported -/

/-- The value of the last item with the code that has at least `size` bytes. -/
def lastValue (code : UInt8) (size : Nat) (items : List OptionItem) : Option (List UInt8) :=
  ((items.filter fun item => item.1 = code ∧ size ≤ item.2.length).getLast?).map (·.2)

/-- The flags for the items that there are. -/
def optionFlags (subnet gateway dns serverId : Bool) : UInt8 :=
  (if subnet then dhcpOptionsHasSubnet else 0) ||| (if gateway then dhcpOptionsHasGateway else 0) |||
    (if dns then dhcpOptionsHasDns else 0) ||| (if serverId then dhcpOptionsHasServerId else 0)

/-- Each field has the value of the last item for it, or 0, and the flags say which there are. -/
structure OptionsReported (items : List OptionItem) (out : DhcpOptionsOut) : Prop where
  messageType : out.messageType = ((lastValue 53 1 items).map (·.getD 0 0)).getD 0
  subnet : out.subnet = ((lastValue 1 4 items).map getIpAddr).getD 0
  gateway : out.gateway = ((lastValue 3 4 items).map getIpAddr).getD 0
  dns : out.dns = ((lastValue 6 4 items).map getIpAddr).getD 0
  serverId : out.serverId = ((lastValue 54 4 items).map getIpAddr).getD 0
  flags : out.flags = optionFlags (lastValue 1 4 items).isSome (lastValue 3 4 items).isSome
    (lastValue 6 4 items).isSome (lastValue 54 4 items).isSome

theorem OptionsReported.unique {items : List OptionItem} {out' : DhcpOptionsOut} (h : OptionsReported items out)
    (h' : OptionsReported items out') : out = out' := by
  cases out
  cases out'
  obtain ⟨h1, h2, h3, h4, h5, h6⟩ := h
  obtain ⟨h1', h2', h3', h4', h5', h6'⟩ := h'
  dsimp only at *
  rw [h1, h2, h3, h4, h5, h6, h1', h2', h3', h4', h5', h6']

/-- The last value after one more item. -/
theorem lastValue_append (code : UInt8) (size : Nat) (items : List OptionItem) (item : OptionItem) :
    lastValue code size (items ++ [item]) =
      if item.1 = code ∧ size ≤ item.2.length then some item.2 else lastValue code size items := by
  unfold lastValue
  rw [List.filter_append]
  split
  · rename_i h
    simp [h]
  · rename_i h
    simp [h]

theorem optionFlags_set (subnet gateway dns serverId : Bool) :
    optionFlags subnet gateway dns serverId ||| dhcpOptionsHasSubnet = optionFlags true gateway dns serverId ∧
    optionFlags subnet gateway dns serverId ||| dhcpOptionsHasGateway = optionFlags subnet true dns serverId ∧
    optionFlags subnet gateway dns serverId ||| dhcpOptionsHasDns = optionFlags subnet gateway true serverId ∧
    optionFlags subnet gateway dns serverId ||| dhcpOptionsHasServerId = optionFlags subnet gateway dns true := by
  cases subnet <;> cases gateway <;> cases dns <;> cases serverId <;> decide

theorem OptionsReported.store {items : List OptionItem} (h : OptionsReported items out) (item : OptionItem) :
    OptionsReported (items ++ [item]) (storeItem out item) := by
  obtain ⟨code, value⟩ := item
  obtain ⟨htype, hsubnet, hgateway, hdns, hserver, hflags⟩ := h
  obtain ⟨hset1, hset2, hset3, hset4⟩ := optionFlags_set (lastValue 1 4 items).isSome (lastValue 3 4 items).isSome
    (lastValue 6 4 items).isSome (lastValue 54 4 items).isSome
  unfold storeItem
  dsimp only
  -- the item has one code, so that it is the last one for one field at most
  split
  · rename_i hcode
    obtain ⟨rfl, hlen⟩ := hcode
    constructor <;> simp [lastValue_append, *]
  split
  · rename_i hcode
    obtain ⟨rfl, hlen⟩ := hcode
    constructor <;> simp [lastValue_append, *]
  split
  · rename_i hcode
    obtain ⟨rfl, hlen⟩ := hcode
    constructor <;> simp [lastValue_append, *]
  split
  · rename_i hcode
    obtain ⟨rfl, hlen⟩ := hcode
    constructor <;> simp [lastValue_append, *]
  split
  · rename_i hcode
    obtain ⟨rfl, hlen⟩ := hcode
    constructor <;> simp [lastValue_append, *]
  · rename_i h53 h1 h3 h6 h54
    constructor <;> simp only [lastValue_append, h53, h1, h3, h6, h54, ↓reduceIte] <;> assumption

theorem reported_foldl (items : List OptionItem) : OptionsReported items (items.foldl storeItem .clear) := by
  induction items using List.reverseRecOn with
  | nil => exact ⟨rfl, rfl, rfl, rfl, rfl, rfl⟩
  | append_singleton items item ih =>
    rw [List.foldl_append]
    exact ih.store item

/-! ## The result -/

theorem run_dhcpHasMagicCookieAt (buffer : Nat → UInt8) (start len : Nat) :
    run buffer (dhcpHasMagicCookieAt start len) = dhcpHasMagicCookie (window buffer start len) := by
  rw [Bool.eq_iff_iff, dhcpHasMagicCookie, List.isPrefixOf_iff_prefix, List.prefix_iff_eq_take]
  unfold dhcpHasMagicCookieAt
  split
  · rename_i hlen
    constructor
    · intro h
      cases h
    · intro h
      have hlength := congrArg List.length h
      rw [List.length_take, window_length] at hlength
      simp only [List.length_cons, List.length_nil] at hlength
      omega
  · rw [run_bind, run_bytes, run_pure, window_take buffer start (Nat.le_of_not_lt ‹_›), decide_eq_true_iff, eq_comm]
    rfl

theorem run_dhcpOptionsParseAt (buffer : Nat → UInt8) (start len : Nat) :
    run buffer (dhcpOptionsParseAt start len) =
      (tlvs 0 (optionsBody (window buffer start len))).map (·.foldl storeItem .clear) := by
  unfold dhcpOptionsParseAt optionsBody
  rw [run_bind, run_optionsLoop, run_dhcpHasMagicCookieAt]
  split
  · rw [window_drop]
  · rfl

/-- The parser reads nothing outside of the area. It fails exactly if an item of the area is cut off before an END,
and otherwise returns what the items of the area report. -/
theorem dhcpOptionsParseAt_spec (start len : Nat) :
    ((dhcpOptionsParseAt start len).Within fun i => start ≤ i ∧ i < start + len) ∧
    ∀ buffer, (run buffer (dhcpOptionsParseAt start len) = none ↔
        OptionsCut (optionsBody (window buffer start len))) ∧
      ∀ out, run buffer (dhcpOptionsParseAt start len) = some out ↔
        ∃ items, OptionArea (optionsBody (window buffer start len)) items ∧ OptionsReported items out := by
  refine ⟨dhcpOptionsParseAt_within start len, fun buffer => ?_⟩
  rw [run_dhcpOptionsParseAt]
  refine ⟨?_, fun out => ?_⟩
  · rw [Option.map_eq_none_iff]
    exact tlvs_none
  · rw [Option.map_eq_some_iff]
    constructor
    · rintro ⟨items, hitems, rfl⟩
      exact ⟨items, tlvs_some.mp hitems, reported_foldl items⟩
    · rintro ⟨items, harea, hreported⟩
      exact ⟨items, tlvs_some.mpr harea, (reported_foldl items).unique hreported⟩

end Armonios
