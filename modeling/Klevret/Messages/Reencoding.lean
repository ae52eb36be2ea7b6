import Klevret.Messages.Encoding
import Klevret.Messages.Segments
import Klevret.Options.Rewriting

/-! # Messages there and back

What the encoder writes of a message is parsed as the message with its options
rewritten, and with an empty server name and boot file. So a message comes back
when all its values survive, and after two passes it comes back in any case.
-/

namespace Klevret

open Foundation

namespace DhcpOption

variable {d : DhcpOptionDescription} {payload : List UInt8}

section

variable [Host]

theorem survives_payloadValues {code : ℤ} (hd : describe code payload.length = .ok d)
    (hw : WholeElements d payload.length) :
    (∀ value ∈ payloadValues d payload, value.Survives) ↔
      d.payloadDescription.type ≠ .flag ∧ rewrittenPayload d payload = payload := by
  cases h : d.payloadDescription.type.isElementwise with
  | false =>
    have hsurvives : ∀ value ∈ payloadValues d payload, value.Survives := by
      intro value hvalue
      unfold payloadValues at hvalue
      simp only [h, Bool.false_eq_true, if_false] at hvalue
      split_ifs at hvalue with he
      · simp at hvalue
      · obtain rfl := List.mem_singleton.mp hvalue
        cases ht : d.payloadDescription.type <;>
          simp only [ht, DhcpOptionPayloadType.isElementwise, Bool.true_eq_false] at h <;>
          exact True.intro
    have hflag : d.payloadDescription.type ≠ .flag := by
      intro ht
      simp [ht, DhcpOptionPayloadType.isElementwise] at h
    exact iff_of_true hsurvives ⟨hflag, by simp [rewrittenPayload, h]⟩
  | true =>
    have hflat := flatten_elements h hw
    have hvalues : (∀ value ∈ payloadValues d payload, value.Survives) ↔
        ∀ chunk ∈ elements d payload, d.payloadDescription.type ≠ .flag ∧
          rewritten d.payloadDescription.type chunk = chunk := by
      rw [payloadValues, if_pos h, List.forall_mem_map]
      exact forall₂_congr fun chunk hc => survives_chunkValue h (length_of_mem_elements hc)
    have hrewritten : rewrittenPayload d payload = payload ↔
        ∀ chunk ∈ elements d payload, rewritten d.payloadDescription.type chunk = chunk := by
      rw [rewrittenPayload, if_pos h]
      nth_rewrite 2 [← hflat]
      exact flatten_map_eq_flatten_iff fun c _ => length_rewritten _ c
    rw [hvalues, hrewritten]
    constructor
    · intro hall
      refine ⟨?_, fun chunk hc => (hall chunk hc).2⟩
      intro ht
      obtain ⟨b, hb⟩ := payloadValues_flag hd ht
      rw [payloadValues, if_pos h, List.map_eq_singleton_iff] at hb
      obtain ⟨chunk, hchunk, -⟩ := hb
      exact (hall chunk (hchunk ▸ List.mem_singleton_self _)).1 ht
    · rintro ⟨hflag, hall⟩ chunk hc
      exact ⟨hflag, hall chunk hc⟩

end

end DhcpOption

theorem IPv4Address.exists_octets (ip : IPv4Address) : ∃ a b c d, ip = ⟨⟨[a, b, c, d], rfl⟩⟩ := by
  obtain ⟨⟨_ | ⟨a, _ | ⟨b, _ | ⟨c, _ | ⟨d, _ | ⟨e, l⟩⟩⟩⟩⟩, h⟩⟩ := ip
  case cons.cons.cons.cons.nil => exact ⟨a, b, c, d, rfl⟩
  all_goals simp [IP_V4_ADDRESS_LENGTH] at h

theorem MacAddress.exists_octets (mac : MacAddress) :
    ∃ a b c d e f, mac = ⟨⟨[a, b, c, d, e, f], rfl⟩⟩ := by
  obtain ⟨⟨_ | ⟨a, _ | ⟨b, _ | ⟨c, _ | ⟨d, _ | ⟨e, _ | ⟨f, _ | ⟨g, l⟩⟩⟩⟩⟩⟩⟩, h⟩⟩ := mac
  case cons.cons.cons.cons.cons.cons.nil => exact ⟨a, b, c, d, e, f, rfl⟩
  all_goals simp [MAC_ADDRESS_LENGTH] at h

namespace DhcpMessage

/-- The message without what the encoder leaves out. -/
def unnamed (message : DhcpMessage) : DhcpMessage :=
  { message with sname := List.replicate 64 0, file := List.replicate 128 0 }

variable {message message' : DhcpMessage} {options options' : List DhcpOption} {mac : MacAddress}
  {code length : UInt8} {d : DhcpOptionDescription} {payload area data : List UInt8}
  {option option' : DhcpOption}

theorem Lists.option_inv (hf : Fits code length d payload)
    (h : Lists (code :: length :: (payload ++ area)) options) :
    DhcpOption.payloadAllowed d payload = true ∧
      ∃ rest, options = optionOf length d payload :: rest ∧ Lists area rest := by
  obtain ⟨h0, h255⟩ := code_of_describe hf.described
  generalize hwhole : code :: length :: (payload ++ area) = whole at h
  cases h with
  | nil => cases hwhole
  | pad _ => exact absurd (List.cons.inj hwhole).1 h0
  | stop _ => exact absurd (List.cons.inj hwhole).1 h255
  | option hf' ha hrest =>
    obtain ⟨rfl, htail⟩ := List.cons.inj hwhole
    obtain ⟨rfl, happend⟩ := List.cons.inj htail
    obtain rfl := Except.ok.inj (hf.described.symm.trans hf'.described)
    obtain ⟨rfl, rfl⟩ := List.append_inj happend (hf.length_eq.trans hf'.length_eq.symm)
    exact ⟨ha, _, rfl, hrest⟩

section

variable [Host]

/-- The constructor built the option from a payload. -/
def IsOption (option : DhcpOption) : Prop :=
  ∃ code length d payload, Fits code length d payload ∧
    DhcpOption.payloadAllowed d payload = true ∧ option = optionOf length d payload

/-- The constructor built the first option from a payload, and the second from the payload as it is
written back. -/
def Rereads (option option' : DhcpOption) : Prop :=
  ∃ code length d payload, Fits code length d payload ∧ d.payloadDescription.type ≠ .flag ∧
    DhcpOption.payloadAllowed d payload = true ∧
    DhcpOption.payloadAllowed d (DhcpOption.rewrittenPayload d payload) = true ∧
    option = optionOf length d payload ∧
    option' = optionOf length d (DhcpOption.rewrittenPayload d payload)

/-- What is written of the first message is parsed as the second. -/
def Reencodes (message message' : DhcpMessage) : Prop :=
  ∃ bytes, message.toNetworkData = .ok bytes ∧ new bytes = .ok message'

/-- A message that the encoder and the parser take as it is, but for its options. -/
structure Encodable (message : DhcpMessage) : Prop where
  htype : message.htype = .ethernet10Mb
  chaddr : ∃ mac, message.chaddr = some mac
  options : ∀ o ∈ message.options, IsOption o

theorem Fits.rewritten (hf : Fits code length d payload) :
    Fits code length d (DhcpOption.rewrittenPayload d payload) := by
  have hlen := DhcpOption.length_rewrittenPayload hf.whole
  exact ⟨hf.described, hlen.trans hf.length_eq, hlen ▸ hf.whole⟩

theorem Rereads.symm (h : Rereads option option') : Rereads option' option := by
  obtain ⟨code, length, d, payload, hf, hflag, ha, ha', rfl, rfl⟩ := h
  have hback := DhcpOption.rewrittenPayload_rewrittenPayload hf.whole
  refine ⟨code, length, d, _, hf.rewritten, hflag, ha', ?_, rfl, ?_⟩
  · rwa [hback]
  · rw [hback]

theorem toNetworkData_optionOf (hf : Fits code length d payload)
    (hflag : d.payloadDescription.type ≠ .flag) :
    (optionOf length d payload).toNetworkData =
      .ok (code :: length :: DhcpOption.rewrittenPayload d payload) := by
  have hd := hf.described
  rw [← hf.length_eq] at hd
  rw [optionOf, ← hf.length_eq, DhcpOption.toNetworkData_ofValues hd hflag,
    DhcpOption.ofInt_natCast, UInt8.ofNat_toNat, hf.length_eq, UInt8.ofNat_toNat]

theorem rereads_of_new (code length : UInt8) (payload payload' : List UInt8)
    (hlen : payload.length = length.toNat) (hlen' : payload'.length = length.toNat)
    (hnew : DhcpOption.new code.toNat length.toNat payload 0 payload.length = .ok option)
    (hwritten : option.toNetworkData = .ok (code :: length :: payload'))
    (hnew' : DhcpOption.new code.toNat length.toNat payload' 0 payload'.length = .ok option') :
    Rereads option option' := by
  obtain ⟨d, hf, ha, rfl⟩ := fits_of_new hlen hnew
  obtain ⟨d', hf', ha', rfl⟩ := fits_of_new hlen' hnew'
  obtain rfl := Except.ok.inj (hf.described.symm.trans hf'.described)
  have hflag : d.payloadDescription.type ≠ .flag := by
    have hd := hf.described
    rw [← hlen] at hd
    apply (DhcpOption.toNetworkData_ofValues_iff hd).mp
    rw [optionOf, ← hlen] at hwritten
    exact ⟨_, hwritten⟩
  rw [toNetworkData_optionOf hf hflag, Except.ok.injEq, List.cons.injEq, List.cons.injEq]
    at hwritten
  obtain ⟨-, -, rfl⟩ := hwritten
  exact ⟨code, length, d, payload, hf, hflag, ha, ha', rfl, rfl⟩

theorem rereads_self_iff (h : IsOption option) :
    Rereads option option ↔ ∀ value ∈ option.realValues, value.Survives := by
  obtain ⟨code, length, d, payload, hf, ha, rfl⟩ := h
  have hd := hf.described
  rw [← hf.length_eq] at hd
  have hsurvives := DhcpOption.survives_payloadValues hd hf.whole
  apply Iff.trans _ hsurvives.symm
  constructor
  · rintro ⟨code', length', d', payload', hf', hflag, -, -, he, he'⟩
    obtain rfl : d = d' := congrArg DhcpOption.description he
    have hvalues : DhcpOption.payloadValues d payload = DhcpOption.payloadValues d payload' :=
      congrArg DhcpOption.realValues he
    obtain rfl := DhcpOption.eq_of_payloadValues_eq hflag hf.whole hf'.whole hvalues
    have hvalues' : DhcpOption.payloadValues d payload = DhcpOption.payloadValues d _ :=
      congrArg DhcpOption.realValues he'
    have hsame := DhcpOption.eq_of_payloadValues_eq hflag hf.whole hf.rewritten.whole hvalues'
    exact ⟨hflag, hsame.symm⟩
  · rintro ⟨hflag, hr⟩
    exact ⟨code, length, d, payload, hf, hflag, ha, by rwa [hr], rfl, by rw [hr]⟩

theorem lists_of_rereads (h : List.Forall₂ Rereads options options') :
    ∃ chunks, options.mapM DhcpOption.toNetworkData = .ok chunks ∧
      Lists (chunks.flatten ++ [255]) options' := by
  induction h with
  | nil => exact ⟨[], rfl, .stop []⟩
  | cons hr _ ih =>
    obtain ⟨chunks, hm, hl⟩ := ih
    obtain ⟨code, length, d, payload, hf, hflag, ha, ha', rfl, rfl⟩ := hr
    refine ⟨(code :: length :: DhcpOption.rewrittenPayload d payload) :: chunks, ?_, ?_⟩
    · rw [List.mapM_cons, toNetworkData_optionOf hf hflag, hm]
      rfl
    · have hlists := Lists.option hf.rewritten ha' hl
      rwa [List.flatten_cons, List.append_assoc, List.cons_append, List.cons_append]

theorem rereads_of_lists (hoptions : ∀ o ∈ options, IsOption o) {chunks : List (List UInt8)}
    (hm : options.mapM DhcpOption.toNetworkData = .ok chunks)
    (h : Lists (chunks.flatten ++ [255]) options') : List.Forall₂ Rereads options options' := by
  induction options generalizing chunks options' with
  | nil =>
    cases hm
    cases h with
    | stop _ => exact .nil
  | cons o options ih =>
    obtain ⟨ho, hrest⟩ := List.forall_mem_cons.mp hoptions
    obtain ⟨code, length, d, payload, hf, ha, rfl⟩ := ho
    have hflag : d.payloadDescription.type ≠ .flag := by
      have hd := hf.described
      rw [← hf.length_eq] at hd
      apply (DhcpOption.toNetworkData_ofValues_iff hd).mp
      have hwritten := Exec.exists_mapM_ok.mp ⟨chunks, hm⟩ _ List.mem_cons_self
      rwa [optionOf, ← hf.length_eq] at hwritten
    rw [List.mapM_cons, toNetworkData_optionOf hf hflag, Exec.ok_bind] at hm
    cases htail : options.mapM DhcpOption.toNetworkData with
    | error e => simp [htail] at hm
    | ok tail =>
      rw [htail] at hm
      obtain rfl := Except.ok.inj hm
      rw [List.flatten_cons, List.append_assoc, List.cons_append, List.cons_append] at h
      obtain ⟨ha', rest, rfl, hlists⟩ := Lists.option_inv hf.rewritten h
      exact .cons ⟨code, length, d, payload, hf, hflag, ha, ha', rfl, rfl⟩ (ih hrest htail hlists)

theorem ofFields_of_header {header : List UInt8} (hmac : message.chaddr = some mac)
    (h : toNetworkData { message with options := [] } = .ok header) :
    header.length = 236 ∧ ∀ rest options,
      ofFields (header ++ rest) options = { unnamed message with options := options } := by
  obtain ⟨x₀, x₁, x₂, x₃, hxid⟩ := exists_word32 message.xid
  obtain ⟨s₀, s₁, hsecs⟩ := exists_word16 message.secs
  obtain ⟨f₀, f₁, hflags⟩ := exists_word16 message.flags
  obtain ⟨c₀, c₁, c₂, c₃, hciaddr⟩ := message.ciaddr.exists_octets
  obtain ⟨y₀, y₁, y₂, y₃, hyiaddr⟩ := message.yiaddr.exists_octets
  obtain ⟨v₀, v₁, v₂, v₃, hsiaddr⟩ := message.siaddr.exists_octets
  obtain ⟨g₀, g₁, g₂, g₃, hgiaddr⟩ := message.giaddr.exists_octets
  obtain ⟨m₀, m₁, m₂, m₃, m₄, m₅, rfl⟩ := mac.exists_octets
  rw [toNetworkData_header hmac, ← hxid, ← hsecs, ← hflags, bytes32_word32, bytes16_word16,
    bytes16_word16, hciaddr, hyiaddr, hsiaddr, hgiaddr, Except.ok.injEq] at h
  subst h
  refine ⟨rfl, fun rest options => ?_⟩
  obtain ⟨op, htype, hlen, hops, xid, secs, flags, ciaddr, yiaddr, siaddr, giaddr, chaddr, sname,
    file, options⟩ := message
  simp only at hxid hsecs hflags hciaddr hyiaddr hsiaddr hgiaddr hmac
  subst hxid hsecs hflags hciaddr hyiaddr hsiaddr hgiaddr hmac
  rfl

theorem toNetworkData_of_header {header : List UInt8} (hmac : message.chaddr = some mac)
    (h : toNetworkData { message with options := [] } = .ok header) :
    message.toNetworkData =
      if message.options = [] then .ok header
      else do
        let chunks ← message.options.mapM DhcpOption.toNetworkData
        return header ++ ([99, 130, 83, 99] ++ (chunks.flatten ++ [255])) := by
  unfold toNetworkData at h ⊢
  simp only [hmac, Exec.ok_bind, List.length_nil, if_true, Exec.pure_eq_ok,
    Except.ok.injEq] at h ⊢
  rw [h]
  simp only [List.length_eq_zero_iff, List.append_assoc]

theorem new_header {header : List UInt8} (hlen : header.length = 236)
    (htype : header.getD 1 0 = HardwareAddressType.ethernet10Mb) :
    new header = .ok (ofFields header []) := by
  have hrefusal : fieldsRefusal header = none := by
    rw [fieldsRefusal, if_neg (by omega), if_neg (by rw [htype]; decide), if_pos (by omega)]
  exact new_eq_ok.mpr ⟨hrefusal, [], rfl, Or.inl ⟨by omega, rfl⟩⟩

theorem new_header_area {header : List UInt8} (hlen : header.length = 236)
    (htype : ∀ rest, (header ++ rest).getD 1 0 = HardwareAddressType.ethernet10Mb) :
    new (header ++ ([99, 130, 83, 99] ++ area)) = .ok message' ↔
      ∃ options, Lists area options ∧
        message' = ofFields (header ++ ([99, 130, 83, 99] ++ area)) options := by
  have hsize : 240 ≤ (header ++ ([99, 130, 83, 99] ++ area)).length := by
    simp only [List.length_append, List.length_cons, List.length_nil]
    omega
  have hcookie : ((header ++ ([99, 130, 83, 99] ++ area)).drop 236).take 4 = [99, 130, 83, 99] := by
    rw [← hlen, List.drop_left]
    rfl
  have harea : (header ++ ([99, 130, 83, 99] ++ area)).drop 240 = area := by
    rw [← List.append_assoc]
    exact List.drop_left' (by simp [hlen])
  have hrefusal : fieldsRefusal (header ++ ([99, 130, 83, 99] ++ area)) = none := by
    rw [fieldsRefusal, if_neg (by omega), if_neg (by rw [htype]; decide), if_neg (by omega),
      if_neg (by rw [hcookie]; decide)]
  rw [new_eq_ok, harea]
  constructor
  · rintro ⟨-, options, he, ⟨hlt, -⟩ | ⟨-, hlists⟩⟩
    · omega
    · exact ⟨options, hlists, he⟩
  · rintro ⟨options, hlists, he⟩
    exact ⟨hrefusal, options, he, Or.inr ⟨hsize, hlists⟩⟩

/-- What is written of a message is parsed as the message without its names and with its options
reread, and as nothing else. -/
theorem reencodes_iff (h : Encodable message) :
    Reencodes message message' ↔ ∃ options', List.Forall₂ Rereads message.options options' ∧
      message' = { unnamed message with options := options' } := by
  obtain ⟨htype, ⟨mac, hmac⟩, hoptions⟩ := h
  obtain ⟨header, hheader⟩ : ∃ header, toNetworkData { message with options := [] } = .ok header :=
    ⟨_, toNetworkData_header hmac⟩
  obtain ⟨hlen, hfields⟩ := ofFields_of_header hmac hheader
  have hbytes := toNetworkData_of_header hmac hheader
  have hone : ∀ rest, (header ++ rest).getD 1 0 = HardwareAddressType.ethernet10Mb := by
    intro rest
    rw [← htype]
    exact congrArg DhcpMessage.htype (hfields rest [])
  unfold Reencodes
  rw [hbytes]
  by_cases hnil : message.options = []
  · have hempty := hfields [] []
    have htype' := hone []
    rw [List.append_nil] at hempty htype'
    have hnew := new_header hlen htype'
    rw [hnil, if_pos rfl]
    constructor
    · rintro ⟨bytes, hb, hm⟩
      obtain rfl := Except.ok.inj hb
      rw [hnew, hempty] at hm
      exact ⟨[], .nil, (Except.ok.inj hm).symm⟩
    · rintro ⟨options', hr, rfl⟩
      cases hr
      exact ⟨header, rfl, hnew.trans (congrArg Except.ok hempty)⟩
  · rw [if_neg hnil]
    constructor
    · rintro ⟨bytes, hb, hm⟩
      cases hchunks : message.options.mapM DhcpOption.toNetworkData with
      | error e => simp [hchunks] at hb
      | ok chunks =>
        rw [hchunks] at hb
        obtain rfl := Except.ok.inj hb
        obtain ⟨options', hlists, he⟩ := (new_header_area hlen hone).mp hm
        exact ⟨options', rereads_of_lists hoptions hchunks hlists, he.trans (hfields _ _)⟩
    · rintro ⟨options', hr, rfl⟩
      obtain ⟨chunks, hchunks, hlists⟩ := lists_of_rereads hr
      rw [hchunks]
      exact ⟨_, rfl, (new_header_area hlen hone).mpr ⟨options', hlists, (hfields _ _).symm⟩⟩

theorem encodable_of_new (h : new data = .ok message) : Encodable message := by
  obtain ⟨hf, options, rfl, -⟩ := new_eq_ok.mp h
  refine ⟨?_, ⟨_, rfl⟩, fun o ho => optionOf_of_new h ho⟩
  unfold fieldsRefusal at hf
  split_ifs at hf with hlen htype
  all_goals exact not_not.mp htype

theorem isOption_of_rereads (h : List.Forall₂ Rereads options options') :
    ∀ o ∈ options, IsOption o := by
  induction h with
  | nil => simp
  | cons hr _ ih =>
    obtain ⟨code, length, d, payload, hf, -, ha, -, rfl, -⟩ := hr
    exact List.forall_mem_cons.mpr ⟨⟨code, length, d, payload, hf, ha, rfl⟩, ih⟩

/-- What is accepted does not depend on the host. -/
theorem new_eq_ok_of_host (h : new data = .ok message) : ∀ host : Host,
    @new host data = .ok message := by
  have haccepted := new_eq_ok.mp h
  intro host
  exact new_eq_ok.mpr haccepted

/-- An accepted message comes back without its names exactly when all its values survive. -/
theorem reencodes_self_iff (h : new data = .ok message) :
    Reencodes message message.unnamed ↔
      ∀ o ∈ message.options, ∀ value ∈ o.realValues, value.Survives := by
  have hencodable := encodable_of_new h
  rw [reencodes_iff hencodable]
  have hsame : (∃ options', List.Forall₂ Rereads message.options options' ∧
      message.unnamed = { unnamed message with options := options' }) ↔
      List.Forall₂ Rereads message.options message.options := by
    constructor
    · rintro ⟨options', hr, he⟩
      obtain rfl : message.options = options' := congrArg DhcpMessage.options he
      exact hr
    · exact fun hr => ⟨message.options, hr, rfl⟩
  rw [hsame, List.forall₂_same]
  exact forall₂_congr fun o ho => rereads_self_iff (hencodable.options o ho)

/-- A message that is written, parsed, written and parsed again comes back without its names,
whatever the byte order of the host makes of its numbers in between. -/
theorem reencodes_symm (h : new data = .ok message) (hr : Reencodes message message') :
    Reencodes message' message.unnamed := by
  obtain ⟨bytes, hb, hnew⟩ := id hr
  obtain ⟨options', hoptions, rfl⟩ := (reencodes_iff (encodable_of_new h)).mp hr
  apply (reencodes_iff (encodable_of_new hnew)).mpr
  exact ⟨message.options, hoptions.flip.imp fun _ _ => Rereads.symm, rfl⟩

end

def leaseRequest (seconds : List UInt8) : List UInt8 :=
  [1, 1, 6, 0] ++ List.replicate 232 0 ++ [99, 130, 83, 99, 51, 4] ++ seconds ++ [255]

def leaseOption (seconds : UInt32) : DhcpOption :=
  ⟨4, ⟨51, 4, ⟨.uint32, false, 0, .noConstraint⟩⟩, [.uint32 seconds]⟩

theorem new_leaseRequest :
    letI : Host := ⟨.little⟩
    new (leaseRequest [0, 1, 81, 128]) =
        .ok (ofFields (leaseRequest [0, 1, 81, 128]) [leaseOption 86400]) ∧
      Reencodes (ofFields (leaseRequest [0, 1, 81, 128]) [leaseOption 86400])
        (ofFields (leaseRequest [128, 81, 1, 0]) [leaseOption 2152792320]) := by
  let host : Host := ⟨.little⟩
  exact ⟨by decide +kernel, leaseRequest [128, 81, 1, 0], by decide +kernel, by decide +kernel⟩

/-- A lease time of 86400 seconds is none of the numbers that survive on a little-endian host. -/
theorem reencodes_self_sample :
    letI : Host := ⟨.little⟩
    ¬ Reencodes (ofFields (leaseRequest [0, 1, 81, 128]) [leaseOption 86400])
      (ofFields (leaseRequest [0, 1, 81, 128]) [leaseOption 86400]).unnamed := by
  let host : Host := ⟨.little⟩
  rw [reencodes_self_iff new_leaseRequest.1]
  intro h
  have hlease := h (leaseOption 86400) (List.mem_singleton_self _) (.uint32 86400)
    (List.mem_singleton_self _) rfl
  exact absurd hlease (by decide)

/-- Two passes restore it. -/
theorem reencodes_symm_sample :
    letI : Host := ⟨.little⟩
    Reencodes (ofFields (leaseRequest [128, 81, 1, 0]) [leaseOption 2152792320])
      (ofFields (leaseRequest [0, 1, 81, 128]) [leaseOption 86400]).unnamed := by
  let host : Host := ⟨.little⟩
  exact reencodes_symm new_leaseRequest.1 new_leaseRequest.2

end DhcpMessage

end Klevret
