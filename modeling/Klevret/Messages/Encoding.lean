import Klevret.Messages.Accepted
import Klevret.Options.Consumption

/-! # What the encoder covers

The encoder has a case for every alternative that the decoder produces, except
for the flags. A message is encoded exactly when all its options are.
-/

namespace Klevret

open Foundation

namespace DhcpOption

variable {code : ℤ} {d : DhcpOptionDescription} {before payload after : List UInt8}
  {option : DhcpOption}

theorem flag_described_of_mem : ∀ row ∈ optionsDescriptions,
    row.2.payloadDescription.type = .flag → row.2.payloadLength = 1 := by decide

theorem payloadValues_flag (hd : describe code payload.length = .ok d)
    (ht : d.payloadDescription.type = .flag) : ∃ b, payloadValues d payload = [.bool b] := by
  obtain ⟨hlookup, hlen, -⟩ := describe_eq_ok.mp hd
  have hone : d.payloadLength = 1 := flag_described_of_mem (code, d) (row_mem_of_lookup hlookup) ht
  rw [hone] at hlen
  have hlength : payload.length = 1 := by
    unfold VARIABLE_DHCP_OPTION_LENGTH at hlen
    omega
  obtain ⟨b, rfl⟩ := List.length_eq_one_iff.mp hlength
  exact ⟨beValue [b] != 0, by simp [payloadValues, elements, elementSize, ht, chunks, chunkValue,
    DhcpOptionPayloadType.isElementwise,
    DhcpOptionPayloadDescription.getOneElementPayloadLengthInBytes]⟩

variable [Host]

/-- The encoder returns bytes for every value of the option, and for the option. -/
structure IsWritten (option : DhcpOption) : Prop where
  values : ∀ value ∈ option.realValues, ∃ bytes,
    dhcpOptionFieldRealValueToNetworkData value = .ok bytes
  whole : ∃ bytes, option.toNetworkData = .ok bytes

theorem toNetworkData_isOk_iff (h0 : option.description.code ≠ 0)
    (h255 : option.description.code ≠ 255) :
    (∃ bytes, option.toNetworkData = .ok bytes) ↔
      ∀ value ∈ option.realValues, ∃ bytes,
        dhcpOptionFieldRealValueToNetworkData value = .ok bytes := by
  rw [← Exec.exists_mapM_ok, toNetworkData, if_neg h0, if_neg h255]
  cases option.realValues.mapM dhcpOptionFieldRealValueToNetworkData <;> simp

theorem payloadValues_written_iff (hd : describe code payload.length = .ok d) :
    (∀ value ∈ payloadValues d payload, ∃ bytes,
      dhcpOptionFieldRealValueToNetworkData value = .ok bytes) ↔
      d.payloadDescription.type ≠ .flag := by
  constructor
  · intro hvalues hflag
    obtain ⟨b, hb⟩ := payloadValues_flag hd hflag
    obtain ⟨bytes, hbytes⟩ := hvalues (.bool b) (by rw [hb]; exact List.mem_singleton_self _)
    cases hbytes
  · intro hflag
    obtain ⟨values, hv, -⟩ := encode_payloadValues payload hflag
    exact Exec.exists_mapM_ok.mp ⟨values, hv⟩

theorem toNetworkData_ofValues_iff (hd : describe code payload.length = .ok d) :
    (∃ bytes, (ofValues d payload.length (payloadValues d payload)).toNetworkData = .ok bytes) ↔
      d.payloadDescription.type ≠ .flag := by
  obtain ⟨h0, h255⟩ := code_ne_of_describe hd
  rw [← (described_of_describe hd).code_eq] at h0 h255
  exact (toNetworkData_isOk_iff h0 h255).trans (payloadValues_written_iff hd)

theorem isWritten_of_new (hlookup : optionsDescriptions.lookup code = some d)
    (h : newWithin code before payload after = .ok option) :
    IsWritten option ↔ d.payloadDescription.type ≠ .flag := by
  obtain ⟨d', hd, _, _, rfl⟩ := newWithin_eq_ok.mp h
  obtain rfl : d' = d := Option.some.inj ((describe_eq_ok.mp hd).1.symm.trans hlookup)
  constructor
  · exact fun hwritten => (payloadValues_written_iff hd).mp hwritten.values
  · exact fun hflag =>
      ⟨(payloadValues_written_iff hd).mpr hflag, (toNetworkData_ofValues_iff hd).mpr hflag⟩

end DhcpOption

namespace DhcpMessage

variable {code length : UInt8} {d : DhcpOptionDescription} {payload data : List UInt8}
  {message : DhcpMessage}

section

variable [Host]

theorem toNetworkData_isOk_iff {mac : MacAddress} (hmac : message.chaddr = some mac) :
    (∃ bytes, message.toNetworkData = .ok bytes) ↔
      ∀ o ∈ message.options, ∃ bytes, o.toNetworkData = .ok bytes := by
  rw [← Exec.exists_mapM_ok]
  unfold toNetworkData
  simp only [hmac, Exec.ok_bind]
  split_ifs with hnil
  · rw [List.length_eq_zero_iff.mp hnil]
    exact iff_of_true ⟨_, rfl⟩ ⟨[], rfl⟩
  · cases message.options.mapM DhcpOption.toNetworkData with
    | error e =>
      simp only [Exec.error_bind, reduceCtorEq, exists_false]
    | ok options =>
      exact iff_of_true ⟨_, rfl⟩ ⟨_, rfl⟩

theorem toNetworkData_of_new (h : new data = .ok message) :
    (∃ bytes, message.toNetworkData = .ok bytes) ↔
      ∀ o ∈ message.options, o.description.payloadDescription.type ≠ .flag := by
  obtain ⟨mac, hmac⟩ := chaddr_of_new h
  rw [toNetworkData_isOk_iff hmac]
  refine forall₂_congr fun o ho => ?_
  obtain ⟨code, length, d, payload, ⟨hd, hlen, -⟩, -, rfl⟩ := optionOf_of_new h ho
  rw [optionOf, ← hlen]
  rw [← hlen] at hd
  exact DhcpOption.toNetworkData_ofValues_iff hd

/-- The encoder covers exactly the options that are not flags, and the messages without flags. -/
theorem isWritten_iff :
    (∀ (code : ℤ) (d : DhcpOptionDescription) (before payload after : List UInt8)
      (option : DhcpOption), optionsDescriptions.lookup code = some d →
      DhcpOption.newWithin code before payload after = .ok option →
      (DhcpOption.IsWritten option ↔ d.payloadDescription.type ≠ .flag)) ∧
    (∀ (data : List UInt8) (message : DhcpMessage), new data = .ok message →
      ((∃ bytes, message.toNetworkData = .ok bytes) ↔
        ∀ o ∈ message.options, o.description.payloadDescription.type ≠ .flag)) :=
  ⟨fun _ _ _ _ _ _ => DhcpOption.isWritten_of_new, fun _ _ => toNetworkData_of_new⟩

end

/-- IP forwarding, which is a flag. -/
theorem not_isWritten_forwarding : ¬ ∀ (_ : Host) (code : ℤ) (payload : List UInt8)
    (option : DhcpOption), DhcpOption.newWithin code [] payload [] = .ok option →
    DhcpOption.IsWritten option := by
  intro h
  let host : Host := ⟨.little⟩
  have hnew : DhcpOption.newWithin 19 [] [1] [] =
      .ok ⟨1, ⟨19, 1, ⟨.flag, false, 0, .noConstraint⟩⟩, [.bool true]⟩ := by decide
  obtain ⟨bytes, hbytes⟩ := (h host 19 [1] _ hnew).whole
  cases hbytes

/-- A discovery with one option, the message type. -/
def sampleDiscovery : List UInt8 :=
  [1, 1, 6, 0] ++ List.replicate 232 0 ++ [99, 130, 83, 99, 53, 1, 1, 255]

def sampleMessageType : DhcpOption :=
  ⟨1, ⟨53, 1, ⟨.uintEnum, false, 0, ⟨.uintEnum, 0, 0, [1, 2, 3, 4, 5, 6, 7, 8]⟩⟩⟩, [.uint8 1]⟩

theorem isWritten_sample :
    letI : Host := ⟨.little⟩
    (DhcpOption.IsWritten sampleMessageType ↔ DhcpOptionPayloadType.uintEnum ≠ .flag) ∧
      ((∃ bytes, (ofFields sampleDiscovery [sampleMessageType]).toNetworkData = .ok bytes) ↔
        ∀ o ∈ [sampleMessageType], o.description.payloadDescription.type ≠ .flag) := by
  let host : Host := ⟨.little⟩
  obtain ⟨hoption, hmessage⟩ := isWritten_iff
  have hnew : new sampleDiscovery = .ok (ofFields sampleDiscovery [sampleMessageType]) := by
    decide +kernel
  exact ⟨hoption 53 sampleMessageType.description [] [1] [] _ (by decide) (by decide),
    hmessage _ _ hnew⟩

end DhcpMessage

end Klevret
