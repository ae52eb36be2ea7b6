import Klevret.Messages.Encoding
import Klevret.Options.Meaning
import Klevret.Server.DhcpServer

/-! # Decoding, up to the main loop

The main loop takes the first value of the message type option without a check.
The constructor has checked it, so it is one of the eight message types.
-/

namespace Klevret

open Foundation

section

variable [Host] {code length : UInt8} {d : DhcpOptionDescription} {payload data : List UInt8}
  {message : DhcpMessage} {option53 : DhcpOption}

theorem messageTypeOf_optionOf (hf : DhcpMessage.Fits code length d payload)
    (ha : DhcpOption.payloadAllowed d payload = true) (hcode : d.code = 53) :
    ∃ messageType, messageTypeOf (DhcpMessage.optionOf length d payload) = .ok messageType ∧
      1 ≤ messageType ∧ messageType ≤ 8 := by
  obtain ⟨v, hv⟩ := DhcpMessage.realValues_optionOf hf hcode
  obtain ⟨rfl, hone⟩ := DhcpMessage.row_of_messageType hf hcode
  have hd := hf.described
  have hne : payload ≠ [] := List.ne_nil_of_length_eq_add_one hone
  refine ⟨v, by rw [messageTypeOf, hv], ?_⟩
  rw [DhcpMessage.optionOf, ← hf.length_eq] at hv
  rw [← hf.length_eq] at hd
  obtain ⟨allowed, hallowed, heq⟩ := (DhcpOption.decodes_ofValues hd hne ha).admitted (.uint8 v)
    (by rw [hv]; exact List.mem_singleton_self _) v.toNat rfl
  have hrange : ∀ n ∈ [1, 2, 3, 4, 5, 6, 7, 8], 1 ≤ n ∧ n ≤ 8 := by decide
  obtain ⟨hlow, hhigh⟩ := hrange allowed hallowed
  rw [UInt8.le_iff_toNat_le, UInt8.le_iff_toNat_le]
  simp only [UInt8.reduceToNat]
  omega

theorem messageTypeOf_of_new (h : DhcpMessage.new data = .ok message)
    (hfind : findOption53 message = some option53) :
    ∃ messageType, messageTypeOf option53 = .ok messageType ∧
      1 ≤ messageType ∧ messageType ≤ 8 := by
  unfold findOption53 at hfind
  have hcode : option53.description.code = 53 := by simpa using List.find?_some hfind
  obtain ⟨code, length, d, payload, hf, ha, rfl⟩ :=
    DhcpMessage.optionOf_of_new h (List.mem_of_find?_eq_some hfind)
  exact messageTypeOf_optionOf hf ha hcode

/-- The constructor decodes whole elements, and the main loop finds a message type. -/
theorem decodes_new :
    (∀ (code : ℤ) (d : DhcpOptionDescription) (before payload after : List UInt8),
      optionsDescriptions.lookup code = some d → code ≠ 0 → code ≠ 255 →
      (d.payloadLength = VARIABLE_DHCP_OPTION_LENGTH ∨ d.payloadLength = payload.length) →
      payload ≠ [] →
      d.payloadDescription.getOneElementPayloadLengthInBytes ∣ payload.length →
      (Exec.Throws (DhcpOption.newWithin code before payload after) ↔
        DhcpOption.BreaksConstraint d payload) ∧
      (¬ DhcpOption.BreaksConstraint d payload →
        ∃ option, DhcpOption.newWithin code before payload after = .ok option ∧
          DhcpOption.Decodes d payload option)) ∧
    (∀ (data : List UInt8) (message : DhcpMessage) (option53 : DhcpOption),
      DhcpMessage.new data = .ok message → findOption53 message = some option53 →
      ∃ messageType, messageTypeOf option53 = .ok messageType ∧
        1 ≤ messageType ∧ messageType ≤ 8) := by
  refine ⟨fun code d before payload after hlookup h0 h255 hlen hne hdvd => ?_,
    fun _ _ _ => messageTypeOf_of_new⟩
  have hd := DhcpOption.describe_of_lookup hlookup h0 h255 hlen
  have hw := (DhcpOption.wholeElements_iff_dvd (DhcpOption.describe_eq_ok.mp hd).2.2 _).mpr hdvd
  exact DhcpOption.newWithin_correct hd hw hne before after

end

/-- A negative time offset, and the message type of a discovery. -/
theorem decodes_new_sample :
    letI : Host := ⟨.little⟩
    let d : DhcpOptionDescription := ⟨2, 4, ⟨.int32, false, 0, .noConstraint⟩⟩
    ((Exec.Throws (DhcpOption.newWithin 2 [] [255, 255, 241, 240] [7]) ↔
        DhcpOption.BreaksConstraint d [255, 255, 241, 240]) ∧
      (¬ DhcpOption.BreaksConstraint d [255, 255, 241, 240] →
        ∃ option, DhcpOption.newWithin 2 [] [255, 255, 241, 240] [7] = .ok option ∧
          DhcpOption.Decodes d [255, 255, 241, 240] option)) ∧
    ∃ messageType, messageTypeOf DhcpMessage.sampleMessageType = .ok messageType ∧
      1 ≤ messageType ∧ messageType ≤ 8 := by
  let host : Host := ⟨.little⟩
  obtain ⟨hoption, hmessage⟩ := decodes_new
  have hnew : DhcpMessage.new DhcpMessage.sampleDiscovery =
      .ok (DhcpMessage.ofFields DhcpMessage.sampleDiscovery [DhcpMessage.sampleMessageType]) := by
    decide +kernel
  exact ⟨hoption 2 _ [] [255, 255, 241, 240] [7] (by decide) (by decide) (by decide) (by decide)
    (by decide) (by decide), hmessage _ _ _ hnew rfl⟩

end Klevret
