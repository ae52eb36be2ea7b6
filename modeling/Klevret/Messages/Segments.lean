import Klevret.Messages.HeaderRoundTrip
import Klevret.Options.Consumption

/-! # Well-formed packets

A packet is put together from a header, the magic cookie, segments and an
ending. If the constructor accepts the payload of every segment on its own, the
parser finds the options of the segments and the values of the header.
-/

namespace Klevret

open Foundation

namespace DhcpMessage

/-- A piece of the option area before its end. -/
inductive Segment where
  | pad
  | option (code length : UInt8) (payload : List UInt8) (length_eq : payload.length = length.toNat)

def Segment.bytes : Segment → List UInt8
  | pad => [0]
  | option code length payload _ => code :: length :: payload

/-- The area ends where the data ends, or at the end mark. -/
inductive Ending : List UInt8 → Prop
  | data : Ending []
  | mark (tail : List UInt8) : Ending (255 :: tail)

/-- The options that the constructor makes of the payloads of the segments, each on its own. -/
inductive Yields [Host] : List Segment → List DhcpOption → Prop
  | nil : Yields [] []
  | pad {segments : List Segment} {options : List DhcpOption} :
      Yields segments options → Yields (.pad :: segments) options
  | option {code length : UInt8} {payload : List UInt8}
      {length_eq : payload.length = length.toNat} {option : DhcpOption}
      {segments : List Segment} {options : List DhcpOption} :
      DhcpOption.new code.toNat length.toNat payload 0 payload.length = .ok option →
      Yields segments options →
      Yields (.option code length payload length_eq :: segments) (option :: options)

/-- The numbers of the message are the big-endian values of the bytes of the header. -/
structure HasFields [Host] (message : DhcpMessage) (header : List UInt8) : Prop where
  xid : message.xid.toNat = beValue ((header.drop 4).take 4)
  secs : message.secs.toNat = beValue ((header.drop 8).take 2)
  flags : message.flags.toNat = beValue ((header.drop 10).take 2)
  ciaddr : message.ciaddr.toUInt32.toNat = beValue ((header.drop 12).take 4)
  yiaddr : message.yiaddr.toUInt32.toNat = beValue ((header.drop 16).take 4)
  siaddr : message.siaddr.toUInt32.toNat = beValue ((header.drop 20).take 4)
  giaddr : message.giaddr.toUInt32.toNat = beValue ((header.drop 24).take 4)

variable {code length : UInt8} {payload data header ending : List UInt8}
  {segments : List Segment} {options : List DhcpOption}

theorem take_two_drop {i : ℕ} (h : i + 4 ≤ data.length) :
    (data.drop i).take 2 = [data.getD i 0, data.getD (i + 1) 0] := by
  have htake : (data.drop i).take 2 = ((data.drop i).take 4).take 2 := by
    rw [List.take_take]
    rfl
  rw [htake, take_four_drop h]
  rfl

theorem toNat_word16_eq (a b : UInt8) : (word16 a b).toNat = beValue [a, b] := by
  rw [toNat_word16]
  simp [beValue, leValue]
  ring

theorem toNat_word32_eq (a b c d : UInt8) : (word32 a b c d).toNat = beValue [a, b, c, d] := by
  rw [toNat_word32]
  simp [beValue, leValue]
  ring

theorem field_append {i n : ℕ} (rest : List UInt8) (h : i + n ≤ header.length) :
    ((header ++ rest).drop i).take n = (header.drop i).take n := by
  rw [List.drop_append_of_le_length (by omega),
    List.take_append_of_le_length (by rw [List.length_drop]; omega)]

section

variable [Host]

theorem fits_of_new {option : DhcpOption} (hlen : payload.length = length.toNat)
    (h : DhcpOption.new code.toNat length.toNat payload 0 payload.length = .ok option) :
    ∃ d, Fits code length d payload ∧ DhcpOption.payloadAllowed d payload = true ∧
      option = optionOf length d payload := by
  rw [← hlen] at h
  obtain ⟨d, hd, hw, ha, rfl⟩ := DhcpOption.new_eq_ok h
  exact ⟨d, ⟨hlen ▸ hd, hlen, hw⟩, ha, by rw [optionOf, hlen]⟩

/-- The segments and their ending make up an area that holds the options. -/
theorem Yields.lists (h : Yields segments options) (hend : Ending ending) :
    Lists (segments.flatMap Segment.bytes ++ ending) options := by
  induction h with
  | nil =>
    cases hend with
    | data => exact .nil
    | mark tail => exact .stop tail
  | pad _ ih => exact .pad ih
  | @option code length payload length_eq option segments options hnew _ ih =>
    obtain ⟨d, hf, ha, rfl⟩ := fits_of_new length_eq hnew
    have hlists := Lists.option hf ha ih
    rwa [List.flatMap_cons, Segment.bytes, List.append_assoc, List.cons_append, List.cons_append]

theorem hasFields_ofFields (hlen : 236 ≤ data.length) (options : List DhcpOption) :
    HasFields (ofFields data options) data := by
  have hip : ∀ i, i + 4 ≤ 236 →
      (IPv4Address.mk (.pad ((data.drop i).take 4))).toUInt32.toNat =
        beValue ((data.drop i).take 4) := by
    intro i hi
    apply IPv4Address.toNat_toUInt32_pad
    rw [List.length_take, List.length_drop]
    omega
  constructor
  · rw [take_four_drop (by omega)]
    exact toNat_word32_eq _ _ _ _
  · rw [take_two_drop (by omega)]
    exact toNat_word16_eq _ _
  · rw [take_two_drop (by omega)]
    exact toNat_word16_eq _ _
  · exact hip 12 (by decide)
  · exact hip 16 (by decide)
  · exact hip 20 (by decide)
  · exact hip 24 (by decide)

theorem HasFields.of_append {message : DhcpMessage} {rest : List UInt8} (hlen : 28 ≤ header.length)
    (h : HasFields message (header ++ rest)) : HasFields message header := by
  have hfield : ∀ i n, i + n ≤ 28 →
      ((header ++ rest).drop i).take n = (header.drop i).take n :=
    fun i n hi => field_append rest (hi.trans hlen)
  obtain ⟨hxid, hsecs, hflags, hciaddr, hyiaddr, hsiaddr, hgiaddr⟩ := h
  rw [hfield 4 4 (by decide)] at hxid
  rw [hfield 8 2 (by decide)] at hsecs
  rw [hfield 10 2 (by decide)] at hflags
  rw [hfield 12 4 (by decide)] at hciaddr
  rw [hfield 16 4 (by decide)] at hyiaddr
  rw [hfield 20 4 (by decide)] at hsiaddr
  rw [hfield 24 4 (by decide)] at hgiaddr
  exact ⟨hxid, hsecs, hflags, hciaddr, hyiaddr, hsiaddr, hgiaddr⟩

/-- The parser finds exactly the options of the segments, and the values of the header. -/
theorem new_segments (hlen : header.length = 236) (htype : header[1]? = some 1)
    (hy : Yields segments options) (hend : Ending ending) :
    ∃ message,
      new (header ++ [99, 130, 83, 99] ++ (segments.flatMap Segment.bytes ++ ending)) =
        .ok message ∧ message.options = options ∧ HasFields message header := by
  have hlists := hy.lists hend
  generalize segments.flatMap Segment.bytes ++ ending = area at hlists ⊢
  rw [List.append_assoc]
  have hsize : 240 ≤ (header ++ ([99, 130, 83, 99] ++ area)).length := by
    simp only [List.length_append, List.length_cons, List.length_nil]
    omega
  have hone : (header ++ ([99, 130, 83, 99] ++ area)).getD 1 0 = 1 := by
    rw [List.getD_eq_getElem?_getD, List.getElem?_append_left (by omega), htype]
    rfl
  have hcookie : ((header ++ ([99, 130, 83, 99] ++ area)).drop 236).take 4 = [99, 130, 83, 99] := by
    rw [← hlen, List.drop_left]
    rfl
  have harea : (header ++ ([99, 130, 83, 99] ++ area)).drop 240 = area := by
    rw [← List.append_assoc]
    exact List.drop_left' (by simp [hlen])
  have hrefusal : fieldsRefusal (header ++ ([99, 130, 83, 99] ++ area)) = none := by
    rw [fieldsRefusal, if_neg (by omega), if_neg (by rw [hone]; decide), if_neg (by omega),
      if_neg (by rw [hcookie]; decide)]
  refine ⟨_, new_eq_ok.mpr ⟨hrefusal, options, rfl, Or.inr ⟨hsize, ?_⟩⟩, rfl, ?_⟩
  · rw [harea]
    exact hlists
  · exact (hasFields_ofFields (by omega) options).of_append (by omega)

end

def sampleHeader : List UInt8 := [1, 1, 6, 0, 0, 0, 0, 1] ++ List.replicate 228 0

theorem length_sampleHeader : sampleHeader.length = 236 := by
  simp only [sampleHeader, List.length_append, List.length_cons, List.length_nil,
    List.length_replicate]

/-- A client identifier whose bytes look like a pad and an end mark, between pads. -/
theorem new_segments_sample :
    letI : Host := ⟨.little⟩
    ∃ message,
      new (sampleHeader ++ [99, 130, 83, 99] ++
        ([.pad, .option 61 3 [0, 255, 7] rfl, .pad].flatMap Segment.bytes ++ [255, 9])) =
        .ok message ∧
      message.options = [⟨3, ⟨61, VARIABLE_DHCP_OPTION_LENGTH, ⟨.byteArray, false, 2,
        .noConstraint⟩⟩, [.byteVector [0, 255, 7]]⟩] ∧
      HasFields message sampleHeader := by
  let host : Host := ⟨.little⟩
  exact new_segments length_sampleHeader rfl (.pad (.option (by decide) (.pad .nil))) (.mark [9])

end DhcpMessage

end Klevret
