import Klevret.Foundation.Fragments
import Klevret.Network.DottedText
import Klevret.Server.DhcpServer

/-! # Sending a datagram in packets

The sender divides the data into chunks of 1024 bytes and builds a whole frame
for each, with its own UDP header. The offset of a chunk goes into the field of
the IP header as a number of bytes, next to the bit for more fragments.
-/

namespace Klevret

open Foundation

section Text

def hexDigit (digit : ℕ) : UInt8 := UInt8.ofNat (if digit < 10 then 48 + digit else 87 + digit)

def MacAddress.toString (mac : MacAddress) : List UInt8 :=
  [58].intercalate (mac.data.toList.map fun octet =>
    [hexDigit (octet.toNat / 16), hexDigit (octet.toNat % 16)])

def hexDigitValue (ch : UInt8) : ℕ := if isDigit ch then ch.toNat - 48 else ch.toNat - 87

/-- `sscanf` with six conversions `%hhx` and colons between them -/
def sscanfMac (str : List UInt8) : Bytes 6 :=
  .pad ((str.splitOn 58).map fun run =>
    UInt8.ofNat (run.foldl (fun value ch => value * 16 + hexDigitValue ch) 0))

/-- `inet_addr` of four decimal numbers, as bytes in memory -/
def inetAddr (cp : List UInt8) : Bytes 4 :=
  .pad ((cp.splitOn 46).map fun run => UInt8.ofNat (decimal run))

end Text

abbrev ETH_P_IP : ℕ := 0x0800

abbrev IPPROTO_UDP : UInt8 := 17

abbrev IP_MF : ℕ := 0x2000

structure SendingInterface extends NetworkInterface where
  networkAddress : L3Address
  macAddress : MacAddress

/-- What memory holds of `htons(n)` -/
def htons (n : ℕ) : List UInt8 := [UInt8.ofNat (n / 256), UInt8.ofNat n]

def udpHeader : List UInt8 := htons 67 ++ htons 68 ++ htons (8 + 1024) ++ [0, 0]

section Packet

variable [Host]

def storeUInt16 (n : ℕ) : List UInt8 := Host.native.arrange (leBytes 2 n)

/-- The sum of the words of two bytes in memory; an odd last byte is followed by a zero byte. -/
def sumWords : List UInt8 → ℕ
  | [] => 0
  | [oddbyte] => leValue (Host.native.arrange [oddbyte, 0])
  | b :: b' :: bytes => leValue (Host.native.arrange [b, b']) + sumWords bytes

/-- The complement is taken in a `long` and cut to 16 bits. -/
def calculateChecksum (bytes : List UInt8) : UInt16 :=
  let sum : ℕ := sumWords bytes
  let sum : ℕ := sum / 2 ^ 16 + sum % 2 ^ 16
  let sum : ℕ := sum + sum / 2 ^ 16
  UInt16.ofInt (-Int.ofNat sum - 1)

def ipHeader (moreFragments : Bool) (fragmentOffset id : ℕ) (saddr daddr : Bytes 4)
    (check : List UInt8) : List UInt8 :=
  [0x45, 0] ++ htons (20 + 8 + 1024) ++ storeUInt16 id ++
    htons ((if moreFragments then IP_MF else 0) ||| fragmentOffset) ++ [64, IPPROTO_UDP] ++
    check ++ saddr.toList ++ daddr.toList

/-- The frame that `sendto` is given. -/
def sendPacket (moreFragments : Bool) (fragmentOffset id : ℕ) (data : Bytes 1024)
    (iface : SendingInterface) (dstMac : MacAddress) (dstIp : IPv4Address) :
    Exec (List UInt8) := do
  let networkAddress ← iface.networkAddress.getIPv4Address
  let header := ipHeader moreFragments fragmentOffset id (inetAddr networkAddress.toString)
    (inetAddr dstIp.toString)
  let check := calculateChecksum (header [0, 0])
  return (sscanfMac dstMac.toString).toList ++ (sscanfMac iface.macAddress.toString).toList ++
    htons ETH_P_IP ++ (header (storeUInt16 check.toNat) ++ (udpHeader ++ data.toList))

end Packet

def packetsCount (data : List UInt8) : ℕ :=
  data.length / 1024 + if data.length % 1024 ≠ 0 then 1 else 0

/-- The chunk that packet `i` carries. -/
def currentData (data : List UInt8) (i : ℕ) : Bytes 1024 :=
  .pad <| if i ≠ packetsCount data - 1 then (data.drop (i * 1024)).take 1024
    else data.drop (i * 1024)

/-- The frames that are sent if `sendto` does not fail. No `int` overflows as long as the data
is shorter than `2 ^ 31`. -/
def divideAndSend [Host] (packetId : ℕ) (data : List UInt8) (iface : SendingInterface)
    (dstMac : MacAddress) (dstIp : IPv4Address) : Exec (List (List UInt8)) :=
  (List.range (packetsCount data)).mapM fun i =>
    sendPacket (decide (i ≠ packetsCount data - 1)) (i * 1024) packetId (currentData data i) iface
      dstMac dstIp

/-- A UDP header of this server, for so many bytes behind it. -/
structure IsUdpHeader (header : List UInt8) (length : ℕ) : Prop where
  length_eq : header.length = 8
  source : beValue (header.take 2) = 67
  dest : beValue ((header.drop 2).take 2) = 68
  len : beValue ((header.drop 4).take 2) = 8 + length

/-- The packets in the frames reassemble to a UDP header and the data, with zeros behind it. -/
def SendsDatagram (frames : List (List UInt8)) (data : List UInt8) : Prop :=
  ∃ header zeros, IsUdpHeader header (data.length + zeros) ∧
    Fragment.Reassemble (frames.map fun frame => .ofPacket (frame.drop 14))
      (header ++ (data ++ List.replicate zeros 0))

section Frames

theorem beValue_htons (n : ℕ) : beValue (htons n) = n % 2 ^ 16 := by
  have hvalue : beValue (htons n) = (UInt8.ofNat n).toNat + 256 * (UInt8.ofNat (n / 256)).toNat :=
    rfl
  rw [hvalue, UInt8.toNat_ofNat', UInt8.toNat_ofNat']
  omega

theorem isUdpHeader_udpHeader {length : ℕ} (h : length = 1024) : IsUdpHeader udpHeader length := by
  subst h
  exact ⟨rfl, by decide, by decide, by decide⟩

/-- The field of the flags and the offset. -/
def fragOff (moreFragments : Bool) (fragmentOffset : ℕ) : ℕ :=
  ((if moreFragments then IP_MF else 0) ||| fragmentOffset) % 2 ^ 16

theorem ofPacket_header (a b c d : UInt8) (flags : ℕ) (rest : List UInt8) :
    Fragment.ofPacket ([0x45, 0] ++ (htons (20 + 8 + 1024) ++ ([a, b] ++ (htons flags ++
        ([64, IPPROTO_UDP, c, d] ++ rest))))) =
      ⟨[a, b] ++ [IPPROTO_UDP] ++ rest.take 8, beValue (htons flags) % 2 ^ 13,
        (beValue (htons flags)).testBit 13, (rest.take 1040).drop 8⟩ := by
  have hihl : 4 * (beValue [0x45] % 16) = 12 + 8 := by decide
  have htotLen : beValue (htons (20 + 8 + 1024)) = 1040 + 12 := by decide
  have hparts : Fragment.ofPacket ([0x45, 0] ++ (htons (20 + 8 + 1024) ++ ([a, b] ++ (htons flags ++
        ([64, IPPROTO_UDP, c, d] ++ rest))))) =
      ⟨[a, b] ++ [IPPROTO_UDP] ++ rest.take 8, beValue (htons flags) % 2 ^ 13,
        (beValue (htons flags)).testBit 13,
        (([0x45, 0] ++ (htons (20 + 8 + 1024) ++ ([a, b] ++ (htons flags ++
          ([64, IPPROTO_UDP, c, d] ++ rest))))).take (beValue (htons (20 + 8 + 1024)))).drop
            (4 * (beValue [0x45] % 16))⟩ := rfl
  rw [hparts, hihl, htotLen]
  rfl

variable [Host] {moreFragments : Bool} {fragmentOffset id packetId : ℕ} {saddr daddr : Bytes 4}
  {check body data : List UInt8} {iface : SendingInterface} {dstMac : MacAddress}
  {dstIp : IPv4Address}

theorem length_storeUInt16 (n : ℕ) : (storeUInt16 n).length = 2 := by
  rw [storeUInt16, Endian.length_arrange, length_leBytes]

/-- What tells the datagrams of the sender apart. -/
def datagramKey (id : ℕ) (saddr daddr : Bytes 4) : List UInt8 :=
  storeUInt16 id ++ [IPPROTO_UDP] ++ (saddr.toList ++ daddr.toList)

theorem ofPacket_ipHeader (hcheck : check.length = 2) (hbody : body.length = 8 + 1024) :
    Fragment.ofPacket
      (ipHeader moreFragments fragmentOffset id saddr daddr check ++ body) =
      ⟨datagramKey id saddr daddr, fragOff moreFragments fragmentOffset % 2 ^ 13,
        (fragOff moreFragments fragmentOffset).testBit 13, body⟩ := by
  obtain ⟨a, b, hid⟩ := List.length_eq_two.mp (length_storeUInt16 id)
  obtain ⟨c, d, rfl⟩ := List.length_eq_two.mp hcheck
  have haddresses : (saddr.toList ++ daddr.toList).length = 8 := by
    rw [List.length_append, List.Vector.toList_length, List.Vector.toList_length]
  have hpacket : ipHeader moreFragments fragmentOffset id saddr daddr [c, d] ++ body =
      [0x45, 0] ++ (htons (20 + 8 + 1024) ++ ([a, b] ++ (htons
        ((if moreFragments then IP_MF else 0) ||| fragmentOffset) ++ ([64, IPPROTO_UDP, c, d] ++
          (saddr.toList ++ daddr.toList ++ body))))) := by
    rw [ipHeader, hid]
    rfl
  have hkey : (saddr.toList ++ daddr.toList ++ body).take 8 = saddr.toList ++ daddr.toList :=
    List.take_left' haddresses
  have hpayload : ((saddr.toList ++ daddr.toList ++ body).take 1040).drop 8 = body := by
    rw [List.take_of_length_le (by rw [List.length_append, haddresses, hbody])]
    exact List.drop_left' haddresses
  rw [hpacket, ofPacket_header, hkey, hpayload, beValue_htons, ← hid]
  rfl

omit [Host] in
theorem fragOff_mod (more : Bool) (fragmentOffset : ℕ) :
    fragOff more fragmentOffset % 2 ^ 13 = fragmentOffset % 2 ^ 13 := by
  have hflag : (if more then IP_MF else 0) % 2 ^ 13 = 0 := by cases more <;> rfl
  rw [fragOff, Nat.mod_mod_of_dvd _ (by decide), Nat.or_mod_two_pow, hflag, Nat.zero_or]

theorem exists_frame (more : Bool) (fragmentOffset id : ℕ) (data : Bytes 1024)
    (iface : SendingInterface) (dstMac : MacAddress) (dstIp : IPv4Address) :
    ∃ (frame : List UInt8) (saddr daddr : Bytes 4),
      sendPacket more fragmentOffset id data iface dstMac dstIp = .ok frame ∧
      frame.drop 14 = ipHeader more fragmentOffset id saddr daddr
        (storeUInt16 (calculateChecksum
          (ipHeader more fragmentOffset id saddr daddr [0, 0])).toNat) ++
        (udpHeader ++ data.toList) := by
  obtain ⟨networkAddress, haddress⟩ :
      ∃ networkAddress, iface.networkAddress.getIPv4Address = .ok networkAddress := by
    cases iface.networkAddress with
    | inl ip => exact ⟨ip, rfl⟩
    | inr ip => exact nomatch ip
  have hethernet (dst src : Bytes 6) (packet : List UInt8) :
      (dst.toList ++ src.toList ++ htons ETH_P_IP ++ packet).drop 14 = packet := by
    apply List.drop_left'
    simp [htons]
  rw [sendPacket, haddress]
  exact ⟨_, inetAddr networkAddress.toString, inetAddr dstIp.toString, rfl, hethernet _ _ _⟩

theorem exists_sendPacket (more : Bool) (fragmentOffset id : ℕ) (data : Bytes 1024)
    (iface : SendingInterface) (dstMac : MacAddress) (dstIp : IPv4Address) :
    ∃ frame, sendPacket more fragmentOffset id data iface dstMac dstIp = .ok frame ∧
      ∃ key, Fragment.ofPacket (frame.drop 14) = ⟨key, fragmentOffset % 2 ^ 13,
        (fragOff more fragmentOffset).testBit 13, udpHeader ++ data.toList⟩ := by
  obtain ⟨frame, saddr, daddr, hsend, hframe⟩ :=
    exists_frame more fragmentOffset id data iface dstMac dstIp
  have hbody : (udpHeader ++ data.toList).length = 8 + 1024 := by
    rw [List.length_append, List.Vector.toList_length]
    rfl
  refine ⟨frame, hsend, datagramKey id saddr daddr, ?_⟩
  rw [hframe, ofPacket_ipHeader (length_storeUInt16 _) hbody, fragOff_mod]

/-- Every frame holds a UDP header and a chunk, and is placed by the bytes before the chunk. -/
theorem exists_divideAndSend (packetId : ℕ) (data : List UInt8) (iface : SendingInterface)
    (dstMac : MacAddress) (dstIp : IPv4Address) :
    ∃ frame : ℕ → List UInt8, divideAndSend packetId data iface dstMac dstIp =
        .ok ((List.range (packetsCount data)).map frame) ∧
      ∀ i, ∃ key, Fragment.ofPacket ((frame i).drop 14) = ⟨key, i * 1024 % 2 ^ 13,
        (fragOff (decide (i ≠ packetsCount data - 1)) (i * 1024)).testBit 13,
        udpHeader ++ (currentData data i).toList⟩ := by
  choose frame hframe hfragment using fun i =>
    exists_sendPacket (decide (i ≠ packetsCount data - 1)) (i * 1024) packetId (currentData data i)
      iface dstMac dstIp
  refine ⟨frame, ?_, hfragment⟩
  rw [divideAndSend, funext hframe]
  exact List.mapM_pure

/-- One packet is a datagram of its own. -/
theorem exists_divideAndSend_of_le (packetId : ℕ) (iface : SendingInterface) (dstMac : MacAddress)
    (dstIp : IPv4Address) (hne : data ≠ []) (hle : data.length ≤ 1024) :
    ∃ frames, divideAndSend packetId data iface dstMac dstIp = .ok frames ∧
      SendsDatagram frames data := by
  obtain ⟨frame, hframes, hfragment⟩ := exists_divideAndSend packetId data iface dstMac dstIp
  have hpos : 0 < data.length := List.length_pos_iff.mpr hne
  have hcount : packetsCount data = 1 := by
    rw [packetsCount]
    split <;> omega
  have hdata : (currentData data 0).toList = data ++ List.replicate (1024 - data.length) 0 := by
    rw [currentData, hcount, if_neg (not_not_intro rfl)]
    exact Bytes.toList_pad_of_le hle
  obtain ⟨key, hfirst⟩ := hfragment 0
  rw [hcount, hdata] at hfirst
  have hpayload : (Fragment.ofPacket ((frame 0).drop 14)).payload =
      udpHeader ++ (data ++ List.replicate (1024 - data.length) 0) := by rw [hfirst]
  refine ⟨_, hframes, udpHeader, 1024 - data.length, isUdpHeader_udpHeader (by omega), ?_⟩
  rw [hcount, ← hpayload]
  change Fragment.Reassemble [Fragment.ofPacket ((frame 0).drop 14)] _
  apply Fragment.reassemble_single
  · rw [hfirst]
    rfl
  · rw [hfirst]
    rfl

/-- No fragment holds the byte behind the first chunk. -/
theorem exists_divideAndSend_of_lt (packetId : ℕ) (iface : SendingInterface) (dstMac : MacAddress)
    (dstIp : IPv4Address) (hlt : 1024 < data.length) :
    ∃ frames, divideAndSend packetId data iface dstMac dstIp = .ok frames ∧
      ¬ SendsDatagram frames data := by
  obtain ⟨frame, hframes, hfragment⟩ := exists_divideAndSend packetId data iface dstMac dstIp
  refine ⟨_, hframes, ?_⟩
  rintro ⟨header, zeros, hheader, hreassemble⟩
  apply Fragment.not_reassemble_of_gap (i := 8 + 1024) _ _ hreassemble
  · rw [List.length_append, hheader.length_eq, List.length_append]
    omega
  · intro f hf hstart
    obtain ⟨packet, hpacket, rfl⟩ := List.mem_map.mp hf
    obtain ⟨i, -, rfl⟩ := List.mem_map.mp hpacket
    obtain ⟨key, hi⟩ := hfragment i
    have hlength : (udpHeader ++ (currentData data i).toList).length = 8 + 1024 := by
      rw [List.length_append, List.Vector.toList_length]
      rfl
    have hoffset : (Fragment.ofPacket ((frame i).drop 14)).start = 8 * (i * 1024 % 2 ^ 13) := by
      rw [hi, Fragment.start]
    have hstop : (Fragment.ofPacket ((frame i).drop 14)).stop =
        (Fragment.ofPacket ((frame i).drop 14)).start + (8 + 1024) := by
      rw [Fragment.stop, hi, hlength]
    -- the next start that does not wrap to 0 is 8 * 1024
    change (Fragment.ofPacket ((frame i).drop 14)).start ≤ _ at hstart
    change (Fragment.ofPacket ((frame i).drop 14)).stop ≤ _
    omega

/-- The packets of a datagram reassemble exactly if there is one. -/
theorem divideAndSend_reassembles_iff (packetId : ℕ) (data : List UInt8) (iface : SendingInterface)
    (dstMac : MacAddress) (dstIp : IPv4Address) (hne : data ≠ []) :
    ∃ frames, divideAndSend packetId data iface dstMac dstIp = .ok frames ∧
      (SendsDatagram frames data ↔ data.length ≤ 1024) := by
  rcases Nat.lt_or_ge 1024 data.length with hlt | hle
  · obtain ⟨frames, hframes, hgap⟩ := exists_divideAndSend_of_lt packetId iface dstMac dstIp hlt
    exact ⟨frames, hframes, iff_of_false hgap (Nat.not_le.mpr hlt)⟩
  · obtain ⟨frames, hframes, hsends⟩ :=
      exists_divideAndSend_of_le packetId iface dstMac dstIp hne hle
    exact ⟨frames, hframes, iff_of_true hsends hle⟩

def sampleData : List UInt8 := (List.range 300).map UInt8.ofNat

omit [Host] in
theorem divideAndSend_reassembles_sample :
    letI : Host := ⟨.little⟩
    sampleData ≠ [] ∧ ∃ frames,
      divideAndSend 1000 sampleData ⟨⟨2, .inl ⟨.pad [10, 0, 0, 255]⟩⟩,
        .inl ⟨.pad [10, 0, 0, 1]⟩, ⟨.pad [2, 0, 0, 0, 0, 1]⟩⟩ ⟨.pad [2, 0, 0, 0, 0, 2]⟩
        ⟨.pad [10, 0, 0, 2]⟩ = .ok frames ∧
      SendsDatagram frames sampleData := by
  let host : Host := ⟨.little⟩
  have hlength : sampleData.length = 300 := by rw [sampleData, List.length_map, List.length_range]
  have hne : sampleData ≠ [] := by
    rw [← List.length_pos_iff, hlength]
    decide
  obtain ⟨frames, hframes, hsends⟩ := divideAndSend_reassembles_iff 1000 sampleData _ _ _ hne
  exact ⟨hne, frames, hframes, hsends.mpr (by rw [hlength]; decide)⟩

omit [Host] in
/-- The second fragment is placed at byte 8192 of the payload, not at byte 1032. -/
theorem not_divideAndSend_reassembles_sample :
    letI : Host := ⟨.little⟩
    ∃ frames,
      divideAndSend 1000 (List.replicate 1025 7) ⟨⟨2, .inl ⟨.pad [10, 0, 0, 255]⟩⟩,
        .inl ⟨.pad [10, 0, 0, 1]⟩, ⟨.pad [2, 0, 0, 0, 0, 1]⟩⟩ ⟨.pad [2, 0, 0, 0, 0, 2]⟩
        ⟨.pad [10, 0, 0, 2]⟩ = .ok frames ∧
      ¬ SendsDatagram frames (List.replicate 1025 7) :=
  let host : Host := ⟨.little⟩
  @exists_divideAndSend_of_lt host _ _ _ _ _ (by rw [List.length_replicate]; decide)

end Frames

end Klevret
