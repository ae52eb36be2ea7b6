import Klevret.Foundation.OnesComplement
import Klevret.Server.UdpSender

/-! # The checksum of the IP header

The words are summed in a `long`, and the carries are brought back twice. For
as many words as fit into 131070 bytes that is the ones-complement sum, so its
complement adds up with it to a word of ones.
-/

namespace Klevret

open Foundation

section Complement

variable {words : List ℕ}

theorem toNat_complement (n : ℕ) :
    (UInt16.ofInt (-Int.ofNat n - 1)).toNat = 2 ^ 16 - 1 - n % 2 ^ 16 := by
  rw [UInt16.ofInt, UInt16.toNat_ofNat']
  simp only [Int.ofNat_eq_natCast]
  omega

/-- Two folds are enough for `2 ^ 16 - 1` words. -/
theorem onesSum_eq_foldCarry (h : ∀ a ∈ words, a < 2 ^ 16)
    (hlength : words.length ≤ 2 ^ 16 - 1) :
    onesSum 16 words = foldCarry 16 (foldCarry 16 words.sum) ∧
      foldCarry 16 words.sum < 2 * 2 ^ 16 - 1 := by
  have hsum : words.sum ≤ words.length * (2 ^ 16 - 1) :=
    List.sum_le_card_nsmul words (2 ^ 16 - 1) fun a ha => Nat.le_pred_of_lt (h a ha)
  have hbound : foldCarry 16 words.sum < 2 * 2 ^ 16 - 1 := by
    rw [foldCarry]
    omega
  refine ⟨?_, hbound⟩
  apply eq_of_modEq (onesSum_lt h)
  · rw [foldCarry]
    omega
  · exact (onesSum_modEq 16 words).trans
      ((foldCarry_modEq 16 _).trans (foldCarry_modEq 16 _)).symm
  · rw [onesSum_eq_zero_iff, foldCarry_eq_zero_iff, foldCarry_eq_zero_iff]

end Complement

section Header

variable [Host] {bytes before behind : List UInt8}

theorem sumWords_eq (bytes : List UInt8) : sumWords bytes = (wordsOf Host.native bytes).sum := by
  induction bytes using sumWords.induct with
  | case1 => rfl
  | case2 b => rw [sumWords, wordsOf, List.sum_singleton]
  | case3 b b' bytes ih => rw [sumWords, wordsOf, List.sum_cons, ih]

theorem toNat_calculateChecksum (h : bytes.length ≤ 131070) :
    (calculateChecksum bytes).toNat = 2 ^ 16 - 1 - onesSum 16 (wordsOf Host.native bytes) := by
  have hlength : (wordsOf Host.native bytes).length ≤ 2 ^ 16 - 1 := by
    rw [length_wordsOf]
    omega
  obtain ⟨hfolds, hbound⟩ := onesSum_eq_foldCarry (wordsOf_lt Host.native bytes) hlength
  have hcut : (foldCarry 16 (sumWords bytes) + foldCarry 16 (sumWords bytes) / 2 ^ 16) % 2 ^ 16 =
      onesSum 16 (wordsOf Host.native bytes) := by
    rw [sumWords_eq, hfolds, foldCarry.eq_def 16 (foldCarry 16 _)]
    omega
  rw [← hcut]
  exact toNat_complement _

theorem wordsOf_storeUInt16 {n : ℕ} (h : n < 2 ^ 16) :
    wordsOf Host.native (storeUInt16 n) = [n] := by
  obtain ⟨b, b', hstore⟩ := List.length_eq_two.mp (length_storeUInt16 n)
  rw [hstore, wordsOf, wordsOf, ← hstore, storeUInt16, Endian.arrange_arrange, leValue_leBytes]
  exact congrArg (fun value => [value]) (Nat.mod_eq_of_lt h)

theorem onesAdd_calculateChecksum (h : bytes.length ≤ 131070) :
    onesAdd 16 (calculateChecksum bytes).toNat (onesSum 16 (wordsOf Host.native bytes)) =
      2 ^ 16 - 1 := by
  have hlt := onesSum_lt (wordsOf_lt Host.native bytes)
  have hle : onesSum 16 (wordsOf Host.native bytes) ≤ 2 ^ 16 - 1 := Nat.le_pred_of_lt hlt
  rw [onesAdd, toNat_calculateChecksum h, Nat.sub_add_cancel hle]
  exact foldCarry_of_lt (by decide)

/-- A checksum that is stored in a field of zeros makes the buffer verify, in either order of the
bytes. -/
theorem onesSum_stored (h : bytes.length ≤ 131070) (hbytes : bytes = before ++ ([0, 0] ++ behind))
    (heven : before.length % 2 = 0) (order : Endian) :
    onesSum 16 (wordsOf order
      (before ++ (storeUInt16 (calculateChecksum bytes).toNat ++ behind))) = 2 ^ 16 - 1 := by
  have hcheck := (calculateChecksum bytes).toNat_lt
  have hzero : leValue (Host.native.arrange [0, 0]) = 0 := leValue_pair_eq_zero_iff.mpr ⟨rfl, rfl⟩
  have hsum : (wordsOf Host.native bytes).sum =
      (wordsOf Host.native before).sum + (wordsOf Host.native behind).sum := by
    rw [hbytes, wordsOf_append heven, wordsOf_append rfl, List.sum_append, List.sum_append,
      wordsOf, wordsOf, hzero]
    simp
  have hstored : (wordsOf Host.native
      (before ++ (storeUInt16 (calculateChecksum bytes).toNat ++ behind))).sum =
      (calculateChecksum bytes).toNat + (wordsOf Host.native bytes).sum := by
    rw [hsum, wordsOf_append heven, wordsOf_append (by rw [length_storeUInt16]),
      wordsOf_storeUInt16 hcheck, List.sum_append, List.sum_append, List.sum_singleton]
    omega
  have hwords : ∀ a ∈ (calculateChecksum bytes).toNat :: wordsOf Host.native bytes, a < 2 ^ 16 :=
    List.forall_mem_cons.mpr ⟨hcheck, wordsOf_lt Host.native bytes⟩
  have hall : onesSum 16 ((calculateChecksum bytes).toNat :: wordsOf Host.native bytes) =
      2 ^ 16 - 1 := onesAdd_calculateChecksum h
  rw [onesSum_wordsOf_iff order Host.native, onesSum_eq_iff (by decide) (wordsOf_lt _ _), hstored,
    ← List.sum_cons]
  exact (onesSum_eq_iff (by decide) hwords).mp hall

/-- The IP header of every frame verifies. -/
theorem sendPacket_verifies (more : Bool) (fragmentOffset id : ℕ) (data : Bytes 1024)
    (iface : SendingInterface) (dstMac : MacAddress) (dstIp : IPv4Address) :
    ∃ frame, sendPacket more fragmentOffset id data iface dstMac dstIp = .ok frame ∧
      ∀ order, onesSum 16 (wordsOf order ((frame.drop 14).take 20)) = 2 ^ 16 - 1 := by
  obtain ⟨frame, saddr, daddr, hsend, hframe⟩ :=
    exists_frame more fragmentOffset id data iface dstMac dstIp
  refine ⟨frame, hsend, fun order => ?_⟩
  have hlength (check : List UInt8) (hcheck : check.length = 2) :
      (ipHeader more fragmentOffset id saddr daddr check).length = 20 := by
    simp [ipHeader, htons, length_storeUInt16, hcheck]
  rw [hframe, List.take_left' (hlength _ (length_storeUInt16 _))]
  have hsplit (check : List UInt8) : ipHeader more fragmentOffset id saddr daddr check =
      [0x45, 0] ++ htons (20 + 8 + 1024) ++ storeUInt16 id ++
        htons ((if more then IP_MF else 0) ||| fragmentOffset) ++ [64, IPPROTO_UDP] ++
        (check ++ (saddr.toList ++ daddr.toList)) := by
    rw [ipHeader]
    simp only [List.append_assoc]
  rw [hsplit (storeUInt16 _)]
  apply onesSum_stored _ (hsplit [0, 0])
  · simp [htons, length_storeUInt16]
  · rw [hlength [0, 0] rfl]
    decide

/-- Adding the checksum to the sum of the words gives a word of ones, and so does the sum of a
buffer whose zeroed field it is stored in. -/
theorem calculateChecksum_verifies (h : bytes.length ≤ 131070) :
    onesAdd 16 (calculateChecksum bytes).toNat (onesSum 16 (wordsOf Host.native bytes)) = 0xffff ∧
    ∀ before behind, bytes = before ++ ([0, 0] ++ behind) → before.length % 2 = 0 →
      ∀ order, onesSum 16 (wordsOf order
        (before ++ (storeUInt16 (calculateChecksum bytes).toNat ++ behind))) = 0xffff :=
  ⟨onesAdd_calculateChecksum h, fun _ _ => onesSum_stored h⟩

end Header

def zeroedHeader : List UInt8 :=
  [0x45, 0, 0, 0x73, 0, 0, 0x40, 0, 0x40, 0x11, 0, 0, 192, 168, 0, 1, 192, 168, 0, 199]

example : @storeUInt16 ⟨.little⟩ (@calculateChecksum ⟨.little⟩ zeroedHeader).toNat =
    [0xb8, 0x61] := by
  decide

theorem calculateChecksum_sample :
    letI : Host := ⟨.little⟩
    zeroedHeader.length ≤ 131070 ∧
      onesAdd 16 (calculateChecksum zeroedHeader).toNat
        (onesSum 16 (wordsOf Host.native zeroedHeader)) = 0xffff ∧
      ∀ before behind, zeroedHeader = before ++ ([0, 0] ++ behind) → before.length % 2 = 0 →
        ∀ order, onesSum 16 (wordsOf order (before ++
          (storeUInt16 (calculateChecksum zeroedHeader).toNat ++ behind))) = 0xffff :=
  let host : Host := ⟨.little⟩
  ⟨by decide, @calculateChecksum_verifies host _ (by decide)⟩

end Klevret
