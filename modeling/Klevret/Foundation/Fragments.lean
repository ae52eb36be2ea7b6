import Klevret.Foundation.ByteOrder

/-! # Fragments of IPv4 datagrams

Fragments as RFC 791 has them: the offset counts units of eight bytes, and all
fragments but the last announce more. They reassemble to a payload if each of
them holds its part of it and the parts leave no gap.
-/

namespace Foundation

/-- A fragment of the payload of a datagram. -/
structure Fragment (δ α : Type*) where
  datagram : δ
  offset : ℕ
  more : Bool
  payload : List α

namespace Fragment

variable {δ α : Type*}

def start (fragment : Fragment δ α) : ℕ := 8 * fragment.offset

def stop (fragment : Fragment δ α) : ℕ := fragment.start + fragment.payload.length

/-- The fragments are those of one datagram, and they make up its payload. -/
structure Reassemble (fragments : List (Fragment δ α)) (payload : List α) : Prop where
  one : ∀ f ∈ fragments, ∀ g ∈ fragments, f.datagram = g.datagram
  placed : ∀ f ∈ fragments, ∃ before behind, payload = before ++ (f.payload ++ behind) ∧
    before.length = f.start ∧ (f.more = true ↔ behind ≠ [])
  covered : ∀ i < payload.length, ∃ f ∈ fragments, f.start ≤ i ∧ i < f.stop

variable {fragment : Fragment δ α} {fragments : List (Fragment δ α)} {payload : List α}

theorem reassemble_single (hoffset : fragment.offset = 0) (hmore : fragment.more = false) :
    Reassemble [fragment] fragment.payload := by
  have hstart : fragment.start = 0 := by rw [start, hoffset, Nat.mul_zero]
  constructor
  · intro f hf g hg
    rw [List.mem_singleton.mp hf, List.mem_singleton.mp hg]
  · intro f hf
    rw [List.mem_singleton.mp hf]
    exact ⟨[], [], by simp, hstart.symm, by simp [hmore]⟩
  · intro i hi
    refine ⟨fragment, List.mem_singleton_self _, ?_, ?_⟩
    · omega
    · rw [stop]
      omega

theorem not_reassemble_of_gap {i : ℕ} (hi : i < payload.length)
    (hgap : ∀ f ∈ fragments, f.start ≤ i → f.stop ≤ i) : ¬ Reassemble fragments payload := by
  intro h
  obtain ⟨f, hf, hstart, hstop⟩ := h.covered i hi
  exact absurd (hgap f hf hstart) (Nat.not_le.mpr hstop)

/-- The fragment that an IPv4 packet holds. Datagrams are told apart by their identification,
protocol and addresses. -/
def ofPacket (packet : List UInt8) : Fragment (List UInt8) UInt8 where
  datagram := (packet.drop 4).take 2 ++ (packet.drop 9).take 1 ++ (packet.drop 12).take 8
  offset := beValue ((packet.drop 6).take 2) % 2 ^ 13
  more := (beValue ((packet.drop 6).take 2)).testBit 13
  payload := (packet.take (beValue ((packet.drop 2).take 2))).drop
    (4 * (beValue (packet.take 1) % 16))

end Fragment

end Foundation
