import Mathlib.Data.List.DropRight
import Mathlib.Tactic.Common

/-! # A stream of packets that is read in chunks

A reader accepts or rejects each chunk of a stream. When it rejects every part
of a packet and every packet that something follows, then the chunks it accepts
before the first it rejects are the first packets: nothing is made up, and
nothing is missing exactly when the stream was cut between its packets. A reader
that trims a chunk first sees the same as long as a packet starts and ends with
something that is not trimmed.
-/

namespace Foundation

variable {α : Type*} {accepts : List α → Bool} {chunks packets : List (List α)}

/-- Of what starts where a packet starts, only the packet itself is accepted. -/
def Framed (accepts : List α → Bool) : List (List α) → Prop
  | [] => True
  | packet :: packets =>
    (accepts packet ∧ ∀ part, part <+: packet → accepts part → part = packet) ∧
      (∀ rest, rest <+: packets.flatten → accepts (packet ++ rest) → rest = []) ∧
        Framed accepts packets

theorem eq_nil_of_flatten_eq_nil (hchunks : ∀ chunk ∈ chunks, chunk ≠ [])
    (h : chunks.flatten = []) : chunks = [] := by
  cases chunks with
  | nil => rfl
  | cons chunk chunks =>
    exact absurd (List.append_eq_nil_iff.mp h).1 (hchunks chunk List.mem_cons_self)

namespace Framed

/-- An accepted chunk at the start of the stream is the first packet. -/
theorem head_eq {chunk packet : List α} (h : Framed accepts (packet :: packets))
    (hflat : (chunk :: chunks).flatten = (packet :: packets).flatten) (hc : accepts chunk) :
    chunk = packet := by
  obtain ⟨⟨-, hpart⟩, hrest, -⟩ := h
  rcases List.append_eq_append_iff.mp hflat with ⟨rest, hp, -⟩ | ⟨rest, rfl, hf⟩
  · exact hpart chunk ⟨rest, hp.symm⟩ hc
  · have hnil : rest = [] := hrest rest ⟨chunks.flatten, hf.symm⟩ hc
    rw [hnil, List.append_nil]

theorem takeWhile_isPrefix (h : Framed accepts packets) (hchunks : ∀ chunk ∈ chunks, chunk ≠ [])
    (hflat : chunks.flatten = packets.flatten) : chunks.takeWhile accepts <+: packets := by
  induction packets generalizing chunks with
  | nil =>
    obtain rfl := eq_nil_of_flatten_eq_nil hchunks hflat
    exact List.prefix_rfl
  | cons packet packets ih =>
    cases chunks with
    | nil => exact List.nil_prefix
    | cons chunk chunks =>
      by_cases hc : accepts chunk
      · obtain rfl := h.head_eq hflat hc
        rw [List.takeWhile_cons_of_pos hc, List.prefix_cons_inj]
        exact ih h.2.2 (fun c hm => hchunks c (List.mem_cons_of_mem _ hm))
          (List.append_cancel_left hflat)
      · rw [List.takeWhile_cons_of_neg hc]
        exact List.nil_prefix

theorem takeWhile_packets (h : Framed accepts packets) : packets.takeWhile accepts = packets := by
  induction packets with
  | nil => rfl
  | cons packet packets ih => rw [List.takeWhile_cons_of_pos h.1.1, ih h.2.2]

/-- All packets are accepted exactly when each is a chunk of its own. -/
theorem length_takeWhile_iff (h : Framed accepts packets)
    (hchunks : ∀ chunk ∈ chunks, chunk ≠ []) (hflat : chunks.flatten = packets.flatten) :
    (chunks.takeWhile accepts).length = packets.length ↔ chunks = packets := by
  constructor
  · intro hlen
    have htake : chunks.takeWhile accepts = packets :=
      (h.takeWhile_isPrefix hchunks hflat).eq_of_length hlen
    have hsplit : packets ++ chunks.dropWhile accepts = chunks := by
      rw [← htake, List.takeWhile_append_dropWhile]
    have hdrop : chunks.dropWhile accepts = [] := by
      refine eq_nil_of_flatten_eq_nil
        (fun c hm => hchunks c ((List.dropWhile_suffix _).subset hm)) ?_
      rw [← hsplit, List.flatten_append] at hflat
      exact List.append_cancel_left (hflat.trans (List.append_nil _).symm)
    rw [← hsplit, hdrop, List.append_nil]
  · rintro rfl
    rw [h.takeWhile_packets]

end Framed

section Trim

variable {p : α → Bool} {l rest : List α}

/-- Remove the elements of a kind at both ends. -/
def trimWith (p : α → Bool) (l : List α) : List α := (l.rdropWhile p).dropWhile p

theorem head_trimWith {a : α} (h : (trimWith p l).head? = some a) : p a = false := by
  have hhead := List.head?_dropWhile_not p (l.rdropWhile p)
  rw [show (l.rdropWhile p).dropWhile p = trimWith p l from rfl, h] at hhead
  simpa using hhead

theorem dropWhile_of_head (h : ∀ a ∈ l.head?, p a = false) : l.dropWhile p = l := by
  cases l with
  | nil => rfl
  | cons a l => exact List.dropWhile_cons_of_neg (by simpa using h a)

theorem trimWith_of_head (h : ∀ a ∈ l.head?, p a = false) : trimWith p l = l.rdropWhile p := by
  refine dropWhile_of_head fun a ha => h a ?_
  obtain ⟨t, ht⟩ := List.rdropWhile_prefix p l
  rw [← ht, List.head?_append, ha]
  rfl

theorem rdropWhile_trimWith : (trimWith p l).rdropWhile p = trimWith p l := by
  rw [List.rdropWhile_eq_self_iff]
  intro hne
  have hl : l.rdropWhile p ≠ [] := fun hl => hne (by simp [trimWith, hl])
  have hlast : (trimWith p l).getLast hne = (l.rdropWhile p).getLast hl :=
    (List.dropWhile_suffix p).getLast hne
  rw [hlast]
  exact List.rdropWhile_last_not p l hl

theorem trimWith_trimWith : trimWith p (trimWith p l) = trimWith p l := by
  rw [trimWith_of_head fun a ha => head_trimWith ha, rdropWhile_trimWith]

theorem rdropWhile_append (h : ¬ rest.all p) :
    (l ++ rest).rdropWhile p = l ++ rest.rdropWhile p := by
  have hne : (rest.reverse.dropWhile p).isEmpty = false := by
    rw [List.isEmpty_eq_false_iff, ne_eq, List.dropWhile_eq_nil_iff]
    simpa using h
  simp [List.rdropWhile, List.dropWhile_append, hne]

theorem not_all_rdropWhile (h : ¬ rest.all p) : ¬ (rest.rdropWhile p).all p := by
  have hne : rest.rdropWhile p ≠ [] := by
    rw [ne_eq, List.rdropWhile_eq_nil_iff]
    simpa using h
  intro hall
  exact List.rdropWhile_last_not p rest hne
    (List.all_eq_true.mp hall _ (List.getLast_mem hne))

end Trim

end Foundation
