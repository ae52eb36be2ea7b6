import Klevret.Foundation.Delimited
import Klevret.Network.AddressText
import Mathlib.Data.Nat.ModEq
import Mathlib.Data.Nat.Digits.Defs
import Mathlib.Tactic.Ring

/-! # Dotted quads

The texts that the constructor of `IPv4Address` takes for an address: runs of
digits with dots between them, where a run may be empty, the value of a run is
taken modulo `2 ^ 64`, and the character behind the last run is not looked at.
-/

namespace Klevret

open Foundation

/-- The number that the digits write. -/
def decimal (digits : List UInt8) : ℕ :=
  Nat.ofDigits 10 (digits.reverse.map fun ch => ch.toNat - 48)

theorem decimal_cons (ch : UInt8) (digits : List UInt8) :
    decimal (ch :: digits) = (ch.toNat - 48) * 10 ^ digits.length + decimal digits := by
  simp only [decimal, List.reverse_cons, List.map_append, Nat.ofDigits_append, List.length_map,
    List.length_reverse, List.map_singleton, Nat.ofDigits_singleton]
  rw [Nat.add_comm, Nat.mul_comm]

namespace WrapperForParsing

@[simp] theorem getNext_new (str : List UInt8) : (new str).getNext = new str.tail := by
  cases str <;> rfl

theorem ch_new (str : List UInt8) : (new str).ch = str.head?.getD EOT := by
  cases str <;> rfl

theorem ch_new_eq_iff {str : List UInt8} {c : UInt8} (hc : c ≠ EOT) :
    (new str).ch = c ↔ str.head? = some c := by
  rw [ch_new]
  cases str with
  | nil => simp [hc.symm]
  | cons ch str => simp

end WrapperForParsing

theorem parseDigits_new (octet : ℕ) (text : List UInt8) :
    parseDigits (octet % 2 ^ 64) (WrapperForParsing.new text).ch
      (WrapperForParsing.new text).rest =
      ((octet * 10 ^ (text.takeWhile isDigit).length + decimal (text.takeWhile isDigit)) % 2 ^ 64,
        .new (text.dropWhile isDigit)) := by
  induction text generalizing octet with
  | nil => simp [parseDigits, WrapperForParsing.new, WrapperForParsing.getNext, isDigit,
      WrapperForParsing.EOT, decimal]
  | cons ch text ih =>
    have hstep : parseDigits (octet % 2 ^ 64) ch text =
        if isDigit ch then
          parseDigits ((octet % 2 ^ 64 * 10 + (ch.toNat - 48)) % 2 ^ 64)
            (WrapperForParsing.new text).ch (WrapperForParsing.new text).rest
        else (octet % 2 ^ 64, .new (ch :: text)) := by
      cases text with
      | nil => simp [parseDigits, WrapperForParsing.new, WrapperForParsing.getNext, isDigit,
          WrapperForParsing.EOT]
      | cons c text => rfl
    apply hstep.trans
    cases hd : isDigit ch with
    | false => simp [hd, decimal]
    | true =>
      rw [if_pos rfl, ih, List.takeWhile_cons_of_pos hd, List.dropWhile_cons_of_pos hd,
        decimal_cons, List.length_cons, Prod.mk.injEq]
      have hmod := ((((Nat.mod_modEq octet (2 ^ 64)).mul_right 10).add_right
        (ch.toNat - 48)).mul_right (10 ^ (List.takeWhile isDigit text).length)).add_right
          (decimal (List.takeWhile isDigit text))
      refine ⟨hmod.trans (congrArg (· % 2 ^ 64) ?_), rfl⟩
      ring

/-- The octet that the parser makes of a run of digits: a `size_t` has counted them. -/
def octetOf (run : List UInt8) : UInt8 := UInt8.ofNat (decimal run % 2 ^ 64)

theorem parseOctet_new (text : List UInt8) :
    parseOctet (.new text) =
      if 255 < decimal (text.takeWhile isDigit) % 2 ^ 64 then
        throwRuntimeError "Ошибка парсинга IP-адреса, октет не может быть больше 255"
      else .ok (octetOf (text.takeWhile isDigit), .new (text.dropWhile isDigit)) := by
  have h := parseDigits_new 0 text
  rw [Nat.zero_mod, Nat.zero_mul, Nat.zero_add] at h
  rw [parseOctet, h]
  split_ifs with hle
  · exact if_pos hle
  · exact if_neg hle

/-- The text starts with a number of runs that the parser takes for octets. -/
structure ReadsOctets (n : ℕ) (text : List UInt8) (runs : List (List UInt8)) (rest : List UInt8) :
    Prop where
  delimited : Delimited isDigit 46 text runs rest
  length_eq : runs.length = n
  le : ∀ run ∈ runs, decimal run % 2 ^ 64 ≤ 255

section Runs

variable {n : ℕ} {text rest : List UInt8} {runs : List (List UInt8)}

theorem readsOctets_iff : ReadsOctets n text runs rest ↔
    Delimited isDigit 46 text runs rest ∧ runs.length = n ∧
      ∀ run ∈ runs, decimal run % 2 ^ 64 ≤ 255 :=
  ⟨fun h => ⟨h.delimited, h.length_eq, h.le⟩, fun ⟨hruns, hlength, hle⟩ => ⟨hruns, hlength, hle⟩⟩

theorem readsOctets_one : ReadsOctets 1 text runs rest ↔
    runs = [text.takeWhile isDigit] ∧ rest = text.dropWhile isDigit ∧
      decimal (text.takeWhile isDigit) % 2 ^ 64 ≤ 255 := by
  rw [readsOctets_iff]
  exact Delimited.one_iff

theorem readsOctets_succ : ReadsOctets (n + 2) text runs rest ↔
    decimal (text.takeWhile isDigit) % 2 ^ 64 ≤ 255 ∧
      ∃ tail runs', text.dropWhile isDigit = 46 :: tail ∧
        runs = text.takeWhile isDigit :: runs' ∧ ReadsOctets (n + 1) tail runs' rest := by
  simp only [readsOctets_iff]
  exact Delimited.succ_iff (by decide)

end Runs

namespace IPv4Address

variable {n : ℕ} {text rest : List UInt8} {runs : List (List UInt8)}

theorem parseOctets_new_succ (n : ℕ) (text : List UInt8) :
    parseOctets (.new text) (n + 1) =
      if 255 < decimal (text.takeWhile isDigit) % 2 ^ 64 then
        throwRuntimeError "Ошибка парсинга IP-адреса, октет не может быть больше 255"
      else if 0 < n ∧ (text.dropWhile isDigit).head? ≠ some 46 then
        throwRuntimeError "Ошибка парсинга IP-адреса, ожидалась точка"
      else do
        let (octets, wrap) ← parseOctets (.new (text.dropWhile isDigit).tail) n
        return (octetOf (text.takeWhile isDigit) ::ᵥ octets, wrap) := by
  have hdot : (WrapperForParsing.new (text.dropWhile isDigit)).ch ≠ 46 ↔
      (text.dropWhile isDigit).head? ≠ some 46 :=
    (WrapperForParsing.ch_new_eq_iff (by decide)).not
  rw [parseOctets, parseOctet_new]
  split_ifs with hle hn
  · rfl
  · simp [hn.1, hdot.mpr hn.2]
  · simp only [Exec.ok_bind, hdot, if_neg hn, WrapperForParsing.getNext_new]

theorem parseOctets_of_reads (h : ReadsOctets (n + 1) text runs rest) :
    ∃ octets : Bytes (n + 1), octets.toList = runs.map octetOf ∧
      parseOctets (.new text) (n + 1) = .ok (octets, .new rest.tail) := by
  induction n generalizing text runs with
  | zero =>
    obtain ⟨rfl, rfl, hle⟩ := readsOctets_one.mp h
    refine ⟨octetOf (text.takeWhile isDigit) ::ᵥ .nil, rfl, ?_⟩
    rw [parseOctets_new_succ, if_neg (Nat.not_lt.mpr hle), if_neg (by simp)]
    simp [parseOctets]
  | succ n ih =>
    obtain ⟨hle, tail, runs, htail, rfl, hruns⟩ := readsOctets_succ.mp h
    obtain ⟨octets, hoctets, hparse⟩ := ih hruns
    refine ⟨octetOf (text.takeWhile isDigit) ::ᵥ octets, by simp [hoctets], ?_⟩
    rw [parseOctets_new_succ, if_neg (Nat.not_lt.mpr hle), htail, if_neg (by simp),
      List.tail_cons, hparse]
    rfl

/-- What does not start with the octets is refused. -/
theorem exists_reads_or_throws (n : ℕ) (text : List UInt8) :
    (∃ runs rest, ReadsOctets (n + 1) text runs rest) ∨
      (parseOctets (.new text) (n + 1)).Throws := by
  induction n generalizing text with
  | zero =>
    rw [parseOctets_new_succ]
    split_ifs with hle hn
    · exact Or.inr (Exec.throws_throws _)
    · exact absurd hn.1 (Nat.lt_irrefl 0)
    · exact Or.inl ⟨_, _, readsOctets_one.mpr ⟨rfl, rfl, Nat.not_lt.mp hle⟩⟩
  | succ n ih =>
    rw [parseOctets_new_succ]
    split_ifs with hle hn
    · exact Or.inr (Exec.throws_throws _)
    · exact Or.inr (Exec.throws_throws _)
    · have hhead : (text.dropWhile isDigit).head? = some 46 := by
        by_contra hdot
        exact hn ⟨Nat.succ_pos n, hdot⟩
      obtain ⟨tail, htail⟩ := List.head?_eq_some_iff.mp hhead
      rw [htail, List.tail_cons]
      rcases ih tail with ⟨runs, rest, hruns⟩ | ⟨e, he⟩
      · have hreads := readsOctets_succ.mpr ⟨Nat.not_lt.mp hle, tail, runs, htail, rfl, hruns⟩
        exact Or.inl ⟨_, rest, hreads⟩
      · exact Or.inr ⟨e, by rw [he]; rfl⟩

end IPv4Address

theorem throws_throwLiteralPlusChar_iff {α : Type} {literal : String} {ch : UInt8} :
    (throwLiteralPlusChar literal ch : Exec α).Throws ↔
      ch < 128 ∧ ch.toNat ≤ literal.utf8ByteSize := by
  rw [throwLiteralPlusChar]
  split_ifs with h
  · exact iff_of_true (Exec.throws_throws _) h
  · exact iff_of_false (by simp [Exec.Throws]) h

theorem throwLiteralPlusChar_bind {α β : Type} (literal : String) (ch : UInt8) (f : α → Exec β) :
    throwLiteralPlusChar literal ch >>= f = throwLiteralPlusChar literal ch := by
  rw [throwLiteralPlusChar, throwLiteralPlusChar]
  split_ifs <;> rfl

theorem throwLiteralPlusChar_ne_ok {α : Type} {literal : String} {ch : UInt8} {a : α} :
    (throwLiteralPlusChar literal ch : Exec α) ≠ .ok a := by
  rw [throwLiteralPlusChar]
  split_ifs <;> simp

/-- Four non-empty runs of digits, of values up to 255, single dots between them, and nothing
else. -/
structure IsDottedQuad (text : List UInt8) (runs : List (List UInt8)) : Prop where
  delimited : Delimited isDigit 46 text runs []
  length_eq : runs.length = 4
  ne_nil : ∀ run ∈ runs, run ≠ []
  le : ∀ run ∈ runs, decimal run ≤ 255

/-- The constructor returns the address of a dotted quad, and throws on all other texts. -/
structure ParsesDottedQuad (text : List UInt8) : Prop where
  returns_iff : (∃ ip, IPv4Address.ofString text = .ok ip) ↔ ∃ runs, IsDottedQuad text runs
  value : ∀ ip runs, IPv4Address.ofString text = .ok ip → IsDottedQuad text runs →
    ip.toNetworkData = runs.map fun run => UInt8.ofNat (decimal run)
  throws : (¬ ∃ runs, IsDottedQuad text runs) → (IPv4Address.ofString text).Throws

/-- Where the text starts with four runs that the parser takes for octets, nothing follows, no run
is empty and none wraps around, or the second character behind them is one that the message of
the refusal can be built for. -/
def QuadOrRefused (text : List UInt8) : Prop :=
  ∀ runs rest, ReadsOctets 4 text runs rest →
    (rest = [] ∧ ∀ run ∈ runs, run ≠ [] ∧ decimal run < 2 ^ 64) ∨
      ∃ ch, rest.tail.head? = some ch ∧ ch ≠ WrapperForParsing.EOT ∧ ch.toNat ≤ 84

section

variable {text rest : List UInt8} {runs : List (List UInt8)}

theorem IsDottedQuad.reads (h : IsDottedQuad text runs) : ReadsOctets 4 text runs [] :=
  ⟨h.delimited, h.length_eq, fun run hrun => (Nat.mod_le _ _).trans (h.le run hrun)⟩

theorem ReadsOctets.isDottedQuad (h : ReadsOctets 4 text runs [])
    (hruns : ∀ run ∈ runs, run ≠ [] ∧ decimal run < 2 ^ 64) : IsDottedQuad text runs := by
  refine ⟨h.delimited, h.length_eq, fun run hrun => (hruns run hrun).1, fun run hrun => ?_⟩
  rw [← Nat.mod_eq_of_lt (hruns run hrun).2]
  exact h.le run hrun

/-- Behind the octets one character is skipped, and the next one has to be the end of the text. -/
theorem ReadsOctets.ofString (h : ReadsOctets 4 text runs rest) :
    ∃ ip : IPv4Address, ip.toNetworkData = runs.map octetOf ∧ IPv4Address.ofString text =
      if rest.tail.head?.getD WrapperForParsing.EOT = WrapperForParsing.EOT then .ok ip
      else throwLiteralPlusChar "Ошибка парсинга IP-адреса, неизвестный символ: "
        (rest.tail.head?.getD WrapperForParsing.EOT) := by
  obtain ⟨octets, hoctets, hparse⟩ := IPv4Address.parseOctets_of_reads h
  refine ⟨⟨octets⟩, hoctets, ?_⟩
  rw [IPv4Address.ofString, hparse, Exec.ok_bind, ← WrapperForParsing.ch_new]
  split_ifs with hch
  · simp [hch]
  · simp only [hch, ne_eq, not_false_eq_true, if_true]
    exact throwLiteralPlusChar_bind _ _ _

theorem exists_reads_or_throws_ofString (text : List UInt8) :
    (∃ runs rest, ReadsOctets 4 text runs rest) ∨ (IPv4Address.ofString text).Throws := by
  rcases IPv4Address.exists_reads_or_throws 3 text with h | ⟨e, he⟩
  · exact Or.inl h
  · exact Or.inr ⟨e, by rw [IPv4Address.ofString, he]; rfl⟩

theorem IsDottedQuad.ofString (h : IsDottedQuad text runs) :
    ∃ ip : IPv4Address, ip.toNetworkData = (runs.map fun run => UInt8.ofNat (decimal run)) ∧
      IPv4Address.ofString text = .ok ip := by
  obtain ⟨ip, hip, hparse⟩ := h.reads.ofString
  refine ⟨ip, hip.trans (List.map_congr_left fun run hrun => ?_), hparse⟩
  rw [octetOf, Nat.mod_eq_of_lt ((h.le run hrun).trans_lt (by decide))]

theorem ParsesDottedQuad.quadOrRefused (h : ParsesDottedQuad text) : QuadOrRefused text := by
  intro runs rest hreads
  obtain ⟨ip, -, hparse⟩ := hreads.ofString
  split_ifs at hparse with hch
  · obtain ⟨runs', hquad⟩ := h.returns_iff.mp ⟨ip, hparse⟩
    obtain ⟨rfl, rfl⟩ := hreads.delimited.unique (by decide) hquad.delimited
      (hreads.length_eq.trans hquad.length_eq.symm)
    exact Or.inl ⟨rfl, fun run hrun =>
      ⟨hquad.ne_nil run hrun, (hquad.le run hrun).trans_lt (by decide)⟩⟩
  · have hthrows : (IPv4Address.ofString text).Throws := by
      refine h.throws fun hquad => ?_
      obtain ⟨ip', hip'⟩ := h.returns_iff.mpr hquad
      exact throwLiteralPlusChar_ne_ok (hparse.symm.trans hip')
    rw [hparse, throws_throwLiteralPlusChar_iff] at hthrows
    cases hhead : rest.tail.head? with
    | none => exact absurd (by rw [hhead]; rfl) hch
    | some ch =>
      rw [hhead] at hch hthrows
      exact Or.inr ⟨ch, rfl, hch, hthrows.2⟩

/-- The constructor parses the dotted quads on exactly these texts. -/
theorem parsesDottedQuad_iff (text : List UInt8) : ParsesDottedQuad text ↔ QuadOrRefused text := by
  refine ⟨ParsesDottedQuad.quadOrRefused, fun h => ?_⟩
  have hquad : ∀ runs, IsDottedQuad text runs →
      ∃ ip : IPv4Address, ip.toNetworkData = (runs.map fun run => UInt8.ofNat (decimal run)) ∧
        IPv4Address.ofString text = .ok ip := fun runs hruns => hruns.ofString
  have hother : (∃ runs, IsDottedQuad text runs) ∨ (IPv4Address.ofString text).Throws := by
    rcases exists_reads_or_throws_ofString text with ⟨runs, rest, hreads⟩ | hthrows
    · rcases h runs rest hreads with ⟨rfl, hruns⟩ | ⟨ch, hhead, hch, hle⟩
      · exact Or.inl ⟨runs, hreads.isDottedQuad hruns⟩
      · obtain ⟨ip, -, hparse⟩ := hreads.ofString
        rw [hhead, Option.getD_some, if_neg hch] at hparse
        rw [hparse, throws_throwLiteralPlusChar_iff]
        exact Or.inr ⟨by rw [UInt8.lt_iff_toNat_lt]; exact hle.trans_lt (by decide), hle⟩
    · exact Or.inr hthrows
  refine ⟨⟨?_, ?_⟩, ?_, fun hn => hother.resolve_left hn⟩
  · rintro ⟨ip, hip⟩
    apply hother.resolve_right
    rw [hip]
    exact Exec.not_throws_ok ip
  · rintro ⟨runs, hruns⟩
    obtain ⟨ip, -, hip⟩ := hquad runs hruns
    exact ⟨ip, hip⟩
  · intro ip runs hip hruns
    obtain ⟨ip', hvalue, hip'⟩ := hquad runs hruns
    obtain rfl := Except.ok.inj (hip.symm.trans hip')
    exact hvalue

end

/-- The parser takes 10..0.1 for an address. -/
theorem not_parsesDottedQuad_empty : ¬ ∀ text, ParsesDottedQuad text := by
  intro h
  have hlast : Delimited isDigit 46 ([49] ++ []) [[49]] [] :=
    .last (by simp [isDigit]) (by simp)
  have hdelimited : Delimited isDigit 46 ([49, 48] ++ 46 :: ([] ++ 46 :: ([48] ++ 46 ::
      ([49] ++ [])))) [[49, 48], [], [48], [49]] [] :=
    .next (by simp [isDigit]) (.next (by simp) (.next (by simp [isDigit]) hlast))
  rcases (h _).quadOrRefused _ _ ⟨hdelimited, rfl, by decide⟩ with ⟨-, hruns⟩ | ⟨ch, hhead, -⟩
  · exact (hruns [] (by decide)).1 rfl
  · cases hhead

end Klevret
