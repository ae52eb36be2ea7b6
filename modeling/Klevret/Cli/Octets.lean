import Klevret.Cli.Numbers

/-! # Octets from the command line to the server

The recogniser and the constructor of the command line compute the same octets,
and the server reads them from what is printed. All three loops compute the
value of a run of digits as long as it fits into an `int`.
-/

namespace Klevret.Cli

open Foundation

def IPv4Address.toString (ip : IPv4Address) : List UInt8 := dottedText ip.data.toList

/-- The value of a run is computed wherever the run is accepted, and a run above 255 is accepted
nowhere. -/
structure OctetsExact (digits : List UInt8) : Prop where
  number : ∀ result wrap, parseNumber (.new digits) = .ok (result, wrap) →
    result.toInt = decimal digits
  cliOctet : ∀ octet wrap, parseOctet (.new digits) = .ok (octet, wrap) →
    octet.toNat = decimal digits
  dhcpOctet : ∀ octet wrap, Klevret.parseOctet (.new digits) = .ok (octet, wrap) →
    octet.toNat = decimal digits
  refused : 255 < decimal digits → ∀ text runs rest, Delimited isDigit 46 text runs rest →
    runs.length = 4 → digits ∈ runs →
      (∀ ip, IPv4Address.ofString text ≠ .ok ip) ∧
      (∀ ip, Klevret.IPv4Address.ofString text ≠ .ok ip) ∧ parseIpv4Address text = false

variable {digits text rest : List UInt8} {runs : List (List UInt8)}

theorem takeWhile_digits (h : ∀ ch ∈ digits, isDigit ch = true) :
    digits.takeWhile isDigit = digits := List.takeWhile_eq_self_iff.mpr h

theorem toNat_byteOf (h : ∀ ch ∈ digits, isDigit ch = true) (hle : decimal digits % 2 ^ 32 ≤ 255)
    (hlt : decimal digits < 2 ^ 31) : (byteOf digits).toNat = decimal digits := by
  have ho := toNat_of_isNoOctet ((isNoOctet_intOfDigits h).mpr hle)
  rw [(toInt_intOfDigits h).mpr hlt] at ho
  exact_mod_cast ho

theorem le_of_ofString (hruns : Delimited isDigit 46 text runs rest) (hlength : runs.length = 4)
    (hmem : digits ∈ runs) {ip : IPv4Address} (h : IPv4Address.ofString text = .ok ip) :
    decimal digits % 2 ^ 32 ≤ 255 := by
  obtain ⟨octets, hparse, -⟩ := Exec.bind_eq_ok.mp h
  obtain ⟨runs', rest', hreads⟩ := exists_readsInts hparse
  exact hreads.le_of_mem hruns hlength hmem

theorem le_of_dhcp_ofString (hruns : Delimited isDigit 46 text runs rest)
    (hlength : runs.length = 4) (hmem : digits ∈ runs) {ip : Klevret.IPv4Address}
    (h : Klevret.IPv4Address.ofString text = .ok ip) : decimal digits % 2 ^ 64 ≤ 255 := by
  rcases exists_reads_or_throws_ofString text with ⟨runs', rest', hreads⟩ | hthrows
  · obtain ⟨rfl, -⟩ :=
      hruns.unique (by decide) hreads.delimited (hlength.trans hreads.length_eq.symm)
    exact hreads.le digits hmem
  · rw [h] at hthrows
    exact absurd hthrows (Exec.not_throws_ok ip)

theorem le_of_parseIpv4Address (hruns : Delimited isDigit 46 text runs rest)
    (hlength : runs.length = 4) (hmem : digits ∈ runs) (h : parseIpv4Address text = true) :
    decimal digits % 2 ^ 32 ≤ 255 := by
  rw [parseIpv4Address, ← isSome_ipv4Octets] at h
  obtain ⟨octets, ho⟩ := Option.isSome_iff_exists.mp h
  obtain ⟨runs', rest', hreads, -⟩ := ipv4Octets_new_eq_some.mp ho
  exact hreads.le_of_mem hruns hlength hmem

/-- The loops are exact on exactly the runs whose value fits into an `int`. -/
theorem octetsExact_iff (h : ∀ ch ∈ digits, isDigit ch = true) :
    OctetsExact digits ↔ decimal digits < 2 ^ 31 := by
  have hself := takeWhile_digits h
  constructor
  · intro hexact
    by_cases hnil : digits = []
    · rw [hnil]
      decide
    · rw [← toInt_intOfDigits h]
      apply hexact.number
      rw [parseNumber_new, hself, if_neg hnil]
  · intro hlt
    refine ⟨fun result wrap hok => ?_, fun octet wrap hok => ?_, fun octet wrap hok => ?_, ?_⟩
    · rw [parseNumber_new, hself] at hok
      split_ifs at hok
      · exact absurd hok Exec.throwRuntimeError_ne_ok
      obtain ⟨rfl, -⟩ := Prod.mk.inj (Except.ok.inj hok)
      exact (toInt_intOfDigits h).mpr hlt
    · rw [parseOctet_new, hself] at hok
      split_ifs at hok with ho
      · exact absurd hok Exec.throwRuntimeError_ne_ok
      obtain ⟨rfl, -⟩ := Prod.mk.inj (Except.ok.inj hok)
      rw [Bool.not_eq_true, isNoOctet_intOfDigits h] at ho
      exact toNat_byteOf h ho hlt
    · rw [Klevret.parseOctet_new, hself] at hok
      split_ifs at hok with ho
      · exact absurd hok Exec.throwRuntimeError_ne_ok
      obtain ⟨rfl, -⟩ := Prod.mk.inj (Except.ok.inj hok)
      rw [octetOf, UInt8.toNat_ofNat']
      omega
    · intro hlarge text runs rest hruns hlength hmem
      refine ⟨fun ip hok => ?_, fun ip hok => ?_, Bool.eq_false_iff.mpr fun hok => ?_⟩
      · have hle := le_of_ofString hruns hlength hmem hok
        omega
      · have hle := le_of_dhcp_ofString hruns hlength hmem hok
        omega
      · have hle := le_of_parseIpv4Address hruns hlength hmem hok
        omega

/-- An octet. -/
theorem octetsExact_sample : OctetsExact [50, 53, 53] ↔ decimal [50, 53, 53] < 2 ^ 31 :=
  octetsExact_iff (by simp [isDigit])

/-- The digits of `2 ^ 64`, which all three loops take for 0. -/
theorem not_octetsExact_wrapped :
    ¬ ∀ digits, (∀ ch ∈ digits, isDigit ch = true) → OctetsExact digits := by
  intro h
  have hdigits : ∀ ch ∈ decimalText (2 ^ 64), isDigit ch = true :=
    fun ch => isDigit_of_mem_decimalText
  have hnumber := (h _ hdigits).number (intOfDigits (decimalText (2 ^ 64))) (.new [])
  rw [toInt_intOfDigits hdigits, decimal_decimalText] at hnumber
  refine absurd (hnumber ?_) (by decide)
  rw [parseNumber_new, takeWhile_digits hdigits, if_neg (decimalText_ne_nil _),
    List.dropWhile_eq_nil_iff.mpr hdigits]

/-- The octets that the recogniser computes are those of the constructor, and those that the server
reads from its text. -/
theorem address_survives (h : parseIpv4Address text = true) :
    ∃ octets ip ip', ipv4Octets 4 (.new text) = some octets ∧
      IPv4Address.ofString text = .ok ip ∧
      Klevret.IPv4Address.ofString ip.toString = .ok ip' ∧
      (ip'.toNetworkData.map fun octet => (octet.toNat : ℤ)) = octets.map Int32.toInt := by
  rw [parseIpv4Address, ← isSome_ipv4Octets] at h
  obtain ⟨octets, ho⟩ := Option.isSome_iff_exists.mp h
  obtain ⟨runs, rest, hreads, -, -, rfl⟩ := ipv4Octets_new_eq_some.mp ho
  obtain ⟨data, hdata, hparse⟩ := parseOctets_of_readsInts hreads
  refine ⟨_, ⟨data⟩, ⟨data⟩, ho, ?_, ofString_dottedText data, ?_⟩
  · rw [IPv4Address.ofString, hparse]
    rfl
  · rw [Klevret.IPv4Address.toNetworkData, hdata, List.map_map, List.map_map]
    apply List.map_congr_left
    intro run hrun
    have hdigits := hreads.delimited.forall_mem_run hrun
    exact toNat_of_isNoOctet ((isNoOctet_intOfDigits hdigits).mpr (hreads.le run hrun))

/-- The text `10.0.0.1`. -/
theorem address_survives_sample :
    parseIpv4Address [49, 48, 46, 48, 46, 48, 46, 49] = true ∧
      ∃ octets ip ip', ipv4Octets 4 (.new [49, 48, 46, 48, 46, 48, 46, 49]) = some octets ∧
        IPv4Address.ofString [49, 48, 46, 48, 46, 48, 46, 49] = .ok ip ∧
        Klevret.IPv4Address.ofString ip.toString = .ok ip' ∧
        (ip'.toNetworkData.map fun octet => (octet.toNat : ℤ)) = octets.map Int32.toInt :=
  ⟨by decide, address_survives (by decide)⟩

end Klevret.Cli
