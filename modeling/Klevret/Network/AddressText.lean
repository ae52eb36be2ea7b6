import Klevret.Network.IpAddress

/-! # Reading an address from text

The character cursor of the parsers and the textual constructor of
`IPv4Address`. A string is its list of bytes; the cursor marks the end of the
text by the in-band character `EOT`.
-/

namespace Klevret

open Foundation

def literal (str : String) : List UInt8 := str.toUTF8.data.toList

/-- One character at a time: the current one and those after it. -/
structure WrapperForParsing where
  ch : UInt8
  rest : List UInt8
  deriving DecidableEq, Repr

namespace WrapperForParsing

def EOT : UInt8 := 3

def getNext (wrap : WrapperForParsing) : WrapperForParsing :=
  match wrap.rest with
  | [] => ⟨EOT, []⟩
  | c :: rest => ⟨c, rest⟩

def new (str : List UInt8) : WrapperForParsing := getNext ⟨EOT, str⟩

end WrapperForParsing

def isDigit (ch : UInt8) : Bool := decide (48 ≤ ch ∧ ch ≤ 57)

def isSpace (ch : UInt8) : Bool := decide (ch = 32) || decide (9 ≤ ch ∧ ch ≤ 13)

/-- The digit loop of `parse_octet`; the accumulator is a `size_t`. -/
def parseDigits (octet : ℕ) (ch : UInt8) : List UInt8 → ℕ × WrapperForParsing
  | [] =>
    if isDigit ch then ((octet * 10 + (ch.toNat - 48)) % 2 ^ 64, ⟨WrapperForParsing.EOT, []⟩)
    else (octet, ⟨ch, []⟩)
  | c :: rest =>
    if isDigit ch then parseDigits ((octet * 10 + (ch.toNat - 48)) % 2 ^ 64) c rest
    else (octet, ⟨ch, c :: rest⟩)

def parseOctet (wrap : WrapperForParsing) : Exec (UInt8 × WrapperForParsing) := do
  let (octet, wrap) := parseDigits 0 wrap.ch wrap.rest
  if octet > 255 then
    throwRuntimeError "Ошибка парсинга IP-адреса, октет не может быть больше 255"
  return (UInt8.ofNat octet, wrap)

/-- Adding a `char` to a string literal moves the pointer: the message is the tail of the literal,
and a negative or too large offset leaves the literal. -/
def throwLiteralPlusChar {α : Type} (literal : String) (ch : UInt8) : Exec α :=
  if ch < 128 ∧ ch.toNat ≤ literal.utf8ByteSize then
    .error (.throws (.runtimeErrorTail literal ch.toNat))
  else .error .undefined

namespace IPv4Address

/-- The constructor loop, for the octets that are still missing. -/
def parseOctets (wrap : WrapperForParsing) : (n : ℕ) → Exec (Bytes n × WrapperForParsing)
  | 0 => return (.nil, wrap)
  | n + 1 => do
    let (octet, wrap) ← parseOctet wrap
    if 0 < n ∧ wrap.ch ≠ 46 then
      throwRuntimeError "Ошибка парсинга IP-адреса, ожидалась точка"
    let (octets, wrap) ← parseOctets wrap.getNext n
    return (octet ::ᵥ octets, wrap)

/-- `IPv4Address(std::string)` -/
def ofString (ipAddr : List UInt8) : Exec IPv4Address := do
  let (octets, wrap) ← parseOctets (.new ipAddr) IP_V4_ADDRESS_LENGTH
  if wrap.ch ≠ WrapperForParsing.EOT then
    throwLiteralPlusChar "Ошибка парсинга IP-адреса, неизвестный символ: " wrap.ch
  return ⟨octets⟩

end IPv4Address

end Klevret
