import Klevret.Network.AddressText

/-! # Tokens of the command line

The elements of a command pattern, the recognisers of their tokens and the
values that are made of them. The command line has its own cursor functions and
its own address types.
-/

namespace Klevret

open Foundation

/-- `std::isalpha` in the C locale -/
def isAlpha (ch : UInt8) : Bool := decide (65 ≤ ch ∧ ch ≤ 90) || decide (97 ≤ ch ∧ ch ≤ 122)

def isAlnum (ch : UInt8) : Bool := isAlpha ch || isDigit ch

namespace WrapperForParsing

def isEnd (wrap : WrapperForParsing) : Bool := wrap.ch == EOT

/-- The message shows a character beyond ASCII by its number. -/
def check (wrap : WrapperForParsing) (c : UInt8) : Exec WrapperForParsing :=
  if wrap.ch = c then return wrap.getNext
  else throwRuntimeError ("Ожидалось <" ++ toString (Char.ofNat c.toNat) ++ ">, но <" ++
    toString (Char.ofNat wrap.ch.toNat) ++ ">")

/-- The loops that go on as long as the current character is of a kind, which `EOT` is not. -/
def spanFrom (p : UInt8 → Bool) (ch : UInt8) : List UInt8 → List UInt8 × WrapperForParsing
  | [] => if p ch then ([ch], ⟨EOT, []⟩) else ([], ⟨ch, []⟩)
  | c :: rest =>
    if p ch then
      let (word, wrap) := spanFrom p c rest
      (ch :: word, wrap)
    else ([], ⟨ch, c :: rest⟩)

def span (wrap : WrapperForParsing) (p : UInt8 → Bool) : List UInt8 × WrapperForParsing :=
  spanFrom p wrap.ch wrap.rest

def skipWhitespaces (wrap : WrapperForParsing) : WrapperForParsing := (wrap.span isSpace).2

end WrapperForParsing

namespace Cli

inductive CommandElementType where
  | none
  | fixedWord
  | string
  | name
  | ipV4Address
  | ipV4SubnetMask
  | ipV6Address
  | ipV6SubnetMask
  deriving DecidableEq, Repr

/-- An element without its handler. Two elements are compared by these fields only. -/
structure CommandElement where
  type : CommandElementType := .none
  fixedValue : List UInt8 := []
  deriving DecidableEq, Repr

/-- The loop `result = result * 10 + (ch - '0')`, in an `int` that wraps around. -/
def intOfDigits (digits : List UInt8) : Int32 :=
  digits.foldl (fun result ch => result * 10 + .ofInt (ch.toNat - 48)) 0

/-- `octet < 0 || octet > 255` -/
def isNoOctet (octet : Int32) : Bool := decide (octet < 0) || decide (octet > 255)

section Addresses

structure IPv4Address where
  data : Bytes 4
  deriving DecidableEq

structure IPv6Address where
  data : Bytes 6
  deriving DecidableEq

structure IPv4SubnetMask where
  data : Bytes 4
  deriving DecidableEq

structure IPv6SubnetMask where
  data : Bytes 6
  deriving DecidableEq

/-- No digit at all is read as 0. -/
def parseOctet (wrap : WrapperForParsing) : Exec (UInt8 × WrapperForParsing) := do
  let (digits, wrap) := wrap.span isDigit
  let octet := intOfDigits digits
  if isNoOctet octet then throwRuntimeError "Октет должен быть в диапазоне [0..255]"
  return (octet.toUInt32.toUInt8, wrap)

/-- The constructor loop, for the octets that are still missing. -/
def IPv4Address.parseOctets : (n : ℕ) → WrapperForParsing → Exec (Bytes n)
  | 0, _ => return .nil
  | n + 1, wrap => do
    let (octet, wrap) ← parseOctet wrap
    let wrap ← if 0 < n then wrap.check 46 else pure wrap
    let octets ← parseOctets n wrap
    return octet ::ᵥ octets

/-- `IPv4Address(const std::string&)`, which does not look behind the last octet -/
def IPv4Address.ofString (ip : List UInt8) : Exec IPv4Address := do
  let octets ← parseOctets 4 (.new ip)
  return ⟨octets⟩

/-- The other constructors ignore their argument. -/
def IPv6Address.ofString (_ip : List UInt8) : IPv6Address := ⟨.replicate 6 0⟩

def IPv4SubnetMask.ofString (_mask : List UInt8) : IPv4SubnetMask := ⟨.replicate 4 0⟩

def IPv6SubnetMask.ofString (_mask : List UInt8) : IPv6SubnetMask := ⟨.replicate 6 0⟩

inductive CommandElementRealValue where
  | string (str : List UInt8)
  | ipV4Address (ip : IPv4Address)
  | ipV6Address (ip : IPv6Address)
  | ipV4SubnetMask (mask : IPv4SubnetMask)
  | ipV6SubnetMask (mask : IPv6SubnetMask)
  deriving DecidableEq

/-- The value that is pushed for a token, by the type of the element that took it. -/
def realValue (part : List UInt8) : CommandElementType → Exec CommandElementRealValue
  | .ipV4Address => do return .ipV4Address (← IPv4Address.ofString part)
  | .ipV6Address => return .ipV6Address (.ofString part)
  | .ipV4SubnetMask => return .ipV4SubnetMask (.ofString part)
  | .ipV6SubnetMask => return .ipV6SubnetMask (.ofString part)
  | _ => return .string part

end Addresses

section Recognisers

/-- What stands behind the closing quote is not looked at. -/
def parseString (str : List UInt8) : Bool :=
  let wrap := WrapperForParsing.new str
  if wrap.ch ≠ 34 then false
  else (wrap.getNext.span isAlpha).2.ch == 34

def parseName (_str : List UInt8) : Bool := true

def parseNumber (wrap : WrapperForParsing) : Exec (Int32 × WrapperForParsing) :=
  if ¬ isDigit wrap.ch then throwRuntimeError "Ошибка парсинга числа: ожидалась цифра"
  else
    let (digits, wrap) := wrap.span isDigit
    return (intOfDigits digits, wrap)

/-- The loop over the octets that are still missing, and the check behind it; an exception is
caught. -/
def parseIpv4Octets : ℕ → WrapperForParsing → Bool
  | 0, wrap => wrap.ch == WrapperForParsing.EOT
  | n + 1, wrap =>
    match parseNumber wrap with
    | .error _ => false
    | .ok (octet, wrap) =>
      if isNoOctet octet then false
      else if 0 < n then
        if wrap.ch ≠ 46 then false else parseIpv4Octets n wrap.getNext
      else parseIpv4Octets n wrap

def parseIpv4Address (str : List UInt8) : Bool := parseIpv4Octets 4 (.new str)

/-- The exception of `parse_number` is not caught here. -/
def parseIpv4SubnetMask (str : List UInt8) : Exec Bool := do
  let (mask, _) ← parseNumber (.new str)
  if mask < 0 ∨ mask > 32 then return false
  return true

def parseIpv6Address (_str : List UInt8) : Bool := true

def parseIpv6SubnetMask (_str : List UInt8) : Bool := true

def checkCommandElement (str : List UInt8) (element : CommandElement) : Exec Bool :=
  match element.type with
  | .none => return false
  | .fixedWord => return decide (element.fixedValue = str)
  | .string => return parseString str
  | .name => return parseName str
  | .ipV4Address => return parseIpv4Address str
  | .ipV4SubnetMask => parseIpv4SubnetMask str
  | .ipV6Address => return parseIpv6Address str
  | .ipV6SubnetMask => return parseIpv6SubnetMask str

variable {n : ℕ} {wrap : WrapperForParsing} {part : List UInt8}

theorem exists_parseOctets (h : parseIpv4Octets n wrap = true) :
    ∃ octets, IPv4Address.parseOctets n wrap = .ok octets := by
  induction n generalizing wrap with
  | zero => exact ⟨.nil, rfl⟩
  | succ n ih =>
    simp only [parseIpv4Octets, parseNumber] at h
    by_cases hd : isDigit wrap.ch
    · simp only [hd, not_true_eq_false, if_false, Exec.pure_eq_ok] at h
      cases ho : isNoOctet (intOfDigits (wrap.span isDigit).1) with
      | true => simp [ho] at h
      | false =>
        simp only [ho, Bool.false_eq_true, if_false] at h
        by_cases hn : 0 < n
        · by_cases hdot : (wrap.span isDigit).2.ch = 46
          · simp only [hn, hdot, if_true, ne_eq, not_true_eq_false, if_false] at h
            obtain ⟨octets, hoctets⟩ := ih h
            simp [IPv4Address.parseOctets, parseOctet, ho, hn, WrapperForParsing.check, hdot,
              hoctets]
          · simp [hn, hdot] at h
        · simp only [hn, if_false] at h
          obtain ⟨octets, hoctets⟩ := ih h
          simp [IPv4Address.parseOctets, parseOctet, ho, hn, hoctets]
    · simp [hd, throwRuntimeError] at h

theorem exists_realValue {element : CommandElement}
    (h : checkCommandElement part element = .ok true) :
    ∃ value, realValue part element.type = .ok value := by
  unfold checkCommandElement at h
  cases ht : element.type with
  | ipV4Address =>
    simp only [ht, Exec.pure_eq_ok, Except.ok.injEq] at h
    obtain ⟨octets, ho⟩ := exists_parseOctets h
    simp [realValue, IPv4Address.ofString, ho]
  | _ => exact ⟨_, rfl⟩

end Recognisers

end Cli

end Klevret
