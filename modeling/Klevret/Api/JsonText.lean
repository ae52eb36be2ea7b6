import Klevret.Api.PropertyTree
import Klevret.Foundation.SelfDelimiting

/-! # The JSON text of a tree of one level

What the writer of Boost writes for such a tree, and a reader of these texts. The
writer and the reader satisfy the laws that the API relies on.
-/

namespace Klevret

open Foundation

namespace JsonText

def hexDigit (n : UInt8) : UInt8 := if n < 10 then 48 + n else 55 + n

def hexValue (digit : UInt8) : UInt8 := if digit < 58 then digit - 48 else digit - 55

/-- `create_escapes` of a byte -/
def escape (b : UInt8) : List UInt8 :=
  if b = 8 then [92, 98]
  else if b = 12 then [92, 102]
  else if b = 10 then [92, 110]
  else if b = 13 then [92, 114]
  else if b = 9 then [92, 116]
  else if b = 47 then [92, 47]
  else if b = 34 then [92, 34]
  else if b = 92 then [92, 92]
  else if b < 32 then [92, 117, 48, 48, hexDigit (b / 16), hexDigit (b % 16)]
  else [b]

def unescape : List UInt8 → Option (UInt8 × List UInt8)
  | [] => none
  | b :: symbols =>
    if b = 92 then
      match symbols with
      | [] => none
      | c :: symbols =>
        if c = 98 then some (8, symbols)
        else if c = 102 then some (12, symbols)
        else if c = 110 then some (10, symbols)
        else if c = 114 then some (13, symbols)
        else if c = 116 then some (9, symbols)
        else if c = 117 then
          match symbols with
          | _ :: _ :: high :: low :: rest => some (hexValue high * 16 + hexValue low, rest)
          | _ => none
        else some (c, symbols)
    else some (b, symbols)

theorem hexValue_hexDigit {b : UInt8} (h : b < 32) :
    hexValue (hexDigit (b / 16)) * 16 + hexValue (hexDigit (b % 16)) = b := by
  have hall : ∀ n < 32, hexValue (hexDigit (UInt8.ofNat n / 16)) * 16 +
      hexValue (hexDigit (UInt8.ofNat n % 16)) = UInt8.ofNat n := by decide
  have hb := hall b.toNat h
  rwa [UInt8.ofNat_toNat] at hb

theorem unescape_escape (b : UInt8) (rest : List UInt8) :
    unescape (escape b ++ rest) = some (b, rest) := by
  unfold escape
  split_ifs with h₁ h₂ h₃ h₄ h₅ h₆ h₇ h₈ h₉
  · rw [h₁]; rfl
  · rw [h₂]; rfl
  · rw [h₃]; rfl
  · rw [h₄]; rfl
  · rw [h₅]; rfl
  · rw [h₆]; rfl
  · rw [h₇]; rfl
  · rw [h₈]; rfl
  · have hdigits : unescape ([92, 117, 48, 48, hexDigit (b / 16), hexDigit (b % 16)] ++ rest) =
        some (hexValue (hexDigit (b / 16)) * 16 + hexValue (hexDigit (b % 16)), rest) := rfl
    rw [hdigits, hexValue_hexDigit h₉]
  · simp [unescape, h₈]

def byte : SelfDelimiting UInt8 UInt8 := ⟨escape, unescape, unescape_escape⟩

theorem avoids_byte : byte.Avoids 34 := by
  intro b
  change ∃ x symbols, escape b = x :: symbols ∧ x ≠ 34
  unfold escape
  split_ifs with h₁ h₂ h₃ h₄ h₅ h₆ h₇
  case neg => exact ⟨b, [], rfl, h₇⟩
  all_goals exact ⟨92, _, rfl, by decide⟩

def string : SelfDelimiting UInt8 (List UInt8) := (byte.items 34 avoids_byte).between [34] []

theorem fromUTF8?_literal (key : String) :
    (String.fromUTF8? ⟨(literal key).toArray⟩).getD "" = key := by
  have hvalid : key.toByteArray.IsValidUTF8 := key.isValidUTF8
  have hbytes : (⟨(literal key).toArray⟩ : ByteArray) = key.toByteArray := by simp [literal]
  rw [hbytes, String.fromUTF8?, dif_pos hvalid]
  rfl

def key : SelfDelimiting UInt8 String :=
  string.via literal (fun bytes => (String.fromUTF8? ⟨bytes.toArray⟩).getD "") fromUTF8?_literal

def child : SelfDelimiting UInt8 (String × List UInt8) :=
  (key.between [] (literal ": ")).pair string

/-- The children after the first one. -/
def others : SelfDelimiting UInt8 (List (String × List UInt8)) :=
  (child.between (44 :: literal "\n    ") []).items 10
    (SelfDelimiting.avoids_between child (by decide) _ _)

def members : SelfDelimiting UInt8 ((String × List UInt8) × List (String × List UInt8)) :=
  (child.pair others).between (32 :: literal "   ") [125]

def ofList : List (String × List UInt8) →
    Option ((String × List UInt8) × List (String × List UInt8))
  | [] => none
  | child :: children => some (child, children)

def toList : Option ((String × List UInt8) × List (String × List UInt8)) →
    List (String × List UInt8)
  | none => []
  | some (child, children) => child :: children

theorem toList_ofList (children : List (String × List UInt8)) :
    toList (ofList children) = children := by
  cases children <;> rfl

/-- The text of a tree, without the end of its last line. -/
def document : SelfDelimiting UInt8 FlatTree :=
  ((members.optional 125 (SelfDelimiting.avoids_between _ (by decide) _ _)).between
    (123 :: literal "\n") []).via (fun json => ofList json.children)
      (fun children => ⟨toList children⟩) fun json => by rw [toList_ofList]

theorem document_ends (json : FlatTree) :
    ∃ symbols, document.encode json = 123 :: symbols ++ [125] := by
  obtain ⟨children⟩ := json
  cases children with
  | nil => exact ⟨literal "\n", rfl⟩
  | cons first rest =>
    have hencode : document.encode ⟨first :: rest⟩ =
        123 :: literal "\n" ++ (members.encode (first, rest) ++ []) := rfl
    have hmembers : members.encode (first, rest) =
        32 :: literal "   " ++ ((child.pair others).encode (first, rest) ++ [125]) := rfl
    refine ⟨literal "\n" ++ (32 :: literal "   " ++ (child.pair others).encode (first, rest)), ?_⟩
    rw [hencode, hmembers, List.append_nil]
    simp only [List.cons_append, List.append_assoc]

theorem trim_document (json : FlatTree) :
    trim (document.encode json ++ [10]) = document.encode json := by
  obtain ⟨symbols, hs⟩ := document_ends json
  have hhead : ∀ b ∈ (document.encode json ++ [10]).head?, isSpace b = false := by
    rw [hs]
    intro b hb
    obtain rfl := Option.some.inj hb
    decide
  rw [trim, trimWith_of_head hhead, List.rdropWhile_concat_pos _ _ _ (by decide), hs,
    List.rdropWhile_concat_neg _ _ _ (by decide)]

def writeJson (json : FlatTree) : Exec (List UInt8) := .ok (document.encode json ++ [10])

def readJson (text : List UInt8) : Exec FlatTree :=
  match document.read text with
  | some json => .ok json
  | none => throwRuntimeError "<unspecified file>: expected value"

end JsonText

namespace FlatTree

/-- Trees of one level with their texts. -/
abbrev texts : PropertyTree FlatTree := propertyTree JsonText.writeJson JsonText.readJson

theorem trim_of_writeJson {json : FlatTree} {text : List UInt8}
    (h : JsonText.writeJson json = .ok text) : trim text = JsonText.document.encode json := by
  rw [← Except.ok.inj h, JsonText.trim_document]

theorem readJson_throws {text : List UInt8} (h : ∀ json, JsonText.document.read text ≠ some json) :
    (JsonText.readJson text).Throws := by
  have hnone : JsonText.document.read text = none := Option.eq_none_iff_forall_ne_some.mpr h
  rw [JsonText.readJson, hnone]
  exact ⟨_, rfl⟩

theorem texts_lawfulReader : @LawfulJsonReader FlatTree texts :=
  letI := texts
  { trim_ne_nil := fun {json document} h => by
      obtain ⟨symbols, hs⟩ := JsonText.document_ends json
      rw [trim_of_writeJson h, hs]
      exact List.cons_ne_nil _ _
    readJson_trim := fun {json document} h => by
      change JsonText.readJson (trim document) = .ok json
      rw [trim_of_writeJson h, JsonText.readJson, SelfDelimiting.read_encode]
    readJson_part := fun {json document part} h hpart hne => by
      rw [trim_of_writeJson h] at hpart hne
      exact readJson_throws fun json' hr => hne (SelfDelimiting.eq_of_read_part _ hr hpart)
    readJson_rest := fun {json document rest} h hrest => by
      change (JsonText.readJson (trim document ++ rest)).Throws
      rw [trim_of_writeJson h]
      refine readJson_throws fun json' hr => hrest ?_
      rw [SelfDelimiting.eq_nil_of_read_append _ hr]
      rfl }

theorem texts_lawful :
    letI := texts
    LawfulPropertyTree FlatTree ∧ LawfulJsonWriter FlatTree ∧ LawfulJsonReader FlatTree :=
  ⟨lawful _ _, @LawfulJsonWriter.mk _ texts fun _ => ⟨_, rfl⟩, texts_lawfulReader⟩

end FlatTree

end Klevret
