import Klevret.Foundation.Framing
import Klevret.Foundation.Outcome
import Klevret.Network.AddressText

/-! # Property trees and their JSON documents

What the API relies on of the property trees of Boost and of its reader and
writer of JSON, as operations with laws. The paths of this program lead to a
child of the root.
-/

namespace Klevret

open Foundation

/-- `boost::property_tree` with `read_json` and `write_json` -/
class PropertyTree (T : Type) where
  empty : T
  /-- The data of the node at a path. -/
  get? : T → String → Option (List UInt8)
  put : T → String → List UInt8 → T
  writeJson : T → Exec (List UInt8)
  readJson : List UInt8 → Exec T

/-- A path of one step: neither the root nor a path with a separator. -/
def isKey (path : String) : Bool := decide (path ≠ "" ∧ '.' ∉ path.toList)

/-- `boost::trim` -/
def trim (str : List UInt8) : List UInt8 := trimWith isSpace str

/-- A tree of one level, built from the empty one. -/
inductive IsFlat {T : Type} [PropertyTree T] : T → Prop
  | empty : IsFlat PropertyTree.empty
  | put {json : T} {path : String} {value : List UInt8} (hpath : isKey path) (h : IsFlat json) :
      IsFlat (PropertyTree.put json path value)

section Laws

variable (T : Type) [PropertyTree T]

open PropertyTree

class LawfulPropertyTree : Prop where
  get?_put_self (json : T) (path : String) (value : List UInt8) :
    get? (put json path value) path = some value
  get?_put_of_ne (json : T) {path other : String} (value : List UInt8) (hpath : isKey path)
    (hother : isKey other) (hne : other ≠ path) : get? (put json path value) other = get? json other

/-- A tree of one level can be written. -/
class LawfulJsonWriter : Prop where
  writeJson_ok {json : T} (h : IsFlat json) : ∃ document, writeJson json = .ok document

/-- The reader inverts the writer on one document and rejects an incomplete document and a
document that other text follows. -/
class LawfulJsonReader : Prop where
  trim_ne_nil {json : T} {document : List UInt8} (h : writeJson json = .ok document) :
    trim document ≠ []
  readJson_trim {json : T} {document : List UInt8} (h : writeJson json = .ok document) :
    readJson (trim document) = .ok json
  readJson_part {json : T} {document part : List UInt8} (h : writeJson json = .ok document)
    (hpart : part <+: trim document) (hne : part ≠ trim document) :
    (readJson part : Exec T).Throws
  readJson_rest {json : T} {document rest : List UInt8} (h : writeJson json = .ok document)
    (hrest : ¬ rest.all isSpace) : (readJson (trim document ++ rest) : Exec T).Throws

end Laws

section Access

variable {T : Type} [PropertyTree T] {json : T} {path : String} {value : List UInt8}

/-- `get<std::string>(path)` -/
def PropertyTree.get (json : T) (path : String) : Exec (List UInt8) :=
  match PropertyTree.get? json path with
  | some value => .ok value
  | none => throwRuntimeError ("No such node (" ++ path ++ ")")

theorem PropertyTree.get_eq_ok :
    PropertyTree.get json path = .ok value ↔ PropertyTree.get? json path = some value := by
  unfold PropertyTree.get
  cases PropertyTree.get? json path with
  | none => simp
  | some value' => simp

end Access

/-- A tree of one level, as the API builds them. -/
structure FlatTree where
  children : List (String × List UInt8)
  deriving DecidableEq

namespace FlatTree

variable {children : List (String × List UInt8)} {path other : String} {value : List UInt8}

/-- Set the first child with the key, or append one. -/
def putChild (path : String) (value : List UInt8) :
    List (String × List UInt8) → List (String × List UInt8)
  | [] => [(path, value)]
  | child :: children =>
    if child.1 = path then (path, value) :: children else child :: putChild path value children

theorem lookup_putChild_self : (putChild path value children).lookup path = some value := by
  induction children with
  | nil => simp [putChild]
  | cons child children ih =>
    obtain ⟨key, data⟩ := child
    by_cases hkey : key = path
    · simp [putChild, hkey]
    · have hne : (path == key) = false := by simpa using Ne.symm hkey
      simp [putChild, hkey, List.lookup_cons, hne, ih]

theorem lookup_putChild_of_ne (h : other ≠ path) :
    (putChild path value children).lookup other = children.lookup other := by
  have hne : (other == path) = false := by simpa using h
  induction children with
  | nil => simp [putChild, List.lookup_cons, hne]
  | cons child children ih =>
    obtain ⟨key, data⟩ := child
    by_cases hkey : key = path
    · simp [putChild, hkey, List.lookup_cons, hne]
    · simp [putChild, hkey, List.lookup_cons, ih]

/-- Such trees, with a writer and a reader. -/
abbrev propertyTree (writeJson : FlatTree → Exec (List UInt8))
    (readJson : List UInt8 → Exec FlatTree) : PropertyTree FlatTree where
  empty := ⟨[]⟩
  get? json path := json.children.lookup path
  put json path value := ⟨putChild path value json.children⟩
  writeJson
  readJson

theorem lawful (writeJson : FlatTree → Exec (List UInt8))
    (readJson : List UInt8 → Exec FlatTree) :
    @LawfulPropertyTree FlatTree (propertyTree writeJson readJson) :=
  letI := propertyTree writeJson readJson
  { get?_put_self := fun _ _ _ => lookup_putChild_self
    get?_put_of_ne := fun _ _ _ _ _ _ hne => lookup_putChild_of_ne hne }

end FlatTree

end Klevret
