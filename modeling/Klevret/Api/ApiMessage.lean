import Klevret.Api.PropertyTree

/-! # Messages of the API

A message names its component in its JSON document. The packet of a message is
accepted by the reader, while its parts and what runs over it are not.
-/

namespace Klevret

open Foundation PropertyTree

variable {T : Type}

structure ApiMessage (T : Type) where
  componentName : List UInt8
  json : T
  deriving DecidableEq

namespace ApiMessage

variable [PropertyTree T]

/-- The packet, and the message with its component in the document. -/
def serialize (message : ApiMessage T) : Exec (List UInt8 × ApiMessage T) := do
  let json := put message.json "component" message.componentName
  let jsonStr ← writeJson json
  return (trim jsonStr, { message with json })

/-- The constructor from a packet. -/
def deserialize (packet : List UInt8) : Exec (ApiMessage T) := do
  let json ← readJson (trim packet)
  return ⟨(get? json "component").getD [], json⟩

/-- The messages that a peer sends back to back: their packets, and the messages as sent. -/
def serializeAll (messages : List (ApiMessage T)) : Exec (List (List UInt8 × ApiMessage T)) :=
  messages.mapM serialize

/-- Whether the listener takes a chunk for a message. -/
def accepts (T : Type) [PropertyTree T] (chunk : List UInt8) : Bool :=
  (deserialize chunk : Exec (ApiMessage T)).toBool

section Serialize

variable {message sent : ApiMessage T} {packet : List UInt8}

theorem serialize_eq_ok (h : message.serialize = .ok (packet, sent)) :
    ∃ document, writeJson sent.json = .ok document ∧ packet = trim document ∧
      sent.componentName = message.componentName ∧
        sent.json = put message.json "component" message.componentName := by
  obtain ⟨document, hdoc, h⟩ := Exec.bind_eq_ok.mp h
  obtain ⟨rfl, rfl⟩ := Prod.mk.inj (Except.ok.inj h)
  exact ⟨document, hdoc, rfl, rfl, rfl⟩

theorem head_serialize (h : message.serialize = .ok (packet, sent)) :
    ∀ b ∈ packet.head?, isSpace b = false := by
  obtain ⟨document, -, rfl, -⟩ := serialize_eq_ok h
  exact fun b hb => head_trimWith hb

theorem not_accepts_of_throws {chunk : List UInt8} (h : (readJson (trim chunk) : Exec T).Throws) :
    accepts T chunk = false := by
  obtain ⟨e, he⟩ := h
  simp [accepts, deserialize, he, Except.toBool]

variable [LawfulJsonReader T]

theorem serialize_ne_nil (h : message.serialize = .ok (packet, sent)) : packet ≠ [] := by
  obtain ⟨document, hdoc, rfl, -⟩ := serialize_eq_ok h
  exact LawfulJsonReader.trim_ne_nil hdoc

theorem deserialize_serialize [LawfulPropertyTree T] (h : message.serialize = .ok (packet, sent)) :
    deserialize packet = .ok sent := by
  obtain ⟨document, hdoc, rfl, hname, hjson⟩ := serialize_eq_ok h
  have htrim : trim (trim document) = trim document := trimWith_trimWith
  rw [deserialize, htrim, LawfulJsonReader.readJson_trim hdoc, Exec.ok_bind, hjson,
    LawfulPropertyTree.get?_put_self, ← hjson, Option.getD_some, ← hname]
  rfl

theorem eq_of_accepts_part {part : List UInt8} (h : message.serialize = .ok (packet, sent))
    (hpart : part <+: packet) (ha : accepts T part) : part = packet := by
  by_contra hne
  have hhead : ∀ b ∈ part.head?, isSpace b = false := by
    intro b hb
    obtain ⟨rest, rfl⟩ := hpart
    exact head_serialize h b (by simp [List.head?_append, Option.mem_def.mp hb])
  have htrim : trim part <+: part := by
    rw [trim, trimWith_of_head hhead]
    exact List.rdropWhile_prefix isSpace part
  obtain ⟨document, hdoc, hp, -⟩ := serialize_eq_ok h
  have hthrows : (readJson (trim part) : Exec T).Throws := by
    refine LawfulJsonReader.readJson_part hdoc (hp ▸ htrim.trans hpart) fun he => hne ?_
    exact hpart.eq_of_length_le ((hp ▸ he ▸ htrim.length_le : packet.length ≤ part.length))
  simp [not_accepts_of_throws hthrows] at ha

theorem not_accepts_rest {rest : List UInt8} (h : message.serialize = .ok (packet, sent))
    (hrest : ¬ rest.all isSpace) : accepts T (packet ++ rest) = false := by
  obtain ⟨document, hdoc, rfl, -⟩ := serialize_eq_ok h
  have hhead : ∀ b ∈ (trim document ++ rest).head?, isSpace b = false := by
    intro b hb
    rw [List.head?_append_of_ne_nil _ (LawfulJsonReader.trim_ne_nil hdoc)] at hb
    exact head_trimWith hb
  apply not_accepts_of_throws
  rw [trim, trimWith_of_head hhead, rdropWhile_append hrest]
  exact LawfulJsonReader.readJson_rest hdoc (not_all_rdropWhile hrest)

end Serialize

def Serialized (sent : List (List UInt8 × ApiMessage T)) : Prop :=
  ∀ entry ∈ sent, ∃ message : ApiMessage T, message.serialize = .ok entry

theorem serialized_of_serializeAll {messages : List (ApiMessage T)}
    {sent : List (List UInt8 × ApiMessage T)} (h : serializeAll messages = .ok sent) :
    Serialized sent := by
  induction messages generalizing sent with
  | nil =>
    obtain rfl := Except.ok.inj h
    simp [Serialized]
  | cons message messages ih =>
    rw [serializeAll, List.mapM_cons] at h
    obtain ⟨entry, hentry, h⟩ := Exec.bind_eq_ok.mp h
    obtain ⟨rest, hrest, h⟩ := Exec.bind_eq_ok.mp h
    obtain rfl := Except.ok.inj h
    intro e he
    rcases List.mem_cons.mp he with rfl | he
    · exact ⟨message, hentry⟩
    · exact ih hrest e he

end ApiMessage

end Klevret
