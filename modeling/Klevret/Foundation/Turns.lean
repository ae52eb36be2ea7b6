import Klevret.Foundation.Run
import Mathlib.Data.List.Basic
import Mathlib.Logic.Function.Basic

/-! # Items in turn

A service with a list of items: each client gets one in the order in which the
clients first ask, and gets it again when it asks again. Under a transaction the
service notes the item that was last offered, and confirms it to anyone.
-/

namespace Foundation

variable {χ ι α : Type*}

inductive Query (χ ι : Type*) where
  | discover (transaction : ι) (client : χ)
  | request (transaction : ι) (client : χ)

inductive Reply (χ ι α : Type*) where
  | offer (transaction : ι) (client : χ) (item : α)
  | acknowledge (transaction : ι) (client : χ) (item : α)

/-- The clients in their order, and what was offered under each transaction. -/
structure Book (χ ι α : Type*) where
  clients : List χ
  offered : ι → α

variable [DecidableEq χ]

/-- A newcomer goes to the end. -/
def enrol (clients : List χ) (client : χ) : List χ :=
  if client ∈ clients then clients else clients ++ [client]

variable [DecidableEq ι]

/-- The reply and the book after it; there is none for a newcomer when no item is left. -/
def Book.answer (items : List α) (book : Book χ ι α) : Query χ ι → Option (Reply χ ι α × Book χ ι α)
  | .discover transaction client =>
    let clients := enrol book.clients client
    items[clients.idxOf client]?.map fun item =>
      (.offer transaction client item,
        ⟨clients, Function.update book.offered transaction item⟩)
  | .request transaction client =>
    some (.acknowledge transaction client (book.offered transaction), book)

/-- The service with its replies so far. -/
def Serves (items : List α) (s : Book χ ι α × List (Reply χ ι α)) (query : Query χ ι)
    (t : Book χ ι α × List (Reply χ ι α)) : Prop :=
  ∃ reply book, s.1.answer items query = some (reply, book) ∧ t = (book, s.2 ++ [reply])

end Foundation
