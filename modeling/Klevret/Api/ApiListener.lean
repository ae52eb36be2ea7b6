import Klevret.Api.ApiMessage

/-! # The listener of a component

A thread takes every chunk that it receives for a message and appends it to the
queue; the owner takes messages from the front. TCP keeps no message boundaries:
the messages queued are the first ones sent, and all of them exactly when every
chunk is one packet.
-/

namespace Klevret

open Foundation PropertyTree

def BUFFER_SIZE : ℕ := 1024 * 10

/-- What `recv` returns: −1, or the number of bytes that it put into the buffer. -/
inductive Received where
  | error
  | read (buffer : List UInt8) (fits : buffer.length ≤ BUFFER_SIZE - 1)

structure ApiListener (T : Type) where
  queue : List (ApiMessage T)
  deriving DecidableEq

namespace ApiListener

variable {T : Type} [PropertyTree T]

/-- One pass of the loop of `_thread_func`. An exception leaves the thread, and with it the
program ends. -/
def threadPass (received : Received) : EStateM Stop (ApiListener T) Unit :=
  match received with
  | .error => pure ()
  | .read packet _ =>
    if packet.length > 0 then do
      let apiMessage ← Exec.lift (ApiMessage.deserialize packet)
      modify fun listener => { listener with queue := listener.queue ++ [apiMessage] }
    else pure ()

def isThereMessages (listener : ApiListener T) : Bool := ! listener.queue.isEmpty

def getNextMessage : EStateM Stop (ApiListener T) (ApiMessage T) := do
  match (← get).queue with
  | [] => raise "Очередь пуста"
  | apiMessage :: queue =>
    set { queue : ApiListener T }
    return apiMessage

end ApiListener

/-- The thread and the owner take turns in any order. -/
inductive Turn where
  | thread (received : Received)
  | owner

/-- The listener, and the messages that its owner has taken. -/
structure Session (T : Type) where
  listener : ApiListener T
  taken : List (ApiMessage T)
  deriving DecidableEq

namespace Session

variable {T : Type} [PropertyTree T]

def init : Session T := ⟨⟨[]⟩, []⟩

/-- The messages queued so far, in their order. -/
def queued (session : Session T) : List (ApiMessage T) := session.taken ++ session.listener.queue

def turn : Turn → EStateM Stop (Session T) Unit
  | .thread received => do
    focus (← get).listener (fun listener session => { session with listener })
      (ApiListener.threadPass received)
  | .owner => do
    if (← get).listener.isThereMessages then
      let apiMessage ← focus (← get).listener (fun listener session => { session with listener })
        ApiListener.getNextMessage
      modify fun session => { session with taken := session.taken ++ [apiMessage] }

/-- The session after the turns, or at the exception that ended the thread. -/
def after (turns : List Turn) (session : Session T) : Session T :=
  (observe ((turns.forM turn).run session)).2

end Session

/-- The bytes that the thread receives in a turn, if any. -/
def Turn.chunk? : Turn → Option (List UInt8)
  | .thread (.read packet _) => if packet.length > 0 then some packet else none
  | .thread .error => none
  | .owner => none

def chunksOf (turns : List Turn) : List (List UInt8) := turns.filterMap Turn.chunk?

theorem chunksOf_cons_none {turn : Turn} {turns : List Turn} (h : turn.chunk? = none) :
    chunksOf (turn :: turns) = chunksOf turns := List.filterMap_cons_none h

theorem chunksOf_cons_some {turn : Turn} {turns : List Turn} {chunk : List UInt8}
    (h : turn.chunk? = some chunk) : chunksOf (turn :: turns) = chunk :: chunksOf turns :=
  List.filterMap_cons_some h

namespace Session

section Run

variable {T : Type} [PropertyTree T] {session : Session T} {t : Turn} {chunk : List UInt8}

theorem chunk_eq_some {turn : Turn} (h : turn.chunk? = some chunk) :
    ∃ fits, turn = .thread (.read chunk fits) ∧ chunk ≠ [] := by
  cases turn with
  | owner => simp [Turn.chunk?] at h
  | thread received =>
    cases received with
    | error => simp [Turn.chunk?] at h
    | read packet fits =>
      obtain ⟨hne, rfl⟩ : packet ≠ [] ∧ packet = chunk := by
        simpa [Turn.chunk?, List.length_pos_iff] using h
      exact ⟨fits, rfl, hne⟩

theorem run_turn_of_none (session : Session T) (h : t.chunk? = none) :
    ∃ session', (turn t).run session = .ok () session' ∧ session'.queued = session.queued := by
  cases t with
  | thread received =>
    refine ⟨session, ?_, rfl⟩
    cases received with
    | error => rfl
    | read packet fits =>
      obtain rfl : packet = [] := by simpa [Turn.chunk?] using h
      rfl
  | owner =>
    obtain ⟨⟨queue⟩, taken⟩ := session
    cases queue with
    | nil => exact ⟨⟨⟨[]⟩, taken⟩, rfl, rfl⟩
    | cons apiMessage queue =>
      exact ⟨⟨⟨queue⟩, taken ++ [apiMessage]⟩, rfl, by simp [queued]⟩

theorem run_turn_of_ok (session : Session T) {apiMessage : ApiMessage T}
    (h : t.chunk? = some chunk) (hm : ApiMessage.deserialize chunk = .ok apiMessage) :
    ∃ session', (turn t).run session = .ok () session' ∧
      session'.queued = session.queued ++ [apiMessage] := by
  obtain ⟨fits, rfl, hne⟩ := chunk_eq_some h
  have hlen := List.length_pos_iff.mpr hne
  refine ⟨⟨⟨session.listener.queue ++ [apiMessage]⟩, session.taken⟩, ?_, by simp [queued]⟩
  simp [turn, ApiListener.threadPass, hlen, hm, run_focus]

theorem run_turn_of_error {e : Stop} (h : t.chunk? = some chunk)
    (hm : (ApiMessage.deserialize chunk : Exec (ApiMessage T)) = .error e) :
    (turn t).run session = .error e session := by
  obtain ⟨fits, rfl, hne⟩ := chunk_eq_some h
  have hlen := List.length_pos_iff.mpr hne
  simp [turn, ApiListener.threadPass, hlen, hm, run_focus]

/-- The messages in the chunks before the first one that is rejected. -/
def messagesOf (T : Type) [PropertyTree T] (chunks : List (List UInt8)) : List (ApiMessage T) :=
  (chunks.takeWhile (ApiMessage.accepts T)).filterMap fun chunk =>
    (ApiMessage.deserialize chunk).toOption

theorem messagesOf_cons_ok {chunks : List (List UInt8)} {apiMessage : ApiMessage T}
    (hm : ApiMessage.deserialize chunk = .ok apiMessage) :
    messagesOf T (chunk :: chunks) = apiMessage :: messagesOf T chunks := by
  have ha : ApiMessage.accepts T chunk := by simp [ApiMessage.accepts, hm, Except.toBool]
  simp [messagesOf, List.takeWhile_cons_of_pos ha, hm, Except.toOption]

theorem messagesOf_cons_error {chunks : List (List UInt8)} {e : Stop}
    (hm : (ApiMessage.deserialize chunk : Exec (ApiMessage T)) = .error e) :
    messagesOf T (chunk :: chunks) = [] := by
  have ha : ¬ ApiMessage.accepts T chunk := by simp [ApiMessage.accepts, hm, Except.toBool]
  simp [messagesOf, List.takeWhile_cons_of_neg ha]

theorem after_cons_ok {turns : List Turn} {session' : Session T}
    (h : (turn t).run session = .ok () session') :
    after (t :: turns) session = after turns session' := by
  rw [after, run_forM_cons_ok turns h, after]

theorem after_cons_error {turns : List Turn} {session' : Session T} {e : Stop}
    (h : (turn t).run session = .error e session') : after (t :: turns) session = session' := by
  rw [after, run_forM_cons_error turns h]
  rfl

/-- In any order of turns, what is queued are the messages in the chunks. -/
theorem queued_after (turns : List Turn) (session : Session T) :
    (after turns session).queued = session.queued ++ messagesOf T (chunksOf turns) := by
  induction turns generalizing session with
  | nil => simp [after, observe, chunksOf, messagesOf, queued]
  | cons t turns ih =>
    cases ht : t.chunk? with
    | none =>
      obtain ⟨session', hrun, hq⟩ := run_turn_of_none session ht
      rw [after_cons_ok hrun, ih, hq, chunksOf_cons_none ht]
    | some chunk =>
      rw [chunksOf_cons_some ht]
      cases hm : (ApiMessage.deserialize chunk : Exec (ApiMessage T)) with
      | ok apiMessage =>
        obtain ⟨session', hrun, hq⟩ := run_turn_of_ok session ht hm
        rw [after_cons_ok hrun, ih, hq, messagesOf_cons_ok hm, List.append_assoc]
        rfl
      | error e =>
        rw [after_cons_error (run_turn_of_error ht hm), messagesOf_cons_error hm,
          List.append_nil]

end Run

section Framing

variable {T : Type} [PropertyTree T] [LawfulPropertyTree T] [LawfulJsonReader T]
  {messages : List (ApiMessage T)} {sent : List (List UInt8 × ApiMessage T)} {turns : List Turn}

theorem ne_nil_of_mem_chunksOf {chunk : List UInt8} (h : chunk ∈ chunksOf turns) : chunk ≠ [] := by
  obtain ⟨turn, -, ht⟩ := List.mem_filterMap.mp h
  obtain ⟨-, -, hne⟩ := chunk_eq_some ht
  exact hne

omit [LawfulPropertyTree T] in
theorem not_all_isSpace (hsent : ApiMessage.Serialized sent)
    {rest : List UInt8} (hrest : rest <+: (sent.map Prod.fst).flatten) (hne : rest ≠ []) :
    ¬ rest.all isSpace := by
  cases sent with
  | nil => exact absurd (List.prefix_nil.mp hrest) hne
  | cons entry sent =>
    obtain ⟨message, hm⟩ := hsent entry List.mem_cons_self
    obtain ⟨b, rest, rfl⟩ := List.exists_cons_of_ne_nil hne
    obtain ⟨tail, htail⟩ := hrest
    have hb : entry.1.head? = some b := by
      rw [← List.head?_append_of_ne_nil _ (ApiMessage.serialize_ne_nil hm),
        ← List.flatten_cons, ← List.map_cons, ← htail]
      rfl
    have hspace := ApiMessage.head_serialize hm b hb
    simp [hspace]

theorem framed (hsent : ApiMessage.Serialized sent) :
    Framed (ApiMessage.accepts T) (sent.map Prod.fst) := by
  induction sent with
  | nil => trivial
  | cons entry sent ih =>
    obtain ⟨message, hm⟩ := hsent entry List.mem_cons_self
    have htail : ApiMessage.Serialized sent := fun e he => hsent e (List.mem_cons_of_mem _ he)
    have ha : ApiMessage.accepts T entry.1 := by
      simp [ApiMessage.accepts, ApiMessage.deserialize_serialize hm, Except.toBool]
    refine ⟨⟨ha, fun part hpart => ApiMessage.eq_of_accepts_part hm hpart⟩, ?_, ih htail⟩
    intro rest hrest hr
    by_contra hne
    rw [ApiMessage.not_accepts_rest hm (not_all_isSpace htail hrest hne)] at hr
    exact Bool.noConfusion hr

theorem messagesOf_packets (hsent : ApiMessage.Serialized sent) :
    messagesOf T (sent.map Prod.fst) = sent.map Prod.snd := by
  induction sent with
  | nil => rfl
  | cons entry sent ih =>
    obtain ⟨message, hm⟩ := hsent entry List.mem_cons_self
    rw [List.map_cons, messagesOf_cons_ok (ApiMessage.deserialize_serialize hm),
      ih fun e he => hsent e (List.mem_cons_of_mem _ he), List.map_cons]

variable (hsent : ApiMessage.serializeAll messages = .ok sent)
  (hstream : (chunksOf turns).flatten = (sent.map Prod.fst).flatten)

include hsent hstream

/-- However the stream is cut, the messages queued are the first ones sent, in order. -/
theorem queued_isPrefix : ((init : Session T).after turns).queued <+: sent.map Prod.snd := by
  have hser := ApiMessage.serialized_of_serializeAll hsent
  have hprefix := (framed hser).takeWhile_isPrefix (fun _ => ne_nil_of_mem_chunksOf) hstream
  rw [queued_after, ← messagesOf_packets hser, messagesOf, messagesOf,
    (framed hser).takeWhile_packets]
  exact hprefix.filterMap _

/-- The messages queued are exactly the messages sent, each once and in order, just in case each
chunk that is received is one packet. -/
theorem delivered_iff :
    ((init : Session T).after turns).queued = sent.map Prod.snd ↔
      chunksOf turns = sent.map Prod.fst := by
  have hser := ApiMessage.serialized_of_serializeAll hsent
  have hframed := framed hser
  have hne : ∀ chunk ∈ chunksOf turns, chunk ≠ [] := fun _ => ne_nil_of_mem_chunksOf
  have hqueued : ((init : Session T).after turns).queued = messagesOf T (chunksOf turns) := by
    rw [queued_after]
    rfl
  rw [hqueued]
  constructor
  · intro h
    rw [← hframed.length_takeWhile_iff hne hstream]
    apply le_antisymm (hframed.takeWhile_isPrefix hne hstream).length_le
    calc (sent.map Prod.fst).length
        = (messagesOf T (chunksOf turns)).length := by simp [h]
      _ ≤ ((chunksOf turns).takeWhile (ApiMessage.accepts T)).length := List.length_filterMap_le _ _
  · intro h
    rw [h, messagesOf_packets hser]

end Framing

end Session

section Samples

namespace FlatTree

variable {known json : FlatTree} {document text : List UInt8}

/-- A writer that knows one document. -/
def writeOnly (known : FlatTree) (document : List UInt8) (json : FlatTree) : Exec (List UInt8) :=
  if json = known then .ok document
  else throwRuntimeError "ptree contains data that cannot be represented in JSON format"

def readOnly (known : FlatTree) (document text : List UInt8) : Exec FlatTree :=
  if text = trim document then .ok known
  else throwRuntimeError "<unspecified file>: garbage after data"

theorem writeOnly_eq_ok (h : writeOnly known document json = .ok text) :
    json = known ∧ text = document := by
  by_cases hjson : json = known
  · rw [writeOnly, if_pos hjson] at h
    exact ⟨hjson, (Except.ok.inj h).symm⟩
  · rw [writeOnly, if_neg hjson] at h
    exact absurd h Exec.throwRuntimeError_ne_ok

theorem readOnly_throws (h : text ≠ trim document) : (readOnly known document text).Throws := by
  rw [readOnly, if_neg h]
  exact ⟨_, rfl⟩

abbrev single (known : FlatTree) (document : List UInt8) : PropertyTree FlatTree :=
  propertyTree (writeOnly known document) (readOnly known document)

theorem single_lawful (hne : trim document ≠ []) :
    @LawfulJsonReader FlatTree (single known document) :=
  letI := single known document
  { trim_ne_nil := fun h => (writeOnly_eq_ok h).2 ▸ hne
    readJson_trim := fun {json text} h => by
      obtain ⟨rfl, rfl⟩ := writeOnly_eq_ok h
      exact if_pos rfl
    readJson_part := fun h _ hpart => readOnly_throws ((writeOnly_eq_ok h).2 ▸ hpart)
    readJson_rest := fun {json text rest} h hrest => by
      obtain ⟨-, rfl⟩ := writeOnly_eq_ok h
      refine readOnly_throws fun he => hrest ?_
      obtain rfl := List.append_cancel_left (he.trans (List.append_nil _).symm)
      rfl }

end FlatTree

/-- A request for the pools, as it is sent. -/
def samplePoolList : ApiMessage FlatTree :=
  ⟨literal "dhcp", ⟨[("component", literal "dhcp"), ("cmd", literal "dhcp.pool.list")]⟩⟩

def samplePoolListText : List UInt8 :=
  literal
    "\x7b\n    \"component\": \"dhcp\",\n    \"cmd\": \"dhcp.pool.list\"\n\x7d\n"

abbrev samplePoolListTree : PropertyTree FlatTree :=
  FlatTree.single samplePoolList.json samplePoolListText

theorem samplePoolListTree_lawful :
    letI := samplePoolListTree
    LawfulPropertyTree FlatTree ∧ LawfulJsonReader FlatTree :=
  ⟨FlatTree.lawful _ _, FlatTree.single_lawful (by decide +kernel)⟩

theorem serializeAll_sample :
    letI := samplePoolListTree
    ApiMessage.serializeAll [samplePoolList, samplePoolList] =
      .ok [(trim samplePoolListText, samplePoolList),
        (trim samplePoolListText, samplePoolList)] := by
  decide +kernel

/-- Two requests, received one by one. -/
def sampleApart : List Turn :=
  [.thread (.read (trim samplePoolListText) (by decide +kernel)), .owner, .thread .error,
    .thread (.read (trim samplePoolListText) (by decide +kernel))]

theorem delivered_sample :
    letI := samplePoolListTree
    (Session.init.after sampleApart).queued = [samplePoolList, samplePoolList] := by
  let tree := samplePoolListTree
  obtain ⟨_, _⟩ := samplePoolListTree_lawful
  exact (Session.delivered_iff serializeAll_sample rfl).mpr rfl

def sampleTogether : List Turn :=
  [.thread (.read (trim samplePoolListText ++ trim samplePoolListText) (by decide +kernel))]

theorem not_delivered_sample :
    letI := samplePoolListTree
    (LawfulPropertyTree FlatTree ∧ LawfulJsonReader FlatTree) ∧
      ∃ sent, ApiMessage.serializeAll [samplePoolList, samplePoolList] = .ok sent ∧
        (chunksOf sampleTogether).flatten = (sent.map Prod.fst).flatten ∧
          (Session.init.after sampleTogether).queued ≠ sent.map Prod.snd := by
  refine ⟨samplePoolListTree_lawful, _, serializeAll_sample, rfl, ?_⟩
  decide +kernel

end Samples

end Klevret
