import Klevret.Foundation.Refinement

/-! # Remote calls

A caller sends a request to a server and waits for the reply; the request is
executed in one step. Requests and replies may be lost, and then the caller waits
for ever. Whatever happens, the calls that return are executed one after the
other in their order, each once, and the last call is executed at most once.
-/

namespace Foundation

variable {σ τ ρ μ : Type*}

/-- Where a call is. The caller of a lost call hears nothing; the request may still arrive. -/
inductive CallStatus (ρ μ : Type*) where
  | idle
  | called (request : ρ)
  | answered (request : ρ) (reply : μ)
  | lost (request : Option ρ)

inductive CallEvent (ρ μ : Type*) where
  | call (request : ρ)
  | execute (request : ρ)
  | return (reply : μ)

/-- One caller and one server, whose state others may change as well. -/
inductive CallStep (respond : σ → ρ → Option μ × σ) (serves : σ → σ → Prop) :
    CallStatus ρ μ × σ → Option (CallEvent ρ μ) → CallStatus ρ μ × σ → Prop
  | call (request : ρ) (s : σ) :
      CallStep respond serves (.idle, s) (some (.call request)) (.called request, s)
  | execute {request : ρ} {s t : σ} {reply : μ} : respond s request = (some reply, t) →
      CallStep respond serves (.called request, s) (some (.execute request))
        (.answered request reply, t)
  | executeUnanswered {request : ρ} {s t : σ} : respond s request = (none, t) →
      CallStep respond serves (.called request, s) (some (.execute request)) (.lost none, t)
  | executeLost {request : ρ} {s t : σ} {outcome : Option μ} : respond s request = (outcome, t) →
      CallStep respond serves (.lost (some request), s) (some (.execute request)) (.lost none, t)
  | abandon (request : ρ) (s : σ) :
      CallStep respond serves (.called request, s) none (.lost (some request), s)
  | loseRequest (request : ρ) (s : σ) :
      CallStep respond serves (.called request, s) none (.lost none, s)
  | loseLate (request : ρ) (s : σ) :
      CallStep respond serves (.lost (some request), s) none (.lost none, s)
  | loseReply (request : ρ) (reply : μ) (s : σ) :
      CallStep respond serves (.answered request reply, s) none (.lost none, s)
  | return (request : ρ) (reply : μ) (s : σ) :
      CallStep respond serves (.answered request reply, s) (some (.return reply)) (.idle, s)
  | serve (status : CallStatus ρ μ) {s t : σ} : serves s t →
      CallStep respond serves (status, s) none (status, t)

/-- A call that has come to its end. -/
def roundEvents (round : ρ × μ) : List (CallEvent ρ μ) :=
  [.call round.1, .execute round.1, .return round.2]

/-- A call on the server itself. -/
def Executes (respond : σ → ρ → Option μ × σ) (s : σ) (round : ρ × μ) (t : σ) : Prop :=
  respond s round.1 = (some round.2, t)

/-- The call that is under way: its events, and the server before and after them. -/
inductive Pending (respond : σ → ρ → Option μ × σ) :
    σ → CallStatus ρ μ → List (CallEvent ρ μ) → σ → Prop
  | idle (s : σ) : Pending respond s .idle [] s
  | called (request : ρ) (s : σ) : Pending respond s (.called request) [.call request] s
  | answered {request : ρ} {reply : μ} {s t : σ} : respond s request = (some reply, t) →
      Pending respond s (.answered request reply) [.call request, .execute request] t
  | late (request : ρ) (s : σ) : Pending respond s (.lost (some request)) [.call request] s
  | missed (request : ρ) (s : σ) : Pending respond s (.lost none) [.call request] s
  | unheard {request : ρ} {outcome : Option μ} {s t : σ} : respond s request = (outcome, t) →
      Pending respond s (.lost none) [.call request, .execute request] t

variable {respond : σ → ρ → Option μ × σ} {serves : σ → σ → Prop}

/-- Calls that have come to their end, executed one after the other, and the one under way. -/
def CallHistory (respond : σ → ρ → Option μ × σ) (s : σ) (events : List (CallEvent ρ μ))
    (status : CallStatus ρ μ) (t : σ) : Prop :=
  ∃ (rounds : List (ρ × μ)) (u : σ) (pending : List (CallEvent ρ μ)),
    events = rounds.flatMap roundEvents ++ pending ∧ Run (Executes respond) s rounds u ∧
      Pending respond u status pending t

theorem CallHistory.step {s t t' : σ} {events : List (CallEvent ρ μ)}
    {status status' : CallStatus ρ μ} {event : Option (CallEvent ρ μ)}
    (hserves : ∀ s t, serves s t → t = s) (h : CallHistory respond s events status t)
    (hstep : CallStep respond serves (status, t) event (status', t')) :
    CallHistory respond s (events ++ event.toList) status' t' := by
  obtain ⟨rounds, u, pending, rfl, hrounds, hpending⟩ := h
  cases hstep with
  | call request =>
    cases hpending
    exact ⟨rounds, _, _, by simp, hrounds, .called request _⟩
  | execute hreply =>
    cases hpending
    exact ⟨rounds, _, _, by simp, hrounds, .answered hreply⟩
  | executeUnanswered hreply =>
    cases hpending
    exact ⟨rounds, _, _, by simp, hrounds, .unheard hreply⟩
  | executeLost hreply =>
    cases hpending
    exact ⟨rounds, _, _, by simp, hrounds, .unheard hreply⟩
  | abandon request =>
    cases hpending
    exact ⟨rounds, _, _, by simp, hrounds, .late request _⟩
  | loseRequest request =>
    cases hpending
    exact ⟨rounds, _, _, by simp, hrounds, .missed request _⟩
  | loseLate request =>
    cases hpending
    exact ⟨rounds, _, _, by simp, hrounds, .missed request _⟩
  | loseReply request reply =>
    cases hpending with
    | answered hreply => exact ⟨rounds, _, _, by simp, hrounds, .unheard hreply⟩
  | «return» request reply =>
    cases hpending with
    | answered hreply =>
      refine ⟨rounds ++ [(request, reply)], _, [], by simp [roundEvents], ?_, .idle _⟩
      exact hrounds.snoc hreply
  | serve _ hst =>
    obtain rfl := hserves _ _ hst
    exact ⟨rounds, _, _, by simp, hrounds, hpending⟩

theorem CallHistory.single {s t : σ} {request : ρ} {reply : μ} {events : List (CallEvent ρ μ)}
    {status : CallStatus ρ μ} (h : CallHistory respond s (.call request :: events) status t)
    (hcall : ∀ r, .call r ∉ events) (hreturn : .return reply ∈ events) :
    respond s request = (some reply, t) := by
  obtain ⟨rounds, u, pending, hevents, hrounds, hpending⟩ := h
  cases rounds with
  | nil => cases hpending <;> simp_all
  | cons round rounds =>
    obtain ⟨rfl, rfl⟩ : request = round.1 ∧ events =
        .execute round.1 :: .return round.2 :: (rounds.flatMap roundEvents ++ pending) := by
      simpa [roundEvents] using hevents
    cases rounds with
    | cons round' rounds => exact absurd (by simp [roundEvents]) (hcall round'.1)
    | nil =>
      obtain rfl : reply = round.2 := by cases hpending <;> simp_all
      cases hrounds with
      | cons hround hnil =>
        cases hnil
        cases hpending with
        | idle _ => exact hround
        | called request _ => exact absurd (by simp) (hcall request)
        | @answered request _ _ _ _ => exact absurd (by simp) (hcall request)
        | late request _ => exact absurd (by simp) (hcall request)
        | missed request _ => exact absurd (by simp) (hcall request)
        | @unheard request _ _ _ _ => exact absurd (by simp) (hcall request)

/-- Every run from an idle caller, whom nobody else disturbs, is a history of calls. -/
theorem callHistory_of_run {s : σ} {as : List (Option (CallEvent ρ μ))} {t : CallStatus ρ μ × σ}
    (hserves : ∀ s t, serves s t → t = s) (h : Run (CallStep respond serves) (.idle, s) as t) :
    CallHistory respond s as.reduceOption t.1 t.2 := by
  refine h.history (I := fun as t => CallHistory respond s as.reduceOption t.1 t.2) ?_
    ⟨[], s, [], rfl, .nil s, .idle s⟩
  rintro as ⟨status, t⟩ a ⟨status', u⟩ ht hstep
  rw [List.reduceOption_append]
  cases a with
  | none => exact ht.step hserves hstep
  | some event => exact ht.step hserves hstep

theorem implements_view {respond' : τ → ρ → Option μ × τ} {serves' : τ → τ → Prop} {view : σ → τ}
    (hrespond : ∀ {s request outcome t}, respond s request = (outcome, t) →
      respond' (view s) request = (outcome, view t))
    (hserves : ∀ {s t}, serves s t → view t = view s) :
    Implements (CallStep respond serves) (CallStep respond' serves') id
      fun s s' => s' = (s.1, view s.2) := by
  have hone : ∀ {s' : CallStatus ρ μ × τ} {event t'}, CallStep respond' serves' s' event t' →
      ∃ bs t'', Run (CallStep respond' serves') s' bs t'' ∧
        bs.reduceOption = (id event).toList ∧ t'' = t' := by
    intro s' event t' h
    refine ⟨[event], t', .single h, ?_, rfl⟩
    cases event <;> rfl
  rintro s event t s' rfl hstep
  cases hstep with
  | call request => exact hone (.call request _)
  | execute h => exact hone (.execute (hrespond h))
  | executeUnanswered h => exact hone (.executeUnanswered (hrespond h))
  | executeLost h => exact hone (.executeLost (hrespond h))
  | abandon request => exact hone (.abandon request _)
  | loseRequest request => exact hone (.loseRequest request _)
  | loseLate request => exact hone (.loseLate request _)
  | loseReply request reply => exact hone (.loseReply request reply _)
  | «return» request reply => exact hone (.return request reply _)
  | serve status h => exact ⟨[], _, .nil _, rfl, Prod.ext rfl (hserves h).symm⟩

/-- A call that the server never answers does not return, and it is the last one. -/
theorem unanswered_of_run {request : ρ} {s : σ} {as : List (Option (CallEvent ρ μ))}
    {t : CallStatus ρ μ × σ} (hnone : ∀ s, (respond s request).1 = none)
    (h : Run (CallStep respond serves) (.called request, s) as t) :
    ∀ a ∈ as, (∀ request', a ≠ some (.call request')) ∧ ∀ reply, a ≠ some (.return reply) := by
  let I (t : CallStatus ρ μ × σ) : Prop := t.1 = .called request ∨ ∃ r, t.1 = .lost r
  have hstep : ∀ (s : CallStatus ρ μ × σ) a t, I s → CallStep respond serves s a t →
      I t ∧ (∀ request', a ≠ some (.call request')) ∧ ∀ reply, a ≠ some (.return reply) := by
    rintro s a t hs hstep
    cases hstep with
    | call _ => exact hs.elim nofun nofun
    | @execute request' s t reply hreply =>
      rcases hs with hs | ⟨r, hs⟩
      · obtain rfl := CallStatus.called.inj hs
        have hsome := hnone s
        rw [hreply] at hsome
        cases hsome
      · cases hs
    | loseReply _ _ => exact hs.elim nofun nofun
    | «return» _ _ => exact hs.elim nofun nofun
    | serve _ _ => exact ⟨hs, nofun, nofun⟩
    | _ => exact ⟨Or.inr ⟨_, rfl⟩, nofun, nofun⟩
  have hI : ∀ as (t : CallStatus ρ μ × σ) a u, (I t ∧ ∀ a ∈ as,
      (∀ request', a ≠ some (.call request')) ∧ ∀ reply, a ≠ some (.return reply)) →
      CallStep respond serves t a u → I u ∧ ∀ b ∈ as ++ [a],
        (∀ request', b ≠ some (.call request')) ∧ ∀ reply, b ≠ some (.return reply) := by
    rintro as t a u ⟨ht, has⟩ hst
    obtain ⟨hu, ha⟩ := hstep t a u ht hst
    refine ⟨hu, fun b hb => ?_⟩
    rcases List.mem_append.mp hb with hb | hb
    · exact has b hb
    · obtain rfl := List.mem_singleton.mp hb
      exact ha
  exact (h.history hI ⟨Or.inl rfl, by simp⟩).2

end Foundation
