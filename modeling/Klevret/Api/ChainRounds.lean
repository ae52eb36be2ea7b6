import Klevret.Api.ChainCalls
import Klevret.Server.PoolRanges
import Klevret.Server.Upkeep

/-! # The registry of ranges

To the operator the system is a registry of ranges that answers one request
after the other. The chain implements it: the calls that return have the replies
of the registry, and a call without a reply is executed at most once.
-/

namespace Klevret

open Foundation PropertyTree

section

variable [Host]

namespace AddressPool

theorem range_of_construct {startIp endIp : IPv4Address} {pool : AddressPool}
    (h : construct startIp endIp = .ok pool) : pool.getAddressesRange = ⟨startIp, endIp⟩ := by
  unfold construct at h
  split at h
  case h_1 pool' hnew =>
    obtain rfl := Except.ok.inj h
    obtain ⟨included, -, hpool⟩ := Option.bind_eq_some_iff.mp hnew
    rw [← Option.some.inj hpool]
    rfl
  case h_2 => cases h

end AddressPool

theorem LoopStep.ranges {server server' : DhcpServer} (h : LoopStep server server') :
    server'.ranges = server.ranges := by
  obtain ⟨front, state, state', outcome, rfl, hrun, rfl⟩ := h
  have hkeep := ServerState.maintains_mainLoopPass_ranges front state rfl
  rwa [show observe ((ServerState.mainLoopPass front).run state) = (outcome, state') from hrun]
    at hkeep

section Handlers

variable {T : Type} [PropertyTree T] {request response response' : T}
  {server server' : DhcpServer} {result : Bool}

theorem dhcpPoolCreate_eq_ok
    (h : (dhcpPoolCreate request response).run server = .ok (result, response') server') :
    ∃ startIp endIp pool, Argument request "ip_start" startIp ∧ Argument request "ip_end" endIp ∧
      AddressPool.construct startIp endIp = .ok pool ∧
      ∃ error, server.addAddressPool pool "" = ((result, error), server') ∧
        response' = put (put response "status" (literal (if result then "true" else "false")))
          "msg" (literal error) := by
  cases hstart : PropertyTree.get request "ip_start" >>= IPv4Address.ofString with
  | error e => simp [dhcpPoolCreate, hstart] at h
  | ok startIp =>
    cases hend : PropertyTree.get request "ip_end" >>= IPv4Address.ofString with
    | error e => simp [dhcpPoolCreate, hstart, hend] at h
    | ok endIp =>
      cases hpool : AddressPool.construct startIp endIp with
      | error e => simp [dhcpPoolCreate, hstart, hend, hpool] at h
      | ok pool =>
        simp only [dhcpPoolCreate, hstart, hend, hpool, EStateM.run_bind, Exec.run_lift_ok] at h
        obtain ⟨hres, rfl⟩ := (EStateM.Result.ok.injEq ..).mp h
        obtain ⟨rfl, rfl⟩ := Prod.mk.inj hres
        exact ⟨startIp, endIp, pool, argument_iff.mpr hstart, argument_iff.mpr hend, hpool, _,
          rfl, rfl⟩

theorem ApiServer.server_of_replyTo_error {request : ApiMessage T} {e : Stop}
    (h : (replyTo request).run server = .error e server') :
    server' = server ∧ ¬ Handled request.json := by
  have hnot : ¬ Handled request.json := by
    intro hhandled
    obtain ⟨cmd, apiHandler, hcmd, hhandler, hfills⟩ := fills_of_handled hhandled
    obtain ⟨result, response, server'', hrun, -⟩ := hfills empty server
    simp [replyTo, PropertyTree.get_eq_ok.mpr hcmd, hhandler, hrun] at h
  refine ⟨?_, hnot⟩
  cases ha : PropertyTree.get request.json "cmd" >>= handlerOf (T := T) with
  | error e =>
    simp only [replyTo, ha, EStateM.run_bind] at h
    exact ((EStateM.Result.error.injEq ..).mp h).2.symm
  | ok apiHandler =>
    obtain ⟨cmd, hcmd, hhandler⟩ := Exec.bind_eq_ok.mp ha
    obtain ⟨e', hrun⟩ :=
      stops_of_not_handled empty server hnot (PropertyTree.get_eq_ok.mp hcmd) hhandler
    simp only [replyTo, hcmd, Exec.ok_bind, hhandler, EStateM.run_bind, Exec.run_lift_ok, hrun] at h
    exact ((EStateM.Result.error.injEq ..).mp h).2.symm

end Handlers

section Registry

variable {T : Type} [PropertyTree T]

def requestedRange (request : T) : Option IPv4AddressRange :=
  match PropertyTree.get request "ip_start" >>= IPv4Address.ofString,
      PropertyTree.get request "ip_end" >>= IPv4Address.ofString with
  | .ok startIp, .ok endIp => some ⟨startIp, endIp⟩
  | _, _ => none

/-- An end of the range lies in one of the others. -/
def IPv4AddressRange.endsIn (range : IPv4AddressRange) (ranges : List IPv4AddressRange) : Bool :=
  ranges.any fun current => current.contains range.start || current.contains range.«end»

def ApiMessage.reply (request : ApiMessage T) (cmd : List UInt8) (response : T) : ApiMessage T :=
  resent (resent { request with json := put response "cmd" cmd })

variable (T) in
def poolResponse (status : Bool) (msg : String) : T :=
  put (put empty "status" (literal (if status then "true" else "false"))) "msg" (literal msg)

/-- What the system does for the operator: a range is registered unless an end of it lies in one
that is registered. A request for the last address of all, or one that cannot be read, gets no
reply. -/
def register (ranges : List IPv4AddressRange) (request : ApiMessage T) :
    Option (ApiMessage T) × List IPv4AddressRange :=
  match get? request.json "cmd" with
  | none => (none, ranges)
  | some cmd =>
    if cmd = literal "dhcp.pool.list" then
      (some (request.reply cmd (put empty "msg" (literal "blank msg"))), ranges)
    else if cmd = literal "dhcp.pool.create" then
      match requestedRange request.json with
      | none => (none, ranges)
      | some range =>
        if range.«end».toUInt32.toNat + 1 = UInt32.size then (none, ranges)
        else if range.endsIn ranges then
          (some (request.reply cmd (poolResponse T false "Intersection of address pools")), ranges)
        else (some (request.reply cmd (poolResponse T true "")), ranges ++ [range])
    else (none, ranges)

variable {request : T} {range : IPv4AddressRange}

omit [Host] in
theorem requestedRange_eq_some : requestedRange request = some range ↔
    Argument request "ip_start" range.start ∧ Argument request "ip_end" range.«end» := by
  rw [argument_iff, argument_iff, requestedRange]
  cases PropertyTree.get request "ip_start" >>= IPv4Address.ofString with
  | error e => simp
  | ok startIp =>
    cases PropertyTree.get request "ip_end" >>= IPv4Address.ofString with
    | error e => simp
    | ok endIp =>
      constructor
      · intro h
        obtain rfl := Option.some.inj h
        exact ⟨rfl, rfl⟩
      · rintro ⟨hstart, hend⟩
        rw [Except.ok.inj hstart, Except.ok.inj hend]

theorem endsIn_ranges (server : DhcpServer) (pool : AddressPool) :
    pool.getAddressesRange.endsIn server.ranges =
      DhcpServer.intersectsSome pool.getAddressesRange server.addressPools := by
  rw [Bool.eq_iff_iff, DhcpServer.intersectsSome_iff]
  simp [IPv4AddressRange.endsIn, DhcpServer.ranges, AddressPool.getAddressesRange]

theorem createsPool_iff : CreatesPool request ↔ ∃ range, requestedRange request = some range ∧
    range.«end».toUInt32.toNat + 1 ≠ UInt32.size := by
  simp only [requestedRange_eq_some]
  constructor
  · rintro ⟨startIp, endIp, hstart, hend, hne⟩
    exact ⟨⟨startIp, endIp⟩, ⟨hstart, hend⟩, hne⟩
  · rintro ⟨range, ⟨hstart, hend⟩, hne⟩
    exact ⟨_, _, hstart, hend, hne⟩

theorem register_dhcpPoolCreate {request : ApiMessage T} {response : T}
    {server server' : DhcpServer} {result : Bool}
    (hcmd : get? request.json "cmd" = some (literal "dhcp.pool.create"))
    (h : (dhcpPoolCreate request.json empty).run server = .ok (result, response) server') :
    register server.ranges request =
      (some (request.reply (literal "dhcp.pool.create") response), server'.ranges) := by
  obtain ⟨startIp, endIp, pool, hstart, hend, hpool, error, hadd, rfl⟩ := dhcpPoolCreate_eq_ok h
  have hrange := AddressPool.range_of_construct hpool
  have hrequested : requestedRange request.json = some pool.getAddressesRange := by
    rw [hrange]
    exact requestedRange_eq_some.mpr ⟨hstart, hend⟩
  have hne : pool.getAddressesRange.«end».toUInt32.toNat + 1 ≠ UInt32.size := by
    rw [hrange]
    exact (construct_eq_ok_iff startIp endIp).mp ⟨pool, hpool⟩
  have hranges := server.ranges_addAddressPool pool ""
  have hlist : literal "dhcp.pool.create" ≠ literal "dhcp.pool.list" := by decide +kernel
  rw [hadd] at hranges
  simp only [register, hcmd, hlist, if_false, if_true, hrequested, hne, endsIn_ranges, hranges]
  unfold DhcpServer.addAddressPool at hadd
  by_cases hends : DhcpServer.intersectsSome pool.getAddressesRange server.addressPools = true
  · rw [if_pos hends] at hadd ⊢
    obtain ⟨rfl, rfl⟩ := Prod.mk.inj (Prod.mk.inj hadd).1
    exact Prod.ext rfl (List.append_nil _).symm
  · rw [if_neg hends] at hadd ⊢
    obtain ⟨rfl, rfl⟩ := Prod.mk.inj (Prod.mk.inj hadd).1
    rfl

theorem register_of_not_handled {request : ApiMessage T} (h : ¬ Handled request.json)
    (ranges : List IPv4AddressRange) : register ranges request = (none, ranges) := by
  unfold register
  cases hcmd : get? request.json "cmd" with
  | none => rfl
  | some cmd =>
    have hlist : cmd ≠ literal "dhcp.pool.list" := by
      rintro rfl
      exact h (Or.inl hcmd)
    simp only [hlist, if_false]
    split_ifs with hcreate
    · cases hrange : requestedRange request.json with
      | none => rfl
      | some range =>
        have hlast : range.«end».toUInt32.toNat + 1 = UInt32.size := by
          by_contra hne
          exact h (Or.inr ⟨hcreate ▸ hcmd, createsPool_iff.mpr ⟨range, hrange, hne⟩⟩)
        simp only [hlast, if_true]
    · rfl

/-- The server answers requests as the registry does. -/
theorem register_of_chainRespond {request : ApiMessage T} {outcome : Option (ApiMessage T)}
    {server server' : DhcpServer} (h : chainRespond server request = (outcome, server')) :
    register server.ranges request = (outcome, server'.ranges) := by
  cases hreply : (ApiServer.replyTo request).run server with
  | error e server'' =>
    have hresult : (none, server'') = (outcome, server') := by
      rw [← h, chainRespond, ApiServer.respond, hreply]
      rfl
    obtain ⟨rfl, rfl⟩ := Prod.mk.inj hresult
    obtain ⟨rfl, hnot⟩ := ApiServer.server_of_replyTo_error hreply
    exact register_of_not_handled hnot _
  | ok reply server'' =>
    have hresult : (some reply.resent.resent, server'') = (outcome, server') := by
      rw [← h, chainRespond, ApiServer.respond, hreply]
      rfl
    obtain ⟨rfl, rfl⟩ := Prod.mk.inj hresult
    obtain ⟨cmd, apiHandler, result, response, hcmd, hhandler, hrun, rfl⟩ :=
      ApiServer.replyTo_eq_ok hreply
    by_cases hcreate : cmd = literal "dhcp.pool.create"
    · subst hcreate
      obtain rfl := Except.ok.inj (handlerOf_create.symm.trans hhandler)
      exact register_dhcpPoolCreate hcmd hrun
    · have hlist : cmd = literal "dhcp.pool.list" := by
        by_contra hlist
        cases (handlerOf_of_ne hcreate hlist).symm.trans hhandler
      subst hlist
      obtain rfl := Except.ok.inj (handlerOf_list.symm.trans hhandler)
      obtain ⟨hresult, hserver⟩ := (EStateM.Result.ok.injEq ..).mp hrun
      obtain ⟨-, rfl⟩ := Prod.mk.inj hresult
      rw [← hserver]
      simp only [register, hcmd, if_true]
      rfl

variable (T) in
/-- A command line with the registry, which nobody else uses. -/
abbrev RegistryStep := CallStep (register (T := T)) fun _ _ => False

theorem implements_registryStep : Implements (DirectStep T) (RegistryStep T) id
    fun s s' => s' = (s.1, s.2.ranges) :=
  implements_view (fun h => register_of_chainRespond h) fun h => LoopStep.ranges h

end Registry

namespace Chain

variable {T : Type} [PropertyTree T] [LawfulPropertyTree T] [LawfulJsonReader T]
  [LawfulJsonWriter T] {c c' : Chain T} {ops : List (ChainOp T)}

/-- The state of a command line next to the server. -/
def Directly (c : Chain T) (s : CallStatus (ApiMessage T) (ApiMessage T) × DhcpServer) : Prop :=
  c.Tracks s.1 ∧ s.2 = c.dhcpServer

theorem implements_directStep :
    Implements ChainStep (DirectStep T) ChainOp.event Directly := by
  rintro c a c' ⟨status, server⟩ ⟨ht, rfl⟩ hstep
  obtain ⟨bs, status', hrun, hevent, ht'⟩ := ht.step hstep
  exact ⟨bs, (status', c'.dhcpServer), hrun, hevent, ht', rfl⟩

/-- A run of the chain from an idle one is a history of calls to the registry. -/
theorem exists_callHistory (hidle : c.Tracks .idle) (h : Run ChainStep c ops c') :
    ∃ status, c'.Tracks status ∧ CallHistory register c.dhcpServer.ranges
      (ops.filterMap ChainOp.event) status c'.dhcpServer.ranges := by
  have hdirectly : c.Directly (.idle, c.dhcpServer) := ⟨hidle, rfl⟩
  obtain ⟨bs, ⟨status, server⟩, hrun, hevents, ht, rfl⟩ := implements_directStep.run h hdirectly
  obtain ⟨bs', _, hrun', hevents', rfl⟩ := implements_registryStep.run hrun rfl
  have hhistory := callHistory_of_run nofun hrun'
  rw [hevents', ← List.reduceOption, hevents] at hhistory
  exact ⟨status, ht, hhistory⟩

end Chain

end

end Klevret
