import Klevret.Api.ChainReturns

/-! # A pool that the operator types

From the line on the command line to the pool of the server and back to the
reply: exactly the range that was typed is registered, or none.
-/

namespace Klevret

open Foundation PropertyTree

section

variable {T : Type} [PropertyTree T] [LawfulPropertyTree T]

variable (T) in
theorem get?_poolCreateRequest (first second : Cli.IPv4Address) :
    get? (Cli.poolCreateRequest T first second) "cmd" = some (literal "dhcp.pool.create") ∧
      get? (Cli.poolCreateRequest T first second) "ip_start" = some first.toString ∧
      get? (Cli.poolCreateRequest T first second) "ip_end" = some second.toString ∧
      get? (Cli.poolCreateRequest T first second) "component" = some (literal "dhcp") := by
  have hput {json : T} {path other : String} {value : List UInt8} (hpath : isKey path = true)
      (hother : isKey other = true) (hne : other ≠ path) :
      get? (put json path value) other = get? json other :=
    LawfulPropertyTree.get?_put_of_ne _ _ hpath hother hne
  unfold Cli.poolCreateRequest
  refine ⟨?_, ?_, ?_, LawfulPropertyTree.get?_put_self _ _ _⟩
  · rw [hput (by decide) (by decide) (by decide), hput (by decide) (by decide) (by decide),
      hput (by decide) (by decide) (by decide), LawfulPropertyTree.get?_put_self]
  · rw [hput (by decide) (by decide) (by decide), hput (by decide) (by decide) (by decide),
      LawfulPropertyTree.get?_put_self]
  · rw [hput (by decide) (by decide) (by decide), LawfulPropertyTree.get?_put_self]

theorem requestedRange_of_sendCmd [LawfulJsonReader T] {first second : Cli.IPv4Address}
    {packet : List UInt8} {request : ApiMessage T}
    (h : Cli.sendCmd (Cli.poolCreateRequest T first second) = .ok (packet, request)) :
    get? request.forwarded.json "cmd" = some (literal "dhcp.pool.create") ∧
      requestedRange request.forwarded.json = some ⟨⟨first.data⟩, ⟨second.data⟩⟩ := by
  obtain ⟨hcmd, hstart, hend, -⟩ :=
    get?_poolCreateRequest T first second
  obtain ⟨apiMessage, -, hjson, rfl, -⟩ := sendCmd_eq_ok h
  rw [← hjson] at hcmd hstart hend
  rw [requestedRange_eq_some]
  refine ⟨?_, ⟨first.toString, ?_, ?_⟩, second.toString, ?_, ?_⟩
  · rw [get?_forwarded (by simp), get?_resent (by simp), hcmd]
  · rw [get?_forwarded (by simp), get?_resent (by simp), hstart]
  · exact ofString_dottedText first.data
  · rw [get?_forwarded (by simp), get?_resent (by simp), hend]
  · exact ofString_dottedText second.data

variable [Host]

theorem register_create {request reply : ApiMessage T} {range : IPv4AddressRange}
    {ranges ranges' : List IPv4AddressRange}
    (hcmd : get? request.json "cmd" = some (literal "dhcp.pool.create"))
    (hrange : requestedRange request.json = some range)
    (h : register ranges request = (some reply, ranges')) :
    ranges' = ranges ++ (if range.endsIn ranges then [] else [range]) ∧
      get? reply.json "status" =
        some (literal (if range.endsIn ranges then "false" else "true")) := by
  have hlist : literal "dhcp.pool.create" ≠ literal "dhcp.pool.list" := by decide +kernel
  have hstatus (status : Bool) (msg : String) :
      get? (request.reply (literal "dhcp.pool.create") (poolResponse T status msg)).json "status" =
        some (literal (if status then "true" else "false")) := by
    rw [ApiMessage.reply, get?_resent (by simp), get?_resent (by simp),
      LawfulPropertyTree.get?_put_of_ne _ _ (by decide) (by decide) (by decide), poolResponse,
      LawfulPropertyTree.get?_put_of_ne _ _ (by decide) (by decide) (by decide),
      LawfulPropertyTree.get?_put_self]
  simp only [register, hcmd, hlist, if_false, if_true, hrange] at h
  split_ifs at h with hlast hends
  · cases h
  · obtain ⟨hreply, rfl⟩ := Prod.mk.inj h
    obtain rfl := Option.some.inj hreply
    exact ⟨by rw [if_pos hends, List.append_nil], by rw [if_pos hends]; exact hstatus false _⟩
  · obtain ⟨hreply, rfl⟩ := Prod.mk.inj h
    obtain rfl := Option.some.inj hreply
    exact ⟨by rw [if_neg hends], by rw [if_neg hends]; exact hstatus true _⟩

variable [LawfulJsonReader T] [LawfulJsonWriter T]

variable (T) in
/-- The range that was typed is registered, and the reply says so, unless an end of it lies in a
range that is there; then nothing is, and the reply says that. -/
theorem pool_registered {commands : List (Cli.Command Cli.CommandHandler)} {line : List UInt8}
    {stack : List Cli.CommandElementRealValue} (hcommands : Cli.allCommands = .ok commands)
    (hpress : Cli.pressEnter (Cli.createCommandTree commands) line =
      .ok (some (.cmdDhcpPoolCreate, stack))) :
    ∃ (first second : Cli.IPv4Address) (obj : T), Cli.addresses stack.reverse = [first, second] ∧
      Cli.CommandHandler.cmdDhcpPoolCreate.run stack = .ok (.sendCmd obj) ∧
      ∀ {c c' : Chain T} {packet : List UInt8} {request reply : ApiMessage T}
        {ops : List (ChainOp T)}, c.Tracks .idle → Cli.sendCmd obj = .ok (packet, request) →
        Run ChainStep c (.call request :: ops) c' → (∀ message, .call message ∉ ops) →
        .return reply ∈ ops →
        let range : IPv4AddressRange := ⟨⟨first.data⟩, ⟨second.data⟩⟩
        let refused := range.endsIn c.dhcpServer.ranges
        c'.dhcpServer.ranges = c.dhcpServer.ranges ++ (if refused then [] else [range]) ∧
          get? reply.json "status" = some (literal (if refused then "false" else "true")) := by
  obtain ⟨commands', hcommands', hentries⟩ := Cli.exists_allCommands
  obtain rfl := Except.ok.inj (hcommands'.symm.trans hcommands)
  obtain ⟨taken, path, -, hmirrors, hmem⟩ := Cli.mirrors_of_pressEnter hpress
  rw [hentries] at hmem
  obtain ⟨action, hrun, hcreate⟩ := Cli.runs_of_mirrors (T := T) hmem hmirrors
  obtain ⟨first, second, haddresses, rfl⟩ := hcreate rfl
  refine ⟨first, second, _, haddresses, hrun, ?_⟩
  intro c c' packet request reply ops hidle hsend h hcall hreturn
  obtain ⟨hcmd, hrange⟩ := requestedRange_of_sendCmd hsend
  obtain ⟨status, -, hhistory⟩ := Chain.exists_callHistory hidle h
  have hevent : (ChainOp.call request).event = some (.call request.forwarded) := rfl
  rw [List.filterMap_cons_some hevent] at hhistory
  refine register_create hcmd hrange (hhistory.single ?_ ?_)
  · intro message hmem
    obtain ⟨op, hop, he⟩ := List.mem_filterMap.mp hmem
    cases op with
    | call message' => exact hcall _ hop
    | _ => cases he
  · exact List.mem_filterMap.mpr ⟨_, hreturn, rfl⟩

end

/-- The line `dhcp pool create 10.0.0.1 10.0.0.9`, at a server without pools. -/
theorem pool_registered_sample :
    letI : Host := ⟨.little⟩
    letI := FlatTree.texts
    ∃ (c' : Chain FlatTree) (reply : ApiMessage FlatTree),
      Run ChainStep sampleChain (Chain.round sampleCall reply) c' ∧
      c'.dhcpServer.ranges = [⟨AddressPool.sampleIp 1, AddressPool.sampleIp 9⟩] ∧
      get? reply.json "status" = some (literal "true") := by
  let host : Host := ⟨.little⟩
  let tree := FlatTree.texts
  obtain ⟨_, _, _⟩ := FlatTree.texts_lawful
  obtain ⟨commands, hcommands, -⟩ := Cli.exists_allCommands
  obtain ⟨first, second, obj, haddresses, hrun, hpool⟩ :=
    pool_registered FlatTree hcommands (Cli.pressEnter_poolCreate hcommands)
  have h : [(⟨(AddressPool.sampleIp 1).data⟩ : Cli.IPv4Address), ⟨(AddressPool.sampleIp 9).data⟩] =
      [first, second] := haddresses
  obtain ⟨rfl, rfl⟩ : _ = first ∧ _ = second := by simpa using h
  obtain rfl : sampleObj = obj := by
    have h : Cli.CommandHandler.cmdDhcpPoolCreate.run Cli.poolCreateStack =
        .ok (.sendCmd sampleObj) := rfl
    exact Cli.Action.sendCmd.inj (Except.ok.inj (h.symm.trans hrun))
  obtain ⟨packet, hsend⟩ := sendCmd_sampleObj
  obtain ⟨reply, c', hround, -⟩ := exists_sampleRound
  have hcall : ∀ message, ChainOp.call message ∉ (Chain.round sampleCall reply).tail := by
    simp [Chain.round]
  have hreturn : ChainOp.return reply ∈ (Chain.round sampleCall reply).tail := by
    simp [Chain.round]
  obtain ⟨hranges, hstatus⟩ := hpool tracks_sampleChain hsend hround hcall hreturn
  exact ⟨c', reply, hround, hranges, hstatus⟩

end Klevret
