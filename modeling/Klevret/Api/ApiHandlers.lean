import Klevret.Api.PropertyTree
import Klevret.Pool.Partition
import Klevret.Server.DhcpServer

/-! # Handlers of the requests to the DHCP server

A handler reads its arguments from the request and fills the response. The one
that creates a pool throws when an argument is missing or is no address, and
never returns for a range up to 255.255.255.255.
-/

namespace Klevret

open Foundation PropertyTree

variable [Host] {T : Type} [PropertyTree T]

/-- The constructor of a pool, which ends with this fuel if it ends at all. -/
def AddressPool.construct (startIp endIp : IPv4Address) : Exec AddressPool :=
  match AddressPool.new (2 ^ 32) startIp endIp with
  | some pool => .ok pool
  | none => .error .outOfFuel

/-- The request and the response; the result is returned with the filled response. -/
abbrev HandlerFunc (T : Type) := T → T → EStateM Stop DhcpServer (Bool × T)

def dhcpPoolCreate : HandlerFunc T := fun request response => do
  let start ← Exec.lift (PropertyTree.get request "ip_start" >>= IPv4Address.ofString)
  let «end» ← Exec.lift (PropertyTree.get request "ip_end" >>= IPv4Address.ofString)
  let pool ← Exec.lift (AddressPool.construct start «end»)
  let ((result, error), dhcpServer) := (← get).addAddressPool pool ""
  set dhcpServer
  let response := put response "status" (literal (if result then "true" else "false"))
  let response := put response "msg" (literal error)
  return (result, response)

def dhcpPoolList : HandlerFunc T := fun _ response =>
  return (false, put response "msg" (literal "blank msg"))

def apiHandlers : List (List UInt8 × HandlerFunc T) :=
  [(literal "dhcp.pool.create", dhcpPoolCreate), (literal "dhcp.pool.list", dhcpPoolList)]

/-- `api_handlers.at(cmd)` -/
def handlerOf (cmd : List UInt8) : Exec (HandlerFunc T) :=
  match apiHandlers.lookup cmd with
  | some apiHandler => .ok apiHandler
  | none => .error (.throws .outOfRange)

section Request

variable (request : T)

/-- An argument of a request that is an address. -/
def Argument (path : String) (ip : IPv4Address) : Prop :=
  ∃ text, get? request path = some text ∧ IPv4Address.ofString text = .ok ip

/-- The arguments of a pool are addresses, and the last one is not 255.255.255.255. -/
def CreatesPool : Prop :=
  ∃ start «end», Argument request "ip_start" start ∧ Argument request "ip_end" «end» ∧
    «end».toUInt32.toNat + 1 ≠ UInt32.size

/-- The command is known, and its handler returns. -/
def Handled : Prop :=
  get? request "cmd" = some (literal "dhcp.pool.list") ∨
    get? request "cmd" = some (literal "dhcp.pool.create") ∧ CreatesPool request

end Request

variable {request response : T} {path : String} {ip startIp endIp : IPv4Address}
  {server : DhcpServer}

omit [Host] in
theorem argument_iff :
    Argument request path ip ↔
      (PropertyTree.get request path >>= IPv4Address.ofString) = .ok ip := by
  rw [Exec.bind_eq_ok]
  simp only [PropertyTree.get_eq_ok]
  rfl

theorem construct_eq_ok_iff (startIp endIp : IPv4Address) :
    (∃ pool, AddressPool.construct startIp endIp = .ok pool) ↔
      endIp.toUInt32.toNat + 1 ≠ UInt32.size := by
  rw [ne_eq, ← AddressPool.new_eq_none_iff le_rfl startIp endIp, AddressPool.construct]
  cases AddressPool.new (2 ^ 32) startIp endIp with
  | none => simp
  | some pool => simp

/-- The handler returns, and a response of one level stays one. -/
def Fills (apiHandler : HandlerFunc T) (request response : T) (server : DhcpServer) : Prop :=
  ∃ result response' server', (apiHandler request response).run server =
    .ok (result, response') server' ∧ (IsFlat response → IsFlat response')

theorem fills_dhcpPoolList : Fills dhcpPoolList request response server :=
  ⟨false, _, server, rfl, fun h => .put (by decide) h⟩

theorem fills_dhcpPoolCreate (h : CreatesPool request) :
    Fills dhcpPoolCreate request response server := by
  obtain ⟨startIp, endIp, hstart, hend, hne⟩ := h
  obtain ⟨pool, hpool⟩ := (construct_eq_ok_iff startIp endIp).mpr hne
  rw [argument_iff] at hstart hend
  let added := server.addAddressPool pool ""
  let status := put response "status" (literal (if added.1.1 then "true" else "false"))
  refine ⟨added.1.1, put status "msg" (literal added.1.2), added.2, ?_, fun h => ?_⟩
  · simp only [dhcpPoolCreate, hstart, hend, hpool, EStateM.run_bind, Exec.run_lift_ok]
    rfl
  · exact .put (by decide) (.put (by decide) h)

theorem run_dhcpPoolCreate_of_not (h : ¬ CreatesPool request) :
    ∃ e, (dhcpPoolCreate request response).run server = .error e server := by
  cases hstart : PropertyTree.get request "ip_start" >>= IPv4Address.ofString with
  | error e => exact ⟨e, by simp [dhcpPoolCreate, hstart]⟩
  | ok startIp =>
    cases hend : PropertyTree.get request "ip_end" >>= IPv4Address.ofString with
    | error e => exact ⟨e, by simp [dhcpPoolCreate, hstart, hend]⟩
    | ok endIp =>
      cases hpool : AddressPool.construct startIp endIp with
      | error e => exact ⟨e, by simp [dhcpPoolCreate, hstart, hend, hpool]⟩
      | ok pool =>
        have hne := (construct_eq_ok_iff startIp endIp).mp ⟨pool, hpool⟩
        exact absurd ⟨startIp, endIp, argument_iff.mpr hstart, argument_iff.mpr hend, hne⟩ h

theorem handlerOf_create :
    handlerOf (T := T) (literal "dhcp.pool.create") = .ok dhcpPoolCreate := by
  rw [handlerOf, apiHandlers, List.lookup_cons_self]

theorem handlerOf_list : handlerOf (T := T) (literal "dhcp.pool.list") = .ok dhcpPoolList := by
  have hne : (literal "dhcp.pool.list" == literal "dhcp.pool.create") = false := by decide +kernel
  rw [handlerOf, apiHandlers, List.lookup_cons, hne]
  simp only [List.lookup_cons_self]

theorem handlerOf_of_ne {cmd : List UInt8} (hcreate : cmd ≠ literal "dhcp.pool.create")
    (hlist : cmd ≠ literal "dhcp.pool.list") :
    (handlerOf cmd : Exec (HandlerFunc T)) = .error (.throws .outOfRange) := by
  simp only [handlerOf, apiHandlers, List.lookup_cons, beq_false_of_ne hcreate,
    beq_false_of_ne hlist, List.lookup_nil]

theorem fills_of_handled (h : Handled request) :
    ∃ cmd apiHandler, get? request "cmd" = some cmd ∧ handlerOf cmd = .ok apiHandler ∧
      ∀ response server, Fills apiHandler request response server := by
  rcases h with hcmd | ⟨hcmd, hpool⟩
  · exact ⟨_, dhcpPoolList, hcmd, handlerOf_list, fun _ _ => fills_dhcpPoolList⟩
  · exact ⟨_, dhcpPoolCreate, hcmd, handlerOf_create, fun _ _ => fills_dhcpPoolCreate hpool⟩

theorem stops_of_not_handled (response : T) (server : DhcpServer) {cmd : List UInt8}
    {apiHandler : HandlerFunc T} (h : ¬ Handled request) (hcmd : get? request "cmd" = some cmd)
    (ha : handlerOf cmd = .ok apiHandler) :
    ∃ e, (apiHandler request response).run server = .error e server := by
  by_cases hcreate : cmd = literal "dhcp.pool.create"
  · obtain rfl := Except.ok.inj ((hcreate ▸ handlerOf_create).symm.trans ha)
    exact run_dhcpPoolCreate_of_not fun hpool => h (Or.inr ⟨hcreate ▸ hcmd, hpool⟩)
  · have hlist : cmd ≠ literal "dhcp.pool.list" := fun hlist => h (Or.inl (hlist ▸ hcmd))
    exact absurd ((handlerOf_of_ne hcreate hlist).symm.trans ha) (by simp)

end Klevret
