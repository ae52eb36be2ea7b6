import Klevret.Network.SubnetMask
import Klevret.Server.Delivery
import Klevret.Server.UdpSender
import Mathlib.Data.List.ReduceOption

/-! # The interfaces of the host

`get_all_interfaces` asks the operating system, which is a parameter here, for
the addresses of each interface. On the way to the destination of a reply the
bytes of a broadcast address become a text, an address and a text again, and
arrive as they were.
-/

namespace Klevret

open Foundation

abbrev AF_INET : ℕ := 2

/-- The bytes of the address are those behind the port, whatever the family. -/
structure SockAddr where
  saFamily : ℕ
  sinAddr : Bytes 4

/-- A node of the list of `getifaddrs`, whose pointers may be null. -/
structure IfAddrs where
  ifaName : List UInt8
  ifaAddr : Option SockAddr
  ifaNetmask : Option SockAddr

/-- What the operating system answers, by the name of an interface; `none` is a failure. -/
structure OperatingSystem where
  getifaddrs : Option (List IfAddrs)
  ifrIfindex : List UInt8 → Option ℤ
  ifruHwaddr : List UInt8 → Option (Bytes 14)
  ifruMtu : List UInt8 → Option ℤ
  ifruBroadaddr : List UInt8 → Option (Bytes 14)

/-- All constructors are private. -/
inductive IPv6SubnetMask

/-- `subnet_mask_t` -/
abbrev SubnetMask := IPv4SubnetMask ⊕ IPv6SubnetMask

inductive L3AddressType where
  | ipv4
  | ipv6

/-- All fields of a network interface. -/
structure HostInterface extends SendingInterface where
  name : List UInt8
  subnetMask : SubnetMask
  type : L3AddressType
  mtu : ℤ

/-- A request that fails is an exception. -/
def ioctl {α : Type} (answer : Option α) (what : String) : Exec α :=
  match answer with
  | some a => .ok a
  | none => throwRuntimeError what

@[simp] theorem ioctl_eq_ok {α : Type} {answer : Option α} {what : String} {a : α} :
    ioctl answer what = .ok a ↔ answer = some a := by
  cases answer <;> simp [ioctl]

/-- The four bytes behind the port, as a text. -/
def broadcastText (saData : Bytes 14) : List UInt8 := dottedText ((saData.toList.drop 2).take 4)

section

variable [Host] (system : OperatingSystem)

/-- What memory holds of an address in network order, as the `uint32_t` of the host. -/
def loadNetwork (sinAddr : Bytes 4) : UInt32 :=
  .ofBitVec (networkToHostEndianValue (w := 4) (Host.native.bitCast sinAddr))

def linuxIfNametoindex (ifname : List UInt8) : Exec ℤ :=
  ioctl (system.ifrIfindex ifname) "Не удалось получить индекс сетевого интерфейса"

/-- The branch of `AF_INET`. -/
def readInterface (currentIface : IfAddrs) (linuxInterfaceIndex : ℤ) (ifaAddr : SockAddr) :
    Exec HostInterface := do
  let ifaNetmask ← Exec.pointee currentIface.ifaNetmask
  let hwaddr ← ioctl (system.ifruHwaddr currentIface.ifaName)
    "ошибка получения информации ioctl(fd, SIOCGIFHWADDR, &ifr) get_all_interfaces()"
  let macData := hwaddr.toList.take MAC_ADDRESS_LENGTH
  let macAddress ← MacAddress.fromBigEndianBytes macData 0 macData.length
  let mtu ← ioctl (system.ifruMtu currentIface.ifaName)
    "ошибка получения информации ioctl(fd, SIOCGIFHWADDR, &ifr) get_all_interfaces()"
  let broadaddr ← ioctl (system.ifruBroadaddr currentIface.ifaName)
    "Не удалось получить широковещательный IP адрес"
  let broadcastAddress ← IPv4Address.ofString (broadcastText broadaddr)
  return {
    linuxInterfaceIndex
    broadcastAddress := .inl broadcastAddress
    networkAddress := .inl (.ofUInt32 (loadNetwork ifaAddr.sinAddr))
    macAddress
    name := currentIface.ifaName
    subnetMask := .inl (.ofUInt32 (loadNetwork ifaNetmask.sinAddr))
    type := .ipv4
    mtu }

/-- One pass of the loop: the interface that is pushed back, if any. -/
def readEntry (currentIface : IfAddrs) : Exec (Option HostInterface) := do
  let linuxInterfaceIndex ← linuxIfNametoindex system currentIface.ifaName
  match currentIface.ifaAddr with
  | some ifaAddr =>
    if ifaAddr.saFamily = AF_INET then
      some <$> readInterface system currentIface linuxInterfaceIndex ifaAddr
    else return none
  -- without an address the family is read all the same, to compare it with `AF_INET6`
  | none => .error .undefined

def getAllInterfaces : Exec (List HostInterface) := do
  match system.getifaddrs with
  | some entries => return (← entries.mapM (readEntry system)).reduceOption
  | none => throwRuntimeError "Не удалось получить сетевые интерфейсы Linux"

def DhcpServer.new : Exec DhcpServer := do
  let interfaces ← getAllInterfaces system
  return {
    networkInterfaces := interfaces.map (·.toNetworkInterface)
    addressPools := [] }

end

def IfAddrs.isInet (entry : IfAddrs) : Bool :=
  entry.ifaAddr.any fun ifaAddr => ifaAddr.saFamily = AF_INET

/-- The system answers for an entry with the values of the interface. -/
structure OperatingSystem.Reports (system : OperatingSystem) (entry : IfAddrs)
    (iface : HostInterface) : Prop where
  name : entry.ifaName = iface.name
  type : iface.type = .ipv4
  index : system.ifrIfindex entry.ifaName = some iface.linuxInterfaceIndex
  address : ∃ ifaAddr, entry.ifaAddr = some ifaAddr ∧ ifaAddr.saFamily = AF_INET ∧
    iface.networkAddress = .inl ⟨ifaAddr.sinAddr⟩
  netmask : ∃ ifaNetmask, entry.ifaNetmask = some ifaNetmask ∧
    iface.subnetMask = .inl ⟨ifaNetmask.sinAddr⟩
  hwaddr : ∃ saData, system.ifruHwaddr entry.ifaName = some saData ∧
    iface.macAddress = ⟨.pad (saData.toList.take 6)⟩
  mtu : system.ifruMtu entry.ifaName = some iface.mtu
  broadaddr : ∃ saData, system.ifruBroadaddr entry.ifaName = some saData ∧
    iface.broadcastAddress = .inl ⟨.pad ((saData.toList.drop 2).take 4)⟩

section

variable [Host] {system : OperatingSystem} {entry : IfAddrs} {iface : HostInterface}
  {index : ℤ} {ifaAddr : SockAddr}

theorem ofUInt32_loadNetwork (sinAddr : Bytes 4) :
    IPv4Address.ofUInt32 (loadNetwork sinAddr) = ⟨sinAddr⟩ :=
  congrArg IPv4Address.mk (hostToNetworkEndianArray_networkArrayToHostEndian sinAddr)

theorem mask_ofUInt32_loadNetwork (sinAddr : Bytes 4) :
    IPv4SubnetMask.ofUInt32 (loadNetwork sinAddr) = ⟨sinAddr⟩ :=
  congrArg IPv4SubnetMask.mk (hostToNetworkEndianArray_networkArrayToHostEndian sinAddr)

omit [Host] in
theorem macOfHwaddr_eq (hwaddr : Bytes 14) :
    MacAddress.fromBigEndianBytes (hwaddr.toList.take 6) 0 (hwaddr.toList.take 6).length =
      .ok ⟨.pad (hwaddr.toList.take 6)⟩ := by
  have hlength : (hwaddr.toList.take 6).length = 6 := by simp
  have hfits : 0 + MAC_ADDRESS_LENGTH ≤ 6 := le_rfl
  have hslice := slice_toList (Bytes.pad (hwaddr.toList.take 6) : Bytes 6)
  rw [Bytes.toList_pad hlength] at hslice
  rw [MacAddress.fromBigEndianBytes, hlength, fillOctets_eq_slice hfits, hslice]
  rfl

omit [Host] in
theorem length_broadaddr (broadaddr : Bytes 14) :
    ((broadaddr.toList.drop 2).take 4).length = 4 := by
  simp

omit [Host] in
theorem ofString_broadcastText (broadaddr : Bytes 14) :
    IPv4Address.ofString (broadcastText broadaddr) =
      .ok ⟨.pad ((broadaddr.toList.drop 2).take 4)⟩ := by
  rw [← ofString_dottedText, Bytes.toList_pad (length_broadaddr broadaddr)]
  rfl

theorem readInterface_eq_ok : readInterface system entry index ifaAddr = .ok iface ↔
    ∃ ifaNetmask hwaddr mtu broadaddr, entry.ifaNetmask = some ifaNetmask ∧
      system.ifruHwaddr entry.ifaName = some hwaddr ∧ system.ifruMtu entry.ifaName = some mtu ∧
      system.ifruBroadaddr entry.ifaName = some broadaddr ∧
      iface = {
        linuxInterfaceIndex := index
        broadcastAddress := .inl ⟨.pad ((broadaddr.toList.drop 2).take 4)⟩
        networkAddress := .inl ⟨ifaAddr.sinAddr⟩
        macAddress := ⟨.pad (hwaddr.toList.take 6)⟩
        name := entry.ifaName
        subnetMask := .inl ⟨ifaNetmask.sinAddr⟩
        type := .ipv4
        mtu } := by
  simp only [readInterface, macOfHwaddr_eq, ofString_broadcastText, ofUInt32_loadNetwork,
    mask_ofUInt32_loadNetwork, Exec.bind_eq_ok, Exec.pointee_eq_ok, ioctl_eq_ok,
    Except.ok.injEq, exists_eq_left', Exec.pure_eq_ok]
  constructor
  · rintro ⟨ifaNetmask, hnetmask, hwaddr, hhwaddr, mtu, hmtu, broadaddr, hbroadaddr, rfl⟩
    exact ⟨ifaNetmask, hwaddr, mtu, broadaddr, hnetmask, hhwaddr, hmtu, hbroadaddr, rfl⟩
  · rintro ⟨ifaNetmask, hwaddr, mtu, broadaddr, hnetmask, hhwaddr, hmtu, hbroadaddr, rfl⟩
    exact ⟨ifaNetmask, hnetmask, hwaddr, hhwaddr, mtu, hmtu, broadaddr, hbroadaddr, rfl⟩

theorem readEntry_eq_some : readEntry system entry = .ok (some iface) ↔
    system.Reports entry iface := by
  constructor
  · intro h
    obtain ⟨index, hindex, h⟩ := Exec.bind_eq_ok.mp h
    cases haddr : entry.ifaAddr with
    | none => simp [haddr] at h
    | some ifaAddr =>
      simp only [haddr] at h
      split_ifs at h with hfamily
      · obtain ⟨iface', hread, he⟩ := Exec.map_eq_ok.mp h
        obtain rfl := Option.some.inj he
        obtain ⟨ifaNetmask, hwaddr, mtu, broadaddr, hnetmask, hhwaddr, hmtu, hbroadaddr, rfl⟩ :=
          readInterface_eq_ok.mp hread
        exact {
          name := rfl
          type := rfl
          index := ioctl_eq_ok.mp hindex
          address := ⟨ifaAddr, haddr, hfamily, rfl⟩
          netmask := ⟨ifaNetmask, hnetmask, rfl⟩
          hwaddr := ⟨hwaddr, hhwaddr, rfl⟩
          mtu := hmtu
          broadaddr := ⟨broadaddr, hbroadaddr, rfl⟩ }
      · cases h
  · intro h
    obtain ⟨ifaAddr, haddr, hfamily, haddress⟩ := h.address
    obtain ⟨ifaNetmask, hnetmask, hmask⟩ := h.netmask
    obtain ⟨hwaddr, hhwaddr, hmac⟩ := h.hwaddr
    obtain ⟨broadaddr, hbroadaddr, hbroadcast⟩ := h.broadaddr
    have hread : readInterface system entry iface.linuxInterfaceIndex ifaAddr = .ok iface := by
      refine readInterface_eq_ok.mpr
        ⟨ifaNetmask, hwaddr, iface.mtu, broadaddr, hnetmask, hhwaddr, h.mtu, hbroadaddr, ?_⟩
      rw [← haddress, ← hbroadcast, ← hmac, ← hmask, h.name, ← h.type]
    have hindex : linuxIfNametoindex system entry.ifaName = .ok iface.linuxInterfaceIndex :=
      ioctl_eq_ok.mpr h.index
    rw [readEntry, hindex, Exec.ok_bind, haddr]
    simp [hfamily, hread]

theorem readEntry_eq_none : readEntry system entry = .ok none ↔
    (∃ index, system.ifrIfindex entry.ifaName = some index) ∧
      ∃ ifaAddr, entry.ifaAddr = some ifaAddr ∧ ifaAddr.saFamily ≠ AF_INET := by
  rw [readEntry, Exec.bind_eq_ok]
  simp only [linuxIfNametoindex, ioctl_eq_ok]
  cases haddr : entry.ifaAddr with
  | none => simp
  | some ifaAddr =>
    by_cases hfamily : ifaAddr.saFamily = AF_INET
    · simp [hfamily]
    · simp [hfamily]

omit [Host] in
theorem OperatingSystem.Reports.isInet (h : system.Reports entry iface) : entry.isInet = true := by
  obtain ⟨ifaAddr, haddr, hfamily, -⟩ := h.address
  simp [IfAddrs.isInet, haddr, hfamily]

/-- The first interface with an index is the first entry that has an IPv4 address and this index. -/
theorem exists_entry {entries : List IfAddrs} {results : List (Option HostInterface)}
    {interface : NetworkInterface} (h : entries.mapM (readEntry system) = .ok results)
    (hfind : (results.reduceOption.map (·.toNetworkInterface)).find?
      (fun iface => iface.linuxInterfaceIndex = index) = some interface) :
    ∃ entry iface, entries.find? (fun entry =>
        entry.isInet && decide (system.ifrIfindex entry.ifaName = some index)) = some entry ∧
      system.Reports entry iface ∧ iface.toNetworkInterface = interface := by
  induction entries generalizing results with
  | nil =>
    obtain rfl : [] = results := by simpa using h
    cases hfind
  | cons entry entries ih =>
    rw [List.mapM_cons] at h
    obtain ⟨result, hentry, h⟩ := Exec.bind_eq_ok.mp h
    obtain ⟨results', hresults, h⟩ := Exec.bind_eq_ok.mp h
    obtain rfl := Except.ok.inj h
    cases result with
    | none =>
      obtain ⟨-, ifaAddr, haddr, hfamily⟩ := readEntry_eq_none.mp hentry
      have hskip : entry.isInet = false := by simp [IfAddrs.isInet, haddr, hfamily]
      rw [List.reduceOption_cons_of_none] at hfind
      rw [List.find?_cons_of_neg (by simp [hskip])]
      exact ih hresults hfind
    | some iface =>
      have hreports := readEntry_eq_some.mp hentry
      rw [List.reduceOption_cons_of_some, List.map_cons] at hfind
      by_cases hindex : iface.linuxInterfaceIndex = index
      · rw [List.find?_cons_of_pos (by simp [hindex])] at hfind
        rw [List.find?_cons_of_pos (by simp [hreports.isInet, hreports.index, hindex])]
        exact ⟨entry, iface, rfl, hreports, Option.some.inj hfind⟩
      · rw [List.find?_cons_of_neg (by simp [hindex])] at hfind
        rw [List.find?_cons_of_neg (by simp [hreports.index, hindex])]
        exact ih hresults hfind

/-- The reply goes to the broadcast address of the interface on which the datagram came in. -/
def Broadcast.SentBack (broadcast : Broadcast) (interfaces : List NetworkInterface)
    (packet : UdpPacketWithInfo) : Prop :=
  ∃ interface, interfaces.find? (fun iface => iface.linuxInterfaceIndex = packet.interfaceIndex) =
    some interface ∧ interface.broadcastAddress = .inl broadcast.dstBroadcastIp

namespace ServerState

variable {state state' : ServerState} {ops : List ServerOp} {broadcast : Broadcast}

theorem maintains_sentBack (before : List Broadcast) (interfaces : List NetworkInterface)
    (packet : UdpPacketWithInfo) :
    Maintains (fun state : ServerState => state.networkInterfaces = interfaces ∧
        ∀ broadcast ∈ state.sent, broadcast ∈ before ∨ broadcast.SentBack interfaces packet)
      (mainLoopPass (some packet)) := by
  refine maintains_mainLoopPass (maintains_takeAddress fun _ _ hstate => hstate)
    (fun _ _ hstate => hstate) ?_
  intro packet' hfront reply interface _ hreceives
  obtain rfl := Option.some.inj hfront
  obtain ⟨received, ⟨hinterfaces, -⟩, hfind⟩ := hreceives
  apply maintains_broadcastSendTo
  intro state data dst _ hdst hstate
  refine ⟨hstate.1, fun broadcast hmem => ?_⟩
  rcases List.mem_append.mp hmem with hmem | hmem
  · exact hstate.2 broadcast hmem
  · obtain rfl := List.mem_singleton.mp hmem
    exact Or.inr ⟨interface, hinterfaces ▸ hfind, hdst⟩

theorem ServerStep.networkInterfaces {op : ServerOp} (h : ServerStep state op state') :
    state'.networkInterfaces = state.networkInterfaces := by
  cases op with
  | pass front =>
    rcases h.pass_cases with rfl | ⟨packet, message, -, -, -, hhandled⟩
    · rfl
    · cases hhandled <;> rfl
  | addAddressPool pool error =>
    obtain ⟨-, rfl | rfl⟩ := h.add_cases <;> rfl

theorem ServerStep.sentBack {op : ServerOp} (h : ServerStep state op state')
    (hmem : broadcast ∈ state'.sent) : broadcast ∈ state.sent ∨
      ∃ packet messageType, op = .pass (some packet) ∧ broadcast.Answers messageType packet ∧
        broadcast.SentBack state.networkInterfaces packet := by
  rcases h.answers hmem with hbefore | ⟨packet, messageType, rfl, ha⟩
  · exact Or.inl hbefore
  · have hkeep := (maintains_sentBack state.sent state.networkInterfaces packet).of_run
      ⟨rfl, fun _ hmem => Or.inl hmem⟩ (observe_eq_ok.mp h.perform_eq)
    rcases hkeep.2 broadcast hmem with hbefore | hback
    · exact Or.inl hbefore
    · exact Or.inr ⟨packet, messageType, rfl, ha, hback⟩

theorem sentBack_of_run (h : Run ServerStep state ops state') (hmem : broadcast ∈ state'.sent) :
    broadcast ∈ state.sent ∨ ∃ packet messageType, ServerOp.pass (some packet) ∈ ops ∧
      broadcast.Answers messageType packet ∧
      broadcast.SentBack state.networkInterfaces packet := by
  induction h with
  | nil => exact Or.inl hmem
  | cons hstep _ ih =>
    rcases ih hmem with hmem | ⟨packet, messageType, hop, ha, hback⟩
    · rcases hstep.sentBack hmem with hmem | ⟨packet, messageType, rfl, ha, hback⟩
      · exact Or.inl hmem
      · exact Or.inr ⟨packet, messageType, List.mem_cons_self, ha, hback⟩
    · rw [hstep.networkInterfaces] at hback
      exact Or.inr ⟨packet, messageType, List.mem_cons_of_mem _ hop, ha, hback⟩

end ServerState

omit [Host] in
theorem inetAddr_dottedText (octets : Bytes 4) : inetAddr (dottedText octets.toList) = octets := by
  have hdigits : ∀ run ∈ octets.toList.map (fun octet => decimalText octet.toNat), 46 ∉ run := by
    simp only [List.forall_mem_map]
    exact fun octet _ hdot => absurd (isDigit_of_mem_decimalText hdot) (by decide)
  have hne : octets.toList.map (fun octet => decimalText octet.toNat) ≠ [] := by
    intro hnil
    have hlength := congrArg List.length hnil
    simp at hlength
  rw [inetAddr, dottedText, List.splitOn_intercalate 46 hdigits hne, List.map_map]
  simp [Function.comp_def, Bytes.pad_toList]

/-- Every reply of a server that was just constructed goes to the broadcast address, byte for byte,
that the system reports for the first entry with the interface of the request. -/
theorem replies_return {server : DhcpServer} {state : ServerState} {ops : List ServerOp}
    (hnew : DhcpServer.new system = .ok server)
    (h : Run ServerState.ServerStep { server with xids := ∅, sent := [] } ops state) :
    ∀ broadcast ∈ state.sent, ∃ packet messageType entries entry saData,
      ServerOp.pass (some packet) ∈ ops ∧ broadcast.Answers messageType packet ∧
      system.getifaddrs = some entries ∧
      entries.find? (fun entry => entry.isInet &&
        decide (system.ifrIfindex entry.ifaName = some packet.interfaceIndex)) = some entry ∧
      system.ifruBroadaddr entry.ifaName = some saData ∧
      (inetAddr broadcast.dstBroadcastIp.toString).toList = (saData.toList.drop 2).take 4 := by
  intro broadcast hmem
  rcases ServerState.sentBack_of_run h hmem with hnone | ⟨packet, messageType, hop, ha, hback⟩
  · cases hnone
  · obtain ⟨interface, hfind, hdst⟩ := hback
    obtain ⟨interfaces, hall, hserver⟩ := Exec.bind_eq_ok.mp hnew
    obtain rfl := Except.ok.inj hserver
    cases hentries : system.getifaddrs with
    | none => simp [getAllInterfaces, hentries] at hall
    | some entries =>
      simp only [getAllInterfaces, hentries] at hall
      obtain ⟨results, hresults, hreduce⟩ := Exec.bind_eq_ok.mp hall
      obtain rfl := Except.ok.inj hreduce
      obtain ⟨entry, iface, hentry, hreports, rfl⟩ := exists_entry hresults hfind
      obtain ⟨saData, hsaData, hbroadcast⟩ := hreports.broadaddr
      refine ⟨packet, messageType, entries, entry, saData, hop, ha, rfl, hentry, hsaData, ?_⟩
      have he : broadcast.dstBroadcastIp = ⟨.pad ((saData.toList.drop 2).take 4)⟩ :=
        Sum.inl.inj (hdst.symm.trans hbroadcast)
      rw [he, IPv4Address.toString, inetAddr_dottedText, Bytes.toList_pad (length_broadaddr saData)]

end

/-- One interface, listed for its link layer and for its IPv4 address 10.0.0.1. -/
def sampleEntries : List IfAddrs :=
  [⟨literal "eth0", some ⟨17, .pad []⟩, none⟩,
    ⟨literal "eth0", some ⟨AF_INET, .pad [10, 0, 0, 1]⟩, some ⟨AF_INET, .pad [255, 255, 255, 0]⟩⟩]

def sampleSystem : OperatingSystem where
  getifaddrs := some sampleEntries
  ifrIfindex _ := some 2
  ifruHwaddr _ := some (.pad [2, 0, 0, 0, 0, 1])
  ifruMtu _ := some 1500
  ifruBroadaddr _ := some (.pad [0, 0, 10, 0, 0, 255])

theorem new_sampleSystem :
    letI : Host := ⟨.little⟩
    DhcpServer.new sampleSystem = .ok sampleServer.toDhcpServer := by
  let host : Host := ⟨.little⟩
  let iface : HostInterface := {
    linuxInterfaceIndex := 2
    broadcastAddress := .inl (AddressPool.sampleIp 255)
    networkAddress := .inl (AddressPool.sampleIp 1)
    macAddress := AddressPool.sampleMac 1
    name := literal "eth0"
    subnetMask := .inl ⟨.pad [255, 255, 255, 0]⟩
    type := .ipv4
    mtu := 1500 }
  have hlink : readEntry sampleSystem ⟨literal "eth0", some ⟨17, .pad []⟩, none⟩ = .ok none :=
    readEntry_eq_none.mpr ⟨⟨2, rfl⟩, _, rfl, by decide⟩
  have hinet : readEntry sampleSystem ⟨literal "eth0", some ⟨AF_INET, .pad [10, 0, 0, 1]⟩,
      some ⟨AF_INET, .pad [255, 255, 255, 0]⟩⟩ = .ok (some iface) :=
    readEntry_eq_some.mpr {
      name := rfl
      type := rfl
      index := rfl
      address := ⟨_, rfl, rfl, rfl⟩
      netmask := ⟨_, rfl, rfl⟩
      hwaddr := ⟨_, rfl, rfl⟩
      mtu := rfl
      broadaddr := ⟨_, rfl, rfl⟩ }
  have hmapM : sampleEntries.mapM (readEntry sampleSystem) = .ok [none, some iface] := by
    rw [sampleEntries, List.mapM_cons, hlink, Exec.ok_bind, List.mapM_cons, hinet]
    rfl
  have hall : getAllInterfaces sampleSystem = .ok [iface] := by
    rw [getAllInterfaces]
    simp only [sampleSystem] at hmapM ⊢
    rw [hmapM]
    rfl
  rw [DhcpServer.new, hall]
  rfl

/-- A discovery and a request that come in on the interface. -/
theorem replies_return_sample :
    letI : Host := ⟨.little⟩
    let packets := [samplePacket .dhcpdiscover 7 1, samplePacket .dhcprequest 7 1]
    ∃ state : ServerState, state.sent.length = 2 ∧ ∀ broadcast ∈ state.sent,
      ∃ packet messageType entries entry saData,
        ServerOp.pass (some packet) ∈ sampleOps packets ∧ broadcast.Answers messageType packet ∧
        sampleSystem.getifaddrs = some entries ∧
        entries.find? (fun entry => entry.isInet &&
          decide (sampleSystem.ifrIfindex entry.ifaName = some packet.interfaceIndex)) =
            some entry ∧
        sampleSystem.ifruBroadaddr entry.ifaName = some saData ∧
        (inetAddr broadcast.dstBroadcastIp.toString).toList = (saData.toList.drop 2).take 4 := by
  let host : Host := ⟨.little⟩
  obtain ⟨state, hrun, hlen⟩ := ServerState.run_sampleOps (fun _ _ => true)
    [samplePacket .dhcpdiscover 7 1, samplePacket .dhcprequest 7 1]
    (fun state => state.sent.length) 2 (by decide +kernel)
  exact ⟨state, hlen, replies_return new_sampleSystem hrun.of_guarded⟩

end Klevret
