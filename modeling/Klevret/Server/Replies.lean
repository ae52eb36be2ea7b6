import Klevret.Server.DhcpServer

/-! # The replies

An offer and an acknowledgement are the same message but for its type. Neither
fails to be built for a packet with a hardware address, or to be encoded.
-/

namespace Klevret

open Foundation

/-- The options of a reply. -/
def replyOptions (messageType : Option53MessageType) : List DhcpOption := [
  ⟨1, ⟨53, 1, ⟨.uintEnum, false, 0, ⟨.uintEnum, 0, 0, [1, 2, 3, 4, 5, 6, 7, 8]⟩⟩⟩,
    [.uint8 messageType]⟩,
  ⟨4, ⟨1, 4, ⟨.subnetMask, false, 0, .noConstraint⟩⟩,
    [.ipv4SubnetMask ⟨⟨[255, 255, 255, 0], rfl⟩⟩]⟩,
  ⟨4, ⟨3, VARIABLE_DHCP_OPTION_LENGTH, ⟨.ipAddress, true, 1, .noConstraint⟩⟩,
    [.ipv4Address ⟨⟨[172, 18, 1, 1], rfl⟩⟩]⟩,
  ⟨4, ⟨51, 4, ⟨.uint32, false, 0, .noConstraint⟩⟩, [.uint32 86400]⟩]

/-- What a message says it is, if it says so. -/
def DhcpMessage.messageType (message : DhcpMessage) : Option Option53MessageType :=
  (findOption53 message).bind fun option53 => (messageTypeOf option53).toOption

section

variable [Host] {packet : DhcpMessage} {mac : MacAddress} {ip : IPv4Address}

def replyOf (messageType : Option53MessageType) (packet : DhcpMessage) (mac : MacAddress)
    (ip : IPv4Address) : DhcpMessage :=
  { DhcpMessage.init with
    op := .bootreply
    hlen := 6
    xid := packet.xid
    yiaddr := ip
    siaddr := ⟨⟨[172, 18, 1, 1], rfl⟩⟩
    chaddr := some mac
    options := replyOptions messageType }

@[simp] theorem messageType_replyOf (messageType : Option53MessageType) :
    (replyOf messageType packet mac ip).messageType = some messageType := rfl

@[simp] theorem xid_replyOf (messageType : Option53MessageType) :
    (replyOf messageType packet mac ip).xid = packet.xid := rfl

@[simp] theorem chaddr_replyOf (messageType : Option53MessageType) :
    (replyOf messageType packet mac ip).chaddr = some mac := rfl

@[simp] theorem yiaddr_replyOf (messageType : Option53MessageType) :
    (replyOf messageType packet mac ip).yiaddr = ip := rfl

end

theorem siaddr_text :
    IPv4Address.ofString ("172.18.1.1".toList.map fun c => c.val.toUInt8) =
      .ok ⟨⟨[172, 18, 1, 1], rfl⟩⟩ := by decide

set_option maxRecDepth 4000 in
theorem new_replyOptions : ∀ _ : Host, ∀ messageType ∈ [Option53MessageType.dhcpoffer, .dhcpack],
    [DhcpOption.new 53 1 [messageType] 0 1, DhcpOption.new 1 4 [255, 255, 255, 0] 0 4,
      DhcpOption.new 3 4 [172, 18, 1, 1] 0 4, DhcpOption.new 51 4 [0, 1, 81, 128] 0 4] =
    (replyOptions messageType).map .ok := by
  rintro ⟨_ | _⟩ <;> decide

theorem leaseTime_offer : ∀ _ : Host,
    (hostToNetworkEndianArray (w := 4) 86400).toList = [0, 1, 81, 128] := by
  rintro ⟨_ | _⟩ <;> decide

set_option maxRecDepth 4000 in
theorem mapM_replyOptions : ∀ _ : Host,
    ∀ messageType ∈ [Option53MessageType.dhcpoffer, .dhcpack],
      ((replyOptions messageType).mapM DhcpOption.toNetworkData).isOk = true := by
  rintro ⟨_ | _⟩ <;> decide

section

variable [Host] {packet : DhcpMessage} {mac : MacAddress} (ip : IPv4Address)
  {messageType : Option53MessageType}

theorem makeReply_eq (ht : messageType ∈ [Option53MessageType.dhcpoffer, .dhcpack])
    (hmac : packet.chaddr = some mac) :
    makeReply messageType [0, 1, 81, 128] packet ip =
      .ok (replyOf messageType packet mac ip) := by
  have hnew := new_replyOptions ‹Host› messageType ht
  simp only [replyOptions, List.map_cons, List.map_nil, List.cons.injEq, and_true] at hnew
  obtain ⟨h53, h1, h3, h51⟩ := hnew
  simp only [makeReply, siaddr_text, hmac, Exec.pointee, h53, h1, h3, List.length_cons,
    List.length_nil, h51, Exec.ok_bind, Exec.pure_eq_ok]
  rfl

theorem makeOffer_eq (hmac : packet.chaddr = some mac) :
    makeOffer packet ip = .ok (replyOf .dhcpoffer packet mac ip) := by
  rw [makeOffer, leaseTime_offer]
  exact makeReply_eq ip (by simp) hmac

theorem makeAcknowledge_eq (hmac : packet.chaddr = some mac) :
    makeAcknowledge packet ip = .ok (replyOf .dhcpack packet mac ip) :=
  makeReply_eq ip (by simp) hmac

theorem toNetworkData_replyOf (packet : DhcpMessage) (mac : MacAddress)
    (ht : messageType ∈ [Option53MessageType.dhcpoffer, .dhcpack]) :
    ∃ data, (replyOf messageType packet mac ip).toNetworkData = .ok data := by
  have hok := mapM_replyOptions ‹Host› messageType ht
  cases hm : (replyOptions messageType).mapM DhcpOption.toNetworkData with
  | error e => simp [hm, Except.isOk, Except.toBool] at hok
  | ok options =>
    have hne : (replyOptions messageType).length ≠ 0 := by simp [replyOptions]
    simp only [DhcpMessage.toNetworkData, replyOf, hne, hm, if_false, Exec.ok_bind]
    exact ⟨_, rfl⟩

end

end Klevret
