/-
This file models the filters under `traffic-control/model`.

Both address filters mask the configured address and compare the address of the
packet with it as it is. That is the one-sided comparison of `MaskedBits`, so a
host of the configured subnet is recognised only when it has no host bits. The
packet layer of the network simulator is not part of the repository; what a
filter reads of it, `PeekHeader`, is an argument.

A port filter compares numbers.
-/

import DiffServSimulation.MaskedBits

namespace DiffServSimulation

open MaskedBits

/-! ### The packet layer -/

/-- `ns3::Ipv4Address`, a 32-bit value that `Get` returns. -/
structure Ipv4Address where
  get : UInt32
deriving DecidableEq

/-- `ns3::Ipv4Mask`, a 32-bit value that `Get` returns. -/
structure Ipv4Mask where
  get : UInt32
deriving DecidableEq

/-- The part of `ns3::Ipv4Header` that the filters read. -/
structure Ipv4Header where
  getSource : Ipv4Address
  getDestination : Ipv4Address
deriving DecidableEq

/-! ### Address filters -/

/-- The comparison both address filters end in. -/
def matchAddress (ipAddress : Ipv4Address) (ipMask : Ipv4Mask) (packetIp : Ipv4Address) : Bool :=
  packetIp.get == ipAddress.get &&& ipMask.get

structure SourceIpMask where
  srcIpAddressValue : Ipv4Address
  srcIpMaskValue : Ipv4Mask

structure DestinationIpMask where
  ipAddress : Ipv4Address
  ipMask : Ipv4Mask

section Filters

variable {Packet : Type} (peekHeader : Packet → Ipv4Header)

/-- `SourceIpMask::match`. -/
def SourceIpMask.matchPacket (filter : SourceIpMask) (packet : Packet) : Bool :=
  matchAddress filter.srcIpAddressValue filter.srcIpMaskValue (peekHeader packet).getSource

/-- `DestinationIpMask::match`. -/
def DestinationIpMask.matchPacket (filter : DestinationIpMask) (packet : Packet) : Bool :=
  matchAddress filter.ipAddress filter.ipMask (peekHeader packet).getDestination

end Filters

/-- Two addresses lie in one subnet of a mask. -/
def SameSubnet (mask : Ipv4Mask) (first second : Ipv4Address) : Prop :=
  first.get &&& mask.get = second.get &&& mask.get

instance (mask : Ipv4Mask) (first second : Ipv4Address) :
    Decidable (SameSubnet mask first second) :=
  inferInstanceAs (Decidable (_ = _))

/-- The host bits of an address, those where the mask is clear. -/
def hostBits (mask : Ipv4Mask) (address : Ipv4Address) : UInt32 := address.get &&& ~~~mask.get

/-- The mask that selects every bit. -/
def fullMask : Ipv4Mask := ⟨0xFFFFFFFF⟩

theorem sameSubnet_iff_agree (mask : Ipv4Mask) (first second : Ipv4Address) :
    SameSubnet mask first second ↔
      Agree mask.get.toBitVec first.get.toBitVec second.get.toBitVec := by
  rw [SameSubnet, Agree, ← UInt32.toBitVec_inj, UInt32.toBitVec_and, UInt32.toBitVec_and]

theorem hostBits_eq_zero_iff (mask : Ipv4Mask) (address : Ipv4Address) :
    hostBits mask address = 0 ↔ address.get.toBitVec &&& ~~~mask.get.toBitVec = 0#32 := by
  rw [hostBits, ← UInt32.toBitVec_inj, UInt32.toBitVec_and, UInt32.toBitVec_not]
  rfl

theorem eq_fullMask_iff (mask : Ipv4Mask) :
    mask = fullMask ↔ mask.get.toBitVec = BitVec.allOnes 32 := by
  obtain ⟨value⟩ := mask
  rw [fullMask, Ipv4Mask.mk.injEq, ← UInt32.toBitVec_inj]
  rfl

theorem matchAddress_iff (ipAddress : Ipv4Address) (ipMask : Ipv4Mask) (packetIp : Ipv4Address) :
    matchAddress ipAddress ipMask packetIp = true ↔
      packetIp.get.toBitVec = ipAddress.get.toBitVec &&& ipMask.get.toBitVec := by
  rw [matchAddress, beq_iff_eq, ← UInt32.toBitVec_inj, UInt32.toBitVec_and]

/-- The comparison tells subnet membership correctly exactly when the packet is outside the subnet
or its address has no host bits. -/
theorem matchAddress_correct_iff (ipAddress : Ipv4Address) (ipMask : Ipv4Mask)
    (packetIp : Ipv4Address) :
    (matchAddress ipAddress ipMask packetIp = true ↔ SameSubnet ipMask packetIp ipAddress) ↔
      hostBits ipMask packetIp = 0 ∨ ¬ SameSubnet ipMask packetIp ipAddress := by
  rw [matchAddress_iff, sameSubnet_iff_agree, hostBits_eq_zero_iff]
  exact eq_masked_iff_agree_iff _ _ _

/-- The comparison is blind to the host bits of the packet exactly when the packet is outside the
subnet or the mask leaves no host bits. -/
theorem matchAddress_blind_iff (ipAddress : Ipv4Address) (ipMask : Ipv4Mask)
    (packetIp : Ipv4Address) :
    (∀ other, SameSubnet ipMask other packetIp →
        matchAddress ipAddress ipMask other = matchAddress ipAddress ipMask packetIp) ↔
      ipMask = fullMask ∨ ¬ SameSubnet ipMask packetIp ipAddress := by
  rw [sameSubnet_iff_agree, eq_fullMask_iff, ← eq_masked_const_iff]
  constructor
  · intro blind other agree
    have same := blind ⟨⟨other⟩⟩ ((sameSubnet_iff_agree _ _ _).mpr agree)
    rw [Bool.eq_iff_iff, matchAddress_iff, matchAddress_iff] at same
    exact same
  · intro constant other agree
    rw [Bool.eq_iff_iff, matchAddress_iff, matchAddress_iff]
    exact constant _ ((sameSubnet_iff_agree _ _ _).mp agree)

/-! ### The two filters -/

/-- For every configured address and mask and every packet, when the two address filters tell
subnet membership and when they ignore host bits. The packet layer enters through what
`PeekHeader` promises, that it reads the packet's own header, and through packets existing for
every header. -/
theorem addressFilters_match_exact {Packet : Type} (peekHeader header : Packet → Ipv4Header)
    (peeks : ∀ packet, peekHeader packet = header packet)
    (carried : ∀ content, ∃ packet, header packet = content)
    (address : Ipv4Address) (mask : Ipv4Mask) (packet : Packet) :
    (((SourceIpMask.mk address mask).matchPacket peekHeader packet = true ↔
          SameSubnet mask (header packet).getSource address) ↔
        hostBits mask (header packet).getSource = 0 ∨
          ¬ SameSubnet mask (header packet).getSource address) ∧
      ((∀ other source, header other = { header packet with getSource := source } →
          SameSubnet mask source (header packet).getSource →
          (SourceIpMask.mk address mask).matchPacket peekHeader other =
            (SourceIpMask.mk address mask).matchPacket peekHeader packet) ↔
        mask = fullMask ∨ ¬ SameSubnet mask (header packet).getSource address) ∧
      (((DestinationIpMask.mk address mask).matchPacket peekHeader packet = true ↔
          SameSubnet mask (header packet).getDestination address) ↔
        hostBits mask (header packet).getDestination = 0 ∨
          ¬ SameSubnet mask (header packet).getDestination address) ∧
      ((∀ other destination, header other = { header packet with getDestination := destination } →
          SameSubnet mask destination (header packet).getDestination →
          (DestinationIpMask.mk address mask).matchPacket peekHeader other =
            (DestinationIpMask.mk address mask).matchPacket peekHeader packet) ↔
        mask = fullMask ∨ ¬ SameSubnet mask (header packet).getDestination address) := by
  simp only [SourceIpMask.matchPacket, DestinationIpMask.matchPacket, peeks]
  refine ⟨matchAddress_correct_iff _ _ _, ?_, matchAddress_correct_iff _ _ _, ?_⟩
  · rw [← matchAddress_blind_iff]
    constructor
    · intro blind source near
      obtain ⟨other, carries⟩ := carried { header packet with getSource := source }
      have same := blind other source carries near
      rwa [carries] at same
    · intro blind other source carries near
      rw [carries]
      exact blind source near
  · rw [← matchAddress_blind_iff]
    constructor
    · intro blind destination near
      obtain ⟨other, carries⟩ := carried { header packet with getDestination := destination }
      have same := blind other destination carries near
      rwa [carries] at same
    · intro blind other destination carries near
      rw [carries]
      exact blind destination near

/-- The subnet 10.1.1.0/24. -/
def subnet24 : Ipv4Address × Ipv4Mask := (⟨0x0A010100⟩, ⟨0xFFFFFF00⟩)

/-- A header from 10.1.1.5 to 10.1.1.7. -/
def hostHeader : Ipv4Header := ⟨⟨0x0A010105⟩, ⟨0x0A010107⟩⟩

/-- Neither filter of 10.1.1.0/24 matches a packet between two hosts of that subnet. Packets are
their headers here. -/
theorem addressFilters_miss_subnet_hosts :
    SameSubnet subnet24.2 hostHeader.getSource subnet24.1 ∧
      (SourceIpMask.mk subnet24.1 subnet24.2).matchPacket id hostHeader = false ∧
      SameSubnet subnet24.2 hostHeader.getDestination subnet24.1 ∧
      (DestinationIpMask.mk subnet24.1 subnet24.2).matchPacket id hostHeader = false := by
  decide

/-- That layer is one the exact condition applies to, and there the condition fails. -/
theorem addressFilters_match_exact_hostHeader :
    ¬ ((SourceIpMask.mk subnet24.1 subnet24.2).matchPacket id hostHeader = true ↔
      SameSubnet subnet24.2 hostHeader.getSource subnet24.1) := by
  intro correct
  have condition := (addressFilters_match_exact id id (fun _ => rfl)
    (fun content => ⟨content, rfl⟩) subnet24.1 subnet24.2 hostHeader).1.mp correct
  revert condition
  decide

/-! ### Port filters -/

structure SourcePortNumber where
  srcPortNumberValue : UInt32

/-- `SourcePortNumber::match`. -/
def SourcePortNumber.matchPort (filter : SourcePortNumber) (portNumberToMatch : UInt32) : Bool :=
  filter.srcPortNumberValue == portNumberToMatch

/-- A port filter matches no more than one of the ports there are, and none if its number is not one
of 16 bits. -/
theorem SourcePortNumber.matchPort_iff (filter : SourcePortNumber) (port : UInt16) :
    filter.matchPort port.toUInt32 = true ↔
      filter.srcPortNumberValue < 65536 ∧ port = filter.srcPortNumberValue.toUInt16 := by
  rw [matchPort, beq_iff_eq, ← UInt32.toNat_inj, UInt16.toNat_toUInt32, ← UInt16.toNat_inj,
    UInt32.toNat_toUInt16, UInt32.lt_iff_toNat_lt]
  have small := port.toNat_lt
  show filter.srcPortNumberValue.toNat = port.toNat ↔ filter.srcPortNumberValue.toNat < 65536 ∧ _
  omega

end DiffServSimulation
