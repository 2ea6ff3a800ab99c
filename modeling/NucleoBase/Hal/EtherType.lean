/-
  NucleoBase.Hal.EtherType

  The EtherType of a frame (itf/IEthernet.hpp): the outer one, and the one
  behind the frame's VLAN tags.
-/

import Mathlib.Data.UInt

namespace NucleoBase
namespace Hal

/-- `ETHERNET_HEADER_SIZE`. -/
def ethernetHeaderBytes : Nat := 14

/-- `ETHER_TYPE_OFFSET`. -/
def etherTypeOffset : Nat := 12

/-- `VLAN`. -/
def vlanType : UInt16 := 0x8100

/-- `SERVICE_VLAN`. -/
def serviceVlanType : UInt16 := 0x88A8

/-- `read_ether_type`, from the two bytes at its offset. -/
def readEtherType (high low : UInt8) : UInt16 := high.toUInt16 <<< 8 ||| low.toUInt16

/-- The loop of `frameEtherType`, on what is left of the frame at `offset`:
    each tag moves `offset` by `VLAN_TAG_SIZE`. -/
def innerEtherType : List UInt8 → Option UInt16
  | high :: low :: rest =>
      let type := readEtherType high low
      if type = vlanType ∨ type = serviceVlanType then
        match rest with
        | _ :: _ :: tagged => innerEtherType tagged
        | _ => none
      else some type
  | _ => none

def frameOuterEtherType (frame : List UInt8) : Option UInt16 :=
  if frame.length < ethernetHeaderBytes then none
  else
    match frame.drop etherTypeOffset with
    | high :: low :: _ => some (readEtherType high low)
    | _ => none

def frameEtherType (frame : List UInt8) : Option UInt16 :=
  match frameOuterEtherType frame with
  | none => none
  | some _ => innerEtherType (frame.drop etherTypeOffset)

end Hal
end NucleoBase
