import LinuxPtp.Clock.MgmtReply

/-!
# Addresses

The unicast service and the unicast client tell their peers apart by `addreq`, which looks
at the octets of an address that the transport is known to set.  It knows two transports,
and on the others no address is equal to any, not even to itself.
-/

namespace LinuxPtp.Unicast

open Wire Clock

/-- The union of `struct address`, octet by octet. -/
structure SocketAddress where
  octets : Vector UInt8 128
  deriving DecidableEq

/-- `memcmp` finds no difference in so many octets from this place on. -/
def sameOctets (offset len : ℕ) (a b : SocketAddress) : Bool :=
  (a.octets.toList.drop offset).take len = (b.octets.toList.drop offset).take len

def sinAddr : ℕ := 4

def sizeofSockaddrIn : ℕ := 16

def sllAddr : ℕ := 12

def macLen : ℕ := 6

def addreq (type : TransportType) (a b : SocketAddress) : Bool :=
  match type with
  -- the length is that of the whole `sin`, so that what is behind it counts as well
  | .udpIpv4 => sameOctets sinAddr sizeofSockaddrIn a b
  | .ieee8023 => sameOctets sllAddr macLen a b
  | .uds | .udpIpv6 | .deviceNet | .controlNet | .profinet => false

/-- A comparison in which the order does not matter and that passes on.  An address need
not be equal to itself. -/
structure Compares {Address : Type} (equal : Address → Address → Bool) : Prop where
  symm : ∀ {a b}, equal a b → equal b a
  trans : ∀ {a b c}, equal a b → equal b c → equal a c

theorem Compares.of_equivalence {Address : Type} {equal : Address → Address → Bool}
    (hequiv : Equivalence fun a b => equal a b) : Compares equal :=
  ⟨hequiv.symm, hequiv.trans⟩

theorem sameOctets_equivalence (offset len : ℕ) :
    Equivalence fun a b => sameOctets offset len a b = true := by
  simp only [sameOctets, decide_eq_true_eq]
  exact eq_equivalence.comap fun a : SocketAddress => (a.octets.toList.drop offset).take len

/-- The transports whose addresses can be compared. -/
def comparesAddresses : TransportType → Bool
  | .udpIpv4 | .ieee8023 => true
  | .uds | .udpIpv6 | .deviceNet | .controlNet | .profinet => false

/-- On these transports the comparison is an equivalence. -/
theorem addreq_equivalence {type : TransportType} (htype : comparesAddresses type) :
    Equivalence fun a b => addreq type a b = true := by
  cases type with
  | udpIpv4 => exact sameOctets_equivalence sinAddr sizeofSockaddrIn
  | ieee8023 => exact sameOctets_equivalence sllAddr macLen
  | _ => exact absurd htype Bool.false_ne_true

/-- On the others it never holds. -/
theorem addreq_of_not {type : TransportType} (htype : comparesAddresses type = false)
    (a b : SocketAddress) : addreq type a b = false := by
  cases type with
  | udpIpv4 => exact absurd htype.symm Bool.false_ne_true
  | ieee8023 => exact absurd htype.symm Bool.false_ne_true
  | _ => rfl

/-- On every transport the order does not matter, and what is equal passes on. -/
theorem addreq_compares (type : TransportType) : Compares (addreq type) := by
  by_cases htype : comparesAddresses type
  · exact .of_equivalence (addreq_equivalence htype)
  · have hnever := addreq_of_not (Bool.eq_false_iff.mpr htype)
    exact ⟨fun {a b} hequal => absurd ((hnever a b).symm.trans hequal) Bool.false_ne_true,
      fun {a b c} hequal => absurd ((hnever a b).symm.trans hequal) Bool.false_ne_true⟩

end LinuxPtp.Unicast
