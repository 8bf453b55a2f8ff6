/-
What a sender agrees to send, against what a receiver agrees to receive.

The sender measures a unit against the store of its channel, the receiver against the
number of fragments its assemblies admit.  The first comes from the configuration; the
second is the same for every configuration.  So the two agree on a channel as long as
its store is for units of at most `largestUnit` bytes, and no further: of a larger
unit, which the sender accepts if the store is made for it, not one fragment is kept.
-/
import Framecast.Proofs.Assembly.Arrival
import Framecast.Proofs.Node.Registration
import Framecast.Reception.Receiver

namespace Framecast

namespace Receiver

open Assembly

/-- The sender agrees to send a payload of this size. -/
def Sendable (sender : Link) (channel : Channel) (size : Nat) : Prop :=
  Link.checkUnit sender.connection.stores channel size = .ok ()

theorem sendable_iff {sender : Link} {channel : Channel} {size : Nat} :
    Sendable sender channel size ↔
      fragmentCount size Packet.maxPayload ≤
          (Link.unitLimits sender.connection.stores channel).1 ∧
        size ≤ (Link.unitLimits sender.connection.stores channel).2 := by
  unfold Sendable Link.checkUnit
  by_cases hlarge : fragmentCount size Packet.maxPayload >
      (Link.unitLimits sender.connection.stores channel).1 ∨
    size > (Link.unitLimits sender.connection.stores channel).2
  · simp only [if_pos hlarge, reduceCtorEq, false_iff]
    omega
  · simp only [if_neg hlarge, true_iff]
    omega

theorem assembly_start (viewer : Link) (reception : Configuration.Reception)
    {channel : Channel} (hmedia : channel ≠ .message) :
    (start viewer reception).assembly channel = empty channel { size := reception.ringSize } := by
  cases channel with
  | video => rfl
  | audio => rfl
  | message => exact absurd rfl hmedia

/-- A configuration that says nothing but the key. -/
def onlyKey : Configuration.Input :=
  { meeting := { key := some "000102030405060708090a0b0c0d0e0f" } }

end Receiver

end Framecast
