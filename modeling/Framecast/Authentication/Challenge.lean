/-
The two messages of the handshake.

    challenge   0xA1  nonce 16
    proof       0xA2  keyed hash of the nonce 32

Whoever can prove a fresh nonce holds the key.  A datagram of any other shape means
nothing during a handshake.  A sealed datagram is longer than a challenge, so an open
connection can tell the two apart.
-/
import Framecast.Cipher.Key
import Framecast.Cipher.Sha256

namespace Framecast.Authentication

/-- The first byte of a challenge. -/
def challengeTag : UInt8 := 0xA1

/-- The first byte of a proof. -/
def proofTag : UInt8 := 0xA2

/-- The bytes of a nonce. -/
def nonceSize : Nat := 16

/-- The bytes of a keyed hash. -/
def codeSize : Nat := 32

/-- The challenge with a nonce. -/
def challenge (nonce : Bytes) : Bytes :=
  challengeTag :: nonce

/-- What proves a nonce. -/
def code (key : Key) (nonce : Bytes) : Bytes :=
  Sha256.keyed key.bytes nonce

/-- The proof of a nonce. -/
def proof (key : Key) (nonce : Bytes) : Bytes :=
  proofTag :: code key nonce

/-- What a datagram means. -/
inductive Meaning where
  | challenge (nonce : Bytes)
  | proof (code : Bytes)
  | noise
  deriving DecidableEq, Repr, Inhabited

/-- The meaning of a datagram. -/
def meaning : Bytes → Meaning
  | [] => .noise
  | tag :: rest =>
    if tag = challengeTag ∧ rest.length = nonceSize then .challenge rest
    else if tag = proofTag ∧ rest.length = codeSize then .proof rest
    else .noise

end Framecast.Authentication
