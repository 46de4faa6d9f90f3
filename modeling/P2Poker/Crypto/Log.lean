import P2Poker.Lib.Bytes

/-!
# Signing (internal/crypto/log/log.go)

`Sign` and `Verify` use Ed25519 over the SHA-256 digest of the payload. The two
primitives come from Go's standard library and are parameters here, with the
laws the callers rely on.
-/

namespace P2Poker.Crypto
open P2Poker.Lib

def publicKeySize : ℕ := 32

structure Primitives where
  PrivateKey : Type
  publicKey : PrivateKey → Bytes
  sha256 : Bytes → Bytes
  ed25519Sign : PrivateKey → Bytes → Bytes
  ed25519Verify : Bytes → Bytes → Bytes → Bool
  publicKey_length : ∀ sk, (publicKey sk).length = publicKeySize
  verify_sign : ∀ sk m, ed25519Verify (publicKey sk) m (ed25519Sign sk m) = true

namespace Primitives

def sign (c : Primitives) (sk : c.PrivateKey) (payload : Bytes) : Bytes :=
  c.ed25519Sign sk (c.sha256 payload)

def verify (c : Primitives) (pk payload sig : Bytes) : Bool :=
  c.ed25519Verify pk (c.sha256 payload) sig

theorem verify_of_sign (c : Primitives) (sk : c.PrivateKey) (payload : Bytes) :
    c.verify (c.publicKey sk) payload (c.sign sk payload) = true :=
  c.verify_sign sk (c.sha256 payload)

/-- The sizes of the real primitives: `ed25519.Verify` accepts 64-byte
signatures only, and a SHA-256 digest has 32 bytes. -/
structure FixedSizes (c : Primitives) : Prop where
  signature : ∀ {pk m sig}, c.ed25519Verify pk m sig = true → sig.length = 64
  digest : ∀ m, (c.sha256 m).length = 32

/-- Signatures that only the key holder can make, for one payload only, over an
injective digest. -/
structure Ideal (c : Primitives) : Prop where
  sha256_injective : Function.Injective c.sha256
  verify_eq : ∀ {sk m sig}, c.ed25519Verify (c.publicKey sk) m sig = true → sig = c.ed25519Sign sk m
  sign_inj : ∀ {sk sk' m m'}, c.ed25519Sign sk m = c.ed25519Sign sk' m' →
    c.publicKey sk = c.publicKey sk' ∧ m = m'

/-- A signature that verifies does so for one payload, and is not empty. -/
structure OnePayload (c : Primitives) : Prop where
  payload_eq : ∀ {pk m m' sig}, c.verify pk m sig = true → c.verify pk m' sig = true → m = m'
  nonempty : ∀ {pk m sig}, c.verify pk m sig = true → sig ≠ []

/-- A transparent stand-in for evaluating the model: the digest is the payload
and a signature is the key's byte in front of what it signs. -/
def transparent : Primitives where
  PrivateKey := Byte
  publicKey k := List.replicate 32 k
  sha256 := id
  ed25519Sign k m := k :: m
  ed25519Verify pk m sig := sig == pk.headD 0 :: m
  publicKey_length k := List.length_replicate
  verify_sign k m := by simp [List.replicate]

theorem transparent_ideal : Ideal transparent where
  sha256_injective := Function.injective_id
  verify_eq {k m sig} h := beq_iff_eq.mp (show (sig == transparent.ed25519Sign k m) = true from h)
  sign_inj {k k' m m'} h := by
    obtain ⟨rfl, rfl⟩ := List.cons.inj h
    exact ⟨rfl, rfl⟩

theorem transparent_onePayload : OnePayload transparent where
  payload_eq {pk m m' sig} h h' := by
    have hm : sig = pk.headD 0 :: m := beq_iff_eq.mp h
    have hm' : sig = pk.headD 0 :: m' := beq_iff_eq.mp h'
    exact (List.cons.inj (hm.symm.trans hm')).2
  nonempty {pk m sig} h := by
    have hm : sig = pk.headD 0 :: m := beq_iff_eq.mp h
    simp [hm]

def fit (n : ℕ) (b : Bytes) : Bytes := (b ++ List.replicate n 0).take n

theorem fit_length (n : ℕ) (b : Bytes) : (fit n b).length = n := by
  simp only [fit, List.length_take, List.length_append, List.length_replicate]
  omega

/-- A stand-in of the real sizes: 32-byte digests and 64-byte signatures. -/
def truncated : Primitives where
  PrivateKey := Byte
  publicKey k := List.replicate 32 k
  sha256 := fit 32
  ed25519Sign k m := List.replicate 32 k ++ fit 32 m
  ed25519Verify pk m sig := sig.length == 64 && sig == fit 32 pk ++ fit 32 m
  publicKey_length k := List.length_replicate
  verify_sign k m := by
    have hk : fit 32 (List.replicate 32 k) = List.replicate 32 k := by
      simp [fit]
    simp only [hk, List.length_append, List.length_replicate, fit_length, beq_self_eq_true,
      Bool.and_self]

theorem truncated_fixedSizes : FixedSizes truncated where
  signature {pk m sig} h := by
    have h' : (sig.length == 64 && sig == fit 32 pk ++ fit 32 m) = true := h
    rw [Bool.and_eq_true, beq_iff_eq] at h'
    exact h'.1
  digest m := fit_length 32 m

end Primitives

end P2Poker.Crypto
