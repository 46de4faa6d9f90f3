import P2Poker.Lib.Bytes

/-!
# Actions and log entries (internal/game/action.go, internal/game/log.go)

An entry doubles as a proposal before commit. Auto-fold entries carry no
self-signature; their encoding has a co-signature section that self-signed
entries omit.
-/

namespace P2Poker.Game
open P2Poker.Lib

/-- `ActionKind` is a `uint8`: the four named kinds, and every other byte a
decoded proposal may carry. -/
inductive ActionKind where
  | fold
  | check
  | call
  | raise
  | unknown (k : {k : UInt8 // 4 ≤ k})
  deriving DecidableEq, Repr

def ActionKind.toByte : ActionKind → Byte
  | .fold => 0
  | .check => 1
  | .call => 2
  | .raise => 3
  | .unknown k => k.val

theorem ActionKind.toByte_injective : Function.Injective ActionKind.toByte := by
  have hlow : ∀ (k : {k : UInt8 // 4 ≤ k}) (j : UInt8), j < 4 → k.val ≠ j := by
    intro k j hj heq
    have hk := k.property
    rw [heq, UInt8.le_iff_toNat_le] at hk
    rw [UInt8.lt_iff_toNat_lt] at hj
    omega
  intro a b h
  cases a <;> cases b <;> simp only [toByte] at h <;>
    first
    | rfl
    | exact absurd h (by decide)
    | exact absurd h (hlow _ _ (by decide))
    | exact absurd h.symm (hlow _ _ (by decide))
    | exact congrArg ActionKind.unknown (Subtype.ext h)

/-- `Amount` is the raise-to level of a raise and zero otherwise. -/
structure Action where
  kind : ActionKind
  amount : UInt64
  deriving DecidableEq, Repr

def Action.bytes (a : Action) : Bytes := a.kind.toByte :: be64 a.amount

@[simp] theorem Action.bytes_length (a : Action) : a.bytes.length = 9 := by
  simp only [Action.bytes, List.length_cons, be64_length]

theorem Action.bytes_injective : Function.Injective Action.bytes := by
  intro a b h
  obtain ⟨hk, ha⟩ := List.cons.inj h
  cases a
  cases b
  simp only [Action.mk.injEq]
  exact ⟨ActionKind.toByte_injective hk, be64_injective ha⟩

structure Entry where
  roundID : UInt64
  /-- The acting seat; for an auto-fold, the target seat. -/
  playerID : UInt8
  action : Action
  signature : Bytes := []
  coSigners : List UInt8 := []
  coSignatures : List Bytes := []
  data : Bytes := []
  deriving DecidableEq, Repr

def Entry.isAutoFold (e : Entry) : Bool :=
  e.action.kind == .fold && e.signature.length == 0

def coSigBytes (c : UInt8 × Bytes) : Bytes := c.1 :: (beBytes 2 c.2.length ++ c.2)

/-- The co-signature section. The source indexes `CoSignatures` by the position
in `CoSigners`; entries it encodes have as many of the one as of the other. -/
def Entry.coSigSection (e : Entry) : Bytes :=
  UInt8.ofNat e.coSigners.length :: (e.coSigners.zip e.coSignatures).flatMap coSigBytes

def Entry.bytes (e : Entry) : Bytes :=
  be64 e.roundID ++ e.playerID :: e.action.bytes ++
    beBytes 2 e.signature.length ++ e.signature ++
    (if e.isAutoFold then e.coSigSection else []) ++
    beBytes 4 e.data.length ++ e.data

end P2Poker.Game
