import P2Poker.Lib.Bytes

/-!
# Codecs

A codec turns values into byte strings and back. A wire format is a codec that
reads its value off the front of a byte string; wire formats are combined field
by field.
-/

namespace P2Poker.Lib

/-- An encoder with a decoder that undoes it. -/
structure Codec (α : Type) where
  encode : α → Bytes
  decode : Bytes → Option α
  decode_encode : ∀ x, decode (encode x) = some x

structure Wire (α : Type) where
  put : α → Bytes
  get : Bytes → Option (α × Bytes)
  get_put : ∀ x s, get (put x ++ s) = some (x, s)

namespace Wire
variable {α β : Type}

def byte : Wire Byte where
  put b := [b]
  get
    | [] => none
    | b :: s => some (b, s)
  get_put _ _ := rfl

def word64 : Wire UInt64 where
  put := be64
  get s := if 8 ≤ s.length then some (UInt64.ofNat (beVal (s.take 8)), s.drop 8) else none
  get_put x s := by
    have hlen := be64_length x
    have hval : beVal (be64 x) = x.toNat := by
      have := x.toNat_lt
      rw [be64, beVal_beBytes, Nat.mod_eq_of_lt (by omega)]
    rw [if_pos (by rw [List.length_append, hlen]; omega), List.take_left' hlen, List.drop_left' hlen,
      hval, UInt64.ofNat_toNat]

def pair (f : Wire α) (g : Wire β) : Wire (α × β) where
  put x := f.put x.1 ++ g.put x.2
  get s := do
    let (a, s) ← f.get s
    let (b, s) ← g.get s
    return ((a, b), s)
  get_put x s := by
    simp only [List.append_assoc, f.get_put, g.get_put, Option.bind_eq_bind, Option.bind_some]
    rfl

def map (f : Wire α) (into : α → β) (outOf : β → α) (h : ∀ b, into (outOf b) = b) : Wire β where
  put b := f.put (outOf b)
  get s := do
    let (a, s) ← f.get s
    return (into a, s)
  get_put b s := by
    simp only [f.get_put, Option.bind_eq_bind, Option.bind_some, h]
    rfl

/- A list is a chain of items, each behind a byte 1, ended by a byte 0. -/
def putMany (f : Wire α) : List α → Bytes
  | [] => [0]
  | x :: xs => 1 :: (f.put x ++ putMany f xs)

/- Every item takes at least its leading byte, so the input's length is fuel enough. -/
def getMany (f : Wire α) : ℕ → Bytes → Option (List α × Bytes)
  | 0, _ => none
  | fuel + 1, s =>
    match s with
    | [] => none
    | b :: s =>
      if b = 0 then some ([], s)
      else do
        let (x, s) ← f.get s
        let (xs, s) ← getMany f fuel s
        return (x :: xs, s)

theorem getMany_putMany (f : Wire α) (xs : List α) (s : Bytes) (fuel : ℕ)
    (h : xs.length < fuel) : getMany f fuel (putMany f xs ++ s) = some (xs, s) := by
  induction xs generalizing fuel with
  | nil =>
    cases fuel with
    | zero => simp at h
    | succ fuel => rfl
  | cons x xs ih =>
    cases fuel with
    | zero => simp at h
    | succ fuel =>
      have hrest := ih fuel (by simpa using h)
      simp only [putMany, getMany, List.cons_append, List.append_assoc, f.get_put, hrest,
        Option.bind_eq_bind, Option.bind_some]
      rfl

theorem length_le_putMany (f : Wire α) (xs : List α) : xs.length < (putMany f xs).length := by
  induction xs with
  | nil => simp [putMany]
  | cons x xs ih =>
    simp only [putMany, List.length_cons, List.length_append]
    omega

def many (f : Wire α) : Wire (List α) where
  put := putMany f
  get s := getMany f s.length s
  get_put xs s := by
    have hlen := length_le_putMany f xs
    exact getMany_putMany f xs s _ (by rw [List.length_append]; omega)

/-- A wire format on its own, with nothing left over. -/
def codec (f : Wire α) : Codec α where
  encode := f.put
  decode s :=
    match f.get s with
    | some (x, []) => some x
    | _ => none
  decode_encode x := by
    have h := f.get_put x []
    rw [List.append_nil] at h
    rw [h]

end Wire

end P2Poker.Lib
