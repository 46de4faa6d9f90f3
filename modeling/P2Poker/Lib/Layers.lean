import Mathlib

/-!
# Layers of a commutative cipher

A value is locked under several keys, one layer for each. Where encryptions
commute the layers come off in any order, and taking some of them off leaves the
value locked under the others.
-/

namespace P2Poker.Lib

structure Cipher (K V : Type) where
  enc : K → V → V
  dec : K → V → V

namespace Cipher
variable {K V : Type} (c : Cipher K V)

def lock (ks : List K) (v : V) : V := ks.foldl (fun v k => c.enc k v) v

def strip (ks : List K) (v : V) : V := ks.foldl (fun v k => c.dec k v) v

@[simp] theorem lock_nil (v : V) : c.lock [] v = v := rfl

@[simp] theorem lock_cons (k : K) (ks : List K) (v : V) : c.lock (k :: ks) v = c.lock ks (c.enc k v) := rfl

theorem lock_concat (ks : List K) (k : K) (v : V) : c.lock (ks ++ [k]) v = c.enc k (c.lock ks v) := by
  simp only [lock, List.foldl_append, List.foldl_cons, List.foldl_nil]

theorem lock_eq_self {ks : List K} {v : V} (h : ∀ k ∈ ks, c.enc k v = v) : c.lock ks v = v := by
  induction ks with
  | nil => rfl
  | cons k ks ih =>
    rw [List.forall_mem_cons] at h
    rw [lock_cons, h.1, ih h.2]

@[simp] theorem strip_nil (v : V) : c.strip [] v = v := rfl

@[simp] theorem strip_cons (k : K) (ks : List K) (v : V) :
    c.strip (k :: ks) v = c.strip ks (c.dec k v) := rfl

theorem strip_concat (ks : List K) (k : K) (v : V) :
    c.strip (ks ++ [k]) v = c.dec k (c.strip ks v) := by
  simp only [strip, List.foldl_append, List.foldl_cons, List.foldl_nil]

/-- Encryption under good keys keeps values valid, is undone by decryption, and
commutes. -/
structure Commutes (good : K → Prop) (valid : V → Prop) : Prop where
  valid_enc : ∀ {k v}, good k → valid v → valid (c.enc k v)
  dec_enc : ∀ {k v}, good k → valid v → c.dec k (c.enc k v) = v
  enc_comm : ∀ {k k' v}, good k → good k' → valid v → c.enc k (c.enc k' v) = c.enc k' (c.enc k v)

namespace Commutes
variable {c} {good : K → Prop} {valid : V → Prop} (h : c.Commutes good valid)
include h

theorem valid_lock {ks : List K} {v : V} (hk : ∀ k ∈ ks, good k) (hv : valid v) :
    valid (c.lock ks v) := by
  induction ks generalizing v with
  | nil => exact hv
  | cons k ks ih =>
    rw [List.forall_mem_cons] at hk
    exact ih hk.2 (h.valid_enc hk.1 hv)

theorem lock_perm {ks ks' : List K} {v : V} (hp : ks.Perm ks') (hk : ∀ k ∈ ks, good k)
    (hv : valid v) : c.lock ks v = c.lock ks' v := by
  induction hp generalizing v with
  | nil => rfl
  | cons k _ ih =>
    rw [List.forall_mem_cons] at hk
    exact ih hk.2 (h.valid_enc hk.1 hv)
  | swap k k' ks =>
    simp only [List.forall_mem_cons] at hk
    simp only [lock_cons, h.enc_comm hk.1 hk.2.1 hv]
  | trans hp _ ih ih' =>
    rw [ih hk hv, ih' (fun k hmem => hk k (hp.mem_iff.mpr hmem)) hv]

/-- Taking the layers `ks` off leaves the rest on, in whatever order all were put on. -/
theorem strip_lock {ks rest all : List K} {v : V} (hp : all.Perm (ks ++ rest))
    (hk : ∀ k ∈ all, good k) (hv : valid v) : c.strip ks (c.lock all v) = c.lock rest v := by
  induction ks generalizing all with
  | nil => exact h.lock_perm hp hk hv
  | cons k ks ih =>
    -- put the layer that comes off first on last
    have hlast : all.Perm ((ks ++ rest) ++ [k]) := hp.trans (List.perm_append_singleton ..).symm
    have hgood : ∀ q ∈ ks ++ rest, good q := fun q hq =>
      hk q (hlast.mem_iff.mpr (List.mem_append_left _ hq))
    have hgoodk : good k := hk k (hlast.mem_iff.mpr (by simp))
    rw [h.lock_perm hlast hk hv, lock_concat, strip_cons,
      h.dec_enc hgoodk (h.valid_lock hgood hv)]
    exact ih (List.Perm.refl _) hgood

end Commutes

end Cipher

end P2Poker.Lib
