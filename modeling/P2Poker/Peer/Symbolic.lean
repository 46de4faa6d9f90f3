import P2Poker.Peer.Table

/-!
# The deal in a symbolic model

Values are terms: a card under a number of layers of each seat, a deck, or bytes
that stand for no card. A layer is put on and taken off by its key only, and
terms are equal only if they are the same. One seat does not follow the program:
it reads what the others host and hosts what it can build from that with its own
key. The other seats run the nodes of the deal.
-/

namespace P2Poker.Peer
open P2Poker.Lib P2Poker.Crypto P2Poker.Ephemeral

/-- `layers i` is how often seat `i` has put its layer on more than off. -/
inductive Sym (n : ℕ) where
  | card (base : ℕ) (layers : Fin n → ℤ)
  | deck (cards : List (Sym n))
  -- the empty string
  | blank
  -- bytes of no card or deck
  | junk

/-- `d` more layers of a seat. -/
def Sym.layer {n : ℕ} (k : Fin n) (d : ℤ) : Sym n → Sym n
  | .card base layers => .card base (Function.update layers k (layers k + d))
  | .blank => .blank
  | _ => .junk

def symbolic (n : ℕ) : Values (Fin n) (Sym n) where
  enc k := Sym.layer k 1
  dec k := Sym.layer k (-1)
  card m := .card m 0
  empty := .blank
  isEmpty
    | .blank => true
    | _ => false
  encodeDeck := .deck
  decodeDeck
    | .deck cards => some cards
    | _ => none

/-- Every seat has its own key. -/
def symbolicTable (n : ℕ) [NeZero n] (draws : ℕ → Deck.Draws) : Table (Fin n) where
  size := n
  key := Fin.ofNat n
  draws := draws

/-! ### The malicious seat -/

/-- How the malicious seat builds a value from those it has read. -/
inductive Recipe where
  | known (i : ℕ)
  | card (m : ℕ)
  | blank
  | junk
  | enc (r : Recipe)
  | dec (r : Recipe)
  -- a deck, card by card
  | nil
  | cons (r deck : Recipe)
  -- a card of a deck
  | nth (i : ℕ) (deck : Recipe)

def Recipe.eval {n : ℕ} (k : Fin n) (known : List (Sym n)) : Recipe → Option (Sym n)
  | .known i => known[i]?
  | .card m => some (.card m 0)
  | .blank => some .blank
  | .junk => some .junk
  | .enc r => (r.eval k known).map (Sym.layer k 1)
  | .dec r => (r.eval k known).map (Sym.layer k (-1))
  | .nil => some (.deck [])
  | .cons r d =>
    match r.eval k known, d.eval k known with
    | some v, some (.deck cards) => some (.deck (v :: cards))
    | _, _ => none
  | .nth i d =>
    match d.eval k known with
    | some (.deck cards) => cards[i]?
    | _ => none

structure World (n : ℕ) where
  net : Net (Sym n)
  -- what the malicious seat has read, the last first
  known : List (Sym n) := []

/-- The malicious seat puts a value into its store. -/
def World.hosting {n : ℕ} (w : World n) (a : ℕ) (key : Key) (v : Sym n) : World n :=
  { w with net := Function.update w.net a { w.net a with store := (w.net a).store.put key v } }

section Attack
variable (n : ℕ) [NeZero n] (draws : ℕ → Deck.Draws) (a : ℕ)

/-- A step with seat `a` malicious; it hosts a value only when `P` holds. -/
inductive Attack (P : World n → Key → Sym n → Prop) : World n → World n → Prop
  | node {w : World n} {s : ℕ} {i : Input} {r : Node (Sym n)} : s < n → s ≠ a →
      (w.net s).step (symbolic n) ((symbolicTable n draws).setup s) w.net.read i = some r →
      Attack P w { w with net := Function.update w.net s r }
  | read {w : World n} {q : ℕ} {key : Key} {v : Sym n} : w.net.read q key = some v →
      Attack P w { w with known := v :: w.known }
  | host {w : World n} {key : Key} {recipe : Recipe} {v : Sym n} :
      recipe.eval (Fin.ofNat n a) w.known = some v → P w key v → Attack P w (w.hosting a key v)

def World.start : World n where
  net := Net.start (symbolic n)

def Attacked (P : World n → Key → Sym n → Prop) : World n → World n → Prop :=
  Relation.ReflTransGen (Attack n draws a P)

/-! ### Running an attack -/

inductive Act where
  | node (s : ℕ) (i : Input)
  | read (q : ℕ) (key : Key)
  | host (key : Key) (recipe : Recipe)

/- `ok` says what the malicious seat may host. -/
def act (ok : World n → Key → Sym n → Bool) (w : World n) : Act → Option (World n)
  | .node s i =>
    if s < n ∧ s ≠ a then
      ((w.net s).step (symbolic n) ((symbolicTable n draws).setup s) w.net.read i).map fun r =>
        { w with net := Function.update w.net s r }
    else none
  | .read q key => (w.net.read q key).map fun v => { w with known := v :: w.known }
  | .host key recipe =>
    (recipe.eval (Fin.ofNat n a) w.known).bind fun v => if ok w key v then some (w.hosting a key v) else none

def attack (ok : World n → Key → Sym n → Bool) (w : World n) (acts : List Act) : Option (World n) :=
  acts.foldlM (act n draws a ok) w

variable {n draws a} {P : World n → Key → Sym n → Prop} {ok : World n → Key → Sym n → Bool}

theorem act_attack (hok : ∀ w key v, ok w key v = true → P w key v) {w w' : World n} {x : Act}
    (h : act n draws a ok w x = some w') : Attack n draws a P w w' := by
  cases x with
  | node s i =>
    simp only [act] at h
    split_ifs at h with hs
    obtain ⟨r, hr, rfl⟩ := Option.map_eq_some_iff.mp h
    exact .node hs.1 hs.2 hr
  | read q key =>
    obtain ⟨v, hv, rfl⟩ := Option.map_eq_some_iff.mp h
    exact .read hv
  | host key recipe =>
    obtain ⟨v, hv, h⟩ := Option.bind_eq_some_iff.mp h
    split_ifs at h with hmay
    obtain rfl := Option.some.inj h
    exact .host hv (hok w key v hmay)

theorem attack_attacked (hok : ∀ w key v, ok w key v = true → P w key v) {w w' : World n} {acts : List Act}
    (h : attack n draws a ok w acts = some w') : Attacked n draws a P w w' := by
  induction acts generalizing w with
  | nil =>
    obtain rfl := Option.some.inj h
    exact .refl
  | cons x acts ih =>
    rw [attack, List.foldlM_cons, Option.bind_eq_bind, Option.bind_eq_some_iff] at h
    obtain ⟨w₁, hx, hrest⟩ := h
    exact .head (act_attack hok hx) (ih hrest)

end Attack

end P2Poker.Peer
