import P2Poker.Game.Accept

/-!
# Honest play

The seat whose turn it is signs a legal action with `BuildProposal`; every
replica accepts it. A list of actions that are legal when their turn comes
therefore builds a reachable log.
-/

namespace P2Poker.Game
open P2Poker.Lib P2Poker.Crypto

section Play
variable (c : Primitives) (sk : UInt8 → c.PrivateKey)

def Log.nextEntry (l : Log) (a : Action) : Entry :=
  l.buildProposal c l.expectedNextPlayer a (sk l.expectedNextPlayer)

def Log.play (l : Log) (actions : List Action) : Log :=
  actions.foldl (fun l a => l.append (l.nextEntry c sk a)) l

def Log.LegalPlay : Log → List Action → Prop
  | _, [] => True
  | l, a :: rest =>
    l.state.validateAction l.expectedNextPlayer a = .ok () ∧
      Log.LegalPlay (l.append (l.nextEntry c sk a)) rest

def Log.decidableLegalPlay : (l : Log) → (actions : List Action) →
    Decidable (Log.LegalPlay c sk l actions)
  | _, [] => .isTrue trivial
  | l, a :: rest =>
    haveI := Log.decidableLegalPlay (l.append (l.nextEntry c sk a)) rest
    inferInstanceAs (Decidable (_ ∧ _))

instance (l : Log) (actions : List Action) : Decidable (Log.LegalPlay c sk l actions) :=
  Log.decidableLegalPlay c sk l actions

variable {c sk}

theorem verifyProposal_buildProposal {l : Log} {p : UInt8} {a : Action} (k : c.PrivateKey)
    (hp : p = l.expectedNextPlayer) (ha : l.state.validateAction p a = .ok ()) :
    l.verifyProposal c (l.buildProposal c p a k) (c.publicKey k) = .ok () := by
  unfold Log.verifyProposal Log.buildProposal
  simp only [hp, c.publicKey_length, c.verify_of_sign, ne_eq, not_true_eq_false, if_false,
    Bool.true_eq_false]
  rw [← hp, ha]

theorem Grows.next {n : UInt8} {stack : UInt64} {P : Log → Entry → Prop} {l : Log} {a : Action}
    (hl : Grows c P n stack l) (ha : l.state.validateAction l.expectedNextPlayer a = .ok ())
    (hP : P l (l.nextEntry c sk a)) : Grows c P n stack (l.append (l.nextEntry c sk a)) :=
  .append hl (Or.inl ⟨_, verifyProposal_buildProposal _ rfl ha⟩) hP

theorem TurnReachable.play {n : UInt8} {stack : UInt64} {l : Log} {actions : List Action}
    (hl : TurnReachable c n stack l) (ha : Log.LegalPlay c sk l actions)
    (hlen : l.entries.length + actions.length < 2 ^ 63) :
    TurnReachable c n stack (l.play c sk actions) := by
  induction actions generalizing l with
  | nil => exact hl
  | cons a rest ih =>
    obtain ⟨hlegal, hrest⟩ := ha
    simp only [List.length_cons] at hlen
    refine ih (Grows.next hl hlegal ⟨rfl, by omega⟩) hrest ?_
    simp only [Log.append, List.length_append, List.length_cons, List.length_nil]
    omega

end Play

def seatKey (s : UInt8) : Primitives.transparent.PrivateKey := s

end P2Poker.Game
