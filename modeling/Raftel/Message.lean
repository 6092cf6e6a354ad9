import Raftel.Types

/-!
# The messages of the hybrid protocol

`Message.h`, the hybrid part.  The four vote and certificate messages have the same shape; they
differ by their opcode.  Messages are kept in `std::set`s: new-view messages are ordered by their
signer, votes by their signatures (`lt`).
-/

namespace Raftel

structure MsgNewViewComb where
  data : RData
  sign : Sign
  deriving DecidableEq

/-- `Sign::operator<`: by the signer. -/
def Sign.lt (s t : Sign) : Bool := s.signer < t.signer

def MsgNewViewComb.lt (m m' : MsgNewViewComb) : Bool := m.sign.lt m'.sign

/-- The loop of `Signs::operator<` over the signatures in use. -/
def Signs.ltFrom : List Sign → List Sign → Bool
  | s :: ss, t :: ts => if s.lt t then true else if t.lt s then false else ltFrom ss ts
  | _, _ => false

/-- `Signs::operator<`: by the number of signatures, then by their signers in order. -/
def Signs.lt (ss ts : Signs) : Bool :=
  if ss.size < ts.size then true
  else if ts.size < ss.size then false
  else Signs.ltFrom ss.entries ts.entries

/-- `MsgPrepareComb`, `MsgPreCommitComb` and `MsgCommitComb`: a vote when there is one signature, a
certificate when there are more. -/
structure MsgVoteComb where
  data : RData
  signs : Signs
  deriving DecidableEq

abbrev MsgPrepareComb := MsgVoteComb
abbrev MsgPreCommitComb := MsgVoteComb
abbrev MsgCommitComb := MsgVoteComb

def MsgVoteComb.lt (m m' : MsgVoteComb) : Bool := m.signs.lt m'.signs

/-- `NewViewProofComb`: the new-view messages behind an accumulator, as they are sent. -/
structure NewViewProofComb where
  size : ℕ
  data : Vector RData maxNumSignatures
  signs : Vector Sign maxNumSignatures
  deriving DecidableEq

/-- `NewViewProofComb()` -/
def NewViewProofComb.none : NewViewProofComb :=
  ⟨0, Vector.replicate _ RData.none, Vector.replicate _ Sign.none⟩

/-- One more message, as long as there is place for it. -/
def NewViewProofComb.add (p : NewViewProofComb) (m : MsgNewViewComb) : NewViewProofComb :=
  if p.size < maxNumSignatures then
    ⟨p.size + 1, p.data.setIfInBounds p.size m.data, p.signs.setIfInBounds p.size m.sign⟩
  else p

/-- `NewViewProofComb(msgs)` -/
def NewViewProofComb.ofMsgs (msgs : List MsgNewViewComb) : NewViewProofComb :=
  msgs.foldl NewViewProofComb.add .none

/-- `setNewViews` -/
def setNewViews (proof : NewViewProofComb) : NewViews where
  size := proof.size
  justs := Vector.ofFn fun i => ⟨i.val < proof.size, proof.data.get i, proof.signs.get i⟩

structure MsgLdrPrepareComb where
  acc : Accum
  block : Block
  proof : NewViewProofComb
  sign : Sign
  deriving DecidableEq

/-- `operator<` of `MsgLdrPrepareComb` -/
def MsgLdrPrepareComb.lt (m m' : MsgLdrPrepareComb) : Bool := m.sign.lt m'.sign

end Raftel
