import Raftel.Log
import Raftel.TrustedChComb

/-!
# The votes of the chained protocols

The part of `Handler.cpp` and `Log.cpp` that makes a certificate out of the votes for a chained block:
the leader of the next view files the votes under their view and, once there are enough of them, puts
their signatures into a `Cert`.
-/

namespace Raftel

/-- `MsgPrepareChComb` -/
structure MsgPrepareChComb where
  data : RData
  sign : Sign
  deriving DecidableEq

/-- `operator<` -/
def MsgPrepareChComb.lt (m m' : MsgPrepareChComb) : Bool := m.sign.signer < m'.sign.signer

/-- `preparesChComb` -/
abbrev PrepareChLog := ViewLog MsgPrepareChComb fun m => m.data.propv

/-- `msgPrepareChCombFrom` -/
def msgPrepareChCombFrom (msgs : List MsgPrepareChComb) (signer : PID) : Bool :=
  msgs.any fun m => m.sign.signer = signer

namespace PrepareChLog

def storePrepChComb (log : PrepareChLog) (msg : MsgPrepareChComb) : ℕ × PrepareChLog :=
  log.store MsgPrepareChComb.lt (fun msgs m => msgPrepareChCombFrom msgs m.sign.signer) msg

def getPrepareChComb (log : PrepareChLog) (view : View) (n : ℕ) : Signs :=
  (log.get view).foldl (fun signs msg =>
    if signs.size < n then signs.addUpto (Signs.one msg.sign) n else signs) .empty

end PrepareChLog

/-- `checkNewJustChComb`: the certificate, when the log holds enough signatures. -/
def checkNewJustChComb (log : PrepareChLog) (qsize : ℕ) (data : RData) : Option Cert :=
  let signs := log.getPrepareChComb data.propv qsize
  if signs.size = qsize then some ⟨data.propv, data.proph, signs⟩ else none

end Raftel
