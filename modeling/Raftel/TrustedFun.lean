import Raftel.TrustedComb

/-!
# The trusted functions of HotStuff

`App/TrustedFun.cpp`, which the host runs in its own memory.  The state has the fields of the hybrid
component; view 0 is the first one.  A justification is verified as it is: only `TEEstore` looks at the
number of its signatures, and none of the calls asks for different signers.
-/

namespace Raftel

/-- The fields of `TrustedFun` that never change, with the nodes its calls are given. -/
structure FunVars (Key : Type) where
  id : PID
  priv : Key
  qsize : ℕ
  nodes : Nodes Key

/-- The state that the constructor leaves. -/
def funInit : CombState := ⟨newHash, 0, newHash, 0, 0, .newview⟩

section Calls

variable {Key : Type} (cr : Crypto Key) (vars : FunVars Key)

/-- `TrustedFun::sign`: the view and the phase of the signed data are the component's own. -/
def funSign (h₁ h₂ : Hash) (v₂ : View) (st : CombState) : Just × CombState :=
  let rdata : RData := ⟨h₁, st.view, h₂, v₂, st.phase.byte⟩
  let sign : Sign := ⟨true, vars.id, cr.signBuf vars.priv (.rdata rdata)⟩
  (⟨true, rdata, Signs.one sign⟩, st.increment)

/-- `TrustedFun::TEEsign` -/
def funTEEsign (st : CombState) : Just × CombState := funSign cr vars noHash st.preph st.prepv st

/-- `TrustedFun::TEEverify` -/
def funTEEverify (just : Just) : Bool :=
  just.signs.verify cr.verifySign vars.nodes (.rdata just.rdata)

/-- `TrustedFun::TEEprepare` -/
def funTEEprepare (hash : Hash) (just : Just) (st : CombState) : Just × CombState :=
  let rd := just.rdata
  if funTEEverify cr vars just && st.view = rd.propv && rd.phase = Phase1.newview.byte
      && (eqHashes rd.justh st.lockh || rd.justv > st.lockv) then
    funSign cr vars hash rd.justh rd.justv st
  else (Just.none, st)

/-- `TrustedFun::TEEstore`.  The block is locked in both phases: the condition of the source is the
constant `PH1_PRECOMMIT`. -/
def funTEEstore (just : Just) (st : CombState) : Just × CombState :=
  let rd := just.rdata
  if just.signs.size = vars.qsize && funTEEverify cr vars just && st.view = rd.propv
      && (rd.phase = Phase1.prepare.byte || rd.phase = Phase1.precommit.byte) then
    funSign cr vars rd.proph newHash 0
      { st with preph := rd.proph, prepv := rd.propv, lockh := rd.proph, lockv := rd.propv }
  else (Just.none, st)

end Calls

end Raftel
