import Raftel.Enclave.Families
import Raftel.Log

/-!
# The accumulator ecalls of `EnclaveAccum.cpp`

`TEEaccum` and `TEEaccumSp` take votes that carry a certificate each.  They keep no state, but sign with
the enclave's key and read its tables.  The texts of these votes and certificates are of no other ecall,
so their check, `verifyRaw`, is a parameter beside the one of the signed data.
-/

namespace Raftel

/-- `cdata_t` -/
structure CData where
  phase : UInt8
  view : View
  cert : Cert

/-- `vote_t` -/
structure Vote where
  cdata : CData
  sign : Sign

/-- `votes_t` -/
abbrev Votes := Vector Vote maxNumSignatures

/-- `uvote_t` -/
structure UVote where
  cdata : CData
  signs : Signs

def cdata2string (d : CData) : Text :=
  natText d.phase.toNat ++ natText d.view ++ cert2string d.cert

/-- `vote_compare`: by the view of the certificate, then by the signer. -/
def Vote.lt (v w : Vote) : Bool :=
  v.cdata.cert.view < w.cdata.cert.view
    || (v.cdata.cert.view = w.cdata.cert.view && v.sign.signer < w.sign.signer)

section Calls

variable {Key : Type} (cr : Crypto Key) (verifyRaw : Sign → Key → Text → Bool)
  (vars : EnclaveVars Key)

def EnclaveVars.verifyCData (data : CData) (sign : Sign) : Bool :=
  vars.verifyText verifyRaw (Signs.one sign) (cdata2string data)

def EnclaveVars.verifyCert (c : Cert) : Bool :=
  vars.verifyText verifyRaw c.signs
    (natText Phase1.prepare.byte.toNat ++ natText c.view ++ hash2string c.hash)

/-- The first loop of `TEEaccum`: the signers and the votes in order. -/
def votesFrom (v : View) : List Vote → List PID → List Vote → List PID × List Vote
  | [], signers, ordVotes => (signers, ordVotes)
  | vote :: rest, signers, ordVotes =>
    if vote.cdata.phase = Phase1.newview.byte && vote.cdata.view = v
        && vote.sign.signer ∉ signers && vars.verifyCData verifyRaw vote.cdata vote.sign then
      votesFrom v rest (vote.sign.signer :: signers) (setInsert Vote.lt vote ordVotes)
    else
      votesFrom v rest signers ordVotes

/-- The second loop: the first vote whose certificate verifies; every one before it takes 1 off the
size. -/
def firstCertified : List Vote → ℕ → Option Cert × ℕ
  | [], size => (none, size)
  | vote :: rest, size =>
    if vars.verifyCert verifyRaw vote.cdata.cert then (some vote.cdata.cert, size)
    else firstCertified rest (size - 1)

/-- `TEEaccum`; `highestHash` is not initialised, and `uninit` is what it holds. -/
def plainTEEaccum (vs : Votes) (uninit : Hash) : Accum :=
  let v := (vs.get ⟨0, maxNumSignatures_pos⟩).cdata.view
  let (signers, ordVotes) := votesFrom verifyRaw vars v (vs.toList.take vars.qsize) [] []
  let (cert, size) := firstCertified verifyRaw vars ordVotes signers.length
  combAccumOf cr vars v ((cert.map Cert.view).getD 0) ((cert.map Cert.hash).getD uninit) size

/-- `TEEaccumSp` -/
def plainTEEaccumSp (vote : UVote) : Accum :=
  let cdata := vote.cdata
  let size :=
    if cdata.phase = Phase1.newview.byte && vars.verifyCert verifyRaw cdata.cert then
      countSigners ((vote.signs.entries.take vars.qsize).filter (vars.verifyCData verifyRaw cdata))
    else 0
  combAccumOf cr vars cdata.view cdata.cert.view cdata.cert.hash size

end Calls

end Raftel
