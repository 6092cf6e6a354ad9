import Raftel.Enclave.Families

/-!
# The chained component in the host

`App/TrustedChComb.cpp`: the calls of `EnclaveChComb.cpp`, run by the host on its own class of chained
blocks (`App/CBlock.cpp`).  The state is the same.  `verify` asks for less than the enclave's
`verifyCA`: signatures may repeat, and there may be none; and it puts the hash `Hash()` where the
enclave puts `noHash()`.
-/

namespace Raftel

/-- `MAX_NUM_TEE_SIGNATURES` of `params.h`. -/
def maxNumTEESignatures : ℕ := 13

/-! ### Chained blocks -/

/-- `CBlock::toString`.  `CA::toString` is the text of `ca2string`; the payloads are appended as they
are. -/
def CBlock.toText (b : CBlock) : Text :=
  boolText b.set ++ natText b.view ++ ca2string b.cert ++ natText b.size
    ++ (b.trans.toList.take b.size).flatMap transaction2string

/-- `CBlock::hash` -/
def CBlock.hash (sha : Text → Digest) (b : CBlock) : Hash := ⟨sha b.toText, true⟩

/-- `CBlock::markExecuted` -/
def CBlock.markExecuted (b : CBlock) : CBlock := { b with executed := true }

/-- The mark is left out of the hash. -/
@[simp]
theorem CBlock.hash_markExecuted (sha : Text → Digest) (b : CBlock) :
    b.markExecuted.hash sha = b.hash sha := rfl

/-- `CA()` -/
def CA.new : CA := .cert ⟨0, noHash, Signs.empty⟩

/-- `CA::isSet` -/
def CA.isSet : CA → Bool
  | .cert c => c.hash.set
  | .accum a => a.set

/-- `CA::getSigns` -/
def CA.getSigns : CA → Signs
  | .cert c => c.signs
  | .accum a => Signs.one a.sign

/-- `ldrPrepareChComb2just`: the vote that the leader's proposal of `block` stands for. -/
def ldrPrepareChComb2just (sha : Text → Digest) (block : CBlock) (sign : Sign) : Just :=
  ⟨true, ⟨block.hash sha, block.view, newHash, 0, Phase1.prepare.byte⟩, Signs.one sign⟩

section Calls

variable {Key : Type} (cr : Crypto Key) (vars : TrustedVars Key)

/-- `TrustedChComb::sign` -/
def trustedChCombSign (h₁ h₂ : Hash) (v₂ : View) (st : PrepState) : Just × PrepState :=
  let rdata : RData := ⟨h₁, st.view, h₂, v₂, st.phase.byte⟩
  (⟨true, rdata, Signs.one (vars.signString cr (.rdata rdata))⟩, st.chIncrement)

/-- `TrustedChComb::TEEsign` -/
def trustedChCombTEEsign (st : PrepState) : Just × PrepState :=
  trustedChCombSign cr vars noHash st.preph st.prepv st

/-- `verify` of `TrustedChComb.cpp`. -/
def trustedChCombVerify : CA → Bool
  | .cert c => c.signs.verify cr.verifySign vars.nodes
      (.rdata ⟨c.hash, c.view, newHash, 0, Phase1.prepare.byte⟩)
  | .accum a => (Signs.one a.sign).verify cr.verifySign vars.nodes (.accum a.toAccumData)

/-- `TrustedChComb::TEEprepare` -/
def trustedChCombTEEprepare (block : CBlock) (hash : Hash) (st : PrepState) : Just × PrepState :=
  let cert := block.cert
  if trustedChCombVerify cr vars cert && st.view = nextView (ca2cview cert) then
    let st' :=
      if eqHashes (ca2hash cert) hash then
        { st with preph := ca2hash cert, prepv := ca2view cert }
      else st
    trustedChCombSign cr vars (block.hash cr.sha256) newHash 0 st'
  else (Just.none, st)

/-- `TrustedChComb::TEEaccum`; the loop is that of `TrustedComb::TEEaccum`. -/
def trustedChCombTEEaccum (justs : Vector Just maxNumSignatures) : Accum :=
  let v := (justs.get ⟨0, maxNumSignatures_pos⟩).rdata.propv
  let (signers, highest, hash) :=
    trustedAccumFrom cr vars v (justs.toList.take (min maxNumTEESignatures vars.qsize)) [] 0 newHash
  trustedAccumOf cr vars v highest hash signers.length

/-- `TrustedChComb::TEEaccumSp` -/
def trustedChCombTEEaccumSp (just : Just) : Accum :=
  let rd := just.rdata
  let size :=
    if rd.phase = Phase1.newview.byte then
      countSigners ((just.signs.entries.take (min maxNumTEESignatures vars.qsize)).filter fun s =>
        (Signs.one s).verify cr.verifySign vars.nodes (.rdata rd))
    else 0
  trustedAccumOf cr vars rd.propv rd.justv rd.justh size

end Calls

end Raftel
