import Raftel.Enclave.Comb

/-!
# The component of a replica without a TEE

`App/TrustedComb.cpp`: the same calls as the enclave's, run by the host in its own memory.  The
state is the same; the checks read the host's table of nodes and differ from the enclave's in a few
places (a dummy block has a hash, an unset accumulator or signature of an accumulator is not
refused, an accumulator is built from justifications with exactly one signature).
-/

namespace Raftel

/-- What the host's `Nodes` hold of a node. -/
structure HostNode (Key : Type) where
  pub : Key
  isTEE : Bool

abbrev Nodes (Key : Type) := StdMap PID (HostNode Key)

/-- The fields of `TrustedComb` that never change, with the nodes its calls are given. -/
structure TrustedVars (Key : Type) where
  id : PID
  priv : Key
  qsize : ℕ
  tqsize : ℕ
  nodes : Nodes Key

/-- `Signs::verify`: every signature in use is from a known node and verifies. -/
def Signs.verify {Key T : Type} (verifySign : Sign → Key → T → Bool) (nodes : Nodes Key)
    (signs : Signs) (t : T) : Bool :=
  signs.entries.all fun s =>
    match nodes.lookup s.signer with
    | some nd => verifySign s nd.pub t
    | none => false

/-- The loop over the signatures of `verifyQuorum` and `verifyCombSigns`: set, from known and
different nodes.  The result is whether all of them are TEE nodes. -/
def hostSignersFrom {Key : Type} (nodes : Nodes Key) : List Sign → List PID → Bool → Option Bool
  | [], _, allTEE => some allTEE
  | s :: ss, unique, allTEE =>
    match nodes.lookup s.signer with
    | none => none
    | some nd =>
      if !s.set || s.signer ∈ unique then none
      else hostSignersFrom nodes ss (s.signer :: unique) (allTEE && nd.isTEE)

section Calls

variable {Key : Type} (cr : Crypto Key) (vars : TrustedVars Key)

/-- `Sign(priv, id, text)` -/
def TrustedVars.signString (t : SignedText) : Sign := ⟨true, vars.id, cr.signBuf vars.priv t⟩

/-- `verifyQuorum` of `TrustedComb.cpp`. -/
def trustedVerifyQuorum (data : RData) (signs : Signs) : Bool :=
  if (signs.size ≠ vars.tqsize ∧ signs.size ≠ vars.qsize) ∨ signs.size = 0
      ∨ signs.size > maxNumSignatures then false
  else
    match hostSignersFrom vars.nodes signs.entries [] true with
    | none => false
    | some allTEE =>
      if signs.size ≠ vars.qsize ∧ ¬(signs.size = vars.tqsize ∧ allTEE) then false
      else signs.verify cr.verifySign vars.nodes (.rdata data)

/-- `TrustedComb::sign` -/
def trustedSign (h₁ h₂ : Hash) (v₂ : View) (st : CombState) : Just × CombState :=
  let rdata : RData := ⟨h₁, st.view, h₂, v₂, st.phase.byte⟩
  (⟨true, rdata, Signs.one (vars.signString cr (.rdata rdata))⟩, st.increment)

/-- `TrustedComb::TEEsign` -/
def trustedTEEsign (st : CombState) : Just × CombState :=
  trustedSign cr vars noHash st.preph st.prepv st

/-- The loop of `TrustedComb::TEEprepare` over the proof. -/
def trustedProofFrom (view : View) :
    List OneJust → Bool → List PID → View → Hash → Option (Bool × View × Hash)
  | [], allTEE, _, highest, highestHash => some (allTEE, highest, highestHash)
  | raw :: rest, allTEE, signers, highest, highestHash =>
    match vars.nodes.lookup raw.sign.signer with
    | none => none
    | some node =>
      if raw.set && raw.sign.set && raw.sign.signer ∉ signers
          && raw.rdata.phase = Phase1.newview.byte && raw.rdata.propv = view
          && (Signs.one raw.sign).verify cr.verifySign vars.nodes (.rdata raw.rdata) then
        if raw.rdata.justv ≥ highest then
          trustedProofFrom view rest (allTEE && node.isTEE) (raw.sign.signer :: signers)
            raw.rdata.justv raw.rdata.justh
        else
          trustedProofFrom view rest (allTEE && node.isTEE) (raw.sign.signer :: signers)
            highest highestHash
      else none

/-- `validProof` at the end of the loop of `TrustedComb::TEEprepare`. -/
def trustedValidProof (view : View) (proof : NewViews) (acc : Accum) : Bool :=
  if proof.size > 0 ∧ proof.size ≤ maxNumSignatures
      ∧ (proof.size = vars.qsize ∨ proof.size = vars.tqsize) then
    match trustedProofFrom cr vars view proof.entries true [] 0 newHash with
    | none => false
    | some (allTEE, highest, highestHash) =>
      (proof.size = vars.qsize || (proof.size = vars.tqsize && allTEE))
        && acc.size = proof.size && acc.view = view && acc.prepv = highest
        && eqHashes acc.hash highestHash
  else false

/-- `TrustedComb::TEEprepare` -/
def trustedTEEprepare (block : Block) (acc : Accum) (proof : NewViews) (st : CombState) :
    Just × CombState :=
  let hash := block.hash cr.sha256
  if trustedValidProof cr vars st.view proof acc && safeParent block acc st
      && (Signs.one acc.sign).verify cr.verifySign vars.nodes (.accum acc.toAccumData) then
    let st' :=
      if (vars.nodes.lookup acc.sign.signer).any (·.isTEE) then
        { st with preph := hash, prepv := st.view }
      else st
    trustedSign cr vars hash acc.hash acc.prepv st'
  else (Just.none, st)

/-- `TrustedComb::TEEstore` -/
def trustedTEEstore (just : Just) (st : CombState) : Just × CombState :=
  let rd := just.rdata
  if trustedVerifyQuorum cr vars rd just.signs && st.view = rd.propv
      && (rd.phase = Phase1.prepare.byte || rd.phase = Phase1.precommit.byte) then
    trustedSign cr vars rd.proph newHash 0 (st.stored rd)
  else (Just.none, st)

/-- The loop of `TrustedComb::TEEaccum`. -/
def trustedAccumFrom (v : View) :
    List Just → List PID → View → Hash → List PID × View × Hash
  | [], signers, highest, hash => (signers, highest, hash)
  | just :: rest, signers, highest, hash =>
    let data := just.rdata
    let signer := (just.signs.get 0).signer
    if just.signs.size = 1 && data.phase = Phase1.newview.byte && data.propv = v
        && signer ∉ signers && just.signs.verify cr.verifySign vars.nodes (.rdata data) then
      if data.justv ≥ highest then
        trustedAccumFrom v rest (signer :: signers) data.justv data.justh
      else
        trustedAccumFrom v rest (signer :: signers) highest hash
    else
      trustedAccumFrom v rest signers highest hash

/-- The accumulator that is signed and returned. -/
def trustedAccumOf (v highest : View) (hash : Hash) (size : ℕ) : Accum :=
  let data : AccumData := ⟨true, v, highest, hash, size⟩
  ⟨data, vars.signString cr (.accum data)⟩

/-- `TrustedComb::TEEaccum` -/
def trustedTEEaccum (justs : Vector Just maxNumSignatures) : Accum :=
  let v := (justs.get ⟨0, maxNumSignatures_pos⟩).rdata.propv
  let (signers, highest, hash) :=
    trustedAccumFrom cr vars v (justs.toList.take vars.qsize) [] 0 newHash
  trustedAccumOf cr vars v highest hash signers.length

/-- `TrustedComb::TEEaccumSp` -/
def trustedTEEaccumSp (just : Just) : Accum :=
  let rd := just.rdata
  let size :=
    if rd.phase = Phase1.newview.byte then
      countSigners ((just.signs.entries.take vars.qsize).filter fun s =>
        (Signs.one s).verify cr.verifySign vars.nodes (.rdata rd))
    else 0
  trustedAccumOf cr vars rd.propv rd.justv rd.justh size

end Calls

end Raftel
