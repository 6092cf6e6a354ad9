import Raftel.Enclave.Share

/-!
# The trusted component of a TEE replica

The `COMB_*` ecalls of `EnclaveComb.cpp`, as functions from the state of the enclave to the reply
and the next state.  A refused call replies with an unset justification and leaves the state as it
was.
-/

namespace Raftel

/-- The variables `COMBpreph` .. `COMBphase`, which `TrustedComb` holds as fields. -/
structure CombState where
  preph : Hash
  prepv : View
  lockh : Hash
  lockv : View
  view : View
  phase : Phase1
  deriving DecidableEq

/-- View 0 is reserved for the genesis block. -/
def CombState.init : CombState := ⟨newHash, 0, newHash, 0, 1, .newview⟩

/-- `COMB_increment`: the next (view, phase) pair. -/
def CombState.increment (st : CombState) : CombState :=
  match st.phase with
  | .newview => { st with phase := .prepare }
  | .prepare => { st with phase := .precommit }
  | .precommit => { st with phase := .commit }
  | .commit => { st with phase := .newview, view := nextView st.view }

variable {Key : Type} (cr : Crypto Key) (vars : EnclaveVars Key)

/-- `COMB_sign`: the view and the phase of the signed data are the component's own. -/
def combSign (h₁ h₂ : Hash) (v₂ : View) (st : CombState) : Just × CombState :=
  let rdata : RData := ⟨h₁, st.view, h₂, v₂, st.phase.byte⟩
  (⟨true, rdata, Signs.one (vars.signString cr (.rdata rdata))⟩, st.increment)

def combTEEsign (st : CombState) : Just × CombState :=
  combSign cr vars noHash st.preph st.prepv st

/-- The loop of `COMB_validateNewViews`; the result is `allTEE`, `highest` and `highestHash`, or
nothing when an entry is refused. -/
def combValidateFrom (view : View) :
    List OneJust → Bool → List PID → View → Hash → Option (Bool × View × Hash)
  | [], allTEE, _, highest, highestHash => some (allTEE, highest, highestHash)
  | entry :: rest, allTEE, signers, highest, highestHash =>
    match vars.nodeIsTEE.lookup entry.sign.signer with
    | none => none
    | some isTEE =>
      if !entry.set || entry.sign.signer ∈ signers || entry.rdata.phase ≠ Phase1.newview.byte
          || entry.rdata.propv ≠ view
          || !vars.verifyText cr.verifySign (Signs.one entry.sign) (.rdata entry.rdata) then
        none
      else if entry.rdata.justv ≥ highest then
        combValidateFrom view rest (allTEE && isTEE) (entry.sign.signer :: signers)
          entry.rdata.justv entry.rdata.justh
      else
        combValidateFrom view rest (allTEE && isTEE) (entry.sign.signer :: signers)
          highest highestHash

/-- `COMB_validateNewViews`, in the given view of the component. -/
def combValidateNewViews (view : View) (newviews : NewViews) (acc : Accum) : Bool :=
  if newviews.size = 0 ∨ newviews.size > maxNumSignatures
      ∨ (newviews.size ≠ vars.qsize ∧ newviews.size ≠ vars.tqsize) then false
  else
    match combValidateFrom cr vars view newviews.entries true [] 0 newHash with
    | none => false
    | some (allTEE, highest, highestHash) =>
      let validType := newviews.size = vars.qsize ∨ (newviews.size = vars.tqsize ∧ allTEE)
      validType && acc.set && acc.view = view && acc.size = newviews.size && acc.prepv = highest
        && eqHashes acc.hash highestHash && vars.verifyAccum cr acc

/-- The rule that decides whether a block may extend the accumulated one. -/
def safeParent (block : Block) (acc : Accum) (st : CombState) : Bool :=
  eqHashes block.prevHash acc.hash && (eqHashes block.prevHash st.lockh || acc.prepv > st.lockv)

def combTEEprepare (block : Block) (acc : Accum) (newviews : NewViews) (st : CombState) :
    Just × CombState :=
  let hash := combHashBlock cr.sha256 block
  if hash.set && combValidateNewViews cr vars st.view newviews acc && safeParent block acc st then
    -- a block proposed by a TEE leader is prepared at once
    let st' :=
      if vars.nodeIsTEE.lookup acc.sign.signer = some true then
        { st with preph := hash, prepv := st.view }
      else st
    combSign cr vars hash acc.hash acc.prepv st'
  else (Just.none, st)

/-- The two kinds of certificate that `COMB_TEEstore` takes. -/
def combValidQC (just : Just) : Bool :=
  (just.signs.size = vars.tqsize
      && vars.verifyQuorum cr.verifySign just.signs (.rdata just.rdata) vars.tqsize true)
    || (just.signs.size = vars.qsize
      && vars.verifyQuorum cr.verifySign just.signs (.rdata just.rdata) vars.qsize false)

/-- The checks of `TEEstore` after the quorum, and the update: a certificate of the component's own
view prepares the block, one of phase `precommit` also locks it. -/
def CombState.stored (st : CombState) (rd : RData) : CombState :=
  let st' := { st with preph := rd.proph, prepv := rd.propv }
  if rd.phase = Phase1.precommit.byte then { st' with lockh := rd.proph, lockv := rd.propv } else st'

@[simp]
theorem CombState.stored_view (st : CombState) (rd : RData) : (st.stored rd).view = st.view := by
  unfold CombState.stored
  dsimp only
  split <;> rfl

@[simp]
theorem CombState.stored_phase (st : CombState) (rd : RData) :
    (st.stored rd).phase = st.phase := by
  unfold CombState.stored
  dsimp only
  split <;> rfl

def combTEEstore (just : Just) (st : CombState) : Just × CombState :=
  let rd := just.rdata
  if combValidQC cr vars just && st.view = rd.propv
      && (rd.phase = Phase1.prepare.byte || rd.phase = Phase1.precommit.byte) then
    combSign cr vars rd.proph newHash 0 (st.stored rd)
  else (Just.none, st)

/-! ### Accumulators -/

/-- The loop of `COMB_TEEaccum`: entries that fail a check are skipped.  The result is the signers,
`highest` and `hash`. -/
def combAccumFrom (v : View) :
    List OneJust → List PID → View → Hash → List PID × View × Hash
  | [], signers, highest, hash => (signers, highest, hash)
  | just :: rest, signers, highest, hash =>
    let data := just.rdata
    if data.phase = Phase1.newview.byte && data.propv = v && just.sign.signer ∉ signers
        && vars.verifyText cr.verifySign (Signs.one just.sign) (.rdata data) then
      if data.justv ≥ highest then
        combAccumFrom v rest (just.sign.signer :: signers) data.justv data.justh
      else
        combAccumFrom v rest (just.sign.signer :: signers) highest hash
    else
      combAccumFrom v rest signers highest hash

/-- The accumulator that is signed and returned. -/
def combAccumOf (v highest : View) (hash : Hash) (size : ℕ) : Accum :=
  let data : AccumData := ⟨true, v, highest, hash, size⟩
  ⟨data, vars.signString cr (.accum data)⟩

def combTEEaccum (js : OneJusts) : Accum :=
  let v := (js.get ⟨0, maxNumSignatures_pos⟩).rdata.propv
  let (signers, highest, hash) :=
    combAccumFrom cr vars v (js.toList.take vars.qsize) [] 0 newHash
  combAccumOf cr vars v highest hash signers.length

/-- The number of different signers, counted by insertion into a set. -/
def countSigners (ss : List Sign) : ℕ :=
  (ss.foldl (fun signers s => if s.signer ∈ signers then signers else s.signer :: signers) []).length

def combTEEaccumSp (just : Just) : Accum :=
  let rd := just.rdata
  let size :=
    if rd.phase = Phase1.newview.byte
        && vars.verifyText cr.verifySign just.signs (.rdata rd) then
      countSigners (just.signs.entries.take vars.qsize)
    else 0
  combAccumOf cr vars rd.propv rd.justv rd.justh size

end Raftel
