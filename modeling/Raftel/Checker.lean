import Raftel.TrustedComb

/-!
# The checker, abstractly

What a trusted component is for, said once for the enclave and for the host's copy of it: a state
with a (view, phase) counter, and three calls that may make it sign an `RData` of the counter's own
view and phase.  `Accepts` lists everything an accepted call can do, guards included; a refused call
changes nothing.

* `Certified` : what a quorum certificate is, whichever function verified it
* `ValidProof` : what the new-view justifications behind an accumulator are
* `Call`, `Reply` : the interface of a component; `enclaveCall` and `trustedCall` are its two
  implementations
-/

namespace Raftel

/-- What a component knows about the system: the quorum sizes, the type of every known node and
which signatures verify. -/
structure CheckEnv where
  qsize : ℕ
  tqsize : ℕ
  isTEE : PID → Option Bool
  verified : Sign → SignedText → Prop
  sha256 : Text → Digest

/-- A quorum certificate for `rd`: different known signers, whose signatures verify, either `tqsize`
TEE nodes or `qsize` nodes of any type. -/
structure Certified (env : CheckEnv) (rd : RData) (signs : Signs) : Prop where
  size_pos : 0 < signs.size
  size_le : signs.size ≤ maxNumSignatures
  nodup : (signs.entries.map Sign.signer).Nodup
  known : ∀ s ∈ signs.entries, s.set ∧ (env.isTEE s.signer).isSome
  verified : ∀ s ∈ signs.entries, env.verified s (.rdata rd)
  kind : (signs.size = env.tqsize ∧ ∀ s ∈ signs.entries, env.isTEE s.signer = some true)
    ∨ signs.size = env.qsize

/-- The loop invariant of the accumulators: the last of the pairs (`justv`, `justh`) with the
highest view, from the genesis pair on. -/
def highestJust (v : View) (h : Hash) : List RData → View × Hash
  | [] => (v, h)
  | d :: ds => if d.justv ≥ v then highestJust d.justv d.justh ds else highestJust v h ds

/-- New-view justifications for the given view, with the accumulator they are the proof of. -/
structure ValidProof (env : CheckEnv) (view : View) (nvs : NewViews) (acc : Accum) : Prop where
  size_pos : 0 < nvs.size
  size_le : nvs.size ≤ maxNumSignatures
  nodup : (nvs.entries.map fun e => e.sign.signer).Nodup
  known : ∀ e ∈ nvs.entries, (env.isTEE e.sign.signer).isSome
  newview : ∀ e ∈ nvs.entries, e.rdata.phase = Phase1.newview.byte ∧ e.rdata.propv = view
  verified : ∀ e ∈ nvs.entries, env.verified e.sign (.rdata e.rdata)
  kind : nvs.size = env.qsize
    ∨ (nvs.size = env.tqsize ∧ ∀ e ∈ nvs.entries, env.isTEE e.sign.signer = some true)
  acc_view : acc.view = view
  acc_size : acc.size = nvs.size
  acc_prepv : acc.prepv = (highestJust 0 newHash (nvs.entries.map OneJust.rdata)).1
  acc_hash : acc.hash.hash = (highestJust 0 newHash (nvs.entries.map OneJust.rdata)).2.hash
  acc_verified : env.verified acc.sign (.accum acc.toAccumData)

/-! ### The interface -/

/-- The calls of a component.  The justifications of `accum` are the host's; the enclave is given
their first signatures (`setOneJusts`). -/
inductive Call
  | sign
  | prepare (block : Block) (acc : Accum) (newviews : NewViews)
  | store (just : Just)
  | accum (justs : Vector Just maxNumSignatures)
  | accumSp (just : Just)

/-- The calls that return an accumulator. -/
def Call.isAccum : Call → Bool
  | accum _ => true
  | accumSp _ => true
  | _ => false

inductive Reply
  | just (j : Just)
  | accum (a : Accum)

/-- What the component has signed to give this reply. -/
def Reply.signed : Reply → List SignedText
  | just j => if j.set then [.rdata j.rdata] else []
  | accum a => [.accum a.toAccumData]

/-- The `RData` that was signed, if the call was accepted. -/
def Reply.rdata? : Reply → Option RData
  | just j => if j.set then some j.rdata else none
  | accum _ => none

theorem Reply.rdata_mem_signed {r : Reply} {rd : RData} :
    SignedText.rdata rd ∈ r.signed ↔ r.rdata? = some rd := by
  cases r with
  | just j => by_cases h : j.set <;> simp [signed, rdata?, h, eq_comm]
  | accum a => simp [signed, rdata?]

/-- `setOneJust` -/
def setOneJust (just : Just) : OneJust := ⟨just.set, just.rdata, just.signs.get 0⟩

def enclaveCall {Key : Type} (cr : Crypto Key) (vars : EnclaveVars Key) (st : CombState) :
    Call → Reply × CombState
  | .sign => (combTEEsign cr vars st).map .just id
  | .prepare block acc nvs => (combTEEprepare cr vars block acc nvs st).map .just id
  | .store just => (combTEEstore cr vars just st).map .just id
  | .accum justs => (.accum (combTEEaccum cr vars (justs.map setOneJust)), st)
  | .accumSp just => (.accum (combTEEaccumSp cr vars just), st)

def trustedCall {Key : Type} (cr : Crypto Key) (vars : TrustedVars Key) (st : CombState) :
    Call → Reply × CombState
  | .sign => (trustedTEEsign cr vars st).map .just id
  | .prepare block acc nvs => (trustedTEEprepare cr vars block acc nvs st).map .just id
  | .store just => (trustedTEEstore cr vars just st).map .just id
  | .accum justs => (.accum (trustedTEEaccum cr vars justs), st)
  | .accumSp just => (.accum (trustedTEEaccumSp cr vars just), st)

/-! ### What a call does -/

/-- The state in which `TEEprepare` signs: a TEE leader's block becomes the prepared one. -/
def CombState.prepared (st : CombState) (env : CheckEnv) (block : Block) (acc : Accum) :
    CombState :=
  if env.isTEE acc.sign.signer = some true then
    { st with preph := block.hash env.sha256, prepv := st.view }
  else st

@[simp]
theorem CombState.prepared_view (st : CombState) (env : CheckEnv) (block : Block) (acc : Accum) :
    (st.prepared env block acc).view = st.view := by
  unfold CombState.prepared
  split <;> rfl

@[simp]
theorem CombState.prepared_phase (st : CombState) (env : CheckEnv) (block : Block) (acc : Accum) :
    (st.prepared env block acc).phase = st.phase := by
  unfold CombState.prepared
  split <;> rfl

/-- The accepted calls of a component in state `st`: with the data `rd` that it signs and its next
state `st'`. -/
inductive Accepts (env : CheckEnv) (st : CombState) (rd : RData) (st' : CombState) : Call → Prop
  | sign (data : rd = ⟨noHash, st.view, st.preph, st.prepv, st.phase.byte⟩)
      (next : st' = st.increment) : Accepts env st rd st' .sign
  | prepare {block : Block} {acc : Accum} {nvs : NewViews}
      (proof : ValidProof env st.view nvs acc)
      (parent : block.prevHash.hash = acc.hash.hash)
      (safe : block.prevHash.hash = st.lockh.hash ∨ st.lockv < acc.prepv)
      (data : rd = ⟨block.hash env.sha256, st.view, acc.hash, acc.prepv, st.phase.byte⟩)
      (next : st' = (st.prepared env block acc).increment) :
      Accepts env st rd st' (.prepare block acc nvs)
  | store {just : Just}
      (cert : Certified env just.rdata just.signs)
      (view : just.rdata.propv = st.view)
      (phase : just.rdata.phase = Phase1.prepare.byte ∨ just.rdata.phase = Phase1.precommit.byte)
      (data : rd = ⟨just.rdata.proph, st.view, newHash, 0, st.phase.byte⟩)
      (next : st' = (st.stored just.rdata).increment) : Accepts env st rd st' (.store just)

/-- The outcome of a call: accepted, with a justification for the signed data; or no `RData` is
signed and the state stays as it is. -/
inductive Outcome (env : CheckEnv) (st : CombState) (c : Call) (reply : Reply) (st' : CombState) :
    Prop
  | accepted (j : Just) (hreply : reply = .just j) (set : j.set = true)
      (acc : Accepts env st j.rdata st' c)
  | refused (j : Just) (hreply : reply = .just j) (set : j.set = false) (same : st' = st)
  | accum (a : Accum) (hreply : reply = .accum a) (same : st' = st)

end Raftel
