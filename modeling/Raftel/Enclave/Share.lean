import Raftel.Text

/-!
# The state shared by the ecalls

The variables that `initialize_variables` of `EnclaveShare.cpp` sets and the verification functions
that read them.  The signature check of a single signature, `verifySign`, is a parameter: it is
`verifyBuf` over ECDSA in the source and is instantiated by an ideal signature scheme in the
protocol proofs.  The checked text is of any type for the same reason.
-/

namespace Raftel

/-- `std::map` -/
abbrev StdMap (K V : Type) := AList fun _ : K => V

/-- `nodeinfo_t` -/
structure NodeInfo where
  pid : PID
  isTEE : Bool
  deriving DecidableEq

/-- The global variables of `EnclaveShare.cpp`. -/
structure EnclaveVars (Key : Type) where
  id : PID
  priv : Key
  qsize : ℕ
  tqsize : ℕ
  pubs : StdMap PID Key
  nodeIsTEE : StdMap PID Bool

/-- `initialize_variables`: the same key pair (`priv_key256`, `pub_key256`) is loaded for the
enclave itself and for every other node. -/
def initializeVariables {Key : Type} (privKey256 pubKey256 : Key) (me : PID) (others : List PID)
    (q tq : ℕ) (nodes : List NodeInfo) : EnclaveVars Key where
  id := me
  priv := privKey256
  qsize := q
  tqsize := tq
  pubs := others.foldl (fun m j => m.insert j pubKey256) ∅
  nodeIsTEE := nodes.foldl (fun m nd => m.insert nd.pid nd.isTEE) ∅

section Verify

variable {Key T : Type} (verifySign : Sign → Key → T → Bool)

/-- The loop of `verifySigns` over the remaining signatures, with the signers seen so far. -/
def verifySignsFrom (pubs : StdMap PID Key) (t : T) : List PID → List Sign → Bool
  | _, [] => true
  | unique, s :: ss =>
    if !s.set || s.signer ∈ unique then false
    else
      match pubs.lookup s.signer with
      | some pub => verifySign s pub t && verifySignsFrom pubs t (s.signer :: unique) ss
      | none => false

def verifySigns (pubs : StdMap PID Key) (signs : Signs) (t : T) : Bool :=
  if signs.size = 0 ∨ signs.size > maxNumSignatures then false
  else verifySignsFrom verifySign pubs t [] signs.entries

/-- `verifyText` -/
def EnclaveVars.verifyText (vars : EnclaveVars Key) (signs : Signs) (t : T) : Bool :=
  verifySigns verifySign vars.pubs signs t

/-- `verifyQuorum`: exactly `expectedSize` signatures of known nodes, TEE nodes only when
`teeOnly`. -/
def EnclaveVars.verifyQuorum (vars : EnclaveVars Key) (signs : Signs) (t : T)
    (expectedSize : ℕ) (teeOnly : Bool) : Bool :=
  if expectedSize = 0 ∨ expectedSize > maxNumSignatures ∨ signs.size ≠ expectedSize then false
  else if signs.entries.any fun s =>
      match vars.nodeIsTEE.lookup s.signer with
      | some isTEE => teeOnly && !isTEE
      | none => true then false
  else vars.verifyText verifySign signs t

end Verify

/-- The cryptography the ecalls rest on: SHA-256, the bytes `signBuf` leaves in the signature field
and the check of one signature. -/
structure Crypto (Key : Type) where
  sha256 : Text → Digest
  signBuf : Key → SignedText → Vector UInt8 signLen
  verifySign : Sign → Key → SignedText → Bool

/-- `signString`: signs with the enclave's private key, under the enclave's identifier. -/
def EnclaveVars.signString {Key : Type} (cr : Crypto Key) (vars : EnclaveVars Key)
    (t : SignedText) : Sign :=
  ⟨true, vars.id, cr.signBuf vars.priv t⟩

def EnclaveVars.verifyAccum {Key : Type} (cr : Crypto Key) (vars : EnclaveVars Key)
    (acc : Accum) : Bool :=
  vars.verifyText cr.verifySign (Signs.one acc.sign) (.accum acc.toAccumData)

end Raftel
