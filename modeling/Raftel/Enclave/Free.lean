import Raftel.Enclave.Share

/-!
# The ecalls without signatures

`EnclaveFree.cpp` and `EnclaveOP.cpp`: two components that authenticate with a hash of a secret, which all
enclaves hold, in place of a signature.  Each has an identifier, a quorum size and counters of its own,
and an initialisation of its own; the variables of `EnclaveShare.cpp` are not read.

Fields that a refused call leaves unwritten are those of the zeroed result.
-/

namespace Raftel

/-! ### Authenticators -/

/-- `auth_t` -/
structure Auth where
  id : PID
  hash : Hash

/-- A zeroed `hash_t` and a zeroed `auth_t`. -/
def Hash.zero : Hash := ⟨Vector.replicate _ 0, false⟩

def Auth.zero : Auth := ⟨0, Hash.zero⟩

/-- `auths_t` -/
structure Auths where
  size : ℕ
  auths : Vector Auth maxNumSignatures

/-- The authenticators in use. -/
def Auths.entries (a : Auths) : List Auth := a.auths.toList.take a.size

/-- `MAX_SIZE_PAYLOAD` of `config.h`. -/
def maxSizePayload : ℕ := 4096

/-- `payload_t` -/
structure Payload where
  size : ℕ
  data : Vector UInt8 maxSizePayload

def Payload.text (p : Payload) : Text := p.data.toList.take p.size

section Secret

variable (sha : Text → Digest) (secret : Text)

/-- `free_authenticate` and `op_authenticate`, under the identifier of the component. -/
def authenticate (id : PID) (text : Text) : Auth :=
  ⟨id, ⟨sha (natText id ++ secret ++ text), true⟩⟩

/-- `free_verify` and `op_verify` -/
def verifyAuth (text : Text) (a : Auth) : Bool :=
  a.hash.hash = sha (natText a.id ++ secret ++ text)

/-- `free_verifyAuths` and `op_verifyAuths` -/
def verifyAuths (text : Text) (auths : Auths) : Bool :=
  auths.entries.all (verifyAuth sha secret text)

/-- The number of different signers of authenticators that verify, of the first `qsize` ones. -/
def countAuths (qsize : ℕ) (text : Text) (auths : Auths) : ℕ :=
  (((auths.entries.take qsize).filter (verifyAuth sha secret text)).map Auth.id).dedup.length

end Secret

/-! ### `EnclaveFree.cpp` -/

/-- `fdata_t` -/
structure FData where
  justh : Hash
  justv : View
  view : View

/-- `fjust_t` -/
structure FJust where
  set : Bool
  data : FData
  auth : Auth

/-- `fjusts_t` -/
abbrev FJusts := Vector FJust (maxNumSignatures - 1)

/-- `ofjust_t` -/
structure OFJust where
  set : Bool
  data : FData
  auths : Auths

/-- `fvjust_t` -/
structure FVJust where
  set : Bool
  data : FData
  auth1 : Auth
  auth2 : Auth

/-- `pjust_t` -/
structure PJust where
  hash : Hash
  view : View
  auth : Auth
  auths : Auths

/-- `haccum_t` -/
structure HAccum where
  set : Bool
  view : View
  hash : Hash
  size : ℕ
  auth : Auth
  authp : Auth

/-- The variables `FREEprepv` .. `FREEqsize`; the phase `PH2A` is `true`. -/
structure FreeState where
  prepv : View
  view : View
  phase : Bool
  id : PID
  qsize : ℕ

def FreeState.init : FreeState := ⟨0, 0, true, 0, 0⟩

/-- `FREE_increment` -/
def FreeState.increment (st : FreeState) : FreeState :=
  if st.phase then { st with phase := false } else { st with phase := true, view := nextView st.view }

/-- The public ecalls of `EnclaveFree.cpp`. -/
inductive FreeEcall
  | initializeVariables (me : PID) (q : ℕ)
  | auth (text : Payload)
  | verify (text : Payload) (a : Auths)
  | verify2 (text1 : Payload) (a1 : Auths) (text2 : Payload) (a2 : Auths)
  | store (just : PJust)
  | accum (j : FJust) (js : FJusts) (prp : Hash)
  | accumSp (just : OFJust) (prp : Hash)

inductive FreeReply
  | status
  | auth (a : Auth)
  | bool (b : Bool)
  | just (j : FVJust)
  | accum (a : HAccum)

section Free

variable (sha : Text → Digest) (secret : Text)

/-- The text of the data of a new-view. -/
def FData.text (d : FData) : Text := natText d.justv ++ hash2string d.justh ++ natText d.view

/-- `free_verifyOrInit` -/
def FreeState.verifyOrInit (st : FreeState) (just : PJust) : Bool :=
  if st.view = 0 && st.phase && st.prepv = 0 && just.view = 0 && !just.hash.set then true
  else
    verifyAuth sha secret (hash2string just.hash ++ natText just.view) just.auth
      && verifyAuths sha secret (boolText true ++ natText just.view) just.auths

/-- `FREE_TEEstore` -/
def FreeState.store (st : FreeState) (just : PJust) : FVJust × FreeState :=
  if st.verifyOrInit sha secret just && just.view ≥ st.prepv then
    let st' := if st.phase then st else { st with view := nextView st.view, phase := true }
    let st' := { st' with prepv := just.view }
    (⟨true, ⟨just.hash, just.view, st'.view⟩,
      authenticate sha secret st'.id (boolText st'.phase ++ natText st'.view),
      authenticate sha secret st'.id
        (natText just.view ++ hash2string just.hash ++ natText st'.view)⟩, st'.increment)
  else (⟨false, ⟨Hash.zero, 0, 0⟩, Auth.zero, Auth.zero⟩, st)

/-- The loop of `FREE_TEEaccum`. -/
def freeAccumFrom (v highest : View) : List FJust → List PID → List PID
  | [], signers => signers
  | just :: rest, signers =>
    if just.data.view = v && just.auth.id ∉ signers && verifyAuth sha secret just.data.text just.auth
        && highest ≥ just.data.justv then
      freeAccumFrom v highest rest (just.auth.id :: signers)
    else
      freeAccumFrom v highest rest signers

/-- The accumulator that `FREE_TEEaccum` and `FREE_TEEaccumSp` return; outside of phase `PH2B` of its
view it is not set. -/
def FreeState.accumOf (st : FreeState) (view : View) (hash : Hash) (size : ℕ) (prp : Hash) : HAccum :=
  let auth := authenticate sha secret st.id
    (boolText true ++ natText view ++ hash2string hash ++ natText size)
  if !st.phase && view = st.view then
    ⟨true, view, hash, size, auth, authenticate sha secret st.id (hash2string prp ++ natText st.view)⟩
  else ⟨false, view, hash, size, auth, Auth.zero⟩

/-- `FREEqsize-1` is unsigned: it wraps when the size is 0. -/
def FreeState.accum (st : FreeState) (j : FJust) (js : FJusts) (prp : Hash) : HAccum :=
  let others := if st.qsize = 0 then js.toList else js.toList.take (st.qsize - 1)
  let signers := freeAccumFrom sha secret j.data.view j.data.justv others [j.auth.id]
  st.accumOf sha secret j.data.view j.data.justh signers.length prp

def FreeState.accumSp (st : FreeState) (just : OFJust) (prp : Hash) : HAccum :=
  st.accumOf sha secret just.data.view just.data.justh
    (countAuths sha secret st.qsize just.data.text just.auths) prp

def FreeState.call (st : FreeState) : FreeEcall → FreeReply × FreeState
  | .initializeVariables me q => (.status, { st with id := me, qsize := q })
  | .auth text => (.auth (authenticate sha secret st.id text.text), st)
  | .verify text a => (.bool (verifyAuths sha secret text.text a), st)
  | .verify2 text1 a1 text2 a2 =>
    (.bool (verifyAuths sha secret text1.text a1 && verifyAuths sha secret text2.text a2), st)
  | .store just => (st.store sha secret just).map .just fun st => st
  | .accum j js prp => (.accum (st.accum sha secret j js prp), st)
  | .accumSp just prp => (.accum (st.accumSp sha secret just prp), st)

end Free

/-! ### `EnclaveOP.cpp` -/

/-- `opstore_t` -/
structure OPStore where
  view : View
  hash : Hash
  v : View
  auth : Auth

/-- `opstores_t` -/
abbrev OPStores := Vector OPStore (maxNumSignatures - 1)

/-- `opprepare_t` -/
structure OPPrepare where
  view : View
  hash : Hash
  v : View
  auths : Auths

/-- `opproposal_t` -/
structure OPProposal where
  hash : Hash
  view : View
  auth : Auth

/-- `opvote_t`, with its one authenticator. -/
structure OPVote where
  hash : Hash
  view : View
  auth : Auth

/-- `opaccum_t`; `kind` is `true` for `NVka`. -/
structure OPAccum where
  set : Bool
  kind : Bool
  view : View
  hash : Hash
  size : ℕ
  auth : Auth

/-- The variables `OPprepv` .. `OPqsize`; the phase `OPpa` is `true`. -/
structure OPState where
  prepv : View
  view : View
  phase : Bool
  id : PID
  qsize : ℕ

def OPState.init : OPState := ⟨0, 0, true, 0, 0⟩

/-- The public ecalls of `EnclaveOP.cpp`. -/
inductive OPEcall
  | initializeVariables (me : PID) (q : ℕ)
  | verify (text : Payload) (a : Auths)
  | prepare (hash : Hash)
  | vote (hash : Hash)
  | store (just : OPProposal)
  | accum (j : OPStore) (js : OPStores)
  | accumSp (just : OPPrepare)

inductive OPReply
  | status
  | bool (b : Bool)
  | proposal (p : OPProposal)
  | vote (v : OPVote)
  | store (s : OPStore)
  | accum (a : OPAccum)

section OP

variable (sha : Text → Digest) (secret : Text)

/-- The text of a stored proposal. -/
def opStoreText (view : View) (hash : Hash) (v : View) : Text :=
  natText view ++ hash2string hash ++ natText v

/-- `OP_TEEprepare` -/
def OPState.prepare (st : OPState) (hash : Hash) : OPProposal × OPState :=
  if st.phase then
    (⟨hash, st.view, authenticate sha secret st.id (hash2string hash ++ natText st.view)⟩,
      { st with phase := false })
  else (⟨Hash.zero, 0, Auth.zero⟩, st)

/-- `OP_TEEvote` -/
def OPState.vote (st : OPState) (hash : Hash) : OPVote :=
  ⟨hash, st.view, authenticate sha secret st.id (hash2string hash ++ natText st.view)⟩

/-- `op_verifyOrInit` -/
def OPState.verifyOrInit (st : OPState) (just : OPProposal) : Bool :=
  if st.view = 0 && st.prepv = 0 && just.view = 0 && !just.hash.set then true
  else verifyAuth sha secret (hash2string just.hash ++ natText just.view) just.auth

/-- `OP_TEEstore` -/
def OPState.store (st : OPState) (just : OPProposal) : OPStore × OPState :=
  if st.verifyOrInit sha secret just && st.view ≥ just.view && just.view ≥ st.prepv then
    (⟨st.view, just.hash, just.view,
      authenticate sha secret st.id (opStoreText st.view just.hash just.view)⟩,
      { st with prepv := just.view, view := nextView st.view, phase := true })
  else (⟨0, Hash.zero, 0, Auth.zero⟩, st)

/-- The loop of `OP_TEEaccum`. -/
def opAccumFrom (v highest : View) : List OPStore → List PID → List PID
  | [], signers => signers
  | just :: rest, signers =>
    if v = just.view && just.auth.id ∉ signers
        && verifyAuth sha secret (opStoreText just.view just.hash just.v) just.auth
        && highest ≥ just.v then
      opAccumFrom v highest rest (just.auth.id :: signers)
    else
      opAccumFrom v highest rest signers

/-- The accumulator that `OP_TEEaccum` (of kind `NVkb`) and `OP_TEEaccumSp` (of kind `NVka`) return. -/
def OPState.accumOf (st : OPState) (kind : Bool) (view : View) (hash : Hash) (size : ℕ) : OPAccum :=
  ⟨true, kind, view, hash, size, authenticate sha secret st.id
    (boolText true ++ boolText kind ++ natText view ++ hash2string hash ++ natText size)⟩

def OPState.accum (st : OPState) (j : OPStore) (js : OPStores) : OPAccum :=
  let others := if st.qsize = 0 then js.toList else js.toList.take (st.qsize - 1)
  let signers := opAccumFrom sha secret j.view j.v others [j.auth.id]
  st.accumOf sha secret false j.view j.hash signers.length

def OPState.accumSp (st : OPState) (just : OPPrepare) : OPAccum :=
  st.accumOf sha secret true just.view just.hash
    (countAuths sha secret st.qsize (opStoreText just.view just.hash just.v) just.auths)

def OPState.call (st : OPState) : OPEcall → OPReply × OPState
  | .initializeVariables me q => (.status, { st with id := me, qsize := q })
  | .verify text a => (.bool (verifyAuths sha secret text.text a), st)
  | .prepare hash => (st.prepare sha secret hash).map .proposal fun st => st
  | .vote hash => (.vote (st.vote sha secret hash), st)
  | .store just => (st.store sha secret just).map .store fun st => st
  | .accum j js => (.accum (st.accum sha secret j js), st)
  | .accumSp just => (.accum (st.accumSp sha secret just), st)

end OP

end Raftel
