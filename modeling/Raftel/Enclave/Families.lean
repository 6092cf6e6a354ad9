import Raftel.Checker

/-!
# The other ecalls of the enclave

One enclave holds the trusted components of six protocols: the hybrid one (`COMB_*`), the plain
checker of `Enclave.cpp`, Damysus, the two chained ones of `EnclaveCh.cpp` and `EnclaveChComb.cpp`
and Achilles, which compiles `EnclaveChComb.cpp` again under other names.  Each has its own
variables; they share the identifier, the key, the verification functions and the format of the
signed texts.
-/

namespace Raftel

/-! ### Chained blocks -/

/-- `cert_t` -/
structure Cert where
  view : View
  hash : Hash
  signs : Signs
  deriving DecidableEq

/-- `ca_t`: a tagged union. -/
inductive CA
  | cert (c : Cert)
  | accum (a : Accum)
  deriving DecidableEq

/-- `jblock_t` -/
structure JBlock where
  set : Bool
  executed : Bool
  view : View
  just : Just
  size : ℕ
  trans : Vector Transaction maxNumTransactions
  deriving DecidableEq

/-- `cblock_t` -/
structure CBlock where
  set : Bool
  executed : Bool
  view : View
  cert : CA
  size : ℕ
  trans : Vector Transaction maxNumTransactions
  deriving DecidableEq

def sign2string (s : Sign) : Text := boolText s.set ++ natText s.signer ++ s.sign.toList

def signs2string (ss : Signs) : Text := natText ss.size ++ ss.entries.flatMap sign2string

def cert2string (c : Cert) : Text :=
  natText c.view ++ hash2string c.hash ++ signs2string c.signs

def accum2string (a : Accum) : Text := accumData2string a.toAccumData ++ sign2string a.sign

def ca2string : CA → Text
  | .cert c => cert2string c
  | .accum a => accum2string a

def just2string (j : Just) : Text := boolText j.set ++ rdata2string j.rdata ++ signs2string j.signs

/-- `transactions2string` of `EnclaveShare.cpp`: here every byte of the payload is written in
decimal. -/
def chTransactions2string (size : ℕ) (trans : Vector Transaction maxNumTransactions) : Text :=
  (trans.toList.take size).flatMap fun t =>
    natText t.clientid ++ natText t.transid ++ t.data.toList.flatMap fun b => natText b.toNat

def jblock2string (b : JBlock) : Text :=
  boolText b.set ++ natText b.view ++ just2string b.just ++ natText b.size
    ++ chTransactions2string b.size b.trans

def cblock2string (b : CBlock) : Text :=
  boolText b.set ++ natText b.view ++ ca2string b.cert ++ natText b.size
    ++ chTransactions2string b.size b.trans

def hashJBlock (sha : Text → Digest) (b : JBlock) : Hash := ⟨sha (jblock2string b), true⟩

def hashCBlock (sha : Text → Digest) (b : CBlock) : Hash := ⟨sha (cblock2string b), true⟩

def ca2hash : CA → Hash
  | .cert c => c.hash
  | .accum a => a.hash

def ca2view : CA → View
  | .cert c => c.view
  | .accum a => a.prepv

def ca2cview : CA → View
  | .cert c => c.view
  | .accum a => a.view

/-- `new_cblock_t()`, the genesis block of the chained protocols. -/
def genBlock : CBlock :=
  ⟨true, false, 0, .cert ⟨0, noHash, Signs.empty⟩, 0, Vector.replicate _ Transaction.dummy⟩

def wellFormedInit (j : Just) : Bool :=
  j.rdata.propv = 0 && j.rdata.justv = 0 && j.rdata.phase = Phase1.newview.byte && j.signs.size = 0

def wellFormedNv (j : Just) : Bool :=
  j.rdata.justh.set && j.rdata.phase = Phase1.newview.byte && j.signs.size = 1

def wellFormedPrep (qsize : ℕ) (j : Just) : Bool :=
  j.rdata.proph.set && j.rdata.phase = Phase1.prepare.byte && j.signs.size = qsize

/-- `WF` -/
def wellFormed (qsize : ℕ) (j : Just) : Bool :=
  wellFormedInit j || wellFormedNv j || wellFormedPrep qsize j

def just2cview (j : Just) : View :=
  if wellFormedInit j || wellFormedNv j then j.rdata.justv else j.rdata.propv

def just2chash (j : Just) : Hash :=
  if wellFormedInit j || wellFormedNv j then j.rdata.justh else j.rdata.proph

/-! ### The state of the enclave -/

/-- The variables of Damysus and of the chained accumulator protocols, which have no lock. -/
structure PrepState where
  preph : Hash
  prepv : View
  view : View
  phase : Phase1
  deriving DecidableEq

/-- `DAMYSUS_increment`: three phases a view. -/
def PrepState.damysusIncrement (st : PrepState) : PrepState :=
  match st.phase with
  | .newview => { st with phase := .prepare }
  | .prepare => { st with phase := .precommit }
  | .precommit => { st with phase := .newview, view := nextView st.view }
  | .commit => st

/-- `CHCOMBincrement`: two phases a view, and the view changes before `prepare`. -/
def PrepState.chIncrement (st : PrepState) : PrepState :=
  match st.phase with
  | .prepare => { st with phase := .newview }
  | .newview => { st with phase := .prepare, view := nextView st.view }
  | _ => st

/-- `CHincrement` -/
def CombState.chIncrement (st : CombState) : CombState :=
  match st.phase with
  | .prepare => { st with phase := .newview }
  | .newview => { st with phase := .prepare, view := nextView st.view }
  | _ => st

/-- The variables of all six components. -/
structure EnclaveState where
  plain : CombState
  comb : CombState
  damysus : PrepState
  ch : CombState
  chcomb : PrepState
  achilles : PrepState
  deriving DecidableEq

/-- The initial values.  Only the hybrid component starts in view 1. -/
def EnclaveState.init (sha : Text → Digest) : EnclaveState where
  plain := { CombState.init with view := 0 }
  comb := CombState.init
  damysus := ⟨newHash, 0, 0, .newview⟩
  ch := { CombState.init with view := 0 }
  chcomb := ⟨hashCBlock sha genBlock, 0, 0, .newview⟩
  achilles := ⟨hashCBlock sha genBlock, 0, 0, .newview⟩

section Calls

variable {Key : Type} (cr : Crypto Key) (vars : EnclaveVars Key)

/-- `verifyJust` -/
def EnclaveVars.verifyJust (just : Just) : Bool :=
  vars.verifyText cr.verifySign just.signs (.rdata just.rdata)

/-- The justification that the `sign` function of each component builds from its own view and
phase. -/
def signJust (view : View) (phase : Phase1) (h₁ h₂ : Hash) (v₂ : View) : Just :=
  let rdata : RData := ⟨h₁, view, h₂, v₂, phase.byte⟩
  ⟨true, rdata, Signs.one (vars.signString cr (.rdata rdata))⟩

/-! ### `Enclave.cpp` -/

def plainSign (h₁ h₂ : Hash) (v₂ : View) (st : CombState) : Just × CombState :=
  (signJust cr vars st.view st.phase h₁ h₂ v₂, st.increment)

def plainTEEsign (st : CombState) : Just × CombState :=
  plainSign cr vars noHash st.preph st.prepv st

def plainTEEprepare (hash : Hash) (just : Just) (st : CombState) : Just × CombState :=
  let rd := just.rdata
  if vars.verifyJust cr just && st.view = rd.propv && rd.phase = Phase1.newview.byte
      && (eqHashes rd.justh st.lockh || rd.justv > st.lockv) then
    plainSign cr vars hash rd.justh rd.justv st
  else (Just.none, st)

/-- The source tests `PH1_PRECOMMIT`, a nonzero constant, so every certificate locks. -/
def plainTEEstore (just : Just) (st : CombState) : Just × CombState :=
  let rd := just.rdata
  if just.signs.size = vars.qsize && vars.verifyJust cr just && st.view = rd.propv
      && (rd.phase = Phase1.prepare.byte || rd.phase = Phase1.precommit.byte) then
    plainSign cr vars rd.proph newHash 0
      { st with preph := rd.proph, prepv := rd.propv, lockh := rd.proph, lockv := rd.propv }
  else (Just.none, st)

/-! ### `EnclaveDamysus.cpp` -/

def damysusSign (h₁ h₂ : Hash) (v₂ : View) (st : PrepState) : Just × PrepState :=
  (signJust cr vars st.view st.phase h₁ h₂ v₂, st.damysusIncrement)

def damysusTEEsign (st : PrepState) : Just × PrepState :=
  damysusSign cr vars noHash st.preph st.prepv st

def damysusTEEprepare (hash : Hash) (acc : Accum) (st : PrepState) : Just × PrepState :=
  if vars.verifyAccum cr acc && st.view = acc.view && acc.size = vars.qsize then
    damysusSign cr vars hash acc.hash acc.prepv st
  else (Just.none, st)

def damysusTEEstore (just : Just) (st : PrepState) : Just × PrepState :=
  let rd := just.rdata
  if just.signs.size = vars.qsize && vars.verifyJust cr just && st.view = rd.propv
      && rd.phase = Phase1.prepare.byte then
    damysusSign cr vars rd.proph newHash 0 { st with preph := rd.proph, prepv := rd.propv }
  else (Just.none, st)

/-- The loop of `DAMYSUS_TEEaccum`; unlike `COMB_TEEaccum` it counts a signer before it verifies the
signature. -/
def damysusAccumFrom (v : View) :
    List OneJust → List PID → View → Hash → List PID × View × Hash
  | [], signers, highest, hash => (signers, highest, hash)
  | just :: rest, signers, highest, hash =>
    let data := just.rdata
    if data.phase = Phase1.newview.byte && data.propv = v && just.sign.signer ∉ signers then
      if vars.verifyText cr.verifySign (Signs.one just.sign) (.rdata data)
          && data.justv ≥ highest then
        damysusAccumFrom v rest (just.sign.signer :: signers) data.justv data.justh
      else
        damysusAccumFrom v rest (just.sign.signer :: signers) highest hash
    else
      damysusAccumFrom v rest signers highest hash

def damysusTEEaccum (js : OneJusts) : Accum :=
  let v := (js.get ⟨0, maxNumSignatures_pos⟩).rdata.propv
  let (signers, highest, hash) :=
    damysusAccumFrom cr vars v (js.toList.take vars.qsize) [] 0 newHash
  combAccumOf cr vars v highest hash signers.length

/-! ### `EnclaveCh.cpp` -/

def chSign (h₁ h₂ : Hash) (v₂ : View) (st : CombState) : Just × CombState :=
  (signJust cr vars st.view st.phase h₁ h₂ v₂, st.chIncrement)

def chTEEsign (st : CombState) : Just × CombState :=
  chSign cr vars noHash st.preph st.prepv st

/-- The updates of `CH_TEEprepare`: the block that the first justification certifies is prepared,
the one below it locked. -/
def CombState.chAdvanced (st : CombState) (sha : Text → Digest) (just just0 : Just)
    (block0 block1 : JBlock) : CombState :=
  if eqHashes (just2chash just) (hashJBlock sha block0) then
    let st' := { st with preph := just2chash just, prepv := just2cview just }
    if eqHashes (just2chash just0) (hashJBlock sha block1) then
      { st' with lockh := just2chash just0, lockv := just2cview just0 }
    else st'
  else st

def chTEEprepare (block block0 block1 : JBlock) (st : CombState) : Just × CombState :=
  let just := block.just
  let just0 := block0.just
  if vars.verifyJust cr just && st.view = nextView just.rdata.propv
      && wellFormed vars.qsize just && wellFormed vars.qsize just0 then
    let st' := st.chAdvanced cr.sha256 just just0 block0 block1
    if eqHashes (just2chash just) st'.lockh || just2cview just > st'.lockv then
      chSign cr vars (hashJBlock cr.sha256 block) newHash 0 st'
    else (Just.none, st')
  else (Just.none, st)

/-! ### `EnclaveChComb.cpp`, twice -/

def chCombSign (h₁ h₂ : Hash) (v₂ : View) (st : PrepState) : Just × PrepState :=
  (signJust cr vars st.view st.phase h₁ h₂ v₂, st.chIncrement)

def chCombTEEsign (st : PrepState) : Just × PrepState :=
  chCombSign cr vars noHash st.preph st.prepv st

/-- `verifyCA` -/
def EnclaveVars.verifyCA : CA → Bool
  | .cert c => vars.verifyText cr.verifySign c.signs
      (.rdata ⟨c.hash, c.view, noHash, 0, Phase1.prepare.byte⟩)
  | .accum a => vars.verifyAccum cr a

def chCombTEEprepare (block : CBlock) (hash : Hash) (st : PrepState) : Just × PrepState :=
  let cert := block.cert
  if vars.verifyCA cr cert && st.view = nextView (ca2cview cert) then
    let st' :=
      if eqHashes (ca2hash cert) hash then
        { st with preph := ca2hash cert, prepv := ca2view cert }
      else st
    chCombSign cr vars (hashCBlock cr.sha256 block) newHash 0 st'
  else (Just.none, st)

/-! ### The interface -/

/-- The protocols that have a component in the enclave. -/
inductive Family
  | plain
  | comb
  | damysus
  | ch
  | chcomb
  | achilles
  deriving DecidableEq

/-- The calls of `EnclaveChComb.cpp`.  Its `TEEaccum` and `TEEaccumSp` are those of the hybrid
component. -/
inductive ChCombCall
  | sign
  | prepare (block : CBlock) (hash : Hash)
  | accum (js : OneJusts)
  | accumSp (just : Just)

/-- The public ecalls that sign protocol data. -/
inductive Ecall
  | plainTEEsign
  | plainTEEprepare (hash : Hash) (just : Just)
  | plainTEEstore (just : Just)
  | comb (c : Call)
  | damysusTEEsign
  | damysusTEEprepare (hash : Hash) (acc : Accum)
  | damysusTEEstore (just : Just)
  | damysusTEEaccum (js : OneJusts)
  | damysusTEEaccumSp (just : Just)
  | chTEEsign
  | chTEEprepare (block block0 block1 : JBlock)
  | chcomb (c : ChCombCall)
  | achilles (c : ChCombCall)

/-- The protocol a call belongs to. -/
def Ecall.family : Ecall → Family
  | plainTEEsign | plainTEEprepare .. | plainTEEstore .. => .plain
  | comb .. => .comb
  | damysusTEEsign | damysusTEEprepare .. | damysusTEEstore .. | damysusTEEaccum ..
  | damysusTEEaccumSp .. => .damysus
  | chTEEsign | chTEEprepare .. => .ch
  | chcomb .. => .chcomb
  | achilles .. => .achilles

def chCombCall (st : PrepState) : ChCombCall → Reply × PrepState
  | .sign => (chCombTEEsign cr vars st).map .just id
  | .prepare block hash => (chCombTEEprepare cr vars block hash st).map .just id
  | .accum js => (.accum (combTEEaccum cr vars js), st)
  | .accumSp just => (.accum (combTEEaccumSp cr vars just), st)

/-- An ecall changes the variables of its own component only. -/
def ecall (st : EnclaveState) : Ecall → Reply × EnclaveState
  | .plainTEEsign =>
    (plainTEEsign cr vars st.plain).map .just fun p => { st with plain := p }
  | .plainTEEprepare hash just =>
    (plainTEEprepare cr vars hash just st.plain).map .just fun p => { st with plain := p }
  | .plainTEEstore just =>
    (plainTEEstore cr vars just st.plain).map .just fun p => { st with plain := p }
  | .comb c => (enclaveCall cr vars st.comb c).map id fun p => { st with comb := p }
  | .damysusTEEsign =>
    (damysusTEEsign cr vars st.damysus).map .just fun p => { st with damysus := p }
  | .damysusTEEprepare hash acc =>
    (damysusTEEprepare cr vars hash acc st.damysus).map .just fun p => { st with damysus := p }
  | .damysusTEEstore just =>
    (damysusTEEstore cr vars just st.damysus).map .just fun p => { st with damysus := p }
  | .damysusTEEaccum js => (.accum (damysusTEEaccum cr vars js), st)
  | .damysusTEEaccumSp just => (.accum (combTEEaccumSp cr vars just), st)
  | .chTEEsign => (chTEEsign cr vars st.ch).map .just fun p => { st with ch := p }
  | .chTEEprepare block block0 block1 =>
    (chTEEprepare cr vars block block0 block1 st.ch).map .just fun p => { st with ch := p }
  | .chcomb c => (chCombCall cr vars st.chcomb c).map id fun p => { st with chcomb := p }
  | .achilles c => (chCombCall cr vars st.achilles c).map id fun p => { st with achilles := p }

end Calls

end Raftel
