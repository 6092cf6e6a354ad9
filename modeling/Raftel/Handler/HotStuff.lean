import Raftel.Handler.Comb
import Raftel.HotStuff

/-!
# The handlers of HotStuff

What a replica of `BASIC_HOTSTUFF` does on a message, on a timeout and when it is started.  As in the
hybrid protocol, executing starts the next view, where stored messages may lead to the next execution:
`executeRData` ties the recursion, bounded by the `fuel`, and the functions below it take the execution
as an argument.
-/

namespace Raftel.HotStuff

variable {Key : Type} (cfg : HandlerConfig Key) (cr : Crypto Key)

section Exec

variable (exec : RData → HandlerM Unit)

/-! ### Certificates: the leader -/

def initiateCommit (rdata : RData) : HandlerM Unit := do
  let s ← get
  let signs ← s.log.getCommit rdata.propv cfg.qsize
  if signs.size = cfg.qsize then
    sendMsg (.commit ⟨rdata, signs⟩) (cfg.removeFromPeers cfg.myid)
    exec rdata
  else pure ()

/-- `initiatePrecommit`: the leader's own commit is stored, also one that its component refused. -/
def initiatePrecommit (rdata : RData) : HandlerM Unit := do
  let s ← get
  let signs ← s.log.getPrecommit rdata.propv cfg.qsize
  if signs.size = cfg.qsize then
    sendMsg (.precommit ⟨rdata, signs⟩) (cfg.removeFromPeers cfg.myid)
    let justCom ← callTEEstore cfg cr ⟨true, rdata, signs⟩
    let n ← storeMsg fun log => log.storeCom ⟨justCom.rdata, justCom.signs⟩
    if cfg.qsize ≤ n then initiateCommit cfg exec justCom.rdata else pure ()
  else pure ()

def initiatePrepare (rdata : RData) : HandlerM Unit := do
  let s ← get
  let signs ← s.log.getPrepare rdata.propv cfg.qsize
  if signs.size = cfg.qsize then
    sendMsg (.prepare ⟨rdata, signs⟩) (cfg.removeFromPeers cfg.myid)
    let justPc ← callTEEstore cfg cr ⟨true, rdata, signs⟩
    let n ← storeMsg fun log => log.storePc ⟨justPc.rdata, justPc.signs⟩
    if cfg.qsize ≤ n then initiatePrecommit cfg cr exec justPc.rdata else pure ()
  else pure ()

/-! ### The leader's proposal -/

/-- `createNewBlock`: the waiting transactions, then dummies.  The identifier is read as an `int`. -/
def createNewBlock (hash : Hash) : HandlerM Block := do
  let s ← get
  let trans := s.transactions.take maxNumTransactions
  set { s with transactions := s.transactions.drop maxNumTransactions }
  let id := concatDigits cfg.myid s.view
  if id < 2 ^ 31 then
    pure ⟨id, true, hash, trans.length, Vector.ofFn fun i => trans.getD i.val .dummy⟩
  else throw .outOfRange

def prepare : HandlerM Unit := do
  let s ← get
  let justNV := s.log.findHighestNv s.view
  let block ← createNewBlock cfg justNV.rdata.justh
  let hash ← Checked.hash cr.sha256 block
  let justPrep ← callTEEprepare cfg cr hash justNV
  if justPrep.set then
    modify fun s => { s with blocks := s.blocks.insert s.view block }
    sendMsg (.ldrprepare ⟨⟨justNV, block⟩, justPrep.signs⟩) (cfg.removeFromPeers cfg.myid)
    let n ← storeMsg fun log => log.storePrep ⟨justPrep.rdata, justPrep.signs⟩
    if cfg.qsize ≤ n then initiatePrepare cfg cr exec justPrep.rdata else pure ()
  else pure ()

/-- The new-views that are looked at: of a later view, or of the current one. -/
def newviewGate (view : View) (msg : MsgNewView) : Bool :=
  !msg.data.proph.set && msg.data.propv ≥ view && msg.data.phase = Phase1.newview.byte

/-- `handleNewview`: the message is stored without any verification. -/
def handleNewview (msg : MsgNewView) : HandlerM Unit := do
  let s ← get
  if newviewGate s.view msg then
    let leader ← amLeaderOf cfg msg.data.propv
    if leader then
      let n ← storeMsg fun log => log.storeNv msg
      if n = cfg.qsize && msg.data.propv = s.view then prepare cfg cr exec else pure ()
    else pure ()
  else pure ()

/-! ### The backup's votes -/

def respondToProposal (justNv : Just) (block : Block) : HandlerM Unit := do
  let hash ← Checked.hash cr.sha256 block
  let newJustPrep ← callTEEprepare cfg cr hash justNv
  if newJustPrep.set then
    modify fun s => { s with blocks := s.blocks.insert s.view block }
    let leader ← getCurrentLeader cfg
    sendMsg (.prepare ⟨newJustPrep.rdata, newJustPrep.signs⟩) (cfg.keepFromPeers leader)
  else pure ()

/-- `respondToPrepareJust`: the answer is sent, also when the component has refused. -/
def respondToPrepareJust (justPrep : Just) : HandlerM Unit := do
  let justPc ← callTEEstore cfg cr justPrep
  let leader ← getCurrentLeader cfg
  sendMsg (.precommit ⟨justPc.rdata, justPc.signs⟩) (cfg.keepFromPeers leader)

def respondToPreCommitJust (justPc : Just) : HandlerM Unit := do
  let justCom ← callTEEstore cfg cr justPc
  let leader ← getCurrentLeader cfg
  sendMsg (.commit ⟨justCom.rdata, justCom.signs⟩) (cfg.keepFromPeers leader)

/-- The prepare data that the leader signs for its proposal. -/
def ldrPrepared (hash : Hash) (rdataNV : RData) : RData :=
  ⟨hash, rdataNV.propv, rdataNV.justh, rdataNV.justv, Phase1.prepare.byte⟩

/-- `handleLdrPrepare`: the block is hashed and the signatures are verified before anything else. -/
def handleLdrPrepare (msg : MsgLdrPrepare) : HandlerM Unit := do
  let justNV := msg.prop.just
  let b := msg.prop.block
  let hash ← Checked.hash cr.sha256 b
  let vm ← verifyJust cfg cr ⟨true, ldrPrepared hash justNV.rdata, msg.signs⟩
  let s ← get
  if justNV.rdata.propv ≥ s.view && vm && b.extends justNV.rdata.justh then
    if justNV.rdata.propv = s.view then respondToProposal cfg cr justNV b
    else
      let _ ← storeMsg fun log => log.storeProp msg
  else pure ()

/-! ### Starting a view -/

/-- The backups' part of `handleEarlierMessages`, when there is no pre-commit certificate. -/
def catchUpPrepared : HandlerM Unit := do
  let s ← get
  let signsPrep ← s.log.getPrepare s.view cfg.qsize
  if signsPrep.size = cfg.qsize then
    let _ ← callTEEsign cfg cr
    respondToPrepareJust cfg cr (s.log.firstPrepare s.view)
  else
    match s.log.firstProposal s.view with
    | some msgProp =>
      if msgProp.signs.size = 1 then respondToProposal cfg cr msgProp.prop.just msgProp.prop.block
      else pure ()
    | none => pure ()

def handleEarlierMessages : HandlerM Unit := do
  let leader ← amCurrentLeader cfg
  let s ← get
  if leader then
    let signsNV ← s.log.getNewView s.view cfg.qsize
    if signsNV.size = cfg.qsize then prepare cfg cr exec else pure ()
  else
    let signsPc ← s.log.getPrecommit s.view cfg.qsize
    if signsPc.size = cfg.qsize then
      -- the prepare and the pre-commit phase are skipped
      let _ ← callTEEsign cfg cr
      let _ ← callTEEsign cfg cr
      respondToPreCommitJust cfg cr (s.log.firstPrecommit s.view)
      let s ← get
      let signsCom ← s.log.getCommit s.view cfg.qsize
      if signsCom.size = cfg.qsize then exec (s.log.firstCommit s.view).rdata else pure ()
    else catchUpPrepared cfg cr

/-- The loop of `startNewView`: `TEEsign` until it signs for a later view. -/
def signUntilAfter (view : View) : ℕ → Just → HandlerM Just
  | 0, _ => throw .outOfFuel
  | fuel + 1, just =>
    if just.rdata.propv ≤ view then do
      let just' ← callTEEsign cfg cr
      signUntilAfter view fuel just'
    else pure just

def startNewView (fuel : ℕ) : HandlerM Unit := do
  let s ← get
  let first ← callTEEsign cfg cr
  let just ← signUntilAfter cfg cr s.view fuel first
  modify fun s => { s with view := nextView s.view, timer := true }
  let s ← get
  if just.rdata.propv = s.view && just.rdata.phase = Phase1.newview.byte then
    let msg : MsgNewView := ⟨just.rdata, just.signs⟩
    let amLeader ← amCurrentLeader cfg
    if amLeader then
      handleEarlierMessages cfg cr exec
      handleNewview cfg cr exec msg
    else
      let leader ← getCurrentLeader cfg
      sendMsg (.newview msg) (cfg.keepFromPeers leader)
      handleEarlierMessages cfg cr exec
  else pure ()

end Exec

/-! ### Execution -/

/-- `timeToStop` -/
def timeToStop (s : State) : Bool := cfg.maxViews > 0 && cfg.maxViews ≤ nextView s.view

/-- `recordStats` -/
def recordStats : HandlerM Unit := do
  let s ← get
  if s.joined then throw .systemError else modify fun s => { s with joined := true }

/-- The state after the replies to the transactions of the block of the current view, if it has the
hash that is executed. -/
def State.executedOf (s : State) (rdata : RData) : State :=
  let replies := replyHash cr.sha256 (fun cid => (s.clients.lookup cid).isSome) s.kvExecutor
    (s.blocks.lookup s.view) rdata.proph
  { s with
    executed := s.executed ++ [rdata]
    kvExecutor := replies.kv
    repQueue := s.repQueue ++ replies.queue }

/-- The hash of a block that is stored. -/
def storedHash (s : State) (view : View) : Option Hash :=
  (s.blocks.lookup view).elim (some noHash) (Checked.hash cr.sha256)

/-- `executeRData`.  `addLiveCommittedTxsAtCommit` hashes the block of the view that is executed,
`replyHash` the one of the replica's own view. -/
def executeRData : ℕ → RData → HandlerM Unit
  | 0, _ => throw .outOfFuel
  | fuel + 1, rdata => do
    let s ← get
    let _ ← storedHash cr s rdata.propv
    let _ ← storedHash cr s s.view
    set (s.executedOf cr rdata)
    let s ← get
    if timeToStop cfg s then recordStats
    else startNewView cfg cr (executeRData fuel) fuel

/-! ### Votes and certificates that arrive -/

def handlePrepare (fuel : ℕ) (msg : MsgPrepare) : HandlerM Unit := do
  let s ← get
  if msg.data.propv = s.view then
    let leader ← amCurrentLeader cfg
    if leader then
      let n ← storeMsg fun log => log.storePrep msg
      if n = cfg.qsize then initiatePrepare cfg cr (executeRData cfg cr fuel) msg.data else pure ()
    else if msg.signs.size = cfg.qsize then respondToPrepareJust cfg cr ⟨true, msg.data, msg.signs⟩
    else pure ()
  else if msg.data.propv > s.view then
    let _ ← storeMsg fun log => log.storePrep msg
  else pure ()

def handlePrecommit (fuel : ℕ) (msg : MsgPreCommit) : HandlerM Unit := do
  let s ← get
  if msg.data.propv = s.view && msg.data.phase = Phase1.precommit.byte then
    let leader ← amCurrentLeader cfg
    if leader then
      let n ← storeMsg fun log => log.storePc msg
      if n = cfg.qsize then initiatePrecommit cfg cr (executeRData cfg cr fuel) msg.data
      else pure ()
    else if msg.signs.size = cfg.qsize then
      respondToPreCommitJust cfg cr ⟨true, msg.data, msg.signs⟩
    else pure ()
  else if msg.data.propv > s.view then
    let _ ← storeMsg fun log => log.storePc msg
  else pure ()

def handleCommit (fuel : ℕ) (msg : MsgCommit) : HandlerM Unit := do
  let s ← get
  if msg.data.propv = s.view && msg.data.phase = Phase1.commit.byte then
    let leader ← amCurrentLeader cfg
    if leader then
      let n ← storeMsg fun log => log.storeCom msg
      if n = cfg.qsize then initiateCommit cfg (executeRData cfg cr fuel) msg.data else pure ()
    else
      let verified ← Checked.checkIf (msg.signs.size = cfg.qsize)
        (verifyJust cfg cr ⟨true, msg.data, msg.signs⟩)
      if verified then executeRData cfg cr fuel msg.data else pure ()
  else if msg.data.propv > s.view then
    let leader ← amLeaderOf cfg msg.data.propv
    if leader then
      let _ ← storeMsg fun log => log.storeCom msg
    else
      let verified ← verifyJust cfg cr ⟨true, msg.data, msg.signs⟩
      if verified then
        let _ ← storeMsg fun log => log.storeCom msg
      else pure ()
  else pure ()

/-! ### Inputs -/

/-- `getStarted`: the first new-view. -/
def getStarted (fuel : ℕ) : HandlerM Unit := do
  let leader ← getCurrentLeader cfg
  let s ← get
  let _nextLeader ← getLeaderOf cfg (nextView s.view)
  let j ← callTEEsign cfg cr
  let msg : MsgNewView := ⟨j.rdata, j.signs⟩
  let amLeader ← amCurrentLeader cfg
  if amLeader then handleNewview cfg cr (executeRData cfg cr fuel) msg
  else sendMsg (.newview msg) (cfg.keepFromPeers leader)

def handleStart (fuel : ℕ) (cid : CID) : HandlerM Unit := do
  let s ← get
  set { s with
    clients := if (s.clients.lookup cid).isSome then s.clients else s.clients.insert cid true
    started := true }
  if s.started then pure () else getStarted cfg cr fuel

def handleTransaction (trans : Transaction) : HandlerM Unit :=
  modify fun s =>
    if s.clients.lookup trans.clientid = some true then
      { s with transactions := s.transactions ++ [trans] }
    else s

def startNewViewOnTimeout (fuel : ℕ) : HandlerM Unit := do
  modify fun s =>
    if cfg.fixedLeaderMode then s
    else { s with skippedLeaders := viewInsert (s.view % cfg.total) s.skippedLeaders }
  startNewView cfg cr (executeRData cfg cr fuel) fuel

inductive Input
  | peer (msg : Msg)
  | start (cid : CID)
  | transaction (trans : Transaction)
  | timeout

def Input.isTimeout : Input → Bool
  | timeout => true
  | _ => false

def handle (fuel : ℕ) : Input → HandlerM Unit
  | .peer (.newview msg) => handleNewview cfg cr (executeRData cfg cr fuel) msg
  | .peer (.ldrprepare msg) => handleLdrPrepare cfg cr msg
  | .peer (.prepare msg) => handlePrepare cfg cr fuel msg
  | .peer (.precommit msg) => handlePrecommit cfg cr fuel msg
  | .peer (.commit msg) => handleCommit cfg cr fuel msg
  | .start cid => handleStart cfg cr fuel cid
  | .transaction t => handleTransaction t
  | .timeout => startNewViewOnTimeout cfg cr fuel

/-- One input, from state to state, when every read is in range.  A stopped replica does nothing, and the
timer runs out only once it has been set. -/
def State.react (s : State) (fuel : ℕ) (input : Input) : Option State :=
  if s.stopped then some s
  else if input.isTimeout && !s.timer then some s
  else
    match handle cfg cr fuel input s with
    | none => none
    | some (.ok _, s') => some s'
    | some (.error e, s') => some (if e.ends input.isTimeout then { s' with stopped := true } else s')

end Raftel.HotStuff
