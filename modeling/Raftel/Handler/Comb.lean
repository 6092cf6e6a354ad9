import Raftel.Handler

/-!
# The handlers of the hybrid protocol

The hybrid part of `Handler.cpp`: what a replica does on a message, on a timeout and when it is
started.  Executing a block starts the next view, where certificates that came early are replayed
and may execute the next block.  This recursion is tied by `executeComb`; the functions below it take
the execution as an argument.  The `fuel` bounds the depth of the recursion and the length of the
signing loop; every bound is considered where runs are.
-/

namespace Raftel

variable {Key : Type} (cfg : HandlerConfig Key) (o : Oracle Key)

/-- The two kinds of quorum, `"TEE"` and `"Normal"` in the source. -/
inductive QcType
  | tee
  | normal
  deriving DecidableEq

def setPhase (phase : Phase1) : HandlerM Unit := modify fun s => { s with phase := phase }

/-! ### The leader's proposal -/

/-- `RData::operator==` -/
def eqRData (d d' : RData) : Bool :=
  eqHashes d.proph d'.proph && d.propv = d'.propv && eqHashes d.justh d'.justh
    && d.justv = d'.justv && d.phase = d'.phase

/-- The signatures of the new-views with the same data as the first one. -/
def sameNewViewSigns (newviews : List MsgNewViewComb) : Signs :=
  match newviews.take maxNumSignatures with
  | [] => .empty
  | m :: ms => (m :: ms.filter fun m' => eqRData m'.data m.data).foldl (fun ss m => ss.add m.sign) .empty

def newviews2accComb (newviews : List MsgNewViewComb) (requiredSize : ℕ) : HandlerM Accum :=
  let ss := sameNewViewSigns newviews
  if ss.size ≥ requiredSize then
    let rdata := (newviews.head?.map MsgNewViewComb.data).getD RData.none
    callTEEaccumCombSp cfg o ⟨true, rdata, ss⟩
  else
    callTEEaccumComb cfg o (Vector.ofFn fun i =>
      match newviews[i.val]? with
      | some msg => ⟨true, msg.data, Signs.one msg.sign⟩
      | none => Just.none)

/-- The number that `std::stoi` reads from the decimal digits of `a` followed by those of `b`. -/
def concatDigits (a b : ℕ) : ℕ := a * 10 ^ (Nat.toDigits 10 b).length + b

/-- `createNewBlock`: the waiting transactions, then dummies.  The identifier is read as an `int`. -/
def createNewBlock (hash : Hash) : HandlerM Block := do
  let s ← get
  let trans := s.transactions.take maxNumTransactions
  set { s with transactions := s.transactions.drop maxNumTransactions }
  let id := concatDigits cfg.myid s.view
  if id < 2 ^ 31 then
    pure ⟨id, true, hash, trans.length, Vector.ofFn fun i => trans.getD i.val .dummy⟩
  else throw .outOfRange

/-- `processQC`: the leader proposes a block, once for each view. -/
def processQC (newviews : List MsgNewViewComb) (qcType : QcType) : HandlerM Unit := do
  let s ← get
  if s.view ∈ s.processedNewViews then pure ()
  else
    let acc ← newviews2accComb cfg o newviews
      (match qcType with
      | .tee => cfg.tqsize
      | .normal => cfg.qsize)
    if !acc.set then pure ()
    else
      let block ← createNewBlock cfg acc.hash
      let proof := NewViewProofComb.ofMsgs newviews
      let justPrep ← callTEEprepareComb cfg o block acc proof
      if !justPrep.set then pure ()
      else
        -- the view is marked only after the checker has accepted the proposal
        modify fun s => { s with
          processedNewViews := viewInsert s.view s.processedNewViews
          blocks := s.blocks.insert s.view block }
        let msgPrep : MsgPrepareComb := ⟨justPrep.rdata, justPrep.signs⟩
        if msgPrep.signs.size = 1 then
          sendMsg (.ldrprepare ⟨acc, block, proof, msgPrep.signs.get 0⟩)
            (cfg.removeFromPeersPure cfg.myid)
          modify fun s => { s with
            log := if cfg.isTEE cfg.myid then (s.log.storeTEEPrepComb msgPrep).2
              else (s.log.storePrepComb msgPrep).2 }
        else pure ()

/-- `prepareComb`: new-views of TEE nodes only, if there are enough, else of all nodes. -/
def prepareComb : HandlerM Unit := do
  let s ← get
  let teeNewviews := s.log.getTEENewViewComb s.view cfg.tqsize
  let nonTeeNewviews := s.log.getNewViewComb s.view cfg.qsize
  if cfg.fastQC && teeNewviews.length ≥ cfg.tqsize then
    processQC cfg o teeNewviews .tee
  else
    let mixedNewviews := (teeNewviews ++ nonTeeNewviews).foldl (fun mixed msg =>
      if mixed.length < cfg.qsize then setInsert MsgNewViewComb.lt msg mixed else mixed) []
    if mixedNewviews.length = cfg.qsize then
      processQC cfg o mixedNewviews .normal
    else pure ()

/-- `handleNewviewComb`, run by the leader. -/
def handleNewviewComb (msg : MsgNewViewComb) : HandlerM Unit := do
  let s ← get
  let v := msg.data.propv
  if v ≥ s.view then
    let leader ← amLeaderOf cfg v
    if leader && verifyNewViewComb cfg (o.crypto s.calls) msg then
      modify fun s => { s with
        log := if cfg.isTEE msg.sign.signer then (s.log.storeTEENvComb msg).2
          else (s.log.storeNvComb msg).2 }
      let s ← get
      let teecount := (s.log.getTEENewViewComb v cfg.tqsize).length
      let ncount := (s.log.getNewViewComb v cfg.qsize).length
      if s.phase = .newview
          && ((cfg.fastQC && teecount ≥ cfg.tqsize) || teecount + ncount ≥ cfg.qsize) then
        prepareComb cfg o
        modify fun s => if s.view ∈ s.processedNewViews then { s with phase := .prepare } else s
      else pure ()
    else pure ()
  else pure ()

/-! ### The backup's vote -/

def respondToLdrPrepareComb (block : Block) (acc : Accum) (proof : NewViewProofComb) :
    HandlerM Unit := do
  let justPrep ← callTEEprepareComb cfg o block acc proof
  if justPrep.set then
    modify fun s => { s with blocks := s.blocks.insert s.view block }
    let leader ← getCurrentLeader cfg
    sendMsg (.prepare ⟨justPrep.rdata, justPrep.signs⟩) (cfg.keepFromPeers leader)
  else pure ()

def handleLdrPrepareComb (msg : MsgLdrPrepareComb) : HandlerM Unit := do
  let acc := msg.acc
  let v := acc.view
  let vm ← verifyLdrPrepareComb cfg o msg
  let s ← get
  if v ≥ s.view then
    let leader ← amLeaderOf cfg v
    if !leader && vm && (acc.size = cfg.qsize || acc.size = cfg.tqsize)
        && msg.block.extends acc.hash then
      if v = s.view then respondToLdrPrepareComb cfg o msg.block acc msg.proof
      else modify fun s => { s with log := (s.log.storeLdrPrepComb msg).2 }
    else pure ()
  else pure ()

/-! ### Certificates: the leader -/

/-- `preCommitComb`: the leader sends the `prepare` certificate and stores it. -/
def preCommitComb (data : RData) (qcType : QcType) : HandlerM Unit := do
  let s ← get
  let signs := match qcType with
    | .tee => s.log.getTEEPrepareComb data.propv cfg.tqsize
    | .normal => s.log.getPrepareCombMerged data.propv cfg.qsize
  if verifyCombQC cfg (o.crypto s.calls) data signs .prepare then
    sendMsg (.prepare ⟨data, signs⟩) (cfg.removeFromPeers cfg.myid)
    let justPc ← callTEEstoreComb cfg o ⟨true, data, signs⟩
    if justPc.set then
      let msgPc : MsgPreCommitComb := ⟨justPc.rdata, justPc.signs⟩
      modify fun s => { s with
        log := if cfg.isTEE cfg.myid then (s.log.storeTEEPcComb msgPc).2
          else (s.log.storePcComb msgPc).2 }
    else pure ()
  else pure ()

/-- `commitComb`: the leader sends the `precommit` certificate and stores it. -/
def commitComb (data : RData) (qcType : QcType) : HandlerM Unit := do
  let s ← get
  let signs := match qcType with
    | .tee => s.log.getTEEPrecommitComb data.propv cfg.tqsize
    | .normal => s.log.getPrecommitCombMerged data.propv cfg.qsize
  if verifyCombQC cfg (o.crypto s.calls) data signs .precommit then
    sendMsg (.precommit ⟨data, signs⟩) (cfg.removeFromPeers cfg.myid)
    let justPc ← callTEEstoreComb cfg o ⟨true, data, signs⟩
    if justPc.set then
      let msgPc : MsgCommitComb := ⟨justPc.rdata, justPc.signs⟩
      modify fun s => { s with
        log := if cfg.isTEE cfg.myid then (s.log.storeTEEComComb msgPc).2
          else (s.log.storeComComb msgPc).2 }
    else pure ()
  else pure ()

section Exec

variable (exec : RData → HandlerM Unit)

/-- `decideComb`: the leader sends the final certificate, of phase `prepare` when it is a TEE node and
of phase `commit` otherwise, and executes. -/
def decideComb (data : RData) (qcType : QcType) : HandlerM Unit := do
  let leader ← getCurrentLeader cfg
  let s ← get
  let view := data.propv
  let cr := o.crypto s.calls
  if cfg.isTEE leader then
    let signs := match qcType with
      | .tee => s.log.getTEEPrepareComb view cfg.tqsize
      | .normal => s.log.getPrepareCombMerged view cfg.qsize
    if verifyCombQC cfg cr data signs .prepare then
      sendMsg (.prepare ⟨data, signs⟩) (cfg.removeFromPeersPure cfg.myid)
      exec data
    else pure ()
  else
    let signs := match qcType with
      | .tee => s.log.getTEECommitComb view cfg.tqsize
      | .normal => s.log.getCommitCombMerged view cfg.qsize
    if verifyCombQC cfg cr data signs .commit then
      sendMsg (.commit ⟨data, signs⟩) (cfg.removeFromPeersPure cfg.myid)
      exec data
    else pure ()

/-! ### Certificates: the backups -/

/-- `respondToPrepareComb`: the `prepare` certificate of a TEE leader is final. -/
def respondToPrepareComb (msg : MsgPrepareComb) : HandlerM Unit := do
  let leader ← getCurrentLeader cfg
  let s ← get
  if verifyCombQC cfg (o.crypto s.calls) msg.data msg.signs .prepare then
    if cfg.isTEE leader then exec msg.data
    else
      let justPc ← callTEEstoreComb cfg o ⟨true, msg.data, msg.signs⟩
      if justPc.set then
        let leader ← getCurrentLeader cfg
        sendMsg (.precommit ⟨justPc.rdata, justPc.signs⟩) (cfg.keepFromPeers leader)
      else pure ()
  else pure ()

def respondToPreCommitComb (msg : MsgPreCommitComb) : HandlerM Unit := do
  let justPc ← callTEEstoreComb cfg o ⟨true, msg.data, msg.signs⟩
  if justPc.set then
    let leader ← getCurrentLeader cfg
    sendMsg (.commit ⟨justPc.rdata, justPc.signs⟩) (cfg.keepFromPeers leader)
  else pure ()

def respondToCommitComb (msg : MsgCommitComb) : HandlerM Unit := do
  let s ← get
  if verifyCombQC cfg (o.crypto s.calls) msg.data msg.signs .commit then exec msg.data
  else pure ()

/-! ### Starting a view -/

/-- `handleEarlierMessagesComb` at a backup, from the `prepare` certificates on: certificates that
came early are replayed in the order of the phases, as long as they are for the stored block. -/
def replayQCs (catchupView : View) (block : Block) : HandlerM Unit := do
  let s ← get
  match s.futurePrepareQCs.get catchupView with
  | [] => pure ()
  | qc :: _ =>
    if !eqHashes (block.hash o.sha256) qc.data.proph then pure ()
    else
      modify fun s => { s with futurePrepareQCs := s.futurePrepareQCs.erase catchupView }
      respondToPrepareComb cfg o exec qc
      let s ← get
      -- the certificate of a TEE leader was final: the next view has started
      if s.view ≠ catchupView then pure ()
      else
        match s.futurePreCommitQCs.get catchupView with
        | [] => pure ()
        | qc :: _ =>
          if !eqHashes (block.hash o.sha256) qc.data.proph then pure ()
          else
            modify fun s => { s with futurePreCommitQCs := s.futurePreCommitQCs.erase catchupView }
            respondToPreCommitComb cfg o qc
            let s ← get
            match s.futureCommitQCs.get catchupView with
            | [] => pure ()
            | qc :: _ =>
              if !eqHashes (block.hash o.sha256) qc.data.proph then pure ()
              else
                modify fun s => { s with futureCommitQCs := s.futureCommitQCs.erase catchupView }
                respondToCommitComb cfg o exec qc

/-- `handleEarlierMessagesComb` at a backup, first: a proposal that came early is answered. -/
def replayProposal (catchupView : View) : HandlerM Unit := do
  let s ← get
  match s.log.firstLdrPrepareComb catchupView with
  | some msgProp =>
    if msgProp.sign.set then
      respondToLdrPrepareComb cfg o msgProp.block msgProp.acc msgProp.proof
    else pure ()
  | none => pure ()

def handleEarlierMessagesComb : HandlerM Unit := do
  let leader ← amCurrentLeader cfg
  let s ← get
  if leader then
    let teeNewviews := s.log.getTEENewViewComb s.view cfg.tqsize
    let normalNewviews := s.log.getNewViewComb s.view cfg.qsize
    if (cfg.fastQC && teeNewviews.length ≥ cfg.tqsize)
        || teeNewviews.length + normalNewviews.length ≥ cfg.qsize then
      prepareComb cfg o
    else pure ()
  else
    let catchupView := s.view
    replayProposal cfg o catchupView
    let s ← get
    match s.blocks.lookup catchupView with
    | none => pure ()
    | some block => replayQCs cfg o exec catchupView block

/-- The loop of `startNewViewComb`: `TEEsign` until it signs for a later view. -/
def signUntilAfter (view : View) : ℕ → Just → HandlerM Just
  | 0, _ => throw .outOfFuel
  | fuel + 1, just =>
    if just.set && just.rdata.propv ≤ view then do
      let just' ← callTEEsignComb cfg o
      signUntilAfter view fuel just'
    else pure just

def startNewViewComb (fuel : ℕ) : HandlerM Unit := do
  let s ← get
  let first ← callTEEsignComb cfg o
  let just ← signUntilAfter cfg o s.view fuel first
  if just.set then
    modify fun s => { s with view := nextView s.view, timer := true }
    let s ← get
    if just.rdata.propv = s.view && just.rdata.phase = Phase1.newview.byte
        && just.signs.size = 1 then
      let msg : MsgNewViewComb := ⟨just.rdata, just.signs.get 0⟩
      let leader ← getCurrentLeader cfg
      if cfg.myid = leader then
        handleEarlierMessagesComb cfg o exec
        handleNewviewComb cfg o msg
      else
        sendMsg (.newview msg) (cfg.keepFromPeers leader)
        handleEarlierMessagesComb cfg o exec
    else pure ()
  else pure ()

end Exec

/-! ### Execution -/

/-- `timeToStopComb` -/
def timeToStopComb (s : HandlerState) : Bool :=
  cfg.maxViews > 0 && s.processedCommit.length ≥ cfg.maxViews

/-- `recordStats`: the thread of the clients is joined, and the loop that calls the handlers is told to end.
The inputs that it still takes are handled as before. -/
def recordStats : HandlerM Unit := do
  let s ← get
  if s.joined then throw .systemError else set { s with joined := true }

/-- The state after the execution of a block.  The replies are for the block of the replica's current
view. -/
def HandlerState.committed (s : HandlerState) (data : RData) (block : Block) : HandlerState :=
  let replies := replyHash o.sha256 (fun cid => (s.clients.lookup cid).isSome)
    s.kvExecutor (s.blocks.lookup s.view) data.proph
  { s with
    processedCommit := viewInsert data.propv s.processedCommit
    executed := s.executed ++ [⟨data, block, (cfg.leaderOf s.skippedLeaders s.view).1⟩]
    kvExecutor := replies.kv
    repQueue := s.repQueue ++ replies.queue }

/-- `executeComb`: a view is executed once, and only with the block that the data names. -/
def executeComb : ℕ → RData → HandlerM Unit
  | 0, _ => throw .outOfFuel
  | fuel + 1, data => do
    let s ← get
    if data.propv ∈ s.processedCommit then pure ()
    else
      match s.blocks.lookup data.propv with
      | none => pure ()
      | some block =>
        if !eqHashes (block.hash o.sha256) data.proph then pure ()
        else
          set (s.committed cfg o data block)
          let s ← get
          if timeToStopComb cfg s then recordStats
          else startNewViewComb cfg o (executeComb fuel) fuel

/-! ### Votes and certificates that arrive -/

/-- Stores a vote and returns the numbers of TEE and of other votes of its view; both are 0 for a
vote that was there. -/
def countVote (storeTEE store : Log → MsgVoteComb → ℕ × Log)
    (getTEE get' : Log → View → ℕ → Signs) (msg : MsgVoteComb) : HandlerM (ℕ × ℕ) := do
  let s ← get
  if cfg.isTEE (msg.signs.get 0).signer then
    let (teecount, log) := storeTEE s.log msg
    set { s with log := log }
    pure (teecount, if teecount ≠ 0 then (get' log msg.data.propv cfg.qsize).size else 0)
  else
    let (ncount, log) := store s.log msg
    set { s with log := log }
    pure (if ncount ≠ 0 then (getTEE log msg.data.propv cfg.tqsize).size else 0, ncount)

/-- Stores a vote for a later view. -/
def storeFutureVote (storeTEE store : Log → MsgVoteComb → ℕ × Log) (msg : MsgVoteComb) :
    HandlerM Unit :=
  modify fun s => { s with
    log := if cfg.isTEE (msg.signs.get 0).signer then (storeTEE s.log msg).2
      else (store s.log msg).2 }

def handlePrepareComb (fuel : ℕ) (msg : MsgPrepareComb) : HandlerM Unit := do
  let s ← get
  let data := msg.data
  let v := data.propv
  let cr := o.crypto s.calls
  if v = s.view then
    let leader ← amLeaderOf cfg v
    if leader then
      if verifyCombVote cfg cr data msg.signs .prepare then
        let (teecount, ncount) ← countVote cfg Log.storeTEEPrepComb Log.storePrepComb
          Log.getTEEPrepareComb Log.getPrepareComb msg
        if cfg.fastQC && teecount ≥ cfg.tqsize && s.phase = .prepare then
          let leader ← getCurrentLeader cfg
          if cfg.isTEE leader then
            setPhase .newview
            decideComb cfg o (executeComb cfg o fuel) data .tee
          else
            setPhase .precommit
            preCommitComb cfg o data .tee
        else if teecount + ncount = cfg.qsize && s.phase = .prepare then
          let leader ← getCurrentLeader cfg
          if cfg.isTEE leader then
            setPhase .newview
            decideComb cfg o (executeComb cfg o fuel) data .normal
          else
            setPhase .precommit
            preCommitComb cfg o data .normal
        else pure ()
      else pure ()
    else if verifyCombQC cfg cr data msg.signs .prepare then
      respondToPrepareComb cfg o (executeComb cfg o fuel) msg
    else pure ()
  else if v > s.view then
    if verifyCombQC cfg cr data msg.signs .prepare then
      modify fun s => { s with futurePrepareQCs := s.futurePrepareQCs.insert MsgVoteComb.lt msg }
    else if verifyCombVote cfg cr data msg.signs .prepare then
      storeFutureVote cfg Log.storeTEEPrepComb Log.storePrepComb msg
    else pure ()
  else pure ()

def handlePreCommitComb (msg : MsgPreCommitComb) : HandlerM Unit := do
  let s ← get
  let data := msg.data
  let v := data.propv
  let cr := o.crypto s.calls
  if v = s.view then
    let leader ← amLeaderOf cfg v
    if leader then
      if verifyCombVote cfg cr data msg.signs .precommit then
        let (teecount, ncount) ← countVote cfg Log.storeTEEPcComb Log.storePcComb
          Log.getTEEPrecommitComb Log.getPrecommitComb msg
        if teecount = cfg.tqsize && s.phase = .precommit then
          setPhase .commit
          commitComb cfg o data .tee
        else if teecount + ncount = cfg.qsize && s.phase = .precommit then
          setPhase .commit
          commitComb cfg o data .normal
        else pure ()
      else pure ()
    else if verifyCombQC cfg cr data msg.signs .precommit then respondToPreCommitComb cfg o msg
    else pure ()
  else if v > s.view then
    if verifyCombQC cfg cr data msg.signs .precommit then
      modify fun s => { s with
        futurePreCommitQCs := s.futurePreCommitQCs.insert MsgVoteComb.lt msg }
    else if verifyCombVote cfg cr data msg.signs .precommit then
      storeFutureVote cfg Log.storeTEEPcComb Log.storePcComb msg
    else pure ()
  else pure ()

def handleCommitComb (fuel : ℕ) (msg : MsgCommitComb) : HandlerM Unit := do
  let s ← get
  let data := msg.data
  let v := data.propv
  let cr := o.crypto s.calls
  if v = s.view then
    let leader ← amLeaderOf cfg v
    if leader then
      if verifyCombVote cfg cr data msg.signs .commit then
        let (teecount, ncount) ← countVote cfg Log.storeTEEComComb Log.storeComComb
          Log.getTEECommitComb Log.getCommitComb msg
        if teecount = cfg.tqsize && s.phase = .commit then
          setPhase .newview
          decideComb cfg o (executeComb cfg o fuel) data .tee
        else if teecount + ncount = cfg.qsize && s.phase = .commit then
          setPhase .newview
          decideComb cfg o (executeComb cfg o fuel) data .normal
        else pure ()
      else pure ()
    else if verifyCombQC cfg cr data msg.signs .commit then
      respondToCommitComb cfg o (executeComb cfg o fuel) msg
    else pure ()
  else if v > s.view then
    if verifyCombQC cfg cr data msg.signs .commit then
      modify fun s => { s with futureCommitQCs := s.futureCommitQCs.insert MsgVoteComb.lt msg }
    else if verifyCombVote cfg cr data msg.signs .commit then
      storeFutureVote cfg Log.storeTEEComComb Log.storeComComb msg
    else pure ()
  else pure ()

/-! ### Clients and timeouts -/

/-- `getStarted`: the first new-view. -/
def getStarted : HandlerM Unit := do
  let leader ← getCurrentLeader cfg
  let s ← get
  let _nextLeader ← getLeaderOf cfg (nextView s.view)
  let j ← callTEEsignComb cfg o
  if j.signs.size = 1 then
    let msg : MsgNewViewComb := ⟨j.rdata, j.signs.get 0⟩
    let amLeader ← amCurrentLeader cfg
    if amLeader then handleNewviewComb cfg o msg
    else sendMsg (.newview msg) (cfg.keepFromPeers leader)
  else pure ()

def handleStart (cid : CID) : HandlerM Unit := do
  let s ← get
  set { s with
    clients := if (s.clients.lookup cid).isSome then s.clients else s.clients.insert cid true
    started := true }
  if s.started then pure () else getStarted cfg o

/-- `handleTransaction`: transactions of known clients wait for a block. -/
def handleTransaction (trans : Transaction) : HandlerM Unit :=
  modify fun s =>
    if s.clients.lookup trans.clientid = some true then
      { s with transactions := s.transactions ++ [trans] }
    else s

/-- `startNewViewOnTimeout`: the nominal leader of the view is skipped from now on. -/
def startNewViewOnTimeout (fuel : ℕ) : HandlerM Unit := do
  modify fun s =>
    if cfg.fixedLeaderMode then s
    else { s with skippedLeaders := viewInsert (s.view % cfg.total) s.skippedLeaders }
  startNewViewComb cfg o (executeComb cfg o fuel) fuel

/-! ### Inputs -/

/-- What a replica reacts to. -/
inductive Input
  | peer (msg : Msg)
  | start (cid : CID)
  | transaction (trans : Transaction)
  | timeout

def Input.isTimeout : Input → Bool
  | timeout => true
  | _ => false

/-- The handlers that the constructor registers. -/
def handle (fuel : ℕ) : Input → HandlerM Unit
  | .peer (.newview msg) => handleNewviewComb cfg o msg
  | .peer (.ldrprepare msg) => handleLdrPrepareComb cfg o msg
  | .peer (.prepare msg) => handlePrepareComb cfg o fuel msg
  | .peer (.precommit msg) => handlePreCommitComb cfg o msg
  | .peer (.commit msg) => handleCommitComb cfg o fuel msg
  | .start cid => handleStart cfg o cid
  | .transaction t => handleTransaction t
  | .timeout => startNewViewOnTimeout cfg o fuel

/-- One input, from state to state.  A stopped replica does nothing, and the timer runs out only once it has
been set. -/
def HandlerState.react (s : HandlerState) (fuel : ℕ) (input : Input) : HandlerState :=
  if s.stopped then s
  else if input.isTimeout && !s.timer then s
  else
    match handle cfg o fuel input s with
    | .ok _ s' => s'
    | .error e s' => if e.ends input.isTimeout then { s' with stopped := true } else s'

end Raftel
