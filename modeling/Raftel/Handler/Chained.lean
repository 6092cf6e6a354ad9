import Raftel.Chained
import Raftel.Handler.Comb

/-!
# The handlers of a chained replica

The chained part of `Handler.cpp`.  A vote may start the next view, where a proposal that came early, or
the replica's own, is voted for in turn: `voteChComb` ties the recursion, bounded by the `fuel`, and the
functions below it take the vote as an argument.  The `fuel` also bounds the walk of `tryExecuteChComb` and
the signing loop.
-/

namespace Raftel.Chained

variable {Key : Type} (cfg : HandlerConfig Key) (cr : Crypto Key)

section Vote

variable (vote : Origin → CBlock → HandlerM Unit)

/-! ### The leader's proposal -/

/-- `createNewBlockChComb`: the waiting transactions, then dummies. -/
def createNewBlockChComb : HandlerM CBlock := do
  let s ← get
  let trans := s.transactions.take maxNumTransactions
  set { s with transactions := s.transactions.drop maxNumTransactions }
  pure ⟨true, false, s.view, s.caprep, trans.length, Vector.ofFn fun i => trans.getD i.val .dummy⟩

/-- `newviews2accChComb`, as in the hybrid protocol. -/
def newviews2accChComb (newviews : List MsgNewViewChComb) : HandlerM Accum :=
  let ss := sameNewViewSigns newviews
  if ss.size ≥ cfg.qsize then
    let rdata := (newviews.head?.map MsgNewViewComb.data).getD RData.none
    callTEEaccumChCombSp cfg cr ⟨true, rdata, ss⟩
  else
    callTEEaccumChComb cfg cr (Vector.ofFn fun i =>
      match newviews[i.val]? with
      | some msg => ⟨true, msg.data, Signs.one msg.sign⟩
      | none => Just.none)

/-- `view - 1` on 32 bits. -/
def prevView (v : View) : View := (v + (2 ^ 32 - 1)) % 2 ^ 32

/-- The first half of `prepareChComb`: without a certificate for the last view, the new-views of that
view are put into an accumulator. -/
def selectCert : HandlerM Unit := do
  let s ← get
  if !s.caprep.isSet || ca2cview s.caprep < prevView s.view then
    let newviews := s.log.getNewViewChComb (prevView s.view) cfg.qsize
    if newviews.length = cfg.qsize then
      let acc ← newviews2accChComb cfg cr newviews
      if acc.set then modify fun s => { s with caprep := .accum acc } else pure ()
    else pure ()
  else pure ()

/-- `prepareChComb`: a block is proposed also when there is no certificate for the last view. -/
def prepareChComb : HandlerM Unit := do
  selectCert cfg cr
  let block ← createNewBlockChComb
  vote .own block

/-- `checkNewJustChComb`: with enough votes the next leader starts its view. -/
def checkNewJustChComb (data : RData) : HandlerM Unit := do
  let s ← get
  match Raftel.checkNewJustChComb s.log.preparesChComb cfg.qsize data with
  | some cert =>
    modify fun s => { s with caprep := .cert cert }
    incrementView
    prepareChComb cfg cr vote
  | none => pure ()

/-- `handleEarlierMessagesChComb`: a proposal that came early is voted for, unless a block is stored. -/
def handleEarlierMessagesChComb : HandlerM Unit := do
  let leader ← amCurrentLeader cfg
  let s ← get
  if leader then pure ()
  else
    match s.log.firstLdrPrepareChComb s.view with
    | some msg =>
      if msg.sign.set && (s.cblocks.lookup s.view).isNone then vote (.earlier msg.sign) msg.block
      else pure ()
    | none => pure ()

/-! ### New-views -/

/-- The new-view goes to the next leader, which may be the replica itself. -/
def sendNewview (recipientsNL : List PID) (justNv : Just) : HandlerM Unit := do
  let msgNv : MsgNewViewChComb := ⟨justNv.rdata, justNv.signs.get 0⟩
  let s ← get
  let leader ← amLeaderOf cfg (nextView s.view)
  if leader then
    let _ ← storeNvChComb msgNv
  else sendMsg (.newview msgNv) recipientsNL

/-- The loop of `startNewViewChComb`: `TEEsign` until it signs a new-view for this view or a later one. -/
def signNewview (view : View) : ℕ → Just → HandlerM Just
  | 0, _ => throw .outOfFuel
  | fuel + 1, justNv =>
    if justNv.rdata.propv < view || justNv.rdata.phase ≠ Phase1.newview.byte then do
      let justNv' ← callTEEsignChComb cfg cr
      signNewview view fuel justNv'
    else pure justNv

def startNewViewChComb (fuel : ℕ) : HandlerM Unit := do
  let s ← get
  let first ← callTEEsignChComb cfg cr
  let justNv ← signNewview cfg cr s.view fuel first
  if justNv.signs.size = 1 then
    let nextLeader ← getLeaderOf cfg (nextView s.view)
    sendNewview cfg (cfg.keepFromPeers nextLeader) justNv
    incrementView
    setTimer
    let leader ← amCurrentLeader cfg
    if leader then pure () else handleEarlierMessagesChComb cfg vote
  else pure ()

/-- `handleNewviewChComb`: the message is stored without any verification. -/
def handleNewviewChComb (msg : MsgNewViewChComb) : HandlerM Unit := do
  let s ← get
  let viewP := msg.data.propv
  if !msg.data.proph.set && nextView viewP ≥ s.view && msg.data.phase = Phase1.newview.byte then
    let leader ← amLeaderOf cfg (nextView viewP)
    if leader then
      if nextView viewP = s.view then
        let n ← storeNvChComb msg
        if n ≥ cfg.qsize && (s.cblocks.lookup s.view).isNone then prepareChComb cfg cr vote
        else
          -- the other branch of the source: the message is there by now
          let _ ← storeNvChComb msg
      else
        let _ ← storeNvChComb msg
    else pure ()
  else pure ()

end Vote

/-! ### Execution -/

/-- `timeToStop` -/
def timeToStop (s : State) : Bool := cfg.maxViews > 0 && cfg.maxViews ≤ nextView s.view

/-- `recordStats` -/
def recordStats : HandlerM Unit := do
  let s ← get
  if s.joined then throw .systemError else modify fun s => { s with joined := true }

/-- `tryExecuteChComb`: the blocks below the parent of the block that is voted for are executed, if all of
them are stored down to one that is executed. -/
def tryExecuteChComb (fuel : ℕ) (_blockL block0 : CBlock) : HandlerM Unit := do
  if block0.view ≠ 0 then
    let s ← get
    match blocksToExec s.cblocks fuel block0 [] with
    | none => throw .outOfFuel
    | some toExec =>
      set (s.walked block0 toExec)
      let s ← get
      if timeToStop cfg s then recordStats else pure ()
  else pure ()

/-! ### Votes -/

/-- The vote: a proposal by the leader of the view, else a vote for the next leader. -/
def sendPrepare (recipientsNL : List PID) (block : CBlock) (justPrep : Just) : HandlerM Unit := do
  let sigPrep := justPrep.signs.get 0
  let s ← get
  let leader ← amLeaderOf cfg s.view
  if leader then sendMsg (.ldrprepare ⟨block, sigPrep⟩) (cfg.removeFromPeers cfg.myid)
  else
    let msgPrep : MsgPrepareChComb := ⟨justPrep.rdata, sigPrep⟩
    let nextLeader ← amLeaderOf cfg (nextView s.view)
    if nextLeader then
      let _ ← storePrepChComb msgPrep
    else sendMsg (.prepare msgPrep) recipientsNL

/-- The end of `voteChComb`: the leader of the next view stays, the others enter the next view. -/
def leaveView (vote : Origin → CBlock → HandlerM Unit) (justPrep : Just) : HandlerM Unit := do
  let s ← get
  let nextLeader ← amLeaderOf cfg (nextView s.view)
  if nextLeader then checkNewJustChComb cfg cr vote justPrep.rdata
  else
    incrementView
    handleEarlierMessagesChComb cfg vote

/-- `voteChComb`.  The block is stored before anything is known of it; `origin` is only recorded. -/
def voteChComb : ℕ → Origin → CBlock → HandlerM Unit
  | 0, _, _ => throw .outOfFuel
  | fuel + 1, origin, block => do
    modify fun s => s.storeBlock cfg s.view origin block
    let s ← get
    match s.cblocks.lookup (ca2view block.cert) with
    | none => pure ()
    | some block0 =>
      let justPrep ← callTEEprepareChComb cfg cr block (block0.hash cr.sha256)
      let justNv2 ← callTEEsignChComb cfg cr
      if justPrep.signs.size = 1 then
        let nextLeader ← getLeaderOf cfg (nextView s.view)
        let recipientsNL := cfg.keepFromPeers nextLeader
        sendPrepare cfg recipientsNL block justPrep
        if justNv2.signs.size = 1 then
          sendNewview cfg recipientsNL justNv2
          setTimer
          tryExecuteChComb cfg fuel block block0
          leaveView cfg cr (voteChComb fuel) justPrep
        else pure ()
      else pure ()

/-! ### Proposals and votes that arrive -/

/-- The next leader stores the vote of the leader. -/
def storeLeaderVote (just : Just) : HandlerM Unit := do
  let nextLeader ← amLeaderOf cfg (nextView just.rdata.propv)
  if nextLeader then
    let _ ← storePrepChComb ⟨just.rdata, just.signs.get 0⟩
  else pure ()

/-- `handleLdrPrepareChComb`: the proposal also counts as the leader's vote. -/
def handleLdrPrepareChComb (fuel : ℕ) (msg : MsgLdrPrepareChComb) : HandlerM Unit := do
  let block := msg.block
  let v := block.view
  let s ← get
  if v ≥ s.view then
    let leader ← amLeaderOf cfg v
    if !leader && verifyLdrPrepareChComb cfg cr msg then
      storeLeaderVote cfg (ldrPrepareChComb2just cr.sha256 block msg.sign)
      if v = s.view then voteChComb cfg cr fuel (.proposal msg.sign) block
      else
        let _ ← storeLdrPrepChComb msg
    else pure ()
  else pure ()

/-- `handlePrepareChComb`: the vote is stored without any verification. -/
def handlePrepareChComb (fuel : ℕ) (msg : MsgPrepareChComb) : HandlerM Unit := do
  let s ← get
  let v := msg.data.propv
  if v = s.view then
    let nextLeader ← amLeaderOf cfg (nextView v)
    if nextLeader then
      let n ← storePrepChComb msg
      if n = cfg.qsize && (s.cblocks.lookup s.view).isSome then
        checkNewJustChComb cfg cr (voteChComb cfg cr fuel) msg.data
      else pure ()
    else pure ()
  else if v > s.view then
    let _ ← storePrepChComb msg
  else pure ()

/-! ### Inputs -/

/-- The state once the genesis block is stored: the view starts at 1. -/
def State.begun (s : State) : State := (s.storeBlock cfg 0 .genesis genBlock).enter 1

/-- `getStarted`: the new-view for the first leader, which is computed before the view starts at 1. -/
def getStarted (fuel : ℕ) : HandlerM Unit := do
  let s ← get
  let _leader ← getLeaderOf cfg s.view
  let nextLeader ← getLeaderOf cfg (nextView s.view)
  let j ← callTEEsignChComb cfg cr
  let msg : MsgNewViewChComb := ⟨j.rdata, j.signs.get 0⟩
  modify (State.begun cfg)
  let leader ← amCurrentLeader cfg
  if leader then handleNewviewChComb cfg cr (voteChComb cfg cr fuel) msg
  else
    sendMsg (.newview msg) (cfg.keepFromPeers nextLeader)
    handleEarlierMessagesChComb cfg (voteChComb cfg cr fuel)

def handleStart (fuel : ℕ) (cid : CID) : HandlerM Unit := do
  let s ← get
  set { s with
    clients := if (s.clients.lookup cid).isSome then s.clients else s.clients.insert cid true
    started := true }
  if s.started then pure () else getStarted cfg cr fuel

def handleTransaction (trans : Transaction) : HandlerM Unit :=
  modify fun s =>
    if s.clients.lookup trans.clientid = some true then
      { s with transactions := s.transactions ++ [trans] }
    else s

def startNewViewOnTimeout (fuel : ℕ) : HandlerM Unit := do
  modify fun s =>
    if cfg.fixedLeaderMode then s
    else { s with skippedLeaders := viewInsert (s.view % cfg.total) s.skippedLeaders }
  startNewViewChComb cfg cr (voteChComb cfg cr fuel) fuel

inductive Input
  | peer (msg : Msg)
  | start (cid : CID)
  | transaction (trans : Transaction)
  | timeout

def Input.isTimeout : Input → Bool
  | timeout => true
  | _ => false

/-- The handlers that the constructor registers. -/
def handle (fuel : ℕ) : Input → HandlerM Unit
  | .peer (.newview msg) => handleNewviewChComb cfg cr (voteChComb cfg cr fuel) msg
  | .peer (.ldrprepare msg) => handleLdrPrepareChComb cfg cr fuel msg
  | .peer (.prepare msg) => handlePrepareChComb cfg cr fuel msg
  | .start cid => handleStart cfg cr fuel cid
  | .transaction t => handleTransaction t
  | .timeout => startNewViewOnTimeout cfg cr fuel

/-- One input, from state to state.  A stopped replica does nothing, and the timer runs out only once it has
been set. -/
def State.react (s : State) (fuel : ℕ) (input : Input) : State :=
  if s.stopped then s
  else if input.isTimeout && !s.timer then s
  else
    match handle cfg cr fuel input s with
    | .ok _ s' => s'
    | .error e s' => if e.ends input.isTimeout then { s' with stopped := true } else s'

/-- The state after the inputs, each with a bound for its handler. -/
def State.run (s : State) (inputs : List (ℕ × Input)) : State :=
  inputs.foldl (fun s x => s.react cfg cr x.1 x.2) s

/-- A run of the replica. -/
def run (inputs : List (ℕ × Input)) : State := (State.init cr.sha256).run cfg cr inputs

end Raftel.Chained
