import Raftel.Reads
import Raftel.Handler.Comb

/-!
# The handlers of the hybrid protocol, with checked reads

The handlers again, with every read of the arrays `transactions` and `signs` up to a `size` field
checked, in the order of the source: on the way from a message to the log, to the trusted component and
to the executed blocks.  Functions that make no such read are those of the handlers.
-/

namespace Raftel

namespace Checked

variable {Key : Type} (cfg : HandlerConfig Key) (o : Oracle Key)

abbrev CheckedM := Lib.Checked HandlerError HandlerState

/-! ### The enclave -/

section Enclave

variable (vars : EnclaveVars Key) (cr : Crypto Key)

/-- `verifySigns` of the enclave -/
def verifySigns (signs : Signs) (t : SignedText) : Option Bool :=
  if signs.size = 0 ∨ signs.size > maxNumSignatures then some false
  else do
    let es ← entries signs
    pure (verifySignsFrom cr.verifySign vars.pubs t [] es)

/-- `verifyQuorum` of the enclave -/
def verifyQuorum (signs : Signs) (t : SignedText) (expectedSize : ℕ) (teeOnly : Bool) :
    Option Bool :=
  if expectedSize = 0 ∨ expectedSize > maxNumSignatures ∨ signs.size ≠ expectedSize then some false
  else do
    let es ← entries signs
    if es.any fun s =>
        match vars.nodeIsTEE.lookup s.signer with
        | some isTEE => teeOnly && !isTEE
        | none => true then pure false
    else verifySigns vars cr signs t

/-- The certificates that `COMB_TEEstore` looks at. -/
def combValidQC (just : Just) : Option Bool := do
  let teeQC ← checkIf (just.signs.size = vars.tqsize)
    (verifyQuorum vars cr just.signs (.rdata just.rdata) vars.tqsize true)
  if teeQC then pure true
  else
    checkIf (just.signs.size = vars.qsize)
      (verifyQuorum vars cr just.signs (.rdata just.rdata) vars.qsize false)

/-- `COMB_hashBlock` -/
def combHashBlock (b : Block) : Option Hash :=
  if !b.set || b.size > maxNumTransactions then some noHash else hash cr.sha256 b

/-- The reads of the ecalls, which all come before the state is changed. -/
def enclaveReads : Call → Option Unit
  | .sign => some ()
  | .prepare block _ _ => do
    let _ ← combHashBlock cr block
  | .store just => do
    let _ ← combValidQC vars cr just
  | .accum _ => some ()
  | .accumSp just =>
    if just.rdata.phase = Phase1.newview.byte then do
      if ← verifySigns vars cr just.signs (.rdata just.rdata) then
        let _ ← Lib.readAll just.signs.signs (min maxNumSignatures (min vars.qsize just.signs.size))
    else some ()

end Enclave

/-! ### The component of a replica without a TEE -/

section Trusted

variable (vars : TrustedVars Key) (cr : Crypto Key)

/-- `verifyQuorum` of `TrustedComb.cpp` -/
def trustedVerifyQuorum (data : RData) (signs : Signs) : Option Bool :=
  if (signs.size ≠ vars.tqsize ∧ signs.size ≠ vars.qsize) ∨ signs.size = 0
      ∨ signs.size > maxNumSignatures then some false
  else do
    let es ← entries signs
    match hostSignersFrom vars.nodes es [] true with
    | none => pure false
    | some allTEE =>
      if signs.size ≠ vars.qsize ∧ ¬(signs.size = vars.tqsize ∧ allTEE) then pure false
      else verify cr.verifySign vars.nodes signs (.rdata data)

/-- The reads of the calls of `TrustedComb`, which all come before the state is changed. -/
def trustedReads : Call → Option Unit
  | .sign => some ()
  | .prepare block _ _ => do
    let _ ← hash cr.sha256 block
  | .store just => do
    let _ ← trustedVerifyQuorum vars cr just.rdata just.signs
  | .accum justs => (justs.toList.take vars.qsize).forM fun just =>
    if just.signs.size = 1 then do
      let _ ← verify cr.verifySign vars.nodes just.signs (.rdata just.rdata)
    else some ()
  | .accumSp just =>
    if just.rdata.phase = Phase1.newview.byte then do
      let _ ← Lib.readAll just.signs.signs (min maxNumSignatures (min vars.qsize just.signs.size))
    else some ()

end Trusted

/-! ### The calls -/

def componentReads (cr : Crypto Key) : Component Key → Call → Option Unit
  | .enclave vars => enclaveReads vars cr
  | .host vars => trustedReads vars cr

def callTEE (c : Call) : CheckedM Reply := do
  let s ← get
  liftM (componentReads (o.crypto s.calls) cfg.component c)
  liftM (Raftel.callTEE cfg o c)

def callTEEprepareComb (block : Block) (acc : Accum) (proof : NewViewProofComb) : CheckedM Just :=
  Reply.toJust <$> callTEE cfg o (.prepare block acc (setNewViews proof))

def callTEEstoreComb (just : Just) : CheckedM Just := Reply.toJust <$> callTEE cfg o (.store just)

def callTEEaccumComb (justs : Vector Just maxNumSignatures) : CheckedM Accum :=
  Reply.toAccum <$> callTEE cfg o (.accum justs)

def callTEEaccumCombSp (just : Just) : CheckedM Accum :=
  Reply.toAccum <$> callTEE cfg o (.accumSp just)

/-! ### Verification -/

def verifyCombSigns (cr : Crypto Key) (data : RData) (signs : Signs) (expectedSize : ℕ)
    (teeOnly : Bool) : Option Bool :=
  if expectedSize = 0 ∨ expectedSize > maxNumSignatures ∨ signs.size ≠ expectedSize then some false
  else do
    let es ← entries signs
    match hostSignersFrom cfg.nodes es [] true with
    | none => pure false
    | some allTEE =>
      if teeOnly && !allTEE then pure false
      else verify cr.verifySign cfg.nodes signs (.rdata data)

def verifyCombQC (cr : Crypto Key) (data : RData) (signs : Signs) (expectedPhase : Phase1) :
    Option Bool :=
  checkIf (data.phase = expectedPhase.byte) do
    let teeQC ← checkIf (signs.size = cfg.tqsize) (verifyCombSigns cfg cr data signs cfg.tqsize true)
    if teeQC then pure true
    else checkIf (signs.size = cfg.qsize) (verifyCombSigns cfg cr data signs cfg.qsize false)

def verifyCombVote (cr : Crypto Key) (data : RData) (signs : Signs) (expectedPhase : Phase1) :
    Option Bool :=
  checkIf (data.phase = expectedPhase.byte) (verifyCombSigns cfg cr data signs 1 false)

def verifyNewViewComb (cr : Crypto Key) (msg : MsgNewViewComb) : Option Bool :=
  checkIf (msg.data.phase = Phase1.newview.byte)
    (verifyCombSigns cfg cr msg.data (Signs.one msg.sign) 1 false)

/-- `verifyLdrPrepareComb`: the block is hashed before anything else. -/
def verifyLdrPrepareComb (msg : MsgLdrPrepareComb) : CheckedM Bool := do
  let _ ← hash o.sha256 msg.block
  Raftel.verifyLdrPrepareComb cfg o msg

/-! ### The log -/

section Log

variable (log : Log)

def storePrepComb (msg : MsgPrepareComb) : Option (ℕ × Log) := do
  let (n, l) ← store MsgVoteComb.signs log.preparesComb msg
  pure (n, { log with preparesComb := l })

def storeTEEPrepComb (msg : MsgPrepareComb) : Option (ℕ × Log) := do
  let (n, l) ← store MsgVoteComb.signs log.teePreparesComb msg
  pure (n, { log with teePreparesComb := l })

def storePcComb (msg : MsgPreCommitComb) : Option (ℕ × Log) := do
  let (n, l) ← store MsgVoteComb.signs log.precommitsComb msg
  pure (n, { log with precommitsComb := l })

def storeTEEPcComb (msg : MsgPreCommitComb) : Option (ℕ × Log) := do
  let (n, l) ← store MsgVoteComb.signs log.teePrecommitsComb msg
  pure (n, { log with teePrecommitsComb := l })

def storeComComb (msg : MsgCommitComb) : Option (ℕ × Log) := do
  let (n, l) ← store MsgVoteComb.signs log.commitsComb msg
  pure (n, { log with commitsComb := l })

def storeTEEComComb (msg : MsgCommitComb) : Option (ℕ × Log) := do
  let (n, l) ← store MsgVoteComb.signs log.teeCommitsComb msg
  pure (n, { log with teeCommitsComb := l })

def getPrepareComb : View → ℕ → Option Signs := getSigns MsgVoteComb.signs log.preparesComb
def getTEEPrepareComb : View → ℕ → Option Signs := getSigns MsgVoteComb.signs log.teePreparesComb
def getPrecommitComb : View → ℕ → Option Signs := getSigns MsgVoteComb.signs log.precommitsComb
def getTEEPrecommitComb : View → ℕ → Option Signs :=
  getSigns MsgVoteComb.signs log.teePrecommitsComb
def getCommitComb : View → ℕ → Option Signs := getSigns MsgVoteComb.signs log.commitsComb
def getTEECommitComb : View → ℕ → Option Signs := getSigns MsgVoteComb.signs log.teeCommitsComb

/-- `getPrepareCombMerged` .. `getCommitCombMerged` -/
def merged (tee non : VoteLog) (view : View) (n : ℕ) : Option Signs := do
  let teeSigns ← getSigns MsgVoteComb.signs tee view n
  let out ← addUpto .empty teeSigns n
  if out.size < n then
    let nonSigns ← getSigns MsgVoteComb.signs non view n
    addUpto out nonSigns n
  else pure out

def getPrepareCombMerged : View → ℕ → Option Signs := merged log.teePreparesComb log.preparesComb
def getPrecommitCombMerged : View → ℕ → Option Signs :=
  merged log.teePrecommitsComb log.precommitsComb
def getCommitCombMerged : View → ℕ → Option Signs := merged log.teeCommitsComb log.commitsComb

end Log

/-- Stores a vote among those of TEE nodes or among the others. -/
def storeFor (isTEE : Bool) (storeTEE store : Log → MsgVoteComb → Option (ℕ × Log))
    (msg : MsgVoteComb) : CheckedM Unit := do
  let s ← get
  let (_, log) ← liftM (if isTEE then storeTEE s.log msg else store s.log msg)
  set { s with log := log }

/-! ### The leader's proposal -/

def newviews2accComb (newviews : List MsgNewViewComb) (requiredSize : ℕ) : CheckedM Accum :=
  let ss := sameNewViewSigns newviews
  if ss.size ≥ requiredSize then
    let rdata := (newviews.head?.map MsgNewViewComb.data).getD RData.none
    callTEEaccumCombSp cfg o ⟨true, rdata, ss⟩
  else
    callTEEaccumComb cfg o (Vector.ofFn fun i =>
      match newviews[i.val]? with
      | some msg => ⟨true, msg.data, Signs.one msg.sign⟩
      | none => Just.none)

def processQC (newviews : List MsgNewViewComb) (qcType : QcType) : CheckedM Unit := do
  let s ← get
  if s.view ∈ s.processedNewViews then pure ()
  else
    let acc ← newviews2accComb cfg o newviews
      (match qcType with
      | .tee => cfg.tqsize
      | .normal => cfg.qsize)
    if !acc.set then pure ()
    else
      let block ← createNewBlock cfg acc.hash
      let proof := NewViewProofComb.ofMsgs newviews
      let justPrep ← callTEEprepareComb cfg o block acc proof
      if !justPrep.set then pure ()
      else
        modify fun s => { s with
          processedNewViews := viewInsert s.view s.processedNewViews
          blocks := s.blocks.insert s.view block }
        let msgPrep : MsgPrepareComb := ⟨justPrep.rdata, justPrep.signs⟩
        if msgPrep.signs.size = 1 then
          sendMsg (.ldrprepare ⟨acc, block, proof, msgPrep.signs.get 0⟩)
            (cfg.removeFromPeersPure cfg.myid)
          storeFor (cfg.isTEE cfg.myid) storeTEEPrepComb storePrepComb msgPrep
        else pure ()

def prepareComb : CheckedM Unit := do
  let s ← get
  let teeNewviews := s.log.getTEENewViewComb s.view cfg.tqsize
  let nonTeeNewviews := s.log.getNewViewComb s.view cfg.qsize
  if cfg.fastQC && teeNewviews.length ≥ cfg.tqsize then
    processQC cfg o teeNewviews .tee
  else
    let mixedNewviews := (teeNewviews ++ nonTeeNewviews).foldl (fun mixed msg =>
      if mixed.length < cfg.qsize then setInsert MsgNewViewComb.lt msg mixed else mixed) []
    if mixedNewviews.length = cfg.qsize then
      processQC cfg o mixedNewviews .normal
    else pure ()

def handleNewviewComb (msg : MsgNewViewComb) : CheckedM Unit := do
  let s ← get
  let v := msg.data.propv
  if v ≥ s.view then
    let leader ← amLeaderOf cfg v
    let verified ← liftM (checkIf (leader = true) (verifyNewViewComb cfg (o.crypto s.calls) msg))
    if verified then
      modify fun s => { s with
        log := if cfg.isTEE msg.sign.signer then (s.log.storeTEENvComb msg).2
          else (s.log.storeNvComb msg).2 }
      let s ← get
      let teecount := (s.log.getTEENewViewComb v cfg.tqsize).length
      let ncount := (s.log.getNewViewComb v cfg.qsize).length
      if s.phase = .newview
          && ((cfg.fastQC && teecount ≥ cfg.tqsize) || teecount + ncount ≥ cfg.qsize) then
        prepareComb cfg o
        modify fun s => if s.view ∈ s.processedNewViews then { s with phase := .prepare } else s
      else pure ()
    else pure ()
  else pure ()

/-! ### The backup's vote -/

def respondToLdrPrepareComb (block : Block) (acc : Accum) (proof : NewViewProofComb) :
    CheckedM Unit := do
  let justPrep ← callTEEprepareComb cfg o block acc proof
  if justPrep.set then
    modify fun s => { s with blocks := s.blocks.insert s.view block }
    let leader ← getCurrentLeader cfg
    sendMsg (.prepare ⟨justPrep.rdata, justPrep.signs⟩) (cfg.keepFromPeers leader)
  else pure ()

def handleLdrPrepareComb (msg : MsgLdrPrepareComb) : CheckedM Unit := do
  let acc := msg.acc
  let v := acc.view
  let vm ← verifyLdrPrepareComb cfg o msg
  let s ← get
  if v ≥ s.view then
    let leader ← amLeaderOf cfg v
    if !leader && vm && (acc.size = cfg.qsize || acc.size = cfg.tqsize)
        && msg.block.extends acc.hash then
      if v = s.view then respondToLdrPrepareComb cfg o msg.block acc msg.proof
      else modify fun s => { s with log := (s.log.storeLdrPrepComb msg).2 }
    else pure ()
  else pure ()

/-! ### Certificates: the leader -/

def preCommitComb (data : RData) (qcType : QcType) : CheckedM Unit := do
  let s ← get
  let signs ← liftM (match qcType with
    | .tee => getTEEPrepareComb s.log data.propv cfg.tqsize
    | .normal => getPrepareCombMerged s.log data.propv cfg.qsize)
  let verified ← liftM (verifyCombQC cfg (o.crypto s.calls) data signs .prepare)
  if verified then
    sendMsg (.prepare ⟨data, signs⟩) (cfg.removeFromPeers cfg.myid)
    let justPc ← callTEEstoreComb cfg o ⟨true, data, signs⟩
    if justPc.set then
      storeFor (cfg.isTEE cfg.myid) storeTEEPcComb storePcComb ⟨justPc.rdata, justPc.signs⟩
    else pure ()
  else pure ()

def commitComb (data : RData) (qcType : QcType) : CheckedM Unit := do
  let s ← get
  let signs ← liftM (match qcType with
    | .tee => getTEEPrecommitComb s.log data.propv cfg.tqsize
    | .normal => getPrecommitCombMerged s.log data.propv cfg.qsize)
  let verified ← liftM (verifyCombQC cfg (o.crypto s.calls) data signs .precommit)
  if verified then
    sendMsg (.precommit ⟨data, signs⟩) (cfg.removeFromPeers cfg.myid)
    let justPc ← callTEEstoreComb cfg o ⟨true, data, signs⟩
    if justPc.set then
      storeFor (cfg.isTEE cfg.myid) storeTEEComComb storeComComb ⟨justPc.rdata, justPc.signs⟩
    else pure ()
  else pure ()

section Exec

variable (exec : RData → CheckedM Unit)

def decideComb (data : RData) (qcType : QcType) : CheckedM Unit := do
  let leader ← getCurrentLeader cfg
  let s ← get
  let view := data.propv
  let cr := o.crypto s.calls
  if cfg.isTEE leader then
    let signs ← liftM (match qcType with
      | .tee => getTEEPrepareComb s.log view cfg.tqsize
      | .normal => getPrepareCombMerged s.log view cfg.qsize)
    let verified ← liftM (verifyCombQC cfg cr data signs .prepare)
    if verified then
      sendMsg (.prepare ⟨data, signs⟩) (cfg.removeFromPeersPure cfg.myid)
      exec data
    else pure ()
  else
    let signs ← liftM (match qcType with
      | .tee => getTEECommitComb s.log view cfg.tqsize
      | .normal => getCommitCombMerged s.log view cfg.qsize)
    let verified ← liftM (verifyCombQC cfg cr data signs .commit)
    if verified then
      sendMsg (.commit ⟨data, signs⟩) (cfg.removeFromPeersPure cfg.myid)
      exec data
    else pure ()

/-! ### Certificates: the backups -/

def respondToPrepareComb (msg : MsgPrepareComb) : CheckedM Unit := do
  let leader ← getCurrentLeader cfg
  let s ← get
  let verified ← liftM (verifyCombQC cfg (o.crypto s.calls) msg.data msg.signs .prepare)
  if verified then
    if cfg.isTEE leader then exec msg.data
    else
      let justPc ← callTEEstoreComb cfg o ⟨true, msg.data, msg.signs⟩
      if justPc.set then
        let leader ← getCurrentLeader cfg
        sendMsg (.precommit ⟨justPc.rdata, justPc.signs⟩) (cfg.keepFromPeers leader)
      else pure ()
  else pure ()

def respondToPreCommitComb (msg : MsgPreCommitComb) : CheckedM Unit := do
  let justPc ← callTEEstoreComb cfg o ⟨true, msg.data, msg.signs⟩
  if justPc.set then
    let leader ← getCurrentLeader cfg
    sendMsg (.commit ⟨justPc.rdata, justPc.signs⟩) (cfg.keepFromPeers leader)
  else pure ()

def respondToCommitComb (msg : MsgCommitComb) : CheckedM Unit := do
  let s ← get
  let verified ← liftM (verifyCombQC cfg (o.crypto s.calls) msg.data msg.signs .commit)
  if verified then exec msg.data else pure ()

/-! ### Starting a view -/

def replayQCs (catchupView : View) (block : Block) : CheckedM Unit := do
  let s ← get
  match s.futurePrepareQCs.get catchupView with
  | [] => pure ()
  | qc :: _ =>
    let blockHash ← liftM (hash o.sha256 block)
    if !eqHashes blockHash qc.data.proph then pure ()
    else
      modify fun s => { s with futurePrepareQCs := s.futurePrepareQCs.erase catchupView }
      respondToPrepareComb cfg o exec qc
      let s ← get
      if s.view ≠ catchupView then pure ()
      else
        match s.futurePreCommitQCs.get catchupView with
        | [] => pure ()
        | qc :: _ =>
          let blockHash ← liftM (hash o.sha256 block)
          if !eqHashes blockHash qc.data.proph then pure ()
          else
            modify fun s => { s with futurePreCommitQCs := s.futurePreCommitQCs.erase catchupView }
            respondToPreCommitComb cfg o qc
            let s ← get
            match s.futureCommitQCs.get catchupView with
            | [] => pure ()
            | qc :: _ =>
              let blockHash ← liftM (hash o.sha256 block)
              if !eqHashes blockHash qc.data.proph then pure ()
              else
                modify fun s => { s with futureCommitQCs := s.futureCommitQCs.erase catchupView }
                respondToCommitComb cfg o exec qc

def replayProposal (catchupView : View) : CheckedM Unit := do
  let s ← get
  match s.log.firstLdrPrepareComb catchupView with
  | some msgProp =>
    if msgProp.sign.set then
      respondToLdrPrepareComb cfg o msgProp.block msgProp.acc msgProp.proof
    else pure ()
  | none => pure ()

def handleEarlierMessagesComb : CheckedM Unit := do
  let leader ← amCurrentLeader cfg
  let s ← get
  if leader then
    let teeNewviews := s.log.getTEENewViewComb s.view cfg.tqsize
    let normalNewviews := s.log.getNewViewComb s.view cfg.qsize
    if (cfg.fastQC && teeNewviews.length ≥ cfg.tqsize)
        || teeNewviews.length + normalNewviews.length ≥ cfg.qsize then
      prepareComb cfg o
    else pure ()
  else
    let catchupView := s.view
    replayProposal cfg o catchupView
    let s ← get
    match s.blocks.lookup catchupView with
    | none => pure ()
    | some block => replayQCs cfg o exec catchupView block

def startNewViewComb (fuel : ℕ) : CheckedM Unit := do
  let s ← get
  let first ← callTEEsignComb cfg o
  let just ← signUntilAfter cfg o s.view fuel first
  if just.set then
    modify fun s => { s with view := nextView s.view, timer := true }
    let s ← get
    if just.rdata.propv = s.view && just.rdata.phase = Phase1.newview.byte
        && just.signs.size = 1 then
      let msg : MsgNewViewComb := ⟨just.rdata, just.signs.get 0⟩
      let leader ← getCurrentLeader cfg
      if cfg.myid = leader then
        handleEarlierMessagesComb cfg o exec
        handleNewviewComb cfg o msg
      else
        sendMsg (.newview msg) (cfg.keepFromPeers leader)
        handleEarlierMessagesComb cfg o exec
    else pure ()
  else pure ()

end Exec

/-! ### Execution -/

/-- The hashes of `executeComb`: of the block of the view, again by `addLiveCommittedTxsAtCommit`, and
by `replyHash` of the block of the replica's own view.  The replies are then read from all slots. -/
def executeComb : ℕ → RData → CheckedM Unit
  | 0, _ => throw .outOfFuel
  | fuel + 1, data => do
    let s ← get
    if data.propv ∈ s.processedCommit then pure ()
    else
      match s.blocks.lookup data.propv with
      | none => pure ()
      | some block =>
        let blockHash ← liftM (hash o.sha256 block)
        if !eqHashes blockHash data.proph then pure ()
        else
          let _ ← liftM (hash o.sha256 block)
          let _ ← liftM ((s.blocks.lookup s.view).elim (some noHash) (hash o.sha256))
          set (s.committed cfg o data block)
          let s ← get
          if timeToStopComb cfg s then liftM recordStats
          else startNewViewComb cfg o (executeComb fuel) fuel

/-! ### Votes and certificates that arrive -/

def countVote (storeTEE store : Log → MsgVoteComb → Option (ℕ × Log))
    (getTEE get' : Log → View → ℕ → Option Signs) (msg : MsgVoteComb) : CheckedM (ℕ × ℕ) := do
  let s ← get
  if cfg.isTEE (msg.signs.get 0).signer then
    let (teecount, log) ← liftM (storeTEE s.log msg)
    set { s with log := log }
    if teecount ≠ 0 then
      let signs ← liftM (get' log msg.data.propv cfg.qsize)
      pure (teecount, signs.size)
    else pure (teecount, 0)
  else
    let (ncount, log) ← liftM (store s.log msg)
    set { s with log := log }
    if ncount ≠ 0 then
      let signs ← liftM (getTEE log msg.data.propv cfg.tqsize)
      pure (signs.size, ncount)
    else pure (0, ncount)

/-- `futurePrepareQCs[v].insert(msg)` and the like. -/
def insertQC (log : VoteLog) (msg : MsgVoteComb) : Option VoteLog := insert MsgVoteComb.signs log msg

def handlePrepareComb (fuel : ℕ) (msg : MsgPrepareComb) : CheckedM Unit := do
  let s ← get
  let data := msg.data
  let v := data.propv
  let cr := o.crypto s.calls
  if v = s.view then
    let leader ← amLeaderOf cfg v
    if leader then
      let verified ← liftM (verifyCombVote cfg cr data msg.signs .prepare)
      if verified then
        let (teecount, ncount) ← countVote cfg storeTEEPrepComb storePrepComb getTEEPrepareComb
          getPrepareComb msg
        if cfg.fastQC && teecount ≥ cfg.tqsize && s.phase = .prepare then
          let leader ← getCurrentLeader cfg
          if cfg.isTEE leader then
            setPhase .newview
            decideComb cfg o (executeComb cfg o fuel) data .tee
          else
            setPhase .precommit
            preCommitComb cfg o data .tee
        else if teecount + ncount = cfg.qsize && s.phase = .prepare then
          let leader ← getCurrentLeader cfg
          if cfg.isTEE leader then
            setPhase .newview
            decideComb cfg o (executeComb cfg o fuel) data .normal
          else
            setPhase .precommit
            preCommitComb cfg o data .normal
        else pure ()
      else pure ()
    else
      let verified ← liftM (verifyCombQC cfg cr data msg.signs .prepare)
      if verified then respondToPrepareComb cfg o (executeComb cfg o fuel) msg else pure ()
  else if v > s.view then
    let verified ← liftM (verifyCombQC cfg cr data msg.signs .prepare)
    if verified then
      let qcs ← liftM (insertQC s.futurePrepareQCs msg)
      modify fun s => { s with futurePrepareQCs := qcs }
    else
      let verified ← liftM (verifyCombVote cfg cr data msg.signs .prepare)
      if verified then
        storeFor (cfg.isTEE (msg.signs.get 0).signer) storeTEEPrepComb storePrepComb msg
      else pure ()
  else pure ()

def handlePreCommitComb (msg : MsgPreCommitComb) : CheckedM Unit := do
  let s ← get
  let data := msg.data
  let v := data.propv
  let cr := o.crypto s.calls
  if v = s.view then
    let leader ← amLeaderOf cfg v
    if leader then
      let verified ← liftM (verifyCombVote cfg cr data msg.signs .precommit)
      if verified then
        let (teecount, ncount) ← countVote cfg storeTEEPcComb storePcComb getTEEPrecommitComb
          getPrecommitComb msg
        if teecount = cfg.tqsize && s.phase = .precommit then
          setPhase .commit
          commitComb cfg o data .tee
        else if teecount + ncount = cfg.qsize && s.phase = .precommit then
          setPhase .commit
          commitComb cfg o data .normal
        else pure ()
      else pure ()
    else
      let verified ← liftM (verifyCombQC cfg cr data msg.signs .precommit)
      if verified then respondToPreCommitComb cfg o msg else pure ()
  else if v > s.view then
    let verified ← liftM (verifyCombQC cfg cr data msg.signs .precommit)
    if verified then
      let qcs ← liftM (insertQC s.futurePreCommitQCs msg)
      modify fun s => { s with futurePreCommitQCs := qcs }
    else
      let verified ← liftM (verifyCombVote cfg cr data msg.signs .precommit)
      if verified then
        storeFor (cfg.isTEE (msg.signs.get 0).signer) storeTEEPcComb storePcComb msg
      else pure ()
  else pure ()

def handleCommitComb (fuel : ℕ) (msg : MsgCommitComb) : CheckedM Unit := do
  let s ← get
  let data := msg.data
  let v := data.propv
  let cr := o.crypto s.calls
  if v = s.view then
    let leader ← amLeaderOf cfg v
    if leader then
      let verified ← liftM (verifyCombVote cfg cr data msg.signs .commit)
      if verified then
        let (teecount, ncount) ← countVote cfg storeTEEComComb storeComComb getTEECommitComb
          getCommitComb msg
        if teecount = cfg.tqsize && s.phase = .commit then
          setPhase .newview
          decideComb cfg o (executeComb cfg o fuel) data .tee
        else if teecount + ncount = cfg.qsize && s.phase = .commit then
          setPhase .newview
          decideComb cfg o (executeComb cfg o fuel) data .normal
        else pure ()
      else pure ()
    else
      let verified ← liftM (verifyCombQC cfg cr data msg.signs .commit)
      if verified then respondToCommitComb cfg o (executeComb cfg o fuel) msg else pure ()
  else if v > s.view then
    let verified ← liftM (verifyCombQC cfg cr data msg.signs .commit)
    if verified then
      let qcs ← liftM (insertQC s.futureCommitQCs msg)
      modify fun s => { s with futureCommitQCs := qcs }
    else
      let verified ← liftM (verifyCombVote cfg cr data msg.signs .commit)
      if verified then
        storeFor (cfg.isTEE (msg.signs.get 0).signer) storeTEEComComb storeComComb msg
      else pure ()
  else pure ()

/-! ### Inputs -/

def getStarted : CheckedM Unit := do
  let leader ← getCurrentLeader cfg
  let s ← get
  let _nextLeader ← getLeaderOf cfg (nextView s.view)
  let j ← callTEEsignComb cfg o
  if j.signs.size = 1 then
    let msg : MsgNewViewComb := ⟨j.rdata, j.signs.get 0⟩
    let amLeader ← amCurrentLeader cfg
    if amLeader then handleNewviewComb cfg o msg
    else sendMsg (.newview msg) (cfg.keepFromPeers leader)
  else pure ()

def handleStart (cid : CID) : CheckedM Unit := do
  let s ← get
  set { s with
    clients := if (s.clients.lookup cid).isSome then s.clients else s.clients.insert cid true
    started := true }
  if s.started then pure () else getStarted cfg o

def startNewViewOnTimeout (fuel : ℕ) : CheckedM Unit := do
  modify fun s =>
    if cfg.fixedLeaderMode then s
    else { s with skippedLeaders := viewInsert (s.view % cfg.total) s.skippedLeaders }
  startNewViewComb cfg o (executeComb cfg o fuel) fuel

def handle (fuel : ℕ) : Input → CheckedM Unit
  | .peer (.newview msg) => handleNewviewComb cfg o msg
  | .peer (.ldrprepare msg) => handleLdrPrepareComb cfg o msg
  | .peer (.prepare msg) => handlePrepareComb cfg o fuel msg
  | .peer (.precommit msg) => handlePreCommitComb cfg o msg
  | .peer (.commit msg) => handleCommitComb cfg o fuel msg
  | .start cid => handleStart cfg o cid
  | .transaction t => liftM (handleTransaction t)
  | .timeout => startNewViewOnTimeout cfg o fuel

/-- One input, from state to state, when every read is in range. -/
def react (s : HandlerState) (fuel : ℕ) (input : Input) : Option HandlerState :=
  if s.stopped then some s
  else if input.isTimeout && !s.timer then some s
  else
    match handle cfg o fuel input s with
    | none => none
    | some (.ok _, s') => some s'
    | some (.error e, s') => some (if e.ends input.isTimeout then { s' with stopped := true } else s')

end Checked

end Raftel
