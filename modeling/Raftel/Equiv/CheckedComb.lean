import Raftel.Handler.CheckedComb
import Raftel.Equiv.Reads
import Raftel.Equiv.Steps

/-!
# The handlers of the hybrid protocol read in range

The signatures of a message are verified before anything else is read of them, and `verifyCombSigns`
looks at their number first; so does the trusted component.  A block is hashed without a check.  As long
as the blocks and the votes that are stored fit their arrays (`InRange`), every other read is in range,
and the handlers with checks do what the handlers do.

* `agrees_handle` : each handler, on a message whose block fits
* `react_eq` : the reaction to an input
-/

namespace Raftel

open Lib

variable {Key : Type} {cfg : HandlerConfig Key} {o : Oracle Key}

namespace Checked

/-- A certificate of one kind or of the other, the second looked at when the first is refused. -/
theorem either_eq (first second : Bool) :
    (some first >>= fun b => if b = true then pure true else some second) =
      some (first || second) := by
  cases first <;> rfl

/-! ### The enclave -/

section Enclave

variable {vars : EnclaveVars Key} {cr : Crypto Key}

theorem verifySigns_eq (signs : Signs) (t : SignedText) :
    verifySigns vars cr signs t = some (vars.verifyText cr.verifySign signs t) := by
  unfold verifySigns EnclaveVars.verifyText Raftel.verifySigns
  by_cases h : signs.size = 0 ∨ signs.size > maxNumSignatures
  · rw [if_pos h, if_pos h]
  · rw [if_neg h, if_neg h, entries_eq (Nat.le_of_not_lt fun hlt => h (Or.inr hlt))]
    rfl

theorem verifyQuorum_eq (signs : Signs) (t : SignedText) (n : ℕ) (teeOnly : Bool) :
    verifyQuorum vars cr signs t n teeOnly =
      some (vars.verifyQuorum cr.verifySign signs t n teeOnly) := by
  unfold verifyQuorum EnclaveVars.verifyQuorum
  by_cases h : n = 0 ∨ n > maxNumSignatures ∨ signs.size ≠ n
  · rw [if_pos h, if_pos h]
  · rw [if_neg h, if_neg h]
    have hin : signs.InBounds := by
      show signs.size ≤ maxNumSignatures
      omega
    rw [entries_eq hin]
    show (if _ then pure false else verifySigns vars cr signs t) = _
    rw [verifySigns_eq]
    exact (apply_ite some _ false _).symm

theorem combValidQC_eq (just : Just) :
    combValidQC vars cr just = some (Raftel.combValidQC cr vars just) := by
  unfold combValidQC Raftel.combValidQC
  rw [verifyQuorum_eq, verifyQuorum_eq, checkIf_some, checkIf_some]
  exact either_eq _ _

theorem combHashBlock_eq (b : Block) :
    combHashBlock cr b = some (Raftel.combHashBlock cr.sha256 b) := by
  unfold combHashBlock Raftel.combHashBlock
  by_cases h : (!b.set || b.size > maxNumTransactions) = true
  · rw [if_pos h, if_pos h]
  · have hin : b.InBounds := by
      rw [Bool.not_eq_true, Bool.or_eq_false_iff, decide_eq_false_iff_not] at h
      exact Nat.le_of_not_lt h.2
    rw [if_neg h, if_neg h, hash_eq hin]
    rfl

/-- **The enclave reads in range**, whatever it is called with. -/
theorem enclaveReads_eq (c : Call) : enclaveReads vars cr c = some () := by
  cases c with
  | sign => rfl
  | prepare block acc nvs =>
    unfold enclaveReads
    dsimp only
    rw [combHashBlock_eq]
    rfl
  | store just =>
    unfold enclaveReads
    dsimp only
    rw [combValidQC_eq]
    rfl
  | accum justs => rfl
  | accumSp just =>
    unfold enclaveReads
    dsimp only
    rw [verifySigns_eq, readAll_eq (Nat.min_le_left _ _)]
    split
    · cases vars.verifyText cr.verifySign just.signs (.rdata just.rdata) <;> rfl
    · rfl

end Enclave

/-! ### The component of a replica without a TEE -/

section Trusted

variable {vars : TrustedVars Key} {cr : Crypto Key}

theorem trustedVerifyQuorum_eq (data : RData) (signs : Signs) :
    trustedVerifyQuorum vars cr data signs =
      some (Raftel.trustedVerifyQuorum cr vars data signs) := by
  unfold trustedVerifyQuorum Raftel.trustedVerifyQuorum
  by_cases h : (signs.size ≠ vars.tqsize ∧ signs.size ≠ vars.qsize) ∨ signs.size = 0 ∨
      signs.size > maxNumSignatures
  · rw [if_pos h, if_pos h]
  · rw [if_neg h, if_neg h]
    have hin : signs.InBounds := Nat.le_of_not_lt fun hlt => h (Or.inr (Or.inr hlt))
    rw [entries_eq hin, verify_eq hin]
    dsimp only [bind, Option.bind]
    cases hostSignersFrom vars.nodes signs.entries [] true with
    | none => rfl
    | some allTEE => exact (apply_ite some _ false _).symm

/-- A call whose block fits. -/
def CallFits : Call → Prop
  | .prepare block _ _ => block.InBounds
  | _ => True

/-- **The component of the host reads in range** when the block fits: it is hashed without a check. -/
theorem trustedReads_eq {c : Call} (h : CallFits c) : trustedReads vars cr c = some () := by
  cases c with
  | sign => rfl
  | prepare block acc nvs =>
    unfold trustedReads
    dsimp only
    rw [hash_eq h]
    rfl
  | store just =>
    unfold trustedReads
    dsimp only
    rw [trustedVerifyQuorum_eq]
    rfl
  | accum justs =>
    unfold trustedReads
    dsimp only
    induction justs.toList.take vars.qsize with
    | nil => rfl
    | cons just l ih =>
      rw [List.forM_eq_forM, List.forM_cons, ← List.forM_eq_forM, ih]
      by_cases hone : just.signs.size = 1
      · have hin : just.signs.InBounds := hone.trans_le maxNumSignatures_pos
        rw [if_pos hone, verify_eq hin]
        rfl
      · rw [if_neg hone]
        rfl
  | accumSp just =>
    unfold trustedReads
    dsimp only
    rw [readAll_eq (Nat.min_le_left _ _)]
    split <;> rfl

end Trusted

theorem componentReads_eq {cr : Crypto Key} {c : Call} (h : CallFits c) (comp : Component Key) :
    componentReads cr comp c = some () := by
  cases comp with
  | enclave vars => exact enclaveReads_eq c
  | host vars => exact trustedReads_eq h

/-! ### Verification -/

section Verification

variable {cr : Crypto Key}

/-- **Signatures are counted before they are read.** -/
theorem verifyCombSigns_eq (data : RData) (signs : Signs) (n : ℕ) (teeOnly : Bool) :
    verifyCombSigns cfg cr data signs n teeOnly =
      some (Raftel.verifyCombSigns cfg cr data signs n teeOnly) := by
  unfold verifyCombSigns Raftel.verifyCombSigns
  by_cases h : n = 0 ∨ n > maxNumSignatures ∨ signs.size ≠ n
  · rw [if_pos h, if_pos h]
  · rw [if_neg h, if_neg h]
    have hin : signs.InBounds := by
      show signs.size ≤ maxNumSignatures
      omega
    rw [entries_eq hin, verify_eq hin]
    dsimp only [bind, Option.bind]
    cases hostSignersFrom cfg.nodes signs.entries [] true with
    | none => rfl
    | some allTEE => exact (apply_ite some _ false _).symm

theorem verifyCombQC_eq (data : RData) (signs : Signs) (ph : Phase1) :
    verifyCombQC cfg cr data signs ph = some (Raftel.verifyCombQC cfg cr data signs ph) := by
  unfold verifyCombQC Raftel.verifyCombQC
  rw [verifyCombSigns_eq, verifyCombSigns_eq, checkIf_some, checkIf_some,
    either_eq, checkIf_some]

theorem verifyCombVote_eq (data : RData) (signs : Signs) (ph : Phase1) :
    verifyCombVote cfg cr data signs ph = some (Raftel.verifyCombVote cfg cr data signs ph) := by
  unfold verifyCombVote Raftel.verifyCombVote
  rw [verifyCombSigns_eq, checkIf_some]

theorem verifyNewViewComb_eq (msg : MsgNewViewComb) :
    verifyNewViewComb cfg cr msg = some (Raftel.verifyNewViewComb cfg cr msg) := by
  unfold verifyNewViewComb Raftel.verifyNewViewComb
  rw [verifyCombSigns_eq, checkIf_some]

/-- Verified signatures fit. -/
theorem inBounds_of_verifyCombSigns {data : RData} {signs : Signs} {n : ℕ} {teeOnly : Bool}
    (h : Raftel.verifyCombSigns cfg cr data signs n teeOnly = true) : signs.InBounds := by
  unfold Raftel.verifyCombSigns at h
  by_cases hn : n = 0 ∨ n > maxNumSignatures ∨ signs.size ≠ n
  · rw [if_pos hn] at h
    cases h
  · show signs.size ≤ maxNumSignatures
    omega

theorem inBounds_of_verifyCombVote {data : RData} {signs : Signs} {ph : Phase1}
    (h : Raftel.verifyCombVote cfg cr data signs ph = true) : signs.InBounds :=
  inBounds_of_verifyCombSigns (Bool.and_eq_true_iff.mp h).2

theorem inBounds_of_verifyCombQC {data : RData} {signs : Signs} {ph : Phase1}
    (h : Raftel.verifyCombQC cfg cr data signs ph = true) : signs.InBounds := by
  rcases Bool.or_eq_true_iff.mp (Bool.and_eq_true_iff.mp h).2 with hqc | hqc
  · exact inBounds_of_verifyCombSigns (Bool.and_eq_true_iff.mp hqc).2
  · exact inBounds_of_verifyCombSigns (Bool.and_eq_true_iff.mp hqc).2

end Verification

/-! ### What is stored -/

/-- The votes and the proposals of a log fit their arrays. -/
structure LogFits (log : Log) : Prop where
  prepares : log.preparesComb.All fun m => m.signs.InBounds
  teePrepares : log.teePreparesComb.All fun m => m.signs.InBounds
  precommits : log.precommitsComb.All fun m => m.signs.InBounds
  teePrecommits : log.teePrecommitsComb.All fun m => m.signs.InBounds
  commits : log.commitsComb.All fun m => m.signs.InBounds
  teeCommits : log.teeCommitsComb.All fun m => m.signs.InBounds
  ldrprepares : log.ldrpreparesComb.All fun m => m.block.InBounds

/-- All that a replica stores fits its array. -/
structure InRange (s : HandlerState) : Prop where
  log : LogFits s.log
  futurePrepares : s.futurePrepareQCs.All fun m => m.signs.InBounds
  futurePreCommits : s.futurePreCommitQCs.All fun m => m.signs.InBounds
  futureCommits : s.futureCommitQCs.All fun m => m.signs.InBounds
  blocks : ∀ v b, s.blocks.lookup v = some b → b.InBounds

theorem inRange_init : InRange .init where
  log := ⟨ViewLog.all_empty, ViewLog.all_empty, ViewLog.all_empty, ViewLog.all_empty,
    ViewLog.all_empty, ViewLog.all_empty, ViewLog.all_empty⟩
  futurePrepares := ViewLog.all_empty
  futurePreCommits := ViewLog.all_empty
  futureCommits := ViewLog.all_empty
  blocks v b h := by simp [HandlerState.init] at h

/-- The program reads in range as long as what is stored fits, does what `m` does, and what is stored
fits afterwards; its value is as `Q` says. -/
def Agrees {α : Type} (c : CheckedM α) (m : HandlerM α) (Q : α → Prop) : Prop :=
  Follows InRange c m (fun a s => InRange s ∧ Q a) InRange

/-- In a state that has been named. -/
theorem Agrees.named {α : Type} {c : CheckedM α} {m : HandlerM α} {Q : α → Prop}
    (h : Agrees c m Q) {s₀ : HandlerState} (hs₀ : InRange s₀) :
    Follows (fun s => s = s₀) c m (fun a s => InRange s ∧ Q a) InRange :=
  h.pre fun _ hs => hs ▸ hs₀

/-- The rule for the programs without reads that leave what is stored as it is. -/
theorem agrees_of_same {α : Type} {m : HandlerM α} {Q : α → Prop}
    (h : ∀ s, ∃ a s', m s = .ok a s' ∧ (InRange s → InRange s') ∧ Q a) : Agrees (liftM m) m Q := by
  refine Follows.lift fun s hs => ?_
  obtain ⟨a, s', hm, hkeep, hQ⟩ := h s
  rw [hm]
  exact ⟨hkeep hs, hQ⟩

/-! ### Programs without reads -/

theorem InRange.same {s s' : HandlerState} (h : InRange s) (hlog : s'.log = s.log)
    (hprep : s'.futurePrepareQCs = s.futurePrepareQCs)
    (hpc : s'.futurePreCommitQCs = s.futurePreCommitQCs)
    (hcom : s'.futureCommitQCs = s.futureCommitQCs) (hblocks : s'.blocks = s.blocks) :
    InRange s' :=
  ⟨hlog ▸ h.log, hprep ▸ h.futurePrepares, hpc ▸ h.futurePreCommits, hcom ▸ h.futureCommits,
    hblocks ▸ h.blocks⟩

theorem InRange.insert {s : HandlerState} (h : InRange s) (v : View) {block : Block}
    (hb : block.InBounds) : InRange { s with blocks := s.blocks.insert v block } := by
  refine ⟨h.log, h.futurePrepares, h.futurePreCommits, h.futureCommits, fun w b hw => ?_⟩
  by_cases hwv : w = v
  · subst hwv
    rw [AList.lookup_insert, Option.some.injEq] at hw
    exact hw ▸ hb
  · rw [AList.lookup_insert_ne hwv] at hw
    exact h.blocks w b hw

theorem agrees_sendMsg {msg : Msg} {recipients : List PID} :
    Agrees (liftM (sendMsg msg recipients)) (sendMsg msg recipients) fun _ => True :=
  agrees_of_same fun _ => ⟨_, _, rfl, fun h => h.same rfl rfl rfl rfl rfl, trivial⟩

theorem agrees_setPhase {ph : Phase1} :
    Agrees (liftM (setPhase ph)) (setPhase ph) fun _ => True :=
  agrees_of_same fun _ => ⟨_, _, rfl, fun h => h.same rfl rfl rfl rfl rfl, trivial⟩

theorem agrees_getLeaderOf {v : View} :
    Agrees (liftM (getLeaderOf cfg v)) (getLeaderOf cfg v) fun _ => True :=
  agrees_of_same fun _ => ⟨_, _, rfl, fun h => h.same rfl rfl rfl rfl rfl, trivial⟩

theorem agrees_getCurrentLeader :
    Agrees (liftM (getCurrentLeader cfg)) (getCurrentLeader cfg) fun _ => True :=
  agrees_of_same fun _ => ⟨_, _, rfl, fun h => h.same rfl rfl rfl rfl rfl, trivial⟩

theorem agrees_amLeaderOf {v : View} :
    Agrees (liftM (amLeaderOf cfg v)) (amLeaderOf cfg v) fun _ => True :=
  agrees_of_same fun _ => ⟨_, _, rfl, fun h => h.same rfl rfl rfl rfl rfl, trivial⟩

theorem agrees_amCurrentLeader :
    Agrees (liftM (amCurrentLeader cfg)) (amCurrentLeader cfg) fun _ => True :=
  agrees_of_same fun _ => ⟨_, _, rfl, fun h => h.same rfl rfl rfl rfl rfl, trivial⟩

/-- The justification of a call that was accepted holds one signature. -/
def OneSigned (just : Just) : Prop := just.set = true → just.signs.size = 1

theorem called_oneSigned (s : HandlerState) (c : Call) : OneSigned (s.called cfg o c).1.toJust :=
  fun hset => (HandlerState.called_signs hset).1

theorem agrees_callTEEsignComb :
    Agrees (liftM (callTEEsignComb cfg o)) (callTEEsignComb cfg o) fun _ => True :=
  agrees_of_same fun _ => ⟨_, _, rfl, fun h => h.same rfl rfl rfl rfl rfl, trivial⟩

theorem triple_signUntilAfter {v : View} (fuel : ℕ) (just : Just) :
    Triple InRange (signUntilAfter cfg o v fuel just) (fun _ => InRange) fun _ => InRange := by
  induction fuel generalizing just with
  | zero => exact Triple.raise fun _ hs => hs
  | succ fuel ih =>
    unfold signUntilAfter
    refine Triple.cond (fun _ => ?_) fun _ => Triple.ret fun _ hs => hs
    have hsign : Triple InRange (callTEEsignComb cfg o) (fun _ => InRange) fun _ => InRange :=
      fun s hs => show InRange (s.called cfg o .sign).2 from hs.same rfl rfl rfl rfl rfl
    exact hsign.bind fun just' => ih just'

/-- A block of the replica itself fits. -/
theorem triple_createNewBlock {h : Hash} :
    Triple InRange (createNewBlock cfg h) (fun block s => InRange s ∧ block.InBounds)
      fun _ => InRange := by
  refine fun s hs => ?_
  have hkeep : InRange { s with transactions := s.transactions.drop maxNumTransactions } :=
    hs.same rfl rfl rfl rfl rfl
  refine Triple.cond (P := fun s' => s' = { s with
    transactions := s.transactions.drop maxNumTransactions }) (fun _ => Triple.ret ?_)
    (fun _ => Triple.raise ?_) _ rfl
  · rintro s' rfl
    refine ⟨hkeep, ?_⟩
    show (s.transactions.take maxNumTransactions).length ≤ maxNumTransactions
    rw [List.length_take]
    exact Nat.min_le_left _ _
  · rintro s' rfl
    exact hkeep

/-! ### The trusted component -/

/-- The reads of the component are in range, and then it is called. -/
theorem agrees_callTEE {c : Call} (h : CallFits c) :
    Agrees (callTEE cfg o c) (Raftel.callTEE cfg o c) fun r => OneSigned r.toJust := by
  have hcall : ∀ s, callTEE cfg o c s = Checked.lift (Raftel.callTEE cfg o c) s := by
    intro s
    show (liftM (componentReads (o.crypto s.calls) cfg.component c) >>= fun _ =>
      liftM (Raftel.callTEE cfg o c) : CheckedM Reply) s = _
    rw [componentReads_eq h]
    rfl
  refine ⟨fun s _ => hcall s, fun s hs => ?_⟩
  rw [hcall]
  exact ⟨_, rfl, hs.same rfl rfl rfl rfl rfl, called_oneSigned s c⟩

/-- What is made of the reply. -/
theorem Agrees.map {α β : Type} {c : CheckedM α} {m : HandlerM α} {Q : α → Prop}
    (h : Agrees c m Q) (f : α → β) {R : β → Prop} (hR : ∀ a, Q a → R (f a)) :
    Agrees (f <$> c) (f <$> m) R := by
  rw [map_eq_pure_bind, map_eq_pure_bind]
  exact Follows.bind h fun a => Follows.ret fun s hs => ⟨hs.1, hR a hs.2⟩

theorem agrees_callTEEprepareComb {block : Block} {acc : Accum} {proof : NewViewProofComb}
    (h : block.InBounds) :
    Agrees (callTEEprepareComb cfg o block acc proof)
      (Raftel.callTEEprepareComb cfg o block acc proof) OneSigned :=
  (agrees_callTEE (c := .prepare block acc (setNewViews proof)) h).map _ fun _ hr => hr

theorem agrees_callTEEstoreComb {just : Just} :
    Agrees (callTEEstoreComb cfg o just) (Raftel.callTEEstoreComb cfg o just) OneSigned :=
  (agrees_callTEE (c := .store just) trivial).map _ fun _ hr => hr

theorem agrees_newviews2accComb {newviews : List MsgNewViewComb} {n : ℕ} :
    Agrees (newviews2accComb cfg o newviews n) (Raftel.newviews2accComb cfg o newviews n)
      fun _ => True :=
  Follows.cond (fun _ => (agrees_callTEE (c := .accumSp _) trivial).map _ fun _ _ => trivial)
    fun _ => (agrees_callTEE (c := .accum _) trivial).map _ fun _ _ => trivial

/-! ### The log -/

section Log

variable {log : Log} {msg : MsgVoteComb}

/-- The checked functions that store the votes of TEE nodes and of the others are those of a phase. -/
structure StoresAs (storeTEE store : Log → MsgVoteComb → Option (ℕ × Log))
    (storeTEE' store' : Log → MsgVoteComb → ℕ × Log) : Prop where
  tee : ∀ log msg, LogFits log → msg.signs.InBounds →
    storeTEE log msg = some (storeTEE' log msg) ∧ LogFits (storeTEE' log msg).2
  other : ∀ log msg, LogFits log → msg.signs.InBounds →
    store log msg = some (store' log msg) ∧ LogFits (store' log msg).2

theorem storeVotes_eq {l : VoteLog} (h : l.All fun m => m.signs.InBounds) (hmsg : msg.signs.InBounds) :
    store MsgVoteComb.signs l msg = some (l.store MsgVoteComb.lt msgVoteCombFrom msg) :=
  store_eq h hmsg

theorem storesAs_prepare :
    StoresAs storeTEEPrepComb storePrepComb Log.storeTEEPrepComb Log.storePrepComb where
  tee log msg h hmsg := by
    refine ⟨?_, { h with teePrepares := h.teePrepares.store hmsg _ _ }⟩
    unfold storeTEEPrepComb
    rw [storeVotes_eq h.teePrepares hmsg]
    rfl
  other log msg h hmsg := by
    refine ⟨?_, { h with prepares := h.prepares.store hmsg _ _ }⟩
    unfold storePrepComb
    rw [storeVotes_eq h.prepares hmsg]
    rfl

theorem storesAs_precommit :
    StoresAs storeTEEPcComb storePcComb Log.storeTEEPcComb Log.storePcComb where
  tee log msg h hmsg := by
    refine ⟨?_, { h with teePrecommits := h.teePrecommits.store hmsg _ _ }⟩
    unfold storeTEEPcComb
    rw [storeVotes_eq h.teePrecommits hmsg]
    rfl
  other log msg h hmsg := by
    refine ⟨?_, { h with precommits := h.precommits.store hmsg _ _ }⟩
    unfold storePcComb
    rw [storeVotes_eq h.precommits hmsg]
    rfl

theorem storesAs_commit :
    StoresAs storeTEEComComb storeComComb Log.storeTEEComComb Log.storeComComb where
  tee log msg h hmsg := by
    refine ⟨?_, { h with teeCommits := h.teeCommits.store hmsg _ _ }⟩
    unfold storeTEEComComb
    rw [storeVotes_eq h.teeCommits hmsg]
    rfl
  other log msg h hmsg := by
    refine ⟨?_, { h with commits := h.commits.store hmsg _ _ }⟩
    unfold storeComComb
    rw [storeVotes_eq h.commits hmsg]
    rfl

theorem getVotes_eq {l : VoteLog} (h : l.All fun m => m.signs.InBounds) (v : View) (n : ℕ) :
    getSigns MsgVoteComb.signs l v n = some (l.getSigns v n) :=
  getSigns_eq h v n

/-- The signatures that are collected fit when their number is bounded by the array. -/
theorem getVotes_inBounds {l : VoteLog} {v : View} {n : ℕ} (hn : n ≤ maxNumSignatures) :
    (l.getSigns v n).InBounds := by
  have hfold : ∀ (msgs : List MsgVoteComb) (ss : Signs), ss.size ≤ n →
      (msgs.foldl (fun signs msg => if signs.size < n then signs.addUpto msg.signs n else signs)
        ss).size ≤ n := by
    intro msgs
    induction msgs with
    | nil => exact fun _ h => h
    | cons m msgs ih =>
      intro ss h
      rw [List.foldl_cons]
      by_cases hlt : ss.size < n
      · rw [if_pos hlt]
        exact ih _ (Signs.entries_addUpto hn h m.signs).2
      · rw [if_neg hlt]
        exact ih _ h
  exact (hfold (l.get v) .empty (Nat.zero_le n)).trans hn

theorem merged_eq {tee non : VoteLog} (htee : tee.All fun m => m.signs.InBounds)
    (hnon : non.All fun m => m.signs.InBounds) (v : View) {n : ℕ} (hn : n ≤ maxNumSignatures) :
    merged tee non v n = some (VoteLog.merged tee non v n) := by
  unfold merged VoteLog.merged
  rw [getVotes_eq htee, getVotes_eq hnon]
  show (addUpto .empty (tee.getSigns v n) n >>= fun out =>
    if out.size < n then addUpto out (non.getSigns v n) n else pure out) = _
  rw [addUpto_eq (getVotes_inBounds hn)]
  show (if _ then addUpto _ (non.getSigns v n) n else pure _) = _
  rw [addUpto_eq (getVotes_inBounds hn)]
  exact (apply_ite some _ _ _).symm

end Log

/-- `storeFor` is the update of the log. -/
theorem agrees_storeFor {storeTEE store : Log → MsgVoteComb → Option (ℕ × Log)}
    {storeTEE' store' : Log → MsgVoteComb → ℕ × Log}
    (hstore : StoresAs storeTEE store storeTEE' store') {msg : MsgVoteComb} (hmsg : msg.signs.InBounds)
    (isTEE : Bool) :
    Agrees (storeFor isTEE storeTEE store msg)
      (modify fun s => { s with
        log := if isTEE then (storeTEE' s.log msg).2 else (store' s.log msg).2 }) fun _ => True := by
  have hrun : ∀ s, InRange s → storeFor isTEE storeTEE store msg s = some (.ok ⟨⟩, { s with
      log := if isTEE then (storeTEE' s.log msg).2 else (store' s.log msg).2 }) := by
    intro s hs
    show (liftM (if isTEE then storeTEE s.log msg else store s.log msg) >>= fun r =>
      set { s with log := r.2 } : CheckedM PUnit) s = _
    rw [(hstore.tee s.log msg hs.log hmsg).1, (hstore.other s.log msg hs.log hmsg).1]
    cases isTEE <;> rfl
  refine ⟨fun s hs => hrun s hs, fun s hs => ⟨_, hrun s hs, ?_, trivial⟩⟩
  refine ⟨?_, hs.futurePrepares, hs.futurePreCommits, hs.futureCommits, hs.blocks⟩
  cases isTEE with
  | true => exact (hstore.tee s.log msg hs.log hmsg).2
  | false => exact (hstore.other s.log msg hs.log hmsg).2

/-! ### The leader's proposal -/

theorem agrees_processQC {newviews : List MsgNewViewComb} {qcType : QcType} :
    Agrees (processQC cfg o newviews qcType) (Raftel.processQC cfg o newviews qcType)
      fun _ => True := by
  unfold processQC Raftel.processQC
  refine Follows.get fun s₀ hs₀ => Follows.cond (fun _ => Follows.ret ?_) fun _ => ?_
  · exact fun _ hs => ⟨hs ▸ hs₀, trivial⟩
  refine Follows.bind (agrees_newviews2accComb.named hs₀) fun acc => ?_
  refine Follows.cond (fun _ => Follows.ret fun _ hs => hs) fun _ => ?_
  refine Follows.bind ((Follows.lift triple_createNewBlock).pre fun _ hs => hs.1) fun block => ?_
  -- the block is the replica's own, so that its component may hash it
  by_cases hblock : block.InBounds
  · refine Follows.bind ((agrees_callTEEprepareComb hblock).pre fun _ hs => hs.1) fun just => ?_
    refine Follows.cond (fun _ => Follows.ret fun _ hs => ⟨hs.1, trivial⟩) fun _ => ?_
    refine Follows.bind (Q := fun _ => InRange) (Follows.update fun s hs => ?_) fun _ => ?_
    · exact (hs.1.insert s.view hblock).same rfl rfl rfl rfl rfl
    refine Follows.cond (fun hone => ?_) fun _ => Follows.ret fun _ hs => ⟨hs, trivial⟩
    refine Follows.bind agrees_sendMsg fun _ => ?_
    have hin : just.signs.InBounds := hone.trans_le maxNumSignatures_pos
    exact (agrees_storeFor storesAs_prepare hin _).pre fun _ hs => hs.1
  · exact ⟨fun _ hs => absurd hs.2 hblock, fun _ hs => absurd hs.2 hblock⟩

theorem agrees_prepareComb : Agrees (prepareComb cfg o) (Raftel.prepareComb cfg o) fun _ => True := by
  unfold prepareComb Raftel.prepareComb
  refine Follows.get fun s₀ hs₀ => Follows.cond (fun _ => agrees_processQC.named hs₀) fun _ => ?_
  refine Follows.cond (fun _ => agrees_processQC.named hs₀) fun _ => Follows.ret fun _ hs => ?_
  exact ⟨hs ▸ hs₀, trivial⟩

theorem agrees_handleNewviewComb {msg : MsgNewViewComb} :
    Agrees (handleNewviewComb cfg o msg) (Raftel.handleNewviewComb cfg o msg) fun _ => True := by
  unfold handleNewviewComb Raftel.handleNewviewComb
  refine Follows.get fun s₀ hs₀ => Follows.cond (fun _ => ?_) fun _ => Follows.ret ?_
  · refine Follows.bind (agrees_amLeaderOf.named hs₀) fun leader => ?_
    rw [verifyNewViewComb_eq, checkIf_some, Bool.decide_eq_true]
    refine Follows.cond (fun _ => ?_) fun _ => Follows.ret fun _ hs => hs
    refine Follows.bind (Q := fun _ => InRange) (Follows.update fun s hs => ?_) fun _ => ?_
    · -- new-views have one signature: their log makes no reads
      refine ⟨?_, hs.1.futurePrepares, hs.1.futurePreCommits, hs.1.futureCommits, hs.1.blocks⟩
      have hlog := hs.1.log
      dsimp only
      split
      · exact ⟨hlog.1, hlog.2, hlog.3, hlog.4, hlog.5, hlog.6, hlog.7⟩
      · exact ⟨hlog.1, hlog.2, hlog.3, hlog.4, hlog.5, hlog.6, hlog.7⟩
    refine Follows.get fun s₁ hs₁ => Follows.cond (fun _ => ?_) fun _ => Follows.ret ?_
    · refine Follows.bind (agrees_prepareComb.named hs₁) fun _ => Follows.update fun s hs => ?_
      refine ⟨?_, trivial⟩
      split
      · exact hs.1.same rfl rfl rfl rfl rfl
      · exact hs.1
    · exact fun _ hs => ⟨hs ▸ hs₁, trivial⟩
  · exact fun _ hs => ⟨hs ▸ hs₀, trivial⟩

/-! ### The backup's vote -/

theorem agrees_respondToLdrPrepareComb {block : Block} {acc : Accum} {proof : NewViewProofComb}
    (h : block.InBounds) :
    Agrees (respondToLdrPrepareComb cfg o block acc proof)
      (Raftel.respondToLdrPrepareComb cfg o block acc proof) fun _ => True := by
  unfold respondToLdrPrepareComb Raftel.respondToLdrPrepareComb
  refine Follows.bind (agrees_callTEEprepareComb h) fun just => Follows.cond (fun _ => ?_) fun _ =>
    Follows.ret fun _ hs => ⟨hs.1, trivial⟩
  refine Follows.bind (Q := fun _ => InRange) (Follows.update fun s hs => hs.1.insert s.view h)
    fun _ => Follows.bind agrees_getCurrentLeader fun leader => ?_
  exact agrees_sendMsg.pre fun _ hs => hs.1

theorem agrees_verifyLdrPrepareComb {msg : MsgLdrPrepareComb} (h : msg.block.InBounds) :
    Agrees (verifyLdrPrepareComb cfg o msg) (Raftel.verifyLdrPrepareComb cfg o msg)
      fun _ => True := by
  have hverify : Agrees (liftM (Raftel.verifyLdrPrepareComb cfg o msg))
      (Raftel.verifyLdrPrepareComb cfg o msg) fun _ => True :=
    agrees_of_same fun _ => ⟨_, _, rfl, fun h => h.same rfl rfl rfl rfl rfl, trivial⟩
  exact Follows.read (hash_eq h) hverify

theorem agrees_handleLdrPrepareComb {msg : MsgLdrPrepareComb} (h : msg.block.InBounds) :
    Agrees (handleLdrPrepareComb cfg o msg) (Raftel.handleLdrPrepareComb cfg o msg)
      fun _ => True := by
  unfold handleLdrPrepareComb Raftel.handleLdrPrepareComb
  refine Follows.bind ((agrees_verifyLdrPrepareComb h).conseq (fun _ hs => hs) fun _ _ hs => hs.1)
    fun vm => Follows.get fun s₀ hs₀ => Follows.cond (fun _ => ?_) fun _ => Follows.ret ?_
  · refine Follows.bind (agrees_amLeaderOf.named hs₀) fun leader => Follows.cond (fun _ => ?_)
      fun _ => Follows.ret fun _ hs => hs
    refine Follows.cond (fun _ => (agrees_respondToLdrPrepareComb h).pre fun _ hs => hs.1) fun _ => ?_
    refine Follows.update fun s hs => ⟨?_, trivial⟩
    have hlog := hs.1.log
    refine ⟨?_, hs.1.futurePrepares, hs.1.futurePreCommits, hs.1.futureCommits, hs.1.blocks⟩
    exact ⟨hlog.1, hlog.2, hlog.3, hlog.4, hlog.5, hlog.6, hlog.7.store h _ _⟩
  · exact fun _ hs => ⟨hs ▸ hs₀, trivial⟩

/-! ### Certificates: the leader -/

/-- A certificate is verified, sent and used. -/
theorem agrees_certificate {cr : Crypto Key} {data : RData} {signs : Signs} {ph : Phase1} {msg : Msg}
    {recipients : List PID} {c : CheckedM Unit} {m : HandlerM Unit}
    (h : Agrees c m fun _ => True) :
    Agrees
      (liftM (verifyCombQC cfg cr data signs ph) >>= fun verified =>
        if verified = true then liftM (sendMsg msg recipients) >>= fun _ => c else pure ())
      (if Raftel.verifyCombQC cfg cr data signs ph = true then
        sendMsg msg recipients >>= fun _ => m else pure ()) fun _ => True := by
  refine Follows.read (verifyCombQC_eq _ _ _) (Follows.cond (fun _ => ?_) fun _ => ?_)
  · exact Follows.bind agrees_sendMsg fun _ => h.pre fun _ hs => hs.1
  · exact Follows.ret fun _ hs => ⟨hs, trivial⟩

/-- The component's own vote on a certificate is stored. -/
theorem agrees_storeReply {storeTEE store : Log → MsgVoteComb → Option (ℕ × Log)}
    {storeTEE' store' : Log → MsgVoteComb → ℕ × Log}
    (hstore : StoresAs storeTEE store storeTEE' store') {just : Just} :
    Agrees
      (callTEEstoreComb cfg o just >>= fun justPc =>
        if justPc.set = true then
          storeFor (cfg.isTEE cfg.myid) storeTEE store ⟨justPc.rdata, justPc.signs⟩
        else pure ())
      (Raftel.callTEEstoreComb cfg o just >>= fun justPc =>
        if justPc.set = true then
          modify fun s => { s with
            log := if cfg.isTEE cfg.myid then (storeTEE' s.log ⟨justPc.rdata, justPc.signs⟩).2
              else (store' s.log ⟨justPc.rdata, justPc.signs⟩).2 }
        else pure ()) fun _ => True := by
  refine Follows.bind agrees_callTEEstoreComb fun justPc => Follows.cond (fun hset => ?_) fun _ =>
    Follows.ret fun _ hs => ⟨hs.1, trivial⟩
  by_cases hone : justPc.signs.size = 1
  · have hin : justPc.signs.InBounds := hone.trans_le maxNumSignatures_pos
    exact (agrees_storeFor hstore hin _).pre fun _ hs => hs.1
  · exact ⟨fun _ hs => absurd (hs.2 hset) hone, fun _ hs => absurd (hs.2 hset) hone⟩

section Leader

variable (hq : cfg.qsize ≤ maxNumSignatures) {data : RData} {qcType : QcType}
include hq

theorem agrees_preCommitComb :
    Agrees (preCommitComb cfg o data qcType) (Raftel.preCommitComb cfg o data qcType)
      fun _ => True := by
  unfold preCommitComb Raftel.preCommitComb
  refine Follows.get fun s₀ hs₀ => ?_
  have hlog := hs₀.log
  cases qcType with
  | tee =>
    exact Follows.read (getVotes_eq hlog.teePrepares _ _)
      ((agrees_certificate (agrees_storeReply storesAs_precommit)).named hs₀)
  | normal =>
    exact Follows.read (merged_eq hlog.teePrepares hlog.prepares _ hq)
      ((agrees_certificate (agrees_storeReply storesAs_precommit)).named hs₀)

theorem agrees_commitComb :
    Agrees (commitComb cfg o data qcType) (Raftel.commitComb cfg o data qcType) fun _ => True := by
  unfold commitComb Raftel.commitComb
  refine Follows.get fun s₀ hs₀ => ?_
  have hlog := hs₀.log
  cases qcType with
  | tee =>
    exact Follows.read (getVotes_eq hlog.teePrecommits _ _)
      ((agrees_certificate (agrees_storeReply storesAs_commit)).named hs₀)
  | normal =>
    exact Follows.read (merged_eq hlog.teePrecommits hlog.precommits _ hq)
      ((agrees_certificate (agrees_storeReply storesAs_commit)).named hs₀)

theorem agrees_decideComb {exec : RData → CheckedM Unit} {exec' : RData → HandlerM Unit}
    (hexec : ∀ data, Agrees (exec data) (exec' data) fun _ => True) :
    Agrees (decideComb cfg o exec data qcType) (Raftel.decideComb cfg o exec' data qcType)
      fun _ => True := by
  unfold decideComb Raftel.decideComb
  refine Follows.bind agrees_getCurrentLeader fun leader => ?_
  refine Follows.pre (P := InRange) (Follows.get fun s₀ hs₀ => ?_) fun _ hs => hs.1
  have hlog := hs₀.log
  refine Follows.cond (fun _ => ?_) fun _ => ?_
  · cases qcType with
    | tee =>
      exact Follows.read (getVotes_eq hlog.teePrepares _ _)
        ((agrees_certificate (hexec data)).named hs₀)
    | normal =>
      exact Follows.read (merged_eq hlog.teePrepares hlog.prepares _ hq)
        ((agrees_certificate (hexec data)).named hs₀)
  · cases qcType with
    | tee =>
      exact Follows.read (getVotes_eq hlog.teeCommits _ _)
        ((agrees_certificate (hexec data)).named hs₀)
    | normal =>
      exact Follows.read (merged_eq hlog.teeCommits hlog.commits _ hq)
        ((agrees_certificate (hexec data)).named hs₀)

end Leader

/-! ### Certificates: the backups -/

section Backups

variable {exec : RData → CheckedM Unit} {exec' : RData → HandlerM Unit}
  (hexec : ∀ data, Agrees (exec data) (exec' data) fun _ => True)

/-- The component's own vote on a certificate is sent to the leader. -/
theorem agrees_sendReply {just : Just} {msg : Just → Msg} :
    Agrees
      (callTEEstoreComb cfg o just >>= fun justPc =>
        if justPc.set = true then
          liftM (getCurrentLeader cfg) >>= fun leader =>
            liftM (sendMsg (msg justPc) (cfg.keepFromPeers leader))
        else pure ())
      (Raftel.callTEEstoreComb cfg o just >>= fun justPc =>
        if justPc.set = true then
          getCurrentLeader cfg >>= fun leader => sendMsg (msg justPc) (cfg.keepFromPeers leader)
        else pure ()) fun _ => True := by
  refine Follows.bind agrees_callTEEstoreComb fun justPc => Follows.cond (fun _ => ?_) fun _ =>
    Follows.ret fun _ hs => ⟨hs.1, trivial⟩
  refine Follows.bind (agrees_getCurrentLeader.pre fun _ hs => hs.1) fun leader => ?_
  exact agrees_sendMsg.pre fun _ hs => hs.1

theorem agrees_respondToPreCommitComb {msg : MsgPreCommitComb} :
    Agrees (respondToPreCommitComb cfg o msg) (Raftel.respondToPreCommitComb cfg o msg)
      fun _ => True :=
  agrees_sendReply

include hexec

theorem agrees_respondToPrepareComb {msg : MsgPrepareComb} :
    Agrees (respondToPrepareComb cfg o exec msg) (Raftel.respondToPrepareComb cfg o exec' msg)
      fun _ => True := by
  unfold respondToPrepareComb Raftel.respondToPrepareComb
  refine Follows.bind agrees_getCurrentLeader fun leader => ?_
  refine Follows.pre (P := InRange) (Follows.get fun s₀ hs₀ => ?_) fun _ hs => hs.1
  refine Follows.read (verifyCombQC_eq _ _ _) (Follows.cond (fun _ => ?_) fun _ => Follows.ret ?_)
  · exact Follows.cond (fun _ => (hexec _).named hs₀) fun _ => agrees_sendReply.named hs₀
  · exact fun _ hs => ⟨hs ▸ hs₀, trivial⟩

theorem agrees_respondToCommitComb {msg : MsgCommitComb} :
    Agrees (respondToCommitComb cfg o exec msg) (Raftel.respondToCommitComb cfg o exec' msg)
      fun _ => True := by
  unfold respondToCommitComb Raftel.respondToCommitComb
  refine Follows.get fun s₀ hs₀ => ?_
  refine Follows.read (verifyCombQC_eq _ _ _) (Follows.cond (fun _ => ?_) fun _ => Follows.ret ?_)
  · exact (hexec _).named hs₀
  · exact fun _ hs => ⟨hs ▸ hs₀, trivial⟩

omit hexec in
/-- The update that takes certificates out of a log. -/
theorem InRange.eraseQCs {s : HandlerState} (h : InRange s) {prep pc com : VoteLog}
    (hprep : prep.All fun m => m.signs.InBounds) (hpc : pc.All fun m => m.signs.InBounds)
    (hcom : com.All fun m => m.signs.InBounds) :
    InRange { s with futurePrepareQCs := prep, futurePreCommitQCs := pc, futureCommitQCs := com } :=
  ⟨h.log, hprep, hpc, hcom, h.blocks⟩

theorem agrees_replayQCs {v : View} {block : Block} (hblock : block.InBounds) :
    Agrees (replayQCs cfg o exec v block) (Raftel.replayQCs cfg o exec' v block)
      fun _ => True := by
  unfold replayQCs Raftel.replayQCs
  refine Follows.get fun s₀ hs₀ => ?_
  have hstop : ∀ s : HandlerState, s = s₀ → InRange s ∧ True := fun _ hs => ⟨hs ▸ hs₀, trivial⟩
  cases s₀.futurePrepareQCs.get v with
  | nil => exact Follows.ret hstop
  | cons qc qcs =>
    refine Follows.read (hash_eq hblock) (Follows.cond (fun _ => Follows.ret hstop) fun _ => ?_)
    refine Follows.bind (Q := fun _ => InRange) (Follows.update fun s hs => ?_) fun _ => ?_
    · subst hs
      exact hs₀.eraseQCs (hs₀.futurePrepares.erase v) hs₀.futurePreCommits hs₀.futureCommits
    refine Follows.bind (agrees_respondToPrepareComb hexec) fun _ => ?_
    refine Follows.pre (P := InRange) (Follows.get fun s₁ hs₁ => ?_) fun _ hs => hs.1
    have hstop : ∀ s : HandlerState, s = s₁ → InRange s ∧ True := fun _ hs => ⟨hs ▸ hs₁, trivial⟩
    refine Follows.cond (fun _ => Follows.ret hstop) fun _ => ?_
    cases s₁.futurePreCommitQCs.get v with
    | nil => exact Follows.ret hstop
    | cons qc qcs =>
      refine Follows.read (hash_eq hblock) (Follows.cond (fun _ => Follows.ret hstop) fun _ => ?_)
      refine Follows.bind (Q := fun _ => InRange) (Follows.update fun s hs => ?_) fun _ => ?_
      · subst hs
        exact hs₁.eraseQCs hs₁.futurePrepares (hs₁.futurePreCommits.erase v) hs₁.futureCommits
      refine Follows.bind agrees_respondToPreCommitComb fun _ => ?_
      refine Follows.pre (P := InRange) (Follows.get fun s₂ hs₂ => ?_) fun _ hs => hs.1
      have hstop : ∀ s : HandlerState, s = s₂ → InRange s ∧ True :=
        fun _ hs => ⟨hs ▸ hs₂, trivial⟩
      cases s₂.futureCommitQCs.get v with
      | nil => exact Follows.ret hstop
      | cons qc qcs =>
        refine Follows.read (hash_eq hblock) (Follows.cond (fun _ => Follows.ret hstop) fun _ => ?_)
        refine Follows.bind (Q := fun _ => InRange) (Follows.update fun s hs => ?_) fun _ =>
          agrees_respondToCommitComb hexec
        subst hs
        exact hs₂.eraseQCs hs₂.futurePrepares hs₂.futurePreCommits (hs₂.futureCommits.erase v)

omit hexec in
theorem agrees_replayProposal {v : View} :
    Agrees (replayProposal cfg o v) (Raftel.replayProposal cfg o v) fun _ => True := by
  unfold replayProposal Raftel.replayProposal
  refine Follows.get fun s₀ hs₀ => ?_
  have hstop : ∀ s : HandlerState, s = s₀ → InRange s ∧ True := fun _ hs => ⟨hs ▸ hs₀, trivial⟩
  cases hfirst : s₀.log.firstLdrPrepareComb v with
  | none => exact Follows.ret hstop
  | some msg =>
    have hin : msg.block.InBounds := hs₀.log.ldrprepares v msg (List.mem_of_head? hfirst)
    exact Follows.cond (fun _ => (agrees_respondToLdrPrepareComb hin).named hs₀)
      fun _ => Follows.ret hstop

theorem agrees_handleEarlierMessagesComb :
    Agrees (handleEarlierMessagesComb cfg o exec) (Raftel.handleEarlierMessagesComb cfg o exec')
      fun _ => True := by
  unfold handleEarlierMessagesComb Raftel.handleEarlierMessagesComb
  refine Follows.bind agrees_amCurrentLeader fun leader => ?_
  refine Follows.pre (P := InRange) (Follows.get fun s₀ hs₀ => ?_) fun _ hs => hs.1
  refine Follows.cond (fun _ => ?_) fun _ => ?_
  · exact Follows.cond (fun _ => agrees_prepareComb.named hs₀) fun _ =>
      Follows.ret fun _ hs => ⟨hs ▸ hs₀, trivial⟩
  · refine Follows.bind (agrees_replayProposal.named hs₀) fun _ => ?_
    refine Follows.pre (P := InRange) (Follows.get fun s₁ hs₁ => ?_) fun _ hs => hs.1
    cases hblock : s₁.blocks.lookup s₀.view with
    | none => exact Follows.ret fun _ hs => ⟨hs ▸ hs₁, trivial⟩
    | some block => exact (agrees_replayQCs hexec (hs₁.blocks _ _ hblock)).named hs₁

theorem agrees_startNewViewComb (fuel : ℕ) :
    Agrees (startNewViewComb cfg o exec fuel) (Raftel.startNewViewComb cfg o exec' fuel)
      fun _ => True := by
  unfold startNewViewComb Raftel.startNewViewComb
  refine Follows.get fun s₀ hs₀ => Follows.bind (agrees_callTEEsignComb.named hs₀) fun first => ?_
  refine Follows.bind (Follows.lift ((triple_signUntilAfter fuel first).pre fun _ hs => hs.1))
    fun just => Follows.cond (fun _ => ?_) fun _ => Follows.ret fun _ hs => ⟨hs, trivial⟩
  refine Follows.bind (Q := fun _ => InRange) (Follows.update fun s hs => ?_) fun _ => ?_
  · exact hs.same rfl rfl rfl rfl rfl
  refine Follows.get fun s₁ hs₁ => Follows.cond (fun _ => ?_) fun _ =>
    Follows.ret fun _ hs => ⟨hs ▸ hs₁, trivial⟩
  refine Follows.bind (agrees_getCurrentLeader.named hs₁) fun leader =>
    Follows.pre (P := InRange) (Follows.cond (fun _ => ?_) fun _ => ?_) fun _ hs => hs.1
  · exact Follows.bind (agrees_handleEarlierMessagesComb hexec) fun _ =>
      agrees_handleNewviewComb.pre fun _ hs => hs.1
  · exact Follows.bind agrees_sendMsg fun _ =>
      (agrees_handleEarlierMessagesComb hexec).pre fun _ hs => hs.1

end Backups

/-! ### Execution -/

theorem agrees_recordStats : Agrees (liftM recordStats) recordStats fun _ => True := by
  refine Follows.lift (Triple.read_bind fun s₀ hs₀ => Triple.cond (fun _ => ?_) fun _ => ?_)
  · exact Triple.raise fun s hs => hs ▸ hs₀
  · exact Triple.assign fun _ _ => ⟨hs₀.same rfl rfl rfl rfl rfl, trivial⟩

/-- By recursion on the bound, as the execution of a block starts the next view. -/
theorem agrees_executeComb (fuel : ℕ) (data : RData) :
    Agrees (executeComb cfg o fuel data) (Raftel.executeComb cfg o fuel data) fun _ => True := by
  induction fuel generalizing data with
  | zero => exact Follows.raise fun _ hs => hs
  | succ fuel ih =>
    unfold executeComb Raftel.executeComb
    refine Follows.get fun s₀ hs₀ => ?_
    have hstop : ∀ s : HandlerState, s = s₀ → InRange s ∧ True := fun _ hs => ⟨hs ▸ hs₀, trivial⟩
    refine Follows.cond (fun _ => Follows.ret hstop) fun _ => ?_
    cases hblock : s₀.blocks.lookup data.propv with
    | none => exact Follows.ret hstop
    | some block =>
      have hhash : hash o.sha256 block = some (block.hash o.sha256) :=
        hash_eq (hs₀.blocks _ _ hblock)
      have hown : ∃ h, (s₀.blocks.lookup s₀.view).elim (some noHash) (hash o.sha256) = some h := by
        cases hown : s₀.blocks.lookup s₀.view with
        | none => exact ⟨_, rfl⟩
        | some own => exact ⟨_, hash_eq (hs₀.blocks _ _ hown)⟩
      obtain ⟨own, hown⟩ := hown
      refine Follows.read hhash (Follows.cond (fun _ => Follows.ret hstop) fun _ => ?_)
      refine Follows.read hhash (Follows.read hown ?_)
      refine Follows.bind (Q := fun _ => InRange) (Follows.assign fun _ _ => ?_) fun _ => ?_
      · exact hs₀.same rfl rfl rfl rfl rfl
      refine Follows.get fun s₁ hs₁ => Follows.cond (fun _ => ?_) fun _ => ?_
      · exact agrees_recordStats.named hs₁
      · exact (agrees_startNewViewComb ih fuel).named hs₁

/-! ### Votes and certificates that arrive -/

/-- The checked getters of the votes of TEE nodes and of the others. -/
def GetsAs (get : Log → View → ℕ → Option Signs) (get' : Log → View → ℕ → Signs) : Prop :=
  ∀ log, LogFits log → ∀ v n, get log v n = some (get' log v n)

theorem getsAs_prepare : GetsAs getPrepareComb Log.getPrepareComb :=
  fun _ h => getVotes_eq h.prepares

theorem getsAs_teePrepare : GetsAs getTEEPrepareComb Log.getTEEPrepareComb :=
  fun _ h => getVotes_eq h.teePrepares

theorem getsAs_precommit : GetsAs getPrecommitComb Log.getPrecommitComb :=
  fun _ h => getVotes_eq h.precommits

theorem getsAs_teePrecommit : GetsAs getTEEPrecommitComb Log.getTEEPrecommitComb :=
  fun _ h => getVotes_eq h.teePrecommits

theorem getsAs_commit : GetsAs getCommitComb Log.getCommitComb :=
  fun _ h => getVotes_eq h.commits

theorem getsAs_teeCommit : GetsAs getTEECommitComb Log.getTEECommitComb :=
  fun _ h => getVotes_eq h.teeCommits

theorem InRange.withLog {s : HandlerState} (h : InRange s) {log : Log} (hlog : LogFits log) :
    InRange { s with log := log } :=
  ⟨hlog, h.futurePrepares, h.futurePreCommits, h.futureCommits, h.blocks⟩

theorem agrees_countVote {storeTEE store : Log → MsgVoteComb → Option (ℕ × Log)}
    {storeTEE' store' : Log → MsgVoteComb → ℕ × Log}
    (hstore : StoresAs storeTEE store storeTEE' store')
    {getTEE get : Log → View → ℕ → Option Signs} {getTEE' get' : Log → View → ℕ → Signs}
    (hgetTEE : GetsAs getTEE getTEE') (hget : GetsAs get get') {msg : MsgVoteComb}
    (hmsg : msg.signs.InBounds) :
    Agrees (countVote cfg storeTEE store getTEE get msg)
      (Raftel.countVote cfg storeTEE' store' getTEE' get' msg) fun _ => True := by
  unfold countVote Raftel.countVote
  refine Follows.get fun s₀ hs₀ => Follows.cond (fun _ => ?_) fun _ => ?_
  · obtain ⟨heq, hin⟩ := hstore.tee s₀.log msg hs₀.log hmsg
    refine Follows.read heq ?_
    generalize storeTEE' s₀.log msg = r at hin
    obtain ⟨teecount, log⟩ := r
    refine Follows.bind (Q := fun _ => InRange)
      (Follows.assign fun _ _ => hs₀.withLog hin) fun _ => ?_
    dsimp only
    by_cases hcount : teecount ≠ 0
    · rw [if_pos hcount, if_pos hcount]
      exact Follows.read (hget log hin _ _) (Follows.ret fun _ hs => ⟨hs, trivial⟩)
    · rw [if_neg hcount, if_neg hcount]
      exact Follows.ret fun _ hs => ⟨hs, trivial⟩
  · obtain ⟨heq, hin⟩ := hstore.other s₀.log msg hs₀.log hmsg
    refine Follows.read heq ?_
    generalize store' s₀.log msg = r at hin
    obtain ⟨ncount, log⟩ := r
    refine Follows.bind (Q := fun _ => InRange)
      (Follows.assign fun _ _ => hs₀.withLog hin) fun _ => ?_
    dsimp only
    by_cases hcount : ncount ≠ 0
    · rw [if_pos hcount, if_pos hcount]
      exact Follows.read (hgetTEE log hin _ _) (Follows.ret fun _ hs => ⟨hs, trivial⟩)
    · rw [if_neg hcount, if_neg hcount]
      exact Follows.ret fun _ hs => ⟨hs, trivial⟩

/-- A vote or a certificate for a later view: the one is put aside, the other is stored. -/
theorem agrees_storeLater {s₀ : HandlerState} (hs₀ : InRange s₀) {cr : Crypto Key}
    {msg : MsgVoteComb} {ph : Phase1} {l : VoteLog} (hl : l.All fun m => m.signs.InBounds)
    (setQCs : VoteLog → HandlerState → HandlerState) {insertQCs : HandlerState → HandlerState}
    (hset : insertQCs s₀ = setQCs (l.insert MsgVoteComb.lt msg) s₀)
    (hkeep : ∀ qcs : VoteLog, (qcs.All fun m => m.signs.InBounds) → InRange (setQCs qcs s₀))
    {storeTEE store : Log → MsgVoteComb → Option (ℕ × Log)}
    {storeTEE' store' : Log → MsgVoteComb → ℕ × Log}
    (hstore : StoresAs storeTEE store storeTEE' store') :
    Follows (fun s => s = s₀)
      (liftM (verifyCombQC cfg cr msg.data msg.signs ph) >>= fun verified =>
        if verified = true then
          liftM (insertQC l msg) >>= fun qcs => modify fun s => setQCs qcs s
        else
          liftM (verifyCombVote cfg cr msg.data msg.signs ph) >>= fun verified =>
            if verified = true then
              storeFor (cfg.isTEE (msg.signs.get 0).signer) storeTEE store msg
            else pure ())
      (if Raftel.verifyCombQC cfg cr msg.data msg.signs ph = true then modify insertQCs
        else if Raftel.verifyCombVote cfg cr msg.data msg.signs ph = true then
          storeFutureVote cfg storeTEE' store' msg
        else pure ()) (fun _ s => InRange s ∧ True) InRange := by
  refine Follows.read (verifyCombQC_eq _ _ _) (Follows.cond (fun hqc => ?_) fun _ => ?_)
  · have hmsg := inBounds_of_verifyCombQC hqc
    refine Follows.read (insert_eq hl hmsg) (Follows.update_of_eq ?_ ?_)
    · rintro s rfl
      exact hset.symm
    · rintro s rfl
      exact ⟨hset ▸ hkeep _ (hl.insert hmsg _), trivial⟩
  · refine Follows.read (verifyCombVote_eq _ _ _) (Follows.cond (fun hvote => ?_) fun _ => ?_)
    · exact (agrees_storeFor hstore (inBounds_of_verifyCombVote hvote) _).named hs₀
    · exact Follows.ret fun _ hs => ⟨hs ▸ hs₀, trivial⟩

section Votes

variable (hq : cfg.qsize ≤ maxNumSignatures)
include hq

theorem agrees_handlePrepareComb (fuel : ℕ) {msg : MsgPrepareComb} :
    Agrees (handlePrepareComb cfg o fuel msg) (Raftel.handlePrepareComb cfg o fuel msg)
      fun _ => True := by
  unfold handlePrepareComb Raftel.handlePrepareComb
  refine Follows.get fun s₀ hs₀ => Follows.cond (fun _ => ?_) fun _ => Follows.cond (fun _ => ?_) ?_
  · refine Follows.bind (agrees_amLeaderOf.named hs₀) fun leader =>
      Follows.pre (P := InRange) (Follows.cond (fun _ => ?_) fun _ => ?_) fun _ hs => hs.1
    · refine Follows.read (verifyCombVote_eq _ _ _) (Follows.cond (fun hvote => ?_) fun _ => ?_)
      · refine Follows.bind (agrees_countVote storesAs_prepare getsAs_teePrepare getsAs_prepare
          (inBounds_of_verifyCombVote hvote)) fun counts => ?_
        refine Follows.pre (P := InRange) ?_ fun _ hs => hs.1
        -- a quorum is decided or certified, by the kind of the leader
        have hquorum : ∀ qcType, Agrees
            (liftM (getCurrentLeader cfg) >>= fun leader =>
              if cfg.isTEE leader = true then
                liftM (setPhase .newview) >>= fun _ =>
                  decideComb cfg o (executeComb cfg o fuel) msg.data qcType
              else
                liftM (setPhase .precommit) >>= fun _ => preCommitComb cfg o msg.data qcType)
            (getCurrentLeader cfg >>= fun leader =>
              if cfg.isTEE leader = true then
                setPhase .newview >>= fun _ =>
                  Raftel.decideComb cfg o (Raftel.executeComb cfg o fuel) msg.data qcType
              else
                setPhase .precommit >>= fun _ => Raftel.preCommitComb cfg o msg.data qcType)
            fun _ => True := by
          intro qcType
          refine Follows.bind agrees_getCurrentLeader fun leader =>
            Follows.pre (P := InRange) (Follows.cond (fun _ => ?_) fun _ => ?_) fun _ hs => hs.1
          · exact Follows.bind agrees_setPhase fun _ =>
              (agrees_decideComb hq (agrees_executeComb fuel)).pre fun _ hs => hs.1
          · exact Follows.bind agrees_setPhase fun _ =>
              (agrees_preCommitComb hq).pre fun _ hs => hs.1
        refine Follows.cond (fun _ => hquorum .tee) fun _ => ?_
        exact Follows.cond (fun _ => hquorum .normal) fun _ => Follows.ret fun _ hs => ⟨hs, trivial⟩
      · exact Follows.ret fun _ hs => ⟨hs, trivial⟩
    · refine Follows.read (verifyCombQC_eq _ _ _) (Follows.cond (fun _ => ?_) fun _ => ?_)
      · exact agrees_respondToPrepareComb (agrees_executeComb fuel)
      · exact Follows.ret fun _ hs => ⟨hs, trivial⟩
  · exact agrees_storeLater hs₀ hs₀.futurePrepares
      (fun qcs s => { s with futurePrepareQCs := qcs }) rfl
      (fun _ h => hs₀.eraseQCs h hs₀.futurePreCommits hs₀.futureCommits) storesAs_prepare
  · exact fun _ => Follows.ret fun _ hs => ⟨hs ▸ hs₀, trivial⟩

theorem agrees_handlePreCommitComb {msg : MsgPreCommitComb} :
    Agrees (handlePreCommitComb cfg o msg) (Raftel.handlePreCommitComb cfg o msg)
      fun _ => True := by
  unfold handlePreCommitComb Raftel.handlePreCommitComb
  refine Follows.get fun s₀ hs₀ => Follows.cond (fun _ => ?_) fun _ => Follows.cond (fun _ => ?_) ?_
  · refine Follows.bind (agrees_amLeaderOf.named hs₀) fun leader =>
      Follows.pre (P := InRange) (Follows.cond (fun _ => ?_) fun _ => ?_) fun _ hs => hs.1
    · refine Follows.read (verifyCombVote_eq _ _ _) (Follows.cond (fun hvote => ?_) fun _ => ?_)
      · refine Follows.bind (agrees_countVote storesAs_precommit getsAs_teePrecommit
          getsAs_precommit (inBounds_of_verifyCombVote hvote)) fun counts => ?_
        refine Follows.pre (P := InRange) ?_ fun _ hs => hs.1
        refine Follows.cond (fun _ => ?_) fun _ => Follows.cond (fun _ => ?_) fun _ =>
          Follows.ret fun _ hs => ⟨hs, trivial⟩
        · exact Follows.bind agrees_setPhase fun _ =>
            (agrees_commitComb hq).pre fun _ hs => hs.1
        · exact Follows.bind agrees_setPhase fun _ =>
            (agrees_commitComb hq).pre fun _ hs => hs.1
      · exact Follows.ret fun _ hs => ⟨hs, trivial⟩
    · refine Follows.read (verifyCombQC_eq _ _ _) (Follows.cond (fun _ => ?_) fun _ => ?_)
      · exact agrees_respondToPreCommitComb
      · exact Follows.ret fun _ hs => ⟨hs, trivial⟩
  · exact agrees_storeLater hs₀ hs₀.futurePreCommits
      (fun qcs s => { s with futurePreCommitQCs := qcs }) rfl
      (fun _ h => hs₀.eraseQCs hs₀.futurePrepares h hs₀.futureCommits) storesAs_precommit
  · exact fun _ => Follows.ret fun _ hs => ⟨hs ▸ hs₀, trivial⟩

theorem agrees_handleCommitComb (fuel : ℕ) {msg : MsgCommitComb} :
    Agrees (handleCommitComb cfg o fuel msg) (Raftel.handleCommitComb cfg o fuel msg)
      fun _ => True := by
  unfold handleCommitComb Raftel.handleCommitComb
  refine Follows.get fun s₀ hs₀ => Follows.cond (fun _ => ?_) fun _ => Follows.cond (fun _ => ?_) ?_
  · refine Follows.bind (agrees_amLeaderOf.named hs₀) fun leader =>
      Follows.pre (P := InRange) (Follows.cond (fun _ => ?_) fun _ => ?_) fun _ hs => hs.1
    · refine Follows.read (verifyCombVote_eq _ _ _) (Follows.cond (fun hvote => ?_) fun _ => ?_)
      · refine Follows.bind (agrees_countVote storesAs_commit getsAs_teeCommit getsAs_commit
          (inBounds_of_verifyCombVote hvote)) fun counts => ?_
        refine Follows.pre (P := InRange) ?_ fun _ hs => hs.1
        refine Follows.cond (fun _ => ?_) fun _ => Follows.cond (fun _ => ?_) fun _ =>
          Follows.ret fun _ hs => ⟨hs, trivial⟩
        · exact Follows.bind agrees_setPhase fun _ =>
            (agrees_decideComb hq (agrees_executeComb fuel)).pre fun _ hs => hs.1
        · exact Follows.bind agrees_setPhase fun _ =>
            (agrees_decideComb hq (agrees_executeComb fuel)).pre fun _ hs => hs.1
      · exact Follows.ret fun _ hs => ⟨hs, trivial⟩
    · refine Follows.read (verifyCombQC_eq _ _ _) (Follows.cond (fun _ => ?_) fun _ => ?_)
      · exact agrees_respondToCommitComb (agrees_executeComb fuel)
      · exact Follows.ret fun _ hs => ⟨hs, trivial⟩
  · exact agrees_storeLater hs₀ hs₀.futureCommits
      (fun qcs s => { s with futureCommitQCs := qcs }) rfl
      (fun _ h => hs₀.eraseQCs hs₀.futurePrepares hs₀.futurePreCommits h) storesAs_commit
  · exact fun _ => Follows.ret fun _ hs => ⟨hs ▸ hs₀, trivial⟩

end Votes

/-! ### Inputs -/

theorem agrees_getStarted : Agrees (getStarted cfg o) (Raftel.getStarted cfg o) fun _ => True := by
  unfold getStarted Raftel.getStarted
  refine Follows.bind agrees_getCurrentLeader fun leader =>
    Follows.pre (P := InRange) (Follows.get fun s₀ hs₀ => ?_) fun _ hs => hs.1
  refine Follows.bind (agrees_getLeaderOf.named hs₀) fun _ =>
    Follows.pre (P := InRange) ?_ fun _ hs => hs.1
  refine Follows.bind agrees_callTEEsignComb fun j =>
    Follows.pre (P := InRange) (Follows.cond (fun _ => ?_) fun _ => ?_) fun _ hs => hs.1
  · refine Follows.bind agrees_amCurrentLeader fun leader =>
      Follows.pre (P := InRange) (Follows.cond (fun _ => ?_) fun _ => ?_) fun _ hs => hs.1
    · exact agrees_handleNewviewComb
    · exact agrees_sendMsg
  · exact Follows.ret fun _ hs => ⟨hs, trivial⟩

theorem agrees_handleStart {cid : CID} :
    Agrees (handleStart cfg o cid) (Raftel.handleStart cfg o cid) fun _ => True := by
  unfold handleStart Raftel.handleStart
  refine Follows.get fun s₀ hs₀ => Follows.bind (Q := fun _ => InRange)
    (Follows.assign fun _ _ => hs₀.same rfl rfl rfl rfl rfl) fun _ => ?_
  exact Follows.cond (fun _ => Follows.ret fun _ hs => ⟨hs, trivial⟩) fun _ => agrees_getStarted

theorem agrees_handleTransaction {t : Transaction} :
    Agrees (liftM (handleTransaction t)) (handleTransaction t) fun _ => True := by
  refine agrees_of_same fun s => ⟨_, _, rfl, fun h => ?_, trivial⟩
  dsimp only
  split
  · exact h.same rfl rfl rfl rfl rfl
  · exact h

theorem agrees_startNewViewOnTimeout (fuel : ℕ) :
    Agrees (startNewViewOnTimeout cfg o fuel) (Raftel.startNewViewOnTimeout cfg o fuel)
      fun _ => True := by
  unfold startNewViewOnTimeout Raftel.startNewViewOnTimeout
  refine Follows.bind (Q := fun _ => InRange) (Follows.update fun s hs => ?_) fun _ =>
    agrees_startNewViewComb (agrees_executeComb fuel) fuel
  split
  · exact hs
  · exact hs.same rfl rfl rfl rfl rfl

/-- The block of a proposal fits; no other input has a condition. -/
def InputFits : Input → Prop
  | .peer (.ldrprepare msg) => msg.block.InBounds
  | _ => True

/-- **Each handler reads in range**, and does what it does without checks, when the block of the
message fits. -/
theorem agrees_handle (hq : cfg.qsize ≤ maxNumSignatures) (fuel : ℕ) {input : Input}
    (h : InputFits input) :
    Agrees (handle cfg o fuel input) (Raftel.handle cfg o fuel input) fun _ => True := by
  cases input with
  | peer msg =>
    cases msg with
    | newview msg => exact agrees_handleNewviewComb
    | ldrprepare msg => exact agrees_handleLdrPrepareComb h
    | prepare msg => exact agrees_handlePrepareComb hq fuel
    | precommit msg => exact agrees_handlePreCommitComb hq
    | commit msg => exact agrees_handleCommitComb hq fuel
  | start cid => exact agrees_handleStart
  | transaction t => exact agrees_handleTransaction
  | timeout => exact agrees_startNewViewOnTimeout fuel

/-- A block that does not fit is read beyond the array, before anything is checked. -/
theorem handle_eq_none (fuel : ℕ) {input : Input} (h : ¬ InputFits input) (s : HandlerState) :
    handle cfg o fuel input s = none := by
  cases input with
  | peer msg =>
    cases msg with
    | ldrprepare msg =>
      have hnone : hash o.sha256 msg.block = none := by
        rw [← Option.not_isSome_iff_eq_none, isSome_hash]
        exact h
      show (verifyLdrPrepareComb cfg o msg >>= _ : CheckedM Unit) s = none
      rw [Checked.bind_apply]
      unfold verifyLdrPrepareComb
      rw [hnone]
      rfl
    | newview msg => exact absurd trivial h
    | prepare msg => exact absurd trivial h
    | precommit msg => exact absurd trivial h
    | commit msg => exact absurd trivial h
  | start cid => exact absurd trivial h
  | transaction t => exact absurd trivial h
  | timeout => exact absurd trivial h

section React

variable {s : HandlerState} {fuel : ℕ} {input : Input}

theorem react_eq (hq : cfg.qsize ≤ maxNumSignatures) (hs : InRange s) (h : InputFits input) :
    react cfg o s fuel input = some (s.react cfg o fuel input) ∧
      InRange (s.react cfg o fuel input) := by
  have hhandle := agrees_handle (o := o) hq fuel h
  obtain ⟨⟨x, s'⟩, hrun, hends⟩ := hhandle.safe s hs
  have heq := hhandle.eq s hs
  unfold react HandlerState.react
  by_cases hstop : s.stopped = true
  · rw [if_pos hstop, if_pos hstop]
    exact ⟨rfl, hs⟩
  rw [if_neg hstop, if_neg hstop]
  by_cases htimer : (input.isTimeout && !s.timer) = true
  · rw [if_pos htimer, if_pos htimer]
    exact ⟨rfl, hs⟩
  rw [if_neg htimer, if_neg htimer, hrun]
  rw [hrun] at heq
  unfold Checked.lift at heq
  cases hm : Raftel.handle cfg o fuel input s with
  | ok a s'' =>
    rw [hm] at heq
    cases heq
    exact ⟨rfl, hends.1⟩
  | error e s'' =>
    rw [hm] at heq
    cases heq
    refine ⟨rfl, ?_⟩
    dsimp only
    split
    · exact InRange.same hends rfl rfl rfl rfl rfl
    · exact hends

/-- A replica that has not stopped reads beyond the array when the block does not fit. -/
theorem react_eq_none (hstop : s.stopped = false) (h : ¬ InputFits input) :
    react cfg o s fuel input = none := by
  have htimer : (input.isTimeout && !s.timer) = false := by
    cases input with
    | timeout => exact absurd trivial h
    | peer msg => rfl
    | start cid => rfl
    | transaction t => rfl
  unfold react
  rw [hstop, htimer, handle_eq_none fuel h]
  rfl

/-- A stopped replica makes no reads. -/
theorem react_of_stopped (hstop : s.stopped = true) :
    react cfg o s fuel input = some s ∧ s.react cfg o fuel input = s := by
  unfold react HandlerState.react
  rw [if_pos hstop, if_pos hstop]
  exact ⟨rfl, rfl⟩

end React

end Checked

end Raftel
