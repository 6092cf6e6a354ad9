import Raftel.Lib.Quorum
import Raftel.Safety.HotStuffAgreement

/-!
# The quorums of the HotStuff checker

`TEEstore` counts the signatures of a justification and verifies each of them, `TEEprepare` only verifies
them, and a commit certificate is executed after the same count.  No call compares the signers, and a
verification without signatures succeeds.  The leader's own certificate is put together from stored
commits and executed without any verification.

* `carriesQuorum_iff` : signatures in the right number are a quorum exactly when all of them are valid and
  no signer signs twice
* `storeAccepts_iff`, `prepareAccepts_iff`, `executesCommit_iff` : the checks
* `realQuorums_iff` : exactly when what is accepted carries a quorum
-/

namespace Raftel.HotStuff

open Lib

section Statement

variable {Key : Type} (cfg : HandlerConfig Key) (cr : Crypto Key)

/-! ### Acceptance -/

/-- `TEEstore` replies with a signature, after reads in range. -/
def StoreAccepts (st : CombState) (just : Just) : Prop :=
  (just.signs.size = cfg.qsize → (verifyJust cfg cr just).isSome) ∧
    (funTEEstore cr (funVars cfg) just st).1.set = true

/-- `TEEprepare` replies with a signature, after reads in range. -/
def PrepareAccepts (hash : Hash) (st : CombState) (just : Just) : Prop :=
  (verifyJust cfg cr just).isSome ∧ (funTEEprepare cr (funVars cfg) hash just st).1.set = true

/-- `handleCommit` executes. -/
def ExecutesCommit (s : State) (msg : MsgCommit) : Prop :=
  ∃ fuel r s', handleCommit cfg cr fuel msg s = some (r, s') ∧ s.executed.length < s'.executed.length

/-- The certificate of `handleCommit`: a leader puts it together from its log, where the message has been
stored, and to a backup it is the message. -/
def CommitCertificate (s : State) (msg : MsgCommit) (signs : Signs) : Prop :=
  (Leads cfg s s.view ∧ ∃ n log, s.log.storeCom msg = some (n, log) ∧
      log.getCommit msg.data.propv cfg.qsize = some signs) ∨
    (¬ Leads cfg s s.view ∧ signs = msg.signs)

/-! ### Quorums -/

/-- The signature is by a known replica and verifies on the data. -/
def ValidOn (rdata : RData) (sign : Sign) : Prop :=
  ∃ nd, cfg.nodes.lookup sign.signer = some nd ∧ cr.verifySign sign nd.pub (.rdata rdata) = true

/-- The signatures contain valid ones on the data by `q` different replicas. -/
def CarriesQuorum (q : ℕ) (rdata : RData) (signs : Signs) : Prop :=
  ∃ signers : Finset PID, signers.card = q ∧
    ∀ p ∈ signers, ∃ sign ∈ signs.entries, sign.signer = p ∧ ValidOn cfg cr rdata sign

/-- Whatever the trusted functions accept in state `st`, and whatever the handler executes in state `s`,
carries a quorum; for a proposal, one signature is enough. -/
structure RealQuorums (st : CombState) (hash : Hash) (just : Just) (s : State) (msg : MsgCommit) :
    Prop where
  store : StoreAccepts cfg cr st just → CarriesQuorum cfg cr cfg.qsize just.rdata just.signs
  prepare : PrepareAccepts cfg cr hash st just → CarriesQuorum cfg cr 1 just.rdata just.signs
  commit : ∀ signs, CommitCertificate cfg s msg signs → ExecutesCommit cfg cr s msg →
    CarriesQuorum cfg cr cfg.qsize msg.data signs

/-! ### The condition -/

/-- The signers are different. -/
def DifferentSigners (signs : Signs) : Prop := (signs.entries.map Sign.signer).Nodup

/-- What `TEEstore` checks. -/
def StoreChecks (st : CombState) (just : Just) : Prop :=
  just.signs.size = cfg.qsize ∧ verifyJust cfg cr just = some true ∧ st.view = just.rdata.propv ∧
    (just.rdata.phase = Phase1.prepare.byte ∨ just.rdata.phase = Phase1.precommit.byte)

/-- What `TEEprepare` checks. -/
def PrepareChecks (st : CombState) (just : Just) : Prop :=
  verifyJust cfg cr just = some true ∧ st.view = just.rdata.propv ∧
    just.rdata.phase = Phase1.newview.byte ∧
    (eqHashes just.rdata.justh st.lockh = true ∨ just.rdata.justv > st.lockv)

/-- What `handleCommit` checks at a leader: the message is the one that completes the stored commits. -/
def LeaderChecks (s : State) (msg : MsgCommit) (signs : Signs) : Prop :=
  Leads cfg s s.view ∧ ∃ log, s.log.storeCom msg = some (cfg.qsize, log) ∧
    log.getCommit msg.data.propv cfg.qsize = some signs ∧ signs.size = cfg.qsize

/-- What `handleCommit` checks at a backup. -/
def BackupChecks (s : State) (msg : MsgCommit) : Prop :=
  ¬ Leads cfg s s.view ∧ msg.signs.size = cfg.qsize ∧
    verifyJust cfg cr ⟨true, msg.data, msg.signs⟩ = some true

/-- The message is a commit of the current view, whose block, if there is one, can be hashed. -/
def CommitGate (s : State) (msg : MsgCommit) : Prop :=
  msg.data.propv = s.view ∧ msg.data.phase = Phase1.commit.byte ∧ (storedHash cr s s.view).isSome

/-- What passes the checks has different signers, a proposal's justification has a signature, and the
commits that a leader puts together are valid. -/
structure SignersChecked (st : CombState) (just : Just) (s : State) (msg : MsgCommit) : Prop where
  store : StoreChecks cfg cr st just → DifferentSigners just.signs
  prepare : PrepareChecks cfg cr st just → just.signs.size ≠ 0
  leader : ∀ signs, CommitGate cr s msg → LeaderChecks cfg s msg signs → signs.InBounds ∧
    (∀ sign ∈ signs.entries, ValidOn cfg cr msg.data sign) ∧ DifferentSigners signs
  backup : CommitGate cr s msg → BackupChecks cfg cr s msg → DifferentSigners msg.signs

end Statement

variable {Key : Type} {cfg : HandlerConfig Key} {cr : Crypto Key}

/-! ### Counting -/

/-- **Signatures in the right number** are a quorum exactly when all of them are valid and by different
signers. -/
theorem carriesQuorum_iff {q : ℕ} {rdata : RData} {signs : Signs} (hin : signs.InBounds)
    (hsize : signs.size = q) : CarriesQuorum cfg cr q rdata signs ↔
      (∀ sign ∈ signs.entries, ValidOn cfg cr rdata sign) ∧ DifferentSigners signs := by
  have hlength : signs.entries.length = q := (Signs.length_entries hin).trans hsize
  rw [← hlength]
  exact exists_card_iff

/-- There are no more signers than signatures in the array. -/
theorem CarriesQuorum.inBounds {q : ℕ} {rdata : RData} {signs : Signs}
    (h : CarriesQuorum cfg cr q rdata signs) (hsize : signs.size = q) : signs.InBounds := by
  obtain ⟨signers, hcard, hsigners⟩ := h
  have hsub : signers ⊆ (signs.entries.map Sign.signer).toFinset := by
    intro p hp
    obtain ⟨sign, hsign, rfl, -⟩ := hsigners p hp
    exact List.mem_toFinset.mpr (List.mem_map_of_mem hsign)
  have hle : signers.card ≤ maxNumSignatures := by
    calc signers.card ≤ (signs.entries.map Sign.signer).toFinset.card := Finset.card_le_card hsub
      _ ≤ (signs.entries.map Sign.signer).length := List.toFinset_card_le _
      _ = signs.entries.length := List.length_map _
      _ ≤ signs.signs.toList.length := List.length_take_le' _ _
      _ = maxNumSignatures := Vector.length_toList
  show signs.size ≤ maxNumSignatures
  omega

/-- One valid signature is enough for one signer. -/
theorem carriesQuorum_one_iff {rdata : RData} {signs : Signs} (hin : signs.InBounds)
    (hvalid : ∀ sign ∈ signs.entries, ValidOn cfg cr rdata sign) :
    CarriesQuorum cfg cr 1 rdata signs ↔ signs.size ≠ 0 := by
  have hlength : signs.entries.length = signs.size := Signs.length_entries hin
  constructor
  · rintro ⟨signers, hcard, hsigners⟩ hzero
    obtain ⟨p, hp⟩ := Finset.card_pos.mp (hcard ▸ Nat.one_pos)
    obtain ⟨sign, hsign, -⟩ := hsigners p hp
    have hpos : 0 < signs.entries.length := List.length_pos_of_mem hsign
    omega
  · intro hsize
    have hpos : 0 < signs.entries.length := by omega
    obtain ⟨sign, hsign⟩ := List.exists_mem_of_length_pos hpos
    refine ⟨{sign.signer}, Finset.card_singleton _, fun p hp => ?_⟩
    rw [Finset.mem_singleton] at hp
    exact ⟨sign, hsign, hp.symm, hvalid sign hsign⟩

/-- What verifies is valid. -/
theorem validOn_of_verify {just : Just} (h : verifyJust cfg cr just = some true) :
    just.signs.InBounds ∧ ∀ sign ∈ just.signs.entries, ValidOn cfg cr just.rdata sign := by
  have hin : just.signs.InBounds := Checked.inBounds_of_verify h
  have hall : just.signs.verify cr.verifySign cfg.nodes (.rdata just.rdata) = true :=
    Option.some.inj ((Checked.verify_eq hin).symm.trans h)
  refine ⟨hin, fun sign hsign => ?_⟩
  have haccepts := List.all_eq_true.mp hall sign hsign
  cases hnode : cfg.nodes.lookup sign.signer with
  | some nd =>
    rw [hnode] at haccepts
    exact ⟨nd, hnode, haccepts⟩
  | none =>
    rw [hnode] at haccepts
    exact absurd haccepts Bool.false_ne_true

/-! ### The trusted functions -/

section Trusted

variable {st : CombState} {just : Just} {hash : Hash}

/-- A verification with a result is the one of the trusted functions. -/
theorem funTEEverify_of_verify (h : verifyJust cfg cr just = some true) :
    funTEEverify cr (funVars cfg) just = true :=
  Option.some.inj ((Checked.verify_eq (Checked.inBounds_of_verify h)).symm.trans h)

/-- **The checks of `TEEstore`.** -/
theorem storeAccepts_iff : StoreAccepts cfg cr st just ↔ StoreChecks cfg cr st just := by
  unfold StoreAccepts StoreChecks funTEEstore
  constructor
  · rintro ⟨hread, hset⟩
    dsimp only at hset
    split at hset
    · next hcond =>
      simp only [Bool.and_eq_true, Bool.or_eq_true, decide_eq_true_eq] at hcond
      obtain ⟨⟨⟨hsize, hverify⟩, hview⟩, hphase⟩ := hcond
      exact ⟨hsize, verifyJust_eq_true (hread hsize) hverify, hview, hphase⟩
    · exact absurd hset Bool.false_ne_true
  · rintro ⟨hsize, hverify, hview, hphase⟩
    refine ⟨fun _ => by rw [hverify]; rfl, ?_⟩
    dsimp only
    rw [if_pos]
    · rfl
    · simp only [Bool.and_eq_true, Bool.or_eq_true, decide_eq_true_eq]
      exact ⟨⟨⟨hsize, funTEEverify_of_verify hverify⟩, hview⟩, hphase⟩

/-- **The checks of `TEEprepare`.** -/
theorem prepareAccepts_iff :
    PrepareAccepts cfg cr hash st just ↔ PrepareChecks cfg cr st just := by
  unfold PrepareAccepts PrepareChecks funTEEprepare
  constructor
  · rintro ⟨hread, hset⟩
    dsimp only at hset
    split at hset
    · next hcond =>
      simp only [Bool.and_eq_true, Bool.or_eq_true, decide_eq_true_eq] at hcond
      obtain ⟨⟨⟨hverify, hview⟩, hphase⟩, hsafe⟩ := hcond
      exact ⟨verifyJust_eq_true hread hverify, hview, hphase, hsafe⟩
    · exact absurd hset Bool.false_ne_true
  · rintro ⟨hverify, hview, hphase, hsafe⟩
    refine ⟨by rw [hverify]; rfl, ?_⟩
    dsimp only
    rw [if_pos]
    · rfl
    · simp only [Bool.and_eq_true, Bool.or_eq_true, decide_eq_true_eq]
      exact ⟨⟨⟨funTEEverify_of_verify hverify, hview⟩, hphase⟩, hsafe⟩

end Trusted

/-! ### `handleCommit` -/

section Commit

variable {s : State} {msg : MsgCommit}

/-- An execution whose reads are in range records the data, whatever follows. -/
theorem executeRData_one {rdata : RData} (hblock : (storedHash cr s rdata.propv).isSome)
    (hview : (storedHash cr s s.view).isSome) :
    ∃ r s', executeRData cfg cr 1 rdata s = some (r, s') ∧ s'.executed = s.executed ++ [rdata] := by
  obtain ⟨h₁, hh₁⟩ := Option.isSome_iff_exists.mp hblock
  obtain ⟨h₂, hh₂⟩ := Option.isSome_iff_exists.mp hview
  have hrun : executeRData cfg cr 1 rdata s =
      (if timeToStop cfg (s.executedOf cr rdata) then recordStats
      else startNewView cfg cr (executeRData cfg cr 0) 0) (s.executedOf cr rdata) := by
    show (liftM (storedHash cr s rdata.propv) >>= fun _ => liftM (storedHash cr s s.view) >>= fun _ =>
      set (s.executedOf cr rdata) >>= fun _ => get >>= fun s' =>
        if timeToStop cfg s' then recordStats
        else startNewView cfg cr (executeRData cfg cr 0) 0 : HandlerM Unit) s = _
    rw [hh₁, hh₂]
    rfl
  rw [hrun]
  split
  · show ∃ r s', (if (s.executedOf cr rdata).joined then throw .systemError
      else modify fun s => { s with joined := true } : HandlerM Unit) (s.executedOf cr rdata) = some (r, s') ∧
        s'.executed = s.executed ++ [rdata]
    split
    · exact ⟨_, _, rfl, rfl⟩
    · exact ⟨_, _, rfl, rfl⟩
  · exact ⟨_, _, rfl, rfl⟩

/-- An execution is recorded only if the block of the replica's view can be hashed. -/
theorem isSome_storedHash_of_executeRData {fuel : ℕ} {rdata : RData} {r : Except HandlerError Unit}
    {s' : State} (hrun : executeRData cfg cr fuel rdata s = some (r, s'))
    (hlt : s.executed.length < s'.executed.length) : (storedHash cr s s.view).isSome := by
  cases fuel with
  | zero =>
    cases hrun
    exact absurd hlt (Nat.lt_irrefl _)
  | succ fuel =>
    by_contra hnone
    rw [Option.not_isSome_iff_eq_none] at hnone
    unfold executeRData at hrun
    rw [get_bind, Checked.bind_apply] at hrun
    obtain ⟨⟨x, s₁⟩, hread, hrest⟩ := Option.bind_eq_some_iff.mp hrun
    cases hblock : storedHash cr s rdata.propv with
    | none =>
      rw [hblock] at hread
      cases hread
    | some h =>
      rw [hblock] at hread
      cases hread
      rw [hnone] at hrest
      cases hrest

theorem storeMsg_bind {α : Type} {store : Log → Option (ℕ × Log)} {f : ℕ → HandlerM α} {n : ℕ}
    {log : Log} (h : store s.log = some (n, log)) :
    (storeMsg store >>= f) s = f n { s with log := log } := by
  have hrun : storeMsg store s = some (.ok n, { s with log := log }) := by
    show (liftM (store s.log) >>= fun r => set { s with log := r.2 } >>= fun _ => pure r.1 :
      HandlerM ℕ) s = _
    rw [h]
    rfl
  rw [Checked.bind_apply, hrun]
  rfl

/-- The program for the commits of the current view. -/
theorem handleCommit_of_current {fuel : ℕ} (hview : msg.data.propv = s.view)
    (hphase : msg.data.phase = Phase1.commit.byte) :
    handleCommit cfg cr fuel msg s =
      (if Leads cfg s s.view then
        storeMsg (fun log => log.storeCom msg) >>= fun n =>
          if n = cfg.qsize then initiateCommit cfg (executeRData cfg cr fuel) msg.data else pure ()
      else
        liftM (Checked.checkIf (msg.signs.size = cfg.qsize)
            (verifyJust cfg cr ⟨true, msg.data, msg.signs⟩)) >>= fun verified =>
          if verified then executeRData cfg cr fuel msg.data else pure ())
        { s with skippedLeaders := (cfg.leaderOf s.skippedLeaders s.view).2 } := by
  have hcurrent : (decide (msg.data.propv = s.view) &&
      decide (msg.data.phase = Phase1.commit.byte)) = true := by
    rw [decide_eq_true hview, decide_eq_true hphase]
    rfl
  unfold handleCommit
  rw [get_bind, if_pos hcurrent, amCurrentLeader_bind]
  by_cases hleads : Leads cfg s s.view
  · rw [decide_eq_true hleads, if_pos rfl, if_pos hleads]
  · rw [decide_eq_false hleads, if_neg Bool.false_ne_true, if_neg hleads]

/-- Other commits are not executed on. -/
theorem executed_of_not_current {fuel : ℕ} {r : Except HandlerError Unit} {s' : State}
    (hnot : ¬ (msg.data.propv = s.view ∧ msg.data.phase = Phase1.commit.byte))
    (hrun : handleCommit cfg cr fuel msg s = some (r, s')) : s'.executed = s.executed := by
  have hcurrent : ¬ (decide (msg.data.propv = s.view) &&
      decide (msg.data.phase = Phase1.commit.byte)) = true := by
    rwa [Bool.and_eq_true, decide_eq_true_eq, decide_eq_true_eq]
  have hstore : ∀ store, Ensures (fun s₁ => s₁.executed = s.executed) (storeMsg store)
      (fun _ s₁ => s₁.executed = s.executed) fun s₁ => s₁.executed = s.executed := by
    intro store
    unfold storeMsg
    refine Ensures.get fun s₁ hs₁ => Ensures.read fun r _ => ?_
    exact Ensures.of_run fun s₂ _ => ⟨r.1, { s₁ with log := r.2 }, rfl, hs₁⟩
  have hends : Ensures (fun s₁ => s₁ = s) (handleCommit cfg cr fuel msg)
      (fun _ s₁ => s₁.executed = s.executed) fun s₁ => s₁.executed = s.executed := by
    unfold handleCommit
    refine Ensures.get fun s₁ hs₁ => ?_
    subst hs₁
    rw [if_neg hcurrent]
    refine Ensures.cond (fun _ => ?_) fun _ => Ensures.ret fun s₂ hs₂ => by rw [hs₂]
    refine Ensures.bind (Q := fun _ s₂ => s₂.executed = s₁.executed) ?_ fun leader => ?_
    · refine Ensures.of_run fun s₂ hs₂ => ⟨_, _, rfl, ?_⟩
      subst hs₂
      rfl
    refine Ensures.cond (fun _ => ?_) fun _ => ?_
    · exact Ensures.bind (hstore _) fun _ => Ensures.ret fun _ hs₂ => hs₂
    · refine Ensures.read fun verified _ => ?_
      refine Ensures.cond (fun _ => ?_) fun _ => Ensures.ret fun _ hs₂ => hs₂
      exact Ensures.bind (hstore _) fun _ => Ensures.ret fun _ hs₂ => hs₂
  have hpost := hends s (r, s') rfl hrun
  cases r with
  | ok a => exact hpost
  | error e => exact hpost

/-- A full certificate is sent and executed. -/
theorem initiateCommit_of_size {exec : RData → HandlerM Unit} {rdata : RData} {signs : Signs}
    (hsigns : s.log.getCommit rdata.propv cfg.qsize = some signs) (hsize : signs.size = cfg.qsize) :
    initiateCommit cfg exec rdata s = exec rdata { s with
      out := s.out ++ [(.commit ⟨rdata, signs⟩, cfg.removeFromPeers cfg.myid)] } := by
  unfold initiateCommit
  rw [get_bind, hsigns, Checked.read_some, pure_bind, if_pos hsize]
  rfl

/-- What a leader has checked when it executes. -/
theorem leaderChecks_of_run {fuel : ℕ} {r : Except HandlerError Unit} {s' : State}
    (hleads : Leads cfg s s.view)
    (hrun : (storeMsg (fun log => log.storeCom msg) >>= fun n =>
      if n = cfg.qsize then initiateCommit cfg (executeRData cfg cr fuel) msg.data else pure ())
        { s with skippedLeaders := (cfg.leaderOf s.skippedLeaders s.view).2 } = some (r, s'))
    (hlt : s.executed.length < s'.executed.length) :
    (storedHash cr s s.view).isSome ∧ ∃ signs, LeaderChecks cfg s msg signs := by
  cases hstore : s.log.storeCom msg with
  | none =>
    rw [bind_eq_none (storeMsg_eq_none hstore)] at hrun
    cases hrun
  | some stored =>
    obtain ⟨n, log⟩ := stored
    rw [storeMsg_bind hstore] at hrun
    by_cases hn : n = cfg.qsize
    · rw [if_pos hn] at hrun
      cases hsigns : log.getCommit msg.data.propv cfg.qsize with
      | none =>
        unfold initiateCommit at hrun
        rw [get_bind, hsigns] at hrun
        cases hrun
      | some signs =>
        by_cases hsize : signs.size = cfg.qsize
        · rw [initiateCommit_of_size hsigns hsize] at hrun
          have hblock := isSome_storedHash_of_executeRData hrun hlt
          exact ⟨hblock, signs, hleads, log, by rw [hstore, hn], hsigns, hsize⟩
        · unfold initiateCommit at hrun
          rw [get_bind, hsigns, Checked.read_some, pure_bind, if_neg hsize] at hrun
          cases hrun
          exact absurd hlt (Nat.lt_irrefl _)
    · rw [if_neg hn] at hrun
      cases hrun
      exact absurd hlt (Nat.lt_irrefl _)

/-- What a backup has checked when it executes. -/
theorem backupChecks_of_run {fuel : ℕ} {r : Except HandlerError Unit} {s' : State}
    (hleads : ¬ Leads cfg s s.view)
    (hrun : (liftM (Checked.checkIf (msg.signs.size = cfg.qsize)
        (verifyJust cfg cr ⟨true, msg.data, msg.signs⟩)) >>= fun verified =>
          if verified then executeRData cfg cr fuel msg.data else pure () : HandlerM Unit)
        { s with skippedLeaders := (cfg.leaderOf s.skippedLeaders s.view).2 } = some (r, s'))
    (hlt : s.executed.length < s'.executed.length) :
    (storedHash cr s s.view).isSome ∧ BackupChecks cfg cr s msg := by
  unfold Checked.checkIf at hrun
  by_cases hsize : msg.signs.size = cfg.qsize
  · rw [if_pos hsize] at hrun
    cases hverify : verifyJust cfg cr ⟨true, msg.data, msg.signs⟩ with
    | none =>
      rw [hverify] at hrun
      cases hrun
    | some verified =>
      rw [hverify, Checked.read_some, pure_bind] at hrun
      cases verified with
      | true =>
        rw [if_pos rfl] at hrun
        have hblock := isSome_storedHash_of_executeRData hrun hlt
        exact ⟨hblock, hleads, hsize, hverify⟩
      | false =>
        cases hrun
        exact absurd hlt (Nat.lt_irrefl _)
  · rw [if_neg hsize] at hrun
    cases hrun
    exact absurd hlt (Nat.lt_irrefl _)

/-- **The checks of `handleCommit`.** -/
theorem executesCommit_iff : ExecutesCommit cfg cr s msg ↔
    CommitGate cr s msg ∧ ((∃ signs, LeaderChecks cfg s msg signs) ∨ BackupChecks cfg cr s msg) := by
  constructor
  · rintro ⟨fuel, r, s', hrun, hlt⟩
    have hcurrent : msg.data.propv = s.view ∧ msg.data.phase = Phase1.commit.byte := by
      by_contra hnot
      rw [executed_of_not_current hnot hrun] at hlt
      exact Nat.lt_irrefl _ hlt
    obtain ⟨hview, hphase⟩ := hcurrent
    rw [handleCommit_of_current hview hphase] at hrun
    by_cases hleads : Leads cfg s s.view
    · rw [if_pos hleads] at hrun
      obtain ⟨hblock, hchecks⟩ := leaderChecks_of_run hleads hrun hlt
      exact ⟨⟨hview, hphase, hblock⟩, Or.inl hchecks⟩
    · rw [if_neg hleads] at hrun
      obtain ⟨hblock, hchecks⟩ := backupChecks_of_run hleads hrun hlt
      exact ⟨⟨hview, hphase, hblock⟩, Or.inr hchecks⟩
  · rintro ⟨⟨hview, hphase, hblock⟩, hchecks⟩
    -- one level of recursion is enough for the execution to be recorded
    have hgrows : ∀ s₁ : State, s₁.executed = s.executed → s₁.blocks = s.blocks → s₁.view = s.view →
        (∀ fuel, handleCommit cfg cr fuel msg s = executeRData cfg cr fuel msg.data s₁) →
        ExecutesCommit cfg cr s msg := by
      intro s₁ hexecuted hblocks hview₁ hrun
      have hhash : storedHash cr s₁ s₁.view = storedHash cr s s.view := by
        unfold storedHash
        rw [hblocks, hview₁]
      have hdata : storedHash cr s₁ msg.data.propv = storedHash cr s s.view := by
        rw [← hhash, hview₁, hview]
      obtain ⟨r, s', hexec, hs'⟩ := executeRData_one (hdata ▸ hblock) (hhash ▸ hblock)
      refine ⟨1, r, s', (hrun 1).trans hexec, ?_⟩
      rw [hs', hexecuted, List.length_append]
      exact Nat.lt_succ_self _
    rcases hchecks with ⟨signs, hleads, log, hstore, hsigns, hsize⟩ | ⟨hleads, hsize, hverify⟩
    · apply hgrows { s with
        skippedLeaders := (cfg.leaderOf s.skippedLeaders s.view).2
        log := log
        out := s.out ++ [(.commit ⟨msg.data, signs⟩, cfg.removeFromPeers cfg.myid)] } rfl rfl rfl
      intro fuel
      rw [handleCommit_of_current hview hphase, if_pos hleads, storeMsg_bind hstore, if_pos rfl,
        initiateCommit_of_size hsigns hsize]
    · apply hgrows { s with skippedLeaders := (cfg.leaderOf s.skippedLeaders s.view).2 } rfl rfl rfl
      intro fuel
      rw [handleCommit_of_current hview hphase, if_neg hleads]
      unfold Checked.checkIf
      rw [if_pos hsize, hverify, Checked.read_some, pure_bind, if_pos rfl]

end Commit

/-! ### The condition is exact -/

/-- **Exactly when the checker accepts only real quorums.**  For every state of the trusted functions and
of the replica, and all arguments: what is accepted and what is executed carries a quorum of valid
signatures if and only if no signer repeats, a proposal's justification is not empty, and the commits that
a leader puts together are valid. -/
theorem realQuorums_iff (cfg : HandlerConfig Key) (cr : Crypto Key) (st : CombState) (hash : Hash)
    (just : Just) (s : State) (msg : MsgCommit) :
    RealQuorums cfg cr st hash just s msg ↔ SignersChecked cfg cr st just s msg := by
  constructor
  · rintro ⟨hstore, hprepare, hcommit⟩
    refine ⟨fun hchecks => ?_, fun hchecks => ?_, fun signs hgate hchecks => ?_, fun hgate hchecks => ?_⟩
    · have hquorum := hstore (storeAccepts_iff.mpr hchecks)
      obtain ⟨hin, -⟩ := validOn_of_verify hchecks.2.1
      exact ((carriesQuorum_iff hin hchecks.1).mp hquorum).2
    · have hquorum := hprepare (prepareAccepts_iff.mpr hchecks)
      obtain ⟨hin, hvalid⟩ := validOn_of_verify hchecks.1
      exact (carriesQuorum_one_iff hin hvalid).mp hquorum
    · obtain ⟨hleads, log, hstored, hsigns, hsize⟩ := hchecks
      have hquorum := hcommit signs (Or.inl ⟨hleads, _, log, hstored, hsigns⟩)
        (executesCommit_iff.mpr ⟨hgate, Or.inl ⟨signs, hleads, log, hstored, hsigns, hsize⟩⟩)
      have hin := hquorum.inBounds hsize
      exact ⟨hin, (carriesQuorum_iff hin hsize).mp hquorum⟩
    · have hquorum := hcommit msg.signs (Or.inr ⟨hchecks.1, rfl⟩)
        (executesCommit_iff.mpr ⟨hgate, Or.inr hchecks⟩)
      obtain ⟨hin, -⟩ := validOn_of_verify hchecks.2.2
      exact ((carriesQuorum_iff hin hchecks.2.1).mp hquorum).2
  · rintro ⟨hstore, hprepare, hleader, hbackup⟩
    refine ⟨fun haccepts => ?_, fun haccepts => ?_, fun signs hcert hexecutes => ?_⟩
    · have hchecks := storeAccepts_iff.mp haccepts
      obtain ⟨hin, hvalid⟩ := validOn_of_verify hchecks.2.1
      exact (carriesQuorum_iff hin hchecks.1).mpr ⟨hvalid, hstore hchecks⟩
    · have hchecks := prepareAccepts_iff.mp haccepts
      obtain ⟨hin, hvalid⟩ := validOn_of_verify hchecks.1
      exact (carriesQuorum_one_iff hin hvalid).mpr (hprepare hchecks)
    · obtain ⟨hgate, ⟨signs', hchecks⟩ | hchecks⟩ := executesCommit_iff.mp hexecutes
      · obtain ⟨hleads, log, hstored, hsigns', hsize⟩ := hchecks
        -- the certificate is the one that has been checked
        have hsame : signs = signs' := by
          rcases hcert with ⟨-, n, log', hstored', hsigns⟩ | ⟨hnot, -⟩
          · rw [hstored, Option.some.injEq, Prod.mk.injEq] at hstored'
            rw [← hstored'.2, hsigns', Option.some.injEq] at hsigns
            exact hsigns.symm
          · exact absurd hleads hnot
        rw [hsame]
        obtain ⟨hin, hvalid, hdifferent⟩ :=
          hleader signs' hgate ⟨hleads, log, hstored, hsigns', hsize⟩
        exact (carriesQuorum_iff hin hsize).mpr ⟨hvalid, hdifferent⟩
      · have hsame : signs = msg.signs := by
          rcases hcert with ⟨hleads, -⟩ | ⟨-, hsigns⟩
          · exact absurd hleads hchecks.1
          · exact hsigns
        rw [hsame]
        obtain ⟨hin, hvalid⟩ := validOn_of_verify hchecks.2.2
        exact (carriesQuorum_iff hin hchecks.2.1).mpr ⟨hvalid, hbackup hgate hchecks⟩

/-! ### Signatures that are no quorum -/

section Repeated

/-- The signature of the leader on `prepare` data, three times. -/
def repeatedPrepare : Just :=
  ⟨true, leaderData 11 .prepare, .ofList [idealSign 0, idealSign 0, idealSign 0]⟩

/-- A new-view without signatures. -/
def unsignedNewView : Just := ⟨true, newViewData 0 newHash, .empty⟩

/-- The commit whose only signer is the leader. -/
def repeatedCommitMsg : MsgCommit := ⟨leaderData 11 .commit, (repeatedCommit 11).signs⟩

/-- **Three signatures of one replica are accepted as a quorum.**  Replica 1 is in its first state; a
certificate of the Byzantine leader alone is stored, a proposal is signed without any new-view, and a
commit of the leader alone is executed. -/
theorem not_realQuorums_repeated_signature :
    StoreAccepts (byzantineLeader.config 1) leaderCrypto funInit repeatedPrepare ∧
      PrepareAccepts (byzantineLeader.config 1) leaderCrypto newHash funInit unsignedNewView ∧
      ExecutesCommit (byzantineLeader.config 1) leaderCrypto .init repeatedCommitMsg ∧
      ¬ CarriesQuorum (byzantineLeader.config 1) leaderCrypto 3 repeatedCommitMsg.data
        repeatedCommitMsg.signs ∧
      ¬ RealQuorums (byzantineLeader.config 1) leaderCrypto funInit newHash repeatedPrepare .init
        repeatedCommitMsg ∧
      ¬ RealQuorums (byzantineLeader.config 1) leaderCrypto funInit newHash unsignedNewView .init
        repeatedCommitMsg := by
  have hstore : StoreAccepts (byzantineLeader.config 1) leaderCrypto funInit repeatedPrepare :=
    storeAccepts_iff.mpr ⟨by decide +kernel, by decide +kernel, rfl, Or.inl rfl⟩
  have hprepare : PrepareAccepts (byzantineLeader.config 1) leaderCrypto newHash funInit
      unsignedNewView :=
    prepareAccepts_iff.mpr ⟨by decide +kernel, rfl, rfl, Or.inl (by decide +kernel)⟩
  have hexecutes : ExecutesCommit (byzantineLeader.config 1) leaderCrypto .init repeatedCommitMsg :=
    executesCommit_iff.mpr ⟨⟨rfl, rfl, rfl⟩, Or.inr ⟨by decide +kernel, by decide +kernel,
      by decide +kernel⟩⟩
  have hrepeated : ∀ rdata, ¬ CarriesQuorum (byzantineLeader.config 1) leaderCrypto 3 rdata
      (.ofList [idealSign 0, idealSign 0, idealSign 0]) := by
    intro rdata hquorum
    have hdifferent := ((carriesQuorum_iff (by decide) (by decide +kernel)).mp hquorum).2
    exact absurd hdifferent (by unfold DifferentSigners; decide +kernel)
  refine ⟨hstore, hprepare, hexecutes, hrepeated _, fun h => ?_, fun h => ?_⟩
  · exact hrepeated _ (h.store hstore)
  · obtain ⟨signers, hcard, hsigners⟩ := h.prepare hprepare
    obtain ⟨p, hp⟩ := Finset.card_pos.mp (hcard ▸ Nat.one_pos)
    obtain ⟨sign, hsign, -⟩ := hsigners p hp
    exact absurd hsign List.not_mem_nil

end Repeated

end Raftel.HotStuff
