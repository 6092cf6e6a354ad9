import Raftel.Safety.OneVote

/-!
# The vote log of a replica

The log keeps new-views and votes apart by whether their signer is a TEE node, and the getters merge
the two kinds into a certificate.  A certificate is accepted only with different signers, so the maps
have to hold one message for each signer, each vote one signature, and no signer may stand on both
sides.

* `voteLogs_invariant` : this holds in every run, and the merged getters return what they promise
-/

namespace Raftel

variable {Key : Type}

/-! ### One message for each signer -/

/-- New-views of one view: different signers, all TEE nodes or all others. -/
structure NewViewsOf (cfg : HandlerConfig Key) (tee : Bool) (msgs : List MsgNewViewComb) : Prop where
  nodup : (msgs.map fun m => m.sign.signer).Nodup
  kind : ∀ m ∈ msgs, cfg.isTEE m.sign.signer = tee

/-- Votes of one view: one signature each, different signers, all TEE nodes or all others. -/
structure VotesOf (cfg : HandlerConfig Key) (tee : Bool) (msgs : List MsgVoteComb) : Prop where
  one : ∀ m ∈ msgs, m.signs.size = 1
  nodup : (msgs.map fun m => m.vote.signer).Nodup
  kind : ∀ m ∈ msgs, cfg.isTEE m.vote.signer = tee

/-- The invariant of the log, for every view. -/
structure Log.OneEach (cfg : HandlerConfig Key) (log : Log) : Prop where
  newviews : ∀ v, NewViewsOf cfg false (log.newviewsComb.get v)
  teeNewviews : ∀ v, NewViewsOf cfg true (log.teeNewviewsComb.get v)
  prepares : ∀ v, VotesOf cfg false (log.preparesComb.get v)
  teePrepares : ∀ v, VotesOf cfg true (log.teePreparesComb.get v)
  precommits : ∀ v, VotesOf cfg false (log.precommitsComb.get v)
  teePrecommits : ∀ v, VotesOf cfg true (log.teePrecommitsComb.get v)
  commits : ∀ v, VotesOf cfg false (log.commitsComb.get v)
  teeCommits : ∀ v, VotesOf cfg true (log.teeCommitsComb.get v)

/-- Every stored message is still there. -/
structure Log.Within (log log' : Log) : Prop where
  newviews : ∀ v, log.newviewsComb.get v ⊆ log'.newviewsComb.get v
  teeNewviews : ∀ v, log.teeNewviewsComb.get v ⊆ log'.teeNewviewsComb.get v
  prepares : ∀ v, log.preparesComb.get v ⊆ log'.preparesComb.get v
  teePrepares : ∀ v, log.teePreparesComb.get v ⊆ log'.teePreparesComb.get v
  precommits : ∀ v, log.precommitsComb.get v ⊆ log'.precommitsComb.get v
  teePrecommits : ∀ v, log.teePrecommitsComb.get v ⊆ log'.teePrecommitsComb.get v
  commits : ∀ v, log.commitsComb.get v ⊆ log'.commitsComb.get v
  teeCommits : ∀ v, log.teeCommitsComb.get v ⊆ log'.teeCommitsComb.get v

theorem Log.Within.refl (log : Log) : log.Within log :=
  ⟨fun _ _ h => h, fun _ _ h => h, fun _ _ h => h, fun _ _ h => h, fun _ _ h => h, fun _ _ h => h,
    fun _ _ h => h, fun _ _ h => h⟩

theorem Log.Within.trans {log log' log'' : Log} (h : log.Within log') (h' : log'.Within log'') :
    log.Within log'' :=
  ⟨fun v _ hm => h'.newviews v (h.newviews v hm), fun v _ hm => h'.teeNewviews v (h.teeNewviews v hm),
    fun v _ hm => h'.prepares v (h.prepares v hm), fun v _ hm => h'.teePrepares v (h.teePrepares v hm),
    fun v _ hm => h'.precommits v (h.precommits v hm),
    fun v _ hm => h'.teePrecommits v (h.teePrecommits v hm),
    fun v _ hm => h'.commits v (h.commits v hm), fun v _ hm => h'.teeCommits v (h.teeCommits v hm)⟩

section Store

variable {cfg : HandlerConfig Key} {tee : Bool}

/-- Different signers stay different when a message of another signer is added. -/
theorem nodup_signers_of_perm {α : Type} {signerOf : α → PID} {msg : α} {msgs msgs' : List α}
    (hperm : msgs'.Perm (msg :: msgs)) (hfresh : ∀ m ∈ msgs, signerOf m ≠ signerOf msg)
    (h : (msgs.map signerOf).Nodup) : (msgs'.map signerOf).Nodup := by
  rw [(hperm.map signerOf).nodup_iff, List.map_cons, List.nodup_cons]
  refine ⟨fun hmem => ?_, h⟩
  obtain ⟨m, hm, heq⟩ := List.mem_map.mp hmem
  exact hfresh m hm heq

/-- Storing a new-view of the right kind keeps the invariant and the messages. -/
theorem NewViewsOf.store {log : NewViewLog} {msg : MsgNewViewComb}
    (h : ∀ v, NewViewsOf cfg tee (log.get v)) (hkind : cfg.isTEE msg.sign.signer = tee) (v : View) :
    NewViewsOf cfg tee ((log.store MsgNewViewComb.lt msgNewViewCombFrom msg).2.get v) ∧
      log.get v ⊆ (log.store MsgNewViewComb.lt msgNewViewCombFrom msg).2.get v := by
  by_cases hv : v = msg.data.propv
  · subst hv
    obtain ⟨hnodup, hkinds⟩ := h msg.data.propv
    have hstore := ViewLog.get_store_perm MsgNewViewComb.lt msgNewViewCombFrom
      (fun m => m.sign.signer) log msg
      (fun hfrom m hm heq => by
        rw [← Bool.not_eq_true, msgNewViewCombFrom, List.any_eq_true] at hfrom
        exact hfrom ⟨m, hm, decide_eq_true heq⟩)
      (fun m _ hne => by
        rcases Nat.lt_or_gt_of_ne hne with hlt | hlt
        · exact Or.inr (decide_eq_true hlt)
        · exact Or.inl (decide_eq_true hlt))
    rcases hstore with hsame | ⟨hfresh, hperm⟩
    · rw [hsame]
      exact ⟨h _, fun _ hm => hm⟩
    · refine ⟨⟨nodup_signers_of_perm hperm hfresh hnodup, fun m hm => ?_⟩,
        fun m hm => hperm.mem_iff.mpr (List.mem_cons_of_mem msg hm)⟩
      rcases List.mem_cons.mp (hperm.mem_iff.mp hm) with rfl | hm
      · exact hkind
      · exact hkinds m hm
  · have hget : (log.store MsgNewViewComb.lt msgNewViewCombFrom msg).2.get v = log.get v :=
      ViewLog.get_store_of_ne hv
    rw [hget]
    exact ⟨h v, fun _ hm => hm⟩

/-- The same for votes. -/
theorem VotesOf.store {log : VoteLog} {msg : MsgVoteComb} (h : ∀ v, VotesOf cfg tee (log.get v))
    (hone : msg.signs.size = 1) (hkind : cfg.isTEE msg.vote.signer = tee) (v : View) :
    VotesOf cfg tee ((log.store MsgVoteComb.lt msgVoteCombFrom msg).2.get v) ∧
      log.get v ⊆ (log.store MsgVoteComb.lt msgVoteCombFrom msg).2.get v := by
  by_cases hv : v = msg.data.propv
  · subst hv
    obtain ⟨hall, hnodup, hkinds⟩ := h msg.data.propv
    have hstore := ViewLog.get_store_perm MsgVoteComb.lt msgVoteCombFrom (fun m => m.vote.signer) log msg
      (fun hfrom m hm heq => by
        rw [← Bool.not_eq_true, msgVoteCombFrom_iff hall hone] at hfrom
        exact hfrom (List.mem_map.mpr ⟨m, hm, heq⟩))
      (fun m hm hne => MsgVoteComb.lt_or_lt hone (hall m hm) hne.symm)
    rcases hstore with hsame | ⟨hfresh, hperm⟩
    · rw [hsame]
      exact ⟨h _, fun _ hm => hm⟩
    · refine ⟨⟨fun m hm => ?_, nodup_signers_of_perm hperm hfresh hnodup, fun m hm => ?_⟩,
        fun m hm => hperm.mem_iff.mpr (List.mem_cons_of_mem msg hm)⟩
      · rcases List.mem_cons.mp (hperm.mem_iff.mp hm) with rfl | hm
        · exact hone
        · exact hall m hm
      · rcases List.mem_cons.mp (hperm.mem_iff.mp hm) with rfl | hm
        · exact hkind
        · exact hkinds m hm
  · have hget : (log.store MsgVoteComb.lt msgVoteCombFrom msg).2.get v = log.get v :=
      ViewLog.get_store_of_ne hv
    rw [hget]
    exact ⟨h v, fun _ hm => hm⟩

/-- The log with a new-view stored on its side. -/
theorem Log.OneEach.newview {log : Log} (h : log.OneEach cfg) (msg : MsgNewViewComb) :
    (if cfg.isTEE msg.sign.signer then (log.storeTEENvComb msg).2
      else (log.storeNvComb msg).2).OneEach cfg ∧
    log.Within (if cfg.isTEE msg.sign.signer then (log.storeTEENvComb msg).2
      else (log.storeNvComb msg).2) := by
  have hself := Log.Within.refl log
  split
  · next htee =>
    have hstore := NewViewsOf.store h.teeNewviews htee
    exact ⟨{ h with teeNewviews := fun v => (hstore v).1 },
      { hself with teeNewviews := fun v => (hstore v).2 }⟩
  · next htee =>
    have hstore := NewViewsOf.store h.newviews (Bool.eq_false_of_not_eq_true htee)
    exact ⟨{ h with newviews := fun v => (hstore v).1 },
      { hself with newviews := fun v => (hstore v).2 }⟩

/-- The log with a vote stored on its side. -/
theorem Log.OneEach.vote {log : Log} (h : log.OneEach cfg)
    {storeTEE store : Log → MsgVoteComb → ℕ × Log} (hstore : VoteStore storeTEE store)
    {msg : MsgVoteComb} (hone : msg.signs.size = 1) :
    (if cfg.isTEE (msg.signs.get 0).signer then (storeTEE log msg).2
      else (store log msg).2).OneEach cfg ∧
    log.Within (if cfg.isTEE (msg.signs.get 0).signer then (storeTEE log msg).2
      else (store log msg).2) := by
  have hself := Log.Within.refl log
  split
  · next htee =>
    cases hstore with
    | prepare =>
      have hst := VotesOf.store h.teePrepares hone htee
      exact ⟨{ h with teePrepares := fun v => (hst v).1 },
        { hself with teePrepares := fun v => (hst v).2 }⟩
    | precommit =>
      have hst := VotesOf.store h.teePrecommits hone htee
      exact ⟨{ h with teePrecommits := fun v => (hst v).1 },
        { hself with teePrecommits := fun v => (hst v).2 }⟩
    | commit =>
      have hst := VotesOf.store h.teeCommits hone htee
      exact ⟨{ h with teeCommits := fun v => (hst v).1 },
        { hself with teeCommits := fun v => (hst v).2 }⟩
  · next htee =>
    have htee := Bool.eq_false_of_not_eq_true htee
    cases hstore with
    | prepare =>
      have hst := VotesOf.store h.prepares hone htee
      exact ⟨{ h with prepares := fun v => (hst v).1 }, { hself with prepares := fun v => (hst v).2 }⟩
    | precommit =>
      have hst := VotesOf.store h.precommits hone htee
      exact ⟨{ h with precommits := fun v => (hst v).1 },
        { hself with precommits := fun v => (hst v).2 }⟩
    | commit =>
      have hst := VotesOf.store h.commits hone htee
      exact ⟨{ h with commits := fun v => (hst v).1 }, { hself with commits := fun v => (hst v).2 }⟩

end Store

/-! ### Runs -/

section Runs

variable {cfg : HandlerConfig Key} {o : Oracle Key} {misled : Prop} {received : Msg → Prop}

/-- **One step.**  The new-views and votes of the log are kept, and only the right ones added. -/
theorem Step.oneEach {s s' : HandlerState} (hstep : Step cfg o misled received s s') (h : s.log.OneEach cfg) :
    s'.log.OneEach cfg ∧ s.log.Within s'.log := by
  have hsame : ∀ log, s.log = log → log.OneEach cfg ∧ s.log.Within log := fun log hlog =>
    hlog ▸ ⟨h, Log.Within.refl s.log⟩
  cases hstep with
  | quiet hq =>
    obtain ⟨l, hl⟩ := hq.log
    rw [hl]
    exact ⟨⟨h.newviews, h.teeNewviews, h.prepares, h.teePrepares, h.precommits, h.teePrecommits,
      h.commits, h.teeCommits⟩, { Log.Within.refl s.log with }⟩
  | newview hview hsign => exact h.newview _
  | vote hstore hsize => exact h.vote hstore hsize
  | prepare =>
    refine hsame _ ?_
    unfold HandlerState.preparedWith
    dsimp only
    split <;> rfl
  | propose =>
    refine hsame _ ?_
    unfold HandlerState.proposedWith
    dsimp only
    split <;> rfl
  | enter hidle hdone henter =>
    obtain ⟨n, rfl, -⟩ := enterView_ok henter
    refine hsame _ ?_
    rw [HandlerState.signedTimes_eq]
  | hang hdone henter =>
    obtain ⟨n, rfl⟩ := enterView_error henter
    refine hsame _ ?_
    rw [HandlerState.signedTimes_eq]
  | lookup => exact hsame _ rfl
  | accum => exact hsame _ rfl
  | store => exact hsame _ rfl
  | lead => exact hsame _ rfl
  | phase => exact hsame _ rfl
  | execute => exact hsame _ rfl
  | stop => exact hsame _ rfl

/-- No input begins with a change of the log. -/
theorem Begin.log_eq {s s₁ : HandlerState} {input : Input} (hbegin : Begin cfg o s input s₁) :
    s₁.log = s.log := by
  have hskip : (s.skipLeader cfg).log = s.log := by
    unfold HandlerState.skipLeader
    split <;> rfl
  cases hbegin with
  | other => rfl
  | stopped => rfl
  | start => rfl
  | timeout hrun htimer henter =>
    obtain ⟨n, rfl, -⟩ := enterView_ok henter
    rw [HandlerState.signedTimes_eq]
    exact hskip
  | hang hrun htimer henter =>
    obtain ⟨n, rfl⟩ := enterView_error henter
    rw [HandlerState.signedTimes_eq]
    exact hskip

/-- One reaction to an input. -/
theorem oneEach_react {s : HandlerState} (h : s.log.OneEach cfg) (fuel : ℕ) (input : Input) :
    (s.react cfg o fuel input).log.OneEach cfg ∧ s.log.Within (s.react cfg o fuel input).log := by
  have hkept : Kept cfg o True fun s' => s'.log.OneEach cfg ∧ s.log.Within s'.log := by
    refine ⟨fun s₁ s₂ hstep hs => ?_, Or.inl trivial⟩
    obtain ⟨hone, hwithin⟩ := hstep.oneEach hs.1
    exact ⟨hone, hs.2.trans hwithin⟩
  refine react_kept hkept fuel input (fun s₁ hbegin => ?_) fun _ _ _ => trivial
  rw [hbegin.log_eq]
  exact ⟨h, Log.Within.refl s.log⟩

end Runs

theorem Log.init_oneEach (cfg : HandlerConfig Key) : Log.init.OneEach cfg := by
  have hnewviews : ∀ tee v, NewViewsOf cfg tee ((ViewLog.empty : NewViewLog).get v) := by
    intro tee v
    rw [ViewLog.get_empty]
    exact ⟨List.nodup_nil, fun _ hm => absurd hm List.not_mem_nil⟩
  have hvotes : ∀ tee v, VotesOf cfg tee ((ViewLog.empty : VoteLog).get v) := by
    intro tee v
    rw [ViewLog.get_empty]
    exact ⟨fun _ hm => absurd hm List.not_mem_nil, List.nodup_nil,
      fun _ hm => absurd hm List.not_mem_nil⟩
  exact ⟨hnewviews _, hnewviews _, hvotes _, hvotes _, hvotes _, hvotes _, hvotes _, hvotes _⟩

/-- In every run, in the middle of a handler as well. -/
theorem StepRun.oneEach {cfg : HandlerConfig Key} {sha : Text → Digest} {misled : Prop}
    {ok : HandlerState → Input → Prop} {s : HandlerState} (h : StepRun cfg sha misled ok s) :
    s.log.OneEach cfg := by
  induction h with
  | init => exact Log.init_oneEach cfg
  | input _ _ _ hbegin ih => exact hbegin.log_eq ▸ ih
  | step _ _ hstep ih => exact (hstep.oneEach ih).1

/-! ### Merged certificates -/

/-- What a merged getter returns: `min n` of the stored votes, with different signers, those of TEE
nodes first. -/
structure MergedVotes (cfg : HandlerConfig Key) (tee non : VoteLog) (v : View) (n : ℕ)
    (signs : Signs) : Prop where
  size : signs.size = min n ((tee.get v).length + (non.get v).length)
  nodup : (signs.entries.map Sign.signer).Nodup
  stored : ∀ s ∈ signs.entries, ∃ m ∈ tee.get v ++ non.get v, m.vote = s
  teeFirst : ∃ k, (∀ s ∈ signs.entries.take k, cfg.isTEE s.signer = true) ∧
    ∀ s ∈ signs.entries.drop k, cfg.isTEE s.signer = false

theorem VotesOf.merged {cfg : HandlerConfig Key} {tee non : VoteLog} {v : View} {n : ℕ}
    (hn : n ≤ maxNumSignatures) (htee : VotesOf cfg true (tee.get v))
    (hnon : VotesOf cfg false (non.get v)) :
    MergedVotes cfg tee non v n (VoteLog.merged tee non v n) := by
  obtain ⟨hentries, hsize⟩ := VoteLog.entries_merged hn htee.one hnon.one
  have hteeKind : ∀ s ∈ (tee.get v).map MsgVoteComb.vote, cfg.isTEE s.signer = true := by
    intro s hs
    obtain ⟨m, hm, rfl⟩ := List.mem_map.mp hs
    exact htee.kind m hm
  have hnonKind : ∀ s ∈ (non.get v).map MsgVoteComb.vote, cfg.isTEE s.signer = false := by
    intro s hs
    obtain ⟨m, hm, rfl⟩ := List.mem_map.mp hs
    exact hnon.kind m hm
  refine ⟨?_, ?_, fun s hs => ?_, (tee.get v).length, fun s hs => ?_, fun s hs => ?_⟩
  · rw [← Signs.length_entries (hsize.trans hn), hentries, List.length_take, List.length_append,
      List.length_map, List.length_map]
  · -- a signer on both sides would be a TEE node and not
    rw [hentries, List.map_take, List.map_append]
    refine List.Nodup.sublist (List.take_sublist _ _) (List.Nodup.append ?_ ?_ fun k hk hk' => ?_)
    · rw [List.map_map]
      exact htee.nodup
    · rw [List.map_map]
      exact hnon.nodup
    · obtain ⟨s, hs, rfl⟩ := List.mem_map.mp hk
      obtain ⟨s', hs', heq⟩ := List.mem_map.mp hk'
      have h := hnonKind s' hs'
      rw [heq, hteeKind s hs] at h
      exact absurd h (by decide)
  · rw [hentries, ← List.map_append] at hs
    exact List.mem_map.mp (List.mem_of_mem_take hs)
  · rw [hentries, List.take_take, List.take_append_of_le_length] at hs
    · exact hteeKind s (List.mem_of_mem_take hs)
    · rw [List.length_map]
      exact Nat.min_le_left _ _
  · rw [hentries, List.drop_take, List.drop_left' (List.length_map _)] at hs
    exact hnonKind s (List.mem_of_mem_take hs)

/-- The state after one more input. -/
def Reacts (cfg : HandlerConfig Key) (sha : Text → Digest) (s s' : HandlerState) : Prop :=
  ∃ (o : Oracle Key) (fuel : ℕ) (input : Input), o.sha256 = sha ∧ s' = s.react cfg o fuel input

/-- **The vote log.**  In every run of a replica, over any inputs: every map of the log holds for
every view at most one message of each signer, on the side of the signer's kind, and votes with one
signature; no message is replaced or lost later on; and the merged getters return as many signatures
as there are votes, up to `n`, with different signers, those of TEE nodes first. -/
theorem voteLogs_invariant (cfg : HandlerConfig Key) (sha : Text → Digest) (s : HandlerState)
    (hrun : HostRun cfg sha s) :
    s.log.OneEach cfg ∧
      (∀ s', Relation.ReflTransGen (Reacts cfg sha) s s' → s.log.Within s'.log) ∧
      ∀ v n, n ≤ maxNumSignatures →
        MergedVotes cfg s.log.teePreparesComb s.log.preparesComb v n
            (s.log.getPrepareCombMerged v n) ∧
          MergedVotes cfg s.log.teePrecommitsComb s.log.precommitsComb v n
            (s.log.getPrecommitCombMerged v n) ∧
          MergedVotes cfg s.log.teeCommitsComb s.log.commitsComb v n
            (s.log.getCommitCombMerged v n) := by
  have hone : s.log.OneEach cfg := by
    induction hrun with
    | init => exact Log.init_oneEach cfg
    | step _ _ fuel input ih => exact (oneEach_react ih fuel input).1
  refine ⟨hone, fun s' hlater => ?_, fun v n hn => ⟨?_, ?_, ?_⟩⟩
  · have hboth : s'.log.OneEach cfg ∧ s.log.Within s'.log := by
      induction hlater with
      | refl => exact ⟨hone, Log.Within.refl _⟩
      | tail _ hstep ih =>
        obtain ⟨o, fuel, input, -, rfl⟩ := hstep
        obtain ⟨hnext, hwithin⟩ := oneEach_react (o := o) ih.1 fuel input
        exact ⟨hnext, ih.2.trans hwithin⟩
    exact hboth.2
  · exact VotesOf.merged hn (hone.teePrepares v) (hone.prepares v)
  · exact VotesOf.merged hn (hone.teePrecommits v) (hone.precommits v)
  · exact VotesOf.merged hn (hone.teeCommits v) (hone.commits v)

/-! ### A leader that collects votes -/

section Leader

/-- The others have signed their first new-views and `prepare` data for block 11. -/
def leaderOracle : Oracle Unit :=
  idealOracle twoBlocksSha 1 [] fun _ => [.rdata firstNewView, .rdata (firstProposal 11)]

/-- Leader 1 is started and receives two new-views, on which it proposes, and two votes. -/
def leaderInputs : List Input :=
  [.start 0, .peer (.newview ⟨firstNewView, idealSign 0⟩),
    .peer (.newview ⟨firstNewView, idealSign 2⟩),
    .peer (.prepare ⟨firstProposal 11, .one (idealSign 2)⟩),
    .peer (.prepare ⟨firstProposal 11, .one (idealSign 2)⟩)]

def leaderState : HandlerState :=
  leaderInputs.foldl (HandlerState.react (noTEESystem.config 1) leaderOracle · 1) .init

/-- The leader's own vote and the one of replica 2, which came twice. -/
theorem voteLogs_leader :
    HostRun (noTEESystem.config 1) twoBlocksSha leaderState ∧
      MergedVotes (noTEESystem.config 1) leaderState.log.teePreparesComb
        leaderState.log.preparesComb 1 3 (leaderState.log.getPrepareCombMerged 1 3) ∧
      (leaderState.log.getPrepareCombMerged 1 3).entries.map Sign.signer = [1, 2] := by
  have hrun : HostRun (noTEESystem.config 1) twoBlocksSha leaderState :=
    HostRun.init.foldl (o := leaderOracle) rfl 1 _
  exact ⟨hrun, ((voteLogs_invariant _ _ _ hrun).2.2 1 3 (by decide)).1, by decide +kernel⟩

end Leader

end Raftel
