import Raftel.Safety.OneVote

/-!
# Executions are guarded and happen once

`executeComb` is reached from the leader's decision, from certificates that arrive and from
certificates that are replayed when a view starts, and it starts the next view itself.  On every path
the executed views increase, the block is the one stored for the replica's view, and a final
certificate for it was accepted in the same reaction: one that has arrived, now or earlier, or one that
the replica has made as the leader.  A view counter cannot spoil this by wrapping: the signing loop of the
last view does not end.

* `Midway` : what holds in the middle of a reaction
* `executions_guarded_once` : this holds in every run
-/

namespace Raftel

variable {Key : Type}

/-- The executor after the transactions of a block. -/
def KVAppExecutor.afterBlock (kv : KVAppExecutor) (b : Block) : KVAppExecutor :=
  (replyTransactions (fun _ => true) kv b.transactions).kv

/-- Which clients are known decides about the replies only. -/
theorem replyTransactions_kv (clients clients' : CID → Bool) (kv : KVAppExecutor)
    (transactions : Vector Transaction maxNumTransactions) :
    (replyTransactions clients kv transactions).kv =
      (replyTransactions clients' kv transactions).kv := by
  have hone : ∀ (r r' : Replies) (t : Transaction), r.kv = r'.kv →
      (replyTransaction clients r t).kv = (replyTransaction clients' r' t).kv := by
    intro r r' t h
    unfold replyTransaction
    rw [h]
    cases decode t <;> rfl
  have hfold : ∀ (ts : List Transaction) (r r' : Replies), r.kv = r'.kv →
      (ts.foldl (fun r t => if t.transid ≠ 0 then replyTransaction clients r t else r) r).kv =
        (ts.foldl (fun r t => if t.transid ≠ 0 then replyTransaction clients' r t else r) r').kv := by
    intro ts
    induction ts with
    | nil => exact fun _ _ h => h
    | cons t ts ih =>
      intro r r' h
      rw [List.foldl_cons, List.foldl_cons]
      apply ih
      split
      · exact hone r r' t h
      · exact h
  exact hfold transactions.toList _ _ rfl

/-! ### Runs, reaction by reaction -/

/-- An input, with the cryptography and the bound under which the replica reacts to it. -/
structure Reaction (Key : Type) where
  oracle : Oracle Key
  fuel : ℕ
  input : Input

/-- The state after the reactions. -/
def afterReactions (cfg : HandlerConfig Key) (rs : List (Reaction Key)) : HandlerState :=
  rs.foldl (fun s r => s.react cfg r.oracle r.fuel r.input) .init

theorem afterReactions_concat (cfg : HandlerConfig Key) (rs : List (Reaction Key)) (r : Reaction Key) :
    afterReactions cfg (rs ++ [r]) = (afterReactions cfg rs).react cfg r.oracle r.fuel r.input :=
  List.foldl_concat ..

/-- The message has arrived. -/
def Received (rs : List (Reaction Key)) (msg : Msg) : Prop := ∃ r ∈ rs, r.input = .peer msg

/-- The steps of reaction `r`, when the reactions `rs` have gone before. -/
def Reaction.Steps (cfg : HandlerConfig Key) (rs : List (Reaction Key)) (r : Reaction Key) :
    HandlerState → HandlerState → Prop :=
  Relation.ReflTransGen (Step cfg r.oracle True (Received (rs ++ [r])))

/-- State `s` is in the middle of reaction `r`, when the reactions `rs` have gone before. -/
def Reaction.During (cfg : HandlerConfig Key) (rs : List (Reaction Key)) (r : Reaction Key)
    (s : HandlerState) : Prop :=
  ∃ s₁, Begin cfg r.oracle (afterReactions cfg rs) r.input s₁ ∧ r.Steps cfg rs s₁ s

/-- The execution of `e` in state `s`: its data is for the replica's view, its block the one stored
for that view and named by the data, and `verifyCombQC` accepts a certificate for the data, of phase
`prepare` while the leader is taken for a TEE node, or of phase `commit`.  The certificate is a message that
was received, or the replica is the leader and has made it of the votes that it has stored. -/
structure GuardedExecution (cfg : HandlerConfig Key) (o : Oracle Key) (received : Msg → Prop)
    (s : HandlerState) (e : Execution) : Prop where
  view : e.data.propv = s.view
  stored : s.blocks.lookup s.view = some e.block
  hash : eqHashes (e.block.hash o.sha256) e.data.proph = true
  leader : e.leader = s.leader cfg
  certified : ∃ signs,
    (verifyCombQC cfg (o.crypto s.calls) e.data signs .prepare = true ∧ cfg.isTEE e.leader = true ∧
        s.Certificate cfg received (.prepare ⟨e.data, signs⟩)) ∨
      (verifyCombQC cfg (o.crypto s.calls) e.data signs .commit = true ∧
        s.Certificate cfg received (.commit ⟨e.data, signs⟩))

/-- On the way to state `s'` of reaction `r`, execution `e` was guarded and came after the executions `l`. -/
def Reaction.Executes (cfg : HandlerConfig Key) (rs : List (Reaction Key)) (r : Reaction Key)
    (s' : HandlerState) (l : List Execution) (e : Execution) : Prop :=
  ∃ s, r.During cfg rs s ∧ s.executed = l ∧ GuardedExecution cfg r.oracle (Received (rs ++ [r])) s e ∧
    r.Steps cfg rs (s.committed cfg r.oracle e.data e.block) s'

/-- The executions of a run: they are of ever later views, each was guarded in the reaction of the run in which
it happened, and the executor went through their blocks. -/
structure ExecutedOnce (cfg : HandlerConfig Key) (rs : List (Reaction Key)) : Prop where
  increasing : (afterReactions cfg rs).executed.Pairwise fun e e' => e.data.propv < e'.data.propv
  guarded : ∀ l e l', (afterReactions cfg rs).executed = l ++ e :: l' →
    ∃ before r after, rs = before ++ r :: after ∧
      r.Executes cfg before (afterReactions cfg (before ++ [r])) l e
  applied : (afterReactions cfg rs).kvExecutor =
    (afterReactions cfg rs).executed.foldl (fun kv e => kv.afterBlock e.block) .init

/-! ### Steps -/

section Steps

variable {cfg : HandlerConfig Key} {o : Oracle Key} {misled : Prop} {received : Msg → Prop}

/-- The parts of the state that an execution changes. -/
structure SameExecutions (s s' : HandlerState) : Prop where
  executed : s'.executed = s.executed
  processedCommit : s'.processedCommit = s.processedCommit
  kvExecutor : s'.kvExecutor = s.kvExecutor

theorem SameExecutions.enterView {s s' : HandlerState} {fuel : ℕ} {just : Just}
    (h : enterView cfg o fuel s = .ok just s') : SameExecutions s s' := by
  obtain ⟨n, rfl, -⟩ := enterView_ok h
  rw [HandlerState.signedTimes_eq]
  exact ⟨rfl, rfl, rfl⟩

theorem SameExecutions.hang {s s' : HandlerState} {fuel : ℕ} {e : HandlerError}
    (h : Raftel.enterView cfg o fuel s = .error e s') :
    SameExecutions s { s' with stopped := true } := by
  obtain ⟨n, rfl⟩ := enterView_error h
  rw [HandlerState.signedTimes_eq]
  exact ⟨rfl, rfl, rfl⟩

/-- **Inversion.**  A step is an execution, or it leaves the executions as they are. -/
theorem Step.execution_cases {s s' : HandlerState} (h : Step cfg o misled received s s') :
    (∃ data block, AcceptedQC cfg o received data s ∧ data.propv ∉ s.processedCommit ∧
        s.blocks.lookup data.propv = some block ∧
        eqHashes (block.hash o.sha256) data.proph = true ∧ s' = s.committed cfg o data block) ∨
      SameExecutions s s' := by
  cases h with
  | execute hqc hnew hblock hhash => exact Or.inl ⟨_, _, hqc, hnew, hblock, hhash, rfl⟩
  | quiet hq => exact Or.inr ⟨hq.executed, hq.processedCommit, hq.kvExecutor⟩
  | prepare =>
    right
    unfold HandlerState.preparedWith
    dsimp only
    split <;> exact ⟨rfl, rfl, rfl⟩
  | propose =>
    right
    unfold HandlerState.proposedWith
    dsimp only
    split <;> exact ⟨rfl, rfl, rfl⟩
  | enter hidle hdone henter => exact Or.inr (.enterView henter)
  | hang hdone henter => exact Or.inr (.hang henter)
  | lookup => exact Or.inr ⟨rfl, rfl, rfl⟩
  | accum => exact Or.inr ⟨rfl, rfl, rfl⟩
  | store => exact Or.inr ⟨rfl, rfl, rfl⟩
  | lead => exact Or.inr ⟨rfl, rfl, rfl⟩
  | phase => exact Or.inr ⟨rfl, rfl, rfl⟩
  | newview => exact Or.inr ⟨rfl, rfl, rfl⟩
  | vote => exact Or.inr ⟨rfl, rfl, rfl⟩
  | stop => exact Or.inr ⟨rfl, rfl, rfl⟩

theorem SameExecutions.skipLeader {s s' : HandlerState} (h : SameExecutions (s.skipLeader cfg) s') :
    SameExecutions s s' := by
  obtain ⟨hexecuted, hcommit, hkv⟩ := h
  unfold HandlerState.skipLeader at hexecuted hcommit hkv
  split at hexecuted
  · exact ⟨hexecuted, by rwa [if_pos ‹_›] at hcommit, by rwa [if_pos ‹_›] at hkv⟩
  · exact ⟨hexecuted, by rwa [if_neg ‹_›] at hcommit, by rwa [if_neg ‹_›] at hkv⟩

theorem Begin.sameExecutions {s s₁ : HandlerState} {input : Input} (h : Begin cfg o s input s₁) :
    SameExecutions s s₁ := by
  cases h with
  | other => exact ⟨rfl, rfl, rfl⟩
  | stopped => exact ⟨rfl, rfl, rfl⟩
  | start => exact ⟨rfl, rfl, rfl⟩
  | timeout hrun htimer henter => exact (SameExecutions.enterView henter).skipLeader
  | hang hrun htimer henter => exact (SameExecutions.hang henter).skipLeader

/-- The certificates that wait are those of the state. -/
theorem HandlerState.Awaits.of_same {s s' : HandlerState} {m : Msg} (hprep : s'.futurePrepareQCs = s.futurePrepareQCs)
    (hpc : s'.futurePreCommitQCs = s.futurePreCommitQCs) (hcom : s'.futureCommitQCs = s.futureCommitQCs)
    (h : s'.Awaits m) : s.Awaits m := by
  cases m with
  | newview m => exact h
  | ldrprepare m => exact h
  | prepare m => exact (congrArg (m ∈ ViewLog.get · m.data.propv) hprep).mp h
  | precommit m => exact (congrArg (m ∈ ViewLog.get · m.data.propv) hpc).mp h
  | commit m => exact (congrArg (m ∈ ViewLog.get · m.data.propv) hcom).mp h

theorem awaits_of_enterView {s s' : HandlerState} {fuel : ℕ} {just : Just} {m : Msg}
    (h : enterView cfg o fuel s = .ok just s') (hm : s'.Awaits m) : s.Awaits m := by
  obtain ⟨n, rfl, -⟩ := enterView_ok h
  rw [HandlerState.signedTimes_eq] at hm
  exact hm.of_same rfl rfl rfl

theorem awaits_of_enterView_error {s s' : HandlerState} {fuel : ℕ} {e : HandlerError} {m : Msg}
    (h : enterView cfg o fuel s = .error e s')
    (hm : ({ s' with stopped := true } : HandlerState).Awaits m) : s.Awaits m := by
  obtain ⟨n, rfl⟩ := enterView_error h
  rw [HandlerState.signedTimes_eq] at hm
  exact hm.of_same rfl rfl rfl

/-- A certificate that waits after a step has waited before, or it was received. -/
theorem Step.awaits {s s' : HandlerState} {m : Msg} (h : Step cfg o misled received s s') (hm : s'.Awaits m) :
    s.Awaits m ∨ received m := by
  cases h with
  | quiet hq => exact hq.awaits m hm
  | prepare =>
    unfold HandlerState.preparedWith at hm
    dsimp only at hm
    split at hm <;> exact Or.inl (hm.of_same rfl rfl rfl)
  | propose =>
    unfold HandlerState.proposedWith at hm
    dsimp only at hm
    split at hm <;> exact Or.inl (hm.of_same rfl rfl rfl)
  | enter hidle hdone henter => exact Or.inl (awaits_of_enterView henter hm)
  | hang hdone henter => exact Or.inl (awaits_of_enterView_error henter hm)
  | lookup => exact Or.inl (hm.of_same rfl rfl rfl)
  | accum => exact Or.inl (hm.of_same rfl rfl rfl)
  | store => exact Or.inl (hm.of_same rfl rfl rfl)
  | lead => exact Or.inl (hm.of_same rfl rfl rfl)
  | phase => exact Or.inl (hm.of_same rfl rfl rfl)
  | newview => exact Or.inl (hm.of_same rfl rfl rfl)
  | vote => exact Or.inl (hm.of_same rfl rfl rfl)
  | execute => exact Or.inl (hm.of_same rfl rfl rfl)
  | stop => exact Or.inl (hm.of_same rfl rfl rfl)

theorem Begin.awaits {s s₁ : HandlerState} {input : Input} {m : Msg} (h : Begin cfg o s input s₁)
    (hm : s₁.Awaits m) : s.Awaits m := by
  have hskip : ∀ m, (s.skipLeader cfg).Awaits m → s.Awaits m := by
    intro m hm
    unfold HandlerState.skipLeader at hm
    split at hm
    · exact hm
    · exact hm.of_same rfl rfl rfl
  cases h with
  | other => exact hm
  | stopped => exact hm
  | start => exact hm.of_same rfl rfl rfl
  | timeout hrun htimer henter => exact hskip m (awaits_of_enterView henter hm)
  | hang hrun htimer henter => exact hskip m (awaits_of_enterView_error henter hm)

end Steps

/-! ### The order of the executions -/

section Order

variable {cfg : HandlerConfig Key} {o : Oracle Key} {misled : Prop} {received : Msg → Prop}

/-- The guards of an execution are those of its step. -/
theorem AcceptedQC.guarded {s : HandlerState} {data : RData} {block : Block}
    (hqc : AcceptedQC cfg o received data s) (hblock : s.blocks.lookup data.propv = some block)
    (hhash : eqHashes (block.hash o.sha256) data.proph = true) :
    GuardedExecution cfg o received s ⟨data, block, s.leader cfg⟩ := by
  obtain ⟨hview, signs, hsigns⟩ := hqc
  rw [hview] at hblock
  exact ⟨hview, hblock, hhash, rfl, signs, hsigns⟩

/-- `replyHash` finds the block under the replica's view, which is the one of the data. -/
theorem committed_kvExecutor {s : HandlerState} {data : RData} {block : Block}
    (hview : data.propv = s.view) (hblock : s.blocks.lookup data.propv = some block)
    (hhash : eqHashes (block.hash o.sha256) data.proph = true) :
    (s.committed cfg o data block).kvExecutor = s.kvExecutor.afterBlock block := by
  rw [hview] at hblock
  unfold HandlerState.committed replyHash
  dsimp only
  rw [hblock]
  dsimp only
  rw [if_pos hhash]
  exact replyTransactions_kv _ _ _ _

/-- The executed views increase, are marked and not later than the replica's view, and the executor went through
the blocks. -/
structure OrderedExecutions (s : HandlerState) : Prop where
  increasing : s.executed.Pairwise fun e e' => e.data.propv < e'.data.propv
  marked : ∀ e ∈ s.executed, e.data.propv ∈ s.processedCommit ∧ e.data.propv ≤ s.view
  applied : s.kvExecutor = s.executed.foldl (fun kv e => kv.afterBlock e.block) .init

theorem orderedExecutions_init : OrderedExecutions .init :=
  ⟨List.Pairwise.nil, fun _ he => absurd he List.not_mem_nil, rfl⟩

theorem OrderedExecutions.of_same {s s' : HandlerState} (h : OrderedExecutions s)
    (hsame : SameExecutions s s') (hview : s.view ≤ s'.view) : OrderedExecutions s' := by
  refine ⟨?_, fun e he => ?_, ?_⟩
  · rw [hsame.executed]
    exact h.increasing
  · rw [hsame.executed] at he
    rw [hsame.processedCommit]
    exact ⟨(h.marked e he).1, (h.marked e he).2.trans hview⟩
  · rw [hsame.executed, hsame.kvExecutor]
    exact h.applied

/-- An execution appends to the executions and marks the view. -/
theorem OrderedExecutions.committed {s : HandlerState} {data : RData} {block : Block}
    (h : OrderedExecutions s) (hview : data.propv = s.view) (hnew : data.propv ∉ s.processedCommit)
    (hblock : s.blocks.lookup data.propv = some block)
    (hhash : eqHashes (block.hash o.sha256) data.proph = true) :
    OrderedExecutions (s.committed cfg o data block) := by
  have hexecuted : (s.committed cfg o data block).executed =
      s.executed ++ [⟨data, block, s.leader cfg⟩] := rfl
  have hcommit : (s.committed cfg o data block).processedCommit =
      viewInsert data.propv s.processedCommit := rfl
  refine ⟨?_, fun e he => ?_, ?_⟩
  · rw [hexecuted, List.pairwise_append]
    refine ⟨h.increasing, List.pairwise_singleton _ _, ?_⟩
    intro e he e' he'
    rw [List.mem_singleton] at he'
    subst he'
    obtain ⟨hdone, hle⟩ := h.marked e he
    -- an earlier execution in this view would have marked it
    have hne : e.data.propv ≠ data.propv := by
      intro heq
      rw [heq] at hdone
      exact hnew hdone
    rw [← hview] at hle
    exact lt_of_le_of_ne hle hne
  · rw [hcommit]
    rcases List.mem_append.mp he with he | he
    · exact ⟨mem_viewInsert_of_mem data.propv (h.marked e he).1, (h.marked e he).2⟩
    · rw [List.mem_singleton] at he
      subst he
      exact ⟨mem_viewInsert _ _, hview.le⟩
  · rw [hexecuted, List.foldl_append, ← h.applied]
    exact committed_kvExecutor hview hblock hhash

theorem Step.orderedExecutions {s s' : HandlerState} (hstep : Step cfg o misled received s s')
    (hlt : s.tc.view < 2 ^ 32) (h : OrderedExecutions s) : OrderedExecutions s' := by
  rcases hstep.execution_cases with ⟨data, block, hqc, hnew, hblock, hhash, rfl⟩ | hsame
  · exact h.committed hqc.1 hnew hblock hhash
  · exact h.of_same hsame (hstep.view_le hlt)

/-- The order, along the steps. -/
theorem StepRun.orderedExecutions {sha : Text → Digest} {ok : HandlerState → Input → Prop} {s : HandlerState}
    (h : StepRun cfg sha misled ok s) : OrderedExecutions s := by
  induction h with
  | init => exact orderedExecutions_init
  | input hs _ _ hbegin ih => exact ih.of_same hbegin.sameExecutions (hbegin.view_le hs.tc_lt)
  | step hs _ hstep ih => exact hstep.orderedExecutions hs.tc_lt ih

end Order

/-! ### In the middle of a reaction -/

section Midway

variable {cfg : HandlerConfig Key} {rs : List (Reaction Key)} {r : Reaction Key} {s s' : HandlerState}
  {l : List Execution} {e : Execution}

/-- What goes on after an execution. -/
theorem Reaction.Executes.tail (h : r.Executes cfg rs s l e)
    (hstep : Step cfg r.oracle True (Received (rs ++ [r])) s s') : r.Executes cfg rs s' l e := by
  obtain ⟨s₀, hduring, hl, hguard, hlater⟩ := h
  exact ⟨s₀, hduring, hl, hguard, hlater.tail hstep⟩

theorem Reaction.During.tail (h : r.During cfg rs s)
    (hstep : Step cfg r.oracle True (Received (rs ++ [r])) s s') : r.During cfg rs s' := by
  obtain ⟨s₁, hbegin, hsteps⟩ := h
  exact ⟨s₁, hbegin, hsteps.tail hstep⟩

/-- Execution `e` was guarded in a reaction before, or it is in this one on the way to state `s`. -/
def GuardedSoFar (cfg : HandlerConfig Key) (rs : List (Reaction Key)) (r : Reaction Key)
    (s : HandlerState) (l : List Execution) (e : Execution) : Prop :=
  (∃ before r' after, rs = before ++ r' :: after ∧
    r'.Executes cfg before (afterReactions cfg (before ++ [r'])) l e) ∨ r.Executes cfg rs s l e

/-- What holds in the middle of a reaction. -/
structure Midway (cfg : HandlerConfig Key) (rs : List (Reaction Key)) (r : Reaction Key)
    (s : HandlerState) : Prop where
  during : r.During cfg rs s
  ordered : OrderedExecutions s
  guarded : ∀ l e l', s.executed = l ++ e :: l' → GuardedSoFar cfg rs r s l e
  awaits : ∀ m, s.Awaits m → Received (rs ++ [r]) m
  bound : s.tc.view < 2 ^ 32

/-- Along the steps of the reaction; the last execution is the one of the step. -/
theorem Midway.step (h : Midway cfg rs r s) (hstep : Step cfg r.oracle True (Received (rs ++ [r])) s s') :
    Midway cfg rs r s' := by
  have hlater : ∀ l e, GuardedSoFar cfg rs r s l e → GuardedSoFar cfg rs r s' l e :=
    fun l e hl => hl.imp_right fun hl => hl.tail hstep
  refine ⟨h.during.tail hstep, hstep.orderedExecutions h.bound h.ordered, ?_,
    fun m hm => (hstep.awaits hm).elim (h.awaits m) id, hstep.tc_lt h.bound⟩
  intro l e l' hsplit
  rcases hstep.execution_cases with ⟨data, block, hqc, hnew, hblock, hhash, rfl⟩ | hsame
  · have hexecuted : (s.committed cfg r.oracle data block).executed =
        s.executed ++ [⟨data, block, s.leader cfg⟩] := rfl
    rw [hexecuted] at hsplit
    rcases List.eq_nil_or_concat l' with rfl | ⟨l'', e', rfl⟩
    · obtain ⟨rfl, heq⟩ := List.append_inj' hsplit rfl
      rw [List.cons.injEq] at heq
      rw [← heq.1]
      exact Or.inr ⟨s, h.during, rfl, hqc.guarded hblock hhash, Relation.ReflTransGen.refl⟩
    · rw [List.concat_eq_append, ← List.cons_append, ← List.append_assoc] at hsplit
      obtain ⟨hsplit, -⟩ := List.append_inj' hsplit rfl
      exact hlater l e (h.guarded l e l'' hsplit)
  · rw [hsame.executed] at hsplit
    exact hlater l e (h.guarded l e l' hsplit)

/-- What holds after a run. -/
structure Between (cfg : HandlerConfig Key) (rs : List (Reaction Key)) : Prop where
  once : ExecutedOnce cfg rs
  ordered : OrderedExecutions (afterReactions cfg rs)
  awaits : ∀ m, (afterReactions cfg rs).Awaits m → Received rs m
  bound : (afterReactions cfg rs).tc.view < 2 ^ 32

/-- A reaction begins where the last one has ended. -/
theorem Between.begin (h : Between cfg rs) (hbegin : Begin cfg r.oracle (afterReactions cfg rs) r.input s) :
    Midway cfg rs r s := by
  refine ⟨⟨s, hbegin, Relation.ReflTransGen.refl⟩,
    h.ordered.of_same hbegin.sameExecutions (hbegin.view_le h.bound), ?_, fun m hm => ?_, hbegin.tc_lt h.bound⟩
  · intro l e l' hsplit
    rw [hbegin.sameExecutions.executed] at hsplit
    exact Or.inl (h.once.guarded l e l' hsplit)
  · obtain ⟨r', hr', hinput⟩ := h.awaits m (hbegin.awaits hm)
    exact ⟨r', List.mem_append_left _ hr', hinput⟩

/-- The reaction as a whole. -/
theorem Midway.between (h : Midway cfg rs r (afterReactions cfg (rs ++ [r]))) : Between cfg (rs ++ [r]) := by
  refine ⟨⟨h.ordered.increasing, ?_, h.ordered.applied⟩, h.ordered, h.awaits, h.bound⟩
  intro l e l' hsplit
  rcases h.guarded l e l' hsplit with ⟨before, r', after, rfl, hexec⟩ | hexec
  · exact ⟨before, r', after ++ [r], by simp, hexec⟩
  · exact ⟨rs, r, [], rfl, hexec⟩

/-- One more reaction. -/
theorem Between.react (h : Between cfg rs) (r : Reaction Key) : Between cfg (rs ++ [r]) := by
  have hkept : KeptBy cfg r.oracle True (Received (rs ++ [r])) (fun _ => True) (Midway cfg rs r) :=
    ⟨fun _ _ hstep hs => hs.step hstep.step, Or.inl trivial, fun _ _ => trivial, fun _ hs => hs.awaits⟩
  have hend : Midway cfg rs r ((afterReactions cfg rs).react cfg r.oracle r.fuel r.input) := by
    refine react_keptBy hkept r.fuel r.input (fun s hbegin => h.begin hbegin) (fun _ _ _ => trivial)
      (fun msg hmsg => ?_) fun _ _ _ => trivial
    exact ⟨r, List.mem_append_right _ (List.mem_singleton_self r), hmsg⟩
  rw [← afterReactions_concat] at hend
  exact hend.between

theorem between_nil (cfg : HandlerConfig Key) : Between cfg [] := by
  refine ⟨⟨List.Pairwise.nil, ?_, rfl⟩, orderedExecutions_init, fun m hm => ?_,
    (by decide : HandlerState.init.tc.view < 2 ^ 32)⟩
  · intro l e l' hsplit
    cases l <;> cases hsplit
  · cases m <;> cases hm

end Midway

/-- **Execution is guarded and happens once.**  In every run of a replica, over any inputs and whatever
verifies at each of them: the executed views strictly increase; each block was executed in the middle of a
reaction of the run, in a state where it was stored for the replica's view, named by the data, and
`verifyCombQC`, as it was in this reaction, accepted a final certificate for that data, which had arrived by
then or which the replica had made as the leader; and the executor went through the transactions of exactly
these blocks. -/
theorem executions_guarded_once (cfg : HandlerConfig Key) (rs : List (Reaction Key)) : ExecutedOnce cfg rs := by
  have hrun : Between cfg rs := by
    induction rs using List.reverseRecOn with
    | nil => exact between_nil cfg
    | append_singleton rs r ih => exact ih.react r
  exact hrun.once

/-! ### A certificate that comes twice -/

section Twice

/-- The data of the `commit` certificate for the proposal of leader 1. -/
def firstCommit : RData := { firstProposal 11 with phase := Phase1.commit.byte }

/-- The others have signed `commit` data. -/
def firstCommitOracle : Oracle Unit :=
  idealOracle twoBlocksSha 3 [] fun _ => [.rdata firstCommit]

/-- Replica 3 is started and gets the proposal, and the certificate arrives. -/
def commitReactions (n : ℕ) : List (Reaction Unit) :=
  [⟨twoProposalsOracle, 1, .start 0⟩, ⟨twoProposalsOracle, 1, .peer (.ldrprepare (firstLdrPrepare 11))⟩] ++
    List.replicate n ⟨firstCommitOracle, 9,
      .peer (.commit ⟨firstCommit, .ofList [idealSign 0, idealSign 1, idealSign 2]⟩)⟩

/-- The block is executed once, in view 1, with the certificate that has arrived. -/
theorem executions_guarded_once_two_commits :
    ExecutedOnce (noTEESystem.config 3) (commitReactions 2) ∧
      (afterReactions (noTEESystem.config 3) (commitReactions 2)).executed.map
        (fun e => (e.data.propv, e.block.id)) = [(1, 11)] :=
  ⟨executions_guarded_once _ _, by decide +kernel⟩

end Twice

end Raftel
