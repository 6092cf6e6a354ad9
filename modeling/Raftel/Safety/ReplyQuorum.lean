import Raftel.Client
import Mathlib.Data.Finset.Card
import Mathlib.Data.List.Induction

/-!
# The quorum of replies

A transaction is recorded as executed when `replyQuorum` replies were counted.  They may come from fewer
replicas, since a replica is counted as often as it replies, and they need not agree.

* `recorded_of_distinct` : in a run in which every reply that is counted comes from another replica than
  those counted before, with the same content, a recorded transaction has a quorum of replies
* `not_recorded_quorum` : a transaction that is recorded after two replies of one replica
-/

namespace Raftel

/-- What a client learns from a reply. -/
def MsgReply.content (m : MsgReply) : UInt8 × ℤ × Text := (m.status, m.delCount, m.valueStr)

/-- Enough different replicas have sent a reply for the transaction, with one content. -/
def HasReplyQuorum (cfg : ClientConfig) (events : List ClientEvent) (tid : TID) : Prop :=
  ∃ (replicas : Finset PID) (content : UInt8 × ℤ × Text), cfg.replyQuorum ≤ replicas.card ∧
    ∀ p ∈ replicas, ∃ m, ClientEvent.reply p m ∈ events ∧ m.tid = tid ∧ m.content = content

/-- The replies to a transaction since it was last added. -/
def repliesSince (tid : TID) (events : List ClientEvent) : List (PID × MsgReply) :=
  events.foldl (fun replies e => match e with
    | .send t => if t.transid = tid then [] else replies
    | .reply p m => if m.tid = tid then replies ++ [(p, m)] else replies) []

/-- The transaction was sent and is not recorded. -/
def ClientState.Pending (s : ClientState) (tid : TID) : Prop :=
  (s.transactions tid).isSome ∧ tid ∉ s.execTrans

/-- An event that is not the defect: a reply that is counted comes from a replica that was not counted
before, and agrees with those counted. -/
def CountsOnce (cfg : ClientConfig) (before : List ClientEvent) : ClientEvent → Prop
  | .send _ => True
  | .reply p m => (ClientState.run cfg before).Pending m.tid →
      ∀ r ∈ repliesSince m.tid before, r.1 ≠ p ∧ r.2.content = m.content

/-- Every event of the run is like that. -/
def AllCountOnce (cfg : ClientConfig) (events : List ClientEvent) : Prop :=
  ∀ before e after, events = before ++ e :: after → CountsOnce cfg before e

section Steps

variable (cfg : ClientConfig) (events : List ClientEvent)

theorem run_concat (e : ClientEvent) :
    ClientState.run cfg (events ++ [e]) = (ClientState.run cfg events).step cfg e := by
  unfold ClientState.run
  rw [List.foldl_append]
  rfl

theorem repliesSince_send (tid : TID) (t : Transaction) :
    repliesSince tid (events ++ [.send t]) =
      if t.transid = tid then [] else repliesSince tid events := by
  unfold repliesSince
  rw [List.foldl_append]
  rfl

theorem repliesSince_reply (tid : TID) (p : PID) (m : MsgReply) :
    repliesSince tid (events ++ [.reply p m]) =
      if m.tid = tid then repliesSince tid events ++ [(p, m)] else repliesSince tid events := by
  unfold repliesSince
  rw [List.foldl_append]
  rfl

variable {cfg events}

theorem AllCountOnce.of_append {events' : List ClientEvent} (h : AllCountOnce cfg (events ++ events')) :
    AllCountOnce cfg events := by
  intro before e after heq
  apply h before e (after ++ events')
  rw [heq, List.append_assoc, List.cons_append]

theorem AllCountOnce.nil : AllCountOnce cfg [] := by
  intro before e after heq
  exact absurd heq (by simp)

theorem AllCountOnce.concat {e : ClientEvent} (h : AllCountOnce cfg events)
    (he : CountsOnce cfg events e) : AllCountOnce cfg (events ++ [e]) := by
  intro before e' after heq
  rcases List.eq_nil_or_concat after with rfl | ⟨after, x, rfl⟩
  · obtain ⟨rfl, hlast⟩ := List.append_inj' heq rfl
    obtain rfl := List.singleton_inj.mp hlast
    exact he
  · rw [List.concat_eq_append, ← List.cons_append, ← List.append_assoc] at heq
    exact h before e' after (List.append_inj' heq rfl).1

theorem AllCountOnce.last {e : ClientEvent} (h : AllCountOnce cfg (events ++ [e])) :
    CountsOnce cfg events e :=
  h events e [] rfl

theorem HasReplyQuorum.append {tid : TID} (h : HasReplyQuorum cfg events tid)
    (events' : List ClientEvent) : HasReplyQuorum cfg (events ++ events') tid := by
  obtain ⟨replicas, content, hcard, hall⟩ := h
  refine ⟨replicas, content, hcard, fun p hp => ?_⟩
  obtain ⟨m, hm, htid, hcontent⟩ := hall p hp
  exact ⟨m, List.mem_append_left _ hm, htid, hcontent⟩

end Steps

/-! ### What an event does -/

@[simp]
theorem transactions_addNewTransaction_self (s : ClientState) (t : Transaction) :
    (s.addNewTransaction t).transactions t.transid = some ⟨0, t⟩ :=
  Function.update_self ..

theorem transactions_addNewTransaction_of_ne (s : ClientState) {t : Transaction} {tid : TID}
    (h : tid ≠ t.transid) : (s.addNewTransaction t).transactions tid = s.transactions tid :=
  Function.update_of_ne h ..

/-- A reply is ignored, or it is counted and completes the quorum or not. -/
theorem handleReply_cases (cfg : ClientConfig) (s : ClientState) (m : MsgReply) :
    (¬ s.Pending m.tid ∧ (s.handleReply cfg m).transactions = s.transactions ∧
        (s.handleReply cfg m).execTrans = s.execTrans) ∨
      ∃ info, s.transactions m.tid = some info ∧ m.tid ∉ s.execTrans ∧
        (s.handleReply cfg m).transactions = Function.update s.transactions m.tid
          (some ⟨(info.numReplies + 1) % 2 ^ 32, info.trans⟩) ∧
        (s.handleReply cfg m).execTrans =
          if (info.numReplies + 1) % 2 ^ 32 = cfg.replyQuorum then s.execTrans ++ [m.tid]
          else s.execTrans := by
  unfold ClientState.Pending ClientState.handleReply
  by_cases hexec : m.tid ∈ s.execTrans
  · simp [hexec]
  · rw [if_neg hexec]
    cases hinfo : s.transactions m.tid with
    | none =>
      refine Or.inl ⟨by simp, ?_⟩
      simp only [ClientState.updTransaction, hinfo]
      split
      · simp [ClientState.executed, hinfo]
      · simp
    | some info =>
      refine Or.inr ⟨info, rfl, hexec, ?_⟩
      simp only [ClientState.updTransaction, hinfo]
      split
      · simp [ClientState.executed, hexec]
      · simp

/-! ### The invariant -/

/-- The replies come from different replicas and have one content. -/
def Agreeing (replies : List (PID × MsgReply)) : Prop :=
  (replies.map Prod.fst).Nodup ∧ ∃ content, ∀ r ∈ replies, r.2.content = content

theorem Agreeing.nil : Agreeing [] := ⟨List.nodup_nil, (0, 0, []), by simp⟩

theorem Agreeing.concat {replies : List (PID × MsgReply)} {p : PID} {m : MsgReply}
    (h : Agreeing replies) (hnew : ∀ r ∈ replies, r.1 ≠ p ∧ r.2.content = m.content) :
    Agreeing (replies ++ [(p, m)]) := by
  constructor
  · rw [List.map_append, List.map_singleton, List.nodup_append]
    refine ⟨h.1, List.nodup_singleton p, ?_⟩
    rintro q hq q' hq' rfl
    obtain ⟨r, hr, rfl⟩ := List.mem_map.mp hq
    exact (hnew r hr).1 (List.mem_singleton.mp hq')
  · refine ⟨m.content, fun r hr => ?_⟩
    rcases List.mem_append.mp hr with hr | hr
    · exact (hnew r hr).2
    · rw [List.mem_singleton.mp hr]

theorem mem_repliesSince {tid : TID} {events : List ClientEvent} {r : PID × MsgReply}
    (h : r ∈ repliesSince tid events) : ClientEvent.reply r.1 r.2 ∈ events ∧ r.2.tid = tid := by
  induction events using List.reverseRecOn with
  | nil => exact absurd h List.not_mem_nil
  | append_singleton events e ih =>
    have hold : r ∈ repliesSince tid events →
        ClientEvent.reply r.1 r.2 ∈ events ++ [e] ∧ r.2.tid = tid :=
      fun hr => ⟨List.mem_append_left _ (ih hr).1, (ih hr).2⟩
    cases e with
    | send t =>
      rw [repliesSince_send] at h
      by_cases ht : t.transid = tid
      · rw [if_pos ht] at h
        exact absurd h List.not_mem_nil
      · rw [if_neg ht] at h
        exact hold h
    | reply p m =>
      rw [repliesSince_reply] at h
      by_cases hm : m.tid = tid
      · rw [if_pos hm, List.mem_append, List.mem_singleton] at h
        rcases h with h | rfl
        · exact hold h
        · exact ⟨List.mem_append_right _ (List.mem_singleton_self _), hm⟩
      · rw [if_neg hm] at h
        exact hold h

/-- The replies that were counted for a pending transaction, and the quorums of the recorded ones. -/
structure ReplyInv (cfg : ClientConfig) (events : List ClientEvent) : Prop where
  counted : ∀ tid info, (ClientState.run cfg events).transactions tid = some info →
    tid ∉ (ClientState.run cfg events).execTrans →
      info.numReplies = (repliesSince tid events).length % 2 ^ 32
  agreeing : ∀ tid, (ClientState.run cfg events).Pending tid → Agreeing (repliesSince tid events)
  recorded : ∀ tid ∈ (ClientState.run cfg events).execTrans, HasReplyQuorum cfg events tid

section Invariant

variable {cfg : ClientConfig} {events : List ClientEvent}

theorem ReplyInv.init : ReplyInv cfg [] where
  counted tid info h := absurd h (by simp [ClientState.run, ClientState.init])
  agreeing tid _ := Agreeing.nil
  recorded tid h := absurd h List.not_mem_nil

theorem ReplyInv.send (h : ReplyInv cfg events) (t : Transaction) :
    ReplyInv cfg (events ++ [.send t]) := by
  have hrun : ClientState.run cfg (events ++ [.send t]) =
      (ClientState.run cfg events).addNewTransaction t := run_concat cfg events (.send t)
  constructor
  · intro tid info hinfo hexec
    rw [hrun] at hinfo hexec
    rw [repliesSince_send]
    by_cases htid : t.transid = tid
    · subst htid
      rw [transactions_addNewTransaction_self] at hinfo
      obtain rfl := Option.some.inj hinfo
      rw [if_pos rfl]
      rfl
    · rw [if_neg htid]
      rw [transactions_addNewTransaction_of_ne _ (Ne.symm htid)] at hinfo
      exact h.counted tid info hinfo hexec
  · intro tid hpending
    rw [repliesSince_send]
    by_cases htid : t.transid = tid
    · rw [if_pos htid]
      exact Agreeing.nil
    · rw [if_neg htid]
      rw [hrun] at hpending
      obtain ⟨hsome, hexec⟩ := hpending
      rw [transactions_addNewTransaction_of_ne _ (Ne.symm htid)] at hsome
      exact h.agreeing tid ⟨hsome, hexec⟩
  · intro tid htid
    rw [hrun] at htid
    exact (h.recorded tid htid).append _

/-- A transaction that is recorded now has a quorum. -/
theorem hasReplyQuorum_of_agreeing {tid : TID} (hagree : Agreeing (repliesSince tid events))
    (hlength : cfg.replyQuorum ≤ (repliesSince tid events).length) :
    HasReplyQuorum cfg events tid := by
  obtain ⟨hnodup, content, hcontent⟩ := hagree
  refine ⟨((repliesSince tid events).map Prod.fst).toFinset, content, ?_, fun p hp => ?_⟩
  · rw [List.toFinset_card_of_nodup hnodup, List.length_map]
    exact hlength
  · obtain ⟨r, hr, rfl⟩ := List.mem_map.mp (List.mem_toFinset.mp hp)
    obtain ⟨hmem, htid⟩ := mem_repliesSince hr
    exact ⟨r.2, hmem, htid, hcontent r hr⟩

theorem ReplyInv.reply (h : ReplyInv cfg events) (p : PID) (m : MsgReply)
    (hcounts : CountsOnce cfg events (.reply p m)) : ReplyInv cfg (events ++ [.reply p m]) := by
  have hrun : ClientState.run cfg (events ++ [.reply p m]) =
      (ClientState.run cfg events).handleReply cfg m := run_concat cfg events (.reply p m)
  have hother : ∀ {tid : TID}, tid ≠ m.tid →
      repliesSince tid (events ++ [.reply p m]) = repliesSince tid events := by
    intro tid htid
    rw [repliesSince_reply, if_neg (Ne.symm htid)]
  have hsince : repliesSince m.tid (events ++ [.reply p m]) =
      repliesSince m.tid events ++ [(p, m)] := by
    rw [repliesSince_reply, if_pos rfl]
  rcases handleReply_cases cfg (ClientState.run cfg events) m with
    ⟨hpending, htrans, hexec⟩ | ⟨info, hinfo, hnot, htrans, hexec⟩
  · -- the reply is ignored: its transaction is not pending
    constructor
    · intro tid info hinfo htid
      rw [hrun, htrans] at hinfo
      rw [hrun, hexec] at htid
      have hne : tid ≠ m.tid := by
        rintro rfl
        exact hpending ⟨by rw [hinfo]; rfl, htid⟩
      rw [hother hne]
      exact h.counted tid info hinfo htid
    · rintro tid ⟨hsome, htid⟩
      rw [hrun, htrans] at hsome
      rw [hrun, hexec] at htid
      have hne : tid ≠ m.tid := by
        rintro rfl
        exact hpending ⟨hsome, htid⟩
      rw [hother hne]
      exact h.agreeing tid ⟨hsome, htid⟩
    · intro tid htid
      rw [hrun, hexec] at htid
      exact (h.recorded tid htid).append _
  · have hpending : (ClientState.run cfg events).Pending m.tid := ⟨by rw [hinfo]; rfl, hnot⟩
    have hagree : Agreeing (repliesSince m.tid (events ++ [.reply p m])) := by
      rw [hsince]
      exact (h.agreeing m.tid hpending).concat (hcounts hpending)
    have hlength : (info.numReplies + 1) % 2 ^ 32 =
        (repliesSince m.tid (events ++ [.reply p m])).length % 2 ^ 32 := by
      rw [hsince, List.length_append, List.length_singleton, h.counted m.tid info hinfo hnot,
        Nat.mod_add_mod]
    -- the recorded transactions are kept
    have hkept : ∀ tid ∈ (ClientState.run cfg events).execTrans,
        tid ∈ (ClientState.run cfg (events ++ [.reply p m])).execTrans := by
      intro tid htid
      rw [hrun, hexec]
      split
      · exact List.mem_append_left _ htid
      · exact htid
    constructor
    · intro tid info' hinfo' htid
      rw [hrun, htrans] at hinfo'
      by_cases hne : tid = m.tid
      · subst hne
        rw [Function.update_self] at hinfo'
        obtain rfl := Option.some.inj hinfo'
        exact hlength
      · rw [Function.update_of_ne hne] at hinfo'
        rw [hother hne]
        exact h.counted tid info' hinfo' (mt (hkept tid) htid)
    · rintro tid ⟨hsome, htid⟩
      by_cases hne : tid = m.tid
      · subst hne
        exact hagree
      · rw [hrun, htrans, Function.update_of_ne hne] at hsome
        rw [hother hne]
        exact h.agreeing tid ⟨hsome, mt (hkept tid) htid⟩
    · intro tid htid
      rw [hrun, hexec] at htid
      by_cases hquorum : (info.numReplies + 1) % 2 ^ 32 = cfg.replyQuorum
      · rw [if_pos hquorum, List.mem_append, List.mem_singleton] at htid
        rcases htid with htid | rfl
        · exact (h.recorded tid htid).append _
        · apply hasReplyQuorum_of_agreeing hagree
          rw [← hquorum, hlength]
          exact Nat.mod_le _ _
      · rw [if_neg hquorum] at htid
        exact (h.recorded tid htid).append _

/-- **The invariant** holds in every run in which every reply is counted once. -/
theorem replyInv_of_allCountOnce (h : AllCountOnce cfg events) : ReplyInv cfg events := by
  induction events using List.reverseRecOn with
  | nil => exact .init
  | append_singleton events e ih =>
    have hevents := ih h.of_append
    cases e with
    | send t => exact hevents.send t
    | reply p m => exact hevents.reply p m h.last

end Invariant

/-- **The quorum of replies.**  In every run in which every reply that is counted comes from another
replica than the replies counted for the transaction before, and agrees with them, enough different
replicas have sent one and the same reply for every transaction that is recorded. -/
theorem recorded_of_distinct (cfg : ClientConfig) (events : List ClientEvent)
    (h : AllCountOnce cfg events) :
    ∀ tid ∈ (ClientState.run cfg events).execTrans, HasReplyQuorum cfg events tid :=
  (replyInv_of_allCountOnce h).recorded

/-! ### One replica -/

section Duplicate

/-- A client of a system with one fault, which waits for two replies. -/
def clientOf1 : ClientConfig := ⟨1, 1⟩

/-- Replica 0 replies twice, as it does when the transaction is committed in two blocks. -/
def duplicateReplies : List ClientEvent :=
  [.send ⟨1, 1, Vector.replicate _ 0⟩, .reply 0 (.make 1 0 0 []), .reply 0 (.make 1 0 0 [])]

/-- **Two replies of one replica** are counted as two. -/
theorem not_recorded_quorum :
    1 ∈ (ClientState.run clientOf1 duplicateReplies).execTrans ∧
      ¬ HasReplyQuorum clientOf1 duplicateReplies 1 := by
  refine ⟨by decide, ?_⟩
  rintro ⟨replicas, content, hcard, hall⟩
  -- no other replica has replied
  have hsub : replicas ⊆ {0} := by
    intro p hp
    obtain ⟨m, hm, -⟩ := hall p hp
    simp only [duplicateReplies, List.mem_cons, reduceCtorEq, ClientEvent.reply.injEq, false_or,
      List.not_mem_nil, or_false, or_self] at hm
    exact Finset.mem_singleton.mpr hm.1
  have hone : replicas.card ≤ 1 := Finset.card_le_card hsub
  exact absurd (hcard.trans hone) (by decide)

/-- Two replicas that reply, and one of them again. -/
def distinctReplies : List ClientEvent :=
  [.send ⟨1, 1, Vector.replicate _ 0⟩, .reply 0 (.make 1 0 0 []), .reply 2 (.make 1 0 0 []),
    .reply 0 (.make 1 0 0 [])]

theorem recorded_of_distinct_two : HasReplyQuorum clientOf1 distinctReplies 1 := by
  refine recorded_of_distinct clientOf1 distinctReplies ?_ 1 (by decide)
  have hsent : AllCountOnce clientOf1 (distinctReplies.take 1) := by
    apply AllCountOnce.nil.concat
    exact trivial
  have hfirst : AllCountOnce clientOf1 (distinctReplies.take 2) := by
    apply hsent.concat
    intro _ r hr
    exact absurd hr List.not_mem_nil
  have hsecond : AllCountOnce clientOf1 (distinctReplies.take 3) := by
    apply hfirst.concat
    intro _ r hr
    obtain rfl : r = (0, .make 1 0 0 []) := List.mem_singleton.mp hr
    exact ⟨by decide, rfl⟩
  -- the last reply is not counted
  apply hsecond.concat
  intro hpending
  exact absurd hpending.2 (by decide)

end Duplicate

end Raftel
