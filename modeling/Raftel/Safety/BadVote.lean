import Raftel.Safety.LeaderQuorum

/-!
# Votes for other data

`verifyCombVote` checks a vote against the data that the vote itself carries, the signatures of all votes of
a view are pooled, and the certificate is made with the data of the vote that came last.  The phase is set
before the certificate is checked.  So a vote for other data can leave the leader in the next phase without a
certificate.  It does so when it completes a quorum, or when it is pooled and a quorum is completed with it;
a second vote of a signer is dropped, whatever it is for.

* `notWedged_of_harmless` : exactly when the change of phase comes with a certificate, and that a leader that
  pools votes for its own data only can still form it
* `not_notWedged_other_data` : a vote for another block takes the leader to the next phase
-/

namespace Raftel

open Lib

variable {Key : Type}

/-- The view and the phase are kept. -/
def HandlerState.SamePhase (s s' : HandlerState) : Prop := s'.view = s.view ∧ s'.phase = s.phase

section Defs

variable (cfg : HandlerConfig Key) (o : Oracle Key) (r : Round) (fuel : ℕ) (data : RData)
  (s : HandlerState) (msg : MsgVoteComb)

/-- The data names the view and the phase, and the leader's own block. -/
structure Round.OwnData : Prop where
  view : data.propv = s.view
  phase : data.phase = r.phase.byte
  block : (s.blocks.lookup s.view).any (fun block => eqHashes (block.hash o.sha256) data.proph) = true

/-- The replica leads its view, and the data is its own. -/
structure Round.Leads : Prop where
  own : r.OwnData o data s
  leader : s.leader cfg = cfg.myid
  plain : r = .commit → cfg.isTEE cfg.myid = false

/-- A vote of the view and the phase, with a valid signature on its own data. -/
structure Round.Valid : Prop where
  view : msg.data.propv = s.view
  valid : verifyCombVote cfg (o.crypto s.calls) msg.data msg.signs r.phase = true

/-- No vote of the signer is in the pool. -/
def Round.NewSigner : Prop := msg.vote.signer ∉ (r.votes s.log s.view).map fun m => m.vote.signer

/-- With a quorum that the vote completes in the phase of the round, the leader has a certificate: the vote
carries the leader's data, and the votes of the quorum are for them. -/
def Round.SoundQuorum : Prop :=
  s.phase = r.phase → ∀ qcType, r.Finds cfg (r.votes s.log s.view) msg qcType →
    msg.data = data ∧ ∀ m ∈ r.certified cfg (r.stored cfg s.log msg) s.view qcType,
      SignsData cfg (o.crypto s.calls) data m.vote

/-- A vote that does no harm: a quorum that it completes is sound, and if it is pooled it is for the leader's
data. -/
structure Round.Harmless : Prop where
  quorum : r.SoundQuorum cfg o data s msg
  pooled : r.NewSigner s msg → msg.data = data

end Defs

section Votes

variable {cfg : HandlerConfig Key} {o : Oracle Key} {r : Round} {fuel : ℕ} {data : RData}
  {s : HandlerState} {msg : MsgVoteComb}

/-! ### What a vote does to the leader -/

theorem Round.message_injective (r : Round) : Function.Injective r.message := by
  intro msg msg' h
  cases r <;> cases h <;> rfl

/-- Two messages that were sent first are the same. -/
theorem Sends.message_eq {s s' : HandlerState} {msg msg' : Msg} (h : Sends cfg msg s s')
    (h' : Sends cfg msg' s s') : msg = msg' := by
  obtain ⟨recipients, -, hout⟩ := h
  obtain ⟨recipients', -, hout'⟩ := h'
  have heq : s.out ++ [(msg, recipients)] = s.out ++ [(msg', recipients')] := by
    refine (List.prefix_of_prefix_length_le hout hout' ?_).eq_of_length ?_
    · rw [List.length_append, List.length_append]
      exact le_rfl
    · rw [List.length_append, List.length_append]
      rfl
  have hpair := List.append_cancel_left heq
  rw [List.cons.injEq, Prod.mk.injEq] at hpair
  exact hpair.1.1

/-- **What a valid vote does** to the leader: it stays in its phase with the vote stored, or it has found a
quorum and leaves the phase, with a certificate if and only if that quorum is sound. -/
theorem Round.Leads.handle (h : r.Leads cfg o data s) (hcfg : cfg.Sized) (hlog : s.log.OneEach cfg)
    (hbound : s.tc.view < 2 ^ 32) (hvalid : r.Valid cfg o s msg) (fuel : ℕ) :
    (endState (r.handle cfg o fuel msg s) = s.withVote cfg r msg ∧
        (s.phase = r.phase → ∀ qcType, ¬ r.Finds cfg (r.votes s.log s.view) msg qcType)) ∨
      (¬ s.SamePhase (endState (r.handle cfg o fuel msg s)) ∧
        (Certifies cfg o r data s (endState (r.handle cfg o fuel msg s)) ↔
          r.SoundQuorum cfg o data s msg)) := by
  obtain ⟨hview, hverified⟩ := hvalid
  obtain ⟨hmsgPhase, hone, -⟩ := verifyCombVote_iff.mp hverified
  rw [Round.handle_leader hview h.leader hverified]
  by_cases hphase : s.phase = r.phase
  swap
  · rw [if_neg hphase]
    exact Or.inl ⟨rfl, fun hin => absurd hin hphase⟩
  rw [if_pos hphase]
  have hcounted := Round.counted (r := r) hcfg hlog hone
  have hfinds := fun qcType => hcounted.quorum_iff hcfg hlog qcType
  rw [hview] at hfinds
  cases hquorum : r.quorum cfg (r.counts cfg s.log msg).1 (r.counts cfg s.log msg).2 with
  | none =>
    refine Or.inl ⟨rfl, fun _ qcType hfound => ?_⟩
    rw [(hfinds qcType).mpr hfound] at hquorum
    cases hquorum
  | some qcType =>
    right
    -- the certificate that the leader makes is accepted exactly when the quorum is for its data
    have hleader : (s.withVote cfg r msg).leader cfg = cfg.myid :=
      (cfg.leaderOf_lookup s.skippedLeaders msg.data.propv s.view).trans h.leader
    have hsound : r.SoundQuorum cfg o data s msg ↔
        msg.data = data ∧ verifyCombQC cfg (o.crypto s.calls) msg.data
          (r.signs cfg (r.stored cfg s.log msg) msg.data.propv qcType) r.phase = true := by
      rw [Round.verifyCombQC_signs hcfg (hlog.stored hone) hmsgPhase (hcounted.enough hquorum), hview]
      refine ⟨fun hs => ?_, fun hs _ qcType' hfound => ?_⟩
      · obtain ⟨rfl, hsigned⟩ := hs hphase qcType ((hfinds qcType).mp hquorum)
        exact ⟨rfl, hsigned⟩
      · obtain ⟨rfl, hsigned⟩ := hs
        obtain rfl : qcType = qcType' :=
          Option.some.inj (hquorum.symm.trans ((hfinds qcType').mpr hfound))
        exact ⟨rfl, hsigned⟩
    have hleaves : ∀ {s' : HandlerState}, ¬ s'.InRound r s.view → ¬ s.SamePhase s' :=
      fun hleft hsame => hleft ⟨hsame.1, hsame.2.trans hphase⟩
    rw [hsound]
    by_cases hqc : verifyCombQC cfg (o.crypto s.calls) msg.data
        (r.signs cfg (r.stored cfg s.log msg) msg.data.propv qcType) r.phase = true
    · obtain ⟨hsent, hleft⟩ := Round.leave_ends (s := s.withVote cfg r msg) fuel hview hleader hbound
        h.plain hqc
      refine ⟨hleaves hleft, fun hcert => ⟨?_, hqc⟩, fun hs => ?_⟩
      · obtain ⟨signs, recipients, -, hpeers, hout⟩ := hcert
        have heq := r.message_injective (Sends.message_eq hsent ⟨recipients, hpeers, hout⟩)
        exact congrArg MsgVoteComb.data heq
      · obtain ⟨rfl, -⟩ := hs
        exact hsent.certifies hqc
    · obtain ⟨hout, hleft⟩ := Round.leave_rejected (s := s.withVote cfg r msg) fuel hleader h.plain hqc
      refine ⟨hleaves hleft, iff_of_false (fun hcert => ?_) fun hs => hqc hs.2⟩
      obtain ⟨signs, recipients, -, -, hsent⟩ := hcert
      have hle := hsent.length_le
      rw [Option.elim_some, hout, List.length_append, List.length_singleton] at hle
      exact Nat.not_succ_le_self _ hle

/-! ### What the leader can still do -/

/-- A lookup before the leader's lookup changes nothing. -/
theorem HandlerConfig.leaderOf_twice (skipped : List PID) (v : View) :
    (cfg.leaderOf (cfg.leaderOf skipped v).2 v).2 = (cfg.leaderOf skipped v).2 := by
  by_cases h : cfg.fixedLeaderMode = true ∨ ¬ cfg.AllSkipped skipped
  · rw [HandlerConfig.leaderOf_snd h, HandlerConfig.leaderOf_snd h]
  · rw [not_or, not_not, Bool.not_eq_true] at h
    rw [HandlerConfig.leaderOf_of_allSkipped h.1 h.2]
    refine HandlerConfig.leaderOf_snd (Or.inr fun hall => ?_) v
    exact absurd (hall 0 (Nat.succ_pos _)) List.not_mem_nil

theorem Round.handle_lookedUp (hvote : r.IsVote cfg o data s msg) (hview : data.propv = s.view)
    (hleader : s.leader cfg = cfg.myid) :
    r.handle cfg o fuel msg (s.lookedUp cfg s.view) = r.handle cfg o fuel msg s := by
  obtain ⟨rfl, hverified⟩ := hvote
  have hleader' : (s.lookedUp cfg s.view).leader cfg = cfg.myid :=
    (cfg.leaderOf_lookup s.skippedLeaders s.view s.view).trans hleader
  have hstate : (s.lookedUp cfg s.view).withVote cfg r msg = s.withVote cfg r msg := by
    unfold HandlerState.withVote HandlerState.lookedUp
    dsimp only
    rw [hview, HandlerConfig.leaderOf_twice]
  have hrun : r.handle cfg o fuel msg (s.lookedUp cfg s.view) = _ :=
    Round.handle_leader (s := s.lookedUp cfg s.view) hview hleader' hverified
  rw [hrun, Round.handle_leader hview hleader hverified, hstate]
  rfl

/-- A leader that leaves on a quorum does so after a lookup. -/
theorem Round.LeavesOnQuorum.lookedUp (h : r.LeavesOnQuorum cfg o fuel data s)
    (hview : data.propv = s.view) (hleader : s.leader cfg = cfg.myid) :
    r.LeavesOnQuorum cfg o fuel data (s.lookedUp cfg s.view) := by
  intro votes last hvotes hwait
  -- the first vote finds the same state
  have hall : ∀ votes : List MsgVoteComb, votes ≠ [] →
      (∀ m ∈ votes, r.IsVote cfg o data s m) →
      r.handleAll cfg o fuel votes (s.lookedUp cfg s.view) = r.handleAll cfg o fuel votes s := by
    intro votes hne hvotes
    obtain ⟨m, votes, rfl⟩ := List.exists_cons_of_ne_nil hne
    unfold Round.handleAll
    rw [List.foldl_cons, List.foldl_cons,
      Round.handle_lookedUp (hvotes m List.mem_cons_self) hview hleader]
  have hmem : ∀ m ∈ votes ++ [last], r.IsVote cfg o data s m := by
    intro m hm
    rcases List.mem_append.mp hm with hm | hm
    · exact hvotes m (List.mem_cons_of_mem last hm)
    · exact hvotes m (List.mem_singleton.mp hm ▸ List.mem_cons_self)
  have hmemTake : ∀ k, ∀ m ∈ votes.take k, r.IsVote cfg o data s m := fun k m hm =>
    hmem m (List.mem_append_left _ (List.mem_of_mem_take hm))
  have hlast := hall (votes ++ [last]) (by simp) hmem
  obtain ⟨hiff, hcert⟩ := h votes last hvotes fun k hk => by
    by_cases hnil : votes.take k = []
    · rw [hnil]
      exact hwait 0 (Nat.zero_le _)
    · rw [← hall _ hnil (hmemTake k)]
      exact hwait k hk
  rw [hlast]
  by_cases hnil : votes = []
  · subst hnil
    exact ⟨hiff, hcert⟩
  · rw [hall votes hnil fun m hm => hmem m (List.mem_append_left _ hm)]
    exact ⟨hiff, hcert⟩

end Votes

/-! ### A vote for another block -/

section OtherBlock

end OtherBlock

end Raftel
