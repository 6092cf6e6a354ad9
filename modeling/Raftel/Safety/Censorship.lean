import Raftel.Safety.LeaderQuorum
import Raftel.Equiv.Chained
import Raftel.Equiv.HotStuffLog

/-!
# Forged messages

A log keeps one new-view or vote of each signer and view, the first one that comes.  Another message of the kind and
the view that names the same signer is a rival: once it is in the log, the genuine message is a duplicate.

The hybrid handlers verify a message before they log it, so that a rival has to be signed.  The chained handlers and
those of HotStuff log what they are sent.

* `admits_of_fair` : in each of the builds, unless a rival has passed the checks, a message is logged that would be
  logged if the log were empty
* `not_admits_forged` : a rival that its signer has not signed keeps the message out
-/

namespace Raftel

variable {Key : Type}

/-! ### The hybrid protocol -/

/-- The kind of a new-view or a vote. -/
def Msg.kind : Msg → Option Phase1
  | newview _ => some .newview
  | ldrprepare _ => none
  | prepare _ => some .prepare
  | precommit _ => some .precommit
  | commit _ => some .commit

/-- Another message of the same kind and view that names the same signer. -/
structure Msg.Rival (m m' : Msg) : Prop where
  ne : m' ≠ m
  kind : m'.kind = m.kind
  view : m'.view = m.view
  signer : m'.signer = m.signer

variable (cfg : HandlerConfig Key)

/-- The signer that a new-view or a vote names has signed it. -/
def Msg.Signed (cr : Crypto Key) : Msg → Prop
  | newview m => SignsData cfg cr m.data m.sign
  | ldrprepare _ => False
  | prepare m => SignsData cfg cr m.data m.vote
  | precommit m => SignsData cfg cr m.data m.vote
  | commit m => SignsData cfg cr m.data m.vote

/-- A reaction to an input that is not a rival of `m` which its signer has signed. -/
def FairTo (m : Msg) (s s' : HandlerState) : Prop :=
  ∃ (o : Oracle Key) (fuel : ℕ) (input : Input), s' = s.react cfg o fuel input ∧
    ∀ msg, input = .peer msg → m.Rival msg → ¬ msg.Signed cfg (o.crypto s.calls)

/-- The message is logged, if it would be logged in an empty log. -/
def HandlerState.Admits (o : Oracle Key) (s : HandlerState) (fuel : ℕ) (m : Msg) : Prop :=
  ({ s with log := .init }.react cfg o fuel (.peer m)).log.Holds m →
    (s.react cfg o fuel (.peer m)).log.Holds m

section Hybrid

variable {cfg} {o : Oracle Key} {s : HandlerState} {m : Msg}

/-- **What is logged is signed.** -/
theorem HandlerState.Passes.signed {msg : Msg} (h : s.Passes cfg o msg) :
    msg.Signed cfg (o.crypto s.calls) := by
  cases msg with
  | newview msg =>
    have hverified := h.verified
    unfold verifyNewViewComb at hverified
    rw [Bool.and_eq_true, verifyCombSigns_iff] at hverified
    obtain ⟨-, -, -, -, -, hall, -⟩ := hverified
    exact hall msg.sign List.mem_cons_self
  | ldrprepare msg => exact h
  | prepare msg => exact (verifyCombVote_iff.mp h.verified).2.2
  | precommit msg => exact (verifyCombVote_iff.mp h.verified).2.2
  | commit msg => exact (verifyCombVote_iff.mp h.verified).2.2

theorem Log.not_holds_init (m : Msg) : ¬ Log.init.Holds m := by
  have hnewviews : ∀ v (m : MsgNewViewComb), m ∉ (ViewLog.empty : NewViewLog).get v := by simp
  have hvotes : ∀ v (m : MsgVoteComb), m ∉ (ViewLog.empty : VoteLog).get v := by simp
  intro hm
  cases m with
  | newview m => exact hm.elim (hnewviews _ m) (hnewviews _ m)
  | ldrprepare m => exact hm
  | prepare m => exact hm.elim (hvotes _ m) (hvotes _ m)
  | precommit m => exact hm.elim (hvotes _ m) (hvotes _ m)
  | commit m => exact hm.elim (hvotes _ m) (hvotes _ m)

theorem Log.Holds.mono {log log' : Log} (h : log.Holds m) (hwithin : log.Within log') : log'.Holds m := by
  cases m with
  | newview m => exact h.imp (fun h => hwithin.newviews _ h) fun h => hwithin.teeNewviews _ h
  | ldrprepare m => exact h
  | prepare m => exact h.imp (fun h => hwithin.prepares _ h) fun h => hwithin.teePrepares _ h
  | precommit m => exact h.imp (fun h => hwithin.precommits _ h) fun h => hwithin.teePrecommits _ h
  | commit m => exact h.imp (fun h => hwithin.commits _ h) fun h => hwithin.teeCommits _ h

theorem NewViewLog.mem_store {log : NewViewLog} {msg : MsgNewViewComb}
    (hunique : ∀ m ∈ log.get msg.data.propv, m.sign.signer = msg.sign.signer → m = msg) :
    msg ∈ (log.store MsgNewViewComb.lt msgNewViewCombFrom msg).2.get msg.data.propv := by
  exact ViewLog.mem_store_by_signer (fun m : MsgNewViewComb => m.sign.signer) hunique

theorem VotesOf.mem_store {tee : Bool} {log : VoteLog} {msg : MsgVoteComb}
    (h : VotesOf cfg tee (log.get msg.data.propv)) (hone : msg.signs.size = 1)
    (hunique : ∀ m ∈ log.get msg.data.propv, m.vote.signer = msg.vote.signer → m = msg) :
    msg ∈ (log.store MsgVoteComb.lt msgVoteCombFrom msg).2.get msg.data.propv := by
  refine ViewLog.mem_store_of_unique (fun m => m.vote.signer) (fun hfrom => ?_) (fun m hm hne => ?_) hunique
  · obtain ⟨m, hm, heq⟩ := List.mem_map.mp ((msgVoteCombFrom_iff h.one hone).mp hfrom)
    exact ⟨m, hm, heq⟩
  · exact MsgVoteComb.lt_or_lt hone (h.one m hm) hne.symm

namespace Round

variable {r : Round} {log : Log} {msg : MsgVoteComb}

theorem holds_message : log.Holds (r.message msg) ↔ msg ∈ r.votes log msg.data.propv := by
  cases r <;> exact or_comm.trans List.mem_append.symm

theorem unique_of_free (hfree : ∀ m', log.Holds m' → ¬ (r.message msg).Rival m') :
    ∀ m ∈ r.votes log msg.data.propv, m.vote.signer = msg.vote.signer → m = msg := by
  intro m hm hsigner
  by_contra hne
  have hview : m.data.propv = msg.data.propv :=
    (List.mem_append.mp hm).elim ViewLog.viewOf_of_mem_get ViewLog.viewOf_of_mem_get
  refine hfree (r.message m) (holds_message.mpr (hview ▸ hm)) ?_
  cases r with
  | prepare => exact ⟨fun heq => hne (Msg.prepare.inj heq), rfl, hview, hsigner⟩
  | precommit => exact ⟨fun heq => hne (Msg.precommit.inj heq), rfl, hview, hsigner⟩
  | commit => exact ⟨fun heq => hne (Msg.commit.inj heq), rfl, hview, hsigner⟩

/-- A vote comes in when the log holds no rival. -/
theorem holds_stored (hlog : log.OneEach cfg) (hone : msg.signs.size = 1)
    (hfree : ∀ m', log.Holds m' → ¬ (r.message msg).Rival m') :
    (r.stored cfg log msg).Holds (r.message msg) := by
  have hunique := unique_of_free hfree
  rw [holds_message]
  unfold stored votes
  split
  · refine List.mem_append_left _ ?_
    rw [(r.storeTEE_spec log msg).2.1]
    exact (hlog.tee r _).mem_store hone fun m hm => hunique m (List.mem_append_left _ hm)
  · refine List.mem_append_right _ ?_
    rw [(r.storeOther_spec log msg).2.1]
    exact (hlog.other r _).mem_store hone fun m hm => hunique m (List.mem_append_right _ hm)

end Round

/-- The same for a new-view. -/
theorem holds_storedNewView {log : Log} {msg : MsgNewViewComb}
    (hfree : ∀ m', log.Holds m' → ¬ (Msg.newview msg).Rival m') :
    (cfg.storeNewView log msg).Holds (.newview msg) := by
  have hunique : ∀ m, log.Holds (.newview m) → m.data.propv = msg.data.propv →
      m.sign.signer = msg.sign.signer → m = msg := by
    intro m hm hview hsigner
    by_contra hne
    exact hfree _ hm ⟨fun heq => hne (Msg.newview.inj heq), rfl, hview, hsigner⟩
  have hview : ∀ (side : NewViewLog) (m : MsgNewViewComb), m ∈ side.get msg.data.propv →
      m.data.propv = msg.data.propv := by
    intro side m hm
    have hfiled := ViewLog.viewOf_of_mem_get hm
    exact hfiled
  unfold HandlerConfig.storeNewView
  split
  · refine Or.inr (NewViewLog.mem_store fun m hm => ?_)
    exact hunique m (Or.inr (hview _ m hm ▸ hm)) (hview _ m hm)
  · refine Or.inl (NewViewLog.mem_store fun m hm => ?_)
    exact hunique m (Or.inl (hview _ m hm ▸ hm)) (hview _ m hm)

/-- **A message comes in** when it passes the checks and the log holds no rival. -/
theorem holds_storeMsg {log : Log} (hpasses : s.Passes cfg o m) (hlog : log.OneEach cfg)
    (hfree : ∀ m', log.Holds m' → ¬ m.Rival m') : (cfg.storeMsg log m).Holds m := by
  cases m with
  | newview msg => exact holds_storedNewView hfree
  | ldrprepare msg => exact hpasses.elim
  | prepare msg =>
    exact Round.holds_stored (r := .prepare) hlog (size_of_verifyCombVote hpasses.verified) hfree
  | precommit msg =>
    exact Round.holds_stored (r := .precommit) hlog (size_of_verifyCombVote hpasses.verified) hfree
  | commit msg =>
    exact Round.holds_stored (r := .commit) hlog (size_of_verifyCombVote hpasses.verified) hfree

theorem Log.OneEach.storeMsg {log : Log} (hpasses : s.Passes cfg o m) (hlog : log.OneEach cfg) :
    (cfg.storeMsg log m).OneEach cfg := by
  cases m with
  | newview msg => exact (hlog.newview msg).1
  | ldrprepare msg => exact hlog
  | prepare msg => exact (hlog.vote .prepare (size_of_verifyCombVote hpasses.verified)).1
  | precommit msg => exact (hlog.vote .precommit (size_of_verifyCombVote hpasses.verified)).1
  | commit msg => exact (hlog.vote .commit (size_of_verifyCombVote hpasses.verified)).1

/-- No rival is in the log. -/
theorem free_of_fair (hsigner : m.signer ≠ cfg.myid) (hrun : Relation.ReflTransGen (FairTo cfg m) .init s) :
    s.log.OneEach cfg ∧ ∀ m', s.log.Holds m' → ¬ m.Rival m' := by
  induction hrun with
  | refl => exact ⟨Log.init_oneEach cfg, fun m' hm' => absurd hm' (Log.not_holds_init m')⟩
  | tail _ hstep ih =>
    obtain ⟨o, fuel, input, rfl, hfair⟩ := hstep
    refine ⟨(oneEach_react ih.1 fuel input).1, ?_⟩
    have hkept : KeptBy cfg o True (fun _ => True) (fun m' => ¬ m.Rival m') fun s =>
        ∀ m', s.log.Holds m' → ¬ m.Rival m' :=
      ⟨fun _ _ hstep hs m' hm' => (hstep.logs m' hm').elim (hs m') id, Or.inl trivial,
        fun m' hown hrival => hsigner (hrival.signer.symm.trans hown), fun _ _ _ _ => trivial⟩
    refine react_keptBy hkept fuel input (fun s₁ hbegin => ?_) (fun msg hmsg hpasses hrival => ?_)
      (fun _ _ => trivial) fun _ _ _ => trivial
    · rw [hbegin.log_eq]
      exact ih.2
    · exact hfair msg hmsg hrival hpasses.signed

/-- A message that does not pass the checks is not logged. -/
theorem passes_of_holds {fuel : ℕ} (hsigner : m.signer ≠ cfg.myid) (hs : ¬ s.log.Holds m)
    (hholds : (s.react cfg o fuel (.peer m)).log.Holds m) : s.stopped = false ∧ s.Passes cfg o m := by
  have hkept : KeptBy cfg o True (fun _ => True) (fun m' => m' ≠ m) fun s => ¬ s.log.Holds m :=
    ⟨fun _ _ hstep hs hm => (hstep.logs m hm).elim hs fun h => h rfl, Or.inl trivial,
      fun m' hown heq => hsigner (heq ▸ hown), fun _ _ _ _ => trivial⟩
  cases hstop : s.stopped with
  | true =>
    unfold HandlerState.react at hholds
    rw [if_pos hstop] at hholds
    exact absurd hholds hs
  | false =>
    refine ⟨rfl, ?_⟩
    by_contra hpasses
    exact react_peer hkept fuel hstop (fun _ => hs) (fun h => absurd h hpasses) trivial (fun _ _ _ => trivial)
      hholds

/-- The checks do not look into the log. -/
theorem HandlerState.Passes.of_log {log : Log} (h : ({ s with log := log } : HandlerState).Passes cfg o m) :
    s.Passes cfg o m := by
  cases m with
  | newview msg => exact ⟨h.view, h.leader, h.verified⟩
  | ldrprepare msg => exact h
  | prepare msg => exact ⟨h.place, h.verified⟩
  | precommit msg => exact ⟨h.place, h.verified⟩
  | commit msg => exact ⟨h.place, h.verified⟩

/-- **Verified logs.**  Rivals that nobody has signed do not keep a message out. -/
theorem HandlerState.admits (hsigner : m.signer ≠ cfg.myid)
    (hrun : Relation.ReflTransGen (FairTo cfg m) .init s) (fuel : ℕ) : s.Admits cfg o fuel m := by
  intro hholds
  obtain ⟨hlog, hfree⟩ := free_of_fair hsigner hrun
  have hempty := passes_of_holds hsigner (Log.not_holds_init m) hholds
  have hstop : s.stopped = false := hempty.1
  have hpasses : s.Passes cfg o m := hempty.2.of_log
  have hkept : Kept cfg o True fun s => s.log.OneEach cfg ∧ s.log.Holds m := by
    refine ⟨fun s s' hstep hs => ?_, Or.inl trivial⟩
    obtain ⟨hone, hwithin⟩ := hstep.oneEach hs.1
    exact ⟨hone, hs.2.mono hwithin⟩
  refine (react_peer hkept.by fuel hstop (fun h => absurd hpasses h) (fun _ s₁ hs₁ => ?_) trivial
    fun _ _ _ => trivial).2
  have hsame : s₁.log = s.log := by
    rcases hs₁ with rfl | rfl <;> rfl
  show (cfg.storeMsg s₁.log m).OneEach cfg ∧ (cfg.storeMsg s₁.log m).Holds m
  rw [hsame]
  exact ⟨hlog.storeMsg hpasses, holds_storeMsg hpasses hlog hfree⟩

end Hybrid

/-! ### The chained protocol -/

namespace Chained

/-- As in the hybrid protocol. -/
def Msg.kind : Msg → Option Phase1
  | newview _ => some .newview
  | ldrprepare _ => none
  | prepare _ => some .prepare

def Msg.view : Msg → View
  | newview m => m.data.propv
  | ldrprepare m => m.block.view
  | prepare m => m.data.propv

def Msg.signer : Msg → PID
  | newview m => m.sign.signer
  | ldrprepare m => m.sign.signer
  | prepare m => m.sign.signer

/-- Another message of the same kind and view that names the same signer. -/
structure Msg.Rival (m m' : Msg) : Prop where
  ne : m' ≠ m
  kind : m'.kind = m.kind
  view : m'.view = m.view
  signer : m'.signer = m.signer

variable (cfg : HandlerConfig Key) (cr : Crypto Key)

/-- A reaction to an input that is not a rival of `m` which passes the checks, nor a proposal whose signature
verifies and that counts as a rival vote. -/
def FairTo (m : Msg) (s s' : State) : Prop :=
  ∃ (fuel : ℕ) (input : Input), s' = s.react cfg cr fuel input ∧
    (∀ msg, input = .peer msg → m.Rival msg → ¬ s.Passes cfg msg) ∧
    ∀ p, input = .peer (.ldrprepare p) → m.Rival (.prepare (p.vote cr)) →
      verifyLdrPrepareChComb cfg cr p = false

instance (log : Log) : (m : Msg) → Decidable (log.Holds m)
  | .newview _ => inferInstanceAs (Decidable (_ ∈ _))
  | .ldrprepare _ => inferInstanceAs (Decidable False)
  | .prepare _ => inferInstanceAs (Decidable (_ ∈ _))

/-- The message is logged, if it would be logged in an empty log. -/
def State.Admits (s : State) (fuel : ℕ) (m : Msg) : Prop :=
  ({ s with log := .init }.react cfg cr fuel (.peer m)).log.Holds m →
    (s.react cfg cr fuel (.peer m)).log.Holds m

instance (s : State) (fuel : ℕ) (m : Msg) : Decidable (s.Admits cfg cr fuel m) :=
  inferInstanceAs (Decidable (_ → _))

variable {cfg cr} {received : Msg → Prop} {s s' : State} {m m' : Msg} {log : Log}

theorem Log.not_holds_init (m : Msg) : ¬ Log.init.Holds m := by
  intro hm
  cases m with
  | newview m =>
    have hnone : m ∉ (ViewLog.empty : NewViewLog).get m.data.propv := by simp
    exact hnone hm
  | ldrprepare m => exact hm
  | prepare m =>
    have hnone : m ∉ (ViewLog.empty : PrepareChLog).get m.data.propv := by simp
    exact hnone hm

/-! ### One message more -/

theorem Log.store_newview {msg : MsgNewViewChComb} : (log.store (.newview msg)).newviewsChComb =
    (log.newviewsChComb.store MsgNewViewComb.lt
      (fun msgs m => msgNewViewChCombFrom msgs m.sign.signer) msg).2 := rfl

theorem Log.store_prepare {msg : MsgPrepareChComb} : (log.store (.prepare msg)).preparesChComb =
    (log.preparesChComb.store MsgPrepareChComb.lt
      (fun msgs m => msgPrepareChCombFrom msgs m.sign.signer) msg).2 := rfl

theorem Log.holds_store_of_holds (msg : Msg) (h : log.Holds m) : (log.store msg).Holds m := by
  cases msg with
  | newview msg =>
    cases m with
    | newview m =>
      show m ∈ (log.store (.newview msg)).newviewsChComb.get m.data.propv
      rw [store_newview]
      exact ViewLog.mem_store_of_mem h
    | ldrprepare m => exact h
    | prepare m => exact h
  | ldrprepare msg => exact h
  | prepare msg =>
    cases m with
    | newview m => exact h
    | ldrprepare m => exact h
    | prepare m =>
      show m ∈ (log.store (.prepare msg)).preparesChComb.get m.data.propv
      rw [store_prepare]
      exact ViewLog.mem_store_of_mem h

theorem Log.holds_of_store {msg : Msg} (h : (log.store msg).Holds m) : log.Holds m ∨ m = msg := by
  cases msg with
  | newview msg =>
    cases m with
    | newview m =>
      change m ∈ (log.store (.newview msg)).newviewsChComb.get m.data.propv at h
      rw [store_newview] at h
      exact (ViewLog.mem_of_mem_store h).imp_right (congrArg Msg.newview)
    | ldrprepare m => exact Or.inl h
    | prepare m => exact Or.inl h
  | ldrprepare msg => exact Or.inl h
  | prepare msg =>
    cases m with
    | newview m => exact Or.inl h
    | ldrprepare m => exact Or.inl h
    | prepare m =>
      change m ∈ (log.store (.prepare msg)).preparesChComb.get m.data.propv at h
      rw [store_prepare] at h
      exact (ViewLog.mem_of_mem_store h).imp_right (congrArg Msg.prepare)

theorem Log.Verified.store (h : log.Verified cfg cr) (msg : Msg) : (log.store msg).Verified cfg cr := by
  cases msg <;> exact h

/-- **A message comes in** when the log holds no rival. -/
theorem Log.holds_store (hkind : m.kind ≠ none) (hfree : ∀ m', log.Holds m' → ¬ m.Rival m') :
    (log.store m).Holds m := by
  have hsame : ∀ m', log.Holds m' → m'.kind = m.kind → m'.view = m.view → m'.signer = m.signer → m' = m := by
    intro m' hm' hkind hview hsigner
    by_contra hne
    exact hfree m' hm' ⟨hne, hkind, hview, hsigner⟩
  cases m with
  | newview msg =>
    have hunique : ∀ m ∈ log.newviewsChComb.get msg.data.propv, m.sign.signer = msg.sign.signer → m = msg := by
      intro m hm hsigner
      have hview := ViewLog.viewOf_of_mem_get hm
      rw [← hview] at hm
      exact Msg.newview.inj (hsame (.newview m) hm rfl hview hsigner)
    show msg ∈ (log.store (.newview msg)).newviewsChComb.get msg.data.propv
    rw [store_newview]
    exact ViewLog.mem_store_by_signer (fun m : MsgNewViewChComb => m.sign.signer) hunique
  | ldrprepare msg => exact absurd rfl hkind
  | prepare msg =>
    have hunique : ∀ m ∈ log.preparesChComb.get msg.data.propv, m.sign.signer = msg.sign.signer → m = msg := by
      intro m hm hsigner
      have hview := ViewLog.viewOf_of_mem_get hm
      rw [← hview] at hm
      exact Msg.prepare.inj (hsame (.prepare m) hm rfl hview hsigner)
    show msg ∈ (log.store (.prepare msg)).preparesChComb.get msg.data.propv
    rw [store_prepare]
    exact ViewLog.mem_store_by_signer (fun m : MsgPrepareChComb => m.sign.signer) hunique

/-! ### Steps -/

/-- A step keeps the messages of the log. -/
theorem Step.holds_mono (h : Step cfg cr received s s') (hm : s.log.Holds m) : s'.log.Holds m := by
  cases h with
  | quiet h => exact h.log ▸ hm
  | newview => exact Log.holds_store_of_holds (.newview _) hm
  | prepare => exact Log.holds_store_of_holds (.prepare _) hm
  | proposal => cases m <;> exact hm
  | store => exact hm
  | walk => rwa [State.walked_log]
  | begin => exact hm

/-- What is logged has been received, or is the replica's own, or a leader's vote. -/
theorem Step.holds (h : Step cfg cr received s s') (hm : s'.log.Holds m) :
    s.log.Holds m ∨ received m ∨ m.signer = cfg.myid ∨
      ∃ p, received (.ldrprepare p) ∧ verifyLdrPrepareChComb cfg cr p = true ∧ m = .prepare (p.vote cr) := by
  cases h with
  | quiet h => exact Or.inl (h.log ▸ hm)
  | @newview msg h =>
    have hcases : s.log.Holds m ∨ m = .newview msg := Log.holds_of_store hm
    rcases hcases with hm | rfl
    · exact Or.inl hm
    · exact Or.inr (h.imp_right Or.inl)
  | @prepare msg h =>
    have hcases : s.log.Holds m ∨ m = .prepare msg := Log.holds_of_store hm
    rcases hcases with hm | rfl
    · exact Or.inl hm
    · refine Or.inr (h.imp_right fun h => h.imp_right ?_)
      rintro ⟨p, hp, hverified, rfl⟩
      exact ⟨p, hp, hverified, rfl⟩
  | proposal =>
    refine Or.inl ?_
    cases m <;> exact hm
  | store => exact Or.inl hm
  | walk =>
    rw [State.walked_log] at hm
    exact Or.inl hm
  | begin => exact Or.inl hm

/-! ### Runs -/

/-- No rival is in the log. -/
theorem free_of_fair (hsigner : m.signer ≠ cfg.myid)
    (hrun : Relation.ReflTransGen (FairTo cfg cr m) (State.init cr.sha256) s) :
    s.log.Verified cfg cr ∧ ∀ m', s.log.Holds m' → ¬ m.Rival m' := by
  induction hrun with
  | refl => exact ⟨ViewLog.all_empty, fun m' hm' => absurd hm' (Log.not_holds_init m')⟩
  | tail _ hstep ih =>
    obtain ⟨fuel, input, rfl, hfair, hproposal⟩ := hstep
    have hkept : Kept cfg cr (fun m' => ¬ m.Rival m' ∧ ∀ p, m' = .ldrprepare p →
          m.Rival (.prepare (p.vote cr)) → verifyLdrPrepareChComb cfg cr p = false)
        fun s => s.log.Verified cfg cr ∧ ∀ m', s.log.Holds m' → ¬ m.Rival m' := by
      refine ⟨fun s s' hstep hs => ⟨hstep.log_verified hs.1, fun m' hm' hrival => ?_⟩, fun s hs => hs.1⟩
      rcases hstep.holds hm' with hold | hnew | hown | ⟨p, hp, hverified, rfl⟩
      · exact hs.2 m' hold hrival
      · exact hnew.1 hrival
      · exact hsigner (hrival.signer.symm.trans hown)
      · exact absurd ((hp.2 p rfl hrival).symm.trans hverified) Bool.false_ne_true
    refine react_kept hkept (fun msg hmsg hpasses => ⟨fun hrival => ?_, fun p hp => ?_⟩) ih
    · exact hfair msg hmsg hrival hpasses
    · exact hproposal p (hmsg.trans (congrArg Input.peer hp))

/-- A message that does not pass the checks is not logged. -/
theorem passes_of_holds {fuel : ℕ} (hsigner : m.signer ≠ cfg.myid) (hverified : s.log.Verified cfg cr)
    (hs : ¬ s.log.Holds m) (hholds : (s.react cfg cr fuel (.peer m)).log.Holds m) :
    s.stopped = false ∧ s.Passes cfg m := by
  have hkept : Kept cfg cr (fun _ => False) fun s => s.log.Verified cfg cr ∧ ¬ s.log.Holds m := by
    refine ⟨fun s s' hstep hs => ⟨hstep.log_verified hs.1, fun hm => ?_⟩, fun s hs => hs.1⟩
    rcases hstep.holds hm with hold | hnew | hown | ⟨p, hp, -⟩
    · exact hs.2 hold
    · exact hnew
    · exact hsigner hown
    · exact hp
  constructor
  · rw [← Bool.not_eq_true]
    intro hstop
    unfold State.react at hholds
    rw [if_pos hstop] at hholds
    exact hs hholds
  · by_contra hpasses
    refine (react_peer hkept (fun _ => ⟨hverified, hs⟩) (fun _ => ⟨hverified, hs⟩) (fun h => ?_)
      fun h => ?_).2 hholds
    · exact hpasses h
    · exact absurd h hpasses

/-- The checks do not look into the log. -/
theorem State.Passes.of_log (h : ({ s with log := log } : State).Passes cfg m) : s.Passes cfg m := by
  cases m <;> exact h

/-- **Unverified logs.**  A message comes in unless a rival has passed the checks. -/
theorem State.admits (hsigner : m.signer ≠ cfg.myid)
    (hrun : Relation.ReflTransGen (FairTo cfg cr m) (State.init cr.sha256) s) (fuel : ℕ) :
    s.Admits cfg cr fuel m := by
  intro hholds
  obtain ⟨hverified, hfree⟩ := free_of_fair hsigner hrun
  have hinit : ({ s with log := .init } : State).log.Verified cfg cr := ViewLog.all_empty
  have hempty := passes_of_holds hsigner hinit (Log.not_holds_init m) hholds
  have hstop : s.stopped = false := hempty.1
  have hpasses : s.Passes cfg m := hempty.2.of_log
  have hkind : m.kind ≠ none := by
    cases m with
    | newview m => exact nofun
    | ldrprepare m => exact absurd hholds id
    | prepare m => exact nofun
  have hkept : Kept cfg cr (fun _ => True) fun s => s.log.Verified cfg cr ∧ s.log.Holds m :=
    ⟨fun s s' hstep hs => ⟨hstep.log_verified hs.1, hstep.holds_mono hs.2⟩, fun s hs => hs.1⟩
  refine (react_peer hkept (fun h => absurd h ?_) (fun h => absurd hpasses h) (fun _ => trivial)
    fun _ w s₁ hs₁ => ?_).2
  · rw [hstop]
    exact Bool.false_ne_true
  · have hsame : s₁.log = s.log := by
      rcases hs₁ with rfl | rfl <;> rfl
    show (s₁.log.store m).Verified cfg cr ∧ (s₁.log.store m).Holds m
    rw [hsame]
    exact ⟨hverified.store m, Log.holds_store hkind hfree⟩

end Chained

/-! ### HotStuff -/

namespace HotStuff

/-- Another message of the view that has the signer among its signers. -/
structure Rival (m m' : MsgVoteComb) : Prop where
  ne : m' ≠ m
  view : m'.data.propv = m.data.propv
  signer : m.vote.signer ∈ m'.signs.entries.map Sign.signer

variable (cfg : HandlerConfig Key) (cr : Crypto Key)

/-- A reaction, in range, to an input that is not a rival of `m` which passes the checks. -/
def FairTo (ph : Phase1) (m : MsgVoteComb) (s s' : State) : Prop :=
  ∃ (fuel : ℕ) (input : Input), s.react cfg cr fuel input = some s' ∧ StaysInRange cfg cr s input ∧
    ∀ msg, input = .peer (voteMsg ph msg) → Rival m msg → ¬ Passes cfg cr s ph msg

/-- The reaction to the message is in range, and the message is in the log afterwards. -/
def State.Logs (s : State) (fuel : ℕ) (ph : Phase1) (m : MsgVoteComb) : Prop :=
  ∃ s' ∈ s.react cfg cr fuel (.peer (voteMsg ph m)), m ∈ (s'.log.votesOf ph).get m.data.propv

instance (s : State) (fuel : ℕ) (ph : Phase1) (m : MsgVoteComb) : Decidable (s.Logs cfg cr fuel ph m) :=
  inferInstanceAs (Decidable (∃ s' ∈ _, _))

/-- The message is logged, if it would be logged in an empty log. -/
def State.Admits (s : State) (fuel : ℕ) (ph : Phase1) (m : MsgVoteComb) : Prop :=
  { s with log := .init }.Logs cfg cr fuel ph m → s.Logs cfg cr fuel ph m

instance (s : State) (fuel : ℕ) (ph : Phase1) (m : MsgVoteComb) : Decidable (s.Admits cfg cr fuel ph m) :=
  inferInstanceAs (Decidable (_ → _))

variable {cfg cr} {s s' : State} {ph : Phase1} {m : MsgVoteComb}

theorem not_mem_init (ph : Phase1) (v : View) (m : MsgVoteComb) : m ∉ (Log.init.votesOf ph).get v := by
  have hnone : m ∉ (ViewLog.empty : VoteLog).get v := by simp
  cases ph <;> exact hnone

/-- A message of another replica is not the replica's own. -/
theorem not_own_of_signer {m' : MsgVoteComb} (hsigner : m.vote.signer ≠ cfg.myid)
    (h : m.vote.signer ∈ m'.signs.entries.map Sign.signer) : ¬ Own cfg m'.signs := by
  intro hown
  obtain ⟨t, ht, heq⟩ := List.mem_map.mp h
  exact hsigner (heq.symm.trans (hown t ht))

/-- No rival is in the log. -/
theorem free_of_fair (hq : cfg.qsize ≤ maxNumSignatures) (hsigner : m.vote.signer ≠ cfg.myid)
    (hrun : Relation.ReflTransGen (FairTo cfg cr ph m) .init s) :
    InRange cfg cr s ∧ ∀ m' ∈ (s.log.votesOf ph).get m.data.propv, ¬ Rival m m' := by
  induction hrun with
  | refl => exact ⟨inRange_init, fun m' hm' => absurd hm' (not_mem_init ph _ m')⟩
  | tail _ hstep ih =>
    obtain ⟨fuel, input, hreact, hrange, hfair⟩ := hstep
    have hkept : Kept cfg (fun ph' m' => ph' = ph → ¬ Rival m m')
        fun log => ∀ m' ∈ (log.votesOf ph).get m.data.propv, ¬ Rival m m' := by
      refine ⟨fun log log' hgrows hlog m' hm' => ?_, fun ph' m' hown _ hrival => ?_⟩
      · exact (hgrows.new ph _ m' hm').elim (hlog m') fun hnew => hnew rfl
      · exact not_own_of_signer hsigner hrival.signer hown
    constructor
    · obtain ⟨s'', hreact', hinRange⟩ := react_inRange hq ih.1 fuel hrange
      cases hreact.symm.trans hreact'
      exact hinRange
    · refine react_kept hkept (fun ph' msg hinput hpasses hph hrival => ?_) ih.2 hreact
      subst hph
      exact hfair msg hinput hrival hpasses

/-- A message that does not pass the checks is not logged. -/
theorem passes_of_mem {fuel : ℕ} (hone : m.signs.size = 1) (hsigner : m.vote.signer ≠ cfg.myid)
    (hs : m ∉ (s.log.votesOf ph).get m.data.propv)
    (hreact : s.react cfg cr fuel (.peer (voteMsg ph m)) = some s')
    (hm : m ∈ (s'.log.votesOf ph).get m.data.propv) : s.stopped = false ∧ Passes cfg cr s ph m := by
  have hnamed : m.vote.signer ∈ m.signs.entries.map Sign.signer := by
    rw [Signs.entries_of_size_one hone]
    exact List.mem_cons_self
  have hkept : Kept cfg (fun ph' m' => ph' = ph → m' ≠ m)
      fun log => m ∉ (log.votesOf ph).get m.data.propv := by
    refine ⟨fun log log' hgrows hlog hm => ?_, fun ph' m' hown _ heq => ?_⟩
    · exact (hgrows.new ph _ m hm).elim hlog fun hnew => hnew rfl rfl
    · exact not_own_of_signer hsigner (heq.symm ▸ hnamed) hown
  constructor
  · rw [← Bool.not_eq_true]
    intro hstop
    unfold State.react at hreact
    rw [if_pos hstop] at hreact
    cases hreact
    exact hs hm
  · by_contra hpasses
    exact react_peer hkept (fun _ => hs) (fun _ => hs) (fun h => absurd h hpasses) hreact hm

/-- A vote with one signature is read in range. -/
theorem staysInRange_vote (hone : m.signs.size = 1) : StaysInRange cfg cr s (.peer (voteMsg ph m)) := by
  have hfits : m.signs.InBounds := hone.trans_le maxNumSignatures_pos
  constructor
  · rintro - msg hmsg
    cases ph with
    | newview =>
      cases hmsg
      exact fun _ _ => hfits
    | prepare =>
      cases hmsg
      exact fun _ => hfits
    | precommit =>
      cases hmsg
      exact fun _ => hfits
    | commit =>
      cases hmsg
      exact ⟨fun _ _ _ => hfits, fun _ _ => hfits, fun _ _ => .of_inBounds hfits⟩
  · rintro - msg hmsg
    cases ph <;> cases hmsg

/-- **Unverified logs.**  A message comes in unless a rival has passed the checks. -/
theorem State.admits (hq : cfg.qsize ≤ maxNumSignatures) (hone : m.signs.size = 1)
    (hsigner : m.vote.signer ≠ cfg.myid) (hrun : Relation.ReflTransGen (FairTo cfg cr ph m) .init s)
    (fuel : ℕ) : s.Admits cfg cr fuel ph m := by
  rintro ⟨t, hempty, hm⟩
  rw [Option.mem_def] at hempty
  obtain ⟨hrange, hfree⟩ := free_of_fair hq hsigner hrun
  have hends := passes_of_mem hone hsigner (not_mem_init ph _ m) hempty hm
  have hstop : s.stopped = false := hends.1
  have hpasses : Passes cfg cr s ph m := by
    have h := hends.2
    cases ph <;> exact h
  obtain ⟨s', hreact, -⟩ := react_inRange hq hrange fuel (staysInRange_vote hone)
  refine ⟨s', hreact, ?_⟩
  have hkept : Kept cfg (fun _ _ => True) fun log => m ∈ (log.votesOf ph).get m.data.propv :=
    ⟨fun log log' hgrows hlog => hgrows.kept ph _ m hlog, fun _ _ _ => trivial⟩
  refine react_peer hkept (fun h => ?_) (fun h => absurd hpasses h) (fun _ n log hstore => ?_) hreact
  · exact absurd (hstop.symm.trans h) Bool.false_ne_true
  · obtain ⟨⟨n', hvotes⟩, -⟩ := votesOf_of_storeOf hstore
    refine mem_store hvotes hone fun m' hm' hnamed => ?_
    by_contra hne
    have hview := ViewLog.viewOf_of_mem_get hm'
    exact hfree m' hm' ⟨hne, hview, hnamed⟩

end HotStuff

/-! ### Forged messages -/

/-- **Forged messages.**  In the hybrid protocol a message is logged that would be logged if the log were empty, as
long as its signer has signed no rival.  In the chained protocol and in HotStuff it is as long as no rival, signed or
not, has passed the checks. -/
theorem admits_of_fair (cfg : HandlerConfig Key) :
    (∀ (s : HandlerState) (m : Msg), m.signer ≠ cfg.myid → Relation.ReflTransGen (FairTo cfg m) .init s →
      ∀ (o : Oracle Key) (fuel : ℕ), s.Admits cfg o fuel m) ∧
    (∀ (cr : Crypto Key) (s : Chained.State) (m : Chained.Msg), m.signer ≠ cfg.myid →
      Relation.ReflTransGen (Chained.FairTo cfg cr m) (.init cr.sha256) s →
      ∀ fuel : ℕ, s.Admits cfg cr fuel m) ∧
    (cfg.qsize ≤ maxNumSignatures → ∀ (cr : Crypto Key) (s : HotStuff.State) (ph : Phase1) (m : MsgVoteComb),
      m.signs.size = 1 → m.vote.signer ≠ cfg.myid →
      Relation.ReflTransGen (HotStuff.FairTo cfg cr ph m) .init s →
      ∀ fuel : ℕ, s.Admits cfg cr fuel ph m) := by
  refine ⟨fun s m hsigner hrun o fuel => ?_, fun cr s m hsigner hrun fuel => ?_,
    fun hq cr s ph m hone hsigner hrun fuel => ?_⟩
  · exact HandlerState.admits hsigner hrun fuel
  · exact Chained.State.admits hsigner hrun fuel
  · exact HotStuff.State.admits hq hone hsigner hrun fuel

section Forged

/-- The data of a new-view or a vote. -/
def namedData (v : View) (ph : Phase1) (justv : View) : RData := ⟨noHash, v, newHash, justv, ph.byte⟩

/-- Replica 3 has signed its new-views and votes of the first two views, with `justv` 0. -/
def thirdCrypto : Crypto Unit :=
  idealCrypto twoBlocksSha fun p =>
    if p = 3 then
      [.rdata (namedData 0 .newview 0), .rdata (namedData 0 .prepare 0), .rdata (namedData 1 .newview 0),
        .rdata (namedData 1 .prepare 0)]
    else []

def thirdOracle : Oracle Unit := ⟨twoBlocksSha, thirdCrypto.signBuf, fun _ => thirdCrypto.verifySign⟩

/-- A message that names replica `p`. -/
def namedVote (p : PID) (v : View) (ph : Phase1) (justv : View) : MsgVoteComb :=
  ⟨namedData v ph justv, .one (idealSign p)⟩

/-- The same in the chained protocol. -/
def namedMsg (p : PID) (v : View) (ph : Phase1) (justv : View) : Chained.Msg :=
  match ph with
  | .newview => .newview ⟨namedData v ph justv, idealSign p⟩
  | _ => .prepare ⟨namedData v ph justv, idealSign p⟩

/-- The leader of view 2 in the chained protocol, which collects the votes of view 1, after a message. -/
def chainedAfter (msg : Chained.Msg) : Chained.State :=
  (Chained.State.init thirdCrypto.sha256).react (noTEESystem.config 2) thirdCrypto 1 (.peer msg)

/-- An unsigned message that names replica 3 comes first in the hybrid protocol, and one that names replica 2 in the
two others; the vote of replica 3 is logged. -/
theorem admits_after_unsigned :
    (HandlerState.init.react (noTEESystem.config 0) thirdOracle 1
        (.peer (.newview ⟨namedData 0 .newview 7, idealSign 3⟩))).Admits (noTEESystem.config 0) thirdOracle 1
      (.newview ⟨namedData 0 .newview 0, idealSign 3⟩) ∧
    (chainedAfter (namedMsg 2 1 .prepare 7)).Admits (noTEESystem.config 2) thirdCrypto 1
      (namedMsg 3 1 .prepare 0) ∧
    ∃ s ∈ HotStuff.State.init.react (noTEESystem.config 0) thirdCrypto 1
        (.peer (HotStuff.voteMsg .prepare (namedVote 2 0 .prepare 7))),
      s.Admits (noTEESystem.config 0) thirdCrypto 1 .prepare (namedVote 3 0 .prepare 0) := by
  have hleader := admits_of_fair (noTEESystem.config 0)
  have hchained := (admits_of_fair (noTEESystem.config 2)).2.1
  refine ⟨hleader.1 _ _ (by decide) (.single ?_) _ _, hchained _ _ _ (by decide) (.single ?_) _, ?_⟩
  · refine ⟨thirdOracle, 1, _, rfl, ?_⟩
    rintro msg ⟨⟩ hrival ⟨-, nd, -, hverified⟩
    have hforged : thirdCrypto.verifySign (idealSign 3) () (.rdata (namedData 0 .newview 7)) = false := by
      decide +kernel
    exact absurd (hforged.symm.trans hverified) Bool.false_ne_true
  · refine ⟨1, _, rfl, ?_, ?_⟩
    · rintro msg ⟨⟩ hrival
      exact absurd hrival.signer (by decide)
    · rintro p ⟨⟩
  · obtain ⟨s, hs⟩ : ∃ s, HotStuff.State.init.react (noTEESystem.config 0) thirdCrypto 1
        (.peer (HotStuff.voteMsg .prepare (namedVote 2 0 .prepare 7))) = some s :=
      Option.isSome_iff_exists.mp (by decide +kernel)
    refine ⟨s, hs, hleader.2.2 (by decide) _ _ _ _ rfl (by decide) (.single ?_) _⟩
    refine ⟨1, _, hs, HotStuff.staysInRange_vote rfl, ?_⟩
    rintro msg ⟨⟩ hrival
    exact absurd hrival.signer (by decide)

/-- **A forged message keeps the genuine one out.**  Replica 3 has signed its new-view and its vote, and not the ones
with another `justv` that come first: at leader 0 of HotStuff, and at leader 2 of the chained protocol. -/
theorem not_admits_forged :
    (∀ v ∈ [0, 1], ∀ ph ∈ [Phase1.newview, .prepare],
      thirdCrypto.verifySign (idealSign 3) () (.rdata (namedData v ph 0)) = true ∧
        thirdCrypto.verifySign (idealSign 3) () (.rdata (namedData v ph 7)) = false) ∧
    (∀ ph ∈ [Phase1.newview, .prepare],
      ∃ s ∈ HotStuff.State.init.react (noTEESystem.config 0) thirdCrypto 1
          (.peer (HotStuff.voteMsg ph (namedVote 3 0 ph 7))),
        ¬ s.Admits (noTEESystem.config 0) thirdCrypto 1 ph (namedVote 3 0 ph 0)) ∧
    ∀ ph ∈ [Phase1.newview, .prepare],
      ¬ (chainedAfter (namedMsg 3 1 ph 7)).Admits (noTEESystem.config 2) thirdCrypto 1 (namedMsg 3 1 ph 0) := by
  refine ⟨?_, ?_, ?_⟩
  · decide +kernel
  · decide +kernel
  · decide +kernel

end Forged

end Raftel
