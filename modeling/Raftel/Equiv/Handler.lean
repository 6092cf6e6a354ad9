import Raftel.Equiv.Triples

/-!
# What a handler can do

`Atom` lists the changes that matter to the protocol: a call of the trusted component, the call of
`TEEprepare` with the block that is stored when it accepts, and the execution of a block with the
certificate behind it.  Everything else in a step of a handler is a `frame` step.

* `react_keeps` : what every atom keeps, every handler keeps, on every input
-/

namespace Raftel

variable {Key : Type}

/-! ### Certificates that a handler verifies -/

/-- The environment in which a handler verifies certificates. -/
def HandlerConfig.env (cfg : HandlerConfig Key) (cr : Crypto Key) : CheckEnv :=
  TrustedVars.env ⟨cfg.myid, cfg.priv, cfg.qsize, cfg.tqsize, cfg.nodes⟩ cr

theorem HandlerConfig.isTEE_eq_true {cfg : HandlerConfig Key} {cr : Crypto Key} {id : PID} :
    cfg.isTEE id = true ↔ (cfg.env cr).isTEE id = some true := any_isTEE_iff

theorem certified_of_verifyCombSigns {cfg : HandlerConfig Key} {cr : Crypto Key} {data : RData}
    {signs : Signs} {size : ℕ} {teeOnly : Bool}
    (h : verifyCombSigns cfg cr data signs size teeOnly = true)
    (hkind : (teeOnly = true ∧ size = cfg.tqsize) ∨ size = cfg.qsize) :
    Certified (cfg.env cr) data signs := by
  unfold verifyCombSigns at h
  split at h
  · exact absurd h (by simp)
  next hsize =>
  cases hr : hostSignersFrom cfg.nodes signs.entries [] true with
  | none => simp [hr] at h
  | some allTEE =>
    obtain ⟨hnodup, -, hset, hall⟩ := hostSignersFrom_eq_some.mp hr
    simp only [hr, Bool.and_eq_true, Bool.not_eq_true', Bool.if_false_left] at h
    obtain ⟨htee, hver⟩ := h
    refine ⟨by omega, by omega, hnodup, ?_, Signs.verify_eq_true.mp hver, ?_⟩
    · simpa [HandlerConfig.env, TrustedVars.env] using hset
    · have hsz : signs.size = size := by omega
      rcases hkind with ⟨hteeOnly, htq⟩ | hq
      · refine Or.inl ⟨hsz.trans htq, fun s hs => ?_⟩
        have hallTEE : allTEE = true := by simpa [hteeOnly] using htee
        rw [hall, Bool.true_and, List.all_eq_true] at hallTEE
        exact any_isTEE_iff.mp (hallTEE s hs)
      · exact Or.inr (hsz.trans hq)

/-- `verifyCombQC` accepts quorum certificates of the expected phase only. -/
theorem certified_of_verifyCombQC {cfg : HandlerConfig Key} {cr : Crypto Key} {data : RData}
    {signs : Signs} {ph : Phase1} (h : verifyCombQC cfg cr data signs ph = true) :
    Certified (cfg.env cr) data signs ∧ data.phase = ph.byte := by
  simp only [verifyCombQC, Bool.and_eq_true, Bool.or_eq_true, decide_eq_true_eq] at h
  obtain ⟨hphase, ⟨-, hsigns⟩ | ⟨-, hsigns⟩⟩ := h
  · exact ⟨certified_of_verifyCombSigns hsigns (Or.inl ⟨rfl, rfl⟩), hphase⟩
  · exact ⟨certified_of_verifyCombSigns hsigns (Or.inr rfl), hphase⟩

/-! ### Atoms -/

variable (cfg : HandlerConfig Key) (o : Oracle Key)

/-- What lets a replica execute `data`: it is for the current view, and there is a certificate of
phase `prepare` and the leader is a TEE node, or one of phase `commit`. -/
def Executable (data : RData) (s : HandlerState) : Prop :=
  data.propv = s.view ∧
    ∃ signs, Certified (cfg.env (o.crypto s.calls)) data signs ∧
      ((data.phase = Phase1.prepare.byte ∧
          cfg.isTEE (cfg.leaderOf s.skippedLeaders s.view).1 = true) ∨
        data.phase = Phase1.commit.byte)

/-- The atomic changes of a replica. -/
inductive Atom : HandlerState → HandlerState → Prop
  | call {s : HandlerState} {c : Call} (hc : ∀ block acc nvs, c ≠ .prepare block acc nvs) :
      Atom s (s.called cfg o c).2
  | prepare {s : HandlerState} {block : Block} {acc : Accum} {nvs : NewViews}
      (hview : ((s.called cfg o (.prepare block acc nvs)).1.toJust.set = true) →
        s.tc.view = s.view) :
      Atom s (s.preparedWith cfg o block acc nvs)
  | execute {s : HandlerState} {data : RData} {block : Block} (hexec : Executable cfg o data s)
      (hblock : s.blocks.lookup data.propv = some block)
      (hhash : (block.hash o.sha256).hash = data.proph.hash) :
      Atom s (s.committed cfg o data block)
  | frame {s s' : HandlerState} (tc : s'.tc = s.tc) (calls : s'.calls = s.calls)
      (blocks : s'.blocks = s.blocks) (executed : s'.executed = s.executed) : Atom s s'

/-! ### Steps are made of atoms -/

section Keeps

variable {cfg o} {I : HandlerState → Prop} (hI : ∀ s s', Atom cfg o s s' → I s → I s')
include hI

theorem keeps_signedTimes {s : HandlerState} (hs : I s) (k : ℕ) : I (s.signedTimes cfg o k) := by
  induction k with
  | zero => exact hs
  | succ k ih => exact hI _ _ (.call (by simp)) ih

/-- Entering a view is signing and a frame step. -/
theorem keeps_enterView {s s' : HandlerState} {fuel : ℕ} {just : Just}
    (h : enterView cfg o fuel s = .ok just s') (hs : I s) : I s' := by
  obtain ⟨n, rfl, -⟩ := enterView_ok h
  exact hI (s.signedTimes cfg o (n + 1)) _ (.frame rfl rfl rfl rfl) (keeps_signedTimes hI hs (n + 1))

theorem keeps_enterView_error {s s' : HandlerState} {fuel : ℕ} {e : HandlerError}
    (h : enterView cfg o fuel s = .error e s') (hs : I s) : I { s' with stopped := true } := by
  obtain ⟨n, rfl⟩ := enterView_error h
  exact hI (s.signedTimes cfg o n) _ (.frame rfl rfl rfl rfl) (keeps_signedTimes hI hs n)

omit hI in
theorem AcceptedQC.executable {received : Msg → Prop} {data : RData} {s : HandlerState}
    (h : AcceptedQC cfg o received data s) : Executable cfg o data s := by
  obtain ⟨hview, signs, ⟨hqc, htee, -⟩ | ⟨hqc, -⟩⟩ := h
  · obtain ⟨hcert, hphase⟩ := certified_of_verifyCombQC hqc
    exact ⟨hview, signs, hcert, Or.inl ⟨hphase, htee⟩⟩
  · obtain ⟨hcert, hphase⟩ := certified_of_verifyCombQC hqc
    exact ⟨hview, signs, hcert, Or.inr hphase⟩

/-- What every atom keeps, every step keeps. -/
theorem keeps_step {misled : Prop} {received : Msg → Prop} {s s' : HandlerState}
    (h : Step cfg o misled received s s') (hs : I s) : I s' := by
  cases h with
  | quiet h => exact hI _ _ (.frame h.tc h.calls h.blocks h.executed) hs
  | accum hc =>
    refine hI _ _ (.call fun block acc nvs h => ?_) hs
    rw [h] at hc
    exact absurd hc Bool.false_ne_true
  | store hview => exact hI _ _ (.call (by simp)) hs
  | prepare hview => exact hI _ _ (.prepare hview) hs
  | @propose block acc nvs hview hnew =>
    have hprep := hI _ _ (.prepare hview) hs
    unfold HandlerState.preparedWith at hprep
    unfold HandlerState.proposedWith
    dsimp only at hprep ⊢
    -- the mark of the view is no part of an atom
    split
    · next hset =>
      rw [if_pos hset] at hprep
      refine hI _ _ ?_ hprep
      exact .frame rfl rfl rfl rfl
    · next hset =>
      rw [if_neg hset] at hprep
      exact hprep
  | execute hqc hnew hblock hhash =>
    exact hI _ _ (.execute hqc.executable hblock (eqHashes_eq_true.mp hhash)) hs
  | enter hidle hdone henter => exact keeps_enterView hI henter hs
  | hang hdone henter => exact keeps_enterView_error hI henter hs
  | lookup => exact hI s _ (.frame rfl rfl rfl rfl) hs
  | lead => exact hI s _ (.frame rfl rfl rfl rfl) hs
  | phase => exact hI s _ (.frame rfl rfl rfl rfl) hs
  | newview => exact hI s _ (.frame rfl rfl rfl rfl) hs
  | vote => exact hI s _ (.frame rfl rfl rfl rfl) hs
  | stop => exact hI s _ (.frame rfl rfl rfl rfl) hs

/-- **Handlers are made of atoms.**  What every atom keeps, a replica keeps on every input. -/
theorem react_keeps {s : HandlerState} (fuel : ℕ) (input : Input) (hs : I s) :
    I (s.react cfg o fuel input) := by
  have hkept : Kept cfg o True I := ⟨fun _ _ h => keeps_step hI h, Or.inl trivial⟩
  have hskip : I (s.skipLeader cfg) := by
    unfold HandlerState.skipLeader
    split
    · exact hs
    · exact hI s _ (.frame rfl rfl rfl rfl) hs
  refine react_kept hkept fuel input (fun s₁ hbegin => ?_) fun _ _ _ => trivial
  cases hbegin with
  | other => exact hs
  | stopped => exact hs
  | @start cid hrun hstart =>
    have hgreeted : I (s.greeted cfg cid) := hI s _ (.frame rfl rfl rfl rfl) hs
    exact hI _ _ (.call (by simp)) hgreeted
  | timeout hrun htimer henter => exact keeps_enterView hI henter hskip
  | hang hrun htimer henter => exact keeps_enterView_error hI henter hskip

end Keeps

end Raftel
