import Raftel.Component
import Raftel.Enclave.Families

/-!
# Equivocation over the whole interface of the enclave

Each of the six components of an enclave has a (view, phase) counter that only moves forward, so a
component alone never signs two different data for one view and phase.  The six counters run
independently while the signed data does not say which component signed it.

* `ecall_counter` : what a call does to the six counters
* `noEquivocation_of_keepApart` : no equivocation along every run in which no counter wraps and no
  component signs at a (view, phase) that another one uses
* `not_noEquivocation_comb_chcomb` : without that, two components equivocate
-/

namespace Raftel

/-- A call to the enclave, with the states before and after it. -/
structure EcallRecord where
  pre : EnclaveState
  call : Ecall
  reply : Reply
  post : EnclaveState

/-- The data that this call made the enclave sign. -/
def EcallRecord.rdata? (r : EcallRecord) : Option RData := r.reply.rdata?

/-- The runs of an enclave: any public ecalls, in any order, from the initial state. -/
def EcallRun {Key : Type} (cr : Crypto Key) (vars : EnclaveVars Key) (l : List EcallRecord)
    (st : EnclaveState) : Prop :=
  Lib.Trace EcallRecord.pre EcallRecord.post
    (fun r => ecall cr vars r.pre r.call = (r.reply, r.post)) (EnclaveState.init cr.sha256) l st

/-- No two different data with the same view and phase are signed. -/
def NoEquivocation (l : List EcallRecord) : Prop :=
  ∀ r ∈ l, ∀ r' ∈ l, ∀ rd rd', r.rdata? = some rd → r'.rdata? = some rd' →
    rd.propv = rd'.propv → rd.phase = rd'.phase → rd = rd'

/-! ### Counters -/

/-- The (view, phase) pair of a component. -/
abbrev Counter := View × Phase1

def CombState.counter (st : CombState) : Counter := (st.view, st.phase)

def PrepState.counter (st : PrepState) : Counter := (st.view, st.phase)

def EnclaveState.counter (st : EnclaveState) : Family → Counter
  | .plain => st.plain.counter
  | .comb => st.comb.counter
  | .damysus => st.damysus.counter
  | .ch => st.ch.counter
  | .chcomb => st.chcomb.counter
  | .achilles => st.achilles.counter

/-- One tick of a counter. -/
def Family.next : Family → Counter → Counter
  | .plain, (v, .newview) | .comb, (v, .newview) | .damysus, (v, .newview) => (v, .prepare)
  | .plain, (v, .prepare) | .comb, (v, .prepare) | .damysus, (v, .prepare) => (v, .precommit)
  | .plain, (v, .precommit) | .comb, (v, .precommit) => (v, .commit)
  | .plain, (v, .commit) | .comb, (v, .commit) => (nextView v, .newview)
  | .damysus, (v, .precommit) => (nextView v, .newview)
  | .damysus, (v, .commit) => (v, .commit)
  | _, (v, .prepare) => (v, .newview)
  | _, (v, .newview) => (nextView v, .prepare)
  | _, c => c

/-- The phases that a component goes through. -/
def Family.Uses : Family → Phase1 → Prop
  | .plain, _ | .comb, _ => True
  | .damysus, p => p ≠ .commit
  | _, p => p = .newview ∨ p = .prepare

/-- The position of a (view, phase) pair in the order in which a component goes through them. -/
def Family.rank : Family → Counter → ℕ
  | .plain, (v, p) | .comb, (v, p) => 4 * v + p.index
  | .damysus, (v, p) => 3 * v + p.index
  | _, (v, .prepare) => 2 * v
  | _, (v, _) => 2 * v + 1

theorem Family.uses_next {F : Family} {c : Counter} (h : F.Uses c.2) : F.Uses (F.next c).2 := by
  obtain ⟨v, p⟩ := c
  cases F <;> cases p <;> simp_all [Uses, next]

/-- A tick that does not wrap the view raises the rank by one. -/
theorem Family.rank_next {F : Family} {c : Counter} (h : F.Uses c.2) (hwrap : c.1 + 1 < 2 ^ 32) :
    F.rank (F.next c) = F.rank c + 1 := by
  obtain ⟨v, p⟩ := c
  have hnext : nextView v = v + 1 := Nat.mod_eq_of_lt hwrap
  cases F <;> cases p <;>
    first
    | simp only [next, rank, hnext, Phase1.index] <;> omega
    | simp [Uses] at h

/-! ### What a call does to the counters -/

/-- The two ways a component's function ends: it signs data for the view and phase of its counter,
which ticks; or it signs nothing and the counter stays. -/
def Ticks {S : Type} (F : Family) (counter : S → Counter) (st : S) (out : Just × S) : Prop :=
  (out.1.set = true ∧ out.1.rdata.propv = (counter st).1 ∧
      out.1.rdata.phase = (counter st).2.byte ∧ counter out.2 = F.next (counter st)) ∨
    (out.1.set = false ∧ counter out.2 = counter st)

section Ticks

variable {Key : Type} {cr : Crypto Key} {vars : EnclaveVars Key}

theorem CombState.counter_increment (st : CombState) :
    st.increment.counter = Family.next .plain st.counter ∧
      st.increment.counter = Family.next .comb st.counter := by
  unfold CombState.increment CombState.counter
  split <;> rename_i h <;> rw [h] <;> exact ⟨rfl, rfl⟩

theorem CombState.counter_chIncrement (st : CombState) :
    st.chIncrement.counter = Family.next .ch st.counter := by
  unfold CombState.chIncrement CombState.counter
  cases h : st.phase <;> simp [h, Family.next]

theorem PrepState.counter_damysusIncrement (st : PrepState) :
    st.damysusIncrement.counter = Family.next .damysus st.counter := by
  unfold PrepState.damysusIncrement PrepState.counter
  cases h : st.phase <;> simp [h, Family.next]

theorem PrepState.counter_chIncrement (st : PrepState) :
    st.chIncrement.counter = Family.next .chcomb st.counter ∧
      st.chIncrement.counter = Family.next .achilles st.counter := by
  unfold PrepState.chIncrement PrepState.counter
  cases h : st.phase <;> simp [h, Family.next]

/-- A signing step from a state with the same counter as `st`. -/
theorem Ticks.of_sign {S : Type} {F : Family} {counter : S → Counter} {st st' st'' : S}
    {h₁ h₂ : Hash} {v₂ : View} (hc : counter st' = counter st)
    (hnext : counter st'' = F.next (counter st')) :
    Ticks F counter st (signJust cr vars (counter st').1 (counter st').2 h₁ h₂ v₂, st'') := by
  rw [hc] at hnext ⊢
  exact Or.inl ⟨rfl, rfl, rfl, hnext⟩

theorem Ticks.refused {S : Type} {F : Family} {counter : S → Counter} {st st' : S}
    (hc : counter st' = counter st) : Ticks F counter st (Just.none, st') :=
  Or.inr ⟨rfl, hc⟩

theorem plainSign_ticks {h₁ h₂ : Hash} {v₂ : View} {st st' : CombState}
    (hc : st'.counter = st.counter) :
    Ticks .plain CombState.counter st (plainSign cr vars h₁ h₂ v₂ st') :=
  .of_sign hc st'.counter_increment.1

theorem damysusSign_ticks {h₁ h₂ : Hash} {v₂ : View} {st st' : PrepState}
    (hc : st'.counter = st.counter) :
    Ticks .damysus PrepState.counter st (damysusSign cr vars h₁ h₂ v₂ st') :=
  .of_sign hc st'.counter_damysusIncrement

theorem chSign_ticks {h₁ h₂ : Hash} {v₂ : View} {st st' : CombState}
    (hc : st'.counter = st.counter) :
    Ticks .ch CombState.counter st (chSign cr vars h₁ h₂ v₂ st') :=
  .of_sign hc st'.counter_chIncrement

theorem chCombSign_ticks {F : Family} (hF : F = .chcomb ∨ F = .achilles) {h₁ h₂ : Hash}
    {v₂ : View} {st st' : PrepState} (hc : st'.counter = st.counter) :
    Ticks F PrepState.counter st (chCombSign cr vars h₁ h₂ v₂ st') := by
  refine .of_sign hc ?_
  rcases hF with rfl | rfl
  · exact st'.counter_chIncrement.1
  · exact st'.counter_chIncrement.2

theorem plainTEEprepare_ticks (hash : Hash) (just : Just) (st : CombState) :
    Ticks .plain CombState.counter st (plainTEEprepare cr vars hash just st) := by
  unfold plainTEEprepare
  dsimp only
  split
  · exact plainSign_ticks rfl
  · exact .refused rfl

theorem plainTEEstore_ticks (just : Just) (st : CombState) :
    Ticks .plain CombState.counter st (plainTEEstore cr vars just st) := by
  unfold plainTEEstore
  dsimp only
  split
  · exact plainSign_ticks rfl
  · exact .refused rfl

theorem damysusTEEprepare_ticks (hash : Hash) (acc : Accum) (st : PrepState) :
    Ticks .damysus PrepState.counter st (damysusTEEprepare cr vars hash acc st) := by
  unfold damysusTEEprepare
  split
  · exact damysusSign_ticks rfl
  · exact .refused rfl

theorem damysusTEEstore_ticks (just : Just) (st : PrepState) :
    Ticks .damysus PrepState.counter st (damysusTEEstore cr vars just st) := by
  unfold damysusTEEstore
  dsimp only
  split
  · exact damysusSign_ticks rfl
  · exact .refused rfl

theorem CombState.counter_chAdvanced (st : CombState) (sha : Text → Digest) (just just0 : Just)
    (block0 block1 : JBlock) :
    (st.chAdvanced sha just just0 block0 block1).counter = st.counter := by
  unfold CombState.chAdvanced
  dsimp only
  split
  · split <;> rfl
  · rfl

theorem chTEEprepare_ticks (block block0 block1 : JBlock) (st : CombState) :
    Ticks .ch CombState.counter st (chTEEprepare cr vars block block0 block1 st) := by
  unfold chTEEprepare
  dsimp only
  split
  · have hc := st.counter_chAdvanced cr.sha256 block.just block0.just block0 block1
    split
    · exact chSign_ticks hc
    · exact .refused hc
  · exact .refused rfl

theorem chCombTEEprepare_ticks {F : Family} (hF : F = .chcomb ∨ F = .achilles) (block : CBlock)
    (hash : Hash) (st : PrepState) :
    Ticks F PrepState.counter st (chCombTEEprepare cr vars block hash st) := by
  unfold chCombTEEprepare
  dsimp only
  split
  · refine chCombSign_ticks hF ?_
    split <;> rfl
  · exact .refused rfl

/-- What a call does to the counter of its own component, in terms of the reply. -/
def TicksReply (F : Family) (c c' : Counter) (reply : Reply) : Prop :=
  (∃ rd, reply.rdata? = some rd ∧ rd.propv = c.1 ∧ rd.phase = c.2.byte ∧ c' = F.next c) ∨
    (reply.rdata? = none ∧ c' = c)

theorem Ticks.reply {S : Type} {F : Family} {counter : S → Counter} {st : S} {out : Just × S}
    (h : Ticks F counter st out) :
    TicksReply F (counter st) (counter out.2) (.just out.1) := by
  rcases h with ⟨hset, hv, hp, hnext⟩ | ⟨hset, hsame⟩
  · exact Or.inl ⟨out.1.rdata, by simp [Reply.rdata?, hset], hv, hp, hnext⟩
  · exact Or.inr ⟨by simp [Reply.rdata?, hset], hsame⟩

theorem enclaveCall_ticks (st : CombState) (c : Call) :
    TicksReply .comb st.counter (enclaveCall cr vars st c).2.counter
      (enclaveCall cr vars st c).1 := by
  have hout : Outcome (vars.env cr) st c (enclaveCall cr vars st c).1 (enclaveCall cr vars st c).2 :=
    enclaveCall_outcome st c
  cases hout with
  | accepted j hreply set acc =>
    obtain ⟨hv, hp, hview, hphase⟩ := acc.counter
    refine Or.inl ⟨j.rdata, by simp [hreply, Reply.rdata?, set], hv, hp, ?_⟩
    rw [← st.counter_increment.2]
    exact Prod.ext hview hphase
  | refused j hreply set same => exact Or.inr ⟨by simp [hreply, Reply.rdata?, set], by rw [same]⟩
  | accum a hreply same => exact Or.inr ⟨by simp [hreply, Reply.rdata?], by rw [same]⟩

theorem chCombCall_ticks {F : Family} (hF : F = .chcomb ∨ F = .achilles) (st : PrepState)
    (c : ChCombCall) :
    TicksReply F st.counter (chCombCall cr vars st c).2.counter (chCombCall cr vars st c).1 := by
  cases c with
  | sign => exact (chCombSign_ticks hF rfl).reply
  | prepare block hash => exact (chCombTEEprepare_ticks hF block hash st).reply
  | accum js => exact Or.inr ⟨rfl, rfl⟩
  | accumSp just => exact Or.inr ⟨rfl, rfl⟩

/-- **What an ecall does.**  It ticks the counter of its own component when it signs, and leaves the
other five alone. -/
theorem ecall_counter (st : EnclaveState) (c : Ecall) :
    TicksReply c.family (st.counter c.family) ((ecall cr vars st c).2.counter c.family)
        (ecall cr vars st c).1 ∧
      ∀ G, G ≠ c.family → (ecall cr vars st c).2.counter G = st.counter G := by
  constructor
  · cases c with
    | plainTEEsign => exact (plainSign_ticks rfl).reply
    | plainTEEprepare hash just => exact (plainTEEprepare_ticks hash just st.plain).reply
    | plainTEEstore just => exact (plainTEEstore_ticks just st.plain).reply
    | comb c => exact enclaveCall_ticks st.comb c
    | damysusTEEsign => exact (damysusSign_ticks rfl).reply
    | damysusTEEprepare hash acc => exact (damysusTEEprepare_ticks hash acc st.damysus).reply
    | damysusTEEstore just => exact (damysusTEEstore_ticks just st.damysus).reply
    | damysusTEEaccum js => exact Or.inr ⟨rfl, rfl⟩
    | damysusTEEaccumSp just => exact Or.inr ⟨rfl, rfl⟩
    | chTEEsign => exact (chSign_ticks rfl).reply
    | chTEEprepare block block0 block1 => exact (chTEEprepare_ticks block block0 block1 st.ch).reply
    | chcomb c => exact chCombCall_ticks (Or.inl rfl) st.chcomb c
    | achilles c => exact chCombCall_ticks (Or.inr rfl) st.achilles c
  · intro G hG
    cases c <;> cases G <;> first | rfl | exact absurd rfl hG

end Ticks

/-! ### Runs -/

/-- The counter of the call's own component, before the call. -/
def EcallRecord.counter (r : EcallRecord) : Counter := r.pre.counter r.call.family

/-- Two accepted calls of different components are not made with their counters at the same
(view, phase). -/
def EcallRecord.Apart (r r' : EcallRecord) : Prop :=
  r.rdata?.isSome → r'.rdata?.isSome → r.call.family ≠ r'.call.family → r.counter ≠ r'.counter

instance : DecidableRel EcallRecord.Apart := fun _ _ => inferInstanceAs (Decidable (_ → _))

instance : Std.Symm EcallRecord.Apart where
  symm _ _ h hs' hs hF hc := h hs hs' hF.symm hc.symm

/-- The accepted calls keep apart from each other, and none wraps its view counter. -/
def KeepApart (l : List EcallRecord) : Prop :=
  (∀ r ∈ l, r.rdata?.isSome → r.counter.1 + 1 < 2 ^ 32) ∧ l.Pairwise EcallRecord.Apart

instance (l : List EcallRecord) : Decidable (KeepApart l) := inferInstanceAs (Decidable (_ ∧ _))

section Run

variable {Key : Type} {cr : Crypto Key} {vars : EnclaveVars Key} {l : List EcallRecord}
  {st : EnclaveState}

theorem EcallRun.ticks (hrun : EcallRun cr vars l st) {r : EcallRecord} (hr : r ∈ l) :
    TicksReply r.call.family r.counter (r.post.counter r.call.family) r.reply ∧
      ∀ G, G ≠ r.call.family → r.post.counter G = r.pre.counter G := by
  have h := @ecall_counter Key cr vars r.pre r.call
  rw [Lib.Trace.ok_of_mem hrun hr] at h
  exact h

/-- The signed data shows the counter of the component that signed it. -/
theorem EcallRun.signed (hrun : EcallRun cr vars l st) {r : EcallRecord} (hr : r ∈ l) {rd : RData}
    (hrd : r.rdata? = some rd) :
    rd.propv = r.counter.1 ∧ rd.phase = r.counter.2.byte ∧
      r.post.counter r.call.family = r.call.family.next r.counter := by
  rcases (hrun.ticks hr).1 with ⟨rd', hrd', hv, hp, hnext⟩ | ⟨hnone, -⟩
  · obtain rfl : rd' = rd := Option.some.inj (hrd'.symm.trans hrd)
    exact ⟨hv, hp, hnext⟩
  · exact absurd (hnone.symm.trans hrd) (by simp)

/-- Every counter stays within the phases of its component. -/
theorem EcallRun.uses (hrun : EcallRun cr vars l st) (F : Family) {r : EcallRecord} (hr : r ∈ l) :
    F.Uses (r.pre.counter F).2 := by
  refine ((Lib.Trace.invariant hrun (I := fun s => F.Uses (s.counter F).2) ?_ ?_).2 r hr).1
  · cases F <;> simp [Family.Uses, EnclaveState.init, EnclaveState.counter, CombState.counter,
      PrepState.counter, CombState.init]
  · intro r hr _ huses
    obtain ⟨hown, hother⟩ := hrun.ticks hr
    by_cases hF : F = r.call.family
    · subst hF
      rcases hown with ⟨rd, -, -, -, hnext⟩ | ⟨-, hsame⟩
      · rw [hnext]
        exact Family.uses_next huses
      · rw [hsame]
        exact huses
    · rw [hother F hF]
      exact huses

/-- A call never lowers the rank of a counter, if it does not wrap it. -/
theorem EcallRun.rank_le (hrun : EcallRun cr vars l st)
    (hwrap : ∀ r ∈ l, r.rdata?.isSome → r.counter.1 + 1 < 2 ^ 32) (F : Family) :
    ∀ r ∈ l, F.rank (r.pre.counter F) ≤ F.rank (r.post.counter F) := by
  intro r hr
  obtain ⟨hown, hother⟩ := hrun.ticks hr
  by_cases hF : F = r.call.family
  · subst hF
    rcases hown with ⟨rd, hrd, -, -, hnext⟩ | ⟨-, hsame⟩
    · have hstep := Family.rank_next (hrun.uses r.call.family hr)
        (hwrap r hr (Option.isSome_iff_exists.mpr ⟨rd, hrd⟩))
      rw [hnext, EcallRecord.counter, hstep]
      omega
    · rw [hsame, EcallRecord.counter]
  · rw [hother F hF]

/-- One component never signs twice at one (view, phase). -/
theorem EcallRun.eq_of_counter_eq (hrun : EcallRun cr vars l st)
    (hwrap : ∀ r ∈ l, r.rdata?.isSome → r.counter.1 + 1 < 2 ^ 32) {r r' : EcallRecord}
    (hr : r ∈ l) (hr' : r' ∈ l) (hs : r.rdata?.isSome) (hs' : r'.rdata?.isSome)
    (hF : r'.call.family = r.call.family) (hc : r'.counter = r.counter) : r = r' := by
  have hrank : ∀ {r : EcallRecord}, r ∈ l → r.rdata?.isSome →
      r.call.family.rank r.counter < r.call.family.rank (r.post.counter r.call.family) := by
    intro r hr hs
    obtain ⟨rd, hrd⟩ := Option.isSome_iff_exists.mp hs
    have hstep := Family.rank_next (c := r.counter) (hrun.uses r.call.family hr) (hwrap r hr hs)
    rw [(hrun.signed hr hrd).2.2, hstep]
    exact Nat.lt_succ_self _
  refine Lib.Trace.eq_of_rank_eq (fun s => r.call.family.rank (s.counter r.call.family)) hrun
    (hrun.rank_le hwrap r.call.family) hr hr' (hrank hr hs) ?_ ?_
  · rw [← hF]
    exact hrank hr' hs'
  · rw [← hF]
    exact congrArg _ (by rw [← EcallRecord.counter, hc, EcallRecord.counter, hF])

end Run

/-- **No equivocation.**  Along every sequence of public ecalls with arbitrary arguments whose
accepted calls keep apart, the enclave never signs two different data with the same view and
phase. -/
theorem noEquivocation_of_keepApart {Key : Type} (cr : Crypto Key) (vars : EnclaveVars Key)
    (l : List EcallRecord) (st : EnclaveState) (hrun : EcallRun cr vars l st)
    (hapart : KeepApart l) : NoEquivocation l := by
  obtain ⟨hwrap, hpair⟩ := hapart
  intro r hr r' hr' rd rd' hrd hrd' hv hp
  have hs : r.rdata?.isSome := Option.isSome_iff_exists.mpr ⟨rd, hrd⟩
  have hs' : r'.rdata?.isSome := Option.isSome_iff_exists.mpr ⟨rd', hrd'⟩
  obtain ⟨hv₁, hp₁, -⟩ := hrun.signed hr hrd
  obtain ⟨hv₂, hp₂, -⟩ := hrun.signed hr' hrd'
  have hc : r'.counter = r.counter := by
    refine Prod.ext ?_ (Phase1.byte_injective ?_)
    · rw [← hv₁, ← hv₂, hv]
    · rw [← hp₁, ← hp₂, hp]
  have heq : r = r' := by
    by_contra hne
    -- calls of different components keep apart, calls of one component have different counters
    have hF : r'.call.family = r.call.family := by
      by_contra hF
      exact hpair.forall hr hr' hne hs hs' (Ne.symm hF) hc.symm
    exact hne (hrun.eq_of_counter_eq hwrap hr hr' hs hs' hF hc)
  subst heq
  exact Option.some.inj (hrd.symm.trans hrd')

/-! ### Two components on one view -/

section CombChComb

/-- SHA-256 of the text of the genesis block of the chained protocols. -/
def genBlockDigest : Digest :=
  #v[108, 95, 32, 26, 97, 203, 34, 204, 118, 148, 100, 22, 193, 133, 236, 125, 241, 176, 207, 106, 56,
    46, 209, 11, 133, 214, 153, 188, 251, 136, 1, 47]

def combChCombCrypto : Crypto Unit :=
  idealCrypto (fun t => if t = cblock2string genBlock then genBlockDigest
    else Vector.replicate _ 255) fun _ => []

def combChCombVars : EnclaveVars Unit :=
  initializeVariables () () 0 [0, 1, 2, 3] 3 3 [⟨0, true⟩, ⟨1, true⟩, ⟨2, true⟩, ⟨3, true⟩]

/-- The records of a sequence of ecalls. -/
def ecallRecords {Key : Type} (cr : Crypto Key) (vars : EnclaveVars Key) :
    EnclaveState → List Ecall → List EcallRecord
  | _, [] => []
  | st, c :: cs =>
    let out := ecall cr vars st c
    ⟨st, c, out.1, out.2⟩ :: ecallRecords cr vars out.2 cs

theorem ecallRun_append {Key : Type} {cr : Crypto Key} {vars : EnclaveVars Key}
    {l : List EcallRecord} {st : EnclaveState} (h : EcallRun cr vars l st) (cs : List Ecall) :
    ∃ st', EcallRun cr vars (l ++ ecallRecords cr vars st cs) st' := by
  induction cs generalizing l st with
  | nil => exact ⟨st, by simpa [ecallRecords] using h⟩
  | cons c cs ih =>
    have hsnoc : EcallRun cr vars
        (l ++ [⟨st, c, (ecall cr vars st c).1, (ecall cr vars st c).2⟩])
        (ecall cr vars st c).2 := Lib.Trace.snoc h rfl rfl
    obtain ⟨st', hst'⟩ := ih hsnoc
    exact ⟨st', by simpa [ecallRecords] using hst'⟩

/-- `COMB_TEEsign` once, then `CH_COMB_TEEsign` three times. -/
def combChCombRecords : List EcallRecord :=
  ecallRecords combChCombCrypto combChCombVars (EnclaveState.init combChCombCrypto.sha256)
    [.comb .sign, .chcomb .sign, .chcomb .sign, .chcomb .sign]

theorem combChComb_run : ∃ st, EcallRun combChCombCrypto combChCombVars combChCombRecords st :=
  ecallRun_append (l := []) .nil
    [.comb .sign, .chcomb .sign, .chcomb .sign, .chcomb .sign]

/-- **Two components equivocate.**  The hybrid component signs its first new-view, for view 1 and
the hybrid genesis block; the chained one, at its third call, signs a new-view for view 1 and
another genesis block. -/
theorem not_noEquivocation_comb_chcomb :
    (∃ st, EcallRun combChCombCrypto combChCombVars combChCombRecords st) ∧
      ¬ NoEquivocation combChCombRecords := by
  refine ⟨combChComb_run, fun h => ?_⟩
  have hcomb : (combChCombRecords.get ⟨0, by decide⟩).rdata? =
      some ⟨noHash, 1, newHash, 0, Phase1.newview.byte⟩ := by
    decide +kernel
  have hchcomb : (combChCombRecords.get ⟨3, by decide⟩).rdata? =
      some ⟨noHash, 1, ⟨genBlockDigest, true⟩, 0, Phase1.newview.byte⟩ := by
    decide +kernel
  have heq := h _ (List.get_mem _ _) _ (List.get_mem _ _) _ _ hcomb hchcomb rfl rfl
  exact absurd (congrArg RData.justh heq) (by decide +kernel)

/-- Up to its last call that run keeps apart. -/
theorem noEquivocation_comb_chcomb :
    KeepApart (ecallRecords combChCombCrypto combChCombVars
        (EnclaveState.init combChCombCrypto.sha256) [.comb .sign, .chcomb .sign, .chcomb .sign]) ∧
      NoEquivocation (ecallRecords combChCombCrypto combChCombVars
        (EnclaveState.init combChCombCrypto.sha256) [.comb .sign, .chcomb .sign, .chcomb .sign]) := by
  have hnil : EcallRun combChCombCrypto combChCombVars [] (EnclaveState.init combChCombCrypto.sha256) :=
    .nil
  obtain ⟨st, hrun⟩ := ecallRun_append hnil [.comb .sign, .chcomb .sign, .chcomb .sign]
  have hapart : KeepApart (ecallRecords combChCombCrypto combChCombVars
      (EnclaveState.init combChCombCrypto.sha256) [.comb .sign, .chcomb .sign, .chcomb .sign]) := by
    decide +kernel
  exact ⟨hapart, noEquivocation_of_keepApart _ _ _ st hrun hapart⟩

end CombChComb

end Raftel
