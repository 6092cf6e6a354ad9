import Raftel.DamysusRuns
import Raftel.Equiv.Share
import Raftel.Lib.Trace

/-!
# The Damysus enclave

`call_outcome` says what a call can do.  The counter moves through three phases a view, so in a history
that does not wrap it an enclave signs once for each view and phase (`History.eq_of_counter_eq`), and
never for `commit`.
-/

namespace Raftel.Damysus

variable {Key : Type}

/-! ### The calls of the enclave -/

/-- The signature verifies under some key. -/
def Verifies (cr : Crypto Key) (s : Sign) (t : SignedText) : Prop :=
  ∃ key, cr.verifySign s key t = true

/-- The accepted calls of an enclave in state `st`: with the data `rd` that it signs and its next state
`st'`.  Unlike in the hybrid checker, no call looks at the phase of the enclave. -/
inductive Accepts (cr : Crypto Key) (qsize : ℕ) (st : PrepState) (rd : RData) (st' : PrepState) :
    Call → Prop
  | sign (data : rd = ⟨noHash, st.view, st.preph, st.prepv, st.phase.byte⟩)
      (next : st' = st.damysusIncrement) : Accepts cr qsize st rd st' .sign
  | prepare {hash : Hash} {acc : Accum} (verified : Verifies cr acc.sign (.accum acc.toAccumData))
      (view : acc.view = st.view) (size : acc.size = qsize)
      (data : rd = ⟨hash, st.view, acc.hash, acc.prepv, st.phase.byte⟩)
      (next : st' = st.damysusIncrement) : Accepts cr qsize st rd st' (.prepare hash acc)
  | store {just : Just} (size : just.signs.size = qsize)
      (nodup : (just.signs.entries.map Sign.signer).Nodup)
      (verified : ∀ s ∈ just.signs.entries, Verifies cr s (.rdata just.rdata))
      (view : just.rdata.propv = st.view) (phase : just.rdata.phase = Phase1.prepare.byte)
      (data : rd = ⟨just.rdata.proph, st.view, newHash, 0, st.phase.byte⟩)
      (next : st' = { st with
        preph := just.rdata.proph, prepv := just.rdata.propv }.damysusIncrement) :
      Accepts cr qsize st rd st' (.store just)

/-- Where the pair of an accumulator comes from: it is the genesis one or one of a new-view that
verifies; `TEEaccumSp` takes it from its argument, whether that verifies or not. -/
def Accumulated (cr : Crypto Key) (a : Accum) : Call → Prop
  | .accum js => (a.prepv = 0 ∧ a.hash = newHash) ∨
      ∃ e ∈ js.toList, e.rdata.phase = Phase1.newview.byte ∧ Verifies cr e.sign (.rdata e.rdata) ∧
        a.prepv = e.rdata.justv ∧ a.hash = e.rdata.justh
  | .accumSp just => a.prepv = just.rdata.justv ∧ a.hash = just.rdata.justh
  | _ => False

/-- The outcome of a call. -/
inductive Outcome (cr : Crypto Key) (qsize : ℕ) (st : PrepState) (c : Call) (reply : Reply)
    (st' : PrepState) : Prop
  | accepted (j : Just) (hreply : reply = .just j) (set : j.set = true)
      (acc : Accepts cr qsize st j.rdata st' c)
  | refused (j : Just) (hreply : reply = .just j) (set : j.set = false) (same : st' = st)
  | accum (a : Accum) (hreply : reply = .accum a) (from' : Accumulated cr a c) (same : st' = st)

section Calls

variable {cr : Crypto Key} {vars : EnclaveVars Key}

/-- The loop of the accumulator keeps the initial pair or takes one of a verified new-view. -/
theorem damysusAccumFrom_pair (cr : Crypto Key) (vars : EnclaveVars Key) (v : View) (js : List OneJust) (signers : List PID) (highest : View)
    (hash : Hash) :
    ((damysusAccumFrom cr vars v js signers highest hash).2 = (highest, hash)) ∨
      ∃ e ∈ js, e.rdata.phase = Phase1.newview.byte ∧ Verifies cr e.sign (.rdata e.rdata) ∧
        (damysusAccumFrom cr vars v js signers highest hash).2 = (e.rdata.justv, e.rdata.justh) := by
  induction js generalizing signers highest hash with
  | nil => exact Or.inl rfl
  | cons just rest ih =>
    unfold damysusAccumFrom
    dsimp only
    split
    · next hcount =>
      split
      · next htake =>
        -- the pair of this entry, which has been verified, is taken
        simp only [Bool.and_eq_true, decide_eq_true_eq] at hcount htake
        obtain ⟨-, key, -, hver⟩ := EnclaveVars.verifyText_one.mp htake.1
        rcases ih (just.sign.signer :: signers) just.rdata.justv just.rdata.justh with hsame | hmore
        · exact Or.inr ⟨just, List.mem_cons_self, hcount.1.1, ⟨key, hver⟩, hsame⟩
        · obtain ⟨e, he, hpair⟩ := hmore
          exact Or.inr ⟨e, List.mem_cons_of_mem just he, hpair⟩
      · refine (ih (just.sign.signer :: signers) highest hash).imp_right ?_
        rintro ⟨e, he, hpair⟩
        exact ⟨e, List.mem_cons_of_mem just he, hpair⟩
    · refine (ih signers highest hash).imp_right ?_
      rintro ⟨e, he, hpair⟩
      exact ⟨e, List.mem_cons_of_mem just he, hpair⟩

theorem damysusTEEaccum_accumulated (js : OneJusts) :
    Accumulated cr (damysusTEEaccum cr vars js) (.accum js) := by
  unfold damysusTEEaccum combAccumOf Accumulated
  rcases damysusAccumFrom_pair cr vars (js.get ⟨0, maxNumSignatures_pos⟩).rdata.propv
    (js.toList.take vars.qsize) [] 0 newHash with h | h
  · exact Or.inl ⟨congrArg Prod.fst h, congrArg Prod.snd h⟩
  · obtain ⟨e, he, hphase, hver, hpair⟩ := h
    exact Or.inr ⟨e, List.mem_of_mem_take he, hphase, hver, congrArg Prod.fst hpair,
      congrArg Prod.snd hpair⟩

/-- **What a call can do.** -/
theorem call_outcome (cr : Crypto Key) (vars : EnclaveVars Key) (st : PrepState) (c : Call) :
    Outcome cr vars.qsize st c (call cr vars st c).1 (call cr vars st c).2 := by
  cases c with
  | sign => exact .accepted _ rfl rfl (.sign rfl rfl)
  | prepare hash acc =>
    unfold call damysusTEEprepare
    dsimp only
    by_cases h : (vars.verifyAccum cr acc && decide (st.view = acc.view)
        && decide (acc.size = vars.qsize)) = true
    · rw [if_pos h]
      simp only [Bool.and_eq_true, decide_eq_true_eq] at h
      obtain ⟨-, key, -, hver⟩ := EnclaveVars.verifyText_one.mp h.1.1
      exact .accepted _ rfl rfl (.prepare ⟨key, hver⟩ h.1.2.symm h.2 rfl rfl)
    · rw [if_neg h]
      exact .refused _ rfl rfl rfl
  | store just =>
    unfold call damysusTEEstore
    dsimp only
    by_cases h : (decide (just.signs.size = vars.qsize) && vars.verifyJust cr just
        && decide (st.view = just.rdata.propv)
        && decide (just.rdata.phase = Phase1.prepare.byte)) = true
    · rw [if_pos h]
      simp only [Bool.and_eq_true, decide_eq_true_eq] at h
      obtain ⟨-, -, hnodup, hall⟩ := EnclaveVars.verifyText_eq_true.mp h.1.1.2
      refine .accepted _ rfl rfl (.store h.1.1.1 hnodup (fun s hs => ?_) h.1.2.symm h.2 rfl rfl)
      obtain ⟨-, key, -, hver⟩ := hall s hs
      exact ⟨key, hver⟩
    · rw [if_neg h]
      exact .refused _ rfl rfl rfl
  | accum js => exact .accum _ rfl (damysusTEEaccum_accumulated js) rfl
  | accumSp just => exact .accum _ rfl ⟨rfl, rfl⟩ rfl

end Calls

/-! ### The counter -/

section Counter

variable {cr : Crypto Key} {q : ℕ}

/-- The signed data carries the view and the phase that the counter had before the call, and the
counter moves on. -/
theorem Accepts.counter {st st' : PrepState} {c : Call} {rd : RData} (h : Accepts cr q st rd st' c) :
    rd.propv = st.view ∧ rd.phase = st.phase.byte ∧ st'.view = st.damysusIncrement.view ∧
      st'.phase = st.damysusIncrement.phase := by
  cases h with
  | sign data next =>
    rw [data, next]
    exact ⟨rfl, rfl, rfl, rfl⟩
  | prepare _ _ _ data next =>
    rw [data, next]
    exact ⟨rfl, rfl, rfl, rfl⟩
  | store _ _ _ _ _ data next =>
    rw [data, next]
    unfold PrepState.damysusIncrement
    cases hp : st.phase <;> simp [hp]

/-- The record is of a call of an enclave. -/
def CallRecord.Valid (q : ℕ) (r : CallRecord) : Prop :=
  ∃ cr : Crypto Unit, Outcome cr q r.pre r.call r.reply r.post

variable {r : CallRecord} {rd : RData}

/-- **Inversion.**  A record that signed `rd` is an accepted call; a record that signed no `RData` left
the state as it was. -/
theorem CallRecord.Valid.accepts (h : r.Valid q) (hrd : r.rdata? = some rd) :
    ∃ cr : Crypto Unit, Accepts cr q r.pre rd r.post r.call := by
  obtain ⟨cr, hout⟩ := h
  refine ⟨cr, ?_⟩
  cases hout with
  | accepted j hreply set acc =>
    simp only [rdata?, hreply, Reply.rdata?, set, if_true, Option.some.injEq] at hrd
    exact hrd ▸ acc
  | refused j hreply set => simp [rdata?, hreply, Reply.rdata?, set] at hrd
  | accum a hreply => simp [rdata?, hreply, Reply.rdata?] at hrd

theorem CallRecord.Valid.post_eq (h : r.Valid q) (hrd : r.rdata? = none) : r.post = r.pre := by
  obtain ⟨cr, hout⟩ := h
  cases hout with
  | accepted j hreply set acc => simp [rdata?, hreply, Reply.rdata?, set] at hrd
  | refused j hreply set same => exact same
  | accum a hreply from' same => exact same

/-- The phase `commit` is never entered. -/
theorem CallRecord.Valid.phase (h : r.Valid q) (hpre : r.pre.phase ≠ .commit) :
    r.post.phase ≠ .commit := by
  cases hrd : r.rdata? with
  | none =>
    rw [h.post_eq hrd]
    exact hpre
  | some rd =>
    obtain ⟨cr, hacc⟩ := h.accepts hrd
    rw [hacc.counter.2.2.2]
    unfold PrepState.damysusIncrement
    cases hp : r.pre.phase with
    | newview => exact nofun
    | prepare => exact nofun
    | precommit => exact nofun
    | commit => exact absurd hp hpre

/-- The position of the counter in the run of an enclave. -/
def rank (st : PrepState) : ℕ := 3 * st.view + st.phase.index

/-- An accepted call moves the counter on by one. -/
theorem CallRecord.NoWrap.rank (h : r.NoWrap) (hv : r.Valid q) (hpre : r.pre.phase ≠ .commit)
    (hrd : r.rdata? = some rd) : rank r.post = rank r.pre + 1 := by
  obtain ⟨cr, hacc⟩ := hv.accepts hrd
  obtain ⟨-, -, hview, hphase⟩ := hacc.counter
  unfold Damysus.rank
  rw [hview, hphase]
  unfold PrepState.damysusIncrement
  cases hp : r.pre.phase with
  | newview => rfl
  | prepare => rfl
  | precommit =>
    have hlt : r.pre.view + 1 < 2 ^ 32 := h (Option.isSome_iff_exists.mpr ⟨rd, hrd⟩) hp
    have hnext : nextView r.pre.view = r.pre.view + 1 := Nat.mod_eq_of_lt hlt
    simp only [hnext, Phase1.index]
    omega
  | commit => exact absurd hp hpre

theorem CallRecord.NoWrap.rank_le (h : r.NoWrap) (hv : r.Valid q) (hpre : r.pre.phase ≠ .commit) :
    Damysus.rank r.pre ≤ Damysus.rank r.post := by
  cases hrd : r.rdata? with
  | none => rw [hv.post_eq hrd]
  | some rd => exact (h.rank hv hpre hrd).ge.trans' (Nat.le_succ _)

/-- The histories of an enclave. -/
abbrev History (q : ℕ) : List CallRecord → PrepState → Prop :=
  Lib.Trace CallRecord.pre CallRecord.post (CallRecord.Valid q) State.init.tee

variable {l : List CallRecord} {st : PrepState}

theorem History.phase (h : History q l st) : ∀ r ∈ l, r.pre.phase ≠ .commit := by
  have hinv := h.invariant (I := fun st => st.phase ≠ .commit) (by decide) fun r _ hv hpre => hv.phase hpre
  exact fun r hr => (hinv.2 r hr).1

/-- Nothing is signed for the phase `commit`. -/
theorem History.phase_ne (h : History q l st) (hr : r ∈ l) (hrd : r.rdata? = some rd) :
    rd.phase ≠ Phase1.commit.byte := by
  obtain ⟨cr, hacc⟩ := (h.ok_of_mem hr).accepts hrd
  rw [hacc.counter.2.1]
  exact fun hp => h.phase r hr (Phase1.byte_injective hp)

/-- **One signature for each view and phase**, along a history that does not wrap the counter. -/
theorem History.eq_of_counter_eq (h : History q l st) (hwrap : ∀ r ∈ l, r.NoWrap) {r' : CallRecord}
    (hr : r ∈ l) (hr' : r' ∈ l) {rd' : RData} (hrd : r.rdata? = some rd) (hrd' : r'.rdata? = some rd')
    (hpropv : rd.propv = rd'.propv) (hphase : rd.phase = rd'.phase) : rd = rd' := by
  have hvalid := h.ok_of_mem hr
  have hvalid' := h.ok_of_mem hr'
  obtain ⟨cr, hacc⟩ := hvalid.accepts hrd
  obtain ⟨cr', hacc'⟩ := hvalid'.accepts hrd'
  have hrank : Damysus.rank r.pre = Damysus.rank r'.pre := by
    have hp : r.pre.phase = r'.pre.phase :=
      Phase1.byte_injective (hacc.counter.2.1.symm.trans (hphase.trans hacc'.counter.2.1))
    rw [Damysus.rank, Damysus.rank, ← hacc.counter.1, ← hacc'.counter.1, hpropv, hp]
  have heq : r = r' := h.eq_of_rank_eq Damysus.rank
    (fun e he => (hwrap e he).rank_le (h.ok_of_mem he) (h.phase e he)) hr hr'
    (by rw [(hwrap r hr).rank hvalid (h.phase r hr) hrd]; exact Nat.lt_succ_self _)
    (by rw [(hwrap r' hr').rank hvalid' (h.phase r' hr') hrd']; exact Nat.lt_succ_self _) hrank
  rw [heq, hrd', Option.some.injEq] at hrd
  exact hrd.symm

end Counter

end Raftel.Damysus
