import Raftel.Enclave.Families
import Raftel.HotStuff
import Raftel.Safety.OneVote

/-!
# The lock of HotStuff

`TEEstore` takes certificates of the prepare and of the pre-commit phase.  It should lock a block on a
pre-commit certificate only, but its condition is the constant `PH1_PRECOMMIT`: it locks on both.  The
class `TrustedFun` and the functions of `Enclave.cpp` make the same calls.

* `Locking` : what the calls do, for both
* `lockDiscipline_iff` : the lock keeps its discipline exactly when the prepare certificates that are stored
  are for what is locked already
* `not_disciplined_prepare` : a prepare certificate that locks
-/

namespace Raftel

variable {Key : Type}

/-! ### Calls -/

/-- The calls that change the variables. -/
inductive LockCall
  | sign
  | prepare (hash : Hash) (just : Just)
  | store (just : Just)
  deriving DecidableEq

/-- `TEEsign`, `TEEprepare` and `TEEstore` of `TrustedFun`. -/
def funLockCall (cr : Crypto Key) (vars : FunVars Key) (st : CombState) :
    LockCall → Just × CombState
  | .sign => funTEEsign cr vars st
  | .prepare hash just => funTEEprepare cr vars hash just st
  | .store just => funTEEstore cr vars just st

/-- Those of `Enclave.cpp`. -/
def plainLockCall (cr : Crypto Key) (vars : EnclaveVars Key) (st : CombState) :
    LockCall → Just × CombState
  | .sign => plainTEEsign cr vars st
  | .prepare hash just => plainTEEprepare cr vars hash just st
  | .store just => plainTEEstore cr vars just st

/-- A call, with its reply and the variables before and after it. -/
structure LockRecord where
  pre : CombState
  call : LockCall
  reply : Just
  post : CombState

/-- The calls one after the other. -/
def lockRecords (step : CombState → LockCall → Just × CombState) :
    CombState → List LockCall → List LockRecord
  | _, [] => []
  | st, c :: calls =>
    ⟨st, c, (step st c).1, (step st c).2⟩ :: lockRecords step (step st c).2 calls

/-- The call is a `TEEstore` of a justification of the phase, and it is accepted. -/
def LockRecord.Stored (r : LockRecord) (ph : Phase1) : Prop :=
  ∃ just, r.call = .store just ∧ r.reply.set = true ∧ just.rdata.phase = ph.byte

/-- The discipline of one call: what changes the lock, what changes the prepared block, and that a
rejected call changes nothing. -/
structure LockRecord.Disciplined (r : LockRecord) : Prop where
  lock : (r.post.lockh, r.post.lockv) ≠ (r.pre.lockh, r.pre.lockv) → r.Stored .precommit
  prep : (r.post.preph, r.post.prepv) ≠ (r.pre.preph, r.pre.prepv) →
    r.Stored .prepare ∨ r.Stored .precommit
  rejected : r.reply.set = false → r.post = r.pre

section Checks

variable (verify : Just → Bool) (qsize : ℕ)

/-- What `TEEstore` checks besides the phase: a quorum for the view of the component. -/
def QuorumInView (st : CombState) (just : Just) : Prop :=
  just.signs.size = qsize ∧ verify just = true ∧ st.view = just.rdata.propv

/-- A prepare certificate that would be accepted is for the block and the view that are locked. -/
def LocksAgain (r : LockRecord) : Prop :=
  ∀ just, r.call = .store just → QuorumInView verify qsize r.pre just →
    just.rdata.phase = Phase1.prepare.byte →
      (just.rdata.proph, just.rdata.propv) = (r.pre.lockh, r.pre.lockv)

/-- The variables after an accepted `TEEstore`. -/
def CombState.lockedOn (st : CombState) (just : Just) : CombState :=
  { st with
    preph := just.rdata.proph
    prepv := just.rdata.propv
    lockh := just.rdata.proph
    lockv := just.rdata.propv }.increment

/-- What the calls of a component do to its variables. -/
structure Locking (step : CombState → LockCall → Just × CombState) : Prop where
  sign : ∀ st, (step st .sign).1.set = true ∧ (step st .sign).2 = st.increment
  prepare : ∀ st hash just,
    ((step st (.prepare hash just)).1.set = true ∧ (step st (.prepare hash just)).2 = st.increment) ∨
      ((step st (.prepare hash just)).1.set = false ∧ (step st (.prepare hash just)).2 = st)
  store : ∀ st just,
    (QuorumInView verify qsize st just ∧
      (just.rdata.phase = Phase1.prepare.byte ∨ just.rdata.phase = Phase1.precommit.byte) ∧
      (step st (.store just)).1.set = true ∧ (step st (.store just)).2 = st.lockedOn just) ∨
    (¬ (QuorumInView verify qsize st just ∧
      (just.rdata.phase = Phase1.prepare.byte ∨ just.rdata.phase = Phase1.precommit.byte)) ∧
      (step st (.store just)).1.set = false ∧ (step st (.store just)).2 = st)

end Checks

/-! ### The two components -/

/-- The condition of `TEEstore`. -/
theorem store_condition {verify : Just → Bool} {qsize : ℕ} {st : CombState} {just : Just} :
    (just.signs.size = qsize && verify just && st.view = just.rdata.propv &&
        (just.rdata.phase = Phase1.prepare.byte || just.rdata.phase = Phase1.precommit.byte)) = true ↔
      QuorumInView verify qsize st just ∧
        (just.rdata.phase = Phase1.prepare.byte ∨ just.rdata.phase = Phase1.precommit.byte) := by
  unfold QuorumInView
  simp only [Bool.and_eq_true, Bool.or_eq_true, decide_eq_true_eq, and_assoc]

theorem locking_funLockCall (cr : Crypto Key) (vars : FunVars Key) :
    Locking (funTEEverify cr vars) vars.qsize (funLockCall cr vars) where
  sign st := ⟨rfl, rfl⟩
  prepare st hash just := by
    unfold funLockCall funTEEprepare
    dsimp only
    split
    · exact Or.inl ⟨rfl, rfl⟩
    · exact Or.inr ⟨rfl, rfl⟩
  store st just := by
    unfold funLockCall funTEEstore
    dsimp only
    split
    · next h =>
      obtain ⟨hquorum, hphase⟩ := store_condition.mp h
      exact Or.inl ⟨hquorum, hphase, rfl, rfl⟩
    · next h => exact Or.inr ⟨fun hq => h (store_condition.mpr hq), rfl, rfl⟩

theorem locking_plainLockCall (cr : Crypto Key) (vars : EnclaveVars Key) :
    Locking (vars.verifyJust cr) vars.qsize (plainLockCall cr vars) where
  sign st := ⟨rfl, rfl⟩
  prepare st hash just := by
    unfold plainLockCall plainTEEprepare
    dsimp only
    split
    · exact Or.inl ⟨rfl, rfl⟩
    · exact Or.inr ⟨rfl, rfl⟩
  store st just := by
    unfold plainLockCall plainTEEstore
    dsimp only
    split
    · next h =>
      obtain ⟨hquorum, hphase⟩ := store_condition.mp h
      exact Or.inl ⟨hquorum, hphase, rfl, rfl⟩
    · next h => exact Or.inr ⟨fun hq => h (store_condition.mpr hq), rfl, rfl⟩

/-! ### One call -/

@[simp]
theorem CombState.lockedOn_lock (st : CombState) (just : Just) :
    ((st.lockedOn just).lockh, (st.lockedOn just).lockv) = (just.rdata.proph, just.rdata.propv) := by
  unfold lockedOn
  rw [increment_lockh, increment_lockv]

theorem CombState.increment_lock (st : CombState) :
    (st.increment.lockh, st.increment.lockv) = (st.lockh, st.lockv) := by
  rw [increment_lockh, increment_lockv]

theorem CombState.increment_prep (st : CombState) :
    (st.increment.preph, st.increment.prepv) = (st.preph, st.prepv) := by
  rw [increment_preph, increment_prepv]

/-- The record of a call. -/
def recordOf (step : CombState → LockCall → Just × CombState) (st : CombState) (c : LockCall) :
    LockRecord := ⟨st, c, (step st c).1, (step st c).2⟩

section Discipline

variable {verify : Just → Bool} {qsize : ℕ} {step : CombState → LockCall → Just × CombState}

/-- A call that only moves the counter on, or that changes nothing, is disciplined. -/
theorem disciplined_of_quiet {r : LockRecord} (h : r.post = r.pre.increment ∨ r.post = r.pre)
    (hrejected : r.reply.set = false → r.post = r.pre) : r.Disciplined := by
  have hlock : (r.post.lockh, r.post.lockv) = (r.pre.lockh, r.pre.lockv) := by
    rcases h with h | h
    · rw [h, CombState.increment_lock]
    · rw [h]
  have hprep : (r.post.preph, r.post.prepv) = (r.pre.preph, r.pre.prepv) := by
    rcases h with h | h
    · rw [h, CombState.increment_prep]
    · rw [h]
  exact ⟨fun hne => absurd hlock hne, fun hne => absurd hprep hne, hrejected⟩

/-- **One call**: it is disciplined exactly when it does not lock on a prepare certificate. -/
theorem Locking.disciplined_iff (h : Locking verify qsize step) (st : CombState) (c : LockCall) :
    (recordOf step st c).Disciplined ↔ LocksAgain verify qsize (recordOf step st c) := by
  cases c with
  | sign =>
    obtain ⟨hset, hpost⟩ := h.sign st
    constructor
    · intro _ just hcall
      cases hcall
    · intro _
      apply disciplined_of_quiet (Or.inl hpost)
      exact fun hnot => absurd (hset.symm.trans hnot) (by decide)
  | prepare hash just =>
    constructor
    · intro _ just hcall
      cases hcall
    · intro _
      rcases h.prepare st hash just with ⟨hset, hpost⟩ | ⟨hset, hpost⟩
      · apply disciplined_of_quiet (Or.inl hpost)
        exact fun hnot => absurd (hset.symm.trans hnot) (by decide)
      · exact disciplined_of_quiet (Or.inr hpost) fun _ => hpost
  | store just =>
    rcases h.store st just with ⟨hquorum, hphase, hset, hpost⟩ | ⟨hnot, hset, hpost⟩
    · have hlock : ((step st (.store just)).2.lockh, (step st (.store just)).2.lockv) =
          (just.rdata.proph, just.rdata.propv) := by
        rw [hpost, CombState.lockedOn_lock]
      have hstored : ∀ ph : Phase1, just.rdata.phase = ph.byte →
          (recordOf step st (.store just)).Stored ph :=
        fun ph hph => ⟨just, rfl, hset, hph⟩
      constructor
      · rintro hdisc just' hcall - hprepare
        obtain rfl : just = just' := LockCall.store.inj hcall
        -- the lock is the certificate's; if it has changed, the phase is pre-commit
        by_contra hne
        obtain ⟨just', hcall', -, hprecommit⟩ := hdisc.lock (by
          show ((step st (.store just)).2.lockh, (step st (.store just)).2.lockv) ≠ _
          rw [hlock]
          exact hne)
        obtain rfl : just = just' := LockCall.store.inj hcall'
        exact absurd (hprepare.symm.trans hprecommit) (by decide)
      · intro hagain
        refine ⟨fun hne => ?_, fun _ => hphase.imp (hstored .prepare) (hstored .precommit), ?_⟩
        · rcases hphase with hprepare | hprecommit
          · exact absurd (hlock.trans (hagain just rfl hquorum hprepare)) hne
          · exact hstored .precommit hprecommit
        · exact fun hnot => absurd (hset.symm.trans hnot) (by decide)
    · constructor
      · rintro - just' hcall hquorum hprepare
        obtain rfl : just = just' := LockCall.store.inj hcall
        exact absurd ⟨hquorum, Or.inl hprepare⟩ hnot
      · intro _
        exact disciplined_of_quiet (Or.inr hpost) fun _ => hpost

/-! ### All calls -/

/-- Every record is one of a call. -/
theorem recordOf_of_mem {st : CombState} {calls : List LockCall} {r : LockRecord}
    (hr : r ∈ lockRecords step st calls) : r = recordOf step r.pre r.call := by
  induction calls generalizing st with
  | nil => exact absurd hr List.not_mem_nil
  | cons c calls ih =>
    rcases List.mem_cons.mp hr with rfl | hr
    · rfl
    · exact ih hr

theorem Locking.all_disciplined_iff (h : Locking verify qsize step) (st : CombState)
    (calls : List LockCall) :
    (∀ r ∈ lockRecords step st calls, r.Disciplined) ↔
      ∀ r ∈ lockRecords step st calls, LocksAgain verify qsize r := by
  have hcall : ∀ r ∈ lockRecords step st calls, r.Disciplined ↔ LocksAgain verify qsize r := by
    intro r hr
    rw [recordOf_of_mem hr]
    exact h.disciplined_iff _ _
  exact forall₂_congr hcall

end Discipline

/-- **The lock discipline**: for all calls of `TrustedFun` or of the enclave, from any variables, it holds
of each of them if and only if every prepare certificate that `TEEstore` would accept is for the block and
the view that are locked at that time. -/
theorem lockDiscipline_iff (cr : Crypto Key) (vars : FunVars Key) (evars : EnclaveVars Key)
    (st : CombState) (calls : List LockCall) :
    ((∀ r ∈ lockRecords (funLockCall cr vars) st calls, r.Disciplined) ↔
      ∀ r ∈ lockRecords (funLockCall cr vars) st calls,
        LocksAgain (funTEEverify cr vars) vars.qsize r) ∧
    ((∀ r ∈ lockRecords (plainLockCall cr evars) st calls, r.Disciplined) ↔
      ∀ r ∈ lockRecords (plainLockCall cr evars) st calls,
        LocksAgain (evars.verifyJust cr) evars.qsize r) :=
  ⟨(locking_funLockCall cr vars).all_disciplined_iff st calls,
    (locking_plainLockCall cr evars).all_disciplined_iff st calls⟩

/-! ### A prepare certificate that locks -/

section PrepareLocks

/-- A prepare certificate of view 0 for block 11, with a quorum of three. -/
def prepareCert : Just :=
  ⟨true, ⟨⟨Vector.replicate _ 11, true⟩, 0, newHash, 0, Phase1.prepare.byte⟩,
    ((Signs.one (idealSign 1)).add (idealSign 2)).add (idealSign 3)⟩

/-- A replica of four signs its new-view and its prepare, and stores the certificate. -/
def prepareCertCalls : List LockCall := [.sign, .sign, .store prepareCert]

/-- Everybody else has signed the certificate. -/
def prepareCertCrypto : Crypto Unit := idealCrypto twoBlocksSha fun _ => [.rdata prepareCert.rdata]

/-- The enclave of replica 0. -/
def replica0Vars : EnclaveVars Unit := initializeVariables () () 0 [1, 2, 3] 3 2 []

/-- The certificate is accepted, and the genesis block is locked. -/
theorem not_locksAgain_prepareCert {verify : Just → Bool} {qsize : ℕ}
    {step : CombState → LockCall → Just × CombState} (h : Locking verify qsize step)
    (hsize : qsize = 3) (hverify : verify prepareCert = true) :
    ¬ ∀ r ∈ lockRecords step funInit prepareCertCalls, LocksAgain verify qsize r := by
  intro hall
  have hfirst : (step funInit .sign).2 = funInit.increment := (h.sign _).2
  have hsecond : (step funInit.increment .sign).2 = funInit.increment.increment := (h.sign _).2
  have hmem : recordOf step funInit.increment.increment (.store prepareCert) ∈
      lockRecords step funInit prepareCertCalls := by
    simp [prepareCertCalls, lockRecords, recordOf, hfirst, hsecond]
  have hquorum : QuorumInView verify qsize funInit.increment.increment prepareCert :=
    ⟨by rw [hsize]; rfl, hverify, rfl⟩
  have hlock : (prepareCert.rdata.proph, prepareCert.rdata.propv) = (funInit.lockh, funInit.lockv) :=
    hall _ hmem prepareCert rfl hquorum rfl
  exact absurd hlock (by decide)

/-- **A lock too early**, in both components. -/
theorem not_disciplined_prepare :
    ¬ (∀ r ∈ lockRecords (funLockCall prepareCertCrypto (HotStuff.funVars (noTEESystem.config 0)))
        funInit prepareCertCalls, r.Disciplined) ∧
      ¬ ∀ r ∈ lockRecords (plainLockCall prepareCertCrypto replica0Vars) funInit prepareCertCalls,
        r.Disciplined := by
  constructor
  · have h := locking_funLockCall prepareCertCrypto (HotStuff.funVars (noTEESystem.config 0))
    rw [h.all_disciplined_iff]
    exact not_locksAgain_prepareCert h rfl (by decide +kernel)
  · have h := locking_plainLockCall prepareCertCrypto replica0Vars
    rw [h.all_disciplined_iff]
    exact not_locksAgain_prepareCert h rfl (by decide +kernel)

end PrepareLocks

end Raftel
