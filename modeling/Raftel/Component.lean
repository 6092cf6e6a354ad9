import Raftel.Equiv.TrustedComb
import Raftel.Lib.Trace

/-!
# Components and their histories

The trusted component of a replica: the enclave of a TEE replica, the host's own copy otherwise
(`callTEEsignComb` .. `callTEEaccumCombSp` of `Handler.cpp` choose by `nodeType`).  A `CallRecord`
keeps a call with the states around it; the history of a component is a trace of them.
-/

namespace Raftel

inductive Component (Key : Type)
  | enclave (vars : EnclaveVars Key)
  | host (vars : TrustedVars Key)

namespace Component

variable {Key : Type}

def call (cr : Crypto Key) : Component Key → CombState → Call → Reply × CombState
  | enclave vars => enclaveCall cr vars
  | host vars => trustedCall cr vars

def env (cr : Crypto Key) : Component Key → CheckEnv
  | enclave vars => vars.env cr
  | host vars => vars.env cr

/-- **Both components refine the checker.** -/
theorem call_outcome (cr : Crypto Key) (comp : Component Key) (st : CombState) (c : Call) :
    Outcome (comp.env cr) st c (comp.call cr st c).1 (comp.call cr st c).2 := by
  cases comp with
  | enclave vars => exact enclaveCall_outcome st c
  | host vars => exact trustedCall_outcome st c

end Component

/-- A call to a component, with the states before and after it.  `stored` is the block the host
holds for the component's view at that moment, if any. -/
structure CallRecord where
  pre : CombState
  call : Call
  reply : Reply
  post : CombState
  stored : Option Block

namespace CallRecord

/-- What the component signed in this call. -/
def signed (r : CallRecord) : List SignedText := r.reply.signed

/-- The data that this call, if it was accepted, made the component sign. -/
def rdata? (r : CallRecord) : Option RData := r.reply.rdata?

/-- The record follows the checker in the given environment. -/
def Valid (env : CheckEnv) (r : CallRecord) : Prop := Outcome env r.pre r.call r.reply r.post

/-- **Inversion.**  A record that signed `rd` is an accepted call; a record that signed no `RData`
left the state as it was. -/
theorem Valid.accepts {env : CheckEnv} {r : CallRecord} (h : r.Valid env) {rd : RData}
    (hrd : r.rdata? = some rd) : Accepts env r.pre rd r.post r.call := by
  cases h with
  | accepted j hreply set acc =>
    simp only [rdata?, hreply, Reply.rdata?, set, if_true, Option.some.injEq] at hrd
    exact hrd ▸ acc
  | refused j hreply set => simp [rdata?, hreply, Reply.rdata?, set] at hrd
  | accum a hreply => simp [rdata?, hreply, Reply.rdata?] at hrd

theorem Valid.post_eq {env : CheckEnv} {r : CallRecord} (h : r.Valid env)
    (hrd : r.rdata? = none) : r.post = r.pre := by
  cases h with
  | accepted j hreply set acc => simp [rdata?, hreply, Reply.rdata?, set] at hrd
  | refused j hreply set same => exact same
  | accum a hreply same => exact same

end CallRecord

/-! ### Proposals -/

/-- The arguments of `TEEprepare`. -/
@[ext]
structure Proposal where
  block : Block
  acc : Accum
  newviews : NewViews

def Call.proposal? : Call → Option Proposal
  | prepare block acc newviews => some ⟨block, acc, newviews⟩
  | _ => none

/-- The `prepare` data that the leader of view `v` signs to propose it. -/
def Proposal.rdata (sha : Text → Digest) (v : View) (x : Proposal) : RData :=
  ⟨x.block.hash sha, v, x.acc.hash, x.acc.prepv, Phase1.prepare.byte⟩

/-- The proposal that the call accepted, if it is an accepted `TEEprepare`. -/
def CallRecord.proposal? (r : CallRecord) : Option Proposal :=
  if r.rdata?.isSome then r.call.proposal? else none

theorem CallRecord.proposal?_eq_some {r : CallRecord} {x : Proposal} :
    r.proposal? = some x ↔
      (∃ rd, r.rdata? = some rd) ∧ r.call = .prepare x.block x.acc x.newviews := by
  unfold CallRecord.proposal?
  rw [← Option.isSome_iff_exists]
  split
  · next h =>
    simp only [h, true_and]
    cases r.call <;> simp [Call.proposal?, Proposal.ext_iff, eq_comm]
  · next h => simp [h]

/-- **Inversion** for accepted proposals. -/
theorem CallRecord.Valid.proposal {env : CheckEnv} {r : CallRecord} (h : r.Valid env) {x : Proposal}
    (hx : r.proposal? = some x) :
    ValidProof env r.pre.view x.newviews x.acc ∧ x.block.prevHash.hash = x.acc.hash.hash ∧
      r.rdata? = some ⟨x.block.hash env.sha256, r.pre.view, x.acc.hash, x.acc.prepv,
        r.pre.phase.byte⟩ ∧
      r.post = (r.pre.prepared env x.block x.acc).increment := by
  obtain ⟨⟨rd, hrd⟩, hcall⟩ := CallRecord.proposal?_eq_some.mp hx
  have hacc := h.accepts hrd
  rw [hcall] at hacc
  cases hacc with
  | prepare proof parent safe data next => exact ⟨proof, parent, by rw [hrd, data], next⟩

/-- The histories of a component: what `comp` has been asked and has replied since it was
initialised, ending in state `st`. -/
def Component.Run {Key : Type} (cr : Crypto Key) (comp : Component Key) (l : List CallRecord)
    (st : CombState) : Prop :=
  Lib.Trace CallRecord.pre CallRecord.post
    (fun r => comp.call cr r.pre r.call = (r.reply, r.post)) CombState.init l st

theorem Component.Run.valid {Key : Type} {cr : Crypto Key} {comp : Component Key}
    {l : List CallRecord} {st : CombState} (h : comp.Run cr l st) {r : CallRecord} (hr : r ∈ l) :
    r.Valid (comp.env cr) := by
  have hout := comp.call_outcome cr r.pre r.call
  rw [Lib.Trace.ok_of_mem h hr] at hout
  exact hout

/-! ### Ideal signatures -/

/-- The bytes of every signature in a model where a signature stands for the act of signing. -/
def idealBytes : Vector UInt8 signLen := Vector.replicate _ 48

/-- Ideal signatures: a signature of `s` on `t` verifies if and only if `s` has signed `t`. -/
def idealCrypto (sha : Text → Digest) (signed : PID → List SignedText) : Crypto Unit where
  sha256 := sha
  signBuf _ _ := idealBytes
  verifySign s _ t := t ∈ signed s.signer

/-- The signature of `pid` in that model. -/
def idealSign (pid : PID) : Sign := ⟨true, pid, idealBytes⟩

/-! ### The signed data and the counter -/

/-- The signed data carries the view and the phase that the counter had before the call, and the
counter moves on. -/
theorem Accepts.counter {env : CheckEnv} {st st' : CombState} {c : Call} {rd : RData}
    (h : Accepts env st rd st' c) :
    rd.propv = st.view ∧ rd.phase = st.phase.byte ∧
      st'.view = st.increment.view ∧ st'.phase = st.increment.phase := by
  have hinc : ∀ s : CombState, s.view = st.view → s.phase = st.phase →
      s.increment.view = st.increment.view ∧ s.increment.phase = st.increment.phase := by
    intro s hv hp
    unfold CombState.increment
    rw [hp]
    cases st.phase <;> exact ⟨by simp [hv], rfl⟩
  cases h with
  | sign data next =>
    rw [data, next]
    exact ⟨rfl, rfl, rfl, rfl⟩
  | prepare _ _ _ data next =>
    rw [data, next]
    exact ⟨rfl, rfl, hinc _ (by simp) (by simp)⟩
  | store _ _ _ data next =>
    rw [data, next]
    exact ⟨rfl, rfl, hinc _ (by simp) (by simp)⟩

/-- An accepted call does not wrap the view counter. -/
def CallRecord.NoWrap (r : CallRecord) : Prop :=
  r.rdata?.isSome → r.pre.phase = .commit → r.pre.view + 1 < 2 ^ 32

instance (r : CallRecord) : Decidable r.NoWrap := inferInstanceAs (Decidable (_ → _ → _))

/-- Without a wrap, the view of the counter does not decrease, and stays before `commit`. -/
theorem CallRecord.NoWrap.view {env : CheckEnv} {r : CallRecord} (h : r.NoWrap)
    (hv : r.Valid env) {rd : RData} (hrd : r.rdata? = some rd) :
    (r.pre.phase ≠ .commit ∧ r.post.view = r.pre.view) ∨
      (r.pre.phase = .commit ∧ r.post.view = r.pre.view + 1) := by
  obtain ⟨-, -, hview, -⟩ := (hv.accepts hrd).counter
  rw [hview]
  unfold CombState.increment
  cases hp : r.pre.phase with
  | newview => exact Or.inl ⟨nofun, rfl⟩
  | prepare => exact Or.inl ⟨nofun, rfl⟩
  | precommit => exact Or.inl ⟨nofun, rfl⟩
  | commit =>
    refine Or.inr ⟨rfl, ?_⟩
    have hlt := h (Option.isSome_iff_exists.mpr ⟨rd, hrd⟩) hp
    exact Nat.mod_eq_of_lt hlt

/-- The position of the counter in the run of a component. -/
def CombState.rank (st : CombState) : ℕ := 4 * st.view + st.phase.index

/-- An accepted call moves the counter on by one. -/
theorem CallRecord.NoWrap.rank {env : CheckEnv} {r : CallRecord} (h : r.NoWrap) (hv : r.Valid env)
    {rd : RData} (hrd : r.rdata? = some rd) : r.post.rank = r.pre.rank + 1 := by
  obtain ⟨-, -, -, hphase⟩ := (hv.accepts hrd).counter
  unfold CombState.rank
  rcases h.view hv hrd with ⟨hp, hview⟩ | ⟨hp, hview⟩
  · rw [hview, hphase]
    unfold CombState.increment
    cases hpre : r.pre.phase with
    | newview => rfl
    | prepare => rfl
    | precommit => rfl
    | commit => exact absurd hpre hp
  · rw [hview, hphase]
    unfold CombState.increment
    rw [hp]
    exact Nat.mul_succ 4 r.pre.view

theorem CallRecord.NoWrap.rank_le {env : CheckEnv} {r : CallRecord} (h : r.NoWrap)
    (hv : r.Valid env) : r.pre.rank ≤ r.post.rank := by
  cases hrd : r.rdata? with
  | none => rw [hv.post_eq hrd]
  | some rd => exact (h.rank hv hrd).ge.trans' (Nat.le_succ _)

/-- Along a history that does not wrap the counter, a view and a phase are signed for once. -/
theorem eq_of_counter_eq {env : CheckEnv} {l : List CallRecord} {st : CombState}
    (htrace : Lib.Trace CallRecord.pre CallRecord.post (CallRecord.Valid env) CombState.init l st)
    (hwrap : ∀ r ∈ l, r.NoWrap) {r r' : CallRecord} (hr : r ∈ l) (hr' : r' ∈ l) {rd rd' : RData}
    (hrd : r.rdata? = some rd) (hrd' : r'.rdata? = some rd') (hpropv : rd.propv = rd'.propv)
    (hphase : rd.phase = rd'.phase) : rd = rd' := by
  have hvalid := htrace.ok_of_mem hr
  have hvalid' := htrace.ok_of_mem hr'
  obtain ⟨hview, hph, -⟩ := (hvalid.accepts hrd).counter
  obtain ⟨hview', hph', -⟩ := (hvalid'.accepts hrd').counter
  have hrank : r.pre.rank = r'.pre.rank := by
    have hp : r.pre.phase = r'.pre.phase :=
      Phase1.byte_injective (hph.symm.trans (hphase.trans hph'))
    rw [CombState.rank, CombState.rank, ← hview, ← hview', hpropv, hp]
  have heq : r = r' := htrace.eq_of_rank_eq CombState.rank
    (fun e he => (hwrap e he).rank_le (htrace.ok_of_mem he)) hr hr'
    (by rw [(hwrap r hr).rank hvalid hrd]; exact Nat.lt_succ_self _)
    (by rw [(hwrap r' hr').rank hvalid' hrd']; exact Nat.lt_succ_self _) hrank
  rw [heq, hrd', Option.some.injEq] at hrd
  exact hrd.symm

end Raftel
