import Raftel.Lib.Quorum
import Raftel.System

/-!
# The protocol, one act at a time

The system without the handlers: each replica is a `Party` with the history of its component, what its
host has forged and what it has executed.  `Micro` lists the acts: a call of an intact component, the
execution of a certified block by a correct replica, and a forgery by a Byzantine host without a TEE.

Everything that safety needs of a reachable state is in `NetInv`: the history of every intact component
is a trace of the checker, in which certificates and proofs are made of signatures that really exist.
-/

namespace Raftel

/-! ### Quorums of the system -/

namespace System

variable (sys : System)

/-- `qsize` and `tqsize`, as the constructor of `Handler` computes them. -/
def qsize : ℕ := sys.n - sys.f

def tqsize : ℕ := max (sys.tee.card / 2 + 1) (sys.f + 1)

theorem tee_card_le : sys.tee.card ≤ sys.n := by
  have h := Finset.card_le_card sys.tee_sub
  rwa [Finset.card_range] at h

theorem tqsize_le_qsize : sys.tqsize ≤ sys.qsize := by
  have hpos := sys.f_pos
  have hcard := sys.tee_card_le
  unfold tqsize qsize n at *
  omega

/-- **The quorum sizes fit.**  TEE quorums intersect in a TEE node, a TEE quorum meets every quorum, and
two quorums have a correct replica in common. -/
def quorums : Lib.Quorums PID where
  nodes := Finset.range sys.n
  trusted := sys.tee
  faulty := sys.byz
  q := sys.qsize
  tq := sys.tqsize
  trusted_sub := sys.tee_sub
  trusted_lt := by
    unfold tqsize
    omega
  mixed_lt := by
    rw [Finset.card_range]
    unfold tqsize qsize n
    omega
  any_lt := by
    have hbyz := sys.byz_card
    rw [Finset.card_range]
    unfold qsize n
    omega

theorem reliable_iff {p : PID} : sys.quorums.Reliable p ↔ sys.Intact p := by
  unfold Lib.Quorums.Reliable Intact
  rw [show sys.quorums.nodes = Finset.range sys.n from rfl, Finset.mem_range]
  rfl

end System

/-! ### Parties -/

structure Party where
  calls : List CallRecord
  tc : CombState
  forged : List SignedText
  executed : List Execution

def Party.init : Party := ⟨[], .init, [], []⟩

/-- What has been signed in the name of the party. -/
def Party.signed (x : Party) : List SignedText := x.calls.flatMap CallRecord.signed ++ x.forged

abbrev Net := PID → Party

/-- The environment of every checker: the table of nodes, and the signatures that exist. -/
def System.env (sys : System) (net : Net) : CheckEnv where
  qsize := sys.qsize
  tqsize := sys.tqsize
  isTEE p := if p < sys.n then some (decide (p ∈ sys.tee)) else none
  verified s t := t ∈ (net s.signer).signed
  sha256 := sys.sha256

/-- An execution that a correct replica may make: there is a certificate for its data, of phase
`prepare` if the leader is a TEE node, or of phase `commit`. -/
structure Execution.Justified (env : CheckEnv) (e : Execution) : Prop where
  cert : ∃ signs, Certified env e.data signs
  final : (e.data.phase = Phase1.prepare.byte ∧ env.isTEE e.leader = some true) ∨
    e.data.phase = Phase1.commit.byte
  hash : (e.block.hash env.sha256).hash = e.data.proph.hash

/-- The acts of the protocol. -/
inductive Micro (sys : System) (net : Net) : Net → Prop
  | call {p : PID} (hp : sys.Intact p) {r : CallRecord} (hpre : r.pre = (net p).tc)
      (hvalid : r.Valid (sys.env net)) :
      Micro sys net
        (Function.update net p { net p with calls := (net p).calls ++ [r], tc := r.post })
  | execute {p : PID} (hp : sys.Correct p) {e : Execution} (he : e.Justified (sys.env net)) :
      Micro sys net (Function.update net p { net p with executed := (net p).executed ++ [e] })
  | forge {p : PID} (hp : p ∈ sys.byz ∧ p ∉ sys.tee) {t : SignedText} :
      Micro sys net (Function.update net p { net p with forged := (net p).forged ++ [t] })

/-- The states that acts lead to. -/
def System.Reachable (sys : System) (net : Net) : Prop :=
  Relation.ReflTransGen (Micro sys) (fun _ => Party.init) net

/-! ### More signatures -/

/-- `env'` knows the same nodes as `env` and at least its signatures. -/
structure CheckEnv.Le (env env' : CheckEnv) : Prop where
  qsize : env'.qsize = env.qsize
  tqsize : env'.tqsize = env.tqsize
  isTEE : env'.isTEE = env.isTEE
  sha256 : env'.sha256 = env.sha256
  verified : ∀ s t, env.verified s t → env'.verified s t

section Mono

variable {env env' : CheckEnv}

theorem Certified.mono (hle : env.Le env') {rd : RData} {signs : Signs}
    (h : Certified env rd signs) : Certified env' rd signs :=
  ⟨h.size_pos, h.size_le, h.nodup, by rw [hle.isTEE]; exact h.known,
    fun s hs => hle.verified s _ (h.verified s hs), by
      rw [hle.isTEE, hle.qsize, hle.tqsize]
      exact h.kind⟩

theorem ValidProof.mono (hle : env.Le env') {view : View} {nvs : NewViews} {acc : Accum}
    (h : ValidProof env view nvs acc) : ValidProof env' view nvs acc :=
  ⟨h.size_pos, h.size_le, h.nodup, by rw [hle.isTEE]; exact h.known, h.newview,
    fun e he => hle.verified _ _ (h.verified e he), by
      rw [hle.isTEE, hle.qsize, hle.tqsize]
      exact h.kind,
    h.acc_view, h.acc_size, h.acc_prepv, h.acc_hash, hle.verified _ _ h.acc_verified⟩

theorem CombState.prepared_of_le (hle : env.Le env') (st : CombState) (block : Block) (acc : Accum) :
    st.prepared env' block acc = st.prepared env block acc := by
  unfold CombState.prepared
  rw [hle.isTEE, hle.sha256]

theorem Accepts.mono (hle : env.Le env') {st st' : CombState} {rd : RData} {c : Call}
    (h : Accepts env st rd st' c) : Accepts env' st rd st' c := by
  cases h with
  | sign data next => exact .sign data next
  | prepare proof parent safe data next =>
    exact .prepare (proof.mono hle) parent safe (by rw [hle.sha256]; exact data)
      (by rw [CombState.prepared_of_le hle]; exact next)
  | store cert view phase data next => exact .store (cert.mono hle) view phase data next

theorem CallRecord.Valid.mono (hle : env.Le env') {r : CallRecord} (h : r.Valid env) :
    r.Valid env' := by
  cases h with
  | accepted j hreply set acc => exact .accepted j hreply set (acc.mono hle)
  | refused j hreply set same => exact .refused j hreply set same
  | accum a hreply same => exact .accum a hreply same

theorem Execution.Justified.mono (hle : env.Le env') {e : Execution} (h : e.Justified env) :
    e.Justified env' := by
  obtain ⟨⟨signs, hcert⟩, hfinal, hhash⟩ := h
  exact ⟨⟨signs, hcert.mono hle⟩, by rw [hle.isTEE]; exact hfinal, by rw [hle.sha256]; exact hhash⟩

end Mono

/-- Nothing that was signed is taken back. -/
def Net.Le (net net' : Net) : Prop := ∀ p, (net p).signed ⊆ (net' p).signed

theorem Net.Le.env {sys : System} {net net' : Net} (h : net.Le net') :
    (sys.env net).Le (sys.env net') :=
  ⟨rfl, rfl, rfl, rfl, fun s _ ht => h s.signer ht⟩

theorem Net.le_update {net : Net} {p : PID} {x : Party} (h : (net p).signed ⊆ x.signed) :
    net.Le (Function.update net p x) := by
  intro q
  by_cases hq : q = p
  · subst hq
    rw [Function.update_self]
    exact h
  · rw [Function.update_of_ne hq]
    exact List.Subset.refl _

theorem Micro.le {sys : System} {net net' : Net} (h : Micro sys net net') : net.Le net' := by
  cases h with
  | call hp hpre hvalid =>
    refine Net.le_update fun t ht => ?_
    simp only [Party.signed, List.flatMap_append, List.mem_append] at ht ⊢
    exact ht.imp_left Or.inl
  | execute hp he => exact Net.le_update (List.Subset.refl _)
  | forge hp =>
    refine Net.le_update fun t ht => ?_
    simp only [Party.signed, List.mem_append] at ht ⊢
    exact ht.imp_right Or.inl

/-- Histories grow. -/
theorem Micro.calls_subset {sys : System} {net net' : Net} (h : Micro sys net net') (q : PID) :
    (net q).calls ⊆ (net' q).calls := by
  cases h with
  | @call p hp r hpre hvalid =>
    by_cases hq : q = p
    · subst hq
      rw [Function.update_self]
      exact List.subset_append_left _ _
    · rw [Function.update_of_ne hq]
      exact List.Subset.refl _
  | @execute p hp e he =>
    by_cases hq : q = p
    · subst hq
      rw [Function.update_self]
      exact List.Subset.refl _
    · rw [Function.update_of_ne hq]
      exact List.Subset.refl _
  | @forge p hp t =>
    by_cases hq : q = p
    · subst hq
      rw [Function.update_self]
      exact List.Subset.refl _
    · rw [Function.update_of_ne hq]
      exact List.Subset.refl _

/-- A call after an act was there before it, or it is the act. -/
theorem Micro.mem_calls {sys : System} {net net' : Net} (h : Micro sys net net') {q : PID}
    {r : CallRecord} (hr : r ∈ (net' q).calls) :
    r ∈ (net q).calls ∨ (sys.Intact q ∧ r.pre = (net q).tc ∧ r.Valid (sys.env net)) := by
  cases h with
  | @call p hp r₀ hpre hvalid =>
    by_cases hq : q = p
    · subst hq
      rw [Function.update_self] at hr
      rcases List.mem_append.mp hr with hr | hr
      · exact Or.inl hr
      · rw [List.mem_singleton.mp hr]
        exact Or.inr ⟨hp, hpre, hvalid⟩
    · rw [Function.update_of_ne hq] at hr
      exact Or.inl hr
  | @execute p hp e he =>
    by_cases hq : q = p
    · subst hq
      rw [Function.update_self] at hr
      exact Or.inl hr
    · rw [Function.update_of_ne hq] at hr
      exact Or.inl hr
  | @forge p hp t =>
    by_cases hq : q = p
    · subst hq
      rw [Function.update_self] at hr
      exact Or.inl hr
    · rw [Function.update_of_ne hq] at hr
      exact Or.inl hr

theorem Party.mem_signed {x : Party} {r : CallRecord} (hr : r ∈ x.calls) {rd : RData}
    (hrd : r.rdata? = some rd) : SignedText.rdata rd ∈ x.signed :=
  List.mem_append_left _ (List.mem_flatMap.mpr ⟨r, hr, Reply.rdata_mem_signed.mpr hrd⟩)

/-! ### The invariant -/

/-- What holds in every reachable state. -/
structure NetInv (sys : System) (net : Net) : Prop where
  trace : ∀ p, sys.Intact p → Lib.Trace CallRecord.pre CallRecord.post
    (CallRecord.Valid (sys.env net)) CombState.init (net p).calls (net p).tc
  forged : ∀ p, sys.Intact p → (net p).forged = []
  executed : ∀ p, ∀ e ∈ (net p).executed, e.Justified (sys.env net)

theorem NetInv.init (sys : System) : NetInv sys fun _ => Party.init :=
  ⟨fun _ _ => .nil, fun _ _ => rfl, fun _ _ he => absurd he List.not_mem_nil⟩

/-- Changing one party keeps the invariant if the changed party meets it. -/
theorem NetInv.update {sys : System} {net : Net} (h : NetInv sys net) {p : PID} {x : Party}
    (hle : net.Le (Function.update net p x))
    (htrace : sys.Intact p → Lib.Trace CallRecord.pre CallRecord.post
      (CallRecord.Valid (sys.env (Function.update net p x))) CombState.init x.calls x.tc)
    (hforged : sys.Intact p → x.forged = [])
    (hexec : ∀ e ∈ x.executed, e.Justified (sys.env (Function.update net p x))) :
    NetInv sys (Function.update net p x) := by
  refine ⟨fun q hq => ?_, fun q hq => ?_, fun q e he => ?_⟩ <;> by_cases hqp : q = p
  · subst hqp
    rw [Function.update_self]
    exact htrace hq
  · rw [Function.update_of_ne hqp]
    exact (h.trace q hq).mono fun r _ hr => hr.mono hle.env
  · subst hqp
    rw [Function.update_self]
    exact hforged hq
  · rw [Function.update_of_ne hqp]
    exact h.forged q hq
  · subst hqp
    rw [Function.update_self] at he
    exact hexec e he
  · rw [Function.update_of_ne hqp] at he
    exact (h.executed q e he).mono hle.env

/-- **One act keeps the invariant.** -/
theorem NetInv.step {sys : System} {net net' : Net} (h : NetInv sys net) (hm : Micro sys net net') :
    NetInv sys net' := by
  have hle : net.Le net' := hm.le
  have htrace : ∀ q, sys.Intact q → Lib.Trace CallRecord.pre CallRecord.post
      (CallRecord.Valid (sys.env net')) CombState.init (net q).calls (net q).tc :=
    fun q hq => (h.trace q hq).mono fun r _ hr => hr.mono hle.env
  have hexec : ∀ q, ∀ e ∈ (net q).executed, e.Justified (sys.env net') :=
    fun q e he => (h.executed q e he).mono hle.env
  cases hm with
  | @call p hp r hpre hvalid =>
    exact h.update hle (fun hq => (htrace p hq).snoc hpre (hvalid.mono hle.env)) (h.forged p)
      (hexec p)
  | @execute p hp e₀ he₀ =>
    refine h.update hle (htrace p) (h.forged p) fun e he => ?_
    rcases List.mem_append.mp he with he | he
    · exact hexec p e he
    · rw [List.mem_singleton.mp he]
      exact he₀.mono hle.env
  | @forge p hp t =>
    -- an intact party does not forge
    exact h.update hle (htrace p) (fun hq => absurd hq.2 (by simp [hp])) (hexec p)

theorem System.Reachable.netInv {sys : System} {net : Net} (h : sys.Reachable net) :
    NetInv sys net := by
  induction h with
  | refl => exact NetInv.init sys
  | tail _ hm ih => exact ih.step hm

end Raftel
