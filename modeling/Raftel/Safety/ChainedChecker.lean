import Raftel.Safety.Equivocation

/-!
# What the chained checkers have prepared

`CH_COMB_TEEprepare` votes for every block whose justification verifies and is of the view before, in
any phase; the hash that the host gives along decides only whether the prepared pair follows.  A new-view
reports that pair.

* `chCombTruthful_iff` : exactly when the pair is the one of the last accepted block's justification and
  the new-views report it, along every sequence of ecalls and for both copies of `EnclaveChComb.cpp`
* `EcallRun.prepared_eq` : under that condition, the pair after a whole run
-/

namespace Raftel

/-! ### The two copies -/

/-- The two components that `EnclaveChComb.cpp` is compiled to. -/
inductive ChCombInstance
  | chcomb
  | achilles
  deriving DecidableEq

namespace ChCombInstance

/-- The ecall of the instance. -/
def call : ChCombInstance → ChCombCall → Ecall
  | chcomb => .chcomb
  | achilles => .achilles

/-- The variables of the instance. -/
def state : ChCombInstance → EnclaveState → PrepState
  | chcomb => EnclaveState.chcomb
  | achilles => EnclaveState.achilles

variable {Key : Type} (cr : Crypto Key) (vars : EnclaveVars Key)

theorem call_injective (I : ChCombInstance) : Function.Injective I.call := by
  intro c c' h
  cases I <;> injection h

/-- A call of the instance is a call of the common code on its own variables. -/
theorem ecall_call (I : ChCombInstance) (st : EnclaveState) (c : ChCombCall) :
    (ecall cr vars st (I.call c)).1 = (chCombCall cr vars (I.state st) c).1 ∧
      I.state (ecall cr vars st (I.call c)).2 = (chCombCall cr vars (I.state st) c).2 := by
  cases I <;> exact ⟨rfl, rfl⟩

/-- The other ecalls leave the variables of the instance alone. -/
theorem state_ecall (I : ChCombInstance) (st : EnclaveState) {e : Ecall} (he : ∀ c, e ≠ I.call c) :
    I.state (ecall cr vars st e).2 = I.state st := by
  cases I <;> cases e <;> first | rfl | exact absurd rfl (he _)

end ChCombInstance

/-! ### One call -/

/-- The checks of `CH_COMB_TEEprepare`. -/
def EnclaveVars.acceptsCBlock {Key : Type} (vars : EnclaveVars Key) (cr : Crypto Key)
    (st : PrepState) (block : CBlock) : Prop :=
  vars.verifyCA cr block.cert = true ∧ st.view = nextView (ca2cview block.cert)

/-- The pair (hash, prepared view) of a justification. -/
def ca2pair (ca : CA) : Hash × View := (ca2hash ca, ca2view ca)

namespace PrepState

/-- The pair that the new-views report. -/
def pair (st : PrepState) : Hash × View := (st.preph, st.prepv)

@[simp]
theorem pair_chIncrement (st : PrepState) : st.chIncrement.pair = st.pair := by
  unfold chIncrement
  split <;> rfl

/-- The update of `CH_COMB_TEEprepare`. -/
def chPrepared (st : PrepState) (cert : CA) (hash : Hash) : PrepState :=
  if eqHashes (ca2hash cert) hash then { st with preph := ca2hash cert, prepv := ca2view cert } else st

theorem pair_chPrepared (st : PrepState) (cert : CA) (hash : Hash) :
    (st.chPrepared cert hash).pair =
      if eqHashes (ca2hash cert) hash then ca2pair cert else st.pair := by
  unfold chPrepared
  split <;> rfl

@[simp]
theorem phase_chPrepared (st : PrepState) (cert : CA) (hash : Hash) :
    (st.chPrepared cert hash).phase = st.phase := by
  unfold chPrepared
  split <;> rfl

end PrepState

section Call

variable {Key : Type} {cr : Crypto Key} {vars : EnclaveVars Key} {st : PrepState} {block : CBlock}
  {hash : Hash}

theorem chCombTEEprepare_of_accepts (h : vars.acceptsCBlock cr st block) :
    chCombTEEprepare cr vars block hash st =
      chCombSign cr vars (hashCBlock cr.sha256 block) newHash 0 (st.chPrepared block.cert hash) := by
  unfold chCombTEEprepare
  dsimp only
  rw [if_pos (by simpa [EnclaveVars.acceptsCBlock] using h)]
  rfl

theorem chCombTEEprepare_of_not_accepts (h : ¬ vars.acceptsCBlock cr st block) :
    chCombTEEprepare cr vars block hash st = (Just.none, st) := by
  unfold chCombTEEprepare
  dsimp only
  rw [if_neg (by simpa [EnclaveVars.acceptsCBlock] using h)]

variable (cr vars st)

/-- After an accepted block the prepared pair is the one of its justification; and a signed new-view
names no block and reports the prepared pair. -/
structure ChCombTruthful (c : ChCombCall) (reply : Reply) (post : PrepState) : Prop where
  prepared : ∀ block hash, c = .prepare block hash → reply.rdata?.isSome →
    post.pair = ca2pair block.cert
  newview : ∀ rd, reply.rdata? = some rd → rd.phase = Phase1.newview.byte →
    rd.proph.set = false ∧ (rd.justh, rd.justv) = post.pair

/-- A block that passes the checks comes in phase `prepare`, with the hash that its justification is
about, unless the pair of that justification is prepared already. -/
def PreparesParent : ChCombCall → Prop
  | .prepare block hash => vars.acceptsCBlock cr st block →
      st.phase ≠ .newview ∧ (eqHashes (ca2hash block.cert) hash = true ∨ st.pair = ca2pair block.cert)
  | _ => True

variable {cr vars st}

/-- A call that signed no `RData` is truthful. -/
theorem ChCombTruthful.of_none {c : ChCombCall} {reply : Reply} {post : PrepState}
    (h : reply.rdata? = none) : ChCombTruthful c reply post := by
  refine ⟨fun _ _ _ hsome => ?_, fun rd hrd _ => ?_⟩
  · rw [h] at hsome
    exact absurd hsome Bool.false_ne_true
  · rw [h] at hrd
    exact absurd hrd (Option.some_ne_none rd).symm

/-- A block that passed the checks. -/
theorem chCombTEEprepare_truthful_iff (haccepts : vars.acceptsCBlock cr st block) :
    ChCombTruthful (.prepare block hash) (.just (chCombTEEprepare cr vars block hash st).1)
        (chCombTEEprepare cr vars block hash st).2 ↔
      st.phase ≠ .newview ∧
        (eqHashes (ca2hash block.cert) hash = true ∨ st.pair = ca2pair block.cert) := by
  rw [chCombTEEprepare_of_accepts haccepts]
  have hpair : (st.chPrepared block.cert hash).chIncrement.pair =
      if eqHashes (ca2hash block.cert) hash then ca2pair block.cert else st.pair := by
    rw [PrepState.pair_chIncrement, PrepState.pair_chPrepared]
  have hrdata : (Reply.just (chCombSign cr vars (hashCBlock cr.sha256 block) newHash 0
      (st.chPrepared block.cert hash)).1).rdata? =
      some ⟨hashCBlock cr.sha256 block, (st.chPrepared block.cert hash).view, newHash, 0,
        (st.chPrepared block.cert hash).phase.byte⟩ := rfl
  constructor
  · intro h
    refine ⟨fun hphase => ?_, ?_⟩
    · -- the hash of a block is set
      have hset := (h.newview _ hrdata (by rw [PrepState.phase_chPrepared, hphase])).1
      exact absurd hset Bool.true_eq_false.mp
    · have hprepared : (st.chPrepared block.cert hash).chIncrement.pair = ca2pair block.cert :=
        h.prepared block hash rfl rfl
      rw [hpair] at hprepared
      split at hprepared
      · next heq => exact Or.inl heq
      · exact Or.inr hprepared
  · rintro ⟨hphase, hhash⟩
    refine ⟨?_, ?_⟩
    · rintro block' hash' ⟨⟩ -
      show (st.chPrepared block.cert hash).chIncrement.pair = ca2pair block.cert
      rw [hpair]
      split
      · rfl
      · next hne => exact hhash.resolve_left hne
    · intro rd hrd hnewview
      obtain rfl := Option.some.inj (hrdata.symm.trans hrd)
      rw [PrepState.phase_chPrepared] at hnewview
      exact absurd (Phase1.byte_injective hnewview) hphase

/-- **One call.** -/
theorem chCombCall_truthful_iff (c : ChCombCall) :
    ChCombTruthful c (chCombCall cr vars st c).1 (chCombCall cr vars st c).2 ↔
      PreparesParent cr vars st c := by
  cases c with
  | sign =>
    refine iff_of_true ⟨fun block hash h => absurd h (by simp), ?_⟩ trivial
    rintro rd hrd -
    obtain rfl : RData.mk noHash st.view st.preph st.prepv st.phase.byte = rd := Option.some.inj hrd
    exact ⟨rfl, st.pair_chIncrement.symm⟩
  | prepare block hash =>
    by_cases haccepts : vars.acceptsCBlock cr st block
    · exact (chCombTEEprepare_truthful_iff haccepts).trans (imp_iff_right haccepts).symm
    · refine iff_of_true (.of_none ?_) fun h => absurd h haccepts
      show (Reply.just (chCombTEEprepare cr vars block hash st).1).rdata? = none
      rw [chCombTEEprepare_of_not_accepts haccepts]
      rfl
  | accum js => exact iff_of_true (.of_none rfl) trivial
  | accumSp just => exact iff_of_true (.of_none rfl) trivial

end Call

/-! ### Runs -/

section Run

variable {Key : Type} {cr : Crypto Key} {vars : EnclaveVars Key} {l : List EcallRecord}
  {st : EnclaveState}

/-- A call of either instance is truthful. -/
def EcallRecord.ChCombTruthful (r : EcallRecord) : Prop :=
  ∀ (I : ChCombInstance) (c : ChCombCall), r.call = I.call c →
    Raftel.ChCombTruthful c r.reply (I.state r.post)

/-- Either instance accepts a block as it should. -/
def EcallRecord.PreparesParent (cr : Crypto Key) (vars : EnclaveVars Key) (r : EcallRecord) : Prop :=
  ∀ (I : ChCombInstance) (c : ChCombCall), r.call = I.call c →
    Raftel.PreparesParent cr vars (I.state r.pre) c

theorem EcallRun.truthful_iff (hrun : EcallRun cr vars l st) {r : EcallRecord} (hr : r ∈ l) :
    r.ChCombTruthful ↔ r.PreparesParent cr vars := by
  refine forall₂_congr fun I c => imp_congr_right fun hcall => ?_
  obtain ⟨hreply, hpost⟩ := I.ecall_call cr vars r.pre c
  rw [← hcall, Lib.Trace.ok_of_mem hrun hr] at hreply hpost
  rw [show r.reply = _ from hreply, show I.state r.post = _ from hpost, chCombCall_truthful_iff]

/-- **Exactly when the chained checkers are truthful.**  Along every sequence of ecalls with arbitrary
arguments, and for both instances: the pair after every accepted block is the one of its justification,
and every new-view names no block and reports the prepared pair, if and only if every block that passes
the checks comes in phase `prepare`, with the hash that its justification is about, or with a
justification whose pair is prepared already. -/
theorem chCombTruthful_iff (cr : Crypto Key) (vars : EnclaveVars Key) (l : List EcallRecord)
    (st : EnclaveState) (hrun : EcallRun cr vars l st) :
    (∀ r ∈ l, r.ChCombTruthful) ↔ ∀ r ∈ l, r.PreparesParent cr vars :=
  forall₂_congr fun _ hr => hrun.truthful_iff hr

/-- The block that the call accepted, if it is an accepted `prepare` of the instance. -/
def EcallRecord.cblock? (I : ChCombInstance) (r : EcallRecord) : Option CBlock :=
  match I, r.call with
  | .chcomb, .chcomb (.prepare block _) => if r.rdata?.isSome then some block else none
  | .achilles, .achilles (.prepare block _) => if r.rdata?.isSome then some block else none
  | _, _ => none

/-- The pair of the justification of the last accepted block. -/
def lastPrepared (I : ChCombInstance) (pair : Hash × View) (l : List EcallRecord) : Hash × View :=
  ((l.filterMap (EcallRecord.cblock? I)).getLast?.map fun b => ca2pair b.cert).getD pair

theorem EcallRecord.cblock?_of_prepare {I : ChCombInstance} {r : EcallRecord} {block : CBlock}
    {hash : Hash} (hcall : r.call = I.call (.prepare block hash)) :
    r.cblock? I = if r.rdata?.isSome then some block else none := by
  unfold cblock?
  cases I <;> rw [hcall] <;> rfl

theorem EcallRecord.cblock?_eq_none {I : ChCombInstance} {r : EcallRecord}
    (hcall : ∀ block hash, r.call ≠ I.call (.prepare block hash)) : r.cblock? I = none := by
  unfold cblock?
  split
  · next h => exact absurd h (hcall _ _)
  · next h => exact absurd h (hcall _ _)
  · rfl

/-- **One call on the pair**: an accepted block sets it, everything else leaves it. -/
theorem EcallRun.pair_post (hrun : EcallRun cr vars l st) {r : EcallRecord} (hr : r ∈ l)
    (hprepares : r.PreparesParent cr vars) (I : ChCombInstance) :
    (I.state r.post).pair =
      ((r.cblock? I).map fun b => ca2pair b.cert).getD (I.state r.pre).pair := by
  have hok := Lib.Trace.ok_of_mem hrun hr
  by_cases hcall : ∃ c, r.call = I.call c
  · obtain ⟨c, hcall⟩ := hcall
    have htrue := (hrun.truthful_iff hr).mpr hprepares I c hcall
    obtain ⟨-, hpost⟩ := I.ecall_call cr vars r.pre c
    rw [← hcall, hok] at hpost
    have hpost : I.state r.post = (chCombCall cr vars (I.state r.pre) c).2 := hpost
    cases c with
    | prepare block hash =>
      rw [EcallRecord.cblock?_of_prepare hcall]
      split
      · next hsome => exact htrue.prepared block hash rfl hsome
      · next hnone =>
        -- nothing was signed, so the block did not pass the checks
        have hrefused : ¬ vars.acceptsCBlock cr (I.state r.pre) block := by
          intro haccepts
          obtain ⟨hreply, -⟩ := I.ecall_call cr vars r.pre (.prepare block hash)
          rw [← hcall, hok] at hreply
          apply hnone
          have hreply : r.reply = .just (chCombTEEprepare cr vars block hash (I.state r.pre)).1 := hreply
          unfold EcallRecord.rdata?
          rw [hreply, chCombTEEprepare_of_accepts haccepts]
          rfl
        rw [hpost]
        show (chCombTEEprepare cr vars block hash (I.state r.pre)).2.pair = _
        rw [chCombTEEprepare_of_not_accepts hrefused]
        rfl
    | sign | accum js | accumSp just =>
      have hnone : r.cblock? I = none := by
        apply EcallRecord.cblock?_eq_none
        intro block hash h
        cases I.call_injective (hcall.symm.trans h)
      rw [hnone, hpost]
      first | exact PrepState.pair_chIncrement _ | rfl
  · have hother : ∀ c, r.call ≠ I.call c := fun c h => hcall ⟨c, h⟩
    have hpost := I.state_ecall cr vars r.pre hother
    rw [hok] at hpost
    rw [EcallRecord.cblock?_eq_none fun block hash => hother _]
    exact congrArg PrepState.pair hpost

/-- **A whole run.**  When every block is accepted as it should, the prepared pair at the end is the one
of the last accepted block's justification, and at first the genesis block's. -/
theorem EcallRun.prepared_eq (hrun : EcallRun cr vars l st)
    (hprepares : ∀ r ∈ l, r.PreparesParent cr vars) (I : ChCombInstance) :
    (I.state st).pair = lastPrepared I (hashCBlock cr.sha256 genBlock, 0) l := by
  induction hrun with
  | nil => cases I <;> rfl
  | @snoc l s r hrun hpre hok ih =>
    have hsnoc : EcallRun cr vars (l ++ [r]) r.post := .snoc hrun hpre hok
    have hr : r ∈ l ++ [r] := List.mem_append_right l (List.mem_singleton_self r)
    have hlast := hsnoc.pair_post hr (hprepares r hr) I
    have hl := ih fun r' hr' => hprepares r' (List.mem_append_left [r] hr')
    rw [hlast, hpre, hl]
    unfold lastPrepared
    rw [List.filterMap_append]
    cases h : r.cblock? I with
    | none => simp [h]
    | some b => simp [h]

end Run

/-! ### Two runs that break it -/

section Rubbish

/-- What `TEEaccum` signs when no new-view of view 0 verifies. -/
def rubbishAccum : AccumData := ⟨true, 0, 0, newHash, 0⟩

/-- The crypto of four replicas, of which replica 1 has made an accumulator of nothing. -/
def rubbishCrypto : Crypto Unit :=
  idealCrypto combChCombCrypto.sha256 fun p => if p = 1 then [.accum rubbishAccum] else []

/-- The block that replica 1 proposes in view 1. -/
def rubbishBlock : CBlock := { genBlock with view := 1, cert := .accum ⟨rubbishAccum, idealSign 1⟩ }

/-- The records of ecalls on a fresh enclave. -/
def rubbishRecords (calls : List Ecall) : List EcallRecord :=
  ecallRecords rubbishCrypto combChCombVars (EnclaveState.init rubbishCrypto.sha256) calls

theorem rubbish_run (calls : List Ecall) :
    ∃ st, EcallRun rubbishCrypto combChCombVars (rubbishRecords calls) st :=
  ecallRun_append (l := []) .nil calls

/-- The block with the hash of another one. -/
def otherHashCalls : List Ecall :=
  [.chcomb .sign, .chcomb (.prepare rubbishBlock (hashCBlock rubbishCrypto.sha256 genBlock))]

/-- The block twice, the second time in phase `newview`. -/
def prepareTwiceCalls : List Ecall :=
  [.chcomb .sign, .chcomb (.prepare rubbishBlock newHash), .chcomb (.prepare rubbishBlock newHash)]

/-- **Two runs that are not truthful.**  In the first a block is accepted whose justification is not
prepared; in the second the enclave signs a new-view that names the block. -/
theorem not_chCombTruthful :
    ((∃ st, EcallRun rubbishCrypto combChCombVars (rubbishRecords otherHashCalls) st) ∧
        ¬ ∀ r ∈ rubbishRecords otherHashCalls, r.ChCombTruthful) ∧
      (∃ st, EcallRun rubbishCrypto combChCombVars (rubbishRecords prepareTwiceCalls) st) ∧
        ¬ ∀ r ∈ rubbishRecords prepareTwiceCalls, r.ChCombTruthful := by
  refine ⟨⟨rubbish_run _, fun h => ?_⟩, rubbish_run _, fun h => ?_⟩
  · have hpair := (h _ (List.get_mem _ ⟨1, by decide⟩) .chcomb _ rfl).prepared _ _ rfl
      (by decide +kernel)
    exact absurd hpair (by decide +kernel)
  · have hset := ((h _ (List.get_mem _ ⟨2, by decide⟩) .chcomb _ rfl).newview
      ⟨hashCBlock rubbishCrypto.sha256 rubbishBlock, 1, newHash, 0, Phase1.newview.byte⟩
      (by decide +kernel) rfl).1
    exact absurd hset Bool.true_eq_false.mp

/-- Up to its last call the second run meets the condition. -/
theorem chCombTruthful_iff_rubbish :
    (rubbishRecords [.chcomb .sign, .chcomb (.prepare rubbishBlock newHash)]).length = 2 ∧
      ∀ r ∈ rubbishRecords [.chcomb .sign, .chcomb (.prepare rubbishBlock newHash)],
        r.ChCombTruthful := by
  obtain ⟨st, hrun⟩ := rubbish_run [.chcomb .sign, .chcomb (.prepare rubbishBlock newHash)]
  refine ⟨rfl, (chCombTruthful_iff rubbishCrypto combChCombVars _ st hrun).mpr ?_⟩
  refine List.forall_mem_cons.mpr ⟨?_, List.forall_mem_singleton.mpr ?_⟩
  · intro I c hcall
    cases I <;> cases hcall
    trivial
  · intro I c hcall
    cases I <;> cases hcall
    exact fun _ => ⟨by decide +kernel, Or.inl (by decide)⟩

end Rubbish

end Raftel
