import Raftel.Equiv.Accum
import Raftel.Safety.Certificates
import Raftel.Safety.ChainedCertificates

/-!
# The quorum behind a chained vote

`CH_COMB_TEEprepare` and `TrustedChComb::TEEprepare` verify the signatures of a justification; they look
neither at the number of signatures in a certificate nor at the size of an accumulator.

* `AccumCall.exists_counts` : an accumulator's size is the number of different new-view signers that
  were counted
* `quorumJustified_iff` : exactly when an accepted block has a quorum behind it
-/

namespace Raftel

variable {Key : Type}

/-! ### Counting signers -/

section Count

variable {α : Type} {ok : α → Bool} {signer : α → PID} {data : α → RData}

variable (ok signer data) in
/-- The signers that the loop of the accumulators counts are different, and each is the one of an entry
that passed. -/
theorem accumLoop_signers {signers : List PID} (l : List α) (highest : View) (hash : Hash)
    (hnodup : signers.Nodup) :
    (accumLoop ok signer data l signers highest hash).1.Nodup ∧
      ∀ p ∈ (accumLoop ok signer data l signers highest hash).1,
        p ∈ signers ∨ ∃ a ∈ l, ok a = true ∧ signer a = p := by
  induction l generalizing signers highest hash with
  | nil => exact ⟨hnodup, fun p hp => Or.inl hp⟩
  | cons a l ih =>
    -- what the rest counts, from the signers after this entry
    have hcounted : ∀ (v : View) (h : Hash), (ok a && signer a ∉ signers) = true →
        (accumLoop ok signer data l (signer a :: signers) v h).1.Nodup ∧
          ∀ p ∈ (accumLoop ok signer data l (signer a :: signers) v h).1,
            p ∈ signers ∨ ∃ b ∈ a :: l, ok b = true ∧ signer b = p := by
      intro v h hgood
      obtain ⟨hok, hnew⟩ : ok a = true ∧ signer a ∉ signers := by simpa using hgood
      obtain ⟨hn, hmem⟩ := ih v h (List.nodup_cons.mpr ⟨hnew, hnodup⟩)
      refine ⟨hn, fun p hp => ?_⟩
      rcases hmem p hp with hp | ⟨b, hb, hbok⟩
      · rcases List.mem_cons.mp hp with rfl | hp
        · exact Or.inr ⟨a, List.mem_cons_self, hok, rfl⟩
        · exact Or.inl hp
      · exact Or.inr ⟨b, List.mem_cons_of_mem a hb, hbok⟩
    rw [accumLoop]
    split
    · next hgood =>
      split
      · exact hcounted _ _ hgood
      · exact hcounted _ _ hgood
    · obtain ⟨hn, hmem⟩ := ih highest hash hnodup
      refine ⟨hn, fun p hp => (hmem p hp).imp_right ?_⟩
      rintro ⟨b, hb, hbok⟩
      exact ⟨b, List.mem_cons_of_mem a hb, hbok⟩

/-- `countSigners` counts the different signers. -/
theorem countSigners_eq_card (ss : List Sign) : countSigners ss = (signersOf ss).card := by
  have hfold : ∀ (ss : List Sign) (acc : List PID), acc.Nodup →
      (ss.foldl (fun signers s =>
        if s.signer ∈ signers then signers else s.signer :: signers) acc).Nodup ∧
      ∀ p, p ∈ ss.foldl (fun signers s =>
        if s.signer ∈ signers then signers else s.signer :: signers) acc ↔
          p ∈ acc ∨ p ∈ ss.map Sign.signer := by
    intro ss
    induction ss with
    | nil => exact fun acc hacc => ⟨hacc, fun p => by simp⟩
    | cons s ss ih =>
      intro acc hacc
      rw [List.foldl_cons]
      split
      · next hold =>
        obtain ⟨hn, hmem⟩ := ih acc hacc
        refine ⟨hn, fun p => (hmem p).trans ?_⟩
        rw [List.map_cons, List.mem_cons]
        constructor
        · exact fun h => h.imp_right Or.inr
        · rintro (h | rfl | h)
          · exact Or.inl h
          · exact Or.inl hold
          · exact Or.inr h
      · next hnew =>
        obtain ⟨hn, hmem⟩ := ih (s.signer :: acc) (List.nodup_cons.mpr ⟨hnew, hacc⟩)
        refine ⟨hn, fun p => (hmem p).trans ?_⟩
        rw [List.map_cons, List.mem_cons, List.mem_cons]
        tauto
  obtain ⟨hn, hmem⟩ := hfold ss [] List.nodup_nil
  unfold countSigners signersOf
  rw [← List.toFinset_card_of_nodup hn]
  congr 1
  ext p
  simpa using hmem p

end Count

/-! ### The calls that make accumulators -/

/-- A call of the accumulator of the chained protocols, with the component that it is made to:
`CH_COMB_TEEaccum` and `CH_COMB_TEEaccumSp` in an enclave, `TrustedChComb::TEEaccum` and `TEEaccumSp` in
a host. -/
inductive AccumCall (Key : Type)
  | enclave (vars : EnclaveVars Key) (js : OneJusts)
  | enclaveSp (vars : EnclaveVars Key) (just : Just)
  | host (vars : TrustedVars Key) (justs : Vector Just maxNumSignatures)
  | hostSp (vars : TrustedVars Key) (just : Just)

namespace AccumCall

/-- The accumulator that is returned. -/
def result (cr : Crypto Key) : AccumCall Key → Accum
  | enclave vars js => combTEEaccum cr vars js
  | enclaveSp vars just => combTEEaccumSp cr vars just
  | host vars justs => trustedChCombTEEaccum cr vars justs
  | hostSp vars just => trustedChCombTEEaccumSp cr vars just

/-- The new-views that the call looks at. -/
def newviews : AccumCall Key → List OneJust
  | enclave vars js => js.toList.take vars.qsize
  | enclaveSp vars just => (just.signs.entries.take vars.qsize).map fun s => ⟨true, just.rdata, s⟩
  | host vars justs => (justs.toList.take (min maxNumTEESignatures vars.qsize)).map setOneJust
  | hostSp vars just => (just.signs.entries.take (min maxNumTEESignatures vars.qsize)).map fun s =>
      ⟨true, just.rdata, s⟩

def env (cr : Crypto Key) : AccumCall Key → CheckEnv
  | enclave vars _ | enclaveSp vars _ => vars.env cr
  | host vars _ | hostSp vars _ => vars.env cr

/-- Every node of `S` has signed one of the new-views, for view `v`. -/
def Counts (cr : Crypto Key) (call : AccumCall Key) (v : View) (S : Finset PID) : Prop :=
  ∀ p ∈ S, ∃ e ∈ call.newviews, e.sign.signer = p ∧ e.rdata.phase = Phase1.newview.byte ∧
    e.rdata.propv = v ∧ (call.env cr).verified e.sign (.rdata e.rdata)

variable {cr : Crypto Key}

/-- The signers that the general accumulator of the enclave has counted. -/
theorem exists_counts_enclave (vars : EnclaveVars Key) (js : OneJusts) :
    ∃ S : Finset PID, S.card = (combTEEaccum cr vars js).size ∧
      (enclave vars js).Counts cr (combTEEaccum cr vars js).view S := by
  have hloop := accumLoop_signers
    (combEntryOk cr vars (js.get ⟨0, maxNumSignatures_pos⟩).rdata.propv) (fun e => e.sign.signer)
    OneJust.rdata (js.toList.take vars.qsize) 0 newHash List.nodup_nil
  rw [← combAccumFrom_eq] at hloop
  obtain ⟨hnodup, hmem⟩ := hloop
  refine ⟨_, List.toFinset_card_of_nodup hnodup, fun p hp => ?_⟩
  obtain ⟨e, he, hok, hsigner⟩ := (hmem p (List.mem_toFinset.mp hp)).resolve_left List.not_mem_nil
  obtain ⟨-, hphase, hpropv, hverified⟩ := combEntryOk_iff.mp hok
  exact ⟨e, he, hsigner, hphase, hpropv, Signs.get_one e.sign ▸ hverified⟩

/-- Those that the host's has counted. -/
theorem exists_counts_host (vars : TrustedVars Key) (justs : Vector Just maxNumSignatures) :
    ∃ S : Finset PID, S.card = (trustedChCombTEEaccum cr vars justs).size ∧
      (host vars justs).Counts cr (trustedChCombTEEaccum cr vars justs).view S := by
  have hloop := accumLoop_signers
    (trustedEntryOk cr vars (justs.get ⟨0, maxNumSignatures_pos⟩).rdata.propv)
    (fun just => (just.signs.get 0).signer) Just.rdata
    (justs.toList.take (min maxNumTEESignatures vars.qsize)) 0 newHash List.nodup_nil
  rw [← trustedAccumFrom_eq] at hloop
  obtain ⟨hnodup, hmem⟩ := hloop
  refine ⟨_, List.toFinset_card_of_nodup hnodup, fun p hp => ?_⟩
  obtain ⟨j, hj, hok, hsigner⟩ := (hmem p (List.mem_toFinset.mp hp)).resolve_left List.not_mem_nil
  obtain ⟨-, hphase, hpropv, hverified⟩ := trustedEntryOk_iff.mp hok
  exact ⟨setOneJust j, List.mem_map_of_mem hj, hsigner, hphase, hpropv, hverified⟩

/-- The signers of signatures on one new-view. -/
theorem counts_of_forall {call : AccumCall Key} {rd : RData} {ss : List Sign}
    (hphase : rd.phase = Phase1.newview.byte)
    (hall : ∀ s ∈ ss, (⟨true, rd, s⟩ : OneJust) ∈ call.newviews ∧
      (call.env cr).verified s (.rdata rd)) : call.Counts cr rd.propv (signersOf ss) := by
  intro p hp
  obtain ⟨s, hs, hsigner⟩ := mem_signersOf.mp hp
  exact ⟨_, (hall s hs).1, hsigner, hphase, rfl, (hall s hs).2⟩

variable (cr) in
/-- **What the size of an accumulator says**: it is the number of different nodes whose new-views, with
their signatures verified, were among those that the call was given. -/
theorem exists_counts (call : AccumCall Key) :
    ∃ S : Finset PID, S.card = (call.result cr).size ∧ call.Counts cr (call.result cr).view S := by
  cases call with
  | enclave vars js => exact exists_counts_enclave vars js
  | enclaveSp vars just =>
    by_cases hgood : just.rdata.phase = Phase1.newview.byte ∧
        vars.verifyText cr.verifySign just.signs (.rdata just.rdata) = true
    · refine ⟨signersOf (just.signs.entries.take vars.qsize), ?_, counts_of_forall hgood.1 ?_⟩
      · show _ = if _ then _ else _
        rw [if_pos (by simpa using hgood), countSigners_eq_card]
      · intro s hs
        obtain ⟨-, -, -, hall⟩ := EnclaveVars.verifyText_eq_true.mp hgood.2
        exact ⟨List.mem_map_of_mem hs, hall s (List.mem_of_mem_take hs)⟩
    · refine ⟨∅, ?_, fun p hp => absurd hp (Finset.notMem_empty p)⟩
      show _ = if _ then _ else _
      rw [if_neg (by simpa using hgood), Finset.card_empty]
  | host vars justs => exact exists_counts_host vars justs
  | hostSp vars just =>
    by_cases hphase : just.rdata.phase = Phase1.newview.byte
    · refine ⟨signersOf ((just.signs.entries.take (min maxNumTEESignatures vars.qsize)).filter
        fun s => (Signs.one s).verify cr.verifySign vars.nodes (.rdata just.rdata)), ?_,
        counts_of_forall hphase ?_⟩
      · show _ = if _ then _ else _
        rw [if_pos hphase, countSigners_eq_card]
      · intro s hs
        obtain ⟨hs, hverify⟩ := List.mem_filter.mp hs
        rw [Signs.verify_eq_true] at hverify
        exact ⟨List.mem_map_of_mem hs, hverify s (List.mem_singleton_self s)⟩
    · refine ⟨∅, ?_, fun p hp => absurd hp (Finset.notMem_empty p)⟩
      show _ = if _ then _ else _
      rw [if_neg hphase, Finset.card_empty]

/-- The accumulator was made by this call, up to the bytes of the signature. -/
def Makes (cr : Crypto Key) (call : AccumCall Key) (a : Accum) : Prop :=
  (call.result cr).toAccumData = a.toAccumData ∧ (call.result cr).sign.signer = a.sign.signer

end AccumCall

/-! ### The quorum behind a block -/

section Quorum

variable (cr : Crypto Key) (env : CheckEnv) (justh : Hash) (history : List (AccumCall Key))

/-- The justification has a quorum behind it: a certificate with valid signatures of `qsize` different
known nodes, or an accumulator of size `qsize` that one of the calls so far made of the new-views of
`qsize` different nodes. -/
def QuorumJustified : CA → Prop
  | .cert c => ∃ S : Finset PID, env.qsize ≤ S.card ∧ ∀ p ∈ S, ∃ s ∈ c.signs.entries,
      s.signer = p ∧ env.verified s (.rdata ⟨c.hash, c.view, justh, 0, Phase1.prepare.byte⟩)
  | .accum a => a.size = env.qsize ∧ ∃ call ∈ history, call.Makes cr a ∧
      ∃ S : Finset PID, S.card = env.qsize ∧ call.Counts cr a.view S

/-- What the checks leave out: the number of different signers of a certificate; the size of an
accumulator, and that it comes from the accumulator of the chained protocols. -/
def HasQuorumSize (qsize : ℕ) : CA → Prop
  | .cert c => qsize ≤ (signersOf c.signs.entries).card
  | .accum a => a.size = qsize ∧ ∃ call ∈ history, call.Makes cr a

variable {cr env justh history}

theorem quorumJustified_cert_iff {c : Cert} (hverified : ∀ s ∈ c.signs.entries,
      env.verified s (.rdata ⟨c.hash, c.view, justh, 0, Phase1.prepare.byte⟩)) :
    QuorumJustified cr env justh history (.cert c) ↔
      HasQuorumSize cr history env.qsize (.cert c) := by
  constructor
  · rintro ⟨S, hcard, hsigned⟩
    refine hcard.trans (Finset.card_le_card fun p hp => ?_)
    obtain ⟨s, hs, hsigner, -⟩ := hsigned p hp
    exact mem_signersOf.mpr ⟨s, hs, hsigner⟩
  · intro hcard
    refine ⟨_, hcard, fun p hp => ?_⟩
    obtain ⟨s, hs, hsigner⟩ := mem_signersOf.mp hp
    exact ⟨s, hs, hsigner, hverified s hs⟩

theorem quorumJustified_accum_iff {a : Accum} :
    QuorumJustified cr env justh history (.accum a) ↔
      HasQuorumSize cr history env.qsize (.accum a) := by
  constructor
  · rintro ⟨hsize, call, hcall, hmakes, -⟩
    exact ⟨hsize, call, hcall, hmakes⟩
  · rintro ⟨hsize, call, hcall, hmakes⟩
    obtain ⟨S, hcard, hcounts⟩ := call.exists_counts cr
    rw [hmakes.1] at hcard hcounts
    exact ⟨hsize, call, hcall, hmakes, S, hcard.trans hsize, hcounts⟩

end Quorum

/-! ### Accepted blocks -/

/-- **Exactly when a vote has a quorum behind it.**  For every block that an enclave or a host accepts,
whatever accumulators have been made before: its justification has a quorum behind it if and only if a
certificate has `qsize` different signers, and an accumulator has size `qsize` and was made by the
accumulator of the chained protocols. -/
theorem quorumJustified_iff (cr : Crypto Key) (history : List (AccumCall Key)) (block : CBlock)
    (hash : Hash) (st : PrepState) :
    (∀ vars : EnclaveVars Key, (chCombTEEprepare cr vars block hash st).1.set = true →
        (QuorumJustified cr (vars.env cr) noHash history block.cert ↔
          HasQuorumSize cr history vars.qsize block.cert)) ∧
      ∀ vars : TrustedVars Key, (trustedChCombTEEprepare cr vars block hash st).1.set = true →
        (QuorumJustified cr (vars.env cr) newHash history block.cert ↔
          HasQuorumSize cr history vars.qsize block.cert) := by
  constructor
  · intro vars hset
    have haccepts : vars.acceptsCBlock cr st block := by
      by_contra hno
      rw [chCombTEEprepare_of_not_accepts hno] at hset
      exact absurd hset Bool.false_ne_true
    have hverify := haccepts.1
    cases hcert : block.cert with
    | cert c =>
      rw [hcert] at hverify
      obtain ⟨-, -, -, hall⟩ := EnclaveVars.verifyText_eq_true.mp hverify
      exact quorumJustified_cert_iff hall
    | accum a => exact quorumJustified_accum_iff
  · intro vars hset
    have hverify : trustedChCombVerify cr vars block.cert = true := by
      unfold trustedChCombTEEprepare at hset
      dsimp only at hset
      split at hset
      · next h => exact (Bool.and_eq_true _ _ ▸ h).1
      · exact absurd hset Bool.false_ne_true
    cases hcert : block.cert with
    | cert c =>
      rw [hcert] at hverify
      exact quorumJustified_cert_iff (Signs.verify_eq_true.mp hverify)
    | accum a => exact quorumJustified_accum_iff

section Examples

/-- The state of a component that has signed its new-view of view `v`. -/
def signedState (v : View) : PrepState := ⟨⟨genBlockDigest, true⟩, 0, v + 1, .prepare⟩

/-- The block of view 2 on the certificate of three votes for the block of view 1. -/
def certifiedCBlock : CBlock :=
  { genBlock with
    view := 2
    cert := .cert ⟨1, hashCBlock honestCrypto.sha256 honestCBlock, .ofList ([0, 2, 3].map idealSign)⟩ }

/-- A host that accepts it has a quorum behind it. -/
theorem quorumJustified_iff_certified :
    (trustedChCombTEEprepare honestCrypto honestHost certifiedCBlock newHash (signedState 1)).1.set
        = true ∧
      QuorumJustified honestCrypto (honestHost.env honestCrypto) newHash [] certifiedCBlock.cert := by
  have hset : (trustedChCombTEEprepare honestCrypto honestHost certifiedCBlock newHash
      (signedState 1)).1.set = true := by decide +kernel
  have hsize : HasQuorumSize honestCrypto [] honestHost.qsize certifiedCBlock.cert := by
    show 3 ≤ Finset.card _
    decide +kernel
  exact ⟨hset, ((quorumJustified_iff honestCrypto [] certifiedCBlock newHash (signedState 1)).2
    honestHost hset).mpr hsize⟩

/-- A block of view 1 on a certificate without signatures. -/
def uncertifiedCBlock : CBlock := { genBlock with view := 1 }

/-- **Counterexample.**  An enclave accepts a block on the accumulator that `TEEaccum` signs when none of
its new-views verifies; and a host accepts one on a certificate without signatures. -/
theorem not_quorumJustified :
    ((combTEEaccum rubbishCrypto combChCombVars default).toAccumData = rubbishAccum ∧
        (chCombTEEprepare rubbishCrypto combChCombVars rubbishBlock newHash (signedState 0)).1.set
          = true ∧
        ∀ history, ¬ QuorumJustified rubbishCrypto (combChCombVars.env rubbishCrypto) noHash history
          rubbishBlock.cert) ∧
      (trustedChCombTEEprepare rubbishCrypto honestHost uncertifiedCBlock newHash
          (signedState 0)).1.set = true ∧
        ∀ history, ¬ QuorumJustified rubbishCrypto (honestHost.env rubbishCrypto) newHash history
          uncertifiedCBlock.cert := by
  refine ⟨⟨by decide +kernel, by decide +kernel, fun history h => ?_⟩, by decide +kernel,
    fun history h => ?_⟩
  · exact absurd h.1 (by decide)
  · obtain ⟨S, hcard, hsigned⟩ := h
    have hpos : 0 < S.card := lt_of_lt_of_le (by decide) hcard
    obtain ⟨p, hp⟩ := Finset.card_pos.mp hpos
    obtain ⟨s, hs, -⟩ := hsigned p hp
    exact absurd hs List.not_mem_nil

end Examples

end Raftel
