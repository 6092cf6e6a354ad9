import Raftel.Enclave.Interface
import Raftel.Component

/-!
# The configuration of an enclave

The host sets the configuration of an enclave with `initialize_variables`, and may do so again.
`obeys_lastInit`: after any sequence of public ecalls the enclave signs under the identifier of the last
initialisation, and accepts certificates and new-view proofs of the quorums of the last initialisation
only.  It need not be the first one (`not_obeys_firstInit`).
-/

namespace Raftel

variable {Key : Type}

/-! ### What a configuration allows -/

/-- A quorum of the configuration: `q` different nodes, or `tq` different TEE nodes. -/
def InitArgs.Quorum (a : InitArgs) (signers : List PID) : Prop :=
  signers.Nodup ∧
    ((signers.length = a.q ∧ ∀ j ∈ signers, (a.table.lookup j).isSome) ∨
      (signers.length = a.tq ∧ ∀ j ∈ signers, a.table.lookup j = some true))

instance (a : InitArgs) (signers : List PID) : Decidable (a.Quorum signers) :=
  inferInstanceAs (Decidable (_ ∧ _))

/-- The reply to a call obeys a configuration. -/
structure Obeys (a : InitArgs) (c : PublicEcall) (r : PublicReply) : Prop where
  signer : ∀ s ∈ r.signatures, s.signer = a.me
  certificate : ∀ just, c = .protocol (.comb (.store just)) → r.accepted = true →
    a.Quorum (just.signs.entries.map Sign.signer)
  proof : ∀ block acc nvs, c = .protocol (.comb (.prepare block acc nvs)) → r.accepted = true →
    a.Quorum (nvs.entries.map fun e => e.sign.signer)

/-! ### The signer -/

section Signer

variable (cr : Crypto Key) (vars : EnclaveVars Key)

/-- All signatures of a justification are of the enclave. -/
def Just.SignedBy (j : Just) : Prop := ∀ s ∈ j.signs.entries, s.signer = vars.id

variable {vars}

theorem Just.SignedBy.none : Just.none.SignedBy vars := fun _ hs => absurd hs List.not_mem_nil

theorem Just.SignedBy.one {set : Bool} {rd : RData} {t : SignedText} :
    Just.SignedBy vars ⟨set, rd, Signs.one (vars.signString cr t)⟩ := by
  intro s hs
  have heq : s = vars.signString cr t := List.mem_singleton.mp hs
  rw [heq]
  rfl

variable {cr}

/-- A call signs when its condition holds, and otherwise returns the empty justification. -/
theorem Just.SignedBy.guarded {State : Type} {guard : Prop} [Decidable guard]
    {signed : Just × State} {st : State} (h : signed.1.SignedBy vars) :
    (if guard then signed else (Just.none, st)).1.SignedBy vars := by
  split
  · exact h
  · exact .none

theorem combTEEprepare_signedBy {block : Block} {acc : Accum} {nvs : NewViews} {st : CombState} :
    (combTEEprepare cr vars block acc nvs st).1.SignedBy vars :=
  .guarded (.one cr)

theorem combTEEstore_signedBy {just : Just} {st : CombState} :
    (combTEEstore cr vars just st).1.SignedBy vars :=
  .guarded (.one cr)

theorem plainTEEprepare_signedBy {hash : Hash} {just : Just} {st : CombState} :
    (plainTEEprepare cr vars hash just st).1.SignedBy vars :=
  .guarded (.one cr)

theorem plainTEEstore_signedBy {just : Just} {st : CombState} :
    (plainTEEstore cr vars just st).1.SignedBy vars :=
  .guarded (.one cr)

theorem damysusTEEprepare_signedBy {hash : Hash} {acc : Accum} {st : PrepState} :
    (damysusTEEprepare cr vars hash acc st).1.SignedBy vars :=
  .guarded (.one cr)

theorem damysusTEEstore_signedBy {just : Just} {st : PrepState} :
    (damysusTEEstore cr vars just st).1.SignedBy vars :=
  .guarded (.one cr)

theorem chTEEprepare_signedBy {block block0 block1 : JBlock} {st : CombState} :
    (chTEEprepare cr vars block block0 block1 st).1.SignedBy vars :=
  -- the variables have moved on also when the lock refuses the block
  .guarded (.guarded (.one cr))

theorem chCombTEEprepare_signedBy {block : CBlock} {hash : Hash} {st : PrepState} :
    (chCombTEEprepare cr vars block hash st).1.SignedBy vars :=
  .guarded (.one cr)

theorem combAccumOf_signer {v highest : View} {hash : Hash} {size : ℕ} :
    ∀ s ∈ (Reply.accum (combAccumOf cr vars v highest hash size)).signatures, s.signer = vars.id := by
  intro s hs
  rw [List.mem_singleton.mp hs]
  rfl

theorem chCombCall_signer {st : PrepState} (c : ChCombCall) :
    ∀ s ∈ (chCombCall cr vars st c).1.signatures, s.signer = vars.id := by
  cases c with
  | sign => exact Just.SignedBy.one cr
  | prepare block hash => exact chCombTEEprepare_signedBy
  | accum js => exact combAccumOf_signer
  | accumSp just => exact combAccumOf_signer

/-- **The signer.**  Whatever is called, the enclave signs under its own identifier. -/
theorem ecall_signer {st : EnclaveState} (c : Ecall) :
    ∀ s ∈ (ecall cr vars st c).1.signatures, s.signer = vars.id := by
  cases c with
  | plainTEEsign => exact Just.SignedBy.one cr
  | plainTEEprepare hash just => exact plainTEEprepare_signedBy
  | plainTEEstore just => exact plainTEEstore_signedBy
  | comb c =>
    cases c with
    | sign => exact Just.SignedBy.one cr
    | prepare block acc nvs => exact combTEEprepare_signedBy
    | store just => exact combTEEstore_signedBy
    | accum justs => exact combAccumOf_signer
    | accumSp just => exact combAccumOf_signer
  | damysusTEEsign => exact Just.SignedBy.one cr
  | damysusTEEprepare hash acc => exact damysusTEEprepare_signedBy
  | damysusTEEstore just => exact damysusTEEstore_signedBy
  | damysusTEEaccum js => exact combAccumOf_signer
  | damysusTEEaccumSp just => exact combAccumOf_signer
  | chTEEsign => exact Just.SignedBy.one cr
  | chTEEprepare block block0 block1 => exact chTEEprepare_signedBy
  | chcomb c => exact chCombCall_signer c
  | achilles c => exact chCombCall_signer c

end Signer

/-! ### Quorums -/

/-- The variables that `initialize_variables` with these arguments leaves. -/
structure InitArgs.Holds (a : InitArgs) (vars : EnclaveVars Key) : Prop where
  id : vars.id = a.me
  qsize : vars.qsize = a.q
  tqsize : vars.tqsize = a.tq
  nodeIsTEE : vars.nodeIsTEE = a.table

theorem InitArgs.holds_initializeOver (privKey256 pubKey256 : Key) (vars : EnclaveVars Key)
    (a : InitArgs) : a.Holds (vars.initializeOver privKey256 pubKey256 a) := ⟨rfl, rfl, rfl, rfl⟩

section Quorum

variable {cr : Crypto Key} {vars : EnclaveVars Key} {a : InitArgs} (h : a.Holds vars)

include h

theorem InitArgs.Holds.quorum_of_certified {rd : RData} {signs : Signs}
    (hc : Certified (vars.env cr) rd signs) : a.Quorum (signs.entries.map Sign.signer) := by
  have hlength : (signs.entries.map Sign.signer).length = signs.size := by
    rw [List.length_map, Signs.length_entries hc.size_le]
  refine ⟨hc.nodup, ?_⟩
  rw [hlength, List.forall_mem_map, List.forall_mem_map, ← h.nodeIsTEE, ← h.qsize, ← h.tqsize]
  rcases hc.kind with ⟨htq, htee⟩ | hq
  · exact Or.inr ⟨htq, htee⟩
  · exact Or.inl ⟨hq, fun s hs => (hc.known s hs).2⟩

theorem InitArgs.Holds.quorum_of_validProof {view : View} {nvs : NewViews} {acc : Accum}
    (hp : ValidProof (vars.env cr) view nvs acc) :
    a.Quorum (nvs.entries.map fun e => e.sign.signer) := by
  have hlength : (nvs.entries.map fun e => e.sign.signer).length = nvs.size := by
    rw [List.length_map, NewViews.length_entries hp.size_le]
  refine ⟨hp.nodup, ?_⟩
  rw [hlength, List.forall_mem_map, List.forall_mem_map, ← h.nodeIsTEE, ← h.qsize, ← h.tqsize]
  rcases hp.kind with hq | ⟨htq, htee⟩
  · exact Or.inl ⟨hq, hp.known⟩
  · exact Or.inr ⟨htq, htee⟩

/-- What an accepted call of the hybrid component has been shown. -/
theorem InitArgs.Holds.quorum_of_accepted {st : CombState} {c : Call}
    (hacc : (enclaveCall cr vars st c).1.rdata?.isSome) :
    (∀ just, c = .store just → a.Quorum (just.signs.entries.map Sign.signer)) ∧
      ∀ block acc nvs, c = .prepare block acc nvs →
        a.Quorum (nvs.entries.map fun e => e.sign.signer) := by
  obtain ⟨rd, hrd⟩ := Option.isSome_iff_exists.mp hacc
  have hout : Outcome (vars.env cr) st c (enclaveCall cr vars st c).1 (enclaveCall cr vars st c).2 :=
    enclaveCall_outcome st c
  cases hout with
  | refused j hreply set same => simp [hreply, Reply.rdata?, set] at hrd
  | accum x hreply same => simp [hreply, Reply.rdata?] at hrd
  | accepted j hreply set accepts =>
    constructor
    · rintro just rfl
      cases accepts with
      | store cert _ _ _ _ => exact h.quorum_of_certified cert
    · rintro block acc nvs rfl
      cases accepts with
      | prepare proof _ _ _ _ => exact h.quorum_of_validProof proof

end Quorum

/-! ### Every call and every run -/

section Run

variable {image : EnclaveImage Key}

/-- **One call** obeys the configuration that the variables hold. -/
theorem InitArgs.Holds.obeys {a : InitArgs} {e : Enclave Key} (h : a.Holds e.vars)
    (c : PublicEcall) : Obeys a c (e.call image c).1 := by
  constructor
  · rw [← h.id]
    cases c with
    | initializeVariables a => exact fun s hs => absurd hs List.not_mem_nil
    | protocol c => exact ecall_signer c
    | plainTEEaccum vs uninit => exact combAccumOf_signer
    | plainTEEaccumSp vote => exact combAccumOf_signer
    | achillesTEEverify just => exact fun s hs => absurd hs List.not_mem_nil
    | free c => exact fun s hs => absurd hs List.not_mem_nil
    | op c => exact fun s hs => absurd hs List.not_mem_nil
  · rintro just rfl hacc
    have hset : (enclaveCall image.crypto e.vars e.protocols.comb (.store just)).1.rdata?.isSome := hacc
    exact (h.quorum_of_accepted hset).1 just rfl
  · rintro block acc nvs rfl hacc
    have hset : (enclaveCall image.crypto e.vars e.protocols.comb
        (.prepare block acc nvs)).1.rdata?.isSome := hacc
    exact (h.quorum_of_accepted hset).2 block acc nvs rfl

/-- The arguments of an initialisation. -/
def PublicEcall.init? : PublicEcall → Option InitArgs
  | initializeVariables a => some a
  | _ => none

/-- The last initialisation of a sequence of calls. -/
def lastInit (calls : List PublicEcall) : Option InitArgs :=
  calls.foldl (fun last c => c.init?.or last) none

/-- **Step.**  Only an initialisation changes the configuration. -/
theorem holds_call {e : Enclave Key} {last : Option InitArgs}
    (h : ∀ a, last = some a → a.Holds e.vars) (c : PublicEcall) :
    ∀ a, c.init?.or last = some a → a.Holds (e.call image c).2.vars := by
  intro a ha
  cases c with
  | initializeVariables b =>
    obtain rfl : b = a := Option.some.inj ha
    exact InitArgs.holds_initializeOver _ _ _ _
  | protocol c => exact h a ha
  | plainTEEaccum vs uninit => exact h a ha
  | plainTEEaccumSp vote => exact h a ha
  | achillesTEEverify just => exact h a ha
  | free c => exact h a ha
  | op c => exact h a ha

/-- **Run.**  The variables hold the last initialisation. -/
theorem holds_run (calls : List PublicEcall) {e : Enclave Key} {last : Option InitArgs}
    (h : ∀ a, last = some a → a.Holds e.vars) :
    ∀ a, calls.foldl (fun last c => c.init?.or last) last = some a →
      a.Holds (e.run image calls).vars := by
  induction calls generalizing e last with
  | nil => exact h
  | cons c calls ih => exact ih (holds_call h c)

end Run

/-- **The configuration is that of the last initialisation.**  After any sequence of public ecalls, of
which `initialize_variables` may be any number, the next call obeys the last initialisation. -/
theorem obeys_lastInit (image : EnclaveImage Key) (calls : List PublicEcall) (a : InitArgs)
    (hlast : lastInit calls = some a) (c : PublicEcall) :
    Obeys a c (((Enclave.init image).run image calls).call image c).1 := by
  have hholds : a.Holds ((Enclave.init image).run image calls).vars :=
    holds_run calls (fun a ha => absurd ha (by simp)) a hlast
  exact hholds.obeys c

/-! ### A second initialisation -/

namespace SecondInit

/-- Four nodes, as replica 0 is started. -/
def first : InitArgs :=
  ⟨0, [0, 1, 2, 3], 3, 2, [⟨0, true⟩, ⟨1, false⟩, ⟨2, false⟩, ⟨3, false⟩]⟩

/-- Another identifier, and a quorum of one node. -/
def second : InitArgs := ⟨1, [], 1, 1, [⟨3, false⟩]⟩

/-- The certificate that node 3 alone has signed. -/
def soloVote : RData := ⟨newHash, 1, newHash, 0, Phase1.prepare.byte⟩

def soloJust : Just := ⟨true, soloVote, Signs.one (idealSign 3)⟩

def image : EnclaveImage Unit where
  privKey256 := ()
  pubKey256 := ()
  nullKey := ()
  crypto := idealCrypto (fun _ => Vector.replicate _ 0) fun _ => [.rdata soloVote]
  verifyRaw _ _ _ := false
  freeSecret := []
  opSecret := []

/-- The enclave after the two initialisations. -/
def enclave : Enclave Unit :=
  (Enclave.init image).run image [.initializeVariables first, .initializeVariables second]

/-- **The first initialisation does not last**: after the second one the enclave signs under another
identifier and accepts a certificate of one signature. -/
theorem not_obeys_firstInit :
    ¬ Obeys first (.protocol (.comb .sign)) (enclave.call image (.protocol (.comb .sign))).1 ∧
      ¬ Obeys first (.protocol (.comb (.store soloJust)))
        (enclave.call image (.protocol (.comb (.store soloJust)))).1 := by
  constructor
  · intro h
    have hsigner : ∀ s ∈ (enclave.call image (.protocol (.comb .sign))).1.signatures,
        s.signer = 0 := h.signer
    revert hsigner
    decide +kernel
  · intro h
    have hquorum : first.Quorum (soloJust.signs.entries.map Sign.signer) :=
      h.certificate soloJust rfl (by decide +kernel)
    revert hquorum
    decide +kernel

theorem obeys_secondInit :
    lastInit [.initializeVariables first, .initializeVariables second] = some second ∧
      Obeys second (.protocol (.comb .sign)) (enclave.call image (.protocol (.comb .sign))).1 :=
  ⟨rfl, obeys_lastInit image [.initializeVariables first, .initializeVariables second] second rfl
    (.protocol (.comb .sign))⟩

end SecondInit

end Raftel
