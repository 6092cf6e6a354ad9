import Raftel.Equiv.Accum
import Raftel.Equiv.Text
import Raftel.Handler.ChComb
import Raftel.Safety.ChainedChecker

/-!
# The justifications of chained blocks

A chained block comes with a certificate or an accumulator.  The certificate that the leader of the next
view makes out of its log holds the votes of a quorum (`entries_getPrepareChComb`), but the enclaves
refuse it (`chainedCertificate_refused`): the text that they verify differs from the one that was signed
in one character.
-/

namespace Raftel

variable {Key : Type}

/-! ### The log of the votes -/

namespace PrepareChLog

/-- A vote of a new signer is added to those of its view. -/
theorem get_storePrepChComb_perm {log : PrepareChLog} {msg : MsgPrepareChComb}
    (hnew : ∀ m ∈ log.get msg.data.propv, m.sign.signer ≠ msg.sign.signer) :
    ((log.storePrepChComb msg).2.get msg.data.propv).Perm (msg :: log.get msg.data.propv) := by
  have hfrom : msgPrepareChCombFrom (log.get msg.data.propv) msg.sign.signer = false := by
    unfold msgPrepareChCombFrom
    rw [List.any_eq_false]
    intro m hm
    simpa using hnew m hm
  rcases ViewLog.get_store MsgPrepareChComb.lt
      (fun msgs m => msgPrepareChCombFrom msgs m.sign.signer) log msg with ⟨hdup, -⟩ | ⟨-, hget⟩
  · exact absurd (hfrom.symm.trans hdup) Bool.false_ne_true
  · unfold storePrepChComb
    rw [hget]
    apply setInsert_perm
    intro m hm
    simp only [MsgPrepareChComb.lt, decide_eq_true_eq]
    exact Nat.lt_or_gt_of_ne (hnew m hm).symm

/-- The votes of different signers, all of one view, are all in the log that they are stored in. -/
theorem get_foldl_storePrepChComb {v : View} {msgs : List MsgPrepareChComb}
    (hnodup : (msgs.map fun m => m.sign.signer).Nodup) (hview : ∀ m ∈ msgs, m.data.propv = v)
    {log : PrepareChLog}
    (hnew : ∀ m ∈ msgs, ∀ m' ∈ log.get v, m'.sign.signer ≠ m.sign.signer) :
    ((msgs.foldl (fun log m => (log.storePrepChComb m).2) log).get v).Perm
      (msgs ++ log.get v) := by
  induction msgs generalizing log with
  | nil => exact List.Perm.refl _
  | cons m msgs ih =>
    obtain ⟨hfirst, hrest⟩ := List.nodup_cons.mp hnodup
    have hm : m.data.propv = v := hview m List.mem_cons_self
    subst hm
    have hperm := get_storePrepChComb_perm (hnew m List.mem_cons_self)
    have hnew' : ∀ n ∈ msgs, ∀ m' ∈ (log.storePrepChComb m).2.get m.data.propv,
        m'.sign.signer ≠ n.sign.signer := by
      intro n hn m' hm'
      rcases List.mem_cons.mp (hperm.mem_iff.mp hm') with rfl | hm'
      · exact fun heq => hfirst (List.mem_map.mpr ⟨n, hn, heq.symm⟩)
      · exact hnew n (List.mem_cons_of_mem m hn) m' hm'
    have hih := ih hrest (fun n hn => hview n (List.mem_cons_of_mem m hn)) hnew'
    rw [List.foldl_cons]
    exact hih.trans ((hperm.append_left msgs).trans List.perm_middle)

/-- The signatures of the votes, when there are no more than asked for. -/
theorem entries_getPrepareChComb {log : PrepareChLog} {v : View} {n : ℕ} (hn : n ≤ maxNumSignatures)
    (hlen : (log.get v).length = n) :
    (log.getPrepareChComb v n).entries = (log.get v).map MsgPrepareChComb.sign ∧
      (log.getPrepareChComb v n).size = n := by
  have hone : ∀ m ∈ log.get v, (Signs.one m.sign).size = 1 := fun _ _ => rfl
  have hempty : Signs.empty.size ≤ n := Nat.zero_le n
  obtain ⟨hentries, hsize⟩ :=
    Signs.entries_foldl_addUpto hn (fun m : MsgPrepareChComb => Signs.one m.sign) hone hempty
  have hmap : (log.getPrepareChComb v n).entries = (log.get v).map MsgPrepareChComb.sign := by
    refine hentries.trans (List.take_of_length_le ?_)
    rw [show Signs.empty.entries = [] from rfl, List.nil_append, List.length_map, hlen]
  refine ⟨hmap, ?_⟩
  have hle : (log.getPrepareChComb v n).size ≤ maxNumSignatures := hsize.trans hn
  rw [← Signs.length_entries hle, hmap, List.length_map, hlen]

end PrepareChLog

/-! ### Honest votes -/

/-- An enclave that is given a block: its variables, its state and the hash from its host. -/
structure ChainedVoter (Key : Type) where
  vars : EnclaveVars Key
  st : PrepState
  hash : Hash

/-- The data that all votes for a block in a view are about. -/
def chainedVote (sha : Text → Digest) (block : CBlock) (v : View) : RData :=
  ⟨hashCBlock sha block, v, newHash, 0, Phase1.prepare.byte⟩

namespace ChainedVoter

variable (cr : Crypto Key) (block : CBlock) (v : View)

/-- The reply of `CH_COMB_TEEprepare`. -/
def just (x : ChainedVoter Key) : Just := (chCombTEEprepare cr x.vars block x.hash x.st).1

/-- The vote that its host sends. -/
def msg (x : ChainedVoter Key) : MsgPrepareChComb :=
  ⟨(x.just cr block).rdata, (x.just cr block).signs.get 0⟩

/-- The enclave accepted the block in phase `prepare` of view `v`. -/
structure Votes (x : ChainedVoter Key) : Prop where
  accepted : (x.just cr block).set = true
  phase : x.st.phase = .prepare
  view : x.st.view = v

variable {cr block v}

theorem Votes.msg_eq {x : ChainedVoter Key} (h : x.Votes cr block v) :
    x.msg cr block = ⟨chainedVote cr.sha256 block v,
      x.vars.signString cr (.rdata (chainedVote cr.sha256 block v))⟩ := by
  have haccepts : x.vars.acceptsCBlock cr x.st block := by
    by_contra hno
    have hset := h.accepted
    rw [just, chCombTEEprepare_of_not_accepts hno] at hset
    exact absurd hset Bool.false_ne_true
  have hview : (x.st.chPrepared block.cert x.hash).view = v := by
    rw [← h.view]
    unfold PrepState.chPrepared
    split <;> rfl
  have hphase : (x.st.chPrepared block.cert x.hash).phase = .prepare := by
    rw [PrepState.phase_chPrepared, h.phase]
  have hjust : x.just cr block = signJust cr x.vars v .prepare (hashCBlock cr.sha256 block) newHash 0 := by
    rw [just, chCombTEEprepare_of_accepts haccepts, chCombSign, hview, hphase]
  rw [msg, hjust]
  rfl

/-- The log of a leader that has received the votes, in the given order. -/
def votesLog (cr : Crypto Key) (block : CBlock) (voters : List (ChainedVoter Key)) : PrepareChLog :=
  (voters.map fun x => x.msg cr block).foldl (fun log m => (log.storePrepChComb m).2) .empty

theorem get_votesLog_perm {voters : List (ChainedVoter Key)}
    (hvotes : ∀ x ∈ voters, x.Votes cr block v) (hnodup : (voters.map fun x => x.vars.id).Nodup) :
    ((votesLog cr block voters).get v).Perm (voters.map fun x => x.msg cr block) := by
  have hsigners : (voters.map fun x => x.msg cr block).map (fun m => m.sign.signer) =
      voters.map fun x => x.vars.id := by
    rw [List.map_map]
    apply List.map_congr_left
    intro x hx
    show (x.msg cr block).sign.signer = x.vars.id
    rw [(hvotes x hx).msg_eq]
    rfl
  have hview : ∀ m ∈ voters.map fun x => x.msg cr block, m.data.propv = v := by
    rw [List.forall_mem_map]
    intro x hx
    rw [(hvotes x hx).msg_eq]
    rfl
  have hnew : ∀ m ∈ voters.map fun x => x.msg cr block, ∀ m' ∈ (ViewLog.empty : PrepareChLog).get v,
      m'.sign.signer ≠ m.sign.signer := by simp
  have hperm := PrepareChLog.get_foldl_storePrepChComb (hsigners ▸ hnodup) hview hnew
  rwa [ViewLog.get_empty, List.append_nil] at hperm

end ChainedVoter

/-! ### The certificate of honest votes -/

/-- The text that the votes are about is not the one that `verifyCA` builds: the hash in place of a
justification is set in the first and not set in the second. -/
theorem toText_chainedVote_ne (h : Hash) (v : View) (phase : UInt8) :
    (SignedText.rdata ⟨h, v, noHash, 0, phase⟩).toText ≠
      (SignedText.rdata ⟨h, v, newHash, 0, phase⟩).toText := by
  intro heq
  simp only [SignedText.toText, rdata2string, List.append_assoc, List.append_cancel_left_eq] at heq
  have hhash := (hash2string_append_inj.mp heq).1
  exact absurd (congrArg Hash.set hhash) Bool.false_ne_true

section Certificate

variable (cr : Crypto Key) (host : TrustedVars Key) (block : CBlock) (v : View) (q : ℕ)
  (voters : List (ChainedVoter Key))

/-- **Honest certificates are refused.**  When the leader has the votes of `q` enclaves that accepted
the block in phase `prepare` of view `v`, the certificate that it makes of them is accepted by a host
that knows their keys, and by no enclave: a vote verifies for the signed text only, and `verifyCA`
builds another one. -/
theorem chainedCertificate_refused (hvotes : ∀ x ∈ voters, x.Votes cr block v)
    (hnodup : (voters.map fun x => x.vars.id).Nodup) (hlen : voters.length = q)
    (hq : q ≤ maxNumSignatures)
    (hverify : ∀ x ∈ voters, ∃ nd, host.nodes.lookup x.vars.id = some nd ∧
      cr.verifySign (x.msg cr block).sign nd.pub (.rdata (x.msg cr block).data) = true)
    (hsound : ∀ x ∈ voters, ∀ pub t, cr.verifySign (x.msg cr block).sign pub t = true →
      t.toText = (SignedText.rdata (x.msg cr block).data).toText) :
    ∀ x ∈ voters, ∃ cert,
      checkNewJustChComb (ChainedVoter.votesLog cr block voters) q (x.msg cr block).data = some cert ∧
        cert.view = v ∧ cert.hash = hashCBlock cr.sha256 block ∧
        trustedChCombVerify cr host (.cert cert) = true ∧
        ∀ vars : EnclaveVars Key, vars.verifyCA cr (.cert cert) = false := by
  intro x hx
  have hperm := ChainedVoter.get_votesLog_perm hvotes hnodup
  obtain ⟨hentries, hsize⟩ := PrepareChLog.entries_getPrepareChComb hq
    (hperm.length_eq.trans ((List.length_map _).trans hlen))
  have hmem : ∀ s, s ∈ ((ChainedVoter.votesLog cr block voters).getPrepareChComb v q).entries ↔
      ∃ y ∈ voters, (y.msg cr block).sign = s := by
    intro s
    rw [hentries, (hperm.map MsgPrepareChComb.sign).mem_iff, List.map_map, List.mem_map]
    rfl
  have hdata : ∀ y ∈ voters, (y.msg cr block).data = chainedVote cr.sha256 block v := fun y hy =>
    congrArg MsgPrepareChComb.data (hvotes y hy).msg_eq
  have hcert : checkNewJustChComb (ChainedVoter.votesLog cr block voters) q (x.msg cr block).data =
      some ⟨v, hashCBlock cr.sha256 block,
        (ChainedVoter.votesLog cr block voters).getPrepareChComb v q⟩ := by
    unfold checkNewJustChComb
    rw [hdata x hx]
    exact if_pos hsize
  refine ⟨_, hcert, rfl, rfl, ?_, fun vars => ?_⟩
  · show Signs.verify _ _ _ _ = true
    rw [Signs.verify_eq_true]
    intro s hs
    obtain ⟨y, hy, rfl⟩ := (hmem s).mp hs
    obtain ⟨nd, hlookup, hok⟩ := hverify y hy
    rw [hdata y hy] at hok
    refine ⟨nd, ?_, hok⟩
    rw [(hvotes y hy).msg_eq]
    exact hlookup
  · rw [Bool.eq_false_iff]
    intro hok
    obtain ⟨-, -, -, hall⟩ := EnclaveVars.verifyText_eq_true.mp hok
    -- the signature of any of the voters
    obtain ⟨-, pub, -, hsign⟩ := hall _ ((hmem _).mpr ⟨x, hx, rfl⟩)
    have htext := hsound x hx pub _ hsign
    rw [hdata x hx] at htext
    exact toText_chainedVote_ne _ _ _ htext

end Certificate

section HonestVoters

/-- An accumulator of view 0 over the genesis block. -/
def honestAccum : AccumData := ⟨true, 0, 0, ⟨genBlockDigest, true⟩, 3⟩

/-- The block that replica 1 proposes in view 1. -/
def honestCBlock : CBlock := { genBlock with view := 1, cert := .accum ⟨honestAccum, idealSign 1⟩ }

/-- Four replicas; replica 1 has made the accumulator, and the others vote for its block. -/
def honestCrypto : Crypto Unit :=
  idealCrypto combChCombCrypto.sha256 fun p =>
    if p = 1 then [.accum honestAccum]
    else [.rdata (chainedVote combChCombCrypto.sha256 honestCBlock 1)]

/-- The enclave of replica `p`, which has signed its new-view of view 0. -/
def honestVoter (p : PID) : ChainedVoter Unit where
  vars := { combChCombVars with id := p }
  st := ⟨⟨genBlockDigest, true⟩, 0, 1, .prepare⟩
  hash := ⟨genBlockDigest, true⟩

def honestHost : TrustedVars Unit where
  id := 0
  priv := ()
  qsize := 3
  tqsize := 3
  nodes := [0, 1, 2, 3].foldl (fun m p => m.insert p ⟨(), true⟩) ∅

theorem honestVoter_votes :
    ∀ x ∈ [0, 2, 3].map honestVoter, x.Votes honestCrypto honestCBlock 1 := by
  intro x hx
  refine ⟨?_, ?_, ?_⟩ <;> revert x <;> decide +kernel

theorem chainedCertificate_refused_three :
    ∃ cert, checkNewJustChComb
        (ChainedVoter.votesLog honestCrypto honestCBlock ([0, 2, 3].map honestVoter)) 3
        ((honestVoter 0).msg honestCrypto honestCBlock).data = some cert ∧
      cert.view = 1 ∧ cert.hash = hashCBlock honestCrypto.sha256 honestCBlock ∧
      trustedChCombVerify honestCrypto honestHost (.cert cert) = true ∧
      ∀ vars : EnclaveVars Unit, vars.verifyCA honestCrypto (.cert cert) = false := by
  have hsigner : ∀ x ∈ [0, 2, 3].map honestVoter,
      (x.msg honestCrypto honestCBlock).sign.signer ≠ 1 := by decide +kernel
  refine chainedCertificate_refused honestCrypto honestHost honestCBlock 1 3 _ honestVoter_votes
    (by decide) rfl (by decide) (by decide +kernel) ?_ (honestVoter 0) (by simp)
  intro x hx pub t h
  -- replicas other than 1 have signed the vote only
  have hmem : t ∈ if (x.msg honestCrypto honestCBlock).sign.signer = 1 then [.accum honestAccum]
      else [SignedText.rdata (chainedVote combChCombCrypto.sha256 honestCBlock 1)] := of_decide_eq_true h
  rw [if_neg (hsigner x hx), List.mem_singleton] at hmem
  rw [hmem, (honestVoter_votes x hx).msg_eq]
  rfl

/-- **Counterexample.**  Three enclaves accept the block, their certificate verifies in the host and not
in the enclave of replica 0. -/
theorem not_chainedCertificate_accepted :
    (∀ x ∈ [0, 2, 3].map honestVoter, x.Votes honestCrypto honestCBlock 1) ∧
      (checkNewJustChComb
          (ChainedVoter.votesLog honestCrypto honestCBlock ([0, 2, 3].map honestVoter)) 3
          ((honestVoter 0).msg honestCrypto honestCBlock).data).map (fun cert =>
        (trustedChCombVerify honestCrypto honestHost (.cert cert),
          combChCombVars.verifyCA honestCrypto (.cert cert))) = some (true, false) :=
  ⟨honestVoter_votes, by decide +kernel⟩

end HonestVoters

end Raftel
