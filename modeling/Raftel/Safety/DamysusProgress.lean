import Raftel.Equiv.DamysusNormal
import Mathlib.Logic.Relation

/-!
# Progress of Damysus

In the normal case every view ends with a block.  Some `f+1` or more correct replicas, among them the leader
of each view, get their messages; the others may be silent or Byzantine.  There are TEE nodes only.

`damysus_progress` : from the initial state the network can deliver messages that were sent, and no timer has
to run out, such that for any number of views each of these replicas executes the block of every view, with
the transactions that the client has given to its leader.
-/

namespace Raftel.Damysus

open Lib

/-! ### The network -/

/-- What is delivered: a message that was sent to the replica, or one of a client. -/
def Delivers (st : SystemState) (p : PID) : Input → Prop
  | .peer msg => ∃ q recipients, (msg, recipients) ∈ (st.replica q).out ∧ p ∈ recipients
  | .timeout => False
  | _ => True

/-- A correct replica takes an input that is delivered. -/
def System.Normal (sys : System) (st st' : SystemState) : Prop :=
  ∃ p fuel i, Delivers st p i ∧ st' = sys.step st (.input p fuel i)

/-- The network can lead from one state to the other. -/
def System.Leads (sys : System) : SystemState → SystemState → Prop := Relation.ReflTransGen sys.Normal

variable {sys : System} {st st' : SystemState} {p : PID} {s : State} {cid : CID} {blocks : List Block}
  {block : Block}

theorem Delivers.not_timeout {i : Input} (h : Delivers st p i) : i.isTimeout = false := by
  cases i with
  | timeout => exact absurd h id
  | peer msg => rfl
  | start cid => rfl
  | transaction t => rfl

theorem normal_update {s' : State} (fuel : ℕ) (i : Input) (hp : sys.Correct p)
    (hrunning : (st.replica p).stopped = false) (hi : Delivers st p i)
    (h : handle (sys.config p) (sys.oracle st p) fuel i (st.replica p) = .ok () s') :
    sys.Normal st (st.update p s') := by
  refine ⟨p, fuel, i, hi, ?_⟩
  show _ = if sys.Correct p then
    st.update p ((st.replica p).react (sys.config p) (sys.oracle st p) fuel i) else st
  rw [if_pos hp, State.react_of_ok hrunning hi.not_timeout h]

/-- A run of the system that the network leads. -/
theorem System.Leads.exists_run (h : sys.Leads .init st) :
    ∃ acts, st = sys.run acts ∧ (∀ p c, .ecall p c ∉ acts) ∧
      ∀ l p fuel i l', acts = l ++ .input p fuel i :: l' → Delivers (sys.run l) p i := by
  induction h with
  | refl => exact ⟨[], rfl, fun _ _ => List.not_mem_nil, fun l p fuel i l' heq => by cases l <;> cases heq⟩
  | tail _ hnormal ih =>
    obtain ⟨acts, rfl, hcalls, hdelivers⟩ := ih
    obtain ⟨p, fuel, i, hi, rfl⟩ := hnormal
    refine ⟨acts ++ [.input p fuel i], ?_, fun p c hmem => ?_, fun l p' fuel' i' l' heq => ?_⟩
    · unfold System.run
      rw [List.foldl_concat]
    · rcases List.mem_append.mp hmem with hmem | hmem
      · exact hcalls p c hmem
      · cases List.mem_singleton.mp hmem
    · rcases List.eq_nil_or_concat l' with rfl | ⟨l'', act, rfl⟩
      · obtain ⟨rfl, hlast⟩ := List.append_inj' heq rfl
        cases hlast
        exact hi
      · rw [List.concat_eq_append, ← List.cons_append, ← List.append_assoc] at heq
        exact hdelivers l p' fuel' i' l'' (List.append_inj' heq rfl).1

theorem System.Leads.trans {st'' : SystemState} (h : sys.Leads st st') (h' : sys.Leads st' st'') :
    sys.Leads st st'' := Relation.ReflTransGen.trans h h'

theorem System.Leads.single (h : sys.Normal st st') : sys.Leads st st' := Relation.ReflTransGen.single h

theorem System.mem_peers {q : PID} : q ∈ peers (sys.config p) ↔ q < sys.n ∧ q ≠ p := by
  unfold peers
  rw [List.mem_filter, List.mem_range, Bool.and_eq_true, decide_eq_true_eq]
  show q < sys.n ∧ q ≠ p ∧ (sys.nodes.lookup q).isSome = true ↔ _
  constructor
  · rintro ⟨hq, hne, -⟩
    exact ⟨hq, hne⟩
  · rintro ⟨hq, hne⟩
    refine ⟨hq, hne, ?_⟩
    rw [sys.lookup_nodes, if_pos hq]
    rfl

theorem System.mem_keepFromPeers {q : PID} (hq : q < sys.n) (hne : q ≠ p) :
    q ∈ keepFromPeers (sys.config p) q :=
  List.mem_filter.mpr ⟨System.mem_peers.mpr ⟨hq, hne⟩, decide_eq_true rfl⟩

theorem System.mem_removeFromPeersPure {q : PID} (hq : q < sys.n) (hne : q ≠ p) :
    q ∈ removeFromPeersPure (sys.config p) p :=
  List.mem_filter.mpr ⟨System.mem_peers.mpr ⟨hq, hne⟩, decide_eq_true hne.symm⟩

/-- What a replica has signed is seen by the others, and by itself later on. -/
theorem Seen.of_signed {q : PID} {t : SignedText} (h : t ∈ (st.replica q).signed)
    (hgrows : Grows (st.replica p) s) : Seen st p s q t := by
  unfold Seen
  split
  · next heq => exact hgrows.signed (heq ▸ h)
  · exact h

/-! ### One input for each replica of a list -/

/-- Every replica of the list takes an input, which it can do whatever else has happened since `st`. -/
theorem System.forEach {R : PID → State → Prop} {qs : List PID} (hnodup : qs.Nodup)
    (hstep : ∀ q ∈ qs, ∀ st₁, (∀ r, Grows (st.replica r) (st₁.replica r)) → st₁.replica q = st.replica q →
      ∃ s', sys.Normal st₁ (st₁.update q s') ∧ Grows (st.replica q) s' ∧ R q s') :
    ∃ st', sys.Leads st st' ∧ (∀ r, Grows (st.replica r) (st'.replica r)) ∧
      (∀ r, r ∉ qs → st'.replica r = st.replica r) ∧ ∀ q ∈ qs, R q (st'.replica q) := by
  -- the induction is on the replicas that are left; what the others have signed and sent has only grown
  have hloop : ∀ (ps : List PID) (st₁ : SystemState), ps.Nodup → (∀ q ∈ ps, q ∈ qs) →
      (∀ r, Grows (st.replica r) (st₁.replica r)) → (∀ q ∈ ps, st₁.replica q = st.replica q) →
      ∃ st', sys.Leads st₁ st' ∧ (∀ r, Grows (st.replica r) (st'.replica r)) ∧
        (∀ r, r ∉ ps → st'.replica r = st₁.replica r) ∧ ∀ q ∈ ps, R q (st'.replica q) := by
    intro ps
    induction ps with
    | nil =>
      intro st₁ _ _ hgrows _
      exact ⟨st₁, .refl, hgrows, fun _ _ => rfl, fun _ hq => absurd hq List.not_mem_nil⟩
    | cons q ps ih =>
      intro st₁ hnodup' hsub hgrows hsame
      obtain ⟨hq, hps⟩ := List.nodup_cons.mp hnodup'
      obtain ⟨s', hnormal, hgrows', hR⟩ := hstep q (hsub q List.mem_cons_self) st₁ hgrows
        (hsame q List.mem_cons_self)
      have hgrows₂ : ∀ r, Grows (st.replica r) ((st₁.update q s').replica r) := by
        intro r
        by_cases hr : r = q
        · subst hr
          rw [st₁.replica_update_self]
          exact hgrows'
        · rw [st₁.replica_update_of_ne q s' hr]
          exact hgrows r
      have hsame₂ : ∀ r ∈ ps, (st₁.update q s').replica r = st.replica r := by
        intro r hr
        rw [st₁.replica_update_of_ne q s' fun heq => hq (heq ▸ hr)]
        exact hsame r (List.mem_cons_of_mem q hr)
      obtain ⟨st', hleads, hall, hothers, hpost⟩ := ih (st₁.update q s') hps
        (fun r hr => hsub r (List.mem_cons_of_mem q hr)) hgrows₂ hsame₂
      refine ⟨st', (System.Leads.single hnormal).trans hleads, hall, fun r hr => ?_, fun r hr => ?_⟩
      · rw [List.mem_cons, not_or] at hr
        rw [hothers r hr.2, st₁.replica_update_of_ne q s' hr.1]
      · rcases List.mem_cons.mp hr with rfl | hr
        · rw [hothers r hq, st₁.replica_update_self]
          exact hR
        · exact hpost r hr
  exact hloop qs st hnodup (fun _ hq => hq) (fun r => Grows.refl _) fun _ _ => rfl

/-! ### The leader's part of a view -/

/-- The client gives its transactions to a replica. -/
theorem leads_transactions (hp : sys.Correct p) (trans : List Transaction)
    (htrans : ∀ t ∈ trans, t.clientid = cid) (h : Begun sys p cid blocks (st.replica p)) :
    ∃ s', sys.Leads st (st.update p s') ∧ Begun sys p cid blocks s' ∧ Grows (st.replica p) s' ∧
      s'.transactions = (st.replica p).transactions ++ trans := by
  induction trans generalizing st with
  | nil =>
    refine ⟨st.replica p, ?_, h, .refl _, (List.append_nil _).symm⟩
    rw [st.update_self]
    exact .refl
  | cons t trans ih =>
    let s₁ : State := { st.replica p with transactions := (st.replica p).transactions ++ [t] }
    obtain ⟨hrun, hbegun⟩ := h.transaction (htrans t List.mem_cons_self)
    have hnormal : sys.Normal st (st.update p s₁) :=
      normal_update 0 (.transaction t) hp h.running trivial hrun
    have hbegun₁ : Begun sys p cid blocks ((st.update p s₁).replica p) := by
      rw [st.replica_update_self]
      exact hbegun
    obtain ⟨s', hleads, hbegun', hgrows, htransactions⟩ := ih (fun t' ht' =>
      htrans t' (List.mem_cons_of_mem t ht')) hbegun₁
    rw [st.replica_update_self] at hgrows htransactions
    rw [st.update_idem] at hleads
    refine ⟨s', (System.Leads.single hnormal).trans hleads, hbegun', ⟨hgrows.signed, hgrows.out⟩, ?_⟩
    rw [htransactions]
    exact List.append_assoc _ [t] trans

/-- A replica has signed the text and sent its message to `p`. -/
structure HasSent (sys : System) (st : SystemState) (p : PID) (msg : PID → Msg) (t : SignedText) (q : PID) :
    Prop where
  known : q < sys.n
  ne : q ≠ p
  signed : t ∈ (st.replica q).signed
  sent : ∃ recipients, (msg q, recipients) ∈ (st.replica q).out ∧ p ∈ recipients

theorem HasSent.update {msg : PID → Msg} {t : SignedText} {q : PID} (h : HasSent sys st p msg t q) (s : State) :
    HasSent sys (st.update p s) p msg t q := by
  have hsame := st.replica_update_of_ne p s h.ne
  exact ⟨h.known, h.ne, hsame ▸ h.signed, hsame ▸ h.sent⟩

/-- The leader takes the messages of some replicas, one after the other. -/
theorem leads_collect {msg : PID → Msg} {t : SignedText} {P : List PID → State → Prop}
    (hstep : ∀ (st : SystemState) (senders : List PID) (q : PID), P senders (st.replica p) →
      HasSent sys st p msg t q → q ∉ senders → senders.length < sys.f →
        ∃ s', sys.Normal st (st.update p s') ∧ P (q :: senders) s')
    (qs senders : List PID) (hnodup : (qs ++ senders).Nodup) (hfew : qs.length + senders.length ≤ sys.f)
    (hqs : ∀ q ∈ qs, HasSent sys st p msg t q) (h : P senders (st.replica p)) :
    ∃ s', sys.Leads st (st.update p s') ∧ P (qs.reverse ++ senders) s' := by
  induction qs generalizing st senders with
  | nil =>
    refine ⟨st.replica p, ?_, h⟩
    rw [st.update_self]
    exact .refl
  | cons q qs ih =>
    have hq : q ∉ qs ++ senders := (List.nodup_cons.mp hnodup).1
    have hnew : q ∉ senders := fun hmem => hq (List.mem_append_right qs hmem)
    rw [List.length_cons] at hfew
    have hlt : senders.length < sys.f := by omega
    obtain ⟨s₁, hnormal, hP⟩ := hstep st senders q h (hqs q List.mem_cons_self) hnew hlt
    have hP₁ : P (q :: senders) ((st.update p s₁).replica p) := by
      rw [st.replica_update_self]
      exact hP
    have hfew₁ : qs.length + (q :: senders).length ≤ sys.f := by
      rw [List.length_cons]
      omega
    obtain ⟨s', hleads, hP'⟩ := ih (q :: senders) (List.perm_middle.nodup_iff.mpr hnodup) hfew₁
      (fun q' hq' => (hqs q' (List.mem_cons_of_mem q hq')).update s₁) hP₁
    rw [st.update_idem] at hleads
    refine ⟨s', (System.Leads.single hnormal).trans hleads, ?_⟩
    rw [List.reverse_cons, List.append_assoc]
    exact hP'

/-- What the leader has while it collects new-views. -/
structure Collecting (cid : CID) (blocks : List Block) (waiting : List Transaction) (senders : List PID)
    (s : State) : Prop extends Entered cid blocks s where
  collected : Collected s.log blocks.length senders
  waiting : s.transactions = waiting

/-- One new-view, while they are too few. -/
theorem Collecting.newview {waiting : List Transaction} {senders : List PID} {q : PID} (hall : sys.AllTEE)
    (hp : sys.Correct p) (hleader : p = sys.leader blocks.length)
    (h : Collecting cid blocks waiting senders (st.replica p))
    (hsent : HasSent sys st p (fun q => .newview (newviewOf blocks.length q))
      (.rdata (newViewIn blocks.length)) q)
    (hnew : q ∉ senders) (hfew : senders.length < sys.f) :
    ∃ s', sys.Normal st (st.update p s') ∧ Collecting cid blocks waiting (q :: senders) s' := by
  have hseen : Seen st p (st.replica p) q (.rdata (newViewIn blocks.length)) := .of_signed hsent.signed (.refl _)
  have hrun := handleNewviewComb_run hall h.view.le h.skipped hleader hsent.known hseen h.collected hnew
    (h.fresh _ le_rfl).newviews
  rw [if_neg fun henough => Nat.not_lt.mpr henough.2 hfew] at hrun
  exact ⟨_, normal_update 0 (.peer (.newview (newviewOf blocks.length q))) hp h.running ⟨q, hsent.sent⟩ hrun,
    h.toEntered.store q, h.collected.store hnew, h.waiting⟩

/-- What the leader has while it counts votes. -/
structure Counting (sys : System) (p : PID) (cid : CID) (blocks : List Block) (block : Block) (voters : List PID)
    (s : State) : Prop extends Leading sys p cid blocks block voters s where
  nodup : voters.Nodup
  known : ∀ q ∈ voters, q < sys.n
  noTransactions : s.transactions = []

/-- One vote, while they are too few. -/
theorem Counting.vote {voters : List PID} {q : PID} (hall : sys.AllTEE) (hp : sys.Correct p)
    (hleader : p = sys.leader blocks.length) (h : Counting sys p cid blocks block voters (st.replica p))
    (hsent : HasSent sys st p (fun q => .prepare (sys.vote blocks.length block q))
      (.rdata (sys.voteData blocks.length block)) q)
    (hnew : q ∉ voters) (hfew : voters.length < sys.f) :
    ∃ s', sys.Normal st (st.update p s') ∧ Counting sys p cid blocks block (q :: voters) s' := by
  have hnodup : (q :: voters).Nodup := List.nodup_cons.mpr ⟨hnew, h.nodup⟩
  have hknown : ∀ q' ∈ q :: voters, q' < sys.n := List.forall_mem_cons.mpr ⟨hsent.known, h.known⟩
  have hseen : Seen st p (st.replica p) q (.rdata (sys.voteData blocks.length block)) :=
    .of_signed hsent.signed (.refl _)
  have hrun := h.handlePrepareComb_run hall hleader hnodup hknown hseen 0
  rw [if_neg (Nat.not_le.mpr hfew)] at hrun
  exact ⟨_, normal_update 0 (.peer (.prepare (sys.vote blocks.length block q))) hp h.running ⟨q, hsent.sent⟩ hrun,
    (h.store hall hnodup hknown).2, hnodup, hknown, h.noTransactions⟩

/-! ### A view -/

/-- The normal case of the first `k` views: `live` are correct replicas, with a quorum and all leaders among
them, the identifiers of the blocks can be read, and the replicas do not stop before. -/
structure NormalCase (sys : System) (live : List PID) (k : ℕ) : Prop where
  tee : sys.AllTEE
  fits : sys.f + 1 ≤ maxNumSignatures
  nodup : live.Nodup
  correct : ∀ p ∈ live, sys.Correct p
  quorum : sys.f + 1 ≤ live.length
  leaders : ∀ v < k, sys.leader v ∈ live
  ids : ∀ v < k, concatDigits (sys.leader v) v < 2 ^ 31
  views : sys.maxViews = 0 ∨ k < sys.maxViews

/-- The replicas begin a view, and no transactions wait. -/
def AtView (sys : System) (cid : CID) (live : List PID) (blocks : List Block) (st : SystemState) : Prop :=
  ∀ p ∈ live, Begun sys p cid blocks (st.replica p) ∧ (st.replica p).transactions = []

variable {live : List PID} {k : ℕ}

theorem NormalCase.views_lt (h : NormalCase sys live k) {v : View} (hv : v < k) :
    v + 1 < 2 ^ 32 ∧ (sys.maxViews = 0 ∨ v + 1 < sys.maxViews) := by
  have hid := h.ids v hv
  unfold concatDigits at hid
  have hlt : v < 2 ^ 31 := Nat.lt_of_le_of_lt (Nat.le_add_left v _) hid
  exact ⟨Nat.lt_of_le_of_lt hlt (by decide), h.views.imp_right fun hk => Nat.lt_of_le_of_lt hv hk⟩

/-- `f` backups of a view. -/
theorem NormalCase.exists_backups (h : NormalCase sys live k) {v : View} (hv : v < k) :
    ∃ q qs, (q :: qs).length = sys.f ∧ (q :: qs ++ [sys.leader v]).Nodup ∧
      ∀ r ∈ q :: qs, r ∈ live ∧ r ≠ sys.leader v := by
  let backups := (live.erase (sys.leader v)).take sys.f
  have hlength : backups.length = sys.f := by
    have herase := List.length_erase_of_mem (h.leaders v hv)
    have hquorum := h.quorum
    rw [List.length_take, herase]
    omega
  have hmem : ∀ r ∈ backups, r ∈ live ∧ r ≠ sys.leader v := by
    intro r hr
    obtain ⟨hne, hr⟩ := h.nodup.mem_erase_iff.mp (List.mem_of_mem_take hr)
    exact ⟨hr, hne⟩
  have hnodup : backups.Nodup := (h.nodup.erase _).sublist (List.take_sublist _ _)
  have hnodup' : (backups ++ [sys.leader v]).Nodup := by
    refine hnodup.append (List.nodup_singleton _) fun r hr hleader => ?_
    exact (hmem r hr).2 (List.mem_singleton.mp hleader)
  cases hbackups : backups with
  | nil =>
    have hf := sys.f_pos
    rw [hbackups] at hlength
    simp at hlength
    omega
  | cons q qs =>
    rw [hbackups] at hlength hmem hnodup'
    exact ⟨q, qs, hlength, hnodup', hmem⟩

/-- **The proposal.**  The leader gets the transactions and the new-views, and proposes. -/
theorem leads_proposal (hcase : NormalCase sys live k) (hk : blocks.length < k)
    (hview : AtView sys cid live blocks st) {trans : List Transaction} (hfew : trans.length ≤ maxNumTransactions)
    (htrans : ∀ t ∈ trans, t.clientid = cid) :
    ∃ s', sys.Leads st (st.update (sys.leader blocks.length) s') ∧
      Leading sys (sys.leader blocks.length) cid blocks (sys.blockOf blocks.length trans)
        [sys.leader blocks.length] s' ∧
      (.ldrprepare (sys.proposal blocks.length (sys.blockOf blocks.length trans)),
        removeFromPeersPure (sys.config (sys.leader blocks.length)) (sys.leader blocks.length)) ∈ s'.out ∧
      .accum (sys.accumData blocks.length) ∈ s'.signed ∧ s'.transactions = [] := by
  let leader := sys.leader blocks.length
  have hleader : leader ∈ live := hcase.leaders _ hk
  have hcorrect := hcase.correct leader hleader
  obtain ⟨q, qs, hlength, hnodup, hbackups⟩ := hcase.exists_backups hk
  have hsent : ∀ r ∈ q :: qs, HasSent sys st leader (fun r => .newview (newviewOf blocks.length r))
      (.rdata (newViewIn blocks.length)) r := by
    intro r hr
    obtain ⟨hlive, hne⟩ := hbackups r hr
    obtain ⟨hbegun, -⟩ := hview r hlive
    exact ⟨(hcase.correct r hlive).1, hne, hbegun.signed, _, hbegun.sent hne,
      System.mem_keepFromPeers hcorrect.1 hne.symm⟩
  -- the transactions
  obtain ⟨hbegun, hnone⟩ := hview leader hleader
  obtain ⟨s₁, hleads₁, hbegun₁, -, htrans₁⟩ := leads_transactions hcorrect trans htrans hbegun
  rw [hnone, List.nil_append] at htrans₁
  -- all new-views but one
  have hcollecting₁ : Collecting cid blocks trans [leader] ((st.update leader s₁).replica leader) := by
    have hown := hbegun₁.own
    rw [if_pos rfl] at hown
    rw [st.replica_update_self]
    exact ⟨hbegun₁.toEntered, hown, htrans₁⟩
  have hfew₁ : qs.length + [leader].length ≤ sys.f := by
    rw [← hlength]
    exact le_rfl
  obtain ⟨s₂, hleads₂, hcollecting₂⟩ := leads_collect (fun st senders r h hr hnew hlt =>
      h.newview hcase.tee hcorrect rfl hr hnew hlt) qs [leader] (List.nodup_cons.mp hnodup).2 hfew₁
    (fun r hr => (hsent r (List.mem_cons_of_mem q hr)).update s₁) hcollecting₁
  rw [st.update_idem] at hleads₂
  -- the last one
  have hself₂ : (st.update leader s₂).replica leader = s₂ := st.replica_update_self leader s₂
  have hperm : (qs.reverse ++ [leader]).Perm (qs ++ [leader]) := (List.reverse_perm qs).append_right _
  have hnodup₂ : (q :: (qs.reverse ++ [leader])).Nodup := (hperm.cons q).nodup_iff.mpr hnodup
  have hlength₂ : (qs.reverse ++ [leader]).length = sys.f := by
    rw [hperm.length_eq, ← hlength, List.length_append]
    rfl
  have hseen : ∀ r ∈ q :: (qs.reverse ++ [leader]),
      r < sys.n ∧ Seen (st.update leader s₂) leader s₂ r (.rdata (newViewIn blocks.length)) := by
    intro r hr
    have hgrows : Grows ((st.update leader s₂).replica leader) s₂ := by
      rw [hself₂]
      exact .refl _
    have hr : r ∈ q :: qs ++ [leader] := (hperm.cons q).mem_iff.mp hr
    rcases List.mem_append.mp hr with hr | hr
    · have hr := (hsent r hr).update s₂
      exact ⟨hr.known, .of_signed hr.signed hgrows⟩
    · rw [List.mem_singleton.mp hr]
      exact ⟨hcorrect.1, .self hcollecting₂.signed⟩
  obtain ⟨s₃, hrun, hleading, -, hout, haccum, htrans₃⟩ := hcollecting₂.propose
    hcase.tee hcase.fits rfl hcollecting₂.collected hlength₂ hnodup₂ hseen (hcase.ids _ hk)
  rw [hcollecting₂.waiting] at hleading hout htrans₃
  have hlast := (hsent q List.mem_cons_self).update s₂
  have hrunning : ((st.update leader s₂).replica leader).stopped = false := by
    rw [hself₂]
    exact hcollecting₂.running
  have hnormal : sys.Normal (st.update leader s₂) ((st.update leader s₂).update leader s₃) :=
    normal_update 0 (.peer (.newview (newviewOf blocks.length q))) hcorrect hrunning
      ⟨q, hlast.sent⟩ (by rw [hself₂]; exact hrun)
  rw [st.update_idem] at hnormal
  refine ⟨s₃, (hleads₁.trans hleads₂).trans (.single hnormal), hleading, hout, haccum, ?_⟩
  rw [htrans₃, List.drop_of_length_le hfew]

/-- A backup of the view has voted. -/
structure HasVoted (sys : System) (cid : CID) (blocks : List Block) (block : Block) (p : PID) (s : State) : Prop
    extends Voted sys cid blocks block s where
  phase : s.phase = .newview
  sent : (.prepare (sys.vote blocks.length block p),
    keepFromPeers (sys.config p) (sys.leader blocks.length)) ∈ s.out
  noTransactions : s.transactions = []

/-- **The votes.**  Every backup gets the proposal, and votes. -/
theorem leads_voted (hcase : NormalCase sys live k) (hext : block.extends newHash = true)
    (hbackups : ∀ q ∈ live.erase (sys.leader blocks.length),
      Entered cid blocks (st.replica q) ∧ (st.replica q).transactions = [])
    (hout : (.ldrprepare (sys.proposal blocks.length block),
      removeFromPeersPure (sys.config (sys.leader blocks.length)) (sys.leader blocks.length)) ∈
        (st.replica (sys.leader blocks.length)).out)
    (haccum : .accum (sys.accumData blocks.length) ∈ (st.replica (sys.leader blocks.length)).signed)
    (hblock : .rdata (sys.voteData blocks.length block) ∈ (st.replica (sys.leader blocks.length)).signed) :
    ∃ st', sys.Leads st st' ∧
      (∀ r, r ∉ live.erase (sys.leader blocks.length) → st'.replica r = st.replica r) ∧
      ∀ q ∈ live.erase (sys.leader blocks.length), HasVoted sys cid blocks block q (st'.replica q) := by
  have hstep : ∀ q ∈ live.erase (sys.leader blocks.length), ∀ st₁ : SystemState,
      (∀ r, Grows (st.replica r) (st₁.replica r)) → st₁.replica q = st.replica q →
      ∃ s', sys.Normal st₁ (st₁.update q s') ∧ Grows (st.replica q) s' ∧ HasVoted sys cid blocks block q s' := by
    intro q hq st₁ hgrows hsame
    obtain ⟨hne, hlive⟩ := hcase.nodup.mem_erase_iff.mp hq
    obtain ⟨hentered, hnone⟩ := hbackups q hq
    rw [← hsame] at hentered hnone ⊢
    have hseen : ∀ t ∈ (st.replica (sys.leader blocks.length)).signed,
        Seen st₁ q (st₁.replica q) (sys.leader blocks.length) t := fun t ht =>
      .of_signed ((hgrows _).signed ht) (.refl _)
    obtain ⟨s', hrun, hvoted, hphase, hgrows', hsent, htrans⟩ := hentered.vote hcase.tee hne hext
      (hseen _ haccum) (hseen _ hblock)
    have hdelivers : Delivers st₁ q (.peer (.ldrprepare (sys.proposal blocks.length block))) :=
      ⟨_, _, (hgrows _).out hout, System.mem_removeFromPeersPure (hcase.correct q hlive).1 hne⟩
    exact ⟨s', normal_update 0 _ (hcase.correct q hlive) hentered.running hdelivers hrun, hgrows', hvoted,
      hphase, hsent, htrans.trans hnone⟩
  obtain ⟨st', hleads, -, hothers, hvoted⟩ := System.forEach (hcase.nodup.erase _) hstep
  exact ⟨st', hleads, hothers, hvoted⟩

/-- **The decision.**  The leader gets the votes, executes the block and sends the certificate. -/
theorem leads_decision (hcase : NormalCase sys live k) (hk : blocks.length < k)
    (hleading : Leading sys (sys.leader blocks.length) cid blocks block [sys.leader blocks.length]
      (st.replica (sys.leader blocks.length)))
    (hnone : (st.replica (sys.leader blocks.length)).transactions = [])
    (hvoted : ∀ q ∈ live.erase (sys.leader blocks.length), HasVoted sys cid blocks block q (st.replica q)) :
    ∃ s' signs signers, sys.Leads st (st.update (sys.leader blocks.length) s') ∧
      Begun sys (sys.leader blocks.length) cid (blocks ++ [block]) s' ∧ s'.transactions = [] ∧
      SignedBy signs signers ∧ signers.length = sys.f + 1 ∧ signers.Nodup ∧
      (∀ r ∈ signers, r < sys.n ∧ .rdata (sys.voteData blocks.length block) ∈
        ((st.update (sys.leader blocks.length) s').replica r).signed) ∧
      (.prepare ⟨sys.voteData blocks.length block, signs⟩,
        removeFromPeersPure (sys.config (sys.leader blocks.length)) (sys.leader blocks.length)) ∈ s'.out := by
  let leader := sys.leader blocks.length
  have hcorrect := hcase.correct leader (hcase.leaders _ hk)
  obtain ⟨q, qs, hlength, hnodup, hbackups⟩ := hcase.exists_backups hk
  have hsent : ∀ r ∈ q :: qs, HasSent sys st leader (fun r => .prepare (sys.vote blocks.length block r))
      (.rdata (sys.voteData blocks.length block)) r := by
    intro r hr
    obtain ⟨hlive, hne⟩ := hbackups r hr
    have hvoted := hvoted r (hcase.nodup.mem_erase_iff.mpr ⟨hne, hlive⟩)
    exact ⟨(hcase.correct r hlive).1, hne, hvoted.signed, _, hvoted.sent,
      System.mem_keepFromPeers hcorrect.1 hne.symm⟩
  -- all votes but one
  have hfew : qs.length + [leader].length ≤ sys.f := by
    rw [← hlength]
    exact le_rfl
  have hcounting : Counting sys leader cid blocks block [leader] (st.replica leader) :=
    ⟨hleading, List.nodup_singleton leader, fun r hr => List.mem_singleton.mp hr ▸ hcorrect.1, hnone⟩
  obtain ⟨s₁, hleads₁, hcounting₁⟩ := leads_collect (fun st voters r h hr hnew hlt =>
      h.vote hcase.tee hcorrect rfl hr hnew hlt) qs [leader] (List.nodup_cons.mp hnodup).2 hfew
    (fun r hr => hsent r (List.mem_cons_of_mem q hr)) hcounting
  have hleading₁ := hcounting₁.toLeading
  -- the last one
  have hself₁ : (st.update leader s₁).replica leader = s₁ := st.replica_update_self leader s₁
  have hperm : (qs.reverse ++ [leader]).Perm (qs ++ [leader]) := (List.reverse_perm qs).append_right _
  have hnodup₁ : (q :: (qs.reverse ++ [leader])).Nodup := (hperm.cons q).nodup_iff.mpr hnodup
  have hlength₁ : (qs.reverse ++ [leader]).length = sys.f := by
    rw [hperm.length_eq, ← hlength, List.length_append]
    rfl
  have hsigned : ∀ r ∈ q :: (qs.reverse ++ [leader]), r < sys.n ∧
      .rdata (sys.voteData blocks.length block) ∈ ((st.update leader s₁).replica r).signed := by
    intro r hr
    have hr : r ∈ q :: qs ++ [leader] := (hperm.cons q).mem_iff.mp hr
    rcases List.mem_append.mp hr with hr | hr
    · have hr := (hsent r hr).update s₁
      exact ⟨hr.known, hr.signed⟩
    · rw [List.mem_singleton.mp hr, hself₁]
      exact ⟨hcorrect.1, hleading₁.signed⟩
  have hseen : ∀ r ∈ q :: (qs.reverse ++ [leader]), r < sys.n ∧
      Seen (st.update leader s₁) leader s₁ r (.rdata (sys.voteData blocks.length block)) := by
    intro r hr
    obtain ⟨hknown, hr⟩ := hsigned r hr
    refine ⟨hknown, .of_signed hr ?_⟩
    rw [hself₁]
    exact .refl _
  have hknown : ∀ r ∈ q :: (qs.reverse ++ [leader]), r < sys.n := fun r hr => (hseen r hr).1
  have hcount := hleading₁.handlePrepareComb_run hcase.tee rfl hnodup₁ hknown
    (hseen q List.mem_cons_self).2 3
  rw [if_pos hlength₁.ge] at hcount
  obtain ⟨-, hleading₂⟩ := hleading₁.store hcase.tee hnodup₁ hknown
  obtain ⟨hlt, hmax⟩ := hcase.views_lt hk
  obtain ⟨s₂, signs, signers, hrun, hbegun, hgrows₂, hsigners, hsignedBy, hout, htrans₂⟩ :=
    hleading₂.decide hcase.tee hcase.fits rfl (congrArg Nat.succ hlength₁) hnodup₁ hseen
      hlt hmax 0
  have hrunning : ((st.update leader s₁).replica leader).stopped = false := by
    rw [hself₁]
    exact hleading₁.running
  have hnormal : sys.Normal (st.update leader s₁) ((st.update leader s₁).update leader s₂) :=
    normal_update 3 (.peer (.prepare (sys.vote blocks.length block q))) hcorrect hrunning
      ⟨q, ((hsent q List.mem_cons_self).update s₁).sent⟩ (by rw [hself₁]; exact hcount.trans hrun)
  rw [st.update_idem] at hnormal
  refine ⟨s₂, signs, signers, hleads₁.trans (.single hnormal), hbegun, ?_, hsignedBy,
    hsigners.length_eq.trans (congrArg Nat.succ hlength₁), hsigners.nodup_iff.mpr hnodup₁, fun r hr => ?_, hout⟩
  · exact htrans₂.trans hcounting₁.noTransactions
  · obtain ⟨hlt, hr'⟩ := hsigned r (hsigners.mem_iff.mp hr)
    refine ⟨hlt, ?_⟩
    by_cases hleader : r = leader
    · rw [hleader, st.replica_update_self]
      rw [hleader, hself₁] at hr'
      exact hgrows₂.signed hr'
    · rw [st.replica_update_of_ne leader s₂ hleader]
      rwa [st.replica_update_of_ne leader s₁ hleader] at hr'

/-- **The execution.**  Every backup gets the certificate, and executes the block. -/
theorem leads_executed (hcase : NormalCase sys live k) (hk : blocks.length < k) {signs : Signs}
    {signers : List PID} (hsignedBy : SignedBy signs signers) (hlength : signers.length = sys.f + 1) (hnodup : signers.Nodup)
    (hsigned : ∀ r ∈ signers, r < sys.n ∧ .rdata (sys.voteData blocks.length block) ∈ (st.replica r).signed)
    (hout : (.prepare ⟨sys.voteData blocks.length block, signs⟩,
      removeFromPeersPure (sys.config (sys.leader blocks.length)) (sys.leader blocks.length)) ∈
        (st.replica (sys.leader blocks.length)).out)
    (hvoted : ∀ q ∈ live.erase (sys.leader blocks.length), HasVoted sys cid blocks block q (st.replica q)) :
    ∃ st', sys.Leads st st' ∧
      (∀ r, r ∉ live.erase (sys.leader blocks.length) → st'.replica r = st.replica r) ∧
      ∀ q ∈ live.erase (sys.leader blocks.length),
        Begun sys q cid (blocks ++ [block]) (st'.replica q) ∧ (st'.replica q).transactions = [] := by
  obtain ⟨hlt, hmax⟩ := hcase.views_lt hk
  have hstep : ∀ q ∈ live.erase (sys.leader blocks.length), ∀ st₁ : SystemState,
      (∀ r, Grows (st.replica r) (st₁.replica r)) → st₁.replica q = st.replica q →
      ∃ s', sys.Normal st₁ (st₁.update q s') ∧ Grows (st.replica q) s' ∧
        (Begun sys q cid (blocks ++ [block]) s' ∧ s'.transactions = []) := by
    intro q hq st₁ hgrows hsame
    obtain ⟨hne, hlive⟩ := hcase.nodup.mem_erase_iff.mp hq
    have hvoted := hvoted q hq
    rw [← hsame] at hvoted ⊢
    -- the voters may have gone on, but what they have signed stays signed
    have hquorum : Quorum sys st₁ q (st₁.replica q) signs (.rdata (sys.voteData blocks.length block)) signers :=
      ⟨hsignedBy.1, hsignedBy.2, hlength ▸ Nat.succ_pos _, hlength ▸ hcase.fits, hnodup, fun r hr =>
        ⟨(hsigned r hr).1, .of_signed ((hgrows r).signed (hsigned r hr).2) (.refl _)⟩⟩
    obtain ⟨s', hrun, hbegun, hgrows', htrans⟩ := hvoted.decided hcase.tee (hcase.correct q hlive).1 hne
      hvoted.phase hquorum hlength hlt hmax 0
    have hdelivers : Delivers st₁ q (.peer (.prepare ⟨sys.voteData blocks.length block, signs⟩)) :=
      ⟨_, _, (hgrows _).out hout, System.mem_removeFromPeersPure (hcase.correct q hlive).1 hne⟩
    exact ⟨s', normal_update 3 _ (hcase.correct q hlive) hvoted.running hdelivers hrun, hgrows', hbegun,
      htrans.trans hvoted.noTransactions⟩
  obtain ⟨st', hleads, -, hothers, hbegun⟩ := System.forEach (hcase.nodup.erase _) hstep
  exact ⟨st', hleads, hothers, hbegun⟩

/-- **A view.**  All replicas execute the block with the transactions, and begin the next view. -/
theorem leads_view (hcase : NormalCase sys live k) (hk : blocks.length < k)
    (hview : AtView sys cid live blocks st) {trans : List Transaction}
    (hfew : trans.length ≤ maxNumTransactions) (htrans : ∀ t ∈ trans, t.clientid = cid) :
    ∃ st', sys.Leads st st' ∧ AtView sys cid live (blocks ++ [sys.blockOf blocks.length trans]) st' := by
  let leader := sys.leader blocks.length
  let block := sys.blockOf blocks.length trans
  have hext : block.extends newHash = true := eqHashes_self newHash
  have hnot : leader ∉ live.erase leader := fun hmem => (hcase.nodup.mem_erase_iff.mp hmem).1 rfl
  have hne : ∀ q ∈ live.erase leader, q ≠ leader := fun q hq => (hcase.nodup.mem_erase_iff.mp hq).1
  -- the proposal
  obtain ⟨s₁, hleads₁, hleading, hout, haccum, hnone₁⟩ := leads_proposal hcase hk hview hfew htrans
  let st₁ := st.update leader s₁
  have hself₁ : st₁.replica leader = s₁ := st.replica_update_self leader s₁
  have hbackups : ∀ q ∈ live.erase leader,
      Entered cid blocks (st₁.replica q) ∧ (st₁.replica q).transactions = [] := by
    intro q hq
    obtain ⟨hbegun, hnone⟩ := hview q (List.mem_of_mem_erase hq)
    rw [st.replica_update_of_ne leader s₁ (hne q hq)]
    exact ⟨hbegun.toEntered, hnone⟩
  -- the votes
  have hleading' := hleading
  rw [← hself₁] at hout haccum hleading' hnone₁
  obtain ⟨st₂, hleads₂, hsame₂, hvoted⟩ := leads_voted hcase hext hbackups hout haccum hleading'.signed
  rw [← hsame₂ leader hnot] at hleading' hnone₁
  -- the decision
  obtain ⟨s₃, signs, signers, hleads₃, hbegun₃, hnone₃, hsignedBy, hlength, hnodup, hsigned, hout₃⟩ :=
    leads_decision hcase hk hleading' hnone₁ hvoted
  let st₃ := st₂.update leader s₃
  have hself₃ : st₃.replica leader = s₃ := st₂.replica_update_self leader s₃
  have hvoted₃ : ∀ q ∈ live.erase leader, HasVoted sys cid blocks block q (st₃.replica q) := by
    intro q hq
    rw [st₂.replica_update_of_ne leader s₃ (hne q hq)]
    exact hvoted q hq
  -- the execution
  rw [← hself₃] at hout₃
  obtain ⟨st₄, hleads₄, hsame₄, hbegun₄⟩ := leads_executed hcase hk hsignedBy hlength hnodup hsigned hout₃ hvoted₃
  refine ⟨st₄, ((hleads₁.trans hleads₂).trans hleads₃).trans hleads₄, fun p hp => ?_⟩
  by_cases hleader : p = leader
  · rw [hleader, hsame₄ leader hnot, hself₃]
    exact ⟨hbegun₃, hnone₃⟩
  · exact hbegun₄ p (hcase.nodup.mem_erase_iff.mpr ⟨hleader, hp⟩)

/-! ### Any number of views -/

/-- The client starts the replicas. -/
theorem leads_start (hcase : NormalCase sys live k) (cid : CID) :
    ∃ st, sys.Leads .init st ∧ AtView sys cid live [] st := by
  have hstep : ∀ q ∈ live, ∀ st₁ : SystemState, (∀ r, Grows (SystemState.init.replica r) (st₁.replica r)) →
      st₁.replica q = SystemState.init.replica q →
      ∃ s', sys.Normal st₁ (st₁.update q s') ∧ Grows (SystemState.init.replica q) s' ∧
        (Begun sys q cid [] s' ∧ s'.transactions = []) := by
    intro q hq st₁ _ hsame
    have hsame : st₁.replica q = .init := hsame
    obtain ⟨s', hrun, hbegun, hnone⟩ := handleStart_run st₁ hcase.tee (hcase.correct q hq).1 cid
    have hnormal : sys.Normal st₁ (st₁.update q s') := by
      refine normal_update 0 (.start cid) (hcase.correct q hq) ?_ trivial ?_
      · rw [hsame]
        rfl
      · rw [hsame]
        exact hrun
    have hgrows : Grows State.init s' :=
      ⟨fun _ ht => absurd ht List.not_mem_nil, fun _ hm => absurd hm List.not_mem_nil⟩
    exact ⟨s', hnormal, hgrows, hbegun, hnone⟩
  obtain ⟨st, hleads, -, -, hbegun⟩ := System.forEach hcase.nodup hstep
  exact ⟨st, hleads, hbegun⟩

/-- The blocks of the first views, when the client gives these transactions to the leaders. -/
def System.blocksOf (sys : System) (batch : View → List Transaction) (k : ℕ) : List Block :=
  (List.range k).map fun v => sys.blockOf v (batch v)

theorem System.length_blocksOf (batch : View → List Transaction) : (sys.blocksOf batch k).length = k := by
  unfold blocksOf
  rw [List.length_map, List.length_range]

theorem System.blocksOf_succ (batch : View → List Transaction) :
    sys.blocksOf batch (k + 1) = sys.blocksOf batch k ++ [sys.blockOf k (batch k)] := by
  unfold blocksOf
  rw [List.range_succ, List.map_append]
  rfl

/-- View after view. -/
theorem leads_views (hcase : NormalCase sys live k) {batch : View → List Transaction}
    (hfew : ∀ v < k, (batch v).length ≤ maxNumTransactions) (hclient : ∀ v < k, ∀ t ∈ batch v, t.clientid = cid)
    {j : ℕ} (hj : j ≤ k) : ∃ st, sys.Leads .init st ∧ AtView sys cid live (sys.blocksOf batch j) st := by
  induction j with
  | zero => exact leads_start hcase cid
  | succ j ih =>
    obtain ⟨st, hleads, hview⟩ := ih (Nat.le_of_succ_le hj)
    have hlength : (sys.blocksOf batch j).length = j := System.length_blocksOf batch
    have hk : (sys.blocksOf batch j).length < k := by
      rw [hlength]
      exact hj
    obtain ⟨st', hleads', hview'⟩ := leads_view hcase hk hview (hfew j hj) (hclient j hj)
    rw [hlength, ← System.blocksOf_succ] at hview'
    exact ⟨st', hleads.trans hleads', hview'⟩

/-- **Progress.**  There is a run in which only messages that were sent, and those of a client, are delivered,
and after which every one of these replicas has executed exactly the blocks of the first `k` views, each with
the transactions that the client has given to its leader, has prepared the client's replies to them, and
goes on. -/
theorem damysus_progress (sys : System) (live : List PID) (k : ℕ) (hcase : NormalCase sys live k) (cid : CID)
    (batch : View → List Transaction) (hfew : ∀ v < k, (batch v).length ≤ maxNumTransactions)
    (hclient : ∀ v < k, ∀ t ∈ batch v, t.clientid = cid) :
    ∃ acts, (∀ p c, .ecall p c ∉ acts) ∧
      (∀ l p fuel i l', acts = l ++ .input p fuel i :: l' → Delivers (sys.run l) p i) ∧
      ∀ p ∈ live,
        let s := (sys.run acts).replica p
        s.executed.map Execution.block = sys.blocksOf batch k ∧
          s.executed.map (fun e => e.data.propv) = List.range k ∧
          (s.kvExecutor, s.repQueue) = served cid (sys.blocksOf batch k) ∧ s.view = k ∧
          s.stopped = false := by
  obtain ⟨st, hleads, hview⟩ := leads_views hcase hfew hclient le_rfl
  obtain ⟨acts, rfl, hcalls, hdelivers⟩ := hleads.exists_run
  refine ⟨acts, hcalls, hdelivers, fun p hp => ?_⟩
  obtain ⟨hbegun, -⟩ := hview p hp
  have hlength : (sys.blocksOf batch k).length = k := System.length_blocksOf batch
  have hviews := hbegun.views
  have hlast := hbegun.view
  rw [hlength] at hviews hlast
  exact ⟨hbegun.executed, hviews, hbegun.answered, hlast, hbegun.running⟩

/-- A transaction for each view. -/
def oneEach (v : View) : List Transaction := [⟨0, v, Vector.replicate _ 48⟩]

/-- Two of three replicas, and two views. -/
theorem damysus_progress_two_views :
    ∃ acts, (∀ p c, .ecall p c ∉ acts) ∧ ∀ p ∈ [0, 1],
      (((threeReplicas {2}).run acts).replica p).executed.map Execution.block =
          (threeReplicas {2}).blocksOf oneEach 2 ∧
        (((threeReplicas {2}).run acts).replica p).stopped = false := by
  have hcase : NormalCase (threeReplicas {2}) [0, 1] 2 :=
    ⟨⟨by decide, nofun⟩, by decide, by decide, by decide, by decide, by decide, by decide, Or.inl rfl⟩
  obtain ⟨acts, hcalls, -, hlive⟩ := damysus_progress (threeReplicas {2}) [0, 1] 2 hcase 0 oneEach
    (fun _ _ => (by decide : 1 ≤ maxNumTransactions)) fun v _ t ht => by rw [List.mem_singleton.mp ht]
  refine ⟨acts, hcalls, fun p hp => ?_⟩
  obtain ⟨hblocks, -, -, -, hrunning⟩ := hlive p hp
  exact ⟨hblocks, hrunning⟩

end Raftel.Damysus
