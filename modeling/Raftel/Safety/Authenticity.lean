import Raftel.Equiv.Share

/-!
# Whose signatures a quorum is made of

`initialize_variables` gives every component the same private key and enters the same public key for
every node, and the signed text does not name the signer.  A signature therefore says only that
somebody signed the text.

* `quorumAuthentic_iff` : on which histories every accepted quorum still consists of signatures of
  its listed signers
* `not_quorumAuthentic_one_signer` : three accepted signatures made by a fourth node
-/

namespace Raftel

variable {Key T : Type}

/-- An ideal signature scheme: under the public key `pub` a signature on `t` verifies if and only if
a holder of the private key has signed `t`.  `priv i` is the private key of node `i`, `pubOf` the
public key that belongs to a private key. -/
def IdealScheme (verifySign : Sign → Key → T → Bool) (pubOf : Key → Key) (priv : PID → Key)
    (signed : PID → T → Prop) : Prop :=
  ∀ s pub t, verifySign s pub t = true ↔ ∃ i, pubOf (priv i) = pub ∧ signed i t

/-- Every quorum that `verifyQuorum` accepts on the text `t` is authentic: each listed signer has
signed the text. -/
def QuorumAuthentic (verifySign : Sign → Key → T → Bool) (vars : EnclaveVars Key)
    (signed : PID → T → Prop) (t : T) (expectedSize : ℕ) (teeOnly : Bool) : Prop :=
  ∀ signs, vars.verifyQuorum verifySign signs t expectedSize teeOnly = true →
    ∀ s ∈ signs.entries, signed s.signer t

/-- The nodes that may appear in a quorum: they have a public key and a type, TEE if `teeOnly`. -/
def EnclaveVars.eligible (vars : EnclaveVars Key) (teeOnly : Bool) : List PID :=
  vars.pubs.keys.filter fun j =>
    match vars.nodeIsTEE.lookup j with
    | some isTEE => !teeOnly || isTEE
    | none => false

theorem EnclaveVars.mem_eligible {vars : EnclaveVars Key} {teeOnly : Bool} {j : PID} :
    j ∈ vars.eligible teeOnly ↔ (∃ pub, vars.pubs.lookup j = some pub) ∧
      ∃ isTEE, vars.nodeIsTEE.lookup j = some isTEE ∧ (teeOnly = true → isTEE = true) := by
  rw [EnclaveVars.eligible, List.mem_filter, ← Option.isSome_iff_exists, AList.lookup_isSome,
    AList.mem_keys]
  refine and_congr_right fun _ => ?_
  cases vars.nodeIsTEE.lookup j with
  | none => simp
  | some isTEE => cases teeOnly <;> simp

/-- The signers of an accepted quorum are eligible. -/
theorem eligible_of_verifyQuorum {verifySign : Sign → Key → T → Bool} {vars : EnclaveVars Key}
    {signs : Signs} {t : T} {expectedSize : ℕ} {teeOnly : Bool}
    (h : vars.verifyQuorum verifySign signs t expectedSize teeOnly = true) :
    ∀ s ∈ signs.entries, s.signer ∈ vars.eligible teeOnly := by
  obtain ⟨-, htype, htext⟩ := EnclaveVars.verifyQuorum_eq_true.mp h
  obtain ⟨-, -, -, hver⟩ := EnclaveVars.verifyText_eq_true.mp htext
  intro s hs
  obtain ⟨-, pub, hpub, -⟩ := hver s hs
  exact EnclaveVars.mem_eligible.mpr ⟨⟨pub, hpub⟩, htype s hs⟩

/-- Different eligible nodes, as many as expected, make an accepted quorum as soon as a signature
under their public keys verifies. -/
theorem verifyQuorum_of_eligible {verifySign : Sign → Key → T → Bool} {vars : EnclaveVars Key}
    {t : T} {teeOnly : Bool} {l : List PID} (bytes : Vector UInt8 signLen) (hpos : 0 < l.length)
    (hle : l.length ≤ maxNumSignatures) (hnodup : l.Nodup)
    (hl : ∀ j ∈ l, j ∈ vars.eligible teeOnly)
    (hver : ∀ s pub, vars.pubs.lookup s.signer = some pub → verifySign s pub t = true) :
    vars.verifyQuorum verifySign (Signs.ofList (l.map fun j => ⟨true, j, bytes⟩)) t l.length
      teeOnly = true := by
  have hsize : (Signs.ofList (l.map fun j => (⟨true, j, bytes⟩ : Sign))).size = l.length :=
    List.length_map ..
  have hentries := Signs.entries_ofList (l := l.map fun j => ⟨true, j, bytes⟩)
    (by rwa [List.length_map])
  rw [EnclaveVars.verifyQuorum_eq_true, EnclaveVars.verifyText_eq_true, hentries, hsize]
  refine ⟨rfl, ?_, hpos, hle, ?_, ?_⟩
  · intro s hs
    obtain ⟨j, hj, rfl⟩ := List.mem_map.mp hs
    exact (EnclaveVars.mem_eligible.mp (hl j hj)).2
  · rw [List.map_map]
    simpa [Function.comp_def] using hnodup
  · intro s hs
    obtain ⟨j, hj, rfl⟩ := List.mem_map.mp hs
    obtain ⟨pub, hpub⟩ := (EnclaveVars.mem_eligible.mp (hl j hj)).1
    exact ⟨rfl, pub, hpub, hver _ pub hpub⟩

/-- A list of different elements of `l`, of any length up to `l`'s, with a given element in it. -/
theorem exists_sublist_with {l : List PID} (hnodup : l.Nodup) {j : PID} (hj : j ∈ l) {n : ℕ}
    (hpos : 0 < n) (hn : n ≤ l.length) :
    ∃ l' : List PID, l'.length = n ∧ l'.Nodup ∧ j ∈ l' ∧ ∀ i ∈ l', i ∈ l := by
  have hsub : ((l.erase j).take (n - 1)).Sublist (l.erase j) := List.take_sublist ..
  have hlen : (l.erase j).length = l.length - 1 := List.length_erase_of_mem hj
  refine ⟨j :: (l.erase j).take (n - 1), ?_, ?_, List.mem_cons_self, ?_⟩
  · rw [List.length_cons, List.length_take, hlen]
    omega
  · refine List.nodup_cons.mpr ⟨fun h => ?_, hsub.nodup (hnodup.erase j)⟩
    exact (hnodup.mem_erase_iff.mp (hsub.subset h)).1 rfl
  · intro i hi
    rcases List.mem_cons.mp hi with rfl | hi
    · exact hj
    · exact List.mem_of_mem_erase (hsub.subset hi)

section SharedKey

variable {privKey256 pubKey256 : Key} {me : PID} {others : List PID} {q tq : ℕ}
  {nodes : List NodeInfo}

/-- The table of public keys holds one key only. -/
theorem pubs_initializeVariables {j : PID} {pub : Key}
    (h : (initializeVariables privKey256 pubKey256 me others q tq nodes).pubs.lookup j =
      some pub) : pub = pubKey256 := by
  have hfold : ∀ (l : List PID) (m : StdMap PID Key),
      (∀ pub, m.lookup j = some pub → pub = pubKey256) →
      ∀ pub, (l.foldl (fun m j => m.insert j pubKey256) m).lookup j = some pub →
        pub = pubKey256 := by
    intro l
    induction l with
    | nil => exact fun m hm => hm
    | cons i l ih =>
      intro m hm
      refine ih _ fun pub hpub => ?_
      by_cases hji : j = i
      · rw [hji, AList.lookup_insert] at hpub
        exact (Option.some.inj hpub).symm
      · rw [AList.lookup_insert_ne hji] at hpub
        exact hm pub hpub
  exact hfold others ∅ (fun pub hpub => by simp at hpub) pub h

end SharedKey

/-- **Exactly when quorums are authentic.**  With the tables of `initialize_variables` and an ideal
signature scheme: nobody has signed the text, or every eligible node has, or there is no quorum of
the expected size to be had at all. -/
theorem quorumAuthentic_iff {verifySign : Sign → Key → T → Bool} {pubOf : Key → Key}
    {signed : PID → T → Prop} (privKey256 pubKey256 : Key) (hpair : pubOf privKey256 = pubKey256)
    (me : PID) (others : List PID) (q tq : ℕ) (nodes : List NodeInfo)
    (hideal : IdealScheme verifySign pubOf
      (fun i => (initializeVariables privKey256 pubKey256 i others q tq nodes).priv) signed)
    (t : T) (expectedSize : ℕ) (teeOnly : Bool) :
    QuorumAuthentic verifySign (initializeVariables privKey256 pubKey256 me others q tq nodes)
        signed t expectedSize teeOnly ↔
      (∀ i, ¬ signed i t) ∨
      (∀ j ∈ (initializeVariables privKey256 pubKey256 me others q tq nodes).eligible teeOnly,
        signed j t) ∨
      expectedSize = 0 ∨ maxNumSignatures < expectedSize ∨
      ((initializeVariables privKey256 pubKey256 me others q tq nodes).eligible teeOnly).length
        < expectedSize := by
  set vars := initializeVariables privKey256 pubKey256 me others q tq nodes with hvars
  have hver : ∀ s pub, vars.pubs.lookup s.signer = some pub →
      (verifySign s pub t = true ↔ ∃ i, signed i t) := by
    intro s pub hpub
    rw [hideal s pub t, pubs_initializeVariables hpub]
    simp [initializeVariables, hpair]
  constructor
  · intro hauth
    by_contra hcond
    simp only [not_or, not_forall, not_not, not_lt] at hcond
    obtain ⟨⟨i, hi⟩, ⟨j, hj, hnot⟩, hzero, hmax, hlen⟩ := hcond
    have hnodup : (vars.eligible teeOnly).Nodup := vars.pubs.keys_nodup.filter _
    obtain ⟨l, hl, hlnodup, hjl, hsub⟩ :=
      exists_sublist_with hnodup hj (Nat.pos_of_ne_zero hzero) hlen
    have hq := verifyQuorum_of_eligible (Vector.replicate _ 48) (by omega) (by omega) hlnodup hsub
      (fun s pub hpub => (hver s pub hpub).mpr ⟨i, hi⟩)
    rw [hl] at hq
    refine hnot (hauth _ hq ⟨true, j, Vector.replicate _ 48⟩ ?_)
    rw [Signs.entries_ofList (by rw [List.length_map]; omega)]
    exact List.mem_map_of_mem hjl
  · intro hcond signs hq s hs
    obtain ⟨hsize, -, htext⟩ := EnclaveVars.verifyQuorum_eq_true.mp hq
    obtain ⟨hpos, hle, hnodup, hall⟩ := EnclaveVars.verifyText_eq_true.mp htext
    have helig := eligible_of_verifyQuorum hq
    rcases hcond with hnobody | hevery | hzero | hmax | hlen
    · obtain ⟨-, pub, hpub, hv⟩ := hall s hs
      obtain ⟨i, hi⟩ := (hver s pub hpub).mp hv
      exact absurd hi (hnobody i)
    · exact hevery s.signer (helig s hs)
    · omega
    · omega
    · -- different eligible signers cannot outnumber the eligible nodes
      have hsub : signs.entries.map Sign.signer ⊆ vars.eligible teeOnly := by
        intro j hj
        obtain ⟨s, hs, rfl⟩ := List.mem_map.mp hj
        exact helig s hs
      have hcard := (List.subperm_of_subset hnodup hsub).length_le
      rw [List.length_map, Signs.length_entries hle] at hcard
      omega

/-! ### One signer for three -/

section OneSigner

/-- The tables of node 3 among four TEE nodes; the key pair is `1`, `2`. -/
def oneSignerVars : EnclaveVars ℕ :=
  initializeVariables 1 2 3 [0, 1, 2, 3] 3 3 [⟨0, true⟩, ⟨1, true⟩, ⟨2, true⟩, ⟨3, true⟩]

/-- Node 0 has signed the text `1`; nobody has signed anything else. -/
def OneSigned (i : PID) (t : Text) : Prop := i = 0 ∧ t = [49]

/-- The ideal scheme on that history. -/
def oneSignerVerify (_ : Sign) (pub : ℕ) (t : Text) : Bool := pub = 2 && t = [49]

/-- All nodes sign with the one key, so that the scheme is ideal whoever has signed, if node 0 has. -/
theorem oneSignerVerify_ideal {p : PID → Prop} (hzero : p 0) : IdealScheme oneSignerVerify (· + 1)
    (fun i => (initializeVariables 1 2 i [0, 1, 2, 3] 3 3
      [⟨0, true⟩, ⟨1, true⟩, ⟨2, true⟩, ⟨3, true⟩]).priv) fun i t => p i ∧ t = [49] := by
  intro s pub t
  simp only [oneSignerVerify, initializeVariables, Bool.and_eq_true, decide_eq_true_eq]
  constructor
  · rintro ⟨rfl, rfl⟩
    exact ⟨0, rfl, hzero, rfl⟩
  · rintro ⟨i, rfl, -, rfl⟩
    exact ⟨rfl, rfl⟩

theorem oneSigner_ideal : IdealScheme oneSignerVerify (· + 1)
    (fun i => (initializeVariables 1 2 i [0, 1, 2, 3] 3 3
      [⟨0, true⟩, ⟨1, true⟩, ⟨2, true⟩, ⟨3, true⟩]).priv) OneSigned :=
  oneSignerVerify_ideal rfl

/-- **A signature of one replica passes for another's.**  Copies of node 0's signature, presented as
those of nodes 1, 2 and 3, are accepted as a quorum of TEE nodes. -/
theorem not_quorumAuthentic_one_signer :
    ¬ QuorumAuthentic oneSignerVerify oneSignerVars OneSigned [49] 3 true := by
  intro h
  have hquorum : oneSignerVars.verifyQuorum oneSignerVerify
      (Signs.ofList ([1, 2, 3].map fun j => ⟨true, j, Vector.replicate _ 48⟩)) [49] 3 true
      = true := by
    decide +kernel
  have hone := h _ hquorum ⟨true, 1, Vector.replicate _ 48⟩ (by
    rw [Signs.entries_ofList (by decide)]
    exact List.mem_cons_self)
  exact absurd hone.1 (by decide)

/-- All four nodes have signed the text `1`, and nobody anything else. -/
def AllSigned (i : PID) (t : Text) : Prop := i < 4 ∧ t = [49]

theorem allSigned_ideal : IdealScheme oneSignerVerify (· + 1)
    (fun i => (initializeVariables 1 2 i [0, 1, 2, 3] 3 3
      [⟨0, true⟩, ⟨1, true⟩, ⟨2, true⟩, ⟨3, true⟩]).priv) AllSigned :=
  oneSignerVerify_ideal (by decide)

/-- On a text that every eligible node has signed, the quorums that are accepted are authentic. -/
theorem quorumAuthentic_signed_by_all :
    oneSignerVars.verifyQuorum oneSignerVerify
        (Signs.ofList ([1, 2, 3].map fun j => ⟨true, j, Vector.replicate _ 48⟩)) [49] 3 true = true ∧
      QuorumAuthentic oneSignerVerify oneSignerVars AllSigned [49] 3 true := by
  refine ⟨by decide +kernel, (quorumAuthentic_iff 1 2 rfl 3 [0, 1, 2, 3] 3 3 _ allSigned_ideal [49] 3
    true).mpr (Or.inr (Or.inl ?_))⟩
  have heligible : ∀ j ∈ oneSignerVars.eligible true, j < 4 := by decide +kernel
  exact fun j hj => ⟨heligible j hj, rfl⟩

end OneSigner

end Raftel
