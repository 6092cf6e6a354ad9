import Raftel.Safety.ChainedMarks

/-!
# The block of a view

`voteChComb` stores a block before anything is known of it, over the one that is stored for the view.  Where a
proposal came early, or enough new-views have come, the source looks first whether there is one, and where
enough votes have come the replica has just entered the view.  It does not look where a proposal arrives, and
there the signature is checked, but not who signed.

* `Views` : while the views ascend, nothing is stored for a view that the replica has just entered
* `keepsBlocks_of_orderly` : a replica keeps the block it has voted for as long as no proposal arrives that
  takes its place
* `not_keepsBlocks_second_proposal` : the next leader stays in its view, and gets a second proposal there
-/

namespace Raftel.Chained

open Lib

variable {Key : Type}

/-! ### Votes and signatures -/

section Def

variable (cfg : HandlerConfig Key) (cr : Crypto Key)

/-- The component signs the vote for the block: the block of its certificate is stored, and `TEEprepare` has
replied with one signature. -/
def Store.Accepted (r : Store) : Prop :=
  ∃ block0, (r.cblocks.insert r.view r.block).lookup (ca2view r.block.cert) = some block0 ∧
    (chCombCall cr (enclaveVars cfg) r.tq (.prepare r.block (block0.hash cr.sha256))).1.toJust.signs.size = 1

/-- The replica has voted for the block that is stored for a view. -/
def VotedFor (stores : List Store) (v : View) (b : CBlock) : Prop :=
  ∃ r ∈ stores, r.view = v ∧ r.block.hash cr.sha256 = b.hash cr.sha256 ∧ r.Accepted cfg cr

/-- The leader of the view has signed the block, unless it is the genesis block. -/
inductive Store.SignedByLeader (r : Store) : Prop
  | genesis (hview : r.view = 0) (hblock : r.block = genBlock)
  | own (hleader : r.leader = cfg.myid) (haccepted : r.Accepted cfg cr)
  | proposal {sign : Sign} (hsigner : sign.signer = r.leader)
      (hverified : verifyLdrPrepareChComb cfg cr ⟨r.block, sign⟩ = true)

/-- Who signed the proposal. -/
def Origin.signer : Origin → Option PID
  | .proposal sign | .earlier sign => some sign.signer
  | _ => none

/-- What the replica does not check of the blocks that it stores: that a proposal that arrives is not for a view
whose block it has voted for or executed, that the leader has signed it, that the component signs its own
block, that nothing is stored before its start. -/
structure Store.Orderly (earlier : List Store) (r : Store) : Prop where
  arriving : ∀ sign, r.origin = .proposal sign → ∀ b, r.cblocks.lookup r.view = some b →
    (VotedFor cfg cr earlier r.view b → r.block.hash cr.sha256 = b.hash cr.sha256) ∧
      (b.executed = true → r.block.executed = true)
  signer : ∀ p ∈ r.origin.signer, p = r.leader
  own : r.origin = .own → r.Accepted cfg cr
  start : r.origin = .genesis → r.cblocks.lookup r.view = none

/-- The views that the replica enters ascend: its counter does not wrap around, and its start does not set it
back. -/
def State.Ascends (s : State) : Prop := (s.entered.map Entry.view).Pairwise (· < ·)

/-- The views ascend, and the stored blocks are orderly, each after those before it. -/
structure State.Orderly (s : State) : Prop where
  ascends : s.Ascends
  stores : ∀ earlier r later, s.stores = earlier ++ r :: later → r.Orderly cfg cr earlier

/-- From a state to a later one, the replica sticks to the blocks it has voted for; it has executed the
transactions of a view once; and the leaders have signed what is stored. -/
structure KeepsBlocks (s s' : State) : Prop where
  sticks : ∀ v b, s.cblocks.lookup v = some b → VotedFor cfg cr s.stores v b →
    ∃ b', s'.cblocks.lookup v = some b' ∧ b'.hash cr.sha256 = b.hash cr.sha256 ∧
      (b.executed = true → b'.executed = true)
  once : (s'.executed.map fun e => e.block.view).Nodup
  signed : ∀ v b, s'.cblocks.lookup v = some b →
    ∃ r ∈ s'.stores, r.view = v ∧ r.block.markExecuted = b.markExecuted ∧ r.SignedByLeader cfg cr

end Def

variable {cfg : HandlerConfig Key} {cr : Crypto Key} {received : Msg → Prop} {s s' : State}

instance (r : Store) : Decidable (r.Accepted cfg cr) :=
  decidable_of_iff (((r.cblocks.insert r.view r.block).lookup (ca2view r.block.cert)).any fun block0 =>
    (chCombCall cr (enclaveVars cfg) r.tq (.prepare r.block (block0.hash cr.sha256))).1.toJust.signs.size = 1)
    (by simp [Store.Accepted, Option.any_eq_true])

instance (stores : List Store) (v : View) (b : CBlock) : Decidable (VotedFor cfg cr stores v b) :=
  inferInstanceAs (Decidable (∃ r ∈ stores, r.view = v ∧ _ ∧ _))

theorem VotedFor.mono {stores stores' : List Store} {v : View} {b : CBlock}
    (h : VotedFor cfg cr stores v b) (hpre : stores <+: stores') : VotedFor cfg cr stores' v b := by
  obtain ⟨r, hr, hvoted⟩ := h
  exact ⟨r, hpre.subset hr, hvoted⟩

/-- The vote is for the hash. -/
theorem VotedFor.of_hash {stores : List Store} {v : View} {b b' : CBlock}
    (h : VotedFor cfg cr stores v b) (hhash : b'.hash cr.sha256 = b.hash cr.sha256) :
    VotedFor cfg cr stores v b' := by
  obtain ⟨r, hr, hview, hvoted, haccepted⟩ := h
  exact ⟨r, hr, hview, hvoted.trans hhash.symm, haccepted⟩

theorem State.Ascends.of_prefix (h : s'.Ascends) (hpre : s.entered <+: s'.entered) : s.Ascends :=
  List.Pairwise.sublist (hpre.sublist.map Entry.view) h

theorem State.Orderly.of_prefix (h : s'.Orderly cfg cr) (hentered : s.entered <+: s'.entered)
    (hstores : s.stores <+: s'.stores) : s.Orderly cfg cr := by
  refine ⟨h.ascends.of_prefix hentered, fun earlier r later hsplit => ?_⟩
  obtain ⟨rest, hrest⟩ := hstores
  refine h.stores earlier r (later ++ rest) ?_
  rw [← hrest, hsplit, List.append_assoc]
  rfl

theorem State.Orderly.last {r : Store} (h : s'.Orderly cfg cr) (hstores : s'.stores = s.stores ++ [r]) :
    r.Orderly cfg cr s.stores := h.stores s.stores r [] hstores

/-- It is enough that no block is stored for the view. -/
theorem orderly_of_none (hascends : s.Ascends) (hnone : ∀ r ∈ s.stores, r.cblocks.lookup r.view = none)
    (hown : ∀ r ∈ s.stores, r.origin ≠ .own)
    (hsigned : ∀ r ∈ s.stores, ∀ p ∈ r.origin.signer, p = r.leader) : s.Orderly cfg cr := by
  refine ⟨hascends, fun earlier r later hsplit => ?_⟩
  have hr : r ∈ s.stores := hsplit ▸ List.mem_append_right _ List.mem_cons_self
  refine ⟨fun sign _ b hb => ?_, hsigned r hr, fun h => absurd h (hown r hr), fun _ => hnone r hr⟩
  exact absurd ((hnone r hr).symm.trans hb) (Option.some_ne_none b).symm

/-! ### The views -/

/-- The replica has entered its view and no later one, and stores nothing for a later one, and nothing for its
view before it has stored a block there. -/
structure Views (s : State) : Prop where
  current : s.view = 0 ∨ ∃ e ∈ s.entered, e.view = s.view
  counted : ∀ e ∈ s.entered, e.stored ≤ s.stores.length
  stored_le : ∀ w, s.cblocks.lookup w ≠ none → w ≤ s.view
  just_entered : s.entered.getLast? = some ⟨s.view, s.stores.length⟩ →
    ∀ w, s.cblocks.lookup w ≠ none → w < s.view

theorem Views.of_same (h : Views s) (hview : s'.view = s.view) (hentered : s'.entered = s.entered)
    (hstores : s'.stores.length = s.stores.length)
    (hcblocks : ∀ w, s'.cblocks.lookup w ≠ none → s.cblocks.lookup w ≠ none) : Views s' := by
  refine ⟨?_, ?_, fun w hw => ?_, fun hlast w hw => ?_⟩
  · rw [hview, hentered]
    exact h.current
  · rw [hentered, hstores]
    exact h.counted
  · rw [hview]
    exact h.stored_le w (hcblocks w hw)
  · rw [hentered, hview, hstores] at hlast
    rw [hview]
    exact h.just_entered hlast w (hcblocks w hw)

/-- The replica enters a view that is later than all before. -/
theorem Views.enter {view : View} (h : Views s) (hlt : s.view < view) : Views (s.enter view) := by
  refine ⟨Or.inr ⟨_, List.mem_append_right _ List.mem_cons_self, rfl⟩, fun e he => ?_, fun w hw => ?_,
    fun _ w hw => ?_⟩
  · rcases List.mem_append.mp he with he | he
    · exact h.counted e he
    · rw [List.mem_singleton.mp he]
      exact le_rfl
  · exact ((h.stored_le w hw).trans_lt hlt).le
  · exact (h.stored_le w hw).trans_lt hlt

/-- The replica stores a block in its view. -/
theorem Views.store (h : Views s) (origin : Origin) (block : CBlock) :
    Views (s.storeBlock cfg s.view origin block) := by
  have hlength : (s.storeBlock cfg s.view origin block).stores.length = s.stores.length + 1 :=
    List.length_append
  refine ⟨h.current, fun e he => ?_, fun w hw => ?_, fun hlast => ?_⟩
  · rw [hlength]
    exact (h.counted e he).trans (Nat.le_succ _)
  · by_cases hwv : w = s.view
    · exact hwv.le
    · refine h.stored_le w ?_
      rwa [State.storeBlock, AList.lookup_insert_ne hwv] at hw
  · -- there is one block more than when the view was entered
    have hle := h.counted _ (List.mem_of_getLast? hlast)
    rw [hlength] at hle
    exact absurd hle (Nat.not_succ_le_self _)

/-- The replica ends up in a later view than the one it was in, if the views that it has entered ascend. -/
theorem Views.lt_of_ascends {e : Entry} (h : Views s) (hpos : s.view = 0 → 0 < e.view)
    (hascends : ((s.entered ++ [e]).map Entry.view).Pairwise (· < ·)) : s.view < e.view := by
  rw [List.map_append, List.pairwise_append] at hascends
  rcases h.current with hzero | ⟨e', he', hview⟩
  · rw [hzero]
    exact hpos hzero
  · rw [← hview]
    exact hascends.2.2 _ (List.mem_map_of_mem he') _ List.mem_cons_self

/-- **A step keeps the views in order**, while they ascend. -/
theorem Step.views (h : Step cfg cr received s s') (hkeyed : Keyed s.cblocks)
    (hs : s.Ascends → Views s) (hascends : s'.Ascends) : Views s' := by
  have hv := hs (hascends.of_prefix h.entered_prefix)
  cases h with
  | quiet h =>
    have hcblocks : ∀ w, s'.cblocks.lookup w ≠ none → s.cblocks.lookup w ≠ none :=
      fun w hw => h.cblocks ▸ hw
    rcases h.views with ⟨hview, hentered⟩ | ⟨hview, hentered⟩
    · exact hv.of_same hview hentered (by rw [h.stores]) hcblocks
    · have hlt : s.view < nextView s.view := by
        refine hv.lt_of_ascends (e := ⟨nextView s.view, s.stores.length⟩) (fun hzero => ?_)
          (hentered ▸ hascends)
        rw [hzero]
        exact (by decide : 0 < nextView 0)
      exact (hv.enter hlt).of_same hview hentered (by rw [h.stores]; rfl) hcblocks
  | newview h => exact hv.of_same rfl rfl rfl fun _ hw => hw
  | prepare h => exact hv.of_same rfl rfl rfl fun _ hw => hw
  | proposal h => exact hv.of_same rfl rfl rfl fun _ hw => hw
  | store => exact hv.store _ _
  | @walk fuel block0 toExec h =>
    refine hv.of_same (State.walked_view _ _ _) (State.walked_entered _ _ _)
      (congrArg List.length (State.walked_stores _ _ _)) fun w hw => ?_
    rcases walked_lookup s block0 toExec w with ⟨hsame, -⟩ | ⟨e, he, rfl, -⟩
    · rwa [hsame] at hw
    · rw [((collected_stored hkeyed h).1 e he).1]
      exact Option.some_ne_none _
  | begin =>
    have hzero : s.view = 0 :=
      Nat.lt_one_iff.mp (hv.lt_of_ascends (fun _ => Nat.one_pos) hascends)
    have hstored : Views (s.storeBlock cfg 0 .genesis genBlock) := hzero ▸ hv.store .genesis genBlock
    exact hstored.enter (hzero ▸ Nat.one_pos)

/-! ### What a step does to the block of a view -/

variable (cfg cr) in
/-- What is known of a block that is stored: it is the genesis block, or it has a source and its view is free. -/
def Known (s : State) (r : Store) : Prop :=
  (r.origin = .genesis ∧ r.view = 0 ∧ r.block = genBlock) ∨
    (r.view = s.view ∧ Sourced cfg cr r.leader r.block r.origin ∧ r.origin.Free s)

variable (cfg cr) in
/-- The block of a view stays, or it is marked, or another one is stored. -/
inductive BlockChange (s s' : State) (v : View) : Prop
  | same (h : s'.cblocks.lookup v = s.cblocks.lookup v)
  | marked {b : CBlock} (hbefore : s.cblocks.lookup v = some b)
      (h : s'.cblocks.lookup v = some b.markExecuted)
  | stored {r : Store} (hstores : s'.stores = s.stores ++ [r]) (hview : r.view = v)
      (hbefore : r.cblocks = s.cblocks) (h : s'.cblocks.lookup v = some r.block)
      (hknown : Known cfg cr s r)

theorem BlockChange.of_stored {r : Store} (hstores : s'.stores = s.stores ++ [r])
    (hbefore : r.cblocks = s.cblocks) (hinsert : s'.cblocks = s.cblocks.insert r.view r.block)
    (hknown : Known cfg cr s r) (v : View) : BlockChange cfg cr s s' v := by
  by_cases hv : v = r.view
  · refine .stored hstores hv.symm hbefore ?_ hknown
    rw [hinsert, hv]
    exact AList.lookup_insert _
  · refine .same ?_
    rw [hinsert]
    exact AList.lookup_insert_ne hv

/-- **What a step does to the block of a view.** -/
theorem Step.block (h : Step cfg cr received s s') (hkeyed : Keyed s.cblocks) (v : View) :
    BlockChange cfg cr s s' v := by
  cases h with
  | quiet h => exact .same (by rw [h.cblocks])
  | newview h => exact .same rfl
  | prepare h => exact .same rfl
  | proposal h => exact .same rfl
  | store hview hsource hfree => exact .of_stored rfl rfl rfl (Or.inr ⟨rfl, hsource, hfree⟩) v
  | @walk fuel block0 toExec h =>
    rcases walked_lookup s block0 toExec v with ⟨hsame, -⟩ | ⟨e, he, hview, hlookup⟩
    · exact .same hsame
    · refine .marked ?_ hlookup
      rw [← hview]
      exact ((collected_stored hkeyed h).1 e he).1
  | begin => exact .of_stored rfl rfl rfl (Or.inl ⟨rfl, rfl, rfl⟩) v

/-- In a free view nothing is stored. -/
theorem State.Vacant.lookup (h : s.Vacant) (hviews : Views s) : s.cblocks.lookup s.view = none := by
  rcases h with hnone | hlast
  · exact hnone
  · by_contra hsome
    exact absurd (hviews.just_entered hlast _ hsome) (Nat.lt_irrefl _)

/-- **What takes the place of a block**: only a proposal that arrives does, and an orderly one does no harm. -/
theorem Store.Orderly.overwrites {r : Store} (h : r.Orderly cfg cr s.stores) (hknown : Known cfg cr s r)
    (hbefore : r.cblocks = s.cblocks) (hviews : Views s) {b : CBlock}
    (hb : r.cblocks.lookup r.view = some b) :
    (VotedFor cfg cr s.stores r.view b → r.block.hash cr.sha256 = b.hash cr.sha256) ∧
      (b.executed = true → r.block.executed = true) := by
  have hfound : r.cblocks.lookup r.view ≠ none := by
    rw [hb]
    exact Option.some_ne_none b
  rcases hknown with ⟨horigin, -⟩ | ⟨hview, -, hfree⟩
  · exact absurd (h.start horigin) hfound
  · rw [hbefore, hview] at hfound
    cases horigin : r.origin with
    | genesis => exact absurd (h.start horigin) (by rw [hb]; exact Option.some_ne_none b)
    | own =>
      rw [horigin] at hfree
      exact absurd (State.Vacant.lookup hfree hviews) hfound
    | proposal sign => exact h.arriving sign horigin b hb
    | earlier sign =>
      rw [horigin] at hfree
      exact absurd hfree hfound

/-! ### The block that has been voted for -/

variable (cr) in
/-- The block of the view has the same hash, and it has the mark if that one has it. -/
def HoldsLike (s : State) (v : View) (b : CBlock) : Prop :=
  ∃ b', s.cblocks.lookup v = some b' ∧ b'.hash cr.sha256 = b.hash cr.sha256 ∧
    (b.executed = true → b'.executed = true)

/-- An orderly step keeps the block that has been voted for. -/
theorem BlockChange.holdsLike {v : View} {b : CBlock} (h : BlockChange cfg cr s s' v)
    (horderly : s'.Orderly cfg cr) (hviews : Views s) (hvoted : VotedFor cfg cr s.stores v b)
    (hs : HoldsLike cr s v b) : HoldsLike cr s' v b := by
  obtain ⟨b₁, hb₁, hhash, hmark⟩ := hs
  cases h with
  | same h => exact ⟨b₁, h.trans hb₁, hhash, hmark⟩
  | marked hbefore h =>
    rw [hb₁, Option.some.injEq] at hbefore
    subst hbefore
    exact ⟨_, h, hhash, fun _ => rfl⟩
  | @stored r hstores hview hbefore h hknown =>
    rw [← hbefore, ← hview] at hb₁
    obtain ⟨hsame, hmarked⟩ := (horderly.last hstores).overwrites hknown hbefore hviews hb₁
    refine ⟨r.block, h, ?_, fun hb => hmarked (hmark hb)⟩
    rw [hsame (hview ▸ hvoted.of_hash hhash), hhash]

/-! ### Once for each view -/

/-- The blocks that are stored for the executed views are marked, and each view has been executed once. -/
structure OncePerView (s : State) : Prop where
  marked : ∀ e ∈ s.executed, ∃ b, s.cblocks.lookup e.block.view = some b ∧ b.executed = true
  once : (s.executed.map fun e => e.block.view).Nodup

/-- An orderly step keeps the marks. -/
theorem BlockChange.mark {v : View} {b : CBlock} (h : BlockChange cfg cr s s' v)
    (horderly : s'.Orderly cfg cr) (hviews : Views s) (hb : s.cblocks.lookup v = some b)
    (hmark : b.executed = true) :
    ∃ b', s'.cblocks.lookup v = some b' ∧ b'.executed = true := by
  cases h with
  | same h => exact ⟨b, h.trans hb, hmark⟩
  | marked hbefore h => exact ⟨_, h, rfl⟩
  | @stored r hstores hview hbefore h hknown =>
    rw [← hbefore, ← hview] at hb
    exact ⟨r.block, h, ((horderly.last hstores).overwrites hknown hbefore hviews hb).2 hmark⟩

theorem OncePerView.of_executed_eq (hs : OncePerView s) (hexecuted : s'.executed = s.executed)
    (hmarks : ∀ v b, s.cblocks.lookup v = some b → b.executed = true →
      ∃ b', s'.cblocks.lookup v = some b' ∧ b'.executed = true) : OncePerView s' := by
  refine ⟨fun e he => ?_, ?_⟩
  · rw [hexecuted] at he
    obtain ⟨b, hb, hmark⟩ := hs.marked e he
    exact hmarks _ b hb hmark
  · rw [hexecuted]
    exact hs.once

/-- A walk executes views for which the stored blocks are not marked. -/
theorem OncePerView.walk (hs : OncePerView s) (hkeyed : Keyed s.cblocks) {fuel : ℕ} {block0 : CBlock}
    {toExec : List Execution} (h : blocksToExec s.cblocks fuel block0 [] = some toExec) :
    OncePerView (s.walked block0 toExec) := by
  obtain ⟨hstored, hnodup⟩ := collected_stored hkeyed h
  refine ⟨fun e he => ?_, ?_⟩
  · rw [State.walked_executed, List.mem_append] at he
    rcases walked_lookup s block0 toExec e.block.view with ⟨hsame, hviews⟩ | ⟨e', he', hview, hlookup⟩
    · rcases he with he | he
      · obtain ⟨b, hb, hmark⟩ := hs.marked e he
        exact ⟨b, hsame.trans hb, hmark⟩
      · exact absurd rfl (hviews e he)
    · exact ⟨_, hlookup, rfl⟩
  · rw [State.walked_executed, List.map_append, List.nodup_append]
    refine ⟨hs.once, hnodup, ?_⟩
    intro v hv w hw hvw
    obtain ⟨e, he, rfl⟩ := List.mem_map.mp hv
    obtain ⟨e', he', rfl⟩ := List.mem_map.mp hw
    obtain ⟨b, hb, hmark⟩ := hs.marked e he
    obtain ⟨hlookup, hnot⟩ := hstored e' he'
    rw [hvw, hlookup, Option.some.injEq] at hb
    exact hnot (hb ▸ hmark)

theorem Step.oncePerView (h : Step cfg cr received s s') (hkeyed : Keyed s.cblocks)
    (hviews : Views s) (horderly : s'.Orderly cfg cr) (hs : OncePerView s) : OncePerView s' := by
  have hmarks : ∀ v b, s.cblocks.lookup v = some b → b.executed = true →
      ∃ b', s'.cblocks.lookup v = some b' ∧ b'.executed = true :=
    fun v b hb hmark => (h.block hkeyed v).mark horderly hviews hb hmark
  cases h with
  | quiet h => exact hs.of_executed_eq h.executed hmarks
  | newview h => exact hs.of_executed_eq rfl hmarks
  | prepare h => exact hs.of_executed_eq rfl hmarks
  | proposal h => exact hs.of_executed_eq rfl hmarks
  | store => exact hs.of_executed_eq rfl hmarks
  | walk h => exact hs.walk hkeyed h
  | begin => exact hs.of_executed_eq rfl hmarks

/-! ### Signed by the leader -/

variable (cfg cr) in
/-- What is stored has been signed by the leader. -/
def Signed (s : State) : Prop :=
  ∀ v b, s.cblocks.lookup v = some b →
    ∃ r ∈ s.stores, r.view = v ∧ r.block.markExecuted = b.markExecuted ∧ r.SignedByLeader cfg cr

/-- With what the replica checks of a block, an orderly one is signed by the leader. -/
theorem Store.Orderly.signedByLeader {r : Store} {earlier : List Store} (h : r.Orderly cfg cr earlier)
    (hknown : Known cfg cr s r) : r.SignedByLeader cfg cr := by
  rcases hknown with ⟨-, hview, hblock⟩ | ⟨-, hsource, -⟩
  · exact .genesis hview hblock
  · cases horigin : r.origin with
    | genesis =>
      rw [horigin] at hsource
      exact hsource.elim
    | own =>
      rw [horigin] at hsource
      exact .own hsource.1 (h.own horigin)
    | proposal sign =>
      rw [horigin] at hsource
      exact .proposal (h.signer sign.signer (by rw [horigin]; rfl)) hsource
    | earlier sign =>
      rw [horigin] at hsource
      exact .proposal (h.signer sign.signer (by rw [horigin]; rfl)) hsource

theorem Step.signed (h : Step cfg cr received s s') (hkeyed : Keyed s.cblocks)
    (horderly : s'.Orderly cfg cr) (hs : Signed cfg cr s) : Signed cfg cr s' := by
  have hold : ∀ v (b b' : CBlock), s.cblocks.lookup v = some b → b'.markExecuted = b.markExecuted →
      ∃ r ∈ s'.stores, r.view = v ∧ r.block.markExecuted = b'.markExecuted ∧ r.SignedByLeader cfg cr := by
    intro v b b' hb hmark
    obtain ⟨r, hr, hview, hblock, hsigned⟩ := hs v b hb
    exact ⟨r, h.stores_prefix.subset hr, hview, hblock.trans hmark.symm, hsigned⟩
  intro v b hb
  cases h.block hkeyed v with
  | same hsame => exact hold v b b (hsame.symm.trans hb) rfl
  | @marked b₀ hbefore hafter =>
    rw [hb, Option.some.injEq] at hafter
    exact hold v b₀ b hbefore (by rw [hafter]; rfl)
  | @stored r hstores hview hbefore hafter hknown =>
    rw [hb, Option.some.injEq] at hafter
    refine ⟨r, ?_, hview, by rw [hafter], (horderly.last hstores).signedByLeader hknown⟩
    rw [hstores]
    exact List.mem_append_right _ List.mem_cons_self

/-! ### Runs -/

/-- In every run the views are in order, while they ascend. -/
theorem run_views (cfg : HandlerConfig Key) (cr : Crypto Key) (inputs : List (ℕ × Input)) :
    Keyed (run cfg cr inputs).cblocks ∧ ((run cfg cr inputs).Ascends → Views (run cfg cr inputs)) := by
  refine run_invariant (I := fun s => Keyed s.cblocks ∧ (s.Ascends → Views s)) ⟨?_, fun _ => ?_⟩ ?_
  · exact fun v b hb => by simp [State.init] at hb
  · exact ⟨Or.inl rfl, fun e he => absurd he List.not_mem_nil,
      fun w hw => absurd (AList.lookup_empty w) hw, fun hlast => absurd hlast.symm (Option.some_ne_none _)⟩
  · exact fun s s' hs h => ⟨hs.keyed h.1, hs.views h.1 h.2⟩

/-- What the orderly steps of the rest of a run keep. -/
theorem run_orderly {I : State → Prop} {inputs later : List (ℕ × Input)} (hstart : I (run cfg cr inputs))
    (hstep : ∀ s s', Step cfg cr (Received later) s s' → Keyed s.cblocks → Views s →
      s'.Orderly cfg cr → I s → I s')
    (h : (run cfg cr (inputs ++ later)).Orderly cfg cr) : I (run cfg cr (inputs ++ later)) := by
  have hinv : (Keyed (run cfg cr (inputs ++ later)).cblocks ∧
      ((run cfg cr (inputs ++ later)).Ascends → Views (run cfg cr (inputs ++ later)))) ∧
      ((run cfg cr (inputs ++ later)).Orderly cfg cr → I (run cfg cr (inputs ++ later))) := by
    refine run_later (I := fun s => (Keyed s.cblocks ∧ (s.Ascends → Views s)) ∧
      (s.Orderly cfg cr → I s)) ⟨run_views cfg cr inputs, fun _ => hstart⟩ ?_
    rintro s s' hs ⟨⟨hkeyed, hviews⟩, hI⟩
    refine ⟨⟨hs.keyed hkeyed, hs.views hkeyed hviews⟩, fun horderly => ?_⟩
    have hbefore := horderly.of_prefix hs.entered_prefix hs.stores_prefix
    exact hstep s s' hs hkeyed (hviews hbefore.ascends) horderly (hI hbefore)
  exact hinv.2 h

/-- **A replica sticks to its blocks** as long as no proposal arrives that takes the place of one that it has
voted for or executed, the leaders sign, and the views ascend.  For every run with any messages, from any moment
of the run to its end. -/
theorem keepsBlocks_of_orderly (cfg : HandlerConfig Key) (cr : Crypto Key)
    (inputs later : List (ℕ × Input)) (h : (run cfg cr (inputs ++ later)).Orderly cfg cr) :
    KeepsBlocks cfg cr (run cfg cr inputs) (run cfg cr (inputs ++ later)) := by
  refine ⟨fun v b hb hvoted => ?_, ?_, ?_⟩
  · have hkept : (run cfg cr inputs).stores <+: (run cfg cr (inputs ++ later)).stores ∧
        HoldsLike cr (run cfg cr (inputs ++ later)) v b := by
      refine run_orderly (I := fun s => (run cfg cr inputs).stores <+: s.stores ∧ HoldsLike cr s v b)
        ⟨List.prefix_rfl, b, hb, rfl, id⟩ ?_ h
      rintro s s' hs hkeyed hviews horderly ⟨hpre, hholds⟩
      exact ⟨hpre.trans hs.stores_prefix,
        (hs.block hkeyed v).holdsLike horderly hviews (hvoted.mono hpre) hholds⟩
    exact hkept.2
  · have hinit : OncePerView (run cfg cr []) := ⟨fun e he => absurd he List.not_mem_nil, List.nodup_nil⟩
    exact (run_orderly hinit (fun s s' hs hkeyed hviews => hs.oncePerView hkeyed hviews) h).once
  · have hinit : Signed cfg cr (run cfg cr []) := fun v b hb => by simp [run, State.run, State.init] at hb
    exact run_orderly hinit (fun s s' hs hkeyed _ => hs.signed hkeyed) h

section SecondProposal

/-- From the start on, replica 0 gets the proposals of the first two leaders. -/
theorem keepsBlocks_two_proposals :
    KeepsBlocks (noTEESystem.config 0) (cryptoBy [1, 2] [firstBlock, secondBlock])
      (run (noTEESystem.config 0) (cryptoBy [1, 2] [firstBlock, secondBlock]) (twoProposals.take 2))
      (run (noTEESystem.config 0) (cryptoBy [1, 2] [firstBlock, secondBlock])
        (twoProposals.take 2 ++ twoProposals.drop 2)) := by
  refine keepsBlocks_of_orderly _ _ _ _ (orderly_of_none ?_ ?_ ?_ ?_)
  · unfold State.Ascends
    decide +kernel
  · decide +kernel
  · decide +kernel
  · decide +kernel

/-- Another block of view 1, with a transaction. -/
def otherBlock : CBlock := { firstBlock with size := 1 }

/-- Replica 2 leads view 2: it stays in view 1 after its vote. -/
def firstProposal : List (ℕ × Input) := [(4, .start 0), (4, proposalBy 1 firstBlock)]

/-- The leader sends it one more block. -/
def secondProposal : List (ℕ × Input) := [(4, proposalBy 1 otherBlock)]

/-- What the leader has signed for both. -/
def twoSigned : Crypto Unit := cryptoBy [1] [firstBlock, otherBlock]

/-- **A second proposal takes the place of the block that the replica has voted for.** -/
theorem not_keepsBlocks_second_proposal :
    ¬ KeepsBlocks (noTEESystem.config 2) twoSigned
      (run (noTEESystem.config 2) twoSigned firstProposal)
      (run (noTEESystem.config 2) twoSigned (firstProposal ++ secondProposal)) := by
  intro h
  have hvoted : ((run (noTEESystem.config 2) twoSigned firstProposal).cblocks.lookup 1).any (fun b =>
      VotedFor (noTEESystem.config 2) twoSigned
        (run (noTEESystem.config 2) twoSigned firstProposal).stores 1 b) = true := by decide +kernel
  have hother : ((run (noTEESystem.config 2) twoSigned firstProposal).cblocks.lookup 1).all (fun b =>
      ((run (noTEESystem.config 2) twoSigned (firstProposal ++ secondProposal)).cblocks.lookup 1).all
        fun b' => b'.hash twoSigned.sha256 ≠ b.hash twoSigned.sha256) = true := by decide +kernel
  cases hb : (run (noTEESystem.config 2) twoSigned firstProposal).cblocks.lookup 1 with
  | none =>
    rw [hb] at hvoted
    exact Bool.false_ne_true hvoted
  | some b =>
    rw [hb, Option.any_some, decide_eq_true_eq] at hvoted
    obtain ⟨b', hb', hhash, -⟩ := h.sticks 1 b hb hvoted
    rw [hb, Option.all_some, hb', Option.all_some, decide_eq_true_eq] at hother
    exact hother hhash

end SecondProposal

end Raftel.Chained
