import Raftel.System

/-!
# Networks that deliver what was sent

In a run of the system an input may be any message.  `Faithful` tells the runs in which every message
that a replica receives was sent to it before, in any order, late, more than once or never.  Such runs
are made by playing moves: a move delivers a message that stands in the list of a sender.
-/

namespace Raftel

/-- Every message that a replica receives was sent to it. -/
def Faithful (sys : System) (acts : List Action) : Prop :=
  ∀ l p fuel msg l', acts = l ++ .input p fuel (.peer msg) :: l' →
    ∃ q recipients, (msg, recipients) ∈ ((sys.run l).replica q).host.out ∧ p ∈ recipients

/-- A move of the network: a start message, a timeout, or the delivery of the `k`-th message that `q`
has sent to `p`. -/
inductive Move
  | start (p : PID) (cid : CID)
  | timeout (p : PID)
  | deliver (q : PID) (k : ℕ) (p : PID)

/-- The action of a move, with enough fuel for short runs. -/
def Move.action (st : SystemState) : Move → Option Action
  | start p cid => some (.input p 9 (.start cid))
  | timeout p => some (.input p 9 .timeout)
  | deliver q k p =>
    match (st.replica q).host.out[k]? with
    | some (msg, recipients) => if p ∈ recipients then some (.input p 9 (.peer msg)) else none
    | none => none

/-- One more move after the actions that led to a state. -/
def System.playMove (sys : System) (x : List Action × SystemState) (m : Move) :
    List Action × SystemState :=
  match m.action x.2 with
  | some act => (x.1 ++ [act], sys.step x.2 act)
  | none => x

/-- The actions of a list of moves, and the state to which they lead. -/
def System.play (sys : System) (moves : List Move) : List Action × SystemState :=
  moves.foldl sys.playMove ([], .init)

/-- The action of a move is no message, or one that was sent. -/
theorem Move.sent_of_action {st : SystemState} {m : Move} {p : PID} {fuel : ℕ} {msg : Msg}
    (h : m.action st = some (.input p fuel (.peer msg))) :
    ∃ q recipients, (msg, recipients) ∈ (st.replica q).host.out ∧ p ∈ recipients := by
  cases m with
  | start p' cid => cases h
  | timeout p' => cases h
  | deliver q k p' =>
    simp only [action] at h
    split at h
    · next msg' recipients hmsg =>
      split at h
      · next hp =>
        cases h
        exact ⟨q, recipients, List.mem_of_getElem? hmsg, hp⟩
      · cases h
    · cases h

/-- The state of a play is the one of its actions, and the network is faithful. -/
theorem System.play_spec (sys : System) (moves : List Move) :
    (sys.play moves).2 = sys.run (sys.play moves).1 ∧ Faithful sys (sys.play moves).1 := by
  have hmove : ∀ (x : List Action × SystemState) (m : Move),
      (x.2 = sys.run x.1 ∧ Faithful sys x.1) →
      (sys.playMove x m).2 = sys.run (sys.playMove x m).1 ∧ Faithful sys (sys.playMove x m).1 := by
    intro x m hx
    unfold System.playMove
    split
    · next act hact =>
      refine ⟨?_, ?_⟩
      · show sys.step x.2 act = (x.1 ++ [act]).foldl sys.step .init
        rw [List.foldl_concat, hx.1]
        rfl
      · intro l p fuel msg l' heq
        rcases List.eq_nil_or_concat l' with rfl | ⟨l'', act', rfl⟩
        · obtain ⟨rfl, hlast⟩ := List.append_inj' heq rfl
          cases hlast
          rw [← hx.1]
          exact Move.sent_of_action hact
        · rw [List.concat_eq_append, ← List.cons_append, ← List.append_assoc] at heq
          exact hx.2 l p fuel msg l'' (List.append_inj' heq rfl).1
    · exact hx
  have hfold : ∀ (moves : List Move) (x : List Action × SystemState),
      (x.2 = sys.run x.1 ∧ Faithful sys x.1) →
      (moves.foldl sys.playMove x).2 = sys.run (moves.foldl sys.playMove x).1 ∧
        Faithful sys (moves.foldl sys.playMove x).1 := by
    intro moves
    induction moves with
    | nil => exact fun x hx => hx
    | cons m moves ih => exact fun x hx => ih _ (hmove x m hx)
  refine hfold moves _ ⟨rfl, ?_⟩
  intro l p fuel msg l' heq
  cases l <;> cases heq

end Raftel
