import Raftel.Equiv.Triples

/-!
# Runs of a replica

A run of a replica is a sequence of reactions to inputs (`HostRun`).  The claims about what happens in
the middle of a handler are about `StepRun`: the states after every step, each input beginning as
`Begin` says.

* `HostRunWhere.stepRun` : runs are made of steps
-/

namespace Raftel

variable {Key : Type}

/-- The states of a correct replica: any inputs in any order.  Which signatures verify may change
from one input to the next, since others sign meanwhile; SHA-256 stays. -/
inductive HostRun (cfg : HandlerConfig Key) (sha : Text → Digest) : HandlerState → Prop
  | init : HostRun cfg sha .init
  | step {s : HandlerState} (h : HostRun cfg sha s) {o : Oracle Key} (ho : o.sha256 = sha) (fuel : ℕ)
      (input : Input) : HostRun cfg sha (s.react cfg o fuel input)

/-- A list of inputs, with one oracle and one fuel. -/
theorem HostRun.foldl {cfg : HandlerConfig Key} {sha : Text → Digest} {s : HandlerState}
    (h : HostRun cfg sha s) {o : Oracle Key} (ho : o.sha256 = sha) (fuel : ℕ) (inputs : List Input) :
    HostRun cfg sha (inputs.foldl (HandlerState.react cfg o · fuel) s) := by
  induction inputs generalizing s with
  | nil => exact h
  | cons input inputs ih => exact ih (h.step ho fuel input)

/-- The runs in which every input meets a condition on the state it finds. -/
inductive HostRunWhere (cfg : HandlerConfig Key) (sha : Text → Digest)
    (ok : HandlerState → Input → Prop) : HandlerState → Prop
  | init : HostRunWhere cfg sha ok .init
  | step {s : HandlerState} (h : HostRunWhere cfg sha ok s) {o : Oracle Key} (ho : o.sha256 = sha)
      (fuel : ℕ) {input : Input} (hok : ok s input) :
      HostRunWhere cfg sha ok (s.react cfg o fuel input)

/-- A list of inputs that meet the condition in every state. -/
theorem HostRunWhere.foldl {cfg : HandlerConfig Key} {sha : Text → Digest}
    {ok : HandlerState → Input → Prop} {s : HandlerState} (h : HostRunWhere cfg sha ok s)
    {o : Oracle Key} (ho : o.sha256 = sha) (fuel : ℕ) (inputs : List Input)
    (hok : ∀ input ∈ inputs, ∀ s, ok s input) :
    HostRunWhere cfg sha ok (inputs.foldl (HandlerState.react cfg o · fuel) s) := by
  induction inputs generalizing s with
  | nil => exact h
  | cons input inputs ih =>
    exact ih (h.step ho fuel (hok input List.mem_cons_self s)) fun i hi =>
      hok i (List.mem_cons_of_mem input hi)

theorem HostRun.where_true {cfg : HandlerConfig Key} {sha : Text → Digest} {s : HandlerState}
    (h : HostRun cfg sha s) : HostRunWhere cfg sha (fun _ _ => True) s := by
  induction h with
  | init => exact .init
  | step _ ho fuel input ih => exact .step ih ho fuel trivial

/-- The states of a replica after every step, in the middle of a handler as well. -/
inductive StepRun (cfg : HandlerConfig Key) (sha : Text → Digest) (misled : Prop)
    (ok : HandlerState → Input → Prop) : HandlerState → Prop
  | init : StepRun cfg sha misled ok .init
  | input {s s₁ : HandlerState} {o : Oracle Key} {input : Input} (h : StepRun cfg sha misled ok s)
      (ho : o.sha256 = sha) (hok : ok s input) (hbegin : Begin cfg o s input s₁) :
      StepRun cfg sha misled ok s₁
  | step {s s' : HandlerState} {o : Oracle Key} (h : StepRun cfg sha misled ok s)
      (ho : o.sha256 = sha) (hstep : Step cfg o misled (fun _ => True) s s') : StepRun cfg sha misled ok s'

section Bound

variable {cfg : HandlerConfig Key} {o : Oracle Key} {misled : Prop} {received : Msg → Prop}

/-- A call leaves the component in a 32-bit view. -/
theorem HandlerState.called_tc_lt {s : HandlerState} (c : Call) (h : s.tc.view < 2 ^ 32) :
    (s.called cfg o c).2.tc.view < 2 ^ 32 := by
  have hout := cfg.component.call_outcome (o.crypto s.calls) s.tc c
  cases hout with
  | accepted j hreply set acc =>
    obtain ⟨-, -, hview, -⟩ := acc.counter
    change (cfg.component.call (o.crypto s.calls) s.tc c).2.view < 2 ^ 32
    rw [hview]
    exact CombState.iterate_increment_lt h 1
  | refused j hreply set same =>
    change (cfg.component.call (o.crypto s.calls) s.tc c).2.view < 2 ^ 32
    rw [same]
    exact h
  | accum a hreply same =>
    change (cfg.component.call (o.crypto s.calls) s.tc c).2.view < 2 ^ 32
    rw [same]
    exact h

theorem HandlerState.signedTimes_tc_lt {s : HandlerState} (k : ℕ) (h : s.tc.view < 2 ^ 32) :
    (s.signedTimes cfg o k).tc.view < 2 ^ 32 := by
  rw [HandlerState.signedTimes_tc]
  exact CombState.iterate_increment_lt h k

theorem Step.tc_lt {s s' : HandlerState} (hstep : Step cfg o misled received s s') (h : s.tc.view < 2 ^ 32) :
    s'.tc.view < 2 ^ 32 := by
  cases hstep with
  | quiet hq => exact hq.tc ▸ h
  | accum hc => exact HandlerState.called_tc_lt _ h
  | store hview => exact HandlerState.called_tc_lt _ h
  | @prepare block acc nvs hview =>
    have hcall : (s.called cfg o (.prepare block acc nvs)).2.tc.view < 2 ^ 32 :=
      HandlerState.called_tc_lt _ h
    unfold HandlerState.preparedWith
    dsimp only
    split <;> exact hcall
  | @propose block acc nvs hview hnew =>
    have hcall : (s.called cfg o (.prepare block acc nvs)).2.tc.view < 2 ^ 32 :=
      HandlerState.called_tc_lt _ h
    unfold HandlerState.proposedWith
    dsimp only
    split <;> exact hcall
  | enter hidle hdone henter => exact (enterView_view henter h).2
  | hang hdone henter =>
    obtain ⟨n, rfl⟩ := enterView_error henter
    exact HandlerState.signedTimes_tc_lt n h
  | lookup => exact h
  | lead => exact h
  | phase => exact h
  | newview => exact h
  | vote => exact h
  | execute => exact h
  | stop => exact h

@[simp]
theorem HandlerState.skipLeader_tc (s : HandlerState) : (s.skipLeader cfg).tc = s.tc := by
  unfold HandlerState.skipLeader
  split <;> rfl

@[simp]
theorem HandlerState.skipLeader_view (s : HandlerState) : (s.skipLeader cfg).view = s.view := by
  unfold HandlerState.skipLeader
  split <;> rfl

@[simp]
theorem HandlerState.skipLeader_phase (s : HandlerState) : (s.skipLeader cfg).phase = s.phase := by
  unfold HandlerState.skipLeader
  split <;> rfl

theorem Begin.tc_lt {s s₁ : HandlerState} {input : Input} (hbegin : Begin cfg o s input s₁)
    (h : s.tc.view < 2 ^ 32) : s₁.tc.view < 2 ^ 32 := by
  cases hbegin with
  | other => exact h
  | stopped => exact h
  | start => exact HandlerState.called_tc_lt _ h
  | timeout hrun htimer henter => exact (enterView_view henter (by rwa [s.skipLeader_tc])).2
  | hang hrun htimer henter =>
    obtain ⟨n, rfl⟩ := enterView_error henter
    exact HandlerState.signedTimes_tc_lt n (by rwa [s.skipLeader_tc])

/-- Views never decrease. -/
theorem Step.view_le {s s' : HandlerState} (h : Step cfg o misled received s s') (hlt : s.tc.view < 2 ^ 32) :
    s.view ≤ s'.view := by
  rcases h.view_cases with ⟨hview, -⟩ | ⟨-, -, fuel, just, henter⟩
  · exact hview.ge
  · rw [(enterView_view henter hlt).1]
    exact Nat.le_succ _

theorem Begin.view_le {s s₁ : HandlerState} {input : Input} (h : Begin cfg o s input s₁)
    (hlt : s.tc.view < 2 ^ 32) : s.view ≤ s₁.view := by
  cases h with
  | other => exact le_rfl
  | stopped => exact le_rfl
  | start => exact le_rfl
  | timeout hrun htimer henter =>
    rw [(enterView_view henter (by rwa [s.skipLeader_tc])).1, s.skipLeader_view]
    exact Nat.le_succ _
  | hang hrun htimer henter =>
    obtain ⟨n, rfl⟩ := enterView_error henter
    rw [HandlerState.signedTimes_eq]
    exact s.skipLeader_view.ge

end Bound

section Runs

variable {cfg : HandlerConfig Key} {sha : Text → Digest} {misled : Prop}
  {ok : HandlerState → Input → Prop}

theorem StepRun.tc_lt {s : HandlerState} (h : StepRun cfg sha misled ok s) :
    s.tc.view < 2 ^ 32 := by
  induction h with
  | init => decide
  | input _ _ _ hbegin ih => exact hbegin.tc_lt ih
  | step _ _ hstep ih => exact hstep.tc_lt ih

/-- **Runs are made of steps.** -/
theorem HostRunWhere.stepRun {s : HandlerState} (h : HostRunWhere cfg sha ok s)
    (hmis : ∀ s msg, ok s (.peer (.newview msg)) → s.Misled cfg msg → misled) :
    StepRun cfg sha misled ok s := by
  induction h with
  | init => exact .init
  | @step s _ o ho fuel input hok ih =>
    have hkept : Kept cfg o misled (StepRun cfg sha misled ok) :=
      ⟨fun _ _ hstep hs => hs.step ho hstep, Or.inr fun _ hs => hs.tc_lt⟩
    refine react_kept hkept fuel input (fun s₁ hbegin => ih.input ho hok hbegin) fun msg hmsg hm => ?_
    rw [hmsg] at hok
    exact hmis s msg hok hm

/-- Every run, without a condition. -/
theorem HostRun.stepRun {s : HandlerState} (h : HostRun cfg sha s) :
    StepRun cfg sha True (fun _ _ => True) s :=
  h.where_true.stepRun fun _ _ _ _ => trivial

end Runs

end Raftel
