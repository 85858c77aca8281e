import Mathlib

/- Guarded state machines. An action is enabled or not; executing an enabled action either
   yields the next state or faults (none). Interleavings are sequences of actions, so a
   property of every interleaving is a property of every reachable state. -/
namespace Transition
variable {σ α : Type*}

structure Machine (σ α : Type*) where
  start : σ → Prop
  enabled : σ → α → Prop
  exec : σ → α → Option σ

def Machine.Step (m : Machine σ α) (s : σ) (a : α) (s' : σ) : Prop :=
  m.enabled s a ∧ m.exec s a = some s'

inductive Machine.Reach (m : Machine σ α) : σ → Prop where
  | start {s : σ} (first : m.start s) : Reach m s
  | step {s s' : σ} {a : α} (before : Reach m s) (move : m.Step s a s') : Reach m s'

structure Machine.Inductive (m : Machine σ α) (inv : σ → Prop) : Prop where
  start : ∀ s, m.start s → inv s
  step : ∀ s a s', inv s → m.Step s a s' → inv s'

theorem inductive_reach {m : Machine σ α} {inv : σ → Prop} (ind : m.Inductive inv)
    {s : σ} (reach : m.Reach s) : inv s := by
  induction reach with
  | start first => exact ind.start _ first
  | step before move ih => exact ind.step _ _ _ ih move

/-- Where each step of a machine is none or one of another, it reaches only what the other does. -/
theorem project_reach {τ β : Type*} {m : Machine σ α} {m' : Machine τ β} {inv : σ → Prop}
    (f : σ → τ) (ind : m.Inductive inv) (start : ∀ s, m.start s → m'.start (f s))
    (step : ∀ s a s', inv s → m.Step s a s' → f s' = f s ∨ ∃ b, m'.Step (f s) b (f s')) {s : σ}
    (reach : m.Reach s) : m'.Reach (f s) := by
  induction reach with
  | start first => exact .start (start _ first)
  | step before move ih =>
    rcases step _ _ _ (inductive_reach ind before) move with same | ⟨b,move'⟩
    · exact same ▸ ih
    · exact .step ih move'

/-- No enabled action of a reachable state faults. -/
def Machine.NeverFaults (m : Machine σ α) : Prop :=
  ∀ s a, m.Reach s → m.enabled s a → (m.exec s a).isSome

theorem never_faults_of_inductive {m : Machine σ α} {inv : σ → Prop} (ind : m.Inductive inv)
    (safe : ∀ s a, inv s → m.enabled s a → (m.exec s a).isSome) : m.NeverFaults := by
  intro s a reach enabled
  exact safe s a (inductive_reach ind reach) enabled

/-- The same machine along the runs whose every step meets the condition. -/
def Machine.restrict (m : Machine σ α) (condition : σ → α → Prop) : Machine σ α :=
  { m with enabled := fun s a => m.enabled s a ∧ condition s a }

theorem restrict_step {m : Machine σ α} {condition : σ → α → Prop} {s s' : σ} {a : α}
    (move : (m.restrict condition).Step s a s') : m.Step s a s' ∧ condition s a :=
  ⟨⟨move.1.1,move.2⟩,move.1.2⟩

theorem restrict_reach {m : Machine σ α} {condition : σ → α → Prop} {s : σ}
    (reach : (m.restrict condition).Reach s) : m.Reach s := by
  induction reach with
  | start first => exact .start first
  | step before move ih => exact .step ih (restrict_step move).1

theorem restrict_inner {m : Machine σ α} {condition condition' : σ → α → Prop} {s : σ}
    (reach : ((m.restrict condition).restrict condition').Reach s) :
    (m.restrict condition').Reach s := by
  induction reach with
  | start first => exact .start first
  | step before move ih =>
    obtain ⟨inner,ok⟩ := restrict_step move
    obtain ⟨moved,_⟩ := restrict_step inner
    exact .step ih ⟨⟨moved.1,ok⟩,moved.2⟩

/-- Executing a list of actions, each of which must be enabled. -/
inductive Machine.Runs (m : Machine σ α) : σ → List α → σ → Prop where
  | nil (s : σ) : Runs m s [] s
  | cons {s s' t : σ} {a : α} {as : List α} (move : m.Step s a s')
      (rest : Runs m s' as t) : Runs m s (a :: as) t

theorem runs_reach {m : Machine σ α} {s t : σ} {as : List α} (runs : m.Runs s as t)
    (reach : m.Reach s) : m.Reach t := by
  induction runs with
  | nil => exact reach
  | cons move rest ih => exact ih (.step reach move)

/-- Who waits with a potential that no step raises, and that each counted step lowers, has been
    served before the counted steps outnumber it. -/
theorem served_within {m : Machine σ α} {counts : α → Bool} {waits : σ → Nat → Prop}
    {served : σ → Prop}
    (step : ∀ s a s' n, waits s n → m.Step s a s' →
      served s' ∨ ∃ n', waits s' n' ∧ n' + (if counts a then 1 else 0) ≤ n)
    {s s' : σ} {as : List α} (runs : m.Runs s as s') : ∀ n, waits s n → n < as.countP counts →
    ∃ first rest mid, as = first ++ rest ∧ m.Runs s first mid ∧ m.Runs mid rest s' ∧ served mid := by
  induction runs with
  | nil s => exact fun n _ enough => absurd enough (Nat.not_lt_zero n)
  | cons move rest ih =>
    intro n waiting enough
    rcases step _ _ _ n waiting move with done | ⟨n',waiting',less⟩
    · exact ⟨[_],_,_,rfl,.cons move (.nil _),rest,done⟩
    · rw [List.countP_cons] at enough
      obtain ⟨first,left,mid,is,before,after,done⟩ := ih n' waiting' (by omega)
      exact ⟨_ :: first,left,mid,by rw [is, List.cons_append],.cons move before,after,done⟩

/-- What every step keeps, unless it brings about something else, is kept by a run in which that
    does not come about. -/
theorem kept_unless {m : Machine σ α} {kept other : σ → Prop}
    (step : ∀ s a s', kept s → m.Step s a s' → other s' ∨ kept s') {s s' : σ} {as : List α}
    (runs : m.Runs s as s') (first : kept s) : kept s' ∨
    ∃ first rest mid, as = first ++ rest ∧ m.Runs s first mid ∧ m.Runs mid rest s' ∧ other mid := by
  induction runs with
  | nil s => exact .inl first
  | cons move rest ih =>
    rcases step _ _ _ first move with done | still
    · exact .inr ⟨[_],_,_,rfl,.cons move (.nil _),rest,done⟩
    · rcases ih still with kept | ⟨first,left,mid,is,before,after,done⟩
      · exact .inl kept
      · exact .inr ⟨_ :: first,left,mid,by rw [is, List.cons_append],.cons move before,after,done⟩

/-- The state an explicit sequence of actions leads to, if each of them is enabled. -/
def Machine.play (m : Machine σ α) [∀ s a, Decidable (m.enabled s a)] : σ → List α → Option σ
  | s, [] => some s
  | s, a :: as => if m.enabled s a then (m.exec s a).bind (m.play · as) else none

theorem play_runs (m : Machine σ α) [∀ s a, Decidable (m.enabled s a)] :
    ∀ (as : List α) (s t : σ), m.play s as = some t → m.Runs s as t := by
  intro as
  induction as with
  | nil =>
    intro s t played
    simp only [Machine.play, Option.some.injEq] at played
    exact played ▸ .nil s
  | cons a as ih =>
    intro s t played
    simp only [Machine.play] at played
    split at played
    · rename_i enabled
      obtain ⟨s',run,rest⟩ := Option.bind_eq_some_iff.mp played
      exact .cons ⟨enabled,run⟩ (ih s' t rest)
    · cases played

theorem play_reach {m : Machine σ α} [∀ s a, Decidable (m.enabled s a)] {s t : σ}
    (first : m.start s) (as : List α) (played : m.play s as = some t) : m.Reach t :=
  runs_reach (play_runs m as s t played) (.start first)

/-- The condition holds at every step that executing the actions takes. -/
def Machine.Meets (m : Machine σ α) (condition : σ → α → Prop) : σ → List α → Prop
  | _, [] => True
  | s, a :: as => condition s a ∧ ∀ s', m.exec s a = some s' → m.Meets condition s' as

theorem meets_runs {m : Machine σ α} {condition : σ → α → Prop} {s t : σ} {as : List α}
    (runs : m.Runs s as t) (meets : m.Meets condition s as) :
    (m.restrict condition).Runs s as t := by
  induction runs with
  | nil => exact .nil _
  | cons move rest ih =>
    exact .cons ⟨⟨move.1,meets.1⟩,move.2⟩ (ih (meets.2 _ move.2))

theorem meets_of_all {m : Machine σ α} {condition : σ → α → Prop} {as : List α}
    (all : ∀ s, ∀ a ∈ as, condition s a) (s : σ) : m.Meets condition s as := by
  induction as generalizing s with
  | nil => trivial
  | cons a as ih =>
    exact ⟨all s a List.mem_cons_self,
      fun s' _ => ih (fun t b member => all t b (List.mem_cons_of_mem a member)) s'⟩

theorem meets_reach {m : Machine σ α} [∀ s a, Decidable (m.enabled s a)]
    {condition : σ → α → Prop} {s t : σ} (first : m.start s) (as : List α)
    (played : m.play s as = some t) (meets : m.Meets condition s as) :
    (m.restrict condition).Reach t :=
  runs_reach (meets_runs (play_runs m as s t played) meets) (.start first)

end Transition
