import TinyOS.SchedCounts

/- No thread that is queued waits for ever: aging brings it to the highest level, from which yield
   takes the threads in turn. -/
namespace KernelSched
open Transition
variable {Core : Type} {s s' : Sched Core} {t : TcbRef Core} {c : Core} {k p : Nat}

/- sched_node is the p-th of SCHED[k]. -/
def Stands (s : Sched Core) (t : TcbRef Core) (k p : Nat) : Prop := (s.level k)[p]? = some t

/- How many yields may come before the one that takes it, when there are at most N threads: those
   up to the next aging, then maxQuantums for each thread before it, here and in each of the levels
   between this one and the highest, and one for each thread of the highest. -/
def need (N counter k p : Nat) : Nat :=
  if k = priorityQueues - 1 then p
  else maxQuantums - counter + maxQuantums * p + maxQuantums * N * (priorityQueues - 2 - k) + N

def Waits (N : Nat) (t : TcbRef Core) (s : Sched Core) (n : Nat) : Prop :=
  Inv s ∧ CountsOk s ∧ ∃ k < priorityQueues, ∃ p, Stands s t k p ∧ need N s.yieldCounter k p ≤ n

def Yields : Action Core → Bool
  | .yield _ _ _ _ => true
  | .runScheduler _ | .spawn _ | .wakeup _ | .sleep _ _ _ _ | .gain _ => false

theorem need_mono (N counter k : Nat) {q : Nat} (less : q ≤ p) :
    need N counter k q ≤ need N counter k p := by
  unfold need
  split
  · exact less
  · have := Nat.mul_le_mul_left maxQuantums less
    omega

theorem need_counted {N counter : Nat} (low : k < priorityQueues - 1)
    (below : counter + 1 < maxQuantums) : need N (counter + 1) k p + 1 ≤ need N counter k p := by
  unfold need
  rw [if_neg (Nat.ne_of_lt low), if_neg (Nat.ne_of_lt low)]
  omega

theorem need_passed {N counter q : Nat} (low : k < priorityQueues - 1)
    (due : counter + 1 = maxQuantums) : need N 0 k q + 1 ≤ need N counter k (q + 1) := by
  unfold need
  rw [if_neg (Nat.ne_of_lt low), if_neg (Nat.ne_of_lt low), Nat.mul_succ]
  omega

theorem need_promoted {N counter q : Nat} (low : k < priorityQueues - 1)
    (due : counter + 1 = maxQuantums) (last : q < N) :
    need N 0 (k + 1) q + 1 ≤ need N counter k 0 := by
  unfold need
  rw [if_neg (Nat.ne_of_lt low)]
  split
  · omega
  · have step : priorityQueues - 2 - k = priorityQueues - 2 - (k + 1) + 1 := by
      simp only [priorityQueues] at *
      omega
    have room : maxQuantums * (q + 1) ≤ maxQuantums * N := Nat.mul_le_mul_left maxQuantums last
    rw [step, Nat.mul_succ (maxQuantums * N)]
    rw [Nat.mul_succ] at room
    omega

theorem need_initial (N counter : Nat) (below : k < priorityQueues) (last : p < N) :
    need N counter k p ≤ maxQuantums * N * (priorityQueues - 1 - k) + N := by
  unfold need
  split
  · omega
  · have step : priorityQueues - 1 - k = priorityQueues - 2 - k + 1 := by
      simp only [priorityQueues] at *
      omega
    have room : maxQuantums * (p + 1) ≤ maxQuantums * N := Nat.mul_le_mul_left maxQuantums last
    rw [step, Nat.mul_succ (maxQuantums * N)]
    rw [Nat.mul_succ] at room
    omega

theorem stands_append {l more : List (TcbRef Core)} (here : l[p]? = some t) :
    (l ++ more)[p]? = some t := by
  rwa [List.getElem?_append_left (List.getElem?_eq_some_iff.mp here).1]

theorem stands_grown {s₁ s₂ : Sched Core} (grows : ∀ k, s₁.queue k <+: s₂.queue k)
    (stands : Stands s₁ t k p) : Stands s₂ t k p := by
  obtain ⟨more,is⟩ := grows k
  have longer : s₂.level k = s₁.level k ++ more := is.symm
  rw [Stands, longer]
  exact stands_append stands

/-- A level is no longer than there are threads. -/
theorem level_short (inv : Inv s) (counts : CountsOk s) (k : Nat) :
    (s.level k).length ≤ s.activeThreads := by
  obtain ⟨threads,exact,card⟩ := counts.active
  have inside : s.level k ⊆ threads.toList.map TcbRef.thread := by
    intro t member
    obtain ⟨b,block,normal,_⟩ := (inv.lists.memQueue k t).mp member
    obtain ⟨addr,rfl⟩ := normal_thread inv block normal
    have there : addr ∈ threads := (exact addr).mpr (by simp [block])
    simpa using there
  have short := ((inv.lists.queueNodup k).subperm inside).length_le
  rwa [List.length_map, Finset.length_toList, ← card] at short

/-- What the last part of yield does: the head of the highest level runs, and whoever is behind it
    moves up. -/
theorem select_stands (selects : Selects c s s') (below : k < priorityQueues)
    (stands : Stands s t k p) : (s'.cctx c).currentThread = some t ∨
      ∃ q, Stands s' t k q ∧ q ≤ p ∧ (k = priorityQueues - 1 → q < p) := by
  rcases selects.levels with ⟨empty,_⟩ | ⟨j,inside,u,rest,head,higher,queue,current⟩
  · simp [Stands, empty k below] at stands
  · have level (i : Nat) : s'.level i = if i = j then rest else s.level i := by
      simp only [Sched.level, queue, Function.update_apply, Int.natCast_inj]
    by_cases same : k = j
    · subst same
      cases p with
      | zero =>
        have first : u = t := by simpa [Stands, head] using stands
        exact .inl (first ▸ current)
      | succ q =>
        refine .inr ⟨q,?_,Nat.le_succ q,fun _ => Nat.lt_succ_self q⟩
        rw [Stands, level k, if_pos rfl]
        simpa [Stands, head] using stands
    · refine .inr ⟨p,by rwa [Stands, level k, if_neg same],Nat.le_refl p,fun top => ?_⟩
      have above : j < k := by omega
      rw [Stands, higher k below above] at stands
      cases stands

variable [DecidableEq Core]

/-- What the first part of yield does for the threads in the levels: each comes closer by its own
    aging or by that of one before it, or the next aging comes closer; those of the highest level
    stay where they are. -/
theorem count_stands {N : Nat} (inv : Inv s) (counts : CountsOk s) (few : s.activeThreads ≤ N)
    (run : countYield s = some s') (below : k < priorityQueues) (stands : Stands s t k p) :
    k = priorityQueues - 1 ∧ Stands s' t k p ∨ ∃ j < priorityQueues, ∃ q, Stands s' t j q ∧
      need N s'.yieldCounter j q + 1 ≤ need N s.yieldCounter k p := by
  by_cases due : s.yieldCounter + 1 = maxQuantums
  · obtain ⟨s'',run',counter,aged⟩ := yield_ages inv due
    cases run.symm.trans run'
    have level := aged.levels
    by_cases high : k = priorityQueues - 1
    · refine .inl ⟨high,?_⟩
      rw [Stands, level k, staying, if_neg (by omega)]
      exact stands_append stands
    · have low : k < priorityQueues - 1 := by omega
      refine .inr ?_
      rw [counter]
      cases p with
      | succ q =>
        refine ⟨k,below,q,?_,need_passed low due⟩
        rw [Stands, level k, staying, if_pos low]
        exact stands_append (List.getElem?_tail.trans stands)
      | zero =>
        have head : (s.level k).head? = some t := List.head?_eq_getElem?.trans stands
        have up : s'.level (k + 1) = staying s (priorityQueues - 1) (k + 1) ++ [t] := by
          rw [level (k + 1), arriving, if_pos low, head]
          rfl
        refine ⟨k + 1,by omega,(staying s (priorityQueues - 1) (k + 1)).length,?_,
          need_promoted low due ?_⟩
        · rw [Stands, up, List.getElem?_concat_length]
        · obtain ⟨v,again,inv',_⟩ := count_yield_spec inv
          cases run.symm.trans again
          have short := level_short inv' (count_yield_counts inv counts run) (k + 1)
          rw [up, List.length_append, List.length_singleton, aged.frame.2.2] at short
          omega
  · have below' : s.yieldCounter + 1 < maxQuantums := by
      have := counts.counter
      omega
    simp only [countYield, due, if_false, Option.some.injEq] at run
    subst run
    by_cases high : k = priorityQueues - 1
    · exact .inl ⟨high,stands⟩
    · exact .inr ⟨k,below,p,stands,need_counted (by omega) below'⟩

theorem section_waits {N n : Nat} {a : Action Core} (few : s.activeThreads ≤ N)
    (waits : Waits N t s n) (move : (system Core).Step s a s') : Current s' t ∨
      ∃ n', Waits N t s' n' ∧ n' + (if Yields a then 1 else 0) ≤ n := by
  obtain ⟨inv,counts,k,below,p,stands,enough⟩ := waits
  have inv' := system_inductive.step s a s' inv move
  have counts' := section_counts inv counts move.1 move.2
  have kept (grows : ∀ k, s.queue k <+: s'.queue k) (counter : s'.yieldCounter = s.yieldCounter) :
      ∃ n', Waits N t s' n' ∧ n' + 0 ≤ n :=
    ⟨_,⟨inv',counts',k,below,p,stands_grown grows stands,counter ▸ enough⟩,Nat.le_refl n⟩
  obtain ⟨enabled,run⟩ := move
  cases a with
  | runScheduler c =>
    have grows := run_scheduler_grows run
    exact .inr (kept grows.queue grows.counter)
  | spawn addr =>
    cases run
    exact .inr (kept (fun _ => List.prefix_refl _) rfl)
  | wakeup addr =>
    simp only [system, exec, Option.map_eq_some_iff] at run
    obtain ⟨⟨v,woken⟩,run,rfl⟩ := run
    have grows := wakeup_grows inv run
    exact .inr (kept grows.queue grows.counter)
  | sleep c state clock timeout =>
    have grows := sleep_grows run
    exact .inr (kept grows.queue grows.counter)
  | gain c =>
    obtain ⟨grows,counter,_⟩ := gain_moves inv enabled run
    exact .inr (kept grows counter)
  | yield c cause remaining clock =>
    obtain ⟨s₁,s₂,counted,grows,selects⟩ := yield_moves inv enabled run
    have counter : s'.yieldCounter = s₁.yieldCounter := selects.counter.trans grows.counter
    rcases count_stands inv counts few counted below stands with
      ⟨high,stands'⟩ | ⟨j,inside,q,stands',less⟩
    · rcases select_stands selects below (stands_grown grows.queue stands') with
        runs | ⟨q,stands'',_,less⟩
      · exact .inl ⟨c,runs⟩
      · refine .inr ⟨_,⟨inv',counts',k,below,q,stands'',Nat.le_refl _⟩,?_⟩
        have less := less high
        simp only [need, high, if_true] at enough ⊢
        simp only [Yields, if_true]
        omega
    · rcases select_stands selects inside (stands_grown grows.queue stands') with
        runs | ⟨q',stands'',le,_⟩
      · exact .inl ⟨c,runs⟩
      · refine .inr ⟨_,⟨inv',counts',j,inside,q',stands'',Nat.le_refl _⟩,?_⟩
        have closer := need_mono N s₁.yieldCounter j le
        rw [counter]
        simp only [Yields, if_true]
        omega

/- The scheduler, as long as there are at most N threads. -/
def systemOf (Core : Type) [DecidableEq Core] (N : Nat) : Machine (Sched Core) (Action Core) :=
  (system Core).restrict fun s _ => s.activeThreads ≤ N

instance systemOfDecidable (N : Nat) (s : Sched Core) (a : Action Core) :
    Decidable ((systemOf Core N).enabled s a) :=
  inferInstanceAs (Decidable (Enabled s a ∧ s.activeThreads ≤ N))

/-- A thread that is queued is taken up by a core before the yields outnumber a bound: with at most
    N threads, maxQuantums * N for each level between its own and the highest, and N. -/
theorem queued_thread_runs {N : Nat} {as : List (Action Core)} (reach : (system Core).Reach s)
    (below : k < priorityQueues) (queued : t ∈ s.level k) (runs : (systemOf Core N).Runs s as s')
    (enough : maxQuantums * N * (priorityQueues - 1 - k) + N < as.countP Yields) :
    ∃ first rest mid, as = first ++ rest ∧ (systemOf Core N).Runs s first mid ∧
      (systemOf Core N).Runs mid rest s' ∧ Current mid t := by
  obtain ⟨inv,counts⟩ := inductive_reach counts_inductive reach
  obtain ⟨p,short,here⟩ := List.getElem_of_mem queued
  have stands : Stands s t k p := List.getElem?_eq_some_iff.mpr ⟨short,here⟩
  have few : s.activeThreads ≤ N := by
    cases runs with
    | nil => cases enough
    | cons move _ => exact (restrict_step move).2
  have bound := need_initial N s.yieldCounter below
    (Nat.lt_of_lt_of_le short ((level_short inv counts k).trans few))
  have waits : Waits N t s _ := ⟨inv,counts,k,below,p,stands,Nat.le_refl _⟩
  have step (v : Sched Core) (a : Action Core) (v' : Sched Core) (n : Nat) (waits : Waits N t v n)
      (move : (systemOf Core N).Step v a v') : Current v' t ∨
        ∃ n', Waits N t v' n' ∧ n' + (if Yields a then 1 else 0) ≤ n :=
    section_waits (restrict_step move).2 waits (restrict_step move).1
  exact served_within step runs _ waits (Nat.lt_of_le_of_lt bound enough)

/- Thread 7 does I/O twice, which brings it to the highest level, and yields to 8. -/
def boostedRun : List (Action Unit) :=
  [.runScheduler (),.spawn 7,.wakeup 7,.yield () .idle 0 1,.gain (),.yield () .io 0 2,.gain (),
    .yield () .io 0 3,.gain (),.spawn 8,.wakeup 8,.yield () .user 0 4,.gain ()]

def boosted : Sched Unit :=
  ((system Unit).play (initializeScheduler Unit) boostedRun).getD (initializeScheduler Unit)

def threeYields : List (Action Unit) :=
  [.yield () .user 0 5,.gain (),.yield () .user 0 6,.gain (),.yield () .user 0 7]

theorem queued_thread_runs_boosted : ∃ first mid, first <+: threeYields ∧
    (systemOf Unit 2).Runs boosted first mid ∧ Current mid (.thread 7) := by
  have reach : (system Unit).Reach boosted := play_reach rfl boostedRun rfl
  have runs := play_runs (systemOf Unit 2) threeYields boosted _ rfl
  obtain ⟨first,rest,mid,is,before,_,done⟩ :=
    queued_thread_runs (k := 4) (t := .thread 7) reach (by decide) (by decide) runs (by decide)
  exact ⟨first,mid,⟨rest,is.symm⟩,before,done⟩

end KernelSched
