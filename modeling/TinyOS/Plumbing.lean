import TinyOS.Pipeline

/- What stands when process_line has started its last process: the pipes between the children,
   and who refers to their ends. -/
namespace Pipeline
open KernelStreams KernelProc KernelPipe PlainPipe ArgVector ProcInfo Transition
variable {Task Obj Dev : Type} {l : Line Task Obj} {s₀ : PipesRun Task Obj Dev}
  {s s' : ShellRun Task Obj Dev} {i : Nat} {r : PipeRef} {side : Side}

section Plumbed

/- With this end closed a Read finds what is left and then the end of file, and a Write fails. -/
def SeesEnd (p : PipeCB) : Side → Prop
  | .writer => ∀ n, ∃ data broadcast, (readPass n p).1 = .returns data.length data broadcast ∧
      (p.usedSpace = 0 → data = [])
  | .reader => ∀ buf, (writePass buf p).1 = .returns (-1) [] none

/- Only child i and what it starts refer to this end; when they have exited, it is closed. -/
structure Exclusive (s : ShellRun Task Obj Dev) (i : Nat) (r : PipeRef) (side : Side) : Prop where
  only : ∀ q, Owns s.pipes q r side → s.origin q = some i
  ended : (∀ q, s.origin q = some i → (s.pipes.files.kernel.PT q).pstate ≠ .alive) →
    SeesEnd (s.pipes.memory.pipes r) side

/- Child i starts with the write end as its fid 1, the next one with the read end as its fid 0. -/
def Joins (s : ShellRun Task Obj Dev) (i : Nat) (r : PipeRef) : Prop :=
  ∃ v w f g, s.started[i]? = some v ∧ s.started[i + 1]? = some w ∧
    v 1 = some (f,.pipe r .writer) ∧ w 0 = some (g,.pipe r .reader)

/- The shell has its file table back; the first child reads the stream that the shell reads, and the
   last one writes to the one that it writes to. -/
structure Ends (l : Line Task Obj) (s₀ : PipesRun Task Obj Dev) (s : ShellRun Task Obj Dev) :
    Prop where
  restored : view s.pipes l.shell.1 = view s₀ l.shell.1
  children : s.child.length = l.frag
  first : ∃ v, s.started[0]? = some v ∧ v 0 = view s₀ l.shell.1 0
  last : ∃ v, s.started[l.frag - 1]? = some v ∧ v 1 = view s₀ l.shell.1 1

def Plumbed (l : Line Task Obj) (s₀ : PipesRun Task Obj Dev) (s : ShellRun Task Obj Dev) : Prop :=
  Ends l s₀ s ∧ ∀ i, i + 1 < l.frag →
    ∃ r, Joins s i r ∧ Exclusive s i r .writer ∧ Exclusive s (i + 1) r .reader

theorem closed_sees_end {p : PipeCB} (closed : side.fcb p = none) : SeesEnd p side := by
  cases side with
  | reader =>
    intro buf
    have gone : p.reader = none := closed
    simp [writePass, gone]
  | writer =>
    intro n
    have gone : p.writer = none := closed
    refine ⟨(readLoop n p).1,some .hasSpace,by simp [readPass, gone],fun empty => ?_⟩
    cases n with
    | zero => rfl
    | succ n => simp [readLoop, empty]

/-- Exited processes refer to nothing. -/
theorem exclusive_only (inv : PipesInv s.pipes) (users : UsersRun s.pipes.files)
    (made : r < s.pipes.memory.nextPipe)
    (only : ∀ q, Owns s.pipes q r side → s.origin q = some i) : Exclusive s i r side := by
  refine ⟨only,fun exited => closed_sees_end ?_⟩
  by_contra isOpen
  obtain ⟨q,f,refers,here⟩ := (open_iff_owned inv made).mp isOpen
  exact dead_refers inv users (exited q (only q ⟨f,refers,here⟩)) refers

theorem built_shows (inv : LineInv l s₀ s) (built : s.stage = .built) :
    s.i = l.frag ∧ view s.pipes l.shell.1 = view s₀ l.shell.1 := by
  have shows := inv.shows
  simp only [Shows, built] at shows
  exact shows

theorem built_count (inv : LineInv l s₀ s) (built : s.stage = .built) :
    s.started.length = l.frag ∧ s.child.length = l.frag := by
  have count := inv.count (by simp [built])
  rw [ShellRun.begun, built, (built_shows inv built).1] at count
  exact count

theorem built_given (inv : LineInv l s₀ s) (built : s.stage = .built) (inside : i < l.frag) :
    ∃ v, s.started[i]? = some v ∧ Given (view s₀ l.shell.1) s.made l.frag i v := by
  have bound : i < s.started.length := (built_count inv built).1 ▸ inside
  exact ⟨_,List.getElem?_eq_getElem bound,inv.started i _ (List.getElem?_eq_getElem bound)⟩

theorem built_ends (inv : LineInv l s₀ s) (some' : 0 < l.frag) (built : s.stage = .built) :
    Ends l s₀ s := by
  obtain ⟨v,first,given⟩ := built_given inv built some'
  obtain ⟨w,last,given'⟩ := built_given inv built (i := l.frag - 1) (by omega)
  have final : ¬ l.frag - 1 + 1 < l.frag := by omega
  have out := given'.stdout
  rw [IsOut, if_neg final] at out
  exact ⟨(built_shows inv built).2,(built_count inv built).2,⟨v,first,given.stdin⟩,w,last,out⟩

theorem built_owners (inv₀ : PipesInv s₀) (inv : LineInv l s₀ s) (built : s.stage = .built)
    (here : s.made[i]? = some r) {q : Pid} (owns : Owns s.pipes q r side) :
    s.origin q = some i ∨ side = .reader ∧ s.origin q = some (i + 1) := by
  refine (inv.owners i r q side here owns).resolve_left ?_
  rintro rfl
  have member := List.mem_of_getElem? here
  obtain ⟨fid,f,entry⟩ := shell_owns inv (inv.fresh r member).1 owns
  rw [(built_shows inv built).2] at entry
  exact made_old inv₀ inv fid f r side entry member

/-- Whatever the number of fragments: the pipes join the children, and only child i refers to the
    write end of its pipe; to the read end refer child i and child i + 1. -/
theorem built_pipes (inv₀ : PipesInv s₀) (inv : LineInv l s₀ s) (built : s.stage = .built)
    (more : i + 1 < l.frag) : ∃ r, s.made[i]? = some r ∧ Joins s i r ∧ Exclusive s i r .writer ∧
      ∀ q, Owns s.pipes q r .reader → s.origin q = some i ∨ s.origin q = some (i + 1) := by
  obtain ⟨v,starts,given⟩ := built_given inv built (by omega : i < l.frag)
  obtain ⟨w,next,given'⟩ := built_given inv built more
  have out := given.stdout
  rw [IsOut, if_pos more] at out
  obtain ⟨r,f,here,out⟩ := out
  obtain ⟨r',g,here',stdin⟩ := given'.stdin
  obtain rfl : r' = r := Option.some.inj (here'.symm.trans here)
  refine ⟨r',here,⟨v,w,f,g,starts,next,out,stdin⟩,?_,fun q owns => ?_⟩
  · have made := (inv.fresh r' (List.mem_of_getElem? here)).2
    refine exclusive_only inv.pipes inv.users made fun q owns => ?_
    rcases built_owners inv₀ inv built here owns with mine | ⟨read,_⟩
    · exact mine
    · cases read
  · exact (built_owners inv₀ inv built here owns).imp_right And.right

end Plumbed

section Progress
variable {a : PipesAction Task Obj Dev} {pipes : PipesRun Task Obj Dev}

/- At most so many calls are left. -/
def Line.left (l : Line Task Obj) (s : ShellRun Task Obj Dev) : Nat :=
  let bodies := 6 * (l.frag - 1 - s.i)
  match s.stage with
  | .openIn => 6 * l.frag + 4
  | .saveIn => 6 * l.frag + 3
  | .openOut => 6 * l.frag + 2
  | .saveOut => 6 * l.frag + 1
  | .pipe => bodies + 6
  | .dupWrite | .restoreOut => bodies + 5
  | .closeWrite | .closeOut => bodies + 4
  | .execute => bodies + 3
  | .dupRead | .restoreIn => bodies + 2
  | .closeRead | .closeIn => bodies + 1
  | .built | .failed => 0

theorem loop_left (l : Line Task Obj) (s : ShellRun Task Obj Dev) (i : Nat) :
    l.left { s with stage := l.loop i, i := i } ≤ 6 * (l.frag - i) := by
  unfold Line.loop
  split
  · split
    · simp only [Line.left]
      omega
    · simp only [Line.left]
      omega
  · exact Nat.zero_le _

theorem returned_left (pipes : PipesRun Task Obj Dev) (call : l.call s = some a) :
    l.left (l.returned s a pipes) < l.left s := by
  cases stage : s.stage with
  | saveOut =>
    have loop := loop_left l { s with pipes := pipes } 0
    simp only [Line.returned, stage]
    simp only [Line.left, stage] at loop ⊢
    omega
  | closeRead | closeIn =>
    have loop := loop_left l { s with pipes := pipes } (s.i + 1)
    simp only [Line.returned, stage]
    simp only [Line.left, stage] at loop ⊢
    omega
  | openIn | openOut =>
    cases opened : openedFid l s.pipes with
    | none => simp [Line.returned, Line.left, stage, opened, ShellRun.failing]
    | some f => simp [Line.returned, Line.left, stage, opened]
  | pipe =>
    cases made : pipeFids l s.pipes with
    | none => simp [Line.returned, Line.left, stage, made, ShellRun.failing]
    | some f => simp [Line.returned, Line.left, stage, made]
  | execute =>
    cases made : s.pipes.execed a with
    | none => simp [Line.returned, Line.left, stage, made, ShellRun.failing]
    | some new =>
      by_cases more : s.i + 1 < l.frag
      · simp [Line.returned, Line.left, stage, made, more]
      · simp [Line.returned, Line.left, stage, made, more]
  | built | failed =>
    simp only [Line.call, stage] at call
    cases call
  | _ => simp [Line.returned, Line.left, stage]

def ShellAction.isCall : ShellAction Task Obj Dev → Bool
  | .call => true
  | .other _ => false

/-- However the other processes interleave, process_line makes at most so many calls. -/
theorem calls_bounded (ops : FileOps Obj Dev) {as : List (ShellAction Task Obj Dev)}
    (runs : (lineSystem ops l s₀).Runs s as s') :
    as.countP ShellAction.isCall + l.left s' ≤ l.left s := by
  induction runs with
  | nil s => simp
  | @cons s t s' x as move rest ih =>
    rcases line_cases move with ⟨a,pipes,rfl,call,_,rfl⟩ | ⟨a,pipes,rfl,_,_,rfl⟩
    · have fewer := returned_left pipes call
      rw [List.countP_cons_of_pos rfl]
      omega
    · have same : l.left (s.others a pipes) = l.left s := by
        unfold ShellRun.others
        split <;> rfl
      rw [List.countP_cons_of_neg (by simp [ShellAction.isCall])]
      omega

theorem stage_calls (inv : LineInv l s₀ s) (unbuilt : s.stage ≠ .built)
    (alive : s.stage ≠ .failed) : (l.call s).isSome := by
  cases stage : s.stage with
  | execute =>
    have shows := inv.shows
    simp only [Shows, stage] at shows
    have inside : s.i < l.frags.length := by
      rcases shows with ⟨x,r,f,g,piped,_⟩ | ⟨x,last,_⟩
      · exact Nat.lt_of_succ_lt piped.more
      · exact Nat.lt_of_succ_le last.last.le
    simp [Line.call, stage, inside]
  | built => exact absurd stage unbuilt
  | failed => exact absurd stage alive
  | _ => simp [Line.call, stage]

/-- The shell can make its next call at any time. -/
theorem line_goes (ops : FileOps Obj Dev) (inv : LineInv l s₀ s) (unbuilt : s.stage ≠ .built)
    (alive : s.stage ≠ .failed) : ∃ s', (lineSystem ops l s₀).Step s .call s' := by
  have calls := stage_calls inv unbuilt alive
  obtain ⟨a,call⟩ := Option.isSome_iff_exists.mp calls
  obtain ⟨pipes,run,_⟩ := pipes_step ops inv.pipes (call_enabled l inv.idle call).1
  refine ⟨l.returned s a pipes,⟨inv.idle,calls⟩,?_⟩
  simp only [lineSystem, Line.exec, call, run, Option.bind_eq_bind, Option.bind_some]

end Progress

section Alone
variable {a : PipesAction Task Obj Dev} {pipes : PipesRun Task Obj Dev}

/- Only the shell takes steps. -/
def Alone (_ : ShellRun Task Obj Dev) : ShellAction Task Obj Dev → Prop
  | .call => True
  | .other _ => False

instance (s : ShellRun Task Obj Dev) (a : ShellAction Task Obj Dev) : Decidable (Alone s a) :=
  match a with
  | .call => inferInstanceAs (Decidable True)
  | .other _ => inferInstanceAs (Decidable False)

/- The children have the file tables with which they have started. -/
def Waiting (l : Line Task Obj) (s : ShellRun Task Obj Dev) : Prop :=
  ∀ j pid v, s.child[j]? = some pid → s.started[j]? = some v →
    view s.pipes pid = v ∧ pid ≠ l.shell.1 ∧ s.origin pid = some j

theorem given_stdout {V v : View Obj} {made : List PipeRef} {n : Nat} (output : V 1 ≠ none)
    (given : Given V made n i v) : v 1 ≠ none := by
  have out := given.stdout
  unfold IsOut at out
  split at out
  · obtain ⟨r,f,_,same⟩ := out
    rw [same]
    exact Option.some_ne_none _
  · rwa [out]

theorem call_waiting (ops : FileOps Obj Dev) (output : view s₀ l.shell.1 1 ≠ none)
    (inv : LineInv l s₀ s) (waiting : Waiting l s) (call : l.call s = some a)
    (run : pipesExec ops s.pipes a = some pipes) : Waiting l (l.returned s a pipes) := by
  obtain ⟨enabled,caller,_⟩ := call_enabled l inv.idle call
  have alive : s.stage ≠ .failed := fun stage => by simp [Line.call, stage] at call
  have kept (j : Nat) (pid : Pid) (v : View Obj) (child : s.child[j]? = some pid)
      (started : s.started[j]? = some v) : (∀ p, s.pipes.execed a ≠ some (p,pid)) ∧
        view pipes pid = v ∧ pid ≠ l.shell.1 ∧ s.origin pid = some j := by
    obtain ⟨same,apart,origin⟩ := waiting j pid v child started
    have open' : view s.pipes pid 1 ≠ none := by
      rw [same]
      exact given_stdout output (inv.started j v started)
    have old (p : Pid) : s.pipes.execed a ≠ some (p,pid) := by
      intro made
      refine open' (view_none.mpr (inv.pipes.files.closed pid ?_ 1))
      simp [execed_free (execed_ok inv.pipes enabled made) made]
    refine ⟨old,?_,apart,origin⟩
    rw [view_others ops inv.pipes enabled run ?_ old, same]
    rintro t mine rfl
    rw [caller] at mine
    cases mine
    exact apart rfl
  intro j pid v child started
  rw [returned_pipes]
  rcases returned_cases pipes call with ⟨_,_,starts,children,origin⟩ |
    ⟨_,_,_,starts,children,origin⟩ | ⟨new,stage,made,_,starts,children,origin⟩
  · rw [children] at child
    rw [starts] at started
    rw [origin]
    exact (kept j pid v child started).2
  · rw [children] at child
    rw [starts] at started
    rw [origin]
    exact (kept j pid v child started).2
  · obtain ⟨count,count'⟩ := inv.count alive
    have begun : s.begun = s.i := by
      rw [ShellRun.begun, stage]
      rfl
    rw [children] at child
    rw [starts] at started
    rw [origin]
    by_cases before : j < s.child.length
    · rw [List.getElem?_append_left before] at child
      rw [List.getElem?_append_left (by omega)] at started
      obtain ⟨old,same,apart,from'⟩ := kept j pid v child started
      have other : pid ≠ new := by
        rintro rfl
        exact old l.shell.1 made
      rw [Function.update_of_ne other]
      exact ⟨same,apart,from'⟩
    · rw [List.getElem?_append_right (Nat.not_lt.mp before)] at child
      rw [List.getElem?_append_right (by omega)] at started
      obtain ⟨bound,rfl⟩ := List.getElem?_eq_some_iff.mp child
      obtain ⟨_,rfl⟩ := List.getElem?_eq_some_iff.mp started
      rw [List.length_singleton] at bound
      rw [List.getElem_singleton, List.getElem_singleton, Function.update_self]
      refine ⟨rfl,?_,by rw [show j = s.i by omega]⟩
      rintro rfl
      exact running_execed inv.pipes inv.idle made

end Alone

section Result
variable {COMMANDS : List Command} {argv : List CString}

/- The construction of any line. Nobody makes process_line wait, and its loop ends; whatever the
   other processes do meanwhile, each pipe joins two neighbours, and its ends are in these only. -/
structure Constructs (ops : FileOps Obj Dev) (l : Line Task Obj) (s₀ : PipesRun Task Obj Dev) :
    Prop where
  goes : ∀ s, (lineSystem ops l s₀).Reach s → s.stage ≠ .built → s.stage ≠ .failed →
    ∃ s', (lineSystem ops l s₀).Step s .call s'
  bounded : ∀ as s, (lineSystem ops l s₀).Runs (beforeLine s₀) as s →
    as.countP ShellAction.isCall ≤ 6 * l.frag + 4
  ends : ∀ s, (lineSystem ops l s₀).Reach s → s.stage = .built → Ends l s₀ s
  pipes : ∀ s, (lineSystem ops l s₀).Reach s → s.stage = .built → ∀ i, i + 1 < l.frag →
    ∃ r, Joins s i r ∧ Exclusive s i r .writer ∧
      ∀ q, Owns s.pipes q r .reader → s.origin q = some i ∨ s.origin q = some (i + 1)

theorem alone_waiting (ops : FileOps Obj Dev) (reach : (pipesSystem Task ops).Reach s₀)
    (idle : s₀.files.Idle l.shell) (some' : 0 < l.frag) (input : view s₀ l.shell.1 0 ≠ none)
    (output : view s₀ l.shell.1 1 ≠ none) (run : ((lineSystem ops l s₀).restrict Alone).Reach s) :
    Waiting l s := by
  induction run with
  | start first =>
    cases first
    exact nofun
  | @step s s' a before move waiting =>
    have inv := line_reach ops reach idle some' input output (restrict_reach before)
    obtain ⟨move,alone⟩ := restrict_step move
    rcases line_cases move with ⟨a,pipes,_,call,run,rfl⟩ | ⟨a,pipes,rfl,_⟩
    · exact call_waiting ops output inv waiting call run
    · exact alone.elim

/-- Child i has the read end of its own pipe, too. -/
theorem waiting_reads (inv : LineInv l s₀ s) (waiting : Waiting l s) (built : s.stage = .built)
    (more : i + 1 < l.frag) (joins : Joins s i r) :
    ∃ q, Owns s.pipes q r .reader ∧ s.origin q = some i := by
  obtain ⟨v,starts,given⟩ := built_given inv built (by omega : i < l.frag)
  obtain ⟨r',fid,g,here,entry⟩ := given.extra more
  have out := given.stdout
  rw [IsOut, if_pos more] at out
  obtain ⟨r'',f',here',out⟩ := out
  obtain rfl : r' = r'' := Option.some.inj (here.symm.trans here')
  obtain ⟨v',_,f,_,starts',_,writes,_⟩ := joins
  obtain rfl : v = v' := Option.some.inj (starts.symm.trans starts')
  rw [writes] at out
  cases out
  have bound : i < s.child.length := by
    rw [(built_count inv built).2]
    omega
  obtain ⟨same,_,origin⟩ := waiting i _ v (List.getElem?_eq_getElem bound) starts
  rw [← same] at entry
  exact ⟨_,⟨g,view_refers entry⟩,origin⟩

theorem several_unplumbed (inv : LineInv l s₀ s) (waiting : Waiting l s) (built : s.stage = .built)
    (several : 0 + 1 < l.frag) : ¬ Plumbed l s₀ s := by
  intro plumbed
  obtain ⟨r,joins,_,reads⟩ := plumbed.2 0 several
  obtain ⟨q,owns,origin⟩ := waiting_reads inv waiting built several joins
  have next := reads.only q owns
  rw [origin] at next
  cases next

/-- Execute is called with the read end of the new pipe open, so that a pipeline has every end of a
    pipe in one child only if and only if it consists of a single fragment. -/
theorem pipeline_plumbed_iff (ops : FileOps Obj Dev) (reach : (pipesSystem Task ops).Reach s₀)
    (idle : s₀.files.Idle l.shell) (input : view s₀ l.shell.1 0 ≠ none)
    (output : view s₀ l.shell.1 1 ≠ none) (split : fragments COMMANDS argv = some l.frags)
    (works : ∃ s, ((lineSystem ops l s₀).restrict Alone).Reach s ∧ s.stage = .built) :
    Constructs ops l s₀ ∧
    ((∀ s, (lineSystem ops l s₀).Reach s → s.stage = .built → Plumbed l s₀ s) ↔
      l.frags.length = 1) := by
  have some' : 0 < l.frag := List.length_pos_iff.mpr (fragments_words split).2
  have inv₀ := pipes_reach_inv ops reach
  have inv (s : ShellRun Task Obj Dev) (run : (lineSystem ops l s₀).Reach s) : LineInv l s₀ s :=
    line_reach ops reach idle some' input output run
  refine ⟨⟨fun s run => line_goes ops (inv s run),fun as s runs => ?_,
    fun s run => built_ends (inv s run) some',fun s run built i more => ?_⟩,fun plumbed => ?_,
    fun single s run built => ?_⟩
  · have bound := calls_bounded ops runs
    simp only [beforeLine, Line.left] at bound
    omega
  · obtain ⟨r,_,rest⟩ := built_pipes inv₀ (inv s run) built more
    exact ⟨r,rest⟩
  · by_contra several
    have more : 0 + 1 < l.frag := by
      rw [Line.frag] at some' ⊢
      omega
    obtain ⟨s,run,built⟩ := works
    have waiting := alone_waiting ops reach idle some' input output run
    have run' := restrict_reach run
    exact several_unplumbed (inv s run') waiting built more (plumbed s run' built)
  · refine ⟨built_ends (inv s run) some' built,fun i more => ?_⟩
    rw [Line.frag, single] at more
    exact absurd more (by omega)

/- init after boot, with null devices as its fids 0 and 1. -/
def bootedPipes : PipesRun Unit Unit Unit :=
  { files :=
      { kernel := boot (initializeFiles (.other ())
          { pipes := fun _ => acquirePipeCB none none (fun _ => 0), nextPipe := 0
            waits := .empty _ _, others := (), closes := fun _ _ => 0
            frees := fun _ => 0 }) () 0 none
        inUse := [] }
    calls := fun _ => none }

def openStreams : List (PipesAction Unit Unit Unit) :=
  List.replicate 2 (.call (.openDevice (1,0) (some (.other ()))))

def shellStart : PipesRun Unit Unit Unit :=
  ((pipesSystem Unit bareOps).play bootedPipes openStreams).get rfl

theorem shell_start_reach : (pipesSystem Unit bareOps).Reach shellStart :=
  play_reach (m := pipesSystem Unit bareOps)
    ⟨.other (),fun _ => acquirePipeCB none none (fun _ => 0),(),(),0,none,rfl⟩ openStreams
    (Option.some_get _).symm

/- "ls" and "wc" -/
def ls : CString := ⟨[108,115],by decide⟩
def wc : CString := ⟨[119,99],by decide⟩

def programs : List Command :=
  [⟨ls,⟨List.replicate sizeofProgram 1,rfl⟩⟩,⟨wc,⟨List.replicate sizeofProgram 2,rfl⟩⟩]

def shellLine (argv : List CString) : Line Unit Unit :=
  { shell := (1,0), null := (), wrapper := (), frags := (fragments programs argv).getD [] }

/- ls | wc -/
def listAndCount : List CString := [ls,⟨pipeSign,by decide⟩,wc]

theorem alone_reach {l : Line Unit Unit} {s : ShellRun Unit Unit Unit} {n : Nat}
    (played : (lineSystem bareOps l shellStart).play (beforeLine shellStart)
      (List.replicate n .call) = some s) :
    ((lineSystem bareOps l shellStart).restrict Alone).Reach s :=
  meets_reach rfl (List.replicate n .call) played
    (meets_of_all (fun _ a member => by rw [List.eq_of_mem_replicate member]; trivial) _)

theorem pipeline_plumbed_single : fragments programs [ls] = some (shellLine [ls]).frags ∧
    ∀ s, (lineSystem bareOps (shellLine [ls]) shellStart).Reach s → s.stage = .built →
      Plumbed (shellLine [ls]) shellStart s := by
  have split : fragments programs [ls] = some (shellLine [ls]).frags := rfl
  exact ⟨split,(pipeline_plumbed_iff bareOps shell_start_reach (by decide) (by decide) (by decide)
    split ⟨_,alone_reach (n := 9) rfl,rfl⟩).2.mpr rfl⟩

/-- The first of two processes has the read end of the pipe between them. -/
theorem pipeline_read_kept : (pipesSystem Unit bareOps).Reach shellStart ∧
    fragments programs listAndCount = some (shellLine listAndCount).frags ∧
    ∃ s, (lineSystem bareOps (shellLine listAndCount) shellStart).Reach s ∧ s.stage = .built ∧
      ¬ Plumbed (shellLine listAndCount) shellStart s := by
  have idle : shellStart.files.Idle (1,0) := by decide
  have input : view shellStart 1 0 ≠ none := by decide
  have output : view shellStart 1 1 ≠ none := by decide
  have two : 0 + 1 < (shellLine listAndCount).frag := by decide
  have run := alone_reach (l := shellLine listAndCount) (n := 15) rfl
  have reach := restrict_reach run
  have inv := line_reach bareOps shell_start_reach idle (Nat.lt_of_succ_lt two) input output reach
  have waiting := alone_waiting bareOps shell_start_reach idle (Nat.lt_of_succ_lt two) input output
    run
  exact ⟨shell_start_reach,rfl,_,reach,rfl,several_unplumbed inv waiting rfl two⟩

end Result

end Pipeline
