import TinyOS.ThreadSteps
import TinyOS.ProcInfo

/- The arguments of a program, from Execute through Exec to exec_wrapper, and back from the stream of
   OpenInfo. -/
namespace ProcInfo
open KernelProc KernelStreams KernelThreads ArgVector Transition
variable {Task Obj Dev : Type}

/- The program that is called, and its arguments. -/
def ProgramCall.Is (call : ProgramCall) (prog : Program) (argv : List CString) : Prop :=
  call.prog = prog ∧ call.argc = argv.length ∧
    call.argv.map stringAt = argv.map fun s => some s.val

/- The first min(m, argc) of the m entries have been filled, and the others left as they were. -/
def Filled (v v' : List (List Byte)) (argv : List CString) : Prop :=
  (v'.take (min v.length argv.length)).map stringAt =
      (argv.take (min v.length argv.length)).map (fun s => some s.val) ∧
    v'.drop (min v.length argv.length) = v.drop (min v.length argv.length)

/- For the process p that Execute has started, whose exec_wrapper finds some room on its stack;
   prog₀ and v are what ParseProcInfo finds. -/
structure Survives [DecidableEq Task] (room : StackRoom) (wrapper : Task)
    (k : Kernel Task Obj Dev) (p : Pid) (prog : Program) (argv : List CString) (prog₀ : Program)
    (v : List (List Byte)) : Prop where
  called : ∃ call, execWrapper room (k.PT p).argl (k.PT p).args = some call ∧ call.Is prog argv
  parsed : ∀ picb info picb', procinfoRead k picb = some (some info,picb') → info.pid = p.val →
    (packedLength argv ≤ procinfoMaxArgsSize →
      ∃ v', parseProcInfo wrapper info (some prog₀) v.length (some v) =
        some ((argv.length : Int),some prog,some v') ∧ Filled v v' argv) ∧
    (procinfoMaxArgsSize < packedLength argv →
      ∃ rest, parseProcInfo wrapper info (some prog₀) v.length (some v) = some (-1,rest))

section Buffers
variable {prog : Program} {argv : List CString}

theorem executeArgs_eq (prog : Program) (argv : List CString) :
    executeArgs prog argv = prog.val ++ packed argv := by
  rw [executeArgs, argvpack_bytes]

theorem executeArgs_length (prog : Program) (argv : List CString) :
    (executeArgs prog argv).length = packedLength argv := by
  rw [executeArgs_eq, List.length_append, prog.property, packedLength, argvlen_packed, Nat.add_comm]

theorem take_program (prog : Program) (rest : List Byte) :
    takeProgram (prog.val ++ rest) = some (prog,rest) := by
  have long : sizeofProgram ≤ (prog.val ++ rest).length := by
    rw [List.length_append, prog.property]
    exact Nat.le_add_right _ _
  unfold takeProgram
  rw [dif_pos long]
  simp only [Option.some.injEq, Prod.mk.injEq]
  refine ⟨Subtype.ext ?_,?_⟩
  · exact List.take_left' prog.property
  · exact List.drop_left' prog.property

theorem strings_small {argv : List CString} (small : packedLength argv < 2 ^ 31) :
    (packed argv).length < 2 ^ 31 := by
  refine Nat.lt_of_le_of_lt ?_ small
  rw [packedLength, argvlen_packed]
  exact Nat.le_add_right _ _

/- The length of the strings, as both unpackers compute it. -/
theorem strings_length {argv : List CString} (small : packedLength argv < 2 ^ 31) :
    toInt ((packedLength argv : Int) - sizeofProgram) = (packed argv).length := by
  have length : (packedLength argv : Int) - sizeofProgram = ((packed argv).length : Nat) := by
    rw [packedLength, argvlen_packed]
    omega
  rw [length]
  exact toInt_small (strings_small small)

theorem room_small {argv : List CString} {room : StackRoom} (fits : packedLength argv ≤ room) :
    packedLength argv < 2 ^ 31 :=
  (fits.trans room.property).trans_lt (by decide)

theorem exec_wrapper_eq {room : StackRoom} {argl : Int} {args rest last : List Byte} {argc : Nat}
    {pointers : List (List Byte)} (taken : takeProgram args = some (prog,rest))
    (counted : argscount (toInt (argl - sizeofProgram)) rest = some argc)
    (run : argvunpack argc rest = some (pointers,last)) :
    execWrapper room argl (some args) =
      if sizeofPointer * argc > room then none
      else some { prog := prog, argc := argc, argv := pointers } := by
  simp only [execWrapper, taken, counted, run, Option.bind_eq_bind, Option.bind_some]

/-- exec_wrapper calls the program with the arguments given to Execute, exactly if the array of
    pointers to them fits on its stack. -/
theorem exec_wrapper_calls (small : packedLength argv < 2 ^ 31) (room : StackRoom) :
    (∃ call, execWrapper room (packedLength argv) (some (executeArgs prog argv)) = some call ∧
      call.Is prog argv) ↔ sizeofPointer * argv.length ≤ room := by
  obtain ⟨pointers,run,strings⟩ := argvunpack_packed argv []
  have counted := argscount_packed (strings_small small) []
  rw [List.append_nil] at run counted
  rw [← strings_length small] at counted
  rw [executeArgs_eq, exec_wrapper_eq (take_program prog _) counted run]
  by_cases fits : sizeofPointer * argv.length > room
  · rw [if_pos fits]
    exact iff_of_false (fun ⟨_,called,_⟩ => by cases called) (Nat.not_le.mpr fits)
  · rw [if_neg fits]
    exact iff_of_true ⟨⟨prog,argv.length,pointers⟩,rfl,rfl,rfl,strings⟩ (Nat.not_lt.mp fits)

theorem copyArgs_prefix (old : Fin procinfoMaxArgsSize → Byte) {args : List Byte}
    (fits : args.length ≤ procinfoMaxArgsSize) :
    ∃ rest, List.ofFn (copyArgs old args args.length) = args ++ rest := by
  have first : (List.ofFn (copyArgs old args args.length)).take args.length = args := by
    apply List.ext_getElem
    · rw [List.length_take, List.length_ofFn, Nat.min_eq_left fits]
    · intro i _ inside
      rw [List.getElem_take, List.getElem_ofFn]
      simp only [copyArgs, inside, if_true, List.getD_eq_getElem]
  exact ⟨_,(List.take_append_drop args.length _).symm.trans (congrArg (· ++ _) first)⟩

theorem read_args {args : List Byte} {n : Nat} (few : n ≤ args.length) :
    ∃ src, readArgs (some args) n = some src ∧ (n = args.length → src = args) := by
  by_cases none : n = 0
  · refine ⟨[],?_,fun same => ?_⟩
    · rw [none]
      rfl
    · exact (List.length_eq_zero_iff.mp (same.symm.trans none)).symm
  · refine ⟨args,?_,fun _ => rfl⟩
    unfold readArgs
    rw [if_neg (by omega), if_neg (by omega), Option.bind_some, if_neg (by omega)]

/-- What is told of a process that has its arguments. -/
theorem procinfo_entry (k : Kernel Task Obj Dev) (p : Pid) (old : Procinfo Task) {args : List Byte}
    (argl : (k.PT p).argl = args.length) (kept : (k.PT p).args = some args) :
    ∃ info, procinfoEntry k p old = some info ∧ info.pid = p.val ∧
      info.mainTask = (k.PT p).mainTask ∧ info.argl = args.length ∧
      (args.length ≤ procinfoMaxArgsSize → ∃ rest, List.ofFn info.args = args ++ rest) := by
  have least : (if (args.length : Int) > procinfoMaxArgsSize then (procinfoMaxArgsSize : Int)
      else args.length) = (min args.length procinfoMaxArgsSize : Nat) := by
    split <;> omega
  obtain ⟨src,read,whole⟩ := read_args (Nat.min_le_left args.length procinfoMaxArgsSize)
  have entry : procinfoEntry k p old = some
      { pid := getPid (some p)
        ppid := getPid (k.PT p).parent
        alive := if (k.PT p).pstate = .zombie then 0 else 1
        threadCount := (k.PT p).threadCount
        mainTask := (k.PT p).mainTask
        argl := args.length
        args := copyArgs old.args src (min args.length procinfoMaxArgsSize) } := by
    simp only [procinfoEntry, argl, kept, least, read, Option.bind_eq_bind, Option.bind_some,
      Int.toNat_natCast]
  refine ⟨_,entry,rfl,rfl,rfl,fun fits => ?_⟩
  have full := Nat.min_eq_left fits
  cases whole full
  rw [full]
  exact copyArgs_prefix old.args fits

theorem parse_eq [DecidableEq Task] {wrapper : Task} {info : Procinfo Task} {N argc : Nat}
    {rest last : List Byte} {m : Int} {v v' pointers : List (List Byte)}
    (task : info.mainTask = some wrapper) (fits : info.argl ≤ procinfoMaxArgsSize)
    (taken : takeProgram (List.ofFn info.args) = some (prog,rest))
    (counted : argscount (toInt (info.argl - sizeofProgram)) rest = some N)
    (least : (if toSize m > N then N else toSize m) = argc)
    (run : argvunpack argc rest = some (pointers,last)) (stored : storePointers v pointers = some v')
    (prog₀ : Option Program) :
    parseProcInfo wrapper info prog₀ m (some v) = some (toInt N,prog₀,some v') := by
  unfold parseProcInfo
  rw [if_neg (not_not_intro task), if_neg (not_lt.mpr fits)]
  simp only [taken, counted, least, run, stored, Option.bind_eq_bind, Option.bind_some]

/-- ParseProcInfo gets the arguments back, but leaves the location of the program as it was. -/
theorem parse_arguments [DecidableEq Task] {wrapper : Task} {info : Procinfo Task}
    (task : info.mainTask = some wrapper) (argl : info.argl = packedLength argv)
    (small : packedLength argv ≤ procinfoMaxArgsSize) {rest : List Byte}
    (bytes : List.ofFn info.args = executeArgs prog argv ++ rest) (prog₀ : Program)
    {v : List (List Byte)} (range : v.length < 2 ^ 31) :
    ∃ v', parseProcInfo wrapper info (some prog₀) v.length (some v) =
      some ((argv.length : Int),some prog₀,some v') ∧ Filled v v' argv := by
  have fits : packedLength argv < 2 ^ 31 := Nat.lt_of_le_of_lt small (by decide)
  have count : argv.length < 2 ^ 31 := by
    have zeros := List.count_le_length (a := (0 : Byte)) (l := packed argv)
    rw [packed_zeros] at zeros
    rw [packedLength, argvlen_packed] at fits
    omega
  have counted := argscount_packed (strings_small fits) rest
  obtain ⟨pointers,last,run,length,strings⟩ :=
    argvunpack_take argv (min v.length argv.length) (Nat.min_le_right ..) rest
  have least : (if toSize v.length > argv.length then argv.length else toSize v.length) =
      min v.length argv.length := by
    rw [toSize_small range]
    split <;> omega
  have stored : storePointers v pointers = some (pointers ++ v.drop pointers.length) :=
    if_pos (by rw [length]; exact Nat.min_le_left ..)
  refine ⟨pointers ++ v.drop (min v.length argv.length),?_,?_,?_⟩
  · have taken : takeProgram (List.ofFn info.args) = some (prog,packed argv ++ rest) := by
      rw [bytes, executeArgs_eq, List.append_assoc, take_program]
    rw [← strings_length fits, ← argl] at counted
    rw [parse_eq task (by rw [argl]; omega) taken counted least run stored, toInt_small count,
      length]
  · rw [List.take_left' length, strings]
  · exact List.drop_left' length

end Buffers

section Processes
variable [DecidableEq Task] {wrapper : Task} {prog : Program} {argv : List CString}
  {k : Kernel Task Obj Dev} {p : Pid}

/- What the PCB keeps of a process that Execute has started. -/
def executeImage (wrapper : Task) (prog : Program) (argv : List CString) :
    Option Task × Int × Option (List Byte) :=
  (some wrapper,toInt (packedLength argv),
    some ((executeArgs prog argv).take (toInt (packedLength argv)).toNat))

omit [DecidableEq Task] in
theorem execute_image (small : packedLength argv < 2 ^ 31) : executeImage wrapper prog argv =
    (some wrapper,(packedLength argv : Int),some (executeArgs prog argv)) := by
  rw [executeImage, toInt_small small, Int.toNat_natCast,
    List.take_of_length_le (executeArgs_length prog argv).le]

omit [DecidableEq Task] in
theorem procinfo_read_entry {picb picb' : PICB Task} {info : Procinfo Task}
    (run : procinfoRead k picb = some (some info,picb')) (here : info.pid = p.val) :
    procinfoEntry k p picb.info = some info := by
  simp only [procinfoRead] at run
  split at run
  · rename_i inside
    simp only [Option.bind_eq_bind, Option.bind_eq_some_iff, Option.some.injEq, Prod.mk.injEq] at run
    obtain ⟨info',entry,rfl,_⟩ := run
    have named : info'.pid = skipFree k (maxProc - picb.cursor) picb.cursor := by
      simp only [procinfoEntry, Option.bind_eq_bind, Option.bind_eq_some_iff,
        Option.some.injEq] at entry
      obtain ⟨args,_,rfl⟩ := entry
      rfl
    have same : (⟨_,inside⟩ : Pid) = p := Fin.ext (Int.ofNat.inj (named.symm.trans here))
    rwa [same] at entry
  · cases run

omit [DecidableEq Task] in
/-- A PICB whose cursor is at the process tells of it. -/
theorem procinfo_read_here (used : (k.PT p).pstate ≠ .free) (old : Procinfo Task) :
    procinfoRead k { info := old, cursor := p.val } = (procinfoEntry k p old).map fun info =>
      (some info,{ info := info, cursor := p.val + 1 }) := by
  have more : maxProc - p.val = (maxProc - p.val - 1) + 1 := by omega
  have stays : skipFree k (maxProc - p.val) p.val = p.val := by
    rw [more, skipFree, dif_pos p.isLt, if_neg used]
  simp only [procinfoRead, stays]
  rw [dif_pos p.isLt]
  cases procinfoEntry k p old <;> rfl

def blankInfo (Task : Type) : Procinfo Task :=
  { pid := 0, ppid := 0, alive := 0, threadCount := 0, mainTask := none, argl := 0
    args := fun _ => 0 }

theorem survives_iff (image : k.images p = executeImage wrapper prog argv)
    (used : (k.PT p).pstate ≠ .free) (small : packedLength argv < 2 ^ 31) (room : StackRoom)
    (prog₀ : Program) {v : List (List Byte)} (range : v.length < 2 ^ 31) :
    Survives room wrapper k p prog argv prog₀ v ↔ sizeofPointer * argv.length ≤ room ∧
      (procinfoMaxArgsSize < packedLength argv ∨ prog₀ = prog) := by
  rw [execute_image small] at image
  simp only [Kernel.images, Prod.mk.injEq] at image
  obtain ⟨task,argl,args⟩ := image
  have length := executeArgs_length prog argv
  have calls : (∃ call, execWrapper room (k.PT p).argl (k.PT p).args = some call ∧
      call.Is prog argv) ↔ sizeofPointer * argv.length ≤ room := by
    rw [argl, args]
    exact exec_wrapper_calls small room
  constructor
  · rintro ⟨called,parsed⟩
    refine ⟨calls.mp called,or_iff_not_imp_left.mpr fun fits => ?_⟩
    obtain ⟨info,entry,pid,task',argl',bytes⟩ :=
      procinfo_entry k p (blankInfo Task) (argl.trans (by rw [length])) args
    obtain ⟨rest,bytes⟩ := bytes (by omega)
    have read := procinfo_read_here used (blankInfo Task)
    rw [entry, Option.map_some] at read
    obtain ⟨v',parse,_⟩ := (parsed _ info _ read pid).1 (by omega)
    rw [length] at argl'
    obtain ⟨v'',parse',_⟩ :=
      parse_arguments (task'.trans task) argl' (by omega) bytes prog₀ range
    have same := parse'.symm.trans parse
    simp only [Option.some.injEq, Prod.mk.injEq] at same
    exact same.2.1
  · rintro ⟨room,either⟩
    refine ⟨calls.mpr room,fun picb info picb' read here => ?_⟩
    obtain ⟨info',entry,_,task',argl',bytes⟩ :=
      procinfo_entry k p picb.info (argl.trans (by rw [length])) args
    cases entry.symm.trans (procinfo_read_entry read here)
    rw [length] at argl' bytes
    refine ⟨fun fits => ?_,fun long => ?_⟩
    · obtain ⟨rest,bytes⟩ := bytes fits
      rw [either.resolve_left (Nat.not_lt.mpr fits)]
      exact parse_arguments (task'.trans task) argl' fits bytes prog range
    · refine ⟨(some prog₀,some v),?_⟩
      unfold parseProcInfo
      rw [if_neg (not_not_intro (task'.trans task)), if_pos (by omega)]

end Processes

section Runs
variable {s s' : ThreadRun Task Obj Dev} {p : Pid}

/- The runs in which the process stays ALIVE. -/
def aliveSystem (Task : Type) (ops : FileOps Obj Dev) (p : Pid) :
    Machine (ThreadRun Task Obj Dev) (ThreadAction Task Obj) :=
  (threadSystem Task ops).restrict fun s a =>
    ∀ s', threadExec ops s a = some s' → (s'.kernel.PT p).pstate = .alive

/-- What a step makes of the arguments kept for a process: Exec gives them to a PCB that was FREE,
    and the exit of the process frees args. -/
theorem step_images (ops : FileOps Obj Dev) (inv : ThreadInv s) {a : ThreadAction Task Obj}
    (enabled : ThreadEnabled s a) (run : threadExec ops s a = some s') (p : Pid) :
    s'.kernel.images p = s.kernel.images p ∨
    (∃ t call argl args, a = .exec t call argl args ∧ (s.kernel.PT p).pstate = .free ∧
      s'.kernel.images p = (call,argl,args.map (List.take argl.toNat))) ∨
    ((s'.kernel.PT p).pstate = .zombie ∧
      s'.kernel.images p = ((s.kernel.PT p).mainTask,(s.kernel.PT p).argl,none)) := by
  have system := files_halted inv a enabled
  have files := system.1
  have exits {s : ThreadRun Task Obj Dev} {t : Thread} {exitval : Int}
      (gone : ThreadGone s.kernel s'.kernel t.1 t.2)
      (exits : exitThread ops s t exitval = some s') :
      s'.kernel.images p = s.kernel.images p ∨ ((s'.kernel.PT p).pstate = .zombie ∧
        s'.kernel.images p = ((s.kernel.PT p).mainTask,(s.kernel.PT p).argl,none)) := by
    simp only [exitThread, Option.map_eq_some_iff] at exits
    obtain ⟨k',exited,rfl⟩ := exits
    have entry := congrFun (exit_images ops exited) p
    by_cases last : (s.kernel.PT t.1).threadCount = 1
    · rw [if_pos last] at entry
      by_cases here : p = t.1
      · have ended := gone.states p
        rw [if_pos ⟨here,last⟩] at ended
        subst here
        exact Or.inr ⟨ended,entry.trans (Function.update_self ..)⟩
      · exact Or.inl (entry.trans (Function.update_of_ne here ..))
    · rw [if_neg last] at entry
      exact Or.inl entry
  cases a with
  | exec t call argl args =>
    cases head : s.kernel.pcbFreelist with
    | none =>
      simp only [threadExec, exec_full head, Option.some.injEq] at run
      cases run
      exact Or.inl rfl
    | some new =>
      obtain ⟨k',exec,_⟩ := exec_spec head t.1 call argl args
      have entry := congrFun (exec_images head t.1 call argl args) p
      simp only [threadExec, exec, Option.some.injEq] at run
      cases run
      rw [exec] at entry
      by_cases here : p = new
      · subst here
        exact Or.inr (Or.inl ⟨t,call,argl,args,rfl,head_unused files.ok head,
          entry.trans (Function.update_self ..)⟩)
      · exact Or.inl (entry.trans (Function.update_of_ne here ..))
  | createThread t task argl args =>
    rcases made : createPTCB (s.procs t.1) task argl args with ⟨tid,threads⟩
    simp only [threadExec, made, Option.some.injEq] at run
    cases run
    exact Or.inl (congrFun (modify_images s.kernel t.1 (f := fun b =>
      { b with threadCount := b.threadCount + 1, threads := b.threads ++ [tid] }) (by simp)) p)
  | resume t =>
    simp only [threadExec, Option.map_eq_some_iff] at run
    obtain ⟨r,_,rfl⟩ := run
    exact Or.inl rfl
  | threadExit t exitval =>
    exact (exits (exit_inv ops inv system enabled run).2 run).imp_right Or.inr
  | exit t exitval =>
    obtain ⟨inv',system'⟩ := set_exitval_inv inv system t.1 exitval
    have gone := (exit_inv ops inv' system' (set_exitval_idle enabled.1 t.1 exitval) run).2
    have same := congrFun
      (modify_images s.kernel t.1 (f := ({ · with exitval := exitval })) (by simp)) p
    simp only [Kernel.images, Prod.mk.injEq] at same
    rcases exits gone run with kept | ⟨zombie,ended⟩
    · exact Or.inl (kept.trans (congrFun
        (modify_images s.kernel t.1 (f := ({ · with exitval := exitval })) (by simp)) p))
    · refine Or.inr (Or.inr ⟨zombie,ended.trans ?_⟩)
      rw [Prod.mk.injEq, Prod.mk.injEq]
      exact ⟨same.1,same.2.1,rfl⟩
  | files a =>
    simp only [threadExec, Option.map_eq_some_iff] at run
    obtain ⟨f,run,rfl⟩ := run
    rcases (files_table ops files enabled.1 enabled.2 run).1 with same | ⟨q,_,reaped⟩
    · exact Or.inl (congrFun (procs_images same) p)
    · change f.kernel.images p = _ ∨ _
      rw [reaped]
      exact Or.inl (congrFun (cleanup_images s.kernel q) p)
  | start t | join t tid out | detach t tid =>
    cases run
    exact Or.inl rfl

/-- A process that stays ALIVE keeps what Exec has given it. -/
theorem step_image (ops : FileOps Obj Dev) (inv : ThreadInv s) {a : ThreadAction Task Obj}
    (enabled : ThreadEnabled s a) (run : threadExec ops s a = some s')
    (alive : (s.kernel.PT p).pstate = .alive) (alive' : (s'.kernel.PT p).pstate = .alive) :
    s'.kernel.images p = s.kernel.images p := by
  rcases step_images ops inv enabled run p with same | ⟨_,_,_,_,_,free,_⟩ | ⟨zombie,_⟩
  · exact same
  · cases alive.symm.trans free
  · cases alive'.symm.trans zombie

theorem run_image (ops : FileOps Obj Dev) {as : List (ThreadAction Task Obj)}
    (inv : ThreadInv s) (alive : (s.kernel.PT p).pstate = .alive)
    (run : (aliveSystem Task ops p).Runs s as s') :
    (s'.kernel.PT p).pstate = .alive ∧ s'.kernel.images p = s.kernel.images p := by
  induction run with
  | nil => exact ⟨alive,rfl⟩
  | cons move rest ih =>
    obtain ⟨⟨enabled,lives⟩,run⟩ := move
    have alive' := lives _ run
    obtain ⟨last,same⟩ := ih (thread_step ops inv enabled run) alive'
    exact ⟨last,same.trans (step_image ops inv enabled run alive alive')⟩

/- The call of Exec that Execute makes. -/
def executeAction (wrapper : Task) (t : Thread) (prog : Program) (argv : List CString) :
    ThreadAction Task Obj :=
  .exec t (some wrapper) (toInt (packedLength argv)) (some (executeArgs prog argv))

theorem execute_starts {room : StackRoom} {wrapper : Task} {t : Thread} {prog : Program}
    {argv : List CString} (free : s.kernel.pcbFreelist = some p) :
    (∃ k, execute room wrapper s.kernel t.1 prog argv = some (some p,k)) ↔
      packedLength argv ≤ room := by
  unfold execute
  split
  · rename_i large
    exact iff_of_false (fun ⟨_,started⟩ => by cases started) (Nat.not_le.mpr large)
  · rename_i fits
    obtain ⟨k,exec,_⟩ := exec_spec free t.1 (some wrapper) (toInt (packedLength argv))
      (some (executeArgs prog argv))
    exact iff_of_true ⟨k,by rw [exec]⟩ (Nat.not_lt.mp fits)

theorem execute_runs (ops : FileOps Obj Dev) (free : s.kernel.pcbFreelist = some p)
    (wrapper : Task) (t : Thread) (prog : Program) (argv : List CString) :
    ∃ s', threadExec ops s (executeAction wrapper t prog argv) = some s' := by
  obtain ⟨k,exec,_⟩ := exec_spec free t.1 (some wrapper) (toInt (packedLength argv))
    (some (executeArgs prog argv))
  simp only [threadExec, executeAction, exec]
  exact ⟨_,rfl⟩

theorem executed_image (ops : FileOps Obj Dev) {wrapper : Task} {t : Thread} {prog : Program}
    {argv : List CString} (free : s.kernel.pcbFreelist = some p)
    (run : threadExec ops s (executeAction wrapper t prog argv) = some s') :
    (s'.kernel.PT p).pstate = .alive ∧ s'.kernel.images p = executeImage wrapper prog argv := by
  obtain ⟨k',exec,tree,_⟩ := exec_spec free t.1 (some wrapper) (toInt (packedLength argv))
    (some (executeArgs prog argv))
  have entry := congrFun (exec_images free t.1 (some wrapper) (toInt (packedLength argv))
    (some (executeArgs prog argv))) p
  rw [exec, Function.update_self] at entry
  simp only [threadExec, executeAction, exec, Option.some.injEq] at run
  cases run
  have state := congrArg Links.pstate (congrFun tree p)
  rw [execed_pstate, if_pos rfl] at state
  exact ⟨state,entry⟩

/- Execute starts p, and as long as p is ALIVE its arguments can be had from it; the first room is
   that of Execute, the second that of exec_wrapper. -/
def ArgumentsSurvive [DecidableEq Task] (ops : FileOps Obj Dev) (s : ThreadRun Task Obj Dev)
    (room room' : StackRoom) (wrapper : Task) (t : Thread) (p : Pid) (prog : Program)
    (argv : List CString) (prog₀ : Program) (v : List (List Byte)) : Prop :=
  ∃ k s', execute room wrapper s.kernel t.1 prog argv = some (some p,k) ∧
    threadExec ops s (executeAction wrapper t prog argv) = some s' ∧
    ∀ as u, (aliveSystem Task ops p).Runs s' as u →
      Survives room' wrapper u.kernel p prog argv prog₀ v

/-- The arguments of Execute survive if they fit on both stacks, the program for exec_wrapper only:
    ParseProcInfo does not store it. -/
theorem arguments_survive [DecidableEq Task] (ops : FileOps Obj Dev)
    (reach : (threadSystem Task ops).Reach s) {t : Thread} (idle : s.Idle t)
    (free : s.kernel.pcbFreelist = some p) (room room' : StackRoom) (wrapper : Task)
    (prog : Program) (argv : List CString) (prog₀ : Program) {v : List (List Byte)}
    (range : v.length < 2 ^ 31) :
    (ArgumentsSurvive ops s room room' wrapper t p prog argv prog₀ v ↔
      packedLength argv ≤ room ∧ sizeofPointer * argv.length ≤ room' ∧
        (procinfoMaxArgsSize < packedLength argv ∨ prog₀ = prog)) ∧
    ∀ k s' as u, execute room wrapper s.kernel t.1 prog argv = some (some p,k) →
      threadExec ops s (executeAction wrapper t prog argv) = some s' →
      (aliveSystem Task ops p).Runs s' as u →
      (Survives room' wrapper u.kernel p prog argv prog₀ v ↔ sizeofPointer * argv.length ≤ room' ∧
        (procinfoMaxArgsSize < packedLength argv ∨ prog₀ = prog)) := by
  have later (k) (s' : ThreadRun Task Obj Dev) (as) (u : ThreadRun Task Obj Dev)
      (made : execute room wrapper s.kernel t.1 prog argv = some (some p,k))
      (run : threadExec ops s (executeAction wrapper t prog argv) = some s')
      (runs : (aliveSystem Task ops p).Runs s' as u) :
      Survives room' wrapper u.kernel p prog argv prog₀ v ↔ sizeofPointer * argv.length ≤ room' ∧
        (procinfoMaxArgsSize < packedLength argv ∨ prog₀ = prog) := by
    have inv := thread_step ops (thread_reach_inv ops reach)
      (a := executeAction wrapper t prog argv) idle run
    obtain ⟨alive,image⟩ := executed_image ops free run
    obtain ⟨still,same⟩ := run_image ops inv alive runs
    exact survives_iff (same.trans image) (by rw [still]; exact fun free => by cases free)
      (room_small ((execute_starts free).mp ⟨k,made⟩)) room' prog₀ range
  refine ⟨⟨?_,?_⟩,later⟩
  · rintro ⟨k,s',made,run,survives⟩
    exact ⟨(execute_starts free).mp ⟨k,made⟩,
      (later k s' [] s' made run (.nil s')).mp (survives [] s' (.nil s'))⟩
  · rintro ⟨fits,rest⟩
    obtain ⟨k,made⟩ : ∃ k, execute room wrapper s.kernel t.1 prog argv = some (some p,k) :=
      (execute_starts free).mpr fits
    obtain ⟨s',run⟩ := execute_runs ops free wrapper t prog argv
    exact ⟨k,s',made,run,fun as u runs => (later k s' as u made run runs).mpr rest⟩

def programAt (b : Byte) : Program := ⟨List.replicate sizeofProgram b,rfl⟩

theorem letter_free : (0 : Byte) ∉ [97] := by decide

/- One argument, the string "a". -/
def oneArgument : List CString := [⟨[97],letter_free⟩]

def wholeStack : StackRoom := ⟨threadStackSize,le_refl _⟩

def bootedInit : ThreadRun Unit Unit Unit :=
  bootedThreads () () ⟨(),0,none,0,false,false,0⟩ () 0 none

theorem arguments_survive_stored : ArgumentsSurvive bareOps bootedInit wholeStack wholeStack ()
    (initpcb,0) 2 (programAt 1) oneArgument (programAt 1) [[]] := by
  have reach : (threadSystem Unit bareOps).Reach bootedInit :=
    .start ⟨(),(),⟨(),0,none,0,false,false,0⟩,(),0,none,rfl⟩
  have idle : bootedInit.Idle (initpcb,0) := by decide
  exact (arguments_survive bareOps reach idle rfl wholeStack wholeStack () (programAt 1)
    oneArgument (programAt 1) (by decide)).1.mpr ⟨by decide,by decide,Or.inr rfl⟩

/-- The location for the program keeps what was there. -/
theorem program_not_stored : ∃ u, threadExec bareOps bootedInit
      (executeAction () (initpcb,0) (programAt 1) oneArgument) = some u ∧
    ¬ Survives wholeStack () u.kernel 2 (programAt 1) oneArgument (programAt 0) [[]] := by
  have run : threadExec bareOps bootedInit
    (executeAction () (initpcb,0) (programAt 1) oneArgument) = some _ := rfl
  obtain ⟨alive,image⟩ := executed_image (p := 2) bareOps rfl run
  refine ⟨_,run,fun survives => ?_⟩
  have stored := (survives_iff image (by rw [alive]; exact fun free => by cases free) (by decide)
    wholeStack (programAt 0) (by decide)).mp survives
  rcases stored.2 with long | same
  · revert long
    decide
  · revert same
    decide

end Runs
end ProcInfo
