import TinyOS.Execute
import TinyOS.PipeOwners

/- process_line of tinyos_shell.c: a command line is split into fragments, and for each of them a
   process is started, with a pipe to the next one. The shell puts the streams of a child into its
   own fids 0 and 1 before it calls Execute. -/
namespace Pipeline
open KernelStreams KernelProc PlainPipe ArgVector ProcInfo Transition

section Split

def pipeSign : List Byte := [124]

/- Vargc, and Vargv as an index into argv; it is not set before the first word. -/
structure Fragment where
  Vargc : Nat
  Vargv : Option Nat
  deriving DecidableEq, Repr

/- The loop over argv from word i on; `done` holds the fragments before frag, the last one first. -/
def splitLoop : Nat → List CString → Fragment → List Fragment → List Fragment
  | _, [], frag, done => (frag :: done).reverse
  | i, word :: argv, frag, done =>
    if word.val ≠ pipeSign then
      let Vargc := frag.Vargc + 1
      let Vargv := if Vargc = 1 then some i else frag.Vargv
      splitLoop (i + 1) argv { Vargc := Vargc, Vargv := Vargv } done
    else splitLoop (i + 1) argv { Vargc := 0, Vargv := none } (frag :: done)

def splitLine (argv : List CString) : List Fragment :=
  splitLoop 0 argv { Vargc := 0, Vargv := none } []

def Fragment.words (argv : List CString) (frag : Fragment) : List CString :=
  (argv.drop (frag.Vargv.getD 0)).take frag.Vargc

structure Command where
  cmdname : CString
  prog : Program

/- Neither empty nor without a program. -/
def checkFragment (COMMANDS : List Command) (argv : List CString) (frag : Fragment) :
    Option (Program × List CString) := do
  let words := frag.words argv
  let name ← words.head?
  let command ← COMMANDS.find? (·.cmdname = name)
  some (command.prog, words)

/- What is executed, none where process_line returns after an error message. -/
def fragments (COMMANDS : List Command) (argv : List CString) :
    Option (List (Program × List CString)) :=
  (splitLine argv).mapM (checkFragment COMMANDS argv)

/-- The words of the fragments are those between the signs. -/
theorem split_loop_words (argv : List CString) (rest : List CString) :
    ∀ (before current : List CString) (frag : Fragment) (done : List Fragment),
    argv = before ++ current ++ rest → (∀ w ∈ current, w.val ≠ pipeSign) →
    frag.Vargc = current.length → (current ≠ [] → frag.Vargv = some before.length) →
    (splitLoop (before.length + current.length) rest frag done).map (Fragment.words argv) =
      done.reverse.map (Fragment.words argv) ++
        (current ++ rest).splitOnP (fun w => decide (w.val = pipeSign)) := by
  induction rest with
  | nil =>
    intro before current frag done line plain count first
    have words : frag.words argv = current := by
      unfold Fragment.words
      by_cases empty : current = []
      · simp [count, empty]
      · simp [count, first empty, line]
    rw [List.append_nil, List.splitOnP_eq_singleton (fun w member => by simp [plain w member])]
    simp [splitLoop, words]
  | cons w rest ih =>
    intro before current frag done line plain count first
    unfold splitLoop
    split
    · rename_i ordinary
      have next := ih before (current ++ [w])
        { Vargc := frag.Vargc + 1
          Vargv := if frag.Vargc + 1 = 1 then some (before.length + current.length)
            else frag.Vargv }
        done (by simpa using line) (fun v member => ?_) (by simp [count]) (fun _ => ?_)
      · rw [List.length_append, List.length_singleton, ← Nat.add_assoc, List.append_assoc,
          List.singleton_append] at next
        exact next
      · rcases List.mem_append.mp member with old | new
        · exact plain v old
        · rw [List.mem_singleton.mp new]
          exact ordinary
      · by_cases empty : current = []
        · simp [count, empty]
        · have some' : current.length ≠ 0 := fun none => empty (List.length_eq_zero_iff.mp none)
          simp [count, some', first empty]
    · rename_i sign
      have words : frag.words argv = current := by
        unfold Fragment.words
        by_cases empty : current = []
        · simp [count, empty]
        · simp [count, first empty, line]
      have next := ih (before ++ current ++ [w]) [] { Vargc := 0, Vargv := none } (frag :: done)
        (by simpa using line) (by simp) rfl (by simp)
      rw [List.splitOnP_append_cons_of_forall_mem (fun v member => by simp [plain v member]) w
        (by simpa using sign)]
      simp only [List.length_append, List.length_singleton, List.length_nil, Nat.add_zero,
        List.nil_append, List.reverse_cons, List.map_append, List.map_cons, List.map_nil, words,
        List.append_assoc, List.singleton_append] at next
      simpa [Nat.add_assoc] using next

theorem split_line_words (argv : List CString) : (splitLine argv).map (Fragment.words argv) =
    argv.splitOnP (fun w => decide (w.val = pipeSign)) :=
  split_loop_words argv argv [] [] { Vargc := 0, Vargv := none } [] rfl (by simp) rfl (by simp)

/-- The argument vectors are the words between the signs, and there is at least one. -/
theorem fragments_words {COMMANDS : List Command} {argv : List CString}
    {frags : List (Program × List CString)} (split : fragments COMMANDS argv = some frags) :
    frags.map Prod.snd = argv.splitOnP (fun w => decide (w.val = pipeSign)) ∧ frags ≠ [] := by
  have checked (fs : List Fragment) : ∀ frags,
      fs.mapM (checkFragment COMMANDS argv) = some frags →
        frags.map Prod.snd = fs.map (Fragment.words argv) := by
    induction fs with
    | nil =>
      intro frags run
      cases run
      rfl
    | cons f fs ih =>
      intro frags run
      rw [List.mapM_cons] at run
      simp only [Option.bind_eq_bind, Option.bind_eq_some_iff, Option.pure_def,
        Option.some.injEq] at run
      obtain ⟨e,found,rest,later,rfl⟩ := run
      simp only [checkFragment, Option.bind_eq_bind, Option.bind_eq_some_iff,
        Option.some.injEq] at found
      obtain ⟨_,_,_,_,rfl⟩ := found
      rw [List.map_cons, List.map_cons, ih rest later]
  have whole : frags.map Prod.snd = argv.splitOnP (fun w => decide (w.val = pipeSign)) :=
    (checked _ frags split).trans (split_line_words argv)
  refine ⟨whole,?_⟩
  rintro rfl
  exact List.splitOnP_ne_nil _ argv whole.symm

end Split

/- Where process_line is: the system call that it makes next. savefid is openIn and saveIn for fid
   0, openOut and saveOut for fid 1; `failed` is behind its failing assertion, or behind a Pipe or
   Execute that fails, and what the shell does then is left out. -/
inductive Stage where
  | openIn | saveIn | openOut | saveOut
  | pipe | dupWrite | closeWrite | restoreOut | closeOut
  | execute
  | dupRead | closeRead | restoreIn | closeIn
  | built | failed
  deriving DecidableEq, Repr

/- The variables of process_line, with the processes. `started` are the file tables with which the
   children start, `made` the pipes, and `origin` says from which child a process descends; these
   are history. -/
structure ShellRun (Task Obj Dev : Type) where
  pipes : PipesRun Task Obj Dev
  stage : Stage
  i : Nat
  savein : Fid
  saveout : Fid
  pipe : Fid × Fid
  child : List Pid
  started : List (View Obj)
  made : List PipeRef
  origin : Pid → Option Nat

/- The thread of the shell, what OpenNull opens, exec_wrapper and the fragments. -/
structure Line (Task Obj : Type) where
  shell : Thread
  null : Obj
  wrapper : Task
  frags : List (Program × List CString)

inductive ShellAction (Task Obj Dev : Type) where
  | call
  | other (a : PipesAction Task Obj Dev)

section System
variable {Task Obj Dev : Type}

def openNull (l : Line Task Obj) : PipesAction Task Obj Dev :=
  .call (.openDevice l.shell (some (.other l.null)))

def dup2 (l : Line Task Obj) (oldfd newfd : Fid) : PipesAction Task Obj Dev :=
  .call (.dup2 l.shell oldfd.val newfd.val)

def close (l : Line Task Obj) (fd : Fid) : PipesAction Task Obj Dev :=
  .call (.close l.shell fd.val)

def execute (l : Line Task Obj) (prog : Program) (argv : List CString) :
    PipesAction Task Obj Dev :=
  .call (.exec l.shell (some l.wrapper) (toInt (packedLength argv)) (some (executeArgs prog argv)))

def Line.frag (l : Line Task Obj) : Nat := l.frags.length

def Line.call (l : Line Task Obj) (s : ShellRun Task Obj Dev) : Option (PipesAction Task Obj Dev) :=
  match s.stage with
  | .openIn | .openOut => some (openNull l)
  | .saveIn => some (dup2 l 0 s.savein)
  | .saveOut => some (dup2 l 1 s.saveout)
  | .pipe => some (.pipe l.shell)
  | .dupWrite => some (dup2 l s.pipe.2 1)
  | .closeWrite => some (close l s.pipe.2)
  | .restoreOut => some (dup2 l s.saveout 1)
  | .closeOut => some (close l s.saveout)
  | .execute => l.frags[s.i]?.map fun (prog, argv) => execute l prog argv
  | .dupRead => some (dup2 l s.pipe.1 0)
  | .closeRead => some (close l s.pipe.1)
  | .restoreIn => some (dup2 l s.savein 0)
  | .closeIn => some (close l s.savein)
  | .built | .failed => none

def Line.loop (l : Line Task Obj) (i : Nat) : Stage :=
  if i < l.frag then if i + 1 < l.frag then .pipe else .restoreOut else .built

def openedFid (l : Line Task Obj) (s : PipesRun Task Obj Dev) : Option Fid :=
  (openStream s.files.kernel l.shell.1 (some (.other l.null))).bind Prod.fst

def pipeFids (l : Line Task Obj) (s : PipesRun Task Obj Dev) : Option (Fid × Fid) :=
  let r := s.memory.nextPipe
  (sysPipe s.files.kernel l.shell.1 (.pipe r .reader) (.pipe r .writer)).1

def ShellRun.failing (s : ShellRun Task Obj Dev) : ShellRun Task Obj Dev :=
  { s with stage := .failed }

/- What process_line does with the result of the call that it has made at `s`; `pipes` is the state
   after it. -/
def Line.returned (l : Line Task Obj) (s : ShellRun Task Obj Dev) (a : PipesAction Task Obj Dev)
    (pipes : PipesRun Task Obj Dev) : ShellRun Task Obj Dev :=
  let s' := { s with pipes := pipes }
  match s.stage with
  | .openIn =>
    match openedFid l s.pipes with
    | some savior => { s' with stage := .saveIn, savein := savior }
    | none => s'.failing
  | .saveIn => { s' with stage := .openOut }
  | .openOut =>
    match openedFid l s.pipes with
    | some savior => { s' with stage := .saveOut, saveout := savior }
    | none => s'.failing
  | .saveOut => { s' with stage := l.loop 0, i := 0 }
  | .pipe =>
    match pipeFids l s.pipes with
    | some fids =>
      { s' with stage := .dupWrite, pipe := fids, made := s.made ++ [s.pipes.memory.nextPipe] }
    | none => s'.failing
  | .dupWrite => { s' with stage := .closeWrite }
  | .closeWrite => { s' with stage := .execute }
  | .restoreOut => { s' with stage := .closeOut }
  | .closeOut => { s' with stage := .execute }
  | .execute =>
    match s.pipes.execed a with
    | some (_, pid) =>
      { s' with
        stage := if s.i + 1 < l.frag then .dupRead else .restoreIn
        child := s.child ++ [pid]
        started := s.started ++ [view pipes pid]
        origin := Function.update s.origin pid (some s.i) }
    | none => s'.failing
  | .dupRead => { s' with stage := .closeRead }
  | .restoreIn => { s' with stage := .closeIn }
  | .closeRead | .closeIn => { s' with stage := l.loop (s.i + 1), i := s.i + 1 }
  | .built | .failed => s'

/- A process that another one has started descends from the same child. -/
def ShellRun.others (s : ShellRun Task Obj Dev) (a : PipesAction Task Obj Dev)
    (pipes : PipesRun Task Obj Dev) : ShellRun Task Obj Dev :=
  match s.pipes.execed a with
  | some (p, new) => { s with pipes := pipes, origin := Function.update s.origin new (s.origin p) }
  | none => { s with pipes := pipes }

def Line.Enabled (l : Line Task Obj) (s : ShellRun Task Obj Dev) :
    ShellAction Task Obj Dev → Prop
  | .call => s.pipes.files.Idle l.shell ∧ (l.call s).isSome
  | .other a => PipesEnabled s.pipes a ∧ ∀ t ∈ a.caller, t.1 ≠ l.shell.1

instance (l : Line Task Obj) (s : ShellRun Task Obj Dev) (a : ShellAction Task Obj Dev) :
    Decidable (l.Enabled s a) :=
  match a with
  | .call => inferInstanceAs (Decidable (s.pipes.files.Idle l.shell ∧ (l.call s).isSome))
  | .other a => inferInstanceAs (Decidable
      (PipesEnabled s.pipes a ∧ ∀ t ∈ a.caller, t.1 ≠ l.shell.1))

def Line.exec (ops : FileOps Obj Dev) (l : Line Task Obj) (s : ShellRun Task Obj Dev) :
    ShellAction Task Obj Dev → Option (ShellRun Task Obj Dev)
  | .call => do
    let a ← l.call s
    let pipes ← pipesExec ops s.pipes a
    some (l.returned s a pipes)
  | .other a => (pipesExec ops s.pipes a).map (s.others a)

/- Before the call of savefid; savein, saveout and pipe are not set yet. -/
def beforeLine (s : PipesRun Task Obj Dev) : ShellRun Task Obj Dev :=
  { pipes := s, stage := .openIn, i := 0, savein := 0, saveout := 0, pipe := (0,0), child := []
    started := [], made := [], origin := fun _ => none }

/- The shell has one thread; the other processes do what they want. -/
def lineSystem (ops : FileOps Obj Dev) (l : Line Task Obj) (s₀ : PipesRun Task Obj Dev) :
    Machine (ShellRun Task Obj Dev) (ShellAction Task Obj Dev) where
  start s := s = beforeLine s₀
  enabled := l.Enabled
  exec := l.exec ops

instance (ops : FileOps Obj Dev) (l : Line Task Obj) (s₀ : PipesRun Task Obj Dev)
    (s : ShellRun Task Obj Dev) (a : ShellAction Task Obj Dev) :
    Decidable ((lineSystem ops l s₀).enabled s a) :=
  inferInstanceAs (Decidable (l.Enabled s a))

end System

section Invariant
variable {Task Obj Dev : Type} {l : Line Task Obj} {s₀ : PipesRun Task Obj Dev}
  {s s' : ShellRun Task Obj Dev} {V v : View Obj} {made : List PipeRef} {n i : Nat}
  {a b : Fid} {r : PipeRef} {side : Side}

/- What fid 0 of child i is to be: that of the shell, or the read end of the pipe before. -/
def IsIn (V : View Obj) (made : List PipeRef) : Nat → Option (FcbRef × Stream Obj) → Prop
  | 0, e => e = V 0
  | i + 1, e => ∃ r f, made[i]? = some r ∧ e = some (f,.pipe r .reader)

/- What its fid 1 is to be, among n children. -/
def IsOut (V : View Obj) (made : List PipeRef) (n i : Nat) (e : Option (FcbRef × Stream Obj)) :
    Prop :=
  if i + 1 < n then ∃ r f, made[i]? = some r ∧ e = some (f,.pipe r .writer) else e = V 1

/- The file table with which child i starts. It has the read end of its own pipe, too. -/
structure Given (V : View Obj) (made : List PipeRef) (n i : Nat) (v : View Obj) : Prop where
  stdin : IsIn V made i (v 0)
  stdout : IsOut V made n i (v 1)
  extra : i + 1 < n → ∃ r fid f, made[i]? = some r ∧ v fid = some (f,.pipe r .reader)

/- The fids of the two saviors were free. -/
structure Saved (V : View Obj) (a b : Fid) : Prop where
  input : V 0 ≠ none
  output : V 1 ≠ none
  savein : V a = none
  saveout : V b = none
  apart : a ≠ b

/- The table of the shell with the saved streams and what stands at its fids 0 and 1. -/
def table (V : View Obj) (a b : Fid) (x y : Option (FcbRef × Stream Obj)) : View Obj :=
  Function.update (Function.update (Function.update (Function.update V a (V 0)) b (V 1)) 0 x) 1 y

/- Between Pipe and the last Close of the body. -/
structure Piped (V : View Obj) (n : Nat) (made : List PipeRef) (i : Nat) (savein saveout : Fid)
    (pipe : Fid × Fid) (x : Option (FcbRef × Stream Obj)) (r : PipeRef) : Prop where
  saved : Saved V savein saveout
  more : i + 1 < n
  count : made.length = i + 1
  here : made[i]? = some r
  stdin : IsIn V made i x
  read : V pipe.1 = none ∧ pipe.1 ≠ savein ∧ pipe.1 ≠ saveout
  write : V pipe.2 = none ∧ pipe.2 ≠ savein ∧ pipe.2 ≠ saveout
  apart : pipe.1 ≠ pipe.2

structure Last (V : View Obj) (n : Nat) (made : List PipeRef) (i : Nat) (savein saveout : Fid)
    (x : Option (FcbRef × Stream Obj)) : Prop where
  saved : Saved V savein saveout
  last : i + 1 = n
  stdin : IsIn V made i x

def ShellRun.Early (s : ShellRun Task Obj Dev) : Prop := s.made = [] ∧ s.i = 0

/- The file table of the shell at each call, V being what it was before. -/
def Shows (l : Line Task Obj) (V : View Obj) (s : ShellRun Task Obj Dev) (v : View Obj) : Prop :=
  let c := s.pipe.1
  let table := table V s.savein s.saveout
  let Piped := Piped V l.frag s.made s.i s.savein s.saveout s.pipe
  let Last := Last V l.frag s.made s.i s.savein s.saveout
  match s.stage with
  | .openIn => s.Early ∧ v = V
  | .saveIn => s.Early ∧ V s.savein = none ∧ ∃ e, v = Function.update V s.savein e
  | .openOut => s.Early ∧ V s.savein = none ∧ v = Function.update V s.savein (V 0)
  | .saveOut => s.Early ∧ Saved V s.savein s.saveout ∧
      ∃ e, v = Function.update (Function.update V s.savein (V 0)) s.saveout e
  | .pipe => Saved V s.savein s.saveout ∧ s.i + 1 < l.frag ∧ s.made.length = s.i ∧
      ∃ x y, v = table x y ∧ IsIn V s.made s.i x ∧ y ≠ none
  | .dupWrite => ∃ x y r f g, Piped x r ∧
      v = Function.update (Function.update (table x y) c (some (f,.pipe r .reader))) s.pipe.2
        (some (g,.pipe r .writer))
  | .closeWrite => ∃ x r f g, Piped x r ∧ v = Function.update (Function.update
      (table x (some (g,.pipe r .writer))) c (some (f,.pipe r .reader))) s.pipe.2
        (some (g,.pipe r .writer))
  | .restoreOut => ∃ x y, Last x ∧ v = table x y
  | .closeOut => ∃ x, Last x ∧ v = table x (V 1)
  | .execute => (∃ x r f g, Piped x r ∧ v = Function.update
      (table x (some (g,.pipe r .writer))) c (some (f,.pipe r .reader))) ∨
      ∃ x, Last x ∧ v = Function.update (table x (V 1)) s.saveout none
  | .dupRead => ∃ x r f g, Piped x r ∧ v = Function.update
      (table x (some (g,.pipe r .writer))) c (some (f,.pipe r .reader))
  | .closeRead => ∃ x r f g, Piped x r ∧ v = Function.update
      (table (some (f,.pipe r .reader)) (some (g,.pipe r .writer))) c (some (f,.pipe r .reader))
  | .restoreIn => ∃ x, Last x ∧ v = Function.update (table x (V 1)) s.saveout none
  | .closeIn => ∃ x, Last x ∧ v = Function.update (table (V 0) (V 1)) s.saveout none
  | .built => s.i = l.frag ∧ v = V
  | .failed => True

def Stage.behind : Stage → Nat
  | .dupRead | .closeRead | .restoreIn | .closeIn => 1
  | _ => 0

def ShellRun.begun (s : ShellRun Task Obj Dev) : Nat := s.i + s.stage.behind

structure LineInv (l : Line Task Obj) (s₀ : PipesRun Task Obj Dev) (s : ShellRun Task Obj Dev) :
    Prop where
  pipes : PipesInv s.pipes
  users : UsersRun s.pipes.files
  idle : s.pipes.files.Idle l.shell
  next : s₀.memory.nextPipe ≤ s.pipes.memory.nextPipe
  fresh : ∀ r ∈ s.made, s₀.memory.nextPipe ≤ r ∧ r < s.pipes.memory.nextPipe
  distinct : s.made.Nodup
  shows : Shows l (view s₀ l.shell.1) s (view s.pipes l.shell.1)
  started : ∀ j g, s.started[j]? = some g → Given (view s₀ l.shell.1) s.made l.frag j g
  count : s.stage ≠ .failed → s.started.length = s.begun ∧ s.child.length = s.begun
  owners : ∀ j r q side, s.made[j]? = some r → Owns s.pipes q r side →
    q = l.shell.1 ∨ s.origin q = some j ∨ side = .reader ∧ s.origin q = some (j + 1)
  calls : ∀ tid f r side, ((l.shell.1,tid),f) ∈ s.pipes.files.inUse →
    stream s.pipes f = .pipe r side → r < s₀.memory.nextPipe

theorem table_apply (V : View Obj) (a b : Fid) (x y : Option (FcbRef × Stream Obj)) (m : Fid) :
    table V a b x y m = if m = 1 then y else if m = 0 then x else if m = b then V 1 else
      if m = a then V 0 else V m := by
  simp only [table, Function.update_apply]

theorem Saved.free (saved : Saved V a b) {m : Fid} (none : V m = none) : m ≠ 0 ∧ m ≠ 1 := by
  constructor
  · rintro rfl
    exact saved.input none
  · rintro rfl
    exact saved.output none

section Tables
variable {x y e : Option (FcbRef × Stream Obj)} {c d : Fid}

theorem saved_table (saved : Saved V a b) :
    Function.update (Function.update V a (V 0)) b (V 1) = table V a b (V 0) (V 1) := by
  have first := saved.free saved.savein
  have second := saved.free saved.saveout
  funext m
  rw [table_apply]
  simp only [Function.update_apply]
  grind

theorem table_free (saved : Saved V a b) {m : Fid} (stdin : x ≠ none) (stdout : y ≠ none)
    (free : table V a b x y m = none) : V m = none ∧ m ≠ a ∧ m ≠ b := by
  have input := saved.input
  have output := saved.output
  rw [table_apply] at free
  grind

theorem table_stdin (V : View Obj) (a b : Fid) (x y e : Option (FcbRef × Stream Obj)) :
    Function.update (table V a b x y) 0 e = table V a b e y := by
  funext m
  rw [table_apply]
  simp only [Function.update_apply, table_apply]
  grind

theorem table_stdout (V : View Obj) (a b : Fid) (x y e : Option (FcbRef × Stream Obj)) :
    Function.update (table V a b x y) 1 e = table V a b x e := by
  funext m
  rw [table_apply]
  simp only [Function.update_apply, table_apply]
  grind

/-- Closing a fid that was free before the line. -/
theorem table_close (saved : Saved V a b) (free : V c = none) (first : c ≠ a) (second : c ≠ b) :
    Function.update (table V a b x y) c none = table V a b x y := by
  have apart := saved.free free
  have entry : table V a b x y c = none := by
    rw [table_apply]
    grind
  rw [← entry, Function.update_eq_self]

theorem table_savein (saved : Saved V a b) : table V a b x y a = V 0 := by
  have free := saved.free saved.savein
  have apart := saved.apart
  rw [table_apply]
  grind

theorem table_saveout (saved : Saved V a b) : table V a b x y b = V 1 := by
  have free := saved.free saved.saveout
  rw [table_apply]
  grind

/-- Both saved streams are back, and their saviors are closed. -/
theorem table_restored (saved : Saved V a b) :
    Function.update (Function.update (table V a b (V 0) (V 1)) b none) a none = V := by
  have first := saved.savein
  have second := saved.saveout
  funext m
  simp only [Function.update_apply, table_apply]
  grind

theorem is_in_some (saved : Saved V a b) (is : IsIn V made i x) : x ≠ none := by
  cases i with
  | zero =>
    rw [show x = V 0 from is]
    exact saved.input
  | succ i =>
    obtain ⟨r,f,_,rfl⟩ := is
    exact Option.some_ne_none _

end Tables

theorem is_in_grow (r : PipeRef) {e : Option (FcbRef × Stream Obj)} (is : IsIn V made i e) :
    IsIn V (made ++ [r]) i e := by
  cases i with
  | zero => exact is
  | succ i =>
    obtain ⟨r',f,here,same⟩ := is
    exact ⟨r',f,List.getElem?_append_left (List.getElem?_eq_some_iff.mp here).1 ▸ here,same⟩

theorem getElem?_grow {r' : PipeRef} (r : PipeRef) (here : made[i]? = some r') :
    (made ++ [r])[i]? = some r' :=
  List.getElem?_append_left (List.getElem?_eq_some_iff.mp here).1 ▸ here

theorem given_grow (r : PipeRef) (given : Given V made n i v) :
    Given V (made ++ [r]) n i v := by
  refine ⟨is_in_grow r given.stdin,?_,fun more => ?_⟩
  · have out := given.stdout
    unfold IsOut at out ⊢
    split
    · rename_i more
      rw [if_pos more] at out
      obtain ⟨r',f,here,same⟩ := out
      exact ⟨r',f,getElem?_grow r here,same⟩
    · rename_i last
      rwa [if_neg last] at out
  · obtain ⟨r',fid,f,here,same⟩ := given.extra more
    exact ⟨r',fid,f,getElem?_grow r here,same⟩

theorem piped_given {x : Option (FcbRef × Stream Obj)} {f g : FcbRef}
    (piped : Piped V l.frag s.made s.i s.savein s.saveout s.pipe x r)
    (shows : v = Function.update (table V s.savein s.saveout x (some (g,.pipe r .writer))) s.pipe.1
      (some (f,.pipe r .reader))) : Given V s.made l.frag s.i v := by
  obtain ⟨zero,one⟩ := piped.saved.free piped.read.1
  refine ⟨?_,?_,fun _ => ⟨r,s.pipe.1,f,piped.here,by rw [shows, Function.update_self]⟩⟩
  · rw [shows, Function.update_of_ne zero.symm, table_apply]
    exact piped.stdin
  · rw [shows, Function.update_of_ne one.symm, table_apply, IsOut, if_pos piped.more]
    exact ⟨r,g,piped.here,rfl⟩

theorem last_given {x : Option (FcbRef × Stream Obj)}
    (last : Last V l.frag s.made s.i s.savein s.saveout x)
    (shows : v = Function.update (table V s.savein s.saveout x (V 1)) s.saveout none) :
    Given V s.made l.frag s.i v := by
  obtain ⟨zero,one⟩ := last.saved.free last.saved.saveout
  have final : ¬ s.i + 1 < l.frag := Nat.not_lt.mpr last.last.ge
  refine ⟨?_,?_,fun more => absurd more final⟩
  · rw [shows, Function.update_of_ne zero.symm, table_apply]
    exact last.stdin
  · rw [shows, Function.update_of_ne one.symm, table_apply, IsOut, if_neg final]
    rfl

/-- The streams from before the line are none of its pipes. -/
def Old (V : View Obj) (made : List PipeRef) : Prop :=
  ∀ fid f r side, V fid = some (f,.pipe r side) → r ∉ made

theorem stdin_entry {x : Option (FcbRef × Stream Obj)} {f : FcbRef} {j : Nat} (old : Old V made)
    (distinct : made.Nodup) (is : IsIn V made i x) (entry : x = some (f,.pipe r side))
    (here : made[j]? = some r) : side = .reader ∧ j + 1 = i := by
  cases i with
  | zero =>
    have same : x = V 0 := is
    exact absurd (List.mem_of_getElem? here) (old 0 f r side (same.symm.trans entry))
  | succ i =>
    obtain ⟨r',f',here',same⟩ := is
    rw [entry] at same
    cases same
    have bound := (List.getElem?_eq_some_iff.mp here).1
    have place := (List.getElem?_inj bound distinct).mp (here.trans here'.symm)
    exact ⟨rfl,congrArg (· + 1) place⟩

theorem table_entry {x y : Option (FcbRef × Stream Obj)} {f : FcbRef} {fid : Fid} {j : Nat}
    (old : Old V made) (distinct : made.Nodup) (is : IsIn V made i x)
    (entry : table V a b x y fid = some (f,.pipe r side)) (here : made[j]? = some r) :
    y = some (f,.pipe r side) ∨ side = .reader ∧ j + 1 = i := by
  have unmade (m : Fid) : V m ≠ some (f,.pipe r side) :=
    fun same => old m f r side same (List.mem_of_getElem? here)
  rw [table_apply] at entry
  split at entry
  · exact Or.inl entry
  · split at entry
    · exact Or.inr (stdin_entry old distinct is entry here)
    · split at entry
      · exact absurd entry (unmade 1)
      · split at entry
        · exact absurd entry (unmade 0)
        · exact absurd entry (unmade fid)

/-- What the shell has of the pipes when it calls Execute is meant for child i, or has been. -/
theorem execute_entries {f : FcbRef} {fid : Fid} {j : Nat} (stage : s.stage = .execute)
    (shows : Shows l V s v) (old : Old V s.made) (distinct : s.made.Nodup)
    (entry : v fid = some (f,.pipe r side)) (here : s.made[j]? = some r) :
    j = s.i ∨ side = .reader ∧ j + 1 = s.i := by
  simp only [Shows, stage] at shows
  rcases shows with ⟨x,r',f',g',piped,rfl⟩ | ⟨x,last,rfl⟩
  · have same (mine : r = r') : j = s.i := by
      subst mine
      exact (List.getElem?_inj (List.getElem?_eq_some_iff.mp here).1 distinct).mp
        (here.trans piped.here.symm)
    by_cases read : fid = s.pipe.1
    · rw [read, Function.update_self] at entry
      cases entry
      exact Or.inl (same rfl)
    · rw [Function.update_of_ne read] at entry
      rcases table_entry old distinct piped.stdin entry here with out | stdin
      · cases out
        exact Or.inl (same rfl)
      · exact Or.inr stdin
  · by_cases saved : fid = s.saveout
    · rw [saved, Function.update_self] at entry
      cases entry
    · rw [Function.update_of_ne saved] at entry
      rcases table_entry old distinct last.stdin entry here with out | stdin
      · exact absurd (List.mem_of_getElem? here) (old 1 f r side out)
      · exact Or.inr stdin

theorem execute_given (stage : s.stage = .execute) (shows : Shows l V s v) :
    Given V s.made l.frag s.i v := by
  simp only [Shows, stage] at shows
  rcases shows with ⟨x,r,f,g,piped,same⟩ | ⟨x,last,same⟩
  · exact piped_given piped same
  · exact last_given last same

section Calls
variable {a : PipesAction Task Obj Dev} {pipes : PipesRun Task Obj Dev}

/-- The calls of process_line are neither Read nor Write, and the shell does not exit. -/
theorem call_enabled (l : Line Task Obj) (idle : s.pipes.files.Idle l.shell)
    (call : l.call s = some a) : PipesEnabled s.pipes a ∧ a.caller = some l.shell ∧
      (∀ u, a ≠ .call (.threadExit u)) ∧ ∀ u fid c, a ≠ .transfer u fid c := by
  unfold Line.call at call
  split at call
  case h_10 =>
    obtain ⟨⟨prog,argv⟩,_,rfl⟩ := Option.map_eq_some_iff.mp call
    exact ⟨⟨idle,rfl⟩,rfl,nofun,nofun⟩
  case h_5 =>
    cases call
    exact ⟨idle,rfl,nofun,nofun⟩
  all_goals
    cases call
    try exact ⟨⟨idle,rfl⟩,rfl,nofun,nofun⟩

theorem opened_null {f : Fid} (ops : FileOps Obj Dev) (inv : PipesInv s.pipes)
    (enabled : PipesEnabled s.pipes (openNull l))
    (run : pipesExec ops s.pipes (openNull l) = some pipes)
    (opened : openedFid l s.pipes = some f) : view s.pipes l.shell.1 f = none ∧
      ∃ e, view pipes l.shell.1 = Function.update (view s.pipes l.shell.1) f e := by
  obtain ⟨⟨fid,k⟩,made,same⟩ := Option.bind_eq_some_iff.mp opened
  obtain rfl : fid = some f := same
  obtain ⟨free,g,after⟩ := view_null ops inv enabled run made
  exact ⟨free,_,after⟩

theorem piped_fids (ops : FileOps Obj Dev) (inv : PipesInv s.pipes)
    (enabled : PipesEnabled s.pipes (.pipe l.shell))
    (run : pipesExec ops s.pipes (.pipe l.shell) = some pipes) {c d : Fid}
    (made : pipeFids l s.pipes = some (c,d)) :
    view s.pipes l.shell.1 c = none ∧ view s.pipes l.shell.1 d = none ∧ c ≠ d ∧
    pipes.memory.nextPipe = s.pipes.memory.nextPipe + 1 ∧
    ∃ f g, view pipes l.shell.1 = Function.update (Function.update (view s.pipes l.shell.1) c
      (some (f,.pipe s.pipes.memory.nextPipe .reader))) d
        (some (g,.pipe s.pipes.memory.nextPipe .writer)) := by
  have result : sysPipe s.pipes.files.kernel l.shell.1 (.pipe s.pipes.memory.nextPipe .reader)
      (.pipe s.pipes.memory.nextPipe .writer) = (some (c,d),_) := Prod.ext made rfl
  exact view_pipe ops inv enabled run result

/-- Before the loop. -/
theorem saving_shows (ops : FileOps Obj Dev) (inv : PipesInv s.pipes) (some' : 0 < l.frag)
    (input : V 0 ≠ none) (output : V 1 ≠ none) (idle : s.pipes.files.Idle l.shell)
    (call : l.call s = some a) (run : pipesExec ops s.pipes a = some pipes)
    (shows : Shows l V s (view s.pipes l.shell.1))
    (early : s.stage = .openIn ∨ s.stage = .saveIn ∨ s.stage = .openOut ∨ s.stage = .saveOut) :
    Shows l V (l.returned s a pipes) (view pipes l.shell.1) := by
  have enabled := (call_enabled l idle call).1
  rcases early with stage | stage | stage | stage
  · simp only [Line.call, stage, Option.some.injEq] at call
    subst call
    simp only [Shows, stage] at shows
    simp only [Line.returned, stage]
    cases opened : openedFid l s.pipes with
    | none => trivial
    | some f =>
      obtain ⟨free,e,after⟩ := opened_null ops inv enabled run opened
      rw [shows.2] at free after
      exact ⟨shows.1,free,e,after⟩
  · simp only [Line.call, stage, Option.some.injEq] at call
    subst call
    simp only [Shows, stage] at shows
    obtain ⟨early,free,e,before⟩ := shows
    have apart : (0 : Fid) ≠ s.savein := by
      intro same
      rw [← same] at free
      exact input free
    have stdin : view s.pipes l.shell.1 0 = V 0 := by rw [before, Function.update_of_ne apart]
    have after := view_dup2 ops inv enabled run (by rw [stdin]; exact input)
    rw [stdin, before, Function.update_idem] at after
    simp only [Line.returned, stage]
    exact ⟨early,free,after⟩
  · simp only [Line.call, stage, Option.some.injEq] at call
    subst call
    simp only [Shows, stage] at shows
    obtain ⟨early,free,before⟩ := shows
    simp only [Line.returned, stage]
    cases opened : openedFid l s.pipes with
    | none => trivial
    | some f =>
      obtain ⟨free',e,after⟩ := opened_null ops inv enabled run opened
      rw [before] at free' after
      have apart : f ≠ s.savein := by
        rintro rfl
        rw [Function.update_self] at free'
        exact input free'
      rw [Function.update_of_ne apart] at free'
      exact ⟨early,⟨input,output,free,free',apart.symm⟩,e,after⟩
  · simp only [Line.call, stage, Option.some.injEq] at call
    subst call
    simp only [Shows, stage] at shows
    obtain ⟨early,saved,e,before⟩ := shows
    have stdout : view s.pipes l.shell.1 1 = V 1 := by
      rw [before, Function.update_of_ne (saved.free saved.saveout).2.symm,
        Function.update_of_ne (saved.free saved.savein).2.symm]
    have after := view_dup2 ops inv enabled run (by rw [stdout]; exact output)
    rw [stdout, before, Function.update_idem, saved_table saved] at after
    simp only [Line.returned, stage]
    by_cases more : 1 < l.frag
    · simp only [Line.loop, some', more, Nat.zero_add, if_true]
      exact ⟨saved,more,by simp [early.1],V 0,V 1,after,rfl,output⟩
    · simp only [Line.loop, some', more, Nat.zero_add, if_true, if_false]
      exact ⟨V 0,V 1,⟨saved,by simp only; omega,rfl⟩,after⟩

/-- A fragment that is not the last one. -/
theorem piping_shows (ops : FileOps Obj Dev) (inv : PipesInv s.pipes)
    (idle : s.pipes.files.Idle l.shell) (call : l.call s = some a)
    (run : pipesExec ops s.pipes a = some pipes)
    (shows : Shows l V s (view s.pipes l.shell.1))
    (body : s.stage = .pipe ∨ s.stage = .dupWrite ∨ s.stage = .closeWrite ∨ s.stage = .dupRead ∨
      s.stage = .closeRead) : Shows l V (l.returned s a pipes) (view pipes l.shell.1) := by
  have enabled := (call_enabled l idle call).1
  rcases body with stage | stage | stage | stage | stage
  · simp only [Line.call, stage, Option.some.injEq] at call
    subst call
    simp only [Shows, stage] at shows
    obtain ⟨saved,more,count,x,y,before,stdin,stdout⟩ := shows
    simp only [Line.returned, stage]
    cases made : pipeFids l s.pipes with
    | none => trivial
    | some fids =>
      obtain ⟨free,free',apart,_,f,g,after⟩ := piped_fids ops inv enabled run made
      rw [before] at free free' after
      have read := table_free saved (is_in_some saved stdin) stdout free
      have write := table_free saved (is_in_some saved stdin) stdout free'
      refine ⟨x,y,s.pipes.memory.nextPipe,f,g,
        ⟨saved,more,?_,?_,is_in_grow _ stdin,read,write,apart⟩,after⟩
      · simp [count]
      · simp [← count]
  · simp only [Line.call, stage, Option.some.injEq] at call
    subst call
    simp only [Shows, stage] at shows
    obtain ⟨x,y,r,f,g,piped,before⟩ := shows
    have read := (piped.saved.free piped.read.1).2
    have write := (piped.saved.free piped.write.1).2
    have entry : view s.pipes l.shell.1 s.pipe.2 = some (g,.pipe r .writer) := by
      rw [before, Function.update_self]
    have after := view_dup2 ops inv enabled run (by rw [entry]; exact Option.some_ne_none _)
    rw [entry, before, Function.update_comm write, Function.update_comm read,
      table_stdout] at after
    simp only [Line.returned, stage]
    exact ⟨x,r,f,g,piped,after⟩
  · simp only [Line.call, stage, Option.some.injEq] at call
    subst call
    simp only [Shows, stage] at shows
    obtain ⟨x,r,f,g,piped,before⟩ := shows
    have after := view_close ops inv enabled run
    rw [before, Function.update_idem, Function.update_comm piped.apart,
      table_close piped.saved piped.write.1 piped.write.2.1 piped.write.2.2] at after
    simp only [Line.returned, stage]
    exact Or.inl ⟨x,r,f,g,piped,after⟩
  · simp only [Line.call, stage, Option.some.injEq] at call
    subst call
    simp only [Shows, stage] at shows
    obtain ⟨x,r,f,g,piped,before⟩ := shows
    have read := (piped.saved.free piped.read.1).1
    have entry : view s.pipes l.shell.1 s.pipe.1 = some (f,.pipe r .reader) := by
      rw [before, Function.update_self]
    have after := view_dup2 ops inv enabled run (by rw [entry]; exact Option.some_ne_none _)
    rw [entry, before, Function.update_comm read, table_stdin] at after
    simp only [Line.returned, stage]
    exact ⟨x,r,f,g,piped,after⟩
  · simp only [Line.call, stage, Option.some.injEq] at call
    subst call
    simp only [Shows, stage] at shows
    obtain ⟨x,r,f,g,piped,before⟩ := shows
    have after := view_close ops inv enabled run
    rw [before, Function.update_idem,
      table_close piped.saved piped.read.1 piped.read.2.1 piped.read.2.2] at after
    have stdin : IsIn V s.made (s.i + 1) (some (f,.pipe r .reader)) := ⟨r,f,piped.here,rfl⟩
    have again := piped.more
    simp only [Line.returned, stage]
    by_cases more : s.i + 1 + 1 < l.frag
    · simp only [Line.loop, again, more, if_true]
      exact ⟨piped.saved,more,piped.count,_,_,after,stdin,Option.some_ne_none _⟩
    · simp only [Line.loop, again, more, if_true, if_false]
      exact ⟨_,_,⟨piped.saved,by simp only; omega,stdin⟩,after⟩

/-- The last fragment. -/
theorem ending_shows (ops : FileOps Obj Dev) (inv : PipesInv s.pipes)
    (idle : s.pipes.files.Idle l.shell) (call : l.call s = some a)
    (run : pipesExec ops s.pipes a = some pipes)
    (shows : Shows l V s (view s.pipes l.shell.1))
    (body : s.stage = .restoreOut ∨ s.stage = .closeOut ∨ s.stage = .restoreIn ∨
      s.stage = .closeIn) : Shows l V (l.returned s a pipes) (view pipes l.shell.1) := by
  have enabled := (call_enabled l idle call).1
  rcases body with stage | stage | stage | stage
  · simp only [Line.call, stage, Option.some.injEq] at call
    subst call
    simp only [Shows, stage] at shows
    obtain ⟨x,y,⟨saved,last,stdin⟩,before⟩ := shows
    have entry : view s.pipes l.shell.1 s.saveout = V 1 := by rw [before, table_saveout saved]
    have after := view_dup2 ops inv enabled run (by rw [entry]; exact saved.output)
    rw [entry, before, table_stdout] at after
    simp only [Line.returned, stage]
    exact ⟨x,⟨saved,last,stdin⟩,after⟩
  · simp only [Line.call, stage, Option.some.injEq] at call
    subst call
    simp only [Shows, stage] at shows
    obtain ⟨x,⟨saved,last,stdin⟩,before⟩ := shows
    have after := view_close ops inv enabled run
    rw [before] at after
    simp only [Line.returned, stage]
    exact Or.inr ⟨x,⟨saved,last,stdin⟩,after⟩
  · simp only [Line.call, stage, Option.some.injEq] at call
    subst call
    simp only [Shows, stage] at shows
    obtain ⟨x,⟨saved,last,stdin⟩,before⟩ := shows
    have free := (saved.free saved.saveout).1
    have entry : view s.pipes l.shell.1 s.savein = V 0 := by
      rw [before, Function.update_of_ne saved.apart, table_savein saved]
    have after := view_dup2 ops inv enabled run (by rw [entry]; exact saved.input)
    rw [entry, before, Function.update_comm free, table_stdin] at after
    simp only [Line.returned, stage]
    exact ⟨x,⟨saved,last,stdin⟩,after⟩
  · simp only [Line.call, stage, Option.some.injEq] at call
    subst call
    simp only [Shows, stage] at shows
    obtain ⟨x,⟨saved,last,stdin⟩,before⟩ := shows
    have after := view_close ops inv enabled run
    rw [before, table_restored saved] at after
    have over' : ¬ s.i + 1 < l.frag := by omega
    simp only [Line.returned, stage, Line.loop, over', if_false]
    exact ⟨last,after⟩

/-- Execute leaves the shell its table and gives the child the same one. -/
theorem execute_shows (ops : FileOps Obj Dev) (inv : PipesInv s.pipes)
    (idle : s.pipes.files.Idle l.shell) (call : l.call s = some a)
    (run : pipesExec ops s.pipes a = some pipes)
    (shows : Shows l V s (view s.pipes l.shell.1)) (stage : s.stage = .execute) :
    Shows l V (l.returned s a pipes) (view pipes l.shell.1) ∧
    ∀ p pid, s.pipes.execed a = some (p,pid) → view pipes pid = view s.pipes l.shell.1 := by
  have enabled := (call_enabled l idle call).1
  simp only [Line.call, stage] at call
  obtain ⟨⟨prog,argv⟩,_,rfl⟩ := Option.map_eq_some_iff.mp call
  obtain ⟨child,kept⟩ := view_exec ops inv enabled run
  have mine (p pid : Pid) (made : s.pipes.execed (execute l prog argv) = some (p,pid)) :
      p = l.shell.1 := by
    obtain ⟨t,same,rfl⟩ := execed_caller made
    cases same
    rfl
  have after := kept l.shell.1 (running_execed inv idle)
  refine ⟨?_,fun p pid made => child pid (mine p pid made ▸ made)⟩
  simp only [Shows, stage] at shows
  simp only [Line.returned, stage]
  cases made : s.pipes.execed (execute l prog argv) with
  | none => trivial
  | some new =>
    rw [after]
    rcases shows with ⟨x,r,f,g,piped,before⟩ | ⟨x,⟨saved,last,stdin⟩,before⟩
    · have more := piped.more
      simp only [more, if_true]
      exact ⟨x,r,f,g,piped,before⟩
    · have final : ¬ s.i + 1 < l.frag := by omega
      simp only [final, if_false]
      exact ⟨x,⟨saved,last,stdin⟩,before⟩

theorem call_shows (ops : FileOps Obj Dev) (inv : PipesInv s.pipes) (some' : 0 < l.frag)
    (input : V 0 ≠ none) (output : V 1 ≠ none) (idle : s.pipes.files.Idle l.shell)
    (call : l.call s = some a) (run : pipesExec ops s.pipes a = some pipes)
    (shows : Shows l V s (view s.pipes l.shell.1)) :
    Shows l V (l.returned s a pipes) (view pipes l.shell.1) := by
  cases stage : s.stage with
  | openIn | saveIn | openOut | saveOut =>
    exact saving_shows ops inv some' input output idle call run shows (by simp [stage])
  | pipe | dupWrite | closeWrite | dupRead | closeRead =>
    exact piping_shows ops inv idle call run shows (by simp [stage])
  | restoreOut | closeOut | restoreIn | closeIn =>
    exact ending_shows ops inv idle call run shows (by simp [stage])
  | execute => exact (execute_shows ops inv idle call run shows stage).1
  | built | failed =>
    simp only [Line.call, stage] at call
    cases call

@[simp] theorem returned_pipes (l : Line Task Obj) (s : ShellRun Task Obj Dev)
    (a : PipesAction Task Obj Dev) (pipes : PipesRun Task Obj Dev) :
    (l.returned s a pipes).pipes = pipes := by
  unfold Line.returned
  split <;> try rfl
  all_goals split <;> rfl

/-- What a call adds to the history. -/
theorem returned_cases (pipes : PipesRun Task Obj Dev) (call : l.call s = some a) :
    (s.pipes.execed a = none ∧ (l.returned s a pipes).made = s.made ∧
      (l.returned s a pipes).started = s.started ∧ (l.returned s a pipes).child = s.child ∧
      (l.returned s a pipes).origin = s.origin) ∨
    (a = .pipe l.shell ∧ (∃ fids, pipeFids l s.pipes = some fids) ∧
      (l.returned s a pipes).made = s.made ++ [s.pipes.memory.nextPipe] ∧
      (l.returned s a pipes).started = s.started ∧ (l.returned s a pipes).child = s.child ∧
      (l.returned s a pipes).origin = s.origin) ∨
    ∃ pid, s.stage = .execute ∧ s.pipes.execed a = some (l.shell.1,pid) ∧
      (l.returned s a pipes).made = s.made ∧
      (l.returned s a pipes).started = s.started ++ [view pipes pid] ∧
      (l.returned s a pipes).child = s.child ++ [pid] ∧
      (l.returned s a pipes).origin = Function.update s.origin pid (some s.i) := by
  cases stage : s.stage with
  | execute =>
    cases made : s.pipes.execed a with
    | none =>
      refine Or.inl ?_
      simp only [Line.returned, stage, made, ShellRun.failing, and_self]
    | some new =>
      obtain ⟨t,caller,same⟩ := execed_caller made
      have mine : a.caller = some l.shell := by
        simp only [Line.call, stage] at call
        obtain ⟨_,_,rfl⟩ := Option.map_eq_some_iff.mp call
        rfl
      rw [mine] at caller
      cases caller
      obtain ⟨p,pid⟩ := new
      cases same
      refine Or.inr (Or.inr ⟨pid,rfl,rfl,?_⟩)
      simp only [Line.returned, stage, made, and_self]
  | pipe =>
    simp only [Line.call, stage, Option.some.injEq] at call
    subst call
    cases made : pipeFids l s.pipes with
    | none =>
      refine Or.inl ⟨rfl,?_⟩
      simp only [Line.returned, stage, made, ShellRun.failing, and_self]
    | some fids =>
      refine Or.inr (Or.inl ⟨rfl,⟨fids,rfl⟩,?_⟩)
      simp only [Line.returned, stage, made, and_self]
  | openIn | openOut =>
    simp only [Line.call, stage, Option.some.injEq] at call
    subst call
    refine Or.inl ⟨rfl,?_⟩
    cases opened : openedFid l s.pipes <;>
      simp only [Line.returned, stage, opened, ShellRun.failing, and_self]
  | built | failed =>
    simp only [Line.call, stage] at call
    cases call
  | _ =>
    simp only [Line.call, stage, Option.some.injEq] at call
    subst call
    refine Or.inl ⟨rfl,?_⟩
    simp only [Line.returned, stage, and_self]

theorem loop_behind (l : Line Task Obj) (i : Nat) : (l.loop i).behind = 0 := by
  unfold Line.loop
  split
  · split <;> rfl
  · rfl

theorem returned_count (pipes : PipesRun Task Obj Dev) (call : l.call s = some a)
    (first : s.stage = .saveOut → s.i = 0)
    (count : s.started.length = s.begun ∧ s.child.length = s.begun) :
    (l.returned s a pipes).stage ≠ .failed →
      (l.returned s a pipes).started.length = (l.returned s a pipes).begun ∧
      (l.returned s a pipes).child.length = (l.returned s a pipes).begun := by
  intro alive
  unfold ShellRun.begun at count ⊢
  cases stage : s.stage with
  | execute =>
    rw [stage] at count
    revert alive
    cases made : s.pipes.execed a with
    | none => simp [Line.returned, stage, made, ShellRun.failing]
    | some new =>
      intro _
      have behind : (if s.i + 1 < l.frag then Stage.dupRead else .restoreIn).behind = 1 := by
        split <;> rfl
      simp only [Stage.behind] at count
      simpa [Line.returned, stage, made, behind] using count
  | saveOut =>
    rw [stage, first stage] at count
    simp only [Stage.behind] at count
    simpa [Line.returned, stage, loop_behind] using count
  | closeRead | closeIn =>
    rw [stage] at count
    simp only [Stage.behind] at count
    simpa [Line.returned, stage, loop_behind] using count
  | openIn | openOut =>
    rw [stage] at count
    revert alive
    cases opened : openedFid l s.pipes with
    | none => simp [Line.returned, stage, opened, ShellRun.failing]
    | some f => simpa [Line.returned, stage, opened, Stage.behind] using count
  | pipe =>
    rw [stage] at count
    revert alive
    cases made : pipeFids l s.pipes with
    | none => simp [Line.returned, stage, made, ShellRun.failing]
    | some f => simpa [Line.returned, stage, made, Stage.behind] using count
  | built | failed =>
    simp only [Line.call, stage] at call
    cases call
  | _ =>
    rw [stage] at count
    simpa [Line.returned, stage, Stage.behind] using count

end Calls

section Steps
variable {a : PipesAction Task Obj Dev} {pipes : PipesRun Task Obj Dev}

theorem made_old (inv₀ : PipesInv s₀) (inv : LineInv l s₀ s) : Old (view s₀ l.shell.1) s.made := by
  intro fid f r side entry member
  have refers := view_refers entry
  have before := owned_made inv₀ ⟨f,refers⟩
  exact absurd before (Nat.not_lt.mpr (inv.fresh r member).1)

/-- The shell has the ends of the pipes in its file table only. -/
theorem shell_owns (inv : LineInv l s₀ s) (fresh : s₀.memory.nextPipe ≤ r)
    (owns : Owns s.pipes l.shell.1 r side) :
    ∃ fid f, view s.pipes l.shell.1 fid = some (f,.pipe r side) := by
  obtain ⟨f,⟨fid,entry⟩ | ⟨tid,member⟩,here⟩ := owns
  · exact ⟨fid,f,by simp [view, entry, here]⟩
  · exact absurd (inv.calls tid f r side member here) (Nat.not_lt.mpr fresh)

/-- Neither another process nor a call of process_line puts the shell into a Read or Write. -/
theorem calls_kept (ops : FileOps Obj Dev) (inv : LineInv l s₀ s)
    (enabled : PipesEnabled s.pipes a) (run : pipesExec ops s.pipes a = some pipes)
    (other : ∀ u fid c, a = .transfer u fid c → u.1 ≠ l.shell.1) (tid : Tid) (f : FcbRef)
    (r : PipeRef) (side : Side) (member : ((l.shell.1,tid),f) ∈ pipes.files.inUse)
    (here : stream pipes f = .pipe r side) : r < s₀.memory.nextPipe := by
  have before := (user_before enabled run member).resolve_right fun ⟨fid,c,transfer⟩ =>
    other _ fid c transfer rfl
  rw [stream_kept ops inv.pipes enabled run (held_references before)] at here
  exact inv.calls tid f r side before here

/-- Who owns an end of one of the pipes after a step that starts a process for the shell or for
    some other process. -/
theorem owners_kept (ops : FileOps Obj Dev) (inv : LineInv l s₀ s)
    (enabled : PipesEnabled s.pipes a) (run : pipesExec ops s.pipes a = some pipes)
    {origin : Pid → Option Nat}
    (old : ∀ q, (∀ p, s.pipes.execed a ≠ some (p,q)) → origin q = s.origin q)
    {j : Nat} {q : Pid} (here : s.made[j]? = some r)
    (new : ∀ p, s.pipes.execed a = some (p,q) → Owns s.pipes p r side →
      origin q = some j ∨ side = .reader ∧ origin q = some (j + 1))
    (owns : Owns pipes q r side) :
    q = l.shell.1 ∨ origin q = some j ∨ side = .reader ∧ origin q = some (j + 1) := by
  have made := (inv.fresh r (List.mem_of_getElem? here)).2
  rcases owns_step ops inv.pipes inv.users enabled run made owns with
    ⟨apart,before⟩ | ⟨p,child,parent⟩
  · rw [old q apart]
    exact inv.owners j r q side here before
  · exact Or.inr (new p child parent)

theorem other_inv (ops : FileOps Obj Dev) (inv : LineInv l s₀ s)
    (enabled : PipesEnabled s.pipes a) (apart : ∀ t ∈ a.caller, t.1 ≠ l.shell.1)
    (run : pipesExec ops s.pipes a = some pipes) : LineInv l s₀ (s.others a pipes) := by
  obtain ⟨pipes',run',inv',later⟩ := pipes_step ops inv.pipes enabled
  obtain rfl : pipes' = pipes := Option.some.inj (run'.symm.trans run)
  have fields : (s.others a pipes') = { s with
      pipes := pipes', origin := (s.others a pipes').origin } := by
    unfold ShellRun.others
    split <;> rfl
  have same := view_others ops inv.pipes enabled run apart fun _ =>
    running_execed inv.pipes inv.idle
  rw [fields]
  refine ⟨inv',users_kept ops inv.pipes inv.users enabled run,
    idle_kept ops inv.pipes enabled run ?_ ?_ inv.idle,Nat.le_trans inv.next later.next,
    fun r member => ?_,inv.distinct,?_,inv.started,inv.count,fun j r q side here owns => ?_,
    calls_kept ops inv enabled run ?_⟩
  · rintro rfl
    exact apart l.shell rfl rfl
  · rintro fid c rfl
    exact apart l.shell rfl rfl
  · have before := inv.fresh r member
    exact ⟨before.1,Nat.lt_of_lt_of_le before.2 later.next⟩
  · change Shows l (view s₀ l.shell.1) s (view pipes' l.shell.1)
    rw [same]
    exact inv.shows
  · refine owners_kept ops inv enabled run (fun q old => ?_) here (fun p made parent => ?_) owns
    · unfold ShellRun.others
      split
      · rename_i p new made
        refine Function.update_of_ne ?_ _ _
        rintro rfl
        exact old p made
      · rfl
    · obtain ⟨t,caller,rfl⟩ := execed_caller made
      have origin : (s.others a pipes').origin q = s.origin t.1 := by
        simp only [ShellRun.others, made, Function.update_self]
      rw [origin]
      exact (inv.owners j r t.1 side here parent).resolve_left (apart t caller)
  · rintro u fid c rfl
    exact apart u rfl

theorem first_body (shows : Shows l V s v) (stage : s.stage = .saveOut) : s.i = 0 := by
  simp only [Shows, stage] at shows
  exact shows.1.2

theorem call_inv (ops : FileOps Obj Dev) (inv₀ : PipesInv s₀) (some' : 0 < l.frag)
    (input : view s₀ l.shell.1 0 ≠ none) (output : view s₀ l.shell.1 1 ≠ none)
    (inv : LineInv l s₀ s) (call : l.call s = some a)
    (run : pipesExec ops s.pipes a = some pipes) : LineInv l s₀ (l.returned s a pipes) := by
  obtain ⟨enabled,caller,stays,outside⟩ := call_enabled l inv.idle call
  obtain ⟨pipes',run',inv',later⟩ := pipes_step ops inv.pipes enabled
  obtain rfl : pipes' = pipes := Option.some.inj (run'.symm.trans run)
  have old := made_old inv₀ inv
  have alive : s.stage ≠ .failed := fun stage => by simp [Line.call, stage] at call
  have shows : Shows l (view s₀ l.shell.1) (l.returned s a pipes')
      (view (l.returned s a pipes').pipes l.shell.1) := by
    rw [returned_pipes]
    exact call_shows ops inv.pipes some' input output inv.idle call run inv.shows
  have idle := idle_kept ops inv.pipes enabled run (stays l.shell) (outside l.shell) inv.idle
  have users := users_kept ops inv.pipes inv.users enabled run
  have older (r : PipeRef) (member : r ∈ s.made) :
      s₀.memory.nextPipe ≤ r ∧ r < pipes'.memory.nextPipe :=
    ⟨(inv.fresh r member).1,Nat.lt_of_lt_of_le (inv.fresh r member).2 later.next⟩
  have calls := calls_kept ops inv enabled run fun u fid c same => absurd same (outside u fid c)
  have count := returned_count pipes' call (first_body inv.shows) (inv.count alive)
  have next' := Nat.le_trans inv.next later.next
  rw [← returned_pipes l s a pipes'] at idle users next' older calls inv'
  have kept (apart : ∀ p q, s.pipes.execed a ≠ some (p,q)) {j : Nat} {q : Pid} {r : PipeRef}
      {side : Side} (here : s.made[j]? = some r) (owns : Owns pipes' q r side) :
      q = l.shell.1 ∨ s.origin q = some j ∨ side = .reader ∧ s.origin q = some (j + 1) :=
    owners_kept ops inv enabled run (fun _ _ => rfl) here
      (fun p made _ => absurd made (apart p q)) owns
  rcases returned_cases pipes' call with ⟨childless,made,started,_,origin⟩ |
    ⟨rfl,⟨⟨c,d⟩,fids⟩,made,started,_,origin⟩ | ⟨pid,stage,child,made,started,_,origin⟩
  · refine ⟨inv',users,idle,next',by rwa [made],made ▸ inv.distinct,shows,?_,count,?_,calls⟩
    · rw [made, started]
      exact inv.started
    · rw [made, origin, returned_pipes]
      exact fun j r q side => kept (by simp [childless])
  · have room := (piped_fids ops inv.pipes enabled run fids).2.2.2.1
    rw [← returned_pipes l s _ pipes'] at room
    have unmade : s.pipes.memory.nextPipe ∉ s.made :=
      fun member => absurd (inv.fresh _ member).2 (Nat.lt_irrefl _)
    refine ⟨inv',users,idle,next',fun r member => ?_,?_,shows,fun j g given => ?_,count,
      fun j r q side here owns => ?_,calls⟩
    · rw [made, List.mem_append, List.mem_singleton] at member
      rcases member with old | rfl
      · exact older r old
      · exact ⟨inv.next,room ▸ Nat.lt_succ_self _⟩
    · rw [made, List.nodup_append_comm]
      exact List.nodup_cons.mpr ⟨unmade,inv.distinct⟩
    · rw [started] at given
      rw [made]
      exact given_grow _ (inv.started j g given)
    · rw [made] at here
      rw [origin]
      rw [returned_pipes] at owns
      by_cases before : j < s.made.length
      · rw [List.getElem?_append_left before] at here
        exact kept (fun p q => by simp [PipesRun.execed]) here owns
      · have last := List.mem_of_getElem? (List.getElem?_append_right (Nat.not_lt.mp before) ▸ here)
        rw [List.mem_singleton] at last
        exact Or.inl (owns_fresh ops inv.pipes enabled run last.ge owns)
  · refine ⟨inv',users,idle,next',by rwa [made],made ▸ inv.distinct,shows,fun j g given => ?_,count,
      fun j r q side here owns => ?_,calls⟩
    · rw [started] at given
      rw [made]
      by_cases before : j < s.started.length
      · rw [List.getElem?_append_left before] at given
        exact inv.started j g given
      · have place : s.started.length = s.i := by
          rw [(inv.count alive).1, ShellRun.begun, stage]
          rfl
        rw [List.getElem?_append_right (Nat.not_lt.mp before)] at given
        obtain ⟨bound,rfl⟩ := List.getElem?_eq_some_iff.mp given
        rw [List.length_singleton] at bound
        obtain rfl : j = s.i := by omega
        rw [List.getElem_singleton]
        rw [(execute_shows ops inv.pipes inv.idle call run inv.shows stage).2 _ _ child]
        exact execute_given stage inv.shows
    · rw [made] at here
      rw [returned_pipes] at owns
      rw [origin]
      refine owners_kept ops inv enabled run (fun q old => ?_) here (fun p parent before => ?_) owns
      · refine Function.update_of_ne ?_ _ _
        rintro rfl
        exact old l.shell.1 child
      · rw [child] at parent
        cases parent
        obtain ⟨fid,f,entry⟩ := shell_owns inv (inv.fresh r (List.mem_of_getElem? here)).1 before
        rw [Function.update_self]
        refine (execute_entries stage inv.shows old inv.distinct entry here).imp (fun same => ?_)
          (And.imp_right fun same => ?_)
        · rw [same]
        · rw [same]

theorem start_line_inv (ops : FileOps Obj Dev) (reach : (pipesSystem Task ops).Reach s₀)
    (idle : s₀.files.Idle l.shell) : LineInv l s₀ (beforeLine s₀) := by
  have inv := pipes_reach_inv ops reach
  refine ⟨inv,users_reach ops reach,idle,Nat.le_refl _,nofun,List.nodup_nil,⟨⟨rfl,rfl⟩,rfl⟩,nofun,
    fun _ => ⟨rfl,rfl⟩,nofun,fun tid f r side member here => ?_⟩
  exact owned_made inv ⟨f,Or.inr ⟨tid,member⟩,here⟩

/-- What a step is. -/
theorem line_cases {ops : FileOps Obj Dev} {x : ShellAction Task Obj Dev}
    (move : (lineSystem ops l s₀).Step s x s') :
    (∃ a pipes, x = .call ∧ l.call s = some a ∧ pipesExec ops s.pipes a = some pipes ∧
      s' = l.returned s a pipes) ∨
    ∃ a pipes, x = .other a ∧ (PipesEnabled s.pipes a ∧ ∀ t ∈ a.caller, t.1 ≠ l.shell.1) ∧
      pipesExec ops s.pipes a = some pipes ∧ s' = s.others a pipes := by
  obtain ⟨enabled,exec⟩ := move
  cases x with
  | call =>
    obtain ⟨a,call,rest⟩ := Option.bind_eq_some_iff.mp exec
    obtain ⟨pipes,run,same⟩ := Option.bind_eq_some_iff.mp rest
    cases same
    exact Or.inl ⟨a,pipes,rfl,call,run,rfl⟩
  | other a =>
    obtain ⟨pipes,run,rfl⟩ := Option.map_eq_some_iff.mp exec
    exact Or.inr ⟨a,pipes,rfl,enabled,run,rfl⟩

theorem line_reach (ops : FileOps Obj Dev) (reach : (pipesSystem Task ops).Reach s₀)
    (idle : s₀.files.Idle l.shell) (some' : 0 < l.frag) (input : view s₀ l.shell.1 0 ≠ none)
    (output : view s₀ l.shell.1 1 ≠ none) (run : (lineSystem ops l s₀).Reach s) :
    LineInv l s₀ s := by
  refine inductive_reach ⟨?_,?_⟩ run
  · rintro s rfl
    exact start_line_inv ops reach idle
  · intro s x s' inv move
    rcases line_cases move with ⟨a,pipes,_,call,run,rfl⟩ | ⟨a,pipes,_,enabled,run,rfl⟩
    · exact call_inv ops (pipes_reach_inv ops reach) some' input output inv call run
    · exact other_inv ops inv enabled.1 enabled.2 run

end Steps

end Invariant
end Pipeline
