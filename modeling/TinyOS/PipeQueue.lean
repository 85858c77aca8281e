import TinyOS.Pipe
import TinyOS.Transition

/- Any number of threads reading from and writing to one pipe, until both its ends are closed
   and it is freed. -/
namespace KernelPipe
open KernelStreams Monitor Transition

/- `calls` are the calls asleep inside a thread. `delivered` and `accepted` are history: the
   bytes of all completed reads and writes in the order they ran. -/
structure PipeRun (Thread : Type) where
  pipe : Option PipeCB
  waits : Waits Thread PipeCV
  calls : Thread → Option Call
  delivered : List Byte
  accepted : List Byte

inductive PipeAction (Thread : Type) where
  | call (t : Thread) (c : Call)
  | resume (t : Thread)
  | closeReader
  | closeWriter

section Runs
variable {Thread : Type} [DecidableEq Thread]

/- kernel_broadcast -/
def wakeAll (w : Waits Thread PipeCV) : Option PipeCV → Waits Thread PipeCV
  | none => w
  | some cv => w.broadcast cv

def PipeRun.endPass (s : PipeRun Thread) (t : Thread) (c : Call) : Pass × PipeCB → PipeRun Thread
  | (.sleeps cv, p) =>
    { s with
      pipe := some p
      waits := s.waits.wait cv t
      calls := Function.update s.calls t (some c) }
  | (.returns _ data broadcast, p) =>
    { pipe := some p
      waits := wakeAll s.waits broadcast
      calls := Function.update s.calls t none
      delivered := s.delivered ++ c.taken data
      accepted := s.accepted ++ c.put data }

def PipeRun.endClose (s : PipeRun Thread) : Option PipeCV × PipeCB → PipeRun Thread
  | (none, _) => { s with pipe := none }
  | (some cv, p) => { s with pipe := some p, waits := s.waits.broadcast cv }

/- Nothing more happens to a pipe that has been freed. -/
def PipeEnabled (s : PipeRun Thread) : PipeAction Thread → Prop
  | .call t _ => s.pipe.isSome ∧ s.calls t = none
  | .resume t => s.pipe.isSome ∧ (s.calls t).isSome ∧ (s.waits.woken t).isSome
  | .closeReader | .closeWriter => s.pipe.isSome

instance (s : PipeRun Thread) (a : PipeAction Thread) : Decidable (PipeEnabled s a) :=
  match a with
  | .call t _ => inferInstanceAs (Decidable (s.pipe.isSome ∧ s.calls t = none))
  | .resume t =>
    inferInstanceAs (Decidable (s.pipe.isSome ∧ (s.calls t).isSome ∧ (s.waits.woken t).isSome))
  | .closeReader | .closeWriter => inferInstanceAs (Decidable (s.pipe.isSome))

def pipeExec (s : PipeRun Thread) : PipeAction Thread → Option (PipeRun Thread)
  | .call t c => do
    let p ← s.pipe
    some (s.endPass t c (c.firstPass p))
  | .resume t => do
    let p ← s.pipe
    let c ← s.calls t
    some ({ s with waits := s.waits.resume t }.endPass t c (c.nextPass p))
  | .closeReader => do
    let p ← s.pipe
    some (s.endClose (pipeReaderClose p))
  | .closeWriter => do
    let p ← s.pipe
    some (s.endClose (pipeWriterClose p))

/- A pipe is acquired by sys_Pipe, or by sys_Accept in each direction. -/
def pipeSystem (Thread : Type) [DecidableEq Thread] :
    Machine (PipeRun Thread) (PipeAction Thread) :=
  { start := fun s => ∃ reader writer garbage, s =
      { pipe := some (acquirePipeCB (some reader) (some writer) garbage), waits := .empty Thread PipeCV
        calls := fun _ => none, delivered := [], accepted := [] }
    enabled := PipeEnabled
    exec := pipeExec }

instance (s : PipeRun Thread) (a : PipeAction Thread) :
    Decidable ((pipeSystem Thread).enabled s a) :=
  inferInstanceAs (Decidable (PipeEnabled s a))

/- The bytes delivered and those still in the pipe are the bytes accepted. -/
def Fifo (s : PipeRun Thread) : Prop :=
  ∀ p, s.pipe = some p → WellFormed p ∧ s.delivered ++ stored p = s.accepted

theorem end_pass_fifo {s : PipeRun Thread} {p : PipeCB} {r : Pass × PipeCB} {t : Thread} {c : Call}
    (wf : WellFormed p) (queue : s.delivered ++ stored p = s.accepted) (spec : PassSpec c p r) :
    Fifo (s.endPass t c r) := by
  obtain ⟨pass,p'⟩ := r
  cases pass with
  | sleeps cv =>
    intro q same
    cases same
    cases spec
    exact ⟨wf,queue⟩
  | returns value data broadcast =>
    intro q same
    cases same
    have fifo := spec.fifo
    refine ⟨spec.wellFormed,?_⟩
    simp only [PipeRun.endPass]
    rw [List.append_assoc, fifo, ← List.append_assoc, queue]

theorem end_close_fifo {s : PipeRun Thread} {p : PipeCB} {r : Option PipeCV × PipeCB}
    (queue : s.delivered ++ stored p = s.accepted) (wf : WellFormed r.2)
    (kept : stored r.2 = stored p) : Fifo (s.endClose r) := by
  obtain ⟨cv,p'⟩ := r
  cases cv with
  | none =>
    intro q same
    cases same
  | some cv =>
    intro q same
    cases same
    exact ⟨wf,by simpa only [PipeRun.endClose, kept] using queue⟩

theorem writer_close_wellFormed {p : PipeCB} (wf : WellFormed p) :
    WellFormed (pipeWriterClose p).2 :=
  ⟨wf.1,wf.2,wf.3,wf.4,wf.5⟩

theorem reader_close_wellFormed {p : PipeCB} (wf : WellFormed p) :
    WellFormed (pipeReaderClose p).2 :=
  ⟨wf.1,wf.2,wf.3,wf.4,wf.5⟩

theorem pipe_step_fifo {s s' : PipeRun Thread} {a : PipeAction Thread} (fifo : Fifo s)
    (run : pipeExec s a = some s') : Fifo s' := by
  cases a with
  | call t c =>
    obtain ⟨p,alive,ran⟩ := Option.bind_eq_some_iff.mp run
    cases ran
    obtain ⟨wf,queue⟩ := fifo p alive
    exact end_pass_fifo wf queue (first_pass_spec c wf)
  | resume t =>
    obtain ⟨p,alive,rest⟩ := Option.bind_eq_some_iff.mp run
    obtain ⟨c,asleep,ran⟩ := Option.bind_eq_some_iff.mp rest
    cases ran
    obtain ⟨wf,queue⟩ := fifo p alive
    exact end_pass_fifo wf queue (next_pass_spec c wf)
  | closeReader =>
    obtain ⟨p,alive,ran⟩ := Option.bind_eq_some_iff.mp run
    cases ran
    obtain ⟨wf,queue⟩ := fifo p alive
    exact end_close_fifo queue (reader_close_wellFormed wf) rfl
  | closeWriter =>
    obtain ⟨p,alive,ran⟩ := Option.bind_eq_some_iff.mp run
    cases ran
    obtain ⟨wf,queue⟩ := fifo p alive
    exact end_close_fifo queue (writer_close_wellFormed wf) rfl

theorem pipe_inductive : (pipeSystem Thread).Inductive Fifo := by
  constructor
  · rintro s ⟨reader,writer,garbage,rfl⟩ p alive
    cases alive
    exact ⟨acquired_wellFormed (some reader) (some writer) garbage,rfl⟩
  · intro s a s' fifo move
    exact pipe_step_fifo fifo move.2

/-- The ring invariant, and the pipe as a queue of bytes. -/
theorem pipe_is_fifo {s : PipeRun Thread} (reach : (pipeSystem Thread).Reach s) {p : PipeCB}
    (alive : s.pipe = some p) :
    (0 ≤ p.usedSpace ∧ p.usedSpace ≤ pipeBufferSize) ∧
    (0 ≤ p.rPosition ∧ p.rPosition < pipeBufferSize) ∧
    (0 ≤ p.wPosition ∧ p.wPosition < pipeBufferSize) ∧
    p.wPosition = (p.rPosition + p.usedSpace) % pipeBufferSize ∧
    s.delivered ++ stored p = s.accepted := by
  obtain ⟨wf,queue⟩ := inductive_reach pipe_inductive reach p alive
  exact ⟨⟨wf.used_nonneg,wf.used_le⟩,⟨wf.read_nonneg,wf.read_lt⟩,wf.write_bounds,wf.write_eq,queue⟩

/- A reader falls asleep, a write of three bytes wakes it up, and it takes two of them. -/
def sleepyReader : List (PipeAction Nat) :=
  [.call 0 (.read 2),.call 1 (.write [7,8,9]),.resume 0]

theorem pipe_is_fifo_sleepy_reader :
    ∃ s p, (pipeSystem Nat).Reach s ∧ s.pipe = some p ∧ s.delivered = [7,8] ∧
      s.delivered ++ stored p = [7,8,9] := by
  have reach := play_reach (m := pipeSystem Nat) ⟨0,1,fun _ => 0,rfl⟩ sleepyReader rfl
  exact ⟨_,_,reach,rfl,rfl,(pipe_is_fifo reach rfl).2.2.2.2⟩

end Runs
end KernelPipe
