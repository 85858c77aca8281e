import TinyOS.Monitor
import TinyOS.RingBuffer
import TinyOS.Streams

/- Pipes of kernel_pipe.c. A call passes through its function from its start, or from a
   kernel_wait, to the next kernel_wait or to its return; each such pass is atomic. -/
namespace KernelPipe
open KernelStreams RingBuffer

abbrev pipeBufferSize : Nat := 8192
abbrev Byte := UInt8

inductive PipeCV where
  | hasSpace | hasData
  deriving DecidableEq, Repr

/- reader and writer are none where the source has NULL. -/
structure PipeCB where
  reader : Option FcbRef
  writer : Option FcbRef
  wPosition : Int
  rPosition : Int
  BUFFER : Int → Byte
  usedSpace : Int

/- xmalloc leaves BUFFER as it finds it. -/
def acquirePipeCB (reader writer : Option FcbRef) (garbage : Int → Byte) : PipeCB :=
  { reader := reader, writer := writer, wPosition := 0, rPosition := 0
    BUFFER := garbage, usedSpace := 0 }

/- `data` are the bytes that the pass has copied into or out of the pipe. -/
inductive Pass where
  | sleeps (on : PipeCV)
  | returns (value : Int) (data : List Byte) (broadcast : Option PipeCV)

def putByte (p : PipeCB) (b : Byte) : PipeCB :=
  { p with
    BUFFER := Function.update p.BUFFER p.wPosition b
    wPosition := if p.wPosition = (pipeBufferSize : Int) - 1 then 0 else p.wPosition + 1
    usedSpace := p.usedSpace + 1 }

def writeLoop : List Byte → PipeCB → Nat × PipeCB
  | [], p => (0, p)
  | b :: buf, p =>
    if p.usedSpace < pipeBufferSize then
      let (counter, p) := writeLoop buf (putByte p b)
      (counter + 1, p)
    else (0, p)

def writePass (buf : List Byte) (p : PipeCB) : Pass × PipeCB :=
  if p.usedSpace = pipeBufferSize ∧ p.reader ≠ none then (.sleeps .hasSpace, p)
  else if p.reader = none then (.returns (-1) [] none, p)
  else
    let (counter, p) := writeLoop buf p
    (.returns counter (buf.take counter) (some .hasData), p)

def pipeWrite (buf : List Byte) (p : PipeCB) : Pass × PipeCB :=
  if p.reader = none ∨ p.writer = none then (.returns (-1) [] none, p) else writePass buf p

def takeByte (p : PipeCB) : Byte × PipeCB :=
  (p.BUFFER p.rPosition,
    { p with
      rPosition := if p.rPosition = (pipeBufferSize : Int) - 1 then 0 else p.rPosition + 1
      usedSpace := p.usedSpace - 1 })

def readLoop : Nat → PipeCB → List Byte × PipeCB
  | 0, p => ([], p)
  | n + 1, p =>
    if p.usedSpace > 0 then
      let (b, p) := takeByte p
      let (buf, p) := readLoop n p
      (b :: buf, p)
    else ([], p)

def readPass (n : Nat) (p : PipeCB) : Pass × PipeCB :=
  if p.usedSpace = 0 ∧ p.writer ≠ none then (.sleeps .hasData, p)
  else
    let (buf, p) := readLoop n p
    (.returns buf.length buf (some .hasSpace), p)

def pipeRead (n : Nat) (p : PipeCB) : Pass × PipeCB :=
  if p.reader = none then (.returns (-1) [] none, p) else readPass n p

inductive Call where
  | read (n : Nat)
  | write (buf : List Byte)
  deriving DecidableEq

def Call.firstPass : Call → PipeCB → Pass × PipeCB
  | .read n => pipeRead n
  | .write buf => pipeWrite buf

def Call.nextPass : Call → PipeCB → Pass × PipeCB
  | .read n => readPass n
  | .write buf => writePass buf

def Call.taken : Call → List Byte → List Byte
  | .read _, data => data
  | .write _, _ => []

def Call.put : Call → List Byte → List Byte
  | .read _, _ => []
  | .write _, data => data

/- The broadcast, none where the pipe is freed instead. -/
def pipeWriterClose (p : PipeCB) : Option PipeCV × PipeCB :=
  (if p.reader = none then none else some .hasData, { p with writer := none })

def pipeReaderClose (p : PipeCB) : Option PipeCV × PipeCB :=
  (if p.writer = none then none else some .hasSpace, { p with reader := none })

/- The bytes stored from rPosition on. -/
def stored (p : PipeCB) : List Byte :=
  (List.range p.usedSpace.toNat).map fun i : Nat => p.BUFFER ((p.rPosition + i) % pipeBufferSize)

structure WellFormed (p : PipeCB) : Prop where
  used_nonneg : 0 ≤ p.usedSpace
  used_le : p.usedSpace ≤ pipeBufferSize
  read_nonneg : 0 ≤ p.rPosition
  read_lt : p.rPosition < pipeBufferSize
  write_eq : p.wPosition = (p.rPosition + p.usedSpace) % pipeBufferSize

theorem WellFormed.write_bounds {p : PipeCB} (wf : WellFormed p) :
    0 ≤ p.wPosition ∧ p.wPosition < pipeBufferSize := by
  have at' := wf.write_eq
  simp only [pipeBufferSize] at at' ⊢
  omega

theorem acquired_wellFormed (reader writer : Option FcbRef) (garbage : Int → Byte) :
    WellFormed (acquirePipeCB reader writer garbage) := by
  constructor <;> simp [acquirePipeCB]

/-- The pipe as a ring of bytes. -/
def WellFormed.ring {p : PipeCB} (wf : WellFormed p) : Ring Byte pipeBufferSize :=
  { cells := fun i => p.BUFFER i
    first := p.rPosition.toNat
    used := p.usedSpace.toNat
    first_lt := by have := wf.read_nonneg; have := wf.read_lt; omega
    used_le := by have := wf.used_le; omega }

theorem WellFormed.place_eq {p : PipeCB} (wf : WellFormed p) (i : Nat) :
    ((wf.ring.place i : Nat) : Int) = (p.rPosition + i) % pipeBufferSize := by
  have first := wf.read_nonneg
  simp only [Ring.place, WellFormed.ring, pipeBufferSize]
  omega

theorem stored_eq_contents {p : PipeCB} (wf : WellFormed p) : stored p = wf.ring.contents := by
  unfold stored Ring.contents
  apply List.map_congr_left
  intro i inside
  have place := wf.place_eq i
  simp only [WellFormed.ring] at place ⊢
  rw [← place]

theorem WellFormed.writes_at {p : PipeCB} (wf : WellFormed p) :
    p.wPosition = wf.ring.place wf.ring.used := by
  have used := wf.used_nonneg
  have place := wf.place_eq wf.ring.used
  have at' := wf.write_eq
  have count : (p.usedSpace.toNat : Int) = p.usedSpace := by omega
  simp only [WellFormed.ring, count] at place ⊢
  exact at'.trans place.symm

theorem putByte_wellFormed {p : PipeCB} (wf : WellFormed p)
    (room : p.usedSpace < pipeBufferSize) (b : Byte) : WellFormed (putByte p b) := by
  have bounds := wf.write_bounds
  obtain ⟨used,_,read,bound,at'⟩ := wf
  simp only [pipeBufferSize] at *
  constructor <;> simp only [putByte, pipeBufferSize]
  · omega
  · omega
  · omega
  · omega
  · split <;> omega

theorem putByte_ring {p : PipeCB} (wf : WellFormed p) (room : p.usedSpace < pipeBufferSize)
    (b : Byte) (fits : wf.ring.used < pipeBufferSize) :
    (putByte_wellFormed wf room b).ring = wf.ring.push b fits := by
  have used := wf.used_nonneg
  have at' := wf.writes_at
  have cells : (fun i : Nat => Function.update p.BUFFER p.wPosition b (i : Int)) =
      Function.update (fun i : Nat => p.BUFFER i) (wf.ring.place wf.ring.used) b := by
    funext i
    by_cases here : i = wf.ring.place wf.ring.used
    · simp [here, at']
    · have apart : (i : Int) ≠ p.wPosition := by omega
      simp [here, apart]
  have count : (p.usedSpace + 1).toNat = p.usedSpace.toNat + 1 := by omega
  simp only [WellFormed.ring, Ring.push, putByte] at cells ⊢
  simp only [cells, count]

theorem putByte_stored {p : PipeCB} (wf : WellFormed p) (room : p.usedSpace < pipeBufferSize)
    (b : Byte) : stored (putByte p b) = stored p ++ [b] := by
  have fits : wf.ring.used < pipeBufferSize := by
    have used := wf.used_nonneg
    simp only [WellFormed.ring]
    omega
  rw [stored_eq_contents (putByte_wellFormed wf room b), putByte_ring wf room b fits,
    push_contents, ← stored_eq_contents wf]

theorem takeByte_wellFormed {p : PipeCB} (wf : WellFormed p) (holds : 0 < p.usedSpace) :
    WellFormed (takeByte p).2 := by
  obtain ⟨used,most,read,bound,at'⟩ := wf
  simp only [pipeBufferSize] at *
  constructor <;> simp only [takeByte, pipeBufferSize]
  · omega
  · omega
  · split <;> omega
  · split <;> omega
  · split <;> omega

theorem takeByte_ring {p : PipeCB} (wf : WellFormed p) (holds : 0 < p.usedSpace) :
    (takeByte_wellFormed wf holds).ring = wf.ring.pop := by
  have read := wf.read_nonneg
  have first : (if p.rPosition = (pipeBufferSize : Int) - 1 then 0 else p.rPosition + 1).toNat =
      advance pipeBufferSize p.rPosition.toNat := by
    simp only [advance, pipeBufferSize]
    split <;> split <;> omega
  have count : (p.usedSpace - 1).toNat = p.usedSpace.toNat - 1 := by omega
  simp only [WellFormed.ring, Ring.pop, takeByte, first, count]

theorem takeByte_stored {p : PipeCB} (wf : WellFormed p) (holds : 0 < p.usedSpace) :
    stored p = (takeByte p).1 :: stored (takeByte p).2 := by
  have read := wf.read_nonneg
  have count : 0 < wf.ring.used := by
    simp only [WellFormed.ring]
    omega
  have front : wf.ring.cells wf.ring.first = (takeByte p).1 := by
    simp only [WellFormed.ring, takeByte]
    rw [Int.toNat_of_nonneg read]
  rw [stored_eq_contents wf, pop_contents wf.ring count, front,
    stored_eq_contents (takeByte_wellFormed wf holds), takeByte_ring wf holds]

theorem stored_length {p : PipeCB} : (stored p).length = p.usedSpace.toNat := by
  simp [stored]

/- What a pass does to the bytes of a pipe and to its ends. -/
structure Copied (p p' : PipeCB) (taken put : List Byte) : Prop where
  wellFormed : WellFormed p'
  fifo : taken ++ stored p' = stored p ++ put
  reader : p'.reader = p.reader
  writer : p'.writer = p.writer

theorem Copied.refl {p : PipeCB} (wf : WellFormed p) : Copied p p [] [] :=
  { wellFormed := wf, fifo := by simp, reader := rfl, writer := rfl }

theorem writeLoop_copied (buf : List Byte) {p : PipeCB} (wf : WellFormed p) :
    Copied p (writeLoop buf p).2 [] (buf.take (writeLoop buf p).1) := by
  induction buf generalizing p with
  | nil => exact .refl wf
  | cons b buf ih =>
    by_cases room : p.usedSpace < pipeBufferSize
    · have rest := ih (putByte_wellFormed wf room b)
      have fifo := rest.fifo
      rw [putByte_stored wf room b] at fifo
      simp only [writeLoop, if_pos room]
      exact
        { wellFormed := rest.wellFormed
          fifo := by simpa using fifo
          reader := rest.reader
          writer := rest.writer }
    · simp only [writeLoop, if_neg room]
      exact .refl wf

theorem readLoop_copied (n : Nat) {p : PipeCB} (wf : WellFormed p) :
    Copied p (readLoop n p).2 (readLoop n p).1 [] := by
  induction n generalizing p with
  | zero => exact .refl wf
  | succ n ih =>
    by_cases holds : 0 < p.usedSpace
    · have rest := ih (takeByte_wellFormed wf holds)
      have fifo := rest.fifo
      simp only [readLoop, gt_iff_lt, if_pos holds]
      exact
        { wellFormed := rest.wellFormed
          fifo := by rw [takeByte_stored wf holds, List.cons_append, fifo, List.cons_append]
          reader := rest.reader
          writer := rest.writer }
    · simp only [readLoop, gt_iff_lt, if_neg holds]
      exact .refl wf

/- What any pass does: it leaves the pipe alone and sleeps, or moves its data. -/
def PassSpec (c : Call) (p : PipeCB) : Pass × PipeCB → Prop
  | (.sleeps _, p') => p' = p
  | (.returns _ data _, p') => Copied p p' (c.taken data) (c.put data)

theorem next_pass_spec (c : Call) {p : PipeCB} (wf : WellFormed p) :
    PassSpec c p (c.nextPass p) := by
  cases c with
  | read n =>
    change PassSpec (.read n) p (readPass n p)
    unfold readPass
    split
    · rfl
    · exact readLoop_copied n wf
  | write buf =>
    change PassSpec (.write buf) p (writePass buf p)
    unfold writePass
    split
    · rfl
    · split
      · exact .refl wf
      · exact writeLoop_copied buf wf

theorem first_pass_spec (c : Call) {p : PipeCB} (wf : WellFormed p) :
    PassSpec c p (c.firstPass p) := by
  cases c with
  | read n =>
    change PassSpec (.read n) p (pipeRead n p)
    unfold pipeRead
    split
    · exact .refl wf
    · exact next_pass_spec (.read n) wf
  | write buf =>
    change PassSpec (.write buf) p (pipeWrite buf p)
    unfold pipeWrite
    split
    · exact .refl wf
    · exact next_pass_spec (.write buf) wf

end KernelPipe
