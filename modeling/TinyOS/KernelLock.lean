import TinyOS.CondVarSignals

/- The kernel lock: the semaphore kernel_sem in the monitor of kernel_mutex and kernel_sem_cv. A
   thread in a function of kernel_sem_cv takes the steps of that CondVar; what it does on another
   CondVar in kernel_wait_wchan touches nothing that is modelled here. -/
namespace KernelCC
open ResourceList Rings Transition
variable {Thread : Type}

/- What gives the kernel up: kernel_unlock, kernel_wait_wchan or kernel_sleep(EXITED). -/
inductive Release where
  | unlock | waitWchan | sleep
  deriving DecidableEq, Repr

/- What a thread does next. The Mutex_Lock at the end of the cv_wait of kernel_wait_wchan and what
   follows it are those of kernel_lock. -/
inductive Place where
  | user
  | mutexLock | whileSem | condWait | decrement | mutexUnlock
  | inside
  | releaseLock (r : Release) | increment (r : Release) | condSignal (r : Release)
  | handOver (r : Release)
  | onChannel
  | exited
  deriving DecidableEq, Repr

/- It has taken the semaphore down and not yet up again. -/
def Place.Inside : Place → Bool
  | .mutexUnlock | .inside | .releaseLock _ | .increment _ => true
  | .user | .mutexLock | .whileSem | .condWait | .decrement | .condSignal _ | .handOver _
  | .onChannel | .exited => false

def Place.Locks : Place → Bool
  | .mutexLock | .releaseLock _ => true
  | _ => false

structure KernelLock (Thread : Type) where
  kernelMutex : Option Thread
  kernelSem : Int
  kernelSemCv : CondVar Thread
  place : Thread → Place

inductive KernelAction (Thread : Type) where
  | lock (t : Thread)
  | release (t : Thread) (r : Release)
  | step (t : Thread)

section Steps
variable [DecidableEq Thread]

def KernelLock.go (s : KernelLock Thread) (t : Thread) (place : Place) : KernelLock Thread :=
  { s with place := Function.update s.place t place }

/- The Mutex_Unlock and the Mutex_Lock of a cv_wait on kernel_sem_cv are on kernel_mutex. -/
def condMutex (s : KernelLock Thread) (t : Thread) : Option Thread :=
  match s.kernelSemCv.pc t with
  | .unlockMutex => none
  | .lockMutex => some t
  | _ => s.kernelMutex

def condStep (s : KernelLock Thread) (t : Thread) : Option (KernelLock Thread) :=
  (exec s.kernelSemCv t).map fun cv => { s with kernelSemCv := cv, kernelMutex := condMutex s t }

def Release.place : Release → Place
  | .unlock => .user
  | .waitWchan => .onChannel
  | .sleep => .exited

def kernelStep (s : KernelLock Thread) (t : Thread) : Option (KernelLock Thread) :=
  if s.kernelSemCv.pc t ≠ .outside then condStep s t
  else
    match s.place t with
    | .user | .inside | .exited => none
    -- kernel_lock
    | .mutexLock => some { s.go t .whileSem with kernelMutex := some t }
    | .whileSem =>
      if s.kernelSem ≤ 0 then
        some { s.go t .condWait with kernelSemCv := beginWait s.kernelSemCv t false }
      else some (s.go t .decrement)
    | .condWait => some (s.go t .whileSem)
    | .decrement => some { s.go t .mutexUnlock with kernelSem := s.kernelSem - 1 }
    | .mutexUnlock => some { s.go t .inside with kernelMutex := none }
    -- kernel_unlock, kernel_wait_wchan and kernel_sleep
    | .releaseLock r => some { s.go t (.increment r) with kernelMutex := some t }
    | .increment r =>
      some
        { s.go t (.condSignal r) with
          kernelSem := s.kernelSem + 1
          kernelSemCv := s.kernelSemCv.goto t (.signalLock false) }
    | .condSignal r => some (s.go t (.handOver r))
    | .handOver r => some { s.go t r.place with kernelMutex := none }
    -- the end of a cv_wait on the other CondVar
    | .onChannel => some (s.go t .mutexLock)

def kernelAct (s : KernelLock Thread) : KernelAction Thread → Option (KernelLock Thread)
  | .lock t => some (s.go t .mutexLock)
  | .release t r => some (s.go t (.releaseLock r))
  | .step t => kernelStep s t

/- At a Mutex_Lock of kernel_mutex. -/
def KernelLock.Locks (s : KernelLock Thread) (t : Thread) : Prop :=
  s.kernelSemCv.pc t = .lockMutex ∨ (s.place t).Locks = true

def KernelEnabled (s : KernelLock Thread) : KernelAction Thread → Prop
  | .lock t => s.place t = .user
  | .release t _ => s.place t = .inside
  | .step t =>
    s.place t ≠ .user ∧ s.place t ≠ .inside ∧ s.place t ≠ .exited ∧
      (s.kernelSemCv.pc t ≠ .outside → Enabled s.kernelSemCv (.step t)) ∧
      (s.Locks t → s.kernelMutex = none)

instance kernelEnabledDecidable (s : KernelLock Thread) (a : KernelAction Thread) :
    Decidable (KernelEnabled s a) :=
  match a with
  | .lock t => inferInstanceAs (Decidable (s.place t = .user))
  | .release t _ => inferInstanceAs (Decidable (s.place t = .inside))
  | .step t =>
    have : Decidable (s.Locks t) :=
      inferInstanceAs (Decidable (_ ∨ (s.place t).Locks = true))
    inferInstanceAs (Decidable (s.place t ≠ .user ∧ s.place t ≠ .inside ∧ s.place t ≠ .exited ∧
      (s.kernelSemCv.pc t ≠ .outside → Enabled s.kernelSemCv (.step t)) ∧ (s.Locks t → _)))

def kernelInitial : KernelLock Thread where
  kernelMutex := none
  kernelSem := 1
  kernelSemCv := initial
  place _ := .user

def kernelSystem : Machine (KernelLock Thread) (KernelAction Thread) where
  start s := s = kernelInitial
  enabled := KernelEnabled
  exec := kernelAct

instance kernelSystemDecidable (s : KernelLock Thread) (a : KernelAction Thread) :
    Decidable (kernelSystem.enabled s a) := inferInstanceAs (Decidable (KernelEnabled s a))

end Steps

end KernelCC
