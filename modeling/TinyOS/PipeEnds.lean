import TinyOS.PlainPipe

/- One pipe of sys_Pipe: what its passes and the Close methods of its ends do to it, and that
   nobody is left asleep on it without reason. -/
namespace PlainPipe
open KernelStreams KernelProc KernelPipe Monitor
variable {Obj Dev : Type} {m : Memory Dev} {p : PipeCB} {c : Call} {r : PipeRef} {side : Side}

/-- The state of the buffer in which a call on this end has to wait. -/
def Starved (p : PipeCB) : Side → Prop
  | .reader => p.usedSpace = 0
  | .writer => p.usedSpace = pipeBufferSize

/-- A pipe, how often its ends have been closed and it has been freed, and its sleepers. -/
structure PipeOk (p : PipeCB) (closes : Side → Nat) (frees : Nat)
    (asleep : PipeCV → List Thread) : Prop where
  wellFormed : WellFormed p
  closes : ∀ side, closes side = if side.fcb p = none then 1 else 0
  frees : frees = if p.reader = none ∧ p.writer = none then 1 else 0
  asleep : ∀ side t, t ∈ asleep (Side.cv side) →
    Starved p side ∧ ∀ other : Side, other.fcb p ≠ none

@[simp] theorem other_other (side : Side) : side.other.other = side := by
  cases side <;> rfl

theorem side_cases (side other : Side) : other = side ∨ other = side.other := by
  cases side <;> cases other <;> simp [Side.other]

theorem other_ne (side : Side) : side.other ≠ side := by
  cases side <;> simp [Side.other]

theorem cv_injective {a b : Side} (same : a.cv = b.cv) : a = b := by
  cases a <;> cases b <;> simp [Side.cv] at same ⊢

theorem both_ends (p : PipeCB) (side : Side) :
    (p.reader = none ∧ p.writer = none) ↔ side.fcb p = none ∧ side.other.fcb p = none := by
  cases side
  · rfl
  · exact And.comm

/-- The close wakes the calls on the other end, or leaves the pipe to be freed. -/
theorem pipe_close_spec (side : Side) (p : PipeCB) :
    (pipeClose side p).1 = (if side.other.fcb p = none then none else some side.other.cv) ∧
    (WellFormed p → WellFormed (pipeClose side p).2) ∧
    ∀ other : Side, other.fcb (pipeClose side p).2 = if other = side then none else other.fcb p := by
  cases side
  · refine ⟨rfl,fun wf => ⟨wf.used_nonneg,wf.used_le,wf.read_nonneg,wf.read_lt,wf.write_eq⟩,?_⟩
    intro other
    cases other <;> rfl
  · refine ⟨rfl,fun wf => ⟨wf.used_nonneg,wf.used_le,wf.read_nonneg,wf.read_lt,wf.write_eq⟩,?_⟩
    intro other
    cases other <;> rfl

/-- What a pass leaves behind: it sleeps only where its end is starved and the other one is
    open, and it wakes the calls on the other end whenever it may have moved data. -/
def PassOutcome (c : Call) (p : PipeCB) : Pass × PipeCB → Prop
  | (.sleeps cv, p') => p' = p ∧ cv = (callSide c).cv ∧ Starved p (callSide c) ∧
      (callSide c).other.fcb p ≠ none
  | (.returns _ _ none, p') => p' = p
  | (.returns _ _ (some cv), p') => cv = (callSide c).other.cv ∧
      (Starved p (callSide c) → (callSide c).other.fcb p = none) ∧ WellFormed p' ∧
      ∀ side : Side, side.fcb p' = side.fcb p

theorem next_pass_outcome (c : Call) (wf : WellFormed p) : PassOutcome c p (c.nextPass p) := by
  cases c with
  | read n =>
    have copied := readLoop_copied n wf
    change PassOutcome (.read n) p (readPass n p)
    unfold readPass
    split
    · rename_i waits
      exact ⟨rfl,rfl,waits⟩
    · rename_i goes
      refine ⟨rfl,fun starved => ?_,copied.wellFormed,fun side => ?_⟩
      · by_contra isOpen
        exact goes ⟨starved,isOpen⟩
      · cases side
        · exact copied.reader
        · exact copied.writer
  | write buf =>
    have copied := writeLoop_copied buf wf
    change PassOutcome (.write buf) p (writePass buf p)
    unfold writePass
    split
    · rename_i waits
      exact ⟨rfl,rfl,waits⟩
    · rename_i goes
      split
      · rfl
      · refine ⟨rfl,fun starved => ?_,copied.wellFormed,fun side => ?_⟩
        · by_contra isOpen
          exact goes ⟨starved,isOpen⟩
        · cases side
          · exact copied.reader
          · exact copied.writer

theorem first_pass_outcome (c : Call) (wf : WellFormed p) : PassOutcome c p (c.firstPass p) := by
  cases c with
  | read n =>
    change PassOutcome (.read n) p (pipeRead n p)
    unfold pipeRead
    split
    · rfl
    · exact next_pass_outcome (.read n) wf
  | write buf =>
    change PassOutcome (.write buf) p (pipeWrite buf p)
    unfold pipeWrite
    split
    · rfl
    · exact next_pass_outcome (.write buf) wf

section OnePipe
variable {closes : Side → Nat} {frees : Nat} {asleep asleep' : PipeCV → List Thread}

/-- A pass that returns and broadcasts leaves nobody asleep. -/
theorem returned_ok {p' : PipeCB} (ok : PipeOk p closes frees asleep)
    (moved : Starved p side → side.other.fcb p = none) (wf : WellFormed p')
    (ends : ∀ other : Side, other.fcb p' = other.fcb p)
    (fewer : ∀ cv, asleep' cv ⊆ asleep cv) (woken : asleep' side.other.cv = []) :
    PipeOk p' closes frees asleep' := by
  refine ⟨wf,fun other => ?_,?_,fun other t member => ?_⟩
  · rw [ends]
    exact ok.closes other
  · have reader := ends .reader
    have writer := ends .writer
    simp only [Side.fcb] at reader writer
    rw [reader, writer]
    exact ok.frees
  · rcases side_cases side other with rfl | rfl
    · obtain ⟨starved,isOpen⟩ := ok.asleep other t (fewer _ member)
      exact absurd (moved starved) (isOpen _)
    · rw [woken] at member
      cases member

theorem slept_ok (ok : PipeOk p closes frees asleep) (starved : Starved p side)
    (ends : ∀ other : Side, other.fcb p ≠ none)
    (more : ∀ cv t, t ∈ asleep' cv → t ∈ asleep cv ∨ cv = side.cv) :
    PipeOk p closes frees asleep' := by
  refine ⟨ok.wellFormed,ok.closes,ok.frees,fun other t member => ?_⟩
  rcases more _ t member with old | here
  · exact ok.asleep other t old
  · rw [cv_injective here]
    exact ⟨starved,ends⟩

/-- An open end on which nobody sleeps is closed. -/
theorem closed_ok (ok : PipeOk p closes frees asleep) (isOpen : side.fcb p ≠ none)
    (free : asleep side.cv = []) (fewer : ∀ cv, asleep' cv ⊆ asleep cv)
    (woken : ∀ cv, (pipeClose side p).1 = some cv → asleep' cv = []) :
    PipeOk (pipeClose side p).2 (Function.update closes side (closes side + 1))
      (if (pipeClose side p).1 = none then frees + 1 else frees) asleep' := by
  obtain ⟨broadcast,wf,ends⟩ := pipe_close_spec side p
  have nobody (other : Side) : asleep' other.cv = [] := by
    apply List.eq_nil_iff_forall_not_mem.mpr
    intro t member
    rcases side_cases side other with rfl | rfl
    · have old := fewer _ member
      rw [free] at old
      cases old
    · have twoEnds := (ok.asleep _ t (fewer _ member)).2 side.other
      rw [if_neg twoEnds] at broadcast
      rw [woken _ broadcast] at member
      cases member
  refine ⟨wf ok.wellFormed,fun other => ?_,?_,fun other t member => ?_⟩
  · by_cases same : other = side
    · subst same
      have count := ok.closes other
      rw [if_neg isOpen] at count
      simp [ends, count]
    · simpa [ends, same] using ok.closes other
  · have before := ok.frees
    have gone := both_ends (pipeClose side p).2 side
    have there := both_ends p side
    simp only [ends, if_true, if_neg (other_ne side), true_and] at gone
    simp only [gone, there, isOpen, false_and, if_false] at before ⊢
    rw [broadcast, before]
    split <;> simp
  · rw [nobody other] at member
    cases member

end OnePipe

/-- All the pipes that have been made. -/
structure MemoryOk (m : Memory Dev) : Prop where
  pipes : ∀ r < m.nextPipe,
    PipeOk (m.pipes r) (m.closes r) (m.frees r) (fun cv => m.waits.asleep (r,cv))
  fresh : ∀ r, m.nextPipe ≤ r →
    (∀ side, m.closes r side = 0) ∧ m.frees r = 0 ∧ ∀ cv, m.waits.asleep (r,cv) = []

/-- The other pipes keep what they have, up to the end of their sleep. -/
structure OnlyPipe (m m' : Memory Dev) (r : PipeRef) : Prop where
  next : m'.nextPipe = m.nextPipe
  pipes : ∀ r', r' ≠ r → m'.pipes r' = m.pipes r'
  closes : ∀ r', r' ≠ r → m'.closes r' = m.closes r'
  frees : ∀ r', r' ≠ r → m'.frees r' = m.frees r'
  asleep : ∀ r' cv, r' ≠ r → m'.waits.asleep (r',cv) = m.waits.asleep (r',cv)

theorem only_pipe_ok {m' : Memory Dev} (ok : MemoryOk m) (only : OnlyPipe m m' r)
    (made : r < m.nextPipe)
    (here : PipeOk (m'.pipes r) (m'.closes r) (m'.frees r) (fun cv => m'.waits.asleep (r,cv))) :
    MemoryOk m' := by
  constructor
  · intro r' made'
    by_cases same : r' = r
    · exact same ▸ here
    · simp only [only.pipes r' same, only.closes r' same, only.frees r' same,
        only.asleep r' _ same]
      exact ok.pipes r' (only.next ▸ made')
  · intro r' fresh
    rw [only.next] at fresh
    have apart : r' ≠ r := by
      rintro rfl
      exact absurd made (Nat.not_lt.mpr fresh)
    simp only [only.closes r' apart, only.frees r' apart, only.asleep r' _ apart]
    exact ok.fresh r' fresh

/-- An operation that ends with the broadcast on one pipe, if it wants one. -/
theorem wake_all_spec (m : Memory Dev) (r : PipeRef) (broadcast : Option PipeCV) :
    m.waits.Wakes (m.wakeAll r broadcast).waits ∧
    (∀ r' cv, r' ≠ r → (m.wakeAll r broadcast).waits.asleep (r',cv) = m.waits.asleep (r',cv)) ∧
    ∀ cv, broadcast = some cv → (m.wakeAll r broadcast).waits.asleep (r,cv) = [] := by
  cases broadcast with
  | none => exact ⟨.refl _,fun _ _ _ => rfl,by simp⟩
  | some cv =>
    refine ⟨broadcast_wakes m.waits (r,cv),fun r' cv' apart => ?_,fun cv' same => ?_⟩
    · have other : (r',cv') ≠ (r,cv) := fun same => apart (congrArg Prod.fst same)
      simp [Memory.wakeAll, Waits.broadcast, other]
    · cases same
      simp [Memory.wakeAll, Waits.broadcast]

/-- What the Close method of one end does to the memory. -/
structure Closed (m m' : Memory Dev) (r : PipeRef) (side : Side) : Prop where
  ok : MemoryOk m'
  only : OnlyPipe m m' r
  ends : ∀ r' (other : Side), other.fcb (m'.pipes r') =
    if r' = r ∧ other = side then none else other.fcb (m.pipes r')
  wakes : m.waits.Wakes m'.waits

theorem close_side_eq (m : Memory Dev) (r : PipeRef) (side : Side) :
    let close := pipeClose side (m.pipes r)
    closeSide m r side =
      { ((m.countClose r side).setPipe r close.2).wakeAll r close.1 with
        pipes := Function.update m.pipes r close.2
        nextPipe := m.nextPipe
        closes := (m.countClose r side).closes
        frees := Function.update m.frees r
          (if close.1 = none then m.frees r + 1 else m.frees r) } := by
  intro close
  have same : pipeClose side ((m.countClose r side).pipes r) = close := rfl
  simp only [closeSide, same]
  obtain ⟨broadcast,p'⟩ := close
  cases broadcast with
  | none => rfl
  | some cv => simp [Memory.wakeAll, Memory.setPipe, Memory.countClose]

theorem close_side_spec (ok : MemoryOk m) (made : r < m.nextPipe)
    (isOpen : side.fcb (m.pipes r) ≠ none) (free : m.waits.asleep (r,side.cv) = []) :
    Closed m (closeSide m r side) r side := by
  obtain ⟨_,_,ends⟩ := pipe_close_spec side (m.pipes r)
  obtain ⟨wakes,elsewhere,woken⟩ := wake_all_spec
    ((m.countClose r side).setPipe r (pipeClose side (m.pipes r)).2) r
    (pipeClose side (m.pipes r)).1
  have only : OnlyPipe m (closeSide m r side) r := by
    rw [close_side_eq]
    refine ⟨rfl,fun r' apart => ?_,fun r' apart => ?_,fun r' apart => ?_,elsewhere⟩
    · simp [apart]
    · simp [Memory.countClose, apart]
    · simp [apart]
  have here := closed_ok (ok.pipes r made) isOpen free
    (fun cv => (wakes.asleep (r,cv)).subset) woken
  refine ⟨only_pipe_ok ok only made ?_,only,fun r' other => ?_,?_⟩
  · rw [close_side_eq]
    simpa [Memory.countClose] using here
  · by_cases same : r' = r
    · subst same
      rw [close_side_eq]
      simp [ends]
    · simp [only.pipes r' same, same]
  · rw [close_side_eq]
    exact wakes

/-- What a series of Close methods does that closes open ends without sleepers, each once. -/
structure ClosedAll (FT : FcbRef → FCB (Stream Obj)) (fs : List FcbRef) (m m' : Memory Dev) :
    Prop where
  ok : MemoryOk m'
  next : m'.nextPipe = m.nextPipe
  wakes : m.waits.Wakes m'.waits
  gone : ∀ r (side : Side), (∃ f ∈ fs, (FT f).stream = .pipe r side) →
    side.fcb (m'.pipes r) = none
  kept : ∀ r (side : Side), (∀ f ∈ fs, (FT f).stream ≠ .pipe r side) →
    side.fcb (m'.pipes r) = side.fcb (m.pipes r)

theorem close_all_spec (ops : FileOps Obj Dev) (FT : FcbRef → FCB (Stream Obj))
    (fs : List FcbRef) : ∀ m : Memory Dev, MemoryOk m → fs.Nodup →
    (∀ f ∈ fs, ∀ g ∈ fs, ∀ r side, (FT f).stream = .pipe r side → (FT g).stream = .pipe r side →
      f = g) →
    (∀ f ∈ fs, ∀ r side, (FT f).stream = .pipe r side → r < m.nextPipe ∧
      side.fcb (m.pipes r) ≠ none ∧ m.waits.asleep (r,side.cv) = []) →
    ClosedAll FT fs m (closeAll (streamOps ops) FT fs m) := by
  induction fs with
  | nil =>
    intro m ok _ _ _
    exact ⟨ok,rfl,.refl _,by simp,fun _ _ _ => rfl⟩
  | cons f fs ih =>
    intro m ok distinct once closable
    obtain ⟨outside,distinct'⟩ := List.nodup_cons.mp distinct
    have front := List.mem_cons_self (a := f) (l := fs)
    have tail {g : FcbRef} (later : g ∈ fs) := List.mem_cons_of_mem f later
    have once' : ∀ g ∈ fs, ∀ h ∈ fs, ∀ r side, (FT g).stream = .pipe r side →
        (FT h).stream = .pipe r side → g = h :=
      fun g left h right => once g (tail left) h (tail right)
    have unfold_cons : closeAll (streamOps ops) FT (f :: fs) m =
        closeAll (streamOps ops) FT fs (streamClose ops (FT f).stream m).2 := rfl
    rw [unfold_cons]
    cases stream : (FT f).stream with
    | other o =>
      obtain ⟨ok',next,wakes,gone,kept⟩ := ih { m with others := (ops.close o m.others).2 }
        ⟨ok.pipes,ok.fresh⟩ distinct' once' (fun g later => closable g (tail later))
      refine ⟨ok',next,wakes,?_,fun r side apart => ?_⟩
      · rintro r side ⟨g,member,here⟩
        rcases List.mem_cons.mp member with rfl | later
        · rw [stream] at here
          cases here
        · exact gone r side ⟨g,later,here⟩
      · exact kept r side (fun g later => apart g (tail later))
    | pipe r₁ side₁ =>
      obtain ⟨made,isOpen,free⟩ := closable f front r₁ side₁ stream
      obtain ⟨ok₁,only,ends,wakes₁⟩ := close_side_spec ok made isOpen free
      obtain ⟨ok',next,wakes,gone,kept⟩ := ih (closeSide m r₁ side₁) ok₁ distinct' once'
        (fun g later r side here => by
          obtain ⟨made',isOpen',free'⟩ := closable g (tail later) r side here
          refine ⟨only.next ▸ made',?_,List.sublist_nil.mp (free' ▸ wakes₁.asleep (r,side.cv))⟩
          rw [ends, if_neg ?_]
          · exact isOpen'
          · rintro ⟨rfl,rfl⟩
            have same := once f front g (tail later) r side stream here
            exact outside (same ▸ later))
      refine ⟨ok',next.trans only.next,wakes₁.trans wakes,?_,fun r side apart => ?_⟩
      · rintro r side ⟨g,member,here⟩
        by_cases again : ∃ g ∈ fs, (FT g).stream = .pipe r side
        · exact gone r side again
        · have first : g = f := (List.mem_cons.mp member).resolve_right
            (fun later => again ⟨g,later,here⟩)
          rw [first, stream] at here
          cases here
          refine (kept r₁ side₁ (fun h later same => again ⟨h,later,same⟩)).trans ?_
          exact (ends r₁ side₁).trans (if_pos ⟨rfl,rfl⟩)
      · refine (kept r side (fun g later => apart g (tail later))).trans ?_
        rw [ends, if_neg ?_]
        rintro ⟨rfl,rfl⟩
        exact apart f front stream

end PlainPipe
