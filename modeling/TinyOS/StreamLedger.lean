import TinyOS.FileTable
import TinyOS.Tally

/- Reference counting in general terms: `refs` says how many references each FCB has, wherever
   they are kept, and `pending` lists the FCBs that have been acquired in the current section but
   have no stream yet. Each FCB operation turns a ledger for the old references into one for the
   new ones. -/
namespace KernelStreams
variable {Task Obj Dev : Type} {s : Files Obj Dev} {refs refs' : FcbRef → Nat}
  {pending : List FcbRef} {f : FcbRef}

structure Ledger (s : Files Obj Dev) (refs : FcbRef → Nat) (pending : List FcbRef) : Prop where
  nodup : s.fcbFreelist.Nodup
  free : ∀ f ∈ s.fcbFreelist, refs f = 0
  counted : ∀ f ∉ s.fcbFreelist, (s.FT f).refcount = refs f
  held : ∀ f ∉ s.fcbFreelist, f ∉ pending → 0 < refs f
  apart : ∀ f ∈ pending, f ∉ s.fcbFreelist
  history : ∀ f, s.opens f =
    s.closes f + if f ∈ s.fcbFreelist ∨ f ∈ pending then 0 else 1

/-- No Close method has run, and some streams that satisfy `New` may have been opened. -/
structure OpensOnly (New : Obj → Prop) (s s' : Files Obj Dev) : Prop where
  closes : s'.closes = s.closes
  opens : ∀ f, s.opens f ≤ s'.opens f
  device : s'.device = s.device
  kept : ∀ f, s'.opens f = s.opens f → (s'.FT f).stream = (s.FT f).stream
  opened : ∀ f, s'.opens f ≠ s.opens f → New (s'.FT f).stream

variable {New : Obj → Prop}

theorem OpensOnly.refl (s : Files Obj Dev) : OpensOnly New s s :=
  ⟨rfl,fun _ => le_refl _,rfl,fun _ _ => rfl,fun _ other => absurd rfl other⟩

theorem opens_only_trans {s s' s'' : Files Obj Dev} (one : OpensOnly New s s')
    (two : OpensOnly New s' s'') : OpensOnly New s s'' := by
  refine ⟨two.closes.trans one.closes,fun f => (one.opens f).trans (two.opens f),
    two.device.trans one.device,?_,?_⟩
  · intro f same
    have first := one.opens f
    have second := two.opens f
    exact (two.kept f (by omega)).trans (one.kept f (by omega))
  · intro f other
    by_cases same : s''.opens f = s'.opens f
    · rw [two.kept f same]
      exact one.opened f (same ▸ other)
    · exact two.opened f same

theorem opens_only_weaken {New' : Obj → Prop} {s s' : Files Obj Dev} (one : OpensOnly New s s')
    (weaker : ∀ o, New o → New' o) : OpensOnly New' s s' :=
  { one with opened := fun f other => weaker _ (one.opened f other) }

theorem set_refcount_stream (s : Files Obj Dev) (f : FcbRef) (n : Int) (g : FcbRef) :
    ((s.setRefcount f n).FT g).stream = (s.FT g).stream := by
  by_cases same : g = f
  · simp [Files.setRefcount, same]
  · simp [Files.setRefcount, same]

theorem set_refcount_opens (s : Files Obj Dev) (f : FcbRef) (n : Int) :
    OpensOnly New s (s.setRefcount f n) :=
  ⟨rfl,fun _ => le_refl _,rfl,fun g _ => set_refcount_stream s f n g,
    fun _ other => absurd rfl other⟩

theorem attach_opens (s : Files Obj Dev) (f : FcbRef) {stream : Obj} (new : New stream) :
    OpensOnly New s (attachStream s f stream) := by
  refine ⟨rfl,fun g => ?_,rfl,fun g => ?_,fun g => ?_⟩
  · by_cases same : g = f
    · simp [attachStream, same]
    · simp [attachStream, same]
  · by_cases same : g = f
    · simp [attachStream, same]
    · simp [attachStream, same]
  · by_cases same : g = f
    · simp [attachStream, same, new]
    · simp [attachStream, same]

theorem ledger_congr (ledger : Ledger s refs pending) (same : ∀ f, refs' f = refs f) :
    Ledger s refs' pending := by
  obtain rfl : refs' = refs := funext same
  exact ledger

/-- An FCB that has a reference is not on the free list. -/
theorem ledger_in_use (ledger : Ledger s refs pending) (used : 0 < refs f) :
    f ∉ s.fcbFreelist := by
  intro member
  have none := ledger.free f member
  omega

theorem ledger_acquire (ledger : Ledger s refs pending) {s' : Files Obj Dev}
    (run : acquireFCB s = some (f,s')) : Ledger s' refs (f :: pending) ∧ refs f = 0 ∧ f ∉ pending ∧
      OpensOnly New s s' := by
  obtain ⟨nodup,free,counted,held,apart,history⟩ := ledger
  unfold acquireFCB at run
  cases list : s.fcbFreelist with
  | nil => simp [list] at run
  | cons g rest =>
    simp only [list, Option.some.injEq, Prod.mk.injEq] at run
    obtain ⟨rfl,rfl⟩ := run
    rw [list] at nodup free counted held apart history
    obtain ⟨outside,nodup'⟩ := List.nodup_cons.mp nodup
    have none : refs g = 0 := free g (List.mem_cons_self ..)
    refine ⟨⟨nodup',?_,?_,?_,?_,?_⟩,none,?_,?_⟩
    · intro h member
      exact free h (List.mem_cons_of_mem _ member)
    · intro h off
      have := counted h
      simp only [Files.setRefcount, Function.update_apply] at off ⊢
      grind
    · intro h off fresh
      have := held h
      simp only [Files.setRefcount] at off
      grind
    · intro h member
      have := apart h
      simp only [Files.setRefcount]
      grind
    · intro h
      have := history h
      simp only [Files.setRefcount]
      grind
    · intro member
      exact apart g member (List.mem_cons_self ..)
    · have opening : OpensOnly New { s with fcbFreelist := rest } _ := set_refcount_opens _ g 0
      exact ⟨opening.closes,opening.opens,opening.device,opening.kept,opening.opened⟩

/-- Giving back an acquired FCB to which no reference is left. -/
theorem ledger_release (ledger : Ledger s refs (f :: pending)) (once : f ∉ pending)
    (gone : refs' f = 0) (rest : ∀ g, g ≠ f → refs' g = refs g) :
    Ledger (releaseFCB s f) refs' pending := by
  obtain ⟨nodup,free,counted,held,apart,history⟩ := ledger
  have off := apart f (List.mem_cons_self ..)
  refine ⟨?_,?_,?_,?_,?_,?_⟩
  · exact List.nodup_append.mpr ⟨nodup,List.nodup_singleton f,by grind⟩
  · intro h member
    have := free h
    have := rest h
    simp only [releaseFCB] at member
    grind
  · intro h out
    have := counted h
    have := rest h
    simp only [releaseFCB] at out ⊢
    grind
  · intro h out fresh
    have := held h
    have := rest h
    simp only [releaseFCB] at out
    grind
  · intro h member
    have := apart h
    simp only [releaseFCB]
    grind
  · intro h
    have := history h
    simp only [releaseFCB]
    grind

/-- One more reference to an FCB that is not free. -/
theorem ledger_incref (ledger : Ledger s refs pending) (off : f ∉ s.fcbFreelist)
    (more : ∀ g, refs' g = refs g + if g = f then 1 else 0) :
    Ledger (fcbIncref s f) refs' pending := by
  obtain ⟨nodup,free,counted,held,apart,history⟩ := ledger
  refine ⟨nodup,?_,?_,?_,apart,history⟩
  · intro g member
    have := free g member
    have := more g
    simp only [fcbIncref, Files.setRefcount] at member
    grind
  · intro g out
    have := counted g out
    have := more g
    simp only [fcbIncref, Files.setRefcount, Function.update_apply]
    grind
  · intro g out fresh
    have := held g out fresh
    have := more g
    omega

/-- One reference less; the last one closes the stream and frees the FCB. -/
theorem ledger_decref (ops : FileOps Obj Dev) (ledger : Ledger s refs pending)
    (used : 0 < refs f) (open' : f ∉ pending)
    (fewer : ∀ g, refs g = refs' g + if g = f then 1 else 0) :
    Ledger (fcbDecref ops s f).2 refs' pending := by
  have off := ledger_in_use ledger used
  obtain ⟨nodup,free,counted,held,apart,history⟩ := ledger
  have mine := fewer f
  have count := counted f off
  simp only [if_true] at mine
  by_cases last : refs' f = 0
  · have zero : (s.FT f).refcount - 1 = 0 := by omega
    have result : (fcbDecref ops s f).2 =
        releaseFCB (closeStream ops (s.setRefcount f ((s.FT f).refcount - 1)) f).2 f := by
      simp [fcbDecref, Files.setRefcount, zero]
    rw [result]
    refine ⟨?_,?_,?_,?_,?_,?_⟩
    · change (s.fcbFreelist ++ [f]).Nodup
      exact List.nodup_append.mpr ⟨nodup,List.nodup_singleton f,by grind⟩
    · intro g member
      have := free g
      have := fewer g
      simp only [releaseFCB, closeStream, Files.setRefcount] at member
      grind
    · intro g out
      have := counted g
      have := fewer g
      simp only [releaseFCB, closeStream, Files.setRefcount, Function.update_apply] at out ⊢
      grind
    · intro g out fresh
      have := held g
      have := fewer g
      simp only [releaseFCB, closeStream, Files.setRefcount] at out
      grind
    · intro g member
      have := apart g
      simp only [releaseFCB, closeStream, Files.setRefcount]
      grind
    · intro g
      have := history g
      simp only [releaseFCB, closeStream, Files.setRefcount, Function.update_apply]
      grind
  · have more : ¬ (s.FT f).refcount - 1 = 0 := by omega
    have result : (fcbDecref ops s f).2 = s.setRefcount f ((s.FT f).refcount - 1) := by
      simp [fcbDecref, Files.setRefcount, more]
    rw [result]
    refine ⟨nodup,?_,?_,?_,apart,history⟩
    · intro g member
      have := free g member
      have := fewer g
      omega
    · intro g out
      have := counted g out
      have := fewer g
      simp only [Files.setRefcount, Function.update_apply]
      grind
    · intro g out fresh
      have := held g out fresh
      have := fewer g
      grind

theorem ledger_attach (ledger : Ledger s refs (f :: pending)) (once : f ∉ pending)
    (used : 0 < refs f) (stream : Obj) : Ledger (attachStream s f stream) refs pending := by
  have off := ledger_in_use ledger used
  obtain ⟨nodup,free,counted,held,apart,history⟩ := ledger
  refine ⟨nodup,free,?_,?_,?_,?_⟩
  · intro g out
    have := counted g out
    simp only [attachStream, Function.update_apply]
    grind
  · intro g out fresh
    have := held g out
    grind
  · intro g member
    exact apart g (List.mem_cons_of_mem _ member)
  · intro g
    have := history g
    simp only [attachStream, Function.update_apply]
    grind

end KernelStreams
