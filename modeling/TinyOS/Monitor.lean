import Mathlib

/- The lock of a monitor, and waiting inside it: each channel holds the threads asleep on it in the
   order of their arrival. A woken thread runs on later, and learns then whether it was
   signalled. -/
namespace Monitor
variable {Thread Channel : Type*}

/-- The threads that are where they have the lock are its owner. -/
def Owned (holds : Thread → Bool) (owner : Option Thread) : Prop :=
  ∀ t, holds t = true ↔ owner = some t

section Owned
variable {holds holds' : Thread → Bool} {owner : Option Thread} {t u : Thread}

theorem owned_alone (owned : Owned holds owner) (here : holds t = true) (there : holds u = true) :
    u = t :=
  Option.some.inj (((owned u).mp there).symm.trans ((owned t).mp here))

theorem owned_free (owned : Owned holds none) (t : Thread) : holds t = false := by
  by_contra other
  cases (owned t).mp (by simpa using other)

theorem owned_keep (owned : Owned holds owner) (same : ∀ u, holds' u = holds u) :
    Owned holds' owner := by
  intro u
  rw [same]
  exact owned u

theorem owned_acquire (owned : Owned holds none) (now : holds' t = true)
    (others : ∀ u, u ≠ t → holds' u = holds u) : Owned holds' (some t) := by
  intro u
  by_cases same : u = t
  · simp [same, now]
  · rw [others u same, owned_free owned]
    simp [Ne.symm same]

theorem owned_release (owned : Owned holds owner) (before : holds t = true) (now : holds' t = false)
    (others : ∀ u, u ≠ t → holds' u = holds u) : Owned holds' none := by
  intro u
  refine ⟨fun there => ?_,nofun⟩
  by_cases same : u = t
  · rw [same, now] at there
    cases there
  · exact absurd (owned_alone owned before (others u same ▸ there)) same

/-- What a step of t does to a lock: it leaves it, takes it or gives it up. -/
def Passes (t : Thread) (was now : Bool) (owner owner' : Option Thread) : Prop :=
  now = was ∧ owner' = owner ∨ owner = none ∧ now = true ∧ owner' = some t ∨
    was = true ∧ now = false ∧ owner' = none

theorem owned_passes {owner' : Option Thread} (owned : Owned holds owner)
    (passes : Passes t (holds t) (holds' t) owner owner')
    (others : ∀ u, u ≠ t → holds' u = holds u) : Owned holds' owner' := by
  rcases passes with ⟨same,rfl⟩ | ⟨rfl,now,rfl⟩ | ⟨was,now,rfl⟩
  · refine owned_keep owned fun u => ?_
    by_cases here : u = t
    · exact here ▸ same
    · exact others u here
  · exact owned_acquire owned now others
  · exact owned_release owned was now others

end Owned

structure Waits (Thread Channel : Type*) where
  asleep : Channel → List Thread
  woken : Thread → Option Bool

def Waits.empty (Thread Channel : Type*) : Waits Thread Channel :=
  { asleep := fun _ => [], woken := fun _ => none }

/-- A thread sleeps in one place of one channel, and has not been woken yet. -/
structure Waits.Sound (w : Waits Thread Channel) : Prop where
  nodup : ∀ c, (w.asleep c).Nodup
  single : ∀ c c' t, t ∈ w.asleep c → t ∈ w.asleep c' → c = c'
  unwoken : ∀ c t, t ∈ w.asleep c → w.woken t = none

/-- Some sleepers have been woken up. -/
structure Waits.Wakes (w w' : Waits Thread Channel) : Prop where
  asleep : ∀ c, (w'.asleep c).Sublist (w.asleep c)
  woken : ∀ t, w.woken t = some true → w'.woken t = some true
  changed : ∀ t, w'.woken t ≠ w.woken t → ∃ c, t ∈ w.asleep c ∧ t ∉ w'.asleep c

theorem empty_sound : (Waits.empty Thread Channel).Sound := by
  constructor <;> simp [Waits.empty]

theorem Waits.Wakes.refl (w : Waits Thread Channel) : w.Wakes w :=
  ⟨fun _ => List.Sublist.refl _,fun _ => id,fun _ other => absurd rfl other⟩

theorem Waits.Wakes.trans {w w' w'' : Waits Thread Channel} (first : w.Wakes w')
    (second : w'.Wakes w'') : w.Wakes w'' := by
  refine ⟨fun c => (second.asleep c).trans (first.asleep c),
    fun t same => second.woken t (first.woken t same),?_⟩
  intro t other
  by_cases same : w'.woken t = w.woken t
  · obtain ⟨c,was,gone⟩ := second.changed t (by rw [same]; exact other)
    exact ⟨c,(first.asleep c).subset was,gone⟩
  · obtain ⟨c,was,gone⟩ := first.changed t same
    exact ⟨c,was,fun still => gone ((second.asleep c).subset still)⟩

theorem wakes_awake {w w' : Waits Thread Channel} (wakes : w.Wakes w') {t : Thread}
    (awake : ∀ c, t ∉ w.asleep c) : w'.woken t = w.woken t := by
  by_contra other
  obtain ⟨c,was,_⟩ := wakes.changed t other
  exact awake c was

theorem wakes_sound {w w' : Waits Thread Channel} (sound : w.Sound) (wakes : w.Wakes w') :
    w'.Sound := by
  refine ⟨fun c => (sound.nodup c).sublist (wakes.asleep c),?_,?_⟩
  · intro c c' t here there
    exact sound.single c c' t ((wakes.asleep c).subset here) ((wakes.asleep c').subset there)
  · intro c t here
    have before := (wakes.asleep c).subset here
    by_contra woken
    obtain ⟨c',was,gone⟩ := wakes.changed t (by rw [sound.unwoken c t before]; exact woken)
    cases sound.single c c' t before was
    exact gone here

variable [DecidableEq Thread] [DecidableEq Channel]

def Waits.wait (w : Waits Thread Channel) (c : Channel) (t : Thread) : Waits Thread Channel :=
  { w with asleep := Function.update w.asleep c (w.asleep c ++ [t]) }

def Waits.wake (w : Waits Thread Channel) (t : Thread) (signalled : Bool) : Waits Thread Channel :=
  { w with woken := Function.update w.woken t (some signalled) }

/-- The earliest sleeper is woken. -/
def Waits.signal (w : Waits Thread Channel) (c : Channel) : Waits Thread Channel :=
  match w.asleep c with
  | [] => w
  | t :: rest => { w with asleep := Function.update w.asleep c rest }.wake t true

def Waits.broadcast (w : Waits Thread Channel) (c : Channel) : Waits Thread Channel :=
  { asleep := Function.update w.asleep c []
    woken := fun t => if t ∈ w.asleep c then some true else w.woken t }

/-- The sleep of a thread runs out. -/
def Waits.expire (w : Waits Thread Channel) (c : Channel) (t : Thread) : Waits Thread Channel :=
  { w with asleep := Function.update w.asleep c ((w.asleep c).erase t) }.wake t false

def Waits.resume (w : Waits Thread Channel) (t : Thread) : Waits Thread Channel :=
  { w with woken := Function.update w.woken t none }

theorem signal_wakes {w : Waits Thread Channel} (sound : w.Sound) (c : Channel) :
    w.Wakes (w.signal c) := by
  unfold Waits.signal
  split
  · exact .refl w
  · rename_i t rest first
    have apart := sound.nodup c
    rw [first, List.nodup_cons] at apart
    constructor
    · intro c'
      by_cases same : c' = c
      · subst same
        simp [Waits.wake, first]
      · simp [Waits.wake, same]
    · intro t' woken
      by_cases same : t' = t
      · simp [Waits.wake, same]
      · simpa [Waits.wake, same] using woken
    · intro t' other
      have same : t' = t := by
        by_contra apart'
        simp [Waits.wake, apart'] at other
      subst same
      exact ⟨c,by simp [first],by simp [Waits.wake, apart.1]⟩

theorem broadcast_wakes (w : Waits Thread Channel) (c : Channel) : w.Wakes (w.broadcast c) := by
  constructor
  · intro c'
    by_cases same : c' = c
    · subst same
      simp [Waits.broadcast]
    · simp [Waits.broadcast, same]
  · intro t woken
    simp only [Waits.broadcast]
    split
    · rfl
    · exact woken
  · intro t other
    simp only [Waits.broadcast] at other
    split at other
    · rename_i member
      exact ⟨c,member,by simp [Waits.broadcast]⟩
    · exact absurd rfl other

omit [DecidableEq Thread] in
theorem mem_wait {w : Waits Thread Channel} {c c' : Channel} {t t' : Thread} :
    t' ∈ (w.wait c t).asleep c' ↔ t' ∈ w.asleep c' ∨ c' = c ∧ t' = t := by
  by_cases same : c' = c
  · subst same
    simp [Waits.wait]
  · simp [Waits.wait, same]

omit [DecidableEq Thread] in
theorem wait_sound {w : Waits Thread Channel} (sound : w.Sound) (c : Channel) {t : Thread}
    (awake : ∀ c, t ∉ w.asleep c) (unwoken : w.woken t = none) : (w.wait c t).Sound := by
  refine ⟨?_,?_,?_⟩
  · intro c'
    by_cases same : c' = c
    · subst same
      simp only [Waits.wait, Function.update_self]
      have fresh := awake c'
      exact (sound.nodup c').append (List.nodup_singleton t) (by simpa using fresh)
    · simpa [Waits.wait, same] using sound.nodup c'
  · intro c1 c2 t' here there
    rcases mem_wait.mp here with old | ⟨rfl,rfl⟩
    · rcases mem_wait.mp there with old' | ⟨rfl,rfl⟩
      · exact sound.single c1 c2 t' old old'
      · exact absurd old (awake c1)
    · rcases mem_wait.mp there with old' | ⟨rfl,_⟩
      · exact absurd old' (awake c2)
      · rfl
  · intro c' t' here
    rcases mem_wait.mp here with here | ⟨_,rfl⟩
    · exact sound.unwoken c' t' here
    · exact unwoken

omit [DecidableEq Channel] in
theorem resume_sound {w : Waits Thread Channel} (sound : w.Sound) (t : Thread) :
    (w.resume t).Sound := by
  refine ⟨sound.nodup,sound.single,?_⟩
  intro c t' here
  by_cases same : t' = t
  · simp [Waits.resume, same]
  · simpa [Waits.resume, same] using sound.unwoken c t' here

theorem expire_sublist (w : Waits Thread Channel) (c c' : Channel) (t : Thread) :
    ((w.expire c t).asleep c').Sublist (w.asleep c') := by
  by_cases same : c' = c
  · subst same
    simpa [Waits.expire, Waits.wake] using List.erase_sublist
  · simp [Waits.expire, Waits.wake, same]

theorem expire_sound {w : Waits Thread Channel} (sound : w.Sound) {c : Channel} {t : Thread}
    (here : t ∈ w.asleep c) : (w.expire c t).Sound := by
  refine ⟨fun c' => (sound.nodup c').sublist (expire_sublist w c c' t),?_,?_⟩
  · intro c1 c2 t' first second
    exact sound.single c1 c2 t' ((expire_sublist _ _ _ _).subset first)
      ((expire_sublist _ _ _ _).subset second)
  · intro c' t' there
    by_cases same : t' = t
    · subst same
      cases sound.single c c' t' here ((expire_sublist _ _ _ _).subset there)
      have gone : t' ∉ (w.asleep c).erase t' := (sound.nodup c).not_mem_erase
      simp [Waits.expire, Waits.wake, gone] at there
    · have before := sound.unwoken c' t' ((expire_sublist _ _ _ _).subset there)
      simpa [Waits.expire, Waits.wake, same] using before

end Monitor
