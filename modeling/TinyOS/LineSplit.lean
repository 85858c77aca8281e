import TinyOS.Plumbing

/- The arrays of process_line: Vargc and Vargv have as many elements as the line has tokens, and
   hold anything at first. A read or write outside them is none. -/
namespace Pipeline
open ArgVector ProcInfo

def isSign (w : CString) : Bool := w.val = pipeSign

theorem pipe_sign_free : (0 : Byte) ∉ pipeSign := by decide

def pipeWord : CString := ⟨pipeSign,pipe_sign_free⟩

/- Vargv[j] is an index into argv; an indeterminate pointer is none. -/
structure Splitting where
  Vargc : List Int
  Vargv : List (Option Nat)
  frag : Nat
  deriving DecidableEq, Repr

def store {β : Type} (a : List β) (j : Nat) (x : β) : Option (List β) :=
  if j < a.length then some (a.set j x) else none

def splitWord (i : Nat) (s : Splitting) (word : CString) : Option Splitting :=
  if word.val ≠ pipeSign then do
    let n ← s.Vargc[s.frag]?
    let Vargc ← store s.Vargc s.frag (n + 1)
    if n + 1 = 1 then
      let Vargv ← store s.Vargv s.frag (some i)
      some { s with Vargc := Vargc, Vargv := Vargv }
    else some { s with Vargc := Vargc }
  else do
    let Vargc ← store s.Vargc (s.frag + 1) 0
    some { s with Vargc := Vargc, frag := s.frag + 1 }

def splitWords : Nat → List CString → Splitting → Option Splitting
  | _, [], s => some { s with frag := s.frag + 1 }
  | i, word :: argv, s => do
    let s ← splitWord i s word
    splitWords (i + 1) argv s

def splitArrays (argv : List CString) (Vargc : List Int) (Vargv : List (Option Nat)) :
    Option Splitting := do
  let Vargc ← store Vargc 0 0
  splitWords 0 argv { Vargc := Vargc, Vargv := Vargv, frag := 0 }

/- The checks of the fragments from i on; some none is the return after an error message. -/
def checkArrays (COMMANDS : List Command) (argv : List CString) (s : Splitting) :
    Nat → Nat → Option (Option (List (Program × List CString)))
  | 0, _ => some (some [])
  | left + 1, i => do
    let n ← s.Vargc[i]?
    if n = 0 then some none
    else
      let first ← (← s.Vargv[i]?)
      let name ← argv[first]?
      match COMMANDS.find? (·.cmdname = name) with
      | none => some none
      | some command =>
        let rest ← checkArrays COMMANDS argv s left (i + 1)
        some (rest.map ((command.prog, (argv.drop first).take n.toNat) :: ·))

def Splitting.words (argv : List CString) (s : Splitting) (j : Nat) : List CString :=
  (argv.drop (s.Vargv[j]?.join.getD 0)).take (s.Vargc[j]?.getD 0).toNat

/- What the splitting has to be, given what the checks say. The fragments follow one another with
   one token in between, and that token is the sign. -/
structure SplitsLine (COMMANDS : List Command) (argv : List CString) (s : Splitting)
    (checked : Option (List (Program × List CString))) : Prop where
  count : s.frag = argv.countP isSign + 1
  rejected : checked = none ↔ ∃ j < s.frag, s.words argv j = [] ∨
    ∃ name, (s.words argv j).head? = some name ∧ ∀ command ∈ COMMANDS, command.cmdname ≠ name
  executed : ∀ frags, checked = some frags →
    frags.map Prod.snd = (List.range s.frag).map (s.words argv)
  whole : [pipeWord].intercalate ((List.range s.frag).map (s.words argv)) = argv
  runs : checked ≠ none → s.Vargv[0]? = some (some 0) ∧ ∀ j < s.frag, ∃ first n : Nat,
    s.Vargv[j]? = some (some first) ∧ s.Vargc[j]? = some (n : Int) ∧ 0 < n ∧
      if j + 1 < s.frag then s.Vargv[j + 1]? = some (some (first + n + 1))
      else first + n = argv.length

/- With no access outside the arrays. -/
def LineFaithful (COMMANDS : List Command) (argv : List CString) (Vargc : List Int)
    (Vargv : List (Option Nat)) : Prop :=
  ∃ s checked, splitArrays argv Vargc Vargv = some s ∧
    checkArrays COMMANDS argv s s.frag 0 = some checked ∧ SplitsLine COMMANDS argv s checked

section Offsets

/- How far the first fragments reach, with the sign behind each. -/
def reach (fs : List Fragment) : Nat := (fs.map fun f => f.Vargc + 1).sum

/- A fragment with words begins where those before it end. -/
def Located (fs : List Fragment) : Prop :=
  ∀ j f, fs[j]? = some f → f.Vargc ≠ 0 → f.Vargv = some (reach (fs.take j))

theorem reach_concat (fs : List Fragment) (f : Fragment) :
    reach (fs ++ [f]) = reach fs + (f.Vargc + 1) := by
  simp [reach]

theorem located_concat {fs : List Fragment} {f : Fragment} (located : Located fs)
    (last : f.Vargc ≠ 0 → f.Vargv = some (reach fs)) : Located (fs ++ [f]) := by
  intro j g here words
  rcases Nat.lt_trichotomy j fs.length with before | rfl | behind
  · rw [List.getElem?_append_left before] at here
    rw [List.take_append_of_le_length (Nat.le_of_lt before)]
    exact located j g here words
  · rw [List.getElem?_concat_length, Option.some.injEq] at here
    subst here
    rw [List.take_left]
    exact last words
  · rw [List.getElem?_eq_none (by simp; omega)] at here
    cases here

/-- Every word and every sign takes the position of the loop one further. -/
theorem split_loop_located (rest : List CString) : ∀ (i : Nat) (frag : Fragment)
    (done : List Fragment), Located done.reverse → i = reach done.reverse + frag.Vargc →
    (frag.Vargc ≠ 0 → frag.Vargv = some (reach done.reverse)) →
    Located (splitLoop i rest frag done) ∧
      reach (splitLoop i rest frag done) = i + rest.length + 1 := by
  induction rest with
  | nil =>
    intro i frag done located position first
    rw [splitLoop, List.reverse_cons, reach_concat]
    exact ⟨located_concat located first,by rw [position]; rfl⟩
  | cons w rest ih =>
    intro i frag done located position first
    rw [splitLoop, List.length_cons]
    split
    · have first' : (if frag.Vargc + 1 = 1 then some i else frag.Vargv) =
          some (reach done.reverse) := by
        by_cases none : frag.Vargc = 0
        · simp [none, position]
        · simp [none, first none]
      have next : i + 1 = reach done.reverse + (frag.Vargc + 1) := by omega
      obtain ⟨there,total⟩ := ih (i + 1)
        { Vargc := frag.Vargc + 1
          Vargv := if frag.Vargc + 1 = 1 then some i else frag.Vargv }
        done located next fun _ => first'
      exact ⟨there,by rw [total]; omega⟩
    · have located' : Located (frag :: done).reverse := by
        rw [List.reverse_cons]
        exact located_concat located first
      have next : i + 1 = reach (frag :: done).reverse + 0 := by
        rw [List.reverse_cons, reach_concat]
        omega
      obtain ⟨there,total⟩ := ih (i + 1) { Vargc := 0, Vargv := none } (frag :: done) located' next
        fun some' => absurd rfl some'
      exact ⟨there,by rw [total]; omega⟩

theorem split_line_located (argv : List CString) :
    Located (splitLine argv) ∧ reach (splitLine argv) = argv.length + 1 := by
  have whole := split_loop_located argv 0 { Vargc := 0, Vargv := none } [] nofun rfl
    fun words => absurd rfl words
  rwa [Nat.zero_add] at whole

theorem split_loop_length (rest : List CString) : ∀ (i : Nat) (frag : Fragment)
    (done : List Fragment),
    (splitLoop i rest frag done).length = done.length + rest.countP isSign + 1 := by
  induction rest with
  | nil =>
    intro i frag done
    simp [splitLoop]
  | cons w rest ih =>
    intro i frag done
    rw [splitLoop, List.countP_cons]
    split
    · rename_i ordinary
      rw [ih]
      simp [isSign, ordinary]
    · rename_i sign
      rw [ih]
      simp [isSign, not_not.mp sign]
      omega

end Offsets

section Arrays
variable {s s' : Splitting} {argv rest : List CString} {fs done : List Fragment} {frag : Fragment}
  {i j : Nat} {w : CString}

/- The arrays hold the fragments, but Vargv has no value for an empty one. -/
structure Holds (s : Splitting) (fs : List Fragment) : Prop where
  counts : ∀ (j : Nat) (f : Fragment), fs[j]? = some f → s.Vargc[j]? = some (f.Vargc : Int)
  starts : ∀ (j : Nat) (f : Fragment), fs[j]? = some f → f.Vargc ≠ 0 → s.Vargv[j]? = some f.Vargv

theorem store_some {β : Type} {a : List β} (inside : j < a.length) (x : β) :
    store a j x = some (a.set j x) := if_pos inside

theorem store_none {β : Type} {a : List β} (outside : a.length ≤ j) (x : β) :
    store a j x = none := if_neg (Nat.not_lt.mpr outside)

theorem holds_front (holds : Holds s (fs ++ [frag])) : Holds s fs := by
  have places {j : Nat} {f : Fragment} (here : fs[j]? = some f) : (fs ++ [frag])[j]? = some f := by
    obtain ⟨bound,_⟩ := List.getElem?_eq_some_iff.mp here
    rwa [List.getElem?_append_left bound]
  exact ⟨fun j f here => holds.counts j f (places here),
    fun j f here => holds.starts j f (places here)⟩

/-- The fragment behind those that are held is written. -/
theorem holds_concat (holds : Holds s fs) (inside : fs.length < s.Vargc.length)
    (counts : s'.Vargc = s.Vargc.set fs.length frag.Vargc)
    (starts : frag.Vargc ≠ 0 → s'.Vargv[fs.length]? = some frag.Vargv)
    (others : ∀ j < fs.length, s'.Vargv[j]? = s.Vargv[j]?) : Holds s' (fs ++ [frag]) := by
  have places {j : Nat} {f : Fragment} (here : (fs ++ [frag])[j]? = some f) :
      j < fs.length ∧ fs[j]? = some f ∨ j = fs.length ∧ f = frag := by
    rcases Nat.lt_trichotomy j fs.length with before | rfl | behind
    · rw [List.getElem?_append_left before] at here
      exact Or.inl ⟨before,here⟩
    · rw [List.getElem?_concat_length, Option.some.injEq] at here
      exact Or.inr ⟨rfl,here.symm⟩
    · rw [List.getElem?_eq_none (by simp; omega)] at here
      cases here
  constructor
  · intro j f here
    rcases places here with ⟨before,same⟩ | ⟨rfl,rfl⟩
    · rw [counts, List.getElem?_set_ne (by omega)]
      exact holds.counts j f same
    · rw [counts, List.getElem?_set_self inside]
  · intro j f here words
    rcases places here with ⟨before,same⟩ | ⟨rfl,rfl⟩
    · rw [others j before]
      exact holds.starts j f same words
    · exact starts words

/- N is the number of the elements, and frag stands for the last of fs. -/
structure Splits (N : Nat) (s : Splitting) (fs : List Fragment) (frag : Fragment) : Prop where
  holds : Holds s (fs ++ [frag])
  index : s.frag = fs.length
  inside : fs.length < N
  sizes : s.Vargc.length = N ∧ s.Vargv.length = N

theorem word_splits {N : Nat} (splits : Splits N s fs frag) (ordinary : w.val ≠ pipeSign) :
    ∃ s', splitWord i s w = some s' ∧ Splits N s' fs
      { Vargc := frag.Vargc + 1
        Vargv := if frag.Vargc + 1 = 1 then some i else frag.Vargv } := by
  obtain ⟨holds,index,inside,counts,starts⟩ := splits
  have last : (fs ++ [frag])[fs.length]? = some frag := List.getElem?_concat_length
  have count := holds.counts _ _ last
  have front := holds_front holds
  rw [← counts] at inside
  by_cases first : frag.Vargc = 0
  · have within : fs.length < s.Vargv.length := by omega
    refine ⟨⟨s.Vargc.set fs.length 1,s.Vargv.set fs.length (some i),s.frag⟩,?_,?_⟩
    · simp [splitWord, ordinary, index, count, first, store_some inside, store_some within]
    · refine ⟨holds_concat front inside ?_ (fun _ => ?_) fun j before => ?_,index,by omega,?_⟩
      · simp [first]
      · simp [first, within]
      · exact List.getElem?_set_ne (by omega)
      · simp [counts, starts]
  · refine ⟨⟨s.Vargc.set fs.length (frag.Vargc + 1),s.Vargv,s.frag⟩,?_,?_⟩
    · have more : (frag.Vargc : Int) + 1 ≠ 1 := by omega
      simp [splitWord, ordinary, index, count, first, store_some inside]
    · refine ⟨holds_concat front inside ?_ (fun _ => ?_) fun j before => rfl,index,by omega,?_⟩
      · simp
      · simpa [first] using holds.starts _ _ last first
      · simp [counts, starts]

theorem sign_splits {N : Nat} (splits : Splits N s fs frag) (sign : w.val = pipeSign)
    (room : fs.length + 1 < N) : ∃ s', splitWord i s w = some s' ∧
      Splits N s' (fs ++ [frag]) { Vargc := 0, Vargv := none } := by
  obtain ⟨holds,index,_,counts,starts⟩ := splits
  have length : (fs ++ [frag]).length = fs.length + 1 := by simp
  rw [← counts] at room
  refine ⟨⟨s.Vargc.set (fs.length + 1) 0,s.Vargv,s.frag + 1⟩,?_,?_⟩
  · simp [splitWord, sign, index, store_some room]
  · refine ⟨holds_concat holds (by omega) ?_ (fun some' => absurd rfl some') fun j _ => rfl,?_,
      by omega,?_⟩
    · rw [length]
      rfl
    · rw [length, ← index]
    · simp [counts, starts]

/-- The sign that begins one fragment more than there are elements is written behind the array. -/
theorem sign_faults {N : Nat} (splits : Splits N s fs frag) (sign : w.val = pipeSign)
    (full : N ≤ fs.length + 1) : splitWord i s w = none := by
  have outside : s.Vargc.length ≤ fs.length + 1 := by rw [splits.sizes.1]; exact full
  simp [splitWord, sign, splits.index, store_none outside]

/-- The arrays suffice if and only if the signs that are left leave room for a fragment. -/
theorem split_words_spec {N : Nat} (rest : List CString) : ∀ (i : Nat) (s : Splitting)
    (frag : Fragment) (done : List Fragment), Splits N s done.reverse frag →
    (done.length + rest.countP isSign < N → ∃ s', splitWords i rest s = some s' ∧
      s'.frag = (splitLoop i rest frag done).length ∧ Holds s' (splitLoop i rest frag done)) ∧
    (N ≤ done.length + rest.countP isSign → splitWords i rest s = none) := by
  induction rest with
  | nil =>
    intro i s frag done splits
    have inside := splits.inside
    have index := splits.index
    rw [List.length_reverse] at inside index
    refine ⟨fun _ => ⟨_,rfl,?_,?_⟩,fun full => ?_⟩
    · simp [splitLoop, index]
    · rw [splitLoop, List.reverse_cons]
      exact ⟨splits.holds.counts,splits.holds.starts⟩
    · simp at full
      omega
  | cons w rest ih =>
    intro i s frag done splits
    by_cases sign : w.val = pipeSign
    · have one : (w :: rest).countP isSign = rest.countP isSign + 1 := by
        simp [isSign, sign]
      by_cases room : done.length + 1 < N
      · obtain ⟨s',run,splits'⟩ := sign_splits (i := i) splits sign (by simpa using room)
        rw [← List.reverse_cons] at splits'
        obtain ⟨fits,faults⟩ := ih (i + 1) s' _ _ splits'
        rw [List.length_cons] at fits faults
        have loop : splitLoop i (w :: rest) frag done =
            splitLoop (i + 1) rest { Vargc := 0, Vargv := none } (frag :: done) := by
          rw [splitLoop, if_neg (not_not.mpr sign)]
        rw [loop, splitWords, run, one]
        exact ⟨fun few => fits (by omega),fun full => faults (by omega)⟩
      · have fault : splitWord i s w = none :=
          sign_faults splits sign (by rw [List.length_reverse]; omega)
        rw [splitWords, fault, one]
        exact ⟨fun few => by omega,fun _ => rfl⟩
    · have same : (w :: rest).countP isSign = rest.countP isSign := by
        simp [isSign, sign]
      obtain ⟨s',run,splits'⟩ := word_splits (i := i) splits sign
      obtain ⟨fits,faults⟩ := ih (i + 1) s' _ _ splits'
      rw [splitLoop, if_pos sign, splitWords, run, same]
      exact ⟨fits,faults⟩

end Arrays

section Checks
variable {COMMANDS : List Command} {s : Splitting} {argv : List CString} {fs : List Fragment}
  {f : Fragment} {j : Nat}

theorem holds_words (holds : Holds s fs) (here : fs[j]? = some f) :
    s.words argv j = f.words argv := by
  rw [Splitting.words, holds.counts j f here, Fragment.words]
  by_cases empty : f.Vargc = 0
  · simp [empty]
  · rw [holds.starts j f here empty]
    rfl

theorem reach_take (here : fs[j]? = some f) :
    reach (fs.take (j + 1)) = reach (fs.take j) + (f.Vargc + 1) := by
  rw [List.take_add_one, here]
  exact reach_concat _ f

theorem reach_inside (here : fs[j]? = some f) : reach (fs.take j) + (f.Vargc + 1) ≤ reach fs := by
  have split : reach fs = reach (fs.take (j + 1)) + reach (fs.drop (j + 1)) := by
    rw [reach, reach, reach, ← List.sum_append, ← List.map_append, List.take_append_drop]
  rw [split, reach_take here]
  exact Nat.le_add_right _ _

/-- The checks over the arrays are those of the fragments that they hold. -/
theorem check_arrays_spec (holds : Holds s fs) (located : Located fs)
    (total : reach fs = argv.length + 1) (left : Nat) : ∀ i, i + left = fs.length →
    checkArrays COMMANDS argv s left i = some ((fs.drop i).mapM (checkFragment COMMANDS argv)) := by
  induction left with
  | zero =>
    intro i all
    rw [List.drop_eq_nil_of_le (by omega)]
    rfl
  | succ left ih =>
    intro i more
    have bound : i < fs.length := by omega
    have here : fs[i]? = some fs[i] := List.getElem?_eq_getElem bound
    have later := ih (i + 1) (by omega)
    have counts := holds.counts i _ here
    rw [List.drop_eq_getElem_cons bound, List.mapM_cons]
    by_cases empty : fs[i].Vargc = 0
    · simp [checkArrays, counts, empty, checkFragment, Fragment.words]
    · have start := located i _ here empty
      have starts := holds.starts i _ here empty
      have inside := reach_inside here
      rw [start] at starts
      have word : reach (fs.take i) < argv.length := by omega
      have head : (fs[i].words argv).head? = argv[reach (fs.take i)]? := by
        rw [Fragment.words, start, Option.getD_some, List.head?_take, if_neg empty,
          List.head?_drop]
      have name := List.getElem?_eq_getElem word
      simp only [checkArrays, counts, starts, name, later, checkFragment, head,
        Option.bind_eq_bind, Option.bind_some, Int.natCast_eq_zero, empty, if_false]
      cases COMMANDS.find? (·.cmdname = argv[reach (fs.take i)]) with
      | none => rfl
      | some command =>
        simp only [Option.bind_some, Int.toNat_natCast, Fragment.words, start, Option.getD_some]
        cases (fs.drop (i + 1)).mapM (checkFragment COMMANDS argv) <;> rfl

theorem checks_fail_iff (fs : List Fragment) : fs.mapM (checkFragment COMMANDS argv) = none ↔
    ∃ f ∈ fs, checkFragment COMMANDS argv f = none := by
  induction fs with
  | nil => simp
  | cons f fs ih =>
    rw [List.mapM_cons, List.exists_mem_cons_iff, ← ih]
    cases checkFragment COMMANDS argv f with
    | none => simp
    | some e => cases fs.mapM (checkFragment COMMANDS argv) <;> simp

theorem check_fails_iff (f : Fragment) : checkFragment COMMANDS argv f = none ↔
    f.words argv = [] ∨ ∃ name, (f.words argv).head? = some name ∧
      ∀ command ∈ COMMANDS, command.cmdname ≠ name := by
  unfold checkFragment
  cases words : f.words argv with
  | nil => simp
  | cons name rest =>
    cases found : COMMANDS.find? (·.cmdname = name) with
    | none =>
      have others := List.find?_eq_none.mp found
      simp only [List.head?_cons, Option.bind_eq_bind, Option.bind_some, found, Option.bind_none,
        reduceCtorEq, false_or, true_iff]
      exact ⟨name,rfl,fun command member => by simpa using others command member⟩
    | some command =>
      have named := List.find?_some found
      have member := List.mem_of_find?_eq_some found
      simp only [List.head?_cons, Option.bind_eq_bind, Option.bind_some, found, reduceCtorEq,
        false_or, false_iff]
      rintro ⟨name',same,others⟩
      cases same
      exact others command member (by simpa using named)

theorem held_words (argv : List CString) (holds : Holds s fs) :
    (List.range fs.length).map (s.words argv) = fs.map (Fragment.words argv) := by
  refine List.ext_getElem (by simp) fun j one two => ?_
  have bound : j < fs.length := by simpa using two
  simpa using holds_words holds (List.getElem?_eq_getElem bound)

theorem words_intercalate (argv : List CString) :
    [pipeWord].intercalate ((splitLine argv).map (Fragment.words argv)) = argv := by
  have same : (fun w : CString => decide (w.val = pipeSign)) =
      fun w => w == pipeWord := by
    funext w
    rw [Bool.eq_iff_iff, decide_eq_true_iff, beq_iff_eq, Subtype.ext_iff]
    rfl
  have whole : [pipeWord].intercalate (argv.splitOn pipeWord) = argv :=
    List.intercalate_splitOn pipeWord
  rw [List.splitOn_eq_splitOnP, ← same] at whole
  exact (congrArg _ (split_line_words argv)).trans whole

theorem begin_splits {argv : List CString} {Vargc : List Int} {Vargv : List (Option Nat)}
    (some' : argv ≠ []) (counts : Vargc.length = argv.length)
    (starts : Vargv.length = argv.length) : splitArrays argv Vargc Vargv =
      splitWords 0 argv { Vargc := Vargc.set 0 0, Vargv := Vargv, frag := 0 } ∧
    Splits argv.length { Vargc := Vargc.set 0 0, Vargv := Vargv, frag := 0 } []
      { Vargc := 0, Vargv := none } := by
  have inside : 0 < Vargc.length := counts ▸ List.length_pos_iff.mpr some'
  have empty : Holds { Vargc := Vargc, Vargv := Vargv, frag := 0 } [] := ⟨nofun,nofun⟩
  refine ⟨by rw [splitArrays, store_some inside]; rfl,?_,rfl,counts ▸ inside,?_,starts⟩
  · exact holds_concat empty inside rfl (fun words => absurd rfl words) nofun
  · rw [List.length_set, counts]

/-- What the arrays hold after the loop. -/
theorem held_splits (COMMANDS : List Command) (holds : Holds s (splitLine argv))
    (frag : s.frag = (splitLine argv).length) :
    checkArrays COMMANDS argv s s.frag 0 = some (fragments COMMANDS argv) ∧
      SplitsLine COMMANDS argv s (fragments COMMANDS argv) := by
  obtain ⟨located,total⟩ := split_line_located argv
  have words := held_words argv holds
  have place {j : Nat} (bound : j < s.frag) : ∃ f ∈ splitLine argv, (splitLine argv)[j]? = some f ∧
      s.words argv j = f.words argv := by
    rw [frag] at bound
    have here := List.getElem?_eq_getElem bound
    exact ⟨_,List.getElem_mem bound,here,holds_words holds here⟩
  have fails : fragments COMMANDS argv = none ↔ ∃ j < s.frag, s.words argv j = [] ∨
      ∃ name, (s.words argv j).head? = some name ∧
        ∀ command ∈ COMMANDS, command.cmdname ≠ name := by
    rw [fragments, checks_fail_iff]
    constructor
    · rintro ⟨f,member,bad⟩
      obtain ⟨j,bound,rfl⟩ := List.getElem_of_mem member
      rw [check_fails_iff, ← holds_words holds (List.getElem?_eq_getElem bound)] at bad
      exact ⟨j,frag ▸ bound,bad⟩
    · rintro ⟨j,bound,bad⟩
      obtain ⟨f,member,_,same⟩ := place bound
      rw [same, ← check_fails_iff] at bad
      exact ⟨f,member,bad⟩
  refine ⟨?_,?_,fails,fun frags run => ?_,?_,fun passed => ?_⟩
  · rw [frag]
    exact check_arrays_spec holds located total _ 0 (Nat.zero_add _)
  · rw [frag, splitLine, split_loop_length]
    simp
  · rw [frag, words, (fragments_words run).1, split_line_words]
  · rw [frag, words]
    exact words_intercalate argv
  · have full {j : Nat} {f : Fragment} (here : (splitLine argv)[j]? = some f) : f.Vargc ≠ 0 := by
      intro none
      have bound := (List.getElem?_eq_some_iff.mp here).1
      refine passed (fails.mpr ⟨j,frag ▸ bound,Or.inl ?_⟩)
      rw [holds_words holds here, Fragment.words, none, List.take_zero]
    have start {j : Nat} {f : Fragment} (here : (splitLine argv)[j]? = some f) :
        s.Vargv[j]? = some (some (reach ((splitLine argv).take j))) := by
      rw [holds.starts j f here (full here), located j f here (full here)]
    refine ⟨?_,fun j bound => ?_⟩
    · have some' : 0 < s.frag := by
        rw [frag, splitLine, split_loop_length]
        omega
      obtain ⟨f,_,here,_⟩ := place some'
      exact start here
    · obtain ⟨f,_,here,_⟩ := place bound
      refine ⟨_,f.Vargc,start here,holds.counts j f here,Nat.pos_of_ne_zero (full here),?_⟩
      have next := reach_take here
      split
      · rename_i more
        obtain ⟨g,_,there,_⟩ := place more
        rw [start there, next, Nat.add_assoc]
      · have last : (splitLine argv).length ≤ j + 1 := by omega
        rw [List.take_of_length_le last, total] at next
        omega

/-- process_line meets its arrays if and only if some token is not the sign: with signs only there
    is one fragment more than there are elements. -/
theorem line_faithful_iff (COMMANDS : List Command) {argv : List CString} (some' : argv ≠ [])
    {Vargc : List Int} {Vargv : List (Option Nat)} (counts : Vargc.length = argv.length)
    (starts : Vargv.length = argv.length) :
    LineFaithful COMMANDS argv Vargc Vargv ↔ ∃ w ∈ argv, w.val ≠ pipeSign := by
  obtain ⟨begins,splits⟩ := begin_splits some' counts starts
  obtain ⟨fits,faults⟩ := split_words_spec argv 0 _ _ [] splits
  rw [List.length_nil, Nat.zero_add, ← begins] at fits faults
  have room : argv.countP isSign < argv.length ↔ ∃ w ∈ argv, w.val ≠ pipeSign := by
    simp [List.countP_lt_length_iff, isSign]
  rw [← room]
  constructor
  · rintro ⟨s,checked,run,_⟩
    by_contra full
    rw [faults (Nat.not_lt.mp full)] at run
    cases run
  · intro few
    obtain ⟨s,run,frag,holds⟩ := fits few
    obtain ⟨checks,line⟩ := held_splits COMMANDS holds frag
    exact ⟨s,_,run,checks,line⟩

/- ls | wc, with whatever the arrays hold at first. -/
theorem line_faithful_two : LineFaithful programs listAndCount [7,-1,0] [none,some 9,none] ∧
    splitArrays listAndCount [7,-1,0] [none,some 9,none] =
      some { Vargc := [1,1,0], Vargv := [some 0,some 2,none], frag := 2 } := by
  have counts : ([7,-1,0] : List Int).length = listAndCount.length := rfl
  have starts : ([none,some 9,none] : List (Option Nat)).length = listAndCount.length := rfl
  have word : ∃ w ∈ listAndCount, w.val ≠ pipeSign := ⟨ls,by decide,by decide⟩
  exact ⟨(line_faithful_iff programs (by decide) counts starts).mpr word,by decide⟩

/-- The line of one sign: Vargc[1] is written, and Vargc has one element. -/
theorem sign_line_faults : splitArrays [pipeWord] [0] [none] = none ∧
    ¬ LineFaithful programs [pipeWord] [0] [none] := by
  have fault : splitArrays [pipeWord] [0] [none] = none := by decide
  refine ⟨fault,?_⟩
  rintro ⟨s,checked,run,_⟩
  rw [fault] at run
  cases run

end Checks
end Pipeline
