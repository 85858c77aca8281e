import Mathlib

/- The packing of string vectors into argument buffers, of util.h. A pointer into a buffer is what
   lies from it to the end of the buffer, where a further read would be out of bounds (none). -/
namespace ArgVector

abbrev Byte := UInt8

/- The bytes of a string without its terminating zero. -/
abbrev CString := { s : List Byte // 0 ∉ s }

def toInt (n : Int) : Int := n.bmod (2 ^ 32)

def toSize (n : Int) : Nat := (n % 2 ^ 64).toNat

def argvlen (argv : List CString) : Nat := argv.foldl (fun l s => l + (s.val.length + 1)) 0

/- The loop of argvpack: what it has counted, and the bytes that it has written. -/
def packLoop : List CString → Int × List Byte
  | [] => (0, [])
  | s :: argv =>
    let (argl, pos) := packLoop argv
    (toInt (argl + s.val.length), s.val ++ 0 :: pos)

def argvpack (argv : List CString) : Nat × List Byte :=
  let (argl, args) := packLoop argv
  (toSize (toSize argl + argv.length), args)

/- Over the first i bytes. -/
def countLoop : Nat → List Byte → Option Nat
  | 0, _ => some 0
  | _ + 1, [] => none
  | i + 1, b :: a => (countLoop i a).map fun n => if b = 0 then n + 1 else n

/- A length that is passed for argl becomes an int. -/
def argscount (argl : Int) (args : List Byte) : Option Nat := countLoop (toInt argl).toNat args

def skipString : List Byte → Option (List Byte)
  | [] => none
  | b :: a => if b = 0 then some a else skipString a

/- The pointers for argv, and the first location not unpacked. -/
def argvunpack : Nat → List Byte → Option (List (List Byte) × List Byte)
  | 0, a => some ([], a)
  | argc + 1, a => do
    let next ← skipString a
    let (argv, last) ← argvunpack argc next
    some (a :: argv, last)

/- The string that a pointer points to. -/
def stringAt : List Byte → Option (List Byte)
  | [] => none
  | b :: a => if b = 0 then some [] else (stringAt a).map (b :: ·)

def packed (argv : List CString) : List Byte := argv.flatMap fun s => s.val ++ [0]

/- The strings that argscount finds in a buffer are unpacked and packed again. -/
def Repacks (b : List Byte) : Prop :=
  ∃ argc pointers last, ∃ argv : List CString, argscount b.length b = some argc ∧
    argvunpack argc b = some (pointers,last) ∧
    (pointers.map stringAt = argv.map fun s => some s.val) ∧ (argvpack argv).2 = b

section Packing
variable {argv : List CString}

theorem toInt_range {n : Int} (low : -2 ^ 31 ≤ n) (high : n < 2 ^ 31) : toInt n = n := by
  unfold toInt
  rw [Int.bmod_eq_of_le] <;> omega

theorem toInt_small {n : Nat} (small : n < 2 ^ 31) : toInt n = n :=
  toInt_range (by omega) (by omega)

theorem toInt_below (n : Int) : toInt n < 2 ^ 31 := by
  unfold toInt
  have bound := Int.bmod_lt (x := n) (m := 2 ^ 32) (by decide)
  omega

/-- Conversion to int makes a length smaller that does not fit. -/
theorem toInt_large {n : Nat} (large : 2 ^ 31 ≤ n) : (toInt n).toNat < n := by
  have below := toInt_below n
  omega

theorem toInt_le (n : Nat) : toInt n ≤ n := by
  by_cases small : n < 2 ^ 31
  · exact (toInt_small small).le
  · have below := toInt_below n
    omega

theorem toSize_small {n : Nat} (small : n < 2 ^ 31) : toSize n = n := by
  unfold toSize
  rw [Int.emod_eq_of_lt (by omega) (by omega), Int.toNat_natCast]

@[simp] theorem packed_nil : packed [] = [] := rfl

@[simp] theorem packed_cons (s : CString) (argv : List CString) :
    packed (s :: argv) = s.val ++ 0 :: packed argv := by
  simp [packed]

theorem argvpack_bytes (argv : List CString) : (argvpack argv).2 = packed argv := by
  unfold argvpack
  induction argv with
  | nil => rfl
  | cons s argv ih => simpa [packLoop] using ih

theorem argvlen_packed (argv : List CString) : argvlen argv = (packed argv).length := by
  have loop (argv : List CString) : ∀ l : Nat,
      argv.foldl (fun l s => l + (s.val.length + 1)) l = l + (packed argv).length := by
    induction argv with
    | nil => exact fun l => rfl
    | cons s argv ih =>
      intro l
      rw [List.foldl_cons, ih, packed_cons, List.length_append, List.length_cons]
      omega
  exact (loop argv 0).trans (Nat.zero_add _)

/-- Every string has one zero. -/
theorem packed_zeros (argv : List CString) : (packed argv).count 0 = argv.length := by
  induction argv with
  | nil => rfl
  | cons s argv ih =>
    rw [packed_cons, List.count_append, List.count_eq_zero.mpr s.property, List.count_cons_self,
      ih, List.length_cons, Nat.zero_add]

theorem packed_last (argv : List CString) : packed argv = [] ∨ ∃ a, packed argv = a ++ [0] := by
  induction argv with
  | nil => exact Or.inl rfl
  | cons s argv ih =>
    refine Or.inr ?_
    rw [packed_cons]
    rcases ih with empty | ⟨a,last⟩
    · exact ⟨s.val,by rw [empty]⟩
    · exact ⟨s.val ++ 0 :: a,by rw [last, List.append_assoc, List.cons_append]⟩

theorem countLoop_append (a rest : List Byte) :
    countLoop a.length (a ++ rest) = some (a.count 0) := by
  induction a with
  | nil => rfl
  | cons b a ih =>
    rw [List.length_cons, List.cons_append, countLoop, ih, Option.map_some, List.count_cons]
    by_cases zero : b = 0
    · simp [zero]
    · simp [zero]

theorem argscount_append {a : List Byte} (small : a.length < 2 ^ 31) (rest : List Byte) :
    argscount a.length (a ++ rest) = some (a.count 0) := by
  rw [argscount, toInt_small small, Int.toNat_natCast, countLoop_append]

theorem argscount_packed {argv : List CString} (small : (packed argv).length < 2 ^ 31)
    (rest : List Byte) :
    argscount (packed argv).length (packed argv ++ rest) = some argv.length := by
  rw [argscount_append small, packed_zeros]

theorem countLoop_take (i : Nat) {a : List Byte} {n : Nat} (run : countLoop i a = some n) :
    n = (a.take i).count 0 := by
  induction i generalizing a n with
  | zero =>
    cases run
    rfl
  | succ i ih =>
    cases a with
    | nil => cases run
    | cons b a =>
      simp only [countLoop, Option.map_eq_some_iff] at run
      obtain ⟨m,rest,rfl⟩ := run
      rw [List.take_succ_cons, List.count_cons, ← ih rest]
      by_cases zero : b = 0
      · simp [zero]
      · simp [zero]

theorem skip_string {s : List Byte} (free : 0 ∉ s) (rest : List Byte) :
    skipString (s ++ 0 :: rest) = some rest := by
  induction s with
  | nil => rfl
  | cons b s ih =>
    obtain ⟨first,others⟩ := List.ne_and_not_mem_of_not_mem_cons free
    rw [List.cons_append, skipString, if_neg first.symm, ih others]

theorem string_at {s : List Byte} (free : 0 ∉ s) (rest : List Byte) :
    stringAt (s ++ 0 :: rest) = some s := by
  induction s with
  | nil => rfl
  | cons b s ih =>
    obtain ⟨first,others⟩ := List.ne_and_not_mem_of_not_mem_cons free
    rw [List.cons_append, stringAt, if_neg first.symm, ih others, Option.map_some]

/-- Unpacking gives the strings back, in order. -/
theorem argvunpack_packed (argv : List CString) (rest : List Byte) :
    ∃ pointers, argvunpack argv.length (packed argv ++ rest) = some (pointers,rest) ∧
      pointers.map stringAt = argv.map fun s => some s.val := by
  induction argv with
  | nil => exact ⟨[],rfl,rfl⟩
  | cons s argv ih =>
    obtain ⟨pointers,run,strings⟩ := ih
    have split : packed (s :: argv) ++ rest = s.val ++ 0 :: (packed argv ++ rest) := by
      rw [packed_cons, List.append_assoc, List.cons_append]
    refine ⟨(packed (s :: argv) ++ rest) :: pointers,?_,?_⟩
    · rw [List.length_cons, argvunpack, split, skip_string s.property]
      simp only [run, Option.bind_eq_bind, Option.bind_some]
    · rw [List.map_cons, List.map_cons, split, string_at s.property, strings]

/-- The first strings alone. -/
theorem argvunpack_take (argv : List CString) (k : Nat) (few : k ≤ argv.length)
    (rest : List Byte) : ∃ pointers last,
      argvunpack k (packed argv ++ rest) = some (pointers,last) ∧ pointers.length = k ∧
      pointers.map stringAt = (argv.take k).map fun s => some s.val := by
  have split : packed argv ++ rest = packed (argv.take k) ++ (packed (argv.drop k) ++ rest) := by
    rw [← List.append_assoc, packed, packed, packed, ← List.flatMap_append, List.take_append_drop]
  obtain ⟨pointers,run,strings⟩ := argvunpack_packed (argv.take k) (packed (argv.drop k) ++ rest)
  rw [List.length_take_of_le few, ← split] at run
  refine ⟨pointers,_,run,?_,strings⟩
  simpa [few] using congrArg List.length strings

/-- A part of the packed vector lacks its last zero. -/
theorem part_zeros {a b : List Byte} (split : packed argv = a ++ b) (part : b ≠ []) :
    a.count 0 < argv.length := by
  have last : ∃ c, b = c ++ [0] := by
    rcases packed_last argv with empty | ⟨d,last⟩
    · rw [split] at empty
      exact absurd (List.append_eq_nil_iff.mp empty).2 part
    · refine ⟨b.dropLast,?_⟩
      have same : (a ++ b).getLast? = some 0 := by
        rw [← split, last, List.getLast?_concat]
      rw [List.getLast?_append_of_ne_nil _ part] at same
      exact (List.dropLast_append_getLast? 0 same).symm
  obtain ⟨c,rfl⟩ := last
  have zeros := packed_zeros argv
  rw [split, List.count_append, List.count_append] at zeros
  simp only [List.count_singleton_self] at zeros
  omega

/-- The characters are counted without their zeros. -/
theorem packLoop_count {argv : List CString} (small : (packed argv).length < 2 ^ 31) :
    ((packLoop argv).1 = ((packed argv).length - argv.length : Nat)) ∧
      argv.length ≤ (packed argv).length := by
  induction argv with
  | nil => exact ⟨rfl,le_refl 0⟩
  | cons s argv ih =>
    have length : (packed (s :: argv)).length = s.val.length + 1 + (packed argv).length := by
      rw [packed_cons, List.length_append, List.length_cons]
      omega
    obtain ⟨count,few⟩ := ih (by omega)
    have sum : ((packed argv).length - argv.length : Nat) + (s.val.length : Int) =
        ((packed (s :: argv)).length - (s :: argv).length : Nat) := by
      rw [length, List.length_cons]
      omega
    refine ⟨?_,by rw [length, List.length_cons]; omega⟩
    simp only [packLoop, count, sum]
    exact toInt_small (by omega)

theorem argvpack_length (small : argvlen argv < 2 ^ 31) : (argvpack argv).1 = argvlen argv := by
  rw [argvlen_packed] at small ⊢
  obtain ⟨count,few⟩ := packLoop_count small
  simp only [argvpack, count]
  rw [toSize_small (by omega)]
  have sum : (((packed argv).length - argv.length : Nat) : Int) + (argv.length : Int) =
      ((packed argv).length : Nat) := by omega
  rw [sum, toSize_small small]

/-- A buffer that is empty or ends in a zero is the packing of some strings. -/
theorem packed_of_ends {b : List Byte} (ends : b = [] ∨ ∃ a, b = a ++ [0]) :
    ∃ argv, packed argv = b := by
  induction b with
  | nil => exact ⟨[],rfl⟩
  | cons c b ih =>
    have last : (c :: b).getLast? = some 0 := by
      obtain ⟨a,same⟩ := ends.resolve_left (List.cons_ne_nil c b)
      rw [same, List.getLast?_concat]
    have rest : b = [] ∨ ∃ a, b = a ++ [0] := by
      refine or_iff_not_imp_left.mpr fun more => ⟨b.dropLast,?_⟩
      rw [List.getLast?_cons_of_ne_nil more] at last
      exact (List.dropLast_append_getLast? 0 last).symm
    obtain ⟨argv,rfl⟩ := ih rest
    by_cases zero : c = 0
    · exact ⟨⟨[],List.not_mem_nil⟩ :: argv,by rw [packed_cons, zero]; rfl⟩
    · cases argv with
      | nil =>
        simp only [packed_nil, List.getLast?_singleton, Option.some.injEq] at last
        exact absurd last zero
      | cons s argv =>
        refine ⟨⟨c :: s.val,?_⟩ :: argv,by rw [packed_cons, packed_cons]; rfl⟩
        rintro (_ | member)
        · exact zero rfl
        · exact s.property (by assumption)

theorem argvunpack_length {argc : Nat} {b last : List Byte} {pointers : List (List Byte)}
    (run : argvunpack argc b = some (pointers,last)) : pointers.length = argc := by
  induction argc generalizing b pointers with
  | zero =>
    cases run
    rfl
  | succ argc ih =>
    simp only [argvunpack, Option.bind_eq_bind, Option.bind_eq_some_iff] at run
    obtain ⟨next,_,⟨argv,last'⟩,rest,same⟩ := run
    cases same
    rw [List.length_cons, ih rest]

/-- A buffer that is too long for an int has more strings than argscount finds. -/
theorem not_repacks {b : List Byte} (ends : b = [] ∨ ∃ a, b = a ++ [0])
    (large : 2 ^ 31 ≤ b.length) : ¬ Repacks b := by
  rintro ⟨argc,pointers,last,argv,counted,run,strings,again⟩
  obtain ⟨strs,rfl⟩ := packed_of_ends ends
  rw [argvpack_bytes] at again
  have split := (List.take_append_drop (toInt (packed strs).length).toNat (packed strs)).symm
  have fewer := part_zeros split (by
    rw [ne_eq, List.drop_eq_nil_iff, not_le]
    exact toInt_large large)
  rw [← countLoop_take _ counted] at fewer
  have found : argv.length = argc := by
    rw [← argvunpack_length run]
    simpa using (congrArg List.length strings).symm
  have zeros := congrArg (List.count 0) again
  rw [packed_zeros, packed_zeros] at zeros
  omega

theorem unpacks_packed {argv : List CString} (small : (packed argv).length < 2 ^ 31) :
    argscount (packed argv).length (packed argv) = some argv.length ∧
      ∃ pointers, argvunpack argv.length (packed argv) = some (pointers,[]) ∧
        pointers.map stringAt = argv.map fun s => some s.val := by
  have counted := argscount_packed small []
  have unpacked := argvunpack_packed argv []
  rw [List.append_nil] at counted unpacked
  exact ⟨counted,unpacked⟩

/-- Packing and unpacking are inverse to each other, of strings that fit an int; and of the buffers
    that are empty or end in a zero those that fit an int are got back. -/
theorem argv_round_trip (argv : List CString) (b : List Byte) :
    (argvlen argv < 2 ^ 31 →
      (argvpack argv).2.length = argvlen argv ∧ (argvpack argv).1 = argvlen argv ∧
      argscount (argvlen argv) (argvpack argv).2 = some argv.length ∧
      ∃ pointers, argvunpack argv.length (argvpack argv).2 = some (pointers,[]) ∧
        pointers.map stringAt = argv.map fun s => some s.val) ∧
    ((b = [] ∨ ∃ a, b = a ++ [0]) →
      (Repacks b ↔ b.length < 2 ^ 31) ∧
      (b.length < 2 ^ 31 → ∃ argc pointers, ∃ argv : List CString,
        argscount b.length b = some argc ∧ argvunpack argc b = some (pointers,[]) ∧
        (pointers.map stringAt = argv.map fun s => some s.val) ∧
        argvpack argv = (b.length,b))) := by
  refine ⟨fun small => ?_,fun ends => ?_⟩
  · have length := argvpack_length small
    rw [argvlen_packed] at small length ⊢
    obtain ⟨counted,unpacked⟩ := unpacks_packed small
    rw [argvpack_bytes]
    exact ⟨rfl,length,counted,unpacked⟩
  · have whole (small : b.length < 2 ^ 31) : ∃ argc pointers, ∃ argv : List CString,
        argscount b.length b = some argc ∧ argvunpack argc b = some (pointers,[]) ∧
        (pointers.map stringAt = argv.map fun s => some s.val) ∧
        argvpack argv = (b.length,b) := by
      obtain ⟨argv,rfl⟩ := packed_of_ends ends
      obtain ⟨counted,pointers,unpacked,strings⟩ := unpacks_packed small
      have length := argvpack_length ((argvlen_packed argv).trans_lt small)
      rw [argvlen_packed] at length
      exact ⟨argv.length,pointers,argv,counted,unpacked,strings,
        Prod.ext length (argvpack_bytes argv)⟩
    refine ⟨⟨fun repacks => ?_,fun small => ?_⟩,whole⟩
    · by_contra large
      exact not_repacks ends (Nat.not_lt.mp large) repacks
    · obtain ⟨argc,pointers,argv,counted,unpacked,strings,again⟩ := whole small
      exact ⟨argc,pointers,[],argv,counted,unpacked,strings,congrArg Prod.snd again⟩

def twoStrings : List CString := [⟨[],by decide⟩,⟨[97],by decide⟩]

theorem argv_round_trip_two : (argvpack twoStrings).1 = 3 ∧
    (∃ pointers, argvunpack 2 (argvpack twoStrings).2 = some (pointers,[]) ∧
      pointers.map stringAt = [some [],some [97]]) ∧ Repacks [0,97,0] := by
  obtain ⟨packs,repacks⟩ := argv_round_trip twoStrings [0,97,0]
  obtain ⟨_,length,_,unpacked⟩ := packs (by decide)
  exact ⟨length,unpacked,(repacks (Or.inr ⟨[0,97],rfl⟩)).1.mpr (by decide)⟩

/-- Nothing is found in a buffer of zeros whose length is the first that does not fit an int. -/
theorem long_buffer_lost : ∃ b : List Byte, b = List.replicate (2 ^ 31) 0 ∧
    (b = [] ∨ ∃ a, b = a ++ [0]) ∧ argscount b.length b = some 0 ∧ ¬ Repacks b := by
  have length : (List.replicate (2 ^ 31) (0 : Byte)).length = 2 ^ 31 := List.length_replicate
  have ends : List.replicate (2 ^ 31) (0 : Byte) = [] ∨
      ∃ a, List.replicate (2 ^ 31) (0 : Byte) = a ++ [0] := by
    have more : 2 ^ 31 = (2 ^ 31 - 1) + 1 := by decide
    refine Or.inr ⟨List.replicate (2 ^ 31 - 1) 0,?_⟩
    rw [more, List.replicate_succ', ← more]
  refine ⟨_,rfl,ends,?_,not_repacks ends length.ge⟩
  have negative : (toInt ((2 ^ 31 : Nat) : Int)).toNat = 0 := by decide
  rw [argscount, length, negative]
  rfl

end Packing
end ArgVector
