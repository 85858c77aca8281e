import TinyOS.RemoteShell

/- What argvunpack reads of a buffer that nothing is known about, and its three callers. -/
namespace ArgVector
open ProcInfo RemoteShell

/- skipString from position p, with the positions that it reads and the one where it stops. -/
def skipTrace : Nat → List Byte → List Nat × Option (Nat × List Byte)
  | p, [] => ([p], none)
  | p, b :: a =>
    if b = 0 then ([p], some (p + 1, a))
    else
      let (reads, next) := skipTrace (p + 1) a
      (p :: reads, next)

/- argvunpack in the same way; the pointers are positions. -/
def unpackTrace : Nat → Nat → List Byte → List Nat × Option (List Nat × Nat)
  | 0, p, _ => ([], some ([], p))
  | argc + 1, p, a =>
    match skipTrace p a with
    | (reads, none) => (reads, none)
    | (reads, some (q, a)) =>
      let (reads', rest) := unpackTrace argc q a
      (reads ++ reads', rest.map fun (argv, last) => (p :: argv, last))

/- The strings strs lie one behind the other at the start of args, each with its zero and with its
   pointer at its start, and last is behind the last zero. -/
structure Unpacked (args : List Byte) (strs : List CString) (reads argv : List Nat) (last : Nat) :
    Prop where
  reads : ∀ p ∈ reads, p < args.length
  inside : last ≤ args.length
  zeros : (args.take last).count 0 = strs.length
  count : argv.length = strs.length
  first : (argv ++ [last])[0]? = some 0
  next : ∀ (i : Nat) (h : i < strs.length), ∃ p, argv[i]? = some p ∧
    (argv ++ [last])[i + 1]? = some (p + (strs[i].val.length + 1)) ∧
    (args.drop p).take (strs[i].val.length + 1) = strs[i].val ++ [0]

/- Of a buffer args that anything may follow, up to as many strings as argscount finds, whose argl
   is an int. -/
structure UnpackInBounds (args beyond : List Byte) : Prop where
  counted : args.length < 2 ^ 31 → argscount args.length (args ++ beyond) = some (args.count 0)
  unpacks : ∀ argc ≤ args.count 0, ∃ reads argv last, ∃ strs : List CString,
    unpackTrace argc 0 (args ++ beyond) = (reads,some (argv,last)) ∧
    argvunpack argc (args ++ beyond) =
      some (argv.map (args ++ beyond).drop,(args ++ beyond).drop last) ∧
    strs.length = argc ∧ Unpacked args strs reads argv last

/- Of the bytes from a on, argvunpack reads only those below argl. -/
def ReadsBelow (argl : Int) (argc : Nat) (a : List Byte) : Prop :=
  ∀ p ∈ (unpackTrace argc 0 a).1, (p : Int) < argl

/- Nothing is read behind the end of the strings; the buffers of Execute begin with a program. The
   program is called if there is room for the pointers. -/
structure ExecInBounds (args : List Byte) : Prop where
  reads : ∃ n, argscount (toInt (args.length - sizeofProgram)) (args.drop sizeofProgram) = some n ∧
    ReadsBelow (args.length - sizeofProgram) n (args.drop sizeofProgram)
  runs : sizeofProgram ≤ args.length → ∀ room : StackRoom,
    sizeofPointer * (args.drop sizeofProgram).count 0 ≤ room →
      ∃ call, execWrapper room args.length (some args) = some call

/- For any argc, which is capped; v is the array that argc is the length of. -/
structure ParseInBounds {Task : Type} [DecidableEq Task] (wrapper : Task) (pinfo : Procinfo Task) :
    Prop where
  reads : pinfo.argl ≤ procinfoMaxArgsSize → ∃ N,
    argscount (toInt (pinfo.argl - sizeofProgram)) ((List.ofFn pinfo.args).drop sizeofProgram) =
      some N ∧
    ∀ argc : Int, ReadsBelow (pinfo.argl - sizeofProgram)
      (if toSize argc > N then N else toSize argc) ((List.ofFn pinfo.args).drop sizeofProgram)
  runs : ∀ (prog : Option Program) (v : List (List Byte)), v.length < 2 ^ 31 →
    ∃ result, parseProcInfo wrapper pinfo prog v.length (some v) = some result

structure ClientInBounds (args : List Byte) : Prop where
  reads : ∃ n, argscount args.length args = some n ∧ ReadsBelow args.length n args
  runs : ∃ strs, decodeArgs args.length args = some strs

section Traces

theorem skip_trace_drop (memory a : List Byte) : ∀ p, memory.drop p = a →
    skipString a = (skipTrace p a).2.map Prod.snd ∧
    ∀ q c, (skipTrace p a).2 = some (q,c) → memory.drop q = c := by
  induction a with
  | nil => exact fun p _ => ⟨rfl,nofun⟩
  | cons b a ih =>
    intro p here
    have next : memory.drop (p + 1) = a := by
      rw [← List.drop_drop, here]
      rfl
    by_cases zero : b = 0
    · simp only [skipString, skipTrace, zero, if_true]
      refine ⟨rfl,fun q c same => ?_⟩
      cases same
      exact next
    · simp only [skipString, skipTrace, zero, if_false]
      exact ih (p + 1) next

/-- The trace is that of argvunpack. -/
theorem argvunpack_trace (memory : List Byte) (argc : Nat) : ∀ p, argvunpack argc (memory.drop p) =
    (unpackTrace argc p (memory.drop p)).2.map
      fun (argv, last) => (argv.map memory.drop, memory.drop last) := by
  induction argc with
  | zero => exact fun p => rfl
  | succ argc ih =>
    intro p
    obtain ⟨same,there⟩ := skip_trace_drop memory (memory.drop p) p rfl
    rcases trace : skipTrace p (memory.drop p) with ⟨reads,_ | ⟨q,a⟩⟩
    · rw [trace] at same
      simp only [argvunpack, unpackTrace, trace, same]
      rfl
    · rw [trace] at same there
      obtain rfl := there q a rfl
      simp only [argvunpack, unpackTrace, trace, same, Option.map_some, Option.bind_eq_bind,
        Option.bind_some, ih q]
      cases (unpackTrace argc q (memory.drop q)).2 <;> rfl

theorem skip_trace_string (rest : List Byte) : ∀ (s : List Byte) (p : Nat), 0 ∉ s →
    skipTrace p (s ++ 0 :: rest) =
      (List.range' p (s.length + 1),some (p + (s.length + 1),rest)) := by
  intro s
  induction s with
  | nil => exact fun p _ => rfl
  | cons b s ih =>
    intro p free
    obtain ⟨first,others⟩ := List.ne_and_not_mem_of_not_mem_cons free
    rw [List.cons_append, skipTrace, if_neg first.symm, ih (p + 1) others]
    simp only [List.length_cons, List.range'_succ, Prod.mk.injEq, Option.some.injEq, and_true,
      true_and]
    omega

/- Where the i-th string begins. -/
def place (strs : List CString) (i : Nat) : Nat := (packed (strs.take i)).length

theorem unpack_trace_packed (rest : List Byte) (strs : List CString) : ∀ p,
    unpackTrace strs.length p (packed strs ++ rest) =
      (List.range' p (packed strs).length,
        some ((List.range strs.length).map fun i => p + place strs i,
          p + (packed strs).length)) := by
  induction strs with
  | nil => exact fun p => rfl
  | cons s strs ih =>
    intro p
    have split : packed (s :: strs) ++ rest = s.val ++ 0 :: (packed strs ++ rest) := by
      rw [packed_cons, List.append_assoc, List.cons_append]
    have length : (packed (s :: strs)).length = s.val.length + 1 + (packed strs).length := by
      rw [packed_cons, List.length_append, List.length_cons]
      omega
    have skip := skip_trace_string (packed strs ++ rest) s.val p s.property
    rw [List.length_cons, unpackTrace, split, skip]
    simp only [ih, length, Option.map_some, Prod.mk.injEq, Option.some.injEq]
    refine ⟨by rw [List.range'_append_1],?_,by omega⟩
    rw [List.range_succ_eq_map, List.map_cons, List.map_map]
    refine congrArg (p :: ·) (List.map_congr_left fun i _ => ?_)
    simp only [Function.comp_apply, place, List.take_succ_cons, packed_cons, List.length_append,
      List.length_cons]
    omega

end Traces

section Buffers

/-- As many strings as zeros can be taken off a buffer. -/
theorem strings_of_zeros (argc : Nat) : ∀ args : List Byte, argc ≤ args.count 0 →
    ∃ strs : List CString, ∃ rest, strs.length = argc ∧ args = packed strs ++ rest := by
  induction argc with
  | zero => exact fun args _ => ⟨[],args,rfl,rfl⟩
  | succ argc ih =>
    intro args enough
    have member : (0 : Byte) ∈ args := List.count_pos_iff.mp (by omega)
    obtain ⟨s,a,rfl,free⟩ := List.eq_append_cons_of_mem member
    rw [List.count_append, List.count_eq_zero.mpr free, List.count_cons_self] at enough
    obtain ⟨strs,rest,count,rfl⟩ := ih a (by omega)
    refine ⟨⟨s,free⟩ :: strs,rest,by rw [List.length_cons, count],?_⟩
    rw [packed_cons, List.append_assoc, List.cons_append]

theorem place_next (strs : List CString) (i : Nat) (h : i < strs.length) :
    place strs (i + 1) = place strs i + (strs[i].val.length + 1) := by
  rw [place, place, List.take_succ_eq_append_getElem h]
  simp only [packed, List.flatMap_append, List.flatMap_cons, List.flatMap_nil, List.append_nil,
    List.length_append, List.length_singleton]

theorem string_placed (strs : List CString) (rest : List Byte) (i : Nat) (h : i < strs.length) :
    ((packed strs ++ rest).drop (place strs i)).take (strs[i].val.length + 1) =
      strs[i].val ++ [0] := by
  have split : packed strs ++ rest =
      packed (strs.take i) ++ ((strs[i].val ++ [0]) ++ (packed (strs.drop (i + 1)) ++ rest)) := by
    conv_lhs => rw [← List.take_append_drop i strs, List.drop_eq_getElem_cons h]
    simp only [packed, List.flatMap_append, List.flatMap_cons, List.append_assoc]
  rw [split, place, List.drop_left, List.take_left']
  simp

theorem packed_unpacked (strs : List CString) (rest : List Byte) :
    Unpacked (packed strs ++ rest) strs (List.range' 0 (packed strs).length)
      ((List.range strs.length).map (place strs)) (packed strs).length := by
  have starts (i : Nat) (h : i ≤ strs.length) :
      ((List.range strs.length).map (place strs) ++ [(packed strs).length])[i]? =
        some (place strs i) := by
    rcases Nat.lt_or_eq_of_le h with inside | rfl
    · rw [List.getElem?_append_left (by simpa using inside)]
      simp [inside]
    · rw [List.getElem?_append_right (by simp)]
      simp [place]
  refine ⟨fun p member => ?_,?_,?_,by simp,starts 0 (Nat.zero_le _),fun i h => ?_⟩
  · have bound := (List.mem_range'_1.mp member).2
    rw [List.length_append]
    omega
  · rw [List.length_append]
    omega
  · rw [List.take_left, packed_zeros]
  · refine ⟨place strs i,by simp [h],?_,string_placed strs rest i h⟩
    rw [starts (i + 1) h, place_next strs i h]

theorem unpack_bounds (args beyond : List Byte) : UnpackInBounds args beyond := by
  refine ⟨fun small => argscount_append small beyond,fun argc few => ?_⟩
  obtain ⟨strs,rest,rfl,rfl⟩ := strings_of_zeros argc args few
  have trace := unpack_trace_packed (rest ++ beyond) strs 0
  simp only [Nat.zero_add] at trace
  have run := argvunpack_trace (packed strs ++ (rest ++ beyond)) strs.length 0
  rw [List.drop_zero, trace, Option.map_some] at run
  rw [List.append_assoc]
  exact ⟨_,_,_,strs,trace,run,rfl,packed_unpacked strs rest⟩

end Buffers

section Callers

theorem counted_bounds (argl : Int) (a : List Byte) (fits : toInt argl ≤ a.length) :
    ∃ n, argscount argl a = some n ∧ n ≤ a.count 0 ∧ ∀ argc ≤ n, ReadsBelow (toInt argl) argc a ∧
      ∃ pointers last, argvunpack argc a = some (pointers,last) ∧ pointers.length = argc := by
  by_cases low : toInt argl < 0
  · have none : (toInt argl).toNat = 0 := Int.toNat_of_nonpos (by omega)
    refine ⟨0,by rw [argscount, none]; rfl,Nat.zero_le _,fun argc few => ?_⟩
    obtain rfl : argc = 0 := by omega
    exact ⟨by simp [ReadsBelow, unpackTrace],[],a,rfl,rfl⟩
  · have length : (a.take (toInt argl).toNat).length = (toInt argl).toNat :=
      List.length_take_of_le (by omega)
    have counted := countLoop_append (a.take (toInt argl).toNat) (a.drop (toInt argl).toNat)
    rw [length, List.take_append_drop] at counted
    refine ⟨_,counted,(List.take_sublist ..).count_le 0,fun argc few => ?_⟩
    obtain ⟨reads,argv,last,strs,trace,run,count,unpacked⟩ :=
      (unpack_bounds (a.take (toInt argl).toNat) (a.drop (toInt argl).toNat)).unpacks argc few
    rw [List.take_append_drop] at trace run
    refine ⟨fun p member => ?_,_,_,run,?_⟩
    · rw [trace] at member
      have bound := unpacked.reads p member
      omega
    · rw [List.length_map, unpacked.count, count]

theorem exec_wrapper_bounds (args : List Byte) (small : args.length < 2 ^ 31) :
    ExecInBounds args := by
  have size : (sizeofProgram : Int) = 8 := rfl
  have same : toInt ((args.length : Int) - sizeofProgram) = args.length - sizeofProgram :=
    toInt_range (by omega) (by omega)
  have again := toInt_range (n := (args.length : Int) - sizeofProgram) (by omega) (by omega)
  obtain ⟨n,counted,few,unpack⟩ := counted_bounds (toInt ((args.length : Int) - sizeofProgram))
    (args.drop sizeofProgram) (by rw [same, again, List.length_drop]; omega)
  obtain ⟨below,pointers,last,run,_⟩ := unpack n (le_refl n)
  rw [same, again] at below
  refine ⟨⟨n,counted,below⟩,fun long room fits => ?_⟩
  rw [exec_wrapper_eq (dif_pos long) counted run, if_neg]
  · exact ⟨_,rfl⟩
  · exact Nat.not_lt.mpr ((Nat.mul_le_mul_left _ few).trans fits)

/-- The bytes that are counted are in the array of the procinfo. -/
theorem pinfo_counted {Task : Type} (pinfo : Procinfo Task) (low : 0 ≤ pinfo.argl)
    (high : pinfo.argl ≤ procinfoMaxArgsSize) : ∃ N,
    argscount (toInt (pinfo.argl - sizeofProgram)) ((List.ofFn pinfo.args).drop sizeofProgram) =
      some N ∧
    ∀ argc ≤ N, ReadsBelow (pinfo.argl - sizeofProgram) argc
        ((List.ofFn pinfo.args).drop sizeofProgram) ∧
      ∃ pointers last, argvunpack argc ((List.ofFn pinfo.args).drop sizeofProgram) =
        some (pointers,last) ∧ pointers.length = argc := by
  have size : (sizeofProgram : Int) = 8 := rfl
  have most : (procinfoMaxArgsSize : Int) = 128 := rfl
  have same : toInt (pinfo.argl - sizeofProgram) = pinfo.argl - sizeofProgram :=
    toInt_range (by omega) (by omega)
  obtain ⟨N,counted,_,unpack⟩ := counted_bounds (pinfo.argl - sizeofProgram)
    ((List.ofFn pinfo.args).drop sizeofProgram) (by
      rw [same, List.length_drop, List.length_ofFn]
      omega)
  rw [same] at unpack ⊢
  exact ⟨N,counted,unpack⟩

theorem parse_runs {Task : Type} [DecidableEq Task] (wrapper : Task) (pinfo : Procinfo Task)
    (low : 0 ≤ pinfo.argl) (prog : Option Program) (v : List (List Byte))
    (small : v.length < 2 ^ 31) :
    ∃ result, parseProcInfo wrapper pinfo prog v.length (some v) = some result := by
  by_cases known : pinfo.mainTask = some wrapper
  · by_cases high : pinfo.argl ≤ procinfoMaxArgsSize
    · obtain ⟨N,counted,unpack⟩ := pinfo_counted pinfo low high
      have capped : (if v.length > N then N else v.length) ≤ N := by split <;> omega
      obtain ⟨_,pointers,last,run,count⟩ := unpack _ capped
      have fits : pointers.length ≤ v.length := by
        rw [count]
        split <;> omega
      have long : sizeofProgram ≤ (List.ofFn pinfo.args).length := by
        rw [List.length_ofFn]
        decide
      have entries : toSize (v.length : Int) = v.length := toSize_small small
      exact ⟨_,parse_eq known high (dif_pos long) counted (by rw [entries]) run (if_pos fits) prog⟩
    · exact ⟨_,(if_neg (not_not_intro known)).trans (if_pos (not_le.mp high))⟩
  · exact ⟨_,if_pos known⟩

theorem parse_bounds {Task : Type} [DecidableEq Task] (wrapper : Task) (pinfo : Procinfo Task)
    (low : 0 ≤ pinfo.argl) : ParseInBounds wrapper pinfo := by
  refine ⟨fun high => ?_,parse_runs wrapper pinfo low⟩
  obtain ⟨N,counted,unpack⟩ := pinfo_counted pinfo low high
  refine ⟨N,counted,fun argc => (unpack _ ?_).1⟩
  split <;> omega

theorem client_bounds (args : List Byte) : ClientInBounds args := by
  obtain ⟨n,counted,few,unpack⟩ := counted_bounds args.length args (toInt_le args.length)
  obtain ⟨below,_⟩ := unpack n (le_refl n)
  refine ⟨⟨n,counted,fun p member => (below p member).trans_le (toInt_le args.length)⟩,?_⟩
  obtain ⟨strs,rest,count,split⟩ := strings_of_zeros n args few
  obtain ⟨pointers,run,strings⟩ := argvunpack_packed strs rest
  rw [← split, count] at run
  refine ⟨strs,?_⟩
  simp only [decodeArgs, counted, run, decode_pointers strings, Option.bind_eq_bind,
    Option.bind_some]

/-- The skip loop, which has no bound of its own, meets a zero below argl for each string that
    argscount has counted there. -/
theorem unpacking_in_bounds {Task : Type} [DecidableEq Task] (wrapper : Task) :
    (∀ args beyond : List Byte, UnpackInBounds args beyond) ∧
    (∀ args : List Byte, args.length < 2 ^ 31 → ExecInBounds args) ∧
    (∀ pinfo : Procinfo Task, 0 ≤ pinfo.argl → ParseInBounds wrapper pinfo) ∧
    ∀ args : List Byte, ClientInBounds args :=
  ⟨unpack_bounds,exec_wrapper_bounds,parse_bounds wrapper,client_bounds⟩

/- The string "a" and a letter more, with a zero behind the end of the buffer; and a buffer of
   zeros only, after the program. -/
theorem unpacking_in_bounds_letters : argscount 3 [97,0,98,0] = some 1 ∧
    (∃ argv, argvunpack 1 [97,0,98,0] = some (argv,[98,0])) ∧
    (∃ call, execWrapper wholeStack 10 (some (List.replicate 10 0)) = some call) ∧
    ∃ strs, decodeArgs 3 [97,0,98] = some strs := by
  obtain ⟨unpack,exec,_,client⟩ := unpacking_in_bounds ()
  obtain ⟨counted,unpacks⟩ := unpack [97,0,98] [0]
  obtain ⟨reads,argv,last,strs,trace,run,_,_⟩ := unpacks 1 (by decide)
  have same : unpackTrace 1 0 ([97,0,98] ++ [0]) = ([0,1],some ([0],2)) := by decide
  rw [same] at trace
  cases trace
  exact ⟨counted (by decide),⟨_,run⟩,
    (exec (List.replicate 10 0) (by decide)).runs (by decide) wholeStack (by decide),
    (client [97,0,98]).runs⟩

end Callers
end ArgVector
