import TinyOS.Proc

/- The file table of a process: FCB_reserve, FCB_unreserve and the system calls of
   kernel_streams.c, kernel_pipe.c, kernel_socket.c and kernel_proc.c that open, copy, use and
   close file ids. cur is CURPROC. -/
namespace KernelStreams
open KernelProc
variable {Task Obj Dev : Type}

def nextFree (FIDT : Fid → Option FcbRef) (f : Nat) : Option Fid :=
  (List.finRange maxFileid).find? fun i => f ≤ i.val ∧ FIDT i = none

def findFids (FIDT : Fid → Option FcbRef) : Nat → Nat → Option (List Fid)
  | 0, _ => some []
  | num + 1, f => do
    let i ← nextFree FIDT f
    let rest ← findFids FIDT num (i.val + 1)
    some (i :: rest)

def acquireFCBs : Nat → Files Obj Dev → List FcbRef × Files Obj Dev
  | 0, s => ([], s)
  | num + 1, s =>
    match acquireFCB s with
    | none => ([], s)
    | some (f, s) =>
      let (rest, s) := acquireFCBs num s
      (f :: rest, s)

def rollBack (s : Files Obj Dev) (fcbs : List FcbRef) : Files Obj Dev :=
  fcbs.reverse.foldl releaseFCB s

def bindFid (cur : Pid) (k : Kernel Task Obj Dev) (e : Fid × FcbRef) : Kernel Task Obj Dev :=
  let k := setFid k cur e.1 (some e.2)
  { k with files := fcbIncref k.files e.2 }

/- The fids and FCBs reserved, or none for the result 0. -/
def fcbReserve (k : Kernel Task Obj Dev) (cur : Pid) (num : Nat) :
    Option (List (Fid × FcbRef)) × Kernel Task Obj Dev :=
  match findFids (k.PT cur).FIDT num 0 with
  | none => (none, k)
  | some fids =>
    let (fcbs, files) := acquireFCBs num k.files
    if fcbs.length < num then (none, { k with files := rollBack files fcbs })
    else (some (fids.zip fcbs), (fids.zip fcbs).foldl (bindFid cur) { k with files := files })

/- none is the failing assertion. -/
def fcbUnreserve (cur : Pid) : List (Fid × FcbRef) → Kernel Task Obj Dev →
    Option (Kernel Task Obj Dev)
  | [], k => some k
  | e :: rest, k =>
    if (k.PT cur).FIDT e.1 = some e.2 then
      let k := setFid k cur e.1 none
      fcbUnreserve cur rest { k with files := releaseFCB k.files e.2 }
    else none

def getFcb (k : Kernel Task Obj Dev) (cur : Pid) (fid : Int) : Option FcbRef :=
  if legal : 0 ≤ fid ∧ fid < maxFileid then (k.PT cur).FIDT ⟨fid.toNat,by omega⟩ else none

/- sys_Read and sys_Write, up to the device method, which may sleep, and after it. -/
def startTransfer (k : Kernel Task Obj Dev) (cur : Pid) (fid : Int) :
    Option FcbRef × Kernel Task Obj Dev :=
  match getFcb k cur fid with
  | none => (none, k)
  | some f => (some f, { k with files := fcbIncref k.files f })

def endTransfer (ops : FileOps Obj Dev) (k : Kernel Task Obj Dev) (f : FcbRef) : Kernel Task Obj Dev :=
  { k with files := (fcbDecref ops k.files f).2 }

def sysClose (ops : FileOps Obj Dev) (k : Kernel Task Obj Dev) (cur : Pid) (fid : Int) :
    Int × Kernel Task Obj Dev :=
  if legal : 0 ≤ fid ∧ fid < maxFileid then
    let i : Fid := ⟨fid.toNat,by omega⟩
    match (k.PT cur).FIDT i with
    | none => (0, k)
    | some f =>
      let k := setFid k cur i none
      let (retcode, files) := fcbDecref ops k.files f
      (retcode, { k with files := files })
  else (-1, k)

def sysDup2 (ops : FileOps Obj Dev) (k : Kernel Task Obj Dev) (cur : Pid) (oldfd newfd : Int) :
    Int × Kernel Task Obj Dev :=
  if legal : 0 ≤ oldfd ∧ 0 ≤ newfd ∧ oldfd < maxFileid ∧ newfd < maxFileid then
    let i : Fid := ⟨newfd.toNat,by omega⟩
    match getFcb k cur oldfd with
    | none => (-1, k)
    | some old =>
      let new := (k.PT cur).FIDT i
      if some old ≠ new then
        let k :=
          match new with
          | none => k
          | some f => { k with files := (fcbDecref ops k.files f).2 }
        let k := { k with files := fcbIncref k.files old }
        (0, setFid k cur i (some old))
      else (0, k)
  else (-1, k)

def attach (k : Kernel Task Obj Dev) (f : FcbRef) (stream : Obj) : Kernel Task Obj Dev :=
  { k with files := attachStream k.files f stream }

/- open_stream; opened is what device_open stores, or none if it fails. The outer none is a
   failing assertion. -/
def openStream (k : Kernel Task Obj Dev) (cur : Pid) (opened : Option Obj) :
    Option (Option Fid × Kernel Task Obj Dev) :=
  match fcbReserve k cur 1 with
  | (some [e], k) =>
    match opened with
    | some stream => some (some e.1, attach k e.2 stream)
    | none => (fcbUnreserve cur [e] k).map (none, ·)
  | (_, k) => some (none, k)

def sysOpenInfo (k : Kernel Task Obj Dev) (cur : Pid) (picb : Obj) :
    Option Fid × Kernel Task Obj Dev :=
  match fcbReserve k cur 1 with
  | (some [e], k) => (some e.1, attach k e.2 picb)
  | (_, k) => (none, k)

def sysPipe (k : Kernel Task Obj Dev) (cur : Pid) (reader writer : Obj) :
    Option (Fid × Fid) × Kernel Task Obj Dev :=
  match fcbReserve k cur 2 with
  | (some [r, w], k) => (some (r.1, w.1), attach (attach k r.2 reader) w.2 writer)
  | (_, k) => (none, k)

def maxPort : Int := 1023

/- sys_Accept takes its new file id with this call too, after its wait. -/
def sysSocket (k : Kernel Task Obj Dev) (cur : Pid) (port : Int) (socket : Obj) :
    Option Fid × Kernel Task Obj Dev :=
  if port < 0 ∨ port > maxPort then (none, k)
  else
    match fcbReserve k cur 1 with
    | (some [e], k) => (some e.1, attach k e.2 socket)
    | (_, k) => (none, k)

end KernelStreams
