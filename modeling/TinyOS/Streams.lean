import Mathlib

/- File control blocks of kernel_streams.c: the table FT, its free list and the reference
   counts. What a stream is, and what its methods do to the devices behind it, is left to the
   parameters Obj, Dev and FileOps. -/
namespace KernelStreams

abbrev maxFileid : Nat := 16
abbrev maxFiles : Nat := 65536

/- MAX_PROC, which is as large as MAX_FILES, has the second instance. -/
instance : NeZero maxFileid := ⟨by decide⟩
instance : NeZero maxFiles := ⟨by decide⟩

abbrev Fid := Fin maxFileid
abbrev FcbRef := Fin maxFiles

/- `stream` stands for streamobj together with its streamfunc. -/
structure FCB (Obj : Type) where
  refcount : Int
  stream : Obj

structure FileOps (Obj Dev : Type) where
  close : Obj → Dev → Int × Dev

/- `opens` and `closes` are history: how often a stream has been attached to an FCB, and how
   often the Close method of its stream has run. -/
structure Files (Obj Dev : Type) where
  FT : FcbRef → FCB Obj
  fcbFreelist : List FcbRef
  device : Dev
  opens : FcbRef → Nat
  closes : FcbRef → Nat

section Operations
variable {Obj Dev : Type}

def initialFreelist : List FcbRef := (List.range' 0 maxFiles).map (Fin.ofNat maxFiles)

def initializeFiles (blank : Obj) (device : Dev) : Files Obj Dev :=
  { FT := fun _ => { refcount := 0, stream := blank }
    fcbFreelist := initialFreelist
    device := device
    opens := fun _ => 0
    closes := fun _ => 0 }

def Files.setRefcount (s : Files Obj Dev) (f : FcbRef) (n : Int) : Files Obj Dev :=
  { s with FT := Function.update s.FT f { s.FT f with refcount := n } }

def acquireFCB (s : Files Obj Dev) : Option (FcbRef × Files Obj Dev) :=
  match s.fcbFreelist with
  | [] => none
  | f :: rest => some (f, { s with fcbFreelist := rest }.setRefcount f 0)

def releaseFCB (s : Files Obj Dev) (f : FcbRef) : Files Obj Dev :=
  { s with fcbFreelist := s.fcbFreelist ++ [f] }

def fcbIncref (s : Files Obj Dev) (f : FcbRef) : Files Obj Dev :=
  s.setRefcount f ((s.FT f).refcount + 1)

def closeStream (ops : FileOps Obj Dev) (s : Files Obj Dev) (f : FcbRef) : Int × Files Obj Dev :=
  let (retval, device) := ops.close (s.FT f).stream s.device
  (retval, { s with device := device, closes := Function.update s.closes f (s.closes f + 1) })

def fcbDecref (ops : FileOps Obj Dev) (s : Files Obj Dev) (f : FcbRef) : Int × Files Obj Dev :=
  let s := s.setRefcount f ((s.FT f).refcount - 1)
  if (s.FT f).refcount = 0 then
    let (retval, s) := closeStream ops s f
    (retval, releaseFCB s f)
  else (0, s)

def attachStream (s : Files Obj Dev) (f : FcbRef) (stream : Obj) : Files Obj Dev :=
  { s with
    FT := Function.update s.FT f { s.FT f with stream := stream }
    opens := Function.update s.opens f (s.opens f + 1) }

end Operations
end KernelStreams
