import Frankenlibc.Lib.Bytes
import Frankenlibc.Lib.Words

/-!
# The allocator of `franken/malloc/malloc.c`

Blocks of `2 ^ (index + MINSHIFT)` bytes, one free list per index, threaded
through the first word of each free block. A block that is in use carries a
16-byte header right before the pointer that was handed out. The build is the
default one: no `RCHECK`, no `MSTATS`, no `MEMALLOC_TESTING`, 64-bit pointers,
32-bit `int`, least significant byte first.

The fields `regions`, `carved` and `live` are not in the program. They record
what `mmap` returned, which blocks `morecore` cut, and what callers hold.
-/
namespace Frankenlibc.Malloc

open Frankenlibc.Lib

abbrev NULL : Nat := 0
abbrev MAGIC : UInt8 := 0xef
abbrev MINSHIFT : Nat := 5
abbrev NBUCKETS : Nat := 30
abbrev MINALIGN : Nat := 16
/-- `sizeof(union overhead)`. -/
abbrev OVERHEAD : Nat := 16

/-- What `getpagesize()` returns: an `int` that is a power of two. -/
structure PageSize where
  bytes : Nat
  shift : Nat
  pow : bytes = 2 ^ shift
  low : MINSHIFT ≤ shift
  high : shift ≤ 30

/-- A block of a bucket. -/
structure Block where
  start : Nat
  index : Nat
deriving DecidableEq, Repr

/-- The first address behind a block. -/
def Block.stop (b : Block) : Nat := b.start + 2 ^ (b.index + MINSHIFT)

/-- A block in use: what was asked for and what was returned. -/
structure Live extends Block where
  ptr : Nat
  nbytes : Nat
  align : Nat
deriving DecidableEq, Repr

/-- The static data of `malloc.c`, the memory, and the records about them. -/
structure State where
  pagesz : Nat
  pagebucket : Nat
  nextf : Nat → Nat
  mem : Bytes
  regions : List (Nat × Nat)
  carved : List Block
  live : List Live

/-- The program starts with zeroed static data and any memory. -/
def boot (mem : Bytes) : State :=
  ⟨0, 0, fun _ => NULL, mem, [], [], []⟩

/-- Ways for a call not to return. -/
inductive Fault
  | hang
  | bounds
  | assertion
deriving DecidableEq, Repr

/-- `nextf[bucket]`. -/
def nextfGet (s : State) (bucket : Nat) : Except Fault Nat :=
  if bucket < NBUCKETS then .ok (s.nextf bucket) else .error .bounds

/-- `nextf[bucket] = op`. -/
def nextfSet (s : State) (bucket : Nat) (op : Nat) : Except Fault State :=
  if bucket < NBUCKETS then .ok { s with nextf := Function.update s.nextf bucket op }
  else .error .bounds

/-- The value of `1 << n` as an `int`. -/
def intShl (n : Nat) : Int := i32 (2 ^ n)

/-! ## The header -/

/-- `op->ov_next`. -/
def ovNext (m : Bytes) (op : Nat) : Nat := m.load op 8
/-- `op->ov_alignpad`. -/
def ovAlignpad (m : Bytes) (op : Nat) : Nat := m.load op 8
/-- `op->ov_magic`. -/
def ovMagic (m : Bytes) (op : Nat) : UInt8 := m (op + 8)
/-- `op->ov_index`. -/
def ovIndex (m : Bytes) (op : Nat) : Nat := (m (op + 9)).toNat

/-- `op->ov_next = next`. -/
def setNext (m : Bytes) (op next : Nat) : Bytes := m.store op next 8

/-- The three header fields of a block in use, in the order of the code. -/
def setHeader (m : Bytes) (op : Nat) (bucket alignpad : Nat) : Bytes :=
  let m : Bytes := Function.update m (op + 8) MAGIC
  let m : Bytes := Function.update m (op + 9) (UInt8.ofNat bucket)
  m.store op alignpad 8

/-! ## `morecore` -/

/-- `corealloc`: `mmap` is what the host returns for a length. -/
def corealloc (mmap : Nat → Option Nat) (shift : Nat) (s : State) : Nat × State :=
  let len := u64 (toSize (intShl shift) * s.pagesz)
  match mmap len with
  | none => (NULL, s)
  | some mem => (mem, { s with regions := s.regions ++ [(mem, len)] })

/-- The linking loop of `morecore`, with `n` more blocks after `op`. -/
def carve (bucket sz : Nat) : Nat → Nat → State → State
  | 0, op, s =>
    { s with mem := setNext s.mem op NULL, carved := s.carved ++ [⟨op, bucket⟩] }
  | n + 1, op, s =>
    let s := { s with mem := setNext s.mem op (op + sz), carved := s.carved ++ [⟨op, bucket⟩] }
    carve bucket sz n (ovNext s.mem op) s

def morecore (mmap : Nat → Option Nat) (bucket : Nat) (s : State) : Except Fault State :=
  let nblks := if bucket < s.pagebucket
    then s.pagesz / toSize (intShl (bucket + MINSHIFT)) else 1
  let sz := if bucket < s.pagebucket then s.pagesz / nblks else 0
  let amt := if bucket < s.pagebucket then 0 else bucket - s.pagebucket
  match corealloc mmap amt s with
  | (op, s) =>
    if op = NULL then .ok s
    else do
      let s ← nextfSet s bucket op
      return carve bucket sz (nblks - 1) op s

/-! ## `aligned_alloc` -/

/-- `while (pagesz > amt)`: nothing stops this loop once `amt` is zero. -/
def findPagebucket (pagesz : Nat) : Nat → Nat → Nat → Except Fault Nat
  | 0, _, _ => .error .hang
  | fuel + 1, amt, bucket =>
    if pagesz > amt then findPagebucket pagesz fuel (u32 (amt * 2)) (bucket + 1)
    else .ok bucket

/-- What the first call does about the page size. -/
def setup (page : PageSize) (s : State) : Except Fault State :=
  if s.pagesz = 0 then
    if page.bytes > 0 then do
      let bucket ← findPagebucket page.bytes 33 (2 ^ MINSHIFT) 0
      return { s with pagesz := page.bytes, pagebucket := bucket }
    else .error .assertion
  else .ok s

/-- `while (allocbytes > amt)`; `none` is the exit for `amt == 0`. -/
def findBucket (allocbytes : Nat) : Nat → Nat → Nat → Except Fault (Option Nat)
  | 0, _, _ => .error .hang
  | fuel + 1, amt, bucket =>
    if allocbytes > amt then
      if u32 (amt * 2) = 0 then .ok none
      else findBucket allocbytes fuel (u32 (amt * 2)) (bucket + 1)
    else .ok (some bucket)

/-- The bucket whose blocks are large enough for `n` bytes. -/
def bucketFor (s : State) (n : Nat) : Except Fault (Option Nat) :=
  if n ≤ s.pagesz then findBucket n 33 (2 ^ MINSHIFT) 0
  else findBucket n 33 (u32 s.pagesz) s.pagebucket

/-- The request with room for the header and the alignment. -/
def allocbytes (align nbytes : Nat) : Nat :=
  u64 (nbytes + (u64 (OVERHEAD + sub64 align 1) &&& not64 (sub64 align 1)))

/-- Where the memory returned for a block at `op` starts. -/
def place (align : Nat) (op : Nat) : Nat :=
  u64 (u64 (op + OVERHEAD) + align - 1) &&& not64 (sub64 align 1)

/-- From the unlinking of the block to the end of `aligned_alloc`. -/
def take (asked align nbytes bucket : Nat) (op : Nat) (s : State) :
    Except Fault (Nat × State) := do
  let s ← nextfSet s bucket (ovNext s.mem op)
  let rv := place align op
  let alignpad := sub64 rv op
  return (rv, { s with
    mem := setHeader s.mem (sub64 rv OVERHEAD) bucket alignpad
    live := ⟨⟨op, bucket⟩, rv, nbytes, asked⟩ :: s.live })

/-- Ask for more memory if there is nothing in the bucket right now. -/
def refill (mmap : Nat → Option Nat) (bucket : Nat) (s : State) : Except Fault State := do
  let op ← nextfGet s bucket
  if op = NULL then morecore mmap bucket s else .ok s

/-- From the look at the free list to the end of `aligned_alloc`. -/
def allocFrom (mmap : Nat → Option Nat) (asked align nbytes bucket : Nat) (s : State) :
    Except Fault (Nat × State) := do
  let s ← refill mmap bucket s
  let op ← nextfGet s bucket
  if op = NULL then
    return (NULL, s)
  take asked align nbytes bucket op s

def alignedAlloc (page : PageSize) (mmap : Nat → Option Nat) (asked nbytes : Nat) (s : State) :
    Except Fault (Nat × State) := do
  let s ← setup page s
  if asked &&& sub64 asked 1 ≠ 0 then
    return (NULL, s)
  let align := if asked < MINALIGN then MINALIGN else asked
  match ← bucketFor s (allocbytes align nbytes) with
  | none => return (NULL, s)
  | some bucket => allocFrom mmap asked align nbytes bucket s

/-! ## The entry points -/

def malloc (page : PageSize) (mmap : Nat → Option Nat) (size : Nat) (s : State) :
    Except Fault (Nat × State) :=
  alignedAlloc page mmap 0 size s

/-- `ENOMEM`. -/
abbrev ENOMEM : Nat := 12

/-- `posix_memalign`, with the pointer it stores through its first argument. -/
def posixMemalign (page : PageSize) (mmap : Nat → Option Nat) (align size : Nat) (s : State) :
    Except Fault (Nat × Option Nat × State) := do
  let (mem, s) ← alignedAlloc page mmap align size s
  if mem = NULL then
    return (ENOMEM, none, s)
  return (0, some mem, s)

def calloc (page : PageSize) (mmap : Nat → Option Nat) (nmemb size : Nat) (s : State) :
    Except Fault (Nat × State) := do
  let n := u64 (nmemb * size)
  let (mem, s) ← alignedAlloc page mmap 8 n s
  if mem = NULL then
    return (NULL, s)
  return (mem, { s with mem := s.mem.fill mem n 0 })

def free (cp : Nat) (s : State) : Except Fault State :=
  if cp = NULL then .ok s
  else
    let op := sub64 cp OVERHEAD
    if ovMagic s.mem op ≠ MAGIC then .ok s
    else if ovIndex s.mem op < NBUCKETS then do
      let size := ovIndex s.mem op
      let origp := sub64 cp (ovAlignpad s.mem op)
      let head ← nextfGet s size
      let s ← nextfSet { s with mem := setNext s.mem origp head } size origp
      return { s with live := s.live.eraseP (·.ptr = cp) }
    else .error .assertion

/-- The room `realloc` believes the block to have behind `cp`. -/
def room (m : Bytes) (cp : Nat) : Nat :=
  let op := sub64 cp OVERHEAD
  sub64 (toSize (intShl (ovIndex m op + MINSHIFT))) (ovAlignpad m op)

def realloc (page : PageSize) (mmap : Nat → Option Nat) (cp : Nat) (nbytes : Nat) (s : State) :
    Except Fault (Nat × State) :=
  if cp = NULL then malloc page mmap nbytes s
  else if nbytes = 0 then do
    let s ← free cp s
    return (NULL, s)
  else if room s.mem cp ≥ nbytes then
    .ok (cp, { s with
      live := s.live.map fun l => if l.ptr = cp then { l with nbytes := nbytes } else l })
  else do
    let onb := room s.mem cp
    let (np, s) ← malloc page mmap nbytes s
    if np = NULL then
      return (NULL, s)
    let s ← free cp { s with mem := s.mem.copy np cp onb }
    return (np, s)

/-! ## Runs of a program -/

/-- What `mmap` answers when the host would map the offered region: a request
that fits in it gets its start. -/
def answer (offer : Option (Nat × Nat)) (len : Nat) : Option Nat :=
  match offer with
  | none => none
  | some (a, cap) => if len ≤ cap then some a else none

/-- What a program does with the heap. Calls that may reach `mmap` carry what
the host offers. -/
inductive Event
  | malloc (offer : Option (Nat × Nat)) (size : Nat)
  | calloc (offer : Option (Nat × Nat)) (nmemb size : Nat)
  | memalign (offer : Option (Nat × Nat)) (align size : Nat)
  | realloc (offer : Option (Nat × Nat)) (cp nbytes : Nat)
  | free (cp : Nat)
  | write (a : Nat) (b : UInt8)
deriving DecidableEq, Repr

def call (page : PageSize) (s : State) : Event → Except Fault State
  | .malloc offer size => (malloc page (answer offer) size s).map Prod.snd
  | .calloc offer nmemb size => (calloc page (answer offer) nmemb size s).map Prod.snd
  | .memalign offer align size =>
    (posixMemalign page (answer offer) align size s).map fun r => r.2.2
  | .realloc offer cp nbytes => (realloc page (answer offer) cp nbytes s).map Prod.snd
  | .free cp => free cp s
  | .write a b => .ok { s with mem := Function.update s.mem a b }

def step (page : PageSize) (s : State) (e : Event) : Option State :=
  (call page s e).toOption

end Frankenlibc.Malloc
