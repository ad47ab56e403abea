import Asys.Core.StatusWord

/-! # sys_hello.c and sys_caps.c: 0x01 SYS_HELLO and 0x00 SYS_CAPS

    Neither looks at its request or changes anything. What they read of the node is an argument. -/

namespace Asys
open Words

/-! ### SYS_HELLO -/

/-- A hexadecimal digit. -/
def hexNibble (c : UInt8) : Option UInt8 :=
  if 0x30 ≤ c ∧ c ≤ 0x39 then some (c - 0x30)
  else if 0x61 ≤ c ∧ c ≤ 0x66 then some (c - 0x61 + 10)
  else if 0x41 ≤ c ∧ c ≤ 0x46 then some (c - 0x41 + 10)
  else none

/-- `read_node_uid`: the first eight digits of /etc/machine-id, 0 when they are not there. -/
def readNodeUid (machineId : Option (List UInt8)) : UInt32 :=
  match machineId with
  | none => 0
  | some bs =>
    if bs.length < 8 then 0
    else ((bs.take 8).foldlM (fun (uid : UInt32) c =>
      (hexNibble c).map fun nib => (uid <<< 4) ||| nib.toUInt32) 0).getD 0

structure HelloReading where
  machineId : Option (List UInt8)
  /-- `clock_gettime(CLOCK_REALTIME)`: seconds and nanoseconds -/
  clock : Option (UInt64 × UInt64)

def helloMagic : UInt32 := 0x41535953

def handlerSysHello (r : HelloReading) : List UInt8 :=
  let ns := match r.clock with
    | some (sec, nsec) => sec * 1000000000 + nsec
    | none => 0
  putU32 helloMagic ++ putU32 (readNodeUid r.machineId) ++ putU64 ns ++ swWrite swOk

/-! ### SYS_CAPS -/

def coreCapsBitmap : UInt32 := 0x0002000F
def extCapsBitmap : UInt32 := 0x00000005

/-- What `uname` and `sysconf` tell: the three numbers at the start of the release, the machine and
    the count of CPUs. -/
structure UnameReading where
  major : UInt32
  minor : UInt32
  patch : UInt32
  machine : List UInt8
  ncpus : ℤ

structure CapsReading where
  uname : Option UnameReading
  /-- the lines of /proc/meminfo that `fscanf` takes in, as key and value -/
  meminfo : List (List UInt8 × UInt64)
  /-- `statfs("/")`: fragment size, block size, blocks and type -/
  statfs : Option (UInt64 × UInt64 × UInt64 × UInt64)
  psi : Bool

/-- `"x86_64"`, `"aarch64"` and `"riscv64"`. -/
def archNames : List (List UInt8 × UInt16) :=
  [([0x78, 0x38, 0x36, 0x5F, 0x36, 0x34], 0x0001),
    ([0x61, 0x61, 0x72, 0x63, 0x68, 0x36, 0x34], 0x0002),
    ([0x72, 0x69, 0x73, 0x63, 0x76, 0x36, 0x34], 0x0003)]

def archUnknown : UInt16 := 0xFFFF

def detectArch (machine : List UInt8) : UInt16 :=
  match archNames.find? fun a => a.1.isPrefixOf machine with
  | some a => a.2
  | none => archUnknown

def buildKernelHash (r : UnameReading) : List UInt8 :=
  [r.major.toUInt8, r.minor.toUInt8, (r.patch >>> 8).toUInt8, r.patch.toUInt8]

def detectFsType (fType : UInt64) : UInt16 :=
  if fType = 0xEF53 then 0x0001
  else if fType = 0x58465342 then 0x0002
  else if fType = 0x9123683E then 0x0003
  else if fType = 0x01021994 then 0x0004
  else if fType = 0x6969 then 0x0005
  else 0xFFFF

/-- `"MemTotal:"` and `"SwapTotal:"`. -/
def memTotalKey : List UInt8 := [0x4D, 0x65, 0x6D, 0x54, 0x6F, 0x74, 0x61, 0x6C, 0x3A]
def swapTotalKey : List UInt8 := [0x53, 0x77, 0x61, 0x70, 0x54, 0x6F, 0x74, 0x61, 0x6C, 0x3A]

/-- The value of the last line with the key, in MB. -/
def meminfoMb (meminfo : List (List UInt8 × UInt64)) (key : List UInt8) : UInt32 :=
  meminfo.foldl (fun mb line => if line.1 = key then (line.2 / 1024).toUInt32 else mb) 0

/-- The twelve bytes that depend on `uname`: kernel hash, CPUs and arch; all zero but the arch when
    the call fails. -/
def capsUname (r : Option UnameReading) : List UInt8 :=
  match r with
  | some u =>
    let ncpus := if u.ncpus < 1 then 1 else u.ncpus
    buildKernelHash u ++ putU16 (UInt16.ofInt ncpus) ++ putU16 (detectArch u.machine)
  | none => List.replicate 6 0 ++ putU16 archUnknown

def capsDisk (r : Option (UInt64 × UInt64 × UInt64 × UInt64)) : UInt32 × UInt16 :=
  match r with
  | some (frsize, bsize, blocks, fType) =>
    let bsz := if frsize ≠ 0 then frsize else bsize
    ((blocks * bsz / (1024 * 1024)).toUInt32, detectFsType fType)
  | none => (0, 0xFFFF)

def handlerSysCaps (r : CapsReading) : List UInt8 :=
  let disk := capsDisk r.statfs
  putU32 coreCapsBitmap ++ putU32 extCapsBitmap ++ putU16 0x0100 ++ capsUname r.uname ++
    putU32 (meminfoMb r.meminfo memTotalKey) ++ putU32 (meminfoMb r.meminfo swapTotalKey) ++
    putU32 disk.1 ++ putU16 disk.2 ++ [if r.psi then 0x01 else 0x02, 0x00] ++ swWrite swOk

theorem capsUname_length (r : Option UnameReading) : (capsUname r).length = 8 := by
  cases r <;> rfl

end Asys
