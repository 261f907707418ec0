import IecCore.Bpf.Reconfiguration
import IecCore.Lib.Descriptors
import IecCore.Lib.Hoare

/-! # Setting the engine up

`BPFEngine::setup` filters and loads the program, opens a raw socket, asks for the interface with
`SO_BINDTODEVICE`, attaches the program to the socket and keeps it instead of the one before. Each of
the calls of the system may fail, and then what has been opened is closed.

* **`Kernel`**, **`Answers`** — what the calls work on, and how they end. A `PacketSocket` has what
  the engine has asked for; which frames the kernel gives it is not said here.
* **`getRawSocket`**, **`attachRawSocket`**, **`getDeviceSocket`**, **`setup`** — the engine, call by
  call, each with a lemma `wp_getRawSocket` … that says what it leaves and when it succeeds.
* **`After`** — what a part of the setup leaves as it was; **`OnlyPromisc`** — an interface may stay
  in promiscuous mode.
* **`Owns`** — the process owns the socket of the last setup that has succeeded, and nothing else.
* **`Owns.wp_setup`** — what one setup does to it, for calls that fail anywhere.
* **`owns_setups`** — after any setups, the process owns the last socket, and closing it leaves the
  table of descriptors as it was before.
* **`loaded_setups`** — every setup hands the program that the first one has made to `init`. -/

namespace IecCore

namespace EngineSetup

open Utils CLiteral BPFExecutor Bpf

/-! ## The kernel -/

/-- A packet socket, as far as the engine sets it up, with what was asked of it. -/
structure PacketSocket where
  /-- Reading does not wait, as `O_NONBLOCK` says. -/
  nonBlocking : Bool
  /-- The interface that `SO_BINDTODEVICE` has asked for. That is what the engine has said to the
  kernel, and not where frames come from: a packet socket is bound to an interface by `bind`, which
  the engine does not call. -/
  bindToDevice : Option Text
  /-- The function that filters its frames, if one is attached. -/
  filter : Option Int
  deriving DecidableEq

/-- What a descriptor stands for: a packet socket with its settings, or something else. -/
inductive Resource
  /-- A packet socket. -/
  | packet (socket : PacketSocket)
  /-- Anything else. -/
  | other
  deriving DecidableEq

/-- The part of the **kernel** that the engine works on: descriptors and flags of interfaces. -/
structure Kernel where
  /-- The descriptors of the process, but for those that the BPF library has for itself. -/
  table : Descriptors Resource
  /-- The flags of the interfaces, none for a name without an interface. -/
  flags : Text → Option UInt16
  /-- History: the calls of `close` on a number that nothing was open under. -/
  badCloses : Nat

/-- What a setup finds, and how the calls of the system and of the compiler **end**. All of them are
free, but for the number of a new socket, which was not in use. -/
structure Answers where
  /-- The files that can be opened, with their contents. -/
  files : Files
  /-- `ebpf::BPF::init`: the message of a failure for a source code. -/
  init : Text → Option Text
  /-- `ebpf::BPF::load_func`: the descriptor of the function, or the message of a failure. -/
  loadFunc : Except Text Int
  /-- `socket` succeeds: a descriptor is opened. -/
  socket : Bool
  /-- The number that a new socket gets: a free one. -/
  number : (t : Descriptors Resource) → { n : Nat // t.entry n = none }
  /-- `setsockopt` succeeds: the interface is asked for with `SO_BINDTODEVICE`. -/
  setsockopt : Bool
  /-- `ioctl` may read the flags. -/
  getFlags : Bool
  /-- `ioctl` may write the flags. -/
  setFlags : Bool
  /-- `bpf_attach_socket` succeeds: the function filters the frames of the socket. -/
  attach : Bool
  /-- `fcntl` writes the flags of the descriptor. -/
  setfl : Bool

/-- The number of a new socket, one that nothing is open under in the kernel `k`. -/
def Answers.fresh (answers : Answers) (k : Kernel) : Nat := answers.number k.table

theorem Answers.entry_fresh (answers : Answers) (k : Kernel) :
    k.table.entry (answers.fresh k) = none := (answers.number k.table).2

/-- `EngineSettings`, the texts that a setup is called with: an interface, an address and an
svID. -/
structure EngineSettings where
  /-- The name of the interface. -/
  iface : Text
  /-- The address of the sender. -/
  sourceMAC : Text
  /-- The svID. -/
  svID : Text

/-- The engine, with what it shares with the rest of the system: the kernel and the output. -/
structure Engine where
  /-- The executor, whose source code setups edit. -/
  executor : BPFExecutor
  /-- `sock_fd` of the socket of the engine, `-1` while it has none. -/
  sockFd : Int
  /-- The kernel, which the calls of the system read and change. -/
  kernel : Kernel
  /-- What was printed. -/
  stdout : List Text
  /-- The errors that were printed. -/
  stderr : List Text
  /-- History: the source codes that were compiled. -/
  loaded : List Text

/-- A setup that does not return, because an edit of the source code has no end. -/
inductive Stop
  /-- The source code is edited without an end. -/
  | endless

/-- A part of the setup: it works on the engine, and may not return. -/
abbrev Call := EStateM Stop Engine

/-- A call on the kernel, which leaves the engine itself as it is. -/
def onKernel (f : Kernel → Kernel) : Call Unit := modify fun e => { e with kernel := f e.kernel }

/-- Print a line to the error output: it is kept behind the lines printed before it. -/
def eprint (line : Text) : Call Unit := modify fun e => { e with stderr := e.stderr ++ [line] }

/-- Print a line to the standard output: it is kept behind the lines printed before it. -/
def print (line : Text) : Call Unit := modify fun e => { e with stdout := e.stdout ++ [line] }

namespace Kernel

/-- The packet socket of a descriptor, if there is one: none for `-1` and for other resources. -/
def socketOf (k : Kernel) (fd : Int) : Option PacketSocket :=
  if 0 ≤ fd then
    match k.table.entry fd.toNat with
    | some (.packet socket) => some socket
    | _ => none
  else none

/-- The kernel with another packet socket under a descriptor; all other descriptors keep theirs. -/
def putSocket (k : Kernel) (fd : Int) (socket : PacketSocket) : Kernel :=
  { k with table := k.table.put fd.toNat (.packet socket) }

/-- `close` in the kernel: a number that nothing is open under is counted. -/
def close (k : Kernel) (fd : Int) : Kernel :=
  if 0 ≤ fd ∧ k.table.entry fd.toNat ≠ none then { k with table := k.table.erase fd.toNat }
  else { k with badCloses := k.badCloses + 1 }

/-- The kernel with other flags of an interface, the other interfaces unchanged. -/
def putFlags (k : Kernel) (name : Text) (flags : UInt16) : Kernel :=
  { k with flags := Function.update k.flags name (some flags) }

end Kernel

/-! ## The calls of the system -/

/-- `-1`, what the calls of the system return when they fail, and what no descriptor is. -/
def error : Int := -1

/-- `IFF_PROMISC`, the flag of the promiscuous mode of an interface, `0x100`. -/
def iffPromisc : UInt16 := 0x100

/-- `IF_NAMESIZE`, the room for the name of an interface with the zero behind it. -/
def ifNameSize : Nat := 16

/-- The name of an interface in the structures of the kernel: longer names are cut. -/
def deviceName (ifaceName : Text) : Text := ifaceName.take (ifNameSize - 1)

/-- `socket` of a raw packet socket that does not wait, under a number that was free. -/
def socket (answers : Answers) : Call Int := do
  if answers.socket then
    let fd := answers.fresh (← get).kernel
    onKernel fun k => k.putSocket fd { nonBlocking := true, bindToDevice := none, filter := none }
    return fd
  else return error

/-- A call that changes a packet socket, and fails for other numbers. -/
def changeSocket (ok : Bool) (fd : Int) (change : PacketSocket → PacketSocket) : Call Int := do
  match (← get).kernel.socketOf fd with
  | some socket =>
      if ok then
        onKernel fun k => k.putSocket fd (change socket)
        return 0
      else return error
  | none => return error

/-- `setsockopt` with `SO_BINDTODEVICE`: the socket keeps what it was asked for. -/
def setsockopt (answers : Answers) (fd : Int) (ifaceName : Text) : Call Int :=
  changeSocket answers.setsockopt fd fun s =>
    { s with bindToDevice := some (deviceName ifaceName) }

/-- `bpf_attach_socket`: the function filters the frames of the socket. -/
def bpfAttachSocket (answers : Answers) (fd function : Int) : Call Int :=
  changeSocket answers.attach fd fun s => { s with filter := some function }

/-- `fcntl` with `F_SETFL` and flags that have `O_NONBLOCK`: the socket is non-blocking when it
succeeds. -/
def setfl (answers : Answers) (fd : Int) : Call Int :=
  changeSocket answers.setfl fd fun s => { s with nonBlocking := true }

/-- `ioctl` with `SIOCGIFFLAGS`: the flags of an interface, if it exists. -/
def ioctlGetFlags (answers : Answers) (fd : Int) (name : Text) : Call (Option UInt16) := do
  let kernel := (← get).kernel
  return if answers.getFlags ∧ kernel.socketOf fd ≠ none then kernel.flags name else none

/-- `ioctl` with `SIOCSIFFLAGS`: the flags of an interface are written. -/
def ioctlSetFlags (answers : Answers) (fd : Int) (name : Text) (flags : UInt16) : Call Int := do
  if answers.setFlags ∧ (← get).kernel.socketOf fd ≠ none then
    onKernel fun k => k.putFlags name flags
    return 0
  else return error

/-- `close`, the call of the system. -/
def close (fd : Int) : Call Unit := onKernel fun k => k.close fd

/-! ## The executor -/

/-- A failure of `getRawSocket` behind the first call: the socket is closed again. -/
def fail (sockFd : Int) (line : Text) : Call Int := do
  eprint line
  close sockFd
  return error

/-- The part of `getRawSocket` that sets the network card in promiscuous mode. -/
def setPromiscuous (answers : Answers) (sockFd : Int) (ifaceName : Text) : Call Int := do
  match ← ioctlGetFlags answers sockFd (deviceName ifaceName) with
  | none => fail sockFd (text "Can't get socket flags with ioctl!\n")
  | some flags =>
      let status ← ioctlSetFlags answers sockFd (deviceName ifaceName) (flags ||| iffPromisc)
      if status = error then
        fail sockFd (text "Can't set socket flags with ioctl!\n")
      else return sockFd

/-- **Get a raw socket** that is asked with `SO_BINDTODEVICE` for an interface, in promiscuous mode. -/
def getRawSocket (answers : Answers) (ifaceName : Text) : Call Int := do
  let sockFd ← socket answers
  if sockFd < 0 then
    eprint (text "Can't create raw socket!\n")
    return error
  -- Not bind socket to interface with empty name.
  if ifaceName ≠ [] then
    let status ← setsockopt answers sockFd ifaceName
    if status < 0 then
      fail sockFd (text "Can't bind a socket to specified interface!\n")
    else setPromiscuous answers sockFd ifaceName
  else setPromiscuous answers sockFd ifaceName

/-- `ebpf::StatusTuple`: none when a call has succeeded, or the message of its failure. -/
abbrev StatusTuple := Option Text

/-- **Attach** a raw socket to a function; the status, and the socket. Without the function the
socket would receive every frame, so that it is closed when the call fails. -/
def attachRawSocket (answers : Answers) (ifaceName : Text) (function : Int) :
    Call (StatusTuple × Int) := do
  let socket ← getRawSocket answers ifaceName
  if socket ≥ 0 then
    let result ← bpfAttachSocket answers socket function
    if result ≥ 0 then
      return (none, socket)
    else
      close socket
      return (some (text "bpf: Failed attaching function " ++ text (toString function)
        ++ text " to socket"), socket)
  else
    return (some (text "bpf: Failed open socket for device " ++ ifaceName), socket)

/-- **Get the socket of a device**, that is associated with the function; the status, and the
socket. -/
def getDeviceSocket (answers : Answers) (sockFd : Int) (ifaceName : Text) :
    Call (StatusTuple × Int) := do
  match answers.loadFunc with
  | .ok function => attachRawSocket answers ifaceName function
  | .error message => return (some message, sockFd)

/-- **Load** the program: its source code is handed to `init`, which compiles it or not. -/
def load (answers : Answers) : Call StatusTuple := do
  let source := (← get).executor.bpfProg.getSourceCode
  modify fun e => { e with loaded := e.loaded ++ [source] }
  return answers.init source

/-! ## The engine -/

/-- `closeSocket` of the socket: a handle of `-1` is not closed. -/
def closeSocket : Call Unit := do
  let fd := (← get).sockFd
  if fd ≥ 0 then
    close fd

/-- `setHandle` of the socket: the one before is closed, and the new one kept. -/
def setHandle (fd : Int) : Call Unit := do
  closeSocket
  modify fun e => { e with sockFd := fd }

/-- `setNonBlockingMode` of the socket. When the flags cannot be read, all of them are written. -/
def setNonBlockingMode (answers : Answers) : Call Bool := do
  return (← setfl answers (← get).sockFd) ≠ error

/-- The end of a setup that fails: the message of its status is printed, and `false` is returned. -/
def report (status : StatusTuple) : Call Bool := do
  print (status.getD [] ++ text "\n")
  return false

/-- **Setup** of the engine: the filtered source code is kept in the executor, also when a later
call fails. -/
def setup (settings : EngineSettings) (answers : Answers) : Call Bool := do
  match filterSourceCode (readFile answers.files) (← get).executor (cString settings.iface)
      (cString settings.sourceMAC) (cString settings.svID) with
  | none => throw .endless
  | some executor =>
      modify fun e => { e with executor := executor }
      let status ← load answers
      if status = none then
        let (status, socketFd) ← getDeviceSocket answers error (cString settings.iface)
        if status = none ∧ socketFd ≥ 0 then
          setHandle socketFd
          if !(← setNonBlockingMode answers) then
            print (text "Couldn't set non-blocking read mode for socket!\n")
          return true
        else report status
      else report status

/-! ## What the calls do -/

/-- The flags of the interfaces are as before, but for the **promiscuous mode** of some. -/
def OnlyPromisc (before after : Text → Option UInt16) : Prop :=
  ∀ name, after name = before name ∨
    ∃ flags, before name = some flags ∧ after name = some (flags ||| iffPromisc)

theorem OnlyPromisc.refl (flags : Text → Option UInt16) : OnlyPromisc flags flags :=
  fun _ => .inl rfl

theorem OnlyPromisc.trans {a b c : Text → Option UInt16} (hab : OnlyPromisc a b)
    (hbc : OnlyPromisc b c) : OnlyPromisc a c := by
  intro name
  obtain h | ⟨flags, hb, hc⟩ := hbc name
  · rw [h]
    exact hab name
  obtain h | ⟨flags', ha, hb'⟩ := hab name
  · exact .inr ⟨flags, h ▸ hb, hc⟩
  · rw [hb', Option.some_inj] at hb
    rw [← hb, UInt16.or_assoc, UInt16.or_self] at hc
    exact .inr ⟨flags', ha, hc⟩

/-- What a part of the setup **leaves** as it was, with the table of descriptors after it. -/
structure After (table : Descriptors Resource) (s t : Engine) : Prop where
  /-- The executor: no call of the system edits the source code. -/
  executor : t.executor = s.executor
  /-- The handle: it is assigned by the engine alone. -/
  sockFd : t.sockFd = s.sockFd
  /-- The table: the descriptors are the ones that `table` lists. -/
  table : t.kernel.table = table
  /-- Only open numbers are closed, so that none is counted. -/
  badCloses : t.kernel.badCloses = s.kernel.badCloses
  /-- The flags: `IFF_PROMISC` is all that is ever set. -/
  flags : OnlyPromisc s.kernel.flags t.kernel.flags
  /-- The output: errors are printed to `stderr`. -/
  stdout : t.stdout = s.stdout
  /-- The source codes: nothing is compiled by these calls. -/
  loaded : t.loaded = s.loaded

section Calls

variable {s : Engine} {answers : Answers} {fd : Int} {E : Stop → Engine → Prop}

@[simp] theorem Kernel.socketOf_putSocket (k : Kernel) (n : Nat) (sock : PacketSocket) :
    (k.putSocket n sock).socketOf n = some sock := by
  rw [Kernel.socketOf, if_pos (Int.natCast_nonneg n), Kernel.putSocket, Int.toNat_natCast,
    Descriptors.entry_put_self]

theorem wp_socket {Q : Int → Engine → Prop} :
    wp (socket answers) Q E s ↔
      if answers.socket then
        Q (answers.fresh s.kernel)
          { s with kernel := s.kernel.putSocket (answers.fresh s.kernel) ⟨true, none, none⟩ }
      else Q error s := by
  unfold socket
  split_ifs
  · exact Iff.rfl
  · exact Iff.rfl

theorem wp_changeSocket {Q : Int → Engine → Prop} {ok : Bool} {change : PacketSocket → PacketSocket}
    {sock : PacketSocket} (h : s.kernel.socketOf fd = some sock) :
    wp (changeSocket ok fd change) Q E s ↔
      if ok then Q 0 { s with kernel := s.kernel.putSocket fd (change sock) } else Q error s := by
  rw [changeSocket, wp_bind, wp_get, h]
  dsimp only
  split_ifs
  · exact Iff.rfl
  · exact Iff.rfl

theorem wp_ioctlGetFlags {Q : Option UInt16 → Engine → Prop} {name : Text} {sock : PacketSocket}
    (h : s.kernel.socketOf fd = some sock) :
    wp (ioctlGetFlags answers fd name) Q E s ↔
      Q (if answers.getFlags then s.kernel.flags name else none) s := by
  rw [ioctlGetFlags, wp_bind, wp_get]
  simp [h]

theorem wp_ioctlSetFlags {Q : Int → Engine → Prop} {name : Text} {flags : UInt16}
    {sock : PacketSocket} (h : s.kernel.socketOf fd = some sock) :
    wp (ioctlSetFlags answers fd name flags) Q E s ↔
      if answers.setFlags then Q 0 { s with kernel := s.kernel.putFlags name flags }
      else Q error s := by
  rw [ioctlSetFlags, wp_bind, wp_get, h]
  by_cases hset : answers.setFlags = true
  · rw [if_pos hset, if_pos ⟨hset, Option.some_ne_none sock⟩]
    exact Iff.rfl
  · rw [if_neg hset, if_neg fun h => hset h.1]
    exact Iff.rfl

theorem wp_close {Q : Unit → Engine → Prop} :
    wp (close fd) Q E s ↔ Q () { s with kernel := s.kernel.close fd } := Iff.rfl

/-- The socket that `getRawSocket` opens: no device is asked for without a name. -/
def rawSocket (ifaceName : Text) : PacketSocket where
  nonBlocking := true
  bindToDevice := if ifaceName = [] then none else some (deviceName ifaceName)
  filter := none

/-- The calls of `getRawSocket` succeed, those that it makes for this name. -/
def Opens (answers : Answers) (ifaceName : Text) (k : Kernel) : Prop :=
  answers.socket = true ∧ (ifaceName ≠ [] → answers.setsockopt = true) ∧
    answers.getFlags = true ∧ k.flags (deviceName ifaceName) ≠ none ∧ answers.setFlags = true

/-- Closing the socket that was opened leaves the table as it was, and is no bad close. -/
theorem Kernel.close_of_put {k : Kernel} {t : Descriptors Resource} {n : Nat} {sock : PacketSocket}
    (hfree : t.entry n = none) (htable : k.table = t.put n (.packet sock)) :
    (k.close n).table = t ∧ (k.close n).badCloses = k.badCloses ∧
      (k.close n).flags = k.flags := by
  have hopen : 0 ≤ (n : Int) ∧ k.table.entry (n : Int).toNat ≠ none := by
    refine ⟨Int.natCast_nonneg _, ?_⟩
    rw [htable, Int.toNat_natCast, Descriptors.entry_put_self]
    exact Option.some_ne_none _
  rw [Kernel.close, if_pos hopen, htable, Int.toNat_natCast]
  exact ⟨Descriptors.erase_put hfree, rfl, rfl⟩

/-- A failure closes what was opened: nothing is left of the socket. -/
theorem wp_fail {t : Descriptors Resource} {n : Nat} {sock : PacketSocket} {s₀ : Engine}
    (hfree : t.entry n = none) (h : After (t.put n (.packet sock)) s₀ s) (line : Text) :
    wp (fail n line) (fun fd u => fd = error ∧ After t s₀ u) E s := by
  obtain ⟨htable, hbad, hflags⟩ := Kernel.close_of_put hfree h.table
  refine ⟨rfl, ?_⟩
  exact { h with
    table := htable, badCloses := hbad.trans h.badCloses
    flags := fun name => hflags ▸ h.flags name }

theorem wp_setPromiscuous {t : Descriptors Resource} {n : Nat} {sock : PacketSocket} {s₀ : Engine}
    (hfree : t.entry n = none) (h : After (t.put n (.packet sock)) s₀ s) (answers : Answers)
    (ifaceName : Text) :
    wp (setPromiscuous answers n ifaceName)
      (fun fd u =>
        (answers.getFlags = true ∧ s.kernel.flags (deviceName ifaceName) ≠ none ∧
          answers.setFlags = true) ∧ fd = n ∧ After (t.put n (.packet sock)) s₀ u ∨
        ¬(answers.getFlags = true ∧ s.kernel.flags (deviceName ifaceName) ≠ none ∧
          answers.setFlags = true) ∧ fd = error ∧ After t s₀ u) E s := by
  have hsocket : s.kernel.socketOf n = some sock := by
    rw [Kernel.socketOf, if_pos (Int.natCast_nonneg _), h.table, Int.toNat_natCast,
      Descriptors.entry_put_self]
  have hne : (n : Int) ≠ error := by
    rw [error]
    omega
  rw [setPromiscuous, wp_bind, wp_ioctlGetFlags hsocket]
  by_cases hget : answers.getFlags = true
  · rw [if_pos hget]
    cases hflags : s.kernel.flags (deviceName ifaceName) with
    | none => exact (wp_fail hfree h _).imp fun fd u hu => .inr ⟨fun h => h.2.1 rfl, hu⟩
    | some flags =>
        dsimp only
        rw [wp_bind, wp_ioctlSetFlags hsocket]
        by_cases hset : answers.setFlags = true
        · rw [if_pos hset, if_neg (by decide)]
          refine .inl ⟨⟨hget, Option.some_ne_none flags, hset⟩, rfl, { h with flags := ?_ }⟩
          -- the mode is the only flag that is written
          refine h.flags.trans fun name => ?_
          by_cases hname : name = deviceName ifaceName
          · rw [hname]
            exact .inr ⟨flags, hflags, Function.update_self ..⟩
          · exact .inl (Function.update_of_ne hname ..)
        · rw [if_neg hset, if_pos rfl]
          exact (wp_fail hfree h _).imp fun fd u hu => .inr ⟨fun h => hset h.2.2, hu⟩
  · rw [if_neg hget]
    exact (wp_fail hfree h _).imp fun fd u hu => .inr ⟨fun h => hget h.1, hu⟩

/-- **`getRawSocket`** opens a socket when all of its calls succeed, and nothing otherwise. -/
theorem wp_getRawSocket (answers : Answers) (ifaceName : Text) (s : Engine) :
    wp (getRawSocket answers ifaceName)
      (fun fd t =>
        Opens answers ifaceName s.kernel ∧ fd = answers.fresh s.kernel ∧
          After (s.kernel.table.put (answers.fresh s.kernel) (.packet (rawSocket ifaceName))) s t ∨
        ¬Opens answers ifaceName s.kernel ∧ fd = error ∧ After s.kernel.table s t) E s := by
  have hfree := answers.entry_fresh s.kernel
  have hnonneg : ¬(answers.fresh s.kernel : Int) < 0 := Int.not_lt.mpr (Int.natCast_nonneg _)
  rw [getRawSocket, wp_bind, wp_socket]
  by_cases hsocket : answers.socket = true
  · rw [if_pos hsocket, if_neg hnonneg]
    -- without a name the interface is not asked for, and the next call is the one for the flags
    by_cases hname : ifaceName = []
    · subst hname
      have hafter : After (s.kernel.table.put (answers.fresh s.kernel) (.packet (rawSocket []))) s
          { s with kernel := s.kernel.putSocket (answers.fresh s.kernel) ⟨true, none, none⟩ } :=
        ⟨rfl, rfl, rfl, rfl, .refl _, rfl, rfl⟩
      rw [if_neg (not_not.mpr rfl)]
      refine (wp_setPromiscuous hfree hafter answers []).imp fun fd t h => h.imp ?_ ?_
      · rintro ⟨hcalls, hrest⟩
        exact ⟨⟨hsocket, fun h => absurd rfl h, hcalls⟩, hrest⟩
      · rintro ⟨hcalls, hrest⟩
        exact ⟨fun h => hcalls h.2.2, hrest⟩
    · rw [if_pos hname, wp_bind, setsockopt, wp_changeSocket (Kernel.socketOf_putSocket ..)]
      by_cases hbind : answers.setsockopt = true
      · rw [if_pos hbind, if_neg (by decide)]
        have hafter : After
            (s.kernel.table.put (answers.fresh s.kernel) (.packet (rawSocket ifaceName))) s
            { s with
              kernel := (s.kernel.putSocket (answers.fresh s.kernel) ⟨true, none, none⟩).putSocket
                (answers.fresh s.kernel) ⟨true, some (deviceName ifaceName), none⟩ } := by
          refine ⟨rfl, rfl, ?_, rfl, .refl _, rfl, rfl⟩
          rw [rawSocket, if_neg hname]
          exact Descriptors.put_put
        refine (wp_setPromiscuous hfree hafter answers ifaceName).imp fun fd t h => h.imp ?_ ?_
        · rintro ⟨hcalls, hrest⟩
          exact ⟨⟨hsocket, fun _ => hbind, hcalls⟩, hrest⟩
        · rintro ⟨hcalls, hrest⟩
          exact ⟨fun h => hcalls h.2.2, hrest⟩
      · rw [if_neg hbind, if_pos (by decide)]
        have hafter :
            After (s.kernel.table.put (answers.fresh s.kernel) (.packet ⟨true, none, none⟩)) s
              { s with kernel := s.kernel.putSocket (answers.fresh s.kernel) ⟨true, none, none⟩ } :=
          ⟨rfl, rfl, rfl, rfl, .refl _, rfl, rfl⟩
        exact (wp_fail hfree hafter _).imp fun fd t h => .inr ⟨fun h => hbind (h.2.1 hname), h⟩
  · rw [if_neg hsocket]
    refine .inr ⟨fun h => hsocket h.1, rfl, ?_⟩
    exact ⟨rfl, rfl, rfl, rfl, .refl _, rfl, rfl⟩

/-- The socket that a setup leaves: of the interface `ifaceName`, with the function that filters
it. -/
def deviceSocket (ifaceName : Text) (function : Int) : PacketSocket :=
  { rawSocket ifaceName with filter := some function }

/-- **`attachRawSocket`** leaves a socket when all of its calls succeed, and nothing otherwise. -/
theorem wp_attachRawSocket (answers : Answers) (ifaceName : Text) (function : Int) (s : Engine) :
    wp (attachRawSocket answers ifaceName function)
      (fun r t =>
        (Opens answers ifaceName s.kernel ∧ answers.attach = true) ∧
          r = (none, (answers.fresh s.kernel : Int)) ∧
          After (s.kernel.table.put (answers.fresh s.kernel)
            (.packet (deviceSocket ifaceName function))) s t ∨
        ¬(Opens answers ifaceName s.kernel ∧ answers.attach = true) ∧ r.1 ≠ none ∧
          After s.kernel.table s t) E s := by
  rw [attachRawSocket, wp_bind]
  refine (wp_getRawSocket answers ifaceName s).imp fun fd t h => ?_
  obtain ⟨hopens, rfl, hafter⟩ | ⟨hopens, rfl, hafter⟩ := h
  · have hsocket : t.kernel.socketOf (answers.fresh s.kernel) = some (rawSocket ifaceName) := by
      rw [Kernel.socketOf, if_pos (Int.natCast_nonneg _), hafter.table, Int.toNat_natCast,
        Descriptors.entry_put_self]
    rw [if_pos (Int.natCast_nonneg _), wp_bind, bpfAttachSocket, wp_changeSocket hsocket]
    -- a socket that the function cannot be attached to is closed again
    by_cases hattach : answers.attach = true
    · rw [if_pos hattach, if_pos (by decide)]
      refine .inl ⟨⟨hopens, hattach⟩, rfl, { hafter with table := ?_ }⟩
      rw [Kernel.putSocket, hafter.table]
      exact Descriptors.put_put
    · rw [if_neg hattach, if_neg (by decide)]
      obtain ⟨htable, hbad, hflags⟩ := Kernel.close_of_put (answers.entry_fresh _) hafter.table
      refine .inr ⟨fun h => hattach h.2, Option.some_ne_none _, ?_⟩
      exact { hafter with
        table := htable, badCloses := hbad.trans hafter.badCloses
        flags := fun name => hflags ▸ hafter.flags name }
  · rw [if_neg (by decide)]
    exact .inr ⟨fun h => hopens h.1, Option.some_ne_none _, hafter⟩

end Calls

/-! ## Setups -/

/-- A setup, with what it finds: the settings and the answers, for one call in a run of setups. -/
abbrev Request := EngineSettings × Answers

/-- The socket of a setup that succeeds, by its settings and the function that was loaded. -/
def socketFor (request : Request) : PacketSocket :=
  { rawSocket (cString request.1.iface) with
    filter := match request.2.loadFunc with
      | .ok function => some function
      | .error _ => none }

/-- The calls of a setup succeed, with the source code that it loads. -/
def Succeeds (request : Request) (k : Kernel) (source : Text) : Prop :=
  request.2.init source = none ∧ (∃ function, request.2.loadFunc = .ok function) ∧
    Opens request.2 (cString request.1.iface) k ∧ request.2.attach = true

/-- The process **owns** the socket of the last setup that has succeeded, if there is one, beside
what was open at first. -/
structure Owns (k₀ : Kernel) (served : Option PacketSocket) (e : Engine) : Prop where
  /-- Only open numbers are closed, so that none is counted. -/
  badCloses : e.kernel.badCloses = k₀.badCloses
  /-- The flags of the interfaces: `IFF_PROMISC` is all that was set. -/
  flags : OnlyPromisc k₀.flags e.kernel.flags
  /-- The handle and the table: the socket of the engine is all that was opened and not closed. -/
  handle : match served with
    | none => e.sockFd = error ∧ e.kernel.table = k₀.table
    | some sock => ∃ fd : Nat, e.sockFd = fd ∧ k₀.table.entry fd = none ∧
        e.kernel.table = k₀.table.put fd (.packet sock)

section Setups

variable {k₀ : Kernel} {served : Option PacketSocket} {e : Engine} {E : Stop → Engine → Prop}

theorem wp_closeSocket_none {Q : Unit → Engine → Prop} (h : e.sockFd = error) :
    wp closeSocket Q E e ↔ Q () e := by
  rw [closeSocket, wp_bind, wp_get, h, if_neg (by decide)]
  exact Iff.rfl

theorem wp_closeSocket_some {Q : Unit → Engine → Prop} {fd : Nat} (h : e.sockFd = fd)
    (hopen : e.kernel.table.entry fd ≠ none) :
    wp closeSocket Q E e ↔
      Q () { e with kernel := { e.kernel with table := e.kernel.table.erase fd } } := by
  rw [closeSocket, wp_bind, wp_get, h, if_pos (Int.natCast_nonneg fd), wp_close, Kernel.close,
    if_pos ⟨Int.natCast_nonneg fd, by rwa [Int.toNat_natCast]⟩, Int.toNat_natCast, ← h]

/-- `closeSocket` closes the socket that the process owns, and nothing else. -/
theorem Owns.wp_closeSocket (h : Owns k₀ served e) :
    wp closeSocket
      (fun _ t => t.kernel.table = k₀.table ∧ t.kernel.badCloses = k₀.badCloses) E e := by
  obtain ⟨hbad, -, hhandle⟩ := h
  cases served with
  | none => exact (wp_closeSocket_none hhandle.1).mpr ⟨hhandle.2, hbad⟩
  | some sock =>
      obtain ⟨fd, hfd, hfree, htable⟩ := hhandle
      have hopen : e.kernel.table.entry fd ≠ none := by
        rw [htable, Descriptors.entry_put_self]
        exact Option.some_ne_none _
      refine (wp_closeSocket_some hfd hopen).mpr ⟨?_, hbad⟩
      rw [htable]
      exact Descriptors.erase_put hfree

/-- **`setHandle`** closes the socket before it takes the new one, so that one stays open. -/
theorem Owns.wp_setHandle {sock : PacketSocket} {t : Engine} {n : Nat} (h : Owns k₀ served e)
    (hfree : e.kernel.table.entry n = none)
    (hafter : After (e.kernel.table.put n (.packet sock)) e t) :
    wp (setHandle n) (fun _ u => Owns k₀ (some sock) u ∧
      u.executor = t.executor ∧ u.loaded = t.loaded) E t := by
  have hflags := h.flags.trans hafter.flags
  have hbad := hafter.badCloses.trans h.badCloses
  rw [setHandle, wp_bind]
  have hhandle := h.handle
  cases served with
  | none =>
      obtain ⟨hnone, htable⟩ := hhandle
      refine (wp_closeSocket_none (hafter.sockFd.trans hnone)).mpr ⟨⟨hbad, hflags, ?_⟩, rfl, rfl⟩
      exact ⟨n, rfl, htable ▸ hfree, htable ▸ hafter.table⟩
  | some old =>
      obtain ⟨fd, hfd, hfree₀, htable⟩ := hhandle
      -- the new number is another one, because the old one is still open
      have hne : fd ≠ n := by
        rintro rfl
        rw [htable, Descriptors.entry_put_self] at hfree
        exact Option.some_ne_none _ hfree
      have hopen : t.kernel.table.entry fd ≠ none := by
        rw [hafter.table, Descriptors.entry_put_of_ne hne, htable, Descriptors.entry_put_self]
        exact Option.some_ne_none _
      refine (wp_closeSocket_some (hafter.sockFd.trans hfd) hopen).mpr ⟨⟨hbad, hflags, ?_⟩, rfl, rfl⟩
      refine ⟨n, rfl, ?_, ?_⟩
      · rwa [htable, Descriptors.entry_put_of_ne hne.symm] at hfree
      · show t.kernel.table.erase fd = _
        rw [hafter.table, Descriptors.erase_put_of_ne hne, htable, Descriptors.erase_put hfree₀]

/-- `setNonBlockingMode` finds the socket in that mode already, and leaves it so. -/
theorem Owns.wp_setNonBlockingMode {sock : PacketSocket} (h : Owns k₀ (some sock) e)
    (hmode : sock.nonBlocking = true) (answers : Answers) :
    wp (setNonBlockingMode answers) (fun _ t => Owns k₀ (some sock) t ∧
      t.executor = e.executor ∧ t.loaded = e.loaded) E e := by
  obtain ⟨hbad, hflags, fd, hfd, hfree, htable⟩ := h
  have hsocket : e.kernel.socketOf e.sockFd = some sock := by
    rw [Kernel.socketOf, hfd, if_pos (Int.natCast_nonneg _), htable, Int.toNat_natCast,
      Descriptors.entry_put_self]
  -- the socket was opened in this mode, so that the call changes nothing
  have hsame : { sock with nonBlocking := true } = sock := by
    cases sock
    rw [← hmode]
  rw [setNonBlockingMode, wp_bind, wp_get, wp_bind, setfl, wp_changeSocket hsocket, hsame]
  split_ifs
  · refine ⟨⟨hbad, hflags, fd, hfd, hfree, ?_⟩, rfl, rfl⟩
    show (e.kernel.table.put e.sockFd.toNat _) = _
    rw [hfd, Int.toNat_natCast, htable]
    exact Descriptors.put_put
  · exact ⟨⟨hbad, hflags, fd, hfd, hfree, htable⟩, rfl, rfl⟩

/-- **`getDeviceSocket`** leaves the socket of the setup when all of its calls succeed, and nothing
otherwise. -/
theorem wp_getDeviceSocket (request : Request) (sockFd : Int) (s : Engine) :
    wp (getDeviceSocket request.2 sockFd (cString request.1.iface))
      (fun r t =>
        ((∃ function, request.2.loadFunc = .ok function) ∧
            Opens request.2 (cString request.1.iface) s.kernel ∧ request.2.attach = true) ∧
          r = (none, (request.2.fresh s.kernel : Int)) ∧
          After (s.kernel.table.put (request.2.fresh s.kernel) (.packet (socketFor request))) s t ∨
        ¬((∃ function, request.2.loadFunc = .ok function) ∧
            Opens request.2 (cString request.1.iface) s.kernel ∧ request.2.attach = true) ∧
          r.1 ≠ none ∧ After s.kernel.table s t) E s := by
  rw [getDeviceSocket, socketFor]
  cases hload : request.2.loadFunc with
  | error message =>
      -- without a function no socket is opened
      refine .inr ⟨?_, Option.some_ne_none message, ⟨rfl, rfl, rfl, rfl, .refl _, rfl, rfl⟩⟩
      rintro ⟨⟨function, h⟩, -⟩
      cases h
  | ok function =>
      refine (wp_attachRawSocket request.2 _ function s).imp fun r t h => h.imp ?_ ?_
      · rintro ⟨hcalls, hrest⟩
        exact ⟨⟨⟨function, rfl⟩, hcalls⟩, hrest⟩
      · rintro ⟨hcalls, hrest⟩
        exact ⟨fun h => hcalls h.2, hrest⟩

/-- A setup that fails after some calls owns what it owned before. -/
theorem Owns.of_after {t : Engine} (h : Owns k₀ served e) (hafter : After e.kernel.table e t) :
    Owns k₀ served t := by
  refine ⟨hafter.badCloses.trans h.badCloses, h.flags.trans hafter.flags, ?_⟩
  rw [hafter.sockFd, hafter.table]
  exact h.handle

/-- **One setup.** The process owns the new socket when all calls succeed, and the one before
otherwise. -/
theorem Owns.wp_setup (h : Owns k₀ served e) (request : Request) {executor : BPFExecutor}
    (hfilter : filterSourceCode (readFile request.2.files) e.executor (cString request.1.iface)
      (cString request.1.sourceMAC) (cString request.1.svID) = some executor) :
    wp (setup request.1 request.2)
      (fun ok t =>
        Owns k₀ (if ok then some (socketFor request) else served) t ∧ t.executor = executor ∧
          t.loaded = e.loaded ++ [executor.bpfProg.getSourceCode] ∧
          (ok = true ↔ Succeeds request e.kernel executor.bpfProg.getSourceCode)) E e := by
  rw [setup, wp_bind, wp_get, hfilter]
  dsimp only
  rw [wp_bind, wp_modify, wp_bind, load, wp_bind, wp_get, wp_bind, wp_modify, wp_pure]
  dsimp only
  -- the executor and the source codes are those of this setup from here on
  have hstart : Owns k₀ served { e with
      executor := executor, loaded := e.loaded ++ [executor.bpfProg.getSourceCode] } :=
    ⟨h.badCloses, h.flags, h.handle⟩
  by_cases hinit : request.2.init executor.bpfProg.getSourceCode = none
  · rw [if_pos hinit, wp_bind]
    refine (wp_getDeviceSocket request error _).imp fun r t hdevice => ?_
    obtain ⟨hcalls, rfl, hafter⟩ | ⟨hcalls, hfails, hafter⟩ := hdevice
    · rw [if_pos ⟨rfl, Int.natCast_nonneg _⟩, wp_bind]
      refine (hstart.wp_setHandle (request.2.entry_fresh _) hafter).imp fun _ u hhandle => ?_
      obtain ⟨hu, huexecutor, huloaded⟩ := hhandle
      rw [wp_bind]
      refine (hu.wp_setNonBlockingMode rfl request.2).imp fun mode v hmode => ?_
      obtain ⟨hv, hvexecutor, hvloaded⟩ := hmode
      have hexecutor := hvexecutor.trans (huexecutor.trans hafter.executor)
      have hloaded := hvloaded.trans (huloaded.trans hafter.loaded)
      have hsucceeds : Succeeds request e.kernel executor.bpfProg.getSourceCode :=
        ⟨hinit, hcalls⟩
      cases mode with
      | true => exact ⟨hv, hexecutor, hloaded, iff_of_true rfl hsucceeds⟩
      | false =>
          -- the message is printed, and the setup goes on
          exact ⟨⟨hv.badCloses, hv.flags, hv.handle⟩, hexecutor, hloaded, iff_of_true rfl hsucceeds⟩
    · rw [if_neg fun h => hfails h.1]
      have ht := hstart.of_after hafter
      refine ⟨⟨ht.badCloses, ht.flags, ht.handle⟩, hafter.executor, hafter.loaded, ?_⟩
      exact iff_of_false Bool.false_ne_true fun h => hcalls h.2
  · rw [if_neg hinit]
    refine ⟨⟨h.badCloses, h.flags, h.handle⟩, rfl, rfl, ?_⟩
    exact iff_of_false Bool.false_ne_true fun h => hinit h.1

/-! ## An engine and its setups -/

/-- A **new engine**: the template from its file, and no socket. -/
def newEngine (files : Files) (kernel : Kernel) : Engine where
  executor := ofFile files programPath
  sockFd := error
  kernel := kernel
  stdout := []
  stderr := []
  loaded := []

/-- **Setups**, one after the other on the same engine; the list of what each of them returns. -/
def setups : List Request → Call (List Bool)
  | [] => return []
  | request :: requests => do
      let ok ← setup request.1 request.2
      return ok :: (← setups requests)

/-- The socket of the last setup that has succeeded, or the one from before when none has. -/
def lastServed (served : Option PacketSocket) (results : List (Request × Bool)) :
    Option PacketSocket :=
  results.foldl (fun served r => if r.2 then some (socketFor r.1) else served) served

/-- A new engine owns nothing, and its kernel is as it was: `Owns kernel none` holds of it. -/
theorem owns_newEngine (files : Files) (kernel : Kernel) :
    Owns kernel none (newEngine files kernel) := ⟨rfl, .refl _, rfl, rfl⟩

/-- **A run of setups** keeps what the process owns, by induction on the setups. -/
theorem Owns.wp_setups (h : Owns k₀ served e) (requests : List Request) :
    wp (setups requests) (fun oks t =>
      oks.length = requests.length ∧ Owns k₀ (lastServed served (requests.zip oks)) t) E e := by
  induction requests generalizing served e with
  | nil => exact ⟨rfl, h⟩
  | cons request requests ih =>
      obtain ⟨executor, hfilter⟩ := exists_filterSourceCode (readFile request.2.files) e.executor
        (cString request.1.iface) (cString request.1.sourceMAC) (cString request.1.svID)
      rw [setups, wp_bind]
      refine (h.wp_setup request hfilter).imp fun ok t ht => ?_
      rw [wp_bind]
      refine (ih ht.1).imp fun oks u hu => ?_
      exact ⟨by rw [List.length_cons, hu.1, List.length_cons], hu.2⟩

/-- **A run of setups on a settled source code** loads it every time, since no edit finds
anything. -/
theorem Owns.wp_setups_settled (h : Owns k₀ served e)
    (hsettled : Settled e.executor.bpfProg.sourceCode) (requests : List Request) :
    wp (setups requests) (fun oks t =>
      Owns k₀ (lastServed served (requests.zip oks)) t ∧
        t.loaded = e.loaded ++ List.replicate requests.length e.executor.bpfProg.getSourceCode) E
      e := by
  induction requests generalizing served e with
  | nil => exact ⟨h, (List.append_nil _).symm⟩
  | cons request requests ih =>
      -- the source code has no placeholder left, so that filtering it leaves it as it is
      have hfilter := filterSourceCode_settled (readFile request.2.files) hsettled
        (cString request.1.iface) (cString request.1.sourceMAC) (cString request.1.svID)
      rw [setups, wp_bind]
      refine (h.wp_setup request hfilter).imp fun ok t ht => ?_
      obtain ⟨howns, hexecutor, hloaded, -⟩ := ht
      rw [← hexecutor] at hsettled
      rw [wp_bind]
      refine (ih howns hsettled).imp fun oks u hu => ?_
      refine ⟨hu.1, ?_⟩
      rw [hu.2, hloaded, hexecutor, List.length_cons, List.replicate_succ, List.append_assoc,
        List.singleton_append]

/-- **No descriptor is lost or closed twice.** However the calls of the system end, after any setups
of a new engine the process owns the socket of the last one that has succeeded and nothing else, and
when the engine is gone the table is as it was. -/
theorem owns_setups (files : Files) (kernel : Kernel) (requests : List Request) :
    ∃ oks t, setups requests (newEngine files kernel) = .ok oks t ∧
      oks.length = requests.length ∧ Owns kernel (lastServed none (requests.zip oks)) t ∧
      ∃ u, closeSocket t = .ok () u ∧ u.kernel.table = kernel.table ∧
        u.kernel.badCloses = kernel.badCloses := by
  obtain ⟨oks, t, hrun, hlength, howns⟩ :=
    exists_ok_of_wp ((owns_newEngine files kernel).wp_setups requests)
  obtain ⟨⟨⟩, u, hclose, hu⟩ := exists_ok_of_wp howns.wp_closeSocket
  exact ⟨oks, t, hrun, hlength, howns, u, hclose, hu⟩

/-- **The first settings stay.** Every setup of an engine hands the program of the first one to
`ebpf::BPF::init`, whatever the later settings are, while the socket of a setup that succeeds is asked
for the interface of its own settings. -/
theorem loaded_setups {files : Files} (hprogram : files (cString programPath) = some template)
    (kernel : Kernel) {first : Request} {ifaceMac : Text}
    (hiface : getMacByIfaceName (readFile first.2.files) (cString first.1.iface) = some ifaceMac)
    (hifaceMac : Plain ifaceMac) (hsrcMac : Plain (cString first.1.sourceMAC))
    (hsvID : Plain (cString first.1.svID)) (hne : cString first.1.svID ≠ [])
    (requests : List Request) :
    ∃ oks t, setups (first :: requests) (newEngine files kernel) = .ok oks t ∧
      Owns kernel (lastServed none ((first :: requests).zip oks)) t ∧
      t.loaded = List.replicate (requests.length + 1)
        (generated ifaceMac (cString first.1.sourceMAC) (cString first.1.svID)) := by
  have hfilter := filterSourceCode_generated hiface hifaceMac.unmarked hsrcMac.unmarked hne
  rw [← ofFile_shipped hprogram] at hfilter
  refine exists_ok_of_wp ?_
  rw [setups, wp_bind]
  refine ((owns_newEngine files kernel).wp_setup first hfilter).imp fun ok t ht => ?_
  obtain ⟨howns, hexecutor, hloaded, -⟩ := ht
  -- from here on the program is settled
  have hsettled : Settled t.executor.bpfProg.sourceCode := by
    rw [hexecutor]
    exact settled_generated hifaceMac hsrcMac hsvID
  rw [wp_bind]
  refine (howns.wp_setups_settled hsettled requests).imp fun oks u hu => ?_
  refine ⟨hu.1, ?_⟩
  rw [hu.2, hloaded, hexecutor]
  exact (List.replicate_succ ..).symm

/-- The files of the host, and calls that succeed; `init` fails for a source code that is no
filter. -/
def hostAnswers : Answers where
  files := hostFiles
  init source :=
    if (placeholdersOf source).isSome then none else some (text "Unable to initialize BPF program")
  loadFunc := .ok 7
  socket := true
  number t := ⟨t.lowest, t.entry_lowest⟩
  setsockopt := true
  getFlags := true
  setFlags := true
  attach := true
  setfl := true

/-- The settings of the program, on the interface of that host, with the address of its sender. -/
def hostSettings : EngineSettings where
  iface := text "eth0"
  sourceMAC := hexStart ++ text "0cefaf3042cc"
  svID := text "ENS80pointMU01"

/-- The same settings on an interface that the host does not have. -/
def missingSettings : EngineSettings := { hostSettings with iface := text "eth1" }

/-- A host without an open descriptor, on which no interface has a flag set. -/
def idleKernel : Kernel where
  table := { entry := fun _ => none, bounded := ⟨0, fun _ _ => rfl⟩ }
  flags _ := some 0
  badCloses := 0

/-- A first setup for an interface that is missing, whose program has no address, and a second one
with the right settings: it hands the same program to `init`. -/
theorem loaded_setups_other :
    ∃ oks t, setups [(missingSettings, hostAnswers), (hostSettings, hostAnswers)]
        (newEngine hostFiles idleKernel) = .ok oks t ∧
      Owns idleKernel (lastServed none
        ([(missingSettings, hostAnswers), (hostSettings, hostAnswers)].zip oks)) t ∧
      t.loaded = List.replicate 2 (generated hexStart
        (cString (hexStart ++ text "0cefaf3042cc")) (cString (text "ENS80pointMU01"))) :=
  @loaded_setups hostFiles hostFiles_program idleKernel (missingSettings, hostAnswers) _
    getMacByIfaceName_eth1 ⟨by decide, by decide⟩ ⟨by decide, by decide⟩ ⟨by decide, by decide⟩
    (by decide) [(hostSettings, hostAnswers)]

end Setups

end EngineSetup

end IecCore
