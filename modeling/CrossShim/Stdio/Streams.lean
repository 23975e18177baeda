import CrossShim.Memory.Manager

/-!
# Guest streams

The guest's `FILE *` is a number: a handle that `hle_file.cpp` gave out and maps to a host `FILE`, or the address of
one of the three standard streams.  A number that is neither is looked up in guest memory: if the 16-bit word at the
place of the descriptor in a `FILE` is 0, 1 or 2, the number is taken for that standard stream of the host.

So a number that is no stream is refused exactly if that word cannot be read or is none of the three
(`rejects_iff_not_readsStdFd`).  The handles are small numbers, and the memory there is mapped and zero.
-/

namespace CrossShim.Stdio

open Lib Function
open Memory (MemoryManager Outcome)

/-- A host `FILE`: a standard one, or the `n`-th that was opened. -/
inductive HostFile where
  | stdin
  | stdout
  | stderr
  | opened (n : ℕ)
  deriving DecidableEq

inductive Errno where
  | EBADF
  | EINVAL
  | host (n : ℕ)
  deriving DecidableEq

structure Ret where
  x0 : Word
  errno : Option Errno := none
  deriving DecidableEq

/-- The error of a stream that is none, with what the call returns then. -/
def Ret.badf (x0 : Word) : Ret := ⟨x0, some .EBADF⟩

/-- What is done to a host `FILE`. -/
inductive HostOp where
  | transfer (f : HostFile)
  | close (f : HostFile)
  | reopen (f : HostFile)
  deriving DecidableEq

/-- `get_symbol` of the names of the standard streams; 0 if there is none. -/
structure Symbols where
  sF : Word
  stdin : Word
  stdout : Word
  stderr : Word
  deriving DecidableEq

def guestFileSize : Word := 0x98
def guestFileFilenoOffset : Word := 0x70

/-- The callbacks of a stream of `funopen`. -/
structure FunopenState where
  cookie : Word
  readFn : Word
  writeFn : Word
  seekFn : Word
  closeFn : Word
  is64 : Bool
  deriving DecidableEq

/-- The tables; `files` counts the host files opened, and `log` is what was done to host files, the last first. -/
structure State where
  syms : Symbols
  mm : MemoryManager
  fileMap : Word → Option HostFile
  popenHandles : Word → Bool
  popenPids : Word → Option ℕ
  closedBuiltinStreams : Word → Bool
  funopenStreams : Word → Option FunopenState
  nextFd : BitVec 32
  nextPopenFd : Word
  files : ℕ
  log : List HostOp

namespace State

def init (syms : Symbols) (mm : MemoryManager) : State where
  syms := syms
  mm := mm
  fileMap _ := none
  popenHandles _ := false
  popenPids _ := none
  closedBuiltinStreams _ := false
  funopenStreams _ := none
  nextFd := 100
  nextPopenFd := 0x20000000
  files := 0
  log := []

variable (s : State)

/-! ### Which host file -/

def builtinStreamForFd : ℕ → Option HostFile
  | 0 => some .stdin
  | 1 => some .stdout
  | 2 => some .stderr
  | _ => none

/-- The place of a stream in `__sF`. -/
def sFSlot (stream : Word) : Option ℕ :=
  let sf := s.syms.sF
  if sf ≠ 0 ∧ stream ≥ sf ∧ stream < sf + 3 * guestFileSize ∧ (stream - sf) % guestFileSize = 0 then
    some ((stream - sf) / guestFileSize).toNat
  else none

/-- The stream is one of the standard ones by its address. -/
def standardFd (stream : Word) : Option ℕ :=
  match s.sFSlot stream with
  | some fd => some fd
  | none =>
    if stream = s.syms.stdin then some 0
    else if stream = s.syms.stdout then some 1
    else if stream = s.syms.stderr then some 2
    else none

/-- The descriptor in what was read of a guest `FILE`. -/
def fdOfBytes (b : Bytes) : Option ℕ :=
  let guestFd : ℤ := (b 1 ++ b 0).toInt
  if 0 ≤ guestFd ∧ guestFd ≤ 2 then some guestFd.toNat else none

/-- The descriptor that guest memory has at the place of the descriptor in a `FILE`. -/
def memoryFd (outcome : Outcome) (stream : Word) : Option ℕ :=
  (s.mm.read outcome (stream + guestFileFilenoOffset) 2).bind fdOfBytes

/-- `builtin_fd_for_stream`; `none` is -1. -/
def builtinFdForStream (outcome : Outcome) (stream : Word) : Option ℕ :=
  if stream = 0 then none
  else
    match s.standardFd stream with
    | some fd => some fd
    | none => s.memoryFd outcome stream

/-- `hle_resolve_guest_file`. -/
def resolveGuestFile (outcome : Outcome) (stream : Word) : Option HostFile :=
  if stream = 0 then none
  else
    match s.fileMap stream with
    | some f => some f
    | none =>
      if s.closedBuiltinStreams stream then none
      else (s.builtinFdForStream outcome stream).bind builtinStreamForFd

/-! ### The calls -/

def logged (op : HostOp) : State := { s with log := op :: s.log }

/-- What all calls do that open a host file under the next handle: `fopen`, `fopen64`, `fdopen`, `tmpfile`, `tmpfile64`,
`fmemopen`, `open_memstream`, `open_wmemstream`. -/
def openFile (result : Option Ret) : State × Ret :=
  match result with
  | some r => (s, r)
  | none =>
    let fd := s.nextFd.signExtend 64
    ({ s with
        nextFd := s.nextFd + 1
        fileMap := update s.fileMap fd (some (.opened s.files))
        files := s.files + 1 }, ⟨fd, none⟩)

/-- `popen`; `pid` is the child if the handler has made it itself. -/
def popen (pid : Option ℕ) (result : Option Ret) : State × Ret :=
  match result with
  | some r => (s, r)
  | none =>
    let fd := s.nextPopenFd
    ({ s with
        nextPopenFd := fd + 1
        fileMap := update s.fileMap fd (some (.opened s.files))
        popenHandles := update s.popenHandles fd true
        popenPids := update s.popenPids fd (pid.or (s.popenPids fd))
        files := s.files + 1 }, ⟨fd, none⟩)

/-- `funopen` and `funopen64`. -/
def funopen (f : FunopenState) : State × Ret :=
  if f.readFn = 0 ∧ f.writeFn = 0 ∧ f.seekFn = 0 ∧ f.closeFn = 0 then (s, ⟨0, some .EINVAL⟩)
  else
    let fd := s.nextPopenFd
    ({ s with
        nextPopenFd := fd + 1
        funopenStreams := update s.funopenStreams fd (some f) }, ⟨fd, none⟩)

/-- The handle goes from the tables of files and of `popen`. -/
def forget (stream : Word) : State :=
  { s with
    fileMap := update s.fileMap stream none
    popenHandles := update s.popenHandles stream false
    popenPids := update s.popenPids stream none }

/-- `fclose`; `r` is what the host, or the callback of a stream of `funopen`, returns. -/
def fclose (outcome outcome' : Outcome) (stream : Word) (r : Ret) : State × Ret :=
  match s.fileMap stream with
  | some f => ((s.logged (.close f)).forget stream, r)
  | none =>
    match s.funopenStreams stream with
    | some _ => ({ s with funopenStreams := update s.funopenStreams stream none }, r)
    | none =>
      match s.resolveGuestFile outcome stream, s.builtinFdForStream outcome' stream with
      | some f, some _ =>
        if r.x0 = 0 then
          ({ s.logged (.close f) with
              closedBuiltinStreams := update s.closedBuiltinStreams stream true }, r)
        else (s.logged (.close f), r)
      | _, _ => (s, .badf (-1))

def pclose (stream : Word) (r : Ret) : State × Ret :=
  match s.fileMap stream with
  | some f => if s.popenHandles stream then ((s.logged (.close f)).forget stream, r) else (s, .badf (-1))
  | none => (s, .badf (-1))

/-- `freopen` and `freopen64`; the host reopens the same `FILE`, or closes it and fails. -/
def freopen (outcome : Outcome) (stream : Word) (result : Option Ret) : State × Ret :=
  match s.resolveGuestFile outcome stream with
  | none => (s, .badf 0)
  | some f =>
    match result with
    | none =>
      ({ s.logged (.reopen f) with
          fileMap := update s.fileMap stream (some f)
          closedBuiltinStreams := update s.closedBuiltinStreams stream false }, ⟨stream, none⟩)
    | some r => ({ s.logged (.reopen f) with fileMap := update s.fileMap stream none }, r)

end State

open State

/-- The calls that read from a stream or write to it. -/
inductive Transfer where
  | fread
  | fgets
  | fgetc
  | getc
  | ungetc
  | fwrite
  | fputc
  | putc
  | fputs
  deriving DecidableEq

/-- What the call returns for a stream that is none: no items, no string, or `EOF`. -/
def Transfer.failValue : Transfer → Word
  | .fread | .fgets | .fwrite => 0
  | .fgetc | .getc | .ungetc | .fputc | .putc | .fputs => -1

/-- A call that reads or writes; `touches` is false if it has nothing to do, `r` is the result. -/
def State.transfer (s : State) (c : Transfer) (outcome : Outcome) (stream : Word) (touches : Bool) (r : Ret) :
    State × Ret :=
  match s.resolveGuestFile outcome stream with
  | none => (s, .badf c.failValue)
  | some f => (if touches then s.logged (.transfer f) else s, r)

/-- A call of the guest, or what guest code and the loader do to memory and symbols between calls. -/
inductive Event where
  | openFile (result : Option Ret)
  | popen (pid : Option ℕ) (result : Option Ret)
  | funopen (f : FunopenState)
  | fclose (outcome outcome' : Outcome) (stream : Word) (r : Ret)
  | pclose (stream : Word) (r : Ret)
  | freopen (outcome : Outcome) (stream : Word) (result : Option Ret)
  | transfer (c : Transfer) (outcome : Outcome) (stream : Word) (touches : Bool) (r : Ret)
  | guest (syms : Symbols) (mm : MemoryManager)

def State.step (s : State) : Event → State
  | .openFile result => (s.openFile result).1
  | .popen pid result => (s.popen pid result).1
  | .funopen f => (s.funopen f).1
  | .fclose outcome outcome' stream r => (s.fclose outcome outcome' stream r).1
  | .pclose stream r => (s.pclose stream r).1
  | .freopen outcome stream result => (s.freopen outcome stream result).1
  | .transfer c outcome stream touches r => (s.transfer c outcome stream touches r).1
  | .guest syms mm => { s with syms := syms, mm := mm }

def system : System State Event := .ofStep (fun s => ∃ syms mm, s = .init syms mm) fun s e => some (s.step e)

/-! ### Numbers that are no streams -/

def State.Open (s : State) (stream : Word) : Prop := s.fileMap stream ≠ none ∨ s.funopenStreams stream ≠ none

/-- The number is the address of one of the standard streams. -/
def State.Standard (s : State) (stream : Word) : Prop := stream ≠ 0 ∧ s.standardFd stream ≠ none

/-- Guest memory has a standard descriptor where a `FILE` at the number would have its own. -/
def State.ReadsStdFd (s : State) (outcome : Outcome) (stream : Word) : Prop := s.memoryFd outcome stream ≠ none

/-- The number resolves to no host file; every call with it fails with `EBADF` and does nothing. -/
structure Rejects (s : State) (outcome outcome' : Outcome) (stream : Word) : Prop where
  resolve : s.resolveGuestFile outcome stream = none
  transfer : ∀ c touches r, s.transfer c outcome stream touches r = (s, .badf c.failValue)
  fclose : ∀ r, s.fclose outcome outcome' stream r = (s, .badf (-1))
  pclose : ∀ r, s.pclose stream r = (s, .badf (-1))

section Rejected

variable {s : State} {outcome outcome' : Outcome} {stream : Word}

lemma memoryFd_lt {fd : ℕ} (h : s.memoryFd outcome stream = some fd) : fd < 3 := by
  obtain ⟨b, -, hb⟩ := Option.bind_eq_some_iff.1 h
  unfold fdOfBytes at hb
  obtain ⟨hle, heq⟩ := Option.ite_none_right_eq_some.1 hb
  cases heq
  omega

lemma builtinStreamForFd_ne_none {fd : ℕ} (h : fd < 3) : builtinStreamForFd fd ≠ none := by
  obtain rfl | rfl | rfl : fd = 0 ∨ fd = 1 ∨ fd = 2 := by omega
  all_goals exact nofun

lemma resolve_memory (hopen : ¬ s.Open stream) (hstd : ¬ s.Standard stream) (h0 : stream ≠ 0)
    (hclosed : s.closedBuiltinStreams stream = false) :
    s.resolveGuestFile outcome stream = (s.memoryFd outcome stream).bind builtinStreamForFd := by
  have hmap : s.fileMap stream = none := not_not.1 fun h => hopen (.inl h)
  have hfd : s.standardFd stream = none := not_not.1 fun h => hstd ⟨h0, h⟩
  unfold resolveGuestFile builtinFdForStream
  rw [if_neg h0, hmap, hclosed, if_neg h0, hfd]
  rfl

lemma resolve_eq_none_iff (hopen : ¬ s.Open stream) (hstd : ¬ s.Standard stream) :
    s.resolveGuestFile outcome stream = none ↔
      stream = 0 ∨ s.closedBuiltinStreams stream = true ∨ ¬ s.ReadsStdFd outcome stream := by
  have hmap : s.fileMap stream = none := not_not.1 fun h => hopen (.inl h)
  by_cases h0 : stream = 0
  · exact iff_of_true (by simp [resolveGuestFile, h0]) (.inl h0)
  · cases hclosed : s.closedBuiltinStreams stream with
    | true => exact iff_of_true (by simp [resolveGuestFile, hmap, hclosed]) (.inr (.inl rfl))
    | false =>
      rw [resolve_memory hopen hstd h0 hclosed]
      cases hfd : s.memoryFd outcome stream with
      | none => exact iff_of_true rfl (.inr (.inr fun h => h hfd))
      | some fd =>
        refine iff_of_false (builtinStreamForFd_ne_none (memoryFd_lt hfd)) ?_
        rintro (h | h | h)
        · exact h0 h
        · cases h
        · exact h (by simp [ReadsStdFd, hfd])

lemma rejects_of_resolve (hopen : ¬ s.Open stream) (h : s.resolveGuestFile outcome stream = none) :
    Rejects s outcome outcome' stream where
  resolve := h
  transfer c touches r := by
    unfold transfer
    rw [h]
  fclose r := by
    unfold fclose
    rw [not_not.1 fun h => hopen (.inl h), not_not.1 fun h => hopen (.inr h), h]
  pclose r := by
    unfold pclose
    rw [not_not.1 fun h => hopen (.inl h)]

/-- A handle of a file that `fclose` or `pclose` has closed is the handle of no stream any more. -/
theorem not_open_closed {f : HostFile} (h : s.fileMap stream = some f) (hfun : s.funopenStreams stream = none)
    (r : Ret) :
    ¬ (s.fclose outcome outcome' stream r).1.Open stream ∧
      (s.popenHandles stream = true → ¬ (s.pclose stream r).1.Open stream) := by
  have hforget : ¬ ((s.logged (.close f)).forget stream).Open stream := by
    rintro (hmap | hf)
    · exact hmap (update_self ..)
    · exact hf hfun
  unfold fclose pclose
  rw [h]
  refine ⟨hforget, fun hpopen => ?_⟩
  dsimp only
  rw [if_pos hpopen]
  exact hforget

end Rejected

/-- **A number that is neither the handle of an open stream nor the address of a standard one resolves to no host file,
and every call with it fails with `EBADF` and does nothing, exactly if it is null, or was closed as a standard stream,
or guest memory has no standard descriptor at its place.** -/
theorem rejects_iff_not_readsStdFd {s : State} {stream : Word} (hopen : ¬ s.Open stream) (hstd : ¬ s.Standard stream)
    (outcome outcome' : Outcome) :
    Rejects s outcome outcome' stream ↔
      stream = 0 ∨ s.closedBuiltinStreams stream = true ∨ ¬ s.ReadsStdFd outcome stream := by
  rw [← resolve_eq_none_iff hopen hstd]
  exact ⟨fun h => h.resolve, rejects_of_resolve hopen⟩

/-- A new process: the memory of the emulator as it is mapped, and the standard streams of the guest's libc. -/
def newProcess : State :=
  .init ⟨0x40010000, 0, 0, 0⟩ { MemoryManager.init (MemoryManager.initialRegions {}) with qemuReady := true }

/-- `popen` gives the handle 0x20000000, which `pclose` closes; QEMU and the host have no memory there. -/
theorem rejects_closed_pipe :
    let s := [Event.popen none none, .pclose 0x20000000 ⟨0, none⟩].foldl step newProcess
    s.log = [.close (.opened 0)] ∧ Rejects s (.fail 0) (.fail 0) 0x20000000 := by
  intro s
  refine ⟨by decide, (rejects_iff_not_readsStdFd (s := s) ?_ ?_ _ _).2 (.inr (.inr ?_))⟩
  · rintro (h | h) <;> exact h rfl
  · exact fun h => h.2 (by decide)
  · exact not_not.2 (by decide)

/-- `fopen` gives the handle 100, which `fclose` closes. The word at 100 + 0x70 is 0, so the handle is then the host's
standard input: `fgetc` reads from it, and a second `fclose` closes it. -/
theorem closed_handle_is_stdin :
    ∃ s, [Event.openFile none, .fclose .ok .ok 100 ⟨0, none⟩].foldl step newProcess = s ∧ system.Reachable s ∧
      s.fileMap 100 = none ∧ s.funopenStreams 100 = none ∧ s.standardFd 100 = none ∧
      s.resolveGuestFile .ok 100 = some .stdin ∧
      (s.transfer .fgetc .ok 100 true ⟨10, none⟩).1.log = .transfer .stdin :: s.log ∧
      (s.fclose .ok .ok 100 ⟨0, none⟩).1.log = .close .stdin :: s.log := by
  have hopen : system.Reachable (newProcess.step (.openFile none)) :=
    System.Reachable.next (a := .openFile none) (.init ⟨_, _, rfl⟩) rfl
  exact ⟨_, rfl, hopen.next (a := .fclose .ok .ok 100 ⟨0, none⟩) rfl, by decide⟩

end CrossShim.Stdio
