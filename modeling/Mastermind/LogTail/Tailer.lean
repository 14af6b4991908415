import Mastermind.Effect.Worker

/-!
# The log tailer

The agent follows the log of each game server and uploads it in chunks. This is
`internal/logtail/logtail.go`: the fields of `tailer`, and `step`, which the loop of `Run` calls
again and again, with what it calls. Every call to the operating system and to the control plane
is a statement, so that the file can change, and any call can fail, at any point of a step. A Go
function that returns an error is a script that ends with the tailer as it left it and the error.

`Disk` is what the tailer sees of the file system: the files, of which one may be named by the
path that it follows, and its open handles. `DiskEvent` is what others do to it.
-/

namespace Mastermind.LogTail

open Effect Program

/-- `maxChunkSize`. -/
def maxChunkSize : ℕ := 64 * 1024

/-- `initialTail`. -/
def initialTail : ℕ := 64 * 1024

/-- `batchLatency`, in milliseconds. -/
def batchLatency : ℤ := 350

/-- An open file: which file it is, and the offset at which it is read next. -/
structure Handle where
  file : ℕ
  offset : ℕ
deriving DecidableEq

/-- The files, by number, the file that the followed path names, and the handles opened. -/
structure Disk where
  files : List (List UInt8)
  path : Option ℕ
  handles : List Handle

/-- The bytes of a file. -/
def Disk.text (d : Disk) (i : ℕ) : List UInt8 := d.files.getD i []

/-- What the code reads of an `os.FileInfo`: which file it is about, and its size. -/
structure FileInfo where
  file : ℕ
  size : ℕ

/-- The errors that the code tells apart. -/
inductive IOError where
  | notExist | canceled | other
deriving DecidableEq

/-- The calls that leave the tailer. `discard` is a `Close` whose error is ignored. -/
inductive Call where
  | open
  | stat (h : ℕ)
  | statPath
  | seek (h offset : ℕ)
  | read (h limit : ℕ)
  | close (h : ℕ)
  | discard (h : ℕ)
  | upload (content : List UInt8)

/-- What a call that succeeds returns. -/
abbrev Answer : Call → Type
  | .open => ℕ
  | .stat _ => FileInfo
  | .statPath => FileInfo
  | .seek _ _ => Unit
  | .read _ _ => List UInt8
  | .close _ => Unit
  | .discard _ => Unit
  | .upload _ => Unit

namespace Disk

variable (d : Disk)

/-- `os.Open` of the followed path. -/
def openPath : Except IOError ℕ × Disk :=
  match d.path with
  | none => (.error .notExist, d)
  | some i => (.ok d.handles.length, { d with handles := d.handles ++ [⟨i, 0⟩] })

/-- `os.Stat` of the followed path. -/
def statPath : Except IOError FileInfo :=
  match d.path with
  | none => .error .notExist
  | some i => .ok ⟨i, (d.text i).length⟩

/-- `File.Stat`. -/
def stat (h : ℕ) : Except IOError FileInfo :=
  match d.handles[h]? with
  | none => .error .other
  | some x => .ok ⟨x.file, (d.text x.file).length⟩

/-- `File.Seek` from the start of the file. -/
def seek (h offset : ℕ) : Except IOError Unit × Disk :=
  (.ok (), { d with handles := d.handles.modify h fun x => { x with offset := offset } })

/-- `File.Read` into a buffer of `limit` bytes: what the file has from the offset on, up to the
limit. At the end of the file it is nothing, which Go reports as `io.EOF`. -/
def read (h limit : ℕ) : Except IOError (List UInt8) × Disk :=
  match d.handles[h]? with
  | none => (.error .other, d)
  | some x =>
    let bytes := ((d.text x.file).drop x.offset).take limit
    (.ok bytes, { d with handles := d.handles.set h ⟨x.file, x.offset + bytes.length⟩ })

end Disk

/-- What each call does to the disk. An upload leaves it alone: what the control plane accepted is
read off the calls made (`delivered`). -/
def Call.exec : (c : Call) → Disk → Except IOError (Answer c) × Disk
  | .open, d => d.openPath
  | .stat h, d => (d.stat h, d)
  | .statPath, d => (d.statPath, d)
  | .seek h offset, d => d.seek h offset
  | .read h limit, d => d.read h limit
  | .close _, d => (.ok (), d)
  | .discard _, d => (.ok (), d)
  | .upload _, d => (.ok (), d)

/-- The machine of the tailer: every call can fail. -/
def tailMachine : Machine Answer IOError Disk := ⟨Call.exec, fun _ => true, .other⟩

/-- A call as a program that returns its answer. -/
abbrev Attempt (α : Type) := Program Answer IOError (Except IOError α)

/-- `os.Open` of the followed path. -/
abbrev osOpen : Attempt ℕ := attempt Call.open

/-- `os.Stat` of the followed path. -/
abbrev osStat : Attempt FileInfo := attempt Call.statPath

/-- `f.Stat()`. -/
abbrev statFile (f : ℕ) : Attempt FileInfo := attempt (Call.stat f)

/-- `f.Seek(offset, io.SeekStart)`. -/
abbrev seekFile (f offset : ℕ) : Attempt Unit := attempt (Call.seek f offset)

/-- `f.Read` into `limit` bytes. -/
abbrev readFile (f limit : ℕ) : Attempt (List UInt8) := attempt (Call.read f limit)

/-- `f.Close()`. -/
abbrev closeFile (f : ℕ) : Attempt Unit := attempt (Call.close f)

/-- `_ = f.Close()`. -/
abbrev discardFile (f : ℕ) : Attempt Unit := attempt (Call.discard f)

/-- `StreamLogBytes`. -/
abbrev streamLogBytes (content : List UInt8) : Attempt Unit := attempt (Call.upload content)

/-- The state of a tailer. `file` is its handle, if it has one open. The file information that it
keeps is left out, since nothing reads it. -/
structure Tailer where
  file : Option ℕ
  initialized : Bool
  readOffset : ℕ
  ackedOffset : ℕ
  pending : List UInt8
  pendingSince : ℤ
  resetPending : Bool
  replaced : Bool
  missing : Bool

/-- `newTailer`. -/
def newTailer : Tailer := ⟨none, false, 0, 0, [], 0, false, false, false⟩

/-- A Go function of the tailer that returns an error or `nil`. -/
abbrev Script := Program Answer IOError (Tailer × Option IOError)

/-- `if err := p; err != nil { return err }`, and then `f`. -/
def unlessError (p : Script) (f : Tailer → Script) : Script := do
  let (t, err) ← p
  match err with
  | some e => return (t, some e)
  | none => f t

namespace Tailer

variable (t : Tailer)

/-- `open`. -/
def openFile : Script := do
  match ← osOpen with
  | .error e => return (t, some e)
  | .ok f =>
    match ← statFile f with
    | .error e =>
      let _ ← discardFile f
      return (t, some e)
    | .ok info =>
      let start := if !t.initialized && initialTail < info.size then info.size - initialTail else 0
      match ← seekFile f start with
      | .error e =>
        let _ ← discardFile f
        return (t, some e)
      | .ok _ =>
        return ({ t with
          file := some f
          initialized := true
          readOffset := start
          ackedOffset := start
          replaced := false
          missing := false
          resetPending := false }, none)

/-- `observePath`, with `f` the open file. -/
def observePath (f : ℕ) : Script := do
  match ← statFile f with
  | .error e => return (t, some e)
  | .ok openInfo =>
    let t := if openInfo.size < t.readOffset then { t with resetPending := true } else t
    match ← osStat with
    | .error .notExist => return ({ t with missing := true }, none)
    | .error e => return (t, some e)
    | .ok pathInfo =>
      return ({ t with missing := false, replaced := openInfo.file != pathInfo.file }, none)

/-- `reset`. -/
def reset (f : ℕ) : Script := do
  match ← seekFile f 0 with
  | .error e => return (t, some e)
  | .ok _ => return ({ t with readOffset := 0, ackedOffset := 0, resetPending := false }, none)

/-- The part of `step` that reads into the free part of `pending`. -/
def fill (f : ℕ) (now : ℤ) : Script := do
  match ← readFile f (maxChunkSize - t.pending.length) with
  | .error e => return (t, some e)
  | .ok bytes =>
    if bytes.length = 0 then
      -- `io.EOF`
      if (t.replaced || t.missing) && 0 < t.pending.length then
        return ({ t with pendingSince := now - batchLatency }, none)
      else return (t, none)
    else
      return ({ t with
        pendingSince := if t.pending.length = 0 then now else t.pendingSince
        pending := t.pending ++ bytes
        readOffset := t.readOffset + bytes.length }, none)

/-- `batchDue`. -/
def batchDue (now : ℤ) : Bool :=
  0 < t.pending.length && t.pendingSince + batchLatency ≤ now

/-- `flush`. -/
def flush : Script :=
  if t.pending.length = 0 then return (t, none)
  else do
    match ← streamLogBytes t.pending with
    | .error e => return (t, some e)
    | .ok _ =>
      return ({ t with
        ackedOffset := t.ackedOffset + t.pending.length
        pending := []
        pendingSince := 0 }, none)

/-- `switchToReplacement`, with `old` the open file. -/
def switchToReplacement (old : ℕ) : Script := do
  match ← osOpen with
  | .error e => return (t, some e)
  | .ok f =>
    match ← statFile f with
    | .error e =>
      let _ ← discardFile f
      return (t, some e)
    | .ok _ =>
      let t := { t with
        file := some f
        readOffset := 0
        ackedOffset := 0
        replaced := false
        missing := false
        resetPending := false }
      match ← closeFile old with
      | .error e => return (t, some e)
      | .ok _ => return (t, none)

/-- `step`, after `open`: what it does with the open file `f`. -/
def follow (f : ℕ) (now : ℤ) : Script :=
  unlessError (t.observePath f) fun t =>
  unlessError (if t.resetPending && t.pending.length = 0 then t.reset f else return (t, none))
    fun t =>
  unlessError (if t.pending.length < maxChunkSize && !t.resetPending then t.fill f now
    else return (t, none)) fun t =>
  unlessError (if t.pending.length = maxChunkSize || t.batchDue now then t.flush
    else return (t, none)) fun t =>
  if t.pending.length = 0 && t.replaced then t.switchToReplacement f else return (t, none)

/-- `step`, at the time `now`, with the context cancelled or not. -/
def step (now : ℤ) (cancelled : Bool) : Script :=
  if cancelled then return (t, some .canceled)
  else
    unlessError (if t.file.isNone then t.openFile else return (t, none)) fun t =>
    match t.file with
    | none => return (t, none)
    | some f => t.follow f now

end Tailer

/-- One round of the loop of `Run`: a step at a time, which may find the context cancelled. The
error of a step only delays the next one. -/
structure Round where
  now : ℤ
  cancelled : Bool

/-- The program of a round. -/
def Round.prog (o : Round) (t : Tailer) : Program Answer IOError Tailer := do
  return (← t.step o.now o.cancelled).1

/-- What others do to the files: append to one of them, rename the one that the path names, and
create a new one under the path. -/
inductive DiskEvent where
  | append (i : ℕ) (bytes : List UInt8)
  | rename
  | create

/-- The disk after an event. -/
def DiskEvent.apply : DiskEvent → Disk → Disk
  | .append i bytes, d => { d with files := d.files.modify i (· ++ bytes) }
  | .rename, d => { d with path := none }
  | .create, d => { d with files := d.files ++ [[]], path := some d.files.length }

/-- A disk with one file, which the path names. -/
def Disk.single (bytes : List UInt8) : Disk := ⟨[bytes], some 0, []⟩

/-- A call of the tailer with its answer and the disk before and after it. -/
abbrev TailEvent := Event Answer IOError Disk

/-- The contents that the calls tried to upload, oldest first. -/
def attempted : List TailEvent → List (List UInt8)
  | [] => []
  | e :: trace => attempted trace ++ match e with
    | ⟨_, .upload content, _, _, _⟩ => [content]
    | _ => []

/-- The contents that the control plane accepted, oldest first. -/
def delivered : List TailEvent → List (List UInt8)
  | [] => []
  | e :: trace => delivered trace ++ match e with
    | ⟨_, .upload content, .ok _, _, _⟩ => [content]
    | _ => []

/-- The offset at which the tailer last started to read a file by a seek. -/
def startOffset : List TailEvent → Option ℕ
  | [] => none
  | e :: trace => match e with
    | ⟨_, .seek _ offset, .ok _, _, _⟩ => some offset
    | _ => startOffset trace

/-- The files that the tailer has left for their replacement: those whose handle it closed. -/
def filesLeft : List TailEvent → List ℕ
  | [] => []
  | e :: trace => match e with
    | ⟨_, .close h, _, before, _⟩ => (before.handles[h]?).toList.map Handle.file ++ filesLeft trace
    | _ => filesLeft trace

end Mastermind.LogTail
