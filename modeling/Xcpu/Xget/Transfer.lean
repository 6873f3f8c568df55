import Xcpu.Lib.Overwrite
import Xcpu.Lib.Transition

/-!
The contents of the files of xget. A client downloads its files in chunks, which `netreadcb` writes to the
local files, and `tick` compares the checksums and tries again. Meanwhile `respondreqs` answers the reads
of other clients from what is there.
-/

namespace Xcpu.Xget.Transfer

open Xcpu.Overwrite

abbrev Bytes := List UInt8

/-- `req` is the request of the server library, by its number. -/
structure Req where
  offset : UInt64
  count : UInt32
  req : Nat
  deriving DecidableEq

/-- `adler` takes one byte more into a checksum; `empty` is `adler32(0L, Z_NULL, 0)`. -/
structure Config (Checksum : Type) where
  adler : Checksum → UInt8 → Checksum
  empty : Checksum
  changeperms : Bool
  maxretries : Nat
  retrytime : Int

def Config.adler32 {Checksum : Type} (cfg : Config Checksum) (checksum : Checksum) (buf : Bytes) : Checksum :=
  buf.foldl cfg.adler checksum

/-- `lname` has the bytes of the local file, `datafd` tells whether a download brings data. -/
structure File (Checksum : Type) where
  lname : Option Bytes
  datasize : Nat
  datalen : Nat
  reqs : List Req := []
  checksum : Checksum
  checksumPtr : Nat := 0
  finished : Int := 0
  progress : Int := 0
  retries : Nat := 0
  datafd : Bool := false

/-- What a read gets: the data, with the request and the downloaded part of the file at that time, an
Rflush, or nothing, as its Tflush is answered. -/
inductive Answer where
  | rread (data : Bytes) (req : Req) (datasize : Nat) (copy : Bytes)
  | rflush
  | dropped
  deriving DecidableEq

section Serving

variable {Checksum : Type}

/-- The downloaded part of the local file. -/
def File.copy (f : File Checksum) : Bytes := (f.lname.getD []).take f.datalen

/-- The difference is one of 64 bits, which is never negative. -/
def readCount (f : File Checksum) (req : Req) : Nat :=
  min ((f.datalen + 2 ^ 64 - req.offset.toNat) % 2 ^ 64) req.count.toNat

def due (f : File Checksum) (req : Req) : Prop :=
  f.datalen = f.datasize ∨
    4096 < readCount f req ∧ (req.offset.toNat + readCount f req) % 2 ^ 64 < f.datalen

instance (f : File Checksum) (req : Req) : Decidable (due f req) := inferInstanceAs (Decidable (_ ∨ _))

/-- `open`, `lseek` and `read`. The offset of `lseek` is signed. -/
def readLocal (f : File Checksum) (req : Req) : Option Bytes :=
  if 2 ^ 63 ≤ req.offset.toNat then none
  else f.lname.map fun bytes => (bytes.drop req.offset.toNat).take (readCount f req)

variable (cfg : Config Checksum)

def addChecksum (f : File Checksum) (req : Req) (buf : Bytes) : File Checksum :=
  if req.offset.toNat = f.checksumPtr then
    { f with checksum := cfg.adler32 f.checksum buf, checksumPtr := f.checksumPtr + buf.length }
  else f

/-- The loop over the requests, which ends at an error; the local file fails at the read with the number
`fault`. It returns the requests that stay in the list and the answers. -/
def respondLoop : Option Nat → File Checksum → List Req → File Checksum × List Req × List (Nat × Answer)
  | _, f, [] => (f, [], [])
  | fault, f, req :: rest =>
      if due f req then
        match (if fault = some 0 then none else readLocal f req) with
        | none => (f, rest, [(req.req, .rflush)])
        | some buf =>
            let (f', reqs, answers) := respondLoop (fault.map (· - 1)) (addChecksum cfg f req buf) rest
            (f', reqs, (req.req, .rread buf req f.datasize f.copy) :: answers)
      else
        let (f', reqs, answers) := respondLoop fault f rest
        (f', req :: reqs, answers)

def respondreqs (fault : Option Nat) (f : File Checksum) : File Checksum × List (Nat × Answer) :=
  let (f, reqs, answers) := respondLoop cfg fault f f.reqs
  ({ f with reqs }, answers)

def dataRead (fault : Option Nat) (f : File Checksum) (req : Req) : File Checksum × List (Nat × Answer) :=
  respondreqs cfg fault { f with reqs := req :: f.reqs }

/-- Where the local file fails in `netreadcb`; a `write` may write the first bytes. -/
inductive Failure where
  | unlink
  | open
  | write (written : Nat)
  deriving DecidableEq

/-- An error of the local file ends the process, an error of the connection does not. -/
inductive Outcome where
  | stored
  | error
  | fatal
  deriving DecidableEq

/-- The chunk is written behind the others, and taken into the checksum when that has come so far. -/
def addChunk (buf : Bytes) (f : File Checksum) : File Checksum :=
  let f := { f with lname := some (overwrite (f.lname.getD []) f.datalen buf) }
  let f :=
    if f.datalen = f.checksumPtr then
      { f with checksum := cfg.adler32 f.checksum buf, checksumPtr := f.checksumPtr + buf.length }
    else f
  { f with datalen := f.datalen + buf.length }

def received (now : Int) (f : File Checksum) : File Checksum :=
  let f := if f.datasize ≤ f.datalen then { f with datafd := false, finished := 1 } else f
  { f with progress := now }

/-- `netreadcb` up to `respondreqs`. Without a chunk `spcfd_read` fails. -/
def store (now : Int) (chunk : Option Bytes) (failure : Option Failure) (f : File Checksum) :
    File Checksum × Outcome :=
  if f.datalen = 0 ∧ f.lname ≠ none ∧ failure = some .unlink then ({ f with finished := 4 }, .fatal)
  else
    let f := if f.datalen = 0 then { f with lname := none } else f
    match chunk, failure with
    | none, _ => ({ f with finished := 4 }, .error)
    | some _, some .open => ({ f with finished := 4 }, .fatal)
    | some buf, some (.write written) =>
        let lname := some (overwrite (f.lname.getD []) f.datalen (buf.take written))
        ({ f with lname, finished := 4 }, .fatal)
    | some buf, _ =>
        -- the end of a file has a signed offset
        if 2 ^ 63 ≤ f.datalen + buf.length then ({ f with finished := 4 }, .fatal)
        else (received now (addChunk cfg buf f), .stored)

/-- What the calls that `tick` makes for a file return: the checksum that the master sends, and whether
`chmod` and the open of the data file on the master succeed. -/
structure TickInput (Checksum : Type) where
  master : Option Checksum := none
  chmods : Bool := true
  opens : Bool := true

def fileFinalize (write chmods : Bool) (f : File Checksum) : File Checksum × Bool :=
  if cfg.changeperms = false then ({ f with finished := 2 }, true)
  else if write then (f, chmods)
  else ({ f with finished := 2 }, true)

def fileretry (now : Int) (input : TickInput Checksum) (offset : Nat) (f : File Checksum) : File Checksum × Bool :=
  if f.retries = cfg.maxretries then (f, false)
  else
    match fileFinalize cfg true input.chmods { f with retries := f.retries + 1 } with
    | (f, false) => (f, false)
    | (f, true) =>
        ({ f with
          checksum := cfg.empty
          checksumPtr := 0
          progress := now
          finished := 0
          datalen := if offset = 0 then 0 else f.datalen
          datafd := input.opens }, input.opens)

variable [DecidableEq Checksum]

def matchsum (f : File Checksum) (master : Option Checksum) : Int := if master = some f.checksum then 1 else -1

/-- The comparison in `tick`. -/
def compare (input : TickInput Checksum) (f : File Checksum) : File Checksum :=
  if f.finished = 1 then
    let f := { f with finished := matchsum f input.master }
    if f.finished = 1 then (fileFinalize cfg false input.chmods f).1 else f
  else f

def giveUp (f : File Checksum) : File Checksum := if f.finished = 4 then { f with finished := 2 } else f

/-- The body of the loop in `tick`: whether the file counts as done, and whether `tick` goes on. -/
def tickFile (now : Int) (input : TickInput Checksum) (f : File Checksum) : File Checksum × Bool × Bool :=
  match (if f.finished < 0 then fileretry cfg now input 0 f else (f, true)) with
  | (f, false) => (f, false, false)
  | (f, true) =>
      let f := compare cfg input f
      if f.finished = 2 then (f, true, true)
      else
        let f := giveUp f
        if now - f.progress > cfg.retrytime then
          let (f, retries) := fileretry cfg now input f.datalen f
          (f, false, retries)
        else (f, false, true)

/-- The loop in `tick`: whether all files are done, and whether it came to the end. -/
def tickLoop (now : Int) : List (File Checksum) → List (TickInput Checksum) → List (File Checksum) × Bool × Bool
  | [], _ => ([], true, true)
  | f :: files, inputs =>
      match tickFile cfg now (inputs.headD {}) f with
      | (f, _, false) => (f :: files, false, false)
      | (f, fdone, true) =>
          let (files, rest, goes) := tickLoop now files inputs.tail
          (f :: files, fdone && rest, goes)

end Serving

/-- The reads that came have the numbers below `issued`, and `answers` are their answers, also when one is
answered twice. `ename` is the error that ends the process when the main loop sees it. -/
structure Process (Checksum : Type) where
  files : List (File Checksum)
  issued : Nat := 0
  answers : List (Nat × Answer) := []
  endtime : Bool := false
  ename : Bool := false
  exited : Bool := false

section Processes

variable {Checksum : Type} [DecidableEq Checksum] (cfg : Config Checksum)

/-- The request is in `workreqs`. -/
def Process.outstanding (process : Process Checksum) (req : Nat) : Prop :=
  req < process.issued ∧ req ∉ process.answers.map Prod.fst

instance (process : Process Checksum) (req : Nat) : Decidable (process.outstanding req) :=
  inferInstanceAs (Decidable (_ ∧ _))

/-- The request is taken from the list of the first file, if it is there. -/
def xflush (process : Process Checksum) (req : Nat) : Process Checksum :=
  match process.files with
  | [] => process
  | f :: files =>
      { process with
        files := { f with reqs := f.reqs.eraseP (·.req = req) } :: files
        answers := process.answers ++ [(req, .dropped)] }

/-- The main loop looks for an error before it calls `tick`. -/
def tick (now : Int) (inputs : List (TickInput Checksum)) (process : Process Checksum) : Process Checksum :=
  if process.ename then { process with exited := true }
  else if process.endtime then process
  else
    let (files, fdone, goes) := tickLoop cfg now process.files inputs
    { process with files, endtime := fdone, exited := !goes }

inductive Event (Checksum : Type) where
  | read (k : Nat) (offset : UInt64) (count : UInt32) (fault : Option Nat)
  | arrive (k : Nat) (now : Int) (chunk : Option Bytes) (failure : Option Failure) (fault : Option Nat)
  | flush (req : Nat)
  | tick (now : Int) (inputs : List (TickInput Checksum))

def Process.setFile (process : Process Checksum) (k : Nat) (served : File Checksum × List (Nat × Answer)) :
    Process Checksum :=
  { process with files := process.files.set k served.1, answers := process.answers ++ served.2 }

def step (process : Process Checksum) (event : Event Checksum) : Process Checksum :=
  if process.exited then process
  else
    match event with
    | .read k offset count fault =>
        match process.files[k]? with
        | some f =>
            { process with issued := process.issued + 1 }.setFile k
              (dataRead cfg fault f { offset, count, req := process.issued })
        | none => process
    | .arrive k now chunk failure fault =>
        match process.files[k]? with
        | some f =>
            if f.datafd then
              match store cfg now chunk failure f with
              | (f, .stored) => process.setFile k (respondreqs cfg fault f)
              | (f, .error) => process.setFile k (f, [])
              | (f, .fatal) => { process.setFile k (f, []) with ename := true }
            else process
        | none => process
    | .flush req => if process.outstanding req then xflush process req else process
    | .tick now inputs => tick cfg now inputs process

/-- A file that the master serves, or one that is to be downloaded, where a local file may be in the way and
the data file may not open. -/
inductive Source where
  | served (data : Bytes) (small : data.length < 2 ^ 63)
  | download (datasize : UInt64) (lname : Option Bytes) (opens : Bool)

/-- `filealloc`, and what `netfileread` makes of the file. -/
def filealloc : Source → File Checksum
  | .served data _ =>
      { lname := some data, datasize := data.length, datalen := data.length, checksum := cfg.empty }
  | .download datasize lname opens =>
      { lname
        datasize := datasize.toNat
        datalen := 0
        checksum := cfg.empty
        finished := if opens then 0 else 4
        datafd := opens }

def start (sources : List Source) : Process Checksum := { files := sources.map (filealloc cfg) }

end Processes

end Xcpu.Xget.Transfer
