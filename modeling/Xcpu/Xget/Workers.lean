import Xcpu.Lib.Linked
import Xcpu.Lib.Numerals

/-!
The workers of the files that xget serves (`xget.c`) on the master, the servers at which they answer, and the
clients that were sent to them.
-/

namespace Xcpu.Xget.Workers

open Xcpu.Linked Xcpu.Numerals

abbrev Bytes := List UInt8

structure Server where
  saddress : Bytes
  conns : Nat
  next : Option Nat
  prev : Option Nat

structure Worker where
  prev : Option Nat
  next : Option Nat
  server : Option Nat
  slevel : Nat

/-- `workersused` has the worker of each `Usedworker`. -/
structure Client where
  caddress : Bytes
  clevels : List Nat
  workersused : List Nat

structure File where
  numworkers : Int := 0
  firstworker : Option Nat := none
  lastworker : Option Nat := none
  nextworker : Option Nat := none

/-- A fid of the avail file of `file`, on the connection with this address. -/
structure Spfilefid where
  file : Nat
  address : Bytes
  aux : Option Nat := none

def workerPtr : Pointers Worker where
  next := Worker.next
  prev := Worker.prev
  setNext next worker := { worker with next }
  setPrev prev worker := { worker with prev }
  next_setNext _ _ := rfl
  prev_setNext _ _ := rfl
  next_setPrev _ _ := rfl
  prev_setPrev _ _ := rfl

def serverPtr : Pointers Server where
  next := Server.next
  prev := Server.prev
  setNext next server := { server with next }
  setPrev prev server := { server with prev }
  next_setNext _ _ := rfl
  prev_setNext _ _ := rfl
  next_setPrev _ _ := rfl
  prev_setPrev _ _ := rfl

structure Limits where
  maxlevels : Nat
  maxconnections : Int
  levels : 2 ≤ maxlevels

/-- `made` is the number of workers and servers that there have been, which no list is longer than. `crashed` is
set by `strcpy` to a null pointer. -/
structure Xget where
  clients : List Client := []
  files : List File
  servers : Option Nat := none
  workerAt : Heap Worker := fun _ => none
  serverAt : Heap Server := fun _ => none
  fids : Nat → Option Spfilefid := fun _ => none
  made : Nat := 0
  crashed : Bool := false

/-- An allocation that succeeds gives an address that is not in use. -/
def malloc {Rec : Type} (heap : Heap Rec) (address : Option Nat) : Option Nat :=
  address.filter fun new => (heap new).isNone

def Server.less (count : Nat) (server : Server) : Server := { server with conns := server.conns - count }

/-- How often a worker is in the lists of the clients. -/
def usesOf (clients : List Client) (worker : Nat) : Nat :=
  (clients.map fun client => client.workersused.count worker).sum

def dropUses (clients : List Client) (worker : Nat) : List Client :=
  clients.map fun client => { client with workersused := client.workersused.filter (· ≠ worker) }

/-- The file after a worker has been taken out of its list. -/
def File.without (file : File) (address : Nat) (worker : Worker) : File :=
  let firstworker := if file.firstworker = some address then worker.next else file.firstworker
  { firstworker
    lastworker := if file.lastworker = some address then worker.prev else file.lastworker
    nextworker := if file.nextworker = some address then worker.next.or firstworker else file.nextworker
    numworkers := file.numworkers - 1 }

/-- A worker other than the one that goes away loses the server. -/
def losesServer (worker server cur : Nat) (record : Worker) : Worker :=
  if cur = worker then record else if record.server = some server then { record with server := none } else record

/-- A server without connections is taken away, from all workers but the one that goes away too. -/
def removeserver (xget : Xget) (worker address : Nat) (server : Server) : Option Xget := do
  let serverAt ← unlink serverPtr xget.serverAt server
  let workerAt ← xget.files.foldlM
    (fun heap f2 => forEach workerPtr (losesServer worker address) xget.made heap f2.firstworker) xget.workerAt
  return { xget with
    servers := if xget.servers = some address then server.next else xget.servers
    serverAt := Function.update serverAt address none
    workerAt }

def removeworker (xget : Xget) (f worker : Nat) : Option Xget := do
  let file ← xget.files[f]?
  match ← find workerPtr xget.workerAt (fun cur _ => some (cur == worker)) xget.made file.firstworker with
  | none => return xget
  | some _ =>
      let record ← xget.workerAt worker
      let serverAt ← modify xget.serverAt (Server.less (usesOf xget.clients worker)) record.server
      let workerAt ← unlink workerPtr xget.workerAt record
      let xget := { xget with
        clients := dropUses xget.clients worker
        files := xget.files.set f (file.without worker record)
        serverAt
        workerAt }
      let xget ← match record.server with
        | none => some xget
        | some address => do
            let server ← xget.serverAt address
            if server.conns = 0 then removeserver xget worker address server else some xget
      return { xget with workerAt := Function.update xget.workerAt worker none }

def connopen (limits : Limits) (xget : Xget) (address : Bytes) (room : Bool) : Xget :=
  if room then
    let client := { caddress := address, clevels := List.replicate (limits.maxlevels - 1) 0, workersused := [] }
    { xget with clients := client :: xget.clients }
  else xget

def connclose (xget : Xget) (address : Bytes) : Option Xget :=
  match xget.clients.find? (·.caddress = address) with
  | none => some xget
  | some client => do
      let serverAt ← client.workersused.foldlM (fun heap worker => do
        let record ← xget.workerAt worker
        modify heap (Server.less 1) record.server) xget.serverAt
      return { xget with clients := xget.clients.eraseP (·.caddress = address), serverAt }

/-- The level that the client has been sent to least, counted from 1. -/
def desiredLevel (limits : Limits) (clevels : List Nat) : Nat :=
  (List.range' 1 (limits.maxlevels - 2)).foldl
    (fun dl n => if clevels.getD dl 0 > clevels.getD n 0 then n else dl) 0 + 1

/-- One round of the loop of `redir_read`, with the best worker so far. -/
def prefer (limits : Limits) (xget : Xget) (dl : Nat) (t : Option Nat) (w : Nat) (worker : Worker) :
    Option (Option Nat) :=
  match worker.server with
  | none => some t
  | some address => do
      let server ← xget.serverAt address
      match t with
      | none =>
          if server.conns < limits.maxconnections ∧ dl = worker.slevel then return some w
          else if server.conns < limits.maxconnections then return some w
          else return none
      | some best => do
          let bestWorker ← xget.workerAt best
          let bestServer ← xget.serverAt (← bestWorker.server)
          if bestServer.conns > server.conns ∧ dl = worker.slevel then return some w
          else if bestWorker.slevel ≠ dl ∧ bestServer.conns > server.conns then return some w
          else return some best

/-- The loop of `redir_read`; the workers that it has considered are kept in `seen`. -/
def scan (limits : Limits) (xget : Xget) (first : Option Nat) (dl p : Nat) :
    Nat → Nat → Option Nat → List Nat → Option (List Nat × Option Nat)
  | 0, _, _, _ => none
  | fuel + 1, w, t, seen => do
      let worker ← xget.workerAt w
      -- `continue` does not go on to another worker.
      if limits.maxlevels ≤ worker.slevel then scan limits xget first dl p fuel w t seen
      else
        let t ← prefer limits xget dl t w worker
        let seen := seen ++ [w]
        match worker.next with
        | some next => if next = p then return (seen, t) else scan limits xget first dl p fuel next t seen
        | none =>
            match first with
            | some next => if next = p then return (seen, t) else scan limits xget first dl p fuel next t seen
            | none => return (seen, t)

/-- The worker that a client with these levels is sent to; `none` is the master itself. -/
def select (limits : Limits) (xget : Xget) (fuel : Nat) (file : File) (clevels : List Nat) :
    Option (List Nat × Option Nat) :=
  match file.nextworker with
  | none => some ([], none)
  | some p => scan limits xget file.firstworker (desiredLevel limits clevels) p fuel p none []

/-- "me" -/
def me : Bytes := [109, 101]

/-- What is told to the client: `buf` has room for 127 bytes. -/
def reply (count : Nat) (text : Bytes) : Int × Bytes :=
  let buf := text.take 127
  (min count buf.length, buf.take (min count buf.length))

def redirRead (limits : Limits) (xget : Xget) (f : Nat) (address : Bytes) (offset count : Nat) (room : Bool) :
    Option (Xget × Int × Bytes) := do
  let file ← xget.files[f]?
  if offset ≠ 0 then return (xget, 0, [])
  else
    match xget.clients.findIdx? (·.caddress = address) with
    | none => return (xget, -1, [])
    | some c => do
        let client ← xget.clients[c]?
        match ← select limits xget xget.made file client.clevels with
        | (_, none) => return (xget, reply count me)
        | (_, some t) => do
            let worker ← xget.workerAt t
            let server ← xget.serverAt (← worker.server)
            let nextworker := if file.lastworker = some t then file.firstworker else worker.next
            let client := { client with clevels := client.clevels.modify (worker.slevel - 1) (· + 1) }
            let files := xget.files.set f { file with nextworker }
            if room then
              let client := { client with workersused := t :: client.workersused }
              return ({ xget with files, clients := xget.clients.set c client }, reply count server.saddress)
            else return ({ xget with files, clients := xget.clients.set c client }, -1, [])

/-- The comparison of a worker's server with an address. -/
def answersAt (xget : Xget) (address : Bytes) (worker : Worker) : Option Bool := do
  let server ← xget.serverAt (← worker.server)
  return server.saddress = address

def findWorker (xget : Xget) (file : File) (address : Bytes) : Option (Option Nat) :=
  find workerPtr xget.workerAt (fun _ => answersAt xget address) xget.made file.firstworker

/-- What the allocations of `avail_write` give, in their order. -/
structure Allocations where
  copy : Bool
  address : Bool
  worker : Option Nat
  server : Option Nat

/-- The host of the connection and the port that the client listens at; there is room for five digits. -/
def workerAddress (connection : Bytes) (port : Int) : Bytes :=
  connection.takeWhile (· ≠ 33) ++ (33 :: formatInt port).take 6

/-- The server with this address, or a new one; `none` inside is an allocation that fails. -/
def haveServer (xget : Xget) (address : Bytes) (given : Option Nat) : Option (Option (Xget × Nat)) := do
  match ← find serverPtr xget.serverAt (fun _ server => some (server.saddress = address)) xget.made xget.servers with
  | some server => return some (xget, server)
  | none =>
      match malloc xget.serverAt given with
      | none => return none
      | some server => do
          let serverAt ← append serverPtr.flip xget.serverAt xget.servers server
            { saddress := address, conns := 0, next := none, prev := none }
          return some ({ xget with serverAt, servers := some server, made := xget.made + 1 }, server)

/-- The end of `avail_write`: a worker at this address is added to the file. -/
def addWorker (xget : Xget) (fid f : Nat) (file : File) (record : Spfilefid) (address : Bytes) (slevel count : Nat)
    (given : Allocations) : Option (Xget × Int) := do
  match ← findWorker xget file address with
  | some _ => return (xget, -1)
  | none =>
      match malloc xget.workerAt given.worker with
      | none => return (xget, -1)
      | some new => do
          match ← haveServer xget address given.server with
          | none => return (xget, -1)
          | some (xget, server) => do
              let workerAt ← append workerPtr xget.workerAt file.lastworker new
                { prev := none, next := none, server := some server, slevel }
              let file := { file with
                firstworker := file.firstworker.or (some new)
                lastworker := some new
                nextworker := file.nextworker.or (some new)
                numworkers := file.numworkers + 1 }
              return ({ xget with
                workerAt
                files := xget.files.set f file
                fids := Function.update xget.fids fid (some { record with aux := some new })
                made := xget.made + 1 }, count)

/-- `data` is the string before its terminator. -/
def availWrite (limits : Limits) (xget : Xget) (fid offset count : Nat) (data : Bytes) (given : Allocations) :
    Option (Xget × Int) :=
  match xget.fids fid with
  | none => some (xget, -1)
  | some record => do
      let file ← xget.files[record.file]?
      if offset ≠ 0 then return (xget, 0)
      else
        match data.dropWhile (· ≠ 32) with
        | [] => return (xget, -1)
        | _ :: s =>
            let digits := data.takeWhile (· ≠ 32)
            if digits = [] ∨ (strtol0 digits).2 ≠ [] then return (xget, -1)
            else
              let port := toInt (strtoul0 digits)
              let go (xget : Xget) (slevel : Nat) : Option (Xget × Int) :=
                if 33 ∉ record.address then return (xget, -1)
                else if given.address then
                  addWorker xget fid record.file file record (workerAddress record.address port) slevel count given
                else return (xget, -1)
              if s = me then go xget 1
              else if given.copy then do
                match ← findWorker xget file s with
                | none => return (xget, 0)
                | some wc => do
                    let worker ← xget.workerAt wc
                    let serverAt ← modify xget.serverAt (fun server => { server with conns := server.conns + 1 })
                      worker.server
                    let xget := { xget with serverAt }
                    if limits.maxlevels ≤ worker.slevel + 1 then return (xget, count)
                    else go xget (worker.slevel + 1)
              else return ({ xget with crashed := true }, -1)

/-- The fid is destroyed behind it. -/
def availClosefid (xget : Xget) (fid : Nat) : Option Xget :=
  match xget.fids fid with
  | none => some xget
  | some record => do
      let xget ← match record.aux with
        | none => some xget
        | some worker => removeworker xget record.file worker
      return { xget with fids := Function.update xget.fids fid none }

end Xcpu.Xget.Workers
