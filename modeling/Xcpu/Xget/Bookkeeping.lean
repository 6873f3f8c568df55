import Xcpu.Lib.Transition
import Xcpu.Xget.Select

/-!
The lists of workers, servers and clients along every order of what clients do at the master. Where a server goes
away with one worker, the other workers that name it are left without a server.
-/

namespace Xcpu.Xget.Workers

open Xcpu.Linked Xcpu.Transition

/-- What a client does; an avail fid is made when the file is opened. -/
inductive Event where
  | connopen (address : Bytes) (room : Bool)
  | connclose (address : Bytes)
  | redirRead (f : Nat) (address : Bytes) (offset count : Nat) (room : Bool)
  | availOpen (fid f : Nat) (address : Bytes)
  | availWrite (fid offset count : Nat) (data : Bytes) (given : Allocations)
  | availClosefid (fid : Nat)

def handle (limits : Limits) (xget : Xget) : Event → Option Xget
  | .connopen address room => some (connopen limits xget address room)
  | .connclose address => connclose xget address
  | .redirRead f address offset count room =>
      if f < xget.files.length then (redirRead limits xget f address offset count room).map Prod.fst else some xget
  | .availOpen fid f address =>
      if f < xget.files.length ∧ (xget.fids fid).isNone then
        some { xget with fids := Function.update xget.fids fid (some { file := f, address }) }
      else some xget
  | .availWrite fid offset count data given => (availWrite limits xget fid offset count data given).map Prod.fst
  | .availClosefid fid => availClosefid xget fid

def step (limits : Limits) (xget : Xget) (event : Event) : Option Xget :=
  if xget.crashed then some xget else handle limits xget event

def workersOf (xget : Xget) (file : File) : List Nat := nodesFrom workerPtr xget.workerAt xget.made file.firstworker

def serversOf (xget : Xget) : List Nat := nodesFrom serverPtr xget.serverAt xget.made xget.servers

/-- The lists of workers are well formed, each worker names a server that is there and in the list of servers, and
the clients have been sent to workers that are there. -/
structure Sound (xget : Xget) : Prop where
  workers : ∀ file ∈ xget.files, WorkerList xget.workerAt file (workersOf xget file)
  named : ∀ file ∈ xget.files, ∀ w ∈ workersOf xget file, ∃ worker address server,
    xget.workerAt w = some worker ∧ worker.server = some address ∧ address ∈ serversOf xget ∧
      xget.serverAt address = some server
  used : ∀ client ∈ xget.clients, ∀ w ∈ client.workersused, ∃ file ∈ xget.files, w ∈ workersOf xget file

/-- The server at this address goes away with the worker. -/
def GoesAway (xget : Xget) (w address : Nat) : Prop :=
  ∃ worker server, xget.workerAt w = some worker ∧ worker.server = some address ∧
    xget.serverAt address = some server ∧ server.conns ≤ usesOf xget.clients w

/-- No other worker names a server that goes away with the worker of a fid that is closed. -/
def Fits (xget : Xget) : Event → Prop
  | .availClosefid fid => xget.crashed = true ∨ ∀ record w file address, xget.fids fid = some record →
      record.aux = some w → xget.files[record.file]? = some file → w ∈ workersOf xget file → GoesAway xget w address →
        ∀ other ∈ xget.files, ∀ v ∈ workersOf xget other, v ≠ w → (xget.workerAt v).bind Worker.server ≠ some address
  | _ => True

/-- The lists behind the pointers; a worker may have been left without a server. -/
structure Shape (limits : Limits) (xget : Xget) (lists : Nat → List Nat) (servers : List Nat) : Prop where
  workers : ∀ f file, xget.files[f]? = some file → WorkerList xget.workerAt file (lists f)
  none_ : ∀ f, xget.files[f]? = none → lists f = []
  apart : ∀ f g w, w ∈ lists f → w ∈ lists g → f = g
  linked : Doubly serverPtr xget.serverAt servers
  head : xget.servers = servers.head?
  levels : ∀ f, ∀ w ∈ lists f, ∀ worker, xget.workerAt w = some worker →
    1 ≤ worker.slevel ∧ worker.slevel < limits.maxlevels
  named : ∀ f, ∀ w ∈ lists f, ∀ address, (xget.workerAt w).bind Worker.server = some address → address ∈ servers
  used : ∀ client ∈ xget.clients, ∀ w ∈ client.workersused, ∃ f, w ∈ lists f
  fids : ∀ fid record, xget.fids fid = some record → record.file < xget.files.length
  short : ∀ f, (lists f).length ≤ xget.made
  few : servers.length ≤ xget.made

/-- Each worker has a server. -/
def Named (xget : Xget) (lists : Nat → List Nat) : Prop :=
  ∀ f, ∀ w ∈ lists f, ∃ address, (xget.workerAt w).bind Worker.server = some address

section Shape

variable {limits : Limits} {xget : Xget} {lists : Nat → List Nat} {servers : List Nat} {file : File} {f w : Nat}

theorem Shape.workersOf_eq (shape : Shape limits xget lists servers) (there : xget.files[f]? = some file) :
    workersOf xget file = lists f := by
  have list := shape.workers f file there
  rw [workersOf, list.first]
  exact nodesFrom_eq list.linked.forward (shape.short f)

theorem Shape.serversOf_eq (shape : Shape limits xget lists servers) : serversOf xget = servers := by
  rw [serversOf, shape.head]
  exact nodesFrom_eq shape.linked.forward shape.few

theorem Shape.fileOf (shape : Shape limits xget lists servers) (member : w ∈ lists f) :
    ∃ file, xget.files[f]? = some file ∧ WorkerList xget.workerAt file (lists f) ∧
      ∃ worker, xget.workerAt w = some worker := by
  cases there : xget.files[f]? with
  | none =>
      rw [shape.none_ f there] at member
      cases member
  | some file =>
      have list := shape.workers f file there
      exact ⟨file, rfl, list, list.linked.live w member⟩

theorem Shape.server (shape : Shape limits xget lists servers) (member : w ∈ lists f) {worker : Worker}
    (there : xget.workerAt w = some worker) {address : Nat} (names : worker.server = some address) :
    address ∈ servers ∧ ∃ server, xget.serverAt address = some server := by
  have inside := shape.named f w member address (by rw [there, Option.bind_some, names])
  exact ⟨inside, shape.linked.live address inside⟩

theorem Shape.registered (shape : Shape limits xget lists servers) (f : Nat) :
    Registered limits xget (lists f) := by
  intro w member
  obtain ⟨-, -, -, worker, there⟩ := shape.fileOf member
  obtain ⟨low, high⟩ := shape.levels f w member worker there
  exact ⟨worker, there, low, high, fun address names => (shape.server member there names).2⟩

theorem Shape.sound (shape : Shape limits xget lists servers) (named : Named xget lists) : Sound xget where
  workers file member := by
    obtain ⟨f, bound, rfl⟩ := List.mem_iff_getElem.mp member
    rw [shape.workersOf_eq (List.getElem?_eq_getElem bound)]
    exact shape.workers f _ (List.getElem?_eq_getElem bound)
  named file member w inside := by
    obtain ⟨f, bound, rfl⟩ := List.mem_iff_getElem.mp member
    rw [shape.workersOf_eq (List.getElem?_eq_getElem bound)] at inside
    obtain ⟨-, -, -, worker, there⟩ := shape.fileOf inside
    obtain ⟨address, names⟩ := named f w inside
    rw [there, Option.bind_some] at names
    obtain ⟨listed, server, found⟩ := shape.server inside there names
    exact ⟨worker, address, server, there, names, shape.serversOf_eq.symm ▸ listed, found⟩
  used client member w inside := by
    obtain ⟨f, held⟩ := shape.used client member w inside
    obtain ⟨file, there, -⟩ := shape.fileOf held
    exact ⟨file, List.mem_of_getElem? there, (shape.workersOf_eq there).symm ▸ held⟩

theorem Shape.withServers (shape : Shape limits xget lists servers) {serverAt : Heap Server}
    (next : ∀ s, (serverAt s).map Server.next = (xget.serverAt s).map Server.next)
    (prev : ∀ s, (serverAt s).map Server.prev = (xget.serverAt s).map Server.prev) :
    Shape limits { xget with serverAt } lists servers :=
  { shape with linked := shape.linked.same (fun s _ => next s) fun s _ => prev s }

theorem Shape.modify (shape : Shape limits xget lists servers) (member : w ∈ lists f) {worker : Worker}
    (there : xget.workerAt w = some worker) (change : Server → Server)
    (next : ∀ server, (change server).next = server.next) (prev : ∀ server, (change server).prev = server.prev) :
    ∃ serverAt, modify xget.serverAt change worker.server = some serverAt ∧
      Shape limits { xget with serverAt } lists servers := by
  have live : ∀ address, worker.server = some address → ∃ server, xget.serverAt address = some server :=
    fun address names => (shape.server member there names).2
  exact ⟨_, modify_eq live, shape.withServers (fun s => changed_map Server.next next) fun s =>
    changed_map Server.prev prev⟩

theorem connopen_shape (shape : Shape limits xget lists servers) (address : Bytes) (room : Bool) :
    Shape limits (connopen limits xget address room) lists servers := by
  rw [connopen]
  split
  · refine { shape with used := ?_ }
    intro client member
    rcases List.mem_cons.mp member with rfl | old
    · exact fun w inside => by cases inside
    · exact shape.used client old
  · exact shape

theorem connopen_workerAt (address : Bytes) (room : Bool) :
    (connopen limits xget address room).workerAt = xget.workerAt := by
  rw [connopen]
  split
  · rfl
  · rfl

theorem giveBack_shape (shape : Shape limits xget lists servers) {used : List Nat}
    (held : ∀ w ∈ used, ∃ f, w ∈ lists f) :
    ∃ serverAt, (used.foldlM (fun heap worker => do
        let record ← xget.workerAt worker
        Linked.modify heap (Server.less 1) record.server) xget.serverAt) = some serverAt ∧
      Shape limits { xget with serverAt } lists servers := by
  induction used generalizing xget with
  | nil => exact ⟨xget.serverAt, rfl, shape⟩
  | cons w rest ih =>
      obtain ⟨f, member⟩ := held w List.mem_cons_self
      obtain ⟨-, -, -, worker, there⟩ := shape.fileOf member
      obtain ⟨serverAt, changed, next⟩ := shape.modify member there (Server.less 1) (fun _ => rfl) fun _ => rfl
      obtain ⟨last, given, after⟩ := ih next fun v inside => held v (List.mem_cons_of_mem _ inside)
      refine ⟨last, ?_, after⟩
      simp only [List.foldlM_cons, there, Option.bind_eq_bind, Option.bind_some, changed]
      exact given

theorem connclose_shape (shape : Shape limits xget lists servers) (address : Bytes) :
    ∃ next, connclose xget address = some next ∧ Shape limits next lists servers ∧ next.workerAt = xget.workerAt := by
  rw [connclose]
  cases found : xget.clients.find? (·.caddress = address) with
  | none => exact ⟨xget, rfl, shape, rfl⟩
  | some client =>
      obtain ⟨serverAt, given, after⟩ := giveBack_shape shape (shape.used client (List.mem_of_find?_eq_some found))
      dsimp only
      rw [given]
      refine ⟨_, rfl, { after with used := ?_ }, rfl⟩
      exact fun other member => shape.used other (List.mem_of_mem_eraseP member)

theorem Shape.setFid (shape : Shape limits xget lists servers) {fid : Nat} {record : Spfilefid}
    (inside : record.file < xget.files.length) :
    Shape limits { xget with fids := Function.update xget.fids fid (some record) } lists servers := by
  refine { shape with fids := ?_ }
  intro other found opened
  have opened : Function.update xget.fids fid (some record) other = some found := opened
  by_cases here : other = fid
  · rw [here, Function.update_self, Option.some.injEq] at opened
    rw [← opened]
    exact inside
  · rw [Function.update_of_ne here] at opened
    exact shape.fids other found opened

/-- What the loop of `redir_read` chooses is a worker of the file with a server. -/
theorem Shape.select (shape : Shape limits xget lists servers) (there : xget.files[f]? = some file)
    (clevels : List Nat) : ∃ seen t, select limits xget xget.made file clevels = some (seen, t) ∧
      ∀ b, t = some b → b ∈ lists f ∧ hasServer xget b = true := by
  have list := shape.workers f file there
  rw [Workers.select]
  cases starts : file.nextworker with
  | none => exact ⟨[], none, rfl, fun b none_ => by cases none_⟩
  | some p =>
      obtain ⟨before, after, same⟩ := List.append_of_mem (list.next p starts)
      have linked := list.linked
      have registered := shape.registered f
      have short := shape.short f
      rw [same] at linked registered short
      dsimp only
      rw [list.first, same]
      refine ⟨_, _, scan_round linked registered short, ?_⟩
      intro b chosen
      have sofar := foldl_sofar (show Sofar (hasServer xget) (atLevel xget (desiredLevel limits clevels))
        (connsOf xget) limits.maxconnections [] none from List.forall_mem_nil _) (p :: after ++ before)
      rw [chosen] at sofar
      have member := sofar.member
      rw [List.nil_append, List.mem_append] at member
      exact ⟨List.mem_append.mpr member.symm, sofar.eligible.1⟩

theorem Shape.setFile (shape : Shape limits xget lists servers) {next : File}
    (list : WorkerList xget.workerAt next (lists f)) :
    Shape limits { xget with files := xget.files.set f next } lists servers := by
  refine { shape with workers := ?_, none_ := ?_, fids := ?_ }
  · intro g other there
    rw [List.getElem?_set] at there
    split at there
    · rename_i same
      subst same
      split at there
      · rw [← Option.some.inj there]
        exact list
      · cases there
    · exact shape.workers g other there
  · intro g missing
    rw [List.getElem?_eq_none_iff, List.length_set] at missing
    exact shape.none_ g (List.getElem?_eq_none missing)
  · intro fid record opened
    rw [List.length_set]
    exact shape.fids fid record opened

theorem WorkerList.advance {workerAt : Heap Worker} {nodes : List Nat} (list : WorkerList workerAt file nodes)
    {t : Nat} {worker : Worker} (member : t ∈ nodes) (there : workerAt t = some worker) : WorkerList workerAt
      { file with nextworker := if file.lastworker = some t then file.firstworker else worker.next } nodes := by
  obtain ⟨before, after, rfl⟩ := List.append_of_mem member
  have behind : worker.next = after.head? := list.linked.next there
  have some_ : ∃ p ∈ before ++ t :: after,
      (if file.lastworker = some t then file.firstworker else worker.next) = some p := by
    split
    · rw [list.first]
      have filled : (before ++ t :: after).head?.isSome := by simp
      obtain ⟨p, first⟩ := Option.isSome_iff_exists.mp filled
      exact ⟨p, List.mem_of_head? first, first⟩
    · rename_i early
      rw [behind]
      cases after with
      | nil => exact absurd (list.last.trans List.getLast?_concat) early
      | cons p rest => exact ⟨p, List.mem_append_right _ (List.mem_cons_of_mem _ List.mem_cons_self), rfl⟩
  obtain ⟨p, inside, same⟩ := some_
  refine { list with next := ?_, empty := ?_ }
  · intro q starts
    rw [← Option.some.inj (same.symm.trans starts)]
    exact inside
  · intro none_
    cases same.symm.trans none_

theorem Shape.setClient (shape : Shape limits xget lists servers) {c : Nat} {client : Client}
    (held : ∀ w ∈ client.workersused, ∃ f, w ∈ lists f) :
    Shape limits { xget with clients := xget.clients.set c client } lists servers := by
  refine { shape with used := ?_ }
  intro other member
  rcases List.mem_or_eq_of_mem_set member with old | rfl
  · exact shape.used other old
  · exact held

theorem redirRead_shape (shape : Shape limits xget lists servers) (there : xget.files[f]? = some file)
    (address : Bytes) (offset count : Nat) (room : Bool) :
    ∃ next reply, redirRead limits xget f address offset count room = some (next, reply) ∧
      Shape limits next lists servers ∧ next.workerAt = xget.workerAt := by
  rw [redirRead, there, Option.bind_eq_bind, Option.bind_some]
  split
  · exact ⟨_, _, rfl, shape, rfl⟩
  · cases found : xget.clients.findIdx? (·.caddress = address) with
    | none => exact ⟨_, _, rfl, shape, rfl⟩
    | some c =>
        obtain ⟨bound, -⟩ := List.findIdx?_eq_some_iff_getElem.mp found
        have known := List.getElem?_eq_getElem bound
        obtain ⟨seen, t, chosen, best⟩ := shape.select there xget.clients[c].clevels
        dsimp only
        rw [known, Option.bind_eq_bind, Option.bind_some, chosen, Option.bind_eq_bind, Option.bind_some]
        cases t with
        | none => exact ⟨_, _, rfl, shape, rfl⟩
        | some t =>
            obtain ⟨member, has_⟩ := best t rfl
            obtain ⟨server, same⟩ := Option.isSome_iff_exists.mp has_
            obtain ⟨worker, place, here, names, served⟩ := serverOf_some same
            have held := shape.used _ (List.getElem_mem bound)
            have moved := shape.setFile ((shape.workers f file there).advance member here)
            simp only [here, names, served, Option.bind_eq_bind, Option.bind_some]
            split
            · refine ⟨_, _, rfl, moved.setClient ?_, rfl⟩
              intro w inside
              rcases List.mem_cons.mp inside with rfl | old
              · exact ⟨f, member⟩
              · exact held w old
            · exact ⟨_, _, rfl, moved.setClient held, rfl⟩

theorem WorkerList.same {workerAt heap : Heap Worker} {nodes : List Nat} (list : WorkerList workerAt file nodes)
    (next : ∀ v ∈ nodes, (heap v).map Worker.next = (workerAt v).map Worker.next)
    (prev : ∀ v ∈ nodes, (heap v).map Worker.prev = (workerAt v).map Worker.prev) : WorkerList heap file nodes :=
  { list with linked := list.linked.same next prev }

theorem WorkerList.without {workerAt heap : Heap Worker} {before after : List Nat} {worker : Worker}
    (list : WorkerList workerAt file (before ++ w :: after)) (there : workerAt w = some worker)
    (linked : Doubly workerPtr heap (before ++ after)) : WorkerList heap (file.without w worker) (before ++ after) := by
  have next : worker.next = after.head? := list.linked.next there
  have prev : worker.prev = before.getLast? := list.linked.prev there
  have single := (List.nodup_cons.mp (List.nodup_append.mp list.linked.distinct).2.1).1
  have first : (file.without w worker).firstworker = (before ++ after).head? := by
    dsimp only [File.without]
    rw [list.first, next]
    exact head_without list.linked.distinct
  refine ⟨linked, first, ?_, ?_, ?_, ?_⟩
  · dsimp only [File.without]
    rw [list.last, prev]
    rcases List.eq_nil_or_concat after with rfl | ⟨rest, b, rfl⟩
    · rw [List.getLast?_concat, if_pos rfl, List.append_nil]
    · have last : (before ++ w :: rest.concat b).getLast? = some b := by
        rw [List.concat_eq_append, ← List.cons_append, ← List.append_assoc, List.getLast?_concat]
      rw [last, if_neg, List.concat_eq_append, ← List.append_assoc, List.getLast?_concat]
      intro same
      rw [List.concat_eq_append, Option.some.inj same] at single
      exact single (List.mem_append_right _ List.mem_cons_self)
  · dsimp only [File.without]
    rw [list.count, List.length_append, List.length_append, List.length_cons]
    omega
  · intro p starts
    dsimp only [File.without] at starts first
    split at starts
    · rw [first, next] at starts
      rcases Option.or_eq_some_iff.mp starts with here | ⟨-, front⟩
      · exact List.mem_append_right _ (List.mem_of_head? here)
      · exact List.mem_of_head? front
    · rename_i other
      have member := list.next p starts
      rw [List.mem_append, List.mem_cons] at member
      rw [List.mem_append]
      refine member.imp_right fun inside => inside.resolve_left ?_
      rintro rfl
      exact other starts
  · intro none_
    dsimp only [File.without] at none_ first
    split at none_
    · rw [first] at none_
      exact List.head?_eq_none_iff.mp (Option.or_eq_none_iff.mp none_).2
    · have nothing := congrArg List.length (list.empty none_)
      rw [List.length_append, List.length_cons, List.length_nil] at nothing
      omega

theorem Shape.withWorkers (shape : Shape limits xget lists servers) {workerAt : Heap Worker}
    (kept : ∀ g, ∀ v ∈ lists g, ∀ {Label : Type} (tag : Worker → Label),
      (∀ server worker, tag { worker with server } = tag worker) →
        (workerAt v).map tag = (xget.workerAt v).map tag)
    (named : ∀ g, ∀ v ∈ lists g, ∀ address, (workerAt v).bind Worker.server = some address → address ∈ servers) :
    Shape limits { xget with workerAt } lists servers := by
  refine { shape with workers := ?_, levels := ?_, named := named }
  · intro g file there
    exact (shape.workers g file there).same (fun v member => kept g v member Worker.next fun _ _ => rfl)
      fun v member => kept g v member Worker.prev fun _ _ => rfl
  · intro g v member worker there
    have there : workerAt v = some worker := there
    have same := kept g v member Worker.slevel fun _ _ => rfl
    rw [there, Option.map_some, eq_comm, Option.map_eq_some_iff] at same
    obtain ⟨old, found, level⟩ := same
    rw [← level]
    exact shape.levels g v member old found

theorem Shape.free (shape : Shape limits xget lists servers) (absent : ∀ g, w ∉ lists g) :
    Shape limits { xget with workerAt := Function.update xget.workerAt w none } lists servers := by
  have other : ∀ g, ∀ v ∈ lists g, Function.update xget.workerAt w none v = xget.workerAt v := by
    intro g v member
    refine Function.update_of_ne ?_ _ _
    rintro rfl
    exact absent g member
  refine shape.withWorkers (fun g v member Label tag _ => by rw [other g v member]) ?_
  intro g v member address names
  rw [other g v member] at names
  exact shape.named g v member address names

theorem erase_eq {before after : List Nat} (distinct : (before ++ w :: after).Nodup) :
    (before ++ w :: after).erase w = before ++ after := by
  obtain ⟨-, -, apart⟩ := List.nodup_append.mp distinct
  rw [List.erase_append_right _ fun member => apart w member w List.mem_cons_self rfl, List.erase_cons_head]

theorem mem_dropUses {clients : List Client} {client : Client} (member : client ∈ dropUses clients w) :
    ∀ v ∈ client.workersused, v ≠ w ∧ ∃ old ∈ clients, v ∈ old.workersused := by
  obtain ⟨old, inside, rfl⟩ := List.mem_map.mp member
  intro v held
  obtain ⟨there, other⟩ := List.mem_filter.mp held
  exact ⟨of_decide_eq_true other, old, inside, there⟩

theorem Shape.takeOut (shape : Shape limits xget lists servers) (there : xget.files[f]? = some file)
    (member : w ∈ lists f) {worker : Worker} (here : xget.workerAt w = some worker) :
    ∃ workerAt, unlink workerPtr xget.workerAt worker = some workerAt ∧
      Shape limits { xget with
        clients := dropUses xget.clients w
        files := xget.files.set f (file.without w worker)
        workerAt } (fun g => (lists g).erase w) servers ∧
      ∀ v, (workerAt v).map Worker.server = (xget.workerAt v).map Worker.server := by
  have list := shape.workers f file there
  obtain ⟨before, after, same⟩ := List.append_of_mem member
  rw [same] at list
  obtain ⟨workerAt, joined, linked, outside, tags⟩ := list.linked.unlink here
  have erased : (lists f).erase w = before ++ after := by rw [same, erase_eq list.linked.distinct]
  have elsewhere : ∀ g, g ≠ f → (lists g).erase w = lists g := fun g other =>
    List.erase_of_not_mem fun inside => other (shape.apart g f w inside member)
  have away : ∀ g, g ≠ f → ∀ v ∈ lists g, workerAt v = xget.workerAt v := by
    intro g other v inside
    refine outside v fun held => other (shape.apart g f v inside ?_)
    rw [← erased] at held
    exact List.mem_of_mem_erase held
  have names := fun v => tags Worker.server (fun _ _ => rfl) (fun _ _ => rfl) v
  refine ⟨workerAt, joined, ⟨?_, ?_, ?_, shape.linked, shape.head, ?_, ?_, ?_, ?_, ?_, shape.few⟩, names⟩
  · intro g other found
    by_cases mine : g = f
    · subst mine
      rw [erased]
      have found : (xget.files.set g (file.without w worker))[g]? = some other := found
      rw [List.getElem?_set_self (List.getElem?_eq_some_iff.mp there).1, Option.some.injEq] at found
      rw [← found]
      exact list.without here linked
    · rw [elsewhere g mine]
      have found : (xget.files.set f (file.without w worker))[g]? = some other := found
      rw [List.getElem?_set_ne (Ne.symm mine)] at found
      exact (shape.workers g other found).same (fun v inside => congrArg (Option.map Worker.next) (away g mine v inside))
        fun v inside => congrArg (Option.map Worker.prev) (away g mine v inside)
  · intro g missing
    have missing : (xget.files.set f (file.without w worker))[g]? = none := missing
    rw [List.getElem?_eq_none_iff, List.length_set] at missing
    rw [shape.none_ g (List.getElem?_eq_none missing), List.erase_nil]
  · exact fun g h v first second => shape.apart g h v (List.mem_of_mem_erase first) (List.mem_of_mem_erase second)
  · intro g v inside record found
    have found : workerAt v = some record := found
    have level := tags Worker.slevel (fun _ _ => rfl) (fun _ _ => rfl) v
    rw [found, Option.map_some, eq_comm, Option.map_eq_some_iff] at level
    obtain ⟨old, was, equal⟩ := level
    rw [← equal]
    exact shape.levels g v (List.mem_of_mem_erase inside) old was
  · intro g v inside address named
    have named : (workerAt v).bind Worker.server = some address := named
    rw [bind_congr (names v)] at named
    exact shape.named g v (List.mem_of_mem_erase inside) address named
  · intro client inside v used
    obtain ⟨other, old, was, held⟩ := mem_dropUses inside v used
    obtain ⟨g, listed⟩ := shape.used old was v held
    exact ⟨g, (List.mem_erase_of_ne other).mpr listed⟩
  · intro fid record opened
    dsimp only
    rw [List.length_set]
    exact shape.fids fid record opened
  · intro g
    have less : ((lists g).erase w).length ≤ (lists g).length := List.length_erase_le
    exact less.trans (shape.short g)

theorem forFiles {change : Nat → Worker → Worker} {fuel : Nat} {nodes : File → List Nat} {files : List File}
    {heap : Heap Worker} (next : ∀ v worker, (change v worker).next = worker.next)
    (prev : ∀ v worker, (change v worker).prev = worker.prev)
    (twice : ∀ v worker, change v (change v worker) = change v worker)
    (lists : ∀ file ∈ files, file.firstworker = (nodes file).head? ∧ Doubly workerPtr heap (nodes file) ∧
      (nodes file).length ≤ fuel) :
    ∃ heap', files.foldlM (fun heap file => forEach workerPtr change fuel heap file.firstworker) heap = some heap' ∧
      (∀ v, (∃ file ∈ files, v ∈ nodes file) → heap' v = (heap v).map (change v)) ∧
      ∀ v, (∀ file ∈ files, v ∉ nodes file) → heap' v = heap v := by
  induction files generalizing heap with
  | nil =>
      refine ⟨heap, rfl, ?_, fun v _ => rfl⟩
      rintro v ⟨file, member, -⟩
      cases member
  | cons file rest ih =>
      obtain ⟨first, linked, enough⟩ := lists file List.mem_cons_self
      have here := @forEach_eq Worker workerPtr heap (nodes file) change fuel linked.forward linked.distinct linked.live
        enough
      have tags : ∀ (tag : Worker → Option Nat), (∀ v worker, tag (change v worker) = tag worker) → ∀ v,
          (if v ∈ nodes file then (heap v).map (change v) else heap v).map tag = (heap v).map tag := by
        intro tag same v
        split
        · rw [Option.map_map]
          exact congrArg (fun f => (heap v).map f) (funext fun worker => same v worker)
        · rfl
      obtain ⟨heap', rest_, changes, keeps⟩ := ih fun other member => by
        obtain ⟨first, linked, enough⟩ := lists other (List.mem_cons_of_mem _ member)
        exact ⟨first, linked.same (fun v _ => tags Worker.next next v) fun v _ => tags Worker.prev prev v, enough⟩
      refine ⟨heap', ?_, ?_, ?_⟩
      · rw [List.foldlM_cons, first, here]
        exact rest_
      · rintro v ⟨other, member, inside⟩
        by_cases later : ∃ other ∈ rest, v ∈ nodes other
        · rw [changes v later]
          split
          · rw [Option.map_map]
            exact congrArg (fun f => (heap v).map f) (funext fun worker => twice v worker)
          · rfl
        · have alone : ∀ other ∈ rest, v ∉ nodes other := fun other member held => later ⟨other, member, held⟩
          rcases List.mem_cons.mp member with rfl | member
          · rw [keeps v alone, if_pos inside]
          · exact absurd inside (alone other member)
      · intro v outside
        rw [keeps v fun other member => outside other (List.mem_cons_of_mem _ member),
          if_neg (outside file List.mem_cons_self)]

theorem losesServer_twice (worker server cur : Nat) (record : Worker) :
    losesServer worker server cur (losesServer worker server cur record) = losesServer worker server cur record := by
  simp only [losesServer]
  split
  · rfl
  · split
    · exact if_neg fun none_ => by cases none_
    · rfl

theorem losesServer_tag {Label : Type} (tag : Worker → Label) (same : ∀ server worker, tag { worker with server } = tag worker)
    (worker server cur : Nat) (record : Worker) : tag (losesServer worker server cur record) = tag record := by
  rw [losesServer]
  split
  · rfl
  · split
    · exact same _ _
    · rfl

theorem removeserver_shape (shape : Shape limits xget lists servers) (absent : ∀ g, w ∉ lists g) {address : Nat}
    {server : Server} (listed : address ∈ servers) (found : xget.serverAt address = some server) :
    ∃ next servers', removeserver xget w address server = some next ∧ Shape limits next lists servers' ∧
      ∀ g, ∀ v ∈ lists g, (next.workerAt v).bind Worker.server =
        if (xget.workerAt v).bind Worker.server = some address then none
        else (xget.workerAt v).bind Worker.server := by
  obtain ⟨before, after, rfl⟩ := List.append_of_mem listed
  obtain ⟨serverAt, joined, linked, outside, -⟩ := shape.linked.unlink found
  obtain ⟨workerAt, cleared, changes, -⟩ := @forFiles (losesServer w address) xget.made (workersOf xget) xget.files
    xget.workerAt (losesServer_tag Worker.next (fun _ _ => rfl) w address)
    (losesServer_tag Worker.prev (fun _ _ => rfl) w address) (losesServer_twice w address) (by
      intro file member
      obtain ⟨g, bound, rfl⟩ := List.mem_iff_getElem.mp member
      have there := List.getElem?_eq_getElem bound
      have list := shape.workers g _ there
      rw [shape.workersOf_eq there]
      exact ⟨list.first, list.linked, shape.short g⟩)
  have each : ∀ g, ∀ v ∈ lists g, workerAt v = (xget.workerAt v).map (losesServer w address v) := by
    intro g v member
    obtain ⟨file, there, -⟩ := shape.fileOf member
    exact changes v ⟨file, List.mem_of_getElem? there, (shape.workersOf_eq there).symm ▸ member⟩
  have names : ∀ g, ∀ v ∈ lists g, (workerAt v).bind Worker.server =
      if (xget.workerAt v).bind Worker.server = some address then none
      else (xget.workerAt v).bind Worker.server := by
    intro g v member
    obtain ⟨-, -, -, worker, there⟩ := shape.fileOf member
    have other : v ≠ w := fun same => absent g (same ▸ member)
    rw [each g v member, there, Option.map_some, Option.bind_some, Option.bind_some, losesServer, if_neg other]
    split
    · rfl
    · rfl
  have moved : Shape limits { xget with workerAt } lists (before ++ address :: after) := by
    refine shape.withWorkers ?_ ?_
    · intro g v member Label tag same
      rw [each g v member, Option.map_map]
      exact congrArg (fun f => (xget.workerAt v).map f) (funext (losesServer_tag tag same w address v))
    · intro g v member other named
      rw [names g v member] at named
      split at named
      · cases named
      · exact shape.named g v member other named
  have apart := shape.linked.distinct
  have gone : address ∉ before ++ after := by
    rw [← erase_eq apart]
    exact apart.not_mem_erase
  refine ⟨{ xget with
      servers := if xget.servers = some address then server.next else xget.servers
      serverAt := Function.update serverAt address none
      workerAt }, before ++ after, ?_, ⟨moved.workers, moved.none_, moved.apart, ?_, ?_, moved.levels, ?_, moved.used,
        moved.fids, moved.short, ?_⟩, names⟩
  · rw [removeserver, joined, Option.bind_eq_bind, Option.bind_some, cleared]
    rfl
  · refine linked.congr fun s member => Function.update_of_ne ?_ _ _
    rintro rfl
    exact gone member
  · have behind : server.next = after.head? := shape.linked.next found
    dsimp only
    rw [shape.head, behind]
    exact head_without apart
  · intro g v member other holds
    have named : (workerAt v).bind Worker.server = some other := holds
    have old := moved.named g v member other named
    rw [List.mem_append, List.mem_cons] at old
    rw [List.mem_append]
    refine old.imp_right fun inside => inside.resolve_left ?_
    rintro rfl
    rw [names g v member] at named
    split at named
    · cases named
    · contradiction
  · have few := shape.few
    rw [List.length_append, List.length_cons] at few
    dsimp only
    rw [List.length_append]
    omega

theorem find_self (shape : Shape limits xget lists servers) (there : xget.files[f]? = some file) (w : Nat) :
    find workerPtr xget.workerAt (fun cur _ => some (cur == w)) xget.made file.firstworker =
      some (if w ∈ lists f then some w else none) := by
  have list := shape.workers f file there
  have searched := @find_eq Worker workerPtr xget.workerAt (lists f) (fun cur _ => some (cur == w)) (· == w) xget.made
    list.linked.forward (shape.short f) (fun v member => by
      obtain ⟨record, live⟩ := list.linked.live v member
      exact ⟨record, live, rfl⟩)
  rw [list.first, searched]
  by_cases member : w ∈ lists f
  · rw [if_pos member]
    cases found : (lists f).find? (· == w) with
    | none => exact absurd (List.find?_eq_none.mp found w member) (by simp)
    | some v =>
        have same := List.find?_some found
        rw [beq_iff_eq] at same
        rw [same]
  · rw [if_neg member, Option.some.injEq, List.find?_eq_none]
    intro v inside same
    rw [beq_iff_eq] at same
    exact member (same ▸ inside)

theorem removeworker_shape (shape : Shape limits xget lists servers) (there : xget.files[f]? = some file)
    (member : w ∈ lists f) : ∃ next servers', removeworker xget f w = some next ∧
      Shape limits next (fun g => (lists g).erase w) servers' ∧
      ∀ g, ∀ v ∈ (lists g).erase w, ∀ address, (xget.workerAt v).bind Worker.server = some address →
        (GoesAway xget w address → (next.workerAt v).bind Worker.server = none) ∧
        (¬GoesAway xget w address → (next.workerAt v).bind Worker.server = some address) := by
  obtain ⟨-, -, -, worker, here⟩ := shape.fileOf member
  obtain ⟨serverAt, less, fewer⟩ := shape.modify member here (Server.less (usesOf xget.clients w)) (fun _ => rfl)
    fun _ => rfl
  obtain ⟨workerAt, joined, out, names⟩ := fewer.takeOut there member here
  have absent : ∀ g, w ∉ (lists g).erase w := by
    intro g
    cases found : xget.files[g]? with
    | none =>
        rw [shape.none_ g found, List.erase_nil]
        exact List.not_mem_nil
    | some other => exact (shape.workers g other found).linked.distinct.not_mem_erase
  have unlinked : unlink workerPtr xget.workerAt worker = some workerAt := joined
  have after : ∀ g, ∀ v ∈ (lists g).erase w, ∀ heap : Heap Worker,
      (Function.update heap w none v).bind Worker.server = (heap v).bind Worker.server := by
    intro g v inside heap
    rw [Function.update_of_ne]
    rintro rfl
    exact absent g inside
  rw [removeworker, there, Option.bind_eq_bind, Option.bind_some, find_self shape there, if_pos member,
    Option.bind_eq_bind, Option.bind_some]
  dsimp only
  rw [here, Option.bind_eq_bind, Option.bind_some, less, Option.bind_eq_bind, Option.bind_some, unlinked,
    Option.bind_eq_bind, Option.bind_some]
  cases named : worker.server with
  | none =>
      refine ⟨_, servers, rfl, out.free absent, ?_⟩
      intro g v inside address names_
      refine ⟨?_, fun _ => ?_⟩
      · rintro ⟨other, server, found, names, -⟩
        rw [← Option.some.inj (here.symm.trans found), named] at names
        cases names
      · rw [after g v inside workerAt, bind_congr (names v), names_]
  | some address =>
      obtain ⟨listed, server, found⟩ := shape.server member here named
      have left : serverAt address = some (server.less (usesOf xget.clients w)) := by
        rw [named, Linked.modify, found, Option.map_some, Option.some.injEq] at less
        rw [← less, Function.update_self]
      have goes : GoesAway xget w address ↔ (server.less (usesOf xget.clients w)).conns = 0 := by
        rw [Server.less, Nat.sub_eq_zero_iff_le]
        constructor
        · rintro ⟨_, other, -, -, same, few⟩
          rw [Option.some.inj (found.symm.trans same)]
          exact few
        · exact fun few => ⟨worker, server, here, named, found, few⟩
      have mine : ∀ other, GoesAway xget w other → other = address := by
        rintro other ⟨record, -, same, names_, -⟩
        rw [← Option.some.inj (here.symm.trans same), named, Option.some.injEq] at names_
        exact names_.symm
      simp only [left, Option.bind_eq_bind, Option.bind_some]
      by_cases last : (server.less (usesOf xget.clients w)).conns = 0
      · rw [if_pos last]
        obtain ⟨next, servers', removed, shaped, cleared⟩ := removeserver_shape out absent listed left
        simp only [removed, Option.bind_some]
        refine ⟨_, servers', rfl, shaped.free absent, ?_⟩
        intro g v inside other names_
        rw [after g v inside next.workerAt, cleared g v inside, bind_congr (names v), names_]
        by_cases same : other = address
        · rw [if_pos (congrArg some same)]
          exact ⟨fun _ => rfl, fun stays => absurd (goes.mpr last) (same ▸ stays)⟩
        · rw [if_neg fun equal => same (Option.some.inj equal)]
          exact ⟨fun away => absurd (mine other away) same, fun _ => rfl⟩
      · rw [if_neg last]
        refine ⟨_, servers, rfl, out.free absent, ?_⟩
        intro g v inside other names_
        rw [after g v inside workerAt, bind_congr (names v), names_]
        exact ⟨fun away => absurd (goes.mp (mine other away ▸ away)) last, fun _ => rfl⟩

theorem findWorker_some (shape : Shape limits xget lists servers) (named : Named xget lists)
    (there : xget.files[f]? = some file) (address : Bytes) :
    ∃ found, findWorker xget file address = some found ∧ ∀ v, found = some v → v ∈ lists f := by
  have list := shape.workers f file there
  have searched := @find_eq Worker workerPtr xget.workerAt (lists f) (fun _ => answersAt xget address)
    (fun v => (serverOf xget v).any (·.saddress = address)) xget.made list.linked.forward (shape.short f)
    (fun v member => by
      obtain ⟨-, -, -, worker, live⟩ := shape.fileOf member
      obtain ⟨place, names⟩ := named f v member
      rw [live, Option.bind_some] at names
      obtain ⟨-, server, found⟩ := shape.server member live names
      refine ⟨worker, live, ?_⟩
      simp only [answersAt, serverOf, live, names, found, Option.bind_eq_bind, Option.bind_some]
      rfl)
  rw [findWorker, list.first]
  exact ⟨_, searched, fun v found => List.mem_of_find?_eq_some found⟩

theorem malloc_fresh {Rec : Type} {heap : Heap Rec} {given : Option Nat} {new : Nat}
    (got : malloc heap given = some new) : heap new = none := by
  obtain ⟨-, free⟩ := Option.filter_eq_some_iff.mp got
  exact Option.isNone_iff_eq_none.mp free

theorem haveServer_shape (shape : Shape limits xget lists servers) (address : Bytes) (given : Option Nat) :
    haveServer xget address given = some none ∨ ∃ next s servers', haveServer xget address given = some (some (next, s)) ∧
      Shape limits next lists servers' ∧ s ∈ servers' ∧ next.workerAt = xget.workerAt ∧ next.files = xget.files ∧
      next.fids = xget.fids := by
  have searched := @find_eq Server serverPtr xget.serverAt servers
    (fun _ server => some (decide (server.saddress = address)))
    (fun s => (xget.serverAt s).any (·.saddress = address)) xget.made shape.linked.forward shape.few (fun s member => by
      obtain ⟨server, found⟩ := shape.linked.live s member
      refine ⟨server, found, ?_⟩
      rw [found]
      rfl)
  rw [haveServer, shape.head, searched, Option.bind_eq_bind, Option.bind_some]
  cases known : servers.find? (fun s => (xget.serverAt s).any (·.saddress = address)) with
  | some s => exact .inr ⟨xget, s, servers, rfl, shape, List.mem_of_find?_eq_some known, rfl, rfl, rfl⟩
  | none =>
      cases got : malloc xget.serverAt given with
      | none => exact .inl rfl
      | some s =>
          have absent : s ∉ servers := by
            intro member
            obtain ⟨server, found⟩ := shape.linked.live s member
            cases (malloc_fresh got).symm.trans found
          obtain ⟨serverAt, put, linked, -⟩ := shape.linked.push absent
            { saddress := address, conns := 0, next := none, prev := none }
          dsimp only
          rw [put]
          refine .inr ⟨_, s, s :: servers, rfl, ⟨shape.workers, shape.none_, shape.apart, linked, rfl, shape.levels, ?_,
            shape.used, shape.fids, ?_, Nat.succ_le_succ shape.few⟩, List.mem_cons_self, rfl, rfl, rfl⟩
          · exact fun g v member other names => List.mem_cons_of_mem _ (shape.named g v member other names)
          · exact fun g => Nat.le_succ_of_le (shape.short g)

theorem WorkerList.added {workerAt heap : Heap Worker} {nodes : List Nat} {new : Nat}
    (list : WorkerList workerAt file nodes) (linked : Doubly workerPtr heap (nodes ++ [new])) :
    WorkerList heap { file with
      firstworker := file.firstworker.or (some new)
      lastworker := some new
      nextworker := file.nextworker.or (some new)
      numworkers := file.numworkers + 1 } (nodes ++ [new]) where
  linked := linked
  first := by
    rw [list.first, List.head?_append]
    rfl
  last := List.getLast?_concat.symm
  count := by
    rw [list.count, List.length_append]
    rfl
  next p starts := by
    rcases Option.or_eq_some_iff.mp starts with old | ⟨-, here⟩
    · exact List.mem_append_left _ (list.next p old)
    · exact List.mem_append_right _ (List.mem_singleton.mpr (Option.some.inj here).symm)
  empty none_ := by cases (Option.or_eq_none_iff.mp none_).2

theorem Shape.add (shape : Shape limits xget lists servers) (there : xget.files[f]? = some file) {new address : Nat}
    (free : xget.workerAt new = none) (listed : address ∈ servers) {slevel : Nat} (low : 1 ≤ slevel)
    (high : slevel < limits.maxlevels) :
    ∃ workerAt, append workerPtr xget.workerAt file.lastworker new
        { prev := none, next := none, server := some address, slevel } = some workerAt ∧
      Shape limits { xget with
        workerAt
        files := xget.files.set f { file with
          firstworker := file.firstworker.or (some new)
          lastworker := some new
          nextworker := file.nextworker.or (some new)
          numworkers := file.numworkers + 1 }
        made := xget.made + 1 } (Function.update lists f (lists f ++ [new])) servers ∧
      (workerAt new).bind Worker.server = some address ∧
      ∀ v, v ≠ new → (workerAt v).bind Worker.server = (xget.workerAt v).bind Worker.server := by
  have list := shape.workers f file there
  have absent : ∀ g, new ∉ lists g := by
    intro g member
    obtain ⟨-, -, -, worker, live⟩ := shape.fileOf member
    cases free.symm.trans live
  obtain ⟨workerAt, put, linked, here, outside, tags⟩ := list.linked.append (absent f)
    { prev := none, next := none, server := some address, slevel }
  have server : (workerAt new).bind Worker.server = some address := by
    rw [here]
    rfl
  have same : ∀ v, v ≠ new → (workerAt v).bind Worker.server = (xget.workerAt v).bind Worker.server :=
    fun v other => bind_congr (tags Worker.server (fun _ _ => rfl) v other)
  have away : ∀ g, g ≠ f → ∀ v ∈ lists g, workerAt v = xget.workerAt v := by
    intro g other v inside
    refine outside v fun held => ?_
    rcases List.mem_append.mp held with old | single
    · exact other (shape.apart g f v inside old)
    · exact absent g (List.mem_singleton.mp single ▸ inside)
  have from_ : ∀ g, ∀ v ∈ Function.update lists f (lists f ++ [new]) g, v = new ∧ g = f ∨ v ∈ lists g ∧ v ≠ new := by
    intro g v inside
    by_cases mine : g = f
    · rw [mine, Function.update_self] at inside
      rcases List.mem_append.mp inside with old | single
      · exact .inr ⟨mine ▸ old, fun equal => absent f (equal ▸ old)⟩
      · exact .inl ⟨List.mem_singleton.mp single, mine⟩
    · rw [Function.update_of_ne mine] at inside
      exact .inr ⟨inside, fun equal => absent g (equal ▸ inside)⟩
  refine ⟨workerAt, by rw [list.last]; exact put, ⟨?_, ?_, ?_, shape.linked, shape.head, ?_, ?_, ?_, ?_, ?_, ?_⟩,
    server, same⟩
  · intro g other found
    have found : (xget.files.set f _)[g]? = some other := found
    by_cases mine : g = f
    · subst mine
      rw [List.getElem?_set_self (List.getElem?_eq_some_iff.mp there).1, Option.some.injEq] at found
      rw [Function.update_self, ← found]
      exact list.added linked
    · rw [List.getElem?_set_ne (Ne.symm mine)] at found
      rw [Function.update_of_ne mine]
      exact (shape.workers g other found).same (fun v inside => congrArg (Option.map Worker.next) (away g mine v inside))
        fun v inside => congrArg (Option.map Worker.prev) (away g mine v inside)
  · intro g holds
    have missing : (xget.files.set f _)[g]? = none := holds
    rw [List.getElem?_eq_none_iff, List.length_set, ← List.getElem?_eq_none_iff] at missing
    rw [Function.update_of_ne, shape.none_ g missing]
    rintro rfl
    cases missing.symm.trans there
  · intro g h v first second
    rcases from_ g v first with ⟨rfl, rfl⟩ | ⟨old, other⟩
    · rcases from_ h v second with ⟨-, rfl⟩ | ⟨-, other⟩
      · rfl
      · exact absurd rfl other
    · rcases from_ h v second with ⟨rfl, -⟩ | ⟨old', -⟩
      · exact absurd rfl other
      · exact shape.apart g h v old old'
  · intro g v inside record holds
    have found : workerAt v = some record := holds
    rcases from_ g v inside with ⟨rfl, -⟩ | ⟨old, other⟩
    · rw [here, Option.some.injEq] at found
      rw [← found]
      exact ⟨low, high⟩
    · have level := tags Worker.slevel (fun _ _ => rfl) v other
      rw [found, Option.map_some, eq_comm, Option.map_eq_some_iff] at level
      obtain ⟨was, live, equal⟩ := level
      rw [← equal]
      exact shape.levels g v old was live
  · intro g v inside place holds
    have names : (workerAt v).bind Worker.server = some place := holds
    rcases from_ g v inside with ⟨rfl, -⟩ | ⟨old, other⟩
    · rw [server, Option.some.injEq] at names
      rw [← names]
      exact listed
    · rw [same v other] at names
      exact shape.named g v old place names
  · intro client member v used
    obtain ⟨g, old⟩ := shape.used client member v used
    refine ⟨g, ?_⟩
    by_cases mine : g = f
    · rw [mine, Function.update_self]
      exact List.mem_append_left _ (mine ▸ old)
    · rw [Function.update_of_ne mine]
      exact old
  · intro fid record opened
    dsimp only
    rw [List.length_set]
    exact shape.fids fid record opened
  · intro g
    dsimp only
    by_cases mine : g = f
    · rw [mine, Function.update_self, List.length_append]
      exact Nat.succ_le_succ (shape.short f)
    · rw [Function.update_of_ne mine]
      exact Nat.le_succ_of_le (shape.short g)
  · exact Nat.le_succ_of_le shape.few

/-- A step of `avail_write` that succeeds leaves the lists in shape, with a server for each worker. -/
def Keeps (limits : Limits) (next : Xget) : Prop :=
  ∃ lists servers, Shape limits next lists servers ∧ Named next lists

theorem addWorker_keeps (shape : Shape limits xget lists servers) (named : Named xget lists)
    (there : xget.files[f]? = some file) {fid : Nat} {record : Spfilefid} (mine : record.file = f)
    (address : Bytes) {slevel : Nat} (low : 1 ≤ slevel) (high : slevel < limits.maxlevels) (count : Nat)
    (given : Allocations) :
    ∃ next result, addWorker xget fid f file record address slevel count given = some (next, result) ∧
      Keeps limits next := by
  obtain ⟨found, searched, -⟩ := findWorker_some shape named there address
  rw [addWorker, searched, Option.bind_eq_bind, Option.bind_some]
  cases found with
  | some v => exact ⟨_, _, rfl, lists, servers, shape, named⟩
  | none =>
      cases got : malloc xget.workerAt given.worker with
      | none => exact ⟨_, _, rfl, lists, servers, shape, named⟩
      | some new =>
          rcases haveServer_shape shape address given.server with failed | ⟨next, s, servers', had, after, listed, heap,
            files, fids⟩
          · dsimp only
            rw [failed]
            exact ⟨_, _, rfl, lists, servers, shape, named⟩
          · have free : next.workerAt new = none := by rw [heap, malloc_fresh got]
            have there' : next.files[f]? = some file := by rw [files, there]
            obtain ⟨workerAt, put, added, server, names⟩ := after.add there' free listed low high
            dsimp only
            rw [had, Option.bind_eq_bind, Option.bind_some]
            dsimp only
            rw [put]
            have inside : record.file < (next.files.set f { file with
                firstworker := file.firstworker.or (some new)
                lastworker := some new
                nextworker := file.nextworker.or (some new)
                numworkers := file.numworkers + 1 }).length := by
              rw [mine, List.length_set]
              exact (List.getElem?_eq_some_iff.mp there').1
            refine ⟨_, _, rfl, _, _, @Shape.setFid _ _ _ _ added fid { record with aux := some new } inside, ?_⟩
            intro g v member
            dsimp only
            by_cases fresh : v = new
            · exact ⟨s, fresh ▸ server⟩
            · have old : v ∈ lists g := by
                by_cases here : g = f
                · rw [here, Function.update_self, List.mem_append, List.mem_singleton] at member
                  exact here ▸ member.resolve_right fresh
                · rw [Function.update_of_ne here] at member
                  exact member
              rw [names v fresh, heap]
              exact named g v old

theorem availWrite_keeps (shape : Shape limits xget lists servers) (named : Named xget lists)
    (fid offset count : Nat) (data : Bytes) (given : Allocations) :
    ∃ next result, availWrite limits xget fid offset count data given = some (next, result) ∧ Keeps limits next := by
  rw [availWrite]
  cases opened : xget.fids fid with
  | none => exact ⟨_, _, rfl, lists, servers, shape, named⟩
  | some record =>
      obtain ⟨file, there⟩ : ∃ file, xget.files[record.file]? = some file :=
        ⟨_, List.getElem?_eq_getElem (shape.fids fid record opened)⟩
      dsimp only
      rw [there, Option.bind_eq_bind, Option.bind_some]
      split
      · exact ⟨_, _, rfl, lists, servers, shape, named⟩
      · cases data.dropWhile (· ≠ 32) with
        | nil => exact ⟨_, _, rfl, lists, servers, shape, named⟩
        | cons space s =>
            dsimp only
            split
            · exact ⟨_, _, rfl, lists, servers, shape, named⟩
            · have go : ∀ serverAt slevel, Shape limits { xget with serverAt } lists servers → 1 ≤ slevel →
                  slevel < limits.maxlevels → ∀ port, ∃ next result,
                    (if 33 ∉ record.address then some ({ xget with serverAt }, -1)
                    else if given.address = true then
                      addWorker { xget with serverAt } fid record.file file record
                        (workerAddress record.address port) slevel count given
                    else some ({ xget with serverAt }, -1)) = some (next, result) ∧ Keeps limits next := by
                intro serverAt slevel moved low high port
                split
                · exact ⟨_, _, rfl, lists, servers, moved, named⟩
                · split
                  · exact addWorker_keeps moved named there rfl _ low high count given
                  · exact ⟨_, _, rfl, lists, servers, moved, named⟩
              split
              · exact go xget.serverAt 1 shape (le_refl 1) (Nat.lt_of_lt_of_le Nat.one_lt_two limits.levels) _
              · split
                · obtain ⟨found, searched, member⟩ := findWorker_some shape named there s
                  rw [searched, Option.bind_eq_bind, Option.bind_some]
                  cases found with
                  | none => exact ⟨_, _, rfl, lists, servers, shape, named⟩
                  | some wc =>
                      obtain ⟨-, -, -, worker, here⟩ := shape.fileOf (member wc rfl)
                      obtain ⟨serverAt, more, moved⟩ := shape.modify (member wc rfl) here
                        (fun server => { server with conns := server.conns + 1 }) (fun _ => rfl) fun _ => rfl
                      simp only [here, more, Option.bind_eq_bind, Option.bind_some]
                      split
                      · exact ⟨_, _, rfl, lists, servers, moved, named⟩
                      · rename_i room
                        exact go serverAt (worker.slevel + 1) moved (Nat.le_add_left 1 _) (not_le.mp room) _
                · exact ⟨_, _, rfl, lists, servers,
                    ⟨shape.workers, shape.none_, shape.apart, shape.linked, shape.head, shape.levels, shape.named,
                      shape.used, shape.fids, shape.short, shape.few⟩, named⟩

theorem Shape.closeFid (shape : Shape limits xget lists servers) (fid : Nat) :
    Shape limits { xget with fids := Function.update xget.fids fid none } lists servers := by
  refine { shape with fids := ?_ }
  intro other record holds
  have opened : Function.update xget.fids fid none other = some record := holds
  by_cases here : other = fid
  · rw [here, Function.update_self] at opened
    cases opened
  · rw [Function.update_of_ne here] at opened
    exact shape.fids other record opened

theorem availClosefid_shape (shape : Shape limits xget lists servers) (named : Named xget lists)
    (running : xget.crashed = false) (fid : Nat) :
    ∃ next lists' servers', availClosefid xget fid = some next ∧ Shape limits next lists' servers' ∧
      (Named next lists' ↔ Fits xget (.availClosefid fid)) := by
  rw [availClosefid, Fits, or_iff_right (by rw [running]; exact Bool.false_ne_true)]
  cases opened : xget.fids fid with
  | none => exact ⟨_, lists, servers, rfl, shape, iff_of_true named fun record w file address none_ => by cases none_⟩
  | some record =>
      obtain ⟨file, there⟩ : ∃ file, xget.files[record.file]? = some file :=
        ⟨_, List.getElem?_eq_getElem (shape.fids fid record opened)⟩
      cases holds : record.aux with
      | none =>
          simp only [holds, Option.bind_eq_bind, Option.bind_some]
          refine ⟨_, lists, servers, rfl, shape.closeFid fid, iff_of_true named ?_⟩
          rintro _ w file address ⟨⟩ aux
          cases holds.symm.trans aux
      | some w =>
          by_cases member : w ∈ lists record.file
          · obtain ⟨next, servers', removed, after, keeps⟩ := removeworker_shape shape there member
            simp only [holds, removed, Option.bind_eq_bind, Option.bind_some]
            refine ⟨_, _, servers', rfl, after.closeFid fid, ?_⟩
            constructor
            · rintro kept _ _ _ address ⟨⟩ aux _ _ away other found v inside different names
              obtain ⟨g, bound, rfl⟩ := List.mem_iff_getElem.mp found
              rw [shape.workersOf_eq (List.getElem?_eq_getElem bound)] at inside
              rw [← Option.some.inj (holds.symm.trans aux)] at away different
              have left : v ∈ (lists g).erase w := (List.mem_erase_of_ne different).mpr inside
              obtain ⟨place, still⟩ := kept g v left
              cases ((keeps g v left address names).1 away).symm.trans still
            · intro fits g v left
              have inside := List.mem_of_mem_erase left
              obtain ⟨other, found, list, -⟩ := shape.fileOf inside
              have different := (list.linked.distinct.mem_erase_iff.mp left).1
              obtain ⟨address, names⟩ := named g v inside
              refine ⟨address, (keeps g v left address names).2 fun away => ?_⟩
              exact fits record w file address rfl holds there ((shape.workersOf_eq there).symm ▸ member) away other
                (List.mem_of_getElem? found) v ((shape.workersOf_eq found).symm ▸ inside) different names
          · have kept : removeworker xget record.file w = some xget := by
              rw [removeworker, there, Option.bind_eq_bind, Option.bind_some, find_self shape there, if_neg member]
              rfl
            simp only [holds, kept, Option.bind_eq_bind, Option.bind_some]
            refine ⟨_, lists, servers, rfl, shape.closeFid fid, iff_of_true named ?_⟩
            rintro _ _ other address ⟨⟩ aux found inside
            rw [shape.workersOf_eq found, ← Option.some.inj (holds.symm.trans aux)] at inside
            exact absurd inside member

theorem step_shape (shape : Shape limits xget lists servers) (named : Named xget lists) (event : Event) :
    ∃ next lists' servers', step limits xget event = some next ∧ Shape limits next lists' servers' ∧
      (Named next lists' ↔ Fits xget event) := by
  rw [step]
  cases running : xget.crashed with
  | true =>
      refine ⟨xget, lists, servers, rfl, shape, iff_of_true named ?_⟩
      cases event with
      | availClosefid fid => exact .inl running
      | _ => trivial
  | false =>
      rw [if_neg Bool.false_ne_true]
      cases event with
      | connopen address room =>
          refine ⟨_, lists, servers, rfl, connopen_shape shape address room, iff_of_true ?_ trivial⟩
          rw [Named, connopen_workerAt]
          exact named
      | connclose address =>
          obtain ⟨next, closed, after, heap⟩ := connclose_shape shape address
          refine ⟨next, lists, servers, closed, after, iff_of_true ?_ trivial⟩
          rw [Named, heap]
          exact named
      | redirRead f address offset count room =>
          rw [handle]
          split
          · rename_i bound
            obtain ⟨next, reply, answered, after, heap⟩ :=
              redirRead_shape shape (List.getElem?_eq_getElem bound) address offset count room
            rw [answered]
            refine ⟨next, lists, servers, rfl, after, iff_of_true ?_ trivial⟩
            rw [Named, heap]
            exact named
          · exact ⟨xget, lists, servers, rfl, shape, iff_of_true named trivial⟩
      | availOpen fid f address =>
          rw [handle]
          split
          · rename_i free
            exact ⟨_, lists, servers, rfl, shape.setFid free.1, iff_of_true named trivial⟩
          · exact ⟨xget, lists, servers, rfl, shape, iff_of_true named trivial⟩
      | availWrite fid offset count data given =>
          obtain ⟨next, result, written, lists', servers', after, kept⟩ :=
            availWrite_keeps shape named fid offset count data given
          rw [handle, written]
          exact ⟨next, lists', servers', rfl, after, iff_of_true kept trivial⟩
      | availClosefid fid => exact availClosefid_shape shape named running fid

theorem Shape.named_of_sound (shape : Shape limits xget lists servers) (sound : Sound xget) : Named xget lists := by
  intro f w member
  obtain ⟨file, there, -⟩ := shape.fileOf member
  obtain ⟨worker, address, server, here, names, -⟩ := sound.named file (List.mem_of_getElem? there) w
    ((shape.workersOf_eq there).symm ▸ member)
  exact ⟨address, by rw [here, Option.bind_some, names]⟩

theorem step_sound_iff (keeps : Keeps limits xget) (event : Event) :
    (∃ next, step limits xget event = some next ∧ Sound next) ↔ Fits xget event := by
  obtain ⟨lists, servers, shape, named⟩ := keeps
  obtain ⟨next, lists', servers', stepped, after, fits⟩ := step_shape shape named event
  rw [← fits]
  constructor
  · rintro ⟨other, same, sound⟩
    rw [← Option.some.inj (stepped.symm.trans same)] at sound
    exact after.named_of_sound sound
  · exact fun kept => ⟨next, stepped, after.sound kept⟩

theorem step_keeps (keeps : Keeps limits xget) {event : Event} {next : Xget}
    (stepped : step limits xget event = some next) (sound : Sound next) : Keeps limits next := by
  obtain ⟨lists, servers, shape, named⟩ := keeps
  obtain ⟨other, lists', servers', same, after, -⟩ := step_shape shape named event
  rw [Option.some.inj (same.symm.trans stepped)] at after
  exact ⟨lists', servers', after, after.named_of_sound sound⟩

end Shape

/-- The master with this many files that nobody has asked for. -/
def started (files : Nat) : Xget := { files := List.replicate files {} }

theorem started_keeps (limits : Limits) (files : Nat) : Keeps limits (started files) := by
  refine ⟨fun _ => [], [], ⟨?_, fun _ _ => rfl, ?_, ?_, rfl, ?_, ?_, ?_, ?_, ?_, ?_⟩, ?_⟩
  · intro f file there
    obtain ⟨-, rfl⟩ := List.mem_replicate.mp (List.mem_of_getElem? there)
    exact ⟨⟨List.nodup_nil, List.forall_mem_nil _, trivial, trivial⟩, rfl, rfl, rfl, (fun p none_ => by cases none_),
      fun _ => rfl⟩
  · exact fun f g w member => by cases member
  · exact ⟨List.nodup_nil, List.forall_mem_nil _, trivial, trivial⟩
  · exact fun f w member => by cases member
  · exact fun f w member => by cases member
  · exact fun client member => by cases member
  · exact fun fid record opened => by cases opened
  · exact fun f => le_refl 0
  · exact le_refl 0
  · exact fun f w member => by cases member

/-- The lists are as they should be throughout exactly if no closing takes a server away that others name. -/
theorem bookkeeping_iff (limits : Limits) (files : Nat) (events : List Event) :
    Throughout (step limits) Sound (started files) events ↔ Guarded (step limits) Fits (started files) events :=
  throughout_iff_guarded (step limits) (fun _ event keeps => step_sound_iff keeps event)
    (fun _ _ _ keeps stepped sound => step_keeps keeps stepped sound) events (started_keeps limits files)

/-- A client `1!9` is a worker for two files at port 5, and closes its avail fid of the first. -/
def sharedServer : List Event :=
  let given : Allocations := { copy := true, address := true, worker := none, server := some 0 }
  [.connopen [49, 33, 57] true, .availOpen 0 0 [49, 33, 57], .availOpen 1 1 [49, 33, 57],
    .availWrite 0 0 5 [53, 32, 109, 101] { given with worker := some 0 },
    .availWrite 1 0 5 [53, 32, 109, 101] { given with worker := some 1 },
    .availClosefid 0]

/-- The server goes away with the worker of the first file, and the worker of the second has none. -/
theorem sharedServer_lost : ¬Throughout (step defaults) Sound (started 2) sharedServer := by
  intro all
  obtain ⟨final, ran, sound⟩ := throughout_final (step defaults) all
  have lists : (run (step defaults) (started 2) sharedServer).map
      (fun xget => (xget.files.map (workersOf xget), (xget.workerAt 1).map Worker.server)) =
        some ([[], [1]], some none) := by decide
  have same : run (step defaults) (started 2) sharedServer = some final := ran
  rw [same, Option.map_some, Option.some.injEq, Prod.mk.injEq] at lists
  obtain ⟨workers, server⟩ := lists
  obtain ⟨file, member, listed⟩ := List.mem_map.mp (workers ▸ List.mem_cons_of_mem _ List.mem_cons_self)
  obtain ⟨worker, address, -, here, names, -⟩ := sound.named file member 1 (listed ▸ List.mem_cons_self)
  rw [here, Option.map_some, names] at server
  cases server

end Xcpu.Xget.Workers
