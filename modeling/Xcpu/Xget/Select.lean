import Xcpu.Xget.Workers

/-!
The worker that `redir_read` chooses in one round through a file's list, against the one with the fewest
connections.
-/

namespace Xcpu.Xget.Workers

open Xcpu.Linked

section Preference

variable {Item : Type} (has wanted : Item → Bool) (load : Item → Int) (limit : Int)

/-- There is a server, with room for a connection. -/
def Eligible (item : Item) : Prop := has item = true ∧ load item < limit

instance : DecidablePred (Eligible has load limit) := fun _ => inferInstanceAs (Decidable (_ ∧ _))

/-- The best one so far after another has been looked at. -/
def pick : Option Item → Item → Option Item
  | none, item => if Eligible has load limit item then some item else none
  | some best, item =>
      if has item ∧ load item < load best ∧ (wanted item ∨ !wanted best) then some item else some best

/-- A wanted one comes with fewer connections than all before it. -/
def Leads (order : List Item) : Prop :=
  ∃ before item after, order = before ++ item :: after ∧ Eligible has load limit item ∧ wanted item = true ∧
    ∀ other ∈ before, Eligible has load limit other → load item < load other

/-- None only if none is eligible, and otherwise one that is: a wanted one if there is one, with the fewest
connections of the wanted ones, or of all if none is wanted. -/
def Right (order : List Item) (result : Option Item) : Prop :=
  (result = none ↔ ∀ item ∈ order, ¬Eligible has load limit item) ∧
  ∀ best, result = some best → best ∈ order ∧ Eligible has load limit best ∧
    ((∃ item ∈ order, Eligible has load limit item ∧ wanted item = true) → wanted best = true) ∧
    (wanted best = true → ∀ item ∈ order, Eligible has load limit item → wanted item = true → load best ≤ load item) ∧
    ((∀ item ∈ order, Eligible has load limit item → wanted item = false) →
      ∀ item ∈ order, Eligible has load limit item → load best ≤ load item)

/-- What is known of the best one of those that have been looked at. -/
structure Chosen (order : List Item) (best : Item) : Prop where
  member : best ∈ order
  eligible : Eligible has load limit best
  among : ∀ item ∈ order, Eligible has load limit item → wanted best = false ∨ wanted item = true →
    load best ≤ load item
  leads : wanted best = true ↔ Leads has wanted load limit order

def Sofar (order : List Item) : Option Item → Prop
  | none => ∀ item ∈ order, ¬Eligible has load limit item
  | some best => Chosen has wanted load limit order best

variable {has wanted load limit} {order : List Item} {best item : Item}

theorem leads_append : Leads has wanted load limit (order ++ [item]) ↔ Leads has wanted load limit order ∨
    Eligible has load limit item ∧ wanted item = true ∧
      ∀ other ∈ order, Eligible has load limit other → load item < load other := by
  constructor
  · rintro ⟨before, first, after, same, eligible, wants, fewer⟩
    rcases List.eq_nil_or_concat after with rfl | ⟨rest, last, rfl⟩
    · obtain ⟨rfl, single⟩ := List.append_inj' same rfl
      obtain ⟨rfl, -⟩ := List.cons.inj single
      exact .inr ⟨eligible, wants, fewer⟩
    · rw [List.concat_eq_append, ← List.cons_append, ← List.append_assoc] at same
      obtain ⟨rfl, -⟩ := List.append_inj' same rfl
      exact .inl ⟨before, first, rest, rfl, eligible, wants, fewer⟩
  · rintro (⟨before, first, after, rfl, leading⟩ | leading)
    · exact ⟨before, first, after ++ [item], by rw [List.append_assoc, List.cons_append], leading⟩
    · exact ⟨order, item, [], rfl, leading⟩

theorem pick_sofar {result : Option Item} (sofar : Sofar has wanted load limit order result) (item : Item) :
    Sofar has wanted load limit (order ++ [item]) (pick has wanted load limit result item) := by
  cases result with
  | none =>
      rw [pick]
      have none_ : ∀ other ∈ order, ¬Eligible has load limit other := sofar
      by_cases room : Eligible has load limit item
      · rw [if_pos room]
        refine ⟨List.mem_append_right _ List.mem_cons_self, room, ?_, ?_⟩
        · intro other member eligible _
          rcases List.mem_append.mp member with before | here
          · exact absurd eligible (none_ other before)
          · rw [List.mem_singleton.mp here]
        · rw [leads_append]
          constructor
          · exact fun wants => .inr ⟨room, wants, fun other member eligible => absurd eligible (none_ other member)⟩
          · rintro (⟨before, first, after, rfl, eligible, -⟩ | ⟨-, wants, -⟩)
            · exact absurd eligible (none_ first (List.mem_append_right _ List.mem_cons_self))
            · exact wants
      · rw [if_neg room]
        intro other member
        rcases List.mem_append.mp member with before | here
        · exact none_ other before
        · rw [List.mem_singleton.mp here]
          exact room
  | some best =>
      obtain ⟨member, eligible, among, leads⟩ := sofar
      rw [pick]
      split
      · rename_i better
        obtain ⟨has_, less, prefers⟩ := better
        have room : Eligible has load limit item := ⟨has_, less.trans eligible.2⟩
        refine ⟨List.mem_append_right _ List.mem_cons_self, room, ?_, ?_⟩
        · intro other inside eligible_ counts
          rcases List.mem_append.mp inside with before | here
          · have least : wanted best = false ∨ wanted other = true := by
              cases wants : wanted best with
              | false => exact .inl rfl
              | true =>
                  rw [wants] at prefers
                  rcases counts with not_ | yes
                  · rw [not_] at prefers
                    simp at prefers
                  · exact .inr yes
            exact (less.trans_le (among other before eligible_ least)).le
          · rw [List.mem_singleton.mp here]
        · rw [leads_append]
          constructor
          · intro wants
            cases was : wanted best with
            | true => exact .inl (leads.mp was)
            | false =>
                exact .inr ⟨room, wants, fun other before eligible_ =>
                  less.trans_le (among other before eligible_ (.inl was))⟩
          · rintro (leading | ⟨-, wants, -⟩)
            · rw [leads.mpr leading] at prefers
              simpa using prefers
            · exact wants
      · rename_i worse
        have fewest (has_ : has item = true) (prefers : wanted item = true ∨ wanted best = false) :
            load best ≤ load item := by
          by_contra less
          refine worse ⟨has_, not_le.mp less, ?_⟩
          rcases prefers with wants | not_
          · exact .inl wants
          · exact .inr (by rw [not_]; rfl)
        refine ⟨List.mem_append_left _ member, eligible, ?_, ?_⟩
        · intro other inside eligible_ counts
          rcases List.mem_append.mp inside with before | here
          · exact among other before eligible_ counts
          · rw [List.mem_singleton.mp here] at eligible_ counts ⊢
            exact fewest eligible_.1 counts.symm
        · rw [leads_append, ← leads]
          constructor
          · exact .inl
          · rintro (wants | ⟨eligible_, wants, fewer⟩)
            · exact wants
            · exact absurd (fewest eligible_.1 (.inl wants)) (not_le.mpr (fewer best member eligible))

theorem foldl_sofar {result : Option Item} (sofar : Sofar has wanted load limit order result) (items : List Item) :
    Sofar has wanted load limit (order ++ items) (items.foldl (pick has wanted load limit) result) := by
  induction items generalizing order result with
  | nil =>
      rw [List.append_nil]
      exact sofar
  | cons item items ih =>
      have later := ih (pick_sofar sofar item)
      rw [List.append_assoc, List.singleton_append] at later
      exact later

theorem foldl_right_iff (order : List Item) :
    Right has wanted load limit order (order.foldl (pick has wanted load limit) none) ↔
      (∀ item ∈ order, Eligible has load limit item → wanted item = false) ∨ Leads has wanted load limit order := by
  have sofar := foldl_sofar (show Sofar has wanted load limit [] none from List.forall_mem_nil _) order
  rw [List.nil_append] at sofar
  cases result : order.foldl (pick has wanted load limit) none with
  | none =>
      rw [result] at sofar
      have none_ : ∀ item ∈ order, ¬Eligible has load limit item := sofar
      refine iff_of_true ⟨⟨fun _ => none_, fun _ => rfl⟩, ?_⟩ (.inl ?_)
      · rintro best ⟨⟩
      · exact fun item member eligible => absurd eligible (none_ item member)
  | some best =>
      rw [result] at sofar
      obtain ⟨member, eligible, among, leads⟩ := sofar
      rw [← leads]
      constructor
      · rintro ⟨-, all⟩
        obtain ⟨-, -, wants, -, -⟩ := all best rfl
        by_cases some_ : ∃ item ∈ order, Eligible has load limit item ∧ wanted item = true
        · exact .inr (wants some_)
        · refine .inl fun item inside eligible_ => ?_
          cases wants : wanted item with
          | false => rfl
          | true => exact absurd ⟨item, inside, eligible_, wants⟩ some_
      · intro either
        refine ⟨⟨by rintro ⟨⟩, fun none_ => absurd eligible (none_ best member)⟩, ?_⟩
        rintro _ ⟨⟩
        refine ⟨member, eligible, ?_, ?_, ?_⟩
        · rintro ⟨item, inside, eligible_, wants⟩
          rcases either with not_ | yes
          · rw [not_ item inside eligible_] at wants
            cases wants
          · exact yes
        · exact fun wants item inside eligible_ other => among item inside eligible_ (.inr other)
        · exact fun not_ item inside eligible_ => among item inside eligible_ (.inl (not_ best member eligible))

theorem right_congr {other : List Item} {result : Option Item} (same : ∀ item, item ∈ order ↔ item ∈ other) :
    Right has wanted load limit order result ↔ Right has wanted load limit other result := by
  simp only [Right, same]

end Preference

/-- The list of a file's workers. -/
structure WorkerList (workerAt : Heap Worker) (file : File) (nodes : List Nat) : Prop where
  linked : Doubly workerPtr workerAt nodes
  first : file.firstworker = nodes.head?
  last : file.lastworker = nodes.getLast?
  count : file.numworkers = nodes.length
  next : ∀ p, file.nextworker = some p → p ∈ nodes
  empty : file.nextworker = none → nodes = []

/-- `avail_write` has given the workers their levels and servers; a server may have been taken away. -/
def Registered (limits : Limits) (xget : Xget) (nodes : List Nat) : Prop :=
  ∀ w ∈ nodes, ∃ worker, xget.workerAt w = some worker ∧ 1 ≤ worker.slevel ∧ worker.slevel < limits.maxlevels ∧
    ∀ address, worker.server = some address → ∃ server, xget.serverAt address = some server

section Heap

variable (xget : Xget) (dl : Nat)

def serverOf (w : Nat) : Option Server := ((xget.workerAt w).bind Worker.server).bind xget.serverAt

def hasServer (w : Nat) : Bool := (serverOf xget w).isSome

def connsOf (w : Nat) : Int := ((serverOf xget w).map Server.conns).getD 0

def atLevel (w : Nat) : Bool := (xget.workerAt w).map Worker.slevel == some dl

/-- The workers from `nextworker` on. -/
def roundOf (nodes : List Nat) (nextworker : Option Nat) : List Nat :=
  nodes.dropWhile (some · ≠ nextworker) ++ nodes.takeWhile (some · ≠ nextworker)

variable {xget dl} {limits : Limits} {nodes : List Nat} {file : File}

theorem serverOf_some {w : Nat} {server : Server} (there : serverOf xget w = some server) :
    ∃ worker address, xget.workerAt w = some worker ∧ worker.server = some address ∧
      xget.serverAt address = some server := by
  obtain ⟨address, named, found⟩ := Option.bind_eq_some_iff.mp there
  obtain ⟨worker, here, same⟩ := Option.bind_eq_some_iff.mp named
  exact ⟨worker, address, here, same, found⟩

theorem prefer_eq {w : Nat} {worker : Worker} {t : Option Nat} (there : xget.workerAt w = some worker)
    (live : ∀ address, worker.server = some address → ∃ server, xget.serverAt address = some server)
    (best : ∀ b, t = some b → hasServer xget b = true) :
    prefer limits xget dl t w worker =
      some (pick (hasServer xget) (atLevel xget dl) (connsOf xget) limits.maxconnections t w) := by
  have level : atLevel xget dl w = true ↔ dl = worker.slevel := by
    rw [atLevel, there, Option.map_some, beq_iff_eq, Option.some.injEq, eq_comm]
  cases named : worker.server with
  | none =>
      have without : hasServer xget w = false := by
        rw [hasServer, serverOf, there, Option.bind_some, named]
        rfl
      rw [prefer, named]
      cases t with
      | none => simp [pick, Eligible, without]
      | some b => simp [pick, without]
  | some address =>
      obtain ⟨server, found⟩ := live address named
      have mine : serverOf xget w = some server := by
        rw [serverOf, there, Option.bind_some, named, Option.bind_some, found]
      have has_ : hasServer xget w = true := by
        rw [hasServer, mine]
        rfl
      have conns : connsOf xget w = server.conns := by
        rw [connsOf, mine]
        rfl
      rw [prefer, named]
      cases t with
      | none =>
          simp only [found, Option.bind_eq_bind, Option.bind_some, Option.pure_def, pick, Eligible, has_, conns,
            true_and]
          by_cases room : (server.conns : Int) < limits.maxconnections
          · rw [if_pos room]
            split
            · rfl
            · rfl
          · rw [if_neg fun both => room both.1, if_neg room, if_neg room]
      | some b =>
          obtain ⟨bestServer, same⟩ := Option.isSome_iff_exists.mp (best b rfl)
          obtain ⟨bestWorker, bestAddress, here, named_, found_⟩ := serverOf_some same
          have load : connsOf xget b = bestServer.conns := by
            rw [connsOf, same]
            rfl
          have at_ : atLevel xget dl b = true ↔ bestWorker.slevel = dl := by
            rw [atLevel, here, Option.map_some, beq_iff_eq, Option.some.injEq]
          have other : (!atLevel xget dl b) = true ↔ bestWorker.slevel ≠ dl := by
            rw [Bool.not_eq_true', ← Bool.not_eq_true, at_]
          simp only [found, here, named_, found_, Option.bind_eq_bind, Option.bind_some, Option.pure_def, pick, has_,
            conns, load, true_and, level, other, Nat.cast_lt]
          by_cases fewer : server.conns < bestServer.conns
          · by_cases wants : dl = worker.slevel
            · rw [if_pos ⟨fewer, wants⟩, if_pos ⟨fewer, .inl wants⟩]
            · rw [if_neg fun both => wants both.2]
              by_cases not_ : bestWorker.slevel ≠ dl
              · rw [if_pos ⟨not_, fewer⟩, if_pos ⟨fewer, .inr not_⟩]
              · rw [if_neg fun both => not_ both.1, if_neg fun both => both.2.elim wants not_]
          · rw [if_neg fun both => fewer both.1, if_neg fun both => fewer both.2, if_neg fun both => fewer both.1]

theorem scan_step {first : Option Nat} {p n : Nat} {fuel : Nat} {w : Nat} {seen : List Nat} {t : Option Nat}
    (after : ((xget.workerAt w).bind Worker.next).or first = some n) (registered : Registered limits xget [w])
    (best : ∀ b, t = some b → hasServer xget b = true) : scan limits xget first dl p (fuel + 1) w t seen =
      let t := pick (hasServer xget) (atLevel xget dl) (connsOf xget) limits.maxconnections t w
      if n = p then some (seen ++ [w], t) else scan limits xget first dl p fuel n t (seen ++ [w]) := by
  obtain ⟨worker, there, -, levels, live⟩ := registered w List.mem_cons_self
  rw [there, Option.bind_some] at after
  rw [scan, there, Option.bind_eq_bind, Option.bind_some, if_neg (not_le.mpr levels), prefer_eq there live best,
    Option.bind_eq_bind, Option.bind_some]
  cases behind : worker.next with
  | some next =>
      rw [behind, Option.some_or, Option.some.injEq] at after
      subst after
      rfl
  | none =>
      rw [behind, Option.none_or] at after
      rw [after]
      rfl

theorem pick_has {t : Option Nat} {w : Nat} (best : ∀ b, t = some b → hasServer xget b = true) :
    ∀ b, pick (hasServer xget) (atLevel xget dl) (connsOf xget) limits.maxconnections t w = some b →
      hasServer xget b = true := by
  intro b chosen
  cases t with
  | none =>
      rw [pick] at chosen
      split at chosen
      · rename_i eligible
        exact Option.some.inj chosen ▸ eligible.1
      · cases chosen
  | some old =>
      rw [pick] at chosen
      split at chosen
      · rename_i better
        exact Option.some.inj chosen ▸ better.1
      · exact best b chosen

/-- The loop goes through a route that leads back to where it began. -/
theorem scan_eq {first : Option Nat} {p : Nat} {fuel : Nat} {w : Nat} {rest seen : List Nat} {t : Option Nat}
    (path : Path (fun w => ((xget.workerAt w).bind Worker.next).or first) (some p) (w :: rest)) (ends : p ∉ rest)
    (registered : Registered limits xget (w :: rest)) (enough : rest.length < fuel)
    (best : ∀ b, t = some b → hasServer xget b = true) :
    scan limits xget first dl p fuel w t seen = some (seen ++ w :: rest,
      (w :: rest).foldl (pick (hasServer xget) (atLevel xget dl) (connsOf xget) limits.maxconnections) t) := by
  induction rest generalizing fuel w seen t with
  | nil =>
      cases fuel with
      | zero => cases enough
      | succ fuel => rw [scan_step path.1 registered best, if_pos rfl, List.foldl_cons, List.foldl_nil]
  | cons next rest ih =>
      cases fuel with
      | zero => cases enough
      | succ fuel =>
          rw [List.mem_cons, not_or] at ends
          have here : Registered limits xget [w] := fun v member =>
            registered v (List.mem_singleton.mp member ▸ List.mem_cons_self)
          have later : Registered limits xget (next :: rest) := fun v member =>
            registered v (List.mem_cons_of_mem _ member)
          rw [scan_step path.1 here best, if_neg (Ne.symm ends.1),
            ih path.2 ends.2 later (Nat.lt_of_succ_lt_succ enough) (pick_has best), List.append_assoc,
            List.singleton_append]
          rfl

theorem path_or {link : Nat → Option Nat} {stop first : Option Nat} (path : Path link stop nodes) :
    Path (fun node => (link node).or first) (stop.or first) nodes := by
  induction nodes with
  | nil => trivial
  | cons node rest ih =>
      refine ⟨?_, ih path.2⟩
      have next : link node = rest.head?.or stop := path.1
      dsimp only
      rw [next, Option.or_assoc]

/-- From any worker of a list the loop goes once around. -/
theorem scan_round {before after : List Nat} {p : Nat} {fuel : Nat}
    (linked : Doubly workerPtr xget.workerAt (before ++ p :: after))
    (registered : Registered limits xget (before ++ p :: after)) (enough : (before ++ p :: after).length ≤ fuel) :
    scan limits xget (before ++ p :: after).head? dl p fuel p none [] = some (p :: after ++ before,
      (p :: after ++ before).foldl (pick (hasServer xget) (atLevel xget dl) (connsOf xget) limits.maxconnections)
        none) := by
  obtain ⟨front, back⟩ := path_append.mp linked.forward
  have head : (before ++ p :: after).head? = before.head?.or (some p) := by
    rw [List.head?_append, List.head?_cons]
  have route : Path (fun w => ((xget.workerAt w).bind Worker.next).or (before ++ p :: after).head?) (some p)
      (p :: after ++ before) := by
    rw [path_append]
    constructor
    · rw [← head]
      exact path_or back
    · exact path_or front
  obtain ⟨-, second, apart⟩ := List.nodup_append.mp linked.distinct
  have ends : p ∉ after ++ before := by
    rw [List.mem_append, not_or]
    exact ⟨(List.nodup_cons.mp second).1, fun member => apart p member p List.mem_cons_self rfl⟩
  have all : Registered limits xget (p :: after ++ before) := fun w member => registered w (by
    rw [List.mem_append] at member ⊢
    exact member.symm)
  have size : (after ++ before).length < fuel := by
    rw [List.length_append] at enough ⊢
    rw [List.length_cons] at enough
    omega
  exact scan_eq route ends all size fun b none_ => by cases none_

theorem roundOf_eq {before after : List Nat} {p : Nat} (first : p ∉ before) :
    roundOf (before ++ p :: after) (some p) = p :: after ++ before := by
  have other : ∀ w ∈ before, decide (some w ≠ some p) = true := by
    intro w member
    refine decide_eq_true fun same => ?_
    rw [Option.some.injEq] at same
    exact first (same ▸ member)
  rw [roundOf, List.dropWhile_append_of_pos other, List.takeWhile_append_of_pos other]
  simp

/-- One round looks at each worker once, and the choice is right. -/
def Selects (limits : Limits) (xget : Xget) (file : File) (nodes clevels : List Nat) : Prop :=
  ∃ seen t, (∀ fuel, nodes.length ≤ fuel → select limits xget fuel file clevels = some (seen, t)) ∧
    seen.Perm nodes ∧ Right (hasServer xget) (atLevel xget (desiredLevel limits clevels)) (connsOf xget)
      limits.maxconnections nodes t

/-- No worker with room is at the desired level, or one that is there comes in the round from `nextworker` with
fewer connections than all with room before it. -/
def LedByLevel (limits : Limits) (xget : Xget) (file : File) (nodes clevels : List Nat) : Prop :=
  (∀ w ∈ nodes, Eligible (hasServer xget) (connsOf xget) limits.maxconnections w →
    atLevel xget (desiredLevel limits clevels) w = false) ∨
  Leads (hasServer xget) (atLevel xget (desiredLevel limits clevels)) (connsOf xget) limits.maxconnections
    (roundOf nodes file.nextworker)

/-- The workers of a file are chosen from rightly exactly if those at the desired level come first. -/
theorem select_right_iff (list : WorkerList xget.workerAt file nodes) (registered : Registered limits xget nodes)
    (clevels : List Nat) : Selects limits xget file nodes clevels ↔ LedByLevel limits xget file nodes clevels := by
  rw [Selects, LedByLevel]
  cases starts : file.nextworker with
  | none =>
      obtain rfl := list.empty starts
      refine iff_of_true ⟨[], none, fun fuel _ => ?_, List.Perm.refl _, ?_⟩ (.inl (List.forall_mem_nil _))
      · rw [select, starts]
      · refine ⟨⟨fun _ => List.forall_mem_nil _, fun _ => rfl⟩, ?_⟩
        rintro best ⟨⟩
  | some p =>
      obtain ⟨before, after, rfl⟩ := List.append_of_mem (list.next p starts)
      have first : p ∉ before := fun member =>
        (List.nodup_append.mp list.linked.distinct).2.2 p member p List.mem_cons_self rfl
      have runs : ∀ fuel, (before ++ p :: after).length ≤ fuel →
          select limits xget fuel file clevels = some (p :: after ++ before, (p :: after ++ before).foldl
            (pick (hasServer xget) (atLevel xget (desiredLevel limits clevels)) (connsOf xget)
              limits.maxconnections) none) := by
        intro fuel enough
        rw [select, starts, list.first]
        exact scan_round list.linked registered enough
      have same : ∀ w, w ∈ before ++ p :: after ↔ w ∈ p :: after ++ before := fun w => by
        rw [List.mem_append, List.mem_append, or_comm]
      have none_ : (∀ w ∈ before ++ p :: after, Eligible (hasServer xget) (connsOf xget) limits.maxconnections w →
          atLevel xget (desiredLevel limits clevels) w = false) ↔
          ∀ w ∈ p :: after ++ before, Eligible (hasServer xget) (connsOf xget) limits.maxconnections w →
          atLevel xget (desiredLevel limits clevels) w = false := forall_congr' fun w => by rw [same w]
      rw [roundOf_eq first, none_, ← foldl_right_iff]
      constructor
      · rintro ⟨seen, t, ran, -, right⟩
        have result := (ran _ (le_refl _)).symm.trans (runs _ (le_refl _))
        rw [Option.some.injEq, Prod.mk.injEq] at result
        rw [result.2] at right
        exact (right_congr same).mp right
      · intro right
        exact ⟨_, _, runs, List.perm_append_comm, (right_congr same).mpr right⟩

end Heap

/-- Two workers at different levels, of which the first has no connections. -/
def twoWorkers : Xget :=
  { files := []
    workerAt := fun w =>
      if w = 0 then some { prev := none, next := some 1, server := some 0, slevel := 1 }
      else if w = 1 then some { prev := some 0, next := none, server := some 1, slevel := 2 }
      else none
    serverAt := fun s =>
      if s = 0 then some { saddress := [97], conns := 0, next := none, prev := some 1 }
      else if s = 1 then some { saddress := [98], conns := 1, next := some 0, prev := none }
      else none }

def twoFile : File := { numworkers := 2, firstworker := some 0, lastworker := some 1, nextworker := some 0 }

/-- As in the source: four levels and ten connections. -/
def defaults : Limits := { maxlevels := 4, maxconnections := 10, levels := by decide }

theorem twoWorkers_list : WorkerList twoWorkers.workerAt twoFile [0, 1] where
  linked := by
    refine ⟨by decide, ?_, ⟨rfl, rfl, trivial⟩, ⟨rfl, rfl, trivial⟩⟩
    intro w member
    rcases List.mem_cons.mp member with rfl | member
    · exact ⟨_, rfl⟩
    · rw [List.mem_singleton.mp member]
      exact ⟨_, rfl⟩
  first := rfl
  last := rfl
  count := rfl
  next p starts := by
    rw [← Option.some.inj starts]
    decide
  empty starts := by cases starts

theorem twoWorkers_registered : Registered defaults twoWorkers [0, 1] := by
  intro w member
  rcases List.mem_cons.mp member with rfl | member
  · refine ⟨_, rfl, by decide, by decide, ?_⟩
    rintro address named
    rw [← Option.some.inj named]
    exact ⟨_, rfl⟩
  · rw [List.mem_singleton.mp member]
    refine ⟨_, rfl, by decide, by decide, ?_⟩
    rintro address named
    rw [← Option.some.inj named]
    exact ⟨_, rfl⟩

theorem select_right_two : Selects defaults twoWorkers twoFile [0, 1] [1, 0, 0] ↔
    LedByLevel defaults twoWorkers twoFile [0, 1] [1, 0, 0] :=
  select_right_iff twoWorkers_list twoWorkers_registered [1, 0, 0]

/-- A client that was sent to level 1 before is sent there again, though a worker at level 2 has room. -/
theorem select_sameLevel : WorkerList twoWorkers.workerAt twoFile [0, 1] ∧ Registered defaults twoWorkers [0, 1] ∧
    ¬Selects defaults twoWorkers twoFile [0, 1] [1, 0, 0] := by
  refine ⟨twoWorkers_list, twoWorkers_registered, ?_⟩
  rintro ⟨seen, t, ran, -, -, right⟩
  have first : select defaults twoWorkers 2 twoFile [1, 0, 0] = some ([0, 1], some 0) := by decide
  have result := (ran 2 (le_refl 2)).symm.trans first
  rw [Option.some.injEq, Prod.mk.injEq] at result
  obtain ⟨-, -, wanted, -, -⟩ := right 0 result.2
  have level := wanted ⟨1, by decide, ⟨by decide, by decide⟩, by decide⟩
  revert level
  decide

end Xcpu.Xget.Workers
