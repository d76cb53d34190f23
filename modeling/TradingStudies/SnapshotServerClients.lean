import TradingStudies.SnapshotServerFraming
import TradingStudies.Library.StepSystem

/-!
# The descriptors of the snapshot server

`SnapshotServer::serveClients` keeps no list of its clients: what it knows of
them is in the epoll set and in the descriptors themselves, whose numbers the
kernel hands out again as soon as they are closed.  The events of one
`epoll_wait` are handled one after the other, and handling one of them may
close a descriptor or accept a connection on a number that was in use when the
events were collected.

The connections are kept in the order in which they were accepted, each with
the chunks that were read from it.  Both lists only observe.
-/

namespace TradingStudies
namespace Ticker

open StepSystem

/-! ## The loop -/

structure AcceptedClient where
  connection : Connection
  chunks : List (List UInt8)

namespace AcceptedClient

def accepted : AcceptedClient := ⟨Connection.accepted, []⟩

/-- The connection is closed where `epoll_ctl` fails to add it. -/
def refused : AcceptedClient where
  connection := { Connection.accepted with
    cerr := ["epoll_ctl add client failed at SnapshotServer\n"]
    closed := true }
  chunks := []

def read (bytes : List UInt8) (client : AcceptedClient) : AcceptedClient where
  connection := client.connection.read bytes
  chunks := client.chunks ++ [bytes]

end AcceptedClient

/-- `events` are those which the loop has not come to; `none` is a loop that
has thrown.  `descriptor` is the kernel's table, and `misused` says that a
descriptor was read or closed which belonged to no connection. -/
structure ClientLoop where
  events : Option (List ℤ)
  watched : Finset ℤ
  descriptor : ℤ → Option ℕ
  clients : List AcceptedClient
  cerr : List String
  misused : Bool

namespace ClientLoop

def start : ClientLoop where
  events := some []
  watched := ∅
  descriptor := fun _ => none
  clients := []
  cerr := []
  misused := false

/-- `Config::maxSnapshotEvents` -/
def maxSnapshotEvents : ℕ := 100

/-- What the kernel answers to the next call. -/
inductive Answer
  | events (fds : List ℤ)
  | interrupted
  | failed
  | accept (client_fd : ℤ) (added : Bool)
  | read (bytes : List UInt8)
  deriving DecidableEq

/-- The event of the listening socket. -/
def accept (loop : ClientLoop) (rest : List ℤ) (client_fd : ℤ)
    (added : Bool) : ClientLoop :=
  if client_fd < 0 then
    { loop with
      events := some rest
      cerr := loop.cerr ++ ["accept SnapshotServer failed\n"] }
  else if added then
    { loop with
      events := some rest
      watched := insert client_fd loop.watched
      descriptor := Function.update loop.descriptor client_fd
        (some loop.clients.length)
      clients := loop.clients ++ [.accepted] }
  else
    { loop with
      events := some rest
      clients := loop.clients ++ [.refused] }

/-- The event of any other descriptor.  Nothing read means that it is taken
from the epoll set and closed. -/
def read (loop : ClientLoop) (fd : ℤ) (rest : List ℤ) (bytes : List UInt8) :
    ClientLoop :=
  match loop.descriptor fd with
  | none => { loop with events := some rest, misused := true }
  | some id =>
      let clients := loop.clients.modify id (AcceptedClient.read bytes)
      if bytes = [] then
        { loop with
          events := some rest
          watched := loop.watched.erase fd
          descriptor := Function.update loop.descriptor fd none
          clients := clients }
      else { loop with events := some rest, clients := clients }

def step (serverFD : ℤ) (loop : ClientLoop) : Answer → Option ClientLoop
  | .events fds =>
      if loop.events = some [] then some { loop with events := some fds }
      else none
  | .interrupted => if loop.events = some [] then some loop else none
  | .failed =>
      if loop.events = some [] then some { loop with events := none } else none
  | .accept client_fd added =>
      match loop.events with
      | some (fd :: rest) =>
          if fd = serverFD then some (loop.accept rest client_fd added)
          else none
      | _ => none
  | .read bytes =>
      match loop.events with
      | some (fd :: rest) =>
          if fd = serverFD then none else some (loop.read fd rest bytes)
      | _ => none

/-- What the kernel promises: one event for a descriptor, of descriptors in the
epoll set, and a number for a connection which nothing else has. -/
def Allowed (serverFD epollFD : ℤ) (loop : ClientLoop) : Answer → Prop
  | .events fds => fds.length ≤ maxSnapshotEvents ∧ fds.Nodup ∧
      ∀ fd ∈ fds, fd = serverFD ∨ fd ∈ loop.watched
  | .accept client_fd _ => client_fd < 0 ∨
      loop.descriptor client_fd = none ∧ client_fd ≠ serverFD ∧
        client_fd ≠ epollFD
  | .read bytes => bytes.length ≤ readSize
  | .interrupted => True
  | .failed => True

instance (serverFD epollFD : ℤ) (loop : ClientLoop) :
    ∀ answer, Decidable (Allowed serverFD epollFD loop answer)
  | .events fds =>
      inferInstanceAs (Decidable (fds.length ≤ maxSnapshotEvents ∧ fds.Nodup ∧
        ∀ fd ∈ fds, fd = serverFD ∨ fd ∈ loop.watched))
  | .accept client_fd _ =>
      inferInstanceAs (Decidable (client_fd < 0 ∨
        loop.descriptor client_fd = none ∧ client_fd ≠ serverFD ∧
          client_fd ≠ epollFD))
  | .read bytes => inferInstanceAs (Decidable (bytes.length ≤ readSize))
  | .interrupted => inferInstanceAs (Decidable True)
  | .failed => inferInstanceAs (Decidable True)

/-! ## What is kept -/

/-- The descriptors in use are those in the epoll set, one for every connection
that has not been closed.  A connection is what its own chunks make of it. -/
structure Served (serverFD epollFD : ℤ) (loop : ClientLoop) : Prop where
  proper : loop.misused = false
  watched : ∀ fd, fd ∈ loop.watched ↔ ∃ id, loop.descriptor fd = some id
  single : ∀ fd other id, loop.descriptor fd = some id →
    loop.descriptor other = some id → fd = other
  apart : loop.descriptor serverFD = none ∧ loop.descriptor epollFD = none
  isOpen : ∀ id, (∃ client, loop.clients[id]? = some client ∧
    client.connection.closed = false) ↔ ∃ fd, loop.descriptor fd = some id
  own : ∀ client ∈ loop.clients, client = .refused ∨
    client.connection = Connection.serve client.chunks Connection.accepted

/-- The events still to be handled are of descriptors in use, each once. -/
structure Serving (serverFD epollFD : ℤ) (loop : ClientLoop) : Prop
    extends Served serverFD epollFD loop where
  pending : ∀ fds, loop.events = some fds → fds.Nodup ∧
    ∀ fd ∈ fds, fd = serverFD ∨ fd ∈ loop.watched

end ClientLoop

namespace Connection

theorem closed_read (client : Connection) (bytes : List UInt8) :
    (client.read bytes).closed = false ↔
      bytes ≠ [] ∧ client.closed = false := by
  unfold read
  split
  · rename_i hnone
    refine iff_of_false ?_ (fun hboth => hboth.1 hnone)
    intro hopen
    cases hopen
  · rename_i hsome
    rw [and_iff_right hsome]
    split
    · unfold dispatch
      split <;> rfl
    · rfl

theorem serve_snoc {chunks : List (List UInt8)} {client : Connection}
    (hopen : (serve chunks client).closed = false) (bytes : List UInt8) :
    serve (chunks ++ [bytes]) client = (serve chunks client).read bytes := by
  induction chunks generalizing client with
  | nil =>
      have hclient : client.closed = false := hopen
      show (if client.closed then client else client.read bytes) = _
      rw [hclient]
      rfl
  | cons first rest ih =>
      rw [List.cons_append, serve, serve]
      rw [serve] at hopen
      split
      · rename_i hclosed
        rw [if_pos hclosed, hclosed] at hopen
        cases hopen
      · rename_i hgoes
        rw [if_neg hgoes] at hopen
        exact ih hopen

end Connection

namespace ClientLoop

section Steps

variable {serverFD epollFD : ℤ} {loop : ClientLoop} {fd : ℤ} {rest : List ℤ}

theorem serving_start (serverFD epollFD : ℤ) :
    Serving serverFD epollFD start where
  proper := rfl
  watched _ := by
    refine iff_of_false (Finset.notMem_empty _) ?_
    rintro ⟨id, hid⟩
    cases hid
  single _ _ _ hfd := by
    cases hfd
  apart := ⟨rfl, rfl⟩
  isOpen _ := by
    constructor
    · rintro ⟨client, hclient, -⟩
      cases hclient
    · rintro ⟨fd, hfd⟩
      cases hfd
  own _ hclient := absurd hclient List.not_mem_nil
  pending := by
    rintro fds ⟨⟩
    exact ⟨List.nodup_nil, fun _ hfd => absurd hfd List.not_mem_nil⟩

theorem getElem?_snoc (clients : List AcceptedClient) (client : AcceptedClient)
    (id : ℕ) :
    (clients ++ [client])[id]? =
      if id = clients.length then some client else clients[id]? := by
  rw [List.getElem?_append]
  split
  · rw [if_neg (by omega)]
  · split
    · simp_all
    · rw [List.getElem?_eq_none (by simp; omega),
        List.getElem?_eq_none (by omega)]

theorem exists_descriptor_iff {descriptor : ℤ → Option ℕ} {client_fd : ℤ}
    (hunused : descriptor client_fd = none) (id last : ℕ) :
    (∃ fd, Function.update descriptor client_fd (some last) fd = some id) ↔
      id = last ∨ ∃ fd, descriptor fd = some id := by
  constructor
  · rintro ⟨fd, hfd⟩
    by_cases heq : fd = client_fd
    · rw [heq, Function.update_self] at hfd
      exact Or.inl (Option.some.inj hfd).symm
    · rw [Function.update_of_ne heq] at hfd
      exact Or.inr ⟨fd, hfd⟩
  · rintro (rfl | ⟨fd, hfd⟩)
    · exact ⟨client_fd, Function.update_self ..⟩
    · refine ⟨fd, ?_⟩
      rw [Function.update_of_ne]
      · exact hfd
      · rintro rfl
        rw [hunused] at hfd
        cases hfd

theorem kept_of_update {descriptor : ℤ → Option ℕ} {other : ℤ} {id : ℕ}
    (hkept : Function.update descriptor fd none other = some id) :
    other ≠ fd ∧ descriptor other = some id := by
  by_cases heq : other = fd
  · rw [heq, Function.update_self] at hkept
    cases hkept
  · rw [Function.update_of_ne heq] at hkept
    exact ⟨heq, hkept⟩

/-- The first event has been handled, and nothing else has changed. -/
theorem Serving.skip (hserving : Serving serverFD epollFD loop)
    (hevents : loop.events = some (fd :: rest)) (cerr : List String) :
    Serving serverFD epollFD
      { loop with events := some rest, cerr := cerr } where
  proper := hserving.proper
  watched := hserving.watched
  single := hserving.single
  apart := hserving.apart
  isOpen := hserving.isOpen
  own := hserving.own
  pending := by
    rintro fds ⟨⟩
    obtain ⟨hnodup, hmem⟩ := hserving.pending _ hevents
    exact ⟨hnodup.of_cons, fun other hother =>
      hmem other (List.mem_cons_of_mem _ hother)⟩

theorem Serving.accept (hserving : Serving serverFD epollFD loop)
    (hevents : loop.events = some (fd :: rest)) {client_fd : ℤ} (added : Bool)
    (hfree : client_fd < 0 ∨ loop.descriptor client_fd = none ∧
      client_fd ≠ serverFD ∧ client_fd ≠ epollFD) :
    Serving serverFD epollFD (loop.accept rest client_fd added) := by
  have hskip := hserving.skip hevents loop.cerr
  have hunknown : loop.clients[loop.clients.length]? = none :=
    List.getElem?_eq_none (le_refl _)
  have hnew : ∀ fd, loop.descriptor fd ≠ some loop.clients.length := by
    intro fd hfd
    obtain ⟨client, hclient, -⟩ := (hserving.isOpen _).mpr ⟨fd, hfd⟩
    rw [hunknown] at hclient
    cases hclient
  unfold ClientLoop.accept
  split
  · exact hserving.skip hevents _
  · rename_i hvalid
    obtain ⟨hunused, hserver, hepoll⟩ := hfree.resolve_left hvalid
    split
    · refine ⟨⟨hskip.proper, ?_, ?_, ?_, ?_, ?_⟩, ?_⟩
      · intro fd
        rw [Finset.mem_insert, hserving.watched fd]
        by_cases heq : fd = client_fd
        · subst heq
          exact iff_of_true (Or.inl rfl) ⟨_, Function.update_self ..⟩
        · dsimp only
          rw [Function.update_of_ne heq]
          exact or_iff_right heq
      · intro fd other id hfd hother
        dsimp only at hfd hother
        by_cases heq : fd = client_fd
        · by_cases heq' : other = client_fd
          · exact heq.trans heq'.symm
          · rw [heq, Function.update_self] at hfd
            rw [Function.update_of_ne heq', ← hfd] at hother
            exact absurd hother (hnew other)
        · by_cases heq' : other = client_fd
          · rw [heq', Function.update_self] at hother
            rw [Function.update_of_ne heq, ← hother] at hfd
            exact absurd hfd (hnew fd)
          · rw [Function.update_of_ne heq] at hfd
            rw [Function.update_of_ne heq'] at hother
            exact hserving.single fd other id hfd hother
      · dsimp only
        rw [Function.update_of_ne hserver.symm,
          Function.update_of_ne hepoll.symm]
        exact hserving.apart
      · intro id
        dsimp only
        rw [getElem?_snoc, exists_descriptor_iff hunused]
        split
        · rename_i hid
          exact iff_of_true ⟨_, rfl, rfl⟩ (Or.inl hid)
        · rename_i hid
          rw [hserving.isOpen id]
          exact (or_iff_right hid).symm
      · intro client hclient
        rcases List.mem_append.mp hclient with hold | haccepted
        · exact hserving.own client hold
        · rw [List.mem_singleton.mp haccepted]
          exact Or.inr rfl
      · rintro fds ⟨⟩
        obtain ⟨hnodup, hmem⟩ := hskip.pending _ rfl
        exact ⟨hnodup, fun other hother =>
          (hmem other hother).imp_right Finset.mem_insert_of_mem⟩
    · refine ⟨⟨hskip.proper, hskip.watched, hskip.single, hskip.apart, ?_, ?_⟩,
        hskip.pending⟩
      · intro id
        dsimp only
        rw [getElem?_snoc, ← hserving.isOpen id]
        split
        · rename_i hid
          subst hid
          rw [hunknown]
          simp [AcceptedClient.refused]
        · rfl
      · intro client hclient
        rcases List.mem_append.mp hclient with hold | hrefused
        · exact hserving.own client hold
        · exact Or.inl (List.mem_singleton.mp hrefused)

/-- An event that is not the listening socket's belongs to a connection that
is open. -/
theorem Serving.descriptor (hserving : Serving serverFD epollFD loop)
    (hevents : loop.events = some (fd :: rest)) (hfd : fd ≠ serverFD) :
    ∃ id client, loop.descriptor fd = some id ∧
      loop.clients[id]? = some client ∧ client.connection.closed = false := by
  obtain ⟨-, hmem⟩ := hserving.pending _ hevents
  have hwatched := (hmem fd List.mem_cons_self).resolve_left hfd
  obtain ⟨id, hid⟩ := (hserving.watched fd).mp hwatched
  obtain ⟨client, hclient, hopen⟩ := (hserving.isOpen id).mpr ⟨fd, hid⟩
  exact ⟨id, client, hid, hclient, hopen⟩

theorem own_modify {clients : List AcceptedClient} {id : ℕ}
    {client : AcceptedClient} (hclient : clients[id]? = some client)
    (hopen : client.connection.closed = false) (bytes : List UInt8)
    (hown : ∀ other ∈ clients, other = .refused ∨
      other.connection = Connection.serve other.chunks Connection.accepted) :
    ∀ other ∈ clients.modify id (AcceptedClient.read bytes),
      other = .refused ∨
        other.connection =
          Connection.serve other.chunks Connection.accepted := by
  intro other hother
  obtain ⟨index, hindex⟩ := List.mem_iff_getElem?.mp hother
  by_cases hid : id = index
  · subst hid
    rw [List.getElem?_modify_eq, hclient] at hindex
    cases hindex
    right
    rcases hown client (List.mem_of_getElem? hclient) with hrefused | hserve
    · rw [hrefused] at hopen
      cases hopen
    · show client.connection.read bytes = _
      rw [hserve] at hopen ⊢
      exact (Connection.serve_snoc hopen bytes).symm
  · rw [List.getElem?_modify_ne _ _ hid] at hindex
    exact hown other (List.mem_of_getElem? hindex)

theorem open_modify_iff {clients : List AcceptedClient} {id : ℕ}
    {client : AcceptedClient} (hclient : clients[id]? = some client)
    (hopen : client.connection.closed = false) (bytes : List UInt8)
    (other : ℕ) :
    (∃ found, (clients.modify id (AcceptedClient.read bytes))[other]? =
        some found ∧ found.connection.closed = false) ↔
      if id = other then bytes ≠ []
      else ∃ found, clients[other]? = some found ∧
        found.connection.closed = false := by
  split
  · rename_i hid
    subst hid
    rw [List.getElem?_modify_eq, hclient]
    have hread := Connection.closed_read client.connection bytes
    rw [hopen, and_iff_left rfl] at hread
    rw [← hread]
    constructor
    · rintro ⟨found, hfound, hstill⟩
      cases hfound
      exact hstill
    · intro hstill
      exact ⟨_, rfl, hstill⟩
  · rename_i hid
    rw [List.getElem?_modify_ne _ _ hid]

theorem Serving.read (hserving : Serving serverFD epollFD loop)
    (hevents : loop.events = some (fd :: rest)) (hfd : fd ≠ serverFD)
    (bytes : List UInt8) :
    Serving serverFD epollFD (loop.read fd rest bytes) := by
  have hskip := hserving.skip hevents loop.cerr
  obtain ⟨id, client, hid, hclient, hopen⟩ :=
    hserving.descriptor hevents hfd
  have hown := own_modify hclient hopen bytes hserving.own
  unfold ClientLoop.read
  rw [hid]
  dsimp only
  split
  · rename_i hnone
    refine ⟨⟨hskip.proper, ?_, ?_, ?_, ?_, hown⟩, ?_⟩
    · intro other
      rw [Finset.mem_erase, hserving.watched other]
      by_cases heq : other = fd
      · rw [heq]
        dsimp only
        rw [Function.update_self]
        refine iff_of_false (fun hboth => hboth.1 rfl) ?_
        rintro ⟨other, hother⟩
        cases hother
      · dsimp only
        rw [Function.update_of_ne heq]
        exact and_iff_right heq
    · intro first other number hfirst hother
      exact hserving.single first other number (kept_of_update hfirst).2
        (kept_of_update hother).2
    · dsimp only
      rw [Function.update_of_ne hfd.symm]
      refine ⟨hserving.apart.1, ?_⟩
      rw [Function.update_of_ne]
      · exact hserving.apart.2
      · rintro rfl
        rw [hserving.apart.2] at hid
        cases hid
    · intro other
      dsimp only
      rw [open_modify_iff hclient hopen]
      split
      · rename_i hsame
        subst hsame
        refine iff_of_false (fun hsome => hsome hnone) ?_
        rintro ⟨found, hfound⟩
        obtain ⟨hne, hold⟩ := kept_of_update hfound
        exact hne (hserving.single found fd id hold hid)
      · rename_i hother
        rw [hserving.isOpen other]
        constructor
        · rintro ⟨found, hfound⟩
          refine ⟨found, ?_⟩
          rw [Function.update_of_ne]
          · exact hfound
          · rintro rfl
            exact hother (Option.some.inj (hid.symm.trans hfound))
        · rintro ⟨found, hfound⟩
          exact ⟨found, (kept_of_update hfound).2⟩
    · rintro fds ⟨⟩
      obtain ⟨hnodup, -⟩ := hserving.pending _ hevents
      obtain ⟨hrest, hmem⟩ := hskip.pending _ rfl
      refine ⟨hrest, ?_⟩
      intro other hother
      have hne : other ≠ fd := by
        rintro rfl
        exact hnodup.notMem hother
      exact (hmem other hother).imp_right fun hwatched =>
        Finset.mem_erase.mpr ⟨hne, hwatched⟩
  · rename_i hsome
    refine ⟨⟨hskip.proper, hskip.watched, hskip.single, hskip.apart, ?_, hown⟩,
      hskip.pending⟩
    intro other
    dsimp only
    rw [open_modify_iff hclient hopen]
    split
    · rename_i hsame
      subst hsame
      exact iff_of_true hsome ⟨fd, hid⟩
    · exact hserving.isOpen other

/-- Every answer that the kernel may give. -/
theorem Serving.step (hserving : Serving serverFD epollFD loop)
    {next : ClientLoop} {answer : Answer}
    (hallowed : Allowed serverFD epollFD loop answer)
    (hstep : step serverFD loop answer = some next) :
    Serving serverFD epollFD next := by
  cases answer with
  | events fds =>
      obtain ⟨-, hnodup, hmem⟩ := hallowed
      dsimp only [ClientLoop.step] at hstep
      split at hstep
      · cases hstep
        refine ⟨⟨hserving.proper, hserving.watched, hserving.single,
          hserving.apart, hserving.isOpen, hserving.own⟩, ?_⟩
        rintro found ⟨⟩
        exact ⟨hnodup, hmem⟩
      · cases hstep
  | interrupted =>
      dsimp only [ClientLoop.step] at hstep
      split at hstep
      · cases hstep
        exact hserving
      · cases hstep
  | failed =>
      dsimp only [ClientLoop.step] at hstep
      split at hstep
      · cases hstep
        refine ⟨⟨hserving.proper, hserving.watched, hserving.single,
          hserving.apart, hserving.isOpen, hserving.own⟩, ?_⟩
        intro fds hfds
        cases hfds
      · cases hstep
  | accept client_fd added =>
      dsimp only [ClientLoop.step] at hstep
      split at hstep
      · rename_i fd rest hevents
        split at hstep
        · cases hstep
          exact hserving.accept hevents added hallowed
        · cases hstep
      · cases hstep
  | read bytes =>
      dsimp only [ClientLoop.step] at hstep
      split at hstep
      · rename_i fd rest hevents
        split at hstep
        · cases hstep
        · rename_i hfd
          cases hstep
          exact hserving.read hevents hfd bytes
      · cases hstep

end Steps

end ClientLoop

open ClientLoop

/-- Any number of clients, in every order of the kernel's answers: nothing is
read from or closed but the descriptor of an open connection, no connection is
left open without being in the epoll set, and the requests of a client that
arrive one a `read` are dispatched whatever the other clients do. -/
theorem snapshotServer_clients {serverFD epollFD : ℤ} {loop : ClientLoop}
    (hreach : Reachable (step serverFD) (Allowed serverFD epollFD) start
      loop) :
    Served serverFD epollFD loop ∧
      ∀ client ∈ loop.clients, client ≠ .refused →
        ∀ requests : List ITCHGapRequestMsg,
          (∀ msg ∈ requests, msg.type = '0' ∨ msg.type = '1') →
          client.chunks = requests.map (fun msg => msg.pack.bytes) →
          client.connection.dispatched = answers requests := by
  have hserving : Serving serverFD epollFD loop :=
    hreach.invariant (serving_start serverFD epollFD)
      fun hinv hallowed hstep => hinv.step hallowed hstep
  refine ⟨hserving.toServed, ?_⟩
  intro client hclient hne requests htype hchunks
  have hserve := (hserving.own client hclient).resolve_left hne
  rw [hserve, hchunks, Connection.serve_requests htype rfl]
  exact List.nil_append _

/-- The first client goes, and the second one gets its number. -/
theorem snapshotServer_clients_reused :
    let request : ITCHGapRequestMsg := ⟨'0', 3, 9⟩
    ∃ loop : ClientLoop,
      (∃ client ∈ loop.clients, client.connection.dispatched =
        answers [request]) ∧
      loop.descriptor 5 = some 1 ∧ Served 3 4 loop := by
  intro request
  let actions : List Answer :=
    [.events [3], .accept 5 true, .events [5, 3], .read [], .accept 5 true,
      .interrupted, .events [5], .read request.pack.bytes]
  have hallowed : AllAllowed (step 3) (Allowed 3 4) actions start := by decide
  have hshown : (run (step 3) actions start).map (fun loop =>
      (loop.clients.map fun client => client.chunks, loop.descriptor 5)) =
        some ([[[]], [request.pack.bytes]], some 1) := by decide
  obtain ⟨loop, hrun, hpair⟩ := Option.map_eq_some_iff.mp hshown
  obtain ⟨hchunks, hdescriptor⟩ := Prod.mk.inj hpair
  obtain ⟨hserved, hown⟩ :=
    snapshotServer_clients (reachable_of_run hrun hallowed)
  refine ⟨loop, ?_, hdescriptor, hserved⟩
  have hmem : [request.pack.bytes] ∈
      loop.clients.map AcceptedClient.chunks := by
    show _ ∈ loop.clients.map fun client => client.chunks
    rw [hchunks]
    exact List.mem_cons_of_mem _ List.mem_cons_self
  obtain ⟨client, hclient, hread⟩ := List.mem_map.mp hmem
  refine ⟨client, hclient, hown client hclient ?_ [request] (by decide) hread⟩
  rintro rfl
  exact absurd hread (by decide)

end Ticker
end TradingStudies
