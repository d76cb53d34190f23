import TradingStudies.TradeRecoveryManager

/-!
# Reading gap requests from a TCP connection

`SnapshotServer::serveClients` takes what one `read` returns for one request.
A count other than the size of a request is reported and dropped, although the
buffer has room for sixty requests, and TCP keeps no boundaries between them.

A request is dispatched together with the loop it starts.
-/

namespace TradingStudies
namespace Ticker

open FixedFraming (bytesOf valueOf whole)

/-- `sizeof(ITCHGapRequestMsg)`: one `char` and two numbers of eight bytes,
without padding. -/
def ITCHGapRequestMsgSize : ℕ := 1 + 2 * 8

structure PackedGapRequest where
  bytes : List UInt8
  size_eq : bytes.length = ITCHGapRequestMsgSize
  deriving DecidableEq

def ITCHGapRequestMsg.pack (msg : ITCHGapRequestMsg) : PackedGapRequest where
  bytes := bytesOf 1 msg.type.toNat ++
    (bytesOf 8 msg.start_seq.toNat ++ bytesOf 8 msg.end_seq.toNat)
  size_eq := by
    simp only [List.length_append, FixedFraming.length_bytesOf]
    rfl

namespace PackedGapRequest

def field (packed : PackedGapRequest) (offset size : ℕ) : ℕ :=
  valueOf ((packed.bytes.drop offset).take size)

def unpack (packed : PackedGapRequest) : ITCHGapRequestMsg where
  type := Char.ofNat (packed.field 0 1)
  start_seq := UInt64.ofNat (packed.field 1 8)
  end_seq := UInt64.ofNat (packed.field 9 8)

theorem unpack_pack {msg : ITCHGapRequestMsg} (htype : msg.type.toNat < 256) :
    msg.pack.unpack = msg := by
  have hchar : Char.ofNat (valueOf (bytesOf 1 msg.type.toNat)) = msg.type := by
    rw [FixedFraming.valueOf_bytesOf (by omega), Char.ofNat_toNat]
  simp (disch := simp) only [unpack, field, ITCHGapRequestMsg.pack,
    List.drop_append, List.take_append, FixedFraming.length_bytesOf,
    List.drop_of_length_le, List.take_of_length_le, List.take_zero,
    List.drop_zero, List.nil_append, List.append_nil, Nat.reduceSub,
    Nat.sub_self, hchar, PackedTradeMsg.valueOf_uint64]

end PackedGapRequest

/-! ## The event loop -/

/-- What the server has done for one client. -/
structure Connection where
  dispatched : List (ITCHGapRequestMsg × SnapshotServer)
  cout : List String
  cerr : List String
  closed : Bool
  deriving DecidableEq

namespace Connection

def accepted : Connection where
  dispatched := []
  cout := ["New client connected to SnapshotServer\n"]
  cerr := []
  closed := false

def dispatch (client : Connection) (msg : ITCHGapRequestMsg) : Connection :=
  if msg.type = '0' ∨ msg.type = '1' then
    { client with dispatched := client.dispatched ++
        [(msg, SnapshotServer.serveClients msg)] }
  else { client with cerr := client.cerr ++ ["Unknown Gap Request received\n"] }

/-- One `read`.  No bytes stand for a `read` which answers zero or fails. -/
def read (client : Connection) (bytes : List UInt8) : Connection :=
  if bytes = [] then
    { client with
      cout := client.cout ++ ["Client disconnected from SnapshotServer\n"]
      closed := true }
  else if hsize : bytes.length = ITCHGapRequestMsgSize then
    client.dispatch (PackedGapRequest.unpack ⟨bytes, hsize⟩)
  else
    { client with cout := client.cout ++
        ["Received unknown message at SnapshotServer\n"] }

/-- The events of the client's descriptor, until it is closed. -/
def serve : List (List UInt8) → Connection → Connection
  | [], client => client
  | bytes :: rest, client =>
      if client.closed then client else serve rest (client.read bytes)

end Connection

def readSize : ℕ := 1024

/-- The client's requests, as the chunks that `read` returns. -/
structure Segments (requests : List ITCHGapRequestMsg)
    (chunks : List (List UInt8)) : Prop where
  type : ∀ msg ∈ requests, msg.type = '0' ∨ msg.type = '1'
  stream_eq : chunks.flatten =
    (requests.map fun msg => msg.pack.bytes).flatten
  chunk_ne : ∀ chunk ∈ chunks, chunk ≠ []
  chunk_le : ∀ chunk ∈ chunks, chunk.length ≤ readSize

/-- The requests, each with the loop that answers it. -/
def answers (requests : List ITCHGapRequestMsg) :
    List (ITCHGapRequestMsg × SnapshotServer) :=
  requests.map fun msg => (msg, SnapshotServer.serveClients msg)

namespace Connection

variable {client : Connection}

theorem read_request {msg : ITCHGapRequestMsg}
    (htype : msg.type = '0' ∨ msg.type = '1') :
    client.read msg.pack.bytes =
      { client with dispatched := client.dispatched ++ answers [msg] } := by
  have hsmall : msg.type.toNat < 256 := by
    rcases htype with htype | htype
    · rw [htype]
      decide
    · rw [htype]
      decide
  have hsize := msg.pack.size_eq
  have hne : msg.pack.bytes ≠ [] := by
    intro hnil
    rw [hnil] at hsize
    exact absurd hsize (by decide)
  have hmsg : PackedGapRequest.unpack ⟨msg.pack.bytes, hsize⟩ = msg :=
    PackedGapRequest.unpack_pack hsmall
  unfold read dispatch
  rw [if_neg hne, dif_pos hsize, hmsg, if_pos htype]
  rfl

theorem serve_requests {requests : List ITCHGapRequestMsg}
    (htype : ∀ msg ∈ requests, msg.type = '0' ∨ msg.type = '1')
    (hopen : client.closed = false) :
    serve (requests.map fun msg => msg.pack.bytes) client =
      { client with dispatched := client.dispatched ++ answers requests } := by
  induction requests generalizing client with
  | nil =>
      show client = _
      rw [answers, List.map_nil, List.append_nil]
  | cons msg rest ih =>
      rw [List.forall_mem_cons] at htype
      have hnext : Connection.closed { client with
          dispatched := client.dispatched ++ answers [msg] } = false := hopen
      rw [List.map_cons, serve, if_neg (by simp [hopen]),
        read_request htype.1, ih htype.2 hnext, List.append_assoc]
      rfl

/-- A chunk is dispatched only if it has the size of a request. -/
theorem length_dispatched_read (client : Connection) (bytes : List UInt8) :
    (client.read bytes).dispatched.length ≤ client.dispatched.length +
      (whole ITCHGapRequestMsgSize [bytes]).length := by
  unfold read
  split
  · exact Nat.le_add_right _ _
  · split
    · rename_i hsize
      have hwhole : whole ITCHGapRequestMsgSize [bytes] = [bytes] :=
        FixedFraming.whole_eq_self (by simpa using hsize)
      rw [hwhole, dispatch]
      split
      · rw [List.length_append]
        rfl
      · exact Nat.le_add_right _ _
    · exact Nat.le_add_right _ _

theorem length_dispatched_serve (chunks : List (List UInt8))
    (client : Connection) :
    (serve chunks client).dispatched.length ≤ client.dispatched.length +
      (whole ITCHGapRequestMsgSize chunks).length := by
  induction chunks generalizing client with
  | nil => exact Nat.le_add_right _ _
  | cons bytes rest ih =>
      rw [serve]
      split
      · exact Nat.le_add_right _ _
      · have hread := length_dispatched_read client bytes
        have hrest := ih (client.read bytes)
        have hsplit : whole ITCHGapRequestMsgSize (bytes :: rest) =
            whole ITCHGapRequestMsgSize [bytes] ++
              whole ITCHGapRequestMsgSize rest :=
          List.filter_append [bytes] rest
        rw [hsplit, List.length_append]
        omega

end Connection

/-- Each request is dispatched once and in order if and only if every `read`
returns one whole request. -/
theorem serveClients_dispatches_iff {requests : List ITCHGapRequestMsg}
    {chunks : List (List UInt8)} (hsegments : Segments requests chunks) :
    (Connection.serve chunks Connection.accepted).dispatched =
        answers requests ↔
      ∀ chunk ∈ chunks, chunk.length = ITCHGapRequestMsgSize := by
  have hframes : ∀ frame ∈ requests.map fun msg => msg.pack.bytes,
      frame.length = ITCHGapRequestMsgSize := by
    intro frame hframe
    obtain ⟨msg, _, rfl⟩ := List.mem_map.mp hframe
    exact msg.pack.size_eq
  constructor
  · intro hdispatched chunk hchunk
    by_contra hsize
    have hlost := FixedFraming.whole_length_lt hchunk
      (hsegments.chunk_ne chunk hchunk) hsize
    rw [hsegments.stream_eq, FixedFraming.length_flatten_of_frames hframes,
      List.length_map] at hlost
    have hcount := Connection.length_dispatched_serve chunks
      Connection.accepted
    rw [hdispatched, answers, List.length_map] at hcount
    have hle : requests.length ≤
        (whole ITCHGapRequestMsgSize chunks).length := by
      simpa [Connection.accepted] using hcount
    exact absurd (Nat.mul_le_mul_left ITCHGapRequestMsgSize hle)
      (Nat.not_le.mpr hlost)
  · intro hwhole
    have hsame := FixedFraming.eq_of_flatten_eq (by decide) hframes hwhole
      hsegments.stream_eq
    rw [hsame, Connection.serve_requests hsegments.type rfl]
    rfl

/-- A gap request and a replay, each in a `read` of its own. -/
theorem serveClients_dispatches_two :
    let requests : List ITCHGapRequestMsg := [⟨'0', 3, 9⟩, ⟨'1', 0, 0⟩]
    (Connection.serve (requests.map fun msg => msg.pack.bytes)
        Connection.accepted).dispatched = answers requests := by
  intro requests
  have hsegments : Segments requests
      (requests.map fun msg => msg.pack.bytes) := by
    constructor <;> decide
  exact (serveClients_dispatches_iff hsegments).mpr (by decide)

/-- One request in two pieces, and two requests in one: nothing is
dispatched. -/
theorem serveClients_drops_requests :
    let first : ITCHGapRequestMsg := ⟨'0', 3, 9⟩
    let second : ITCHGapRequestMsg := ⟨'0', 10, 12⟩
    Segments [first] [first.pack.bytes.take 5, first.pack.bytes.drop 5] ∧
      (Connection.serve [first.pack.bytes.take 5, first.pack.bytes.drop 5]
        Connection.accepted).dispatched = [] ∧
      Segments [first, second] [first.pack.bytes ++ second.pack.bytes] ∧
      (Connection.serve [first.pack.bytes ++ second.pack.bytes]
        Connection.accepted).dispatched = [] := by
  refine ⟨?_, by decide, ?_, by decide⟩
  · constructor <;> decide
  · constructor <;> decide

end Ticker
end TradingStudies
