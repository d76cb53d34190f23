import TradingStudies.TickerServer
import TradingStudies.Library.FixedFraming

/-!
# The trade recovery manager

The server writes trade records into a TCP stream and the recovery manager
reads them into pool slots, both as the bytes of the packed structure.  One
turn of the loop of `receiveRecoveryMessages` is one answer of `epoll_wait`
and, when there is something to read, one answer of `recv`.

The socket does not block, so a `recv` may return fewer bytes than it was asked
for.  The loop gives the slot back then, and with it the bytes that were read.
-/

namespace TradingStudies
namespace Ticker

open FixedFraming (bytesOf valueOf whole)

/-- `sizeof(ITCHTradeMsg)`: one `char`, five numbers of eight bytes and two
`bool`s, without padding. -/
def ITCHTradeMsgSize : ℕ := 1 + 5 * 8 + 2

/-- The memory of an `ITCHTradeMsg`. -/
structure PackedTradeMsg where
  bytes : List UInt8
  size_eq : bytes.length = ITCHTradeMsgSize
  deriving DecidableEq

theorem PackedTradeMsg.bytes_injective :
    Function.Injective PackedTradeMsg.bytes := by
  intro packed other hbytes
  cases packed
  cases other
  cases hbytes
  rfl

def ITCHTradeMsg.pack (msg : ITCHTradeMsg) : PackedTradeMsg where
  bytes := bytesOf 1 msg.message_type.toNat ++
    (bytesOf 8 msg.sequence_number.toNat ++
    (bytesOf 8 msg.trade_id.toNat ++
    (bytesOf 8 msg.timestamp.toNat ++
    (bytesOf 8 msg.price.toNat ++
    (bytesOf 8 msg.quantity.toNat ++
    (bytesOf 1 msg.buyer_is_maker.toNat ++
    bytesOf 1 msg.best_match.toNat))))))
  size_eq := by
    simp only [List.length_append, FixedFraming.length_bytesOf]
    rfl

namespace PackedTradeMsg

/-- The number that stands at a place of the structure. -/
def field (packed : PackedTradeMsg) (offset size : ℕ) : ℕ :=
  valueOf ((packed.bytes.drop offset).take size)

def unpack (packed : PackedTradeMsg) : ITCHTradeMsg where
  message_type := Char.ofNat (packed.field 0 1)
  sequence_number := UInt64.ofNat (packed.field 1 8)
  trade_id := UInt64.ofNat (packed.field 9 8)
  timestamp := UInt64.ofNat (packed.field 17 8)
  price := UInt64.ofNat (packed.field 25 8)
  quantity := UInt64.ofNat (packed.field 33 8)
  buyer_is_maker := packed.field 41 1 != 0
  best_match := packed.field 42 1 != 0

theorem valueOf_uint64 (value : UInt64) :
    UInt64.ofNat (valueOf (bytesOf 8 value.toNat)) = value := by
  have hvalue : value.toNat < 256 ^ 8 := value.toNat_lt
  rw [FixedFraming.valueOf_bytesOf hvalue, UInt64.ofNat_toNat]

theorem valueOf_bool (flag : Bool) :
    (valueOf (bytesOf 1 flag.toNat) != 0) = flag := by
  cases flag <;> rfl

/-- Packing loses nothing of a record whose type is a single byte. -/
theorem unpack_pack {msg : ITCHTradeMsg}
    (htype : msg.message_type.toNat < 256) : msg.pack.unpack = msg := by
  have hchar : Char.ofNat (valueOf (bytesOf 1 msg.message_type.toNat)) =
      msg.message_type := by
    rw [FixedFraming.valueOf_bytesOf (by omega), Char.ofNat_toNat]
  -- Every field is a whole block, so `take` and `drop` cut between blocks.
  simp (disch := simp) only [unpack, field, ITCHTradeMsg.pack,
    List.drop_append, List.take_append, FixedFraming.length_bytesOf,
    List.drop_of_length_le, List.take_of_length_le, List.take_zero,
    List.drop_zero, List.nil_append, List.append_nil, Nat.reduceSub,
    Nat.sub_self, Nat.zero_sub, hchar, valueOf_uint64, valueOf_bool]

end PackedTradeMsg

/-! ## The receive loop -/

/-- What one turn of the loop meets.  No bytes stand for a `recv` which answers
zero or fails. -/
inductive Turn
  | timeout
  | notResponded
  | exhausted
  | recv (bytes : List UInt8)
  deriving DecidableEq, Repr

/-- How the loop is left before it has counted all messages. -/
inductive Exit
  | broke
  | threw (what : String)
  deriving DecidableEq, Repr

/-- `handed` lists the memory of the slots given to `sequencerOnMsgCB_`. -/
structure ReceiveLoop where
  messagesReceived : UInt64
  handed : List PackedTradeMsg
  cerr : List String
  exit : Option Exit
  deriving DecidableEq

namespace ReceiveLoop

def turn (loop : ReceiveLoop) : Turn → ReceiveLoop
  | .timeout =>
      { loop with cerr := loop.cerr ++
          ["Timeout waiting for data at receiveRecoveryMessages\n"] }
  | .notResponded =>
      { loop with
        exit := some .broke
        cerr := loop.cerr ++
          ["Recovery Server Not responded at receiveRecoveryMessages\n"] }
  -- `recv` fails on the null pointer, which then may not be given back.
  | .exhausted =>
      { loop with exit := some (.threw "Cannot deallocate nullptr") }
  | .recv bytes =>
      if hsize : bytes.length = ITCHTradeMsgSize then
        { loop with
          messagesReceived := loop.messagesReceived + 1
          handed := loop.handed ++ [⟨bytes, hsize⟩] }
      else if bytes = [] then
        { loop with
          exit := some .broke
          cerr := loop.cerr ++ ["Connection closed or error\n"] }
      -- The bytes stay behind in a slot that goes back to the pool.
      else
        { loop with cerr := loop.cerr ++
            ["Partial message received (" ++ toString bytes.length ++
              " bytes)\n"] }

/-- The loop, until it ends or the turns do. -/
def run (numMessages : UInt64) : List Turn → ReceiveLoop → ReceiveLoop
  | [], loop => loop
  | next :: rest, loop =>
      if loop.exit = none ∧ loop.messagesReceived < numMessages then
        run numMessages rest (loop.turn next)
      else loop

end ReceiveLoop

def receiveRecoveryMessages (startSeq endSeq : UInt64) (turns : List Turn) :
    ReceiveLoop :=
  ReceiveLoop.run (endSeq - startSeq + 1) turns
    { messagesReceived := 0, handed := [], cerr := [], exit := none }

/-- The bytes which `recv` has returned, one list for each call. -/
def chunks (turns : List Turn) : List (List UInt8) :=
  turns.filterMap fun
    | .recv bytes => some bytes
    | _ => none

/-- The turns deliver the records that were written: the stream is cut into
non-empty chunks, none longer than what `recv` asks for, with time-outs
anywhere between them.  The server responds and the pool has a slot for every
`recv`. -/
structure Delivers (turns : List Turn) (records : List PackedTradeMsg) :
    Prop where
  stream_eq : (chunks turns).flatten =
    (records.map PackedTradeMsg.bytes).flatten
  chunk_ne : ∀ chunk ∈ chunks turns, chunk ≠ []
  chunk_le : ∀ chunk ∈ chunks turns, chunk.length ≤ ITCHTradeMsgSize
  responded : Turn.notResponded ∉ turns
  allocated : Turn.exhausted ∉ turns

namespace ReceiveLoop

theorem turn_recv_whole (loop : ReceiveLoop) {bytes : List UInt8}
    (hsize : bytes.length = ITCHTradeMsgSize) :
    loop.turn (.recv bytes) =
      { loop with
        messagesReceived := loop.messagesReceived + 1
        handed := loop.handed ++ [⟨bytes, hsize⟩] } :=
  dif_pos hsize

/-- A short count changes nothing but the error output. -/
theorem turn_recv_short (loop : ReceiveLoop) {bytes : List UInt8}
    (hsize : bytes.length ≠ ITCHTradeMsgSize) (hne : bytes ≠ []) :
    loop.turn (.recv bytes) =
      { loop with cerr := loop.cerr ++
          ["Partial message received (" ++ toString bytes.length ++
            " bytes)\n"] } :=
  (dif_neg hsize).trans (if_neg hne)

theorem run_of_done {numMessages : UInt64} {loop : ReceiveLoop}
    (hdone : ¬ loop.messagesReceived < numMessages) (turns : List Turn) :
    run numMessages turns loop = loop := by
  cases turns with
  | nil => rfl
  | cons next rest =>
      unfold run
      rw [if_neg (fun hrun => hdone hrun.2)]

/-- The loop hands over the chunks that are a whole record, as many as it
still waits for. -/
theorem handed_run {numMessages : UInt64} {turns : List Turn}
    (hchunk : ∀ chunk ∈ chunks turns, chunk ≠ [])
    (hresponded : Turn.notResponded ∉ turns)
    (hallocated : Turn.exhausted ∉ turns) {loop : ReceiveLoop}
    (hexit : loop.exit = none) :
    (run numMessages turns loop).handed.map PackedTradeMsg.bytes =
      loop.handed.map PackedTradeMsg.bytes ++
        (whole ITCHTradeMsgSize (chunks turns)).take
          (numMessages.toNat - loop.messagesReceived.toNat) := by
  induction turns generalizing loop with
  | nil => simp [run, chunks, whole]
  | cons next rest ih =>
      rw [List.mem_cons, not_or] at hresponded hallocated
      by_cases hmore : loop.messagesReceived < numMessages
      · have hlt : loop.messagesReceived.toNat < numMessages.toNat := hmore
        unfold run
        rw [if_pos ⟨hexit, hmore⟩]
        cases next with
        | notResponded => exact absurd rfl hresponded.1
        | exhausted => exact absurd rfl hallocated.1
        | timeout => exact ih hchunk hresponded.2 hallocated.2 hexit
        | recv bytes =>
            have hchunks : chunks (.recv bytes :: rest) =
                bytes :: chunks rest := rfl
            rw [hchunks, List.forall_mem_cons] at hchunk
            rw [hchunks]
            by_cases hsize : bytes.length = ITCHTradeMsgSize
            · have hnext : (loop.messagesReceived + 1).toNat =
                  loop.messagesReceived.toNat + 1 := by
                have hbound := numMessages.toNat_lt
                rw [UInt64.toNat_add, UInt64.toNat_one]
                omega
              have hkept : (loop.turn (.recv bytes)).exit = none := by
                rw [turn_recv_whole loop hsize]
                exact hexit
              rw [ih hchunk.2 hresponded.2 hallocated.2 hkept,
                turn_recv_whole loop hsize, hnext, List.map_append,
                List.append_assoc]
              unfold whole
              rw [List.filter_cons_of_pos (by simpa using hsize),
                show numMessages.toNat - loop.messagesReceived.toNat =
                  numMessages.toNat - (loop.messagesReceived.toNat + 1) + 1 by
                    omega, List.take_succ_cons]
              rfl
            · have hkept : (loop.turn (.recv bytes)).exit = none := by
                rw [turn_recv_short loop hsize hchunk.1]
                exact hexit
              rw [ih hchunk.2 hresponded.2 hallocated.2 hkept,
                turn_recv_short loop hsize hchunk.1]
              unfold whole
              rw [List.filter_cons_of_neg (by simpa using hsize)]
      · have hdone : numMessages.toNat ≤ loop.messagesReceived.toNat :=
          UInt64.not_lt.mp hmore
        rw [run_of_done hmore, Nat.sub_eq_zero_of_le hdone, List.take_zero,
          List.append_nil]

end ReceiveLoop

theorem handed_receiveRecoveryMessages {turns : List Turn}
    {records : List PackedTradeMsg} (hdelivers : Delivers turns records)
    (startSeq endSeq : UInt64) :
    (receiveRecoveryMessages startSeq endSeq turns).handed.map
        PackedTradeMsg.bytes =
      (whole ITCHTradeMsgSize (chunks turns)).take
        (endSeq - startSeq + 1).toNat := by
  unfold receiveRecoveryMessages
  rw [ReceiveLoop.handed_run hdelivers.chunk_ne hdelivers.responded
      hdelivers.allocated rfl, List.map_nil, List.nil_append, UInt64.toNat_zero, Nat.sub_zero]

/-- Decoding depends on the segmentation: the callback gets the records that
were written if and only if every `recv` returns a whole one and no more were
written than the request counts. -/
theorem receiveRecoveryMessages_hands_iff {turns : List Turn}
    {records : List PackedTradeMsg} (hdelivers : Delivers turns records)
    (startSeq endSeq : UInt64) :
    (receiveRecoveryMessages startSeq endSeq turns).handed = records ↔
      (∀ chunk ∈ chunks turns, chunk.length = ITCHTradeMsgSize) ∧
        records.length ≤ (endSeq - startSeq + 1).toNat := by
  have hsame : (receiveRecoveryMessages startSeq endSeq turns).handed =
        records ↔
      (receiveRecoveryMessages startSeq endSeq turns).handed.map
        PackedTradeMsg.bytes = records.map PackedTradeMsg.bytes :=
    (List.map_injective_iff.mpr PackedTradeMsg.bytes_injective).eq_iff.symm
  have hframes : ∀ frame ∈ records.map PackedTradeMsg.bytes,
      frame.length = ITCHTradeMsgSize := by
    intro frame hframe
    rcases List.mem_map.mp hframe with ⟨record, _, rfl⟩
    exact record.size_eq
  rw [hsame, handed_receiveRecoveryMessages hdelivers,
    FixedFraming.take_whole_eq_iff (by decide) _ hframes hdelivers.chunk_ne
      hdelivers.stream_eq, List.length_map]

/-- A record that arrives in two pieces is lost, and its request with it. -/
theorem receiveRecoveryMessages_split_record :
    ¬ ∀ (startSeq endSeq : UInt64) (records : List PackedTradeMsg)
        (turns : List Turn), Delivers turns records →
      records.length = (endSeq - startSeq + 1).toNat →
        (receiveRecoveryMessages startSeq endSeq turns).handed = records := by
  intro hall
  let packed := ITCHTradeMsg.pack ⟨'P', 5, 70, 0, 0, 0, true, false⟩
  have hdelivers : Delivers
      [.recv (packed.bytes.take 20), .recv (packed.bytes.drop 20)]
      [packed] := by
    constructor <;> decide
  have hhanded := hall 5 5 [packed] _ hdelivers (by decide)
  have hnone : (receiveRecoveryMessages 5 5
      [.recv (packed.bytes.take 20), .recv (packed.bytes.drop 20)]).handed =
        [] := by
    decide
  rw [hnone] at hhanded
  exact absurd hhanded (List.cons_ne_nil _ _).symm

/-- Two records in two calls, with a time-out between them. -/
theorem receiveRecoveryMessages_hands_two :
    let first := ITCHTradeMsg.pack ⟨'P', 5, 70, 0, 0, 0, true, false⟩
    let second := ITCHTradeMsg.pack ⟨'P', 6, 71, 0, 0, 0, false, true⟩
    let turns := [.recv first.bytes, .timeout, .recv second.bytes]
    Delivers turns [first, second] ∧
      (receiveRecoveryMessages 5 6 turns).handed = [first, second] := by
  intro first second turns
  have hdelivers : Delivers turns [first, second] := by
    constructor <;> decide
  have hwhole : (∀ chunk ∈ chunks turns, chunk.length = ITCHTradeMsgSize) ∧
      [first, second].length ≤ ((6 : UInt64) - 5 + 1).toNat := by
    decide
  exact ⟨hdelivers,
    (receiveRecoveryMessages_hands_iff hdelivers 5 6).mpr hwhole⟩

end Ticker
end TradingStudies
