import Mathlib

/-!
# The ticker server: messages, the trade store and gap requests

`TradeMsgStore` reads the trade file line by line and numbers the trades by
their position, so a store carries the proof that its `i`-th trade has
sequence number `i`.

`SnapshotServer` answers a gap request by a loop over a 32-bit `int`, which is
compared with a 64-bit unsigned bound.  One evaluation of the loop head, with
the body it guards, is one iteration here; the records it writes to the socket
are returned.
-/

namespace TradingStudies
namespace Ticker

/-- A trade record as it goes over the wire.  The two doubles are kept as their
64 bits. -/
structure ITCHTradeMsg where
  message_type : Char
  sequence_number : UInt64
  trade_id : UInt64
  timestamp : UInt64
  price : UInt64
  quantity : UInt64
  buyer_is_maker : Bool
  best_match : Bool
  deriving DecidableEq, Repr

structure ITCHGapRequestMsg where
  type : Char
  start_seq : UInt64
  end_seq : UInt64
  deriving DecidableEq, Repr

/-! ## The store -/

structure TradeMsgStore where
  vec_ : List ITCHTradeMsg
  numbered : ∀ (index : ℕ) (hindex : index < vec_.length),
    vec_[index].sequence_number = UInt64.ofNat index

/-- The fields of one line of the trade file, converted. -/
structure TradeLine where
  trade_id : UInt64
  price : UInt64
  quantity : UInt64
  timestamp : UInt64
  buyer_is_maker : Bool
  best_match : Bool

namespace TradeMsgStore

def empty : TradeMsgStore where
  vec_ := []
  numbered := by
    intro index hindex
    exact absurd hindex (Nat.not_lt_zero index)

/-- What `parseTrade` appends once the fields of the line are read. -/
def parseTrade (store : TradeMsgStore) (line : TradeLine) : TradeMsgStore where
  vec_ := store.vec_ ++
    [{ message_type := 'P'
       sequence_number := UInt64.ofNat store.vec_.length
       trade_id := line.trade_id
       timestamp := line.timestamp
       price := line.price
       quantity := line.quantity
       buyer_is_maker := line.buyer_is_maker
       best_match := line.best_match }]
  numbered := by
    intro index hindex
    by_cases hold : index < store.vec_.length
    · rw [List.getElem_append_left hold]
      exact store.numbered index hold
    · have hlast : index = store.vec_.length := by
        rw [List.length_append, List.length_singleton] at hindex
        omega
      subst index
      simp

/-- The constructor: one trade for each line of the file. -/
def load (lines : List TradeLine) : TradeMsgStore :=
  lines.foldl parseTrade empty

def size (store : TradeMsgStore) : ℕ := store.vec_.length

/-- `get` answers `nullptr` past the end. -/
def get (store : TradeMsgStore) (index : UInt64) : Option ITCHTradeMsg :=
  store.vec_[index.toNat]?

/-- The trades with positions in `[start, stop)`. -/
def between (store : TradeMsgStore) (start stop : ℕ) : List ITCHTradeMsg :=
  (store.vec_.drop start).take (stop - start)

variable {store : TradeMsgStore}

@[simp] theorem between_self (start : ℕ) : store.between start start = [] := by
  simp [between]

theorem between_of_lt {start stop : ℕ} (hstart : start < stop)
    (hsize : start < store.vec_.length) :
    store.between start stop =
      store.vec_[start] :: store.between (start + 1) stop := by
  unfold between
  rw [List.drop_eq_getElem_cons hsize]
  rw [show stop - start = stop - (start + 1) + 1 by omega]
  rw [List.take_succ_cons]

theorem take_succ {index : ℕ} (hindex : index < store.vec_.length) :
    store.vec_.take (index + 1) =
      store.vec_.take index ++ [store.vec_[index]] := by
  rw [List.take_succ_eq_append_getElem hindex]

/-- A stored trade stands at the position its number names. -/
theorem getElem_of_mem (hsmall : store.vec_.length ≤ 2 ^ 64)
    {msg : ITCHTradeMsg} (hmsg : msg ∈ store.vec_) :
    ∃ hindex : msg.sequence_number.toNat < store.vec_.length,
      store.vec_[msg.sequence_number.toNat] = msg := by
  obtain ⟨index, hindex, rfl⟩ := List.getElem_of_mem hmsg
  have hnumber : store.vec_[index].sequence_number.toNat = index := by
    rw [store.numbered index hindex, UInt64.toNat_ofNat']
    exact Nat.mod_eq_of_lt (by omega)
  have hlt : store.vec_[index].sequence_number.toNat < store.vec_.length := by
    rw [hnumber]
    exact hindex
  refine ⟨hlt, ?_⟩
  simp only [hnumber]

end TradeMsgStore

/-! ## Conversions of the loop counter -/

/-- `uint64_t` to `int`: the low 32 bits, read as a signed number. -/
def toInt32 (value : UInt64) : Int32 := value.toUInt32.toInt32

/-- `int` to `uint64_t` or `size_t`: the sign is extended. -/
def toUInt64 (value : Int32) : UInt64 := value.toInt64.toUInt64

theorem toInt_toInt32 {value : UInt64} (hvalue : value.toNat < 2 ^ 31) :
    (toInt32 value).toInt = value.toNat := by
  have hlow : value.toUInt32.toBitVec.toNat = value.toNat := by
    have hmod := UInt64.toNat_toUInt32 value
    rw [Nat.mod_eq_of_lt (by omega)] at hmod
    exact hmod
  unfold toInt32
  show value.toUInt32.toBitVec.toInt = _
  rw [BitVec.toInt_eq_toNat_cond, if_pos (by omega), hlow]

theorem toNat_toUInt64 {value : Int32} (hvalue : 0 ≤ value.toInt) :
    ((toUInt64 value).toNat : ℤ) = value.toInt := by
  have hwide : value.toInt64.toBitVec.toInt = value.toInt :=
    Int32.toInt_toInt64 value
  have hcond := BitVec.toInt_eq_toNat_cond value.toInt64.toBitVec
  have hlt := value.toInt64.toBitVec.isLt
  show ((value.toInt64.toBitVec.toNat : ℕ) : ℤ) = value.toInt
  split at hcond <;> omega

theorem toInt_succ {value : Int32} (hvalue : value.toInt < 2 ^ 31 - 1) :
    (value + 1).toInt = value.toInt + 1 := by
  have hlow := Int32.le_toInt value
  rw [Int32.toInt_add, show (1 : Int32).toInt = 1 from rfl]
  exact Int.bmod_eq_of_le (by omega) (by omega)

/-! ## Serving a gap request -/

/-- Where `SnapshotServer` stands: reading requests, in the loop of
`serveGapRequest` or of `replayAll`, or past a signed overflow of a counter. -/
inductive SnapshotServer
  | reading
  | serving (i : Int32) (end_seq : UInt64)
  | replaying (i : Int32)
  | overflowed
  deriving DecidableEq, Repr

namespace SnapshotServer

/-- The call of `serveGapRequest`.  A request out of range is reported, and
served all the same. -/
def serveGapRequest (msg : ITCHGapRequestMsg) : SnapshotServer :=
  .serving (toInt32 msg.start_seq) msg.end_seq

def replayAll : SnapshotServer := .replaying 0

/-- The dispatch of `serveClients` on a whole request. -/
def serveClients (msg : ITCHGapRequestMsg) : SnapshotServer :=
  if msg.type = '0' then serveGapRequest msg
  else if msg.type = '1' then replayAll
  else .reading

/-- `++i` on a signed counter, then the loop again. -/
def increment (loop : Int32 → SnapshotServer) (i : Int32) : SnapshotServer :=
  if i = Int32.maxValue then .overflowed else loop (i + 1)

/-- One turn of a loop and the records it sends.  `send` of a null pointer
sends nothing. -/
def iterate (store : TradeMsgStore) :
    SnapshotServer → Option (SnapshotServer × List ITCHTradeMsg)
  | .reading => none
  | .serving i end_seq =>
      if toUInt64 i ≤ end_seq then
        some (increment (fun i => .serving i end_seq) i,
          (store.get (toUInt64 i)).toList)
      else
        some (.reading, [])
  | .replaying i =>
      if (toUInt64 i).toNat < store.size then
        some (increment .replaying i, (store.get (toUInt64 i)).toList)
      else
        some (.reading, [])
  | .overflowed => none

/-- The records which a loop has still to send. -/
def toSend (store : TradeMsgStore) : SnapshotServer → List ITCHTradeMsg
  | .reading => []
  | .serving i end_seq => store.between i.toInt.toNat (end_seq.toNat + 1)
  | .replaying i => store.between i.toInt.toNat store.size
  | .overflowed => []

/-- A loop is inside a range that the store can meet. -/
def InRange (store : TradeMsgStore) : SnapshotServer → Prop
  | .reading => True
  | .serving i end_seq =>
      0 ≤ i.toInt ∧ i.toInt ≤ end_seq.toNat + 1 ∧
        end_seq.toNat < store.vec_.length
  | .replaying i => 0 ≤ i.toInt ∧ i.toInt ≤ store.size
  | .overflowed => False

variable {store : TradeMsgStore}

theorem serveGapRequest_spec (hsmall : store.vec_.length < 2 ^ 31)
    {msg : ITCHGapRequestMsg} (horder : msg.start_seq ≤ msg.end_seq)
    (hend : msg.end_seq.toNat < store.vec_.length) :
    InRange store (serveGapRequest msg) ∧
      toSend store (serveGapRequest msg) =
        store.between msg.start_seq.toNat (msg.end_seq.toNat + 1) := by
  have hle : msg.start_seq.toNat ≤ msg.end_seq.toNat := horder
  have hint : (toInt32 msg.start_seq).toInt = msg.start_seq.toNat :=
    toInt_toInt32 (by omega)
  unfold serveGapRequest
  constructor
  · simp only [InRange, hint]
    omega
  · simp only [toSend, hint, Int.toNat_natCast]

theorem increment_of_lt {loop : Int32 → SnapshotServer} {i : Int32}
    (hi : i.toInt < 2 ^ 31 - 1) : increment loop i = loop (i + 1) := by
  have hmax : i ≠ Int32.maxValue := by
    intro heq
    subst i
    have hvalue : Int32.maxValue.toInt = 2 ^ 31 - 1 := rfl
    omega
  unfold increment
  rw [if_neg hmax]

theorem get_of_inRange {i : Int32} (hnonneg : 0 ≤ i.toInt)
    (hindex : i.toInt.toNat < store.vec_.length) :
    store.get (toUInt64 i) = some store.vec_[i.toInt.toNat] := by
  have hcast := toNat_toUInt64 hnonneg
  have hnat : (toUInt64 i).toNat = i.toInt.toNat := by omega
  unfold TradeMsgStore.get
  rw [hnat]
  exact List.getElem?_eq_getElem _

/-- An iteration sends the next record of the range, or leaves the loop when
none is left. -/
theorem iterate_spec (hsmall : store.vec_.length < 2 ^ 31)
    {server next : SnapshotServer} {sent : List ITCHTradeMsg}
    (hrange : InRange store server)
    (hiterate : iterate store server = some (next, sent)) :
    InRange store next ∧
      sent ++ toSend store next = toSend store server := by
  cases server with
  | reading => simp [iterate] at hiterate
  | overflowed => simp [iterate] at hiterate
  | serving i end_seq =>
      rcases hrange with ⟨hnonneg, hbound, hend⟩
      have hcast := toNat_toUInt64 hnonneg
      dsimp only [iterate] at hiterate
      by_cases hle : toUInt64 i ≤ end_seq
      · have hlt : (toUInt64 i).toNat ≤ end_seq.toNat := hle
        have hindex : i.toInt.toNat < store.vec_.length := by omega
        have hsucc : (i + 1).toInt = i.toInt + 1 := toInt_succ (by omega)
        rw [if_pos hle, increment_of_lt (by omega),
          get_of_inRange hnonneg hindex] at hiterate
        cases hiterate
        simp only [InRange, toSend, hsucc, Option.toList_some,
          List.singleton_append]
        constructor
        · omega
        · rw [show (i.toInt + 1).toNat = i.toInt.toNat + 1 by omega]
          exact (TradeMsgStore.between_of_lt (by omega) hindex).symm
      · have hgt : end_seq.toNat < (toUInt64 i).toNat := by
          by_contra hcontra
          exact hle (UInt64.le_iff_toNat_le.mpr (by omega))
        have hexit : i.toInt.toNat = end_seq.toNat + 1 := by omega
        rw [if_neg hle] at hiterate
        cases hiterate
        simp [InRange, toSend, hexit]
  | replaying i =>
      rcases hrange with ⟨hnonneg, hbound⟩
      have hcast := toNat_toUInt64 hnonneg
      have hsize : store.size = store.vec_.length := rfl
      dsimp only [iterate] at hiterate
      by_cases hlt : (toUInt64 i).toNat < store.size
      · have hindex : i.toInt.toNat < store.vec_.length := by omega
        have hsucc : (i + 1).toInt = i.toInt + 1 := toInt_succ (by omega)
        rw [if_pos hlt, increment_of_lt (by omega),
          get_of_inRange hnonneg hindex] at hiterate
        cases hiterate
        simp only [InRange, toSend, hsucc, Option.toList_some,
          List.singleton_append]
        constructor
        · omega
        · rw [show (i.toInt + 1).toNat = i.toInt.toNat + 1 by omega]
          exact (TradeMsgStore.between_of_lt hindex hindex).symm
      · have hexit : i.toInt.toNat = store.size := by omega
        rw [if_neg hlt] at hiterate
        cases hiterate
        simp [InRange, toSend, hexit]

end SnapshotServer
end Ticker
end TradingStudies
