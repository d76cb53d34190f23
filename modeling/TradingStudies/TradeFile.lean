import TradingStudies.Library.DelimitedFields
import TradingStudies.StringConversions
import TradingStudies.TickerServer

/-!
# The trade file

`TradeMsgStore::parseTrade` reads the seven fields of a line into one token.
It does not look at the state of the stream: where a line ends early, the
token keeps the last field, and that is converted in place of each missing one.
-/

namespace TradingStudies
namespace Ticker
namespace TradeFile

open DelimitedFields (Reader start getline fieldAt)
open StringConversions (Exception stoull stod)

def readLine (line : List Char) : Except Exception TradeLine := do
  let reader := getline ',' (start line)
  let trade_id ← stoull reader.token
  let reader := getline ',' reader
  let price ← stod reader.token
  let reader := getline ',' reader
  let quantity ← stod reader.token
  -- The quote quantity is skipped.
  let reader := getline ',' reader
  let reader := getline ',' reader
  let timestamp ← stoull reader.token
  let reader := getline ',' reader
  let buyer_is_maker := decide (reader.token = ['T', 'r', 'u', 'e'])
  let reader := getline ',' reader
  let best_match := decide (reader.token = ['T', 'r', 'u', 'e'])
  return {
    trade_id := trade_id
    price := price
    quantity := quantity
    timestamp := timestamp
    buyer_is_maker := buyer_is_maker
    best_match := best_match }

/-- The store after `parseTrade`, and the exception it is left with. -/
def parseTrade (store : TradeMsgStore) (line : List Char) :
    TradeMsgStore × Option Exception :=
  match readLine line with
  | .ok trade => (store.parseTrade trade, none)
  | .error thrown => (store, some thrown)

/-- The lines of a file.  What follows the last line break is a line only if
it is not empty. -/
def lines (file : List Char) : List (List Char) :=
  let all := file.splitOn '\n'
  if all.getLast? = some [] then all.dropLast else all

def load (file : List Char) : Except Exception TradeMsgStore :=
  (lines file).foldlM (fun store line => store.parseTrade <$> readLine line)
    .empty

/-! ## Fields -/

def isTrue (field : List Char) : Bool := decide (field = ['T', 'r', 'u', 'e'])

/-- The conversions of the fields with the indices of the table, a missing
field being replaced by the last one. -/
def convert (fields : List (List Char)) : Except Exception TradeLine := do
  let trade_id ← stoull (fieldAt fields 0)
  let price ← stod (fieldAt fields 1)
  let quantity ← stod (fieldAt fields 2)
  let timestamp ← stoull (fieldAt fields 4)
  return {
    trade_id := trade_id
    price := price
    quantity := quantity
    timestamp := timestamp
    buyer_is_maker := isTrue (fieldAt fields 5)
    best_match := isTrue (fieldAt fields 6) }

theorem readLine_eq (line : List Char) :
    readLine line = convert (line.splitOn ',') := by
  have htoken := DelimitedFields.token_getline ',' line
  have hzero := htoken 0
  have hone := htoken 1
  have htwo := htoken 2
  have hfour := htoken 4
  have hfive := htoken 5
  have hsix := htoken 6
  simp only [Function.iterate_succ_apply', Function.iterate_zero_apply]
    at hzero hone htwo hfour hfive hsix
  simp only [readLine, convert, isTrue, hzero, hone, htwo, hfour, hfive, hsix]

theorem convert_eq_ok_iff {fields : List (List Char)} {trade : TradeLine} :
    convert fields = .ok trade ↔
      stoull (fieldAt fields 0) = .ok trade.trade_id ∧
        stod (fieldAt fields 1) = .ok trade.price ∧
        stod (fieldAt fields 2) = .ok trade.quantity ∧
        stoull (fieldAt fields 4) = .ok trade.timestamp ∧
        trade.buyer_is_maker = isTrue (fieldAt fields 5) ∧
        trade.best_match = isTrue (fieldAt fields 6) := by
  unfold convert
  constructor
  · intro hconvert
    cases hid : stoull (fieldAt fields 0) with
    | error thrown => simp [hid, bind, Except.bind] at hconvert
    | ok trade_id =>
        cases hprice : stod (fieldAt fields 1) with
        | error thrown => simp [hid, hprice, bind, Except.bind] at hconvert
        | ok price =>
            cases hquantity : stod (fieldAt fields 2) with
            | error thrown =>
                simp [hid, hprice, hquantity, bind, Except.bind] at hconvert
            | ok quantity =>
                cases htime : stoull (fieldAt fields 4) with
                | error thrown =>
                    simp [hid, hprice, hquantity, htime, bind, Except.bind]
                      at hconvert
                | ok timestamp =>
                    simp only [hid, hprice, hquantity, htime, bind,
                      Except.bind, pure, Except.pure, Except.ok.injEq]
                      at hconvert
                    subst hconvert
                    exact ⟨rfl, rfl, rfl, rfl, rfl, rfl⟩
  · rintro ⟨hid, hprice, hquantity, htime, hbuyer, hbest⟩
    rw [hid, hprice, hquantity, htime, ← hbuyer, ← hbest]
    rfl

def Converts (fields : List (List Char)) : Prop :=
  (stoull (fieldAt fields 0)).isOk ∧ (stod (fieldAt fields 1)).isOk ∧
    (stod (fieldAt fields 2)).isOk ∧ (stoull (fieldAt fields 4)).isOk

instance (fields : List (List Char)) : Decidable (Converts fields) :=
  inferInstanceAs (Decidable (_ ∧ _))

theorem isOk_iff {ε α : Type*} {result : Except ε α} :
    result.isOk = true ↔ ∃ value, result = .ok value := by
  cases result with
  | error thrown => simp [Except.isOk, Except.toBool]
  | ok value => simp [Except.isOk, Except.toBool]

theorem converts_iff {fields : List (List Char)} :
    Converts fields ↔ ∃ trade, convert fields = .ok trade := by
  simp only [Converts, isOk_iff, convert_eq_ok_iff]
  constructor
  · rintro ⟨⟨trade_id, hid⟩, ⟨price, hprice⟩, ⟨quantity, hquantity⟩,
      ⟨timestamp, htime⟩⟩
    exact ⟨⟨trade_id, price, quantity, timestamp, _, _⟩, hid, hprice,
      hquantity, htime, rfl, rfl⟩
  · rintro ⟨trade, hid, hprice, hquantity, htime, -, -⟩
    exact ⟨⟨_, hid⟩, ⟨_, hprice⟩, ⟨_, hquantity⟩, ⟨_, htime⟩⟩

/-! ## What is stored -/

/-- The trade is the conversion of the fields of a complete line. -/
structure FromFields (fields : List (List Char)) (trade : ITCHTradeMsg) :
    Prop where
  complete : 7 ≤ fields.length
  trade_id : stoull (fields.getD 0 []) = .ok trade.trade_id
  price : stod (fields.getD 1 []) = .ok trade.price
  quantity : stod (fields.getD 2 []) = .ok trade.quantity
  timestamp : stoull (fields.getD 4 []) = .ok trade.timestamp
  buyer_is_maker : trade.buyer_is_maker = isTrue (fields.getD 5 [])
  best_match : trade.best_match = isTrue (fields.getD 6 [])

/-- A trade is stored from a complete line only, and a shorter line is
rejected. -/
structure StoresComplete (store : TradeMsgStore) (line : List Char) :
    Prop where
  stored : ∀ trade, (parseTrade store line).1.vec_ = store.vec_ ++ [trade] →
    FromFields (line.splitOn ',') trade
  rejected : (line.splitOn ',').length < 7 →
    (parseTrade store line).2.isSome ∧ (parseTrade store line).1 = store

theorem fieldAt_eq_getD {fields : List (List Char)} {index : ℕ}
    (hindex : index < fields.length) :
    fieldAt fields index = fields.getD index [] := by
  rw [DelimitedFields.fieldAt_of_lt hindex]
  exact (List.getD_eq_getElem fields [] hindex).symm

theorem parseTrade_of_error {store : TradeMsgStore} {line : List Char}
    {thrown : Exception} (hread : readLine line = .error thrown) :
    parseTrade store line = (store, some thrown) := by
  unfold parseTrade
  rw [hread]

theorem parseTrade_of_ok {store : TradeMsgStore} {line : List Char}
    {trade : TradeLine} (hread : readLine line = .ok trade) :
    parseTrade store line = (store.parseTrade trade, none) := by
  unfold parseTrade
  rw [hread]

theorem fromFields_of_convert {fields : List (List Char)} {trade : TradeLine}
    (hcomplete : 7 ≤ fields.length) (hconvert : convert fields = .ok trade)
    (sequence_number : UInt64) :
    FromFields fields
      { message_type := 'P'
        sequence_number := sequence_number
        trade_id := trade.trade_id
        timestamp := trade.timestamp
        price := trade.price
        quantity := trade.quantity
        buyer_is_maker := trade.buyer_is_maker
        best_match := trade.best_match } := by
  obtain ⟨hid, hprice, hquantity, htime, hbuyer, hbest⟩ :=
    convert_eq_ok_iff.mp hconvert
  rw [fieldAt_eq_getD (by omega)] at hid hprice hquantity htime hbuyer hbest
  exact ⟨hcomplete, hid, hprice, hquantity, htime, hbuyer, hbest⟩

/-- The trades which a file of complete lines adds to a store. -/
theorem foldlM_fromFields {all : List (List Char)}
    {store last : TradeMsgStore}
    (hcomplete : ∀ line ∈ all, 7 ≤ (line.splitOn ',').length)
    (hfold : all.foldlM
      (fun store line => store.parseTrade <$> readLine line) store =
        .ok last) :
    ∃ trades, last.vec_ = store.vec_ ++ trades ∧
      List.Forall₂ (fun line trade => FromFields (line.splitOn ',') trade) all
        trades := by
  induction all generalizing store with
  | nil =>
      rw [List.foldlM_nil] at hfold
      cases hfold
      exact ⟨[], (List.append_nil _).symm, .nil⟩
  | cons line rest ih =>
      rw [List.forall_mem_cons] at hcomplete
      rw [List.foldlM_cons] at hfold
      cases hread : readLine line with
      | error thrown =>
          rw [hread] at hfold
          cases hfold
      | ok trade =>
          rw [hread] at hfold
          obtain ⟨trades, hlast, hrest⟩ := ih hcomplete.2 hfold
          rw [readLine_eq] at hread
          have hfirst := fromFields_of_convert hcomplete.1 hread
            (UInt64.ofNat store.vec_.length)
          refine ⟨_, ?_, .cons hfirst hrest⟩
          rw [hlast, TradeMsgStore.parseTrade, List.append_assoc]
          rfl

/-- A store loaded from complete lines holds the conversions of their fields,
line by line. -/
theorem load_fromFields {file : List Char} {store : TradeMsgStore}
    (hcomplete : ∀ line ∈ lines file, 7 ≤ (line.splitOn ',').length)
    (hload : load file = .ok store) :
    List.Forall₂ (fun line trade => FromFields (line.splitOn ',') trade)
      (lines file) store.vec_ := by
  obtain ⟨trades, hstore, htrades⟩ := foldlM_fromFields hcomplete hload
  rw [hstore]
  exact htrades

/-- Trades are stored from complete lines only if and only if the line is
complete or one of the conversions made on it fails. -/
theorem parseTrade_storesComplete_iff (store : TradeMsgStore)
    (line : List Char) :
    StoresComplete store line ↔
      (7 ≤ (line.splitOn ',').length ∨ ¬ Converts (line.splitOn ',')) := by
  constructor
  · intro hstores
    by_cases hcomplete : 7 ≤ (line.splitOn ',').length
    · exact Or.inl hcomplete
    · right
      intro hconverts
      obtain ⟨trade, hconvert⟩ := converts_iff.mp hconverts
      rw [← readLine_eq] at hconvert
      have hrejected := (hstores.rejected (by omega)).1
      rw [parseTrade_of_ok hconvert] at hrejected
      exact absurd hrejected (by simp)
  · intro hcondition
    cases hread : readLine line with
    | error thrown =>
        have hparse : parseTrade store line = (store, some thrown) :=
          parseTrade_of_error hread
        constructor
        · intro trade hstored
          rw [hparse] at hstored
          simp at hstored
        · intro _
          rw [hparse]
          exact ⟨rfl, rfl⟩
    | ok trade =>
        have hparse : parseTrade store line = (store.parseTrade trade, none) :=
          parseTrade_of_ok hread
        rw [readLine_eq] at hread
        have hcomplete : 7 ≤ (line.splitOn ',').length :=
          hcondition.resolve_right
            (not_not_intro (converts_iff.mpr ⟨trade, hread⟩))
        constructor
        · intro stored hstored
          rw [hparse, TradeMsgStore.parseTrade, List.append_cancel_left_eq,
            List.singleton_inj] at hstored
          subst hstored
          exact fromFields_of_convert hcomplete hread _
        · intro hshort
          omega

/-- A complete line and one with a price that is not a number. -/
theorem parseTrade_storesComplete_two :
    StoresComplete .empty
        "1,2.5,3,7.5,1600,True,False".toList ∧
      StoresComplete .empty "1,,3".toList := by
  constructor
  · exact (parseTrade_storesComplete_iff _ _).mpr (by decide)
  · exact (parseTrade_storesComplete_iff _ _).mpr (by decide)

/-- A line of three fields is stored as a trade: the quantity, 3, is its
timestamp as well. -/
theorem parseTrade_stores_short_line :
    let trade : TradeLine :=
      { trade_id := 1
        price := 0x4004000000000000
        quantity := 0x4008000000000000
        timestamp := 3
        buyer_is_maker := false
        best_match := false }
    parseTrade .empty "1,2.5,3".toList =
        (TradeMsgStore.empty.parseTrade trade, none) ∧
      ¬ StoresComplete .empty "1,2.5,3".toList := by
  intro trade
  have hread : readLine "1,2.5,3".toList = .ok trade := by
    rw [readLine_eq, convert_eq_ok_iff]
    decide
  have hparse : parseTrade .empty "1,2.5,3".toList =
      (TradeMsgStore.empty.parseTrade trade, none) := parseTrade_of_ok hread
  refine ⟨hparse, ?_⟩
  intro hstores
  have hrejected := hstores.rejected (by decide)
  rw [hparse] at hrejected
  exact absurd hrejected.1 (by decide)

end TradeFile
end Ticker
end TradingStudies
