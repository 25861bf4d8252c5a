import PoolKlines.Store.Durable.Basic

/-!
# Editing cells

Changing single cells of the tables directly, past every check of the store.

* `Cell` is the content of a cell, `RowCondition` selects rows;
* `Database.edit` sets one column of all selected rows of a table.

A column of text keeps a number as its digits, a column of numbers keeps a numeral as a number, and
only a column whose values are optional can be emptied.
-/

namespace PoolKlines

/-- The content of a cell. -/
inductive Cell
  | null
  | text (value : String)
  | integer (value : Int)
  deriving DecidableEq

namespace Cell

/-- What a column of text keeps. -/
def text? : Cell → Option String
  | text value => some value
  | integer value => some (toString value)
  | null => none

/-- What a column of text keeps that may be empty. -/
def optionalText? : Cell → Option (Option String)
  | null => some none
  | cell => cell.text?.map some

/-- What a column of whole numbers keeps. -/
def number? : Cell → Option NumberCell
  | integer value => some (.ofText (toString value))
  | text value => some (.ofText value)
  | null => none

/-- What a column keeps that has to hold whole numbers. -/
def int64? (c : Cell) : Option Int64 :=
  match c.number? with
  | some (.integer value) => some (Int64.ofInt value)
  | _ => none

end Cell

/-- Which rows to edit. -/
inductive RowCondition
  | all
  | start (value : Int)
  | id (value : Int)
  | pool (name : String)
  deriving DecidableEq

namespace BucketRow

/-- Set a cell of a bucket's row. -/
def set? (r : BucketRow) (column : String) (c : Cell) : Option BucketRow :=
  match column with
  | "pool" => c.text?.map fun v => { r with pool := v }
  | "resolution" => c.text?.map fun v => { r with resolution := v }
  | "bucket_start" => c.number?.map fun v => { r with start := v }
  | "open" => c.optionalText?.map fun v => { r with opening := v }
  | "high" => c.optionalText?.map fun v => { r with high := v }
  | "low" => c.optionalText?.map fun v => { r with low := v }
  | "close" => c.optionalText?.map fun v => { r with closing := v }
  | "average" => c.optionalText?.map fun v => { r with average := v }
  | "price_sum" => c.text?.map fun v => { r with priceSum := v }
  | "price_count" => c.number?.map fun v => { r with priceCount := v }
  | "volume_a" => c.text?.map fun v => { r with volumes.a := v }
  | "volume_b" => c.text?.map fun v => { r with volumes.b := v }
  | "quote_volume" => c.text?.map fun v => { r with quoteVolume := v }
  | "balance_a" => c.optionalText?.map fun v => { r with balances.a := v }
  | "balance_b" => c.optionalText?.map fun v => { r with balances.b := v }
  | "usd_price_a" => c.optionalText?.map fun v => { r with usdPrices.a := v }
  | "usd_price_b" => c.optionalText?.map fun v => { r with usdPrices.b := v }
  | "tx_count" => c.number?.map fun v => { r with txCount := v }
  | "trade_count" => c.number?.map fun v => { r with tradeCount := v }
  | "max_block_time" => c.number?.map fun v => { r with maxBlockTime := v }
  | "last_tx_id" => c.number?.map fun v => { r with lastTxId := v }
  | _ => none

/-- The row is selected. -/
def selected (r : BucketRow) : RowCondition → Bool
  | .all => true
  | .start value => r.start = .integer value
  | .pool name => r.pool = name
  | .id _ => false

end BucketRow

namespace TotalsRow

/-- Set a cell of a row of totals. -/
def set? (r : TotalsRow) (column : String) (c : Cell) : Option TotalsRow :=
  match column with
  | "pool" => c.optionalText?.map fun v => { r with pool := v }
  | "volume_a" => c.text?.map fun v => { r with volumes.a := v }
  | "volume_b" => c.text?.map fun v => { r with volumes.b := v }
  | "quote_volume" => c.text?.map fun v => { r with quoteVolume := v }
  | "fee_a" => c.text?.map fun v => { r with fees.a := v }
  | "fee_b" => c.text?.map fun v => { r with fees.b := v }
  | "tx_count" => c.number?.map fun v => { r with txCount := v }
  | "trade_count" => c.number?.map fun v => { r with tradeCount := v }
  | "balance_a" => c.optionalText?.map fun v => { r with balances.a := v }
  | "balance_b" => c.optionalText?.map fun v => { r with balances.b := v }
  | "tvl_usd" => c.optionalText?.map fun v => { r with valueLocked := v }
  | "last_block_time" => c.number?.map fun v => { r with lastBlockTime := v }
  | "last_tx_id" => c.number?.map fun v => { r with lastTxId := v }
  | _ => none

/-- The row is selected. -/
def selected (r : TotalsRow) : RowCondition → Bool
  | .all => true
  | .pool name => r.pool = some name
  | _ => false

end TotalsRow

namespace CursorRow

/-- Set a cell of a cursor's row. -/
def set? (r : CursorRow) (column : String) (c : Cell) : Option CursorRow :=
  match column with
  | "pool" => c.text?.map fun v => { r with pool := v }
  | "version" => c.text?.map fun v => { r with version := v }
  | "tx_id" => c.number?.map fun v => { r with txId := v }
  | _ => none

/-- The row is selected. -/
def selected (r : CursorRow) : RowCondition → Bool
  | .all => true
  | .pool name => r.pool = name
  | _ => false

end CursorRow

namespace ShardRow

/-- Set a cell of a shard's row. -/
def set? (r : ShardRow) (column : String) (c : Cell) : Option ShardRow :=
  match column with
  | "pool" => c.optionalText?.map fun v => { r with pool := v }
  | "shard" => c.number?.map fun v => { r with shard := v }
  | _ => none

/-- The row is selected. -/
def selected (r : ShardRow) : RowCondition → Bool
  | .all => true
  | .pool name => r.pool = some name
  | _ => false

end ShardRow

namespace TransactionRow

/-- Set a cell of a transaction's row. -/
def set? (r : TransactionRow) (column : String) (c : Cell) : Option TransactionRow :=
  match column with
  | "id" => c.int64?.map fun v => { r with id := v }
  | "pool" => c.text?.map fun v => { r with pool := v }
  | "slot" => c.number?.map fun v => { r with slot := v }
  | "signature" => c.text?.map fun v => { r with signature := v }
  | "block_time" => c.number?.map fun v => { r with blockTime := v }
  | "payload" => c.text?.map fun v => { r with payload := v }
  | _ => none

/-- The row is selected. -/
def selected (r : TransactionRow) : RowCondition → Bool
  | .all => true
  | .id value => r.id.toInt = value
  | .pool name => r.pool = name
  | .start _ => false

end TransactionRow

/-- Change the selected rows, and count them. -/
def editRows {α : Type} (selected : α → Bool) (set? : α → Option α) (rows : List α) :
    Option (Nat × List α) := do
  let rows' ← rows.mapM fun r => if selected r then set? r else some r
  return (rows.countP selected, rows')

namespace Database

/-- Set a column of the selected rows of a table, and count the rows. -/
def edit (d : Database) (table column : String) (cell : Cell) (condition : RowCondition) :
    Option (Nat × Database) :=
  match table with
  | "pool_totals" =>
    (editRows (·.selected condition) (·.set? column cell) d.totals).map fun (n, rows) =>
      (n, { d with totals := rows })
  | "sync_cursor" =>
    (editRows (·.selected condition) (·.set? column cell) d.cursors).map fun (n, rows) =>
      (n, { d with cursors := rows })
  | "pool_shard" =>
    (editRows (·.selected condition) (·.set? column cell) d.shards).map fun (n, rows) =>
      (n, { d with shards := rows })
  | "raw_transaction" =>
    (editRows (·.selected condition) (·.set? column cell) d.transactions).map fun (n, rows) =>
      (n, { d with transactions := rows })
  | _ =>
    (editRows (fun r => ShardMap.tableName r.shard = table && r.selected condition)
      (·.set? column cell) d.buckets).map fun (n, rows) => (n, { d with buckets := rows })

end Database

end PoolKlines
