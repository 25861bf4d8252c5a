import PoolKlines.Sync.Indexer
import PoolKlines.Sync.Inversion

/-!
# Cycles

A cycle applies the transactions of a pool, page by page, until a page is empty or a transaction
cannot be applied.

* `CycleReport` says how far a cycle came, and `CycleEnd` how it ended;
* `Indexer.applyPage` applies the rows of one page that come after the cursor, and stops at the
  first inversion;
* `Indexer.runCycle` runs a cycle.

A page that brings nothing new is requested again. If it came from the store itself, the next one
will be the same, and the cycle never ends.
-/

namespace PoolKlines

/-- How far a cycle came. -/
structure CycleReport where
  pages : Nat
  applied : Nat
  records : Nat
  undecodable : Nat
  cursor : UInt64
  poolMissing : Bool
  error : Option IndexerError
  deriving DecidableEq

namespace CycleReport

/-- Nothing happened yet. -/
def empty : CycleReport := ⟨0, 0, 0, 0, 0, false, none⟩

/-- The cycle ended at a transaction that cannot be applied. -/
def stalled (r : CycleReport) : Bool := r.error.any (·.isFatal)

/-- The cycle ended at an inversion. -/
def outOfOrder (r : CycleReport) : Bool := r.error.any (·.isOutOfOrder)

/-- Count an applied transaction. -/
def addOutcome (r : CycleReport) (txId : UInt64) (outcome : Outcome) : CycleReport :=
  { r with
    cursor := txId
    applied := r.applied + 1
    records := r.records + outcome.records
    undecodable := r.undecodable + outcome.undecodable.toNat }

/-- Count a page. -/
def addPage (r : CycleReport) : CycleReport := { r with pages := r.pages + 1 }

/-- Write a report. -/
def toJson (r : CycleReport) : Json :=
  .object [
    ("pages", .integer r.pages),
    ("applied", .integer r.applied),
    ("records", .integer r.records),
    ("undecodable", .integer r.undecodable),
    ("cursor", Json.ofUInt64 r.cursor),
    ("stalled", .bool r.stalled),
    ("outOfOrder", .bool r.outOfOrder),
    ("poolMissing", .bool r.poolMissing),
    ("error", Json.ofOption (fun e => .string e.message) r.error)]

end CycleReport

/-- How a cycle ended. -/
inductive CycleEnd
  | report (report : CycleReport)
  /-- The cycle was cut off and left no report. -/
  | aborted
  | endless
  deriving DecidableEq

/-- A cycle under way. Its report holds the cursor that the cycle goes by. -/
structure CycleState (σ : Type) where
  link : Link σ
  report : CycleReport

/-- A part of a cycle. -/
abbrev CycleStep (σ α : Type) := EStateM Stop (CycleState σ) α

namespace CycleState

variable {σ : Type}

/-- How far the cursor may still move. -/
def room (s : CycleState σ) : Nat := UInt64.size - s.report.cursor.toNat

/-- A page used up an action or moved the cursor. -/
def Advances (s t : CycleState σ) : Prop :=
  t.link.fetches.length < s.link.fetches.length ∨
    t.link.fetches.length = s.link.fetches.length ∧ s.report.cursor < t.report.cursor

instance (s t : CycleState σ) : Decidable (s.Advances t) :=
  inferInstanceAs (Decidable (_ ∨ _))

theorem Advances.lex {s t : CycleState σ} (h : s.Advances t) :
    Prod.Lex (· < ·) (· < ·) (t.link.fetches.length, t.room) (s.link.fetches.length, s.room) := by
  rcases h with h | ⟨h, h'⟩
  · exact .left _ _ h
  · rw [h]
    refine .right _ ?_
    have := UInt64.lt_iff_toNat_lt.mp h'
    have := t.report.cursor.toNat_lt
    simp only [room, UInt64.size]
    omega

end CycleState

namespace Indexer

variable {σ β : Type} [Store σ β]

/-- Apply a row of a page, unless it was applied before. A row with a lower id after it is not
applied. -/
def applyRow (indexer : Indexer) (pools : PoolSnapshot) (pool : PoolConfig)
    (lower : Option UInt64) (stored : StoredTransaction) : CycleStep σ Unit := fun s =>
  if stored.id ≤ s.report.cursor then .ok () s
  else
    match lower with
    | some lower => .error (.error (.outOfOrder stored.id stored.slot lower)) s
    | none =>
      match indexer.process pools pool stored s.link with
      | .ok outcome link => .ok () ⟨link, s.report.addOutcome stored.id outcome⟩
      | .error stop link => .error stop { s with link }

/-- Apply the rows of a page in turn. -/
def applyPage (indexer : Indexer) (pools : PoolSnapshot) (pool : PoolConfig)
    (page : List StoredTransaction) : CycleStep σ Unit :=
  let inversion := findInversion? page
  page.zipIdx.forM fun (stored, position) =>
    let lower := (inversion.filter (·.1 = position)).map Prod.snd
    indexer.applyRow pools pool lower stored

/-- Apply pages until one is empty. After a request that failed for good, the report names the
cursor at which the cycle began. -/
def applyPages (indexer : Indexer) (pools : PoolSnapshot) (name : String) (pool : PoolConfig)
    (start : UInt64) (s : CycleState σ) : CycleEnd × Link σ :=
  match Link.fetchPage name s.report.cursor indexer.pageSize indexer.fetchRetries s.link with
  | .error .abort link => (.aborted, link)
  | .error (.refuse e) link =>
    (.report { s.report with cursor := start, error := some (.fetch e) }, link)
  | .ok [] link => (.report s.report, link)
  | .ok (first :: rest) link =>
    match indexer.applyPage pools pool (first :: rest) ⟨link, s.report.addPage⟩ with
    | .error .aborted t => (.aborted, t.link)
    | .error (.error e) t => (.report { t.report with error := some e }, t.link)
    | .ok _ t =>
      if _advances : s.Advances t then indexer.applyPages pools name pool start t
      else (.endless, t.link)
termination_by (s.link.fetches.length, s.room)
decreasing_by exact CycleState.Advances.lex (by assumption)

/-- Run a cycle of the pool with an address. -/
def runCycle (indexer : Indexer) (pools : PoolSnapshot) (name : String) (link : Link σ) :
    CycleEnd × Link σ :=
  match pools.find? name with
  | none => (.report { CycleReport.empty with poolMissing := true }, link)
  | some pool =>
    match Link.readCursor pool.address pool.version link with
    | .error .abort link => (.aborted, link)
    | .error (.refuse e) link =>
      (.report { CycleReport.empty with error := some (.storage e) }, link)
    | .ok cursor link =>
      indexer.applyPages pools name pool cursor ⟨link, { CycleReport.empty with cursor }⟩

end Indexer

end PoolKlines
