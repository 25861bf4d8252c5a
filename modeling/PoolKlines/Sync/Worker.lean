import PoolKlines.Sync.Cycle

/-!
# Workers

A worker runs the cycles of one pool, one after the other.

* `Worker.cycle` runs a cycle and counts a stall if it ended at a transaction that cannot be
  applied;
* `Worker.run` runs cycles until the actions scripted for requests are used up, which stands for the
  signal to shut down.
-/

namespace PoolKlines

/-- A worker of a pool, and how many of its cycles stalled or were cut off. -/
structure Worker where
  pool : String
  stalls : Nat
  deriving DecidableEq

namespace Worker

/-- A worker before its first cycle. -/
def ofPool (pool : String) : Worker := ⟨pool, 0⟩

/-- Count a stall. -/
def addStall (w : Worker) : Worker := { w with stalls := w.stalls + 1 }

/-- Count what a cycle's report says. -/
def addReport (w : Worker) (report : CycleReport) : Worker :=
  if report.stalled then w.addStall else w

variable {σ β : Type} [Store σ β]

/-- Run a cycle. A cycle that was cut off changes nothing in the worker. -/
def cycle (w : Worker) (indexer : Indexer) (pools : PoolSnapshot) (link : Link σ) :
    CycleEnd × Worker × Link σ :=
  match indexer.runCycle pools w.pool link with
  | (.report report, link) => (.report report, w.addReport report, link)
  | (ending, link) => (ending, w, link)

/-- Run cycles until no scripted action is left. A cycle that was cut off counts as a stall. There
is no result if a cycle never ends, or if the cycles use up no action. -/
def run (w : Worker) (indexer : Indexer) (pools : PoolSnapshot) (link : Link σ) :
    Option (Worker × Link σ) :=
  if link.fetches.isEmpty then some (w, link)
  else
    let (ending, next, rest) := w.cycle indexer pools link
    let next := if ending = .aborted then next.addStall else next
    if ending ≠ .endless ∧
        rest.fetches.length + rest.reads.length < link.fetches.length + link.reads.length then
      next.run indexer pools rest
    else none
termination_by link.fetches.length + link.reads.length

end Worker

end PoolKlines
