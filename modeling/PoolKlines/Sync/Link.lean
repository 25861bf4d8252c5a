import PoolKlines.Store.Basic

/-!
# Links to a store

A worker reaches its store over a link on which calls may go wrong. What happens to the next calls
of each kind is a list of its own; when a list is used up, calls reach the store.

* `Fault` is what may go wrong with a call, `FetchAction` what may happen to a request for a page;
* `Link` is a store with these lists and the requests made so far;
* `Link.readCursor`, `Link.begin`, `Link.commit` and `Link.fetch` are the calls;
* `Link.fetchPage` repeats a refused request.
-/

namespace PoolKlines

/-- What may go wrong with a call. -/
inductive Fault
  /-- The call is answered by an error. -/
  | refuse (error : StoreError)
  /-- The caller is cut off and does not go on. -/
  | abort
  deriving DecidableEq

/-- What happens to a request for a page. -/
inductive FetchAction
  /-- The store answers. -/
  | ask
  /-- The answer is a given page. -/
  | page (rows : List StoredTransaction)
  | fault (fault : Fault)
  deriving DecidableEq

/-- A request for a page: the id it starts after, and its length at most. -/
structure PageRequest where
  after : UInt64
  limit : Nat
  deriving DecidableEq

/-- A store, and what happens to the next calls. -/
structure Link (σ : Type) where
  store : σ
  fetches : List FetchAction
  reads : List (Option Fault)
  begins : List (Option Fault)
  commits : List (Option Fault)
  requests : List PageRequest

/-- A computation over a link. What it changed before a fault stays changed. -/
abbrev Linked (ε σ α : Type) := EStateM ε (Link σ) α

namespace Link

variable {σ β : Type} [Store σ β]

/-- A link on which nothing goes wrong. -/
def ofStore {σ : Type} (store : σ) : Link σ := ⟨store, [], [], [], [], []⟩

/-- The answer to a call, unless a fault comes before it. -/
def answer {α : Type} (fault : Option Fault) (call : Except StoreError α) : Except Fault α :=
  match fault with
  | some fault => .error fault
  | none => call.mapError .refuse

/-- End a call: the link is left behind with the answer. -/
def finish {α : Type} (link : Link σ) : Except Fault α → EStateM.Result Fault (Link σ) α
  | .ok a => .ok a link
  | .error fault => .error fault link

/-- The cursor of a pool. -/
def readCursor (pool : String) (version : ProtocolVersion) : Linked Fault σ UInt64 := fun link =>
  { link with reads := link.reads.tail }.finish
    (answer link.reads.head?.join (Store.cursor link.store pool version))

/-- Begin a batch. -/
def begin : Linked Fault σ β := fun link =>
  { link with begins := link.begins.tail }.finish
    (answer link.begins.head?.join (Store.begin link.store))

/-- Commit a batch. -/
def commit (batch : β) : Linked Fault σ Unit := fun link =>
  let rest := { link with commits := link.commits.tail }
  match answer link.commits.head?.join (Store.commit link.store batch) with
  | .ok store => .ok () { rest with store }
  | .error fault => .error fault rest

/-- Request a page of a pool's transactions. -/
def fetch (pool : String) (after : UInt64) (limit : Nat) :
    Linked Fault σ (List StoredTransaction) := fun link =>
  let rest := { link with
    fetches := link.fetches.tail
    requests := link.requests ++ [⟨after, limit⟩] }
  match link.fetches.head?.getD .ask with
  | .ask => rest.finish (answer none (Store.fetchAfter link.store pool after limit))
  | .page rows => .ok rows rest
  | .fault fault => .error fault rest

/-- Request a page, and request it again after a refusal, so many times at most. -/
def fetchPage (pool : String) (after : UInt64) (limit : Nat) :
    Nat → Linked Fault σ (List StoredTransaction)
  | 0, link => fetch pool after limit link
  | retries + 1, link =>
    match fetch pool after limit link with
    | .error (.refuse _) link => fetchPage pool after limit retries link
    | result => result

end Link

end PoolKlines
