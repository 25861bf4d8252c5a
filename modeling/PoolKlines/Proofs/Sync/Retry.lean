import PoolKlines.Proofs.Sync.Carry
import PoolKlines.Proofs.Sync.Retrieval
import PoolKlines.Sync.Worker

/-!
# Requests that fail for a time

A request for a page that is refused is repeated, so many times at most. A cycle over a source that
refuses some requests is compared with the cycle over the source that answers at once.

* `FetchRound` is what a request for a page meets: refusals, and then the answer;
  `FetchRound.script` are the actions of some rounds, `FetchRound.answers` those without refusals,
  and `FetchRound.brings` is the page that comes in the end;
* `Indexer.Serves` says that every request is answered in the end, at all times of a cycle;
* `Link.fetchPage_script`: a request that meets no more refusals than it is repeated brings its
  answer; `Link.fetchPage_refused`: one that meets more brings a refusal;
* `Indexer.Serves.applyPages_script`: if no request meets too many refusals, the pages are applied
  as without any; `Indexer.Serves.applyPages_refused`: if one does, those before it are;
* `Indexer.RidesOut` is what follows for a cycle of a worker, and `retries_hide_failures` says that
  every cycle rides out its failures, on both stores.
-/

namespace PoolKlines

/-- What a request for a page meets: refusals, and then the answer of the store or a given page. -/
structure FetchRound where
  failures : List StoreError
  page : Option (List StoredTransaction)

namespace FetchRound

/-- The answer in the end. -/
def answer (r : FetchRound) : FetchAction :=
  match r.page with
  | none => .ask
  | some rows => .page rows

/-- The refusals, and the answer after them. -/
def actions (r : FetchRound) : List FetchAction :=
  r.failures.map (fun e => .fault (.refuse e)) ++ [r.answer]

/-- The page that a request brings in the end, where the store itself would answer with `own`. -/
def brings (own : Except StoreError (List StoredTransaction)) :
    Option FetchRound → Except StoreError (List StoredTransaction)
  | none => own
  | some r =>
    match r.page with
    | none => own
    | some rows => .ok rows

/-- What the requests of some rounds meet. -/
def script (rounds : List FetchRound) : List FetchAction := rounds.flatMap actions

/-- What they meet if none is refused. -/
def answers (rounds : List FetchRound) : List FetchAction := rounds.map answer

/-- Rounds that bring given pages, and an empty one in the end: a source apart from the store. -/
inductive Supplied : List FetchRound → Prop
  | last (failures : List StoreError) (rest : List FetchRound) :
    Supplied (⟨failures, some []⟩ :: rest)
  | next (failures : List StoreError) {page : List StoredTransaction} {rest : List FetchRound} :
    page ≠ [] → Supplied rest → Supplied (⟨failures, some page⟩ :: rest)

theorem exists_brings {own : Except StoreError (List StoredTransaction)}
    {page : List StoredTransaction} (round : Option FetchRound) (h : own = .ok page) :
    ∃ page, brings own round = .ok page := by
  subst h
  obtain _ | ⟨failures, _ | rows⟩ := round <;> exact ⟨_, rfl⟩

theorem script_cons (r : FetchRound) (rounds : List FetchRound) :
    script (r :: rounds) = r.actions ++ script rounds := List.flatMap_cons

theorem length_script_lt (r : FetchRound) (rounds : List FetchRound) :
    (script rounds).length < (script (r :: rounds)).length := by
  rw [script_cons, List.length_append, actions, List.length_append, List.length_singleton]
  omega

theorem forall_take_succ {p : FetchRound → Prop} {rounds : List FetchRound} {n : Nat} :
    (∀ r ∈ rounds.take (n + 1), p r) ↔
      (∀ r ∈ rounds.head?, p r) ∧ ∀ r ∈ rounds.tail.take n, p r := by
  cases rounds <;> simp

end FetchRound

open FetchRound (script answers)

variable {σ β : Type} [Store σ β]

/-! ### Requests -/

namespace Link

variable {link : Link σ} {name : String} {after : UInt64} {limit : Nat}
  {page : List StoredTransaction}

theorem fetch_ask (h : Store.fetchAfter link.store name after limit = .ok page)
    {fetches : List FetchAction} (hask : fetches.head?.getD .ask = .ask)
    (requests : List PageRequest) :
    fetch name after limit (link.facing fetches requests) =
      .ok page (link.facing fetches.tail (requests ++ [⟨after, limit⟩])) := by
  have hown : answer none (Store.fetchAfter link.store name after limit) = .ok page := by
    rw [h]
    rfl
  simp only [fetch, facing, hask, hown]
  rfl

theorem fetch_answer {r : FetchRound}
    (h : FetchRound.brings (Store.fetchAfter link.store name after limit) r = .ok page)
    (rest : List FetchAction) (requests : List PageRequest) :
    fetch name after limit (link.facing (r.answer :: rest) requests) =
      .ok page (link.facing rest (requests ++ [⟨after, limit⟩])) := by
  obtain ⟨failures, _ | rows⟩ := r
  · exact fetch_ask h rfl requests
  · cases h
    rfl

theorem fetchPage_of_ok {rest : Link σ}
    (h : fetch name after limit link = .ok page rest) (retries : Nat) :
    fetchPage name after limit retries link = .ok page rest := by
  cases retries with
  | zero => exact h
  | succ retries => rw [fetchPage, h]

/-- A request meets no more refusals than it is repeated. -/
theorem fetchPage_round {r : FetchRound}
    (h : FetchRound.brings (Store.fetchAfter link.store name after limit) r = .ok page)
    {retries : Nat} (hle : r.failures.length ≤ retries) (rest : List FetchAction)
    (requests : List PageRequest) :
    ∃ requests', fetchPage name after limit retries (link.facing (r.actions ++ rest) requests) =
      .ok page (link.facing rest requests') := by
  obtain ⟨failures, rows⟩ := r
  -- each refusal uses up one of the repetitions that are left
  induction failures generalizing retries requests with
  | nil => exact ⟨_, fetchPage_of_ok (fetch_answer h rest requests) retries⟩
  | cons e failures ih =>
    cases retries with
    | zero => cases hle
    | succ retries => exact ih _ h (Nat.le_of_succ_le_succ hle)

/-- A request meets more refusals than it is repeated. -/
theorem fetchPage_refused (link : Link σ) (name : String) (after : UInt64) (limit : Nat)
    {r : FetchRound} {retries : Nat} {e : StoreError} (he : r.failures[retries]? = some e)
    (rest : List FetchAction) (requests : List PageRequest) :
    ∃ fetches requests',
      fetchPage name after limit retries (link.facing (r.actions ++ rest) requests) =
        .error (.refuse e) (link.facing fetches requests') := by
  obtain ⟨failures, page⟩ := r
  induction failures generalizing retries requests with
  | nil => cases he
  | cons first failures ih =>
    cases retries with
    | zero =>
      cases he
      exact ⟨_, _, rfl⟩
    | succ retries => exact ih _ he

/-- Requests without refusals, and ones with no more refusals than they are repeated. -/
theorem fetchPage_script {rounds : List FetchRound}
    (h : FetchRound.brings (Store.fetchAfter link.store name after limit) rounds.head? = .ok page)
    (retries : Nat) :
    (∀ requests,
      fetchPage name after limit retries (link.facing (answers rounds) requests) =
        .ok page (link.facing (answers rounds.tail) (requests ++ [⟨after, limit⟩]))) ∧
    ((∀ r ∈ rounds.head?, r.failures.length ≤ retries) → ∀ requests, ∃ requests',
      fetchPage name after limit retries (link.facing (script rounds) requests) =
        .ok page (link.facing (script rounds.tail) requests')) := by
  cases rounds with
  | nil =>
    have hpage (requests : List PageRequest) :
        fetchPage name after limit retries (link.facing [] requests) =
          .ok page (link.facing [] (requests ++ [⟨after, limit⟩])) :=
      fetchPage_of_ok (fetch_ask h rfl requests) retries
    exact ⟨hpage, fun _ requests => ⟨_, hpage requests⟩⟩
  | cons r rounds =>
    refine ⟨fun requests => ?_, fun hle requests => ?_⟩
    · exact fetchPage_of_ok (fetch_answer h _ requests) retries
    · exact fetchPage_round h (hle r rfl) (script rounds) requests

end Link

/-! ### Turns -/

/-- The cycle with other actions for its requests, after other requests. -/
def CycleState.facing (s : CycleState σ) (fetches : List FetchAction)
    (requests : List PageRequest) : CycleState σ :=
  s.carry (Link.facing · fetches requests)

theorem CycleState.facing_self {s : CycleState σ} {fetches : List FetchAction}
    (h : s.link.fetches = fetches) : s.facing fetches s.link.requests = s := by
  subst h
  rfl

namespace Indexer

variable {indexer : Indexer} {pools : PoolSnapshot} {name : String} {pool : PoolConfig}
  {start : UInt64} {P : σ → List FetchRound → Prop} {s t : CycleState σ}

/-- The rows of a page leave the count of pages and the error alone. -/
theorem report_applyPage (indexer : Indexer) (pools : PoolSnapshot) (pool : PoolConfig)
    (page : List StoredTransaction) (s : CycleState σ) :
    (lastState (indexer.applyPage pools pool page s)).report.pages = s.report.pages ∧
      (lastState (indexer.applyPage pools pool page s)).report.error = s.report.error := by
  refine forM_preserves (P := fun u : CycleState σ =>
    u.report.pages = s.report.pages ∧ u.report.error = s.report.error) ?_ ⟨rfl, rfl⟩
  rintro ⟨t, position⟩ - u hu
  simp only
  rcases indexer.applyRow_cases pools pool _ t u with
    ⟨-, hrow⟩ | ⟨-, link, -, ⟨stop, hrow, -⟩ | ⟨hrow, -⟩⟩
  · rw [hrow]
    exact hu
  · rw [hrow]
    exact hu
  · rw [hrow]
    exact hu

theorem of_applyPage_ok {page : List StoredTransaction} {u : CycleState σ}
    (h : indexer.applyPage pools pool page u = .ok () t) :
    t.link.fetches = u.link.fetches ∧ t.link.requests = u.link.requests ∧
      t.report.pages = u.report.pages ∧ t.report.error = u.report.error := by
  have hkept := indexer.applyPage_keeps pools pool page u
  have hreport := indexer.report_applyPage pools pool page u
  rw [h] at hkept hreport
  exact ⟨hkept.1, hkept.2, hreport.1, hreport.2⟩

/-- A cycle that ends with a page makes no further request. -/
theorem requests_of_ended {page : List StoredTransaction} {link last : Link σ}
    (hfetch : Link.fetchPage name s.report.cursor indexer.pageSize indexer.fetchRetries s.link =
      .ok page link)
    {ending : CycleEnd} (h : indexer.turn pools name pool start s = .ended ending last) :
    last.requests = link.requests := by
  unfold turn at h
  rw [hfetch] at h
  cases page with
  | nil =>
    cases h
    rfl
  | cons first rest =>
    have hkept := (indexer.applyPage_keeps pools pool (first :: rest) ⟨link, s.report.addPage⟩).2
    simp only at h
    cases happly : indexer.applyPage pools pool (first :: rest) ⟨link, s.report.addPage⟩ with
    | error stop t =>
      rw [happly] at h hkept
      cases stop <;> cases h <;> exact hkept
    | ok u t =>
      rw [happly] at h hkept
      simp only at h
      split at h
      · cases h
      · cases h
        exact hkept

/-- Two scripts that bring the same page make turns alike, if both grow shorter or neither does. -/
theorem turn_facing (pools : PoolSnapshot) (pool : PoolConfig) (start : UInt64)
    {page : List StoredTransaction} {f g f' g' : List FetchAction} {q r q' r' : List PageRequest}
    (hfetch : Link.fetchPage name s.report.cursor indexer.pageSize indexer.fetchRetries
      (s.link.facing f q) = .ok page (s.link.facing g r))
    (hfetch' : Link.fetchPage name s.report.cursor indexer.pageSize indexer.fetchRetries
      (s.link.facing f' q') = .ok page (s.link.facing g' r'))
    (hshorter : g.length < f.length ∧ g'.length < f'.length ∨ g = f ∧ g' = f') :
    indexer.turn pools name pool start (s.facing f' q') =
      (indexer.turn pools name pool start (s.facing f q)).carry (Link.facing · g' r') := by
  refine (indexer.carries_facing g' r').turn start rfl ?_ fun page' link t hpage happly => ?_
  · show Link.fetchPage name s.report.cursor indexer.pageSize indexer.fetchRetries
      (s.link.facing f' q') = mapState _ (Link.fetchPage name s.report.cursor indexer.pageSize
        indexer.fetchRetries (s.link.facing f q))
    rw [hfetch, hfetch']
    rfl
  · have hlink : s.link.facing g r = link := by
      have hsame := hfetch.symm.trans hpage
      cases hsame
      rfl
    have hfetches : t.link.fetches = g := (of_applyPage_ok happly).1.trans (hlink ▸ rfl)
    show (g'.length < f'.length ∨ g'.length = f'.length ∧ _) ↔
      (t.link.fetches.length < f.length ∨ t.link.fetches.length = f.length ∧ _)
    rw [hfetches]
    rcases hshorter with ⟨hless, hless'⟩ | ⟨rfl, rfl⟩
    · exact iff_of_true (.inl hless') (.inl hless)
    · exact or_congr (by simp) (and_congr (by simp) Iff.rfl)

/-- Every request for a page of a pool is answered in the end, for a store and rounds with a
property that lasts as the cycle goes on. -/
structure Serves (indexer : Indexer) (name : String) (P : σ → List FetchRound → Prop) : Prop where
  keeps (rounds : List FetchRound) : indexer.CommitsKeep (P · rounds)
  ready {s : σ} {rounds : List FetchRound} (h : P s rounds) (after : UInt64) :
    ∃ page, FetchRound.brings (Store.fetchAfter s name after indexer.pageSize) rounds.head? =
        .ok page ∧
      (page ≠ [] → P s rounds.tail)

namespace Serves

variable {r : FetchRound} {rounds : List FetchRound}

/-- Without refusals, a turn makes one request, and ends the cycle or goes on to the next round. -/
theorem turn_cases (h : indexer.Serves name P) (hs : P s.link.store rounds)
    (hfetches : s.link.fetches = answers rounds) :
    (∃ ending last, indexer.turn pools name pool start s = .ended ending last ∧
      last.requests.length = s.link.requests.length + 1) ∨
    ∃ t, indexer.turn pools name pool start s = .next t ∧ P t.link.store rounds.tail ∧
      t.link.fetches = answers rounds.tail ∧
      t.link.requests.length = s.link.requests.length + 1 ∧
      t.report.pages = s.report.pages + 1 ∧ t.report.error = s.report.error := by
  obtain ⟨page, hpage, hlast⟩ := h.ready hs s.report.cursor
  obtain ⟨hsteady, -⟩ := Link.fetchPage_script hpage indexer.fetchRetries
  have hfetch : Link.fetchPage name s.report.cursor indexer.pageSize indexer.fetchRetries s.link =
      _ := hfetches ▸ hsteady s.link.requests
  cases hturn : indexer.turn pools name pool start s with
  | ended ending last =>
    refine .inl ⟨ending, last, rfl, ?_⟩
    rw [requests_of_ended hfetch hturn]
    simp [Link.facing]
  | next t =>
    obtain ⟨-, page', link, hne, hfetch', happly⟩ := of_turn_next hturn
    rw [hfetch] at hfetch'
    cases hfetch'
    obtain ⟨hscript, hrequests, hreport⟩ := of_applyPage_ok happly
    refine .inr ⟨t, rfl, (h.keeps rounds.tail).of_applyPage ?_ happly, hscript, ?_, hreport⟩
    · exact hlast hne
    · rw [hrequests]
      simp [Link.facing]

/-- Refusals make no difference to a turn if the request is repeated often enough. -/
theorem turn_script (h : indexer.Serves name P) (pools : PoolSnapshot) (pool : PoolConfig)
    (start : UInt64) (hs : P s.link.store rounds) (hfetches : s.link.fetches = answers rounds)
    (hle : ∀ r ∈ rounds.head?, r.failures.length ≤ indexer.fetchRetries)
    (requests : List PageRequest) :
    ∃ requests', indexer.turn pools name pool start (s.facing (script rounds) requests) =
      (indexer.turn pools name pool start s).carry
        (Link.facing · (script rounds.tail) requests') := by
  obtain ⟨page, hpage, -⟩ := h.ready hs s.report.cursor
  obtain ⟨hsteady, hscript⟩ := Link.fetchPage_script hpage indexer.fetchRetries
  obtain ⟨requests', hfetch'⟩ := hscript hle requests
  refine ⟨requests', ?_⟩
  rw [turn_facing pools pool start (hsteady s.link.requests) hfetch',
    CycleState.facing_self hfetches]
  cases rounds with
  | nil => exact .inr ⟨rfl, rfl⟩
  | cons r rounds => exact .inl ⟨by simp [answers], FetchRound.length_script_lt r rounds⟩

/-- What comes after the first answer makes no difference to a turn. -/
theorem turn_answer (h : indexer.Serves name P) (pools : PoolSnapshot) (pool : PoolConfig)
    (start : UInt64) (hs : P s.link.store (r :: rounds))
    (hfetches : s.link.fetches = answers (r :: rounds))
    (rest : List FetchAction) (requests : List PageRequest) :
    ∃ requests', indexer.turn pools name pool start (s.facing (r.answer :: rest) requests) =
      (indexer.turn pools name pool start s).carry (Link.facing · rest requests') := by
  obtain ⟨page, hpage, -⟩ := h.ready hs s.report.cursor
  have hfetch (rest : List FetchAction) (requests : List PageRequest) :=
    Link.fetchPage_of_ok (Link.fetch_answer hpage rest requests) indexer.fetchRetries
  have hsame : s.facing (r.answer :: answers rounds) s.link.requests = s :=
    CycleState.facing_self hfetches
  have hturn := turn_facing pools pool start
    (hfetch (answers rounds) s.link.requests) (hfetch rest requests)
    (.inl ⟨Nat.lt_succ_self _, Nat.lt_succ_self _⟩)
  rw [hsame] at hturn
  exact ⟨_, hturn⟩

/-! ### Cycles -/

/-- Without refusals, a cycle makes a request. If as many requests as it makes meet no more refusals
than they are repeated, the pages are applied as without refusals. -/
theorem applyPages_script (h : indexer.Serves name P) (pools : PoolSnapshot) (pool : PoolConfig)
    (start : UInt64) (s : CycleState σ) (rounds : List FetchRound) (hs : P s.link.store rounds)
    (hfetches : s.link.fetches = answers rounds) :
    s.link.requests.length < (indexer.applyPages pools name pool start s).2.requests.length ∧
      ((∀ r ∈ rounds.take ((indexer.applyPages pools name pool start s).2.requests.length -
          s.link.requests.length), r.failures.length ≤ indexer.fetchRetries) →
        ∀ requests, ∃ fetches requests',
          indexer.applyPages pools name pool start (s.facing (script rounds) requests) =
            ((indexer.applyPages pools name pool start s).1,
              (indexer.applyPages pools name pool start s).2.facing fetches requests')) := by
  revert rounds
  refine turns_induction indexer pools name pool start ?_ ?_ s
  · intro s ending last hturn rounds hs hfetches
    obtain ⟨_, _, hended, hrequests⟩ | ⟨t, hnext, -⟩ := h.turn_cases hs hfetches
    · rw [hturn] at hended
      cases hended
      rw [applyPages_of_ended hturn]
      refine ⟨by simp only [hrequests, Nat.lt_succ_self], fun hle requests => ?_⟩
      have hcount : last.requests.length - s.link.requests.length = 0 + 1 := by omega
      rw [hcount, FetchRound.forall_take_succ] at hle
      obtain ⟨requests', hscript⟩ := h.turn_script pools pool start hs hfetches hle.1 requests
      rw [hturn] at hscript
      exact ⟨_, _, applyPages_of_ended hscript⟩
    · rw [hturn] at hnext
      cases hnext
  · intro s t hturn ih rounds hs hfetches
    obtain ⟨_, _, hended, -⟩ | ⟨_, hnext, ht, htfetches, hrequests, -⟩ := h.turn_cases hs hfetches
    · rw [hturn] at hended
      cases hended
    · rw [hturn] at hnext
      cases hnext
      obtain ⟨hmore, hrest⟩ := ih rounds.tail ht htfetches
      rw [applyPages_of_next hturn]
      refine ⟨by omega, fun hle requests => ?_⟩
      -- this turn made one request, so what is said of the others is said of the rounds after it
      have hcount : (indexer.applyPages pools name pool start t).2.requests.length -
          s.link.requests.length = (indexer.applyPages pools name pool start t).2.requests.length -
          t.link.requests.length + 1 := by omega
      rw [hcount, FetchRound.forall_take_succ] at hle
      obtain ⟨requests', hscript⟩ := h.turn_script pools pool start hs hfetches hle.1 requests
      rw [hturn] at hscript
      obtain ⟨fetches, requests'', happly⟩ := hrest hle.2 requests'
      refine ⟨fetches, requests'', ?_⟩
      rw [applyPages_of_next hscript]
      exact happly

/-- If a request that the cycle makes meets more refusals than it is repeated, and those before it
do not, the pages before it are applied as by a cycle for which the source ends with them. -/
theorem applyPages_refused (h : indexer.Serves name P) (pools : PoolSnapshot) (pool : PoolConfig)
    (start : UInt64) {s : CycleState σ} {before after : List FetchRound} {e : StoreError}
    (hs : P s.link.store (before ++ r :: after))
    (hfetches : s.link.fetches = answers (before ++ r :: after))
    (hreached : s.link.requests.length + before.length <
      (indexer.applyPages pools name pool start s).2.requests.length)
    (hbefore : ∀ b ∈ before, b.failures.length ≤ indexer.fetchRetries)
    (he : r.failures[indexer.fetchRetries]? = some e) (requests requests' : List PageRequest) :
    ∃ report last fetches requests'',
      indexer.applyPages pools name pool start
          (s.facing (answers before ++ [.page []]) requests) = (.report report, last) ∧
        report.error = s.report.error ∧ report.pages = s.report.pages + before.length ∧
        indexer.applyPages pools name pool start
            (s.facing (script (before ++ r :: after)) requests') =
          (.report { report with cursor := start, error := some (.fetch e) },
            last.facing fetches requests'') := by
  induction before generalizing s requests requests' with
  | nil =>
    -- where this cycle is refused, the other one finds an empty page
    obtain ⟨fetches, requests'', hrefused⟩ := s.link.fetchPage_refused name s.report.cursor
      indexer.pageSize he (script after) requests'
    have hended : Link.fetch name s.report.cursor indexer.pageSize
        (s.link.facing [.page []] requests) = .ok [] _ := rfl
    refine ⟨_, _, fetches, requests'',
      applyPages_of_nil start (Link.fetchPage_of_ok hended indexer.fetchRetries), rfl, rfl, ?_⟩
    exact applyPages_of_refuse start hrefused
  | cons b before ih =>
    obtain ⟨hb, hbefore⟩ := List.forall_mem_cons.1 hbefore
    rw [List.length_cons] at hreached
    obtain ⟨_, _, hended, hrequests⟩ | ⟨t, hturn, ht, htfetches, hrequests, hpages, herror⟩ :=
      h.turn_cases hs hfetches
    · rw [applyPages_of_ended hended, hrequests] at hreached
      omega
    · rw [applyPages_of_next hturn] at hreached
      obtain ⟨q, hcut⟩ := h.turn_answer pools pool start hs hfetches
        (answers before ++ [.page []]) requests
      obtain ⟨q', hscript⟩ := h.turn_script pools pool start hs hfetches (by simpa using hb)
        requests'
      rw [hturn] at hcut hscript
      obtain ⟨report, last, fetches, requests'', hclean, hreport, hcount, hrefused⟩ :=
        ih ht htfetches (by omega) hbefore q q'
      refine ⟨report, last, fetches, requests'', ?_, hreport.trans herror, ?_, ?_⟩
      · exact (applyPages_of_next hcut).trans hclean
      · rw [hcount, hpages, List.length_cons]
        omega
      · exact (applyPages_of_next hscript).trans hrefused

end Serves

/-- A cycle that cannot read its cursor ends alike whatever requests would meet; one that can
applies pages. -/
theorem runCycle_facing_cases (indexer : Indexer) (pools : PoolSnapshot) (name : String)
    (link : Link σ) :
    (∃ (ending : CycleEnd) (last : Link σ), ∀ fetches requests,
      indexer.runCycle pools name (link.facing fetches requests) =
        (ending, last.facing fetches requests)) ∨
    ∃ (pool : PoolConfig) (cursor : UInt64) (s : CycleState σ), pools.find? name = some pool ∧
      Store.cursor link.store pool.address pool.version = .ok cursor ∧
      s.link.store = link.store ∧ s.report = { CycleReport.empty with cursor } ∧
      ∀ fetches requests, indexer.runCycle pools name (link.facing fetches requests) =
        indexer.applyPages pools name pool cursor (s.facing fetches requests) := by
  unfold runCycle
  cases pools.find? name with
  | none => exact .inl ⟨_, link, fun _ _ => rfl⟩
  | some pool =>
    simp only [Link.readCursor_facing]
    cases hread : Link.readCursor pool.address pool.version link with
    | error fault rest => cases fault <;> exact .inl ⟨_, rest, fun _ _ => rfl⟩
    | ok cursor rest =>
      obtain ⟨hstore, hcursor⟩ := Link.of_readCursor_ok hread
      exact .inr ⟨pool, cursor, ⟨rest, _⟩, rfl, hcursor, hstore, rfl, fun _ _ => rfl⟩

end Indexer

/-- The worker after a cycle. -/
def Worker.next (worker : Worker) : CycleEnd → Worker
  | .report report => worker.addReport report
  | .aborted => worker
  | .endless => worker

theorem Worker.addReport_of_not_stalled {worker : Worker} {report : CycleReport}
    (h : report.stalled = false) : worker.addReport report = worker := by
  rw [addReport, h]
  rfl

theorem Worker.cycle_of_runCycle {worker : Worker} {indexer : Indexer} {pools : PoolSnapshot}
    {link last : Link σ} {ending : CycleEnd}
    (h : indexer.runCycle pools worker.pool link = (ending, last)) :
    worker.cycle indexer pools link = (ending, worker.next ending, last) := by
  unfold cycle
  rw [h]
  cases ending <;> rfl

/-- A cycle of a worker whose requests meet what a script says. -/
def Worker.cycleOver (worker : Worker) (indexer : Indexer) (pools : PoolSnapshot) (link : Link σ)
    (fetches : List FetchAction) : CycleEnd × Worker × Link σ :=
  worker.cycle indexer pools (link.facing fetches [])

/-- A durable store whose rows can be read answers every request. -/
theorem Database.Readable.exists_fetchAfter {s : DurableStore} (h : s.database.Readable)
    (name : String) (after : UInt64) (limit : Nat) :
    ∃ page, Store.fetchAfter s name after limit = .ok page := by
  cases hpage : Store.fetchAfter s name after limit with
  | ok page => exact ⟨page, rfl⟩
  | error e =>
    obtain ⟨r, hr, hnone⟩ := TransactionRow.exists_of_storedAll_error hpage
    obtain ⟨u, hu⟩ := h.read (Database.mem_of_mem_rowsAfter hr).1
    exact absurd hu (hnone u)

namespace Indexer

/-- A cycle of a worker over a source that refuses some requests, held against the cycle over the
source that answers at once. -/
structure RidesOut (indexer : Indexer) (pools : PoolSnapshot) (worker : Worker) (link : Link σ)
    (rounds : List FetchRound) : Prop where
  /-- If no request that the cycle makes meets more refusals than it is repeated, the cycle ends as
  without refusals, and leaves the same worker and, apart from what requests meet, the same link. -/
  hidden
    (hwithin : ∀ r ∈ rounds.take
      (worker.cycleOver indexer pools link (answers rounds)).2.2.requests.length,
        r.failures.length ≤ indexer.fetchRetries) :
    ∃ fetches requests, worker.cycleOver indexer pools link (script rounds) =
      ((worker.cycleOver indexer pools link (answers rounds)).1,
        (worker.cycleOver indexer pools link (answers rounds)).2.1,
        (worker.cycleOver indexer pools link (answers rounds)).2.2.facing fetches requests)
  /-- If a request that the cycle makes is the first to meet more, the cycle ends with the error of
  its last try and without a stall, as a cycle would that found nothing after the pages before. -/
  exhausted {before after : List FetchRound} {r : FetchRound}
    (hrounds : rounds = before ++ r :: after)
    (hreached : before.length <
      (worker.cycleOver indexer pools link (answers rounds)).2.2.requests.length)
    (hbefore : ∀ b ∈ before, b.failures.length ≤ indexer.fetchRetries)
    (hmore : indexer.fetchRetries < r.failures.length) :
    ∃ (report : CycleReport) (last : Link σ) (fetches : List FetchAction)
      (requests : List PageRequest) (start : UInt64) (e : StoreError),
      r.failures[indexer.fetchRetries]? = some e ∧
      worker.cycleOver indexer pools link (answers before ++ [.page []]) =
        (.report report, worker, last) ∧
      report.error = none ∧ report.pages = before.length ∧
      worker.cycleOver indexer pools link (script rounds) =
        (.report { report with cursor := start, error := some (.fetch e) }, worker,
          last.facing fetches requests) ∧
      CycleReport.stalled { report with cursor := start, error := some (.fetch e) } = false ∧
      ∀ pool, pools.find? worker.pool = some pool →
        Store.cursor link.store pool.address pool.version = .ok start

variable {indexer : Indexer} {P : σ → List FetchRound → Prop}

/-- Cycles whose requests are answered in the end ride out failures. -/
theorem Serves.ridesOut {worker : Worker} (h : indexer.Serves worker.pool P) (pools : PoolSnapshot)
    {link : Link σ} {rounds : List FetchRound} (hs : P link.store rounds) :
    indexer.RidesOut pools worker link rounds := by
  obtain ⟨ending, last, hcycle⟩ | ⟨pool, cursor, s, hpool, hcursor, hstore, hreport, hcycle⟩ :=
    indexer.runCycle_facing_cases pools worker.pool link
  · -- no request is made
    have hover (fetches : List FetchAction) : worker.cycleOver indexer pools link fetches =
        (ending, worker.next ending, last.facing fetches []) :=
      Worker.cycle_of_runCycle (hcycle fetches [])
    refine ⟨fun _ => ⟨script rounds, [], ?_⟩, fun _ hreached => ?_⟩
    · rw [hover, hover]
      rfl
    · rw [hover] at hreached
      cases hreached
  · have hover (fetches : List FetchAction) {ending : CycleEnd} {last : Link σ}
        (happly : indexer.applyPages pools worker.pool pool cursor (s.facing fetches []) =
          (ending, last)) :
        worker.cycleOver indexer pools link fetches = (ending, worker.next ending, last) :=
      Worker.cycle_of_runCycle ((hcycle fetches []).trans happly)
    have hclean := hover (answers rounds) rfl
    have hanswers : P (s.facing (answers rounds) []).link.store rounds := hstore.symm ▸ hs
    refine ⟨fun hwithin => ?_, ?_⟩
    · rw [hclean] at hwithin ⊢
      obtain ⟨fetches, requests, happly⟩ :=
        (h.applyPages_script pools pool cursor _ rounds hanswers rfl).2 hwithin []
      exact ⟨fetches, requests, hover _ happly⟩
    · rintro before after r rfl hreached hbefore hmore
      rw [hclean] at hreached
      have he := List.getElem?_eq_getElem hmore
      obtain ⟨report, last, fetches, requests, hcut, herror, hpages, hrefused⟩ :=
        h.applyPages_refused pools pool cursor hanswers rfl ((Nat.zero_add _).symm ▸ hreached)
          hbefore he [] []
      have hnone : report.error = none := herror.trans (congrArg CycleReport.error hreport)
      have hcount : report.pages = before.length :=
        hpages.trans ((congrArg (·.pages + before.length) hreport).trans (Nat.zero_add _))
      have hover_cut := hover _ hcut
      have hover_refused := hover _ hrefused
      rw [Worker.next, Worker.addReport_of_not_stalled (by simp [CycleReport.stalled, hnone])]
        at hover_cut
      rw [Worker.next, Worker.addReport_of_not_stalled rfl] at hover_refused
      refine ⟨report, last, fetches, requests, cursor, _, he, hover_cut, hnone, hcount,
        hover_refused, rfl, fun other hother => ?_⟩
      cases hpool.symm.trans hother
      exact hcursor

/-! ### Both stores -/

/-- A store in memory answers every request. -/
theorem serves_memory (indexer : Indexer) (name : String) :
    indexer.Serves name fun (_ : MemoryStore) _ => True where
  keeps _ _ _ _ _ _ _ _ := trivial
  ready {s rounds} _ after := by
    obtain ⟨page, hpage⟩ := FetchRound.exists_brings rounds.head?
      (show Store.fetchAfter s name after indexer.pageSize = .ok _ from rfl)
    exact ⟨page, hpage, fun _ => trivial⟩

/-- A durable store whose rows can be read answers every request, and one whose rows cannot is not
asked if other pages are given. -/
theorem serves_durable (indexer : Indexer) (name : String) :
    indexer.Serves name fun (s : DurableStore) rounds =>
      s.database.Readable ∨ FetchRound.Supplied rounds where
  keeps rounds pools pool s t s' h hcommits :=
    h.imp_left (StoreUse.commitsKeep (Database.ReadsBut.keptByTable []) indexer
      pools pool s t s' · hcommits)
  ready {s rounds} h after := by
    obtain hreadable | ⟨failures, rest⟩ | ⟨failures, -, hrest⟩ := h
    · obtain ⟨own, hown⟩ := hreadable.exists_fetchAfter name after indexer.pageSize
      obtain ⟨page, hpage⟩ := FetchRound.exists_brings rounds.head? hown
      exact ⟨page, hpage, fun _ => .inl hreadable⟩
    · exact ⟨[], rfl, fun hne => absurd rfl hne⟩
    · exact ⟨_, rfl, fun _ => .inr hrest⟩

end Indexer

/-- **Retries hide failures.** A worker runs a cycle over a source that answers every request in the
end, which is the store or one that brings any pages of its own; but requests may be refused before
they are answered. As long as no request that the cycle makes meets more refusals than it is
repeated, the cycle ends as without refusals and leaves the same worker and the same store. If one
meets more, the cycle ends with the last refusal as its error and without a stall; exactly the pages
before that request were applied, and the cursor that is reported is the one at which the cycle
began. Reads of the cursor and batches may go wrong as they like. -/
theorem retries_hide_failures (indexer : Indexer) (pools : PoolSnapshot) (worker : Worker)
    (rounds : List FetchRound) :
    (∀ link : Link MemoryStore, indexer.RidesOut pools worker link rounds) ∧
      ∀ link : Link DurableStore,
        link.store.database.Readable ∨ FetchRound.Supplied rounds →
          indexer.RidesOut pools worker link rounds :=
  ⟨fun _ => (indexer.serves_memory worker.pool).ridesOut pools trivial,
    fun _ h => (indexer.serves_durable worker.pool).ridesOut pools h⟩

/-- One refusal is hidden by one retry, two are not. -/
theorem retries_hide_failures_once :
    let indexer := { plainIndexer with fetchRetries := 1 }
    let pools := PoolSnapshot.ofPools [plainPool]
    let worker := Worker.ofPool "pool"
    let link := Link.ofStore (DurableStore.empty 1)
    let down := StoreError.unavailable "down"
    let once : List FetchRound := [⟨[down], some []⟩]
    let twice : List FetchRound := [⟨[down, .unavailable "still down"], some []⟩]
    link.store.database.Readable ∧
      (worker.cycleOver indexer pools link (script once)).1 =
        (worker.cycleOver indexer pools link (answers once)).1 ∧
      ∃ report last, worker.cycleOver indexer pools link (script twice) =
          (.report report, worker, last) ∧
        report.error = some (.fetch (.unavailable "still down")) := by
  intro indexer pools worker link down once twice
  have hreadable : link.store.database.Readable := nofun
  have hpool : pools.find? "pool" = some plainPool := by decide
  obtain ⟨ending, last, hclean, hrequests⟩ : ∃ ending last,
      indexer.runCycle pools "pool" (link.facing (answers twice) []) = (ending, last) ∧
        last.requests = [⟨0, 1⟩] := by
    unfold Indexer.runCycle
    rw [hpool]
    exact ⟨_, _, Indexer.applyPages_of_nil 0 rfl, rfl⟩
  have hreached :
      0 < (worker.cycleOver indexer pools link (answers twice)).2.2.requests.length := by
    rw [Worker.cycleOver, Worker.cycle_of_runCycle hclean, hrequests]
    exact Nat.zero_lt_one
  obtain ⟨hidden, -⟩ := (retries_hide_failures indexer pools worker once).2 link (.inl hreadable)
  obtain ⟨-, exhausted⟩ :=
    (retries_hide_failures indexer pools worker twice).2 link (.inl hreadable)
  obtain ⟨fetches, requests, hsame⟩ := hidden fun r hr => by
    rw [List.mem_singleton.1 (List.mem_of_mem_take hr)]
    exact Nat.le_refl 1
  obtain ⟨report, last, fetches, requests, start, e, he, -, -, -, hrefused, -⟩ :=
    exhausted (List.nil_append twice).symm hreached nofun (Nat.lt_succ_self 1)
  cases he
  exact ⟨hreadable, (congrArg Prod.fst hsame :), _, _, hrefused, rfl⟩

end PoolKlines
