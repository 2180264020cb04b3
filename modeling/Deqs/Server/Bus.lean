/-
# The message bus of a server

Two kinds of thread write to the message bus, and neither does so under the lock of the
book:

| thread | changes the book | writes to the bus |
| :-- | :-- | :-- |
| `submit_quotes_impl` | in its parallel map | after the map, one message for each quote |
| `DbFetcherThread` | a key image or a tombstone pass at a time | afterwards, in the callback |
| `handle_sci_quote_added`, `sync_quotes_from_peer` | in `add_sci` | never |

So the server is a step function over the synchronized book (`Sync.State`), with the calls
of `submit_quotes_impl` and the tasks of the peers that run on it, the quotes that the
callback has still to send, and the bus: the list of all that has been sent, which loses
nothing and keeps the order.

**What a step is** (`moves_of_step`): it sends nothing and fetches nothing, or it announces a
result, or the fetcher moves, or the callback sends.  From the four cases follows the
balance of the server (`Balanced.countP`): what was announced and what was not is what is in
the book, on its way out, or announced as removed.
-/
import Deqs.Sync.Accounting
import Deqs.Server.Node

namespace Deqs

open Sync (Ledger Block AddCall)

/-! ## The server -/

/-- One closure of the parallel map of `submit_quotes_impl`. -/
inductive Task where
  | waiting (sci : SignedContingentInput)
  /-- In `add_quote`. -/
  | adding
  | returned (r : Outcome Error Quote)
deriving DecidableEq

inductive Submission where
  /-- In the parallel map. -/
  | mapping (timestamp : UInt64) (tasks : List Task)
  /-- In the loop over the results: the response so far and the results still to come. -/
  | sending (resp : SubmitQuotesResponse) (results : List (Except Error Quote))
  /-- Over.  `lost` are the quotes it has inserted and will not announce. -/
  | finished (r : Outcome RpcStatus SubmitQuotesResponse) (lost : List Quote)
deriving DecidableEq

/-- Who calls `add_quote`: the task `i` of the submission `j`, or a task for a peer. -/
inductive Caller where
  | task (j i : Nat)
  | peer (k : Nat)
deriving DecidableEq

/-- The number of the call in the synchronized book. -/
def Caller.call : Caller → Nat
  | .task j i => 2 * Nat.pair j i
  | .peer k => 2 * k + 1

namespace Task

/-- After `Quote::new`: on to `add_quote`, or out with the error. -/
def ofOffer : Outcome Error Quote → Task
  | .ok _ => .adding
  | .err e => .returned (.err e)
  | .panic m => .returned (.panic m)

/-- After a step of the call of `add_quote`: when it has returned, `add_sci` returns the
quote it was called with. -/
def ofStep (before after : AddCall) : Task :=
  match before.quote?, after with
  | some quote, .done r => .returned (r.map fun _ => quote)
  | _, _ => .adding

def result : Task → Option (Outcome Error Quote)
  | .returned r => some r
  | _ => none

def inserted (task : Task) : List Quote := (ClientService.created task.result).toList

end Task

namespace Submission

/-- `submit_quotes_impl` up to the parallel map. -/
def ofRequest (svc : ClientService) (clock : Option UInt64) (req : SubmitQuotesRequest) :
    Submission :=
  if MAX_SIMULTANEOUS_QUOTES ≤ req.quotes.length then
    .finished (.err (.invalidArgument "Too many quotes"
      (.inl (.implementationSpecific "Too many quotes in one request")))) []
  else
    match clock with
    | none => .finished (.err (.internal "submit_quotes")) []
    | some timestamp =>
        match req.quotes.mapM svc.codec.ofApi with
        | .error e => .finished (.err (.invalidArgument "quotes" (.inr e))) []
        | .ok scis => .mapping timestamp (scis.map .waiting)

/-- `collect`.  A panic of a task is the panic of the call, once no task is running; those
that wait may then never run. -/
def collect (tasks : List Task) : Option Submission :=
  if .adding ∈ tasks then none
  else
    match (tasks.map Task.result).findSome? ClientService.panicOf with
    | some m => some (.finished (.panic m) (tasks.flatMap Task.inserted))
    | none => ((tasks.map Task.result).mapM ClientService.returned).map (.sending ⟨[], [], []⟩)

def unannounced : Submission → List Quote
  | .mapping _ tasks => tasks.flatMap Task.inserted
  | .sending _ results => results.filterMap ClientService.createdOf
  | .finished _ lost => lost

end Submission

/-- The server.  `outbox` is what the callback of the fetcher has still to send; `peers k` are
the quotes the peer task `k` has still to add.  The last field is for the statements only:
the quotes in the book that no submission brought. -/
structure Server where
  sync : Sync.State
  submissions : List Submission
  peers : Nat → List Quote
  outbox : List Quote
  bus : List Msg
  silent : List Quote

inductive ServerAction where
  /-- The ledger grows. -/
  | append (block : Block)
  | submitQuotes (clock : Option UInt64) (req : SubmitQuotesRequest)
  /-- A task of a submission starts. -/
  | startTask (j i : Nat)
  /-- One step of `add_quote`, for a task of a submission. -/
  | advanceTask (j i : Nat) (fault : Option String)
  /-- The end of the parallel map. -/
  | collect (j : Nat)
  /-- One turn of the loop over the results. -/
  | respond (j : Nat)
  | handleSciQuoteAdded (k : Nat) (remoteQuote : Quote)
  | syncQuotesFromPeer (k : Nat) (answers : List (Except String (Option Quote)))
  /-- That task turns to the next quote. -/
  | nextQuote (k : Nat)
  /-- One step of `add_quote`, for a peer. -/
  | advancePeer (k : Nat) (fault : Option String)
  /-- One step of the fetcher. -/
  | fetch (fault : Option String)
  /-- One turn of the loop of the callback. -/
  | sendRemoved
  | requestStop
  | rehash (scis : AssocMap Pair (List Quote))

/-- A caller comes to `add_quote` with what `Quote::new` returned. -/
def Sync.State.enter (sync : Sync.State) (c : Nat) (o : Outcome Error Quote) :
    Option Sync.State :=
  match sync.calls c with
  | .idle | .done _ => some { sync with calls := Function.update sync.calls c (.ofOffer o) }
  | _ => none

namespace Server

def initial (ledger : Ledger) (book : InMemoryQuoteBook) : Server where
  sync := .initial ledger book
  submissions := []
  peers := fun _ => []
  outbox := []
  bus := []
  silent := book.quotes

def stepTask (s : Server) (j i : Nat) (f : UInt64 → Task → Option (Sync.State × Task)) :
    Option Server :=
  match s.submissions[j]? with
  | some (.mapping timestamp tasks) =>
      match tasks[i]? with
      | some task =>
          (f timestamp task).map fun (sync, task) =>
            { s with
              sync
              submissions := s.submissions.set j (.mapping timestamp (tasks.set i task)) }
      | none => none
  | _ => none

def step (svc : ClientService) (s : Server) : ServerAction → Option Server
  | .append block => (s.sync.step svc.mc (.append block)).map fun sync => { s with sync }
  | .submitQuotes clock req =>
      some { s with submissions := s.submissions ++ [.ofRequest svc clock req] }
  | .startTask j i => s.stepTask j i fun timestamp task =>
      match task with
      | .waiting sci =>
          (s.sync.enter (Caller.task j i).call (svc.offer timestamp sci)).map fun sync =>
            (sync, .ofOffer (svc.offer timestamp sci))
      | _ => none
  | .advanceTask j i fault => s.stepTask j i fun _ task =>
      match task with
      | .adding =>
          let c := (Caller.task j i).call
          (s.sync.advance c fault).map fun sync =>
            (sync, .ofStep (s.sync.calls c) (sync.calls c))
      | _ => none
  | .collect j =>
      match s.submissions[j]? with
      | some (.mapping _ tasks) =>
          (Submission.collect tasks).map fun sub =>
            { s with submissions := s.submissions.set j sub }
      | _ => none
  | .respond j =>
      match s.submissions[j]? with
      | some (.sending resp (r :: results)) =>
          let (resp, msgs) := svc.pushResult (resp, []) r
          some { s with
            submissions := s.submissions.set j (.sending resp results)
            bus := s.bus ++ msgs }
      | some (.sending resp []) =>
          some { s with submissions := s.submissions.set j (.finished (.ok resp) []) }
      | _ => none
  | .handleSciQuoteAdded k remoteQuote =>
      match s.peers k with
      | [] =>
          (s.sync.enter (Caller.peer k).call (peerOffer svc.mc remoteQuote)).map fun sync =>
            { s with sync }
      | _ :: _ => none
  | .syncQuotesFromPeer k answers =>
      match s.peers k with
      | [] => some { s with peers := Function.update s.peers k (answeredQuotes answers) }
      | _ :: _ => none
  | .nextQuote k =>
      match s.peers k with
      | [] => none
      | remoteQuote :: rest =>
          (s.sync.enter (Caller.peer k).call (peerOffer svc.mc remoteQuote)).map fun sync =>
            { s with sync, peers := Function.update s.peers k rest }
  | .advancePeer k fault =>
      let c := (Caller.peer k).call
      (s.sync.advance c fault).map fun sync =>
        { s with
          sync
          silent := (Task.ofStep (s.sync.calls c) (sync.calls c)).inserted ++ s.silent }
  | .fetch fault =>
      -- the callback runs on the fetcher's own thread
      match s.outbox with
      | [] => (s.sync.fetch svc.mc fault).map fun sync =>
          { s with sync, outbox := s.sync.fetcher.inHand }
      | _ :: _ => none
  | .sendRemoved =>
      match s.outbox with
      | [] => none
      | quote :: outbox => some { s with outbox, bus := s.bus ++ [.sciQuoteRemoved quote] }
  | .requestStop => (s.sync.step svc.mc .requestStop).map fun sync => { s with sync }
  | .rehash scis => (s.sync.step svc.mc (.rehash scis)).map fun sync => { s with sync }

/-- The quotes that submissions have inserted and not announced. -/
def unannounced (s : Server) : List Quote := s.submissions.flatMap Submission.unannounced

end Server

/-! ## The two halves of the bus -/

def Msg.added? : Msg → Option Quote
  | .sciQuoteAdded quote => some quote
  | .sciQuoteRemoved _ => none

def Msg.removed? : Msg → Option Quote
  | .sciQuoteAdded _ => none
  | .sciQuoteRemoved quote => some quote

def announced (msgs : List Msg) : List Quote := msgs.filterMap Msg.added?

def retracted (msgs : List Msg) : List Quote := msgs.filterMap Msg.removed?

theorem announced_append (msgs msgs' : List Msg) :
    announced (msgs ++ msgs') = announced msgs ++ announced msgs' := List.filterMap_append

theorem retracted_append (msgs msgs' : List Msg) :
    retracted (msgs ++ msgs') = retracted msgs ++ retracted msgs' := List.filterMap_append

@[simp] theorem announced_added (q : Quote) : announced [.sciQuoteAdded q] = [q] := rfl

@[simp] theorem announced_removed (q : Quote) : announced [.sciQuoteRemoved q] = [] := rfl

@[simp] theorem retracted_added (q : Quote) : retracted [.sciQuoteAdded q] = [] := rfl

@[simp] theorem retracted_removed (q : Quote) : retracted [.sciQuoteRemoved q] = [q] := rfl

theorem announced_map (qs : List Quote) : announced (qs.map .sciQuoteAdded) = qs := by
  induction qs with
  | nil => rfl
  | cons q qs ih => exact congrArg (q :: ·) ih

theorem retracted_map (qs : List Quote) : retracted (qs.map .sciQuoteAdded) = [] := by
  induction qs with
  | nil => rfl
  | cons q qs ih => exact ih

/-! ## What the steps do to the quotes -/

/-- Of the quotes nothing but `new` comes in, and nothing goes out. -/
structure Arrives (sync sync' : Sync.State) (new : List Quote) : Prop where
  flow : Sync.Flow sync sync' new [] []
  fetcher : sync'.fetcher = sync.fetcher
  handed : sync'.handed = sync.handed

theorem arrives_still {sync sync' : Sync.State} (hb : sync'.book.quotes.Perm sync.book.quotes)
    (hi : sync'.inserted = sync.inserted) (hf : sync'.fetched = sync.fetched)
    (ha : sync'.apiRemoved = sync.apiRemoved) (hfetcher : sync'.fetcher = sync.fetcher)
    (hhanded : sync'.handed = sync.handed) : Arrives sync sync' [] :=
  ⟨Sync.flow_still hb hi hf ha, hfetcher, hhanded⟩

theorem Arrives.refl (sync : Sync.State) : Arrives sync sync [] :=
  arrives_still (.refl _) rfl rfl rfl rfl rfl

theorem arrives_enter {sync sync' : Sync.State} {c : Nat} {o : Outcome Error Quote}
    (h : sync.enter c o = some sync') : Arrives sync sync' [] := by
  unfold Sync.State.enter at h
  split at h
  · obtain rfl := Option.some.inj h
    exact arrives_still (.refl _) rfl rfl rfl rfl rfl
  · obtain rfl := Option.some.inj h
    exact arrives_still (.refl _) rfl rfl rfl rfl rfl
  · cases h

/-- A task has inserted nothing as long as `add_quote` has not returned `Ok`. -/
theorem Task.inserted_ofStep {before after : AddCall} (h : after ≠ .done (.ok ())) :
    (Task.ofStep before after).inserted = [] := by
  unfold Task.ofStep
  split
  · next quote r _ =>
      cases r with
      | ok u => exact absurd rfl h
      | err e => rfl
      | panic m => rfl
  · rfl

/-- **A step of a call** brings in the quote that `add_sci` is about to return, if it has
inserted one. -/
theorem arrives_advance {sync sync' : Sync.State} {c : Nat} {fault : Option String}
    (h : sync.advance c fault = some sync') :
    Arrives sync sync' (Task.ofStep (sync.calls c) (sync'.calls c)).inserted := by
  have hsame : sync'.fetcher = sync.fetcher ∧ sync'.handed = sync.handed := by
    rcases Sync.State.advance_cases h with ⟨quote, n, -, rfl⟩ | ⟨c', -, rfl⟩
    · exact ⟨rfl, rfl⟩
    · exact ⟨rfl, rfl⟩
  refine ⟨?_, hsame.1, hsame.2⟩
  rcases Sync.flow_of_advance h with ⟨quote, n, hbefore, hafter, hflow⟩ | ⟨hafter, hflow⟩
  · rw [hbefore, hafter]
    exact hflow
  · rw [Task.inserted_ofStep hafter]
    exact hflow

theorem Submission.unannounced_ofRequest (svc : ClientService) (clock : Option UInt64)
    (req : SubmitQuotesRequest) : (Submission.ofRequest svc clock req).unannounced = [] := by
  unfold ofRequest
  split
  · rfl
  · split
    · rfl
    · split
      · rfl
      · next scis _ =>
          show (scis.map Task.waiting).flatMap Task.inserted = []
          rw [List.flatMap_map]
          exact List.flatMap_eq_nil_iff.mpr fun _ _ => rfl

/-- What the tasks have inserted is what the loop over the results will announce. -/
theorem Submission.unannounced_collect {tasks : List Task} {sub : Submission}
    (h : Submission.collect tasks = some sub) :
    sub.unannounced = tasks.flatMap Task.inserted := by
  unfold collect at h
  split at h
  · cases h
  · split at h
    · obtain rfl := Option.some.inj h
      rfl
    · obtain ⟨results, hresults, rfl⟩ := Option.map_eq_some_iff.mp h
      show results.filterMap ClientService.createdOf = _
      rw [ClientService.filterMap_created hresults, List.filterMap_map,
        List.filterMap_eq_flatMap_toList]
      rfl

theorem ClientService.pushResult_msgs (svc : ClientService) (resp : SubmitQuotesResponse)
    (r : Except Error Quote) :
    (svc.pushResult (resp, []) r).2 = (createdOf r).toList.map .sciQuoteAdded := by
  cases r with
  | ok q => rfl
  | error e => cases e <;> rfl

namespace Server

variable {svc : ClientService} {s s' : Server}

theorem unannounced_set {j : Nat} {sub sub' : Submission} {new : List Quote}
    (hj : s.submissions[j]? = some sub) (h : sub'.unannounced.Perm (new ++ sub.unannounced)) :
    ((s.submissions.set j sub').flatMap Submission.unannounced).Perm
      (new ++ s.unannounced) := by
  have hset := ParMap.flatMap_set Submission.unannounced (y := sub') hj
  refine List.perm_iff_count.mpr ?_
  intro x
  have hcount := hset.count_eq x
  have hnew := h.count_eq x
  simp only [List.count_append, unannounced] at hcount hnew ⊢
  omega

theorem stepTask_some {j i : Nat} {f : UInt64 → Task → Option (Sync.State × Task)}
    (h : s.stepTask j i f = some s') :
    ∃ timestamp tasks task sync task', s.submissions[j]? = some (.mapping timestamp tasks) ∧
      tasks[i]? = some task ∧ f timestamp task = some (sync, task') ∧
      s' = { s with
        sync
        submissions := s.submissions.set j (.mapping timestamp (tasks.set i task')) } := by
  unfold stepTask at h
  split at h
  · next timestamp tasks hj =>
      split at h
      · next task hi =>
          obtain ⟨⟨sync, task'⟩, hf, rfl⟩ := Option.map_eq_some_iff.mp h
          exact ⟨timestamp, tasks, task, sync, task', hj, hi, hf, rfl⟩
      · cases h
  · cases h

theorem unannounced_setTask {tasks : List Task} {i : Nat} {task : Task}
    (hi : tasks[i]? = some task) (hnone : task.inserted = []) (task' : Task)
    (timestamp : UInt64) :
    (Submission.mapping timestamp (tasks.set i task')).unannounced.Perm
      (task'.inserted ++ (Submission.mapping timestamp tasks).unannounced) := by
  have hset := ParMap.flatMap_set Task.inserted (y := task') hi
  rw [hnone] at hset
  exact hset

/-- **What a step is**, for the quotes and the bus: it sends nothing and fetches nothing, or
it announces a result, or the fetcher moves, or the callback sends. -/
inductive Moves (svc : ClientService) (s : Server) : ServerAction → Server → Prop
  | quiet {a : ServerAction} {s' : Server} {new : List Quote} :
      Arrives s.sync s'.sync new → s'.bus = s.bus → s'.outbox = s.outbox →
      (s'.unannounced ++ s'.silent).Perm (new ++ (s.unannounced ++ s.silent)) →
      (s.submissions = [] → s'.submissions = [] ∨ ∃ clock req, a = .submitQuotes clock req) →
      Moves svc s a s'
  | announce {j : Nat} {resp resp' : SubmitQuotesResponse} {r : Except Error Quote}
      {results : List (Except Error Quote)} :
      s.submissions[j]? = some (.sending resp (r :: results)) →
      Moves svc s (.respond j) { s with
        submissions := s.submissions.set j (.sending resp' results)
        bus := s.bus ++ (ClientService.createdOf r).toList.map .sciQuoteAdded }
  | fetch {fault : Option String} {sync : Sync.State} :
      s.outbox = [] → s.sync.fetch svc.mc fault = some sync →
      Moves svc s (.fetch fault) { s with sync, outbox := s.sync.fetcher.inHand }
  | sendRemoved {q : Quote} {outbox : List Quote} : s.outbox = q :: outbox →
      Moves svc s .sendRemoved { s with outbox, bus := s.bus ++ [.sciQuoteRemoved q] }

theorem submissions_ne_nil {j : Nat} {sub : Submission} (hj : s.submissions[j]? = some sub) :
    s.submissions ≠ [] := by
  intro hnil
  rw [hnil] at hj
  cases hj

theorem Moves.still {a : ServerAction} {sync : Sync.State} {peers : Nat → List Quote}
    (ha : Arrives s.sync sync []) : Moves svc s a { s with sync, peers } :=
  .quiet ha rfl rfl (.refl _) .inl

theorem Moves.submission {a : ServerAction} {sync : Sync.State} {j : Nat} {sub sub' : Submission}
    {new : List Quote} (hj : s.submissions[j]? = some sub) (ha : Arrives s.sync sync new)
    (hsub : sub'.unannounced.Perm (new ++ sub.unannounced)) :
    Moves svc s a { s with sync, submissions := s.submissions.set j sub' } := by
  refine .quiet ha rfl rfl ?_ (fun hnil => absurd hnil (submissions_ne_nil hj))
  rw [← List.append_assoc]
  exact (unannounced_set hj hsub).append_right _

theorem moves_of_step {a : ServerAction} (hs : s.step svc a = some s') : Moves svc s a s' := by
  cases a with
  | append block =>
      obtain rfl := Option.some.inj hs
      exact .still (arrives_still (.refl _) rfl rfl rfl rfl rfl)
  | submitQuotes clock req =>
      obtain rfl := Option.some.inj hs
      refine .quiet (Arrives.refl _) rfl rfl ?_ (fun _ => .inr ⟨clock, req, rfl⟩)
      simp [unannounced, Submission.unannounced_ofRequest]
  | startTask j i =>
      obtain ⟨timestamp, tasks, task, sync, task', hj, hi, hf, rfl⟩ := stepTask_some hs
      cases task with
      | waiting sci =>
          obtain ⟨sync', hsync, heq⟩ := Option.map_eq_some_iff.mp hf
          obtain ⟨rfl, rfl⟩ := Prod.mk.inj heq
          have hnone : (Task.ofOffer (svc.offer timestamp sci)).inserted = [] := by
            cases svc.offer timestamp sci <;> rfl
          have hset := unannounced_setTask hi rfl (.ofOffer (svc.offer timestamp sci)) timestamp
          rw [hnone] at hset
          exact .submission hj (arrives_enter hsync) hset
      | adding => cases hf
      | returned r => cases hf
  | advanceTask j i fault =>
      obtain ⟨timestamp, tasks, task, sync, task', hj, hi, hf, rfl⟩ := stepTask_some hs
      cases task with
      | adding =>
          obtain ⟨sync', hsync, heq⟩ := Option.map_eq_some_iff.mp hf
          obtain ⟨rfl, rfl⟩ := Prod.mk.inj heq
          exact .submission hj (arrives_advance hsync) (unannounced_setTask hi rfl _ timestamp)
      | waiting sci => cases hf
      | returned r => cases hf
  | collect j =>
      simp only [step] at hs
      split at hs
      · next timestamp tasks hj =>
          obtain ⟨sub, hsub, rfl⟩ := Option.map_eq_some_iff.mp hs
          exact .submission hj (Arrives.refl _) (.of_eq (Submission.unannounced_collect hsub))
      · cases hs
  | respond j =>
      simp only [step] at hs
      split at hs
      · next resp r results hj =>
          obtain rfl := Option.some.inj hs
          rw [ClientService.pushResult_msgs]
          exact .announce hj
      · next resp hj =>
          obtain rfl := Option.some.inj hs
          exact .submission hj (Arrives.refl _) (.refl _)
      · cases hs
  | handleSciQuoteAdded k remoteQuote =>
      simp only [step] at hs
      split at hs
      · obtain ⟨sync, hsync, rfl⟩ := Option.map_eq_some_iff.mp hs
        exact .still (arrives_enter hsync)
      · cases hs
  | syncQuotesFromPeer k answers =>
      simp only [step] at hs
      split at hs
      · obtain rfl := Option.some.inj hs
        exact .still (Arrives.refl _)
      · cases hs
  | nextQuote k =>
      simp only [step] at hs
      split at hs
      · cases hs
      · obtain ⟨sync, hsync, rfl⟩ := Option.map_eq_some_iff.mp hs
        exact .still (arrives_enter hsync)
  | advancePeer k fault =>
      obtain ⟨sync, hsync, rfl⟩ := Option.map_eq_some_iff.mp hs
      exact .quiet (arrives_advance hsync) rfl rfl (List.perm_append_comm_assoc _ _ _) .inl
  | fetch fault =>
      simp only [step] at hs
      split at hs
      · next hout =>
          obtain ⟨sync, hsync, rfl⟩ := Option.map_eq_some_iff.mp hs
          exact .fetch hout hsync
      · cases hs
  | sendRemoved =>
      simp only [step] at hs
      split at hs
      · cases hs
      · next q outbox hout =>
          obtain rfl := Option.some.inj hs
          exact .sendRemoved hout
  | requestStop =>
      obtain rfl := Option.some.inj hs
      exact .still (arrives_still (.refl _) rfl rfl rfl rfl rfl)
  | rehash scis =>
      obtain ⟨sync, hsync, rfl⟩ := Option.map_eq_some_iff.mp hs
      obtain ⟨rfl, hperm⟩ := Sync.State.rehash_cases hsync
      exact .still (arrives_still hperm rfl rfl rfl rfl rfl)

/-! ## The balance of the server -/

/-- **Where the quotes are.**  Those ever inserted are in the book or have been taken by the
fetcher, which has them in hand, in the outbox or on the bus; and they have been announced,
are to be announced, or came silently. -/
structure Balanced (s : Server) : Prop where
  apiRemoved : s.sync.apiRemoved = []
  stored : s.sync.inserted.Perm (s.sync.book.quotes ++ (s.sync.fetched ++ s.sync.apiRemoved))
  fetched : s.sync.fetched = s.sync.handed ++ s.sync.fetcher.inHand
  handed : s.sync.handed = retracted s.bus ++ s.outbox
  inserted : s.sync.inserted.Perm (announced s.bus ++ (s.unannounced ++ s.silent))

theorem balanced_initial (ledger : Ledger) (book : InMemoryQuoteBook) :
    Balanced (initial ledger book) where
  apiRemoved := rfl
  stored := by simp [initial, Sync.State.initial]
  fetched := rfl
  handed := rfl
  inserted := .refl _

theorem Balanced.arrive (h : Balanced s) {new : List Quote} (ha : Arrives s.sync s'.sync new)
    (hbus : s'.bus = s.bus) (hout : s'.outbox = s.outbox)
    (hnew : (s'.unannounced ++ s'.silent).Perm (new ++ (s.unannounced ++ s.silent))) :
    Balanced s' where
  apiRemoved := by rw [ha.flow.apiRemoved, h.apiRemoved]; rfl
  stored := ha.flow.balanced h.stored
  fetched := by rw [ha.flow.fetched, ha.handed, ha.fetcher, h.fetched, List.append_nil]
  handed := by rw [ha.handed, hbus, hout, h.handed]
  inserted := by
    rw [ha.flow.inserted, hbus]
    refine (h.inserted.append_left new).trans ?_
    exact (List.perm_append_comm_assoc _ _ _).trans (hnew.symm.append_left _)

theorem Balanced.announce (h : Balanced s) {j : Nat} {resp resp' : SubmitQuotesResponse}
    {r : Except Error Quote} {results : List (Except Error Quote)}
    (hj : s.submissions[j]? = some (.sending resp (r :: results))) :
    Balanced { s with
      submissions := s.submissions.set j (.sending resp' results)
      bus := s.bus ++ (ClientService.createdOf r).toList.map .sciQuoteAdded } where
  apiRemoved := h.apiRemoved
  stored := h.stored
  fetched := h.fetched
  handed := by rw [h.handed, retracted_append, retracted_map, List.append_nil]
  inserted := by
    have hset := ParMap.flatMap_set Submission.unannounced (y := .sending resp' results) hj
    have hhead : (Submission.sending resp (r :: results)).unannounced =
        (ClientService.createdOf r).toList ++
          (Submission.sending resp' results).unannounced := by
      cases r with
      | ok q => rfl
      | error e => rfl
    rw [announced_append, announced_map]
    refine h.inserted.trans (List.perm_iff_count.mpr ?_)
    intro x
    have hcount := hset.count_eq x
    rw [hhead] at hcount
    simp only [List.count_append, unannounced] at hcount ⊢
    omega

theorem Balanced.fetch (h : Balanced s) {fault : Option String} {sync : Sync.State}
    (hout : s.outbox = []) (hs : s.sync.fetch svc.mc fault = some sync) :
    Balanced { s with sync, outbox := s.sync.fetcher.inHand } := by
  have hfetches := Sync.State.fetches_of_fetch hs
  obtain ⟨byFetcher, hflow⟩ := Sync.flow_fetches hfetches
  refine ⟨?_, hflow.balanced h.stored, Sync.handed_fetches h.fetched hfetches, ?_, ?_⟩
  · show sync.apiRemoved = []
    rw [hflow.apiRemoved, h.apiRemoved]
    rfl
  · show sync.handed = retracted s.bus ++ s.sync.fetcher.inHand
    rw [Sync.handed_of_fetch hs, h.handed, hout, List.append_nil]
  · show sync.inserted.Perm _
    rw [hflow.inserted]
    exact h.inserted

theorem Balanced.sendRemoved (h : Balanced s) {q : Quote} {outbox : List Quote}
    (hout : s.outbox = q :: outbox) :
    Balanced { s with outbox, bus := s.bus ++ [.sciQuoteRemoved q] } where
  apiRemoved := h.apiRemoved
  stored := h.stored
  fetched := h.fetched
  handed := by
    rw [h.handed, hout, retracted_append, retracted_removed, List.append_assoc,
      List.singleton_append]
  inserted := by
    rw [announced_append, announced_removed, List.append_nil]
    exact h.inserted

theorem Balanced.move (h : Balanced s) {a : ServerAction} (hm : Moves svc s a s') :
    Balanced s' := by
  cases hm with
  | quiet ha hbus hout hnew _ => exact h.arrive ha hbus hout hnew
  | announce hj => exact h.announce hj
  | fetch hout hs => exact h.fetch hout hs
  | sendRemoved hout => exact h.sendRemoved hout

theorem Balanced.countP (h : Balanced s) (p : Quote → Bool) :
    (announced s.bus).countP p + (s.unannounced ++ s.silent).countP p =
      s.sync.book.quotes.countP p + (retracted s.bus).countP p +
        (s.sync.fetcher.inHand ++ s.outbox).countP p := by
  have hin := h.inserted.countP_eq p
  have hst := h.stored.countP_eq p
  rw [h.apiRemoved, List.append_nil, h.fetched, h.handed] at hst
  simp only [List.countP_append] at hin hst ⊢
  omega

end Server
end Deqs
