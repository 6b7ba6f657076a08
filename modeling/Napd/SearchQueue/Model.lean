import Napd.Bytes
import Napd.Library.Runs

/-!
The queue of the searches, `Server::SearchRequest` and `Server::Search` of `search.cc`, which are
compiled out at this commit.

* `Search`: what the queue reads of a search. `request` records which request made it.
* `State`: the queue, the search and the remote server of each caller, the callers that wait on
  each server, and what was said to callers and servers.
* `SearchRequest`: the function of the source. What `Load` makes of the data is given to it.
* `Server.Search`: the function of the source. What `Go` finds and which servers are linked is
  given to it. The functions that cut the limit out of a query are not in the source; they are
  the parameter `unlimited`.
* `Input`, `step`: requests, and searches of the caller at the front of the queue.
-/

namespace Napd

namespace SearchQueue

/-- What `Load` sets. -/
structure Loaded where
  terms : List Text
  LocalOnly : Bool
  max_matches : U32

/-- `Search`, and the number of the request that made it. -/
structure Search extends Loaded where
  request : ℕ
  query : Text
  nmatches : U32

/-- What is said to a caller. A reply is known by its file. -/
inductive Answer where
  | SEARCH_REPLY (file : ℕ)
  | SEARCH_COMPLETED

/-- `REMOTE_SEARCH_REQUEST`: the caller, the query, and the limit that is appended to it. -/
structure RemoteRequest where
  caller : ℕ
  query : Text
  limit : Option U32

/-- `RemoteClient`: which one, whether it is logged on, and the age of its heartbeat. -/
structure RemoteServer where
  addr : ℕ
  logged_on : Bool
  HBAge : ℕ

/-- The servers that are linked, and what may be asked of them. -/
structure Links where
  LinkAllowSearches : Bool
  ForwardSearches : Bool
  RemoteServers : List RemoteServer

/-- The queue, the clients and the remote servers; `requests` counts the requests. -/
structure State where
  queue : List ℕ
  search : ℕ → Option Search
  RemoteSearch : ℕ → Option ℕ
  ActiveSearches : ℕ → Finset ℕ
  log : ℕ → List Answer
  remoteLog : ℕ → List RemoteRequest
  requests : ℕ

namespace State

/-- No caller has a search. -/
def new : State := ⟨[], fun _ => none, fun _ => none, fun _ => ∅, fun _ => [], fun _ => [], 0⟩

def say (s : State) (caller : ℕ) (a : Answer) : State :=
  { s with log := Function.update s.log caller (s.log caller ++ [a]) }

/-- `delete caller->search`. -/
def deleteSearch (s : State) (caller : ℕ) : State :=
  { s with search := Function.update s.search caller none }

/-- `caller->RemoteSearch->ActiveSearches.erase(caller)`, if there is one. -/
def leaveRemote (s : State) (caller : ℕ) : State :=
  match s.RemoteSearch caller with
  | none => s
  | some r =>
      { s with
        ActiveSearches := Function.update s.ActiveSearches r ((s.ActiveSearches r).erase caller)
        RemoteSearch := Function.update s.RemoteSearch caller none }

/-- The loop over the files that were found. -/
def reply (caller : ℕ) (nmatches : I32) : I32 → State → List ℕ → State
  | _, s, [] => s
  | count, s, file :: files =>
      let s := s.say caller (.SEARCH_REPLY file)
      let count := count + 1
      if nmatches ≤ count then s else reply caller nmatches count s files

/-- The search is sent on to a server. -/
def forward (s : State) (caller : ℕ) (r : RemoteServer) (query : Text) (limit : Option U32) :
    State :=
  { s with
    RemoteSearch := Function.update s.RemoteSearch caller (some r.addr)
    ActiveSearches :=
      Function.update s.ActiveSearches r.addr (insert caller (s.ActiveSearches r.addr))
    remoteLog := Function.update s.remoteLog r.addr
      (s.remoteLog r.addr ++ [⟨caller, query, limit⟩]) }

end State

namespace Server

/-- `SearchRequest`. -/
def SearchRequest (s : State) (caller : ℕ) (data : Text) (load : Option Loaded) : State :=
  let request := s.requests
  let s := { s with requests := s.requests + 1 }
  if caller ∈ s.queue then
    let s := s.deleteSearch caller
    { s with queue := s.queue.erase caller }
  else
    let s := (s.leaveRemote caller).deleteSearch caller
    match load with
    | some l =>
        { s with
          search := Function.update s.search caller (some ⟨l, request, data, 0⟩)
          queue := s.queue ++ [caller] }
    | none => s.say caller .SEARCH_COMPLETED

/-- The first server that can be asked. -/
def ready (links : Links) : Option RemoteServer :=
  links.RemoteServers.find? fun r => r.logged_on && r.HBAge < 61

/-- Where the search is sent on to, if it is, and with which query and limit. -/
def route (unlimited : Text → Text) (search : Search) (found : List ℕ) (links : Links) :
    Option (RemoteServer × Text × Option U32) :=
  if !search.LocalOnly && links.LinkAllowSearches then
    if !links.ForwardSearches then
      if found = [] ∧ search.terms ≠ [] then
        (ready links).map fun r => (r, search.query, none)
      else none
    else if search.nmatches < search.max_matches then
      (ready links).map fun r =>
        (r, unlimited search.query, some (search.max_matches - search.nmatches))
    else none
  else none

/-- `Server::Search`, and what it returns; `found` is the `master_list` that `Go` leaves. -/
def Search (unlimited : Text → Text) (s : State) (caller : ℕ) (found : List ℕ) (links : Links) :
    Bool × State :=
  match s.search caller with
  | none => (false, s)
  | some search =>
      let s := s.leaveRemote caller
      let search := { search with nmatches := UInt32.ofNat found.length }
      let s := { s with search := Function.update s.search caller (some search) }
      let s := State.reply caller search.nmatches.toInt32 0 s found
      match route unlimited search found links with
      | some (r, query, limit) => (false, s.forward caller r query limit)
      | none => (true, (s.say caller .SEARCH_COMPLETED).deleteSearch caller)

end Server

/-- What happens: a request with what `Load` makes of it, or the search of the caller at the
front of the queue with what it finds. -/
inductive Input where
  | request (caller : ℕ) (data : Text) (load : Option Loaded)
  | search (found : List ℕ) (links : Links)

/-- The state after an input. -/
def step (unlimited : Text → Text) (s : State) : Input → Option State
  | .request caller data load => some (Server.SearchRequest s caller data load)
  | .search found links =>
      match s.queue with
      | [] => some s
      | caller :: rest =>
          some (Server.Search unlimited { s with queue := rest } caller found links).2

end SearchQueue

end Napd
