import Napd.Client.Said
import Napd.Channel.Model
import Napd.Library.Transducer
import Napd.Server.Serving

/-!
A client that asks and a server that answers, over one connection: the command that `read` returned
at the server goes to its handler, and the handler says the replies.

* `Handler`: what a handler makes of its state and of a command, and what it says then.
* `State`, `Event`, `step`: the connection and the state of the handlers. The client asks, flushes
  and reads, the server serves and flushes, in any order and however the kernel answers.
* `Answers`: a handler that treats each request as a machine does, on every command that carries it.
* `run_inv`, `Inv.heard`: over every run, the server is in the state behind the requests it has
  read, and what the client has heard is a part, from the front, of the answers to these.
-/

namespace Napd

namespace Command

/-- What `UNPACK_COMMAND` gets for targets of these types, if it gets all of them. -/
def arguments (ts : List Target) (com : Command) : Option (List ArgData) :=
  com.message.bind fun m =>
    (m.unpack ts).bind fun r => r.1.mapM fun v => v.map r.2.fetch

lemma Yields.arguments {com : Command} {args : List ArgData} (h : Yields com args) :
    com.arguments (args.map ArgData.target) = some args := by
  obtain ⟨m, vs, m', hmessage, hunpack, hvs⟩ := h
  rw [Command.arguments, hmessage, Option.bind_some, hunpack, Option.bind_some]
  exact mapM_of_map hvs

end Command

namespace Service

open Client Command Link Serving

variable {σ ι : Type*}

/-- A handler: what it makes of its state and of a command, and what it says then; `none` if it
faults. -/
abbrev Handler (σ : Type*) := σ → Command → Option (σ × List Said)

/-- The blocks that a `SAY` gets from the allocator, and the kernel's answers to its `write`. -/
structure Writing where
  packed : Fresh
  sent : Fresh
  answers : List Answer

/-- The connection, with the server at its right end, and whether the server still serves it. -/
structure State (σ : Type*) where
  link : Link
  state : σ
  alive : Bool

/-- What is said, if a command can carry it. -/
def saying (x : Said) : Option Saying :=
  if h : Carries x.code x.args then some ⟨x.code, x.args, h⟩ else none

/-- `SAY`. -/
def say (e : End) (l : Link) (w : Writing) (x : Saying) : Option (Progress × Link) :=
  l.sendAt e (.write w.sent (x.command w.packed) w.answers)

/-- One `SAY` after another at the server, until one throws. -/
def sayAll (l : Link) (w : ℕ → Writing) : List Said → Option (Bool × Link)
  | [] => some (false, l)
  | x :: xs =>
      (saying x).bind fun y =>
        (say .right l (w 0) y).bind fun r =>
          if flushThrew r.1 then some (true, r.2) else sayAll r.2 (fun n => w (n + 1)) xs

/-- The handler of a command that was read, and its replies. -/
def answer (handle : Handler σ) (s : σ) (l : Link) (w : ℕ → Writing) (com : Command) :
    Option (State σ) :=
  (handle s com).bind fun h => (sayAll l w h.2).map fun r => ⟨r.2, h.1, !r.1⟩

/-- `lc->read()`, and the command it returned. -/
def serve (handle : Handler σ) (s : State σ) (f : Fresh) (answers : List Answer)
    (w : ℕ → Writing) : Option (State σ) :=
  (s.link.readAt .right f answers).bind fun r =>
    match r.1 with
    | .command com => answer handle s.state r.2 w com
    | .null => some { s with link := r.2 }
    | .thrown => some { s with link := r.2, alive := false }

/-- What happens on the connection. -/
inductive Event (ι : Type*) where
  | ask (w : Writing) (i : ι)
  | flush (answers : List Answer)
  | read (f : Fresh) (answers : List Answer)
  | serve (f : Fresh) (answers : List Answer) (w : ℕ → Writing)
  | serverFlush (answers : List Answer)

/-- One event. -/
def step (handle : Handler σ) (request : ι → Saying) (s : State σ) : Event ι → Option (State σ)
  | .ask w i => (say .left s.link w (request i)).map fun r => { s with link := r.2 }
  | .flush answers => (s.link.sendAt .left (.flush answers)).map fun r => { s with link := r.2 }
  | .read f answers => (s.link.readAt .left f answers).map fun r => { s with link := r.2 }
  | .serve f answers w => if s.alive then serve handle s f answers w else some s
  | .serverFlush answers =>
      if s.alive then
        (s.link.sendAt .right (.flush answers)).map fun r =>
          { s with link := r.2, alive := !flushThrew r.1 }
      else some s

/-- A connection that was just made. -/
def start (s₀ : σ) : State σ := ⟨Link.start, s₀, true⟩

/-- What an event asks. -/
def Event.asked : Event ι → List ι
  | .ask _ i => [i]
  | .flush _ => []
  | .read _ _ => []
  | .serve _ _ _ => []
  | .serverFlush _ => []

/-- What was asked, in order. -/
def asked (es : List (Event ι)) : List ι := es.flatMap Event.asked

/-- What the client hears in a command, where `types` are the types it unpacks for each code. -/
def hear (types : U16 → List Target) (com : Command) : Option Said :=
  (com.arguments (types com.code)).map fun args => ⟨com.code, args⟩

/-- What the client has heard. -/
def heard (types : U16 → List Target) (s : State σ) : Option (List Said) :=
  (s.link.read .left).mapM (hear types)

/-- A handler that answers each request as the machine `δ` does, from the states with `I`. -/
structure Answers (handle : Handler σ) (request : ι → Saying) (types : U16 → List Target)
    (δ : σ → ι → σ × List Said) (I : σ → Prop) : Prop where
  handles : ∀ s i com, I s → com.code = (request i).code → Yields com (request i).args →
    handle s com = some (δ s i)
  keeps : ∀ s i, I s → I (δ s i).1
  carries : ∀ s i, I s → ∀ x ∈ (δ s i).2, Carries x.code x.args ∧
    x.args.map ArgData.target = types x.code

/-- Neither direction holds a whole command that was not read, and the server is there. -/
def CaughtUp (s : State σ) : Prop :=
  s.alive = true ∧ ∀ e, (framing.parse (s.link.way e).outstanding).1 = []

/-! ### What is on the way -/

/-- What was said at an end, with the blocks it was packed in. -/
def Holds (l : Link) (e : End) (xs : List (Fresh × Saying)) : Prop :=
  (l.way e).total = (xs.map fun x => x.2.command x.1).flatMap fun y => y.com.frame

lemma holds_say {l : Link} (hl : ∀ e, (l.way e).Inv) {e : End} {xs : List (Fresh × Saying)}
    (h : Holds l e xs) (w : Writing) (x : Saying) :
    ∃ p l', say e l w x = some (p, l') ∧ (∀ e', (l'.way e').Inv) ∧
      Holds l' e (xs ++ [(w.packed, x)]) ∧ (l'.way e.other).total = (l.way e.other).total ∧
      l'.results = l.results := by
  obtain ⟨p, l', hat, hinv, htotal, hother, hres⟩ :=
    sendAt_keeps hl e (.write w.sent (x.command w.packed) w.answers)
  refine ⟨p, l', hat, hinv, ?_, hother, hres⟩
  rw [Holds, htotal, h, List.map_append, List.flatMap_append]
  rfl

/-- No more is read than was said. -/
lemma read_le {l : Link} (hl : ∀ e, (l.way e).Inv) {e : End} {xs : List (Fresh × Saying)}
    (h : Holds l e.other xs) : (l.read e).length ≤ xs.length := by
  have hsplit := congrArg List.length (frames_of_total hl h).2
  rw [List.length_map, List.length_map, List.length_append, List.length_map] at hsplit
  omega

/-- Where no whole command is outstanding, as much was read as was said. -/
lemma read_all {l : Link} (hl : ∀ e, (l.way e).Inv) {e : End} {xs : List (Fresh × Saying)}
    (h : Holds l e.other xs) (hnone : (framing.parse (l.way e.other).outstanding).1 = []) :
    (l.read e).length = xs.length := by
  have hsplit := congrArg List.length (frames_of_total hl h).2
  rw [hnone, List.append_nil, List.length_map, List.length_map, List.length_map] at hsplit
  exact hsplit.symm

/-- What a saying says. -/
def toSaid (x : Fresh × Saying) : Said := ⟨x.2.code, x.2.args⟩

lemma saying_of_carries {x : Said} (h : Carries x.code x.args) :
    saying x = some ⟨x.code, x.args, h⟩ := dif_pos h

/-- The replies to a request are said in order, all of them unless one throws. -/
lemma sayAll_keeps {l : Link} (hl : ∀ e, (l.way e).Inv) {ys : List (Fresh × Saying)}
    (h : Holds l .right ys) (w : ℕ → Writing) {xs : List Said}
    (hx : ∀ x ∈ xs, Carries x.code x.args) :
    ∃ t l' zs, sayAll l w xs = some (t, l') ∧ (∀ e, (l'.way e).Inv) ∧
      Holds l' .right (ys ++ zs) ∧ zs.map toSaid <+: xs ∧ (t = false → zs.map toSaid = xs) ∧
      (l'.way .left).total = (l.way .left).total ∧ l'.results = l.results := by
  induction xs generalizing l ys w with
  | nil =>
      exact ⟨false, l, [], rfl, hl, by rwa [List.append_nil], List.prefix_refl _, fun _ => rfl,
        rfl, rfl⟩
  | cons x xs ih =>
      obtain ⟨hfirst, hrest⟩ := List.forall_mem_cons.mp hx
      obtain ⟨p, l₁, hsay, hl₁, hholds, hleft, hres⟩ :=
        holds_say hl h (w 0) ⟨x.code, x.args, hfirst⟩
      rw [sayAll, saying_of_carries hfirst, Option.bind_some, hsay, Option.bind_some]
      cases hp : flushThrew p with
      | true =>
          refine ⟨true, l₁, _, if_pos rfl, hl₁, hholds, ?_, Bool.noConfusion, hleft, hres⟩
          exact List.cons_prefix_cons.mpr ⟨rfl, List.nil_prefix⟩
      | false =>
          obtain ⟨t, l', zs, hall, hl', hholds', hpre, heq, hleft', hres'⟩ :=
            ih hl₁ hholds (fun n => w (n + 1)) hrest
          rw [List.append_assoc] at hholds'
          refine ⟨t, l', _, hall, hl', hholds', ?_, fun ht => ?_, hleft'.trans hleft,
            hres'.trans hres⟩
          · exact List.cons_prefix_cons.mpr ⟨rfl, hpre⟩
          · rw [List.singleton_append, List.map_cons, heq ht]
            rfl

/-! ### Runs -/

/-- The connection and the server behind the requests `is`. -/
structure Inv (request : ι → Saying) (δ : σ → ι → σ × List Said) (s₀ : σ) (s : State σ)
    (is : List ι) : Prop where
  ways : ∀ e, (s.link.way e).Inv
  asked : ∃ xs, Holds s.link .left xs ∧ xs.map Prod.snd = is.map request
  told : ∃ ys, Holds s.link .right ys ∧
    ys.map toSaid <+: (Transducer.run δ s₀ (is.take (s.link.read .right).length)).2 ∧
    (s.alive = true →
      ys.map toSaid = (Transducer.run δ s₀ (is.take (s.link.read .right).length)).2)
  state : s.state = (Transducer.run δ s₀ (is.take (s.link.read .right).length)).1

variable {handle : Handler σ} {request : ι → Saying} {types : U16 → List Target}
  {δ : σ → ι → σ × List Said} {I : σ → Prop} {s₀ : σ}

lemma inv_start : Inv request δ s₀ (start s₀) [] :=
  ⟨start_inv, ⟨[], rfl, rfl⟩, ⟨[], rfl, List.prefix_refl _, fun _ => rfl⟩, rfl⟩

namespace Inv

variable {s : State σ} {is : List ι}

/-- The server has read no more requests than there were. -/
lemma read_le_asked (h : Inv request δ s₀ s is) : (s.link.read .right).length ≤ is.length := by
  obtain ⟨xs, hholds, hxs⟩ := h.asked
  have hlen := congrArg List.length hxs
  rw [List.length_map, List.length_map] at hlen
  exact hlen ▸ read_le h.ways hholds

/-- A change that concerns neither what was said nor what the server read. -/
lemma transfer (h : Inv request δ s₀ s is) {s' : State σ} (hways : ∀ e, (s'.link.way e).Inv)
    (htotal : ∀ e, (s'.link.way e).total = (s.link.way e).total)
    (hread : s'.link.results .right = s.link.results .right) (hstate : s'.state = s.state)
    (halive : s'.alive = true → s.alive = true) : Inv request δ s₀ s' is := by
  have hread' : s'.link.read .right = s.link.read .right := congrArg commands hread
  obtain ⟨xs, hholds, hxs⟩ := h.asked
  obtain ⟨ys, hholds', hpre, heq⟩ := h.told
  refine ⟨hways, ⟨xs, (htotal .left).trans hholds, hxs⟩,
      ⟨ys, (htotal .right).trans hholds', ?_, ?_⟩,
    ?_⟩
  · rwa [hread']
  · rw [hread']
    exact fun ha => heq (halive ha)
  · rw [hread', hstate]
    exact h.state

/-- **A request** is appended to those that were asked. -/
lemma ask (h : Inv request δ s₀ s is) (w : Writing) (i : ι) :
    ∃ s', step handle request s (.ask w i) = some s' ∧ Inv request δ s₀ s' (is ++ [i]) := by
  obtain ⟨xs, hholds, hxs⟩ := h.asked
  obtain ⟨ys, hholds', hpre, heq⟩ := h.told
  obtain ⟨p, l, hsay, hways, hsaid, hother, hres⟩ := holds_say h.ways hholds w (request i)
  have htake : (is ++ [i]).take (s.link.read .right).length
      = is.take (s.link.read .right).length := List.take_append_of_le_length h.read_le_asked
  have hread : l.read .right = s.link.read .right := congrArg commands (congrFun hres .right)
  refine ⟨{ s with link := l }, by rw [step, hsay]; rfl, hways, ⟨_, hsaid, ?_⟩,
      ⟨ys, ?_, ?_, ?_⟩, ?_⟩
  · rw [List.map_append, hxs, List.map_append]
    rfl
  · exact hother.trans hholds'
  · rwa [hread, htake]
  · rwa [hread, htake]
  · rw [hread, htake]
    exact h.state

/-- **The server serves**: the request that is next is answered as the machine does. -/
lemma serve (hans : Answers handle request types δ I) (h₀ : I s₀) (h : Inv request δ s₀ s is)
    (f : Fresh) (answers : List Answer) (w : ℕ → Writing) (halive : s.alive = true) :
    ∃ s', Service.serve handle s f answers w = some s' ∧ Inv request δ s₀ s' is := by
  obtain ⟨r, l, hat, hways, htotal, hres, -⟩ := readAt_keeps h.ways .right f answers
  cases r with
  | null =>
      refine ⟨{ s with link := l }, by rw [Service.serve, hat]; rfl, ?_⟩
      obtain ⟨xs, hholds, hxs⟩ := h.asked
      obtain ⟨ys, hholds', htold⟩ := h.told
      have hread : l.read .right = s.link.read .right := by
        rw [Link.read, Link.read, hres, commands, List.filterMap_append]
        exact List.append_nil _
      refine ⟨hways, ⟨xs, (htotal .left).trans hholds, hxs⟩,
          ⟨ys, (htotal .right).trans hholds', ?_⟩,
        ?_⟩
      · rwa [hread]
      · rw [hread]
        exact h.state
  | thrown =>
      refine ⟨{ s with link := l, alive := false }, by rw [Service.serve, hat]; rfl, ?_⟩
      obtain ⟨xs, hholds, hxs⟩ := h.asked
      obtain ⟨ys, hholds', hpre, -⟩ := h.told
      have hread : l.read .right = s.link.read .right := by
        rw [Link.read, Link.read, hres, commands, List.filterMap_append]
        exact List.append_nil _
      refine ⟨hways, ⟨xs, (htotal .left).trans hholds, hxs⟩,
        ⟨ys, (htotal .right).trans hholds', ?_, Bool.noConfusion⟩, ?_⟩
      · rwa [hread]
      · rw [hread]
        exact h.state
  | command com =>
      obtain ⟨xs, hholds, hxs⟩ := h.asked
      obtain ⟨ys, hholds', -, heq⟩ := h.told
      have hread : l.read .right = s.link.read .right ++ [com] := by
        rw [Link.read, Link.read, hres, commands, List.filterMap_append]
        rfl
      generalize hn : (s.link.read .right).length = n at *
      -- the command that was read is the next request
      have hcom : (l.read .right)[n]? = some com := by
        rw [hread, ← hn]
        exact List.getElem?_concat_length
      have hholdsl : Holds l .left xs := (htotal .left).trans hholds
      obtain ⟨x, hx, hcode, hyields⟩ := understood hways (e := .right) hholdsl hcom
      have hreq : (is.map request)[n]? = some x.2 := by
        rw [← hxs, List.getElem?_map, hx, Option.map_some]
      rw [List.getElem?_map] at hreq
      obtain ⟨i, hi, hreqi⟩ := Option.map_eq_some_iff.mp hreq
      have htake : is.take (n + 1) = is.take n ++ [i] := by
        rw [List.take_add_one, hi]
        rfl
      have hI : I s.state := by
        rw [h.state, hn]
        exact Transducer.run_keeps hans.keeps h₀ _
      have hhandle : handle s.state com = some (δ s.state i) :=
        hans.handles s.state i com hI (hreqi ▸ hcode) (hreqi ▸ hyields)
      obtain ⟨t, l', zs, hall, hways', hsaid, hpre, hzs, hleft, hres'⟩ :=
        sayAll_keeps hways ((htotal .right).trans hholds') w
          (fun x hx => (hans.carries s.state i hI x hx).1)
      have hlen : (l'.read .right).length = n + 1 := by
        rw [Link.read, hres', ← Link.read, hread, List.length_append, hn]
        rfl
      refine ⟨⟨l', (δ s.state i).1, !t⟩, ?_, hways', ⟨xs, hleft.trans hholdsl, hxs⟩,
        ⟨_, hsaid, ?_, ?_⟩, ?_⟩
      · rw [Service.serve, hat, Option.bind_some]
        show answer handle s.state l w com = _
        rw [answer, hhandle, Option.bind_some, hall]
        rfl
      · rw [hlen, htake, Transducer.run_concat, List.map_append, heq halive, ← hn, ← h.state]
        exact (List.prefix_append_right_inj _).mpr hpre
      · intro ht
        have ht' : t = false := by
          cases t with
          | true => cases ht
          | false => rfl
        rw [hlen, htake, Transducer.run_concat, List.map_append, heq halive, hzs ht', ← hn,
            ← h.state]
      · rw [hlen, htake, Transducer.run_concat, ← hn, ← h.state]

/-- **One event** keeps the invariant. -/
lemma step (hans : Answers handle request types δ I) (h₀ : I s₀) (h : Inv request δ s₀ s is)
    (e : Event ι) :
    ∃ s', Service.step handle request s e = some s' ∧ Inv request δ s₀ s' (is ++ e.asked) := by
  cases e with
  | ask w i => exact h.ask w i
  | flush answers =>
      obtain ⟨p, l, hat, hways, htotal, hother, hres⟩ := sendAt_keeps h.ways .left (.flush answers)
      rw [Call.written, List.flatMap_nil, List.append_nil] at htotal
      refine ⟨{ s with link := l }, by rw [Service.step, hat]; rfl, ?_⟩
      rw [Event.asked, List.append_nil]
      refine h.transfer hways (fun e => ?_) (congrFun hres _) rfl id
      cases e with
      | left => exact htotal
      | right => exact hother
  | read f answers =>
      obtain ⟨r, l, hat, hways, htotal, -, hres⟩ := readAt_keeps h.ways .left f answers
      refine ⟨{ s with link := l }, by rw [Service.step, hat]; rfl, ?_⟩
      rw [Event.asked, List.append_nil]
      exact h.transfer hways htotal hres rfl id
  | serve f answers w =>
      rw [Event.asked, List.append_nil, Service.step]
      by_cases halive : s.alive = true
      · rw [if_pos halive]
        exact h.serve hans h₀ f answers w halive
      · rw [if_neg halive]
        exact ⟨s, rfl, h⟩
  | serverFlush answers =>
      rw [Event.asked, List.append_nil, Service.step]
      by_cases halive : s.alive = true
      · obtain ⟨p, l, hat, hways, htotal, hother, hres⟩ :=
          sendAt_keeps h.ways .right (.flush answers)
        rw [Call.written, List.flatMap_nil, List.append_nil] at htotal
        rw [if_pos halive, hat]
        refine ⟨_, rfl, h.transfer hways (fun e => ?_) (congrFun hres _) rfl fun _ => halive⟩
        cases e with
        | left => exact hother
        | right => exact htotal
      · rw [if_neg halive]
        exact ⟨s, rfl, h⟩

/-- **What the client has heard** is a part of the replies to what the server has read, from the
front, and if nothing is outstanding it is all the replies to all that was asked. -/
lemma heard (hans : Answers handle request types δ I) (h₀ : I s₀) (h : Inv request δ s₀ s is) :
    ∃ pre, Service.heard types s = some pre ∧
      pre <+: (Transducer.run δ s₀ (is.take (s.link.read .right).length)).2 ∧
      (CaughtUp s → pre = (Transducer.run δ s₀ is).2 ∧ s.state = (Transducer.run δ s₀ is).1) := by
  obtain ⟨xs, hasked, hxs⟩ := h.asked
  obtain ⟨ys, htold, hpre, heq⟩ := h.told
  have htyped : ∀ y ∈ ys.map toSaid, y.args.map ArgData.target = types y.code := by
    intro y hy
    exact Transducer.run_outputs hans.keeps (fun s i hs o ho => (hans.carries s i hs o ho).2) h₀ _ y
      (hpre.subset hy)
  have hheard : (s.link.read .left).map (hear types)
      = ((ys.map toSaid).take (s.link.read .left).length).map some := by
    refine List.ext_getElem? fun j => ?_
    rw [List.getElem?_map, List.getElem?_map]
    cases hcom : (s.link.read .left)[j]? with
    | none =>
        rw [List.getElem?_take, if_neg (not_lt.mpr (List.getElem?_eq_none_iff.mp hcom))]
        rfl
    | some com =>
        obtain ⟨y, hy, hcode, hyields⟩ := understood h.ways (e := .left) htold hcom
        have hlt : j < (s.link.read .left).length := (List.getElem?_eq_some_iff.mp hcom).1
        have htypes : y.2.args.map ArgData.target = types y.2.code :=
          htyped (toSaid y) (List.mem_map_of_mem (List.mem_of_getElem? hy))
        have hargs : com.arguments (types com.code) = some y.2.args := by
          rw [hcode, ← htypes]
          exact hyields.arguments
        rw [List.getElem?_take_of_lt hlt, List.getElem?_map, hy, Option.map_some, Option.map_some,
          Option.map_some, hear, hargs, Option.map_some, hcode]
        rfl
  refine ⟨_, mapM_of_map hheard, (List.take_prefix _ _).trans hpre, fun hset => ?_⟩
  have hleft : (s.link.read .left).length = (ys.map toSaid).length := by
    rw [List.length_map]
    exact read_all h.ways (e := .left) htold (hset.2 .right)
  have hright : (s.link.read .right).length = is.length := by
    have hlen := congrArg List.length hxs
    rw [List.length_map, List.length_map] at hlen
    rw [← hlen]
    exact read_all h.ways (e := .right) hasked (hset.2 .left)
  have htake : is.take (s.link.read .right).length = is := by rw [hright, List.take_length]
  constructor
  · rw [hleft, List.take_length, heq hset.1, htake]
  · rw [h.state, htake]

end Inv

/-- **Over every run**, no call and no handler faults, and the invariant holds. -/
lemma run_inv (hans : Answers handle request types δ I) (h₀ : I s₀) (es : List (Event ι)) :
    ∃ s, Runs.run (step handle request) (start s₀) es = some s ∧
      Inv request δ s₀ s (asked es) := by
  suffices h : ∀ {s is}, Inv request δ s₀ s is → ∃ s',
      Runs.run (step handle request) s es = some s' ∧
      Inv request δ s₀ s' (is ++ asked es) from h inv_start
  induction es with
  | nil => exact fun {s is} h => ⟨s, rfl, by rwa [asked, List.flatMap_nil, List.append_nil]⟩
  | cons e es ih =>
      intro s is h
      obtain ⟨s₁, hstep, h₁⟩ := h.step hans h₀ e
      obtain ⟨s', hrun, h'⟩ := ih h₁
      refine ⟨s', by rw [Runs.run, hstep, Option.bind_some, hrun], ?_⟩
      rwa [asked, List.flatMap_cons, ← List.append_assoc]

end Service

end Napd
