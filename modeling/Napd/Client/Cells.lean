import Napd.Client.Pointers
import Napd.Client.Queue

/-!
What the functions of a client do to the commands in memory.

* `Cells`: a client with its commands, each at its address.
* `fill_spec`, `read_spec`: a `read` does in memory what it does to values, whatever the kernel
  gives, and touches no command but the one that is read. What it hands out holds its payload.
* `sendAll_spec`, `flushQueue_spec`, `flush_spec`, `write_spec`: the same of the writing side; a
  command that was sent is deleted.
* `close_spec`: `close` deletes the commands of the client.
-/

namespace Napd

namespace Heap

open Linked Client

/-- A client with its commands, each at its address. -/
structure Cells where
  connected : Bool
  buffer : Option (ℕ × Command)
  queue : List (ℕ × Command)

namespace Cells

/-- The client in memory. -/
def object (x : Cells) : Object := ⟨x.connected, x.buffer.map Prod.fst, x.queue.map Prod.fst⟩

/-- The client with its commands as values. -/
def client (x : Cells) : Client := ⟨x.connected, x.buffer.map Prod.snd, x.queue.map Prod.snd⟩

/-- Its commands. -/
def cells (x : Cells) : List (ℕ × Command) := x.buffer.toList ++ x.queue

/-- The command that is read is being received, and the ones that wait are to be sent. -/
structure Fine (x : Cells) : Prop where
  buffer : ∀ e, x.buffer = some e → ∃ held, e.2.Holds held
  queue : ∀ e ∈ x.queue, e.2.Queued

end Cells

/-! ### Reading -/

/-- How a `read` ends, and what it hands out. -/
inductive Ends : Result → Outcome → List (ℕ × Command) → Prop
  | command (p : ℕ) (com : Command) (h : com.Backed) : Ends (.command com) (.command p) [(p, com)]
  | null : Ends .null .null []
  | thrown : Ends .thrown .thrown []

/-- How a `read` ends where nothing goes on. -/
def stopped : Recv → Outcome
  | .bytes [] => .thrown
  | .error => .thrown
  | _ => .null

lemma ends_stop (r : Recv) : Ends (stop r) (stopped r) [] := by
  cases r with
  | bytes bs =>
      cases bs with
      | nil => exact .thrown
      | cons b bs => exact .null
  | again => exact .null
  | error => exact .thrown

/-- A command that is full holds its payload. -/
lemma backed_of_full {com : Command} {held : List U8} (h : com.Holds held)
    (hfull : com.full = true) : ({ com with offset := 0 } : Command).Backed := by
  obtain ⟨b, room, hdata, hbytes, -⟩ := h.block
  have hlen := h.full_iff.mp hfull
  show Command.Backed { com with offset := 0 }
  rw [Command.Backed]
  simp only [hdata]
  rw [hbytes, List.length_append, List.length_append, List.length_singleton]
  omega

/-- A command that is being received. -/
lemma received_some {com : Command} {held : List U8} (p : ℕ) (h : com.Holds held) :
    ∀ e, some (p, com) = some e → ∃ held, e.2.Holds held := by
  rintro e he
  cases he
  exact ⟨held, h⟩

section Reading

variable {σ α : Type} {K : Receiver σ α} {b : Bool} {p : ℕ} {q : List ℕ} {com com' : Command}
  {h : Store Command} {k k' : σ} {a : α} {rest : List (ℕ × Command)}

lemma fill_of_full (answers : List α) (hcom : h.read (some p) = some com) (hfull : com.full = true)
    {h' : Store Command} (hwrite : h.write (some p) { com with offset := 0 } = some h') :
    fill K ⟨b, some p, q⟩ p h k answers = some (.command p, ⟨b, none, q⟩, h', k) := by
  rw [fill.eq_def, hcom, Option.bind_some, if_pos hfull, hwrite]
  rfl

lemma fill_nil (hcom : h.read (some p) = some com) (hfull : com.full ≠ true) :
    fill K ⟨b, some p, q⟩ p h k [] = some (.null, ⟨b, some p, q⟩, h, k) := by
  rw [fill.eq_def, hcom, Option.bind_some, if_neg hfull]

lemma fill_more (answers : List α) (hcom : h.read (some p) = some com) (hfull : com.full ≠ true)
    {bs : List U8} (hrun : com.receive K b k a = some (.bytes bs, com', k')) {h' : Store Command}
    (hwrite : h.write (some p) com' = some h') (hbs : bs ≠ []) :
    fill K ⟨b, some p, q⟩ p h k (a :: answers) = fill K ⟨b, some p, q⟩ p h' k' answers := by
  obtain ⟨x, xs, rfl⟩ := List.exists_cons_of_ne_nil hbs
  rw [fill.eq_def, hcom, Option.bind_some, if_neg hfull]
  simp only [hrun, hwrite, Option.bind_eq_bind, Option.bind_some]

lemma fill_stop (answers : List α) (hcom : h.read (some p) = some com) (hfull : com.full ≠ true)
    {r : Recv} (hrun : com.receive K b k a = some (r, com', k')) {h' : Store Command}
    (hwrite : h.write (some p) com' = some h') (hr : ∀ bs, r = .bytes bs → bs = []) :
    fill K ⟨b, some p, q⟩ p h k (a :: answers)
      = some (stopped r, ⟨b, some p, q⟩, h', k') := by
  rw [fill.eq_def, hcom, Option.bind_some, if_neg hfull]
  simp only [hrun, hwrite, Option.bind_eq_bind, Option.bind_some]
  cases r with
  | bytes bs =>
      obtain rfl := hr bs rfl
      rfl
  | again => rfl
  | error => rfl

/-- The kernel gives no more bytes than it is asked for. -/
def Bounded (K : Receiver σ α) : Prop :=
  ∀ k a len bs sender k', K.recv k a len false = (.bytes bs, sender, k') → bs.length ≤ len

lemma wire_bounded : Bounded wire := by
  rintro k ⟨r, sender⟩ len bs sender' k' hrecv
  cases r with
  | bytes bs' =>
      obtain ⟨hbs, -⟩ := Prod.mk.inj hrecv
      rw [← Recv.bytes.inj hbs]
      exact List.length_take_le len bs'
  | again => exact absurd (Prod.mk.inj hrecv).1 nofun
  | error => exact absurd (Prod.mk.inj hrecv).1 nofun

/-- **The loop of `read`** does to the command in memory what it does to the value. -/
lemma fill_spec (hK : Bounded K) {held : List U8} (hcom : com.Holds held)
    (hh : Holds h ((p, com) :: rest)) (buf : Option Command) (q : List (ℕ × Command)) (k : σ)
    (answers : List α) :
    ∃ r out l buffer h' k',
      (Client.mk b buf (q.map Prod.snd)).fill K com k answers
          = some (r, (Cells.mk b buffer q).client, k') ∧
        fill K ⟨b, some p, q.map Prod.fst⟩ p h k answers
          = some (out, (Cells.mk b buffer q).object, h', k') ∧
        Ends r out l ∧ (∀ e, buffer = some e → ∃ held, e.2.Holds held) ∧
        Holds h' (l ++ buffer.toList ++ rest) := by
  have hread : h.read (some p) = some com := hh.cell_head
  induction answers generalizing com held h k with
  | nil =>
      by_cases hfull : com.full = true
      · obtain ⟨h', hwrite, hh', -⟩ := hh.write { com with offset := 0 }
        exact ⟨_, _, _, none, h', k, Client.fill_of_full K _ k [] hfull,
          fill_of_full [] hread hfull hwrite, .command p _ (backed_of_full hcom hfull), nofun, hh'⟩
      · exact ⟨_, _, _, some (p, com), h, k, Client.fill_nil K _ k hfull, fill_nil hread hfull,
          .null, received_some p hcom, hh⟩
  | cons a answers ih =>
      by_cases hfull : com.full = true
      · obtain ⟨h', hwrite, hh', -⟩ := hh.write { com with offset := 0 }
        exact ⟨_, _, _, none, h', k, Client.fill_of_full K _ k _ hfull,
          fill_of_full _ hread hfull hwrite, .command p _ (backed_of_full hcom hfull), nofun, hh'⟩
      obtain ⟨⟨r, sender, k₁⟩, hrecv⟩ : ∃ x, K.recv k a com.remaining false = x := ⟨_, rfl⟩
      by_cases hbytes : ∃ bs, r = .bytes bs
      · obtain ⟨bs, rfl⟩ := hbytes
        obtain ⟨com', hrun, hcom', -⟩ := hcom.receive_bytes b hrecv (hK _ _ _ _ _ _ hrecv)
        obtain ⟨h', hwrite, hh', -⟩ := hh.write com'
        by_cases hbs : bs = []
        · have hr : ∀ bs', Recv.bytes bs = .bytes bs' → bs' = [] :=
            fun bs' hbs' => Recv.bytes.inj hbs' ▸ hbs
          exact ⟨_, _, _, some (p, com'), h', k₁, Client.fill_stop answers hfull hrun hr,
            fill_stop answers hread hfull hrun hwrite hr, ends_stop _,
            received_some p hcom', hh'⟩
        · obtain ⟨r, out, l, buffer, h'', k'', hvalue, hmemory, hrest⟩ :=
            ih hcom' hh' k₁ hh'.cell_head
          exact ⟨r, out, l, buffer, h'', k'',
            (Client.fill_more answers hfull hrun hbs).trans hvalue,
            (fill_more answers hread hfull hrun hwrite hbs).trans hmemory, hrest⟩
      · have hr : ∀ bs, r ≠ .bytes bs := fun bs hbs => hbytes ⟨bs, hbs⟩
        obtain ⟨com', hrun, hcom', -⟩ := hcom.receive_none b hrecv hr
        obtain ⟨h', hwrite, hh', -⟩ := hh.write com'
        have hstop : ∀ bs, r = .bytes bs → bs = [] := fun bs hbs => absurd hbs (hr bs)
        exact ⟨_, _, _, some (p, com'), h', k₁, Client.fill_stop answers hfull hrun hstop,
          fill_stop answers hread hfull hrun hwrite hstop, ends_stop _,
          received_some p hcom', hh'⟩

lemma read_of_some (f : Fresh) {o : Object} (answers : List α) (ho : o.rbuffer = some p) :
    read K f o h k answers = fill K o p h k answers := by
  rw [read.eq_def, ho]

lemma read_nil (f : Fresh) {o : Object} (ho : o.rbuffer = none) :
    read K f o h k [] = some (.null, o, h, k) := by
  rw [read.eq_def, ho]

lemma read_head (f : Fresh) {o : Object} (answers : List α) (ho : o.rbuffer = none)
    {s₁ s₀ c₁ c₀ : U8} {sender : Address}
    (hpeek : K.recv k a 4 true = (.bytes [s₁, s₀, c₁, c₀], sender, k')) :
    read K f o h k (a :: answers)
      = fill K { o with rbuffer := some h.next } h.next
          (h.alloc { (Command.new 0).grow f (ntoh16 s₁ s₀).toNat with
                      code := ntoh16 c₁ c₀, size := ntoh16 s₁ s₀, offset := -4 }) k' answers := by
  rw [read.eq_def, ho]
  simp only [hpeek]

lemma read_short (f : Fresh) {o : Object} (answers : List α) (ho : o.rbuffer = none) {r : Recv}
    {sender : Address} (hpeek : K.recv k a 4 true = (r, sender, k'))
    (hr : ∀ bs, r = .bytes bs → bs.length ≠ 4) :
    read K f o h k (a :: answers) = some (stopped r, o, h, k') := by
  rw [read.eq_def, ho]
  simp only [hpeek]
  match r, hr with
  | .bytes [], _ => rfl
  | .bytes [_], _ => rfl
  | .bytes [_, _], _ => rfl
  | .bytes [_, _, _], _ => rfl
  | .bytes [_, _, _, _], hr => exact absurd rfl (hr _ rfl)
  | .bytes (_ :: _ :: _ :: _ :: _ :: _), _ => rfl
  | .again, _ => rfl
  | .error, _ => rfl

/-- **`read`** does in memory what it does to values. A command that it begins is a new one. -/
lemma read_spec (hK : Bounded K) {x : Cells} (hx : x.Fine) (hh : Holds h (x.cells ++ rest))
    (f : Fresh) (k : σ) (answers : List α) :
    ∃ (r : Result) (x' : Cells) (out : Outcome) (l : List (ℕ × Command)) (h' : Store Command)
        (k' : σ), x.client.read K f k answers = some (r, x'.client, k') ∧
      read K f x.object h k answers = some (out, x'.object, h', k') ∧ Ends r out l ∧ x'.Fine ∧
      Holds h' (l ++ x'.cells ++ rest) := by
  obtain ⟨b, buffer, q⟩ := x
  cases buffer with
  | some e =>
      obtain ⟨p, com⟩ := e
      obtain ⟨held, hcom⟩ := hx.buffer (p, com) rfl
      have hcell : Holds h ((p, com) :: (q ++ rest)) := hh
      obtain ⟨r, out, l, buffer, h', k', hvalue, hmemory, hends, hfine, hh'⟩ :=
        fill_spec (b := b) hK hcom hcell (some com) q k answers
      refine ⟨r, ⟨b, buffer, q⟩, out, l, h', k', ?_, ?_, hends, ⟨hfine, hx.queue⟩, ?_⟩
      · rw [Client.read_of_some K f k answers (rfl : (Cells.client _).rbuffer = some com)]
        exact hvalue
      · rw [read_of_some f answers (rfl : (Cells.object _).rbuffer = some p)]
        exact hmemory
      · rw [Cells.cells, ← List.append_assoc, List.append_assoc _ q]
        exact hh'
  | none =>
      have hclient : (Cells.mk b none q).client.rbuffer = none := rfl
      have hobject : (Cells.mk b none q).object.rbuffer = none := rfl
      cases answers with
      | nil =>
          exact ⟨.null, _, .null, [], h, k, Client.read_nil K f k hclient, read_nil f hobject,
            .null, hx, hh⟩
      | cons a answers =>
          obtain ⟨⟨r, sender, k₁⟩, hpeek⟩ : ∃ y, K.recv k a 4 true = y := ⟨_, rfl⟩
          by_cases hhead : ∃ s₁ s₀ c₁ c₀, r = .bytes [s₁, s₀, c₁, c₀]
          · obtain ⟨s₁, s₀, c₁, c₀, rfl⟩ := hhead
            rw [Client.read_head f answers hclient hpeek, read_head f answers hobject hpeek]
            have hcell : Holds h (q ++ rest) := hh
            obtain ⟨r, out, l, buffer, h', k', hvalue, hmemory, hends, hfine, hh'⟩ :=
              fill_spec (b := b) hK (Command.holds_new f (ntoh16 s₁ s₀) (ntoh16 c₁ c₀))
                (hcell.alloc _) none q k₁ answers
            refine ⟨r, ⟨b, buffer, q⟩, out, l, h', k', hvalue, hmemory, hends,
              ⟨hfine, hx.queue⟩, ?_⟩
            rw [Cells.cells, ← List.append_assoc, List.append_assoc _ q]
            exact hh'
          · have hr : ∀ bs, r = .bytes bs → bs.length ≠ 4 := by
              rintro bs rfl hlen
              obtain ⟨s₁, s₀, c₁, c₀, rfl⟩ := List.length_eq_four.mp hlen
              exact hhead ⟨s₁, s₀, c₁, c₀, rfl⟩
            exact ⟨_, _, _, [], h, k₁, Client.read_short f answers hclient hpeek hr,
              read_short f answers hobject hpeek hr, ends_stop r, hx, hh⟩

end Reading

/-! ### Writing -/

section Writing

variable {p : ℕ} {com : Command} {h : Store Command} {rest : List (ℕ × Command)}

/-- **The inner loop of `flush`**, on a command that waits. -/
lemma sendAll_spec (hcom : com.Queued) (hh : Holds h ((p, com) :: rest)) (accepted : List U8)
    (answers : List Answer) :
    ∃ r com' h' accepted' answers',
      Client.sendAll sink com accepted answers = some (r, com', accepted', answers') ∧
        sendAll sink p h accepted answers = some (r, h', accepted', answers') ∧
        com'.Queued ∧ Holds h' ((p, com') :: rest) := by
  have hread : h.read (some p) = some com := hh.cell_head
  induction answers generalizing com h accepted with
  | nil =>
      rw [sendAll.eq_def, hread, Option.bind_some, Client.sendAll.eq_def]
      by_cases hfull : com.full = true
      · rw [if_pos hfull, if_pos hfull]
        exact ⟨_, com, h, accepted, [], rfl, rfl, hcom, hh⟩
      · rw [if_neg hfull, if_neg hfull]
        exact ⟨_, com, h, accepted, [], rfl, rfl, hcom, hh⟩
  | cons a answers ih =>
      rw [sendAll.eq_def, hread, Option.bind_some, Client.sendAll.eq_def]
      by_cases hfull : com.full = true
      · rw [if_pos hfull, if_pos hfull]
        exact ⟨_, com, h, accepted, _, rfl, rfl, hcom, hh⟩
      rw [if_neg hfull, if_neg hfull]
      obtain ⟨r, accepted₁, hsend, hcom', -⟩ := hcom.send_keeps accepted a
      obtain ⟨h', hwrite, hh', -⟩ := hh.write (com.sentBy r)
      simp only [hsend, hwrite, Option.bind_eq_bind, Option.bind_some]
      cases r with
      | taken n =>
          cases n with
          | zero => exact ⟨_, _, h', _, _, rfl, rfl, hcom', hh'⟩
          | succ n => exact ih hcom' hh' accepted₁ hh'.cell_head
      | again => exact ⟨_, _, h', _, _, rfl, rfl, hcom', hh'⟩
      | error => exact ⟨_, _, h', _, _, rfl, rfl, hcom', hh'⟩

/-- **The outer loop of `flush`**: what was sent is gone from the queue and from the memory. -/
lemma flushQueue_spec {queue : List (ℕ × Command)} (hq : ∀ e ∈ queue, e.2.Queued)
    (hh : Holds h (queue ++ rest)) (accepted : List U8) (answers : List Answer) :
    ∃ r queue' h' accepted',
      Client.flushQueue sink accepted answers (queue.map Prod.snd)
          = some (r, List.map Prod.snd queue', accepted') ∧
        flushQueue sink h accepted answers (queue.map Prod.fst)
          = some (r, List.map Prod.fst queue', h', accepted') ∧
        (∀ e ∈ queue', e.2.Queued) ∧ Holds h' (queue' ++ rest) := by
  induction queue generalizing h accepted answers with
  | nil => exact ⟨.done, [], h, accepted, rfl, rfl, hq, hh⟩
  | cons e queue ih =>
      obtain ⟨p, com⟩ := e
      obtain ⟨hcom, hqueue⟩ := List.forall_mem_cons.mp hq
      obtain ⟨r, com', h₁, accepted₁, answers₁, hvalue, hmemory, hcom', hh₁⟩ :=
        sendAll_spec hcom hh accepted answers
      rw [List.map_cons, List.map_cons, Client.flushQueue, hvalue, flushQueue, hmemory]
      simp only [Option.bind_eq_bind, Option.bind_some]
      cases r with
      | done =>
          obtain ⟨h₂, hfree, hh₂, -⟩ := hh₁.free
          simp only [hfree, Option.bind_some]
          exact ih hqueue hh₂ accepted₁ answers₁
      | again =>
          exact ⟨_, (p, com') :: queue, h₁, accepted₁, rfl, rfl,
            List.forall_mem_cons.mpr ⟨hcom', hqueue⟩, hh₁⟩
      | thrown =>
          exact ⟨_, (p, com') :: queue, h₁, accepted₁, rfl, rfl,
            List.forall_mem_cons.mpr ⟨hcom', hqueue⟩, hh₁⟩

/-- **`flush`** does in memory what it does to values. -/
lemma flush_spec {x : Cells} (hx : x.Fine) (hh : Holds h (x.cells ++ rest)) (accepted : List U8)
    (answers : List Answer) :
    ∃ (r : Progress) (queue : List (ℕ × Command)) (h' : Store Command) (accepted' : List U8),
      x.client.flush sink accepted answers
          = some (r, { x with queue := queue : Cells }.client, accepted') ∧
        flush sink x.object h accepted answers
          = some (r, { x with queue := queue : Cells }.object, h', accepted') ∧
        { x with queue := queue : Cells }.Fine ∧
        Holds h' ({ x with queue := queue : Cells }.cells ++ rest) := by
  have hperm : ∀ queue : List (ℕ × Command),
      ({ x with queue := queue : Cells }.cells ++ rest).Perm
        (queue ++ (x.buffer.toList ++ rest)) := by
    intro queue
    rw [Cells.cells, List.append_assoc]
    exact List.perm_append_comm_assoc _ _ _
  obtain ⟨r, queue, h', accepted', hvalue, hmemory, hqueue, hh'⟩ :=
    flushQueue_spec hx.queue (hh.perm (hperm x.queue)) accepted answers
  refine ⟨r, queue, h', accepted', ?_, ?_, ⟨hx.buffer, hqueue⟩, hh'.perm (hperm queue).symm⟩
  · rw [Client.flush]
    exact Option.bind_eq_some_iff.mpr ⟨_, hvalue, rfl⟩
  · rw [flush]
    exact Option.bind_eq_some_iff.mpr ⟨_, hmemory, rfl⟩

/-- **`write`** of a command that nobody else has. -/
lemma write_spec {x : Cells} (hx : x.Fine) (hcom : com.Backed)
    (hh : Holds h ((p, com) :: (x.cells ++ rest))) (f : Fresh) (accepted : List U8)
    (answers : List Answer) :
    ∃ (r : Progress) (queue : List (ℕ × Command)) (h' : Store Command) (accepted' : List U8),
      x.client.write sink f com accepted answers
          = some (r, { x with queue := queue : Cells }.client, accepted') ∧
        write sink f x.object p h accepted answers
          = some (r, { x with queue := queue : Cells }.object, h', accepted') ∧
        { x with queue := queue : Cells }.Fine ∧
        Holds h' ({ x with queue := queue : Cells }.cells ++ rest) := by
  obtain ⟨com', hhead, hqueued, -⟩ := Command.putHead_queued hcom f
  obtain ⟨h₁, hwrite, hh₁, -⟩ := hh.write com'
  have hread : h.read (some p) = some com := hh.cell_head
  have hx' : { x with queue := x.queue ++ [(p, com')] : Cells }.Fine :=
    ⟨hx.buffer, List.forall_mem_append.mpr ⟨hx.queue, List.forall_mem_singleton.mpr hqueued⟩⟩
  have hh' : Holds h₁ ({ x with queue := x.queue ++ [(p, com')] : Cells }.cells ++ rest) := by
    refine hh₁.perm ?_
    rw [Cells.cells, Cells.cells, ← List.append_assoc x.buffer.toList, List.append_assoc _ [_]]
    exact List.perm_middle.symm
  have hqueue : x.client.wqueue.isEmpty = x.object.wqueue.isEmpty := by
    show (x.queue.map Prod.snd).isEmpty = (x.queue.map Prod.fst).isEmpty
    rw [List.isEmpty_map, List.isEmpty_map]
  have hclient : { x.client with wqueue := x.client.wqueue ++ [com'] }
      = { x with queue := x.queue ++ [(p, com')] : Cells }.client := by
    rw [Cells.client, Cells.client, List.map_append]
    rfl
  have hobject : { x.object with wqueue := x.object.wqueue ++ [p] }
      = { x with queue := x.queue ++ [(p, com')] : Cells }.object := by
    rw [Cells.object, Cells.object, List.map_append]
    rfl
  rw [Client.write, write, hhead, hread]
  simp only [hhead, hwrite, Option.bind_eq_bind, Option.bind_some, hclient, hobject, hqueue]
  split_ifs
  · exact flush_spec hx' hh' accepted answers
  · exact ⟨_, _, h₁, accepted, rfl, rfl, hx', hh'⟩

/-- All commands of a queue are deleted. -/
lemma deleteAll_spec {queue : List (ℕ × Command)} (hh : Holds h (queue ++ rest)) :
    ∃ h', deleteAll h (queue.map Prod.fst) = some h' ∧ Holds h' rest := by
  induction queue generalizing h with
  | nil => exact ⟨h, rfl, hh⟩
  | cons e queue ih =>
      obtain ⟨h₁, hfree, hh₁, -⟩ := Holds.free (a := e.1) (x := e.2) hh
      obtain ⟨h', hrun, hh'⟩ := ih hh₁
      refine ⟨h', ?_, hh'⟩
      rw [List.map_cons, deleteAll, List.foldlM_cons, hfree]
      exact hrun

/-- **`close`** deletes all commands of the client, and no other. -/
lemma close_spec {x : Cells} (hh : Holds h (x.cells ++ rest)) :
    ∃ h', close x.object h = some (⟨false, x.object.rbuffer, []⟩, h') ∧
      Holds h' rest := by
  obtain ⟨b, buffer, q⟩ := x
  cases buffer with
  | none =>
      have hcell : Holds h (q ++ rest) := hh
      obtain ⟨h', hrun, hh'⟩ := deleteAll_spec hcell
      refine ⟨h', ?_, hh'⟩
      rw [close, if_neg (by exact Bool.false_ne_true)]
      exact Option.bind_eq_some_iff.mpr ⟨h, rfl, Option.bind_eq_some_iff.mpr ⟨h', hrun, rfl⟩⟩
  | some e =>
      have hcell : Holds h ((e.1, e.2) :: (q ++ rest)) := hh
      obtain ⟨h₁, hfree, hh₁, -⟩ := hcell.free
      obtain ⟨h', hrun, hh'⟩ := deleteAll_spec hh₁
      refine ⟨h', ?_, hh'⟩
      rw [close, if_pos (by exact rfl)]
      exact Option.bind_eq_some_iff.mpr ⟨h₁, hfree, Option.bind_eq_some_iff.mpr ⟨h', hrun, rfl⟩⟩

end Writing

end Heap

end Napd
