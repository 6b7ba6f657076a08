import Napd.Client.Owners

/-!
The memory of napd: the commands that the loop of `main` makes and deletes, in `napd.cc` and
`server.cc`.

* `Program.reading`, `Program.writing`, `Program.flushing`: the calls of a client, with what they
  return.
* `sayTo`, `hearNet`, `hearDirect`, `serve`: `SAY_TO`, the two branches of the loop, and what
  `check_clients` does with a client. `Main.step`: they, in any order.
* `Leaves`: what a call leaves of the program. One lemma for each of the calls.
* `main_memory`: **every command belongs to a client, but for those that `napdirect.read` returned,
  which stay for ever.**
-/

namespace Napd

namespace Heap

open Linked Client

namespace Program

/-- `read`, with what it returns. -/
def reading (s : Program) (i : ℕ) (f : Fresh) (answers : List (Recv × Address)) :
    Option (Outcome × Program) :=
  (s.client i).bind fun o =>
    (Heap.read wire f o s.commands nothing answers).map fun r =>
      (r.1, { s.put i (some r.2.1) r.2.2.1 with held := s.held ++ r.1.pointer.toList })

/-- `write`, with whether it throws. -/
def writing (s : Program) (i : ℕ) (f : Fresh) (p : ℕ) (answers : List Answer) :
    Option (Progress × Program) :=
  (s.client i).bind fun o =>
    (Heap.write sink f o p s.commands [] answers).map fun r =>
      (r.1, { s.put i (some r.2.1) r.2.2.1 with held := s.held.erase p })

/-- `flush`, with whether it throws. -/
def flushing (s : Program) (i : ℕ) (answers : List Answer) : Option (Progress × Program) :=
  (s.client i).bind fun o =>
    (Heap.flush sink o s.commands [] answers).map fun r =>
      (r.1, s.put i (some r.2.1) r.2.2.1)

end Program

/-! ### The loop of `main` -/

/-- `napnet` and `napdirect`, which are constructed first. -/
def napnet : ℕ := 0
def napdirect : ℕ := 1

/-- A client of the server. -/
def served (i : ℕ) : ℕ := i + 2

/-- What is said, and the kernel's answers. -/
structure Reply where
  fresh : Fresh
  com : {com : Command // com.Backed}
  answers : List Answer

/-- `SAY_TO(&napdirect, ...)`. -/
def sayTo (s : Program) (x : Reply) : Option (Progress × Program) :=
  (s.step (.make x.com)).bind fun t => t.writing napdirect x.fresh s.commands.next x.answers

/-- The program, the commands that `napdirect.read` returned, and whether the loop goes on. -/
structure Main where
  program : Program
  heard : List ℕ
  running : Bool

/-- `if (Command *com = napnet.read())`: a command may be answered, and is deleted. A throw ends the
loop. -/
def hearNet (s : Main) (f : Fresh) (answers : List (Recv × Address)) (reply : Option Reply) :
    Option Main :=
  (s.program.reading napnet f answers).bind fun r =>
    match r.1 with
    | .null => some { s with program := r.2 }
    | .thrown => some { s with program := r.2, running := false }
    | .command p =>
        match reply with
        | none => (r.2.step (.delete p)).map fun t => { s with program := t }
        | some x => (sayTo r.2 x).bind fun w =>
            if w.1 = .thrown then some { s with program := w.2, running := false }
            else (w.2.step (.delete p)).map fun t => { s with program := t }

/-- `if (Command *com = napdirect.read())`: a command is logged. -/
def hearDirect (s : Main) (f : Fresh) (answers : List (Recv × Address)) : Option Main :=
  (s.program.reading napdirect f answers).map fun r =>
    match r.1 with
    | .null => { s with program := r.2 }
    | .thrown => { s with program := r.2, running := false }
    | .command p => { s with program := r.2, heard := s.heard ++ [p] }

/-- `can_read`: a command is read and deleted, or the call throws. -/
def serveRead (s : Program) (i : ℕ) : Option (Fresh × List (Recv × Address)) →
    Option (Bool × Program)
  | none => some (false, s)
  | some x => (s.reading i x.1 x.2).bind fun r =>
      match r.1 with
      | .null => some (false, r.2)
      | .thrown => some (true, r.2)
      | .command p => (r.2.step (.delete p)).map fun t => (false, t)

/-- `can_write`: the queue is flushed. A client whose call throws is removed. -/
def serveWrite (s : Program) (i : ℕ) : Option (List Answer) → Option Program
  | none => some s
  | some answers => (s.flushing i answers).bind fun r =>
      if r.1 = .thrown then r.2.step (.destroy i) else some r.2

/-- What `check_clients` does with a client: whether it is dead, can be read and can be written. -/
def serve (s : Program) (i : ℕ) (dead : Bool) (readable : Option (Fresh × List (Recv × Address)))
    (writable : Option (List Answer)) : Option Program :=
  if dead then s.step (.destroy i)
  else (serveRead s i readable).bind fun r =>
    if r.1 then r.2.step (.destroy i) else serveWrite r.2 i writable

/-- What happens: `accept_loop` has a new client, or deletes it again; `main` says hello; it hears
something; the server serves one of its clients; a signal comes, or `poll` throws; `main` says
goodbye, behind the loop. -/
inductive Event where
  | accept (connected : Bool)
  | refuse
  | hello (x : Reply)
  | net (f : Fresh) (answers : List (Recv × Address)) (reply : Option Reply)
  | direct (f : Fresh) (answers : List (Recv × Address))
  | serve (i : ℕ) (dead : Bool) (readable : Option (Fresh × List (Recv × Address)))
      (writable : Option (List Answer))
  | ends
  | goodbye (x : Reply) (answers : List Answer)

/-- napd when its globals are constructed. -/
def Main.start : Main :=
  ⟨⟨Store.empty, [some ⟨false, none, []⟩, some ⟨false, none, []⟩], []⟩, [], true⟩

/-- napd after an event. Behind the loop only the accept thread goes on. -/
def Main.step (s : Main) : Event → Option Main
  | .accept connected =>
      (s.program.step (.construct connected)).map fun t => { s with program := t }
  | .refuse => (s.program.step (.construct false)).bind fun t =>
      (t.step (.destroy s.program.clients.length)).map fun t => { s with program := t }
  | .hello x =>
      if s.running then
        (sayTo s.program x).map fun w =>
          { s with program := w.2, running := decide (w.1 ≠ .thrown) }
      else some s
  | .net f answers reply => if s.running then hearNet s f answers reply else some s
  | .direct f answers => if s.running then hearDirect s f answers else some s
  | .serve i dead readable writable =>
      if s.running ∧ (s.program.client (served i)).isSome then
        (Heap.serve s.program (served i) dead readable writable).map fun t =>
          { s with program := t }
      else some s
  | .ends => some { s with running := false }
  | .goodbye x answers => (sayTo s.program x).bind fun w =>
      if w.1 = .thrown then some { s with program := w.2, running := false }
      else (w.2.flushing napnet answers).map fun r => { s with program := r.2, running := false }

/-! ### What a call leaves -/

/-- A program that is as it should be, with these commands of its own, and all clients but one. -/
structure Leaves (s s' : Program) (gone : ℕ → Prop) (held : List ℕ) : Prop where
  stands : ∃ v, Stands s' v
  held : s'.held = held
  there : ∀ j o, ¬ gone j → s.client j = some o → ∃ o', s'.client j = some o'

/-- All clients are there. -/
def nobody : ℕ → Prop := fun _ => False

lemma Leaves.refl {s : Program} (hS : ∃ v, Stands s v) (gone : ℕ → Prop) :
    Leaves s s gone s.held :=
  ⟨hS, rfl, fun _ o _ ho => ⟨o, ho⟩⟩

lemma Leaves.trans {s t u : Program} {gone : ℕ → Prop} {l m : List ℕ} (h : Leaves s t nobody l)
    (h' : Leaves t u gone m) : Leaves s u gone m := by
  refine ⟨h'.stands, h'.held, fun j o hj ho => ?_⟩
  obtain ⟨o', ho'⟩ := h.there j o id ho
  exact h'.there j o' hj ho'

section Calls

variable {s s' : Program} (hS : ∃ v, Stands s v) {i : ℕ} {o : Object}

lemma client_put {j : ℕ} (hj : j ≠ i) (o : Option Object) (h : Store Command) :
    (s.put i o h).client j = s.client j := by
  show (s.clients.set i o)[j]?.join = _
  rw [List.getElem?_set_ne hj.symm]
  rfl

/-- A client that is changed is there. -/
lemma there_put (ho : s.client i = some o) (o' : Object) (h : Store Command) (j : ℕ) {o₁ : Object}
    (hj : s.client j = some o₁) : ∃ o₂, (s.put i (some o') h).client j = some o₂ := by
  by_cases hji : j = i
  · subst hji
    obtain ⟨hlt, -⟩ := List.getElem?_eq_some_iff.mp (Option.join_eq_some_iff.mp ho)
    refine ⟨o', ?_⟩
    show (s.clients.set j (some o'))[j]?.join = _
    rw [List.getElem?_set_self hlt]
    rfl
  · exact ⟨o₁, (client_put hji _ h).trans hj⟩

/-- The command that the program got last: it had no pointer to it before. -/
lemma Leaves.last {t : Program} {gone : ℕ → Prop} {l : List ℕ} {p : ℕ}
    (h : Leaves s t gone (l ++ [p])) : p ∈ t.held ∧ t.held.erase p = l := by
  obtain ⟨v, hv⟩ := h.stands
  have hnodup := hv.owned.one
  rw [Program.pointers, h.held] at hnodup
  have hp : p ∉ l := fun hp =>
    (List.nodup_append.mp (List.nodup_append.mp hnodup).1).2.2 p hp p (List.mem_singleton.mpr rfl)
      rfl
  rw [h.held, List.erase_append_right _ hp, List.erase_cons_head, List.append_nil]
  exact ⟨List.mem_append_right _ (List.mem_singleton.mpr rfl), rfl⟩

/-- A call that changes one client. -/
lemma put_leaves (ho : s.client i = some o) {o' : Object} {h : Store Command} {l : List ℕ}
    (hS' : ∃ v, Stands { s.put i (some o') h with held := l } v) :
    Leaves s { s.put i (some o') h with held := l } nobody l :=
  ⟨hS', rfl, fun j _ _ hj => there_put ho o' h j hj⟩

include hS

/-- An orderly call goes through. -/
lemma exists_step {call : Call} (hcall : Orderly s call) :
    ∃ s', s.step call = some s' ∧ ∃ v, Stands s' v := by
  obtain ⟨v, hS⟩ := hS
  obtain ⟨s', v', hstep, -, hS'⟩ := step_simulates hS hcall
  exact ⟨s', hstep, v', hS'⟩

lemma reading_leaves (ho : s.client i = some o) (f : Fresh) (answers : List (Recv × Address)) :
    ∃ out s', s.reading i f answers = some (out, s') ∧
      Leaves s s' nobody (s.held ++ out.pointer.toList) := by
  have hcall : Orderly s (.read i f answers) := ⟨o, ho⟩
  obtain ⟨s', hstep, hS'⟩ := exists_step hS hcall
  change (s.client i).bind _ = _ at hstep
  rw [ho, Option.bind_some] at hstep
  obtain ⟨r, hrun, rfl⟩ := Option.map_eq_some_iff.mp hstep
  refine ⟨r.1, _, ?_, put_leaves ho hS'⟩
  rw [Program.reading, ho, Option.bind_some, hrun]
  rfl

lemma writing_leaves (ho : s.client i = some o) {p : ℕ} (hp : p ∈ s.held) (f : Fresh)
    (answers : List Answer) :
    ∃ r s', s.writing i f p answers = some (r, s') ∧ Leaves s s' nobody (s.held.erase p) := by
  have hcall : Orderly s (.write i f p answers) := ⟨⟨o, ho⟩, hp⟩
  obtain ⟨s', hstep, hS'⟩ := exists_step hS hcall
  change (s.client i).bind _ = _ at hstep
  rw [ho, Option.bind_some] at hstep
  obtain ⟨r, hrun, rfl⟩ := Option.map_eq_some_iff.mp hstep
  refine ⟨r.1, _, ?_, put_leaves ho hS'⟩
  rw [Program.writing, ho, Option.bind_some, hrun]
  rfl

lemma flushing_leaves (ho : s.client i = some o) (answers : List Answer) :
    ∃ r s', s.flushing i answers = some (r, s') ∧ Leaves s s' nobody s.held := by
  have hcall : Orderly s (.flush i answers) := ⟨o, ho⟩
  obtain ⟨s', hstep, hS'⟩ := exists_step hS hcall
  change (s.client i).bind _ = _ at hstep
  rw [ho, Option.bind_some] at hstep
  obtain ⟨r, hrun, rfl⟩ := Option.map_eq_some_iff.mp hstep
  refine ⟨r.1, _, ?_, put_leaves ho hS'⟩
  rw [Program.flushing, ho, Option.bind_some, hrun]
  rfl

lemma construct_leaves (b : Bool) :
    ∃ s', s.step (.construct b) = some s' ∧ Leaves s s' nobody s.held ∧
      (∃ o, s'.client s.clients.length = some o) := by
  have hcall : Orderly s (.construct b) := trivial
  obtain ⟨s', hstep, hS'⟩ := exists_step hS hcall
  obtain rfl := Option.some.inj hstep
  refine ⟨_, rfl, ⟨hS', rfl, fun j o₁ _ hj => ⟨o₁, ?_⟩⟩, ⟨⟨b, none, []⟩, ?_⟩⟩
  · have hlt := (List.getElem?_eq_some_iff.mp (Option.join_eq_some_iff.mp hj)).1
    show (s.clients ++ [_])[j]?.join = _
    rw [List.getElem?_append_left hlt]
    exact hj
  · show (s.clients ++ [_])[s.clients.length]?.join = _
    rw [List.getElem?_append_right le_rfl, Nat.sub_self]
    rfl

lemma destroy_leaves (ho : s.client i = some o) :
    ∃ s', s.step (.destroy i) = some s' ∧ Leaves s s' (fun j => j = i) s.held := by
  have hcall : Orderly s (.destroy i) := ⟨o, ho⟩
  obtain ⟨s', hstep, hS'⟩ := exists_step hS hcall
  have hrun := hstep
  change (s.client i).bind _ = _ at hrun
  rw [ho, Option.bind_some] at hrun
  obtain ⟨r, -, rfl⟩ := Option.map_eq_some_iff.mp hrun
  exact ⟨_, hstep, hS', rfl,
    fun j o₁ hj hclient => ⟨o₁, (client_put hj none r.2).trans hclient⟩⟩

lemma make_leaves (com : {com : Command // com.Backed}) :
    ∃ s', s.step (.make com) = some s' ∧ Leaves s s' nobody (s.held ++ [s.commands.next]) := by
  have hcall : Orderly s (.make com) := trivial
  obtain ⟨s', hstep, hS'⟩ := exists_step hS hcall
  obtain rfl := Option.some.inj hstep
  exact ⟨_, rfl, hS', rfl, fun _ o₁ _ hj => ⟨o₁, hj⟩⟩

lemma delete_leaves {p : ℕ} (hp : p ∈ s.held) :
    ∃ s', s.step (.delete p) = some s' ∧ Leaves s s' nobody (s.held.erase p) := by
  have hcall : Orderly s (.delete p) := hp
  obtain ⟨s', hstep, hS'⟩ := exists_step hS hcall
  have hrun := hstep
  obtain ⟨h', -, rfl⟩ := Option.map_eq_some_iff.mp hrun
  exact ⟨_, hstep, hS', rfl, fun _ o₁ _ hj => ⟨o₁, hj⟩⟩

/-- **`SAY_TO`** gives the command that it makes away. -/
lemma sayTo_leaves (ho : s.client napdirect = some o) (x : Reply) :
    ∃ r s', sayTo s x = some (r, s') ∧ Leaves s s' nobody s.held := by
  obtain ⟨t, hmake, ht⟩ := make_leaves hS x.com
  obtain ⟨o', ho'⟩ := ht.there _ o id ho
  obtain ⟨hmem, hback⟩ := ht.last
  obtain ⟨r, u, hwrite, hu⟩ := writing_leaves ht.stands ho' hmem x.fresh x.answers
  refine ⟨r, u, ?_, hback ▸ ht.trans hu⟩
  rw [sayTo, hmake, Option.bind_some, hwrite]

end Calls

/-- The command that the program got last is deleted. -/
lemma Leaves.delete {s t : Program} {l : List ℕ} {p : ℕ} (h : Leaves s t nobody (l ++ [p])) :
    ∃ u, t.step (.delete p) = some u ∧ Leaves s u nobody l := by
  obtain ⟨hmem, hback⟩ := h.last
  obtain ⟨u, hdelete, hu⟩ := delete_leaves h.stands hmem
  exact ⟨u, hdelete, hback ▸ h.trans hu⟩

/-! ### A client of the server -/

section Server

variable {s : Program} (hS : ∃ v, Stands s v) {i : ℕ} {o : Object} (ho : s.client i = some o)
include hS ho

/-- What is read is deleted. -/
lemma serveRead_leaves (readable : Option (Fresh × List (Recv × Address))) :
    ∃ b t, serveRead s i readable = some (b, t) ∧ Leaves s t nobody s.held := by
  cases readable with
  | none => exact ⟨false, s, rfl, Leaves.refl hS nobody⟩
  | some x =>
      obtain ⟨out, t, hread, ht⟩ := reading_leaves hS ho x.1 x.2
      rw [serveRead, hread, Option.bind_some]
      cases out with
      | null => exact ⟨false, t, rfl, List.append_nil s.held ▸ ht⟩
      | thrown => exact ⟨true, t, rfl, List.append_nil s.held ▸ ht⟩
      | command p =>
          obtain ⟨u, hdelete, hu⟩ := Leaves.delete (p := p) ht
          refine ⟨false, u, ?_, hu⟩
          show (t.step (.delete p)).map _ = _
          rw [hdelete]
          rfl

/-- The queue is flushed, or the client is removed. -/
lemma serveWrite_leaves (writable : Option (List Answer)) :
    ∃ t, serveWrite s i writable = some t ∧ Leaves s t (fun j => j = i) s.held := by
  cases writable with
  | none => exact ⟨s, rfl, Leaves.refl hS _⟩
  | some answers =>
      obtain ⟨r, t, hflush, ht⟩ := flushing_leaves hS ho answers
      rw [serveWrite, hflush, Option.bind_some]
      by_cases hthrown : r = .thrown
      · obtain ⟨o', ho'⟩ := ht.there i o id ho
        obtain ⟨u, hdestroy, hu⟩ := destroy_leaves ht.stands ho'
        rw [if_pos hthrown]
        exact ⟨u, hdestroy, ht.trans (ht.held ▸ hu)⟩
      · rw [if_neg hthrown]
        exact ⟨t, rfl, ht.stands, ht.held, fun j o₁ _ hj => ht.there j o₁ id hj⟩

/-- **`check_clients`**, of one client: it is served, or it is removed. -/
lemma serve_leaves (dead : Bool) (readable : Option (Fresh × List (Recv × Address)))
    (writable : Option (List Answer)) :
    ∃ t, serve s i dead readable writable = some t ∧ Leaves s t (fun j => j = i) s.held := by
  cases dead with
  | true => exact destroy_leaves hS ho
  | false =>
      obtain ⟨b, t, hread, ht⟩ := serveRead_leaves hS ho readable
      obtain ⟨o', ho'⟩ := ht.there i o id ho
      have hserve : serve s i false readable writable
          = if b then t.step (.destroy i) else serveWrite t i writable := by
        show (serveRead s i readable).bind _ = _
        rw [hread]
        rfl
      rw [hserve, ← ht.held]
      cases b with
      | true =>
          obtain ⟨u, hdestroy, hu⟩ := destroy_leaves ht.stands ho'
          exact ⟨u, hdestroy, ht.trans hu⟩
      | false =>
          obtain ⟨u, hwrite, hu⟩ := serveWrite_leaves ht.stands ho' writable
          exact ⟨u, hwrite, ht.trans hu⟩

end Server

/-! ### The loop -/

/-- napd as it is between events: `napnet` and `napdirect` are there, and the program has what
`napdirect.read` returned and, when the loop has ended, one command more, or none. -/
structure Main.Inv (s : Main) : Prop where
  stands : ∃ v, Stands s.program v
  net : ∃ o, s.program.client napnet = some o
  direct : ∃ o, s.program.client napdirect = some o
  held : ∃ l, s.program.held = s.heard ++ l ∧ l.length ≤ 1 ∧ (s.running = true → l = [])

section Loop

variable {s : Main} (h : s.Inv)

lemma Main.start_inv : Main.start.Inv := by
  refine ⟨⟨_, ⟨List.replicate 2 (some ⟨false, none, []⟩), []⟩, Store.empty, ⟨?_, nofun⟩, rfl, rfl,
    Holds.empty⟩, ⟨_, rfl⟩, ⟨_, rfl⟩, [], rfl, Nat.zero_le 1, fun _ => rfl⟩
  intro x hx
  cases List.eq_of_mem_replicate hx
  exact ⟨nofun, nofun⟩

include h

/-- While the loop goes on, the program has what `napdirect.read` returned. -/
lemma Main.Inv.held_eq (hrunning : s.running = true) : s.program.held = s.heard := by
  obtain ⟨l, hheld, -, hnil⟩ := h.held
  rw [hheld, hnil hrunning, List.append_nil]

/-- Calls that leave `napnet` and `napdirect`. -/
lemma Main.Inv.after {t : Program} {gone : ℕ → Prop} {heard l : List ℕ} {running : Bool}
    (ht : Leaves s.program t gone (heard ++ l)) (hnet : ¬ gone napnet) (hdirect : ¬ gone napdirect)
    (hlength : l.length ≤ 1) (hnil : running = true → l = []) :
    Main.Inv ⟨t, heard, running⟩ := by
  obtain ⟨o, ho⟩ := h.net
  obtain ⟨o', ho'⟩ := h.direct
  exact ⟨ht.stands, ht.there _ o hnet ho, ht.there _ o' hdirect ho', l, ht.held, hlength, hnil⟩

/-- Calls after which the program has what `napdirect.read` returned, and no more. -/
lemma Main.Inv.kept {t : Program} {heard : List ℕ} (ht : Leaves s.program t nobody heard)
    (running : Bool) : Main.Inv ⟨t, heard, running⟩ := by
  rw [← List.append_nil heard] at ht
  exact h.after ht id id (Nat.zero_le 1) fun _ => rfl

/-- Calls that leave the commands of the program, too. -/
lemma Main.Inv.same {t : Program} {gone : ℕ → Prop} (ht : Leaves s.program t gone s.program.held)
    (hnet : ¬ gone napnet) (hdirect : ¬ gone napdirect) (running : Bool)
    (hstop : running = true → s.running = true) : Main.Inv ⟨t, s.heard, running⟩ := by
  obtain ⟨l, hheld, hlength, hnil⟩ := h.held
  exact h.after (hheld ▸ ht) hnet hdirect hlength fun hrunning => hnil (hstop hrunning)

/-- A client that is there is not a new one. -/
lemma Main.Inv.lt_length : napdirect < s.program.clients.length := by
  obtain ⟨o, ho⟩ := h.direct
  exact (List.getElem?_eq_some_iff.mp (Option.join_eq_some_iff.mp ho)).1

/-- **`napnet.read`**: the command is deleted, but when a `SAY_TO` throws. -/
lemma Main.Inv.hearNet (hrunning : s.running = true) (f : Fresh) (answers : List (Recv × Address))
    (reply : Option Reply) : ∃ s', hearNet s f answers reply = some s' ∧ s'.Inv := by
  obtain ⟨o, ho⟩ := h.net
  obtain ⟨out, t, hread, ht⟩ := reading_leaves h.stands ho f answers
  rw [h.held_eq hrunning] at ht
  rw [Heap.hearNet, hread, Option.bind_some]
  cases out with
  | null => exact ⟨_, rfl, h.after ht id id (Nat.zero_le 1) fun _ => rfl⟩
  | thrown => exact ⟨_, rfl, h.after ht id id (Nat.zero_le 1) fun _ => rfl⟩
  | command p =>
      cases reply with
      | none =>
          obtain ⟨w, hdelete, hw⟩ := Leaves.delete (p := p) ht
          refine ⟨{ s with program := w }, ?_, h.kept hw s.running⟩
          show (t.step (.delete p)).map _ = _
          rw [hdelete]
          rfl
      | some x =>
          obtain ⟨o', ho'⟩ := h.direct
          obtain ⟨o', ho'⟩ := ht.there _ o' id ho'
          obtain ⟨r, u, hsay, hu⟩ := sayTo_leaves ht.stands ho' x
          have hu : Leaves s.program u nobody (s.heard ++ [p]) := ht.trans (ht.held ▸ hu)
          show ∃ s', (sayTo t x).bind _ = some s' ∧ _
          rw [hsay, Option.bind_some]
          by_cases hthrown : r = .thrown
          · rw [if_pos hthrown]
            exact ⟨_, rfl, h.after hu id id le_rfl nofun⟩
          · obtain ⟨w, hdelete, hw⟩ := hu.delete
            rw [if_neg hthrown, hdelete]
            exact ⟨_, rfl, h.kept hw s.running⟩

/-- **`napdirect.read`**: the command stays. -/
lemma Main.Inv.hearDirect (hrunning : s.running = true) (f : Fresh)
    (answers : List (Recv × Address)) : ∃ s', hearDirect s f answers = some s' ∧ s'.Inv := by
  obtain ⟨o, ho⟩ := h.direct
  obtain ⟨out, t, hread, ht⟩ := reading_leaves h.stands ho f answers
  rw [h.held_eq hrunning] at ht
  rw [Heap.hearDirect, hread, Option.map_some]
  cases out with
  | null => exact ⟨_, rfl, h.after ht id id (Nat.zero_le 1) fun _ => rfl⟩
  | thrown => exact ⟨_, rfl, h.after ht id id (Nat.zero_le 1) fun _ => rfl⟩
  | command p => exact ⟨_, rfl, h.kept ht s.running⟩

/-- **An event**: no call faults. -/
lemma Main.Inv.step (event : Event) : ∃ s', Main.step s event = some s' ∧ s'.Inv := by
  have hsame : ∃ s', some s = some s' ∧ s'.Inv := ⟨s, rfl, h⟩
  cases event with
  | accept connected =>
      obtain ⟨t, hstep, ht, -⟩ := construct_leaves h.stands connected
      rw [Main.step, hstep]
      exact ⟨_, rfl, h.same ht id id s.running id⟩
  | refuse =>
      obtain ⟨t, hstep, ht, o, ho⟩ := construct_leaves h.stands false
      obtain ⟨u, hdestroy, hu⟩ := destroy_leaves ht.stands ho
      have hboth : Leaves s.program u (fun j => j = s.program.clients.length) s.program.held :=
        ht.trans (ht.held ▸ hu)
      have hlength : napdirect < s.program.clients.length := h.lt_length
      rw [Main.step, hstep, Option.bind_some, hdestroy]
      refine ⟨_, rfl, h.same hboth ?_ (Nat.ne_of_lt hlength) s.running id⟩
      exact Nat.ne_of_lt (Nat.zero_lt_of_lt hlength)
  | hello x =>
      rw [Main.step]
      split_ifs with hrunning
      · obtain ⟨o, ho⟩ := h.direct
        obtain ⟨r, t, hsay, ht⟩ := sayTo_leaves h.stands ho x
        rw [hsay]
        exact ⟨_, rfl, h.same ht id id _ fun _ => hrunning⟩
      · exact hsame
  | net f answers reply =>
      rw [Main.step]
      split_ifs with hrunning
      · exact h.hearNet hrunning f answers reply
      · exact hsame
  | direct f answers =>
      rw [Main.step]
      split_ifs with hrunning
      · exact h.hearDirect hrunning f answers
      · exact hsame
  | serve i dead readable writable =>
      rw [Main.step]
      split_ifs with hclient
      · obtain ⟨o, ho⟩ := Option.isSome_iff_exists.mp hclient.2
        obtain ⟨t, hserve, ht⟩ := serve_leaves h.stands ho dead readable writable
        rw [hserve]
        exact ⟨_, rfl, h.same ht (Nat.zero_ne_add_one _) (by simp [napdirect, served]) s.running id⟩
      · exact hsame
  | ends => exact ⟨_, rfl, h.same (Leaves.refl h.stands nobody) id id false nofun⟩
  | goodbye x answers =>
      obtain ⟨o, ho⟩ := h.direct
      obtain ⟨r, t, hsay, ht⟩ := sayTo_leaves h.stands ho x
      rw [Main.step, hsay, Option.bind_some]
      by_cases hthrown : r = .thrown
      · rw [if_pos hthrown]
        exact ⟨_, rfl, h.same ht id id false nofun⟩
      · obtain ⟨o', ho'⟩ := h.net
        obtain ⟨o', ho'⟩ := ht.there _ o' id ho'
        obtain ⟨r', u, hflush, hu⟩ := flushing_leaves ht.stands ho' answers
        rw [if_neg hthrown, hflush]
        exact ⟨_, rfl, h.same (ht.trans (ht.held ▸ hu)) id id false nofun⟩

end Loop

/-- **The memory of napd**: whatever comes in and however the kernel answers, no call faults, and
every command in memory belongs to one client, but for those that `napdirect.read` has returned, all
of which stay, and for one more, or none, when the loop has ended. -/
theorem main_memory (events : List Event) :
    ∃ s, Runs.run Main.step Main.start events = some s ∧ s.program.Owned ∧
      ∃ l, s.program.held = s.heard ++ l ∧ l.length ≤ 1 ∧ (s.running = true → l = []) := by
  obtain ⟨s, hrun, hs⟩ := Runs.run_succeeds (C := fun _ _ => True)
    (fun s event hs _ => Main.Inv.step hs event) Main.start_inv
    (Runs.Always.of_forall (P := fun _ => True) (fun _ _ => trivial) Main.start)
  obtain ⟨v, hS⟩ := hs.stands
  exact ⟨s, hrun, hS.owned, hs.held⟩

end Heap

end Napd
