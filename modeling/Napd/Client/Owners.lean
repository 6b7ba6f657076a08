import Napd.Client.Cells
import Napd.Library.Runs

/-!
Who owns the commands of a program.

* `Account`: the clients and the variables of a program, with their commands.
* `Program.Owned`: every command in memory has one owner, a client or the program, and no pointer
  dangles. `Orderly`: the calls that find what they expect.
* `step_simulates`: an orderly call does in memory what it does to values, and every command keeps
  one owner; `not_owned_of_step`: another call faults, or leaves a command that has none, or two.
* `commands_owned`: **a run goes through with one owner for every command if and only if every call
  is orderly.**
* `pointers_refine`: **a run of orderly calls does in memory what it does to values.**
-/

namespace Napd

namespace Heap

open Linked Client

/-- The clients and the commands that the program has, each command at its address. -/
structure Account where
  clients : List (Option Cells)
  held : List (ℕ × Command)

/-- The commands of a client that is there. -/
def cellsOf (x : Option Cells) : List (ℕ × Command) := x.elim [] Cells.cells

namespace Account

/-- The commands of all owners. -/
def cells (A : Account) : List (ℕ × Command) := A.held ++ A.clients.flatMap cellsOf

/-- The commands of all owners but a client. -/
def others (A : Account) (i : ℕ) : List (ℕ × Command) :=
  A.held ++ (A.clients.set i none).flatMap cellsOf

/-- The program in memory. -/
def program (A : Account) (h : Store Command) : Program :=
  ⟨h, A.clients.map (Option.map Cells.object), A.held.map Prod.fst⟩

/-- The program with its commands as values. -/
def values (A : Account) : Values :=
  ⟨A.clients.map (Option.map Cells.client), A.held.map Prod.snd⟩

/-- The commands are as their owners expect them. -/
structure Fine (A : Account) : Prop where
  clients : ∀ x, some x ∈ A.clients → x.Fine
  held : ∀ e ∈ A.held, e.2.Backed

/-- The account with a client changed. -/
def put (A : Account) (i : ℕ) (x : Option Cells) : Account :=
  { A with clients := A.clients.set i x }

end Account

/-- What a program in memory and one with values have in common. -/
def Stands (s : Program) (v : Values) : Prop :=
  ∃ (A : Account) (h : Store Command), A.Fine ∧ s = A.program h ∧ v = A.values ∧ Holds h A.cells

/-! ### The owners -/

/-- The pointers of a client. -/
def Object.pointers (o : Object) : List ℕ := o.rbuffer.toList ++ o.wqueue

/-- The pointers of all owners. -/
def Program.pointers (s : Program) : List ℕ :=
  s.held ++ s.clients.flatMap fun o => o.elim [] Object.pointers

/-- Every command in memory has one owner, and there is one for every pointer. -/
structure Program.Owned (s : Program) : Prop where
  one : s.pointers.Nodup
  live_iff : ∀ p, s.commands.Live p ↔ p ∈ s.pointers

/-- The calls that find what they expect: a client; at an `open` and at a `close`, one that has not
begun to read a command; and a command that the program has, to be written or deleted. -/
def Orderly (s : Program) : Call → Prop
  | .construct _ | .make _ => True
  | .opens i _ | .close i => ∃ o, s.client i = some o ∧ o.rbuffer = none
  | .read i .. | .flush i _ | .destroy i => ∃ o, s.client i = some o
  | .write i _ p _ => (∃ o, s.client i = some o) ∧ p ∈ s.held
  | .delete p => p ∈ s.held

lemma map_fst_cellsOf (x : Option Cells) :
    (cellsOf x).map Prod.fst = (x.map Cells.object).elim [] Object.pointers := by
  cases x with
  | none => rfl
  | some x =>
      show (x.buffer.toList ++ x.queue).map Prod.fst = _
      rw [List.map_append]
      cases hbuffer : x.buffer <;> simp [Object.pointers, Cells.object, hbuffer]

lemma pointers_program (A : Account) (h : Store Command) :
    (A.program h).pointers = A.cells.map Prod.fst := by
  rw [Program.pointers, Account.cells, List.map_append, List.map_flatMap]
  show A.held.map Prod.fst ++ (A.clients.map _).flatMap _ = _
  rw [List.flatMap_map]
  simp only [map_fst_cellsOf]

/-- What the account of a program says. -/
lemma Stands.owned {s : Program} {v : Values} (h : Stands s v) : s.Owned := by
  obtain ⟨A, h, -, rfl, -, hh⟩ := h
  exact ⟨pointers_program A h ▸ hh.nodup, fun p => pointers_program A h ▸ hh.live_iff⟩

/-! ### One client of the program -/

section Client

variable {A : Account} {i : ℕ} {h : Store Command}

lemma flatMap_set_perm {l : List (Option Cells)} (hi : i < l.length) (x : Option Cells) :
    (l.set i x).flatMap cellsOf |>.Perm (cellsOf x ++ (l.set i none).flatMap cellsOf) := by
  rw [List.set_eq_take_append_cons_drop, if_pos hi, List.set_eq_take_append_cons_drop, if_pos hi,
    List.flatMap_append, List.flatMap_append, List.flatMap_cons, List.flatMap_cons]
  exact List.perm_append_comm_assoc _ _ _

/-- The commands of a client, and those of the others. -/
lemma cells_put (hi : i < A.clients.length) (x : Option Cells) :
    (A.put i x).cells.Perm (cellsOf x ++ A.others i) :=
  (List.Perm.append_left A.held (flatMap_set_perm hi x)).trans (List.perm_append_comm_assoc _ _ _)

lemma client_program (h : Store Command) (i : ℕ) :
    (A.program h).client i = (A.clients[i]?.join).map Cells.object := by
  rw [Program.client]
  show (A.clients.map _)[i]?.join = _
  rw [List.getElem?_map]
  cases A.clients[i]? <;> rfl

lemma client_values (i : ℕ) : A.values.client i = (A.clients[i]?.join).map Cells.client := by
  rw [Values.client]
  show (A.clients.map _)[i]?.join = _
  rw [List.getElem?_map]
  cases A.clients[i]? <;> rfl

lemma put_program (i : ℕ) (x : Option Cells) (h' : Store Command) :
    (A.program h).put i (x.map Cells.object) h' = (A.put i x).program h' := by
  rw [Program.put, Account.program, Account.program, Account.put]
  dsimp only
  rw [List.map_set]

lemma put_values (i : ℕ) (x : Option Cells) :
    A.values.put i (x.map Cells.client) = (A.put i x).values := by
  rw [Values.put, Account.values, Account.values, Account.put]
  dsimp only
  rw [List.map_set]

/-- A client that a program has. -/
lemma exists_client (hA : A.Fine) {o : Object} (ho : (A.program h).client i = some o) :
    ∃ x : Cells, x.Fine ∧ o = x.object ∧ A.values.client i = some x.client ∧
      i < A.clients.length ∧
      ∀ B : Account, B.clients = A.clients → B.cells.Perm (x.cells ++ B.others i) := by
  rw [client_program] at ho
  obtain ⟨x, hx, rfl⟩ := Option.map_eq_some_iff.mp ho
  have hget := Option.join_eq_some_iff.mp hx
  obtain ⟨hi, hgetElem⟩ := List.getElem?_eq_some_iff.mp hget
  refine ⟨x, hA.clients x (List.mem_of_getElem? hget), rfl, by rw [client_values, hx]; rfl, hi, ?_⟩
  rintro ⟨clients, held⟩ rfl
  have hperm := cells_put (A := ⟨A.clients, held⟩) hi (some x)
  rw [Account.put, ← hgetElem, List.set_getElem_self, hgetElem] at hperm
  exact hperm

lemma Account.Fine.put (hA : A.Fine) {x : Option Cells} (hx : ∀ y, x = some y → y.Fine) :
    (A.put i x).Fine := by
  refine ⟨fun y hy => ?_, hA.held⟩
  rcases List.mem_or_eq_of_mem_set hy with hy | hy
  · exact hA.clients y hy
  · exact hx y hy.symm

/-- The account with more commands that the program has. -/
def Account.take (A : Account) (l : List (ℕ × Command)) : Account := { A with held := A.held ++ l }

lemma cells_take (l : List (ℕ × Command)) : (A.take l).cells.Perm (l ++ A.cells) := by
  show (A.held ++ l ++ A.clients.flatMap cellsOf).Perm (l ++ (A.held ++ A.clients.flatMap cellsOf))
  rw [List.append_assoc]
  exact List.perm_append_comm_assoc _ _ _

lemma Account.Fine.take (hA : A.Fine) {l : List (ℕ × Command)} (hl : ∀ e ∈ l, e.2.Backed) :
    (A.take l).Fine :=
  ⟨hA.clients, List.forall_mem_append.mpr ⟨hA.held, hl⟩⟩

lemma take_program (l : List (ℕ × Command)) (h : Store Command) :
    (A.take l).program h
      = { A.program h with held := (A.program h).held ++ l.map Prod.fst } :=
  congrArg (Program.mk _ _) List.map_append

lemma take_values (l : List (ℕ × Command)) :
    (A.take l).values = { A.values with held := A.values.held ++ l.map Prod.snd } :=
  congrArg (Values.mk _) List.map_append

/-- The account without one of the commands that the program has. -/
def Account.give (A : Account) (n : ℕ) : Account := { A with held := A.held.eraseIdx n }

lemma Account.Fine.give (hA : A.Fine) (n : ℕ) : (A.give n).Fine :=
  ⟨hA.clients, fun e he => hA.held e (List.mem_of_mem_eraseIdx he)⟩

lemma give_values {n m : ℕ} (h : m = n) : A.values.held.eraseIdx m = (A.give n).values.held := by
  rw [h]
  exact List.eraseIdx_map Prod.snd A.held n

/-- A command that the program has. -/
lemma exists_held (hA : A.Fine) {p : ℕ} (hp : p ∈ (A.program h).held) :
    ∃ (n : ℕ) (com : Command), (A.program h).held.idxOf p = n ∧ A.values.held[n]? = some com ∧
      com.Backed ∧ A.cells.Perm ((p, com) :: (A.give n).cells) ∧
      (A.program h).held.erase p = (A.give n).held.map Prod.fst := by
  obtain ⟨n, hn⟩ : ∃ n, (A.program h).held.idxOf p = n := ⟨_, rfl⟩
  have hlt : n < (A.program h).held.length := hn ▸ List.idxOf_lt_length_of_mem hp
  have hlen : n < A.held.length := by
    have hmap : (A.program h).held.length = A.held.length := List.length_map _
    omega
  have hname : A.held[n].1 = p := by
    have hget : (A.program h).held[n] = p := by
      subst hn
      exact List.getElem_idxOf hlt
    rw [← hget]
    exact (List.getElem_map Prod.fst).symm
  have hcell : (p, A.held[n].2) = A.held[n] := by rw [← hname]
  refine ⟨n, A.held[n].2, hn, ?_, hA.held _ (List.getElem_mem hlen), ?_, ?_⟩
  · show (A.held.map Prod.snd)[n]? = _
    rw [List.getElem?_map, List.getElem?_eq_getElem hlen]
    rfl
  · rw [hcell]
    exact (List.getElem_cons_eraseIdx_perm hlen).symm.append_right _
  · rw [List.erase_eq_eraseIdx_of_idxOf hn]
    exact List.eraseIdx_map Prod.fst A.held n

end Client

/-! ### Orderly calls -/

section Orderly

variable {A : Account} {i : ℕ} {h h' : Store Command}

/-- A client is changed that has commands. -/
lemma fine_some {x : Cells} (hx : x.Fine) : ∀ y, some x = some y → y.Fine := by
  rintro y hy
  cases hy
  exact hx

/-- The pointer that is handed out, and the command behind it. -/
lemma Ends.handed {r : Result} {out : Outcome} {l : List (ℕ × Command)} (h : Ends r out l) :
    out.pointer.toList = l.map Prod.fst ∧ r.command?.toList = l.map Prod.snd ∧
      ∀ e ∈ l, e.2.Backed := by
  cases h with
  | command p com hback => exact ⟨rfl, rfl, List.forall_mem_singleton.mpr hback⟩
  | null => exact ⟨rfl, rfl, nofun⟩
  | thrown => exact ⟨rfl, rfl, nofun⟩

/-- The name of a call in terms of values: the place of the command that it names. -/
def Program.name (s : Program) (call : Call) : Call := call.rename fun p => s.held.idxOf p

/-- A call does in memory what it does to values. -/
def Simulates (A : Account) (h : Store Command) (call : Call) : Prop :=
  ∃ (A' : Account) (h' : Store Command), (A.program h).step call = some (A'.program h') ∧
    A.values.step ((A.program h).name call) = some A'.values ∧ A'.Fine ∧ Holds h' A'.cells

section Calls

variable (hA : A.Fine) (hh : Holds h A.cells)
include hA hh

/-- A constructor: a client without commands. -/
lemma simulates_construct (b : Bool) :
    Simulates A h (.construct b) := by
  refine ⟨{ A with clients := A.clients ++ [some ⟨b, none, []⟩] }, h, ?_, ?_, ⟨?_, hA.held⟩, ?_⟩
  · refine congrArg some (congrArg (fun l => Program.mk h l _) ?_)
    rw [List.map_append]
    rfl
  · refine congrArg some (congrArg (fun l => Values.mk l _) ?_)
    rw [List.map_append]
    rfl
  · intro x hx
    rcases List.mem_append.mp hx with hx | hx
    · exact hA.clients x hx
    · cases List.mem_singleton.mp hx
      exact ⟨nofun, nofun⟩
  · have hcells : ({ A with clients := A.clients ++ [some ⟨b, none, []⟩] } : Account).cells
        = A.cells := by
      simp [Account.cells, cellsOf, Cells.cells]
    rw [hcells]
    exact hh

/-- `open`, of a client that has begun no command. -/
lemma simulates_opens {i : ℕ} {o : Object} (ho : (A.program h).client i = some o)
    (hidle : o.rbuffer = none) (b : Bool) :
    Simulates A h (.opens i b) := by
  obtain ⟨x, hx, rfl, hclient, hi, hperm⟩ := exists_client hA ho
  have hbuffer : x.buffer = none := Option.map_eq_none_iff.mp hidle
  refine ⟨A.put i (some ⟨b, none, x.queue⟩), h, ?_, ?_, hA.put (fine_some ⟨nofun, hx.queue⟩), ?_⟩
  · rw [Program.step, ho, ← put_program]
    rfl
  · show (A.values.client i).map _ = _
    rw [hclient, ← put_values]
    rfl
  · refine hh.perm ((hperm A rfl).trans ?_)
    rw [Cells.cells, hbuffer]
    exact (cells_put hi (some ⟨b, none, x.queue⟩)).symm

/-- `read`: the program gets what it hands out. -/
lemma simulates_read {i : ℕ} {o : Object} (ho : (A.program h).client i = some o) (f : Fresh)
    (answers : List (Recv × Address)) :
    Simulates A h (.read i f answers) := by
  obtain ⟨x, hx, rfl, hclient, hi, hperm⟩ := exists_client hA ho
  obtain ⟨r, x', out, l, h', k', hvalue, hmemory, hends, hx', hh'⟩ :=
    read_spec wire_bounded hx (hh.perm (hperm A rfl)) f nothing answers
  obtain ⟨hpointers, hcommands, hbacked⟩ := hends.handed
  refine ⟨(A.put i (some x')).take l, h', ?_, ?_, (hA.put (fine_some hx')).take hbacked, ?_⟩
  · rw [Program.step, ho, Option.bind_some]
    show (Heap.read wire f x.object h nothing answers).map _ = _
    rw [hmemory, Option.map_some, hpointers, take_program, ← put_program]
    rfl
  · show (A.values.client i).bind _ = _
    rw [hclient, Option.bind_some, hvalue, Option.map_some, hcommands, take_values, ← put_values]
    rfl
  · refine hh'.perm ?_
    rw [List.append_assoc]
    exact ((cells_take l).trans ((cells_put hi (some x')).append_left l)).symm

/-- `write` of a command that the program has. -/
lemma simulates_write {i p : ℕ} {o : Object} (ho : (A.program h).client i = some o)
    (hp : p ∈ (A.program h).held) (f : Fresh) (answers : List Answer) :
    Simulates A h (.write i f p answers) := by
  obtain ⟨x, hx, rfl, hclient, hi, hperm⟩ := exists_client hA ho
  obtain ⟨n, com, hn, hcom, hback, hcells, hheld⟩ := exists_held hA hp
  have hrest : A.cells.Perm ((p, com) :: (x.cells ++ (A.give n).others i)) :=
    hcells.trans ((hperm (A.give n) rfl).cons _)
  obtain ⟨r, queue, h', accepted, hvalue, hmemory, hx', hh'⟩ :=
    write_spec hx hback (hh.perm hrest) f [] answers
  refine ⟨(A.give n).put i (some { x with queue := queue }), h', ?_, ?_,
    (hA.give n).put (fine_some hx'), hh'.perm ?_⟩
  · rw [Program.step, ho, Option.bind_some]
    show (Heap.write sink f x.object p h [] answers).map _ = _
    rw [hmemory, Option.map_some, hheld, ← put_program (h := h)]
    rfl
  · show (A.values.client i).bind _ = _
    rw [hclient, Option.bind_some]
    show (A.values.held[(A.program h).held.idxOf p]?).bind _ = _
    rw [hn, hcom, Option.bind_some, hvalue, Option.map_some, ← put_values]
    exact congrArg some (congrArg (Values.mk _) (give_values hn))
  · exact (cells_put (A := A.give n) hi (some { x with queue := queue })).symm

/-- `flush`. -/
lemma simulates_flush {i : ℕ} {o : Object} (ho : (A.program h).client i = some o)
    (answers : List Answer) : Simulates A h (.flush i answers) := by
  obtain ⟨x, hx, rfl, hclient, hi, hperm⟩ := exists_client hA ho
  obtain ⟨r, queue, h', accepted, hvalue, hmemory, hx', hh'⟩ :=
    flush_spec hx (hh.perm (hperm A rfl)) [] answers
  refine ⟨A.put i (some { x with queue := queue }), h', ?_, ?_, hA.put (fine_some hx'),
    hh'.perm (cells_put hi (some { x with queue := queue })).symm⟩
  · rw [Program.step, ho, Option.bind_some]
    show (Heap.flush sink x.object h [] answers).map _ = _
    rw [hmemory, Option.map_some, ← put_program (h := h)]
    rfl
  · show (A.values.client i).bind _ = _
    rw [hclient, Option.bind_some, hvalue, Option.map_some, ← put_values]
    rfl

/-- `close`, of a client that has begun no command. -/
lemma simulates_close {i : ℕ} {o : Object} (ho : (A.program h).client i = some o)
    (hidle : o.rbuffer = none) : Simulates A h (.close i) := by
  obtain ⟨x, hx, rfl, hclient, hi, hperm⟩ := exists_client hA ho
  obtain ⟨h', hmemory, hh'⟩ := close_spec (hh.perm (hperm A rfl))
  refine ⟨A.put i (some ⟨false, none, []⟩), h', ?_, ?_, hA.put (fine_some ⟨nofun, nofun⟩),
    hh'.perm (cells_put hi (some ⟨false, none, []⟩)).symm⟩
  · rw [Program.step, ho, Option.bind_some]
    show (Heap.close x.object h).map _ = _
    rw [hmemory, Option.map_some, hidle, ← put_program (h := h)]
    rfl
  · show (A.values.client i).map _ = _
    rw [hclient, ← put_values]
    rfl

/-- The destructor. -/
lemma simulates_destroy {i : ℕ} {o : Object} (ho : (A.program h).client i = some o) :
    Simulates A h (.destroy i) := by
  obtain ⟨x, hx, rfl, hclient, hi, hperm⟩ := exists_client hA ho
  obtain ⟨h', hmemory, hh'⟩ := close_spec (hh.perm (hperm A rfl))
  refine ⟨A.put i none, h', ?_, ?_, hA.put nofun, hh'.perm (cells_put hi none).symm⟩
  · rw [Program.step, ho, Option.bind_some]
    show (Heap.close x.object h).map _ = _
    rw [hmemory, Option.map_some, ← put_program (h := h)]
    rfl
  · show (A.values.client i).map _ = _
    rw [hclient, ← put_values]
    rfl

/-- `new`. -/
lemma simulates_make (com : {com : Command // com.Backed}) :
    Simulates A h (.make com) := by
  refine ⟨A.take [(h.next, com.val)], h.alloc com.val, ?_, ?_,
    hA.take (List.forall_mem_singleton.mpr com.property),
    (hh.alloc com.val).perm (cells_take [(h.next, com.val)]).symm⟩
  · rw [take_program]
    rfl
  · rw [take_values]
    rfl

/-- `delete` of a command that the program has. -/
lemma simulates_delete {p : ℕ} (hcall : p ∈ (A.program h).held) :
    Simulates A h (.delete p) := by
  obtain ⟨n, com, hn, hcom, -, hcells, hheld⟩ := exists_held hA hcall
  obtain ⟨h', hfree, hh', -⟩ := (hh.perm hcells).free
  refine ⟨A.give n, h', ?_, ?_, hA.give n, hh'⟩
  · show (h.free (some p)).map _ = _
    rw [hfree, Option.map_some, hheld]
    rfl
  · show (A.values.held[(A.program h).held.idxOf p]?).map _ = _
    rw [hn, hcom, Option.map_some]
    exact congrArg some (congrArg (Values.mk _) (give_values hn))

end Calls

/-- **An orderly call** does in memory what it does to values. -/
lemma simulates_of_orderly (hA : A.Fine) (hh : Holds h A.cells) {call : Call}
    (hcall : Orderly (A.program h) call) : Simulates A h call := by
  cases call with
  | construct b => exact simulates_construct hA hh b
  | opens i b =>
      obtain ⟨o, ho, hidle⟩ := hcall
      exact simulates_opens hA hh ho hidle b
  | read i f answers =>
      obtain ⟨o, ho⟩ := hcall
      exact simulates_read hA hh ho f answers
  | write i f p answers =>
      obtain ⟨⟨o, ho⟩, hp⟩ := hcall
      exact simulates_write hA hh ho hp f answers
  | flush i answers =>
      obtain ⟨o, ho⟩ := hcall
      exact simulates_flush hA hh ho answers
  | close i =>
      obtain ⟨o, ho, hidle⟩ := hcall
      exact simulates_close hA hh ho hidle
  | destroy i =>
      obtain ⟨o, ho⟩ := hcall
      exact simulates_destroy hA hh ho
  | make com => exact simulates_make hA hh com
  | delete p => exact simulates_delete hA hh hcall

end Orderly

lemma step_simulates {s : Program} {v : Values} {call : Call} (hS : Stands s v)
    (hcall : Orderly s call) :
    ∃ s' v', s.step call = some s' ∧ v.step (s.name call) = some v' ∧ Stands s' v' := by
  obtain ⟨A, h, hA, rfl, rfl, hh⟩ := hS
  obtain ⟨A', h', hstep, hvalues, hA', hh'⟩ := simulates_of_orderly hA hh hcall
  exact ⟨_, _, hstep, hvalues, A', h', hA', rfl, rfl, hh'⟩

/-! ### Other calls -/

section Disorderly

variable {A : Account} {i p : ℕ} {h h' : Store Command}

/-- An object, with any commands. -/
lemma exists_cells (o : Object) : ∃ x : Cells, x.object = o := by
  refine ⟨⟨o.connected, o.rbuffer.map fun p => (p, Command.new 0),
    o.wqueue.map fun p => (p, Command.new 0)⟩, ?_⟩
  simp [Cells.object, Function.comp_def]

/-- The pointers of a program, when a client is changed. -/
lemma pointers_put (hi : i < A.clients.length) (o : Object) (h' : Store Command) :
    ((A.program h).put i (some o) h').pointers.Perm
      (o.pointers ++ (A.others i).map Prod.fst) := by
  obtain ⟨x, rfl⟩ := exists_cells o
  have hput : (A.program h).put i (some x.object) h' = (A.put i (some x)).program h' :=
    put_program i (some x) h'
  rw [hput, pointers_program]
  refine ((cells_put hi (some x)).map Prod.fst).trans (List.Perm.of_eq ?_)
  rw [List.map_append]
  exact congrArg (· ++ _) (map_fst_cellsOf (some x))

/-- A pointer is gone, and its command is not: it is lost. -/
lemma not_owned_of_lost {s : Program} (hlive : s.commands.Live p) (hp : p ∉ s.pointers) :
    ¬ s.Owned :=
  fun h => hp ((h.live_iff p).mp hlive)

/-- A command is gone, and a pointer to it is not: it dangles. -/
lemma not_owned_of_dead {s : Program} (hdead : ¬ s.commands.Live p) (hp : p ∈ s.pointers) :
    ¬ s.Owned :=
  fun h => hdead ((h.live_iff p).mpr hp)

lemma not_live_of_free {p : ℕ} (hfree : h.free (some p) = some h') : ¬ h'.Live p := by
  have hlive : h.Live p := fun hnone => by
    rw [Store.free, if_pos hnone] at hfree
    cases hfree
  obtain ⟨h'', hfree', hdead, -⟩ := Store.exists_free hlive
  rw [hfree, Option.some.injEq] at hfree'
  rw [hfree', Store.Live, not_not]
  exact hdead

/-- A queue of one command: it waits there still, or it is deleted. -/
lemma flushQueue_single {r : Progress} {queue : List ℕ} {accepted accepted' : List U8}
    {answers : List Answer}
    (hrun : flushQueue sink h accepted answers [p] = some (r, queue, h', accepted')) :
    queue = [p] ∨ queue = [] ∧ ¬ h'.Live p := by
  rw [flushQueue] at hrun
  obtain ⟨⟨r₁, h₁, accepted₁, answers₁⟩, -, hrun⟩ := Option.bind_eq_some_iff.mp hrun
  cases r₁ with
  | done =>
      obtain ⟨h₂, hfree, hrun⟩ := Option.bind_eq_some_iff.mp hrun
      cases hrun
      exact .inr ⟨rfl, not_live_of_free hfree⟩
  | again =>
      cases hrun
      exact .inl rfl
  | thrown =>
      cases hrun
      exact .inl rfl

/-- A `write` of any pointer: it stands behind the queue, or the queue was empty and it is
deleted. -/
lemma write_pointers {f : Fresh} {o o' : Object} {r : Progress} {accepted accepted' : List U8}
    {answers : List Answer}
    (hrun : write sink f o p h accepted answers = some (r, o', h', accepted')) :
    h.Live p ∧ (o'.pointers = o.pointers ++ [p] ∨ o'.pointers = o.pointers ∧ ¬ h'.Live p) := by
  rw [write] at hrun
  obtain ⟨com, hread, hrun⟩ := Option.bind_eq_some_iff.mp hrun
  obtain ⟨com', -, hrun⟩ := Option.bind_eq_some_iff.mp hrun
  obtain ⟨h₁, -, hrun⟩ := Option.bind_eq_some_iff.mp hrun
  refine ⟨Store.live_of_cell hread, ?_⟩
  dsimp only at hrun
  split_ifs at hrun with hempty
  · rw [flush] at hrun
    obtain ⟨⟨r₂, queue, h₂, accepted₂⟩, hflush, hrun⟩ := Option.bind_eq_some_iff.mp hrun
    cases hrun
    have hnil : o.wqueue = [] := List.isEmpty_iff.mp hempty
    rw [hnil, List.nil_append] at hflush
    rw [Object.pointers, Object.pointers, hnil, List.append_nil]
    rcases flushQueue_single hflush with rfl | ⟨rfl, hdead⟩
    · exact .inl rfl
    · exact .inr ⟨List.append_nil _, hdead⟩
  · cases hrun
    exact .inl (by rw [Object.pointers, Object.pointers, List.append_assoc])

/-- The pointers of a client and of the others. -/
lemma pointers_client {x : Cells} (hperm : A.cells.Perm (x.cells ++ A.others i)) :
    (A.program h).pointers.Perm (x.object.pointers ++ (A.others i).map Prod.fst) := by
  rw [pointers_program]
  refine (hperm.map Prod.fst).trans (List.Perm.of_eq ?_)
  rw [List.map_append]
  exact congrArg (· ++ _) (map_fst_cellsOf (some x))

/-- A client that has begun to read a command. -/
lemma exists_begun (hA : A.Fine) (hh : Holds h A.cells) {o : Object}
    (ho : (A.program h).client i = some o) (hbegun : o.rbuffer ≠ none) :
    ∃ (e : ℕ × Command) (q : List (ℕ × Command)), o.rbuffer = some e.1 ∧ o.wqueue = q.map Prod.fst ∧
      i < A.clients.length ∧ Holds h (e :: (q ++ A.others i)) := by
  obtain ⟨⟨b, buffer, q⟩, -, rfl, -, hi, hperm⟩ := exists_client hA ho
  cases buffer with
  | none => exact absurd rfl hbegun
  | some e => exact ⟨e, q, rfl, rfl, hi, hh.perm (hperm A rfl)⟩

/-- `open`, of a client that has begun to read a command: the command is lost. -/
lemma not_owned_opens (hA : A.Fine) (hh : Holds h A.cells) {o : Object}
    (ho : (A.program h).client i = some o) (hbegun : o.rbuffer ≠ none) (b : Bool) :
    ¬ ((A.program h).put i (some { o with connected := b, rbuffer := none }) h).Owned := by
  obtain ⟨e, q, -, hqueue, hi, hcells⟩ := exists_begun hA hh ho hbegun
  refine not_owned_of_lost (p := e.1) (Store.live_of_cell hcells.cell_head) fun hmem => ?_
  have hleft := (@pointers_put A i h hi _ h).mem_iff.mp hmem
  have hnodup := hcells.nodup
  rw [List.map_cons, List.nodup_cons, List.map_append, ← hqueue] at hnodup
  exact hnodup.1 hleft

/-- `close`, of a client that has begun to read a command: the pointer to it dangles. -/
lemma not_owned_close (hA : A.Fine) (hh : Holds h A.cells) {o o' : Object}
    (ho : (A.program h).client i = some o) (hbegun : o.rbuffer ≠ none)
    (hclose : close o h = some (o', h')) : ¬ ((A.program h).put i (some o') h').Owned := by
  obtain ⟨x, -, rfl, -, hi, hperm⟩ := exists_client hA ho
  obtain ⟨e, q, hbuffer, -, -, hcells⟩ := exists_begun hA hh ho hbegun
  obtain ⟨h₁, hclosed, hh₁⟩ := close_spec (hh.perm (hperm A rfl))
  rw [hclosed] at hclose
  cases hclose
  refine not_owned_of_dead (p := e.1) ?_ ?_
  · have hnodup := hcells.nodup
    rw [List.map_cons, List.nodup_cons, List.map_append, List.mem_append, not_or] at hnodup
    show ¬ h'.Live e.1
    rw [hh₁.live_iff]
    exact hnodup.1.2
  · rw [(pointers_put hi _ h').mem_iff, hbuffer]
    exact List.mem_append_left _ (List.mem_append_left _ (List.mem_singleton.mpr rfl))

/-- `write`, of a command of somebody else: it waits twice, or is deleted under its owner. -/
lemma not_owned_write (hA : A.Fine) (howned : (A.program h).Owned) {o o' : Object} {f : Fresh}
    {r : Progress} {accepted : List U8} {answers : List Answer}
    (ho : (A.program h).client i = some o)
    (hrun : write sink f o p h [] answers = some (r, o', h', accepted)) :
    ¬ ((A.program h).put i (some o') h').Owned := by
  obtain ⟨x, -, rfl, -, hi, hperm⟩ := exists_client hA ho
  obtain ⟨hlive, hpointers⟩ := write_pointers hrun
  have hmem : p ∈ x.object.pointers ++ (A.others i).map Prod.fst :=
    (pointers_client (hperm A rfl)).mem_iff.mp ((howned.live_iff p).mp hlive)
  have hafter := @pointers_put A i h hi o' h'
  rcases hpointers with htwice | ⟨hsame, hdead⟩
  · intro howned'
    have hnodup := hafter.nodup_iff.mp howned'.one
    rw [htwice, List.append_assoc] at hnodup
    exact (List.nodup_cons.mp (List.nodup_middle.mp hnodup)).1 hmem
  · refine not_owned_of_dead hdead ?_
    rw [hafter.mem_iff, hsame]
    exact hmem

/-- **A call that is not orderly** faults, or some command has no owner or two, or a pointer to
none is left. -/
lemma not_owned_of_step {s s' : Program} {v : Values} {call : Call} (hS : Stands s v)
    (hcall : ¬ Orderly s call) (hstep : s.step call = some s') : ¬ s'.Owned := by
  have howned := hS.owned
  obtain ⟨A, h, hA, rfl, rfl, hh⟩ := hS
  cases call with
  | construct b => exact absurd trivial hcall
  | make com => exact absurd trivial hcall
  | opens i b =>
      obtain ⟨o, ho, rfl⟩ := Option.map_eq_some_iff.mp hstep
      exact not_owned_opens hA hh ho (fun hnone => hcall ⟨o, ho, hnone⟩) b
  | close i =>
      obtain ⟨o, ho, hstep⟩ := Option.bind_eq_some_iff.mp hstep
      obtain ⟨⟨o', h'⟩, hclose, rfl⟩ := Option.map_eq_some_iff.mp hstep
      exact not_owned_close hA hh ho (fun hnone => hcall ⟨o, ho, hnone⟩) hclose
  | read i f answers =>
      obtain ⟨o, ho, -⟩ := Option.bind_eq_some_iff.mp hstep
      exact absurd ⟨o, ho⟩ hcall
  | flush i answers =>
      obtain ⟨o, ho, -⟩ := Option.bind_eq_some_iff.mp hstep
      exact absurd ⟨o, ho⟩ hcall
  | destroy i =>
      obtain ⟨o, ho, -⟩ := Option.bind_eq_some_iff.mp hstep
      exact absurd ⟨o, ho⟩ hcall
  | write i f p answers =>
      obtain ⟨o, ho, hstep⟩ := Option.bind_eq_some_iff.mp hstep
      obtain ⟨⟨r, o', h', accepted⟩, hrun, rfl⟩ := Option.map_eq_some_iff.mp hstep
      rw [List.erase_of_not_mem fun hp => hcall ⟨⟨o, ho⟩, hp⟩]
      exact not_owned_write hA howned ho hrun
  | delete p =>
      obtain ⟨h', hfree, rfl⟩ := Option.map_eq_some_iff.mp hstep
      have hlive : h.Live p := fun hnone => by
        have hfault : h.free (some p) = none := if_pos hnone
        exact absurd (hfault.symm.trans hfree) nofun
      rw [List.erase_of_not_mem hcall]
      exact not_owned_of_dead (not_live_of_free hfree) ((howned.live_iff p).mp hlive)

end Disorderly

/-! ### Runs -/

lemma start_stands : Stands Program.start Values.start :=
  ⟨⟨[], []⟩, Store.empty, ⟨nofun, nofun⟩, rfl, rfl, Holds.empty⟩

/-- **Every command has one owner**, over every run of the calls on any clients: a run goes through,
no command is lost, deleted twice, used after that or held by two, and no pointer dangles, if and
only if no client is opened or closed when it has begun to read a command, and what is written or
deleted is a command that the program has. -/
theorem commands_owned (calls : List Call) :
    Runs.Always Program.step (fun s call => ∃ s', s.step call = some s' ∧ s'.Owned) Program.start
        calls
      ↔ Runs.Always Program.step Orderly Program.start calls := by
  refine Runs.Always.iff_of_keeps (I := fun s => ∃ v, Stands s v) ?_ ?_ ⟨_, start_stands⟩
  · rintro s call s' ⟨v, hS⟩ hcall hstep
    obtain ⟨s₁, v', hstep', -, hS'⟩ := step_simulates hS hcall
    exact ⟨v', Option.some.inj (hstep'.symm.trans hstep) ▸ hS'⟩
  · rintro s call ⟨v, hS⟩
    constructor
    · rintro ⟨s', hstep, howned⟩
      by_contra hcall
      exact not_owned_of_step hS hcall hstep howned
    · intro hcall
      obtain ⟨s', v', hstep, -, hS'⟩ := step_simulates hS hcall
      exact ⟨s', hstep, hS'.owned⟩

/-! ### The values -/

/-- A client in memory, with its commands as values. -/
def Object.view (h : Store Command) (o : Object) : Client :=
  ⟨o.connected, o.rbuffer.bind h.cell, o.wqueue.filterMap h.cell⟩

/-- A program in memory, with its commands as values. -/
def Program.view (s : Program) : Values :=
  ⟨s.clients.map (Option.map (Object.view s.commands)), s.held.filterMap s.commands.cell⟩

lemma filterMap_cell {h : Store Command} {l : List (ℕ × Command)}
    (hl : ∀ e ∈ l, h.cell e.1 = some e.2) : (l.map Prod.fst).filterMap h.cell = l.map Prod.snd := by
  induction l with
  | nil => rfl
  | cons e l ih =>
      obtain ⟨he, hrest⟩ := List.forall_mem_cons.mp hl
      rw [List.map_cons, List.filterMap_cons_some he, ih hrest, List.map_cons]

lemma view_object {h : Store Command} {x : Cells} (hx : ∀ e ∈ x.cells, h.cell e.1 = some e.2) :
    x.object.view h = x.client := by
  obtain ⟨b, buffer, q⟩ := x
  obtain ⟨hbuffer, hqueue⟩ := List.forall_mem_append.mp hx
  rw [Object.view, Cells.client]
  refine congrArg₂ (Client.mk b) ?_ (filterMap_cell hqueue)
  cases buffer with
  | none => rfl
  | some e => exact hbuffer e (List.mem_singleton.mpr rfl)

/-- What the program in memory stands for. -/
lemma Stands.view_eq {s : Program} {v : Values} (h : Stands s v) : s.view = v := by
  obtain ⟨A, h, -, rfl, rfl, hh⟩ := h
  have hcell : ∀ e ∈ A.cells, h.cell e.1 = some e.2 := fun e he => (hh.cell_iff e.1 e.2).mpr he
  obtain ⟨hheld, hclients⟩ := List.forall_mem_append.mp hcell
  refine congrArg₂ Values.mk ?_ (filterMap_cell hheld)
  show (A.clients.map _).map _ = _
  rw [List.map_map]
  refine List.map_congr_left fun x hx => ?_
  cases x with
  | none => rfl
  | some x =>
      refine congrArg some (view_object fun e he => hclients e ?_)
      exact List.mem_flatMap.mpr ⟨some x, hx, he⟩

/-- **Commands in memory are what they are as values**, over every run of orderly calls: it goes
through, and at its end the clients and the program have the commands that they have when the same
calls are made with values in place of pointers. -/
theorem pointers_refine (calls : List Call)
    (h : Runs.Always Program.step Orderly Program.start calls) :
    ∃ s, Runs.run Program.step Program.start calls = some s ∧
      Runs.run Values.step Values.start
          (Runs.translate Program.step Program.name Program.start calls) = some s.view := by
  obtain ⟨s, v, hrun, hvalues, hS⟩ :=
    Runs.run_simulates (fun s v call hS hcall => step_simulates hS hcall) start_stands h
  exact ⟨s, hrun, hS.view_eq ▸ hvalues⟩

/-- Two clients, and a command that is written to the other one. -/
def forwarding (f : Fresh) : List Call :=
  [.construct true, .make ⟨Command.new 5, Command.backed_new 5⟩, .construct false, .write 1 f 0 []]

/-- The memory that the allocator gives. -/
def someFresh : Fresh := ⟨1, one_ne_zero, fun _ => 0⟩

lemma forwarding_orderly :
    Runs.Always Program.step Orderly Program.start (forwarding someFresh) := by
  refine ⟨trivial, fun s₁ h₁ => ?_⟩
  cases h₁
  refine ⟨trivial, fun s₂ h₂ => ?_⟩
  cases h₂
  refine ⟨trivial, fun s₃ h₃ => ?_⟩
  cases h₃
  exact ⟨⟨⟨_, rfl⟩, List.mem_singleton.mpr rfl⟩, fun _ _ => trivial⟩

theorem pointers_refine_forwarding :
    Runs.Always Program.step Orderly Program.start (forwarding someFresh) ∧
      ∃ s, Runs.run Program.step Program.start (forwarding someFresh) = some s ∧
        Runs.run Values.step Values.start
          (Runs.translate Program.step Program.name Program.start (forwarding someFresh))
            = some s.view :=
  ⟨forwarding_orderly, pointers_refine (forwarding someFresh) forwarding_orderly⟩

end Heap

end Napd
