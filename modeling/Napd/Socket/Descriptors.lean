import Mathlib.Data.Finset.Image
import Napd.Library.Ownership
import Napd.Library.Runs

/-!
The descriptors of `Socket` objects, `socket.hh` and `socket.cc`, and of what is derived from them.

* `Object`: a `Socket`, whose destructor looks whether it is open, or a `Client` or `Server`, whose
  destructor calls `close` in any case. A constructor leaves `fd` as the memory is.
* `Op`, `step`: constructors, `open`, `close`, `accept`, `operator =` and destructors, in any order.
  The kernel gives the lowest free descriptor, or none.
* `Harmless`: the calls that do not close or copy a descriptor which the object does not have.
* `owned_iff`: **in the states of a run every open descriptor belongs to one object, and the rest of
  the program keeps its own, if and only if every call of the run is harmless.**
-/

namespace Napd

namespace Descriptors

open Ownership

/-- What an object is: its destructor tests `opened()`, or does not. -/
inductive Kind where
  | socket
  | derived
  deriving DecidableEq

/-- An object: `fd` and `flags.bit.opened`. -/
structure Object where
  kind : Kind
  fd : ℤ
  opened : Bool

/-- The descriptors that are open in the program, and the objects by their addresses. -/
structure State where
  kernel : Finset ℤ
  objects : ℕ → Option Object

lemma exists_notMem (kernel : Finset ℤ) : ∃ n : ℕ, (n : ℤ) ∉ kernel := by
  obtain ⟨n, hn⟩ := Infinite.exists_notMem_finset
    (kernel.preimage ((↑) : ℕ → ℤ) Nat.cast_injective.injOn)
  exact ⟨n, fun h => hn (Finset.mem_preimage.mpr h)⟩

/-- The lowest descriptor that is not open. -/
def lowest (kernel : Finset ℤ) : ℤ := Nat.find (exists_notMem kernel)

/-- The object at an address. -/
def State.put (s : State) (i : ℕ) (o : Object) : State :=
  { s with objects := Function.update s.objects i (some o) }

/-- `Socket::close`, of an open socket or not. -/
def close (s : State) (i : ℕ) (o : Object) : State :=
  { s with kernel := s.kernel.erase o.fd }.put i { o with fd := -1, opened := false }

/-- `if (opened()) close()`. -/
def closeOpened (s : State) (i : ℕ) (o : Object) : State := if o.opened then close s i o else s

/-- `Socket::open`; `socket` may fail. -/
def open_ (s : State) (i : ℕ) (o : Object) (ok : Bool) : State :=
  let s := closeOpened s i o
  if ok then
    { s with kernel := insert (lowest s.kernel) s.kernel }.put i
      { o with fd := lowest s.kernel, opened := true }
  else s.put i { o with fd := -1, opened := false }

/-- `Socket::accept` into an object; where it fails, nothing is changed. -/
def accept (s : State) (i : ℕ) (o : Object) (ok : Bool) : State :=
  if ok then
    let sfd := lowest s.kernel
    let s := closeOpened { s with kernel := insert sfd s.kernel } i o
    s.put i { o with fd := sfd, opened := true }
  else s

/-- `Socket::operator =`; `dup` of a descriptor that is not open fails, and may fail otherwise. -/
def assign (s : State) (i j : ℕ) (o : Object) (ok : Bool) : State :=
  let s := closeOpened s i o
  match s.objects j with
  | none => s
  | some from_ =>
      if ok ∧ from_.fd ∈ s.kernel then
        { s with kernel := insert (lowest s.kernel) s.kernel }.put i
          { o with fd := lowest s.kernel, opened := from_.opened }
      else s.put i { o with fd := -1, opened := false }

/-- An object is gone. -/
def State.drop (s : State) (i : ℕ) : State :=
  { s with objects := Function.update s.objects i none }

/-- The calls: a constructor, which finds some `fd` in the memory; `open`, `close`, `accept` and
`operator =`; a destructor; and `~Socket` alone, after a throw in a constructor. -/
inductive Op where
  | construct (i : ℕ) (kind : Kind) (fd : ℤ)
  | opens (i : ℕ) (ok : Bool)
  | close (i : ℕ)
  | accept (i : ℕ) (ok : Bool)
  | assign (i j : ℕ) (ok : Bool)
  | destroy (i : ℕ)
  | unwind (i : ℕ)

/-- A call, if there is an object to call it on. -/
def step (s : State) : Op → Option State
  | .construct i kind fd =>
      match s.objects i with
      | none => some (s.put i ⟨kind, fd, false⟩)
      | some _ => none
  | .opens i ok => (s.objects i).map fun o => open_ s i o ok
  | .close i => (s.objects i).map fun o => close s i o
  | .accept i ok => (s.objects i).map fun o => accept s i o ok
  | .assign i j ok =>
      (s.objects i).bind fun o => (s.objects j).map fun _ => assign s i j o ok
  | .destroy i => (s.objects i).map fun o =>
      match o.kind with
      | .socket => (closeOpened s i o).drop i
      | .derived => (close s i o).drop i
  | .unwind i => (s.objects i).map fun o => (closeOpened s i o).drop i

/-- The program at its start, with the descriptors that it has from elsewhere. -/
def start (outside : Finset ℕ) : State := ⟨outside.image (↑), fun _ => none⟩

/-- The descriptor that an object has. -/
def State.holds (s : State) (i : ℕ) : Option ℤ :=
  (s.objects i).bind fun o => if o.opened then some o.fd else none

/-- Every open descriptor is one of outside, or that of one object. -/
def State.Sound (s : State) (outside : Finset ℕ) : Prop :=
  Owned (outside.image ((↑) : ℕ → ℤ)) s.kernel s.holds

/-- The calls that are harmless: an object that is not open is not closed, and not copied, where its
`fd` happens to be an open descriptor. -/
def Harmless (s : State) : Op → Prop
  | .close i => ∀ o, s.objects i = some o → o.opened = true ∨ o.fd ∉ s.kernel
  | .destroy i =>
      ∀ o, s.objects i = some o → o.kind = .socket ∨ o.opened = true ∨ o.fd ∉ s.kernel
  | .assign i j ok =>
      ∀ o o', s.objects i = some o → s.objects j = some o' →
        ok = false ∨ o'.opened = true ∨ o'.fd ∉ (closeOpened s i o).kernel
  | _ => True

/-! ### What a call does -/

lemma lowest_notMem (kernel : Finset ℤ) : lowest kernel ∉ kernel :=
  Nat.find_spec (exists_notMem kernel)

lemma lowest_nonneg (kernel : Finset ℤ) : 0 ≤ lowest kernel := Int.natCast_nonneg _

@[simp] lemma put_objects (s : State) (i : ℕ) (o : Object) :
    (s.put i o).objects = Function.update s.objects i (some o) := rfl

@[simp] lemma drop_objects (s : State) (i : ℕ) :
    (s.drop i).objects = Function.update s.objects i none := rfl

/-- The descriptor of an object. -/
def Object.held (o : Object) : Option ℤ := if o.opened then some o.fd else none

lemma holds_eq {s : State} {i : ℕ} {o : Object} (hi : s.objects i = some o) :
    s.holds i = o.held := by
  rw [State.holds, hi]
  rfl

lemma holds_put (s : State) (i : ℕ) (o : Object) :
    (s.put i o).holds = Function.update s.holds i o.held := by
  funext j
  by_cases hj : j = i
  · rw [hj, Function.update_self]
    exact holds_eq (Function.update_self _ _ _)
  · rw [Function.update_of_ne hj, State.holds, put_objects, Function.update_of_ne hj]
    rfl

lemma holds_drop (s : State) (i : ℕ) : (s.drop i).holds = Function.update s.holds i none := by
  funext j
  by_cases hj : j = i
  · rw [hj, Function.update_self, State.holds, drop_objects, Function.update_self]
    rfl
  · rw [Function.update_of_ne hj, State.holds, drop_objects, Function.update_of_ne hj]
    rfl

/-- The invariant; a descriptor is not negative. -/
structure Inv (outside : Finset ℕ) (s : State) : Prop where
  sound : s.Sound outside
  nonneg : ∀ fd ∈ s.kernel, 0 ≤ fd

variable {outside : Finset ℕ} {s : State}

/-- An object that holds nothing is changed, or is gone. -/
lemma Inv.put_nothing (h : Inv outside s) {i : ℕ} (hi : s.holds i = none) {o : Object}
    (ho : o.opened = false) : Inv outside (s.put i o) := by
  refine ⟨?_, h.nonneg⟩
  have hheld : o.held = none := by
    rw [Object.held, ho]
    rfl
  rw [State.Sound, holds_put, hheld, Function.update_eq_self_iff.mpr hi.symm]
  exact h.sound

lemma Inv.drop (h : Inv outside s) {i : ℕ} (hi : s.holds i = none) : Inv outside (s.drop i) := by
  refine ⟨?_, h.nonneg⟩
  rw [State.Sound, holds_drop, Function.update_eq_self_iff.mpr hi.symm]
  exact h.sound

/-- An object that holds nothing gets a new descriptor. -/
lemma Inv.put_new (h : Inv outside s) {i : ℕ} (hi : s.holds i = none) {fd : ℤ}
    (hnew : fd ∉ s.kernel) (hpos : 0 ≤ fd) (o : Object) :
    Inv outside
      ({ s with kernel := insert fd s.kernel }.put i { o with fd := fd, opened := true }) := by
  refine ⟨?_, fun g hg => ?_⟩
  · rw [State.Sound, holds_put]
    exact h.sound.acquire hi hnew
  · rcases Finset.mem_insert.mp hg with rfl | hg
    · exact hpos
    · exact h.nonneg g hg

/-- **A descriptor that is closed** by the object that has it, or that is not open. -/
lemma Inv.close (h : Inv outside s) {i : ℕ} {o : Object} (hi : s.objects i = some o)
    (hharmless : o.opened = true ∨ o.fd ∉ s.kernel) :
    Inv outside (close s i o) ∧ (Descriptors.close s i o).holds i = none := by
  have hholds : (Descriptors.close s i o).holds = Function.update s.holds i none := holds_put _ _ _
  refine ⟨⟨?_, fun fd hfd => h.nonneg fd (Finset.mem_of_mem_erase hfd)⟩, ?_⟩
  · rw [State.Sound, hholds]
    by_cases hopened : o.opened = true
    · refine h.sound.release ?_
      rw [holds_eq hi, Object.held, if_pos hopened]
    · have hnone : s.holds i = none := by
        rw [holds_eq hi, Object.held, if_neg hopened]
      rw [Function.update_eq_self_iff.mpr hnone.symm]
      show Owned _ (s.kernel.erase o.fd) _
      rw [Finset.erase_eq_of_notMem (hharmless.resolve_left hopened)]
      exact h.sound
  · rw [hholds, Function.update_self]

lemma Inv.closeOpened (h : Inv outside s) {i : ℕ} {o : Object} (hi : s.objects i = some o) :
    Inv outside (closeOpened s i o) ∧ (Descriptors.closeOpened s i o).holds i = none := by
  rw [Descriptors.closeOpened]
  split_ifs with hopened
  · exact h.close hi (.inl hopened)
  · refine ⟨h, ?_⟩
    rw [holds_eq hi, Object.held, if_neg hopened]

lemma Inv.open_ (h : Inv outside s) {i : ℕ} {o : Object} (hi : s.objects i = some o) (ok : Bool) :
    Inv outside (open_ s i o ok) := by
  obtain ⟨hclosed, hnone⟩ := h.closeOpened hi
  cases ok with
  | true => exact hclosed.put_new hnone (lowest_notMem _) (lowest_nonneg _) o
  | false => exact hclosed.put_nothing hnone rfl

/-- The descriptor an object gets before the one it has is closed is another one. -/
lemma Inv.closeOpened_insert (h : Inv outside s) {i : ℕ} {o : Object} (hi : s.objects i = some o)
    {fd : ℤ} (hnew : fd ∉ s.kernel) :
    Descriptors.closeOpened { s with kernel := insert fd s.kernel } i o
        = { Descriptors.closeOpened s i o with
            kernel := insert fd (Descriptors.closeOpened s i o).kernel } ∧
      fd ∉ (Descriptors.closeOpened s i o).kernel := by
  by_cases hopened : o.opened = true
  · have hlive : o.fd ∈ s.kernel := by
      refine (h.sound.live_iff o.fd).mpr (.inr ⟨i, ?_⟩)
      rw [holds_eq hi, Object.held, if_pos hopened]
    have hne : o.fd ≠ fd := fun heq => hnew (heq ▸ hlive)
    have hclose : ∀ t : State, Descriptors.closeOpened t i o = Descriptors.close t i o :=
      fun _ => if_pos hopened
    rw [hclose, hclose]
    refine ⟨?_, fun hmem => hnew (Finset.mem_of_mem_erase hmem)⟩
    show State.mk ((insert fd s.kernel).erase o.fd) _ = State.mk (insert fd (s.kernel.erase o.fd)) _
    rw [Finset.erase_insert_of_ne hne.symm]
    rfl
  · have hclose : ∀ t : State, Descriptors.closeOpened t i o = t := fun _ => if_neg hopened
    rw [hclose, hclose]
    exact ⟨rfl, hnew⟩

lemma Inv.accept (h : Inv outside s) {i : ℕ} {o : Object} (hi : s.objects i = some o) (ok : Bool) :
    Inv outside (accept s i o ok) := by
  cases ok with
  | false => exact h
  | true =>
      obtain ⟨hclosed, hnone⟩ := h.closeOpened hi
      obtain ⟨heq, hnew⟩ := h.closeOpened_insert hi (lowest_notMem s.kernel)
      have hput := hclosed.put_new hnone hnew (lowest_nonneg _) o
      show Inv outside ((Descriptors.closeOpened { s with
        kernel := insert (lowest s.kernel) s.kernel } i o).put i _)
      rw [heq]
      exact hput

/-- The object that is copied, where it is another one and where it is the same. -/
lemma closeOpened_objects {i j : ℕ} {o o' : Object} (hi : s.objects i = some o)
    (hj : s.objects j = some o') :
    (closeOpened s i o).objects j = some o' ∨
      o'.opened = true ∧ (closeOpened s i o).objects j
        = some { o' with fd := -1, opened := false } := by
  by_cases hopened : o.opened = true
  · have hclose : closeOpened s i o = close s i o := if_pos hopened
    rw [hclose, close, put_objects]
    by_cases hji : j = i
    · subst hji
      obtain rfl := Option.some.inj (hi.symm.trans hj)
      exact .inr ⟨hopened, Function.update_self _ _ _⟩
    · exact .inl (by rw [Function.update_of_ne hji]; exact hj)
  · have hclose : closeOpened s i o = s := if_neg hopened
    rw [hclose]
    exact .inl hj

lemma neg_one_notMem (h : Inv outside s) : (-1 : ℤ) ∉ s.kernel :=
  fun hmem => absurd (h.nonneg _ hmem) (by omega)

/-- **`operator =`** is sound unless it copies a descriptor for an object that is not open. -/
lemma Inv.assign_iff (h : Inv outside s) {i j : ℕ} {o o' : Object} (hi : s.objects i = some o)
    (hj : s.objects j = some o') (ok : Bool) :
    let harmless := ok = false ∨ o'.opened = true ∨ o'.fd ∉ (Descriptors.closeOpened s i o).kernel
    (harmless → Inv outside (assign s i j o ok)) ∧
      ((assign s i j o ok).Sound outside → harmless) := by
  obtain ⟨hclosed, hnone⟩ := h.closeOpened hi
  intro harmless
  have hfail : Inv outside
      ((Descriptors.closeOpened s i o).put i { o with fd := -1, opened := false }) :=
    hclosed.put_nothing hnone rfl
  rw [assign]
  rcases closeOpened_objects hi hj with hfrom | ⟨hopened, hfrom⟩
  · simp only [hfrom]
    split_ifs with hdup
    · by_cases hopened : o'.opened = true
      · rw [hopened]
        exact ⟨fun _ => hclosed.put_new hnone (lowest_notMem _) (lowest_nonneg _) o,
          fun _ => .inr (.inl hopened)⟩
      · -- the new descriptor belongs to an object that does not know of it
        refine ⟨?_, fun hsound => ?_⟩
        · rintro (hok | hopen | hfd)
          · exact absurd (hok.symm.trans hdup.1) nofun
          · exact absurd hopen hopened
          · exact absurd hdup.2 hfd
        · rw [State.Sound, holds_put, Object.held, if_neg hopened,
            Function.update_eq_self_iff.mpr hnone.symm] at hsound
          exact absurd hsound (hclosed.sound.stray_acquire (lowest_notMem _) fun _ _ hg => hg)
    · refine ⟨fun _ => hfail, fun _ => ?_⟩
      cases hok : ok with
      | false => exact .inl hok
      | true => exact .inr (.inr fun hmem => hdup ⟨hok, hmem⟩)
  · simp only [hfrom]
    rw [if_neg fun hdup => neg_one_notMem hclosed hdup.2]
    exact ⟨fun _ => hfail, fun _ => .inr (.inl hopened)⟩

/-- A descriptor that is open is closed for an object that does not have it. -/
lemma Inv.not_sound_close (h : Inv outside s) {i : ℕ} {o : Object} (hi : s.objects i = some o)
    (hopened : o.opened = false) (hlive : o.fd ∈ s.kernel) {holds : ℕ → Option ℤ}
    (hholds : holds = Function.update s.holds i none) :
    ¬ Owned (outside.image ((↑) : ℕ → ℤ)) (s.kernel.erase o.fd) holds := by
  have hnone : s.holds i = none := by
    rw [holds_eq hi, Object.held, hopened]
    rfl
  rw [hholds, Function.update_eq_self_iff.mpr hnone.symm]
  exact h.sound.stray_release hlive

/-! ### Runs -/

/-- **A harmless call** keeps every descriptor with its object. -/
lemma step_keeps {s' : State} {op : Op} (h : Inv outside s) (hop : Harmless s op)
    (hstep : step s op = some s') : Inv outside s' := by
  cases op with
  | construct i kind fd =>
      rw [step] at hstep
      cases hi : s.objects i with
      | some o =>
          rw [hi] at hstep
          cases hstep
      | none =>
          rw [hi] at hstep
          cases hstep
          refine h.put_nothing ?_ rfl
          rw [State.holds, hi]
          rfl
  | opens i ok =>
      obtain ⟨o, hi, rfl⟩ := Option.map_eq_some_iff.mp hstep
      exact h.open_ hi ok
  | close i =>
      obtain ⟨o, hi, rfl⟩ := Option.map_eq_some_iff.mp hstep
      exact (h.close hi (hop o hi)).1
  | accept i ok =>
      obtain ⟨o, hi, rfl⟩ := Option.map_eq_some_iff.mp hstep
      exact h.accept hi ok
  | assign i j ok =>
      obtain ⟨o, hi, hstep⟩ := Option.bind_eq_some_iff.mp hstep
      obtain ⟨o', hj, rfl⟩ := Option.map_eq_some_iff.mp hstep
      exact (h.assign_iff hi hj ok).1 (hop o o' hi hj)
  | unwind i =>
      obtain ⟨o, hi, rfl⟩ := Option.map_eq_some_iff.mp hstep
      obtain ⟨hclosed, hnone⟩ := h.closeOpened hi
      exact hclosed.drop hnone
  | destroy i =>
      obtain ⟨o, hi, rfl⟩ := Option.map_eq_some_iff.mp hstep
      cases hkind : o.kind with
      | socket =>
          obtain ⟨hclosed, hnone⟩ := h.closeOpened hi
          exact hclosed.drop hnone
      | derived =>
          have hclose := (hop o hi).resolve_left (by rw [hkind]; exact nofun)
          obtain ⟨hclosed, hnone⟩ := h.close hi hclose
          exact hclosed.drop hnone

/-- A call that keeps every descriptor with its object is harmless. -/
lemma harmless_of_sound {op : Op} (h : Inv outside s)
    (hstep : ∀ s', step s op = some s' → s'.Sound outside) : Harmless s op := by
  have hclose : ∀ {i : ℕ} {o : Object}, s.objects i = some o → (close s i o).Sound outside →
      o.opened = true ∨ o.fd ∉ s.kernel := by
    intro i o hi hsound
    by_contra hne
    rw [not_or, Bool.not_eq_true, not_not] at hne
    exact h.not_sound_close hi hne.1 hne.2 (holds_put _ _ _) hsound
  cases op with
  | construct | opens | accept | unwind => trivial
  | close i =>
      intro o hi
      exact hclose hi (hstep _ (by rw [step, hi]; rfl))
  | assign i j ok =>
      intro o o' hi hj
      exact (h.assign_iff hi hj ok).2 (hstep _ (by rw [step, hi, hj]; rfl))
  | destroy i =>
      intro o hi
      by_cases hkind : o.kind = .socket
      · exact .inl hkind
      · have hderived : o.kind = .derived := by
          cases hk : o.kind with
          | socket => exact absurd hk hkind
          | derived => rfl
        have hsound := hstep ((close s i o).drop i) (by rw [step, hi, Option.map_some, hderived])
        refine .inr ?_
        by_contra hne
        rw [not_or, Bool.not_eq_true, not_not] at hne
        refine h.not_sound_close hi hne.1 hne.2 ?_ hsound
        rw [holds_drop, close, holds_put, Function.update_idem]
        rfl

lemma inv_start (outside : Finset ℕ) : Inv outside (start outside) := by
  refine ⟨⟨fun fd => ?_, nofun, nofun⟩, fun fd hfd => ?_⟩
  · constructor
    · exact .inl
    · rintro (hfd | ⟨i, hi⟩)
      · exact hfd
      · cases hi
  · obtain ⟨n, -, rfl⟩ := Finset.mem_image.mp hfd
    exact Int.natCast_nonneg n

/-- **Every open descriptor belongs to one object, in all states of a run, if and only if every
call of the run is harmless.** What is not harmless is `close` on an object that is not open, which
`~Client` and `~Server` call too, and copying one, where its `fd` happens to be an open
descriptor: it is closed for the one that has it, or a copy of it is lost. -/
theorem owned_iff (outside : Finset ℕ) (ops : List Op) :
    Runs.Always step (fun s op => ∀ s', step s op = some s' → s'.Sound outside)
      (start outside) ops ↔
      Runs.Always step Harmless (start outside) ops :=
  Runs.Always.iff_of_keeps (fun _ _ _ h hop hstep => step_keeps h hop hstep)
    (fun _ _ h => ⟨harmless_of_sound h, fun hop _ hstep => (step_keeps h hop hstep).sound⟩)
    (inv_start outside)

end Descriptors

end Napd
