import Napd.Command.Model
import Napd.Library.Memory
import Napd.Library.Runs
import Napd.Numbers

/-!
The text of an address, `Address::ip_str` and `Address::operator char *` of `address.cc`, which
stands in a rotating buffer.

* `Buffer`: the buffer and the position in it. A write outside of it is a fault.
* `ip_str`, `char_ptr`: the functions of the source, and the writes that they make. What
  `inet_ntoa` gives is a parameter.
* `Holds`: a slot holds a text, with zeros behind it. `ip_str_spec`, `char_ptr_spec`: what a call
  puts into its slot, and that it leaves the rest alone.
* `Inv`: where the next slot is, and that the last 256 calls' slots hold their texts.
* `buffer_rotates`: **in every sequence of calls the writes stay in the slot of their call, and
  the string of a call stands there, with its end, until the 256th call behind it.**
-/

namespace Napd

namespace Address

/-- `_ip_size`. -/
def ip_size : U32 := 32

/-- `_buffer_size`. -/
def buffer_size : U32 := ip_size * 256

/-- `_buffer` and `_buffer_pos`. -/
structure Buffer where
  bytes : List U8
  pos : U32

/-- Bytes written to a position of the buffer. -/
structure Write where
  pos : ℕ
  bytes : List U8

/-- The buffer after a write. -/
def Write.apply (m : List U8) (w : Write) : Option (List U8) := Memory.splice m w.pos w.bytes

/-- `strncpy(dst, s, n)`: what is short of `n` is filled up with NUL. -/
def strncpy (dst : ℕ) (s : List U8) (n : ℕ) : Write :=
  ⟨dst, s.take n ++ List.replicate (n - s.length) 0⟩

/-- `strlen` of the string at a position of the buffer. -/
def strlen (m : List U8) (p : ℕ) : Option ℕ :=
  if 0 ∈ m.drop p then some (cstring (m.drop p)).length else none

/-- What a call gives: the buffer after it, the position it returns, and its writes. -/
structure Result where
  buffer : Buffer
  ret : ℕ
  writes : List Write

variable (inet_ntoa : List U8 → Text)

/-- The position of a call: behind the last slot there is the first. -/
def Buffer.next (b : Buffer) : U32 := if b.pos ≥ buffer_size then 0 else b.pos

/-- `Address::ip_str`: `inet_ntoa` is given the bytes of the address in network order. -/
def ip_str (b : Buffer) (a : Address) : Option Result :=
  let pos := b.next
  let ret := pos.toNat
  let writes := [strncpy ret (inet_ntoa (hton32 a.ip)).val (ip_size - 1).toNat,
    ⟨(pos + ip_size).toNat - 1, [0]⟩]
  (writes.foldlM Write.apply b.bytes).map fun m => ⟨⟨m, pos + ip_size⟩, ret, writes⟩

/-- What `sprintf(p, ":%hu", port)` writes. -/
def portText (port : U16) : List U8 := 58 :: decimal port.toNat

/-- `Address::operator char *`. -/
def char_ptr (b : Buffer) (a : Address) : Option Result :=
  (ip_str inet_ntoa b a).bind fun r =>
    (strlen r.buffer.bytes r.ret).bind fun n =>
      let w : Write := ⟨r.ret + n, portText a.port ++ [0]⟩
      (w.apply r.buffer.bytes).map fun m => ⟨⟨m, r.buffer.pos⟩, r.ret, r.writes ++ [w]⟩

/-- The calls. -/
inductive Call where
  | ip_str (a : Address)
  | char_ptr (a : Address)

/-- The text that a call is to give. -/
def Call.text : Call → List U8
  | .ip_str a => (inet_ntoa (hton32 a.ip)).val
  | .char_ptr a => (inet_ntoa (hton32 a.ip)).val ++ portText a.port

/-- A call. -/
def Call.eval (b : Buffer) : Call → Option Result
  | .ip_str a => Address.ip_str inet_ntoa b a
  | .char_ptr a => Address.char_ptr inet_ntoa b a

/-- What a call returned and wrote. -/
structure Done where
  call : Call
  ret : ℕ
  writes : List Write

/-- The buffer, and the calls so far. -/
structure State where
  buffer : Buffer
  log : List Done

/-- The buffer when the program starts. -/
def new : State := ⟨⟨List.replicate buffer_size.toNat 0, 0⟩, []⟩

def step (s : State) (c : Call) : Option State :=
  (c.eval inet_ntoa s.buffer).map fun r => ⟨r.buffer, s.log ++ [⟨c, r.ret, r.writes⟩]⟩

/-! ### Slots -/

/-- A slot holds a text that ends in it, and zeros behind the text. -/
def Holds (m : List U8) (p : ℕ) (t : List U8) : Prop :=
  t.length < 32 ∧ ∀ i < 32, m[p + i]? = some (t.getD i 0)

/-- A write within the slot at `p`. -/
def Write.Inside (w : Write) (p : ℕ) : Prop := p ≤ w.pos ∧ w.pos + w.bytes.length ≤ p + 32

lemma apply_of_fits {m : List U8} {w : Write} (h : w.pos + w.bytes.length ≤ m.length) :
    ∃ m', w.apply m = some m' := ⟨_, if_pos h⟩

/-- A write within a slot leaves what is outside of it alone. -/
lemma apply_outside {m m' : List U8} {w : Write} {p : ℕ} (h : w.apply m = some m')
    (hw : w.Inside p) {k : ℕ} (hk : k < p ∨ p + 32 ≤ k) : m'[k]? = m[k]? := by
  obtain ⟨hlo, hhi⟩ := hw
  rw [Memory.getElem?_splice h, if_neg (by omega)]

/-- The string in a slot is its text. -/
lemma Holds.eq_append {m : List U8} {p : ℕ} {t : List U8} (h : Holds m p t) :
    ∃ rest, m.drop p = t ++ 0 :: rest := by
  obtain ⟨hlen, hbyte⟩ := h
  have htake : (m.drop p).take (t.length + 1) = t ++ [0] := by
    refine List.ext_getElem? fun i => ?_
    rw [List.getElem?_take, List.getElem?_drop]
    split_ifs with hi
    · rw [hbyte i (by omega)]
      rcases Nat.lt_or_ge i t.length with hlt | hge
      · rw [List.getElem?_append_left hlt, List.getD_eq_getElem?_getD,
          List.getElem?_eq_getElem hlt, Option.getD_some]
      · obtain rfl : i = t.length := by omega
        simp
    · exact (List.getElem?_eq_none (by simpa using hi)).symm
  exact eq_append_of_take htake

/-! ### One call -/

/-- What a call does when the next slot is at `p`: it returns the slot, writes inside of it only,
and leaves its text there. -/
structure Took (b : Buffer) (c : Call) (p : ℕ) (r : Result) : Prop where
  ret : r.ret = p
  pos : r.buffer.pos.toNat = p + 32
  inside : ∀ w ∈ r.writes, w.Inside p
  length : r.buffer.bytes.length = b.bytes.length
  frame : ∀ k, k < p ∨ p + 32 ≤ k → r.buffer.bytes[k]? = b.bytes[k]?
  holds : Holds r.buffer.bytes p (c.text inet_ntoa)

/-- `strncpy` and the terminator fill the slot: the text, and zeros up to its end. -/
lemma holds_strncpy {m m₁ m₂ : List U8} {p : ℕ} {t : List U8} (ht : t.length ≤ 15)
    (h₁ : (strncpy p t 31).apply m = some m₁) (h₂ : Write.apply m₁ ⟨p + 31, [0]⟩ = some m₂) :
    Holds m₂ p t := by
  refine ⟨by omega, fun i hi => ?_⟩
  have hlen : (strncpy p t 31).bytes.length = 31 := by
    simp only [strncpy, List.length_append, List.length_take, List.length_replicate]
    omega
  rw [Memory.getElem?_splice h₂]
  simp only [List.length_singleton]
  split_ifs with h31
  · obtain rfl : i = 31 := by omega
    rw [List.getD_eq_getElem?_getD, List.getElem?_eq_none (show t.length ≤ 31 by omega)]
    simp
  · have hi31 : p + i < p + (strncpy p t 31).bytes.length := by
      rw [hlen]
      omega
    rw [Memory.getElem?_splice h₁, if_pos ⟨Nat.le_add_right p i, hi31⟩]
    simp only [strncpy, Nat.add_sub_cancel_left,
      List.take_of_length_le (show t.length ≤ 31 by omega)]
    rcases Nat.lt_or_ge i t.length with hlt | hge
    · rw [List.getElem?_append_left hlt, List.getD_eq_getElem?_getD,
        List.getElem?_eq_getElem hlt, Option.getD_some]
    · rw [List.getElem?_append_right hge, List.getElem?_replicate_of_lt (by omega),
        List.getD_eq_getElem?_getD, List.getElem?_eq_none hge, Option.getD_none]

/-- `ip_str` takes the next slot and puts the text of the address into it. -/
lemma ip_str_spec {b : Buffer} {a : Address} (ht : (inet_ntoa (hton32 a.ip)).val.length ≤ 15)
    (hp : b.next.toNat + 32 ≤ b.bytes.length) (hlen : b.bytes.length = 8192) :
    ∃ r, ip_str inet_ntoa b a = some r ∧ Took inet_ntoa b (.ip_str a) b.next.toNat r := by
  set p := b.next.toNat with hpdef
  set t := (inet_ntoa (hton32 a.ip)).val with htdef
  have hpos : (b.next + ip_size).toNat = p + 32 := by
    rw [UInt32.toNat_add, show ip_size.toNat = 32 from rfl, ← hpdef]
    omega
  have hlen₁ : (strncpy p t 31).bytes.length = 31 := by
    simp only [strncpy, List.length_append, List.length_take, List.length_replicate]
    omega
  obtain ⟨m₁, h₁⟩ := apply_of_fits (m := b.bytes) (w := strncpy p t 31)
    (by rw [hlen₁]; exact le_trans (Nat.add_le_add_left (by decide) p) hp)
  have hm₁ : m₁.length = b.bytes.length := Memory.splice_length h₁
  obtain ⟨m₂, h₂⟩ := apply_of_fits (m := m₁) (w := ⟨p + 31, [0]⟩) (by rw [hm₁]; exact hp)
  have hm₂ : m₂.length = m₁.length := Memory.splice_length h₂
  have hin₁ : (strncpy p t 31).Inside p := ⟨le_refl p, by rw [hlen₁]; simp [strncpy]⟩
  have hin₂ : Write.Inside ⟨p + 31, [0]⟩ p := ⟨Nat.le_add_right p 31, le_refl (p + 32)⟩
  refine ⟨⟨⟨m₂, b.next + ip_size⟩, p, [strncpy p t 31, ⟨p + 31, [0]⟩]⟩, ?_, rfl, hpos, ?_, ?_, ?_,
    ?_⟩
  · have hsub : (b.next + ip_size).toNat - 1 = p + 31 := by omega
    have hrun : [strncpy p t 31, ⟨p + 31, [0]⟩].foldlM Write.apply b.bytes = some m₂ := by
      simp [List.foldlM_cons, h₁, h₂]
    simp only [ip_str, hsub, show (ip_size - 1).toNat = 31 from rfl, ← hpdef, ← htdef, hrun,
      Option.map_some]
  · intro w hw
    rcases List.mem_cons.mp hw with rfl | hw
    · exact hin₁
    · rw [List.mem_singleton.mp hw]
      exact hin₂
  · exact hm₂.trans hm₁
  · exact fun k hk => (apply_outside h₂ hin₂ hk).trans (apply_outside h₁ hin₁ hk)
  · exact holds_strncpy ht h₁ h₂

/-- `strlen` of a slot is the length of its text. -/
lemma Holds.strlen_eq {m : List U8} {p : ℕ} {t : List U8} (h : Holds m p t) (ht : 0 ∉ t) :
    strlen m p = some t.length := by
  obtain ⟨rest, hrest⟩ := h.eq_append
  rw [strlen, hrest, cstring_append ht, if_pos (by simp)]

/-- A text written over the end of another, with an end of its own, is appended to it. -/
lemma Holds.append {m m' : List U8} {p : ℕ} {t u : List U8} (h : Holds m p t)
    (hlen : t.length + u.length < 32)
    (hw : Write.apply m ⟨p + t.length, u ++ [0]⟩ = some m') : Holds m' p (t ++ u) := by
  refine ⟨by rw [List.length_append]; exact hlen, fun i hi => ?_⟩
  rw [Memory.getElem?_splice hw, List.getD_eq_getElem?_getD]
  simp only [List.length_append, List.length_singleton]
  split_ifs with hin
  · rw [show p + i - (p + t.length) = i - t.length by omega,
      List.getElem?_append_right (show t.length ≤ i by omega)]
    rcases Nat.lt_or_ge (i - t.length) u.length with hlt | hge
    · rw [List.getElem?_append_left hlt, List.getElem?_eq_getElem hlt, Option.getD_some]
    · rw [List.getElem?_append_right hge, List.getElem?_eq_none hge, Option.getD_none,
        show i - t.length - u.length = 0 by omega]
      rfl
  · rw [h.2 i hi, List.getD_eq_getElem?_getD]
    rcases Nat.lt_or_ge i t.length with hlt | hge
    · rw [List.getElem?_append_left hlt]
    · rw [List.getElem?_eq_none hge, List.getElem?_eq_none (by rw [List.length_append]; omega)]

/-- A port has at most five digits. -/
lemma portText_length_le (port : U16) : (portText port).length ≤ 6 := by
  have hdigits : (decimal port.toNat).length ≤ 5 :=
    decimal_length_le (by decide) (lt_trans port.toNat_lt (by decide))
  rw [portText, List.length_cons]
  omega

/-- `operator char *` takes the next slot as well, and puts the port behind the address. -/
lemma char_ptr_spec {b : Buffer} {a : Address} (ht : (inet_ntoa (hton32 a.ip)).val.length ≤ 15)
    (hp : b.next.toNat + 32 ≤ b.bytes.length) (hlen : b.bytes.length = 8192) :
    ∃ r, char_ptr inet_ntoa b a = some r ∧ Took inet_ntoa b (.char_ptr a) b.next.toNat r := by
  obtain ⟨r, hr, htook⟩ := ip_str_spec inet_ntoa ht hp hlen
  have hport := portText_length_le a.port
  have hstrlen := htook.holds.strlen_eq (inet_ntoa (hton32 a.ip)).property
  set t := (inet_ntoa (hton32 a.ip)).val with htdef
  set w : Write := ⟨b.next.toNat + t.length, portText a.port ++ [0]⟩ with hwdef
  have hwlen : w.bytes.length = (portText a.port).length + 1 := by simp [hwdef]
  have hwpos : w.pos = b.next.toNat + t.length := rfl
  have hin : w.Inside b.next.toNat := ⟨by omega, by omega⟩
  obtain ⟨m, hm⟩ := apply_of_fits (m := r.buffer.bytes) (w := w) (by rw [htook.length]; omega)
  refine ⟨⟨⟨m, r.buffer.pos⟩, r.ret, r.writes ++ [w]⟩, ?_, htook.ret, htook.pos, ?_, ?_, ?_, ?_⟩
  · rw [char_ptr, hr, Option.bind_some, htook.ret, hstrlen, Option.bind_some]
    exact congrArg (Option.map _) hm
  · intro v hv
    rcases List.mem_append.mp hv with hv | hv
    · exact htook.inside v hv
    · rw [List.mem_singleton.mp hv]
      exact hin
  · exact (Memory.splice_length hm).trans htook.length
  · exact fun k hk => (apply_outside hm hin hk).trans (htook.frame k hk)
  · exact Holds.append (t := t) htook.holds (by omega) hm

/-! ### Sequences of calls -/

/-- What the program relies on: an address in dotted notation has at most 15 characters. -/
def Dotted : Prop := ∀ ip : U32, (inet_ntoa (hton32 ip)).val.length ≤ 15

variable {inet_ntoa}

lemma eval_spec (hntoa : Dotted inet_ntoa) {b : Buffer} (c : Call)
    (hp : b.next.toNat + 32 ≤ b.bytes.length) (hlen : b.bytes.length = 8192) :
    ∃ r, c.eval inet_ntoa b = some r ∧ Took inet_ntoa b c b.next.toNat r := by
  cases c with
  | ip_str a => exact ip_str_spec inet_ntoa (hntoa a.ip) hp hlen
  | char_ptr a => exact char_ptr_spec inet_ntoa (hntoa a.ip) hp hlen

variable (inet_ntoa)

/-- Call `n` has slot `n % 256`, and the next slot follows the last one. The slots of the last 256
calls hold their texts. -/
structure Inv (s : State) : Prop where
  length : s.buffer.bytes.length = 8192
  next : s.buffer.next.toNat = 32 * (s.log.length % 256)
  ret : ∀ n d, s.log[n]? = some d → d.ret = 32 * (n % 256)
  inside : ∀ d ∈ s.log, ∀ w ∈ d.writes, w.Inside d.ret
  holds : ∀ n d, s.log[n]? = some d → s.log.length ≤ n + 256 →
    Holds s.buffer.bytes d.ret (d.call.text inet_ntoa)

lemma inv_new : Inv inet_ntoa new := by
  refine ⟨List.length_replicate, rfl, ?_, ?_, ?_⟩ <;> simp [new]

variable {inet_ntoa}

/-- A slot that another call takes does not touch this one. -/
lemma Took.holds_of_disjoint {b : Buffer} {c : Call} {p q : ℕ} {r : Result} {t : List U8}
    (h : Took inet_ntoa b c p r) (hq : Holds b.bytes q t) (hdisj : q + 32 ≤ p ∨ p + 32 ≤ q) :
    Holds r.buffer.bytes q t := by
  refine ⟨hq.1, fun i hi => ?_⟩
  rw [h.frame (q + i) (by omega), hq.2 i hi]

/-- The position after a call, as the next call takes it: the next slot, or the first behind the
last. -/
lemma next_of_pos {b : Buffer} {k : ℕ} (h : b.pos.toNat = 32 * (k % 256) + 32) :
    b.next.toNat = 32 * ((k + 1) % 256) := by
  have hsize : buffer_size.toNat = 8192 := rfl
  rw [Buffer.next]
  split_ifs with hwrap
  · rw [ge_iff_le, UInt32.le_iff_toNat_le, hsize] at hwrap
    rw [UInt32.toNat_zero]
    omega
  · rw [ge_iff_le, UInt32.le_iff_toNat_le, hsize] at hwrap
    omega

/-- Every call keeps the invariant. -/
lemma step_inv (hntoa : Dotted inet_ntoa) {s : State} (h : Inv inet_ntoa s) (c : Call) :
    ∃ r : Result, step inet_ntoa s c = some ⟨r.buffer, s.log ++ [⟨c, r.ret, r.writes⟩]⟩ ∧
      Inv inet_ntoa ⟨r.buffer, s.log ++ [⟨c, r.ret, r.writes⟩]⟩ := by
  have hnext := h.next
  have hlen := h.length
  obtain ⟨r, hr, htook⟩ := eval_spec hntoa (b := s.buffer) c (by omega) hlen
  have hret : r.ret = 32 * (s.log.length % 256) := htook.ret.trans hnext
  have hlog : ∀ n d, (s.log ++ [⟨c, r.ret, r.writes⟩])[n]? = some d →
      s.log[n]? = some d ∨ n = s.log.length ∧ d = ⟨c, r.ret, r.writes⟩ := by
    intro n d hd
    rw [List.getElem?_append] at hd
    split_ifs at hd with hn
    · exact Or.inl hd
    · rw [List.getElem?_singleton] at hd
      split_ifs at hd with h0
      exact Or.inr ⟨by omega, (Option.some.inj hd).symm⟩
  refine ⟨r, by rw [step, hr, Option.map_some], ⟨htook.length.trans hlen, ?_, ?_, ?_, ?_⟩⟩
  · rw [List.length_append, List.length_singleton]
    exact next_of_pos (htook.pos.trans (by rw [hnext]))
  · intro n d hd
    rcases hlog n d hd with hd | ⟨rfl, rfl⟩
    · exact h.ret n d hd
    · exact hret
  · intro d hd w hw
    rcases List.mem_append.mp hd with hd | hd
    · exact h.inside d hd w hw
    · rw [List.mem_singleton.mp hd] at hw ⊢
      exact htook.ret ▸ htook.inside w hw
  · intro n d hd hn
    rw [List.length_append, List.length_singleton] at hn
    rcases hlog n d hd with hd | ⟨rfl, rfl⟩
    · have hlt : n < s.log.length := (List.getElem?_eq_some_iff.mp hd).1
      have hdret := h.ret n d hd
      refine htook.holds_of_disjoint (h.holds n d hd (by omega)) ?_
      -- fewer than 256 calls lie between, so the slots differ
      omega
    · exact htook.ret ▸ htook.holds

/-- No call faults, and every one of them is noted. -/
lemma run_inv (hntoa : Dotted inet_ntoa) {s : State} (h : Inv inet_ntoa s) (calls : List Call) :
    ∃ s', Runs.run (step inet_ntoa) s calls = some s' ∧ Inv inet_ntoa s' ∧
      s'.log.map Done.call = s.log.map Done.call ++ calls := by
  induction calls generalizing s with
  | nil => exact ⟨s, rfl, h, (List.append_nil _).symm⟩
  | cons c calls ih =>
      obtain ⟨r, hr, hinv⟩ := step_inv hntoa h c
      obtain ⟨s', hrun, hinv', hlog⟩ := ih hinv
      refine ⟨s', by rw [Runs.run, hr, Option.bind_some, hrun], hinv', ?_⟩
      rw [hlog, List.map_append, List.map_singleton, List.append_assoc, List.singleton_append]

/-- **The rotating buffer keeps its promise.** No call writes outside of its slot, which lies in
the buffer, and the slot of call `n` holds its text, ended by a NUL, until call `n + 256`. -/
theorem buffer_rotates (inet_ntoa : List U8 → Text) (hntoa : Dotted inet_ntoa)
    (calls : List Call) :
    ∃ s, Runs.run (step inet_ntoa) new calls = some s ∧ s.log.map Done.call = calls ∧
      s.buffer.bytes.length = 8192 ∧
      (∀ d ∈ s.log, d.ret + 32 ≤ 8192 ∧ ∀ w ∈ d.writes, w.Inside d.ret) ∧
      ∀ n d, s.log[n]? = some d → calls.length ≤ n + 256 →
        Holds s.buffer.bytes d.ret (d.call.text inet_ntoa) := by
  obtain ⟨s, hrun, hinv, hlog⟩ := run_inv hntoa (inv_new inet_ntoa) calls
  refine ⟨s, hrun, hlog, hinv.length, fun d hd => ⟨?_, hinv.inside d hd⟩, fun n d hd hn => ?_⟩
  · obtain ⟨n, hn⟩ := List.mem_iff_getElem?.mp hd
    have hret := hinv.ret n d hn
    omega
  · refine hinv.holds n d hd ?_
    rw [← List.length_map (f := Done.call), hlog]
    exact hn

/-- Four bytes in dotted notation. -/
def dottedQuad (a b c d : U8) : List U8 :=
  decimal a.toNat ++ 46 ::
    (decimal b.toNat ++ 46 :: (decimal c.toNat ++ 46 :: decimal d.toNat))

lemma zero_notMem_decimal (n : ℕ) : 0 ∉ decimal n := fun h =>
  absurd (isdigit_of_mem_decimal h) (by decide)

lemma zero_notMem_dottedQuad (a b c d : U8) : 0 ∉ dottedQuad a b c d := by
  simp [dottedQuad, zero_notMem_decimal]

lemma dottedQuad_length_le (a b c d : U8) : (dottedQuad a b c d).length ≤ 15 := by
  have h : ∀ x : U8, (decimal x.toNat).length ≤ 3 := fun x =>
    decimal_length_le (by decide) (lt_trans x.toNat_lt (by decide))
  have ha := h a
  have hb := h b
  have hc := h c
  have hd := h d
  simp only [dottedQuad, List.length_append, List.length_cons]
  omega

/-- `inet_ntoa`, for the bytes of an address. -/
def dotted : List U8 → Text
  | [a, b, c, d] => ⟨dottedQuad a b c d, zero_notMem_dottedQuad a b c d⟩
  | _ => ⟨[], zero_notMem_nil⟩

/-- Two calls for `127.0.0.1:99`: the string of the first stands while the second is made. -/
theorem buffer_rotates_localhost : ∃ s d,
    Runs.run (step dotted) new [.char_ptr ⟨2130706433, 99⟩, .ip_str ⟨2130706433, 99⟩] = some s ∧
      s.log[0]? = some d ∧
      Holds s.buffer.bytes d.ret ((dotted [127, 0, 0, 1]).val ++ portText 99) := by
  obtain ⟨s, hrun, hlog, -, -, hholds⟩ :=
    buffer_rotates dotted (fun ip => dottedQuad_length_le _ _ _ _)
      [.char_ptr ⟨2130706433, 99⟩, .ip_str ⟨2130706433, 99⟩]
  obtain ⟨d, hd, hcall⟩ : ∃ d, s.log[0]? = some d ∧ d.call = .char_ptr ⟨2130706433, 99⟩ := by
    have h0 : (s.log.map Done.call)[0]? = some (.char_ptr ⟨2130706433, 99⟩) := by
      rw [hlog]
      rfl
    rw [List.getElem?_map] at h0
    exact Option.map_eq_some_iff.mp h0
  refine ⟨s, d, hrun, hd, ?_⟩
  have htext := hholds 0 d hd (by decide)
  rw [hcall] at htext
  exact htext

end Address

end Napd
