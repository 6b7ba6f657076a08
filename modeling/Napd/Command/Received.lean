import Napd.Command.Model

/-!
Decoding a received binary message.

A received message is stored as `payload ++ [0]`: its bytes, and a NUL at `data[size]`. The
decoders trust the size and type words in it.

* `Whole t rest`: the record at the front of what is left of the payload is whole, as far as
  a decoder for the target `t` looks at it.
* `Encloses ts rest`: every target in turn finds a whole record; a record of the target's
  type is taken, any other stays in front of the next target.
* `unpack_inside_iff`: decoding stays inside the message exactly when the payload encloses
  the targets.
-/

namespace Napd

open Command

namespace Received

open Message

/-- The 16-bit word at position `i` of what is left; the NUL behind it reads as zero. -/
def word (rest : List U8) (i : ℕ) : U16 := ntoh16 (rest.getD i 0) (rest.getD (i + 1) 0)

/-- The size word of the record in front. -/
def sizeWord (rest : List U8) : ℕ := (word rest 0).toNat

/-- The record in front has the target's type and form, so that the target takes it. -/
def Takes (t : Target) (rest : List U8) : Prop :=
  match t with
  | .integer => sizeWord rest = 4 ∧ word rest 2 = INTEGER
  | .string => word rest 2 = STRING ∧ 1 ≤ sizeWord rest ∧ rest.getD (3 + sizeWord rest) 0 = 0
  | .data => word rest 2 = DATA

instance (t : Target) (rest : List U8) : Decidable (Takes t rest) := by
  cases t <;> unfold Takes <;> infer_instance

/-- The record in front is whole, as far as a decoder for the target looks at it: its head,
the body it reads, and the body it hands back. The NUL behind the payload may be read. -/
def Whole (t : Target) (rest : List U8) : Prop :=
  match t with
  | .integer => 1 ≤ rest.length ∧ (sizeWord rest = 4 → 3 ≤ rest.length) ∧
      (Takes .integer rest → 7 ≤ rest.length)
  | .string => 3 ≤ rest.length ∧
      (word rest 2 = STRING → 1 ≤ sizeWord rest → 3 + sizeWord rest ≤ rest.length) ∧
      (Takes .string rest → 4 + (cstring (rest.drop 4)).length < rest.length)
  | .data => 3 ≤ rest.length ∧ (Takes .data rest → 4 + sizeWord rest ≤ rest.length)

instance (t : Target) (rest : List U8) : Decidable (Whole t rest) := by
  cases t <;> unfold Whole <;> infer_instance

/-- What is left for the next target. -/
def next (t : Target) (rest : List U8) : List U8 :=
  if Takes t rest then rest.drop (4 + sizeWord rest) else rest

/-- Every target in turn finds a whole record. -/
def Encloses : List Target → List U8 → Prop
  | [], _ => True
  | t :: ts, rest => Whole t rest ∧ Encloses ts (next t rest)

instance decidableEncloses : (ts : List Target) → (rest : List U8) → Decidable (Encloses ts rest)
  | [], _ => isTrue trivial
  | t :: ts, rest =>
      have := decidableEncloses ts (next t rest)
      inferInstanceAs (Decidable (Whole t rest ∧ Encloses ts (next t rest)))

/-- What a decoder hands back lies inside `data[0..size)`: a string with its NUL, a `Data`
with all its bytes. -/
def Inside (payload : List U8) : Value → Prop
  | .integer _ => True
  | .string p => p + (cstring ((payload ++ [0]).drop p)).length < payload.length
  | .data p size => p + size ≤ payload.length

/-! ### Reading a stored payload -/

variable {payload : List U8} {p : ℕ}

lemma getElem?_stored (hp : p ≤ payload.length) (i : ℕ) :
    (payload ++ [0])[p + i]?
      = if i ≤ (payload.drop p).length then some ((payload.drop p).getD i 0) else none := by
  rw [List.getD_eq_getElem?_getD, List.getElem?_drop, List.length_drop]
  split_ifs with hi
  · rcases Nat.lt_or_ge (p + i) payload.length with h | h
    · rw [List.getElem?_append_left h, List.getElem?_eq_getElem h]
      rfl
    · rw [List.getElem?_append_right h, show p + i - payload.length = 0 by omega,
        List.getElem?_eq_none h]
      rfl
  · rw [List.getElem?_eq_none]
    rw [List.length_append, List.length_singleton]
    omega

lemma read16_stored (hp : p ≤ payload.length) (i : ℕ) :
    read16 (payload ++ [0]) (p + i)
      = if i + 1 ≤ (payload.drop p).length then some (word (payload.drop p) i) else none := by
  rw [read16, Nat.add_assoc p i 1, getElem?_stored hp i, getElem?_stored hp (i + 1)]
  by_cases h : i + 1 ≤ (payload.drop p).length
  · rw [if_pos (by omega), if_pos h, if_pos h]
    rfl
  · rw [if_neg h, if_neg h]
    split_ifs <;> rfl

/-- Four bytes can be read when the last of them can. -/
lemma read32_stored (hp : p ≤ payload.length) (i : ℕ) (h : i + 3 ≤ (payload.drop p).length) :
    ∃ x, read32 (payload ++ [0]) (p + i) = some x := by
  rw [read32, Nat.add_assoc p i 1, Nat.add_assoc p i 2, Nat.add_assoc p i 3, getElem?_stored hp,
    getElem?_stored hp, getElem?_stored hp, getElem?_stored hp, if_pos (by omega),
    if_pos (by omega), if_pos (by omega), if_pos (by omega)]
  exact ⟨_, rfl⟩

lemma read32_stored_none (hp : p ≤ payload.length) (i : ℕ)
    (h : ¬ i + 3 ≤ (payload.drop p).length) : read32 (payload ++ [0]) (p + i) = none := by
  rw [read32, Nat.add_assoc p i 1, Nat.add_assoc p i 2, Nat.add_assoc p i 3,
    getElem?_stored hp (i + 3), if_neg h]
  cases (payload ++ [0])[p + i]? <;> cases (payload ++ [0])[p + (i + 1)]? <;>
    cases (payload ++ [0])[p + (i + 2)]? <;> rfl

lemma cstring_stored (hp : p ≤ payload.length) :
    cstring ((payload ++ [0]).drop p) = cstring (payload.drop p) := by
  rw [List.drop_append_of_le_length hp, cstring_append_zero]

/-! ### One decoder -/

/-- A message that was received and decoded up to position `p`. -/
structure At (c : Message) (payload : List U8) (p : ℕ) : Prop where
  binary : ¬ c.code < f2CodeStart
  bytes : c.bytes = payload ++ [0]
  offset : c.offset = p

/-- What a decoder does in front of the rest of the payload: it leaves the message, or it
hands something back and moves to the next record. -/
def Outcome (payload : List U8) (p : ℕ) (t : Target) (r : Option (Option Value × Message)) :
    Prop :=
  match r with
  | none => ¬ Whole t (payload.drop p)
  | some (v, c) =>
      (Whole t (payload.drop p) ↔ ∀ x, v = some x → Inside payload x) ∧
      ∃ p', At c payload p' ∧ payload.drop p' = next t (payload.drop p)

/-- Behind the record in front. -/
lemma At.moved {c : Message} (h : At c payload p) :
    At { c with bytes := payload ++ [0], offset := p + 4 + sizeWord (payload.drop p) } payload
      (p + 4 + sizeWord (payload.drop p)) :=
  ⟨h.binary, rfl, by push_cast; rfl⟩

/-- A target that finds no record of its type, but a whole head, is left alone. -/
lemma outcome_skip {c : Message} {t : Target} (h : At c payload p)
    (hwhole : Whole t (payload.drop p)) (ht : ¬ Takes t (payload.drop p)) :
    Outcome payload p t (some (none, c)) := by
  refine ⟨⟨fun _ x hx => by simp at hx, fun _ => hwhole⟩, p, h, ?_⟩
  rw [next, if_neg ht]

/-- A target that takes the record in front of it. -/
lemma outcome_take {c : Message} {t : Target} (v : Value)
    (h : At c payload (p + 4 + sizeWord (payload.drop p)))
    (hwhole : Whole t (payload.drop p) ↔ Inside payload v) (ht : Takes t (payload.drop p)) :
    Outcome payload p t (some (some v, c)) := by
  refine ⟨⟨fun hw x hx => ?_, fun hv => hwhole.mpr (hv v rfl)⟩, _, h, ?_⟩
  · rw [Option.some.injEq] at hx
    subst hx
    exact hwhole.mp hw
  · rw [next, if_pos ht, List.drop_drop, Nat.add_assoc]

lemma unshiftInteger_outcome {c : Message} (h : At c payload p) (hp : p ≤ payload.length) :
    Outcome payload p .integer c.unshiftInteger := by
  have hs := read16_stored hp 0
  have ht := read16_stored hp 2
  rw [Nat.add_zero] at hs
  rw [unshiftInteger, h.offset, h.bytes]
  simp only [toNat?_natCast, Option.bind_eq_bind, Option.bind_some, hs, ht]
  by_cases h1 : 1 ≤ (payload.drop p).length
  case neg =>
    rw [if_neg (by omega)]
    exact fun hw => h1 hw.1
  rw [if_pos (by omega)]
  simp only [Option.bind_some]
  by_cases h4 : word (payload.drop p) 0 = 4
  case neg =>
    have hsize : sizeWord (payload.drop p) ≠ 4 := fun e => h4 (UInt16.toNat_inj.mp e)
    have htake : ¬ Takes .integer (payload.drop p) := fun ht => hsize ht.1
    rw [if_pos h4]
    exact outcome_skip h ⟨h1, fun e => absurd e hsize, fun ht => absurd ht htake⟩ htake
  have hsize : sizeWord (payload.drop p) = 4 := congrArg UInt16.toNat h4
  rw [if_neg (not_not.mpr h4)]
  by_cases h3 : 3 ≤ (payload.drop p).length
  case neg =>
    rw [if_neg (by omega)]
    exact fun hw => h3 (hw.2.1 hsize)
  rw [if_pos (by omega)]
  simp only [Option.bind_some]
  by_cases hty : word (payload.drop p) 2 = INTEGER
  case neg =>
    have htake : ¬ Takes .integer (payload.drop p) := fun ht => hty ht.2
    rw [if_pos hty]
    exact outcome_skip h ⟨h1, fun _ => h3, fun ht => absurd ht htake⟩ htake
  have htake : Takes .integer (payload.drop p) := ⟨hsize, hty⟩
  rw [if_neg (not_not.mpr hty)]
  by_cases h7 : 7 ≤ (payload.drop p).length
  case neg =>
    rw [read32_stored_none hp 4 (by omega)]
    exact fun hw => h7 (hw.2.2 htake)
  obtain ⟨x, hx⟩ := read32_stored hp 4 (by omega)
  rw [hx]
  have hwhole : Whole .integer (payload.drop p) := ⟨h1, fun _ => h3, fun _ => h7⟩
  exact outcome_take _ h.moved ⟨fun _ => trivial, fun _ => hwhole⟩ htake

/-- The two words of a head, for the decoders that read both: they go on with the words of the
payload, or have no result where it ends before the second. -/
lemma bind_head {β : Type} (hp : p ≤ payload.length) (h3 : 3 ≤ (payload.drop p).length)
    (k : UInt16 → UInt16 → Option β) :
    ((read16 (payload ++ [0]) p).bind fun s => (read16 (payload ++ [0]) (p + 2)).bind (k s))
      = k (word (payload.drop p) 0) (word (payload.drop p) 2) := by
  have hs := read16_stored hp 0
  rw [Nat.add_zero, if_pos (by omega)] at hs
  rw [hs, read16_stored hp 2, if_pos h3]
  rfl

lemma bind_head_none {β : Type} (hp : p ≤ payload.length) (h3 : ¬ 3 ≤ (payload.drop p).length)
    (k : UInt16 → UInt16 → Option β) :
    ((read16 (payload ++ [0]) p).bind fun s => (read16 (payload ++ [0]) (p + 2)).bind (k s))
      = none := by
  rw [read16_stored hp 2, if_neg h3]
  cases read16 (payload ++ [0]) p <;> rfl

lemma unshiftString_outcome {c : Message} (h : At c payload p) (hp : p ≤ payload.length) :
    Outcome payload p .string c.unshiftString := by
  rw [unshiftString, h.offset, h.bytes]
  simp only [toNat?_natCast, Option.bind_eq_bind, Option.bind_some]
  by_cases h3 : 3 ≤ (payload.drop p).length
  case neg =>
    rw [bind_head_none hp h3]
    exact fun hw => h3 hw.1
  rw [bind_head hp h3]
  by_cases hty : word (payload.drop p) 2 = STRING
  case neg =>
    have htake : ¬ Takes .string (payload.drop p) := fun ht => hty ht.1
    rw [if_pos hty]
    exact outcome_skip h ⟨h3, fun e => absurd e hty, fun ht => absurd ht htake⟩ htake
  rw [if_neg (not_not.mpr hty)]
  by_cases hpos : 1 ≤ sizeWord (payload.drop p)
  case neg =>
    have hzero : word (payload.drop p) 0 < 1 := UInt16.lt_iff_toNat_lt.mpr (Nat.not_le.mp hpos)
    have htake : ¬ Takes .string (payload.drop p) := fun ht => hpos ht.2.1
    rw [if_pos hzero]
    exact outcome_skip h ⟨h3, fun _ h1 => absurd h1 hpos, fun ht => absurd ht htake⟩ htake
  have hnonzero : ¬ word (payload.drop p) 0 < 1 :=
    fun hlt => Nat.not_lt.mpr hpos (UInt16.lt_iff_toNat_lt.mp hlt)
  have hpos_last : p + 4 + (word (payload.drop p) 0).toNat - 1
      = p + (3 + sizeWord (payload.drop p)) := by
    rw [sizeWord]
    omega
  rw [if_neg hnonzero, hpos_last, getElem?_stored hp (3 + sizeWord (payload.drop p))]
  by_cases hfit : 3 + sizeWord (payload.drop p) ≤ (payload.drop p).length
  case neg =>
    rw [if_neg hfit]
    exact fun hw => hfit (hw.2.1 hty hpos)
  rw [if_pos hfit]
  simp only [Option.bind_some]
  by_cases hnul : (payload.drop p).getD (3 + sizeWord (payload.drop p)) 0 = 0
  case neg =>
    have htake : ¬ Takes .string (payload.drop p) := fun ht => hnul ht.2.2
    rw [if_pos hnul]
    exact outcome_skip h ⟨h3, fun _ _ => hfit, fun ht => absurd ht htake⟩ htake
  have htake : Takes .string (payload.drop p) := ⟨hty, hpos, hnul⟩
  rw [if_neg (not_not.mpr hnul)]
  have hlen : (payload.drop p).length = payload.length - p := List.length_drop
  have hstr : (cstring ((payload ++ [0]).drop (p + 4))).length
      = (cstring ((payload.drop p).drop 4)).length := by
    rw [cstring_stored (by omega), List.drop_drop]
  refine outcome_take (.string (p + 4)) h.moved ?_ htake
  constructor
  · intro hw
    have hfits := hw.2.2 htake
    show p + 4 + (cstring ((payload ++ [0]).drop (p + 4))).length < payload.length
    omega
  · intro hin
    have hfits : p + 4 + (cstring ((payload ++ [0]).drop (p + 4))).length < payload.length := hin
    exact ⟨h3, fun _ _ => hfit, fun _ => by omega⟩

lemma unshiftData_outcome {c : Message} (h : At c payload p) (hp : p ≤ payload.length) :
    Outcome payload p .data c.unshiftData := by
  rw [unshiftData, h.offset, h.bytes]
  simp only [toNat?_natCast, Option.bind_eq_bind, Option.bind_some]
  by_cases h3 : 3 ≤ (payload.drop p).length
  case neg =>
    rw [bind_head_none hp h3]
    exact fun hw => h3 hw.1
  rw [bind_head hp h3]
  by_cases hty : word (payload.drop p) 2 = DATA
  case neg =>
    have htake : ¬ Takes .data (payload.drop p) := hty
    rw [if_pos hty]
    exact outcome_skip h ⟨h3, fun ht => absurd ht htake⟩ htake
  have htake : Takes .data (payload.drop p) := hty
  rw [if_neg (not_not.mpr hty)]
  refine outcome_take (.data (p + 4) (sizeWord (payload.drop p))) h.moved ?_ htake
  have hlen : (payload.drop p).length = payload.length - p := List.length_drop
  constructor
  · intro hw
    have hfit := hw.2 hty
    show p + 4 + sizeWord (payload.drop p) ≤ payload.length
    omega
  · intro hin
    have hfit : p + 4 + sizeWord (payload.drop p) ≤ payload.length := hin
    exact ⟨h3, fun _ => by omega⟩

/-- Behind the payload no decoder can read a size word. -/
lemma unshift_past {c : Message} (h : At c payload p) (hp : payload.length < p) (t : Target) :
    c.unshift t = none := by
  have hread : read16 (payload ++ [0]) p = none := by
    rw [read16, List.getElem?_eq_none (by simp; omega)]
    rfl
  have hbin := h.binary
  cases t with
  | integer =>
      rw [unshift, if_neg hbin, unshiftInteger, h.offset, h.bytes]
      simp only [toNat?_natCast, Option.bind_eq_bind, Option.bind_some, hread, Option.bind_none]
  | string =>
      rw [unshift, if_neg hbin, unshiftString, h.offset, h.bytes]
      simp only [toNat?_natCast, Option.bind_eq_bind, Option.bind_some, hread, Option.bind_none]
  | data =>
      rw [unshift, unshiftData, h.offset, h.bytes]
      simp only [toNat?_natCast, Option.bind_eq_bind, Option.bind_some, hread, Option.bind_none]

lemma not_whole_nil (t : Target) : ¬ Whole t [] := by
  cases t <;> simp [Whole]

/-- **One decoder**: it stays inside the message, and hands back what lies inside, exactly
when the record in front of it is whole; and then it stands in front of the next record. -/
lemma unshift_outcome {c : Message} (h : At c payload p) (t : Target) :
    Outcome payload p t (c.unshift t) := by
  rcases Nat.lt_or_ge payload.length p with hp | hp
  · rw [unshift_past h hp, Outcome, List.drop_eq_nil_of_le (Nat.le_of_lt hp)]
    exact not_whole_nil t
  · cases t with
    | integer =>
        rw [unshift, if_neg h.binary]
        exact unshiftInteger_outcome h hp
    | string =>
        rw [unshift, if_neg h.binary]
        exact unshiftString_outcome h hp
    | data => exact unshiftData_outcome h hp

/-! ### A list of targets -/

/-- Decoding stays inside the message: no access outside `data[0..size]`, and all that is
handed back inside `data[0..size)`. -/
def Safe (payload : List U8) (r : Option (List (Option Value) × Message)) : Prop :=
  ∃ vs c, r = some (vs, c) ∧ ∀ v ∈ vs, ∀ x, v = some x → Inside payload x

lemma unshiftAll_safe_iff {c : Message} (h : At c payload p) (ts : List Target) :
    Safe payload (c.unshiftAll ts) ↔ Encloses ts (payload.drop p) := by
  induction ts generalizing c p with
  | nil => exact ⟨fun _ => trivial, fun _ => ⟨[], c, rfl, by simp⟩⟩
  | cons t ts ih =>
      have hone := unshift_outcome h t
      rw [unshiftAll, Encloses]
      cases hr : c.unshift t with
      | none =>
          rw [hr] at hone
          refine ⟨?_, fun hw => absurd hw.1 hone⟩
          rintro ⟨vs, c', hsome, -⟩
          simp at hsome
      | some r =>
          obtain ⟨v, c'⟩ := r
          rw [hr] at hone
          obtain ⟨hwhole, p', h', hnext⟩ := hone
          rw [hwhole, ← hnext, ← ih h']
          simp only [Option.bind_eq_bind, Option.bind_some]
          constructor
          · rintro ⟨vs, d, hrun, hin⟩
            cases hrest : c'.unshiftAll ts with
            | none => simp [hrest] at hrun
            | some r =>
                rw [hrest] at hrun
                obtain ⟨rfl, rfl⟩ := Prod.mk.inj (Option.some.inj hrun)
                exact ⟨hin v List.mem_cons_self, r.1, r.2, rfl,
                  fun w hw => hin w (List.mem_cons_of_mem _ hw)⟩
          · rintro ⟨hv, vs, d, hrest, hin⟩
            rw [hrest]
            refine ⟨v :: vs, d, rfl, ?_⟩
            intro w hw
            rcases List.mem_cons.mp hw with rfl | hw
            · exact hv
            · exact hin w hw

/-- **Decoding a received binary message** stays inside the message exactly when the payload
encloses the targets: each in turn finds the head it reads, and a record of its own type,
whole within the payload. -/
theorem unpack_inside_iff (code : U16) (hcode : f2CodeStart ≤ code) (addr : ℕ)
    (addr_ne : addr ≠ 0) (payload : List U8) (ts : List Target) :
    Safe payload ((received code addr addr_ne payload).unpack ts) ↔ Encloses ts payload := by
  have h : At { received code addr addr_ne payload with offset := 0 } payload 0 :=
    ⟨UInt16.not_lt.mpr hcode, rfl, rfl⟩
  rw [unpack, unshiftAll_safe_iff h, List.drop_zero]

/-- An integer record and an empty string record are decoded safely. -/
theorem unpack_inside_two_records :
    Safe [0, 4, 0, 1, 0, 0, 0, 7, 0, 1, 0, 2, 0, 0, 0, 0]
      ((received 10000 1 one_ne_zero [0, 4, 0, 1, 0, 0, 0, 7, 0, 1, 0, 2, 0, 0, 0, 0]).unpack
        [.integer, .string]) :=
  (unpack_inside_iff 10000 (by decide) 1 one_ne_zero _ _).mpr (by decide)

/-- A record that claims nine bytes in a message of four: the `Data` handed back lies outside
the message. -/
theorem not_safe_overlong_data :
    ¬ Safe [0, 9, 0, 3] ((received 10000 1 one_ne_zero [0, 9, 0, 3]).unpack [.data]) := by
  rintro ⟨vs, c, hrun, hin⟩
  have hvs : vs = [some (.data 4 9)] := by
    have hrun' : (received 10000 1 one_ne_zero [0, 9, 0, 3]).unpack [.data]
        = some ([some (.data 4 9)], ⟨10000, 1, one_ne_zero, [0, 9, 0, 3, 0], 13⟩) := rfl
    rw [hrun'] at hrun
    exact (Prod.mk.inj (Option.some.inj hrun)).1.symm
  have hlong : Inside [0, 9, 0, 3] (.data 4 9) := hin _ (hvs ▸ List.mem_cons_self) _ rfl
  exact absurd hlong (by unfold Inside; decide)

end Received

end Napd
