import Napd.Command.Model

/-!
Decoding a text message that may be short or malformed.

`get_next_argument` stores a null cursor when it has taken the last argument, and also when
it gives up; `_unshift` turns that into an offset, from which the next call reads.

* `NullEnding`, `NotFound`, `remaining`: how a call ends on the text at the cursor, by form.
* `NeverNull ts text`: no target but the last meets a text on which the cursor becomes null.
* `AllFound ts text`: no string target meets a text in which no argument is found.
* `unpack_total_iff`: decoding stays inside the message exactly when `NeverNull` holds, and
  moreover leaves alone every target that no argument remains for exactly when `AllFound`
  holds too.
-/

namespace Napd

open Command Tokenizer

namespace Malformed

open Message

/-! ### How a call ends -/

/-- The cursor becomes null: nothing follows the argument taken, or an opening quote is
closed nowhere in a text with a space, or the text is a lone quote. -/
def NullEnding (rest : List U8) : Prop :=
  rest ≠ [] ∧
    if space ∈ rest then rest.head? = some quote ∧ quote ∉ rest.tail
    else rest.head? = some quote → rest.tail = [] ∨ quote ∈ rest.tail.tail

/-- No argument is found in a text that is not empty: its opening quote is not closed. -/
def NotFound (rest : List U8) : Prop :=
  rest.head? = some quote ∧
    if space ∈ rest then quote ∉ rest.tail else quote ∉ rest.tail.tail

/-- The text at the cursor after a call, where the cursor is not null. -/
def remaining (rest : List U8) : List U8 :=
  if space ∈ rest then
    if rest.head? = some quote then
      ((rest.tail.dropWhile (· ≠ quote)).tail).dropWhile (· = space)
    else (rest.dropWhile (· ≠ space)).dropWhile (· = space)
  else rest.tail

instance (rest : List U8) : Decidable (NullEnding rest) := by
  unfold NullEnding
  infer_instance

instance (rest : List U8) : Decidable (NotFound rest) := by
  unfold NotFound
  infer_instance

/-- No target but the last meets a text on which the cursor becomes null. -/
def NeverNull : List Target → List U8 → Prop
  | [], _ => True
  | _ :: ts, rest => if NullEnding rest then ts = [] else NeverNull ts (remaining rest)

/-- No string target meets a text in which no argument is found. -/
def AllFound : List Target → List U8 → Prop
  | [], _ => True
  | t :: ts, rest => (t = .string → ¬ NotFound rest) ∧ AllFound ts (remaining rest)

instance decidableNeverNull :
    (ts : List Target) → (rest : List U8) → Decidable (NeverNull ts rest)
  | [], _ => isTrue trivial
  | _ :: ts, rest =>
      have := decidableNeverNull ts (remaining rest)
      inferInstanceAs
        (Decidable (if NullEnding rest then ts = [] else NeverNull ts (remaining rest)))

instance decidableAllFound :
    (ts : List Target) → (rest : List U8) → Decidable (AllFound ts rest)
  | [], _ => isTrue trivial
  | t :: ts, rest =>
      have := decidableAllFound ts (remaining rest)
      inferInstanceAs
        (Decidable ((t = .string → ¬ NotFound rest) ∧ AllFound ts (remaining rest)))

lemma remaining_subset (rest : List U8) : remaining rest ⊆ rest := by
  rw [remaining]
  split_ifs
  · exact ((List.dropWhile_sublist _).trans ((List.tail_sublist _).trans
      ((List.dropWhile_sublist _).trans (List.tail_sublist _)))).subset
  · exact ((List.dropWhile_sublist _).trans (List.dropWhile_sublist _)).subset
  · exact (List.tail_sublist _).subset

/-! ### The ending of each form -/

lemma dropWhile_append_cons {tok m : List U8} {c : U8} (h : c ∉ tok) :
    (tok ++ c :: m).dropWhile (· ≠ c) = c :: m := by
  rw [List.dropWhile_append_of_pos]
  · simp
  · intro b hb
    simpa using ne_of_mem_of_not_mem hb h

lemma dropWhile_gap {gap after : List U8} (hgap : ∀ x ∈ gap, x = space)
    (hafter : after.head? ≠ some space) : (gap ++ after).dropWhile (· = space) = after := by
  rw [List.dropWhile_append_of_pos (by simpa using hgap)]
  cases after with
  | nil => rfl
  | cons b after => exact List.dropWhile_cons_of_neg (by simpa using hafter)

lemma ending_plain {tok gap after : List U8} (hq : tok.head? ≠ some quote) (hs : space ∉ tok)
    (hgap : ∀ x ∈ gap, x = space) (hafter : after.head? ≠ some space) :
    ¬ NullEnding (tok ++ space :: (gap ++ after)) ∧ ¬ NotFound (tok ++ space :: (gap ++ after)) ∧
      remaining (tok ++ space :: (gap ++ after)) = after := by
  have hmem : space ∈ tok ++ space :: (gap ++ after) := by simp
  have hhead : (tok ++ space :: (gap ++ after)).head? ≠ some quote := by
    cases tok with
    | nil => simp [space, quote]
    | cons b tok => exact hq
  refine ⟨?_, fun h => hhead h.1, ?_⟩
  · rw [NullEnding, if_pos hmem]
    exact fun h => hhead h.2.1
  · rw [remaining, if_pos hmem, if_neg hhead, dropWhile_append_cons hs,
      List.dropWhile_cons_of_pos (by simp), dropWhile_gap hgap hafter]

lemma ending_quoted {tok gap after : List U8} (hq : quote ∉ tok)
    (hs : space ∈ tok ++ (gap ++ after)) (hgap : ∀ x ∈ gap, x = space)
    (hafter : after.head? ≠ some space) :
    ¬ NullEnding (quote :: (tok ++ quote :: (gap ++ after))) ∧
      ¬ NotFound (quote :: (tok ++ quote :: (gap ++ after))) ∧
      remaining (quote :: (tok ++ quote :: (gap ++ after))) = after := by
  have hmem : space ∈ quote :: (tok ++ quote :: (gap ++ after)) := by
    simp only [List.mem_cons, List.mem_append] at hs ⊢
    tauto
  have hclose : quote ∈ (quote :: (tok ++ quote :: (gap ++ after))).tail := by simp
  refine ⟨?_, ?_, ?_⟩
  · rw [NullEnding, if_pos hmem]
    exact fun h => h.2.2 hclose
  · rw [NotFound, if_pos hmem]
    exact fun h => h.2 hclose
  · rw [remaining, if_pos hmem, List.head?_cons, if_pos rfl, List.tail_cons,
      dropWhile_append_cons hq, List.tail_cons, dropWhile_gap hgap hafter]

lemma ending_unclosed {tok : List U8} (hq : quote ∉ tok) (hs : space ∈ tok) :
    NullEnding (quote :: tok) ∧ NotFound (quote :: tok) := by
  have hmem : space ∈ quote :: tok := List.mem_cons_of_mem _ hs
  rw [NullEnding, NotFound, if_pos hmem, if_pos hmem]
  exact ⟨⟨by simp, rfl, hq⟩, rfl, hq⟩

lemma ending_last {tok : List U8} (hne : tok ≠ []) (hq : tok.head? ≠ some quote)
    (hs : space ∉ tok) : NullEnding tok ∧ ¬ NotFound tok := by
  rw [NullEnding, if_neg hs]
  exact ⟨⟨hne, fun h => absurd h hq⟩, fun h => hq h.1⟩

lemma ending_lastQuoted {tok junk : List U8} (hne : tok ≠ []) (hs : space ∉ tok ++ junk) :
    NullEnding (quote :: (tok ++ quote :: junk)) ∧
      ¬ NotFound (quote :: (tok ++ quote :: junk)) := by
  have hmem : space ∉ quote :: (tok ++ quote :: junk) := by
    simp only [List.mem_cons, List.mem_append] at hs ⊢
    simp only [space, quote] at hs ⊢
    tauto
  obtain ⟨c, tok, rfl⟩ := List.exists_cons_of_ne_nil hne
  rw [NullEnding, NotFound, if_neg hmem, if_neg hmem]
  exact ⟨⟨by simp, fun _ => .inr (by simp)⟩, fun h => h.2 (by simp)⟩

lemma ending_lone : NullEnding [quote] ∧ NotFound [quote] := by decide

lemma ending_dangling {c : U8} {tok : List U8} (hs : space ∉ c :: tok) (hq : quote ∉ tok) :
    ¬ NullEnding (quote :: c :: tok) ∧ NotFound (quote :: c :: tok) ∧
      remaining (quote :: c :: tok) = c :: tok := by
  have hmem : space ∉ quote :: c :: tok := by
    rw [List.mem_cons, not_or]
    exact ⟨space_ne_quote, hs⟩
  rw [NullEnding, NotFound, remaining, if_neg hmem, if_neg hmem, if_neg hmem]
  refine ⟨fun h => ?_, ⟨rfl, hq⟩, rfl⟩
  rcases h.2 rfl with h | h
  · simp at h
  · exact hq h

/-! ### One call -/

/-- How a call of `get_next_argument` on the text `rest` ends. -/
structure Ends (rest post : List U8) (r : Argument) : Prop where
  start : r.start ≠ none
  found : r.found = false ↔ NotFound rest
  null : NullEnding rest → r.src = none
  moved : ¬ NullEnding rest →
    ∃ pre, r.mem = pre ++ (remaining rest ++ 0 :: post) ∧ r.src = some pre.length

/-- **One call**: it stays inside the memory, and ends as the form of the text says. -/
lemma getNextArgument_ends (pre post : List U8) {rest : List U8} (h0 : 0 ∉ rest) (hne : rest ≠ []) :
    ∃ r, getNextArgument (pre ++ (rest ++ 0 :: post)) (some pre.length) = some r ∧
      Ends rest post r := by
  cases form_of_ne_nil hne with
  | plain tok gap after hq hs hgap hafter =>
      obtain ⟨hnull, hfound, hrest⟩ := ending_plain hq hs hgap hafter
      rw [List.mem_append, not_or] at h0
      refine ⟨_, getNextArgument_plain _ _ h0.1 hq hs hgap hafter, by simp, by simp [hfound],
        fun h => absurd h hnull, fun _ => ⟨_, ?_, rfl⟩⟩
      rw [hrest]
  | quoted tok gap after hq hs hgap hafter =>
      obtain ⟨hnull, hfound, hrest⟩ := ending_quoted hq hs hgap hafter
      have h0' : 0 ∉ tok ++ (gap ++ after) := by
        simp only [List.mem_cons, List.mem_append] at h0 ⊢
        tauto
      refine ⟨_, getNextArgument_quoted _ _ h0' hq hs hgap hafter, by simp, by simp [hfound],
        fun h => absurd h hnull, fun _ => ⟨_, ?_, rfl⟩⟩
      rw [hrest]
  | unclosed tok hq hs =>
      obtain ⟨hnull, hfound⟩ := ending_unclosed hq hs
      rw [List.mem_cons, not_or] at h0
      exact ⟨_, getNextArgument_unclosed _ _ h0.2 hq hs, by simp, by simp [hfound], fun _ => rfl,
        fun h => absurd hnull h⟩
  | last _ htok hq hs =>
      obtain ⟨hnull, hfound⟩ := ending_last htok hq hs
      exact ⟨_, getNextArgument_last _ _ h0 htok hq hs, by simp, by simp [hfound], fun _ => rfl,
        fun h => absurd hnull h⟩
  | lastQuoted tok junk htok hs hq =>
      obtain ⟨hnull, hfound⟩ := ending_lastQuoted htok hs
      have h0' : 0 ∉ tok ++ junk := by
        simp only [List.mem_cons, List.mem_append] at h0 ⊢
        tauto
      exact ⟨_, getNextArgument_lastQuoted _ _ h0' htok hs hq, by simp, by simp [hfound],
        fun _ => rfl, fun h => absurd hnull h⟩
  | lone =>
      obtain ⟨hnull, hfound⟩ := ending_lone
      exact ⟨_, getNextArgument_lone _ _, by simp, by simp [hfound], fun _ => rfl,
        fun h => absurd hnull h⟩
  | dangling c tok hs hq =>
      obtain ⟨hnull, hfound, hrest⟩ := ending_dangling hs hq
      rw [List.mem_cons, not_or] at h0
      refine ⟨_, getNextArgument_dangling _ _ h0.2 hs hq, by simp, by simp [hfound],
        fun h => absurd h hnull, fun _ => ⟨pre ++ [quote], ?_, rfl⟩⟩
      rw [hrest]

/-! ### One decoder -/

/-- No argument remains at the cursor: `get_next_argument` finds none there. -/
def NoArgument (c : Message) : Prop :=
  ∃ p r, c.offset = (p : ℕ) ∧ getNextArgument c.bytes (some p) = some r ∧ r.found = false

/-- A message decoded up to the text `rest`. -/
structure At (c : Message) (rest : List U8) : Prop where
  text : c.code < f2CodeStart
  nul : 0 ∉ rest
  stands : ∃ pre post, c.bytes = pre ++ (rest ++ 0 :: post) ∧ c.offset = pre.length

/-- A message whose offset comes from a null cursor. -/
structure AtNull (c : Message) : Prop where
  text : c.code < f2CodeStart
  offset : c.offset = -c.addr

/-- From a null cursor every decoder reads outside the message. -/
lemma unshift_null {c : Message} (h : AtNull c) {t : Target} (ht : t ≠ .data) :
    c.unshift t = none := by
  have hneg : c.offset.toNat? = none := by
    have := c.addr_ne
    rw [h.offset]
    obtain ⟨n, hn⟩ : ∃ n, c.addr = n + 1 := ⟨c.addr - 1, by omega⟩
    rw [hn]
    rfl
  cases t with
  | integer => rw [unshift, if_pos h.text, unshiftText, hneg]; rfl
  | string => rw [unshift, if_pos h.text, unshiftText, hneg]; rfl
  | data => exact absurd rfl ht

/-- At the end of the text a target is left alone. -/
lemma unshift_nil {c : Message} (h : At c []) {t : Target} (ht : t ≠ .data) :
    c.unshift t = some (none, c) := by
  obtain ⟨pre, post, hbytes, hoff⟩ := h.stands
  have hget : c.bytes[pre.length]? = some 0 := by
    rw [hbytes, getElem?_cursor]
    rfl
  have htext : c.unshiftText t = some (none, c) := by
    rw [unshiftText, hoff]
    simp only [toNat?_natCast, Option.bind_eq_bind, Option.bind_some, hget, if_true]
    rfl
  cases t with
  | integer => rw [unshift, if_pos h.text, htext]
  | string => rw [unshift, if_pos h.text, htext]
  | data => exact absurd rfl ht

lemma unshiftText_eq {c : Message} {p : ℕ} {r : Argument} {b : U8} (t : Target)
    (hoff : c.offset = p) (hget : c.bytes[p]? = some b) (hb : b ≠ 0)
    (hr : getNextArgument c.bytes (some p) = some r) (hstart : r.start ≠ none) :
    ∃ v, c.unshiftText t = some (v, { c with bytes := r.mem, offset := c.offsetOf r.src }) ∧
      (v = none ↔ t = .integer ∧ r.found = false) := by
  obtain ⟨start, hstart⟩ := Option.ne_none_iff_exists'.mp hstart
  rw [unshiftText, hoff]
  simp only [toNat?_natCast, Option.bind_eq_bind, Option.bind_some, hget, if_neg hb, hr, hstart]
  cases t with
  | integer => exact ⟨_, rfl, by simp⟩
  | string => exact ⟨_, rfl, by simp⟩
  | data => exact ⟨_, rfl, by simp⟩

/-- In front of a text that is not empty, `get_next_argument` is called. -/
lemma unshift_text {c : Message} {rest : List U8} (h : At c rest) (hne : rest ≠ [])
    {t : Target} (ht : t ≠ .data) :
    ∃ v c', c.unshift t = some (v, c') ∧ (NoArgument c ↔ NotFound rest) ∧
      (v = none ↔ t = .integer ∧ NotFound rest) ∧
      (NullEnding rest → AtNull c') ∧ (¬ NullEnding rest → At c' (remaining rest)) := by
  obtain ⟨pre, post, hbytes, hoff⟩ := h.stands
  obtain ⟨r, hr, hends⟩ := getNextArgument_ends pre post h.nul hne
  obtain ⟨b, rest', rfl⟩ := List.exists_cons_of_ne_nil hne
  have hb : b ≠ 0 := fun e => h.nul (e ▸ List.mem_cons_self)
  have hget : c.bytes[pre.length]? = some b := by
    rw [hbytes, getElem?_cursor]
    rfl
  rw [← hbytes] at hr
  obtain ⟨v, hv, hnone⟩ := unshiftText_eq t hoff hget hb hr hends.start
  have hun : c.unshift t = c.unshiftText t := by
    cases t with
    | integer => rw [unshift, if_pos h.text]
    | string => rw [unshift, if_pos h.text]
    | data => exact absurd rfl ht
  refine ⟨v, _, hun.trans hv, ?_, hnone.trans (and_congr_right' hends.found), ?_, ?_⟩
  · constructor
    · rintro ⟨p, r', hp, hr', hfound⟩
      obtain rfl : p = pre.length := by
        rw [hoff] at hp
        exact_mod_cast hp.symm
      rw [hr, Option.some.injEq] at hr'
      exact hends.found.mp (hr' ▸ hfound)
    · intro hnot
      exact ⟨pre.length, r, hoff, hr, hends.found.mpr hnot⟩
  · intro hnull
    refine ⟨h.text, ?_⟩
    show c.offsetOf r.src = -c.addr
    rw [hends.null hnull, offsetOf]
  · intro hnull
    obtain ⟨pre', hmem, hsrc⟩ := hends.moved hnull
    refine ⟨h.text, fun h0 => h.nul (remaining_subset _ h0), pre', post, hmem, ?_⟩
    show c.offsetOf r.src = pre'.length
    rw [hsrc, offsetOf]

/-! ### A list of targets -/

/-- Every target for which no argument remains is left untouched. -/
def Untouched : Message → List Target → Prop
  | _, [] => True
  | c, t :: ts =>
      ∀ v c', c.unshift t = some (v, c') → (NoArgument c → v = none) ∧ Untouched c' ts

lemma remaining_nil : remaining [] = [] := rfl

lemma not_nullEnding_nil : ¬ NullEnding [] := by decide

lemma not_notFound_nil : ¬ NotFound [] := by decide

lemma unshiftAll_cons {c c' : Message} {t : Target} {v : Option Value} (ts : List Target)
    (h : c.unshift t = some (v, c')) :
    (∃ r, c.unshiftAll (t :: ts) = some r) ↔ ∃ r, c'.unshiftAll ts = some r := by
  rw [unshiftAll, h]
  cases hr : c'.unshiftAll ts <;> simp [hr]

lemma unshiftAll_null {c : Message} (h : AtNull c) {ts : List Target} (hts : Target.data ∉ ts) :
    (∃ r, c.unshiftAll ts = some r) ↔ ts = [] := by
  cases ts with
  | nil => exact ⟨fun _ => rfl, fun _ => ⟨_, rfl⟩⟩
  | cons t ts =>
      have ht : t ≠ .data := fun e => hts (e ▸ List.mem_cons_self)
      rw [unshiftAll, unshift_null h ht]
      simp

/-- **Staying inside**: decoding makes no access outside `data[0..size]` exactly when the
cursor becomes null at the last target at the earliest. -/
lemma unshiftAll_inside_iff {c : Message} {rest : List U8} (h : At c rest) (ts : List Target)
    (hts : Target.data ∉ ts) : (∃ r, c.unshiftAll ts = some r) ↔ NeverNull ts rest := by
  induction ts generalizing c rest with
  | nil => exact ⟨fun _ => trivial, fun _ => ⟨_, rfl⟩⟩
  | cons t ts ih =>
      rw [List.mem_cons, not_or] at hts
      have ht : t ≠ .data := fun e => hts.1 e.symm
      by_cases hne : rest = []
      · subst hne
        rw [unshiftAll_cons ts (unshift_nil h ht), ih h hts.2, NeverNull,
          if_neg not_nullEnding_nil, remaining_nil]
      · obtain ⟨v, c', hstep, -, -, hnull, hmoved⟩ := unshift_text h hne ht
        rw [unshiftAll_cons ts hstep, NeverNull]
        split_ifs with hend
        · exact unshiftAll_null (hnull hend) hts.2
        · exact ih (hmoved hend) hts.2

lemma untouched_cons {c c' : Message} {t : Target} {v : Option Value} (ts : List Target)
    (h : c.unshift t = some (v, c')) :
    Untouched c (t :: ts) ↔ (NoArgument c → v = none) ∧ Untouched c' ts := by
  rw [Untouched]
  constructor
  · intro hall
    exact hall v c' h
  · intro hone v' d hd
    rw [h, Option.some.injEq, Prod.mk.injEq] at hd
    obtain ⟨rfl, rfl⟩ := hd
    exact hone

/-- **Leaving alone**: where decoding stays inside, the targets for which no argument
remains are left untouched exactly when every string target finds an argument or the end. -/
lemma untouched_iff {c : Message} {rest : List U8} (h : At c rest) (ts : List Target)
    (hts : Target.data ∉ ts) (hin : NeverNull ts rest) : Untouched c ts ↔ AllFound ts rest := by
  induction ts generalizing c rest with
  | nil => exact Iff.rfl
  | cons t ts ih =>
      rw [List.mem_cons, not_or] at hts
      have ht : t ≠ .data := fun e => hts.1 e.symm
      rw [NeverNull] at hin
      by_cases hne : rest = []
      · subst hne
        rw [if_neg not_nullEnding_nil, remaining_nil] at hin
        rw [untouched_cons ts (unshift_nil h ht), AllFound, ih h hts.2 hin, remaining_nil]
        refine and_congr_left' ⟨fun _ _ => not_notFound_nil, fun _ _ => rfl⟩
      · obtain ⟨v, c', hstep, hno, hv, hnull, hmoved⟩ := unshift_text h hne ht
        have hone : (NoArgument c → v = none) ↔ (t = .string → ¬ NotFound rest) := by
          rw [hno, hv]
          constructor
          · intro hleft hstr hnot
            rw [hstr] at hleft
            exact absurd (hleft hnot).1 (by decide)
          · intro hfound hnot
            refine ⟨?_, hnot⟩
            cases t with
            | integer => rfl
            | string => exact absurd hnot (hfound rfl)
            | data => exact absurd rfl ht
        rw [untouched_cons ts hstep, AllFound, hone]
        refine and_congr_right' ?_
        split_ifs at hin with hend
        · subst hin
          exact Iff.rfl
        · exact ih (hmoved hend) hts.2 hin

/-! ### A received message -/

lemma at_received (code : U16) (hcode : code < f2CodeStart) (addr : ℕ) (addr_ne : addr ≠ 0)
    (payload : List U8) : At (received code addr addr_ne payload) (cstring payload) := by
  obtain ⟨text, post, hsplit, h0⟩ :=
    List.eq_append_cons_of_mem (List.mem_append_right payload (List.mem_singleton_self (0 : U8)))
  have htext : cstring payload = text := by
    calc cstring payload
        = cstring (payload ++ [0]) := (cstring_append_zero payload).symm
      _ = cstring (text ++ 0 :: post) := by rw [hsplit]
      _ = text := cstring_append h0 post
  refine ⟨hcode, zero_notMem_cstring payload, [], post, ?_, rfl⟩
  rw [htext]
  exact hsplit

/-- **Decoding a text message**: every access is in `data[0..size]` exactly when no target
but the last meets a text on which the cursor becomes null; and besides, every target for
which no argument remains is left untouched exactly when no string target meets a text in
which no argument is found. -/
theorem unpack_total_iff (code : U16) (hcode : code < f2CodeStart) (addr : ℕ)
    (addr_ne : addr ≠ 0) (payload : List U8) (ts : List Target) (hts : Target.data ∉ ts) :
    ((∃ r, (received code addr addr_ne payload).unpack ts = some r) ↔
      NeverNull ts (cstring payload)) ∧
    ((∃ r, (received code addr addr_ne payload).unpack ts = some r) ∧
        Untouched (received code addr addr_ne payload) ts ↔
      NeverNull ts (cstring payload) ∧ AllFound ts (cstring payload)) := by
  have h := at_received code hcode addr addr_ne payload
  have hin := unshiftAll_inside_iff h ts hts
  refine ⟨hin, ?_⟩
  constructor
  · rintro ⟨hrun, huntouched⟩
    have hnull := hin.mp hrun
    exact ⟨hnull, (untouched_iff h ts hts hnull).mp huntouched⟩
  · rintro ⟨hnull, hfound⟩
    exact ⟨hin.mpr hnull, (untouched_iff h ts hts hnull).mpr hfound⟩

/-- The message `1 2` and a quoted string, for two integers and a string. -/
theorem unpack_total_example :
    (∃ r, (received 2 1 one_ne_zero [49, 32, 50, 32, 34, 97, 32, 98, 34]).unpack
      [.integer, .integer, .string] = some r) ∧
    Untouched (received 2 1 one_ne_zero [49, 32, 50, 32, 34, 97, 32, 98, 34])
      [.integer, .integer, .string] :=
  ((unpack_total_iff 2 (by decide) 1 one_ne_zero _ _ (by decide)).2).mpr (by decide)

/-- The message `a` for two string targets: the second is read at the null pointer. -/
theorem not_total_missing_argument :
    ¬ ∃ r, (received 2 1 one_ne_zero [97]).unpack [.string, .string] = some r := by
  have hrun : (received 2 1 one_ne_zero [97]).unpack [.string, .string] = none := rfl
  rw [hrun]
  simp

end Malformed

end Napd
