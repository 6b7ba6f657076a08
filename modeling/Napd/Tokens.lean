import Napd.Tokenizer
import Napd.Library.Runs

/-!
Successive calls of `get_next_argument` on one cursor.

* `getNextArgumentUpTo`: the overload with a limit. The one for numbers finds a token when the
  first one does.
* `State`, `step`: the string and its terminator, the cursor, and the tokens that were found.
* `Fits`: what stands in front of the cursor is arbitrary, the rest is the rest of the string.
* `call_fits`: **one call stays in the string, and takes a token off the rest**.
* `tokens_in_order`: over every sequence of calls, the tokens are pieces of the string from left to
  right, at most as many as it has bytes.
-/

namespace Napd

namespace Tokenizer

/-- `get_next_argument(src, dst, limit)`. -/
def getNextArgumentUpTo (m : List U8) (src : Option ℕ) (limit : ℕ) : Option Argument := do
  let a ← getNextArgument m src
  match a.found, a.start with
  | true, some dst => do
      let e ← strend a.mem dst
      return { a with found := decide (e - dst < limit) }
  | _, _ => return a

/-- A call with a limit or without. -/
def callArgument (m : List U8) (src : Option ℕ) : Option ℕ → Option Argument
  | none => getNextArgument m src
  | some limit => getNextArgumentUpTo m src limit

/-- A token: where it begins, and the bytes up to its NUL. -/
structure Token where
  start : ℕ
  text : List U8

/-- The block, the cursor, and the tokens of the calls that returned `true`. -/
structure State where
  mem : List U8
  src : Option ℕ
  tokens : List Token

/-- A string with its terminator, and the cursor in front. -/
def State.new (s : List U8) : State := ⟨s ++ [0], some 0, []⟩

/-- The token of a call that returned `true`. -/
def Argument.token (a : Argument) : List Token :=
  match a.found, a.start with
  | true, some b => [⟨b, cstring (a.mem.drop b)⟩]
  | _, _ => []

/-- One call, with a limit or without. -/
def step (st : State) (limit : Option ℕ) : Option State :=
  (callArgument st.mem st.src limit).map fun a => ⟨a.mem, a.src, st.tokens ++ a.token⟩

/-- A call returns, and if it returns `true`, it moves the cursor forward or sets it to `NULL`. -/
def Moves (st : State) (limit : Option ℕ) : Prop :=
  ∃ a, callArgument st.mem st.src limit = some a ∧
    (a.found = true → a.src = none ∨ ∃ p q, st.src = some p ∧ a.src = some q ∧ p < q)

/-! ### One call -/

/-- From position `p` on the block holds the rest of the string and its terminator. -/
structure Fits (s m : List U8) (p : ℕ) : Prop where
  le : p ≤ s.length
  block : ∃ pre, pre.length = p ∧ m = pre ++ (s.drop p ++ [0])

/-- What a call does to a block that holds the rest of the string from `p` on. -/
structure Takes (s : List U8) (p : ℕ) (a : Argument) : Prop where
  fits : ∀ q, a.src = some q → Fits s a.mem q ∧ p ≤ q
  token : ∀ b, a.start = some b → a.found = true →
    ∃ front tok back, a.mem = front ++ (tok ++ 0 :: back) ∧ front.length = b ∧ 0 ∉ tok ∧
      tok = (s.drop b).take tok.length ∧ p ≤ b ∧ b + tok.length ≤ s.length ∧ p < s.length ∧
      ∀ q, a.src = some q → b + tok.length < q
  start : a.found = true → a.start ≠ none

/-- The rest of the string behind a part of it. -/
lemma fits_of_append {s : List U8} {p : ℕ} {x y : List U8} (h : s.drop p = x ++ y)
    (hp : p ≤ s.length) {pre : List U8} (hpre : pre.length = p + x.length) :
    Fits s (pre ++ (y ++ [0])) (p + x.length) := by
  have hlen := congrArg List.length h
  rw [List.length_drop, List.length_append] at hlen
  refine ⟨by omega, pre, hpre, ?_⟩
  rw [← List.drop_drop, h, List.drop_left]

/-- A piece of the rest is a piece of the string. -/
lemma piece_of_append {s : List U8} {p : ℕ} {x tok y : List U8} (h : s.drop p = x ++ (tok ++ y))
    (hp : p ≤ s.length) :
    tok = (s.drop (p + x.length)).take tok.length ∧ p + x.length + tok.length ≤ s.length := by
  have hlen := congrArg List.length h
  rw [List.length_drop, List.length_append, List.length_append] at hlen
  refine ⟨?_, by omega⟩
  rw [← List.drop_drop, h, List.drop_left, List.take_left]

/-- A token is cut off, with what stands in front of it and the gap behind. -/
lemma Takes.cut {s pre x tok gap y m : List U8} {c : U8} {b : ℕ} (h0 : 0 ∉ tok)
    (hp : pre.length ≤ s.length)
    (h : s.drop pre.length = x ++ (tok ++ c :: (gap ++ y))) (hb : b = pre.length + x.length)
    (hm : m = pre ++ (x ++ tok ++ 0 :: gap)) :
    Takes s pre.length ⟨m ++ (y ++ [0]), some m.length, some b, true⟩ := by
  have hlen : m.length = pre.length + (x ++ tok ++ c :: gap).length := by
    rw [hm]
    simp only [List.length_append, List.length_cons]
  have hsplit : s.drop pre.length = (x ++ tok ++ c :: gap) ++ y := by
    rw [h]
    simp only [List.append_assoc, List.cons_append]
  obtain ⟨hpiece, hend⟩ := piece_of_append h hp
  have hblock : m ++ (y ++ [0]) = (pre ++ x) ++ (tok ++ 0 :: (gap ++ (y ++ [0]))) := by
    rw [hm]
    simp only [List.append_assoc, List.cons_append]
  simp only [List.length_append, List.length_cons] at hlen
  refine ⟨fun q hq => ?_, fun b' hb' _ => ?_, fun _ => Option.some_ne_none b⟩
  · obtain rfl := Option.some.inj hq
    refine ⟨?_, by omega⟩
    have hcursor : m.length = pre.length + (x ++ tok ++ c :: gap).length := by
      simp only [List.length_append, List.length_cons]
      omega
    have hfits := fits_of_append hsplit hp hcursor
    rwa [← hcursor] at hfits
  · obtain rfl := Option.some.inj hb'
    have hrest := congrArg List.length h
    simp only [List.length_drop, List.length_append, List.length_cons] at hrest
    refine ⟨pre ++ x, tok, gap ++ (y ++ [0]), hblock, ?_, h0, hb ▸ hpiece, by omega, by omega,
      by omega, fun q hq => ?_⟩
    · rw [List.length_append, hb]
    · obtain rfl := Option.some.inj hq
      omega

/-- The last token is found, and the cursor becomes null. -/
lemma Takes.last {s pre x tok y m : List U8} {b : ℕ} (h0 : 0 ∉ tok) (hp : pre.length ≤ s.length)
    (h : s.drop pre.length = x ++ (tok ++ y)) (hne : tok ≠ []) (hb : b = pre.length + x.length) :
    Takes s pre.length ⟨pre ++ (x ++ (tok ++ 0 :: m)), none, some b, true⟩ := by
  obtain ⟨hpiece, hend⟩ := piece_of_append h hp
  have hpos : 0 < tok.length := List.length_pos_of_ne_nil hne
  refine ⟨nofun, fun b' hb' _ => ?_, fun _ => Option.some_ne_none b⟩
  obtain rfl := Option.some.inj hb'
  refine ⟨pre ++ x, tok, m, (List.append_assoc _ _ _).symm, ?_, h0, hb ▸ hpiece, by omega,
    by omega, by omega, nofun⟩
  rw [List.length_append, hb]

/-- No token is found, and the cursor becomes null. -/
lemma Takes.none_left (s m : List U8) (p : ℕ) (b : Option ℕ) :
    Takes s p ⟨m, none, b, false⟩ :=
  ⟨nofun, fun _ _ hfound => absurd hfound Bool.false_ne_true,
    fun hfound => absurd hfound Bool.false_ne_true⟩

/-- **One call** on each form of the rest. -/
lemma takes_of_form {s : List U8} {pre rest : List U8} (hs : 0 ∉ s)
    (hp : pre.length ≤ s.length) (hrest : s.drop pre.length = rest) (hform : Form rest) :
    ∃ a, getNextArgument (pre ++ (rest ++ [0])) (some pre.length) = some a ∧
      Takes s pre.length a := by
  have h0 : 0 ∉ rest := fun h => hs (List.mem_of_mem_drop (hrest ▸ h))
  cases hform with
  | plain tok gap after hq hspace hgap hafter =>
      have htok : 0 ∉ tok := fun h => h0 (List.mem_append_left _ h)
      exact ⟨_, getNextArgument_plain pre [] htok hq hspace hgap hafter,
        Takes.cut (x := []) htok hp hrest rfl rfl⟩
  | quoted tok gap after hq hspace hgap hafter =>
      have htok : 0 ∉ tok ++ (gap ++ after) := by
        simp only [List.mem_cons, List.mem_append, not_or] at h0 ⊢
        tauto
      exact ⟨_, getNextArgument_quoted pre [] htok hq hspace hgap hafter,
        Takes.cut (x := [quote]) (fun h => htok (List.mem_append_left _ h)) hp hrest rfl rfl⟩
  | unclosed tok hq hspace =>
      exact ⟨_, getNextArgument_unclosed pre [] (fun h => h0 (List.mem_cons_of_mem _ h)) hq hspace,
        Takes.none_left s _ _ _⟩
  | last _ hne hq hspace =>
      have htake := Takes.last (x := []) (y := []) (m := []) h0 hp
        (by rw [hrest, List.append_nil]; rfl) hne rfl
      exact ⟨_, getNextArgument_last pre [] h0 hne hq hspace, htake⟩
  | lastQuoted tok junk hne hspace hq =>
      have htok : 0 ∉ tok ++ junk := by
        simp only [List.mem_cons, List.mem_append, not_or] at h0 ⊢
        tauto
      have htake := Takes.last (x := [quote]) (m := junk ++ [0])
        (fun h => htok (List.mem_append_left _ h)) hp hrest hne rfl
      refine ⟨_, getNextArgument_lastQuoted pre [] htok hne hspace hq, ?_⟩
      simpa only [List.cons_append, List.append_assoc, List.nil_append, List.length_singleton]
        using htake
  | lone => exact ⟨_, getNextArgument_lone pre [], Takes.none_left s _ _ _⟩
  | dangling c tok hspace hq =>
      refine ⟨_, getNextArgument_dangling pre [] (fun h => h0 (List.mem_cons_of_mem _ h)) hspace hq,
        fun q hq => ?_, fun _ _ hfound => absurd hfound Bool.false_ne_true,
        fun hfound => absurd hfound Bool.false_ne_true⟩
      obtain rfl := Option.some.inj hq
      rw [List.length_append, List.length_singleton]
      exact ⟨fits_of_append (x := [quote]) hrest hp List.length_append, Nat.le_succ _⟩

/-- **One call** stays in the string and its terminator, and takes a token off the rest. -/
lemma getNextArgument_fits {s m : List U8} {p : ℕ} (hs : 0 ∉ s) (h : Fits s m p) :
    ∃ a, getNextArgument m (some p) = some a ∧ Takes s p a := by
  obtain ⟨hle, pre, rfl, rfl⟩ := h
  by_cases hnil : s.drop pre.length = []
  · rw [hnil]
    have hchr : strchr (pre ++ ([] ++ [0])) pre.length space = some none :=
      strchr_append_zero pre space_ne_zero List.not_mem_nil List.not_mem_nil
    have hhead : (pre ++ ([] ++ [0]))[pre.length]? = some 0 := getElem?_cursor pre _
    refine ⟨⟨pre ++ ([] ++ [0]), none, some pre.length, false⟩, ?_, Takes.none_left s _ _ _⟩
    rw [getNextArgument, hchr]
    simp only [Option.bind_eq_bind, Option.bind_some, hhead, lastArgument]
    rfl
  · exact takes_of_form hs hle rfl (form_of_ne_nil hnil)

/-- A limit only decides what is returned. -/
lemma callArgument_fits {s m : List U8} {p : ℕ} (hs : 0 ∉ s) (h : Fits s m p)
    (limit : Option ℕ) : ∃ a, callArgument m (some p) limit = some a ∧ Takes s p a := by
  obtain ⟨a, hrun, htakes⟩ := getNextArgument_fits hs h
  cases limit with
  | none => exact ⟨a, hrun, htakes⟩
  | some limit =>
      rw [callArgument, getNextArgumentUpTo, hrun]
      simp only [Option.bind_eq_bind, Option.bind_some]
      obtain ⟨mem, src, start, found⟩ := a
      cases found with
      | false => exact ⟨_, rfl, htakes⟩
      | true =>
          obtain ⟨b, hb⟩ := Option.ne_none_iff_exists'.mp (htakes.start rfl)
          obtain ⟨front, tok, back, hmem, hfront, h0, -⟩ := htakes.token b hb rfl
          have hend : strend mem b = some (b + tok.length) := by
            rw [show mem = front ++ (tok ++ 0 :: back) from hmem, ← hfront]
            exact strend_append front tok h0
          obtain rfl : start = some b := hb
          simp only [hend, Option.bind_some]
          exact ⟨_, rfl, htakes.fits, fun b' hb' _ => htakes.token b' hb' rfl,
            fun _ => Option.some_ne_none b⟩

/-- A call on a null cursor does nothing. -/
lemma callArgument_null (m : List U8) (limit : Option ℕ) :
    callArgument m none limit = some ⟨m, none, none, false⟩ := by
  cases limit <;> rfl

/-! ### Successive calls -/

/-- What holds of a string between two calls: the cursor is null or on the rest of the string, and
the tokens are pieces of what is in front of it, in order. -/
structure Tokenized (s : List U8) (st : State) : Prop where
  cursor : ∀ p, st.src = some p → Fits s st.mem p ∧ st.tokens.length ≤ p ∧
    ∀ t ∈ st.tokens, t.start + t.text.length < p
  count : st.tokens.length ≤ s.length
  pieces : ∀ t ∈ st.tokens, t.text = (s.drop t.start).take t.text.length ∧
    t.start + t.text.length ≤ s.length
  ordered : st.tokens.Pairwise fun t u => t.start + t.text.length < u.start

lemma new_tokenized (s : List U8) : Tokenized s (.new s) := by
  refine ⟨fun p hp => ?_, Nat.zero_le _, nofun, List.Pairwise.nil⟩
  obtain rfl := Option.some.inj hp
  exact ⟨⟨Nat.zero_le _, [], rfl, rfl⟩, Nat.le_refl 0, nofun⟩

/-- The token of a call that found one. -/
lemma Takes.token_eq {s : List U8} {p : ℕ} {a : Argument} (h : Takes s p a)
    (hfound : a.found = true) :
    ∃ t : Token, a.token = [t] ∧ t.text = (s.drop t.start).take t.text.length ∧ p ≤ t.start ∧
      t.start + t.text.length ≤ s.length ∧ p < s.length ∧
      ∀ q, a.src = some q → t.start + t.text.length < q := by
  obtain ⟨b, hb⟩ := Option.ne_none_iff_exists'.mp (h.start hfound)
  obtain ⟨front, tok, back, hmem, hfront, h0, hrest⟩ := h.token b hb hfound
  have htext : cstring (a.mem.drop b) = tok := by
    rw [hmem, ← hfront, List.drop_left, cstring_append h0]
  refine ⟨⟨b, tok⟩, ?_, hrest⟩
  rw [Argument.token, hfound, hb]
  simp only [htext]

lemma token_of_not_found {a : Argument} (h : a.found = false) : a.token = [] := by
  rw [Argument.token, h]

/-- **A call** moves, and keeps what holds between two calls. -/
lemma step_tokenized {s : List U8} (hs : 0 ∉ s) {st : State} (h : Tokenized s st)
    (limit : Option ℕ) :
    Moves st limit ∧ ∃ st', step st limit = some st' ∧ Tokenized s st' := by
  rw [Moves, step]
  cases hsrc : st.src with
  | none =>
      rw [callArgument_null]
      refine ⟨⟨_, rfl, nofun⟩, ⟨st.mem, none, st.tokens ++ []⟩, rfl, ?_⟩
      rw [List.append_nil]
      exact ⟨nofun, h.count, h.pieces, h.ordered⟩
  | some p =>
      obtain ⟨hfits, hcount, hbelow⟩ := h.cursor p hsrc
      obtain ⟨a, hrun, htakes⟩ := callArgument_fits hs hfits limit
      rw [hrun, Option.map_some]
      cases hfound : a.found with
      | false =>
          refine ⟨⟨a, rfl, fun hf => absurd (hfound.symm.trans hf) Bool.false_ne_true⟩, _, rfl, ?_⟩
          rw [token_of_not_found hfound, List.append_nil]
          refine ⟨fun q hq => ?_, h.count, h.pieces, h.ordered⟩
          obtain ⟨hfits', hle⟩ := htakes.fits q hq
          exact ⟨hfits', hcount.trans hle, fun t ht => (hbelow t ht).trans_le hle⟩
      | true =>
          obtain ⟨t, htoken, hpiece, hstart, hend, hlt, hnext⟩ := htakes.token_eq hfound
          refine ⟨⟨a, rfl, fun _ => ?_⟩, _, rfl, ?_⟩
          · cases hq : a.src with
            | none => exact Or.inl rfl
            | some q =>
                have hlen := hnext q hq
                exact Or.inr ⟨p, q, rfl, rfl, by omega⟩
          · rw [htoken]
            refine ⟨fun q hq => ?_, ?_, ?_, ?_⟩
            · have hlen := hnext q hq
              refine ⟨(htakes.fits q hq).1, ?_, fun u hu => ?_⟩
              · rw [List.length_append, List.length_singleton]
                omega
              · rcases List.mem_append.mp hu with hu | hu
                · have hbefore := hbelow u hu
                  omega
                · rw [List.mem_singleton.mp hu]
                  exact hlen
            · rw [List.length_append, List.length_singleton]
              omega
            · refine List.forall_mem_append.mpr ⟨h.pieces, ?_⟩
              exact List.forall_mem_singleton.mpr ⟨hpiece, hend⟩
            · refine List.pairwise_append.mpr ⟨h.ordered, List.pairwise_singleton _ _, ?_⟩
              intro u hu v hv
              rw [List.mem_singleton.mp hv]
              exact (hbelow u hu).trans_le hstart

/-- **Over every string and every sequence of calls on one cursor**: no call leaves the string and
its terminator, a call that returns `true` moves the cursor forward or sets it to `NULL`, and the
tokens are pieces of the string from left to right, none of them overlapping, at most as many as
the string has bytes. -/
theorem tokens_in_order (s : Text) (limits : List (Option ℕ)) :
    Runs.Always step Moves (.new s.val) limits ∧
      ∃ st, Runs.run step (.new s.val) limits = some st ∧ st.tokens.length ≤ s.val.length ∧
        (∀ t ∈ st.tokens, t.text = (s.val.drop t.start).take t.text.length ∧
          t.start + t.text.length ≤ s.val.length) ∧
        st.tokens.Pairwise fun t u => t.start + t.text.length < u.start := by
  have hrun : ∀ limits st, Tokenized s.val st → Runs.Always step Moves st limits ∧
      ∃ st', Runs.run step st limits = some st' ∧ Tokenized s.val st' := by
    intro limits
    induction limits with
    | nil => exact fun st h => ⟨trivial, st, rfl, h⟩
    | cons limit limits ih =>
        intro st h
        obtain ⟨hmoves, st₁, hstep, h₁⟩ := step_tokenized s.property h limit
        obtain ⟨halways, st', hrun, h'⟩ := ih st₁ h₁
        refine ⟨⟨hmoves, fun st₂ h₂ => ?_⟩, st', ?_, h'⟩
        · rw [hstep] at h₂
          exact Option.some.inj h₂ ▸ halways
        · rw [Runs.run, hstep, Option.bind_some, hrun]
  obtain ⟨halways, st, hst, h⟩ := hrun limits _ (new_tokenized s.val)
  exact ⟨halways, st, hst, h.count, h.pieces, h.ordered⟩

end Tokenizer

end Napd
