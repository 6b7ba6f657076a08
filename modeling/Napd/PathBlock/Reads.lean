import Napd.PathBlock.Model

/-!
What successive calls of the tokenizer read, and that it stays where it was read.

* `Reads`: the tokens that calls without a limit return, up to the first that returns `false`.
* `getNextArgument_take`: a call writes nothing in front of the cursor.
* `Safe`: a token stands in the block, in front of the cursor; a call keeps that
  (`Safe.next`).
* `Cursor`: the block holds the rest of the string from the cursor on.
* `reads_cons`: one call, where there is a token to read; `exists_reads`: every string has its
  tokens.
* `reads_ordered`, `reads_length`: tokens begin one behind the other, and there are not more of
  them than the string has bytes.
* `getNextString_cons`, `getNumbers_eq`: the calls with a limit, and those for numbers.
-/

namespace Napd.PathBlock

open Tokenizer Memory

/-- The tokens that calls without a limit return, from a cursor on. -/
def Reads : List Token → List U8 → Option ℕ → Prop
  | [], m, src => (getNextArgument m src).map Argument.found = some false
  | t :: ts, m, src =>
      match getNextArgument m src with
      | none => False
      | some a => a.token = [t] ∧ Reads ts a.mem a.src

deriving instance DecidableEq for Token

instance decidableReads : (ts : List Token) → (m : List U8) → (src : Option ℕ) →
    Decidable (Reads ts m src)
  | [], m, src => inferInstanceAs (Decidable ((getNextArgument m src).map _ = _))
  | t :: ts, m, src =>
      show Decidable (match getNextArgument m src with
        | none => False
        | some a => a.token = [t] ∧ Reads ts a.mem a.src) from
      match getNextArgument m src with
      | none => instDecidableFalse
      | some a => @instDecidableAnd _ _ _ (decidableReads ts a.mem a.src)

/-! ### What is in front of the cursor -/

lemma le_of_scan {stop : U8 → Bool} {m : List U8} {p q : ℕ} (h : scan stop m p = some q) :
    p ≤ q := by
  rw [scan] at h
  split_ifs at h with hlt
  exact Option.some.inj h ▸ Nat.le_add_right p _

lemma le_of_strchr {m : List U8} {p q : ℕ} {c : U8} (h : strchr m p c = some (some q)) :
    p ≤ q := by
  obtain ⟨e, he, h⟩ := Option.bind_eq_some_iff.mp h
  split_ifs at h with hc
  · obtain rfl := Option.some.inj (Option.some.inj h)
    exact le_of_scan he
  · exact absurd (Option.some.inj h) (Option.some_ne_none q).symm

lemma le_of_backUp {m : List U8} {start e q : ℕ} (h : backUp m start e = some q)
    (he : start ≤ e + 1) : start ≤ q + 1 := by
  induction e with
  | zero =>
      obtain rfl := Option.some.inj h
      exact he
  | succ e ih =>
      rw [backUp] at h
      split_ifs at h with hlt
      · obtain ⟨b, -, h⟩ := Option.bind_eq_some_iff.mp h
        split_ifs at h
        · exact Option.some.inj h ▸ he
        · exact ih h (by omega)
      · exact Option.some.inj h ▸ he

lemma cutArgument_take {m : List U8} {start e p : ℕ} {a : Argument}
    (h : cutArgument m start e = some a) (hp : p ≤ e) : a.mem.take p = m.take p := by
  obtain ⟨m', hm', h⟩ := Option.bind_eq_some_iff.mp h
  obtain ⟨q, -, h⟩ := Option.bind_eq_some_iff.mp h
  rw [← Option.some.inj h]
  exact take_splice hm' hp

lemma lastArgument_mem {m : List U8} {start : ℕ} {a : Argument}
    (h : lastArgument m start = some a) : a.mem = m := by
  obtain ⟨b, -, h⟩ := Option.bind_eq_some_iff.mp h
  rw [← Option.some.inj h]

/-- A call writes nothing in front of the cursor. -/
lemma getNextArgument_take {m : List U8} {p : ℕ} {a : Argument}
    (h : getNextArgument m (some p) = some a) : a.mem.take p = m.take p := by
  obtain ⟨r, hr, h⟩ := Option.bind_eq_some_iff.mp h
  cases r with
  | some e =>
      have hpe := le_of_strchr hr
      dsimp only at h
      split_ifs at h with hq
      · exact cutArgument_take h hpe
      · obtain ⟨r, hr, h⟩ := Option.bind_eq_some_iff.mp h
        cases r with
        | some e' => exact cutArgument_take h (Nat.le_of_succ_le (le_of_strchr hr))
        | none => rw [← Option.some.inj h]
  | none =>
      dsimp only at h
      split_ifs at h with hq
      · obtain ⟨e, he, h⟩ := Option.bind_eq_some_iff.mp h
        obtain ⟨e', he', h⟩ := Option.bind_eq_some_iff.mp h
        split_ifs at h with hlone
        · rw [← Option.some.inj h]
        · obtain ⟨m', hm', h⟩ := Option.bind_eq_some_iff.mp h
          rw [lastArgument_mem h]
          have hle := le_of_scan he
          refine take_splice hm' ?_
          have := le_of_backUp he' (by omega)
          omega
      · rw [lastArgument_mem h]

/-- A token stands in the block, with its NUL. -/
def Stands (m : List U8) (t : Token) : Prop :=
  (m.drop t.start).take (t.text.length + 1) = t.text ++ [0] ∧ 0 ∉ t.text

/-- A token stands in the block, and the cursor is behind it. -/
def Safe (m : List U8) (src : Option ℕ) (t : Token) : Prop :=
  Stands m t ∧ ∀ p, src = some p → t.start + t.text.length < p

lemma Stands.eq_append {m : List U8} {t : Token} (h : Stands m t) :
    ∃ back, m.drop t.start = t.text ++ 0 :: back := eq_append_of_take h.1

lemma Stands.cstring_eq {m : List U8} {t : Token} (h : Stands m t) :
    cstring (m.drop t.start) = t.text := by
  obtain ⟨back, hback⟩ := h.eq_append
  rw [hback, cstring_append h.2]

lemma Stands.strend_eq {m : List U8} {t : Token} (h : Stands m t) :
    strend m t.start = some (t.start + t.text.length) := by
  obtain ⟨back, hback⟩ := h.eq_append
  have hlen : t.start < m.length := by
    by_contra hle
    rw [List.drop_eq_nil_of_le (by omega)] at hback
    simp at hback
  have hm : m = m.take t.start ++ (t.text ++ 0 :: back) := by
    rw [← hback, List.take_append_drop]
  have hend := strend_append (m.take t.start) t.text (m := back) h.2
  rw [← hm, List.length_take_of_le hlen.le] at hend
  exact hend

/-- A token stays where nothing up to its end changes. -/
lemma Stands.of_take {m m' : List U8} {t : Token} {p : ℕ} (h : Stands m t)
    (hp : t.start + t.text.length < p) (hm : m'.take p = m.take p) : Stands m' t := by
  have hfront : m'.take (t.start + (t.text.length + 1))
      = m.take (t.start + (t.text.length + 1)) := by
    have hmin : min (t.start + (t.text.length + 1)) p = t.start + (t.text.length + 1) := by omega
    rw [← hmin, ← List.take_take, ← List.take_take, hm]
  refine ⟨?_, h.2⟩
  rw [← h.1, List.take_drop, List.take_drop, hfront]

/-- The block holds the rest of the string from the cursor on. -/
def Cursor (s m : List U8) (src : Option ℕ) : Prop := ∀ p, src = some p → Fits s m p

lemma cursor_start (s : List U8) : Cursor s (s ++ [0]) (some 0) := fun _ hp =>
  Option.some.inj hp ▸ ⟨Nat.zero_le _, [], rfl, rfl⟩

variable {s m : List U8} {src : Option ℕ}

/-- A call keeps the tokens in front of the cursor, and the rest behind it. -/
lemma Cursor.next (hs : 0 ∉ s) (h : Cursor s m src) {a : Argument}
    (hrun : getNextArgument m src = some a) :
    Cursor s a.mem a.src ∧ ∀ u, Safe m src u → Safe a.mem a.src u := by
  cases src with
  | none =>
      rw [← Option.some.inj hrun]
      exact ⟨h, fun u hu => hu⟩
  | some p =>
      obtain ⟨a', hrun', htakes⟩ := getNextArgument_fits hs (h p rfl)
      obtain rfl : a' = a := Option.some.inj (hrun'.symm.trans hrun)
      refine ⟨fun q hq => (htakes.fits q hq).1, fun u hu => ⟨?_, fun q hq => ?_⟩⟩
      · exact hu.1.of_take (hu.2 p rfl) (getNextArgument_take hrun)
      · exact lt_of_lt_of_le (hu.2 p rfl) (htakes.fits q hq).2

/-- A call where there is a token to read returns it, and the token stays. -/
lemma reads_cons (hs : 0 ∉ s) (h : Cursor s m src) {t : Token} {ts : List Token}
    (hreads : Reads (t :: ts) m src) :
    ∃ a p, getNextArgument m src = some a ∧ src = some p ∧ p ≤ t.start ∧ p < s.length ∧
      a.found = true ∧ a.start = some t.start ∧ Safe a.mem a.src t ∧ Reads ts a.mem a.src := by
  rw [Reads] at hreads
  cases hrun : getNextArgument m src with
  | none =>
      rw [hrun] at hreads
      exact hreads.elim
  | some a =>
      rw [hrun] at hreads
      obtain ⟨htoken, hrest⟩ := hreads
      cases hfound : a.found with
      | false =>
          rw [token_of_not_found hfound] at htoken
          exact absurd htoken (List.cons_ne_nil t []).symm
      | true =>
          cases src with
          | none =>
              rw [← Option.some.inj hrun] at hfound
              exact absurd hfound Bool.false_ne_true
          | some p =>
              obtain ⟨a', hrun', htakes⟩ := getNextArgument_fits hs (h p rfl)
              obtain rfl : a' = a := Option.some.inj (hrun'.symm.trans hrun)
              obtain ⟨b, hb⟩ := Option.ne_none_iff_exists'.mp (htakes.start hfound)
              obtain ⟨front, tok, back, hmem, hfront, h0, -, hpb, -, hlt, hnext⟩ :=
                htakes.token b hb hfound
              have htext : cstring (a'.mem.drop b) = tok := by
                rw [hmem, ← hfront, List.drop_left, cstring_append h0]
              rw [Argument.token, hfound, hb] at htoken
              obtain rfl := List.head_eq_of_cons_eq htoken
              refine ⟨a', p, rfl, rfl, hpb, hlt, hfound, hb, ⟨⟨?_, ?_⟩, fun q hq => ?_⟩, hrest⟩
              · dsimp only
                rw [htext, hmem, ← hfront, List.drop_left, List.take_append, List.take_of_length_le
                  (Nat.le_succ _)]
                simp
              · dsimp only
                rw [htext]
                exact h0
              · dsimp only
                rw [htext]
                exact hnext q hq

/-- Every rest of a string has its tokens. -/
lemma exists_reads (hs : 0 ∉ s) (h : Cursor s m src) : ∃ ts, Reads ts m src := by
  generalize hn : (src.elim 0 fun p => s.length - p + 1) = n
  induction n using Nat.strong_induction_on generalizing m src with
  | _ n ih =>
      cases src with
      | none => exact ⟨[], rfl⟩
      | some p =>
          obtain ⟨a, hrun, htakes⟩ := getNextArgument_fits hs (h p rfl)
          have hle : p ≤ s.length := (h p rfl).le
          cases hfound : a.found with
          | false => exact ⟨[], by rw [Reads, hrun, Option.map_some, hfound]⟩
          | true =>
              obtain ⟨b, hb⟩ := Option.ne_none_iff_exists'.mp (htakes.start hfound)
              obtain ⟨front, tok, back, -, -, -, -, hpb, -, hlt, hnext⟩ := htakes.token b hb hfound
              have hless : (a.src.elim 0 fun q => s.length - q + 1) < n := by
                rw [← hn]
                cases hq : a.src with
                | none => exact Nat.succ_pos _
                | some q =>
                    have hq' := hnext q hq
                    show s.length - q + 1 < s.length - p + 1
                    omega
              obtain ⟨ts, hts⟩ := ih _ hless (h.next hs hrun).1 rfl
              refine ⟨⟨b, cstring (a.mem.drop b)⟩ :: ts, ?_⟩
              rw [Reads, hrun]
              exact ⟨by rw [Argument.token, hfound, hb], hts⟩

/-- Tokens begin one behind the other, none in front of the cursor. -/
lemma reads_ordered (hs : 0 ∉ s) {ts : List Token} {m : List U8} {src : Option ℕ}
    (h : Cursor s m src) (hreads : Reads ts m src) :
    (ts.Pairwise fun t u => t.start < u.start) ∧ ∀ t ∈ ts, ∀ p, src = some p → p ≤ t.start := by
  induction ts generalizing m src with
  | nil => exact ⟨List.Pairwise.nil, fun t ht => absurd ht List.not_mem_nil⟩
  | cons t ts ih =>
      obtain ⟨a, p, hrun, rfl, hp, -, -, -, hsafe, hrest⟩ := reads_cons hs h hreads
      obtain ⟨hordered, hle⟩ := ih (h.next hs hrun).1 hrest
      have hbehind : ∀ u ∈ ts, t.start < u.start := by
        intro u hu
        cases ts with
        | nil => exact absurd hu List.not_mem_nil
        | cons v ts =>
            obtain ⟨-, q, -, hq, -⟩ := reads_cons hs (h.next hs hrun).1 hrest
            have hend := hsafe.2 q hq
            have huq := hle u hu q hq
            omega
      refine ⟨List.pairwise_cons.mpr ⟨hbehind, hordered⟩, fun u hu q hq => ?_⟩
      obtain rfl := Option.some.inj hq
      rcases List.mem_cons.mp hu with rfl | hu
      · exact hp
      · exact hp.trans (hbehind u hu).le

/-- There are not more tokens than bytes. -/
lemma reads_length (hs : 0 ∉ s) {ts : List Token} {m : List U8} {p : ℕ}
    (h : Cursor s m (some p)) (hreads : Reads ts m (some p)) : ts.length + p ≤ s.length := by
  induction ts generalizing m p with
  | nil => rw [List.length_nil, Nat.zero_add]; exact (h p rfl).le
  | cons t ts ih =>
      obtain ⟨a, p', hrun, hsrc, hp, hlt, -, -, hsafe, hrest⟩ := reads_cons hs h hreads
      obtain rfl := Option.some.inj hsrc
      rw [List.length_cons]
      cases hq : a.src with
      | none =>
          cases ts with
          | nil => rw [List.length_nil]; omega
          | cons u ts =>
              obtain ⟨-, q, -, hq', -⟩ := reads_cons hs (h.next hs hrun).1 hrest
              exact absurd (hq.symm.trans hq') (Option.some_ne_none q).symm
      | some q =>
          have hcursor := (h.next hs hrun).1
          rw [hq] at hrest hcursor
          have hlen := ih hcursor hrest
          have hend := hsafe.2 q hq
          omega

/-! ### The calls of `AddPathBlock` -/

/-- The cursor stands before the tokens. -/
structure Before (s : List U8) (ts : List Token) (m : List U8) (src : Option ℕ) : Prop where
  cursor : Cursor s m src
  reads : Reads ts m src

/-- A string with a limit: it is read past, and refused if it is too long. -/
lemma getNextString_cons (hs : 0 ∉ s) {t : Token} {ts : List Token}
    (h : Before s (t :: ts) m src) (limit : ℕ) :
    ∃ g, getNextString m src limit = some g ∧
      g.value = (if t.text.length < limit then some t.start else none) ∧
      Before s ts g.mem g.src ∧ Safe g.mem g.src t ∧ ∀ u, Safe m src u → Safe g.mem g.src u := by
  obtain ⟨a, p, hrun, -, -, -, hfound, hstart, hsafe, hrest⟩ := reads_cons hs h.cursor h.reads
  obtain ⟨hcursor, hkeep⟩ := h.cursor.next hs hrun
  refine ⟨⟨a.mem, a.src, if t.text.length < limit then some t.start else none⟩, ?_, rfl,
    ⟨hcursor, hrest⟩, hsafe, hkeep⟩
  rw [getNextString, getNextArgumentUpTo, hrun]
  simp only [Option.bind_eq_bind, Option.bind_some, hfound, hstart, hsafe.1.strend_eq,
    Nat.add_sub_cancel_left, Option.pure_def, Option.map_some, decide_eq_true_eq]

/-- Where no token is left, there is none. -/
lemma getNextString_nil (h : Before s [] m src) (limit : ℕ) :
    ∃ g, getNextString m src limit = some g ∧ g.value = none := by
  obtain ⟨a, hrun, hfound⟩ := Option.map_eq_some_iff.mp h.reads
  refine ⟨⟨a.mem, a.src, none⟩, ?_, rfl⟩
  rw [getNextString, getNextArgumentUpTo, hrun]
  simp [hfound]

lemma getNextNumber_cons (hs : 0 ∉ s) {t : Token} {ts : List Token}
    (h : Before s (t :: ts) m src) :
    ∃ g, getNextNumber m src = some g ∧ g.value = some (strtoul t.text) ∧
      Before s ts g.mem g.src ∧ ∀ u, Safe m src u → Safe g.mem g.src u := by
  obtain ⟨a, p, hrun, -, -, -, hfound, hstart, hsafe, hrest⟩ := reads_cons hs h.cursor h.reads
  obtain ⟨hcursor, hkeep⟩ := h.cursor.next hs hrun
  refine ⟨⟨a.mem, a.src, some (strtoul t.text)⟩, ?_, rfl, ⟨hcursor, hrest⟩, hkeep⟩
  rw [getNextNumber, hrun, Option.map_some, hfound, hstart]
  simp only [if_true, Option.map_some, hsafe.1.cstring_eq]

lemma getNextNumber_nil (h : Before s [] m src) :
    ∃ g, getNextNumber m src = some g ∧ g.value = none := by
  obtain ⟨a, hrun, hfound⟩ := Option.map_eq_some_iff.mp h.reads
  refine ⟨⟨a.mem, a.src, none⟩, ?_, rfl⟩
  rw [getNextNumber, hrun, Option.map_some, hfound]
  rfl

/-- Numbers, as long as there are tokens. -/
lemma getNumbers_eq (hs : 0 ∉ s) {n : ℕ} {ts : List Token} {m : List U8} {src : Option ℕ}
    (h : Before s ts m src) :
    ∃ g, getNumbers n m src = some g ∧ if n ≤ ts.length then
      g.value = some ((ts.take n).map fun t => strtoul t.text) ∧
        Before s (ts.drop n) g.mem g.src ∧ ∀ u, Safe m src u → Safe g.mem g.src u
      else g.value = none := by
  induction n generalizing ts m src with
  | zero => exact ⟨_, rfl, by simpa using h⟩
  | succ n ih =>
      cases ts with
      | nil =>
          obtain ⟨g, hg, hvalue⟩ := getNextNumber_nil h
          refine ⟨⟨g.mem, g.src, none⟩, ?_, by simp⟩
          rw [getNumbers, hg, Option.bind_some, hvalue]
      | cons t ts =>
          obtain ⟨g, hg, hvalue, hbefore, hkeep⟩ := getNextNumber_cons hs h
          obtain ⟨r, hr, hrest⟩ := ih hbefore
          refine ⟨⟨r.mem, r.src, r.value.map (strtoul t.text :: ·)⟩, ?_, ?_⟩
          · rw [getNumbers, hg, Option.bind_some, hvalue]
            simp only [hr, Option.map_some]
          · rw [List.length_cons]
            split_ifs at hrest with hn
            · obtain ⟨hval, hbefore', hkeep'⟩ := hrest
              rw [if_pos (Nat.succ_le_succ hn)]
              refine ⟨?_, hbefore', fun u hu => hkeep' u (hkeep u hu)⟩
              rw [hval]
              rfl
            · rw [if_neg (by omega), hrest]
              rfl

end Napd.PathBlock
