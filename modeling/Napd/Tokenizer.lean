import Napd.Bytes
import Napd.Library.Memory

/-!
The tokenizer of `functions.cc`: `get_next_argument`, on a block of memory.

* `getNextArgument`: one call. A `char *` is a position in the block, `none` the null
  pointer; the result is `none` when the call leaves the block.
* `Form`: the seven forms of what stands between the cursor and the closing NUL, which
  decide how the call ends; `form_of_ne_nil` says there is no other.
* `getNextArgument_plain`, …: what the call does on each form.
-/

namespace Napd

namespace Tokenizer

open Memory

/-- The character `' '`. -/
def space : U8 := 32

/-- The character `'"'`. -/
def quote : U8 := 34

lemma space_ne_zero : space ≠ 0 := by decide

lemma quote_ne_zero : quote ≠ 0 := by decide

lemma space_ne_quote : space ≠ quote := by decide

/-- The first position from `p` on whose byte satisfies `stop`. -/
def scan (stop : U8 → Bool) (m : List U8) (p : ℕ) : Option ℕ :=
  let q := p + ((m.drop p).takeWhile fun b => !stop b).length
  if q < m.length then some q else none

/-- `strchr`: the first `c` from `p` on, null when the NUL comes first. -/
def strchr (m : List U8) (p : ℕ) (c : U8) : Option (Option ℕ) := do
  let q ← scan (fun b => b = c || b = 0) m p
  return if m[q]? = some c then some q else none

/-- `while (*p == ' ') p++`. -/
def skipSpaces (m : List U8) (p : ℕ) : Option ℕ := scan (fun b => b ≠ space) m p

/-- `while (*end) end++`. -/
def strend (m : List U8) (p : ℕ) : Option ℕ := scan (fun b => b = 0) m p

/-- `while (end > begin && *end != '"') end--`. -/
def backUp (m : List U8) (start : ℕ) : ℕ → Option ℕ
  | 0 => some 0
  | e + 1 =>
      if start < e + 1 then do
        let b ← m[e + 1]?
        if b = quote then some (e + 1) else backUp m start e
      else some (e + 1)

/-- What a call leaves behind: the memory, the cursor `*src`, what it stored in `begin`
(`none` when it stored nothing), and what it returned. -/
structure Argument where
  mem : List U8
  src : Option ℕ
  start : Option ℕ
  found : Bool
  deriving DecidableEq

/-- The end of the branch without a space: `*src = NULL; return *begin != '\0'`. -/
def lastArgument (m : List U8) (start : ℕ) : Option Argument := do
  let b ← m[start]?
  return ⟨m, none, some start, b ≠ 0⟩

/-- `*end++ = '\0'`, past the spaces behind, and the cursor there. -/
def cutArgument (m : List U8) (start e : ℕ) : Option Argument := do
  let m ← splice m e [0]
  let q ← skipSpaces m (e + 1)
  return ⟨m, some q, some start, true⟩

/-- `get_next_argument(char **src, char *&begin)`. -/
def getNextArgument (m : List U8) (src : Option ℕ) : Option Argument :=
  match src with
  | none => some ⟨m, none, none, false⟩
  | some p => do
      match ← strchr m p space with
      | some e =>
          if m[p]? ≠ some quote then
            cutArgument m p e
          else
            match ← strchr m (p + 1) quote with
            | some e => cutArgument m (p + 1) e
            | none => return ⟨m, none, some (p + 1), false⟩
      | none =>
          if m[p]? = some quote then
            let e ← strend m (p + 1)
            -- `end--` retreats before the NUL, in front of `begin` for a lone quote
            let e ← backUp m (p + 1) (e - 1)
            if e = p + 1 then
              return ⟨m, some (p + 1), some (p + 1), false⟩
            else
              let m ← splice m e [0]
              lastArgument m (p + 1)
          else lastArgument m p

/-! ### Scanning -/

/-- A scan stops at the first byte that satisfies its condition. -/
lemma scan_append {stop : U8 → Bool} (pre : List U8) {run m : List U8} {b : U8}
    (hrun : ∀ x ∈ run, stop x = false) (hb : stop b = true) :
    scan stop (pre ++ (run ++ b :: m)) pre.length = some (pre.length + run.length) := by
  have hgo : ((run ++ b :: m).takeWhile fun x => !stop x) = run := by
    rw [List.takeWhile_append_of_pos (by simpa using hrun),
      List.takeWhile_cons_of_neg (by simp [hb]), List.append_nil]
  rw [scan, List.drop_left, hgo]
  simp only [List.length_append, List.length_cons]
  rw [if_pos (by omega)]

/-- A scan looks at the first byte, and goes on behind it. -/
lemma scan_eq_bind (stop : U8 → Bool) (m : List U8) (p : ℕ) :
    scan stop m p = (m[p]?).bind fun b => if stop b then some p else scan stop m (p + 1) := by
  rw [scan]
  by_cases hp : p < m.length
  case neg =>
    rw [List.drop_eq_nil_of_le (by omega), List.getElem?_eq_none (by omega), List.takeWhile_nil,
      List.length_nil, Nat.add_zero, if_neg hp, Option.bind_none]
  rw [List.drop_eq_getElem_cons hp, List.getElem?_eq_getElem hp, Option.bind_some]
  cases hstop : stop m[p] with
  | true =>
      rw [List.takeWhile_cons_of_neg (by simp [hstop]), List.length_nil, Nat.add_zero, if_pos hp,
        if_pos rfl]
  | false =>
      rw [List.takeWhile_cons_of_pos (by simp [hstop]), List.length_cons, scan, ← Nat.add_assoc,
        Nat.add_right_comm]
      rfl

/-- Where a scan stops, there is a byte that satisfies its condition. -/
lemma scan_some {stop : U8 → Bool} {m : List U8} {p q : ℕ} (h : scan stop m p = some q) :
    ∃ b, m[q]? = some b ∧ stop b = true := by
  induction hn : m.length - p generalizing p with
  | zero =>
      rw [scan_eq_bind, List.getElem?_eq_none (by omega)] at h
      cases h
  | succ n ih =>
      rw [scan_eq_bind] at h
      obtain ⟨b, hb, hrest⟩ := Option.bind_eq_some_iff.mp h
      split_ifs at hrest with hstop
      · obtain rfl := Option.some.inj hrest
        exact ⟨b, hb, hstop⟩
      · exact ih hrest (by omega)

/-- `strchr` looks at the first byte, and goes on behind it. -/
lemma strchr_eq_bind (m : List U8) (p : ℕ) (c : U8) :
    strchr m p c = (m[p]?).bind fun b =>
      if b = c then some (some p) else if b = 0 then some none else strchr m (p + 1) c := by
  rw [strchr, scan_eq_bind]
  cases hb : m[p]? with
  | none => rfl
  | some b =>
      rw [Option.bind_some, Option.bind_some]
      by_cases hbc : b = c
      case pos => simp [hb, hbc]
      by_cases hb0 : b = 0
      case pos =>
        subst hb0
        simp [hb, hbc]
      rw [if_neg (by simp [hbc, hb0]), if_neg hbc, if_neg hb0, strchr]

lemma strchr_append (pre : List U8) {run m : List U8} {c : U8} (hrun : c ∉ run) (h0 : 0 ∉ run) :
    strchr (pre ++ (run ++ c :: m)) pre.length c = some (some (pre.length + run.length)) := by
  have hstop : ∀ x ∈ run, (x = c || x = 0 : Bool) = false := by
    intro x hx
    simp [ne_of_mem_of_not_mem hx hrun, ne_of_mem_of_not_mem hx h0]
  rw [strchr, scan_append pre hstop (by simp)]
  simp

lemma strchr_append_zero (pre : List U8) {run m : List U8} {c : U8} (hc : c ≠ 0) (hrun : c ∉ run)
    (h0 : 0 ∉ run) : strchr (pre ++ (run ++ 0 :: m)) pre.length c = some none := by
  have hstop : ∀ x ∈ run, (x = c || x = 0 : Bool) = false := by
    intro x hx
    simp [ne_of_mem_of_not_mem hx hrun, ne_of_mem_of_not_mem hx h0]
  rw [strchr, scan_append pre hstop (by simp)]
  simp [hc.symm]

lemma exists_strchr (pre : List U8) {rest m : List U8} {c : U8} (hmem : c ∈ rest) (h0 : 0 ∉ rest) :
    ∃ e, strchr (pre ++ (rest ++ m)) pre.length c = some (some e) := by
  obtain ⟨a, b, rfl, ha⟩ := List.eq_append_cons_of_mem hmem
  rw [List.mem_append, not_or] at h0
  exact ⟨_, by rw [List.append_assoc, List.cons_append, strchr_append pre ha h0.1]⟩

lemma strend_append (pre run : List U8) {m : List U8} (h0 : 0 ∉ run) :
    strend (pre ++ (run ++ 0 :: m)) pre.length = some (pre.length + run.length) := by
  refine scan_append pre (fun x hx => ?_) (by simp)
  simpa using ne_of_mem_of_not_mem hx h0

lemma skipSpaces_append (pre : List U8) {gap m : List U8} {b : U8} (hgap : ∀ x ∈ gap, x = space)
    (hb : b ≠ space) :
    skipSpaces (pre ++ (gap ++ b :: m)) pre.length = some (pre.length + gap.length) := by
  refine scan_append pre (fun x hx => ?_) (by simpa using hb)
  simp [hgap x hx]

lemma backUp_of_le (m : List U8) {start e : ℕ} (h : e ≤ start) : backUp m start e = some e := by
  cases e with
  | zero => rfl
  | succ e => rw [backUp, if_neg (by omega)]

lemma backUp_quote (m : List U8) {start e : ℕ} (h : start < e) (hq : m[e]? = some quote) :
    backUp m start e = some e := by
  obtain ⟨e, rfl⟩ : ∃ k, e = k + 1 := ⟨e - 1, by omega⟩
  rw [backUp, if_pos h, hq]
  rfl

/-- Backing up passes over what holds no quote. -/
lemma backUp_append (l junk m : List U8) {start : ℕ} (hstart : start < l.length)
    (hjunk : quote ∉ junk) (n : ℕ) (hn : n ≤ junk.length) :
    backUp (l ++ (junk ++ m)) start (l.length + n - 1)
      = backUp (l ++ (junk ++ m)) start (l.length - 1) := by
  induction n with
  | zero => rfl
  | succ n ih =>
      have hget : (l ++ (junk ++ m))[l.length + n]? = some (junk[n]) := by
        rw [List.getElem?_append_right (by omega), List.getElem?_append_left (by omega)]
        simp
      have hne : junk[n] ≠ quote := fun h => hjunk (h ▸ List.getElem_mem _)
      obtain ⟨k, hk⟩ : ∃ k, l.length + n = k + 1 := ⟨l.length + n - 1, by omega⟩
      rw [hk] at hget
      rw [show l.length + (n + 1) - 1 = k + 1 by omega, backUp, if_pos (by omega), hget,
        ← ih (by omega), show l.length + n - 1 = k by omega]
      simp [hne]

/-! ### The forms of the rest -/

/-- The forms of what stands between the cursor and the closing NUL. -/
inductive Form : List U8 → Prop
  /-- A token, then a space. -/
  | plain (tok gap after : List U8) (hq : tok.head? ≠ some quote) (hs : space ∉ tok)
      (hgap : ∀ x ∈ gap, x = space) (hafter : after.head? ≠ some space) :
      Form (tok ++ space :: (gap ++ after))
  /-- A quoted token, with a space somewhere. -/
  | quoted (tok gap after : List U8) (hq : quote ∉ tok) (hs : space ∈ tok ++ (gap ++ after))
      (hgap : ∀ x ∈ gap, x = space) (hafter : after.head? ≠ some space) :
      Form (quote :: (tok ++ quote :: (gap ++ after)))
  /-- An opening quote that nothing closes, with a space somewhere. -/
  | unclosed (tok : List U8) (hq : quote ∉ tok) (hs : space ∈ tok) : Form (quote :: tok)
  /-- A last token. -/
  | last (tok : List U8) (hne : tok ≠ []) (hq : tok.head? ≠ some quote) (hs : space ∉ tok) :
      Form tok
  /-- A last quoted token; what follows its last quote is dropped. -/
  | lastQuoted (tok junk : List U8) (hne : tok ≠ []) (hs : space ∉ tok ++ junk)
      (hq : quote ∉ junk) : Form (quote :: (tok ++ quote :: junk))
  /-- A lone quote. -/
  | lone : Form [quote]
  /-- An opening quote with no quote from the next character but one on. -/
  | dangling (c : U8) (tok : List U8) (hs : space ∉ c :: tok) (hq : quote ∉ tok) :
      Form (quote :: c :: tok)

/-- A list split behind its leading spaces. -/
lemma exists_gap (l : List U8) :
    ∃ gap after, l = gap ++ after ∧ (∀ x ∈ gap, x = space) ∧ after.head? ≠ some space := by
  refine ⟨l.takeWhile (· = space), l.dropWhile (· = space), List.takeWhile_append_dropWhile.symm,
    fun x hx => by simpa using List.mem_takeWhile_imp hx, fun h => ?_⟩
  obtain ⟨b, hb⟩ := List.head?_eq_some_iff.mp h
  have hnot := List.head?_dropWhile_not (fun x : U8 => decide (x = space)) l
  simp [hb] at hnot

/-- Every rest that is not empty has one of the forms. -/
theorem form_of_ne_nil {rest : List U8} (hne : rest ≠ []) : Form rest := by
  by_cases hs : space ∈ rest
  · by_cases hq : rest.head? = some quote
    · obtain ⟨tail, rfl⟩ := List.head?_eq_some_iff.mp hq
      have hs' : space ∈ tail := by simpa [space, quote] using hs
      by_cases hq' : quote ∈ tail
      · obtain ⟨tok, rest, rfl, htok⟩ := List.eq_append_cons_of_mem hq'
        obtain ⟨gap, after, rfl, hgap, hafter⟩ := exists_gap rest
        refine .quoted tok gap after htok ?_ hgap hafter
        simpa [space, quote] using hs'
      · exact .unclosed tail hq' hs'
    · obtain ⟨tok, rest, rfl, htok⟩ := List.eq_append_cons_of_mem hs
      obtain ⟨gap, after, rfl, hgap, hafter⟩ := exists_gap rest
      refine .plain tok gap after (fun h => hq ?_) htok hgap hafter
      rw [List.head?_append, h, Option.some_or]
  · by_cases hq : rest.head? = some quote
    · obtain ⟨tail, rfl⟩ := List.head?_eq_some_iff.mp hq
      rw [List.mem_cons, not_or] at hs
      cases tail with
      | nil => exact .lone
      | cons c tail =>
          by_cases hq' : quote ∈ tail
          · obtain ⟨b, a, hrev, hb⟩ := List.eq_append_cons_of_mem (List.mem_reverse.mpr hq')
            have htail : tail = a.reverse ++ quote :: b.reverse := by
              rw [← List.reverse_inj, hrev]
              simp
            subst htail
            refine .lastQuoted (c :: a.reverse) b.reverse (by simp) ?_ (by simpa using hb)
            intro hmem
            refine hs.2 ?_
            simp only [List.cons_append, List.mem_cons, List.mem_append, List.mem_reverse] at hmem ⊢
            tauto
          · exact .dangling c tail hs.2 hq'
    · exact .last rest hne hq hs

/-! ### What a call does on each form -/

variable (pre post : List U8)

/-- Cutting a token off: the byte behind it becomes its NUL, and the cursor passes the gap. -/
lemma cutArgument_append {a gap m : List U8} {b c : U8} (start : ℕ)
    (hgap : ∀ x ∈ gap, x = space) (hb : b ≠ space) :
    cutArgument (a ++ c :: (gap ++ b :: m)) start a.length
      = some ⟨a ++ 0 :: (gap ++ b :: m), some (a.length + 1 + gap.length), some start, true⟩ := by
  have hsplice : splice (a ++ c :: (gap ++ b :: m)) a.length [0]
      = some (a ++ 0 :: (gap ++ b :: m)) := by
    rw [splice_append a _ [0] (by simp)]
    simp
  have hskip := skipSpaces_append (a ++ [0]) (m := m) hgap hb
  rw [List.length_append, List.length_singleton, List.append_assoc] at hskip
  rw [cutArgument, hsplice]
  simp only [Option.bind_eq_bind, Option.bind_some]
  rw [show a ++ 0 :: (gap ++ b :: m) = a ++ ([0] ++ (gap ++ b :: m)) from rfl, hskip]
  rfl

lemma exists_head (after post : List U8) (h : after.head? ≠ some space) :
    ∃ b m, after ++ 0 :: post = b :: m ∧ b ≠ space := by
  cases after with
  | nil => exact ⟨0, post, rfl, space_ne_zero.symm⟩
  | cons b after => exact ⟨b, after ++ 0 :: post, rfl, fun e => h (congrArg some e)⟩

lemma getElem?_cursor (pre m : List U8) : (pre ++ m)[pre.length]? = m.head? := by
  rw [List.getElem?_append_right (le_refl _), Nat.sub_self, List.head?_eq_getElem?]

/-- A token, then a space: the token is cut off, the cursor passes the gap. -/
lemma getNextArgument_plain {tok gap after : List U8} (h0 : 0 ∉ tok)
    (hq : tok.head? ≠ some quote) (hs : space ∉ tok) (hgap : ∀ x ∈ gap, x = space)
    (hafter : after.head? ≠ some space) :
    getNextArgument (pre ++ (tok ++ space :: (gap ++ after) ++ 0 :: post)) (some pre.length)
      = some ⟨pre ++ (tok ++ 0 :: gap) ++ (after ++ 0 :: post),
          some (pre ++ (tok ++ 0 :: gap)).length, some pre.length, true⟩ := by
  obtain ⟨b, m, hbm, hb⟩ := exists_head after post hafter
  have hmem : pre ++ (tok ++ space :: (gap ++ after) ++ 0 :: post)
      = pre ++ (tok ++ space :: (gap ++ b :: m)) := by
    rw [← hbm]
    simp
  have hhead : (pre ++ (tok ++ space :: (gap ++ b :: m)))[pre.length]? ≠ some quote := by
    rw [getElem?_cursor]
    cases tok with
    | nil => simp [space, quote]
    | cons c tok => exact hq
  have hcut := cutArgument_append (a := pre ++ tok) (c := space) (m := m) pre.length hgap hb
  rw [List.length_append, List.append_assoc] at hcut
  rw [hmem, getNextArgument, strchr_append pre hs h0]
  simp only [Option.bind_eq_bind, Option.bind_some]
  rw [if_pos hhead, hcut, ← hbm]
  simp [Nat.add_assoc, Nat.add_comm 1]

/-- A quoted token, with a space somewhere. -/
lemma getNextArgument_quoted {tok gap after : List U8} (h0 : 0 ∉ tok ++ (gap ++ after))
    (hq : quote ∉ tok) (hs : space ∈ tok ++ (gap ++ after)) (hgap : ∀ x ∈ gap, x = space)
    (hafter : after.head? ≠ some space) :
    getNextArgument (pre ++ (quote :: (tok ++ quote :: (gap ++ after)) ++ 0 :: post))
        (some pre.length)
      = some ⟨pre ++ (quote :: tok ++ 0 :: gap) ++ (after ++ 0 :: post),
          some (pre ++ (quote :: tok ++ 0 :: gap)).length, some (pre.length + 1), true⟩ := by
  obtain ⟨b, m, hbm, hb⟩ := exists_head after post hafter
  have hmem : pre ++ (quote :: (tok ++ quote :: (gap ++ after)) ++ 0 :: post)
      = pre ++ [quote] ++ (tok ++ quote :: (gap ++ b :: m)) := by
    rw [← hbm]
    simp
  have hrest : space ∈ quote :: (tok ++ quote :: (gap ++ after)) ∧
      0 ∉ quote :: (tok ++ quote :: (gap ++ after)) := by
    simp only [List.mem_cons, List.mem_append] at h0 hs ⊢
    exact ⟨by tauto, by simp [quote]; tauto⟩
  obtain ⟨e, he⟩ := exists_strchr pre (m := 0 :: post) hrest.1 hrest.2
  rw [hmem] at he
  have hhead : (pre ++ [quote] ++ (tok ++ quote :: (gap ++ b :: m)))[pre.length]? = some quote := by
    rw [List.append_assoc, getElem?_cursor]
    rfl
  have hclose := strchr_append (pre ++ [quote]) (m := gap ++ b :: m) hq
    (fun h => h0 (List.mem_append_left _ h))
  have hcut := cutArgument_append (a := pre ++ [quote] ++ tok) (c := quote) (m := m)
    (pre.length + 1) hgap hb
  simp only [List.length_append, List.length_singleton, List.append_assoc, Nat.add_assoc]
    at hclose hcut he hhead
  rw [hmem, getNextArgument]
  simp only [List.append_assoc, he, hhead, Option.bind_eq_bind, Option.bind_some, ne_eq,
    not_true_eq_false, if_false, hclose, hcut]
  rw [← hbm]
  simp [Nat.add_comm, Nat.add_left_comm]

/-- An opening quote that nothing closes, with a space somewhere: nothing is found, and the
cursor becomes null. -/
lemma getNextArgument_unclosed {tok : List U8} (h0 : 0 ∉ tok) (hq : quote ∉ tok)
    (hs : space ∈ tok) :
    getNextArgument (pre ++ (quote :: tok ++ 0 :: post)) (some pre.length)
      = some ⟨pre ++ (quote :: tok ++ 0 :: post), none, some (pre.length + 1), false⟩ := by
  have hrest : space ∈ quote :: tok ∧ 0 ∉ quote :: tok := by
    simp only [List.mem_cons]
    exact ⟨.inr hs, by simpa [quote] using h0⟩
  obtain ⟨e, he⟩ := exists_strchr pre (m := 0 :: post) hrest.1 hrest.2
  have hhead : (pre ++ (quote :: tok ++ 0 :: post))[pre.length]? = some quote := by
    rw [getElem?_cursor]
    rfl
  have hclose := strchr_append_zero (pre ++ [quote]) (m := post) quote_ne_zero hq h0
  rw [List.length_append, List.length_singleton, List.append_assoc] at hclose
  rw [getNextArgument, he]
  simp only [Option.bind_eq_bind, Option.bind_some, hhead, ne_eq, not_true_eq_false, if_false]
  rw [show pre ++ (quote :: tok ++ 0 :: post) = pre ++ ([quote] ++ (tok ++ 0 :: post)) from rfl,
    hclose]
  rfl

/-- A last token is found where it stands, and the cursor becomes null. -/
lemma getNextArgument_last {tok : List U8} (h0 : 0 ∉ tok) (hne : tok ≠ [])
    (hq : tok.head? ≠ some quote) (hs : space ∉ tok) :
    getNextArgument (pre ++ (tok ++ 0 :: post)) (some pre.length)
      = some ⟨pre ++ (tok ++ 0 :: post), none, some pre.length, true⟩ := by
  have hhead : (pre ++ (tok ++ 0 :: post))[pre.length]? = tok.head? := by
    rw [getElem?_cursor]
    cases tok with
    | nil => exact absurd rfl hne
    | cons c tok => rfl
  obtain ⟨c, tok', rfl⟩ := List.exists_cons_of_ne_nil hne
  have hc : c ≠ 0 := fun h => h0 (h ▸ List.mem_cons_self)
  rw [getNextArgument, strchr_append_zero pre space_ne_zero hs h0]
  simp only [Option.bind_eq_bind, Option.bind_some]
  rw [if_neg (by rw [hhead]; exact hq), lastArgument, hhead]
  simp [hc]

/-- A last quoted token is cut off at its last quote, and the cursor becomes null. -/
lemma getNextArgument_lastQuoted {tok junk : List U8} (h0 : 0 ∉ tok ++ junk) (hne : tok ≠ [])
    (hs : space ∉ tok ++ junk) (hq : quote ∉ junk) :
    getNextArgument (pre ++ (quote :: (tok ++ quote :: junk) ++ 0 :: post)) (some pre.length)
      = some ⟨pre ++ (quote :: (tok ++ 0 :: junk) ++ 0 :: post), none, some (pre.length + 1),
          true⟩ := by
  have hno : space ∉ quote :: (tok ++ quote :: junk) ∧ 0 ∉ quote :: (tok ++ quote :: junk) := by
    simp only [List.mem_cons, List.mem_append] at h0 hs ⊢
    exact ⟨by simp [space, quote]; tauto, by simp [quote]; tauto⟩
  have hhead : (pre ++ (quote :: (tok ++ quote :: junk) ++ 0 :: post))[pre.length]?
      = some quote := by
    rw [getElem?_cursor]
    rfl
  have hend : strend (pre ++ (quote :: (tok ++ quote :: junk) ++ 0 :: post)) (pre.length + 1)
      = some (pre.length + 1 + (tok ++ quote :: junk).length) := by
    have h := strend_append (pre ++ [quote]) _ (m := post)
      (fun h => hno.2 (List.mem_cons_of_mem _ h))
    rw [List.length_append, List.length_singleton, List.append_assoc] at h
    exact h
  have hback : backUp (pre ++ (quote :: (tok ++ quote :: junk) ++ 0 :: post)) (pre.length + 1)
      (pre.length + 1 + (tok ++ quote :: junk).length - 1)
        = some (pre.length + 1 + tok.length) := by
    have htok : 0 < tok.length := List.length_pos_of_ne_nil hne
    have hpass := backUp_append (pre ++ quote :: (tok ++ [quote])) junk (0 :: post)
      (by simp : pre.length + 1 < _) hq junk.length (le_refl _)
    have hstop := backUp_quote (pre ++ quote :: (tok ++ [quote]) ++ (junk ++ 0 :: post))
      (by omega : pre.length + 1 < pre.length + 1 + tok.length) (by
        rw [show pre ++ quote :: (tok ++ [quote]) ++ (junk ++ 0 :: post)
            = (pre ++ quote :: tok) ++ (quote :: (junk ++ 0 :: post)) by simp,
          show pre.length + 1 + tok.length = (pre ++ quote :: tok).length by simp; omega,
          getElem?_cursor, List.head?_cons])
    rw [show (pre ++ quote :: (tok ++ [quote])).length - 1 = pre.length + 1 + tok.length by
        simp; omega, hstop] at hpass
    rw [← hpass]
    congr 1
    · simp
    · simp
      omega
  have hsplice : splice (pre ++ (quote :: (tok ++ quote :: junk) ++ 0 :: post))
      (pre.length + 1 + tok.length) [0]
      = some (pre ++ (quote :: (tok ++ 0 :: junk) ++ 0 :: post)) := by
    have h := splice_append (pre ++ quote :: tok) (quote :: (junk ++ 0 :: post)) [0] (by simp)
    rw [show (pre ++ quote :: tok).length = pre.length + 1 + tok.length by simp; omega] at h
    simpa using h
  obtain ⟨c, tok', rfl⟩ := List.exists_cons_of_ne_nil hne
  have hc : c ≠ 0 := fun h => h0 (by simp [h])
  have hne : pre.length + 1 + (c :: tok').length ≠ pre.length + 1 := by simp
  rw [getNextArgument, strchr_append_zero pre space_ne_zero hno.1 hno.2]
  simp only [Option.bind_eq_bind, Option.bind_some, hhead, if_true, hend, hback, if_neg hne,
    hsplice, lastArgument]
  rw [show pre ++ (quote :: (c :: tok' ++ 0 :: junk) ++ 0 :: post)
      = (pre ++ [quote]) ++ (c :: (tok' ++ 0 :: junk) ++ 0 :: post) by simp,
    show pre.length + 1 = (pre ++ [quote]).length by simp, getElem?_cursor]
  simp [hc]

/-- A lone quote is overwritten, nothing is found, and the cursor becomes null. -/
lemma getNextArgument_lone :
    getNextArgument (pre ++ ([quote] ++ 0 :: post)) (some pre.length)
      = some ⟨pre ++ (0 :: 0 :: post), none, some (pre.length + 1), false⟩ := by
  have hhead : (pre ++ ([quote] ++ 0 :: post))[pre.length]? = some quote := by
    rw [getElem?_cursor]
    rfl
  have hend : strend (pre ++ ([quote] ++ 0 :: post)) (pre.length + 1) = some (pre.length + 1) := by
    have h := strend_append (pre ++ [quote]) [] (m := post) (by simp)
    simpa using h
  have hsplice : splice (pre ++ ([quote] ++ 0 :: post)) pre.length [0]
      = some (pre ++ (0 :: 0 :: post)) := by
    rw [splice_append pre _ [0] (by simp)]
    simp
  have hno : space ∉ [quote] ∧ 0 ∉ [quote] := by
    rw [List.mem_singleton, List.mem_singleton]
    exact ⟨space_ne_quote, quote_ne_zero.symm⟩
  rw [getNextArgument, strchr_append_zero pre space_ne_zero hno.1 hno.2]
  simp only [Option.bind_eq_bind, Option.bind_some, hhead, if_true, hend, Nat.add_sub_cancel,
    backUp_of_le _ (Nat.le_succ _), if_neg (Nat.succ_ne_self _).symm, hsplice, lastArgument]
  simp

/-- Behind a dangling quote nothing is found, and the cursor stays on what follows it. -/
lemma getNextArgument_dangling {c : U8} {tok : List U8} (h0 : 0 ∉ c :: tok)
    (hs : space ∉ c :: tok) (hq : quote ∉ tok) :
    getNextArgument (pre ++ (quote :: c :: tok ++ 0 :: post)) (some pre.length)
      = some ⟨pre ++ [quote] ++ (c :: tok ++ 0 :: post), some (pre ++ [quote]).length,
          some (pre.length + 1), false⟩ := by
  have hno : space ∉ quote :: c :: tok ∧ 0 ∉ quote :: c :: tok := by
    rw [List.mem_cons, List.mem_cons (a := (0 : U8)), not_or, not_or]
    exact ⟨⟨space_ne_quote, hs⟩, quote_ne_zero.symm, h0⟩
  have hhead : (pre ++ (quote :: c :: tok ++ 0 :: post))[pre.length]? = some quote := by
    rw [getElem?_cursor]
    rfl
  have hend : strend (pre ++ (quote :: c :: tok ++ 0 :: post)) (pre.length + 1)
      = some (pre.length + 1 + (c :: tok).length) := by
    have h := strend_append (pre ++ [quote]) _ (m := post) h0
    rw [List.length_append, List.length_singleton, List.append_assoc] at h
    exact h
  have hback : backUp (pre ++ (quote :: c :: tok ++ 0 :: post)) (pre.length + 1)
      (pre.length + 1 + (c :: tok).length - 1) = some (pre.length + 1) := by
    have h := backUp_append (pre ++ [quote, c]) tok (0 :: post)
      (by simp : pre.length + 1 < _) hq tok.length (le_refl _)
    rw [backUp_of_le _ (by simp : (pre ++ [quote, c]).length - 1 ≤ pre.length + 1)] at h
    rw [show (pre ++ [quote, c]).length + tok.length - 1
        = pre.length + 1 + (c :: tok).length - 1 by simp] at h
    simpa using h
  rw [getNextArgument, strchr_append_zero pre space_ne_zero hno.1 hno.2]
  simp only [Option.bind_eq_bind, Option.bind_some, hhead, if_true, hend, hback]
  simp

end Tokenizer

end Napd
