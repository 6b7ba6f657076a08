import Napd.Library.Splitting
import Napd.Tokenizer

/-!
The splitter of `functions.cc`: `my_strsep`, on a block of memory.

* `fieldEnd`: where `my_strsep` ends a field, by `strchr` for one delimiter and by `strpbrk` for
  more; `my_strsep`: one call. `strpbrkStrsep`: the call without the path for one delimiter.
* `my_strsep_single`: with one delimiter the two do the same, on every block.
* `my_strsep_last`, `my_strsep_cut`: a call returns the field in front of it, and ends it with a
  NUL.
* `splitLoop`: the calls on one cursor, up to the one that returns `NULL`.
* `my_strsep_lossless`: **the calls return the fields of the string, one more than it has
  delimiters, and nothing of it is lost.**
-/

namespace Napd

namespace Strsep

open Memory Tokenizer Splitting

/-- `strpbrk`: the first byte of `delim` from `p` on, null when the NUL comes first. -/
def strpbrk (m : List U8) (p : ℕ) (delim : Text) : Option (Option ℕ) := do
  let q ← scan (fun b => b ∈ delim.val || b = 0) m p
  return if m[q]? = some 0 then none else some q

/-- The `end` of `my_strsep`. -/
def fieldEnd (delim : Text) (m : List U8) (begin : ℕ) : Option (Option ℕ) :=
  match delim.val with
  | [] => some none
  | [ch] => do
      let b ← m[begin]?
      if b = ch then return some begin
      else if b = 0 then return none
      else strchr m (begin + 1) ch
  | _ :: _ :: _ => strpbrk m begin delim

/-- What a call leaves behind: the memory, the cursor `*stringp`, and what it returned. -/
structure Call where
  mem : List U8
  stringp : Option ℕ
  begin : Option ℕ

/-- `*end++ = '\0'`, and the cursor there; or the cursor null. -/
def endField (m : List U8) (begin : ℕ) : Option ℕ → Option Call
  | some e => (splice m e [0]).map fun m => ⟨m, some (e + 1), some begin⟩
  | none => some ⟨m, none, some begin⟩

/-- `my_strsep`, with the `end` that `find` gives. -/
def strsepBy (find : List U8 → ℕ → Option (Option ℕ)) (m : List U8) (stringp : Option ℕ) :
    Option Call :=
  match stringp with
  | none => some ⟨m, none, none⟩
  | some begin => (find m begin).bind (endField m begin)

/-- `my_strsep`. -/
def my_strsep (delim : Text) : List U8 → Option ℕ → Option Call := strsepBy (fieldEnd delim)

/-- `my_strsep` with `end = strpbrk(begin, delim)` for every set of delimiters. -/
def strpbrkStrsep (delim : Text) : List U8 → Option ℕ → Option Call :=
  strsepBy fun m begin => strpbrk m begin delim

/-- The loop `while ((field = my_strsep(stringp, delim)))` of its callers, for at most `n` calls:
the fields as each of them is returned, and the memory behind the loop. -/
def splitLoop (call : List U8 → Option ℕ → Option Call) :
    ℕ → List U8 → Option ℕ → Option (List (Placed U8) × List U8)
  | 0, _, _ => none
  | n + 1, m, stringp =>
      (call m stringp).bind fun c =>
        match c.begin with
        | none => some ([], c.mem)
        | some b =>
            (splitLoop call n c.mem c.stringp).map fun r =>
              (⟨b, cstring (c.mem.drop b)⟩ :: r.1, r.2)

/-! ### Where a field ends -/

/-- A byte from 1 on, as a set of delimiters. -/
def single (c : {c : U8 // c ≠ 0}) : Text :=
  ⟨[c.val], fun h => c.property (List.mem_singleton.mp h).symm⟩

/-- `strpbrk` for a single byte is `strchr`. -/
lemma strpbrk_single (m : List U8) (p : ℕ) (c : {c : U8 // c ≠ 0}) :
    strpbrk m p (single c) = strchr m p c := by
  have hstop : (fun b => b ∈ (single c).val || b = 0 : U8 → Bool)
      = fun b => b = c.val || b = 0 := by
    funext b
    simp [single]
  rw [strpbrk, strchr, hstop]
  refine Option.bind_congr fun q hq => ?_
  -- the scan stopped at the byte or at the NUL
  obtain ⟨b, hb, hcases⟩ := scan_some hq
  rw [hb]
  rw [Bool.or_eq_true, decide_eq_true_iff, decide_eq_true_iff] at hcases
  rcases hcases with rfl | rfl
  · rw [if_neg fun h => c.property (Option.some.inj h), if_pos rfl]
  · rw [if_pos rfl, if_neg fun h => c.property (Option.some.inj h).symm]

/-- A single byte: the first character is looked at, and `strchr` goes on from the second, where
`strpbrk` begins with the first. -/
lemma fieldEnd_single (c : {c : U8 // c ≠ 0}) (m : List U8) (p : ℕ) :
    fieldEnd (single c) m p = strpbrk m p (single c) := by
  rw [strpbrk_single, strchr_eq_bind]
  rfl

/-- **The path for a single delimiter is the other path**, on every block and at every cursor. -/
lemma my_strsep_single (c : {c : U8 // c ≠ 0}) :
    my_strsep (single c) = strpbrkStrsep (single c) := by
  have hend : fieldEnd (single c) = fun m p => strpbrk m p (single c) := by
    funext m p
    exact fieldEnd_single c m p
  rw [my_strsep, strpbrkStrsep, hend]

/-! ### One call on a string -/

/-- The characters a string is cut at. -/
def isDelim (delim : Text) (b : U8) : Bool := b ∈ delim.val

/-- Where neither a delimiter nor a NUL is, `strpbrk` goes on. -/
lemma passes {delim : Text} {w : List U8} (hw : ∀ x ∈ w, isDelim delim x = false) (h0 : 0 ∉ w) :
    ∀ x ∈ w, (x ∈ delim.val || x = 0 : Bool) = false := by
  intro x hx
  have hne : decide (x = 0) = false := decide_eq_false (ne_of_mem_of_not_mem hx h0)
  rw [hne, Bool.or_false]
  exact hw x hx

lemma strpbrk_append (pre : List U8) {delim : Text} {w rest : List U8} {d : U8}
    (hw : ∀ x ∈ w, isDelim delim x = false) (h0 : 0 ∉ w) (hd : isDelim delim d = true) :
    strpbrk (pre ++ (w ++ d :: rest)) pre.length delim = some (some (pre.length + w.length)) := by
  have hd0 : d ≠ 0 := ne_of_mem_of_not_mem (of_decide_eq_true hd) delim.property
  rw [strpbrk, scan_append pre (passes hw h0) (by rw [Bool.or_eq_true]; exact Or.inl hd)]
  simp [hd0]

lemma strpbrk_append_zero (pre : List U8) {delim : Text} {w post : List U8}
    (hw : ∀ x ∈ w, isDelim delim x = false) (h0 : 0 ∉ w) :
    strpbrk (pre ++ (w ++ 0 :: post)) pre.length delim = some none := by
  rw [strpbrk, scan_append pre (passes hw h0) (by simp)]
  simp

/-- **On a string, a field ends where `strpbrk` says**, for every set of delimiters. -/
lemma fieldEnd_eq (pre post : List U8) (delim : Text) {s : List U8} (h0 : 0 ∉ s) :
    fieldEnd delim (pre ++ (s ++ 0 :: post)) pre.length
      = strpbrk (pre ++ (s ++ 0 :: post)) pre.length delim := by
  obtain ⟨l, hl⟩ := delim
  match l, hl with
  | [], hl => exact (strpbrk_append_zero pre (fun _ _ => rfl) h0).symm
  | [c], hl => exact fieldEnd_single ⟨c, fun h => hl (List.mem_singleton.mpr h.symm)⟩ _ _
  | _ :: _ :: _, hl => rfl

/-- The last field is returned, and the cursor becomes null. -/
lemma my_strsep_last (pre post : List U8) {delim : Text} {w : List U8}
    (hw : ∀ x ∈ w, isDelim delim x = false) (h0 : 0 ∉ w) :
    my_strsep delim (pre ++ (w ++ 0 :: post)) (some pre.length)
      = some ⟨pre ++ (w ++ 0 :: post), none, some pre.length⟩ := by
  rw [my_strsep, strsepBy, fieldEnd_eq pre post delim h0, strpbrk_append_zero pre hw h0,
    Option.bind_some, endField]

/-- A field with a delimiter behind it is returned, with a NUL in place of the delimiter and the
cursor behind that. -/
lemma my_strsep_cut (pre post : List U8) {delim : Text} {w s : List U8} {d : U8}
    (hw : ∀ x ∈ w, isDelim delim x = false) (hd : isDelim delim d = true)
    (h0 : 0 ∉ w ++ d :: s) :
    my_strsep delim (pre ++ (w ++ d :: s ++ 0 :: post)) (some pre.length)
      = some ⟨pre ++ w ++ [0] ++ (s ++ 0 :: post), some (pre ++ w ++ [0]).length,
          some pre.length⟩ := by
  have hw0 : 0 ∉ w := fun h => h0 (List.mem_append_left _ h)
  have hend : strpbrk (pre ++ (w ++ d :: s ++ 0 :: post)) pre.length delim
      = some (some (pre ++ w).length) := by
    rw [List.append_assoc w, List.cons_append, strpbrk_append pre hw hw0 hd, List.length_append]
  have hcut : splice (pre ++ (w ++ d :: s ++ 0 :: post)) (pre ++ w).length [0]
      = some (pre ++ w ++ [0] ++ (s ++ 0 :: post)) := by
    rw [List.append_assoc w, ← List.append_assoc pre, List.cons_append,
      splice_append (pre ++ w) (d :: (s ++ 0 :: post)) [0] (Nat.succ_le_succ (Nat.zero_le _))]
    rfl
  have hcursor : (pre ++ w ++ [0]).length = (pre ++ w).length + 1 := List.length_append
  rw [my_strsep, strsepBy, fieldEnd_eq pre post delim h0, hend, Option.bind_some, endField, hcut,
    Option.map_some, hcursor]

/-! ### The calls on one cursor -/

/-- A loop in front of the last field makes two calls. -/
lemma splitLoop_last (pre post : List U8) {delim : Text} {w : List U8}
    (hw : ∀ x ∈ w, isDelim delim x = false) (h0 : 0 ∉ w) (n : ℕ) :
    splitLoop (my_strsep delim) (n + 2) (pre ++ (w ++ 0 :: post)) (some pre.length)
      = some ([⟨pre.length, w⟩], pre ++ (w ++ 0 :: post)) := by
  have hfield : cstring ((pre ++ (w ++ 0 :: post)).drop pre.length) = w := by
    rw [List.drop_left, cstring_append h0]
  rw [splitLoop, my_strsep_last pre post hw h0, Option.bind_some]
  show some (_ :: _, _) = _
  rw [hfield]

/-- A loop in front of a field with a delimiter behind it makes one call, and goes on behind the
delimiter. -/
lemma splitLoop_cut (pre post : List U8) {delim : Text} {w s : List U8} {d : U8}
    (hw : ∀ x ∈ w, isDelim delim x = false) (hd : isDelim delim d = true)
    (h0 : 0 ∉ w ++ d :: s) (n : ℕ) :
    splitLoop (my_strsep delim) (n + 1) (pre ++ (w ++ d :: s ++ 0 :: post)) (some pre.length)
      = (splitLoop (my_strsep delim) n (pre ++ w ++ [0] ++ (s ++ 0 :: post))
          (some (pre ++ w ++ [0]).length)).map fun r => (⟨pre.length, w⟩ :: r.1, r.2) := by
  have hfield : cstring ((pre ++ w ++ [0] ++ (s ++ 0 :: post)).drop pre.length) = w := by
    have hw0 : 0 ∉ w := fun h => h0 (List.mem_append_left _ h)
    calc cstring ((pre ++ w ++ [0] ++ (s ++ 0 :: post)).drop pre.length)
        = cstring ((pre ++ (w ++ 0 :: (s ++ 0 :: post))).drop pre.length) := by
          simp only [List.append_assoc, List.singleton_append]
      _ = w := by rw [List.drop_left, cstring_append hw0]
  rw [splitLoop, my_strsep_cut pre post hw hd h0, Option.bind_some]
  show (splitLoop _ n _ _).map _ = _
  rw [hfield]

/-- **The calls on one cursor** return the fields of the string, and then `NULL`: one call more
than there are fields, and each delimiter has become a NUL. -/
lemma splitLoop_my_strsep (delim : Text) (pre post : List U8) {s : List U8} (h0 : 0 ∉ s) (n : ℕ) :
    splitLoop (my_strsep delim) n (pre ++ (s ++ 0 :: post)) (some pre.length)
      = if (s.filter (isDelim delim)).length + 2 ≤ n then
          some (places pre.length (s.splitOnP (isDelim delim)),
            pre ++ (marked (isDelim delim) 0 s ++ 0 :: post))
        else none := by
  induction s using Splitting.induction (p := isDelim delim) generalizing pre n with
  | last w hw =>
      rw [filter_eq_nil hw, List.splitOnP_eq_singleton hw, marked_eq_self hw, places, places]
      rcases n with _ | _ | n
      · rfl
      · rw [splitLoop, my_strsep_last pre post hw h0]
        rfl
      · rw [splitLoop_last pre post hw h0, List.length_nil, Nat.zero_add,
          if_pos (Nat.le_add_left 2 n)]
  | cut w d s hw hd ih =>
      cases n with
      | zero => rfl
      | succ n =>
          have hs0 : 0 ∉ s := fun h => h0 (List.mem_append_right _ (List.mem_cons_of_mem _ h))
          have hplace : (pre ++ w ++ [0]).length = pre.length + w.length + 1 := by
            rw [List.length_append, List.length_append, List.length_singleton]
          rw [splitLoop_cut pre post hw hd h0, ih (pre ++ w ++ [0]) hs0, filter_cut s hw hd,
            List.splitOnP_append_cons_of_forall_mem hw d hd, marked_cut s hw hd, places, hplace,
            List.length_cons]
          split_ifs with hn hn' hn'
          · simp only [Option.map_some, List.append_assoc, List.cons_append, List.nil_append]
          · omega
          · omega
          · rfl

/-! ### Nothing is lost -/

/-- The fields of a string, empty ones included. -/
def fields (delim s : Text) : List (List U8) := s.val.splitOnP (isDelim delim)

/-- The delimiters in a string, in order. -/
def delims (delim s : Text) : List U8 := s.val.filter (isDelim delim)

/-- The string with a NUL in place of each delimiter. -/
def cut (delim s : Text) : List U8 := marked (isDelim delim) 0 s.val

/-- Behind the calls each field is the string that begins at its place. -/
lemma cstring_places (delim : Text) (pre post : List U8) (s : Text) :
    (places pre.length (fields delim s)).map
        (fun f => cstring ((pre ++ (cut delim s ++ 0 :: post)).drop f.start))
      = fields delim s := by
  have htext : ∀ f ∈ places pre.length (fields delim s),
      cstring ((pre ++ (cut delim s ++ 0 :: post)).drop f.start) = f.text := by
    intro f hf
    have h0 : 0 ∉ f.text := by
      intro h
      have hmem : f.text ∈ fields delim s := by
        rw [← map_text_places pre.length (fields delim s)]
        exact List.mem_map_of_mem hf
      exact s.property (of_mem_splitOnP hmem h).1
    obtain ⟨rest, hrest⟩ : ∃ rest, (pre ++ (cut delim s ++ 0 :: post)).drop f.start
        = f.text ++ 0 :: rest := places_marked pre s.val post hf
    rw [hrest, cstring_append h0]
  rw [List.map_congr_left htext, map_text_places]

/-- **`my_strsep` splits a string at every delimiter, on both of its paths.** Wherever the string
stands in memory, the calls on a cursor in front of it return its fields, each at its place, and
then `NULL`: one call for each field and one more. Of the memory they change the delimiters only,
and the fields they returned stay what they were. There is one field more than there are
delimiters, and the fields with the delimiters between them are the string. With a single
delimiter, the calls are those of the path for more. -/
theorem my_strsep_lossless (delim s : Text) (pre post : List U8) :
    (∀ n, splitLoop (my_strsep delim) n (pre ++ (s.val ++ 0 :: post)) (some pre.length)
      = if (fields delim s).length + 1 ≤ n then
          some (places pre.length (fields delim s), pre ++ (cut delim s ++ 0 :: post))
        else none) ∧
    (places pre.length (fields delim s)).map
        (fun f => cstring ((pre ++ (cut delim s ++ 0 :: post)).drop f.start))
      = fields delim s ∧
    (fields delim s).length = (delims delim s).length + 1 ∧
    (List.zipWith (· ++ ·) (fields delim s) ((delims delim s).map (fun d => [d]) ++ [[]])).flatten
      = s.val ∧
    ∀ c, splitLoop (my_strsep (single c)) = splitLoop (strpbrkStrsep (single c)) := by
  refine ⟨fun n => ?_, cstring_places delim pre post s, length_splitOnP s.val,
    List.splitOnP_spec s.val, fun c => by rw [my_strsep_single]⟩
  rw [splitLoop_my_strsep delim pre post s.property, fields, length_splitOnP]
  rfl

end Strsep

end Napd
