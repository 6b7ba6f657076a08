import Napd.Command.Flushes

/-!
Packing a list of arguments in several flushes.

`operator <<` flushes after every argument, `PACK_COMMAND` once for all. A text flush leaves
`size` at the end of what it wrote; a binary flush leaves it at the end of what it reserved,
four bytes an argument further on, so that the next flush leaves a gap.

* `packGroups`: packing in groups; `Same`: the encodings are those of a single flush.
* `same_atMostOne`: they are when at most one group holds arguments.
* `same_text_iff`: in a text message they are, unless a flush overruns what it reserves.
* `same_binary_iff`: in a binary message two groups that hold arguments show, unless the 16-bit
  size ends in front of the gap.
-/

namespace Napd

namespace Command

open Memory

/-- Packing group after group, each followed by a flush; a flush that has to grow the block is
given memory of its own. -/
def packGroups (fs : ℕ → Fresh) (c : Command) : List (List ArgData) → Option Command
  | [] => some c
  | g :: gs => do
      let c ← pack (fs 0) c g
      packGroups (fun i => fs (i + 1)) c gs

/-- The encodings that packing in groups can give are those that a single flush can give. In a
text message both give one; a binary message also shows what was left in the memory. -/
def Same (code : U16) (groups : List (List ArgData)) : Prop :=
  ∀ r, (∃ fs, encoding (packGroups fs (new code) groups) = r) ↔
    ∃ f, encoding (pack f (new code) groups.flatten) = r

/-- At most one group holds arguments. -/
def AtMostOne (groups : List (List ArgData)) : Prop := (groups.filter (· ≠ [])).length ≤ 1

/-- Every flush resumes at the true end: none that has arguments behind it ends past what the
16-bit size can say. -/
def Resumes (code : U16) (groups : List (List ArgData)) : Prop :=
  ∀ pre suf, groups = pre ++ suf → suf.flatten ≠ [] →
    if code < f2CodeStart then ∀ t, textOf [] pre.flatten = some t → t.length ≤ 65535
    else reservation pre.flatten ≤ 65535

/-- Flush after flush, the text has its words and stays in what is reserved. -/
def Stays : List U8 → List (List ArgData) → Prop
  | _, [] => True
  | text, g :: gs => ∃ t, textOf text g = some t ∧ t.length ≤ text.length + reservation g ∧
      Stays t gs

/-- The size in the end, cut to 16 bits, is not behind the records of the first group that holds
arguments. -/
def EndsEarly (groups : List (List ArgData)) : Prop :=
  ∀ pre g suf, groups = pre ++ g :: suf → pre.flatten = [] → g ≠ [] →
    reservation groups.flatten % 65536 ≤ ((g.map arg).flatMap argRecord).length

/-- Where the grouping does not show. -/
def Hides (code : U16) (groups : List (List ArgData)) : Prop :=
  AtMostOne groups ∨ Resumes code groups ∧
    if code < f2CodeStart then Stays [] [groups.flatten] → Stays [] groups else EndsEarly groups

lemma packGroups_append (fs : ℕ → Fresh) (c : Command) (gs hs : List (List ArgData)) :
    packGroups fs c (gs ++ hs)
      = (packGroups fs c gs).bind fun c => packGroups (fun i => fs (gs.length + i)) c hs := by
  induction gs generalizing fs c with
  | nil =>
      simp only [List.nil_append, packGroups, Option.bind_some, List.length_nil, Nat.zero_add]
  | cons g gs ih =>
      rw [List.cons_append, packGroups, packGroups]
      cases pack (fs 0) c g with
      | none => rfl
      | some c =>
          simp only [Option.bind_eq_bind, Option.bind_some, ih, List.length_cons,
            Nat.add_right_comm]

lemma packGroups_singleton (f : Fresh) (c : Command) (g : List ArgData) :
    packGroups (fun _ => f) c [g] = pack f c g := by
  rw [packGroups]
  cases pack f c g <;> rfl

lemma packGroups_kept {fs : ℕ → Fresh} {c c' : Command} {gs : List (List ArgData)}
    (h : Flushed c) (hrun : packGroups fs c gs = some c') : Flushed c' := by
  induction gs generalizing fs c with
  | nil => exact Option.some.inj hrun ▸ h
  | cons g gs ih =>
      rw [packGroups] at hrun
      obtain ⟨c₁, hpack, hrun⟩ := Option.bind_eq_some_iff.mp hrun
      exact ih (pack_kept h hpack).1 hrun

/-! ### Text -/

lemma packGroups_flushedText (fs : ℕ → Fresh) {c : Command} (h : Flushed c)
    (hcode : c.code < f2CodeStart) (gs : List (List ArgData)) :
    (packGroups fs c gs).map payload = gs.foldlM flushedText c.payload := by
  induction gs generalizing fs c with
  | nil => rfl
  | cons g gs ih =>
      rw [packGroups, List.foldlM_cons, ← pack_flushedText (fs 0) h hcode]
      cases hpack : pack (fs 0) c g with
      | none => rfl
      | some c₁ =>
          obtain ⟨h₁, hcode₁, -⟩ := pack_kept h hpack
          exact ih (fun i => fs (i + 1)) h₁ (hcode₁ ▸ hcode)

/-- In a text message the encoding does not depend on the memory. -/
lemma encoding_text (fs : ℕ → Fresh) {code : U16} (hcode : code < f2CodeStart)
    (gs : List (List ArgData)) :
    encoding (packGroups fs (new code) gs)
      = (gs.foldlM flushedText []).map fun t => (UInt16.ofNat t.length, t) := by
  rw [encoding_eq fun c hrun => (packGroups_kept (flushed_new code) hrun).backed,
    packGroups_flushedText fs (flushed_new code) hcode]
  rfl

lemma same_text {code : U16} (hcode : code < f2CodeStart) (gs : List (List ArgData)) :
    Same code gs ↔ gs.foldlM flushedText [] = [gs.flatten].foldlM flushedText [] := by
  have hone : ∀ f, encoding (pack f (new code) gs.flatten)
      = ([gs.flatten].foldlM flushedText []).map fun t => (UInt16.ofNat t.length, t) := by
    intro f
    rw [← packGroups_singleton, encoding_text _ hcode]
  constructor
  · intro h
    obtain ⟨f, hf⟩ := (h _).mp ⟨fun _ => ⟨1, one_ne_zero, fun _ => 0⟩, rfl⟩
    rw [hone, encoding_text _ hcode] at hf
    exact (Option.map_injective (fun t u htu => congrArg Prod.snd htu) hf).symm
  · intro h r
    constructor
    · rintro ⟨fs, rfl⟩
      exact ⟨fs 0, by rw [hone, encoding_text _ hcode, h]⟩
    · rintro ⟨f, rfl⟩
      exact ⟨fun _ => f, by rw [hone, encoding_text _ hcode, h]⟩

lemma flushedText_of_le {text t : List U8} {g : List ArgData} (ht : textOf text g = some t)
    (hfit : t.length ≤ text.length + reservation g) : flushedText text g = some (cutText t) := by
  simp only [flushedText, ht, Option.bind_eq_bind, Option.bind_some, if_pos hfit]

lemma stays_nil (text : List U8) {gs : List (List ArgData)} (hgs : gs.flatten = []) :
    Stays text gs := by
  induction gs with
  | nil => trivial
  | cons g gs ih =>
      rw [List.flatten_cons, List.append_eq_nil_iff] at hgs
      obtain ⟨rfl, hgs⟩ := hgs
      exact ⟨text, rfl, Nat.le_add_right _ _, ih hgs⟩

lemma foldlM_flushedText_nil {text : List U8} (htext : text.length ≤ 65535)
    {gs : List (List ArgData)} (hgs : gs.flatten = []) :
    gs.foldlM flushedText text = some text := by
  induction gs with
  | nil => rfl
  | cons g gs ih =>
      rw [List.flatten_cons, List.append_eq_nil_iff] at hgs
      obtain ⟨rfl, hgs⟩ := hgs
      rw [List.foldlM_cons, flushedText_of_le rfl (Nat.le_add_right _ _), cutText_of_le htext]
      exact ih hgs

/-- What stays flush by flush stays in one flush. -/
lemma stays_flatten {text : List U8} {gs : List (List ArgData)} (h : Stays text gs) :
    Stays text [gs.flatten] := by
  induction gs generalizing text with
  | nil => exact ⟨text, rfl, Nat.le_add_right _ _, trivial⟩
  | cons g gs ih =>
      obtain ⟨t, ht, hfit, hstays⟩ := h
      obtain ⟨u, hu, hfit', -⟩ := ih hstays
      refine ⟨u, ?_, ?_, trivial⟩
      · rw [List.flatten_cons, textOf_append, ht]
        exact hu
      · rw [List.flatten_cons, reservation_append]
        omega

/-- What `Resumes` says of the flushes behind a text. -/
def ResumesFrom (text : List U8) (gs : List (List ArgData)) : Prop :=
  ∀ pre suf, gs = pre ++ suf → suf.flatten ≠ [] →
    ∀ t, textOf text pre.flatten = some t → t.length ≤ 65535

lemma ResumesFrom.head {text t : List U8} {g : List ArgData} {gs : List (List ArgData)}
    (h : ResumesFrom text (g :: gs)) (ht : textOf text g = some t) (hgs : gs.flatten ≠ []) :
    t.length ≤ 65535 :=
  h [g] gs rfl hgs t (by rwa [List.flatten_singleton])

lemma ResumesFrom.tail {text t : List U8} {g : List ArgData} {gs : List (List ArgData)}
    (h : ResumesFrom text (g :: gs)) (ht : textOf text g = some t) : ResumesFrom t gs := by
  intro pre suf heq hsuf u hu
  refine h (g :: pre) suf (by rw [heq, List.cons_append]) hsuf u ?_
  rw [List.flatten_cons, textOf_append, ht]
  exact hu

lemma resumesFrom_singleton (g : List ArgData) : ResumesFrom [] [g] := by
  intro pre suf heq hsuf t ht
  cases pre with
  | nil =>
      rw [← Option.some.inj ht]
      exact Nat.zero_le _
  | cons x pre =>
      obtain ⟨rfl, hnil⟩ := List.cons.inj heq
      rw [(List.append_eq_nil_iff.mp hnil.symm).2] at hsuf
      exact absurd rfl hsuf

/-- **Flush after flush** that stays in what it reserves: only the last may be cut. -/
lemma foldlM_stays {text : List U8} {gs : List (List ArgData)} (htext : text.length ≤ 65535)
    (hresumes : ResumesFrom text gs) (hstays : Stays text gs) :
    ∃ t, textOf text gs.flatten = some t ∧ gs.foldlM flushedText text = some (cutText t) := by
  induction gs generalizing text with
  | nil => exact ⟨text, rfl, by rw [cutText_of_le htext]; rfl⟩
  | cons g gs ih =>
      obtain ⟨t, ht, hfit, hstays⟩ := hstays
      rw [List.flatten_cons, textOf_append, ht, List.foldlM_cons, flushedText_of_le ht hfit]
      simp only [Option.bind_eq_bind, Option.bind_some]
      by_cases hgs : gs.flatten = []
      · have hcut : (cutText t).length ≤ 65535 := by
          rw [cutText, List.length_take]
          omega
        rw [hgs, foldlM_flushedText_nil hcut hgs]
        exact ⟨t, rfl, rfl⟩
      · have hlen := hresumes.head ht hgs
        rw [cutText_of_le hlen]
        exact ih hlen (hresumes.tail ht) hstays

/-- A flush that overruns what it reserves is a fault. -/
lemma foldlM_overrun {text : List U8} {gs : List (List ArgData)} (htext : text.length ≤ 65535)
    (hresumes : ResumesFrom text gs) (hover : ¬ Stays text gs) :
    gs.foldlM flushedText text = none := by
  induction gs generalizing text with
  | nil => exact absurd trivial hover
  | cons g gs ih =>
      rw [List.foldlM_cons]
      cases ht : textOf text g with
      | none =>
          rw [flushedText, ht]
          rfl
      | some t =>
          by_cases hfit : t.length ≤ text.length + reservation g
          · have hgs : gs.flatten ≠ [] := fun hnil =>
              hover ⟨t, ht, hfit, stays_nil t hnil⟩
            have hlen := hresumes.head ht hgs
            rw [flushedText_of_le ht hfit, cutText_of_le hlen]
            exact ih hlen (hresumes.tail ht) fun hstays => hover ⟨t, ht, hfit, hstays⟩
          · simp only [flushedText, ht, Option.bind_eq_bind, Option.bind_some, if_neg hfit,
              Option.bind_none]

lemma Resumes.from_nil {code : U16} {gs : List (List ArgData)} (h : Resumes code gs)
    (hcode : code < f2CodeStart) : ResumesFrom [] gs := by
  intro pre suf heq hsuf
  have htext := h pre suf heq hsuf
  rwa [if_pos hcode] at htext

/-- **In a text message** the grouping shows only where one of the flushes overruns what it
reserves and the single flush does not. -/
lemma same_text_iff {code : U16} (hcode : code < f2CodeStart) {gs : List (List ArgData)}
    (h : Resumes code gs) : Same code gs ↔ (Stays [] [gs.flatten] → Stays [] gs) := by
  have hsingle := resumesFrom_singleton gs.flatten
  rw [same_text hcode]
  constructor
  · intro hsame hone
    by_contra hover
    obtain ⟨t, -, hrun⟩ := foldlM_stays (Nat.zero_le _) hsingle hone
    rw [← hsame, foldlM_overrun (Nat.zero_le _) (h.from_nil hcode) hover] at hrun
    cases hrun
  · intro himp
    by_cases hone : Stays [] [gs.flatten]
    · obtain ⟨t, ht, hrun⟩ := foldlM_stays (Nat.zero_le _) (h.from_nil hcode) (himp hone)
      obtain ⟨u, hu, hrun'⟩ := foldlM_stays (Nat.zero_le _) hsingle hone
      rw [List.flatten_singleton, ht] at hu
      rw [hrun, hrun', Option.some.inj hu]
    · have hover : ¬ Stays [] gs := fun hstays => hone (stays_flatten hstays)
      rw [foldlM_overrun (Nat.zero_le _) hsingle hone,
        foldlM_overrun (Nat.zero_le _) (h.from_nil hcode) hover]

/-! ### Empty groups -/

lemma packGroups_nil (fs : ℕ → Fresh) {c : Command} {b : Block} {gs : List (List ArgData)}
    (h : Flushed c) (hdata : c.data = some b) (hgs : gs.flatten = []) :
    packGroups fs c gs = some c := by
  induction gs generalizing fs with
  | nil => rfl
  | cons g gs ih =>
      rw [List.flatten_cons, List.append_eq_nil_iff] at hgs
      obtain ⟨rfl, hgs⟩ := hgs
      rw [packGroups, pack_nil (fs 0) h hdata]
      exact ih (fun i => fs (i + 1)) hgs

/-- A fresh command, or a fresh command that was flushed with nothing to write. -/
def Start (code : U16) (c : Command) : Prop :=
  c = new code ∨ ∃ f, c = { new code with data := some (block f [] 0) }

lemma Start.flushed {code : U16} {c : Command} (h : Start code c) : Flushed c := by
  rcases h with rfl | ⟨f, rfl⟩
  · exact flushed_new code
  · exact ⟨(block_length f [] 0).ge, rfl⟩

lemma Start.fresh {code : U16} {c : Command} (h : Start code c) :
    c.code = code ∧ c.size = 0 ∧ c.payload = [] := by
  rcases h with rfl | ⟨f, rfl⟩ <;> exact ⟨rfl, rfl, rfl⟩

lemma packGroups_start (fs : ℕ → Fresh) (code : U16) {gs : List (List ArgData)}
    (hgs : gs.flatten = []) : ∃ c, packGroups fs (new code) gs = some c ∧ Start code c := by
  cases gs with
  | nil => exact ⟨new code, rfl, .inl rfl⟩
  | cons g gs =>
      rw [List.flatten_cons, List.append_eq_nil_iff] at hgs
      obtain ⟨rfl, hgs⟩ := hgs
      have hstart : Start code { new code with data := some (block (fs 0) [] 0) } :=
        .inr ⟨fs 0, rfl⟩
      refine ⟨_, ?_, hstart⟩
      rw [packGroups, pack_new_nil]
      exact packGroups_nil _ hstart.flushed rfl hgs

/-! ### One group that holds arguments -/

/-- Behind the records of a first group, the block is what the allocator left. -/
lemma Start.grow {code : U16} {c : Command} (h : Start code c) (f : Fresh) {s n : ℕ} {b : Block}
    (hs : 0 < s) (hn : 5 ≤ n) (hdata : (c.grow f s).data = some b) :
    b.bytes.drop n = (block f [] s).bytes.drop n := by
  rcases h with rfl | ⟨f₀, rfl⟩
  · rw [← Option.some.inj hdata]
  · have hgrow : (Command.grow f s { new code with data := some (block f₀ [] 0) }).data
        = some (block f (block f₀ [] 0).bytes s) := by
      rw [Command.grow]
      exact congrArg Command.data (if_neg (Nat.not_le.mpr hs))
    rw [hgrow] at hdata
    rw [← Option.some.inj hdata, drop_block f s (by rw [block_length]; exact hn)]

lemma records_pos {g : List ArgData} (hg : g ≠ []) :
    4 ≤ ((g.map arg).flatMap argRecord).length ∧
      ((g.map arg).flatMap argRecord).length + 4 ≤ reservation g := by
  have hlen := records_length g
  have hpos := List.length_pos_of_ne_nil hg
  omega

/-- **A first group** is packed alike into a fresh command and one flushed with nothing. -/
lemma encoding_start (f : Fresh) {code : U16} {c : Command} {g : List ArgData}
    (h : Start code c) (hg : g ≠ []) :
    encoding (pack f c g) = encoding (pack f (new code) g) := by
  obtain ⟨hcode, hsize, hpay⟩ := h.fresh
  by_cases htext : code < f2CodeStart
  · have hback : ∀ c, Flushed c → ∀ c', pack f c g = some c' → Backed c' :=
      fun c hc c' hrun => (pack_kept hc hrun).1.backed
    rw [encoding_eq (hback c h.flushed), encoding_eq (hback (new code) (flushed_new code)),
      pack_flushedText f h.flushed (hcode ▸ htext), hpay,
      pack_flushedText f (flushed_new code) htext]
    rfl
  · obtain ⟨h4, hle⟩ := records_pos hg
    obtain ⟨b, c', hdata, hpack, hsize', hpay'⟩ := pack_binary_flushed f h.flushed (hcode ▸ htext) g
    rw [hsize] at hdata hsize' hpay'
    rw [show (0 : U16).toNat = 0 from rfl, Nat.zero_add] at hdata hsize' hpay'
    rw [hpay, List.nil_append, Nat.add_zero, h.grow f (by omega) (by omega) hdata] at hpay'
    rw [encoding_fresh f htext, hpack, encoding, Option.map_some, eq_ofNat_of_mod hsize', hpay']

/-- The groups up to the first that holds arguments. -/
lemma exists_first (gs : List (List ArgData)) :
    gs.flatten = [] ∨ ∃ pre g rest, gs = pre ++ g :: rest ∧ pre.flatten = [] ∧ g ≠ [] := by
  induction gs with
  | nil => exact .inl rfl
  | cons g gs ih =>
      by_cases hg : g = []
      · subst hg
        rcases ih with hnil | ⟨pre, g', rest, rfl, hpre, hg'⟩
        · exact .inl hnil
        · exact .inr ⟨[] :: pre, g', rest, rfl, hpre, hg'⟩
      · exact .inr ⟨[], g, gs, rfl, rfl, hg⟩

lemma filter_eq_nil_iff (gs : List (List ArgData)) :
    gs.filter (· ≠ []) = [] ↔ gs.flatten = [] := by
  rw [List.filter_eq_nil_iff, List.flatten_eq_nil_iff]
  simp

/-- Behind the first group that holds arguments, at most one means no other. -/
lemma atMostOne_iff {pre rest : List (List ArgData)} {g : List ArgData}
    (hpre : pre.flatten = []) (hg : g ≠ []) :
    AtMostOne (pre ++ g :: rest) ↔ rest.flatten = [] := by
  rw [AtMostOne, List.filter_append, (filter_eq_nil_iff pre).mpr hpre, List.nil_append,
    List.filter_cons_of_pos (by simpa using hg), List.length_cons, ← filter_eq_nil_iff,
    ← List.length_eq_zero_iff]
  omega

/-- **At most one group** that holds arguments: its flush is the single flush. -/
lemma encoding_atMostOne (code : U16) {gs : List (List ArgData)} (h : AtMostOne gs) :
    ∃ k, ∀ fs, encoding (packGroups fs (new code) gs)
      = encoding (pack (fs k) (new code) gs.flatten) := by
  rcases exists_first gs with hnil | ⟨pre, g, rest, rfl, hpre, hg⟩
  · refine ⟨0, fun fs => ?_⟩
    obtain ⟨c, hrun, hstart⟩ := packGroups_start fs code hnil
    obtain ⟨-, hsize, hpay⟩ := hstart.fresh
    rw [hrun, hnil, pack_new_nil, encoding, Option.map_some, hsize, hpay]
    rfl
  · refine ⟨pre.length, fun fs => ?_⟩
    have hrest := (atMostOne_iff hpre hg).mp h
    obtain ⟨c, hrun, hstart⟩ := packGroups_start fs code hpre
    have hflat : (pre ++ g :: rest).flatten = g := by
      rw [List.flatten_append, hpre, List.flatten_cons, hrest, List.nil_append, List.append_nil]
    have hbehind : packGroups (fun i => fs (pre.length + i)) c (g :: rest)
        = pack (fs pre.length) c g := by
      rw [packGroups, Nat.add_zero]
      cases hpack : pack (fs pre.length) c g with
      | none => rfl
      | some c' =>
          obtain ⟨hc', -, b, hb⟩ := pack_kept hstart.flushed hpack
          exact packGroups_nil _ hc' hb hrest
    calc encoding (packGroups fs (new code) (pre ++ g :: rest))
        = encoding (packGroups (fun i => fs (pre.length + i)) c (g :: rest)) := by
          rw [packGroups_append, hrun, Option.bind_some]
      _ = encoding (pack (fs pre.length) c g) := by rw [hbehind]
      _ = encoding (pack (fs pre.length) (new code) g) := encoding_start _ hstart hg
      _ = encoding (pack (fs pre.length) (new code) (pre ++ g :: rest).flatten) := by rw [hflat]

lemma same_atMostOne (code : U16) {gs : List (List ArgData)} (h : AtMostOne gs) :
    Same code gs := by
  obtain ⟨k, hk⟩ := encoding_atMostOne code h
  intro r
  constructor
  · rintro ⟨fs, rfl⟩
    exact ⟨fs k, (hk fs).symm⟩
  · rintro ⟨f, rfl⟩
    exact ⟨fun _ => f, hk fun _ => f⟩

/-! ### The gap in a binary message -/

/-- A group packed into a binary message leaves what is in front of it, as far as the new size
reaches. -/
lemma pack_binary_agrees (f : Fresh) {c : Command} (h : Flushed c)
    (hcode : ¬ c.code < f2CodeStart) (g : List ArgData) :
    ∃ c', pack f c g = some c' ∧ c'.size.toNat = (c.size.toNat + reservation g) % 65536 ∧
      c'.payload.take c.size.toNat = c.payload.take c'.size.toNat := by
  obtain ⟨b, c', -, hpack, hsize, hpay⟩ := pack_binary_flushed f h hcode g
  refine ⟨c', hpack, hsize, ?_⟩
  have hlen := payload_length h.backed
  rw [hpay, ← hsize, List.take_take, List.take_append_of_le_length (by omega), ← List.take_take,
    List.take_of_length_le]
  rw [List.length_take, hlen]
  exact min_le_right _ _

/-- So do groups that are packed one after another, where only the last is cut. -/
lemma packGroups_binary (fs : ℕ → Fresh) {c : Command} (gs : List (List ArgData)) (h : Flushed c)
    (hcode : ¬ c.code < f2CodeStart)
    (hresumes : ∀ pre suf, gs = pre ++ suf → suf.flatten ≠ [] →
      c.size.toNat + reservation pre.flatten ≤ 65535) :
    ∃ c', packGroups fs c gs = some c' ∧
      c'.size.toNat = (c.size.toNat + reservation gs.flatten) % 65536 ∧
      c'.payload.take c.size.toNat = c.payload.take c'.size.toNat := by
  induction gs generalizing fs c with
  | nil =>
      refine ⟨c, rfl, ?_, rfl⟩
      rw [List.flatten_nil, reservation_nil, Nat.add_zero, Nat.mod_eq_of_lt c.size.toNat_lt]
  | cons g gs ih =>
      obtain ⟨c₁, hpack, hsize₁, hpay₁⟩ := pack_binary_agrees (fs 0) h hcode g
      obtain ⟨h₁, hcode₁, b, hb⟩ := pack_kept h hpack
      rw [packGroups, hpack, List.flatten_cons, reservation_append]
      simp only [Option.bind_eq_bind, Option.bind_some]
      by_cases hgs : gs.flatten = []
      · refine ⟨c₁, packGroups_nil _ h₁ hb hgs, ?_, hpay₁⟩
        rw [hgs, reservation_nil, Nat.add_zero, hsize₁]
      · have hfit := hresumes [g] gs rfl hgs
        rw [List.flatten_singleton] at hfit
        rw [Nat.mod_eq_of_lt (by omega)] at hsize₁
        obtain ⟨c', hrun, hsize', hpay'⟩ := ih (fun i => fs (i + 1)) h₁ (hcode₁ ▸ hcode) (by
          intro pre suf heq hsuf
          have htail := hresumes (g :: pre) suf (by rw [heq, List.cons_append]) hsuf
          rw [List.flatten_cons, reservation_append] at htail
          omega)
        refine ⟨c', hrun, by rw [hsize', hsize₁, Nat.add_assoc], ?_⟩
        have hle : c.size.toNat ≤ c₁.size.toNat := by omega
        have hall : c₁.payload.take c.size.toNat = c.payload := by
          rw [hpay₁, List.take_of_length_le (by rw [payload_length h.backed]; exact hle)]
        calc c'.payload.take c.size.toNat
            = (c'.payload.take c₁.size.toNat).take c.size.toNat := by
              rw [List.take_take, min_eq_left hle]
          _ = (c₁.payload.take c.size.toNat).take c'.size.toNat := by
              rw [hpay', List.take_take, List.take_take, min_comm]
          _ = c.payload.take c'.size.toNat := by rw [hall]

/-- What stands of the first group in the end: its records, and behind them what the allocator
left in the bytes reserved beyond. -/
lemma packGroups_first (fs : ℕ → Fresh) {code : U16} {pre rest : List (List ArgData)}
    {g : List ArgData} (hcode : ¬ code < f2CodeStart) (hpre : pre.flatten = []) (hg : g ≠ [])
    (hrest : rest.flatten ≠ []) (hresumes : Resumes code (pre ++ g :: rest)) :
    ∃ c', packGroups fs (new code) (pre ++ g :: rest) = some c' ∧
      c'.size.toNat = reservation (pre ++ g :: rest).flatten % 65536 ∧
      c'.payload.take (reservation g) = (((g.map arg).flatMap argRecord
        ++ (block (fs pre.length) [] (reservation g)).bytes.drop
          (4 + ((g.map arg).flatMap argRecord).length)).take (reservation g)).take
            c'.size.toNat := by
  have hflat : (pre ++ g :: rest).flatten = g ++ rest.flatten := by
    rw [List.flatten_append, hpre, List.flatten_cons, List.nil_append]
  have hbehind : ∀ p s, rest = p ++ s → s.flatten ≠ [] →
      reservation g + reservation p.flatten ≤ 65535 := by
    intro p s heq hs
    have hsum := hresumes (pre ++ g :: p) s (by rw [heq, List.append_assoc, List.cons_append]) hs
    rwa [if_neg hcode, List.flatten_append, hpre, List.flatten_cons, List.nil_append,
      reservation_append] at hsum
  have hfit : reservation g ≤ 65535 := hbehind [] rest rfl hrest
  obtain ⟨c, hstart, hc⟩ := packGroups_start fs code hpre
  have hfirst := encoding_start (fs pre.length) hc hg
  rw [encoding_fresh _ hcode] at hfirst
  obtain ⟨c₁, hpack, hc₁⟩ := Option.map_eq_some_iff.mp hfirst
  obtain ⟨hsize₁, hpay₁⟩ := Prod.mk.inj hc₁
  obtain ⟨h₁, hcode₁, -⟩ := pack_kept hc.flushed hpack
  have hsize : c₁.size.toNat = reservation g := by
    rw [hsize₁, UInt16.toNat_ofNat']
    omega
  obtain ⟨c', hrun, hsize', hpay'⟩ := packGroups_binary (fun i => fs (pre.length + (i + 1))) rest h₁
    (by rw [hcode₁, hc.fresh.1]; exact hcode) (by rw [hsize]; exact hbehind)
  refine ⟨c', ?_, by rw [hsize', hsize, hflat, reservation_append], ?_⟩
  · rw [packGroups_append, hstart, Option.bind_some, packGroups, Nat.add_zero, hpack]
    exact hrun
  · rw [← hsize, hpay', hpay₁, hsize, Nat.mod_eq_of_lt (by omega)]

/-- A message that is cut within the records of the first group shows no more than these. -/
lemma encoding_early (fs : ℕ → Fresh) {code : U16} {pre rest : List (List ArgData)}
    {g : List ArgData} (hcode : ¬ code < f2CodeStart) (hpre : pre.flatten = []) (hg : g ≠ [])
    (hrest : rest.flatten ≠ []) (hresumes : Resumes code (pre ++ g :: rest))
    (hcut : reservation (pre ++ g :: rest).flatten % 65536
      ≤ ((g.map arg).flatMap argRecord).length) :
    encoding (packGroups fs (new code) (pre ++ g :: rest))
      = some (UInt16.ofNat (reservation (pre ++ g :: rest).flatten),
          ((g.map arg).flatMap argRecord).take
            (reservation (pre ++ g :: rest).flatten % 65536)) := by
  obtain ⟨h4, hle⟩ := records_pos hg
  obtain ⟨c', hrun, hsize, hpay⟩ := packGroups_first fs hcode hpre hg hrest hresumes
  have hlen : c'.payload.length = c'.size.toNat :=
    payload_length (packGroups_kept (flushed_new code) hrun).backed
  rw [List.take_of_length_le (by omega), List.take_take, min_eq_left (by omega),
    List.take_append_of_le_length (by omega), hsize] at hpay
  rw [hrun, encoding, Option.map_some, eq_ofNat_of_mod hsize, hpay]

/-- A message that reaches further has the allocator's byte behind these records. -/
lemma packGroups_gap (f : Fresh) {code : U16} {pre rest : List (List ArgData)}
    {g : List ArgData} (hcode : ¬ code < f2CodeStart) (hpre : pre.flatten = []) (hg : g ≠ [])
    (hrest : rest.flatten ≠ []) (hresumes : Resumes code (pre ++ g :: rest))
    (hgap : ((g.map arg).flatMap argRecord).length
      < reservation (pre ++ g :: rest).flatten % 65536) :
    ∃ c', packGroups (fun _ => f) (new code) (pre ++ g :: rest) = some c' ∧
      c'.payload[((g.map arg).flatMap argRecord).length]?
        = some (f.contents (4 + ((g.map arg).flatMap argRecord).length)) := by
  obtain ⟨h4, hle⟩ := records_pos hg
  obtain ⟨c', hrun, hsize, hpay⟩ := packGroups_first (fun _ => f) hcode hpre hg hrest hresumes
  refine ⟨c', hrun, ?_⟩
  calc c'.payload[((g.map arg).flatMap argRecord).length]?
      = (c'.payload.take (reservation g))[((g.map arg).flatMap argRecord).length]? :=
        (List.getElem?_take_of_lt (by omega)).symm
    _ = some (f.contents (4 + ((g.map arg).flatMap argRecord).length)) := by
        rw [hpay, hsize, List.getElem?_take_of_lt hgap, List.getElem?_take_of_lt (by omega),
          List.getElem?_append_right (le_refl _), Nat.sub_self, List.getElem?_drop,
          Nat.add_zero, getElem?_block _ (Nat.zero_le _) (by omega)]

/-- **In a binary message** two groups that hold arguments show: between their records stands what
the allocator left in the bytes reserved beyond the first. They do not where the message ends in
front of that. -/
lemma same_binary_iff {code : U16} (hcode : ¬ code < f2CodeStart)
    {pre rest : List (List ArgData)} {g : List ArgData} (hpre : pre.flatten = []) (hg : g ≠ [])
    (hrest : rest.flatten ≠ []) (hresumes : Resumes code (pre ++ g :: rest)) :
    Same code (pre ++ g :: rest) ↔
      reservation (pre ++ g :: rest).flatten % 65536 ≤ ((g.map arg).flatMap argRecord).length := by
  obtain ⟨y, ys, hys⟩ := List.exists_cons_of_ne_nil hrest
  have hflat : (pre ++ g :: rest).flatten = g ++ y :: ys := by
    rw [List.flatten_append, hpre, List.flatten_cons, List.nil_append, hys]
  have hrecords : (((pre ++ g :: rest).flatten).map arg).flatMap argRecord
      = (g.map arg).flatMap argRecord ++ ((y :: ys).map arg).flatMap argRecord := by
    rw [hflat, List.map_append, List.flatMap_append]
  constructor
  · intro hsame
    by_contra hgap
    rw [not_le] at hgap
    -- the first byte of the record that ought to follow, and a different one for the gap
    obtain ⟨k, hk⟩ : ∃ k, k = UInt8.ofNat ((arg y).size.toNat / 256) := ⟨_, rfl⟩
    let f : Fresh := ⟨1, one_ne_zero, fun _ => k + 1⟩
    obtain ⟨c', hrun, hbyte⟩ := packGroups_gap f hcode hpre hg hrest hresumes hgap
    obtain ⟨f', hf'⟩ := (hsame _).mp ⟨fun _ => f, rfl⟩
    rw [hrun, encoding_fresh f' hcode, encoding, Option.map_some] at hf'
    obtain ⟨-, hpay⟩ := Prod.mk.inj (Option.some.inj hf')
    rw [← hpay, List.getElem?_take_of_lt hgap, hrecords, List.append_assoc,
      List.getElem?_append_right (le_refl _), Nat.sub_self] at hbyte
    have hsucc : k = k + 1 := hk.trans (Option.some.inj hbyte)
    simp at hsucc
  · intro hcut
    have hsingle : ∀ f, encoding (pack f (new code) (pre ++ g :: rest).flatten)
        = some (UInt16.ofNat (reservation (pre ++ g :: rest).flatten),
          ((g.map arg).flatMap argRecord).take
            (reservation (pre ++ g :: rest).flatten % 65536)) := by
      intro f
      rw [encoding_cut f hcode, hrecords, List.take_append_of_le_length hcut]
      rw [hrecords, List.length_append]
      omega
    have hall := fun fs => encoding_early fs hcode hpre hg hrest hresumes hcut
    intro r
    constructor
    · rintro ⟨fs, rfl⟩
      exact ⟨fs 0, (hsingle (fs 0)).trans (hall fs).symm⟩
    · rintro ⟨f, rfl⟩
      exact ⟨fun _ => f, (hall fun _ => f).trans (hsingle f).symm⟩

/-! ### The grouping -/

lemma same_of_hides {code : U16} {gs : List (List ArgData)} (h : Hides code gs) :
    Same code gs := by
  by_cases hone : AtMostOne gs
  · exact same_atMostOne code hone
  obtain ⟨hresumes, hcond⟩ := h.resolve_left hone
  by_cases hcode : code < f2CodeStart
  · rw [if_pos hcode] at hcond
    exact (same_text_iff hcode hresumes).mpr hcond
  · rw [if_neg hcode] at hcond
    rcases exists_first gs with hnil | ⟨pre, g, rest, rfl, hpre, hg⟩
    · refine absurd ?_ hone
      rw [AtMostOne, (filter_eq_nil_iff gs).mpr hnil]
      exact Nat.zero_le 1
    · have hrest : rest.flatten ≠ [] := fun hnil => hone ((atMostOne_iff hpre hg).mpr hnil)
      exact (same_binary_iff hcode hpre hg hrest hresumes).mpr (hcond pre g rest rfl hpre hg)

lemma hides_of_same {code : U16} {gs : List (List ArgData)} (hresumes : Resumes code gs)
    (h : Same code gs) : Hides code gs := by
  by_cases hone : AtMostOne gs
  · exact .inl hone
  refine .inr ⟨hresumes, ?_⟩
  split_ifs with hcode
  · exact (same_text_iff hcode hresumes).mp h
  · rintro pre g rest rfl hpre hg
    have hrest : rest.flatten ≠ [] := fun hnil => hone ((atMostOne_iff hpre hg).mpr hnil)
    exact (same_binary_iff hcode hpre hg hrest hresumes).mp h

/-- **Grouping** does not show where `Hides` says so; and where no flush that has arguments behind
it ends past the 16-bit size, it shows everywhere else. -/
theorem packGroups_encoding_iff (code : U16) (gs : List (List ArgData)) :
    (Hides code gs → Same code gs) ∧ (Resumes code gs → (Same code gs ↔ Hides code gs)) :=
  ⟨same_of_hides, fun hresumes => ⟨hides_of_same hresumes, same_of_hides⟩⟩

/-- Two numbers flushed one by one: the second record begins four bytes late. -/
theorem packGroups_encoding_ne : ¬ Same 10000 [[.integer 1], [.integer 2]] := by
  intro h
  obtain ⟨f, hf⟩ := (h _).mp ⟨fun _ => ⟨8, by decide, fun _ => 170⟩, rfl⟩
  have hbyte := congrArg (Option.map fun e => e.2[8]?) hf
  have hsingle : (encoding (pack f (new 10000) [[.integer 1], [.integer 2]].flatten)).map
      (fun e => e.2[8]?) = some (some 0) := by
    rw [encoding_fresh f (by decide)]
    rfl
  have hgap : (encoding (packGroups (fun _ => ⟨8, by decide, fun _ => 170⟩) (new 10000)
      [[.integer 1], [.integer 2]])).map (fun e => e.2[8]?) = some (some 170) := by
    decide
  rw [hsingle, hgap] at hbyte
  exact absurd hbyte (by decide)

end Command

end Napd
