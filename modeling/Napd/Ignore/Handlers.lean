import Napd.Ignore.Todo
import Napd.Server.Service

/-!
The commands of an ignore list, and what the client that gives them knows of its list.

* `ListIgnores`, `AddIgnore`, `RemoveIgnore`, `ClearIgnores`: the handlers, with the name of the
  client that calls; `dispatch`: the branches that call them.
* `Request`, `respond`: what a client asks, and the answer.
* `View`: the list as a client knows it, from what it has heard alone.
* `ignores_known`: over every run of both ends, **what the client knows is the list of the server
  behind some of its requests**, every listing and every count it was sent agree with that, and
  if nothing is outstanding it is the list as it is.
-/

namespace Napd.Ignore

open Command Service

/-! ### The handlers -/

def IGNORE_LIST : U16 := 320
def IGNORE_ENTRY : U16 := 321
def IGNORE_ADD : U16 := 322
def IGNORE_REMOVE : U16 := 323
def IGNORE_UNKNOWN : U16 := 324
def IGNORE_CLEAR : U16 := 326

/-- `SAY` with a name. -/
def sayName (code : U16) (s : Text) : Said := ⟨code, [.string s]⟩

/-- `SAY` with the size of a list. -/
def saySize (code : U16) (names : List Text) : Said :=
  ⟨code, [.integer (Int32.ofNat names.length)]⟩

/-- `ListIgnores`. -/
def ListIgnores (l : IgnoreList) : IgnoreList × List Said :=
  (l, l.names.map (sayName IGNORE_ENTRY) ++ [saySize IGNORE_LIST l.names])

/-- `AddIgnore`, once the name is unpacked. -/
def addIgnore (name : Text) (l : IgnoreList) (ignoree : Text) : IgnoreList × List Said :=
  if l.contains ignoree ∨ strcasecmp name ignoree = 0 then (l, [sayName IGNORE_UNKNOWN ignoree])
  else ((l.insert ignoree).update, [sayName IGNORE_ADD ignoree])

/-- `RemoveIgnore`, once the name is unpacked. -/
def removeIgnore (l : IgnoreList) (ignoree : Text) : Option (IgnoreList × List Said) :=
  if l.contains ignoree then
    (l.eraseName ignoree).map fun l => (l.update, [sayName IGNORE_REMOVE ignoree])
  else some (l, [sayName IGNORE_UNKNOWN ignoree])

/-- `UNPACK_COMMAND(com, &ignoree)`. The pointer is not initialised: if it is left as it was, what
follows reads anywhere. -/
def unpackName (com : Command) : Option Text :=
  match com.arguments [.string] with
  | some [.string s] => some s
  | _ => none

/-- `AddIgnore`. -/
def AddIgnore (name : Text) (l : IgnoreList) (com : Command) : Option (IgnoreList × List Said) :=
  (unpackName com).map (addIgnore name l)

/-- `RemoveIgnore`. -/
def RemoveIgnore (l : IgnoreList) (com : Command) : Option (IgnoreList × List Said) :=
  (unpackName com).bind (removeIgnore l)

/-- `ClearIgnores`. -/
def ClearIgnores (l : IgnoreList) : IgnoreList × List Said :=
  (l.clear.update, [saySize IGNORE_CLEAR l.names])

/-- The branches of `ProcessOnlineCommand` for an ignore list. -/
def dispatch (name : Text) : Handler IgnoreList := fun l com =>
  if com.code = IGNORE_LIST then some (ListIgnores l)
  else if com.code = IGNORE_ADD then AddIgnore name l com
  else if com.code = IGNORE_REMOVE then RemoveIgnore l com
  else if com.code = IGNORE_CLEAR then some (ClearIgnores l)
  else none

/-! ### What is asked and answered -/

/-- A name that a text command can carry. -/
abbrev Name := {s : Text // Carries IGNORE_ADD [.string s]}

/-- What a client asks. -/
inductive Request where
  | list
  | add (s : Name)
  | remove (s : Name)
  | clear

/-- The command of a request. -/
def Request.saying : Request → Link.Saying
  | .list => ⟨IGNORE_LIST, [], by decide⟩
  | .add s => ⟨IGNORE_ADD, [.string s.val], s.property⟩
  | .remove s => ⟨IGNORE_REMOVE, [.string s.val], carries_text (by decide) (by decide) s.property⟩
  | .clear => ⟨IGNORE_CLEAR, [], by decide⟩

/-- The list behind a request, and the answer. -/
def respond (name : Text) (l : IgnoreList) : Request → IgnoreList × List Said
  | .list => ListIgnores l
  | .add s => addIgnore name l s
  | .remove s => (removeIgnore l s).getD (l, [])
  | .clear => ClearIgnores l

/-- The types of what the server says. -/
def types (code : U16) : List Target :=
  if code = IGNORE_LIST ∨ code = IGNORE_CLEAR then [.integer] else [.string]

/-- A list between two requests. -/
structure Sound (name : Text) (l : IgnoreList) : Prop where
  distinct : Distinct l.names
  carried : ∀ s ∈ l.names, Carries IGNORE_ADD [.string s]
  other : ∀ s ∈ l.names, strcasecmp name s ≠ 0

/-! ### What the client knows -/

/-- The list as a client knows it: the names it heard of and did not hear of being removed, the
entries of a listing that did not end yet, and whether all listings and counts agreed. -/
structure View where
  known : Finset (List U8)
  entries : List Text
  agrees : Bool

namespace View

def new : View := ⟨∅, [], true⟩

/-- A name is heard. -/
def followName (v : View) (code : U16) (s : Text) : View :=
  if code = IGNORE_ADD then { v with known := Insert.insert (lower s) v.known }
  else if code = IGNORE_REMOVE then { v with known := v.known.erase (lower s) }
  else if code = IGNORE_ENTRY then { v with entries := v.entries ++ [s] }
  else v

/-- A count is heard: the end of a listing, or how many names were removed. -/
def followSize (v : View) (code : U16) (n : I32) : View :=
  if code = IGNORE_LIST then
    { v with
      entries := []
      agrees := v.agrees && nameSet v.entries = v.known && n = Int32.ofNat v.entries.length }
  else if code = IGNORE_CLEAR then
    { v with known := ∅, agrees := v.agrees && n = Int32.ofNat v.known.card }
  else v

/-- One reply. -/
def follow (v : View) (x : Said) : View :=
  match x.args with
  | [.string s] => v.followName x.code s
  | [.integer n] => v.followSize x.code n
  | _ => v

end View

/-! ### The answers -/

lemma unpackName_of_yields {com : Command} {s : Text} (h : Yields com [.string s]) :
    unpackName com = some s := by
  have hargs : com.arguments [.string] = some [.string s] := h.arguments
  rw [unpackName, hargs]

lemma contains_iff {l : IgnoreList} {s : Text} :
    l.contains s = true ↔ ∃ i n, l.find s = some i ∧ l.names[i]? = some n ∧ lower n = lower s := by
  constructor
  · intro h
    obtain ⟨i, hi⟩ := Option.isSome_iff_exists.mp h
    obtain ⟨hlt, heq, -⟩ := List.findIdx?_eq_some_iff_getElem.mp hi
    exact ⟨i, _, hi, List.getElem?_eq_getElem hlt,
      strcasecmp_eq_zero_iff.mp (of_decide_eq_true heq)⟩
  · rintro ⟨i, n, hi, -, -⟩
    rw [IgnoreList.contains, hi]
    rfl

/-- What `addIgnore` makes of a list: a name that is neither in it nor the caller's is added. -/
lemma addIgnore_cases (name : Text) (l : IgnoreList) (s : Text) :
    addIgnore name l s = (l, [sayName IGNORE_UNKNOWN s]) ∨
    (l.contains s = false ∧ strcasecmp name s ≠ 0 ∧
      addIgnore name l s = ((l.insert s).update, [sayName IGNORE_ADD s])) := by
  rw [addIgnore]
  split_ifs with h
  · exact .inl rfl
  · rw [not_or, Bool.not_eq_true] at h
    exact .inr ⟨h.1, h.2, rfl⟩

/-- What `removeIgnore` makes of a list: the name is there, and is erased. -/
lemma removeIgnore_cases (l : IgnoreList) (s : Text) :
    removeIgnore l s = some (l, [sayName IGNORE_UNKNOWN s]) ∨
    ∃ l' n i, l.eraseName s = some l' ∧ l.find s = some i ∧ l.names[i]? = some n ∧
      lower n = lower s ∧ removeIgnore l s = some (l'.update, [sayName IGNORE_REMOVE s]) := by
  rw [removeIgnore]
  split_ifs with h
  · obtain ⟨i, n, hi, hn, heq⟩ := contains_iff.mp h
    have herase : l.eraseName s = some ⟨l.names.eraseIdx i, ⟨n, .REMOVE⟩ :: l.todo⟩ := by
      rw [IgnoreList.eraseName, hi]
      show (l.names[i]?).map _ = _
      rw [hn, Option.map_some]
    refine .inr ⟨_, n, i, herase, hi, hn, heq, ?_⟩
    rw [herase, Option.map_some]
  · exact .inl rfl

/-! ### The list between two requests -/

lemma sound_new (name : Text) : Sound name IgnoreList.new where
  distinct := List.nodup_nil
  carried := fun _ hs => absurd hs List.not_mem_nil
  other := fun _ hs => absurd hs List.not_mem_nil

namespace Sound

variable {name : Text} {l : IgnoreList}

lemma of_subset (h : Sound name l) {names : List Text} (hd : Distinct names)
    (hsub : names ⊆ l.names) : Sound name ⟨names, []⟩ where
  distinct := hd
  carried := fun s hs => h.carried s (hsub hs)
  other := fun s hs => h.other s (hsub hs)

lemma insert (h : Sound name l) {s : Text} (hs : Carries IGNORE_ADD [.string s])
    (hother : strcasecmp name s ≠ 0) : Sound name (l.insert s).update := by
  have hmem : ∀ n ∈ (l.insert s).names, n = s ∨ n ∈ l.names := by
    intro n hn
    rw [IgnoreList.insert, IgnoreList.insertAt] at hn
    split_ifs at hn
    · exact .inr hn
    · exact List.mem_cons.mp ((List.perm_insertIdx s l.names le_rfl).mem_iff.mp hn)
  refine ⟨(records_insertAt h.distinct s le_rfl).distinct, fun n hn => ?_, fun n hn => ?_⟩
  · rcases hmem n hn with rfl | hn
    · exact hs
    · exact h.carried n hn
  · rcases hmem n hn with rfl | hn
    · exact hother
    · exact h.other n hn

lemma erase (h : Sound name l) {l' : IgnoreList} {s : Text} (herase : l.eraseName s = some l') :
    Sound name l'.update := by
  refine h.of_subset (records_step (o := .eraseName s) h.distinct herase).distinct ?_
  rw [IgnoreList.eraseName] at herase
  cases hf : l.find s with
  | none =>
      rw [hf] at herase
      exact Option.some.inj herase ▸ List.Subset.refl _
  | some i =>
      rw [hf] at herase
      obtain ⟨n, -, rfl⟩ := Option.map_eq_some_iff.mp herase
      exact List.eraseIdx_subset

/-- **A request** leaves the list one between two requests. -/
lemma respond (h : Sound name l) (r : Request) : Sound name (respond name l r).1 := by
  cases r with
  | list => exact h
  | add s =>
      show Sound name (addIgnore name l s).1
      rcases addIgnore_cases name l s with heq | ⟨-, hother, heq⟩
      · rwa [heq]
      · rw [heq]
        exact h.insert s.property hother
  | remove s =>
      show Sound name ((removeIgnore l s).getD (l, [])).1
      rcases removeIgnore_cases l s with heq | ⟨l', n, i, herase, -, -, -, heq⟩
      · rwa [heq]
      · rw [heq]
        exact h.erase herase
  | clear => exact h.of_subset List.nodup_nil (List.nil_subset _)

end Sound

/-- What the client can unpack. -/
def Sayable (x : Said) : Prop := Carries x.code x.args ∧ x.args.map ArgData.target = types x.code

lemma sayable_name {code : U16} (h : code < f2CodeStart) (htypes : types code = [.string])
    {s : Text}
    (hs : Carries IGNORE_ADD [.string s]) : Sayable (sayName code s) :=
  ⟨carries_text (by decide) h hs, htypes.symm⟩

lemma sayable_size {code : U16} (h : code < f2CodeStart) (htypes : types code = [.integer])
    (names : List Text) : Sayable (saySize code names) :=
  ⟨carries_integer h _, htypes.symm⟩

/-- **Every reply** can be carried and unpacked. -/
lemma respond_sayable {name : Text} {l : IgnoreList} (h : Sound name l) (r : Request) :
    ∀ x ∈ (respond name l r).2, Sayable x := by
  have hunknown : ∀ s : Name, Sayable (sayName IGNORE_UNKNOWN s) :=
    fun s => sayable_name (by decide) rfl s.property
  cases r with
  | list =>
      refine List.forall_mem_append.mpr ⟨fun x hx => ?_, List.forall_mem_singleton.mpr ?_⟩
      · obtain ⟨s, hs, rfl⟩ := List.mem_map.mp hx
        exact sayable_name (by decide) rfl (h.carried s hs)
      · exact sayable_size (by decide) rfl _
  | add s =>
      show ∀ x ∈ (addIgnore name l s).2, Sayable x
      rcases addIgnore_cases name l s with heq | ⟨-, -, heq⟩
      · rw [heq]
        exact List.forall_mem_singleton.mpr (hunknown s)
      · rw [heq]
        exact List.forall_mem_singleton.mpr (sayable_name (by decide) rfl s.property)
  | remove s =>
      show ∀ x ∈ ((removeIgnore l s).getD (l, [])).2, Sayable x
      rcases removeIgnore_cases l s with heq | ⟨l', n, i, -, -, -, -, heq⟩
      · rw [heq]
        exact List.forall_mem_singleton.mpr (hunknown s)
      · rw [heq]
        exact List.forall_mem_singleton.mpr (sayable_name (by decide) rfl s.property)
  | clear => exact List.forall_mem_singleton.mpr (sayable_size (by decide) rfl _)

/-- **The handlers answer** as `respond` does. -/
lemma answers (name : Text) :
    Answers (dispatch name) Request.saying types (respond name) (Sound name) where
  keeps := fun _ r h => h.respond r
  carries := fun _ r h => respond_sayable h r
  handles := by
    intro l r com h hcode hyields
    cases r with
    | list => exact if_pos hcode
    | add s =>
        have hcode : com.code = IGNORE_ADD := hcode
        have hname : unpackName com = some s.val := unpackName_of_yields hyields
        rw [dispatch, hcode, if_neg (by decide), if_pos rfl, AddIgnore, hname]
        rfl
    | remove s =>
        have hcode : com.code = IGNORE_REMOVE := hcode
        have hname : unpackName com = some s.val := unpackName_of_yields hyields
        rw [dispatch, hcode, if_neg (by decide), if_neg (by decide), if_pos rfl,
          RemoveIgnore, hname,
          Option.bind_some, respond]
        rcases removeIgnore_cases l s with heq | ⟨l', n, i, -, -, -, -, heq⟩
        · rw [heq, Option.getD_some]
        · rw [heq, Option.getD_some]
    | clear =>
        have hcode : com.code = IGNORE_CLEAR := hcode
        rw [dispatch, hcode, if_neg (by decide), if_neg (by decide), if_neg (by decide), if_pos rfl]
        rfl

/-! ### What is known -/

/-- The client knows the list, and nothing that it heard was wrong. -/
structure Knows (l : IgnoreList) (v : View) : Prop where
  known : v.known = nameSet l.names
  agrees : v.agrees = true

/-- The client knows the list, and no listing is under way. -/
structure Mirrored (name : Text) (l : IgnoreList) (v : View) : Prop extends Knows l v where
  sound : Sound name l
  entries : v.entries = []

lemma foldl_entries (v : View) (names : List Text) :
    (names.map (sayName IGNORE_ENTRY)).foldl View.follow v
      = { v with entries := v.entries ++ names } := by
  induction names generalizing v with
  | nil => rw [List.map_nil, List.foldl_nil, List.append_nil]
  | cons s names ih =>
      have hone : v.follow (sayName IGNORE_ENTRY s) = { v with entries := v.entries ++ [s] } := rfl
      rw [List.map_cons, List.foldl_cons, hone, ih, List.append_assoc]
      rfl

lemma card_nameSet {names : List Text} (h : Distinct names) :
    (nameSet names).card = names.length := by
  rw [nameSet, List.toFinset_card_of_nodup h, List.length_map]

namespace Mirrored

variable {name : Text} {l : IgnoreList} {v : View}

/-- **All replies to a request** are heard. -/
lemma respond (h : Mirrored name l v) (r : Request) :
    Mirrored name (respond name l r).1 ((respond name l r).2.foldl View.follow v) := by
  have hsound := h.sound.respond r
  cases r with
  | list =>
      have hlast : (ListIgnores l).2.foldl View.follow v
          = { v with
              entries := []
              agrees := v.agrees && nameSet l.names = v.known
                && Int32.ofNat l.names.length = Int32.ofNat l.names.length } := by
        rw [ListIgnores, List.foldl_append, foldl_entries, h.entries, List.nil_append]
        rfl
      show Mirrored name l ((ListIgnores l).2.foldl View.follow v)
      rw [hlast]
      refine ⟨⟨h.known, ?_⟩, h.sound, rfl⟩
      show (v.agrees && decide (nameSet l.names = v.known) && decide _) = true
      rw [h.agrees, h.known, decide_eq_true rfl, decide_eq_true rfl]
      rfl
  | add s =>
      revert hsound
      show Sound name (addIgnore name l s).1 → Mirrored name (addIgnore name l s).1
        ((addIgnore name l s).2.foldl View.follow v)
      rcases addIgnore_cases name l s with heq | ⟨hnew, -, heq⟩
      · rw [heq]
        exact fun _ => h
      · rw [heq]
        intro hsound
        refine ⟨⟨?_, h.agrees⟩, hsound, h.entries⟩
        have hrec := (records_insertAt h.sound.distinct s.val (le_refl l.names.length)).replay
        rw [hnew, if_neg Bool.false_ne_true] at hrec
        calc Insert.insert (lower s.val) v.known
            = Insert.insert (lower s.val) (nameSet l.names) := by rw [h.known]
          _ = nameSet (l.insert s).update.names := hrec.symm
  | remove s =>
      revert hsound
      show Sound name ((removeIgnore l s).getD (l, [])).1 →
        Mirrored name ((removeIgnore l s).getD (l, [])).1
          (((removeIgnore l s).getD (l, [])).2.foldl View.follow v)
      rcases removeIgnore_cases l s with heq | ⟨l', n, i, herase, hfind, hn, hlower, heq⟩
      · rw [heq]
        exact fun _ => h
      · rw [heq]
        intro hsound
        refine ⟨⟨?_, h.agrees⟩, hsound, h.entries⟩
        have hrec := (records_step (o := .eraseName s.val) h.sound.distinct herase).replay
        rw [changes, hfind, Option.bind_some, hn] at hrec
        calc v.known.erase (lower s.val)
            = (nameSet l.names).erase (lower n) := by rw [h.known, hlower]
          _ = nameSet l'.update.names := hrec.symm
  | clear =>
      refine ⟨⟨rfl, ?_⟩, hsound, h.entries⟩
      show (v.agrees && decide (Int32.ofNat l.names.length = Int32.ofNat v.known.card)) = true
      rw [h.agrees, h.known, card_nameSet h.sound.distinct, decide_eq_true rfl]
      rfl

/-- **A part of the replies to a request** is heard: the client knows the list before the request
or behind it. -/
lemma respond_part (h : Mirrored name l v) (r : Request) {pre : List Said}
    (hpre : pre <+: (Ignore.respond name l r).2) :
    Knows l (pre.foldl View.follow v) ∨
      Knows (Ignore.respond name l r).1 (pre.foldl View.follow v) := by
  obtain ⟨front, last, hlast, hfront⟩ : ∃ front last,
      (Ignore.respond name l r).2 = front ++ [last] ∧
      ∀ pre, pre <+: front → Knows l (pre.foldl View.follow v) := by
    have hnil : ∀ pre : List Said, pre <+: [] → Knows l (pre.foldl View.follow v) := by
      intro pre hpre
      rw [List.prefix_nil.mp hpre]
      exact h.toKnows
    cases r with
    | list =>
        refine ⟨_, _, rfl, fun pre hpre => ?_⟩
        obtain ⟨names, -, rfl⟩ := List.prefix_map_iff.mp hpre
        rw [foldl_entries]
        exact ⟨h.known, h.agrees⟩
    | add s =>
        rw [Ignore.respond]
        rcases addIgnore_cases name l s with heq | ⟨-, -, heq⟩
        · exact ⟨[], _, by rw [heq]; rfl, hnil⟩
        · exact ⟨[], _, by rw [heq]; rfl, hnil⟩
    | remove s =>
        rw [Ignore.respond]
        rcases removeIgnore_cases l s with heq | ⟨l', n, i, -, -, -, -, heq⟩
        · exact ⟨[], _, by rw [heq]; rfl, hnil⟩
        · exact ⟨[], _, by rw [heq]; rfl, hnil⟩
    | clear => exact ⟨[], _, rfl, hnil⟩
  rw [hlast] at hpre
  rcases List.prefix_concat_iff.mp hpre with rfl | hpre
  · rw [← hlast]
    exact .inr (h.respond r).toKnows
  · exact .inl (hfront pre hpre)

end Mirrored

lemma mirrors (name : Text) :
    Transducer.Mirrors (respond name) View.follow (Mirrored name) Knows where
  part := fun _ r _ h _ hpre => h.respond_part r hpre
  whole := fun _ r _ h => h.respond r
  loose := fun _ _ h => h.toKnows

/-- The list behind some requests. -/
def after (name : Text) (rs : List Request) : IgnoreList :=
  (Transducer.run (respond name) IgnoreList.new rs).1

/-- **What a client knows of its list.** Over every run of a client that gives commands for its
ignore list and of the server that serves it, however the kernel cuts and delays what they write:
no call and no handler faults, the server has the list behind the requests that it has read, what
the client has heard makes it know the list behind some of them, every listing and every count
agreed, and if nothing is outstanding it knows the list as it is. -/
theorem ignores_known (name : Text) (es : List (Event Request)) :
    ∃ s said,
      Runs.run (Service.step (dispatch name) Request.saying) (start IgnoreList.new) es = some s ∧
      s.state = after name ((asked es).take (s.link.read .right).length) ∧
      heard types s = some said ∧
      (∃ k ≤ (s.link.read .right).length,
        Knows (after name ((asked es).take k)) (said.foldl View.follow View.new)) ∧
      (CaughtUp s → Knows s.state (said.foldl View.follow View.new)) := by
  have hstart : Mirrored name IgnoreList.new View.new := ⟨⟨rfl, rfl⟩, sound_new name, rfl⟩
  obtain ⟨s, hrun, hinv⟩ := run_inv (answers name) (sound_new name) es
  obtain ⟨said, hheard, hpre, hall⟩ := hinv.heard (answers name) (sound_new name)
  refine ⟨s, said, hrun, hinv.state, hheard, ?_, fun hset => ?_⟩
  · obtain ⟨k, hk, hknows⟩ := (mirrors name).exists_take hstart hpre
    have hle : k ≤ (s.link.read .right).length := by
      rw [List.length_take] at hk
      exact hk.trans (Nat.min_le_left _ _)
    rw [List.take_take, Nat.min_eq_left hle] at hknows
    exact ⟨k, hle, hknows⟩
  · obtain ⟨rfl, hstate⟩ := hall hset
    rw [hstate]
    exact ((mirrors name).all hstart _).toKnows

end Napd.Ignore
