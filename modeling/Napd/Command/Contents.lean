import Napd.Command.Flushes

/-!
What of the previous contents of its memory a binary message shows.

* `encoding_byte`: behind the records stands what the allocator left, where the 16-bit size
  reaches that far.
* `encoding_contents_iff`: the contents do not show where there are no arguments, and where
  the size wraps and cuts the message within its records; everywhere else they do.
-/

namespace Napd

namespace Command

open Memory

/-- The byte behind the records is the allocator's, where the size covers it. -/
lemma encoding_byte {code : U16} (hcode : ¬ code < f2CodeStart) {args : List ArgData}
    (hargs : args ≠ []) (hfit : reservation args ≤ 65535) (k : U8) :
    ∃ bytes, encoding (pack ⟨1, one_ne_zero, fun _ => k⟩ (new code) args)
        = some (UInt16.ofNat (reservation args), bytes) ∧
      bytes[((args.map arg).flatMap argRecord).length]? = some k := by
  obtain ⟨hlen, h8⟩ := records_length args
  have hpos := List.length_pos_iff.mpr hargs
  refine ⟨_, encoding_fresh ⟨1, one_ne_zero, fun _ => k⟩ hcode args, ?_⟩
  rw [List.getElem?_take_of_lt (by omega), List.getElem?_append_right (le_refl _),
    Nat.sub_self, List.getElem?_drop, Nat.add_zero, getElem?_block _ (Nat.zero_le _) (by omega)]

/-- **The previous contents** of its memory do not show in a binary message exactly where it
has no arguments, or so many that the 16-bit size ends within their records. -/
theorem encoding_contents_iff (code : U16) (hcode : f2CodeStart ≤ code) (args : List ArgData) :
    (∀ (addr : ℕ) (addr_ne : addr ≠ 0) (m m' : ℕ → U8),
      encoding (pack ⟨addr, addr_ne, m⟩ (new code) args)
        = encoding (pack ⟨addr, addr_ne, m'⟩ (new code) args)) ↔
      args = [] ∨ 65535 < reservation args := by
  have hbin : ¬ code < f2CodeStart := UInt16.not_lt.mpr hcode
  constructor
  · intro hall
    by_contra hnot
    rw [not_or, not_lt] at hnot
    obtain ⟨hargs, hfit⟩ := hnot
    obtain ⟨bytes, henc, hk⟩ := encoding_byte hbin hargs hfit 0
    obtain ⟨bytes', henc', hk'⟩ := encoding_byte hbin hargs hfit 1
    have heq := hall 1 one_ne_zero (fun _ => 0) (fun _ => 1)
    rw [henc, henc', Option.some.injEq, Prod.mk.injEq] at heq
    rw [heq.2, hk', Option.some.injEq] at hk
    exact absurd hk (by decide)
  · intro hcond addr addr_ne m m'
    obtain ⟨hlen, h8⟩ := records_length args
    have hcut : reservation args % 65536 ≤ ((args.map arg).flatMap argRecord).length := by
      rcases hcond with rfl | hwrap
      · exact Nat.zero_le _
      · omega
    rw [encoding_cut _ hbin hcut, encoding_cut _ hbin hcut]

/-- A number and a string leave eight bytes to the allocator. -/
theorem encoding_contents_two :
    ¬ ∀ (addr : ℕ) (addr_ne : addr ≠ 0) (m m' : ℕ → U8),
      encoding (pack ⟨addr, addr_ne, m⟩ (new 10001)
            [.integer 23, .string ⟨[98, 111, 98], by decide⟩])
        = encoding (pack ⟨addr, addr_ne, m'⟩ (new 10001)
            [.integer 23, .string ⟨[98, 111, 98], by decide⟩]) := by
  rw [encoding_contents_iff 10001 (by decide)]
  decide

/-- One number, packed into zeros and into ones: four bytes of the block are sent with it. -/
theorem encoding_contents_ne :
    encoding (pack ⟨8, by decide, fun _ => 0⟩ (new 10000) [.integer 1])
      ≠ encoding (pack ⟨8, by decide, fun _ => 1⟩ (new 10000) [.integer 1]) := by
  decide

end Command

end Napd
