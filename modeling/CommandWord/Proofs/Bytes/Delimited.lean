import CommandWord.Codec.Fingerprint
import Mathlib.Algebra.Order.Ring.Nat

/-!
Streams of bytes without gaps. A value can be read off the front of a stream when the bytes that
are written for it show where they end. Numbers of a fixed size do so, and so do lists whose
length is known and texts with a mark behind them; the list at the end of a stream needs neither.
-/

namespace CommandWord

/-- Streams that begin with valid values and agree begin with the same value and go on with the
same bytes. -/
def Delimited {α : Type} (write : α → List UInt8) (valid : α → Prop) : Prop :=
  ∀ ⦃first second : α⦄, valid first → valid second → ∀ ⦃rest others : List UInt8⦄,
    write first ++ rest = write second ++ others → first = second ∧ rest = others

namespace Delimited

variable {α : Type} {write : α → List UInt8} {valid : α → Prop} {first second : List α}

/-- A list of known length ends behind its last value. -/
theorem flatMap_append (hwrite : Delimited write valid) (hfirst : ∀ value ∈ first, valid value)
    (hsecond : ∀ value ∈ second, valid value) (hlength : first.length = second.length)
    {rest others : List UInt8}
    (heq : first.flatMap write ++ rest = second.flatMap write ++ others) :
    first = second ∧ rest = others := by
  induction first generalizing second with
  | nil =>
    obtain rfl := List.length_eq_zero_iff.mp hlength.symm
    exact ⟨rfl, heq⟩
  | cons value values ih =>
    cases second with
    | nil => simp at hlength
    | cons other followers =>
      rw [List.flatMap_cons, List.flatMap_cons, List.append_assoc, List.append_assoc] at heq
      rw [List.forall_mem_cons] at hfirst hsecond
      obtain ⟨rfl, hvalues⟩ := hwrite hfirst.1 hsecond.1 heq
      obtain ⟨rfl, hrest⟩ := ih hfirst.2 hsecond.2 (by simpa using hlength) hvalues
      exact ⟨rfl, hrest⟩

/-- A list at the end of a stream ends with it, provided that every value leaves a trace. -/
theorem flatMap_injective (hwrite : Delimited write valid) (htrace : ∀ value, write value ≠ [])
    (hfirst : ∀ value ∈ first, valid value) (hsecond : ∀ value ∈ second, valid value)
    (heq : first.flatMap write = second.flatMap write) : first = second := by
  induction first generalizing second with
  | nil =>
    cases second with
    | nil => rfl
    | cons other others =>
      rw [List.flatMap_nil, List.flatMap_cons, eq_comm, List.append_eq_nil_iff] at heq
      exact absurd heq.1 (htrace other)
  | cons value values ih =>
    cases second with
    | nil =>
      rw [List.flatMap_nil, List.flatMap_cons, List.append_eq_nil_iff] at heq
      exact absurd heq.1 (htrace value)
    | cons other others =>
      rw [List.flatMap_cons, List.flatMap_cons] at heq
      rw [List.forall_mem_cons] at hfirst hsecond
      obtain ⟨rfl, hvalues⟩ := hwrite hfirst.1 hsecond.1 heq
      rw [ih hfirst.2 hsecond.2 hvalues]

end Delimited

/-! ### Numbers -/

theorem length_littleEndian (count number : Nat) : (littleEndian count number).length = count := by
  induction count generalizing number with
  | zero => rfl
  | succ count ih => rw [littleEndian, List.length_cons, ih]

theorem littleEndian_injective {count first second : Nat} (hfirst : first < 2 ^ (8 * count))
    (hsecond : second < 2 ^ (8 * count))
    (heq : littleEndian count first = littleEndian count second) : first = second := by
  induction count generalizing first second with
  | zero => omega
  | succ count ih =>
    rw [Nat.mul_succ, Nat.pow_add] at hfirst hsecond
    obtain ⟨hbyte, hrest⟩ := List.cons.inj heq
    have hlow : first % 256 = second % 256 := by
      simpa [← UInt8.toNat_inj, UInt8.toNat_ofNat'] using hbyte
    have hhigh : first / 256 = second / 256 :=
      ih (Nat.div_lt_of_lt_mul (by omega)) (Nat.div_lt_of_lt_mul (by omega)) hrest
    omega

/-- A number of a fixed size ends behind its last byte. -/
theorem delimited_littleEndian (count : Nat) :
    Delimited (littleEndian count) fun number => number < 2 ^ (8 * count) := by
  intro first second hfirst hsecond rest others heq
  have hlength : (littleEndian count first).length = (littleEndian count second).length := by
    rw [length_littleEndian, length_littleEndian]
  obtain ⟨hnumber, hrest⟩ := List.append_inj heq hlength
  exact ⟨littleEndian_injective hfirst hsecond hnumber, hrest⟩

/-! ### Texts -/

/-- The first mark ends what stands in front of it. -/
theorem append_mark_inj {α : Type} {mark : α} {first second rest others : List α}
    (hfirst : mark ∉ first) (hsecond : mark ∉ second)
    (heq : first ++ mark :: rest = second ++ mark :: others) : first = second ∧ rest = others := by
  rcases List.append_eq_append_iff.mp heq with ⟨between, rfl, htail⟩ | ⟨between, rfl, htail⟩
  · cases between with
    | nil => simpa using htail
    | cons next _ =>
      obtain ⟨rfl, -⟩ := List.cons.inj htail
      simp at hsecond
  · cases between with
    | nil => simpa [eq_comm] using htail
    | cons next _ =>
      obtain ⟨rfl, -⟩ := List.cons.inj htail
      simp at hfirst

/-- Only the character zero is written with a zero byte: every byte of a longer sequence has its
highest bit set. -/
theorem zero_notMem_utf8EncodeChar {c : Char} (hc : c ≠ '\x00') : 0 ∉ String.utf8EncodeChar c := by
  have hcode : c.val.toNat ≠ 0 := by
    intro hzero
    exact hc (Char.ext (UInt32.toNat_inj.mp hzero))
  simp only [String.utf8EncodeChar]
  generalize c.val.toNat = code at hcode ⊢
  split_ifs <;> simp [← UInt8.toNat_inj, UInt8.toNat_ofNat'] <;> omega

theorem utf8_eq_flatMap (text : String) :
    text.toUTF8.data.toList = text.toList.flatMap String.utf8EncodeChar := by
  rw [String.toUTF8, ← String.utf8Encode_toList, List.utf8Encode, List.data_toByteArray]

/-- A text without the character zero ends in front of the first zero byte. -/
theorem utf8_append_zero_inj {first second : String} (hfirst : '\x00' ∉ first.toList)
    (hsecond : '\x00' ∉ second.toList) {rest others : List UInt8}
    (heq : first.toUTF8.data.toList ++ 0 :: rest = second.toUTF8.data.toList ++ 0 :: others) :
    first = second ∧ rest = others := by
  have hmark : ∀ text : String, '\x00' ∉ text.toList → 0 ∉ text.toUTF8.data.toList := by
    intro text htext
    rw [utf8_eq_flatMap, List.mem_flatMap]
    rintro ⟨c, hc, hzero⟩
    exact zero_notMem_utf8EncodeChar (fun heq => htext (heq ▸ hc)) hzero
  obtain ⟨htext, hrest⟩ := append_mark_inj (hmark first hfirst) (hmark second hsecond) heq
  exact ⟨String.toByteArray_inj.mp (ByteArray.ext (Array.toList_inj.mp htext)), hrest⟩

end CommandWord
