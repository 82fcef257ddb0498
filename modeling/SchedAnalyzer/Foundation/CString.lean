import Mathlib.Algebra.Group.Int.Defs
import Mathlib.Algebra.Group.Nat.Defs
import Mathlib.Data.List.Infix
import Mathlib.Data.List.TakeWhile

/-! # C strings and decimal numerals

A `char` array is a list of characters and the string it holds is the part
before its first NUL. The functions of the C library used on such arrays are
given by what they store, so that a bound on a buffer is a `take`.
-/

namespace Foundation.CString

/-- The character that ends a C string. -/
def nul : Char := Char.ofNat 0

/-- The string held by a `char` array. -/
def cstr (array : List Char) : List Char :=
  array.takeWhile (fun c => c != nul)

theorem nul_notMem_cstr (array : List Char) : nul ∉ cstr array := by
  intro hmem
  have htrue := List.mem_takeWhile_imp hmem
  simp at htrue

theorem cstr_of_notMem {array : List Char} (hnul : nul ∉ array) : cstr array = array := by
  rw [cstr, List.takeWhile_eq_self_iff]
  intro c hc
  simp only [bne_iff_ne, ne_eq]
  rintro rfl
  exact hnul hc

/-- Whatever follows the NUL of a string is never read. -/
theorem cstr_append_nul {text : List Char} (hnul : nul ∉ text) (rest : List Char) :
    cstr (text ++ nul :: rest) = text := by
  rw [cstr, List.takeWhile_append_of_pos]
  · simp
  · intro c hc
    simp only [bne_iff_ne, ne_eq]
    rintro rfl
    exact hnul hc

theorem nul_notMem_take {text : List Char} (hnul : nul ∉ text) (count : Nat) :
    nul ∉ text.take count :=
  fun hmem => hnul (List.mem_of_mem_take hmem)

/-- `strncpy(dst, src, count)`: at most `count` characters, padded with NULs. -/
def strncpy (dst src : List Char) (count : Nat) : List Char :=
  (cstr src).take count ++ List.replicate (count - (cstr src).length) nul ++ dst.drop count

/-- A bounded copy and a NUL after it hold the first characters of the source. -/
theorem cstr_strncpy_terminated (dst src : List Char) (count : Nat) :
    cstr ((strncpy dst src count).take count ++ [nul]) = (cstr src).take count := by
  have hnul := nul_notMem_take (nul_notMem_cstr src) count
  by_cases hfits : (cstr src).length < count
  · obtain ⟨gap, hgap⟩ := Nat.exists_eq_add_of_lt hfits
    have hpad : count - (cstr src).length = gap + 1 := by omega
    rw [strncpy, List.take_left' (by simp; omega), hpad, List.replicate_succ, List.append_assoc,
      List.cons_append]
    exact cstr_append_nul hnul _
  · have hpad : count - (cstr src).length = 0 := by omega
    rw [strncpy, List.take_left' (by simp; omega), hpad, List.replicate_zero, List.append_nil]
    exact cstr_append_nul hnul _

/-- A bounded string read: at most `size - 1` characters, then a NUL. The rest
of the destination keeps what it held. -/
def readStr (dst src : List Char) (size : Nat) : List Char :=
  (cstr src).take (size - 1) ++ nul :: dst.drop (((cstr src).take (size - 1)).length + 1)

@[simp] theorem cstr_readStr (dst src : List Char) (size : Nat) :
    cstr (readStr dst src size) = (cstr src).take (size - 1) :=
  cstr_append_nul (nul_notMem_take (nul_notMem_cstr src) _) _

/-- `snprintf(buffer, size, ...)` keeps the first `size - 1` characters. -/
def snprintf (size : Nat) (text : List Char) : List Char :=
  text.take (size - 1)

/-- Truncation keeps a head that leaves room for one more character. -/
theorem snprintf_append_cons {size : Nat} {head : List Char} (hroom : head.length + 1 < size)
    (c : Char) (rest : List Char) :
    snprintf size (head ++ c :: rest) = head ++ c :: rest.take (size - 2 - head.length) := by
  have hsplit : size - 1 - head.length = (size - 2 - head.length) + 1 := by omega
  rw [snprintf, List.take_append, hsplit, List.take_succ_cons,
    List.take_of_length_le (by omega)]

/-- `strstr(haystack, needle) != NULL`. -/
def strstr (haystack needle : List Char) : Bool :=
  decide (cstr needle <:+: cstr haystack)

@[simp] theorem strstr_iff (haystack needle : List Char) :
    strstr haystack needle = true ↔ cstr needle <:+: cstr haystack := by
  simp [strstr]

/-! ## Decimal numerals -/

/-- The text of `%u`. -/
def formatNat (n : Nat) : List Char :=
  Nat.toDigits 10 n

/-- The text of `%d`. -/
def formatInt : Int → List Char
  | .ofNat n => formatNat n
  | .negSucc n => '-' :: formatNat (n + 1)

theorem isDigit_of_mem_formatNat {n : Nat} {c : Char} (hc : c ∈ formatNat n) : c.isDigit :=
  Nat.isDigit_of_mem_toDigits (by decide) (by decide) hc

theorem formatNat_ne_nil (n : Nat) : formatNat n ≠ [] :=
  Nat.toDigits_ne_nil

theorem formatInt_ne_nil (i : Int) : formatInt i ≠ [] := by
  cases i with
  | ofNat n => exact formatNat_ne_nil n
  | negSucc n => exact List.cons_ne_nil _ _

theorem formatNat_injective : Function.Injective formatNat := by
  intro a b heq
  have hdigits := congrArg (fun digits => Nat.ofDigitChars 10 digits 0) heq
  simpa [formatNat] using hdigits

theorem formatNat_length_le {n k : Nat} (hk : 0 < k) (hn : n < 10 ^ k) :
    (formatNat n).length ≤ k :=
  (Nat.length_toDigits_le_iff (by decide) hk).mpr hn

theorem notMem_formatNat {n : Nat} {c : Char} (hc : c.isDigit = false) : c ∉ formatNat n := by
  intro hmem
  rw [isDigit_of_mem_formatNat hmem] at hc
  exact Bool.noConfusion hc

theorem notMem_formatInt {i : Int} {c : Char} (hdigit : c.isDigit = false) (hminus : c ≠ '-') :
    c ∉ formatInt i := by
  cases i with
  | ofNat n => exact notMem_formatNat hdigit
  | negSucc n =>
      simp only [formatInt, List.mem_cons, not_or]
      exact ⟨hminus, notMem_formatNat hdigit⟩

theorem formatInt_injective : Function.Injective formatInt := by
  intro i j heq
  -- A minus is no digit, so the signs agree.
  cases i with
  | ofNat m =>
      cases j with
      | ofNat n => exact congrArg Int.ofNat (formatNat_injective heq)
      | negSucc n =>
          have hminus : '-' ∈ formatNat m :=
            (show formatNat m = '-' :: formatNat (n + 1) from heq) ▸ List.mem_cons_self
          exact absurd hminus (notMem_formatNat (by decide))
  | negSucc m =>
      cases j with
      | ofNat n =>
          have hminus : '-' ∈ formatNat n :=
            (show '-' :: formatNat (m + 1) = formatNat n from heq) ▸ List.mem_cons_self
          exact absurd hminus (notMem_formatNat (by decide))
      | negSucc n =>
          have hdigits := formatNat_injective (List.tail_eq_of_cons_eq heq)
          rw [Nat.succ.inj hdigits]

@[simp] theorem formatInt_natCast (n : Nat) : formatInt n = formatNat n := rfl

/-- A 32-bit `int` takes at most eleven characters. -/
theorem formatInt_length_le {i : Int} (hlo : -2 ^ 31 ≤ i) (hhi : i < 2 ^ 31) :
    (formatInt i).length ≤ 11 := by
  cases i with
  | ofNat n =>
      have hlen : (formatNat n).length ≤ 10 := formatNat_length_le (by decide) (by
        have : (n : Int) < 2 ^ 31 := hhi
        omega)
      simp only [formatInt]
      omega
  | negSucc n =>
      have hlen : (formatNat (n + 1)).length ≤ 10 :=
        formatNat_length_le (by decide) (by omega)
      simp only [formatInt, List.length_cons]
      omega

end Foundation.CString
