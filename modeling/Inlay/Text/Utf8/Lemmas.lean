import Inlay.Text.Utf8

/-!
# Reading and writing UTF-8

The form of each character is read back as that character, whatever stands before and behind it. Only these
forms are read.

* `decodeFrom_begin`, `decodeFrom_middle`, `decodeFrom_last` — one step of reading, by what is open.
* `begin?_two`, `begin?_three`, `begin?_four` — what a first byte begins, told by its number.
* `encodeChar_one`, `encodeChar_two`, `encodeChar_three`, `encodeChar_four` — the forms, by their length.

Main statements: `decodeFrom_encodeChar` and `exists_of_decodeFrom` (one character), `decode_encode` (a text that
is written and read again is the same) and `encode_of_decode` (so are bytes that are read and written again).
-/

namespace Inlay.Utf8

theorem decodeFrom_begin {i : Nat} {b : UInt8} {f : Begun} (hb : 0x80 ≤ b) (h : begin? i b = some f)
    (done : Text) (rest : Bytes) :
    decodeFrom i none done (b :: rest) = decodeFrom (i + 1) (some f) done rest := by
  have hb' : ¬ b < 0x80 := by
    rw [UInt8.lt_iff_toNat_lt]
    exact Nat.not_lt.mpr (UInt8.le_iff_toNat_le.mp hb)
  simp only [decodeFrom, hb', if_false, h]

theorem decodeFrom_middle {i : Nat} {b : UInt8} {f : Begun} (h : f.low ≤ b ∧ b ≤ f.high)
    (hm : f.missing ≠ 1) (done : Text) (rest : Bytes) :
    decodeFrom i (some f) done (b :: rest) =
      decodeFrom (i + 1) (some ⟨f.start, f.byte, f.missing - 1, 0x80, 0xBF,
        f.number * 64 + (b.toNat - 0x80)⟩) done rest := by
  simp only [decodeFrom, h, and_self, if_true, hm, if_false]

theorem decodeFrom_last {i : Nat} {b : UInt8} {f : Begun} (h : f.low ≤ b ∧ b ≤ f.high)
    (hm : f.missing = 1) (done : Text) (rest : Bytes) :
    decodeFrom i (some f) done (b :: rest) =
      decodeFrom (i + 1) none (Char.ofNat (f.number * 64 + (b.toNat - 0x80)) :: done) rest := by
  simp only [decodeFrom, h, and_self, if_true, hm]

theorem toNat_ofNat_of_lt {n : Nat} (h : n < 256) : (UInt8.ofNat n).toNat = n := by
  simp [UInt8.toNat_ofNat', Nat.mod_eq_of_lt h]

/-- A byte between two numbers, told by the numbers. -/
theorem le_ofNat_le {low high : UInt8} {n : Nat} (h : low.toNat ≤ n ∧ n ≤ high.toNat) :
    low ≤ UInt8.ofNat n ∧ UInt8.ofNat n ≤ high := by
  have := high.toNat_lt
  rw [UInt8.le_iff_toNat_le, UInt8.le_iff_toNat_le, toNat_ofNat_of_lt (by omega)]
  exact h

/-- A byte that is not ASCII, told by its number. -/
theorem le_ofNat {n : Nat} (h : 0x80 ≤ n ∧ n < 256) : 0x80 ≤ UInt8.ofNat n := by
  rw [UInt8.le_iff_toNat_le, toNat_ofNat_of_lt h.2]
  exact h.1

theorem begin?_two {i n : Nat} (h : 0xC2 ≤ n ∧ n < 0xE0) :
    begin? i (UInt8.ofNat n) = some ⟨i, UInt8.ofNat n, 1, 0x80, 0xBF, n - 0xC0⟩ := by
  have hb := toNat_ofNat_of_lt (n := n) (by omega)
  have h1 : ¬ UInt8.ofNat n < 0xC2 := by rw [UInt8.lt_iff_toNat_lt, hb]; simpa using h.1
  have h2 : UInt8.ofNat n < 0xE0 := by rw [UInt8.lt_iff_toNat_lt, hb]; simpa using h.2
  simp only [begin?, h1, h2, if_false, if_true, hb]

theorem begin?_three {i n : Nat} (h : 0xE0 ≤ n ∧ n < 0xF0) :
    begin? i (UInt8.ofNat n) = some ⟨i, UInt8.ofNat n, 2, if n = 0xE0 then 0xA0 else 0x80,
      if n = 0xED then 0x9F else 0xBF, n - 0xE0⟩ := by
  have hb := toNat_ofNat_of_lt (n := n) (by omega)
  have h1 : ¬ UInt8.ofNat n < 0xC2 := by rw [UInt8.lt_iff_toNat_lt, hb]; simp; omega
  have h2 : ¬ UInt8.ofNat n < 0xE0 := by rw [UInt8.lt_iff_toNat_lt, hb]; simpa using h.1
  have h3 : UInt8.ofNat n < 0xF0 := by rw [UInt8.lt_iff_toNat_lt, hb]; simpa using h.2
  have e1 : (UInt8.ofNat n = 0xE0) = (n = 0xE0) := by rw [← UInt8.toNat_inj, hb]; rfl
  have e2 : (UInt8.ofNat n = 0xED) = (n = 0xED) := by rw [← UInt8.toNat_inj, hb]; rfl
  simp only [begin?, h1, h2, h3, if_false, if_true, hb, e1, e2]

theorem begin?_four {i n : Nat} (h : 0xF0 ≤ n ∧ n < 0xF5) :
    begin? i (UInt8.ofNat n) = some ⟨i, UInt8.ofNat n, 3, if n = 0xF0 then 0x90 else 0x80,
      if n = 0xF4 then 0x8F else 0xBF, n - 0xF0⟩ := by
  have hb := toNat_ofNat_of_lt (n := n) (by omega)
  have h1 : ¬ UInt8.ofNat n < 0xC2 := by rw [UInt8.lt_iff_toNat_lt, hb]; simp; omega
  have h2 : ¬ UInt8.ofNat n < 0xE0 := by rw [UInt8.lt_iff_toNat_lt, hb]; simp; omega
  have h3 : ¬ UInt8.ofNat n < 0xF0 := by rw [UInt8.lt_iff_toNat_lt, hb]; simpa using h.1
  have h4 : UInt8.ofNat n < 0xF5 := by rw [UInt8.lt_iff_toNat_lt, hb]; simpa using h.2
  have e1 : (UInt8.ofNat n = 0xF0) = (n = 0xF0) := by rw [← UInt8.toNat_inj, hb]; rfl
  have e2 : (UInt8.ofNat n = 0xF4) = (n = 0xF4) := by rw [← UInt8.toNat_inj, hb]; rfl
  simp only [begin?, h1, h2, h3, h4, if_false, if_true, hb, e1, e2]

theorem decodeFrom_encodeChar (i : Nat) (done : Text) (c : Char) (rest : Bytes) :
    decodeFrom i none done (String.utf8EncodeChar c ++ rest) =
      decodeFrom (i + (String.utf8EncodeChar c).length) none (c :: done) rest := by
  have hv : c.toNat < 0xD800 ∨ (0xDFFF < c.toNat ∧ c.toNat < 0x110000) := c.valid
  have hn : c.val.toNat = c.toNat := rfl
  unfold String.utf8EncodeChar
  rw [hn]
  generalize hc : c.toNat = n at *
  have back : ∀ m, m = n → Char.ofNat m = c := fun m hm => by
    rw [hm, ← hc]; exact Char.ofNat_toNat c
  dsimp only
  split
  · next h =>
    have hb := toNat_ofNat_of_lt (n := n) (by omega)
    have h1 : UInt8.ofNat n < 0x80 := by
      rw [UInt8.lt_iff_toNat_lt, hb]; simpa using Nat.lt_succ_of_le h
    simp only [List.cons_append, List.nil_append, decodeFrom, h1, if_true, List.length_singleton, hb]
    rw [back n rfl]
  · split
    · next h1 h2 =>
      have hb2 := toNat_ofNat_of_lt (n := n % 64 + 128) (by omega)
      simp only [List.cons_append, List.nil_append]
      rw [decodeFrom_begin (le_ofNat (by omega)) (begin?_two (by omega)),
        decodeFrom_last (le_ofNat_le (by simp; omega)) rfl, hb2]
      simp only
      rw [back _ (by omega)]; rfl
    · split
      · next h1 h2 h3 =>
        have hb2 := toNat_ofNat_of_lt (n := n / 64 % 64 + 128) (by omega)
        have hb3 := toNat_ofNat_of_lt (n := n % 64 + 128) (by omega)
        simp only [List.cons_append, List.nil_append]
        rw [decodeFrom_begin (le_ofNat (by omega)) (begin?_three (by omega)),
          decodeFrom_middle (le_ofNat_le (by
            constructor <;> (dsimp only; split <;> simp <;> omega))) (by simp),
          decodeFrom_last (le_ofNat_le (by simp; omega)) rfl, hb2, hb3]
        simp only
        rw [back _ (by omega)]; rfl
      · next h1 h2 h3 =>
        have hb2 := toNat_ofNat_of_lt (n := n / 4096 % 64 + 128) (by omega)
        have hb3 := toNat_ofNat_of_lt (n := n / 64 % 64 + 128) (by omega)
        have hb4 := toNat_ofNat_of_lt (n := n % 64 + 128) (by omega)
        simp only [List.cons_append, List.nil_append]
        rw [decodeFrom_begin (le_ofNat (by omega)) (begin?_four (by omega)),
          decodeFrom_middle (le_ofNat_le (by
            constructor <;> (dsimp only; split <;> simp <;> omega))) (by simp),
          decodeFrom_middle (le_ofNat_le (by simp; omega)) (by simp),
          decodeFrom_last (le_ofNat_le (by simp; omega)) rfl, hb2, hb3, hb4]
        simp only
        rw [back _ (by omega)]; rfl

theorem decodeFrom_encode (i : Nat) (done t : Text) :
    decodeFrom i none done (encode t) = .ok (done.reverse ++ t) := by
  induction t generalizing i done with
  | nil => simp [encode, decodeFrom]
  | cons c rest ih =>
    have h : encode (c :: rest) = String.utf8EncodeChar c ++ encode rest := rfl
    rw [h, decodeFrom_encodeChar, ih]
    simp

theorem decode_encode (t : Text) : decode (encode t) = .ok t := by
  simp [decode, decodeFrom_encode]

/-! ## Writing what was read -/

/-- What stands behind the start of an open form is the next of its bytes. -/
theorem exists_of_decodeFrom_begun {i : Nat} {f : Begun} {done t : Text} {bytes : Bytes}
    (h : decodeFrom i (some f) done bytes = .ok t) :
    ∃ b rest, bytes = b :: rest ∧ f.low.toNat ≤ b.toNat ∧ b.toNat ≤ f.high.toNat ∧
      (if f.missing = 1 then
        decodeFrom (i + 1) none (Char.ofNat (f.number * 64 + (b.toNat - 0x80)) :: done) rest
      else
        decodeFrom (i + 1) (some ⟨f.start, f.byte, f.missing - 1, 0x80, 0xBF,
          f.number * 64 + (b.toNat - 0x80)⟩) done rest) = .ok t := by
  cases bytes with
  | nil => cases h
  | cons b rest =>
    unfold decodeFrom at h
    dsimp only at h
    split at h
    · rename_i hrange
      exact ⟨b, rest, rfl, UInt8.le_iff_toNat_le.mp hrange.1, UInt8.le_iff_toNat_le.mp hrange.2, h⟩
    · cases h

/-- What a first byte begins. -/
theorem begin?_cases {i : Nat} {b : UInt8} {f : Begun} (h : begin? i b = some f) :
    (0xC2 ≤ b.toNat ∧ b.toNat < 0xE0 ∧ f = ⟨i, b, 1, 0x80, 0xBF, b.toNat - 0xC0⟩) ∨
    (0xE0 ≤ b.toNat ∧ b.toNat < 0xF0 ∧ f = ⟨i, b, 2, if b = 0xE0 then 0xA0 else 0x80,
      if b = 0xED then 0x9F else 0xBF, b.toNat - 0xE0⟩) ∨
    (0xF0 ≤ b.toNat ∧ b.toNat < 0xF5 ∧ f = ⟨i, b, 3, if b = 0xF0 then 0x90 else 0x80,
      if b = 0xF4 then 0x8F else 0xBF, b.toNat - 0xF0⟩) := by
  unfold begin? at h
  simp only [UInt8.lt_iff_toNat_lt, UInt8.reduceToNat] at h
  split at h
  · cases h
  · split at h
    · exact .inl ⟨by omega, by omega, (Option.some.inj h).symm⟩
    · split at h
      · exact .inr (.inl ⟨by omega, by omega, (Option.some.inj h).symm⟩)
      · split at h
        · exact .inr (.inr ⟨by omega, by omega, (Option.some.inj h).symm⟩)
        · cases h

/-- A byte is told by its number. -/
theorem ofNat_eq {n : Nat} {b : UInt8} (h : n = b.toNat) : UInt8.ofNat n = b := by
  rw [h, UInt8.ofNat_toNat]

/-- The number of the character that a number stands for. -/
theorem toNat_val_ofNat {n : Nat} (h : n < 0xD800 ∨ (0xDFFF < n ∧ n < 0x110000)) :
    (Char.ofNat n).val.toNat = n := by
  unfold Char.ofNat
  rw [dif_pos h]
  rfl

theorem encodeChar_one {b : UInt8} (h : b.toNat < 0x80) : String.utf8EncodeChar (Char.ofNat b.toNat) = [b] := by
  unfold String.utf8EncodeChar
  rw [toNat_val_ofNat (by omega)]
  dsimp only
  rw [if_pos (by omega), UInt8.ofNat_toNat]

section

variable {b c e g : UInt8} (hc : 0x80 ≤ c.toNat ∧ c.toNat ≤ 0xBF)

include hc

theorem encodeChar_two (hb : 0xC2 ≤ b.toNat ∧ b.toNat < 0xE0) :
    String.utf8EncodeChar (Char.ofNat ((b.toNat - 0xC0) * 64 + (c.toNat - 0x80))) = [b, c] := by
  unfold String.utf8EncodeChar
  rw [toNat_val_ofNat (by omega)]
  dsimp only
  rw [if_neg (by omega), if_pos (by omega), ofNat_eq (b := b) (by omega), ofNat_eq (b := c) (by omega)]

variable (he : 0x80 ≤ e.toNat ∧ e.toNat ≤ 0xBF)

include he

theorem encodeChar_three (hb : 0xE0 ≤ b.toNat ∧ b.toNat < 0xF0) (hlow : b.toNat = 0xE0 → 0xA0 ≤ c.toNat)
    (hhigh : b.toNat = 0xED → c.toNat ≤ 0x9F) :
    String.utf8EncodeChar (Char.ofNat (((b.toNat - 0xE0) * 64 + (c.toNat - 0x80)) * 64 + (e.toNat - 0x80))) =
      [b, c, e] := by
  unfold String.utf8EncodeChar
  rw [toNat_val_ofNat (by omega)]
  dsimp only
  rw [if_neg (by omega), if_neg (by omega), if_pos (by omega), ofNat_eq (b := b) (by omega),
    ofNat_eq (b := c) (by omega), ofNat_eq (b := e) (by omega)]

theorem encodeChar_four (hb : 0xF0 ≤ b.toNat ∧ b.toNat < 0xF5) (hlow : b.toNat = 0xF0 → 0x90 ≤ c.toNat)
    (hhigh : b.toNat = 0xF4 → c.toNat ≤ 0x8F) (hg : 0x80 ≤ g.toNat ∧ g.toNat ≤ 0xBF) :
    String.utf8EncodeChar (Char.ofNat ((((b.toNat - 0xF0) * 64 + (c.toNat - 0x80)) * 64 + (e.toNat - 0x80)) * 64 +
      (g.toNat - 0x80))) = [b, c, e, g] := by
  unfold String.utf8EncodeChar
  rw [toNat_val_ofNat (by omega)]
  dsimp only
  rw [if_neg (by omega), if_neg (by omega), if_neg (by omega), ofNat_eq (b := b) (by omega),
    ofNat_eq (b := c) (by omega), ofNat_eq (b := e) (by omega), ofNat_eq (b := g) (by omega)]

end

/-- The range of the byte behind a first one, told by the numbers: it is narrower behind two first bytes. -/
theorem range_of_begun {b c low high first last : UInt8} (hlow : 0x80 ≤ low.toNat) (hhigh : high.toNat ≤ 0xBF)
    (h : (if b = first then low else 0x80).toNat ≤ c.toNat ∧ c.toNat ≤ (if b = last then high else 0xBF).toNat) :
    (0x80 ≤ c.toNat ∧ c.toNat ≤ 0xBF) ∧ (b.toNat = first.toNat → low.toNat ≤ c.toNat) ∧
      (b.toNat = last.toNat → c.toNat ≤ high.toNat) := by
  simp only [UInt8.toNat_inj]
  obtain ⟨h₁, h₂⟩ := h
  refine ⟨⟨?_, ?_⟩, fun hb => by rwa [if_pos hb] at h₁, fun hb => by rwa [if_pos hb] at h₂⟩
  · split at h₁
    · omega
    · simpa using h₁
  · split at h₂
    · omega
    · simpa using h₂

/-- Bytes that begin a text begin with the form of its first character. -/
theorem exists_of_decodeFrom {i : Nat} {done t : Text} {b : UInt8} {bytes : Bytes}
    (h : decodeFrom i none done (b :: bytes) = .ok t) :
    ∃ c j rest, b :: bytes = String.utf8EncodeChar c ++ rest ∧ rest.length ≤ bytes.length ∧
      decodeFrom j none (c :: done) rest = .ok t := by
  unfold decodeFrom at h
  dsimp only at h
  split at h
  · rename_i hb
    exact ⟨_, _, bytes, by rw [encodeChar_one (UInt8.lt_iff_toNat_lt.mp hb)]; rfl, Nat.le_refl _, h⟩
  · split at h
    · cases h
    · rename_i f hf
      rcases begin?_cases hf with ⟨h₁, h₂, rfl⟩ | ⟨h₁, h₂, rfl⟩ | ⟨h₁, h₂, rfl⟩
      · obtain ⟨c, rest, rfl, hlow, hhigh, h⟩ := exists_of_decodeFrom_begun h
        exact ⟨_, _, rest, by rw [encodeChar_two ⟨hlow, hhigh⟩ ⟨h₁, h₂⟩]; rfl, by simp, h⟩
      · obtain ⟨c, rest, rfl, hlow, hhigh, h⟩ := exists_of_decodeFrom_begun h
        obtain ⟨e, rest, rfl, hlow', hhigh', h⟩ := exists_of_decodeFrom_begun h
        obtain ⟨hc, hfirst, hlast⟩ := range_of_begun (by decide) (by decide) ⟨hlow, hhigh⟩
        exact ⟨_, _, rest, by rw [encodeChar_three hc ⟨hlow', hhigh'⟩ ⟨h₁, h₂⟩ hfirst hlast]; rfl,
          by simp only [List.length_cons]; omega, h⟩
      · obtain ⟨c, rest, rfl, hlow, hhigh, h⟩ := exists_of_decodeFrom_begun h
        obtain ⟨e, rest, rfl, hlow', hhigh', h⟩ := exists_of_decodeFrom_begun h
        obtain ⟨g, rest, rfl, hlow'', hhigh'', h⟩ := exists_of_decodeFrom_begun h
        obtain ⟨hc, hfirst, hlast⟩ := range_of_begun (by decide) (by decide) ⟨hlow, hhigh⟩
        exact ⟨_, _, rest, by
          rw [encodeChar_four hc ⟨hlow', hhigh'⟩ ⟨h₁, h₂⟩ hfirst hlast ⟨hlow'', hhigh''⟩]; rfl,
          by simp only [List.length_cons]; omega, h⟩

theorem encode_of_decodeFrom {i : Nat} {done t : Text} {bytes : Bytes} (h : decodeFrom i none done bytes = .ok t) :
    ∃ rest, t = done.reverse ++ rest ∧ encode rest = bytes := by
  -- On the number of bytes: a character takes up to four of them at once.
  induction hn : bytes.length using Nat.strongRecOn generalizing i done bytes with
  | _ n ih =>
    cases bytes with
    | nil => exact ⟨[], by rw [List.append_nil]; exact (Except.ok.inj h).symm, rfl⟩
    | cons b bytes =>
      obtain ⟨c, j, rest, hbytes, hlength, h⟩ := exists_of_decodeFrom h
      rw [List.length_cons] at hn
      obtain ⟨t', rfl, rfl⟩ := ih rest.length (by omega) h rfl
      refine ⟨c :: t', by simp, ?_⟩
      rw [hbytes]
      rfl

/-- Bytes that are read and written again are the same. -/
theorem encode_of_decode {bytes : Bytes} {t : Text} (h : decode bytes = .ok t) : encode t = bytes := by
  obtain ⟨rest, rfl, h⟩ := encode_of_decodeFrom h
  exact h

end Inlay.Utf8
